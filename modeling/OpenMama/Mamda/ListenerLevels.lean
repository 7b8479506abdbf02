import OpenMama.Mamda.OrderBookListener

/-!
# The level a listener has in hand

While a level message is handled the listener holds one level, which is in the
book or already detached from it.  `InHand` says what the book is then: the book
before the message, but for the place of that level.  Each step of the listener
on the level keeps it, so a proof about a level message follows the level alone.
-/

namespace Mamda

open Mama Lib List

/-! ## Entries that leave a level -/

namespace PriceLevel

theorem entryList_removeEntry (counts : Entry → Bool) (l : PriceLevel) (ref : Ref) :
    (l.removeEntry counts ref).entryList = l.entryList.eraseP (·.ref == ref) := by
  unfold removeEntry eraseEntryByIterator
  split
  · next hnone =>
    refine (eraseP_of_forall_not fun e he => ?_).symm
    exact find?_eq_none.mp hnone e he
  · rfl

theorem removeEntry_frame (counts : Entry → Bool) (l : PriceLevel) (ref : Ref) :
    (l.removeEntry counts ref).ref = l.ref ∧ (l.removeEntry counts ref).price = l.price ∧
    (l.removeEntry counts ref).side = l.side ∧ (l.removeEntry counts ref).orderType = l.orderType ∧
    (l.removeEntry counts ref).book = l.book := by
  unfold removeEntry eraseEntryByIterator
  split <;> exact ⟨rfl, rfl, rfl, rfl, rfl⟩

end PriceLevel

namespace Book

/-! ## Writing a level back -/

theorem storeLevel_of_find {b : Book} {s : BookSide} {l l₀ : PriceLevel} (hs : l.side = s.side)
    (hf : b.findLevel s l.price = some l₀) (href : l₀.ref = l.ref) :
    b.storeLevel l = b.putLevel (.limit s l.price) l := by
  rw [storeLevel, hs, BookSide.book?_side]
  simp [hf, href]

theorem storeLevel_of_none {b : Book} {s : BookSide} {l : PriceLevel} (hs : l.side = s.side)
    (hf : b.findLevel s l.price = none) :
    b.storeLevel l = { b with
      detachedLevels := b.detachedLevels.map fun x => if x.ref = l.ref then l else x } := by
  rw [storeLevel, hs, BookSide.book?_side]
  simp [hf]

theorem storeLevel_frame (b : Book) (l : PriceLevel) :
    (b.storeLevel l).addr = b.addr ∧ (b.storeLevel l).nextRef = b.nextRef ∧
      (b.storeLevel l).checkVisibility = b.checkVisibility := by
  unfold storeLevel
  split
  · exact ⟨rfl, rfl, rfl⟩
  · split
    · split
      · exact ⟨rfl, rfl, rfl⟩
      · exact ⟨rfl, rfl, rfl⟩
    · exact ⟨rfl, rfl, rfl⟩

theorem detachLevel_of_find {b : Book} {s : BookSide} {l l₀ : PriceLevel} (hs : l.side = s.side)
    (hm : l.orderType = .limit) (hf : b.findLevel s l.price = some l₀) :
    b.detachLevel l =
      { b.eraseLevel s l.price with detachedLevels := b.detachedLevels ++ [l] } := by
  simp [detachLevel, hm, hs, hf]

theorem detachLevel_of_none {b : Book} {s : BookSide} {l : PriceLevel} (hs : l.side = s.side)
    (hm : l.orderType = .limit) (hf : b.findLevel s l.price = none) : b.detachLevel l = b := by
  simp [detachLevel, hm, hs, hf]

/-! ## The level in hand -/

/-- The level fits its place in the book: it lies under its price and side, is linked to the book,
and its entries have addresses of their own, all given out before. -/
structure Fit (b : Book) (s : BookSide) (p : Price) (l : PriceLevel) : Prop where
  price : l.price = p
  side : l.side = s.side
  limit : l.orderType = .limit
  linked : l.book = some b.addr
  refs : (l.entryList.map Entry.ref).Nodup
  below : ∀ e ∈ l.entryList, e.ref.index < b.nextRef

theorem Fit.change {b : Book} {s : BookSide} {p : Price} {l l' : PriceLevel} (h : b.Fit s p l)
    (hprice : l'.price = l.price) (hside : l'.side = l.side) (hlimit : l'.orderType = l.orderType)
    (hlinked : l'.book = l.book) (hrefs : (l'.entryList.map Entry.ref).Nodup)
    (hbelow : ∀ e ∈ l'.entryList, e.ref.index < b.nextRef) : b.Fit s p l' :=
  ⟨hprice.trans h.price, hside.trans h.side, hlimit.trans h.limit, hlinked.trans h.linked, hrefs,
    hbelow⟩

theorem Fit.later {b b' : Book} {s : BookSide} {p : Price} {l : PriceLevel} (h : b.Fit s p l)
    (haddr : b'.addr = b.addr) (hnext : b.nextRef ≤ b'.nextRef) : b'.Fit s p l :=
  ⟨h.price, h.side, h.limit, by rw [h.linked, haddr], h.refs,
    fun e he => lt_of_lt_of_le (h.below e he) hnext⟩

/-- The book `b` has come from `b₀` by work on the level `l` alone, which lies at `p` on the side
`s` or is detached. -/
structure InHand (b₀ b : Book) (s : BookSide) (p : Price) (attached : Bool) (l : PriceLevel) :
    Prop where
  found : ∀ t q, b.findLevel t q =
    if t = s ∧ q = p then (if attached then some l else none) else b₀.findLevel t q
  fit : b.Fit s p l
  addr : b.addr = b₀.addr
  next : b₀.nextRef ≤ b.nextRef
  check : b.checkVisibility = b₀.checkVisibility

section InHand

variable {b₀ b : Book} {s : BookSide} {p : Price} {attached : Bool} {l : PriceLevel}

section

variable (h : InHand b₀ b s p attached l)

include h

theorem InHand.here : b.findLevel s l.price = if attached then some l else none := by
  rw [h.found, if_pos ⟨rfl, h.fit.price⟩]

theorem InHand.congr {b' : Book} (hlev : b'.levels = b.levels)
    (haddr : b'.addr = b.addr) (hnext : b.nextRef ≤ b'.nextRef)
    (hcheck : b'.checkVisibility = b.checkVisibility) : InHand b₀ b' s p attached l where
  found t q := by
    show (b'.levels.get t).find? q = _
    rw [hlev]
    exact h.found t q
  fit := h.fit.later haddr hnext
  addr := haddr.trans h.addr
  next := h.next.trans hnext
  check := hcheck.trans h.check

theorem InHand.publish (e : Option Entry) (l' : PriceLevel)
    (n : Int) (pa ea : Action) : InHand b₀ (b.publish e l' n pa ea) s p attached l :=
  h.congr rfl rfl (le_refl _) rfl

theorem InHand.store {l' : PriceLevel} (href : l'.ref = l.ref)
    (hfit : b.Fit s p l') : InHand b₀ (b.storeLevel l') s p attached l' := by
  obtain ⟨haddr, hnext, hcheck⟩ := b.storeLevel_frame l'
  have hhere : b.findLevel s l'.price = if attached then some l else none := by
    rw [hfit.price, ← h.fit.price]; exact h.here
  refine ⟨fun t q => ?_, hfit.later haddr hnext.ge, haddr.trans h.addr, hnext ▸ h.next,
    hcheck.trans h.check⟩
  cases attached with
  | true =>
    rw [storeLevel_of_find hfit.side hhere href.symm, findLevel_putLevel, hfit.price]
    by_cases hk : t = s ∧ q = p
    · rw [if_pos hk, if_pos hk, if_pos rfl]
    · rw [if_neg hk, if_neg hk, h.found, if_neg hk]
  | false => rw [storeLevel_of_none hfit.side hhere]; exact h.found t q

theorem InHand.detach : InHand b₀ (b.detachLevel l) s p false l := by
  have hhere := h.here
  cases attached with
  | true =>
    rw [detachLevel_of_find h.fit.side h.fit.limit hhere]
    refine ⟨fun t q => ?_, h.fit.later rfl (le_refl _), h.addr, h.next, h.check⟩
    show (b.eraseLevel s l.price).findLevel t q = _
    rw [findLevel_eraseLevel, h.fit.price]
    by_cases hk : t = s ∧ q = p
    · rw [if_pos hk, if_pos hk]; rfl
    · rw [if_neg hk, if_neg hk, h.found, if_neg hk]
  | false => rwa [detachLevel_of_none h.fit.side h.fit.limit hhere]

omit h in
theorem InHand.take (hl : b.findLevel s p = some l) (hfit : b.Fit s p l) :
    InHand b b s p true l where
  found t q := by
    by_cases hk : t = s ∧ q = p
    · rw [if_pos hk, hk.1, hk.2, hl]; rfl
    · rw [if_neg hk]
  fit := hfit
  addr := rfl
  next := le_refl _
  check := rfl

omit h in
theorem InHand.create (b : Book) (s : BookSide) (p : Price) :
    let l := (PriceLevel.new (b.fresh 0) p s.side).setOrderBook b.addr
    InHand b ({ b with nextRef := b.nextRef + 1 }.putLevel (.limit s p) l) s p true l := by
  intro l
  refine ⟨fun t q => ?_, ⟨rfl, rfl, rfl, rfl, nodup_nil, fun e he => ?_⟩, rfl, Nat.le_succ _,
    rfl⟩
  · rw [findLevel_putLevel]; rfl
  · cases he

theorem InHand.newEntry (id : String) :
    InHand b₀ (b.levelNewEntry l id).1 s p attached (b.levelNewEntry l id).2.1 := by
  have hnext : InHand b₀ { b with nextRef := b.nextRef + 1 } s p attached l :=
    h.congr rfl rfl (Nat.le_succ _) rfl
  have hfit : Fit { b with nextRef := b.nextRef + 1 } s p (b.levelNewEntry l id).2.1 := by
    refine hnext.fit.change rfl rfl rfl rfl ?_ ?_
    · show ((l.entryList ++ [_]).map Entry.ref).Nodup
      rw [map_append, map_singleton]
      refine nodup_append.mpr ⟨h.fit.refs, pairwise_singleton _ _, fun r hr r' hr' heq => ?_⟩
      rw [mem_singleton] at hr'
      obtain ⟨e, he, rfl⟩ := mem_map.mp hr
      have hlt := h.fit.below e he
      rw [heq, hr'] at hlt
      exact lt_irrefl _ hlt
    · intro e he
      rcases mem_append.mp he with he | he
      · exact hnext.fit.below e he
      · rw [mem_singleton.mp he]; exact Nat.lt_succ_self _
  have hstore := hnext.store (show (b.levelNewEntry l id).2.1.ref = l.ref from rfl) hfit
  unfold levelNewEntry
  dsimp only
  split
  · exact hstore.publish _ _ _ _ _
  · exact hstore

end

end InHand

def Fits (b : Book) : Prop := b.AllLevels b.Fit

theorem InHand.fits {b₀ b : Book} {s : BookSide} {p : Price} {attached : Bool} {l : PriceLevel}
    (h : InHand b₀ b s p attached l) (h₀ : b₀.Fits) : b.Fits := by
  intro t q l' hl'
  rw [h.found] at hl'
  by_cases hk : t = s ∧ q = p
  · obtain ⟨rfl, rfl⟩ := hk
    rw [if_pos ⟨rfl, rfl⟩] at hl'
    split at hl'
    · rw [← Option.some.inj hl']; exact h.fit
    · cases hl'
  · rw [if_neg hk] at hl'; exact (h₀ t q l' hl').later h.addr h.next

end Book

namespace Listener

/-! ## The level of a message -/

/-- The time of a message goes to its level, unless it is not set. -/
def stamped (t : DateTime) (l : PriceLevel) : PriceLevel := if t.empty then l else l.setTime t

theorem stamped_fit {b : Book} {s : BookSide} {p : Price} {l : PriceLevel} (h : b.Fit s p l)
    (t : DateTime) : b.Fit s p (stamped t l) := by
  unfold stamped
  split
  · exact h
  · exact h.change rfl rfl rfl rfl h.refs h.below

theorem stamped_ref (t : DateTime) (l : PriceLevel) : (stamped t l).ref = l.ref := by
  unfold stamped
  split <;> rfl

section Part1

variable {x : Listener} {s : BookSide} (hs : x.fields.plSide = s.side)

include hs

theorem processLevelPart1_missing (ha : x.fields.plAction = .delete)
    (hf : x.book.findLevel s x.fields.plPrice = none) : x.processLevelPart1 = .ok (x, none) := by
  simp [processLevelPart1, hs, ha, hf]

theorem processLevelPart1_new (ha : x.fields.plAction ≠ .delete)
    (hf : x.book.findLevel s x.fields.plPrice = none) :
    let l := stamped x.fields.plTime
      ((PriceLevel.new (x.book.fresh 0) x.fields.plPrice s.side).setOrderBook x.book.addr)
    ∃ b, x.processLevelPart1 = .ok ({ x with
          book := b, fields := { x.fields with plAction := .add } }, some l) ∧
      x.book.InHand b s x.fields.plPrice true l := by
  have hnew := (Book.InHand.create x.book s x.fields.plPrice).publish none
    ((PriceLevel.new (x.book.fresh 0) x.fields.plPrice s.side).setOrderBook x.book.addr) 0 .add
    .unknown
  refine ⟨_, ?_, hnew.store (stamped_ref x.fields.plTime _) (stamped_fit hnew.fit _)⟩
  simp only [processLevelPart1, hs, BookSide.book?_side, if_neg ha, Book.findOrCreateLevel, hf]
  rfl

end Part1

/-! ## The entries of a message -/

theorem entryList_changedLevel (f : BookMsgFields) (l : PriceLevel) (e : Entry) :
    (changedLevel f l e).entryList =
      updateFirst (·.ref == e.ref) (fun _ => changedEntry f e) l.entryList := by
  have hlist : ((l.entries.map (updateFirst (·.ref == e.ref) fun _ => changedEntry f e)).getD []) =
      updateFirst (·.ref == e.ref) (fun _ => changedEntry f e) (l.entries.getD []) := by
    cases l.entries <;> rfl
  unfold changedLevel
  dsimp only
  split <;> exact hlist

theorem changedLevel_frame (f : BookMsgFields) (l : PriceLevel) (e : Entry) :
    (changedLevel f l e).ref = l.ref ∧ (changedLevel f l e).price = l.price ∧
      (changedLevel f l e).side = l.side ∧ (changedLevel f l e).orderType = l.orderType ∧
      (changedLevel f l e).book = l.book ∧ (changedLevel f l e).size = l.size ∧
      (changedLevel f l e).numEntriesTotal = l.numEntriesTotal := by
  unfold changedLevel
  dsimp only
  split <;> exact ⟨rfl, rfl, rfl, rfl, rfl, rfl, rfl⟩

theorem changedLevel_fit {b : Book} {s : BookSide} {p : Price} {l : PriceLevel}
    (h : b.Fit s p l) (f : BookMsgFields) (e : Entry) : b.Fit s p (changedLevel f l e) := by
  obtain ⟨-, hprice, hside, hlimit, hlinked, -, -⟩ := changedLevel_frame f l e
  have hrefs : (changedLevel f l e).entryList.map Entry.ref = l.entryList.map Entry.ref := by
    rw [entryList_changedLevel]
    refine map_updateFirst_eq (fun a ha => ?_) _
    exact (beq_iff_eq.mp ha).symm
  refine h.change hprice hside hlimit hlinked (hrefs ▸ h.refs) fun a ha => ?_
  have hmem : a.ref ∈ l.entryList.map Entry.ref := hrefs ▸ mem_map_of_mem ha
  obtain ⟨a', ha', heq⟩ := mem_map.mp hmem
  exact heq ▸ h.below a' ha'

theorem changeEntry_keep {b₀ : Book} {x : Listener} {s : BookSide} {p : Price} {attached : Bool}
    {l : PriceLevel} (h : b₀.InHand x.book s p attached l) (pa : Action) {ea : Action}
    (hea : ea ≠ .delete) (e : Entry) (new : Bool) :
    let f := noteSizes x.fields l e new
    ∃ b, x.changeEntry l pa ea e new =
        ({ x with
          fields := f
          book := b
          deltas := x.deltas.addDelta
            ⟨some (changedEntry f e), changedLevel f l e, f.plSizeChange, pa, ea⟩
          haveEntries := true }, changedLevel f l e) ∧
      b₀.InHand b s p attached (changedLevel f l e) := by
  intro f
  have hstore := h.store (changedLevel_frame f l e).1 (changedLevel_fit h.fit f e)
  refine ⟨_, ?_, hstore.publish (some (changedEntry f e)) (changedLevel f l e) f.plSizeChange pa ea⟩
  simp only [changeEntry, if_neg hea]
  rfl

theorem processEntry_new {b₀ : Book} {x : Listener} {s : BookSide} {p : Price} {attached : Bool}
    {l : PriceLevel} (h : b₀.InHand x.book s p attached l) (pa : Action) {id : String}
    (hid : x.fields.entryId = some id) (hne : id ≠ "") (ha : x.fields.entryAction ≠ .delete)
    (hno : l.findEntry id = none) :
    let e : Entry := { Entry.create (x.book.fresh 0) id with priceLevel := some l.ref }
    let l₁ := (x.book.levelNewEntry l id).2.1
    let f := noteSizes x.fields l₁ e true
    let ea := if x.fields.entryAction = .update then .add else x.fields.entryAction
    ∃ b, x.processEntry l pa =
        ({ x with
          fields := f
          book := b
          deltas := x.deltas.addDelta
            ⟨some (changedEntry f e), changedLevel f l₁ e, f.plSizeChange, pa, ea⟩
          haveEntries := true }, changedLevel f l₁ e) ∧
      b₀.InHand b s p attached (changedLevel f l₁ e) ∧
      (changedLevel f l₁ e).entryList = l.entryList ++ [changedEntry f e] := by
  intro e l₁ f ea
  have hea : ea ≠ .delete := by
    show (if x.fields.entryAction = .update then Action.add else x.fields.entryAction) ≠ .delete
    split
    · decide
    · exact ha
  have hnew : b₀.InHand { x with book := (x.book.levelNewEntry l id).1 }.book s p attached l₁ :=
    h.newEntry id
  obtain ⟨b, hb, hin⟩ := changeEntry_keep hnew pa hea e true
  refine ⟨b, ?_, hin, ?_⟩
  · simp only [processEntry, hid, if_neg hne, if_neg ha, hno]; exact hb
  rw [entryList_changedLevel]
  have hold : ∀ a ∈ l.entryList, (a.ref == e.ref) = false := by
    intro a ha
    have hlt := h.fit.below a ha
    refine beq_false_of_ne fun heq => ?_
    rw [heq] at hlt
    exact lt_irrefl _ hlt
  exact (at_split hold (beq_self_eq_true e.ref)).2.2 _

theorem find?_changedLevel {f : BookMsgFields} {l : PriceLevel} {e : Entry}
    (he : l.entryList.find? (·.ref == e.ref) = some e) :
    (changedLevel f l e).entryList.find? (·.ref == e.ref) = some (changedEntry f e) ∧
      (changedLevel f l e).entryList.eraseP (·.ref == e.ref) =
        l.entryList.eraseP (·.ref == e.ref) := by
  obtain ⟨l₁, l₂, hl, hno, -, herase, hu⟩ := split_of_find? he
  rw [entryList_changedLevel, hu, herase]
  have hself : ((changedEntry f e).ref == e.ref) = true := beq_self_eq_true _
  obtain ⟨hfind, her, -⟩ := @at_split _ _ l₁ l₂ _ hno hself
  exact ⟨hfind, her⟩

end Listener

end Mamda

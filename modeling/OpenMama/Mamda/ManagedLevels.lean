import Mathlib.Data.List.Nodup
import OpenMama.Mamda.EntryManager
import OpenMama.Mamda.ListenerLevels

/-!
# The entries of a book and the level in hand

What the manager has to agree with: which entry, by address and id, the book holds
at which side and price (`Book.Holds`), and which addresses lie on levels that are
detached (`Book.Aside`).  While a message works on a level, `Book.Handles` adds to
`Book.InHand` where that level is when it is out of the book.
-/

namespace Mamda

open Mama Lib List

/-! ## Rosters -/

variable {e : Entry} {id : String}
variable {r : Ref}

namespace PriceLevel

/-- The entries of a level, each with its address and its id. -/
def roster (l : PriceLevel) : List (Ref × String) := l.entryList.map fun e => (e.ref, e.id)

theorem mem_roster {l : PriceLevel} :
    (r, id) ∈ l.roster ↔ ∃ e ∈ l.entryList, e.ref = r ∧ e.id = id := by
  rw [roster, mem_map]
  constructor
  · rintro ⟨e, he, heq⟩; exact ⟨e, he, congrArg Prod.fst heq, congrArg Prod.snd heq⟩
  · rintro ⟨e, he, rfl, rfl⟩; exact ⟨e, he, rfl⟩

theorem roster_eq_nil {l : PriceLevel} : l.roster = [] ↔ l.entryList = [] := map_eq_nil_iff

theorem find?_self {l : PriceLevel} (hl : (l.entryList.map Entry.ref).Nodup)
    (he : e ∈ l.entryList) :
    l.entryList.find? (·.ref == e.ref) = some e := by
  cases hf : l.entryList.find? (·.ref == e.ref) with
  | none => exact absurd (beq_self_eq_true e.ref) (by simpa using find?_eq_none.mp hf e he)
  | some e' =>
    have he' := mem_of_find?_eq_some hf
    have href : e'.ref = e.ref := by simpa using find?_some hf
    rw [inj_on_of_nodup_map hl he' he href]

theorem find?_of_roster {l : PriceLevel} (hl : (l.entryList.map Entry.ref).Nodup)
    (h : (r, id) ∈ l.roster) :
    ∃ e, l.entryList.find? (·.ref == r) = some e ∧ e.ref = r ∧ e.id = id := by
  obtain ⟨e, he, rfl, rfl⟩ := mem_roster.mp h
  exact ⟨e, find?_self hl he, rfl, rfl⟩

theorem roster_addEntry (counts : Entry → Bool) (l : PriceLevel) (e : Entry) :
    (l.addEntry counts e).roster = l.roster ++ [(e.ref, e.id)] := by
  show (l.entryList ++ [_]).map _ = _
  rw [map_append]
  rfl

theorem mem_roster_removeEntry {counts : Entry → Bool} {l : PriceLevel}
    (hl : (l.entryList.map Entry.ref).Nodup) {ref : Ref} :
    (r, id) ∈ (l.removeEntry counts ref).roster ↔ (r, id) ∈ l.roster ∧ r ≠ ref := by
  rw [mem_roster, mem_roster, entryList_removeEntry]
  constructor
  · rintro ⟨e, he, rfl, rfl⟩
    refine ⟨⟨e, mem_of_mem_eraseP he, rfl, rfl⟩, ?_⟩
    intro href
    cases hf : l.entryList.find? (·.ref == ref) with
    | none =>
      have hno := find?_eq_none.mp hf e (mem_of_mem_eraseP he)
      exact hno (beq_iff_eq.mpr href)
    | some e₀ =>
      obtain ⟨l₁, l₂, hsplit, -, h₀, herase, -⟩ := split_of_find? hf
      rw [herase] at he
      rw [hsplit, map_append] at hl
      have hnot := perm_middle.nodup_iff.mp hl
      rw [← map_append, nodup_cons] at hnot
      refine hnot.1 (mem_map.mpr ⟨e, he, ?_⟩)
      rw [href, beq_iff_eq.mp h₀]
  · rintro ⟨⟨e, he, rfl, rfl⟩, hne⟩
    refine ⟨e, ?_, rfl, rfl⟩
    exact (mem_eraseP_of_neg (by simpa using hne)).mpr he

end PriceLevel

variable {l' : PriceLevel}

namespace Book

/-! ## What a book holds -/

/-- The book holds an entry of that id, at that address, on the level at `q`. -/
def Holds (b : Book) (q : BookSide × Price) (r : Ref) (id : String) : Prop :=
  ∃ l, b.findLevel q.1 q.2 = some l ∧ (r, id) ∈ l.roster

def Aside (b : Book) (r : Ref) : Prop := ∃ l ∈ b.detachedLevels, ∃ id, (r, id) ∈ l.roster

theorem holds_of_find {b : Book} {s : BookSide} {p : Price} {l : PriceLevel}
    (hl : b.findLevel s p = some l) : (r, id) ∈ l.roster ↔ b.Holds (s, p) r id := by
  constructor
  · exact fun hmem => ⟨l, hl, hmem⟩
  · rintro ⟨l', hl', hmem⟩
    rw [show b.findLevel s p = some l' from hl'] at hl
    exact Option.some.inj hl ▸ hmem

/-- What the book holds, but for the level at `q₀`, in whose place `l` stands. -/
def HoldsBut (b : Book) (q₀ : BookSide × Price) (l : PriceLevel) (q : BookSide × Price) (r : Ref)
    (id : String) : Prop :=
  if q = q₀ then (r, id) ∈ l.roster else b.Holds q r id

/-- Levels have addresses of their own, in the book and detached. -/
structure Apart (b : Book) : Prop where
  below : ∀ s p l, b.findLevel s p = some l → l.ref.index < b.nextRef
  detachedBelow : ∀ l ∈ b.detachedLevels, l.ref.index < b.nextRef
  detached : ∀ s p l, b.findLevel s p = some l → ∀ l' ∈ b.detachedLevels, l'.ref ≠ l.ref
  places : ∀ s p l t q l', b.findLevel s p = some l → b.findLevel t q = some l' →
    l.ref = l'.ref → s = t ∧ p = q

/-! ## The level in hand -/

/-- The level `l` is in hand as `InHand` says; out of the book it is the last that was detached. -/
structure Handles (b₀ b : Book) (s : BookSide) (p : Price) (attached : Bool) (l : PriceLevel) :
    Prop extends b₀.InHand b s p attached l where
  aside : b.detachedLevels = if attached then b₀.detachedLevels else b₀.detachedLevels ++ [l]
  own : ∀ l' ∈ b₀.detachedLevels, l'.ref ≠ l.ref
  others : ∀ t q l', ¬ (t = s ∧ q = p) → b₀.findLevel t q = some l' → l'.ref ≠ l.ref
  mine : l.ref.index < b.nextRef

section Handles

variable {b₀ b : Book} {s : BookSide} {p : Price} {attached : Bool} {l : PriceLevel}

theorem storeLevel_detachedEntries (b : Book) (l : PriceLevel) :
    (b.storeLevel l).detachedEntries = b.detachedEntries := by
  unfold storeLevel
  split
  · rfl
  · split
    · split <;> rfl
    · rfl

theorem detachLevel_frame (b : Book) (l : PriceLevel) :
    (b.detachLevel l).detachedEntries = b.detachedEntries ∧
      (b.detachLevel l).nextRef = b.nextRef := by
  unfold detachLevel
  split
  · exact ⟨rfl, rfl⟩
  · exact ⟨rfl, rfl⟩
  · split <;> exact ⟨rfl, rfl⟩

section

variable (h : b₀.Handles b s p attached l)

include h

theorem Handles.congr {b' : Book} (hlev : b'.levels = b.levels)
    (haside : b'.detachedLevels = b.detachedLevels) (haddr : b'.addr = b.addr)
    (hnext : b.nextRef ≤ b'.nextRef) (hcheck : b'.checkVisibility = b.checkVisibility) :
    b₀.Handles b' s p attached l :=
  ⟨h.toInHand.congr hlev haddr hnext hcheck, haside.trans h.aside, h.own, h.others,
    h.mine.trans_le hnext⟩

theorem Handles.publish (e : Option Entry) (l' : PriceLevel)
    (n : Int) (pa ea : Action) : b₀.Handles (b.publish e l' n pa ea) s p attached l :=
  h.congr rfl rfl rfl (le_refl _) rfl

theorem Handles.store (href : l'.ref = l.ref) (hfit : b.Fit s p l') :
    b₀.Handles (b.storeLevel l') s p attached l' := by
  refine ⟨h.toInHand.store href hfit, ?_, href ▸ h.own, href ▸ h.others, ?_⟩
  rotate_left
  · rw [href, (storeLevel_frame b l').2.1]; exact h.mine
  have hhere : b.findLevel s l'.price = if attached then some l else none := by
    rw [hfit.price, ← h.fit.price]; exact h.here
  have haside := h.aside
  cases attached with
  | true => rwa [storeLevel_of_find hfit.side hhere href.symm]
  | false =>
    rw [storeLevel_of_none hfit.side hhere]
    rw [haside]
    show (b₀.detachedLevels ++ [l]).map _ = _
    rw [map_append, map_singleton, if_pos href.symm]
    congr 1
    refine (map_congr_left fun x hx => ?_).trans (map_id _)
    rw [if_neg]
    · rfl
    · rw [href]; exact h.own x hx

theorem Handles.detach : b₀.Handles (b.detachLevel l) s p false l := by
  refine ⟨h.toInHand.detach, ?_, h.own, h.others, ?_⟩
  rotate_left
  · rw [(b.detachLevel_frame l).2]; exact h.mine
  have hhere := h.here
  have haside := h.aside
  cases attached with
  | true =>
    rw [detachLevel_of_find h.fit.side h.fit.limit hhere]
    rw [haside]
    rfl
  | false => rwa [detachLevel_of_none h.fit.side h.fit.limit hhere]

omit h in
theorem Handles.take (hb : b.Apart) (hl : b.findLevel s p = some l) (hfit : b.Fit s p l) :
    b.Handles b s p true l := by
  refine ⟨InHand.take hl hfit, rfl, hb.detached s p l hl, fun t q l' hne hl' => ?_,
    hb.below s p l hl⟩
  intro href
  exact hne (hb.places t q l' s p l hl' hl href)

omit h in
theorem Handles.create (hb : b.Apart) (s : BookSide) (p : Price) :
    let l := (PriceLevel.new (b.fresh 0) p s.side).setOrderBook b.addr
    b.Handles ({ b with nextRef := b.nextRef + 1 }.putLevel (.limit s p) l) s p true l := by
  intro l
  have hfresh : ∀ l' : PriceLevel, l'.ref.index < b.nextRef → l'.ref ≠ l.ref := by
    intro l' hlt href
    rw [href] at hlt
    exact lt_irrefl _ hlt
  refine ⟨InHand.create b s p, rfl, fun l' hl' => hfresh l' (hb.detachedBelow l' hl'), ?_,
    Nat.lt_succ_self _⟩
  intro t q l' _ hl'
  exact hfresh l' (hb.below t q l' hl')

theorem Handles.apart (h₀ : b₀.Apart) : b.Apart := by
  have hcases : ∀ t q l', b.findLevel t q = some l' →
      (t = s ∧ q = p) ∧ attached ∧ l' = l ∨
        ¬ (t = s ∧ q = p) ∧ b₀.findLevel t q = some l' := by
    intro t q l' hl'
    rw [h.found] at hl'
    by_cases hk : t = s ∧ q = p
    · rw [if_pos hk] at hl'
      cases attached with
      | true => exact .inl ⟨hk, rfl, (Option.some.inj hl').symm⟩
      | false => cases hl'
    · rw [if_neg hk] at hl'; exact .inr ⟨hk, hl'⟩
  have haside : ∀ l' ∈ b.detachedLevels, l' ∈ b₀.detachedLevels ∨ attached = false ∧ l' = l := by
    intro l' hl'
    rw [h.aside] at hl'
    cases attached with
    | true => exact .inl hl'
    | false =>
      rcases mem_append.mp hl' with hl' | hl'
      · exact .inl hl'
      · exact .inr ⟨rfl, mem_singleton.mp hl'⟩
  refine ⟨fun t q l' hl' => ?_, fun l' hl' => ?_, fun t q l' hl' l'' hl'' => ?_,
    fun t q l' t' q' l'' hl' hl'' href => ?_⟩
  · rcases hcases t q l' hl' with ⟨-, -, rfl⟩ | ⟨-, hl'⟩
    · exact h.mine
    · exact (h₀.below t q l' hl').trans_le h.next
  · rcases haside l' hl' with hl' | ⟨-, rfl⟩
    · exact (h₀.detachedBelow l' hl').trans_le h.next
    · exact h.mine
  · rcases hcases t q l' hl' with ⟨-, hatt, rfl⟩ | ⟨hne, hl'⟩
    · rcases haside l'' hl'' with hl'' | ⟨hdet, -⟩
      · exact h.own l'' hl''
      · rw [hatt] at hdet; cases hdet
    · rcases haside l'' hl'' with hl'' | ⟨-, rfl⟩
      · exact h₀.detached t q l' hl' l'' hl''
      · exact (h.others t q l' hne hl').symm
  rcases hcases t q l' hl' with ⟨hk, -, rfl⟩ | ⟨hne, hl'⟩
  · rcases hcases t' q' l'' hl'' with ⟨hk', -, -⟩ | ⟨hne', hl''⟩
    · exact ⟨hk.1.trans hk'.1.symm, hk.2.trans hk'.2.symm⟩
    · exact absurd href.symm (h.others t' q' l'' hne' hl'')
  · rcases hcases t' q' l'' hl'' with ⟨-, -, rfl⟩ | ⟨-, hl''⟩
    · exact absurd href (h.others t q l' hne hl')
    · exact h₀.places t q l' t' q' l'' hl' hl'' href

theorem Handles.addEntry (id : String)
    (deriv : Option SourceDerivative) :
    let r := b.addLevelEntry l id deriv
    b₀.Handles r.1 s p attached r.2.1 ∧ r.2.1.roster = l.roster ++ [(b.fresh 0, id)] ∧
      r.2.2.ref = b.fresh 0 ∧ r.2.2.id = id ∧ r.2.2 ∈ r.2.1.entryList ∧
      r.1.nextRef = b.nextRef + 1 ∧ r.1.detachedEntries = b.detachedEntries := by
  intro r
  have hroster : r.2.1.roster = l.roster ++ [(b.fresh 0, id)] := PriceLevel.roster_addEntry _ l _
  have hlist : r.2.1.entryList = l.entryList ++ [r.2.2] := rfl
  have hnext : ∀ x : Publisher,
      b₀.Handles { b with nextRef := b.nextRef + 1, publisher := x } s p attached l := by
    intro x
    exact h.congr rfl rfl rfl (Nat.le_succ _) rfl
  have hfit : ∀ x : Publisher,
      Fit { b with nextRef := b.nextRef + 1, publisher := x } s p r.2.1 := by
    intro x
    refine (hnext x).fit.change rfl rfl rfl rfl ?_ ?_
    · rw [hlist, map_append, map_singleton]
      refine nodup_append.mpr ⟨h.fit.refs, pairwise_singleton _ _, ?_⟩
      intro a ha a' ha' heq
      rw [mem_singleton] at ha'
      obtain ⟨e, he, rfl⟩ := mem_map.mp ha
      have hlt := h.fit.below e he
      rw [heq, ha'] at hlt
      exact lt_irrefl _ hlt
    · intro e he
      rcases mem_append.mp he with he | he
      · exact (hnext x).fit.below e he
      · rw [mem_singleton.mp he]; exact Nat.lt_succ_self _
  refine ⟨(hnext _).store rfl (hfit _), hroster, rfl, rfl, ?_, ?_, ?_⟩
  · rw [hlist]; exact mem_append_right _ (mem_singleton_self _)
  · exact (storeLevel_frame _ _).2.1
  · exact storeLevel_detachedEntries _ _

/-- The level in hand, as `l₁` just before, without one of its entries, which is detached. -/
theorem Handles.removeEntry (l₁ : PriceLevel)
    (hsame : l₁.ref = l.ref) (hfit₁ : b.Fit s p l₁)
    (he : l₁.entryList.find? (·.ref == e.ref) = some e) : let r := b.removeLevelEntry l₁ e.ref
    b₀.Handles r.1 s p attached r.2 ∧
      (∀ r' id, (r', id) ∈ r.2.roster ↔ (r', id) ∈ l₁.roster ∧ r' ≠ e.ref) ∧
      r.1.nextRef = b.nextRef ∧ r.1.detachedEntries = b.detachedEntries ++ [e] ∧
      r.2.numEntriesTotal = u32Dec l₁.numEntriesTotal := by
  intro r
  have hr : r = ((b.detachEntry { l₁ with entries := some (l₁.entryList.eraseP (·.ref == e.ref)) }
      e).storeLevel (l₁.removeEntry (b.counts l₁) e.ref), l₁.removeEntry (b.counts l₁) e.ref) := by
    show b.removeLevelEntry l₁ e.ref = _
    unfold removeLevelEntry
    simp [he, hfit₁.linked]
  have hdet : b₀.Handles (b.detachEntry { l₁ with entries := some (l₁.entryList.eraseP
      (·.ref == e.ref)) } e) s p attached l := h.congr rfl rfl rfl (le_refl _) rfl
  obtain ⟨href, hprice, hside, hlimit, hlinked⟩ := l₁.removeEntry_frame (b.counts l₁) e.ref
  have hlist := l₁.entryList_removeEntry (b.counts l₁) e.ref
  have hsub : (l₁.entryList.eraseP (·.ref == e.ref)).Sublist l₁.entryList := eraseP_sublist
  have hfit : b.Fit s p (l₁.removeEntry (b.counts l₁) e.ref) := by
    refine hfit₁.change hprice hside hlimit hlinked ?_ ?_
    · rw [hlist]; exact hfit₁.refs.sublist (hsub.map _)
    · rw [hlist]; exact fun e he => hfit₁.below e (hsub.subset he)
  rw [hr]
  refine ⟨hdet.store (href.trans hsame) (hfit.later rfl (le_refl _)), fun r' id => ?_, ?_, ?_, ?_⟩
  · exact PriceLevel.mem_roster_removeEntry hfit₁.refs
  · exact (storeLevel_frame _ _).2.1
  · exact storeLevel_detachedEntries _ _
  · show (l₁.removeEntry (b.counts l₁) e.ref).numEntriesTotal = _
    rw [PriceLevel.removeEntry, PriceLevel.eraseEntryByIterator, he]
    rfl

end

end Handles

end Book

/-! ## The listener's own steps -/

namespace Listener

variable {b₀ : Book} {x : Listener} {s : BookSide} {p : Price} {attached : Bool} {l : PriceLevel}

theorem roster_changedLevel {f : BookMsgFields} {l : PriceLevel}
    (he : l.entryList.find? (·.ref == e.ref) = some e) :
    (changedLevel f l e).roster = l.roster := by
  obtain ⟨l₁, l₂, hl, -, -, -, hu⟩ := split_of_find? he
  unfold PriceLevel.roster
  rw [entryList_changedLevel, hu, hl, map_append, map_append]
  rfl

structure Frame (x y : Listener) : Prop where
  side : y.fields.plSide = x.fields.plSide
  price : y.fields.plPrice = x.fields.plPrice
  next : y.book.nextRef = x.book.nextRef

theorem noteSizes_frame (f : BookMsgFields) (l : PriceLevel) (e : Entry) (new : Bool) :
    (noteSizes f l e new).plSide = f.plSide ∧ (noteSizes f l e new).plPrice = f.plPrice ∧
      (noteSizes f l e new).bookType = f.bookType := by
  unfold noteSizes
  dsimp only
  (repeat' split) <;> exact ⟨rfl, rfl, rfl⟩

section

variable (h : b₀.Handles x.book s p attached l)

include h

section

variable (he : l.entryList.find? (·.ref == e.ref) = some e)

include he

theorem changeEntry_stays (pa : Action) {ea : Action}
    (hea : ea ≠ .delete) (new : Bool) : let r := x.changeEntry l pa ea e new
    b₀.Handles r.1.book s p attached r.2 ∧ Frame x r.1 ∧ r.2.roster = l.roster ∧
      r.1.book.detachedEntries = x.book.detachedEntries ∧ r.1.haveEntries := by
  intro r
  let f := noteSizes x.fields l e new
  have hstore := h.store (changedLevel_frame f l e).1 (changedLevel_fit h.fit f e)
  obtain ⟨hside, hprice, -⟩ := noteSizes_frame x.fields l e new
  have hr : r = ({ x with
      fields := f
      book := (x.book.storeLevel (changedLevel f l e)).publish (some (changedEntry f e))
        (changedLevel f l e) f.plSizeChange pa ea
      deltas := x.deltas.addDelta
        ⟨some (changedEntry f e), changedLevel f l e, f.plSizeChange, pa, ea⟩
      haveEntries := true }, changedLevel f l e) := by
    show x.changeEntry l pa ea e new = _
    simp only [changeEntry, if_neg hea]
    rfl
  rw [hr]
  refine ⟨hstore.publish _ _ _ _ _, ⟨hside, hprice, ?_⟩, roster_changedLevel he, ?_, rfl⟩
  · exact (Book.storeLevel_frame _ _).2.1
  · exact Book.storeLevel_detachedEntries _ _

/-- A deleted entry leaves the level in hand, and with it perhaps the level the book. -/
theorem changeEntry_leaves (pa : Action) (new : Bool) :
    let r := x.changeEntry l pa .delete e new
    ∃ gone : Bool, (gone → x.fields.bookType = 1 ∧ u32Dec l.numEntriesTotal = 0) ∧
      b₀.Handles r.1.book s p (attached && !gone) r.2 ∧ Frame x r.1 ∧
      (∀ r' id, (r', id) ∈ r.2.roster ↔ (r', id) ∈ l.roster ∧ r' ≠ e.ref) ∧
      (∀ e' ∈ r.1.book.detachedEntries, e' ∈ x.book.detachedEntries ∨ e'.ref = e.ref) ∧
      r.1.haveEntries := by
  intro r
  let f := noteSizes x.fields l e new
  let l₁ := changedLevel f l e
  let c := (x.book.storeLevel l₁).removeLevelEntry l₁ e.ref
  have hstore := h.store (changedLevel_frame f l e).1 (changedLevel_fit h.fit f e)
  have hfind : l₁.entryList.find? (·.ref == (changedEntry f e).ref) = some (changedEntry f e) :=
    (find?_changedLevel he).1
  obtain ⟨hremove, hroster, hnext, hdetached, htotal⟩ := hstore.removeEntry _ rfl hstore.fit hfind
  obtain ⟨-, -, -, -, -, -, hcount⟩ := changedLevel_frame f l e
  obtain ⟨hside, hprice, htype⟩ := noteSizes_frame x.fields l e new
  have hgone : ∀ e' ∈ c.1.detachedEntries, e' ∈ x.book.detachedEntries ∨ e'.ref = e.ref := by
    intro e' he'
    rw [show c.1.detachedEntries = _ from hdetached, Book.storeLevel_detachedEntries] at he'
    rcases mem_append.mp he' with he' | he'
    · exact .inl he'
    · rw [mem_singleton.mp he']; exact .inr rfl
  have hmem : ∀ r' id, (r', id) ∈ c.2.roster ↔ (r', id) ∈ l.roster ∧ r' ≠ e.ref := by
    intro r' id
    rw [← roster_changedLevel he (f := f)]
    exact hroster r' id
  have hrefs : c.1.nextRef = x.book.nextRef :=
    (show c.1.nextRef = _ from hnext).trans (Book.storeLevel_frame _ _).2.1
  by_cases hempty : f.bookType = 1 ∧ c.2.numEntriesTotal = 0
  · have hr : r = ({ x with
        fields := { f with plAction := .delete }
        book := (c.1.detachLevel c.2).publish (some (changedEntry f e)) c.2 f.plSizeChange .delete
          .delete
        deltas := x.deltas.addDelta
          ⟨some (changedEntry f e), c.2, f.plSizeChange, .delete, .delete⟩
        haveEntries := true }, c.2) := by
      show x.changeEntry l pa .delete e new = _
      simp only [changeEntry, dropEntry]
      rw [if_pos hempty]
      rfl
    obtain ⟨hentries, hnext'⟩ := c.1.detachLevel_frame c.2
    refine ⟨true, fun _ => ⟨htype ▸ hempty.1, ?_⟩, ?_⟩
    · rw [← hcount, ← htotal]; exact hempty.2
    · rw [hr, Bool.not_true, Bool.and_false]
      refine ⟨hremove.detach.publish _ _ _ _ _, ⟨hside, hprice, hnext'.trans hrefs⟩, hmem, ?_, rfl⟩
      intro e' he'
      refine hgone e' ?_
      rwa [← hentries]
  have hr : r = ({ x with
      fields := f
      book := c.1.publish (some (changedEntry f e)) c.2 f.plSizeChange pa .delete
      deltas := x.deltas.addDelta ⟨some (changedEntry f e), c.2, f.plSizeChange, pa, .delete⟩
      haveEntries := true }, c.2) := by
    show x.changeEntry l pa .delete e new = _
    simp only [changeEntry, dropEntry]
    rw [if_neg hempty]
    rfl
  refine ⟨false, fun h => absurd h Bool.false_ne_true, ?_⟩
  rw [hr, Bool.not_false, Bool.and_true]
  exact ⟨hremove.publish _ _ _ _ _, ⟨hside, hprice, hrefs⟩, hmem, hgone, rfl⟩

end

theorem deleteShownEntry_spec (he : (e.ref, e.id) ∈ l.roster) :
    let r := x.deleteShownEntries l [e]
    b₀.Handles r.1.book s p attached r.2 ∧ Frame x r.1 ∧
      (∀ r' id, (r', id) ∈ r.2.roster ↔ (r', id) ∈ l.roster ∧ r' ≠ e.ref) ∧
      (∀ e' ∈ r.1.book.detachedEntries, e' ∈ x.book.detachedEntries ∨ e'.ref = e.ref) ∧
      r.1.haveEntries = x.haveEntries := by
  intro r
  let e' : Entry := { e with action := .delete }
  let l₁ : PriceLevel :=
    { l with entries := l.entries.map (updateFirst (·.ref == e.ref) fun _ => e') }
  have hlist : l₁.entryList = updateFirst (·.ref == e.ref) (fun _ => e') l.entryList := by
    show (l.entries.map _).getD [] = updateFirst _ _ (l.entries.getD [])
    cases l.entries <;> rfl
  obtain ⟨e₀, hf, href, hid⟩ := PriceLevel.find?_of_roster h.fit.refs he
  obtain ⟨before, after, hsplit, hno, hself, -, hu⟩ := split_of_find? hf
  have hfind : l₁.entryList.find? (·.ref == e'.ref) = some e' := by
    rw [hlist, hu]; exact (at_split hno (beq_self_eq_true e'.ref)).1
  have hroster : l₁.roster = l.roster := by
    unfold PriceLevel.roster
    rw [hlist, hu, hsplit, map_append, map_append, map_cons, map_cons, href, hid]
  have hrefs : l₁.entryList.map Entry.ref = l.entryList.map Entry.ref := by
    rw [hlist, hu, hsplit, map_append, map_append, map_cons, map_cons, href]
  have hfit : x.book.Fit s p l₁ := by
    refine h.fit.change rfl rfl rfl rfl (hrefs ▸ h.fit.refs) fun a ha => ?_
    have hmem : a.ref ∈ l.entryList.map Entry.ref := hrefs ▸ mem_map_of_mem ha
    obtain ⟨a', ha', heq⟩ := mem_map.mp hmem
    exact heq ▸ h.fit.below a' ha'
  obtain ⟨hremove, hmem, hnext, hdetached, -⟩ := h.removeEntry l₁ rfl hfit hfind
  refine ⟨hremove, ⟨rfl, rfl, hnext⟩, fun r' id => ?_, fun a ha => ?_, rfl⟩
  · rw [← hroster]; exact hmem r' id
  · have ha' : a ∈ x.book.detachedEntries ++ [e'] := hdetached ▸ ha
    rcases mem_append.mp ha' with ha' | ha'
    · exact .inl ha'
    · rw [mem_singleton.mp ha']; exact .inr rfl

end

/-! ## Around the entries -/

theorem roster_stamped (t : DateTime) (l : PriceLevel) : (stamped t l).roster = l.roster := by
  unfold stamped
  split <;> rfl

/-- What `processLevelPart1` hands on: the level at the side and price of the message, with the
entries that the book holds there, out of the book just if the message deletes it. -/
structure TakesUp (x y : Listener) (s : BookSide) (attached : Bool) (l : PriceLevel) : Prop where
  handles : x.book.Handles y.book s x.fields.plPrice attached l
  side : y.fields.plSide = x.fields.plSide
  price : y.fields.plPrice = x.fields.plPrice
  haveEntries : y.haveEntries = x.haveEntries
  detachedEntries : y.book.detachedEntries = x.book.detachedEntries
  roster : ∀ r id, (r, id) ∈ l.roster ↔ x.book.Holds (s, x.fields.plPrice) r id
  deleted : attached = false → x.fields.plAction = .delete ∧ y.fields.plAction = .delete

section Part1

variable (hs : x.fields.plSide = s.side)

include hs

theorem takesUp_deleted (ha : x.fields.plAction = .delete)
    (hf : x.book.findLevel s x.fields.plPrice = some l) (hfit : x.book.Fit s x.fields.plPrice l)
    (hapart : x.book.Apart) : ∃ y, x.processLevelPart1 = .ok (y, some (stamped x.fields.plTime l)) ∧
    TakesUp x y s false (stamped x.fields.plTime l) := by
  have hdet := (Book.Handles.take hapart hf hfit).detach
  refine ⟨{ x with book := (x.book.detachLevel l).storeLevel (stamped x.fields.plTime l) }, ?_, ?_⟩
  · simp only [processLevelPart1, hs, BookSide.book?_side, ha, hf]; rfl
  · refine ⟨hdet.store (stamped_ref _ l) (stamped_fit hdet.fit _), rfl, rfl, rfl, ?_, ?_,
      fun _ => ⟨ha, ha⟩⟩
    · exact (Book.storeLevel_detachedEntries _ _).trans (x.book.detachLevel_frame l).1
    · intro r id
      rw [roster_stamped]
      exact Book.holds_of_find hf

theorem takesUp_found (ha : x.fields.plAction ≠ .delete)
    (hf : x.book.findLevel s x.fields.plPrice = some l) (hfit : x.book.Fit s x.fields.plPrice l)
    (hapart : x.book.Apart) : ∃ y, x.processLevelPart1 = .ok (y, some (stamped x.fields.plTime l)) ∧
    TakesUp x y s true (stamped x.fields.plTime l) := by
  have htake := Book.Handles.take hapart hf hfit
  refine ⟨{ x with
    book := x.book.storeLevel (stamped x.fields.plTime l)
    fields := { x.fields with plAction := .update } }, ?_, ?_⟩
  · simp only [processLevelPart1, hs, BookSide.book?_side, if_neg ha, Book.findOrCreateLevel, hf]
    rfl
  · refine ⟨htake.store (stamped_ref _ l) (stamped_fit htake.fit _), rfl, rfl, rfl, ?_, ?_,
      fun h => absurd h.symm Bool.false_ne_true⟩
    · exact Book.storeLevel_detachedEntries _ _
    · intro r id
      rw [roster_stamped]
      exact Book.holds_of_find hf

theorem takesUp_new (ha : x.fields.plAction ≠ .delete)
    (hf : x.book.findLevel s x.fields.plPrice = none) (hapart : x.book.Apart) :
    let l := stamped x.fields.plTime
      ((PriceLevel.new (x.book.fresh 0) x.fields.plPrice s.side).setOrderBook x.book.addr)
    ∃ y, x.processLevelPart1 = .ok (y, some l) ∧ TakesUp x y s true l := by
  intro l
  let l₀ := (PriceLevel.new (x.book.fresh 0) x.fields.plPrice s.side).setOrderBook x.book.addr
  have hnew := (Book.Handles.create hapart s x.fields.plPrice).publish none l₀ 0 .add .unknown
  refine ⟨{ x with
    book := (({ x.book with nextRef := x.book.nextRef + 1 }.putLevel
      (.limit s x.fields.plPrice) l₀).publish none l₀ 0 .add .unknown).storeLevel l
    fields := { x.fields with plAction := .add } }, ?_, ?_⟩
  · simp only [processLevelPart1, hs, BookSide.book?_side, if_neg ha, Book.findOrCreateLevel, hf]
    rfl
  refine ⟨hnew.store (stamped_ref _ l₀) (stamped_fit hnew.fit _), rfl, rfl, rfl, ?_, ?_,
    fun h => absurd h.symm Bool.false_ne_true⟩
  · exact Book.storeLevel_detachedEntries _ _
  intro r id
  rw [roster_stamped]
  constructor
  · intro hmem; cases hmem
  · rintro ⟨l', hl', -⟩
    rw [show x.book.findLevel s x.fields.plPrice = some l' from hl'] at hf
    cases hf

theorem processLevelPart1_takesUp (hfits : x.book.Fits) (hapart : x.book.Apart) :
    x.processLevelPart1 = .ok (x, none) ∨
      ∃ y attached l, x.processLevelPart1 = .ok (y, some l) ∧ TakesUp x y s attached l := by
  by_cases ha : x.fields.plAction = .delete
  · cases hf : x.book.findLevel s x.fields.plPrice with
    | none => exact .inl (processLevelPart1_missing hs ha hf)
    | some l =>
      obtain ⟨y, hy, htakes⟩ := takesUp_deleted hs ha hf (hfits _ _ _ hf) hapart
      exact .inr ⟨y, false, _, hy, htakes⟩
  cases hf : x.book.findLevel s x.fields.plPrice with
  | none =>
    obtain ⟨y, hy, htakes⟩ := takesUp_new hs ha hf hapart
    exact .inr ⟨y, true, _, hy, htakes⟩
  | some l =>
    obtain ⟨y, hy, htakes⟩ := takesUp_found hs ha hf (hfits _ _ _ hf) hapart
    exact .inr ⟨y, true, _, hy, htakes⟩

end Part1

/-- The level as `processLevelPart2` sets it. -/
def sizedLevel (f : BookMsgFields) (l : PriceLevel) : PriceLevel :=
  let l := l.setSize f.plSize
  if f.bookType ≠ 1 then l.setNumEntries f.plNumEntries else l

theorem sizedLevel_frame (f : BookMsgFields) (l : PriceLevel) :
    (sizedLevel f l).ref = l.ref ∧ (sizedLevel f l).price = l.price ∧
      (sizedLevel f l).side = l.side ∧ (sizedLevel f l).orderType = l.orderType ∧
      (sizedLevel f l).book = l.book ∧ (sizedLevel f l).entryList = l.entryList := by
  unfold sizedLevel
  split <;> exact ⟨rfl, rfl, rfl, rfl, rfl, rfl⟩

/-- The listener when `processLevelPart2` has set the level and reported it. -/
def reportLevel (x : Listener) (l : PriceLevel) : Listener :=
  let x := { x with book := x.book.storeLevel l }
  if x.levelsOnly then
    { x.addDelta none l x.fields.plAction .unknown with
      book := x.book.publish none l x.fields.plSizeChange x.fields.plAction .unknown }
  else x

theorem processLevelPart2_eq (x : Listener) (l : PriceLevel) :
    x.processLevelPart2 l =
      let y := x.reportLevel (sizedLevel x.fields l)
      if y.fields.bookType = 1 ∧ y.haveEntries = false then
        { y with book := y.book.detachLevel (sizedLevel x.fields l) }
      else y := rfl

theorem reportLevel_spec (h : b₀.Handles x.book s p attached l) (href : l'.ref = l.ref)
    (hfit : x.book.Fit s p l') : let y := x.reportLevel l'
    b₀.Handles y.book s p attached l' ∧ y.haveEntries = x.haveEntries ∧
      y.book.detachedEntries = x.book.detachedEntries ∧ y.book.nextRef = x.book.nextRef := by
  have hstore := h.store href hfit
  have hentries := x.book.storeLevel_detachedEntries l'
  have hnext := (x.book.storeLevel_frame l').2.1
  unfold reportLevel
  dsimp only
  split
  · exact ⟨hstore.publish _ _ _ _ _, rfl, hentries, hnext⟩
  · exact ⟨hstore, rfl, hentries, hnext⟩

/-- `processLevelPart2` keeps the entries of the level, which it takes out of the book only where no
entry has come in yet. -/
theorem processLevelPart2_spec (h : b₀.Handles x.book s p attached l) :
    let y := x.processLevelPart2 l
    ∃ attached', (attached = false → attached' = false) ∧
      (attached' = false → attached = false ∨ x.haveEntries = false) ∧
      b₀.Handles y.book s p attached' (sizedLevel x.fields l) ∧ y.haveEntries = x.haveEntries ∧
      y.book.detachedEntries = x.book.detachedEntries ∧ y.book.nextRef = x.book.nextRef := by
  obtain ⟨href, hprice, hside, hlimit, hlinked, hlist⟩ := sizedLevel_frame x.fields l
  have hfit : x.book.Fit s p (sizedLevel x.fields l) := by
    refine h.fit.change hprice hside hlimit hlinked ?_ ?_
    · rw [hlist]; exact h.fit.refs
    · rw [hlist]; exact h.fit.below
  obtain ⟨hhandles, hhave, hentries, hnext⟩ := reportLevel_spec h href hfit
  rw [processLevelPart2_eq]
  dsimp only
  split
  · next hdetach =>
    obtain ⟨hentries', hnext'⟩ :=
      (x.reportLevel (sizedLevel x.fields l)).book.detachLevel_frame (sizedLevel x.fields l)
    exact ⟨false, fun _ => rfl, fun _ => .inr (hhave ▸ hdetach.2), hhandles.detach, hhave,
      hentries'.trans hentries, hnext'.trans hnext⟩
  · exact ⟨attached, id, .inl, hhandles, hhave, hentries, hnext⟩

end Listener

end Mamda

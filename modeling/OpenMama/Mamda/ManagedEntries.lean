import OpenMama.Mamda.ManagedLevels

/-!
# One entry through the manager

What is to hold between the manager and a book is put in the terms of a register
(`Lib.Register`): the entries of the book at their sides and prices, indexed by the
manager.  The level in hand counts with its entries until the message is done with
it, also when it has left the book by then.

`EntryMeets` is the condition under which an entry of a message is handled as the
message has it: what the manager finds for it is on the level in hand, the id is on
no other level, and no entry gets onto or stays on a level that is out of the book.
`Works.processEntry` is the step lemma, `Works.entries` follows it through the
entries of a level.
-/

namespace Mamda

open Mama Lib List Function Option

/-! ## The manager as a register -/

namespace EntryManager

def keyAt (m : EntryManager) (id : String) (q : BookSide × Price) : String :=
  m.key id q.2 q.1.side

/-- The key that an entry takes out of the manager when it is destroyed. -/
def label (m : EntryManager) (r : Ref) : Option String :=
  if m.managed r then some (m.uniqueIds r) else none

/-- The manager as the index of what `holds` says. -/
def register (m : EntryManager) (holds : BookSide × Price → Ref → String → Prop) :
    Register (BookSide × Price) Ref String String :=
  ⟨holds, m.entries, m.label⟩

variable {m : EntryManager} {holds : BookSide × Price → Ref → String → Prop}

theorem label_addEntry (m : EntryManager) (r : Ref) (k : String) :
    (m.addEntry r k).label = Function.update m.label r (some k) := by
  funext s
  show (if Function.update m.managed r true s then some (Function.update m.uniqueIds r k s)
    else none) = _
  by_cases hs : s = r
  · subst hs
    rw [update_self, update_self, update_self, if_pos rfl]
  · rw [update_of_ne hs, update_of_ne hs, update_of_ne hs]; rfl

theorem label_removeEntry (m : EntryManager) (r : Ref) (k : String) :
    (m.removeEntry r k).label = Function.update m.label r none := by
  funext s
  show (if Function.update m.managed r false s then some (m.uniqueIds s) else none) = _
  by_cases hs : s = r
  · subst hs
    rw [update_self, update_self, if_neg Bool.false_ne_true]
  · rw [update_of_ne hs, update_of_ne hs]; rfl

theorem register_addEntry (q : BookSide × Price) (r : Ref) (id k : String) :
    (m.addEntry r k).register (fun q' s i => holds q' s i ∨ q' = q ∧ s = r ∧ i = id) =
      (m.register holds).add q r id k := by
  rw [register, label_addEntry]
  rfl

theorem register_removeEntry (r : Ref) (k : String) :
    (m.removeEntry r k).register (fun q s i => holds q s i ∧ s ≠ r) =
      (m.register holds).drop r k := by
  rw [register, label_removeEntry]
  rfl

theorem register_destroyEntry (m : EntryManager) (r : Ref) :
    (m.destroyEntry r).register holds = (m.register holds).forget r := by
  unfold destroyEntry Register.forget
  by_cases hr : m.managed r
  · have hlabel : (m.register holds).label r = some (m.uniqueIds r) := if_pos hr
    rw [if_pos hr, hlabel]
    rw [register, label_removeEntry]
    rfl
  · have hlabel : (m.register holds).label r = none := if_neg hr
    rw [if_neg hr, hlabel]

theorem register_destroyAll (m : EntryManager) (rs : List Ref) :
    (rs.foldl destroyEntry m).register holds = rs.foldl Register.forget (m.register holds) :=
  (foldl_hom (EntryManager.register · holds) fun m r => (register_destroyEntry m r).symm).symm

theorem keyAt_destroyAll (m : EntryManager) (rs : List Ref) :
    (rs.foldl destroyEntry m).keyAt = m.keyAt := by
  refine foldlRecOn (motive := (EntryManager.keyAt · = m.keyAt)) rs _ rfl fun m' hm r _ => ?_
  rw [← hm]
  unfold destroyEntry
  split <;> rfl

end EntryManager

/-! ## Titles -/

def lastNamed {T : Type} [DecidableEq T] (title : String → BookSide × Price → T)
    (named : List (String × Side × Price)) (t : T) : Option (BookSide × Price) :=
  named.findSome? fun n => n.2.1.book?.bind fun s =>
    if title n.1 (s, n.2.2) = t then some (s, n.2.2) else none

theorem lastNamed_cons {T : Type} [DecidableEq T] (title : String → BookSide × Price → T)
    (named : List (String × Side × Price)) (id : String) (s : BookSide) (p : Price) :
    lastNamed title ((id, s.side, p) :: named) =
      Function.update (lastNamed title named) (title id (s, p)) (some (s, p)) := by
  funext t
  unfold lastNamed
  rw [findSome?_cons]
  simp only [BookSide.book?_side, bind_some]
  by_cases ht : title id (s, p) = t
  · rw [if_pos ht, ← ht, update_self]
  · rw [if_neg ht, update_of_ne (Ne.symm ht)]

def Book.placed (b : Book) : List ((BookSide × Price) × Ref × String) :=
  (b.levels.bid.toList.flatMap fun a => a.2.roster.map fun t => ((.bid, a.1), t)) ++
    b.levels.ask.toList.flatMap fun a => a.2.roster.map fun t => ((.ask, a.1), t)

variable {id : String}
variable {q : BookSide × Price} {r : Ref}

theorem Book.mem_placed {b : Book} : (q, r, id) ∈ b.placed ↔ b.Holds q r id := by
  have hside : ∀ s : BookSide, (q, r, id) ∈ ((b.levels.get s).toList.flatMap fun a =>
      a.2.roster.map fun t => ((s, a.1), t)) ↔ q.1 = s ∧ b.Holds q r id := by
    intro s
    rw [mem_flatMap]
    constructor
    · rintro ⟨⟨p, l⟩, hl, hmem⟩
      obtain ⟨t, ht, heq⟩ := List.mem_map.mp hmem
      cases heq
      exact ⟨rfl, l, SortedMap.mem_toList.mp hl, ht⟩
    · rintro ⟨rfl, l, hl, hmem⟩
      exact ⟨(q.2, l), SortedMap.mem_toList.mpr hl, List.mem_map.mpr ⟨(r, id), hmem, rfl⟩⟩
  rw [Book.placed, mem_append]
  refine (or_congr (hside .bid) (hside .ask)).trans ?_
  constructor
  · rintro (⟨-, h⟩ | ⟨-, h⟩)
    · exact h
    · exact h
  · intro h
    cases hq : q.1 with
    | bid => exact .inl ⟨rfl, h⟩
    | ask => exact .inr ⟨rfl, h⟩

namespace Managed

variable {T : Type} [DecidableEq T]

/-! ## The condition on an entry -/

/-- The condition on the entry that the fields describe; `q` is the place of the level in hand. -/
def EntryMeets (title : String → BookSide × Price → T) (cleans : Bool) (q : BookSide × Price)
    (x : Managed) (l : PriceLevel) : Prop :=
  ∀ id ∈ x.fields.entryId, id ≠ "" →
    (∀ r ∈ x.manager.entries (x.manager.keyAt id q), (r, id) ∈ l.roster) ∧
    if x.fields.entryAction = .delete then
      -- a level of an entry book leaves with its last entry
      x.manager.entries (x.manager.keyAt id q) = none ∨ cleans ∨
        x.book.findLevel q.1 q.2 = none ∨ x.fields.bookType ≠ 1 ∨
        u32Dec l.numEntriesTotal ≠ 0 ∨ l.entryList.length = 1
    else
      (∀ t ∈ x.book.placed, title t.2.2 t.1 = title id q → t.1 = q) ∧
        -- nothing new comes to a level that is out of the book
        (x.manager.entries (x.manager.keyAt id q) ≠ none ∨ cleans ∨
          x.book.findLevel q.1 q.2 ≠ none)

instance (title : String → BookSide × Price → T) (cleans : Bool) (q : BookSide × Price)
    (x : Managed) (l : PriceLevel) : Decidable (EntryMeets title cleans q x l) :=
  @Option.decidableForallMem _ _ (fun _ => @instDecidableForall _ _ inferInstance inferInstance) _

/-! ## The state at work on a level -/

/-- The listener works on the level `l`, which belongs at `(s, p)` and is in the book or detached:
the manager agrees with the book that has `l` in that place. -/
structure Works (title : String → BookSide × Price → T) (late : Prop) (b₀ : Book) (s : BookSide)
    (p : Price) (attached : Bool) (x : Managed) (l : PriceLevel) : Prop where
  handles : b₀.Handles x.book s p attached l
  side : x.fields.plSide = s.side
  price : x.fields.plPrice = p
  sound : (x.manager.register (b₀.HoldsBut (s, p) l)).Sound x.manager.keyAt b₀.Aside late
  placed : (x.manager.register (b₀.HoldsBut (s, p) l)).Placed title (lastNamed title x.named)
  gone : ∀ e ∈ x.book.detachedEntries,
    x.manager.managed e.ref = false ∧ e.ref.index < x.book.nextRef
  below : ∀ q r id, b₀.HoldsBut (s, p) l q r id → r.index < x.book.nextRef
  asideBelow : ∀ r, b₀.Aside r → r.index < x.book.nextRef
  new : x.listener.haveEntries = false → ∀ q r id, ¬ b₀.HoldsBut (s, p) l q r id

section Works

variable {title : String → BookSide × Price → T} {late : Prop} {b₀ : Book} {s : BookSide}
  {p : Price}
  {attached : Bool} {x : Managed} {l : PriceLevel}

theorem holdsBut_self : b₀.HoldsBut (s, p) l (s, p) r id ↔ (r, id) ∈ l.roster := by
  rw [Book.HoldsBut, if_pos rfl]

section

variable (h : Works title late b₀ s p attached x l)

include h

theorem Works.holds (hq : q ≠ (s, p)) : b₀.HoldsBut (s, p) l q r id ↔ x.book.Holds q r id := by
  have hne : ¬ (q.1 = s ∧ q.2 = p) := fun heq => hq (Prod.ext heq.1 heq.2)
  unfold Book.HoldsBut Book.Holds
  rw [if_neg hq, h.handles.found, if_neg hne]

theorem Works.key_eq (id : String) :
    x.manager.key id l.price l.side = x.manager.keyAt id (s, p) := by
  rw [EntryManager.keyAt, h.handles.fit.price, h.handles.fit.side]

theorem Works.withFields {f : BookMsgFields} (hside : f.plSide = x.fields.plSide)
    (hprice : f.plPrice = x.fields.plPrice) : Works title late b₀ s p attached (x.withFields f) l :=
  ⟨h.handles, hside.trans h.side, hprice.trans h.price, h.sound, h.placed, h.gone, h.below,
    h.asideBelow, h.new⟩

theorem Works.findEntry
    (hhere : ∀ r ∈ x.manager.entries (x.manager.keyAt id (s, p)), (r, id) ∈ l.roster) :
    (x.manager.entries (x.manager.keyAt id (s, p)) = none ∧
      x.findEntry l (x.manager.keyAt id (s, p)) = none) ∨
    ∃ e, x.manager.entries (x.manager.keyAt id (s, p)) = some e.ref ∧
      x.findEntry l (x.manager.keyAt id (s, p)) = some e ∧
      l.entryList.find? (·.ref == e.ref) = some e ∧ e.id = id := by
  cases hk : x.manager.entries (x.manager.keyAt id (s, p)) with
  | none =>
    left
    refine ⟨rfl, ?_⟩
    rw [Managed.findEntry, hk]
    rfl
  | some r =>
    right
    obtain ⟨e, hf, rfl, hid⟩ := PriceLevel.find?_of_roster h.handles.fit.refs (hhere r hk)
    refine ⟨e, rfl, ?_, hf, hid⟩
    rw [Managed.findEntry, hk, bind_some, hf]
    rfl

end

variable {e : Entry} {l' : PriceLevel}

theorem changeEntry_here (he : l.entryList.find? (·.ref == e.ref) = some e) (pa ea : Action)
    (new : Bool) : x.changeEntry l pa ea e new =
      (x.withListener (x.listener.changeEntry l pa ea e new).1,
        (x.listener.changeEntry l pa ea e new).2) := by
  have hany : l.entryList.any (·.ref == e.ref) = true :=
    List.any_eq_true.mpr ⟨e, mem_of_find?_eq_some he, beq_self_eq_true e.ref⟩
  rw [Managed.changeEntry, if_pos hany]
  rfl

theorem holdsBut_congr (b₀ : Book) (h : l'.roster = l.roster) (q₀ : BookSide × Price) :
    b₀.HoldsBut q₀ l' = b₀.HoldsBut q₀ l := by
  unfold Book.HoldsBut
  rw [h]

section

variable (h : Works title late b₀ s p attached x l)

include h

theorem Works.name (halone : ∀ t ∈ x.book.placed, title t.2.2 t.1 = title id (s, p) → t.1 = (s, p))
    {holds : BookSide × Price → Ref → String → Prop} {m : EntryManager}
    (hholds : ∀ q r i, holds q r i → b₀.HoldsBut (s, p) l q r i ∨ q = (s, p) ∧ i = id) :
    (m.register holds).Placed title (lastNamed title (x.name id).named) := by
  have hnamed : (x.name id).named = (id, s.side, p) :: x.named := by
    rw [Managed.name, h.side, h.price]
  rw [hnamed, lastNamed_cons]
  refine h.placed.put (fun q r i hitem htitle => ?_) hholds
  by_cases hq : q = (s, p)
  · exact hq
  · exact halone (q, r, i) (Book.mem_placed.mpr ((h.holds hq).mp hitem)) htitle

variable {ea : Action}

theorem Works.updates (he : l.entryList.find? (·.ref == e.ref) = some e)
    (halone : ∀ t ∈ x.book.placed, title t.2.2 t.1 = title e.id (s, p) → t.1 = (s, p)) (pa : Action)
    (hea : ea ≠ .delete) : let r := (x.name e.id).changeEntry l pa ea e false
    Works title late b₀ s p attached r.1 r.2 ∧ r.2.roster = l.roster := by
  intro r
  have hr : r = ((x.name e.id).withListener (x.listener.changeEntry l pa ea e false).1,
      (x.listener.changeEntry l pa ea e false).2) := changeEntry_here he pa ea false
  obtain ⟨hhandles, hframe, hroster, hdetached, hhave⟩ :=
    Listener.changeEntry_stays h.handles he pa hea false
  have hholds := holdsBut_congr b₀ hroster (s, p)
  rw [hr]
  refine ⟨⟨hhandles, hframe.side.trans h.side, hframe.price.trans h.price, ?_, ?_, ?_, ?_, ?_, ?_⟩,
    hroster⟩
  · rw [hholds]; exact h.sound
  · refine h.name halone fun q r i hitem => .inl ?_
    rwa [hholds] at hitem
  · intro a ha
    have hold := h.gone a (hdetached ▸ ha)
    exact ⟨hold.1, hold.2.trans_eq hframe.next.symm⟩
  · intro q r i hitem
    rw [hholds] at hitem
    exact (h.below q r i hitem).trans_eq hframe.next.symm
  · intro r hr; exact (h.asideBelow r hr).trans_eq hframe.next.symm
  · intro hno; cases hhave.symm.trans hno

theorem Works.adds (hfree : x.manager.entries (x.manager.keyAt id (s, p)) = none)
    (halone : ∀ t ∈ x.book.placed, title t.2.2 t.1 = title id (s, p) → t.1 = (s, p)) (pa : Action)
    (hea : ea ≠ .delete) : let c := x.book.addLevelEntry l id x.manager.sourceDerivative
    let r := { (x.name id).withListener { x.listener with book := c.1 } with
      manager := x.manager.addEntry c.2.2.ref (x.manager.keyAt id (s, p)) }.changeEntry c.2.1 pa ea
        c.2.2 true
    Works title late b₀ s p attached r.1 r.2 := by
  intro c r
  obtain ⟨hadd, hroster, href, hid, hmem, hnext, hdetached⟩ :=
    h.handles.addEntry id x.manager.sourceDerivative
  have hfind := PriceLevel.find?_self hadd.fit.refs hmem
  obtain ⟨hhandles, hframe, hstays, hentries, hhave⟩ :=
    Listener.changeEntry_stays (x := { x.listener with book := c.1 }) hadd hfind pa hea true
  let k := x.manager.keyAt id (s, p)
  let y := ({ x.listener with book := c.1 } : Listener).changeEntry c.2.1 pa ea c.2.2 true
  have hr : r = ({ (x.name id).withListener y.1 with
      manager := x.manager.addEntry (x.book.fresh 0) k }, y.2) := by
    refine (changeEntry_here hfind pa ea true).trans ?_
    rfl
  have hy : y.2.roster = l.roster ++ [(x.book.fresh 0, id)] := hstays.trans hroster
  have hholds : b₀.HoldsBut (s, p) y.2 = fun q r i =>
      b₀.HoldsBut (s, p) l q r i ∨ q = (s, p) ∧ r = x.book.fresh 0 ∧ i = id := by
    funext q r i
    unfold Book.HoldsBut
    by_cases hq : q = (s, p)
    · rw [hy]; simp [hq]
    · rw [if_neg hq]; simp [hq]
  have hnew : y.1.book.nextRef = x.book.nextRef + 1 := hframe.next.trans hnext
  have hlate : ∀ {n : Nat}, n < x.book.nextRef → n < y.1.book.nextRef := by
    intro n hn; omega
  rw [hr]
  refine ⟨hhandles, hframe.side.trans h.side, hframe.price.trans h.price, ?_, ?_, ?_, ?_, ?_, ?_⟩
  · rw [hholds]
    rw [EntryManager.register_addEntry]
    refine h.sound.add hfree (fun q i hitem => ?_) fun haside => ?_
    · exact lt_irrefl _ (h.below q _ i hitem)
    · exact lt_irrefl _ (h.asideBelow _ haside)
  · refine h.name halone fun q r i hitem => ?_
    rw [hholds] at hitem
    exact hitem.imp_right fun hnew => ⟨hnew.1, hnew.2.2⟩
  · intro a ha
    obtain ⟨hmanaged, hlt⟩ := h.gone a (hdetached ▸ hentries ▸ ha)
    refine ⟨(update_of_ne ?_ _ _).trans hmanaged, hlate hlt⟩
    intro heq
    rw [heq] at hlt
    exact lt_irrefl _ hlt
  · intro q r i hitem
    rw [hholds] at hitem
    rcases hitem with hitem | ⟨-, rfl, -⟩
    · exact hlate (h.below q r i hitem)
    · show x.book.nextRef + 0 < y.1.book.nextRef; omega
  · intro r hr; exact hlate (h.asideBelow r hr)
  · intro hno; cases hhave.symm.trans hno

theorem Works.drops {ref : Ref} {k : String}
    (hself : (ref, id) ∈ l.roster) (hk : x.manager.entries k = some ref) {y : Listener}
    {attached' : Bool} (hhandles : b₀.Handles y.book s p attached' l') (hframe : x.listener.Frame y)
    (hroster : ∀ r' id', (r', id') ∈ l'.roster ↔ (r', id') ∈ l.roster ∧ r' ≠ ref)
    (hentries : ∀ e ∈ y.book.detachedEntries, e ∈ x.book.detachedEntries ∨ e.ref = ref)
    (hhave : y.haveEntries = false → x.listener.haveEntries = false) :
    Works title late b₀ s p attached'
      { x.withListener y with manager := x.manager.removeEntry ref k } l' := by
  have hitem : b₀.HoldsBut (s, p) l (s, p) ref id := holdsBut_self.mpr hself
  have hholds : b₀.HoldsBut (s, p) l' = fun q r i => b₀.HoldsBut (s, p) l q r i ∧ r ≠ ref := by
    funext q r i
    refine propext ?_
    by_cases hq : q = (s, p)
    · subst hq
      rw [holdsBut_self, holdsBut_self]
      exact hroster r i
    · have hsame : b₀.HoldsBut (s, p) l' q r i ↔ b₀.HoldsBut (s, p) l q r i := by
        unfold Book.HoldsBut
        rw [if_neg hq, if_neg hq]
      refine hsame.trans ⟨fun hold => ⟨hold, ?_⟩, And.left⟩
      rintro rfl
      exact hq (h.sound.one hold hitem).1
  have hnext : y.book.nextRef = x.book.nextRef := hframe.next
  refine ⟨hhandles, hframe.side.trans h.side, hframe.price.trans h.price, ?_, ?_, ?_, ?_, ?_, ?_⟩
  · rw [hholds]
    rw [EntryManager.register_removeEntry]
    exact h.sound.drop hk
  · rw [hholds]; exact h.placed.mono fun q r i hold => hold.1
  · intro a ha
    show Function.update x.manager.managed ref false a.ref = false ∧ _
    by_cases href : a.ref = ref
    · rw [href, update_self]; exact ⟨rfl, (h.below _ _ _ hitem).trans_eq hnext.symm⟩
    · rw [update_of_ne href]
      obtain ⟨hmanaged, hlt⟩ := h.gone a ((hentries a ha).resolve_right href)
      exact ⟨hmanaged, hlt.trans_eq hnext.symm⟩
  · intro q r i hold
    rw [hholds] at hold
    exact (h.below q r i hold.1).trans_eq hnext.symm
  · intro r hr; exact (h.asideBelow r hr).trans_eq hnext.symm
  · intro hno q r i hold
    rw [hholds] at hold
    exact h.new (hhave hno) q r i hold.1

theorem Works.leaves
    (hk : x.manager.entries (x.manager.keyAt e.id (s, p)) = some e.ref)
    (he : l.entryList.find? (·.ref == e.ref) = some e) (pa : Action) :
    let r := { x with manager := x.manager.removeEntry e.ref (x.manager.keyAt e.id (s, p))
      }.changeEntry l pa .delete e false
    ∃ gone : Bool, (gone → x.fields.bookType = 1 ∧ u32Dec l.numEntriesTotal = 0) ∧
      Works title late b₀ s p (attached && !gone) r.1 r.2 ∧
      ∀ r' id, (r', id) ∈ r.2.roster ↔ (r', id) ∈ l.roster ∧ r' ≠ e.ref := by
  intro r
  let y := x.listener.changeEntry l pa .delete e false
  have hr : r = ({ x.withListener y.1 with
      manager := x.manager.removeEntry e.ref (x.manager.keyAt e.id (s, p)) }, y.2) :=
    changeEntry_here he pa .delete false
  obtain ⟨gone, hgone, hhandles, hframe, hroster, hentries, hhave⟩ :=
    Listener.changeEntry_leaves h.handles he pa false
  have hself : (e.ref, e.id) ∈ l.roster :=
    PriceLevel.mem_roster.mpr ⟨e, mem_of_find?_eq_some he, rfl, rfl⟩
  refine ⟨gone, hgone, ?_, hr ▸ hroster⟩
  rw [hr]
  refine h.drops hself hk hhandles hframe hroster hentries fun hno => ?_
  cases hhave.symm.trans hno

theorem Works.deletesShown
    (he : (e.ref, e.id) ∈ l.roster) : let r := x.deleteShownEntries l [e]
    Works title late b₀ s p attached r.1 r.2 ∧
      ∀ r' id, (r', id) ∈ r.2.roster ↔ (r', id) ∈ l.roster ∧ r' ≠ e.ref := by
  intro r
  obtain ⟨hhandles, hframe, hroster, hentries, hhave⟩ :=
    Listener.deleteShownEntry_spec h.handles he
  have hk := h.sound.kept (holdsBut_self.mpr he)
  have hlabel : x.manager.label e.ref = some (x.manager.keyAt e.id (s, p)) := h.sound.inverse.mp hk
  have hkey : x.manager.uniqueIds e.ref = x.manager.keyAt e.id (s, p) := by
    unfold EntryManager.label at hlabel
    split at hlabel
    · exact some.inj hlabel
    · cases hlabel
  refine ⟨?_, hroster⟩
  show Works _ _ _ _ _ _ { x.withListener _ with
    manager := x.manager.removeEntry e.ref (x.manager.uniqueIds e.ref) } _
  rw [hkey]
  exact h.drops he hk hhandles hframe hroster hentries fun hno => hhave.symm.trans hno

end

/-- What an entry does to the level: it leaves the book only without entries or before a cleanup,
and while it is out of the book nothing new comes to it. -/
structure Progress (cleans attached attached' : Bool) (l l' : PriceLevel) : Prop where
  left : attached' = false → attached = false ∨ cleans ∨ l'.roster = []
  nothingNew : attached = false → cleans ∨ ∀ t ∈ l'.roster, t ∈ l.roster

theorem Progress.of_roster {cleans : Bool} {l : PriceLevel} (h : l'.roster = l.roster) :
    Progress cleans attached attached l l' :=
  ⟨.inl, fun _ => .inr fun _ ht => h ▸ ht⟩

variable {cleans : Bool}

theorem Works.deletes (h : Works title (cleans) b₀ s p attached x l)
    (hm : EntryMeets title cleans (s, p) x l) (hid : x.fields.entryId = some e.id) (hne : e.id ≠ "")
    (ha : x.fields.entryAction = .delete)
    (hk : x.manager.entries (x.manager.keyAt e.id (s, p)) = some e.ref)
    (he : l.entryList.find? (·.ref == e.ref) = some e) (pa : Action) :
    let r := { x with manager := x.manager.removeEntry e.ref (x.manager.keyAt e.id (s, p))
      }.changeEntry l pa .delete e false
    ∃ attached', Works title (cleans) b₀ s p attached' r.1 r.2 ∧
      Progress cleans attached attached' l r.2 ∧ ∀ r', (r', e.id) ∉ r.2.roster := by
  intro r
  obtain ⟨gone, hgone, hworks, hroster⟩ := h.leaves hk he pa
  have hself := mem_of_find?_eq_some he
  refine ⟨attached && !gone, hworks, ⟨fun hleft => ?_, fun _ => .inr ?_⟩, fun r' hmem => ?_⟩
  · cases hatt : attached with
    | false => exact .inl rfl
    | true =>
      right
      rw [hatt, Bool.true_and, Bool.not_eq_false'] at hleft
      obtain ⟨htype, htotal⟩ := hgone hleft
      have hthere : x.book.findLevel s p ≠ none := by
        have hhere := h.handles.found s p
        rw [if_pos ⟨rfl, rfl⟩, hatt] at hhere
        rw [hhere]
        exact some_ne_none l
      have hcond := (hm e.id hid hne).2
      rw [if_pos ha, hk] at hcond
      rcases hcond with hnone | hcleans | hnone | hother | hcount | hone
      · cases hnone
      · exact .inl hcleans
      · exact absurd hnone hthere
      · exact absurd htype hother
      · exact absurd htotal hcount
      right
      obtain ⟨e', hone⟩ := List.length_eq_one_iff.mp hone
      rw [eq_nil_iff_forall_not_mem]
      rintro ⟨r', id⟩ hmem
      obtain ⟨hmem, hne'⟩ := (hroster r' id).mp hmem
      obtain ⟨a, ha', rfl, -⟩ := PriceLevel.mem_roster.mp hmem
      rw [hone, mem_singleton] at ha' hself
      exact hne' (ha'.trans hself.symm ▸ rfl)
  · rintro ⟨r', id⟩ hmem; exact ((hroster r' id).mp hmem).1
  · obtain ⟨hmem, hne'⟩ := (hroster r' e.id).mp hmem
    refine hne' (h.sound.eq_of_name (holdsBut_self.mpr hmem) (holdsBut_self.mpr ?_))
    exact PriceLevel.mem_roster.mpr ⟨e, hself, rfl, rfl⟩

/-- **One entry.** -/
theorem Works.processEntry (h : Works title (cleans) b₀ s p attached x l)
    (hm : EntryMeets title cleans (s, p) x l) (pa : Action) :
    let r := x.processEntry l pa
    ∃ attached', Works title (cleans) b₀ s p attached' r.1 r.2 ∧
      Progress cleans attached attached' l r.2 ∧
      ∀ id, x.fields.entryId = some id → id ≠ "" → x.fields.entryAction = .delete →
        ∀ r', (r', id) ∉ r.2.roster := by
  intro r
  cases hid : x.fields.entryId with
  | none =>
    have hr : r = (x, l) := by
      show x.processEntry l pa = _; simp [Managed.processEntry, hid]
    rw [hr]
    exact ⟨attached, h, .of_roster rfl, nofun⟩
  | some id =>
    by_cases hne : id = ""
    · have hr : r = (x, l) := by
        show x.processEntry l pa = _; simp [Managed.processEntry, hid, if_pos hne]
      rw [hr]
      refine ⟨attached, h, .of_roster rfl, fun id' hid' hne' => ?_⟩
      exact absurd ((some.inj hid').symm.trans hne) hne'
    obtain ⟨hhere, hcond⟩ := hm id hid hne
    rcases h.findEntry hhere with ⟨hfree, hnone⟩ | ⟨e, hk, hfound, hfind, rfl⟩
    · by_cases ha : x.fields.entryAction = .delete
      · -- a DELETE of an entry that is not there
        have hgone : ∀ r', (r', id) ∉ l.roster := by
          intro r' hmem
          have hindex := h.sound.kept (holdsBut_self.mpr hmem)
          rw [show x.manager.entries _ = _ from hindex] at hfree
          cases hfree
        by_cases hsize : x.fields.bookType = 1 ∧ x.fields.hasPlSize = false
        · have hr : r = (x.withFields { x.fields with plSize := l.size }, l) := by
            show x.processEntry l pa = _
            simp [Managed.processEntry, hid, if_neg hne, if_pos ha, h.key_eq, hnone, if_pos hsize]
          rw [hr]
          refine ⟨attached, h.withFields rfl rfl, .of_roster rfl, fun id' hid' _ _ => ?_⟩
          rwa [← some.inj hid']
        · have hr : r = (x, l) := by
            show x.processEntry l pa = _
            simp [Managed.processEntry, hid, if_pos ha, h.key_eq, hnone, if_neg hsize]
          rw [hr]
          refine ⟨attached, h, .of_roster rfl, fun id' hid' _ _ => ?_⟩
          rwa [← some.inj hid']
      -- a new entry
      rw [if_neg ha] at hcond
      have hea : (if x.fields.entryAction = Action.update then Action.add
          else x.fields.entryAction) ≠ .delete := by
        split
        · decide
        · exact ha
      have hworks : Works title (cleans) b₀ s p attached r.1 r.2 := by
        show Works _ _ _ _ _ _ (x.processEntry l pa).1 (x.processEntry l pa).2
        simp only [Managed.processEntry, hid, if_neg hne, if_neg ha, h.key_eq, hnone]
        exact h.adds hfree hcond.1 pa hea
      refine ⟨attached, hworks, ⟨.inl, fun hatt => .inl ?_⟩,
        fun _ _ _ hdelete => absurd hdelete ha⟩
      rcases hcond.2 with hindexed | hcleans | hthere
      · exact absurd hfree hindexed
      · exact hcleans
      · refine absurd ?_ hthere
        have hnowhere := h.handles.found s p
        rwa [if_pos ⟨rfl, rfl⟩, hatt] at hnowhere
    by_cases ha : x.fields.entryAction = .delete
    · have hr : r = { x with
          manager := x.manager.removeEntry e.ref (x.manager.keyAt e.id (s, p))
          }.changeEntry l pa .delete e false := by
        show x.processEntry l pa = _
        simp [Managed.processEntry, hid, if_neg hne, if_pos ha, h.key_eq, hfound]
      rw [hr]
      obtain ⟨attached', hworks, hprogress, hgone⟩ := h.deletes hm hid hne ha hk hfind pa
      refine ⟨attached', hworks, hprogress, fun id' hid' _ _ => ?_⟩
      rwa [← some.inj hid']
    rw [if_neg ha] at hcond
    have hr : r = (x.name e.id).changeEntry l pa x.fields.entryAction e false := by
      show x.processEntry l pa = _
      simp [Managed.processEntry, hid, if_neg hne, if_neg ha, h.key_eq, hfound]
    rw [hr]
    obtain ⟨hworks, hroster⟩ := h.updates hfind hcond.1 pa ha
    exact ⟨attached, hworks, .of_roster hroster, fun _ _ _ hdelete => absurd hdelete ha⟩

end Works

end Managed

end Mamda

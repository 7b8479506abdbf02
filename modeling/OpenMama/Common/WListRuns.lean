import OpenMama.Common.WListLinks

/-!
# Runs of the list

What is kept of the iterators is a parameter here: `Rules` says what a property of an
iterator has to withstand, and `Inv.step` takes every call of the list through the lists of
`Rep` and through such a property.
-/

namespace Common.WList

open Lib List Function Option

def Proper (live : List Node) : Prop := (live ++ [Node.tail]).Nodup

/-- An iterator at the first element, where a traversal begins. -/
def atFirst (live : List Node) : Iterator where
  currentElement := some (firstOf live .tail)
  traversal := some { stays := live, available := live.length }

def Iterator.grown (i : Iterator) : Iterator :=
  { i with traversal := i.traversal.map fun t => { t with available := t.available + 1 } }

/-- An element was taken out, and another node is where its iterators go. -/
def Iterator.without (i : Iterator) (e next : Node) : Iterator where
  currentElement := if i.currentElement = some e then some next else i.currentElement
  traversal := i.traversal.map fun t => { t with stays := t.stays.filter (· ≠ e) }

/-- What a property of an iterator over the elements of the list has to withstand.  An iterator
goes back to the first element from the last one, where that is taken out (`W`), and from the
end (`B`). -/
structure Rules (K : List Node → Iterator → Prop) (W B : Iterator → Prop) : Prop where
  stands : ∀ live i, K live i → i.currentElement = none ∨
    ∃ xs ys, live = xs ++ ys ∧ i.currentElement = some (firstOf ys .tail)
  begins : ∀ live, Proper live → K live (atFirst live)
  grows : ∀ xs ys e i, K (xs ++ ys) i → e ∉ xs ++ ys → K (xs ++ e :: ys) i.grown
  leaves : ∀ xs ys e i, Proper (xs ++ e :: ys) → K (xs ++ e :: ys) i →
    (i.currentElement = some e → ys = [] → xs ≠ [] → W i) →
    K (xs ++ ys) (i.without e (firstOf (ys ++ xs) .tail))
  restarts : ∀ live i, Proper live → K live i → i.currentElement = some .tail → B i →
    K live { atFirst live with
      traversal := if i.underWay then i.traversal else (atFirst live).traversal }
  advances : ∀ xs ys a i, Proper (xs ++ a :: ys) → K (xs ++ a :: ys) i →
    i.currentElement = some a → K (xs ++ a :: ys)
      { currentElement := some (firstOf ys .tail),
        traversal := i.traversal.map (·.record (some a)) }
  ends : ∀ live i, Proper live → K live i → i.currentElement = some .tail →
    K live { i with traversal := i.traversal.map (·.record none) }
  circles : ∀ live a, a ∈ live → K live { currentElement := some a }

/-- The lists of the elements, and what is kept of each registered iterator. -/
structure Inv (K : List Node → Iterator → Prop) (l : ListImpl) (live free : List Node) : Prop where
  rep : Rep l live free
  keeps : ∀ it ∈ l.iterators, K live (l.iterator it)

variable {K : List Node → Iterator → Prop} {W B : Iterator → Prop} {l l' : ListImpl}
  {live free xs ys : List Node} {a e : Node} {n it : Nat}

section

variable (h : Rep l live free)

include h

theorem Rep.proper : Proper live := (nodup_cons.1 h.path_nodup).2

theorem Rep.beginTraversal_eq : beginTraversal l = atFirst live := by
  rw [beginTraversal, h.walk_eq, h.first, atFirst]

theorem Rep.of_iterators {iterators : List Nat} {iterator : Nat → Iterator} {created : Nat} :
    Rep { l with iterators := iterators, iterator := iterator, created := created } live free :=
  ⟨h.links, h.chain, h.nodup, h.elements, h.size, h.memory, h.freed, h.detached, h.tail_next,
    h.held,
    h.held_iff⟩

end

variable {i : Iterator}

theorem Inv.setIterator (h : Inv K l live free) (it : Nat) (hi : K live i) :
    Inv K (setIterator l it i) live free := by
  refine ⟨h.rep.of_iterators, fun it' hit' => ?_⟩
  show K live (Function.update l.iterator it i it')
  rcases eq_or_ne it' it with rfl | hne
  · rwa [update_self]
  · rw [update_of_ne hne]; exact h.keeps it' hit'

section

variable (hK : Rules K W B)

include hK

section

variable (h : Inv K l live free)

include h

theorem Inv.stands (hit : it ∈ l.iterators) :
    (l.iterator it).currentElement = none ∨ (l.iterator it).currentElement = some .tail ∨
      ∃ xs a ys, live = xs ++ a :: ys ∧ (l.iterator it).currentElement = some a := by
  rcases hK.stands _ _ (h.keeps it hit) with hnone | ⟨xs, ys, hlive, hcur⟩
  · exact .inl hnone
  · cases ys with
    | nil => exact .inr (.inl hcur)
    | cons a ys => exact .inr (.inr ⟨xs, a, ys, hlive, hcur⟩)

/-! ## Putting in and taking out -/

omit h in
theorem Inv.putIn (h : Inv K l (xs ++ ys) free) (hn : n < l.allocated)
    (he : .element n ∉ xs ++ ys) (hfree : .element n ∉ free) :
    Inv K (putIn l (.element n) (lastOf .head xs) (firstOf ys .tail)) (xs ++ .element n :: ys)
      free :=
  ⟨h.rep.putIn hn he hfree, fun it hit => hK.grows _ _ _ _ (h.keeps it hit) he⟩

section

variable (hn : n < l.allocated)

include hn

section

variable (he : .element n ∉ live)

include he

section

variable (hfree : .element n ∉ free)

include hfree

theorem Inv.insertBeforeNode (ha : a ∈ live ++ [.tail]) :
    ∃ l', insertBeforeNode l (.element n) a = some l' ∧ ∃ live', Inv K l' live' free := by
  obtain ⟨xs, ys, rfl, rfl⟩ : ∃ xs ys, live = xs ++ ys ∧ a = firstOf ys .tail := by
    rcases mem_append.1 ha with ha | ha
    · obtain ⟨xs, ys, rfl⟩ := append_of_mem ha
      exact ⟨xs, a :: ys, rfl, rfl⟩
    · exact ⟨live, [], (append_nil _).symm, mem_singleton.1 ha⟩
  exact ⟨_, h.rep.insertBeforeNode_eq he, _, h.putIn hK hn he hfree⟩

theorem Inv.pushBack : ∃ l', pushBack l (.element n) = some l' ∧ l'.allocated = l.allocated ∧
    Inv K l' (live ++ [.element n]) free := by
  have hend : Inv K l (live ++ []) free := by rwa [append_nil]
  rw [← append_nil live] at he
  exact ⟨_, hend.rep.insertBeforeNode_eq he, rfl, hend.putIn hK hn he hfree⟩

theorem Inv.pushFront : ∃ l', pushFront l (.element n) = some l' ∧ l'.allocated = l.allocated ∧
    Inv K l' (.element n :: live) free := by
  have hfront : Inv K l ([] ++ live) free := h
  exact ⟨_, (h.rep.pushFront_eq he).trans (hfront.rep.insertBeforeNode_eq he), rfl,
    hfront.putIn hK hn he hfree⟩

end

end

end

end

omit hK in
/-- Where the iterators of an element go that is taken out: to the next one, and from the last
to the first. -/
theorem Rep.adjusted (h : Rep l (xs ++ e :: ys) free) :
    (if l.mNext e = some .tail ∧ 1 < l.size then l.mNext .head else l.mNext e) =
      some (firstOf (ys ++ xs) .tail) := by
  have hnext := h.links.next_eq
  cases ys with
  | nil =>
    have hsize : 1 < l.size ↔ xs ≠ [] := by
      rw [h.size, length_append, ← length_pos_iff]
      show 1 < xs.length + 1 ↔ _
      omega
    cases xs with
    | nil => rw [if_neg fun hand => hsize.1 hand.2 rfl, hnext, nil_append]
    | cons b xs => rw [if_pos ⟨hnext, hsize.2 (by simp)⟩, h.first, nil_append, cons_append,
        firstOf_cons, firstOf_cons]
  | cons b ys =>
    have hne : b ≠ .tail := by
      rintro rfl; exact h.tail_notMem (by simp)
    rw [hnext, firstOf_cons, if_neg fun hand => hne (some.inj hand.1), cons_append,
      firstOf_cons]

omit hK in
theorem Rep.takeOut_iterator (h : Rep l (xs ++ e :: ys) free) (hit : it ∈ l.iterators)
    (before after : Node) : (WList.takeOut l e before after).iterator it =
      (l.iterator it).without e (firstOf (ys ++ xs) .tail) := by
  have hadjusted : ((adjustIterators l e).iterator it) =
      { l.iterator it with
        currentElement :=
          ((l.iterator it).without e (firstOf (ys ++ xs) .tail)).currentElement } := by
    rw [adjustIterators, h.adjusted]
    by_cases hcur : (l.iterator it).currentElement = some e
    · simp [Iterator.without, hit, hcur]
    · simp [Iterator.without, hcur]
  show Iterator.mk ((adjustIterators l e).iterator it).currentElement
    (((adjustIterators l e).iterator it).traversal.map _) = _
  rw [hadjusted]
  rfl

theorem Inv.takeOut (h : Inv K l (xs ++ .element n :: ys) free)
    (hlast : ∀ it ∈ l.iterators, (l.iterator it).currentElement = some (.element n) → ys = [] →
      xs ≠ [] → W (l.iterator it)) :
    Inv K (takeOut l (.element n) (lastOf .head xs) (firstOf ys .tail)) (xs ++ ys) free := by
  refine ⟨h.rep.takeOut, fun it hit => ?_⟩
  have hit' : it ∈ l.iterators := hit
  rw [h.rep.takeOut_iterator hit']
  exact hK.leaves _ _ _ _ h.rep.proper (h.keeps it hit') (hlast it hit')

theorem Inv.popFront (h : Inv K l (a :: ys) free) :
    ∃ l', popFront l = some (some a, l') ∧ l'.allocated = l.allocated ∧ Inv K l' ys free := by
  obtain ⟨n, -, rfl⟩ := h.rep.live_element mem_cons_self
  have hfront : Inv K l ([] ++ .element n :: ys) free := h
  exact ⟨_, h.rep.popFront_eq, rfl, hfront.takeOut hK fun _ _ _ _ hne => absurd rfl hne⟩

/-- An iterator stands on the last element, and there are others. -/
def OnLast (l : ListImpl) (it : Nat) (e : Node) : Prop :=
  (l.iterator it).currentElement = some e ∧ l.mNext e = some .tail ∧ 1 < l.size

theorem Inv.removeElement (h : Inv K l live free)
    (hlast : ∀ it ∈ l.iterators, OnLast l it (.element n) → W (l.iterator it)) :
    ∃ l', removeElement l (.element n) = some l' ∧ l'.allocated = l.allocated ∧
      Inv K l' (live.erase (.element n)) free := by
  by_cases he : .element n ∈ live
  · obtain ⟨xs, ys, rfl⟩ := append_of_mem he
    have hnotMem : .element n ∉ xs := by
      have hnodup := nodup_middle.1 h.rep.nodup.of_append_left
      rw [nodup_cons, mem_append, not_or] at hnodup
      exact hnodup.1.1
    refine ⟨_, h.rep.removeElement_eq, rfl, ?_⟩
    rw [erase_append_right _ hnotMem, erase_cons_head]
    refine h.takeOut hK fun it hit hcur hys hxs => hlast it hit ⟨hcur, ?_, ?_⟩
    · rw [h.rep.links.next_eq, hys, firstOf_nil]
    · have hpos := length_pos_iff.2 hxs
      rw [h.rep.size, length_append, length_cons]
      omega
  refine ⟨_, h.rep.removeElement_none he, rfl, ?_⟩
  rw [erase_of_not_mem he]
  refine ⟨h.rep.of_iterators, fun it hit => ?_⟩
  have hit' : it ∈ l.iterators := hit
  have hcur : (l.iterator it).currentElement ≠ some (.element n) := by
    intro hcur
    rcases h.stands hK hit' with hnone | htail | ⟨xs, a, ys, rfl, ha⟩
    · exact absurd (hnone.symm.trans hcur) (by simp)
    · exact absurd (htail.symm.trans hcur) (by simp)
    · cases ha.symm.trans hcur; exact he (by simp)
  show K live (if _ then _ else _)
  rw [if_neg fun hand => hcur hand.2]
  exact h.keeps it hit'

/-! ## Iterators -/

/-- An iterator stands at the end of a list with elements. -/
def AtEnd (l : ListImpl) (it : Nat) : Prop :=
  (l.iterator it).currentElement = some .tail ∧ 0 < l.size

omit hK in
theorem Rep.getCurrentNode_element (h : Rep l live free) (ha : a ∈ live)
    (hcur : (l.iterator it).currentElement = some a) : getCurrentNode l it = (some a, l) := by
  obtain ⟨n, -, rfl⟩ := h.live_element ha
  simp [getCurrentNode, hcur]

section

variable (h : Inv K l live free)

include h

theorem Inv.getCurrentNode (hit : it ∈ l.iterators)
    (hend : AtEnd l it → B (l.iterator it)) :
    (∃ a l', getCurrentNode l it = (some a, l') ∧ a ∈ live ∧
      (l'.iterator it).currentElement = some a ∧
        (∀ it', it' ≠ it → l'.iterator it' = l.iterator it') ∧
      l' = { l with iterator := l'.iterator } ∧ Inv K l' live free) ∨
    (getCurrentNode l it = (none, l) ∧ ((l.iterator it).currentElement = none ∨
      (l.iterator it).currentElement = some .tail ∧ live = [])) := by
  rcases h.stands hK hit with hnone | htail | ⟨xs, a, ys, rfl, hcur⟩
  · right; simp [WList.getCurrentNode, hnone]
  · simp only [WList.getCurrentNode, htail, or_true, if_true]
    rcases Nat.eq_zero_or_pos l.size with hzero | hpos
    · right
      rw [if_neg (by omega)]
      have hempty : live = [] := length_eq_zero_iff.1 (h.rep.size.symm.trans hzero)
      exact ⟨rfl, .inr ⟨trivial, hempty⟩⟩
    left
    rw [if_pos hpos, h.rep.first, h.rep.beginTraversal_eq]
    have hmem : firstOf live .tail ∈ live := by
      cases live with
      | nil => exact absurd h.rep.size (by simp; omega)
      | cons a live => exact mem_cons_self
    refine ⟨_, _, rfl, hmem, ?_, fun it' hne => update_of_ne hne _ _, rfl,
      h.setIterator it (hK.restarts _ _ h.rep.proper (h.keeps it hit) htail (hend ⟨htail, hpos⟩))⟩
    show (Function.update l.iterator it _ it).currentElement = _
    rw [update_self]
    rfl
  · left
    have ha : a ∈ xs ++ a :: ys := by simp
    exact ⟨a, l, h.rep.getCurrentNode_element ha hcur, ha, hcur, fun _ _ => rfl, rfl, h⟩

theorem Inv.createIterator : Inv K (createIterator l).2 live free := by
  refine ⟨h.rep.of_iterators, fun it hit => ?_⟩
  have hrep :
      Rep { l with iterators := l.created :: l.iterators, created := l.created + 1 } live free :=
    h.rep.of_iterators
  show K live (Function.update l.iterator l.created (beginTraversal _) it)
  rw [hrep.beginTraversal_eq]
  rcases eq_or_ne it l.created with rfl | hne
  · rw [update_self]; exact hK.begins _ h.rep.proper
  · rw [update_of_ne hne]
    refine h.keeps it ?_
    have hit' : it ∈ l.created :: l.iterators := hit
    exact (mem_cons.1 hit').resolve_left hne

theorem Inv.iteratorNext (hit : it ∈ l.iterators) (hnull : (l.iterator it).currentElement ≠ none) :
    ∃ rval l', iteratorNext l it = some (rval, l') ∧ Inv K l' live free := by
  rcases h.stands hK hit with hnone | htail | ⟨xs, a, ys, rfl, hcur⟩
  · exact absurd hnone hnull
  · refine ⟨none, _, if_pos htail, h.setIterator it ?_⟩
    exact hK.ends _ _ h.rep.proper (h.keeps it hit) htail
  · have ha : a ∈ xs ++ a :: ys := by simp
    have htail : a ≠ .tail := fun heq => h.rep.tail_notMem (heq ▸ ha)
    refine ⟨some a, _, ?_, h.setIterator it
      (hK.advances _ _ _ _ h.rep.proper (h.keeps it hit) hcur)⟩
    simp [WList.iteratorNext, hcur, h.rep.getCurrentNode_element ha hcur, htail,
      h.rep.links.next_eq]

end

omit hK in
theorem Rep.next_circ (h : Rep l (xs ++ a :: ys) free) :
    (if l.mNext a = some .tail then l.mNext .head else l.mNext a) =
      some (firstOf (ys ++ (xs ++ [a])) .tail) := by
  have hnext := h.links.next_eq
  cases ys with
  | nil =>
    rw [firstOf_nil] at hnext
    rw [if_pos hnext, h.first, nil_append]
  | cons b ys =>
    have hne : b ≠ .tail := by
      rintro rfl; exact h.tail_notMem (by simp)
    rw [hnext, firstOf_cons, if_neg fun heq => hne (some.inj heq), cons_append, firstOf_cons]

omit hK in
theorem Rep.iteratorNextCirc_element (h : Rep l (xs ++ a :: ys) free)
    (hcur : (l.iterator it).currentElement = some a) :
    iteratorNextCirc l it = some (some a,
      setIterator l it { currentElement := some (firstOf (ys ++ (xs ++ [a])) .tail) }) := by
  have ha : a ∈ xs ++ a :: ys := by simp
  simp [iteratorNextCirc, h.getCurrentNode_element ha hcur, hcur, h.next_circ]

omit hK in
theorem Rep.iteratorNextCirc_end (h : Rep l (a :: ys) free)
    (hcur : (l.iterator it).currentElement = some .tail) :
    iteratorNextCirc l it = some (some a,
      setIterator l it { currentElement := some (firstOf (ys ++ [a]) .tail) }) := by
  have hsplit : Rep l ([] ++ a :: ys) free := h
  have hpos : 0 < l.size := by
    rw [h.size, length_cons]; omega
  have hnext := hsplit.next_circ
  rw [h.first, firstOf_cons] at hnext
  simp [iteratorNextCirc, WList.getCurrentNode, hcur, hpos, setIterator, h.first,
    h.beginTraversal_eq,
    atFirst, hnext]

section

variable (h : Inv K l live free)

include h

section

variable (hit : it ∈ l.iterators)

include hit

theorem Inv.iteratorNextCirc
    (hnull : (l.iterator it).currentElement ≠ none) (hempty : l.size = 0 → K [] {}) :
    ∃ rval l', iteratorNextCirc l it = some (rval, l') ∧ Inv K l' live free := by
  have hcirc : ∀ (a : Node) (ys : List Node), a ∈ live → ys.Perm live →
      K live { currentElement := some (firstOf ys .tail) } := by
    intro a ys ha hperm
    refine hK.circles _ _ (hperm.mem_iff.1 ?_)
    cases ys with
    | nil => exact absurd (hperm.mem_iff.2 ha) (by simp)
    | cons b ys => exact mem_cons_self
  rcases h.stands hK hit with hnone | htail | ⟨xs, a, ys, rfl, hcur⟩
  · exact absurd hnone hnull
  · cases live with
    | nil =>
      have hzero : l.size = 0 := h.rep.size
      refine ⟨none, _, ?_, h.setIterator it (hempty hzero)⟩
      simp [WList.iteratorNextCirc, WList.getCurrentNode, htail, hzero, h.rep.tail_next]
    | cons a ys =>
      refine ⟨_, _, h.rep.iteratorNextCirc_end htail, h.setIterator it ?_⟩
      exact hcirc a _ mem_cons_self (perm_append_singleton a ys)
  · refine ⟨_, _, h.rep.iteratorNextCirc_element hcur, h.setIterator it ?_⟩
    refine hcirc a _ (by simp) ?_
    rw [append_cons xs a ys]
    exact perm_append_comm

theorem Inv.iteratorInsertBefore
    (hn : n < l.allocated) (hcur : (WList.getCurrentNode l it).1 ≠ none)
    (hnull : l.mPrev (.element n) = .null) (hend : AtEnd l it → B (l.iterator it)) :
    ∃ l', iteratorInsertBefore l it (.element n) = some l' ∧ ∃ live', Inv K l' live' free := by
  obtain ⟨he, hfree⟩ := h.rep.null_iff.1 hnull
  unfold WList.iteratorInsertBefore
  rcases h.getCurrentNode hK hit hend with ⟨a, l₁, hrun, ha, -, -, hl₁, h₁⟩ | ⟨hrun, -⟩
  · have hn₁ : n < l₁.allocated := by
      rwa [hl₁]
    obtain ⟨l', hput, live', h'⟩ :=
      h₁.insertBeforeNode hK hn₁ he hfree (mem_append_left [Node.tail] ha)
    exact ⟨l', by simp [hrun, hput], live', h'⟩
  · exact absurd (congrArg Prod.fst hrun) hcur

theorem Inv.iteratorMoveElementBefore (hn : n < l.allocated)
    (hcur : (WList.getCurrentNode l it).1 ≠ none)
    (hfreed : l.mPrev (.element n) ≠ .freed) (hend : AtEnd l it → B (l.iterator it))
    (hlast : (WList.getCurrentNode l it).1 ≠ some (.element n) →
      ∀ it' ∈ l.iterators, OnLast l it' (.element n) → W (l.iterator it')) :
    ∃ l', iteratorMoveElementBefore l it (.element n) = some l' ∧
      ∃ live', Inv K l' live' free := by
  unfold WList.iteratorMoveElementBefore
  rcases h.getCurrentNode hK hit hend with ⟨a, l₁, hrun, ha, hcur₁, hothers, hl₁, h₁⟩ | ⟨hrun, -⟩
  · simp only [hrun, bind_eq_bind, bind_some]
    split
    case isFalse => exact ⟨l₁, rfl, live, h₁⟩
    case isTrue hmoved =>
      rw [hrun] at hlast
      have hlast₁ : ∀ it' ∈ l₁.iterators, OnLast l₁ it' (.element n) → W (l₁.iterator it') := by
        rintro it' hit' ⟨hon, hnext, hsize⟩
        rw [hl₁] at hit' hnext hsize
        have hne : it' ≠ it := by
          rintro rfl; exact hmoved.1 (some.inj (hon.symm.trans hcur₁))
        rw [hothers it' hne] at hon ⊢
        exact hlast (fun heq => hmoved.1 (some.inj heq).symm) it' hit' ⟨hon, hnext, hsize⟩
      obtain ⟨l₂, hremove, hallocated, h₂⟩ := h₁.removeElement hK hlast₁
      have hn₂ : n < l₂.allocated := by rwa [hallocated, hl₁]
      have hnodup : live.Nodup := h.rep.nodup.of_append_left
      have he : .element n ∉ live.erase (.element n) :=
        fun hmem => (hnodup.mem_erase_iff.1 hmem).1 rfl
      have ha₂ : a ∈ live.erase (.element n) := hnodup.mem_erase_iff.2 ⟨hmoved.1.symm, ha⟩
      obtain ⟨l', hput, live', h'⟩ := h₂.insertBeforeNode hK hn₂ he
        (fun hmem => hfreed (h.rep.freed_iff.2 hmem)) (mem_append_left [Node.tail] ha₂)
      exact ⟨l', by simp [hremove, hput], live', h'⟩
  · exact absurd (congrArg Prod.fst hrun) hcur

end

end

end

/-! ## Steps -/

def OfList (l : ListImpl) : Label → Prop
  | .freeElement n | .pushBack n | .pushFront n | .removeElement n => n < l.allocated
  | .insertBefore position n => position < l.allocated ∧ n < l.allocated
  | .iteratorCurrent it | .iteratorNext it | .iteratorNextCirc it | .iteratorDestroy it =>
    it ∈ l.iterators
  | .iteratorInsertBefore it n | .iteratorMoveElementBefore it n => it ∈ l.iterators ∧
      n < l.allocated
  | .allocateElement | .popFront | .createIterator => True

/-- What is put in is neither in the list nor freed, the position is not freed, and an iterator
that is followed leads somewhere. -/
def Meets (l : ListImpl) : Label → Prop
  | .pushBack n | .pushFront n => l.mPrev (.element n) = .null
  | .insertBefore position n =>
    l.mPrev (.element position) = .null ∨ l.mNext (.element n) ≠ none ∨
      l.mPrev (.element position) ≠ .freed ∧ l.mPrev (.element n) ≠ .freed
  | .iteratorInsertBefore it n => (getCurrentNode l it).1 ≠ none ∧ l.mPrev (.element n) = .null
  | .iteratorMoveElementBefore it n =>
    (getCurrentNode l it).1 ≠ none ∧ l.mPrev (.element n) ≠ .freed
  | .iteratorNext it | .iteratorNextCirc it => (l.iterator it).currentElement ≠ none
  | .iteratorDestroy it => it ∈ l.iterators.take 2
  | _ => True

/-- The call takes the element out, if it is in the list. -/
def Removes (l : ListImpl) (n : Nat) : Label → Prop
  | .removeElement m => m = n
  | .iteratorMoveElementBefore it m => m = n ∧ (getCurrentNode l it).1 ≠ some (.element n)
  | _ => False

/-- The call asks an iterator for its current node, without moving it on. -/
def LooksAt (it : Nat) : Label → Prop
  | .iteratorCurrent it' | .iteratorInsertBefore it' _ | .iteratorMoveElementBefore it' _ =>
    it' = it
  | _ => False

theorem Inv.iteratorDestroy (h : Inv K l live free) (hit : it ∈ l.iterators.take 2) :
    ∃ l', iteratorDestroy l it = some l' ∧ Inv K l' live free := by
  have hsub : ∀ iterators : List Nat, iterators ⊆ l.iterators →
      Inv K { l with iterators := iterators } live free :=
    fun iterators hsub => ⟨h.rep.of_iterators, fun it' hit' => h.keeps it' (hsub hit')⟩
  unfold WList.iteratorDestroy
  generalize hlist : l.iterators = list at hit hsub
  match list with
  | [] => cases hit
  | [first] =>
    obtain rfl : it = first := by simpa using hit
    exact ⟨_, if_pos rfl, hsub [] (nil_subset _)⟩
  | first :: second :: rest =>
    by_cases hfirst : first = it
    · exact ⟨_, if_pos hfirst, hsub _ (subset_cons_self _ _)⟩
    have hsecond : second = it := by
      have hor : it = first ∨ it = second := by simpa using hit
      exact (hor.resolve_left fun heq => hfirst heq.symm).symm
    refine ⟨{ l with iterators := first :: rest }, ?_, hsub _ ?_⟩
    · show (if first = it then _ else if second = it then _ else none) = _
      rw [if_neg hfirst, if_pos hsecond]
    · exact cons_subset_cons _ (subset_cons_self _ _)

theorem allocateElement_iterators (l : ListImpl) :
    (allocateElement l).2.iterators = l.iterators ∧
      (allocateElement l).2.iterator = l.iterator := by
  unfold allocateElement
  split
  · exact ⟨rfl, rfl⟩
  · split <;> exact ⟨rfl, rfl⟩

theorem freeElement_iterators (l : ListImpl) (e : Node) :
    (freeElement l e).iterators = l.iterators ∧ (freeElement l e).iterator = l.iterator := by
  unfold freeElement
  split <;> exact ⟨rfl, rfl⟩

theorem Inv.of_rep (h : Inv K l live free) {free' : List Node} (hrep : Rep l' live free')
    (hiterators : l'.iterators = l.iterators) (hiterator : l'.iterator = l.iterator) :
    Inv K l' live free' := by
  refine ⟨hrep, fun it hit => ?_⟩
  rw [hiterators] at hit
  rw [hiterator]
  exact h.keeps it hit

/-- Every call that meets the condition goes through, and the list is one again after it. -/
theorem Inv.step (hK : Rules K W B) (h : Inv K l live free) {c : Label} (hof : OfList l c)
    (hmeets : Meets l c)
    (hlast : ∀ n, Removes l n c → ∀ it ∈ l.iterators, OnLast l it (.element n) → W (l.iterator it))
    (hend : ∀ it, LooksAt it c → AtEnd l it → B (l.iterator it))
    (hempty : ∀ it, c = .iteratorNextCirc it → l.size = 0 → K [] {}) :
    ∃ l', step l c = some l' ∧ ∃ live' free', Inv K l' live' free' := by
  cases c with
  | allocateElement =>
    obtain ⟨free', hrep, -⟩ := h.rep.allocateElement
    obtain ⟨hiterators, hiterator⟩ := allocateElement_iterators l
    exact ⟨_, rfl, live, free', h.of_rep hrep hiterators hiterator⟩
  | freeElement n =>
    obtain ⟨free', hrep⟩ := h.rep.freeElement hof
    obtain ⟨hiterators, hiterator⟩ := freeElement_iterators l (.element n)
    exact ⟨_, rfl, live, free', h.of_rep hrep hiterators hiterator⟩
  | pushBack n =>
    obtain ⟨he, hfree⟩ := h.rep.null_iff.1 hmeets
    obtain ⟨l', hrun, live', h'⟩ := h.insertBeforeNode hK hof he hfree
      (mem_append_right live (mem_singleton.2 rfl))
    exact ⟨l', hrun, live', free, h'⟩
  | pushFront n =>
    obtain ⟨he, hfree⟩ := h.rep.null_iff.1 hmeets
    obtain ⟨l', hrun, live', h'⟩ := h.insertBeforeNode hK hof he hfree (firstOf_mem live .tail)
    exact ⟨l', (h.rep.pushFront_eq he).trans hrun, live', free, h'⟩
  | insertBefore position n =>
    show ∃ l', insertBefore l (.element position) (.element n) = some l' ∧ _
    unfold insertBefore
    split
    case isTrue => exact ⟨l, rfl, live, free, h⟩
    case isFalse hneither =>
      rw [not_or, not_not] at hneither
      obtain ⟨hposition, hnext⟩ := hneither
      have hfreed := (hmeets.resolve_left hposition).resolve_left (not_not.2 hnext)
      have hlive : .element position ∈ live := h.rep.live_of_ne hposition hfreed.1
      have he : .element n ∉ live := by
        intro hmem
        obtain ⟨-, b, hb⟩ := h.rep.linked hmem
        exact absurd (hnext.symm.trans hb) (by simp)
      have hfree : .element n ∉ free := fun hmem => hfreed.2 (h.rep.freed_iff.2 hmem)
      obtain ⟨l', hrun, live', h'⟩ := h.insertBeforeNode hK hof.2 he hfree
        (mem_append_left [Node.tail] hlive)
      exact ⟨l', hrun, live', free, h'⟩
  | popFront =>
    cases live with
    | nil => exact ⟨l, congrArg (Option.map Prod.snd) h.rep.popFront_nil, [], free, h⟩
    | cons a ys =>
      obtain ⟨l', hrun, -, h'⟩ := h.popFront hK
      exact ⟨l', congrArg (Option.map Prod.snd) hrun, ys, free, h'⟩
  | removeElement n =>
    obtain ⟨l', hrun, -, h'⟩ := h.removeElement hK (hlast n rfl)
    exact ⟨l', hrun, _, free, h'⟩
  | createIterator => exact ⟨_, rfl, live, free, h.createIterator hK⟩
  | iteratorCurrent it =>
    rcases h.getCurrentNode hK hof (hend it rfl) with ⟨a, l₁, hrun, -, -, -, -, h₁⟩ | ⟨hrun, -⟩
    · exact ⟨l₁, congrArg (fun r : Option Node × ListImpl => some r.2) hrun, live, free, h₁⟩
    · exact ⟨l, congrArg (fun r : Option Node × ListImpl => some r.2) hrun, live, free, h⟩
  | iteratorInsertBefore it n =>
    obtain ⟨l', hrun, live', h'⟩ :=
      h.iteratorInsertBefore hK hof.1 hof.2 hmeets.1 hmeets.2 (hend it rfl)
    exact ⟨l', hrun, live', free, h'⟩
  | iteratorNext it =>
    obtain ⟨rval, l', hrun, h'⟩ := h.iteratorNext hK hof hmeets
    exact ⟨l', congrArg (Option.map Prod.snd) hrun, live, free, h'⟩
  | iteratorNextCirc it =>
    obtain ⟨rval, l', hrun, h'⟩ := h.iteratorNextCirc hK hof hmeets (hempty it rfl)
    exact ⟨l', congrArg (Option.map Prod.snd) hrun, live, free, h'⟩
  | iteratorMoveElementBefore it n =>
    obtain ⟨l', hrun, live', h'⟩ := h.iteratorMoveElementBefore hK hof.1 hof.2 hmeets.1 hmeets.2
      (hend it rfl) fun hne => hlast n ⟨rfl, hne⟩
    exact ⟨l', hrun, live', free, h'⟩
  | iteratorDestroy it =>
    obtain ⟨l', hrun, h'⟩ := h.iteratorDestroy hmeets
    exact ⟨l', hrun, live, free, h'⟩

/-! ## The list alone -/

/-- An iterator stands between two parts of the list, or has no current element. -/
def Placed (live : List Node) (i : Iterator) : Prop :=
  i.currentElement = none ∨ ∃ xs ys, live = xs ++ ys ∧ i.currentElement = some (firstOf ys .tail)

theorem placed_of_mem (ha : a ∈ live) (hcur : i.currentElement = some a) : Placed live i := by
  obtain ⟨xs, ys, rfl⟩ := append_of_mem ha
  exact .inr ⟨xs, a :: ys, rfl, hcur⟩

theorem placed_of_firstOf (zs : List Node) (hzs : zs ⊆ live)
    (hcur : i.currentElement = some (firstOf zs .tail)) : Placed live i := by
  cases zs with
  | nil => exact .inr ⟨live, [], (append_nil _).symm, hcur⟩
  | cons a zs => exact placed_of_mem (hzs mem_cons_self) hcur

theorem placed_rules : Rules Placed (fun _ => True) fun _ => True where
  stands live i h := h
  begins live _ := placed_of_firstOf live (List.Subset.refl _) rfl
  grows xs ys e i h _ := by
    rcases h with hnone | ⟨xs', ys', hsplit, hcur⟩
    · exact .inl hnone
    · refine placed_of_firstOf ys' (fun a ha => ?_) hcur
      have hmem : a ∈ xs ++ ys := hsplit ▸ mem_append_right _ ha
      rw [perm_middle.mem_iff]
      exact mem_cons_of_mem _ hmem
  leaves xs ys e i hproper h _ := by
    by_cases hcur : i.currentElement = some e
    · refine placed_of_firstOf (ys ++ xs) (fun a ha => ?_) (if_pos hcur)
      rwa [perm_append_comm.mem_iff]
    rcases h with hnone | ⟨xs', ys', hsplit, hcur'⟩
    · exact .inl ((if_neg hcur).trans hnone)
    have hi : (i.without e (firstOf (ys ++ xs) .tail)).currentElement = some (firstOf ys' .tail) :=
      (if_neg hcur).trans hcur'
    cases ys' with
    | nil => exact .inr ⟨_, [], (append_nil _).symm, hi⟩
    | cons a ys' =>
      refine placed_of_mem ?_ hi
      have hmem : a ∈ xs ++ e :: ys := hsplit ▸ mem_append_right _ mem_cons_self
      rw [perm_middle.mem_iff] at hmem
      refine (mem_cons.1 hmem).resolve_left ?_
      rintro rfl
      exact hcur hcur'
  restarts live i _ _ _ _ := placed_of_firstOf live (List.Subset.refl _) rfl
  advances xs ys a i _ _ _ := by
    refine placed_of_firstOf ys (fun b hb => ?_) rfl
    exact mem_append_right _ (mem_cons_of_mem _ hb)
  ends live i _ _ htail := placed_of_firstOf [] (nil_subset _) htail
  circles live a ha := placed_of_mem ha rfl

/-- `mNext` leads from the head through the elements to the tail and `mPrev` back, their
number is `size`, the free list ends and has none of them, and no element was handed out
twice. -/
def WellFormed (l : ListImpl) : Prop :=
  ∃ live free, Listed l.mNext (prevNode l) some .head .tail live ∧
    Path l.mNext l.mFreeList free ∧ (live ++ free).Nodup ∧
    (∀ a ∈ live ++ free, ∃ n, n < l.allocated ∧ a = .element n) ∧
    l.size = live.length ∧ l.handedOut.Nodup

theorem Rep.wellFormed (h : Rep l live free) : WellFormed l :=
  ⟨live, free, h.links, h.chain, h.nodup, h.elements, h.size, h.held⟩

theorem inv_create (K : List Node → Iterator → Prop) : Inv K create [] [] :=
  ⟨create_rep, fun _ hit => absurd hit (by simp [create])⟩

/-- The list stays well formed, and no call fails, in every run whose calls meet the condition. -/
theorem wellFormed_of_runs (l : ListImpl)
    (hl : Runs step (fun l c => OfList l c ∧ Meets l c) create l) :
    WellFormed l ∧ ∀ c, OfList l c → Meets l c → ∃ l', step l c = some l' := by
  have hstep : ∀ l live free c, Inv Placed l live free → OfList l c → Meets l c →
      ∃ l', step l c = some l' ∧ ∃ live' free', Inv Placed l' live' free' :=
    fun l live free c h hof hmeets => h.step placed_rules hof hmeets (fun _ _ _ _ _ => trivial)
      (fun _ _ _ => trivial) fun _ _ _ => .inl rfl
  obtain ⟨live, free, h⟩ := hl.invariant (P := fun l => ∃ live free, Inv Placed l live free)
    ⟨[], [], inv_create Placed⟩ fun l c l' ⟨live, free, h⟩ ⟨hof, hmeets⟩ hrun => by
      obtain ⟨l₁, hrun₁, hinv⟩ := hstep l live free c h hof hmeets
      cases hrun₁.symm.trans hrun
      exact hinv
  refine ⟨h.rep.wellFormed, fun c hof hmeets => ?_⟩
  obtain ⟨l', hrun, -⟩ := hstep l live free c h hof hmeets
  exact ⟨l', hrun⟩

/-- An element that is removed, freed twice and handed out again, and another moved before it. -/
theorem wellFormed_of_runs_reused : ∃ l,
    [.allocateElement, .pushBack 0, .removeElement 0, .freeElement 0, .freeElement 0,
      .allocateElement, .pushFront 0, .createIterator, .allocateElement,
      .iteratorMoveElementBefore 0 1].foldlM step create = some l ∧
    l.size = 2 ∧ l.handedOut = [.element 0, .element 1] ∧ WellFormed l := by
  refine ⟨_, rfl, rfl, rfl, (wellFormed_of_runs _ ?_).1⟩
  have h₀ : Runs step (fun l c => OfList l c ∧ Meets l c) create create := Runs.init
  have h₁ := h₀.step (l := Label.allocateElement) ⟨trivial, trivial⟩ rfl
  have h₂ := h₁.step (l := Label.pushBack 0) ⟨Nat.zero_lt_one, rfl⟩ rfl
  have h₃ := h₂.step (l := Label.removeElement 0) ⟨Nat.zero_lt_one, trivial⟩ rfl
  have h₄ := h₃.step (l := Label.freeElement 0) ⟨Nat.zero_lt_one, trivial⟩ rfl
  have h₅ := h₄.step (l := Label.freeElement 0) ⟨Nat.zero_lt_one, trivial⟩ rfl
  have h₆ := h₅.step (l := Label.allocateElement) ⟨trivial, trivial⟩ rfl
  have h₇ := h₆.step (l := Label.pushFront 0) ⟨Nat.zero_lt_one, rfl⟩ rfl
  have h₈ := h₇.step (l := Label.createIterator) ⟨trivial, trivial⟩ rfl
  have h₉ := h₈.step (l := Label.allocateElement) ⟨trivial, trivial⟩ rfl
  refine h₉.step (l := Label.iteratorMoveElementBefore 0 1) ⟨?_, ?_⟩ rfl
  · exact ⟨mem_singleton.2 rfl, Nat.one_lt_two⟩
  · exact ⟨by decide, by decide⟩

/-- `list_insert_before` lets the last element of the free list into the list. -/
theorem not_wellFormed : ¬ ∀ l, Runs step OfList create l → WellFormed l := by
  intro h
  have h₀ : Runs step OfList create create := Runs.init
  have h₁ := h₀.step (l := Label.allocateElement) trivial rfl
  have h₂ := h₁.step (l := Label.pushBack 0) Nat.zero_lt_one rfl
  have h₃ := h₂.step (l := Label.allocateElement) trivial rfl
  have h₄ := h₃.step (l := Label.freeElement 1) Nat.one_lt_two rfl
  have h₅ := h₄.step (l := Label.insertBefore 0 1) ⟨Nat.zero_lt_two, Nat.one_lt_two⟩ rfl
  obtain ⟨live, free, hlinks, hchain, hnodup, -⟩ := h _ h₅
  have hfree : .element 1 ∈ free := by
    cases free with
    | nil =>
      have hnone : some (Node.element 1) = none := hchain
      cases hnone
    | cons a free =>
      obtain ⟨ha, -⟩ := path_cons.1 hchain
      cases ha
      exact mem_cons_self
  have hlive : .element 1 ∈ live := by
    cases live with
    | nil => exact absurd (isChain_cons_cons.1 hlinks).1.1 (by decide)
    | cons a live => cases (isChain_cons_cons.1 hlinks).1.1; exact mem_cons_self
  exact disjoint_of_nodup_append hnodup hlive hfree

end Common.WList

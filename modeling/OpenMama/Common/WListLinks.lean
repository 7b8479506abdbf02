import OpenMama.Common.WList
import OpenMama.Lib.Chain
import OpenMama.Lib.DoublyLinked

/-!
# The elements of the list

`Rep` says which elements are in the list and which are on the free list, and what the
links of the others are.  The operations on elements are described by what they do to
these two lists.
-/

namespace Common.WList

open Lib List Function

def prevNode (l : ListImpl) : Node → Option Node := fun a => (l.mPrev a).node

/-- The elements of the list and of the free list; the others have null links. -/
structure Rep (l : ListImpl) (live free : List Node) : Prop where
  links : Listed l.mNext (prevNode l) some .head .tail live
  chain : Path l.mNext l.mFreeList free
  nodup : (live ++ free).Nodup
  elements : ∀ a ∈ live ++ free, ∃ n, n < l.allocated ∧ a = .element n
  size : l.size = live.length
  memory : l.allocated ≤ maxElements
  freed : ∀ a ∈ free, l.mPrev a = .freed
  detached : ∀ n, .element n ∉ live → .element n ∉ free →
    l.mPrev (.element n) = .null ∧ l.mNext (.element n) = none
  tail_next : l.mNext .tail = none
  held : l.handedOut.Nodup
  held_iff : ∀ a, a ∈ l.handedOut ↔ (∃ n, n < l.allocated ∧ a = .element n) ∧ a ∉ free

variable {l l' : ListImpl} {live free live' free' xs ys : List Node} {a e : Node} {n : Nat}

@[simp] theorem Link.node_eq_some {x : Link} {a : Node} : x.node = some a ↔ x = .to a := by
  cases x <;> simp [Link.node]

theorem prevNode_setPrev (l : ListImpl) (a : Node) (b : Link) :
    prevNode (setPrev l a b) = Function.update (prevNode l) a b.node := by
  funext c
  rcases eq_or_ne c a with rfl | hne
  · simp [prevNode, setPrev]
  · simp [prevNode, setPrev, hne]

section

variable (h : Rep l live free)

include h

theorem Rep.live_element (ha : a ∈ live) :
    ∃ n, n < l.allocated ∧ a = .element n := h.elements a (mem_append_left _ ha)

theorem Rep.free_element (ha : a ∈ free) :
    ∃ n, n < l.allocated ∧ a = .element n := h.elements a (mem_append_right _ ha)

theorem Rep.tail_notMem : Node.tail ∉ live := by
  intro hmem
  obtain ⟨n, -, heq⟩ := h.live_element hmem
  cases heq

theorem Rep.head_notMem : Node.head ∉ live := by
  intro hmem
  obtain ⟨n, -, heq⟩ := h.live_element hmem
  cases heq

theorem Rep.path_nodup : (Node.head :: (live ++ [.tail])).Nodup := by
  have hlive : live.Nodup := h.nodup.of_append_left
  have hhead : Node.head ∉ live ++ [.tail] := by
    rw [mem_append, not_or]; exact ⟨h.head_notMem, by simp⟩
  refine nodup_cons.2 ⟨hhead, nodup_append.2 ⟨hlive, nodup_singleton _, ?_⟩⟩
  rintro a ha b hb rfl
  rw [mem_singleton] at hb
  exact h.tail_notMem (hb ▸ ha)

omit h in
theorem off_path (he : Node.element n ∉ live) :
    Node.element n ∉ Node.head :: (live ++ [.tail]) := by
  simpa using he

theorem Rep.length_le : live.length ≤ maxElements := by
  have hsub : live ⊆ (List.range l.allocated).map Node.element := by
    intro a ha
    obtain ⟨n, hn, rfl⟩ := h.live_element ha
    exact mem_map_of_mem (mem_range.2 hn)
  have hle := (h.nodup.of_append_left.subperm hsub).length_le
  rw [length_map, length_range] at hle
  exact hle.trans h.memory

/-! ## Where an element stands -/

theorem Rep.linked (ha : a ∈ live) : (∃ b, l.mPrev a = .to b) ∧ ∃ b, l.mNext a = some b := by
  obtain ⟨xs, ys, rfl⟩ := append_of_mem ha
  exact ⟨⟨_, Link.node_eq_some.1 h.links.prev_eq⟩, ⟨_, h.links.next_eq⟩⟩

theorem Rep.null_iff : l.mPrev (.element n) = .null ↔ .element n ∉ live ∧ .element n ∉ free := by
  constructor
  · intro hnull
    constructor
    · intro hlive
      obtain ⟨⟨b, hb⟩, -⟩ := h.linked hlive
      exact absurd (hnull.symm.trans hb) (by simp)
    · intro hfree; exact absurd (hnull.symm.trans (h.freed _ hfree)) (by simp)
  · rintro ⟨hlive, hfree⟩; exact (h.detached n hlive hfree).1

theorem Rep.freed_iff : l.mPrev (.element n) = .freed ↔ .element n ∈ free := by
  constructor
  · intro hfreed
    by_contra hfree
    by_cases hlive : Node.element n ∈ live
    · obtain ⟨⟨b, hb⟩, -⟩ := h.linked hlive
      exact absurd (hfreed.symm.trans hb) (by simp)
    · have hnull := (h.detached n hlive hfree).1
      exact absurd (hfreed.symm.trans hnull) (by simp)
  · exact h.freed _

theorem Rep.live_of_ne (hnull : l.mPrev (.element n) ≠ .null)
    (hfreed : l.mPrev (.element n) ≠ .freed) : .element n ∈ live := by
  by_contra hlive
  exact hnull (h.null_iff.2 ⟨hlive, fun hfree => hfreed (h.freed_iff.2 hfree)⟩)

theorem Rep.first : l.mNext .head = some (firstOf live .tail) := by
  have hlinks : Listed l.mNext (prevNode l) some .head .tail ([] ++ live) := h.links
  exact hlinks.next_last

theorem Rep.isEmpty_iff : isEmpty l ↔ live = [] := by
  rw [isEmpty, h.first]
  cases live with
  | nil => simp
  | cons a live =>
    obtain ⟨n, -, rfl⟩ := h.live_element mem_cons_self
    simp

omit h in
theorem walk_eq {next : Node → Option Node} (hlive : ∀ a ∈ live, ∃ n, a = Node.element n)
    {prev : Node → Option Node} (h : Listed next prev some a .tail live) :
    walk next live.length a = live := by
  induction live generalizing a with
  | nil => rfl
  | cons b live ih =>
    obtain ⟨⟨hab, -⟩, hrest⟩ := isChain_cons_cons.1 h
    obtain ⟨n, rfl⟩ := hlive b mem_cons_self
    rw [length_cons, walk, hab]
    show Node.element n :: walk next live.length (.element n) = Node.element n :: live
    rw [ih (fun c hc => hlive c (mem_cons_of_mem _ hc)) hrest]

theorem Rep.walk_eq : walk l.mNext l.size .head = live := by
  rw [h.size]
  refine WList.walk_eq (fun a ha => ?_) h.links
  obtain ⟨n, -, rfl⟩ := h.live_element ha
  exact ⟨n, rfl⟩

omit h in
theorem create_rep : Rep create [] [] where
  links := by
    refine isChain_cons_cons.2 ⟨⟨rfl, rfl⟩, List.IsChain.singleton _⟩
  chain := rfl
  nodup := nodup_nil
  elements a ha := absurd ha (by simp)
  size := rfl
  memory := Nat.zero_le _
  freed a ha := absurd ha (by simp)
  detached n _ _ := ⟨rfl, rfl⟩
  tail_next := rfl
  held := nodup_nil
  held_iff a := by simp [create]

/-! ## The free list -/

theorem Rep.write_off (he : .element n ∉ live) (b : Option Node) (c : Link) :
    Listed (Function.update l.mNext (.element n) b) (prevNode (setPrev l (.element n) c)) some .head
      .tail live := by
  rw [prevNode_setPrev]
  exact h.links.write_off (off_path he)

/-- An element is taken from the free list, or it is allocated, and it has null links then. -/
theorem Rep.allocateElement : ∃ free', Rep (allocateElement l).2 live free' ∧
    l.allocated ≤ (WList.allocateElement l).2.allocated ∧
    ∀ e, (WList.allocateElement l).1 = some e → ∃ n, n < (WList.allocateElement l).2.allocated ∧
      e = .element n ∧ .element n ∉ live ∧ .element n ∉ free' := by
  cases free with
  | nil =>
    have hnone : l.mFreeList = none := h.chain
    simp only [WList.allocateElement, hnone]
    split
    case isFalse => exact ⟨[], h, Nat.le_refl _, fun e he => absurd he (by simp)⟩
    case isTrue hmemory =>
      have hnew : .element l.allocated ∉ live := by
        intro hmem
        obtain ⟨n, hn, heq⟩ := h.live_element hmem
        exact absurd (Node.element.inj heq) (by omega)
      refine ⟨[], ?_, Nat.le_succ _, fun e he =>
        ⟨_, Nat.lt_succ_self _, (Option.some.inj he).symm, hnew, by simp⟩⟩
      refine ⟨h.write_off hnew _ _, hnone, h.nodup, fun a ha => ?_, h.size, hmemory, ?_, ?_,
        h.tail_next, ?_, ?_⟩
      · obtain ⟨n, hn, rfl⟩ := h.elements a ha
        exact ⟨n, Nat.lt_succ_of_lt hn, rfl⟩
      · exact fun a ha => absurd ha (by simp)
      · intro n hlive hfree
        show Function.update l.mPrev _ _ _ = _ ∧ Function.update l.mNext _ _ _ = _
        rcases eq_or_ne (Node.element n) (.element l.allocated) with heq | hne
        · rw [heq, update_self, update_self]; exact ⟨rfl, rfl⟩
        · rw [update_of_ne hne, update_of_ne hne]; exact h.detached n hlive hfree
      · refine nodup_append.2 ⟨h.held, nodup_singleton _, ?_⟩
        rintro a ha b hb rfl
        rw [mem_singleton] at hb
        obtain ⟨⟨n, hn, heq⟩, -⟩ := (h.held_iff a).1 ha
        exact absurd (Node.element.inj (heq.symm.trans hb)) (by omega)
      intro a
      show a ∈ l.handedOut ++ [.element l.allocated] ↔ (∃ n, n < l.allocated + 1 ∧ a = .element n) ∧
        a ∉ []
      rw [mem_append, mem_singleton, h.held_iff]
      constructor
      · rintro (⟨⟨n, hn, rfl⟩, -⟩ | rfl)
        · exact ⟨⟨n, Nat.lt_succ_of_lt hn, rfl⟩, by simp⟩
        · exact ⟨⟨_, Nat.lt_succ_self _, rfl⟩, by simp⟩
      · rintro ⟨⟨n, hn, rfl⟩, -⟩
        rcases Nat.lt_succ_iff_lt_or_eq.1 hn with hn | rfl
        · exact .inl ⟨⟨n, hn, rfl⟩, by simp⟩
        · exact .inr rfl
  | cons a free =>
    obtain ⟨hsome, hpath⟩ := path_cons.1 h.chain
    obtain ⟨n, hn, rfl⟩ := h.free_element mem_cons_self
    obtain ⟨hnodup, hdisj⟩ : (live ++ free).Nodup ∧ .element n ∉ live ++ free := by
      have hmiddle := nodup_middle.1 h.nodup
      exact ⟨(nodup_cons.1 hmiddle).2, (nodup_cons.1 hmiddle).1⟩
    rw [mem_append, not_or] at hdisj
    simp only [WList.allocateElement, hsome]
    refine ⟨free, ?_, Nat.le_refl _, fun e he =>
      ⟨n, hn, (Option.some.inj he).symm, hdisj.1, hdisj.2⟩⟩
    refine ⟨h.write_off hdisj.1 _ _, ?_, hnodup, fun a ha => ?_, h.size, h.memory, ?_, ?_,
      h.tail_next, ?_, ?_⟩
    · refine Path.congr hpath fun a ha => update_of_ne ?_ _ _
      rintro rfl
      exact hdisj.2 ha
    · refine h.elements a ?_
      rw [mem_append] at ha ⊢
      exact ha.imp_right (mem_cons_of_mem _)
    · intro a ha
      show Function.update l.mPrev _ _ _ = _
      rw [update_of_ne]
      · exact h.freed a (mem_cons_of_mem _ ha)
      · rintro rfl; exact hdisj.2 ha
    · intro m hlive hfree
      show Function.update l.mPrev _ _ _ = _ ∧ Function.update l.mNext _ _ _ = _
      rcases eq_or_ne (Node.element m) (.element n) with heq | hne
      · rw [heq, update_self, update_self]; exact ⟨rfl, rfl⟩
      · rw [update_of_ne hne, update_of_ne hne]; exact h.detached m hlive (by simp [hne, hfree])
    · refine nodup_append.2 ⟨h.held, nodup_singleton _, ?_⟩
      rintro a ha b hb rfl
      rw [mem_singleton] at hb
      exact ((h.held_iff a).1 ha).2 (hb ▸ mem_cons_self)
    intro a
    show a ∈ l.handedOut ++ [.element n] ↔ _
    rw [mem_append, mem_singleton, h.held_iff, mem_cons, not_or]
    constructor
    · rintro (⟨hex, -, hfree⟩ | rfl)
      · exact ⟨hex, hfree⟩
      · exact ⟨⟨n, hn, rfl⟩, hdisj.2⟩
    · rintro ⟨hex, hfree⟩
      rcases eq_or_ne a (.element n) with rfl | hne
      · exact .inr rfl
      · exact .inl ⟨hex, hne, hfree⟩

theorem Rep.freeElement (hn : n < l.allocated) :
    ∃ free', Rep (freeElement l (.element n)) live free' := by
  unfold WList.freeElement
  split
  case isTrue => exact ⟨free, h⟩
  case isFalse hnull =>
    rw [not_or, not_not] at hnull
    obtain ⟨hlive, hfree⟩ := h.null_iff.1 hnull.1
    refine ⟨.element n :: free, h.write_off hlive _ _, ?_, ?_, fun a ha => ?_, h.size, h.memory, ?_,
      ?_,
      h.tail_next, h.held.erase _, ?_⟩
    · refine path_cons.2 ⟨rfl, ?_⟩
      show Path (Function.update l.mNext _ l.mFreeList) (Function.update l.mNext _ l.mFreeList _)
        free
      rw [update_self]
      refine Path.congr h.chain fun a ha => update_of_ne ?_ _ _
      rintro rfl
      exact hfree ha
    · rw [nodup_middle, nodup_cons, mem_append, not_or]; exact ⟨⟨hlive, hfree⟩, h.nodup⟩
    · rw [mem_append, mem_cons] at ha
      rcases ha with ha | rfl | ha
      · exact h.live_element ha
      · exact ⟨n, hn, rfl⟩
      · exact h.free_element ha
    · intro a ha
      show Function.update l.mPrev _ _ _ = _
      rcases eq_or_ne a (.element n) with rfl | hne
      · rw [update_self]
      · rw [update_of_ne hne]; exact h.freed a ((mem_cons.1 ha).resolve_left hne)
    · intro m hmlive hmfree
      rw [mem_cons, not_or] at hmfree
      show Function.update l.mPrev _ _ _ = _ ∧ Function.update l.mNext _ _ _ = _
      rw [update_of_ne hmfree.1, update_of_ne hmfree.1]
      exact h.detached m hmlive hmfree.2
    · intro a
      show a ∈ l.handedOut.erase (.element n) ↔ _
      rw [h.held.mem_erase_iff, h.held_iff, mem_cons, not_or]
      constructor
      · rintro ⟨hne, hex, hfree⟩; exact ⟨hex, hne, hfree⟩
      · rintro ⟨hex, hne, hfree⟩; exact ⟨hne, hex, hfree⟩

end

/-! ## Putting in and taking out -/

theorem ne_lastOf (hhead : a ≠ .head) (ha : a ∉ xs) : a ≠ lastOf .head xs := by
  intro heq
  have hmem := lastOf_mem Node.head xs
  rw [← heq, mem_cons] at hmem
  exact ha (hmem.resolve_left hhead)

theorem ne_firstOf (he : .element n ∉ ys) : Node.element n ≠ firstOf ys .tail := by
  intro heq
  have hmem := firstOf_mem ys Node.tail
  rw [← heq, mem_append] at hmem
  exact he (hmem.resolve_right (by simp))

def putIn (l : ListImpl) (e before after : Node) : ListImpl :=
  grow (setPrev (setNext (setPrev (setNext l e (some after)) e (.to before)) before (some e)) after
    (.to e))

/-- The nodes on either side of an element, without it. -/
def takeOut (l : ListImpl) (e before after : Node) : ListImpl :=
  shrink (setPrev (setNext (setPrev (setNext (adjustIterators l e) before (some after)) after
    (.to before)) e none) e .null) e

theorem Rep.insertBeforeNode_eq (h : Rep l (xs ++ ys) free) (he : .element n ∉ xs ++ ys) :
    insertBeforeNode l (.element n) (firstOf ys .tail) =
      some (putIn l (.element n) (lastOf .head xs) (firstOf ys .tail)) := by
  rw [mem_append, not_or] at he
  have hne : firstOf ys .tail ≠ Node.element n := (ne_firstOf he.2).symm
  have hprev : l.mPrev (firstOf ys .tail) = .to (lastOf .head xs) :=
    Link.node_eq_some.1 h.links.prev_first
  simp [insertBeforeNode, putIn, setNext, setPrev, hprev, update_of_ne hne, Link.node]

theorem Rep.pushFront_eq (h : Rep l live free) (he : .element n ∉ live) :
    pushFront l (.element n) = insertBeforeNode l (.element n) (firstOf live .tail) := by
  have hfront : Rep l ([] ++ live) free := h
  rw [hfront.insertBeforeNode_eq he]
  simp [pushFront, putIn, setNext, setPrev, h.first]

theorem Rep.putIn (h : Rep l (xs ++ ys) free) (hn : n < l.allocated) (he : .element n ∉ xs ++ ys)
    (hfree : .element n ∉ free) :
    Rep (putIn l (.element n) (lastOf .head xs) (firstOf ys .tail)) (xs ++ .element n :: ys)
      free := by
  have hlen := h.length_le
  have hperm : (xs ++ Node.element n :: ys ++ free).Perm (.element n :: (xs ++ ys ++ free)) := by
    rw [append_assoc, append_assoc]; exact perm_middle
  -- The nodes whose links are written are the element, and none of the free or the detached.
  have hother : ∀ m, .element m ∉ xs ++ Node.element n :: ys →
      Node.element m ≠ .element n ∧ Node.element m ≠ lastOf .head xs ∧
        Node.element m ≠ firstOf ys .tail := by
    intro m hm
    rw [mem_append, mem_cons, not_or, not_or] at hm
    exact ⟨hm.2.1, ne_lastOf (by simp) hm.1, ne_firstOf hm.2.2⟩
  have hfreeOff : ∀ m, .element m ∈ free → .element m ∉ xs ++ Node.element n :: ys := by
    intro m hm hmem
    have hmem' : Node.element m ∈ Node.element n :: (xs ++ ys) := perm_middle.mem_iff.1 hmem
    rcases mem_cons.1 hmem' with heq | hlive
    · exact hfree (heq ▸ hm)
    · exact disjoint_of_nodup_append h.nodup hlive hm
  refine ⟨?_, ?_, ?_, fun a ha => ?_, ?_, h.memory, fun a ha => ?_, fun m hlive hmfree => ?_, ?_,
    h.held,
    h.held_iff⟩
  · show Listed (Function.update (Function.update l.mNext _ _) _ _)
      (prevNode (setPrev (setPrev l (.element n) (.to (lastOf .head xs))) (firstOf ys .tail)
        (.to (.element n)))) _ _ _ _
    rw [prevNode_setPrev, prevNode_setPrev]
    exact h.links.insert h.path_nodup (off_path he)
  · refine Path.congr h.chain fun a ha => ?_
    obtain ⟨m, -, rfl⟩ := h.free_element ha
    obtain ⟨hne, hlast, -⟩ := hother m (hfreeOff m ha)
    show Function.update (Function.update l.mNext _ _) _ _ _ = _
    rw [update_of_ne hlast, update_of_ne hne]
  · rw [hperm.nodup_iff, nodup_cons, mem_append, not_or]; exact ⟨⟨he, hfree⟩, h.nodup⟩
  · rcases mem_cons.1 (hperm.mem_iff.1 ha) with rfl | ha
    · exact ⟨n, hn, rfl⟩
    · exact h.elements a ha
  · show (l.size + 1) % 2 ^ 64 = _
    rw [h.size, length_append, length_append, length_cons]
    rw [length_append] at hlen
    unfold maxElements at hlen
    omega
  · obtain ⟨m, -, rfl⟩ := h.free_element ha
    obtain ⟨hne, -, hfirst⟩ := hother m (hfreeOff m ha)
    show Function.update (Function.update l.mPrev _ _) _ _ _ = _
    rw [update_of_ne hfirst, update_of_ne hne]
    exact h.freed _ ha
  · obtain ⟨hne, hlast, hfirst⟩ := hother m hlive
    show Function.update (Function.update l.mPrev _ _) _ _ _ = _ ∧
      Function.update (Function.update l.mNext _ _) _ _ _ = _
    rw [update_of_ne hfirst, update_of_ne hne, update_of_ne hlast, update_of_ne hne]
    refine h.detached m (fun hmem => hlive ?_) hmfree
    rw [perm_middle.mem_iff]
    exact mem_cons_of_mem _ hmem
  · have htail : Node.tail ≠ lastOf .head xs :=
      ne_lastOf (by simp) fun hmem => h.tail_notMem (mem_append_left _ hmem)
    show Function.update (Function.update l.mNext (.element n) (some (firstOf ys .tail)))
      (lastOf .head xs) (some (.element n)) .tail = none
    rw [update_of_ne htail]
    exact h.tail_next

theorem Rep.removeElement_eq (h : Rep l (xs ++ .element n :: ys) free) :
    removeElement l (.element n) =
      some (takeOut l (.element n) (lastOf .head xs) (firstOf ys .tail)) := by
  have hnodup := (nodup_middle.1 h.nodup.of_append_left)
  rw [nodup_cons, mem_append, not_or] at hnodup
  have hlast : Node.element n ≠ lastOf .head xs := ne_lastOf (by simp) hnodup.1.1
  have hprev : l.mPrev (.element n) = .to (lastOf .head xs) := Link.node_eq_some.1 h.links.prev_eq
  have hnext : l.mNext (.element n) = some (firstOf ys .tail) := h.links.next_eq
  simp [removeElement, takeOut, hprev, hnext, setNext, setPrev, adjustIterators, shrink,
    update_of_ne hlast]

theorem Rep.removeElement_none (h : Rep l live free) (he : .element n ∉ live) :
    removeElement l (.element n) = some (adjustIterators l (.element n)) := by
  have hprev : l.mPrev (.element n) = .freed ∨ l.mPrev (.element n) = .null := by
    by_cases hfree : Node.element n ∈ free
    · exact .inl (h.freed _ hfree)
    · exact .inr (h.detached n he hfree).1
  rcases hprev with hprev | hprev <;> simp [removeElement, adjustIterators, hprev]

theorem Rep.popFront_nil (h : Rep l [] free) : popFront l = some (none, l) :=
  if_pos (h.isEmpty_iff.2 rfl)

theorem Rep.popFront_eq (h : Rep l (.element n :: ys) free) :
    popFront l = some (some (.element n), takeOut l (.element n) .head (firstOf ys .tail)) := by
  have hempty : isEmpty l ≠ true := by
    rw [Ne, h.isEmpty_iff]; simp
  have hlinks : Listed l.mNext (prevNode l) some .head .tail ([] ++ .element n :: ys) := h.links
  have hnext : l.mNext (.element n) = some (firstOf ys .tail) := hlinks.next_eq
  have hfirst : l.mNext .head = some (.element n) := h.first
  rw [popFront, if_neg hempty]
  simp [takeOut, hfirst, hnext, setNext, adjustIterators]

theorem Rep.takeOut (h : Rep l (xs ++ .element n :: ys) free) :
    Rep (takeOut l (.element n) (lastOf .head xs) (firstOf ys .tail)) (xs ++ ys) free := by
  have hlen := h.length_le
  obtain ⟨he, hnodup⟩ : .element n ∉ xs ++ ys ++ free ∧ (xs ++ ys ++ free).Nodup := by
    have hnodup := h.nodup
    rwa [append_assoc, cons_append, nodup_middle, nodup_cons, ← append_assoc] at hnodup
  rw [mem_append, not_or] at he
  have hpath : (Node.head :: (xs ++ ys ++ [.tail])).Nodup := by
    have hpath := h.path_nodup
    rw [append_assoc, cons_append, ← cons_append, nodup_middle, nodup_cons] at hpath
    rw [append_assoc]
    exact hpath.2
  have hother : ∀ m, .element m ∉ xs ++ ys →
      Node.element m ≠ lastOf .head xs ∧ Node.element m ≠ firstOf ys .tail := by
    intro m hm
    rw [mem_append, not_or] at hm
    exact ⟨ne_lastOf (by simp) hm.1, ne_firstOf hm.2⟩
  have hfreeOff : ∀ a ∈ free, a ∉ xs ++ ys := fun a ha hmem =>
    disjoint_of_nodup_append hnodup hmem ha
  refine ⟨?_, ?_, hnodup, fun a ha => ?_, ?_, h.memory, fun a ha => ?_, fun m hlive hmfree => ?_,
    ?_, h.held,
    h.held_iff⟩
  · show Listed (Function.update (Function.update l.mNext _ _) _ _)
      (prevNode (setPrev (setPrev l (firstOf ys .tail) (.to (lastOf .head xs))) (.element n)
        .null)) _ _ _ _
    rw [prevNode_setPrev, prevNode_setPrev]
    exact (h.links.unlink hpath).write_off (off_path he.1)
  · refine Path.congr h.chain fun a ha => ?_
    obtain ⟨m, -, rfl⟩ := h.free_element ha
    show Function.update (Function.update l.mNext _ _) _ _ _ = _
    rw [update_of_ne, update_of_ne (hother m (hfreeOff _ ha)).1]
    exact fun heq => he.2 (heq ▸ ha)
  · refine h.elements a ?_
    rw [append_assoc, cons_append, perm_middle.mem_iff, ← append_assoc]
    exact mem_cons_of_mem _ ha
  · show (l.size + (2 ^ 64 - 1)) % 2 ^ 64 = _
    rw [h.size, length_append, length_cons, length_append]
    rw [length_append, length_cons] at hlen
    unfold maxElements at hlen
    omega
  · obtain ⟨m, -, rfl⟩ := h.free_element ha
    show Function.update (Function.update l.mPrev _ _) _ _ _ = _
    rw [update_of_ne, update_of_ne (hother m (hfreeOff _ ha)).2]
    · exact h.freed _ ha
    · exact fun heq => he.2 (heq ▸ ha)
  · show Function.update (Function.update l.mPrev _ _) _ _ _ = _ ∧
      Function.update (Function.update l.mNext _ _) _ _ _ = _
    rcases eq_or_ne (Node.element m) (.element n) with heq | hne
    · rw [heq, update_self, update_self]; exact ⟨rfl, rfl⟩
    · obtain ⟨hlast, hfirst⟩ := hother m hlive
      rw [update_of_ne hne, update_of_ne hfirst, update_of_ne hne, update_of_ne hlast]
      refine h.detached m ?_ hmfree
      rw [perm_middle.mem_iff, mem_cons, not_or]
      exact ⟨hne, hlive⟩
  · have htail : Node.tail ≠ lastOf .head xs :=
      ne_lastOf (by simp) fun hmem => h.tail_notMem (mem_append_left _ hmem)
    show Function.update (Function.update l.mNext (lastOf .head xs) (some (firstOf ys .tail)))
      (.element n) none .tail = none
    rw [update_of_ne (by simp), update_of_ne htail]
    exact h.tail_next

end Common.WList

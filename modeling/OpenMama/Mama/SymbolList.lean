import Mathlib.Data.List.TakeWhile
import OpenMama.Common.WListIterators

/-!
# Symbol lists

The members of a `mamaSymbolList` are elements of its `wList`.  A state has beside them a record
of the members there should be, of the calls of the handlers there should be, and of what the
last search should have returned; the handlers themselves leave the list alone.
-/

namespace Mama.SymbolList

open Common.WList Lib List Option

/-- `mamaSymbolListMemberImpl`; a transport is named by a number. -/
structure Member where
  mySymbol : List Char
  mySource : List Char
  myTransport : Nat
  deriving DecidableEq

/-- `mamaSymbolListImpl`, with its members. -/
structure SymbolListImpl where
  myMembers : ListImpl := create
  member : Node → Member := fun _ => ⟨[], [], 0⟩
  /-- The calls of `myAddCb` and `myRemoveCb`. -/
  addCalls : List Node := []
  removeCalls : List Node := []
  /-- What the last search returned. -/
  found : Option Node := none
  current : List Node := []
  added : List Node := []
  removed : List Node := []
  wanted : Option Node := none

/-- The comparison of `mamaSymbolList_findMember`, which leaves the symbol out;
`MAMA_MAX_SOURCE_LEN` is 64. -/
def matchesMember (q m : Member) : Bool :=
  q.mySource.take 64 = m.mySource.take 64 ∧ q.myTransport = m.myTransport

/-- What `iterator_next` returns until an element is looked for, or the list ends. -/
def traverse (stop : Node → Bool) (it : Nat) : Nat → ListImpl →
    Option (List Node × Option Node × ListImpl)
  | 0, _ => none
  | fuel + 1, l => do
    let (next, l) ← iteratorNext l it
    match next with
    | none => some ([], none, l)
    | some a =>
      if stop a then some ([a], some a, l)
      else
        let (visited, found, l) ← traverse stop it fuel l
        some (a :: visited, found, l)

/-- The traversal with an iterator of its own. -/
def withIterator (stop : Node → Bool) (l : ListImpl) :
    Option (List Node × Option Node × ListImpl) := do
  let (visited, found, l') ← traverse stop l.created (l.size + 1) (createIterator l).2
  some (visited, found, ← iteratorDestroy l' l.created)

variable (s : SymbolListImpl)

def findMember (q : Member) : Option SymbolListImpl := do
  let (_, found, l) ← withIterator (fun a => matchesMember q (s.member a)) s.myMembers
  some { s with
    myMembers := l
    found := found
    wanted := s.current.find? fun a => s.member a = q }

/-- `mamaSymbolList_iterate`: the members its function is called with. -/
def iterate : Option (List Node) := (withIterator (fun _ => false) s.myMembers).map Prod.fst

/-- `mamaSymbolListMember_allocate`, and `mamaSymbolList_addMember` if there is memory. -/
def addMember (m : Member) : Option SymbolListImpl :=
  match allocateElement s.myMembers with
  | (none, l) => some { s with myMembers := l }
  | (some a, l) => do
    let l ← pushBack l a
    some { s with
      myMembers := l
      member := Function.update s.member a m
      addCalls := s.addCalls ++ [a]
      current := s.current ++ [a]
      added := s.added ++ [a] }

/-- `mamaSymbolList_removeMemberByRef`, without the record. -/
def unlink (a : Node) : Option SymbolListImpl := do
  let l ← removeElement s.myMembers a
  some { s with myMembers := freeElement l a, removeCalls := s.removeCalls ++ [a] }

/-- A member that is to be removed. -/
def record (a : Option Node) : SymbolListImpl :=
  { s with
    current := s.current.filter fun b => some b ≠ a
    removed := s.removed ++ a.toList }

def removeMember (q : Member) : Option SymbolListImpl := do
  let s ← findMember s q
  match s.found with
  | none => some (record s s.wanted)
  | some a => (unlink s a).map fun s => record s s.wanted

/-- A caller has the reference of a member. -/
def removeMemberByRef (a : Node) : Option SymbolListImpl :=
  if (s.myMembers.mPrev a).node.isSome then (unlink s a).map (record · (some a)) else none

/-- `mamaSymbolList_clear`. -/
def clear (membersToo : Bool) : Option SymbolListImpl :=
  if membersToo then
    (forEach SymbolListImpl.myMembers unlink (s.myMembers.size + 1) s (s.myMembers.mNext .head)).map
      fun s' => { s' with current := [], removed := s.removed ++ s.current }
  else
    some s

inductive Label
  | addMember (m : Member)
  | findMember (q : Member)
  | removeMember (q : Member)
  | removeMemberByRef (n : Nat)
  | clear (membersToo : Bool)

def step (s : SymbolListImpl) : Label → Option SymbolListImpl
  | .addMember m => addMember s m
  | .findMember q => findMember s q
  | .removeMember q => removeMember s q
  | .removeMemberByRef n => removeMemberByRef s (.element n)
  | .clear membersToo => clear s membersToo

/-- The list is as the calls ask for: the members in the order they were added, the calls of the
handlers and what the last search returned. -/
structure Kept : Prop where
  iterated : iterate s = some s.current
  nodup : s.current.Nodup
  size : s.myMembers.size = s.current.length
  addCalls : s.addCalls = s.added
  removeCalls : s.removeCalls = s.removed
  found : s.found = s.wanted

/-- The first member with the transport and the first part of the source has the symbol and the
whole source, too. -/
def Meets (s : SymbolListImpl) : Label → Prop
  | .findMember q | .removeMember q =>
    ∀ a, s.current.find? (fun a => matchesMember q (s.member a)) = some a → s.member a = q
  | _ => True

/-! ## Traversals -/

variable {l : ListImpl} {live free xs ys : List Node} {s s' : SymbolListImpl}

theorem traverse_eq (stop : Node → Bool) {it fuel : Nat} (h : Rep l (xs ++ ys) free)
    (hcurrent : (l.iterator it).currentElement = some (firstOf ys .tail))
    (hfuel : ys.length < fuel) :
    ∃ iterator, traverse stop it fuel l = some (ys.takeWhile (!stop ·) ++ (ys.find? stop).toList,
      ys.find? stop, { l with iterator := iterator }) := by
  induction ys generalizing l xs fuel with
  | nil =>
    obtain ⟨fuel, rfl⟩ : ∃ k, fuel = k + 1 := ⟨fuel - 1, by omega⟩
    have hcurrent : (l.iterator it).currentElement = some .tail := hcurrent
    rw [traverse, iteratorNext, if_pos hcurrent]
    exact ⟨_, rfl⟩
  | cons e ys ih =>
    rw [length_cons] at hfuel
    obtain ⟨fuel, rfl⟩ : ∃ k, fuel = k + 1 := ⟨fuel - 1, by omega⟩
    obtain ⟨n, -, rfl⟩ := h.live_element (mem_append_right xs mem_cons_self)
    have hcurrent : (l.iterator it).currentElement = some (.element n) := hcurrent
    obtain ⟨i, hi, hnext⟩ : ∃ i : Iterator, i.currentElement = some (firstOf ys .tail) ∧
        iteratorNext l it = some (some (.element n), setIterator l it i) := by
      refine ⟨⟨l.mNext (.element n), (l.iterator it).traversal.map (·.record (some (.element n)))⟩,
        h.links.next_eq, ?_⟩
      simp [iteratorNext, getCurrentNode, hcurrent]
    rw [traverse, hnext]
    dsimp only [bind_eq_bind, bind_some]
    cases hstop : stop (.element n) with
    | true => exact ⟨_, by simp [hstop]; rfl⟩
    | false =>
      rw [append_cons] at h
      have hrep : Rep (setIterator l it i) (xs ++ [.element n] ++ ys) free := h.of_iterators
      obtain ⟨iterator, hrest⟩ := ih hrep (by simp [setIterator, hi]) (Nat.lt_of_succ_lt_succ hfuel)
      refine ⟨iterator, ?_⟩
      rw [hrest]
      simp [hstop, setIterator]

/-- An iterator of its own leaves the list as it was. -/
theorem withIterator_eq (stop : Node → Bool) (h : Rep l live free) :
    ∃ iterator, withIterator stop l = some (live.takeWhile (!stop ·) ++ (live.find? stop).toList,
      live.find? stop, { l with iterator := iterator, created := l.created + 1 }) := by
  have hrep : Rep (createIterator l).2 ([] ++ live) free := h.of_iterators
  have hcurrent : ((createIterator l).2.iterator l.created).currentElement =
      some (firstOf live .tail) := by
    rw [← h.first]
    exact congrArg Iterator.currentElement
      (Function.update_self l.created (beginTraversal l) l.iterator)
  have hfuel : live.length < l.size + 1 := by
    rw [h.size]; exact Nat.lt_succ_self _
  obtain ⟨iterator, htraverse⟩ := traverse_eq stop hrep hcurrent hfuel
  refine ⟨iterator, ?_⟩
  rw [withIterator, htraverse]
  cases hiterators : l.iterators with
  | nil => simp [createIterator, setIterator, iteratorDestroy, hiterators]
  | cons it its => simp [createIterator, setIterator, iteratorDestroy, hiterators]

/-! ## Members -/

theorem unlink_eq {n : Nat} (h : Rep s.myMembers (xs ++ .element n :: ys) free) :
    ∃ l' free', unlink s (.element n) =
      some { s with myMembers := l', removeCalls := s.removeCalls ++ [.element n] } ∧
      Rep l' (xs ++ ys) free' := by
  obtain ⟨m, hm, heq⟩ := h.live_element (mem_append_right xs mem_cons_self)
  obtain rfl := Node.element.inj heq
  obtain ⟨free', hfree⟩ := h.takeOut.freeElement (n := n) hm
  refine ⟨_, free', ?_, hfree⟩
  rw [unlink, h.removeElement_eq]
  rfl

theorem clear_eq {fuel : Nat} (h : Rep s.myMembers live free) (hfuel : live.length < fuel) :
    ∃ l' free', forEach SymbolListImpl.myMembers unlink fuel s (some (firstOf live .tail)) =
      some { s with myMembers := l', removeCalls := s.removeCalls ++ live } ∧ Rep l' [] free' := by
  induction live generalizing s free fuel with
  | nil =>
    obtain ⟨fuel, rfl⟩ : ∃ k, fuel = k + 1 := ⟨fuel - 1, by omega⟩
    exact ⟨s.myMembers, free, by simp [forEach], h⟩
  | cons e live ih =>
    rw [length_cons] at hfuel
    obtain ⟨fuel, rfl⟩ : ∃ k, fuel = k + 1 := ⟨fuel - 1, by omega⟩
    obtain ⟨n, -, rfl⟩ := h.live_element mem_cons_self
    have hfront : Rep s.myMembers ([] ++ .element n :: live) free := h
    have hnext : s.myMembers.mNext (.element n) = some (firstOf live .tail) := hfront.links.next_eq
    obtain ⟨l₁, free₁, hunlink, h₁⟩ := unlink_eq hfront
    obtain ⟨l', free', hrest, h'⟩ := ih (s := { s with
      myMembers := l₁, removeCalls := s.removeCalls ++ [.element n] }) h₁
        (Nat.lt_of_succ_lt_succ hfuel)
    refine ⟨l', free', ?_, h'⟩
    rw [firstOf_cons, forEach, bind_eq_bind, bind_some, if_neg (by simp), hunlink, hnext]
    simpa using hrest

/-! ## Runs -/

structure Inv (s : SymbolListImpl) : Prop where
  rep : ∃ free, Rep s.myMembers s.current free
  addCalls : s.addCalls = s.added
  removeCalls : s.removeCalls = s.removed
  found : s.found = s.wanted

section

variable (h : Inv s)

include h

theorem Inv.kept : Kept s := by
  obtain ⟨free, hrep⟩ := h.rep
  obtain ⟨iterator, hiterate⟩ := withIterator_eq (fun _ => false) hrep
  refine ⟨?_, hrep.nodup.of_append_left, hrep.size, h.addCalls, h.removeCalls, h.found⟩
  have hnone : s.current.find? (fun _ => false) = none := List.find?_eq_none.2 (by simp)
  have hall : s.current.takeWhile (fun _ => !false) = s.current :=
    List.takeWhile_eq_self_iff.2 (by simp)
  rw [iterate, hiterate, hnone, hall]
  simp

omit h in
/-- Where the search looks at less than it is asked for, it finds what it is asked for if that is
the first it takes for it. -/
theorem find_eq_iff (q : Member) (member : Node → Member) (members : List Node) :
    members.find? (fun a => matchesMember q (member a)) = members.find? (fun a => member a = q) ↔
      ∀ a, members.find? (fun a => matchesMember q (member a)) = some a → member a = q := by
  have hself : ∀ a, member a = q → matchesMember q (member a) := by
    rintro a rfl; simp [matchesMember]
  constructor
  · intro heq a ha
    rw [heq] at ha
    simpa using find?_some ha
  intro h
  induction members with
  | nil => rfl
  | cons a members ih =>
    cases hloose : matchesMember q (member a) with
    | true =>
      have heq := h a (by simp [hloose])
      rw [find?_cons, find?_cons, hloose, decide_eq_true heq]
    | false =>
      have hne : member a ≠ q := fun heq => by simp [hself a heq] at hloose
      simp only [find?_cons, hloose, hne, decide_false] at h ⊢
      exact ih h

theorem Inv.findMember (q : Member) : ∃ iterator, SymbolList.findMember s q = some { s with
    myMembers := { s.myMembers with iterator := iterator, created := s.myMembers.created + 1 }
    found := s.current.find? fun a => matchesMember q (s.member a)
    wanted := s.current.find? fun a => s.member a = q } := by
  obtain ⟨free, hrep⟩ := h.rep
  obtain ⟨iterator, hfind⟩ := withIterator_eq (fun a => matchesMember q (s.member a)) hrep
  exact ⟨iterator, by rw [SymbolList.findMember, hfind]; rfl⟩

omit h in
theorem record_none (s : SymbolListImpl) : record s none = s := by simp [record]

/-- A member is taken out, and the handler is called for it. -/
theorem Inv.unlink {a : Node} (ha : a ∈ s.current) :
    ∃ s', unlink s a = some s' ∧ Inv (record s' (some a)) := by
  obtain ⟨free, hrep⟩ := h.rep
  obtain ⟨n, -, rfl⟩ := hrep.live_element ha
  obtain ⟨xs, ys, hsplit⟩ := append_of_mem ha
  have hnodup := hrep.nodup.of_append_left
  rw [hsplit] at hrep hnodup
  obtain ⟨l', free', hunlink, hrep'⟩ := unlink_eq hrep
  have hfilter : (s.current.filter fun b => some b ≠ some (.element n)) = xs ++ ys := by
    rw [hsplit]; simpa using filter_ne_middle hnodup
  refine ⟨_, hunlink, ⟨free', ?_⟩, h.addCalls, ?_, h.found⟩
  · show Rep l' (s.current.filter fun b => some b ≠ some (.element n)) free'
    rwa [hfilter]
  · show s.removeCalls ++ [.element n] = s.removed ++ [.element n]
    rw [h.removeCalls]

theorem Inv.addMember {m : Member} (hrun : addMember s m = some s') : Inv s' := by
  obtain ⟨free, hrep⟩ := h.rep
  obtain ⟨free', hrep', -, hfresh⟩ := hrep.allocateElement
  unfold SymbolList.addMember at hrun
  cases hallocate : allocateElement s.myMembers with
  | mk e l =>
    rw [hallocate] at hrun hrep' hfresh
    cases e with
    | none => cases hrun; exact ⟨⟨free', hrep'⟩, h.addCalls, h.removeCalls, h.found⟩
    | some e =>
      obtain ⟨n, hn, rfl, hlive, hfree⟩ := hfresh e rfl
      obtain ⟨l', hpush, hrun⟩ := bind_eq_some_iff.1 hrun
      cases hrun
      rw [← append_nil s.current] at hrep' hlive
      have hput := hrep'.insertBeforeNode_eq hlive
      cases hput.symm.trans hpush
      exact ⟨⟨free', hrep'.putIn hn hlive hfree⟩, congrArg (· ++ [_]) h.addCalls, h.removeCalls,
        h.found⟩

theorem Inv.clear {membersToo : Bool} (hrun : clear s membersToo = some s') : Inv s' := by
  obtain ⟨free, hrep⟩ := h.rep
  cases membersToo with
  | false => cases hrun; exact h
  | true =>
    have hfuel : s.current.length < s.myMembers.size + 1 := by
      rw [hrep.size]; exact Nat.lt_succ_self _
    obtain ⟨l', free', hclear, hrep'⟩ := clear_eq hrep hfuel
    obtain ⟨s₁, hs₁, rfl⟩ := map_eq_some_iff.1 hrun
    rw [hrep.first, hclear] at hs₁
    cases hs₁
    exact ⟨⟨free', hrep'⟩, h.addCalls, congrArg (· ++ s.current) h.removeCalls, h.found⟩

theorem Inv.removeMember {q : Member} (hrun : removeMember s q = some s') :
    (Kept s' → Meets s (.findMember q)) ∧ (Meets s (.findMember q) → Inv s') := by
  obtain ⟨free, hrep⟩ := h.rep
  obtain ⟨iterator, hfind⟩ := h.findMember q
  have hiff : _ ↔ Meets s (.findMember q) := find_eq_iff q s.member s.current
  unfold SymbolList.removeMember at hrun
  rw [hfind, bind_eq_bind, bind_some] at hrun
  cases hfound : s.current.find? fun a => matchesMember q (s.member a) with
  | none =>
    rw [hfound] at hrun hiff
    cases hrun
    refine ⟨fun hkept => hiff.1 hkept.found, fun hmeets => ?_⟩
    dsimp only
    rw [← hiff.2 hmeets, record_none]
    exact ⟨⟨free, hrep.of_iterators⟩, h.addCalls, h.removeCalls, rfl⟩
  | some a =>
    rw [hfound] at hrun hiff
    obtain ⟨s₂, hunlink, rfl⟩ := map_eq_some_iff.1 hrun
    have hsame : s₂.found = some a ∧ s₂.wanted = s.current.find? fun a => s.member a = q := by
      obtain ⟨l, -, heq⟩ := bind_eq_some_iff.1 hunlink
      cases heq
      exact ⟨rfl, rfl⟩
    refine ⟨fun hkept => hiff.1 (hsame.1.symm.trans (hkept.found.trans hsame.2)), fun hmeets => ?_⟩
    have hwanted := hiff.2 hmeets
    rw [← hwanted] at hunlink hsame
    have hinv : Inv { s with
        myMembers := { s.myMembers with iterator := iterator, created := s.myMembers.created + 1 }
        found := some a
        wanted := some a } := ⟨⟨free, hrep.of_iterators⟩, h.addCalls, h.removeCalls, rfl⟩
    obtain ⟨s₃, hunlink', h'⟩ := hinv.unlink (mem_of_find?_eq_some hfound)
    cases hunlink.symm.trans hunlink'
    rwa [hsame.2]

theorem Inv.step {c : Label} (hrun : step s c = some s') :
    (Kept s' → Meets s c) ∧ (Meets s c → Inv s') := by
  cases c with
  | addMember m => exact ⟨fun _ => trivial, fun _ => h.addMember hrun⟩
  | findMember q =>
    obtain ⟨iterator, hfind⟩ := h.findMember q
    cases hfind.symm.trans hrun
    obtain ⟨free, hrep⟩ := h.rep
    exact ⟨fun hkept => (find_eq_iff q s.member s.current).1 hkept.found, fun hmeets =>
      ⟨⟨free, hrep.of_iterators⟩, h.addCalls, h.removeCalls,
        (find_eq_iff q s.member s.current).2 hmeets⟩⟩
  | removeMember q => exact h.removeMember hrun
  | removeMemberByRef n =>
    obtain ⟨hmember, hrun⟩ := ite_none_right_eq_some.1 hrun
    obtain ⟨free, hrep⟩ := h.rep
    have hlive : Node.element n ∈ s.current := by
      refine hrep.live_of_ne (fun hnull => ?_) fun hfreed => ?_
      · simp [hnull, Link.node] at hmember
      · simp [hfreed, Link.node] at hmember
    obtain ⟨s₁, hunlink, hinv⟩ := h.unlink hlive
    rw [hunlink] at hrun
    cases hrun
    exact ⟨fun _ => trivial, fun _ => hinv⟩
  | clear membersToo => exact ⟨fun _ => trivial, fun _ => h.clear hrun⟩

end

/-- **The search leaves the symbol out**, and looks at the first part of a source only: a symbol
list is kept all through a run just when each search and each removal finds first what it asks
for. -/
theorem kept_runs_iff (cs : List Label) :
    (∀ pre suf, cs = pre ++ suf → ∀ s, pre.foldlM step {} = some s → Kept s) ↔
      ∀ pre c suf, cs = pre ++ c :: suf → ∀ s s', pre.foldlM step {} = some s → step s c = some s' →
        Meets s c := by
  have hinit : Inv {} := ⟨⟨[], create_rep⟩, rfl, rfl, rfl⟩
  exact law_iff (fun _ => Inv.kept) (fun _ _ _ h hrun => Inv.step h hrun) hinit cs

/-- A member with another symbol is found. -/
theorem not_kept : ¬∀ (cs : List Label) (s : SymbolListImpl), cs.foldlM step {} = some s →
    Kept s := by
  intro h
  obtain ⟨s, hrun, hfound⟩ :
    ∃ s, [.addMember ⟨['A'], ['S'], 0⟩, .findMember ⟨['B'], ['S'], 0⟩].foldlM step {} =
      some s ∧ s.found ≠ s.wanted := by
    refine ⟨_, rfl, ?_⟩
    decide
  exact hfound (h _ s hrun).found

end Mama.SymbolList

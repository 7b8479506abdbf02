import OpenMama.Lib.Chain
import OpenMama.Lib.DoublyLinked
import OpenMama.Qpid.MessagePool

/-!
# The lists of a message pool

Every node that was allocated is in one of the two lists of a pool, and `mNumFree` is the length of
the free list (`MsgPool.Lists`).  The open list is linked between two places that stand for null.

A node is taken from the free list, which grows when it is empty (`Lists.getPoolMsg`), and goes back
to it unless there are as many free nodes as the pool was created with (`Lists.releasePoolMsg`).
-/

namespace Mama

namespace Qpid

open Lib List Function

/-- Where the links of the open list are: the pointer of the pool, the nodes, and the null at the
end. -/
inductive Place
  | head
  | node (n : Nat)
  | tail
  deriving DecidableEq

def Place.link : Place → Option Nat
  | .node n => some n
  | .head | .tail => none

namespace MsgPool

variable {K F : Type} {p : MsgPool K F} {free opened : List Nat} {n m : Nat}

def next (p : MsgPool K F) : Place → Option Nat
  | .head => p.mOpenList
  | .node n => (p.nodes n).mNext
  | .tail => none

/-- There is no pointer to the last open node, so it is given. -/
def prev (p : MsgPool K F) (last : Option Nat) : Place → Option Nat
  | .head => none
  | .node n => (p.nodes n).mPrev
  | .tail => last

@[simp] theorem next_head : p.next .head = p.mOpenList := rfl

@[simp] theorem next_node : p.next (.node n) = (p.nodes n).mNext := rfl

@[simp] theorem next_tail : p.next .tail = none := rfl

@[simp] theorem prev_head (last : Option Nat) : p.prev last .head = none := rfl

@[simp] theorem prev_node (last : Option Nat) : p.prev last (.node n) = (p.nodes n).mPrev := rfl

@[simp] theorem prev_tail (last : Option Nat) : p.prev last .tail = last := rfl

structure Lists (p : MsgPool K F) (free opened : List Nat) : Prop where
  path : Path (fun n => (p.nodes n).mNext) p.mFreeList free
  listed : ∃ last, Listed p.next (p.prev last) Place.link .head .tail (opened.map .node)
  nodup : (free ++ opened).Nodup
  allocated : ∀ n, n ∈ free ++ opened ↔ n < p.top
  numFree : p.mNumFree = free.length

def SameContents (p q : MsgPool K F) (n : Nat) : Prop :=
  (q.nodes n).mMsg = (p.nodes n).mMsg ∧ (q.nodes n).mMsgType = (p.nodes n).mMsgType ∧
    (q.nodes n).mQpidSubscription = (p.nodes n).mQpidSubscription

@[simp] theorem modify_self (f : MsgNode K F → MsgNode K F) :
    (p.modify n f).nodes n = f (p.nodes n) := update_self ..

theorem modify_of_ne (f : MsgNode K F → MsgNode K F) (h : m ≠ n) :
    (p.modify n f).nodes m = p.nodes m := update_of_ne h ..

theorem Lists.modify (h : Lists p free opened) {f : MsgNode K F → MsgNode K F}
    (hf : ∀ node, (f node).mNext = node.mNext ∧ (f node).mPrev = node.mPrev) :
    Lists (p.modify n f) free opened := by
  have hnext : ∀ m, ((p.modify n f).nodes m).mNext = (p.nodes m).mNext := by
    intro m
    by_cases hm : m = n
    · rw [hm, modify_self, (hf _).1]
    · rw [modify_of_ne f hm]
  have hprev : ∀ m, ((p.modify n f).nodes m).mPrev = (p.nodes m).mPrev := by
    intro m
    by_cases hm : m = n
    · rw [hm, modify_self, (hf _).2]
    · rw [modify_of_ne f hm]
  obtain ⟨last, hopened⟩ := h.listed
  refine ⟨h.path.congr fun m _ => hnext m, ⟨last, ?_⟩, h.nodup, h.allocated, h.numFree⟩
  refine Linked.congr hopened (fun u _ => ?_) fun u _ => ?_
  · cases u with
    | node m => exact hnext m
    | head | tail => rfl
  · cases u with
    | node m => exact hprev m
    | head | tail => rfl

/-! ## Growing -/

/-- A node among the `k` new ones from `top` on. -/
def freshNode (top k n : Nat) : MsgNode K F :=
  { newNode with mNext := if n + 1 = top + k then none else some (n + 1) }

/-- A pool with `k` further nodes, linked one after the other. -/
def extended (p : MsgPool K F) (k : Nat) : MsgPool K F :=
  { p with
    nodes := fun n => if p.top ≤ n ∧ n < p.top + k then freshNode p.top k n else p.nodes n
    top := p.top + k
    mFreeList := if k = 0 then p.mFreeList else some p.top
    mNumFree := p.mNumFree + k }

variable {k : Nat} {q : MsgPool K F} {xs ys : List Nat}

theorem extended_nodes_fresh (h : p.top ≤ n ∧ n < p.top + k) :
    (p.extended k).nodes n = freshNode p.top k n := if_pos h

theorem extended_nodes_old (h : ¬ (p.top ≤ n ∧ n < p.top + k)) :
    (p.extended k).nodes n = p.nodes n := if_neg h

theorem extended_nodes_succ (k : Nat) (hk : 0 < k) :
    Function.update (Function.update (p.extended k).nodes (p.top + k) newNode) (p.top + k - 1)
      { (p.extended k).nodes (p.top + k - 1) with mNext := some (p.top + k) } =
    (p.extended (k + 1)).nodes := by
  funext n
  by_cases hbefore : n = p.top + k - 1
  · rw [hbefore, update_self, extended_nodes_fresh (by omega),
      extended_nodes_fresh (by omega)]
    unfold freshNode
    rw [if_neg (show p.top + k - 1 + 1 ≠ p.top + (k + 1) by omega)]
    have hsucc : p.top + k - 1 + 1 = p.top + k := by omega
    rw [hsucc]
  rw [update_of_ne hbefore]
  by_cases hlast : n = p.top + k
  · rw [hlast, update_self, extended_nodes_fresh (by omega)]
    rw [freshNode, if_pos (by omega)]
    rfl
  · rw [update_of_ne hlast]
    by_cases hin : p.top ≤ n ∧ n < p.top + k
    · rw [extended_nodes_fresh hin, extended_nodes_fresh (by omega)]
      unfold freshNode
      rw [if_neg (by omega), if_neg (by omega)]
    · rw [extended_nodes_old hin, extended_nodes_old (by omega)]

theorem foldl_extendRound (p : MsgPool K F) (k : Nat) :
    (List.range k).foldl extendRound (p, none) =
      (p.extended k, if k = 0 then none else some (p.top + k - 1)) := by
  induction k with
  | zero =>
    have hnodes : (p.extended 0).nodes = p.nodes := by
      funext n; exact extended_nodes_old (by omega)
    show (p, none) = (({ p.extended 0 with nodes := (p.extended 0).nodes } : MsgPool K F), none)
    rw [hnodes]
    rfl
  | succ k ih =>
    rw [range_succ, foldl_append, ih]
    rcases Nat.eq_zero_or_pos k with rfl | hpos
    · have hnodes : Function.update (p.extended 0).nodes p.top newNode = (p.extended 1).nodes := by
        funext n
        by_cases hn : n = p.top
        · rw [hn, update_self, extended_nodes_fresh (by omega)]
          rw [freshNode, if_pos rfl]
          rfl
        · rw [update_of_ne hn, extended_nodes_old (by omega), extended_nodes_old (by omega)]
      show (({ p.extended 1 with
        nodes := Function.update (p.extended 0).nodes p.top newNode } : MsgPool K F), _) = _
      rw [hnodes]
      rfl
    rw [if_neg (by omega)]
    show (({ p.extended (k + 1) with
      nodes := Function.update (Function.update (p.extended k).nodes (p.top + k) newNode)
        (p.top + k - 1) { Function.update (p.extended k).nodes (p.top + k) newNode
          (p.top + k - 1) with mNext := some (p.top + k) }
      mFreeList := if k = 0 then p.mFreeList else some p.top } : MsgPool K F), _) = _
    rw [update_of_ne (show p.top + k - 1 ≠ p.top + k by omega),
      extended_nodes_succ k hpos, if_neg (show k ≠ 0 by omega)]
    rfl

theorem extendMessagePool_eq (p : MsgPool K F) (k : Nat) :
    p.extendMessagePool k = p.extended k := by
  rw [extendMessagePool, foldl_extendRound]

theorem path_range' {next : Nat → Option Nat} (start k : Nat)
    (h : ∀ n, start ≤ n → n < start + k →
      next n = if n + 1 = start + k then none else some (n + 1)) :
    Path next (if k = 0 then none else some start) (List.range' start k) := by
  induction k generalizing start with
  | zero => rfl
  | succ k ih =>
    rw [range'_succ, path_cons]
    refine ⟨rfl, ?_⟩
    have hrest := ih (start + 1) fun n hle hlt => by
      rw [h n (by omega) (by omega)]
      have hsum : start + (k + 1) = start + 1 + k := by omega
      rw [hsum]
    have hfirst := h start (Nat.le_refl _) (by omega)
    rw [hfirst]
    by_cases hk : k = 0
    · rw [if_pos (by omega)]; rwa [if_pos hk] at hrest
    · rw [if_neg (by omega)]; rwa [if_neg hk] at hrest

theorem Lists.extended (h : Lists p [] opened) (k : Nat) :
    Lists (p.extended k) (List.range' p.top k) opened := by
  have hold : ∀ m ∈ opened, m < p.top := fun m hm => (h.allocated m).1 hm
  have hnodes : ∀ m ∈ opened, (p.extended k).nodes m = p.nodes m := by
    intro m hm
    have hlt := hold m hm
    exact extended_nodes_old (by omega)
  have hopen := h.listed
  have hfree := h.path
  have hnull : p.mFreeList = none := path_nil.1 hfree
  obtain ⟨last, hopened⟩ := hopen
  refine ⟨?_, ⟨last, ?_⟩, ?_, ?_, ?_⟩
  · have hpath := @path_range' (fun n => ((p.extended k).nodes n).mNext) p.top k
      fun n hle hlt => by
        rw [extended_nodes_fresh ⟨hle, hlt⟩]; rfl
    show Path _ (if k = 0 then p.mFreeList else some p.top) _
    rwa [hnull]
  · refine Linked.congr hopened (fun u hu => ?_) fun u hu => ?_
    · cases u with
      | node m =>
        have hm : m ∈ opened := by
          have hin := mem_of_mem_dropLast hu
          simpa using hin
        exact congrArg MsgNode.mNext (hnodes m hm)
      | head | tail => rfl
    cases u with
    | node m =>
      have hm : m ∈ opened := by
        have hin := mem_of_mem_tail hu
        simpa using hin
      exact congrArg MsgNode.mPrev (hnodes m hm)
    | head | tail => rfl
  · refine List.Nodup.append nodup_range' h.nodup fun m hm hm' => ?_
    have hlt := hold m hm'
    rw [mem_range'_1] at hm
    omega
  · intro m
    have hall := h.allocated m
    rw [nil_append] at hall
    rw [mem_append, mem_range'_1, hall]
    show _ ↔ m < p.top + k
    omega
  · show p.mNumFree + k = _
    rw [h.numFree, length_range', length_nil, Nat.zero_add]

theorem createMessagePool_lists {numMsgs : Nat} (htwo : 2 ≤ numMsgs) :
    ∃ p : MsgPool K F, createMessagePool numMsgs = some p ∧
      Lists p (List.range' 0 numMsgs) [] ∧ p.mNumMsgs = numMsgs ∧ p.top = numMsgs := by
  rw [createMessagePool, if_neg (by omega)]
  refine ⟨_, rfl, ?_⟩
  rw [extendMessagePool_eq]
  refine ⟨Lists.extended ⟨path_nil.2 rfl, ⟨none, ?_⟩, nodup_nil, by simp, rfl⟩ numMsgs, rfl, ?_⟩
  · exact List.isChain_cons_cons.2 ⟨⟨rfl, rfl⟩, isChain_singleton _⟩
  · exact Nat.zero_add numMsgs

/-! ## Taking a node -/

theorem Lists.open (h : Lists p (n :: free) opened) (hfree : q.mFreeList = (p.nodes n).mNext)
    (htop : q.top = p.top) (hnumFree : q.mNumFree = p.mNumFree - 1) (hhead : q.mOpenList = some n)
    (hn : (q.nodes n).mNext = p.mOpenList ∧ (q.nodes n).mPrev = none)
    (hnext : ∀ m, m ≠ n → (q.nodes m).mNext = (p.nodes m).mNext)
    (hprev : ∀ m, m ≠ n →
      (q.nodes m).mPrev = if p.mOpenList = some m then some n else (p.nodes m).mPrev) :
    Lists q free (n :: opened) := by
  obtain ⟨last, hopened⟩ := h.listed
  have hnodup := h.nodup
  rw [cons_append, nodup_cons, mem_append, not_or] at hnodup
  obtain ⟨⟨hnfree, hnopened⟩, hnodup⟩ := hnodup
  have hplaces : (Place.head :: (opened.map Place.node ++ [Place.tail])).Nodup := by
    have hmap : (opened.map Place.node).Nodup :=
      (hnodup.of_append_right).map fun a b hab => by injection hab
    refine List.nodup_cons.2 ⟨by simp, List.Nodup.append hmap (by simp) ?_⟩
    intro u hu hu'
    rw [mem_singleton] at hu'
    subst hu'
    simp at hu
  have hoff : Place.node n ∉ Place.head :: ([] ++ opened.map Place.node ++ [Place.tail]) := by
    simpa using hnopened
  have hlisted : Listed p.next (p.prev last) Place.link .head .tail
      ([] ++ opened.map Place.node) := hopened
  have hinsert := hlisted.insert hplaces hoff
  have hseen : ∀ m ∈ opened, m ≠ n := fun m hm hmn => hnopened (hmn ▸ hm)
  refine ⟨?_, ?_, ?_, fun m => ?_, ?_⟩
  · rw [hfree]
    refine (path_cons.1 h.path).2.congr fun m hm => hnext m fun hmn => ?_
    exact hnfree (hmn ▸ hm)
  · refine ⟨if opened = [] then some n else last, ?_⟩
    have hfirst : (firstOf (opened.map Place.node) Place.tail).link = p.mOpenList := by
      have hhead := hlisted.next_last
      exact hhead.symm
    refine Linked.congr hinsert (fun u _ => ?_) fun u hu => ?_
    · cases u with
      | head => exact hhead
      | node m =>
        rw [update_of_ne (by simp)]
        by_cases hm : m = n
        · rw [hm, update_self, hfirst]; exact hn.1
        · rw [update_of_ne (by simpa using hm)]; exact hnext m hm
      | tail => rfl
    cases opened with
    | nil =>
      have hnull : p.mOpenList = none := hfirst.symm
      cases u with
      | head => rfl
      | tail => rfl
      | node m =>
        rw [update_of_ne (by simp)]
        by_cases hm : m = n
        · rw [hm, update_self]; exact hn.2
        · rw [update_of_ne (by simpa using hm)]
          show (q.nodes m).mPrev = (p.nodes m).mPrev
          rw [hprev m hm, hnull, if_neg (by simp)]
    | cons a opened =>
      have hsome : p.mOpenList = some a := hfirst.symm
      have hane : a ≠ n := hseen a mem_cons_self
      rw [map_cons, firstOf_cons]
      cases u with
      | head => rfl
      | tail => rfl
      | node m =>
        by_cases hm : m = n
        · rw [hm, update_of_ne (by simpa using hane.symm), update_self]; exact hn.2
        show (q.nodes m).mPrev = _
        rw [hprev m hm, hsome]
        by_cases hma : m = a
        · rw [hma, update_self, if_pos rfl]; rfl
        · rw [if_neg (by simpa using fun hh => hma hh.symm),
            update_of_ne (by simpa using hma),
            update_of_ne (by simpa using hm)]
          rfl
  · rw [nodup_middle, nodup_cons, mem_append, not_or]; exact ⟨⟨hnfree, hnopened⟩, hnodup⟩
  · rw [htop, ← h.allocated m]
    simp only [mem_append, mem_cons]
    tauto
  · rw [hnumFree, h.numFree, length_cons, Nat.add_sub_cancel]

theorem SameContents.trans {r : MsgPool K F} (h : SameContents p q m) (h' : SameContents q r m) :
    SameContents p r m :=
  ⟨h'.1.trans h.1, h'.2.1.trans h.2.1, h'.2.2.trans h.2.2⟩

theorem sameContents_setNext (p : MsgPool K F) (n m : Nat) (v : Option Nat) :
    SameContents p (p.setNext n v) m := by
  unfold SameContents setNext
  by_cases hm : m = n
  · rw [hm, modify_self]; exact ⟨rfl, rfl, rfl⟩
  · rw [modify_of_ne _ hm]; exact ⟨rfl, rfl, rfl⟩

theorem sameContents_setPrev (p : MsgPool K F) (n m : Nat) (v : Option Nat) :
    SameContents p (p.setPrev n v) m := by
  unfold SameContents setPrev
  by_cases hm : m = n
  · rw [hm, modify_self]; exact ⟨rfl, rfl, rfl⟩
  · rw [modify_of_ne _ hm]; exact ⟨rfl, rfl, rfl⟩

/-- What a call for a node leaves as it was: the contents of the nodes there are, and the size that
the pool was created with. -/
structure Keeps (p q : MsgPool K F) : Prop where
  contents : ∀ m, m < p.top → SameContents p q m
  numMsgs : q.mNumMsgs = p.mNumMsgs

/-- **A node is taken.**  The pool grows only if no node is free. -/
theorem Lists.getPoolMsg (h : Lists p free opened) {incSize : Nat} (hone : 1 ≤ incSize) :
    ∃ q n free', p.getPoolMsg incSize = some (q, n) ∧ Lists q free' (n :: opened) ∧
      n ∉ opened ∧ Keeps p q ∧ (q.top ≠ p.top → p.mNumFree = 0) ∧
      q.mNumFree = (if p.mNumFree = 0 then incSize else p.mNumFree) - 1 := by
  -- the pool after it has grown, if it has to
  have hgrown : ∃ a free', Lists (if p.mNumFree = 0 then p.extendMessagePool incSize else p)
      (a :: free') opened := by
    by_cases hzero : p.mNumFree = 0
    · rw [if_pos hzero, extendMessagePool_eq]
      have hnil : free = [] := eq_nil_of_length_eq_zero (h.numFree.symm.trans hzero)
      rw [hnil] at h
      obtain ⟨k, rfl⟩ : ∃ k, incSize = k + 1 := ⟨incSize - 1, by omega⟩
      have hlists := h.extended (k + 1)
      exact ⟨_, _, hlists⟩
    · rw [if_neg hzero]
      cases free with
      | nil => exact absurd h.numFree hzero
      | cons a free => exact ⟨a, free, h⟩
  have hkeeps : Keeps p (if p.mNumFree = 0 then p.extendMessagePool incSize else p) := by
    split_ifs with hzero
    · rw [extendMessagePool_eq]
      refine ⟨fun m hm => ?_, rfl⟩
      rw [SameContents, extended_nodes_old (by omega)]
      exact ⟨rfl, rfl, rfl⟩
    · exact ⟨fun _ _ => ⟨rfl, rfl, rfl⟩, rfl⟩
  have htop : (if p.mNumFree = 0 then p.extendMessagePool incSize else p).top ≠ p.top →
      p.mNumFree = 0 := by
    split_ifs with hzero
    · exact fun _ => hzero
    · exact fun hne => absurd rfl hne
  have hnumFree : (if p.mNumFree = 0 then p.extendMessagePool incSize else p).mNumFree =
      if p.mNumFree = 0 then incSize else p.mNumFree := by
    split_ifs with hzero
    · rw [extendMessagePool_eq]
      show p.mNumFree + incSize = incSize
      omega
    · rfl
  unfold MsgPool.getPoolMsg
  generalize (if p.mNumFree = 0 then p.extendMessagePool incSize else p) = g at *
  obtain ⟨a, free', hlists⟩ := hgrown
  have hfirst : g.mFreeList = some a := (path_cons.1 hlists.path).1
  have hnotMem : a ∉ opened := by
    have hnodup := hlists.nodup
    rw [cons_append, nodup_cons, mem_append, not_or] at hnodup
    exact hnodup.1.2
  dsimp only
  rw [hfirst]
  cases hopen : g.mOpenList with
  | none =>
    refine ⟨_, a, free', rfl, hlists.open rfl rfl rfl rfl ⟨?_, ?_⟩ ?_ ?_, hnotMem,
      ⟨fun m hm => ?_, hkeeps.numMsgs⟩, htop, ?_⟩
    · rw [hopen]; exact congrArg MsgNode.mNext (modify_self _)
    · simp [setNext, setPrev, MsgPool.modify]
    · intro m hm; simp [setNext, setPrev, MsgPool.modify, hm]
    · intro m hm; simp [setNext, setPrev, MsgPool.modify, hm, hopen]
    · exact (hkeeps.contents m hm).trans
        ((sameContents_setPrev _ a m none).trans (sameContents_setNext _ a m none))
    · exact congrArg (· - 1) hnumFree
  | some first =>
    have hfirstOpen : first ∈ opened := by
      obtain ⟨last, hopened⟩ := hlists.listed
      have hhead : g.next .head = (firstOf (opened.map Place.node) Place.tail).link :=
        hopened.next_head
      cases opened with
      | nil => exact absurd (hopen.symm.trans hhead) (by simp [Place.link])
      | cons b opened =>
        have heq : some first = some b := hopen.symm.trans hhead
        rw [Option.some.inj heq]
        exact mem_cons_self
    have hne : first ≠ a := fun heq => hnotMem (heq ▸ hfirstOpen)
    refine ⟨_, a, free', rfl, hlists.open rfl rfl rfl rfl ⟨?_, ?_⟩ ?_ ?_, hnotMem,
      ⟨fun m hm => ?_, hkeeps.numMsgs⟩, htop, ?_⟩
    · simp [setNext, setPrev, MsgPool.modify, hne.symm, hopen]
    · simp [setNext, setPrev, MsgPool.modify, hne.symm]
    · intro m hm
      by_cases hfirst : m = first
      · simp [setNext, setPrev, MsgPool.modify, hfirst, hne]
      · simp [setNext, setPrev, MsgPool.modify, hm, hfirst]
    · intro m hm
      by_cases hfirst : m = first
      · simp [setNext, setPrev, hfirst, hopen]
      · simp [setNext, setPrev, MsgPool.modify, hm, hfirst, hopen, Ne.symm hfirst]
    · exact (hkeeps.contents m hm).trans ((sameContents_setPrev _ a m none).trans
        ((sameContents_setNext _ a m (some first)).trans
          (sameContents_setPrev _ first m (some a))))
    · exact congrArg (· - 1) hnumFree

/-! ## Giving a node back -/

section

variable (h : Lists p free (xs ++ n :: ys))

include h

theorem Lists.links : (p.nodes n).mNext = ys.head? ∧ (p.nodes n).mPrev = xs.getLast? ∧
    p.mOpenList = (xs ++ n :: ys).head? := by
  obtain ⟨last, hlisted⟩ := h.listed
  have hhead : p.next .head = (firstOf ((xs ++ n :: ys).map Place.node) Place.tail).link :=
    hlisted.next_head
  rw [map_append] at hlisted
  refine ⟨hlisted.next_eq.trans ?_, hlisted.prev_eq.trans ?_, hhead.trans ?_⟩
  · cases ys <;> rfl
  · rcases eq_nil_or_concat xs with rfl | ⟨xs, a, rfl⟩
    · rfl
    · rw [concat_eq_append, map_append, map_singleton, lastOf_concat, getLast?_concat]
      rfl
  · cases xs <;> rfl

theorem Lists.closeNode :
    ∃ last, Listed (p.closeNode n).next ((p.closeNode n).prev last) Place.link .head .tail
      ((xs ++ ys).map .node) := by
  obtain ⟨hnext, hprev, hopen⟩ := h.links
  obtain ⟨last, hlisted⟩ := h.listed
  have hplaces : (Place.head :: ((xs ++ ys).map Place.node ++ [Place.tail])).Nodup := by
    have hnodup : (xs ++ ys).Nodup := by
      have hall := h.nodup.of_append_right
      rw [nodup_middle, nodup_cons] at hall
      exact hall.2
    have hmap := hnodup.map (f := Place.node) fun a b hab => by injection hab
    refine List.nodup_cons.2 ⟨by simp, List.Nodup.append hmap (by simp) ?_⟩
    intro u hu hu'
    rw [mem_singleton] at hu'
    subst hu'
    simp at hu
  rw [map_append, map_cons] at hlisted
  rw [map_append] at hplaces
  have hunlink := hlisted.unlink hplaces
  rw [← map_append] at hunlink
  have hsome : ∃ a, p.mOpenList = some a := by
    rw [hopen]
    cases xs
    · exact ⟨n, rfl⟩
    · exact ⟨_, rfl⟩
  obtain ⟨a, ha⟩ := hsome
  rw [MsgPool.closeNode, ha, hnext, hprev]
  rcases eq_nil_or_concat xs with rfl | ⟨xs, before, rfl⟩
  · cases ys with
    | nil =>
      -- the only node
      rw [map_nil] at hunlink
      refine ⟨none, hunlink.congr (fun u _ => ?_) fun u _ => ?_⟩
      · cases u <;> simp [Place.link]
      · cases u <;> simp [Place.link]
    | cons after ys =>
      -- the first node
      rw [map_nil, map_cons] at hunlink
      refine ⟨last, hunlink.congr (fun u _ => ?_) fun u _ => ?_⟩
      · cases u with
        | head => simp [Place.link]
        | node m => by_cases hm : m = after <;> simp [setPrev, MsgPool.modify, hm]
        | tail => simp
      · cases u with
        | head => simp
        | node m => by_cases hm : m = after <;> simp [Place.link, setPrev, MsgPool.modify, hm]
        | tail => simp
  rw [concat_eq_append] at *
  cases ys with
  | nil =>
    -- the last node
    rw [map_nil] at hunlink
    refine ⟨some before, hunlink.congr (fun u _ => ?_) fun u _ => ?_⟩
    · cases u with
      | head => simp [setNext, MsgPool.modify]
      | node m => by_cases hm : m = before <;> simp [Place.link, setNext, MsgPool.modify, hm]
      | tail => simp
    · cases u with
      | head => simp
      | node m => by_cases hm : m = before <;> simp [setNext, MsgPool.modify, hm]
      | tail => simp [Place.link]
  | cons after ys =>
    -- a node in the middle
    rw [map_cons] at hunlink
    have hne : before ≠ after := by
      rintro rfl
      have hdisjoint := disjoint_of_nodup_append h.nodup.of_append_right
      exact hdisjoint (mem_append_right xs (mem_singleton_self before))
        (mem_cons_of_mem n mem_cons_self)
    refine ⟨last, hunlink.congr (fun u _ => ?_) fun u _ => ?_⟩
    · cases u with
      | head => simp [setNext, setPrev, MsgPool.modify]
      | node m =>
        by_cases hm : m = before
        · simp [Place.link, setNext, hm]
        · by_cases hm' : m = after <;>
            simp [setNext, setPrev, MsgPool.modify, hm, hm', hne.symm]
      | tail => simp
    cases u with
    | head => simp
    | node m =>
      by_cases hm : m = before
      · simp [setNext, setPrev, MsgPool.modify, hm, hne]
      · by_cases hm' : m = after <;>
          simp [Place.link, setNext, setPrev, MsgPool.modify, hm, hm', hne.symm]
    | tail => simp

omit h in
theorem closeNode_frame (p : MsgPool K F) (n : Nat) : (p.closeNode n).mFreeList = p.mFreeList ∧
    (p.closeNode n).top = p.top ∧ (p.closeNode n).mNumFree = p.mNumFree ∧
    (p.closeNode n).mNumMsgs = p.mNumMsgs ∧ ∀ m, SameContents p (p.closeNode n) m := by
  unfold MsgPool.closeNode
  cases p.mOpenList with
  | none => exact ⟨rfl, rfl, rfl, rfl, fun _ => ⟨rfl, rfl, rfl⟩⟩
  | some first =>
    cases (p.nodes n).mNext with
    | none =>
      cases (p.nodes n).mPrev with
      | none => exact ⟨rfl, rfl, rfl, rfl, fun _ => ⟨rfl, rfl, rfl⟩⟩
      | some before => exact ⟨rfl, rfl, rfl, rfl, fun m => sameContents_setNext p before m none⟩
    | some after =>
      cases (p.nodes n).mPrev with
      | none => exact ⟨rfl, rfl, rfl, rfl, fun m => sameContents_setPrev p after m none⟩
      | some before =>
        exact ⟨rfl, rfl, rfl, rfl, fun m =>
          (sameContents_setPrev p after m (some before)).trans
            (sameContents_setNext _ before m (some after))⟩

theorem Lists.closeNode_next (hm : m ∈ free) :
    ((p.closeNode n).nodes m).mNext = (p.nodes m).mNext := by
  obtain ⟨hnext, hprev, -⟩ := h.links
  have hoff : ∀ a ∈ xs ++ n :: ys, m ≠ a := by
    rintro a ha rfl; exact disjoint_of_nodup_append h.nodup hm ha
  rw [MsgPool.closeNode, hnext, hprev]
  cases p.mOpenList with
  | none => rfl
  | some first =>
    have hbefore : ∀ before, xs.getLast? = some before → m ≠ before := fun before hlast =>
      hoff before (mem_append_left _ (mem_of_getLast? hlast))
    cases hxs : xs.getLast? with
    | none =>
      cases ys with
      | nil => rfl
      | cons after ys =>
        show ((p.setPrev after none).nodes m).mNext = _
        rw [setPrev, modify_of_ne _ (hoff after (by simp))]
    | some before =>
      cases ys with
      | nil =>
        show ((p.setNext before none).nodes m).mNext = _
        rw [setNext, modify_of_ne _ (hbefore before hxs)]
      | cons after ys =>
        show (((p.setPrev after (some before)).setNext before (some after)).nodes m).mNext = _
        rw [setNext, modify_of_ne _ (hbefore before hxs), setPrev,
          modify_of_ne _ (hoff after (by simp))]

end

/-- **A node is given back** unless the pool has as many free nodes as it was created with. -/
theorem Lists.releasePoolMsg (h : Lists p free opened) (hn : n ∈ opened) :
    if p.mNumFree < p.mNumMsgs then ∃ q opened', p.releasePoolMsg n = (q, true) ∧
    Lists q (n :: free) opened' ∧ (∀ m, m ∈ opened' ↔ m ∈ opened ∧ m ≠ n) ∧
    (∀ m, SameContents p q m) ∧ q.top = p.top ∧
    q.mNumMsgs = p.mNumMsgs else p.releasePoolMsg n = (p, false) := by
  unfold MsgPool.releasePoolMsg
  split_ifs with hroom hfull hfull
  · exact absurd hroom (by omega)
  · obtain ⟨xs, ys, rfl⟩ := append_of_mem hn
    obtain ⟨hfreeList, htop, hnumFree, hnumMsgs, hsame⟩ := closeNode_frame p n
    obtain ⟨last, hlisted⟩ := h.closeNode
    have hnodup := h.nodup
    have hsplit : free ++ (xs ++ n :: ys) = (free ++ xs) ++ n :: ys := by simp
    rw [hsplit, nodup_middle, nodup_cons, append_assoc] at hnodup
    obtain ⟨hout, hrest⟩ := hnodup
    have hnotMem := hout
    rw [mem_append, not_or] at hnotMem
    refine ⟨_, xs ++ ys, rfl, ⟨?_, ⟨last, ?_⟩, ?_, fun m => ?_, ?_⟩, fun m => ?_, fun m => ?_, htop,
      hnumMsgs⟩
    · refine path_cons.2 ⟨rfl, ?_⟩
      have hlink : (((p.closeNode n).setNext n (p.closeNode n).mFreeList).nodes n).mNext =
          p.mFreeList := by
        rw [setNext, modify_self, hfreeList]
      rw [hlink]
      refine h.path.congr fun m hm => ?_
      have hne : m ≠ n := fun heq => hnotMem.1 (heq ▸ hm)
      rw [setNext, modify_of_ne _ hne, h.closeNode_next hm]
    · refine hlisted.congr (fun u hu => ?_) fun u _ => ?_
      · cases u with
        | node m =>
          have hm : m ∈ xs ++ ys := by
            have hin := mem_of_mem_dropLast hu
            simpa using hin
          have hne : m ≠ n := fun heq => hnotMem.2 (heq ▸ hm)
          show (((p.closeNode n).setNext n _).nodes m).mNext = _
          rw [setNext, modify_of_ne _ hne]
          rfl
        | head | tail => rfl
      cases u with
      | node m =>
        show (((p.closeNode n).setNext n _).nodes m).mPrev = _
        by_cases hm : m = n
        · rw [hm, setNext, modify_self]; rfl
        · rw [setNext, modify_of_ne _ hm]; rfl
      | head | tail => rfl
    · exact List.nodup_cons.2 ⟨hout, hrest⟩
    · show _ ↔ m < (p.closeNode n).top
      rw [htop, ← h.allocated m]
      simp only [mem_append, mem_cons]
      tauto
    · show (p.closeNode n).mNumFree + 1 = free.length + 1
      rw [hnumFree, h.numFree]
    · by_cases hm : m = n
      · rw [hm]; exact ⟨fun hin => absurd hin hnotMem.2, fun hin => absurd rfl hin.2⟩
      · simp [hm]
    · exact (hsame m).trans (sameContents_setNext _ n m _)
  · rfl
  · exact absurd hroom (by omega)

end MsgPool

end Qpid

end Mama

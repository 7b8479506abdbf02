import Mathlib.Data.List.Count
import OpenMama.Common.WListRuns
import OpenMama.Mama.Throttle

/-!
# The actions of the throttle

Every action that was dispatched is at one place: on its way to the list, in the list, run,
taken off or refused (`Inv.places`).  What a step does to the list and to what ran is made
of a few `Effect`s, and these keep the order of any two actions (`Ordered`).
-/

namespace Mama.WombatThrottle

open Lib Relation List Option
open Common.WList (Node ListImpl Placed placed_rules)

def actions (t : Throttle) (live : List Node) : List Nat := live.map fun e => (t.info e).action

/-- The actions of dispatchers that have not pushed yet. -/
def inTransit (t : Throttle) : List Nat :=
  t.arrived.map Call.action ++ (t.enqueuing.map fun e => e.1.action).toList

/-- The elements of the list, and every action at its place. -/
structure Inv (t : Throttle) (live free : List Node) : Prop where
  list : Common.WList.Inv Placed t.mMsgQueue live free
  places : ∀ a, t.ran.count a + (actions t live).count a + t.removed.count a + t.refused.count a +
    (inTransit t).count a = (List.range t.dispatched).count a
  enqueuing : ∀ call info, t.enqueuing = some (call, some info) →
    ∃ n, n < t.mMsgQueue.allocated ∧ info = .element n ∧ .element n ∉ live ∧ .element n ∉ free
  running : ∀ info, t.phase = .drainRunning info ∨ t.phase = .quotaRunning info ∨ info ∈ t.freeing →
    ∃ n, n < t.mMsgQueue.allocated ∧ info = .element n

/-! ## The order of the actions -/

/-- The actions in the list, those that ran and those that were taken off. -/
structure Trace where
  queue : List Nat
  ran : List Nat
  removed : List Nat

inductive Effect : Trace → Trace → Prop
  | runs (q ran removed : List Nat) (a : Nat) : Effect ⟨q, ran, removed⟩ ⟨q, ran ++ [a], removed⟩
  | pushBack (q ran removed : List Nat) (a : Nat) :
      Effect ⟨q, ran, removed⟩ ⟨q ++ [a], ran, removed⟩
  | pushFront (q ran removed : List Nat) (a : Nat) : Effect ⟨q, ran, removed⟩ ⟨a :: q, ran, removed⟩
  | pops (q ran removed : List Nat) (a : Nat) :
      Effect ⟨a :: q, ran, removed⟩ ⟨q, ran ++ [a], removed⟩
  | removes (us vs ran removed : List Nat) (a : Nat) :
      Effect ⟨us ++ a :: vs, ran, removed⟩ ⟨us ++ vs, ran, removed ++ [a]⟩

/-- One action is ahead of another, or what has come of that. -/
def Ordered (a b : Nat) (s : Trace) : Prop :=
  a ∈ s.removed ∨ b ∈ s.removed ∨ [a, b].Sublist s.ran ∨ [a, b].Sublist s.queue ∨
    a ∈ s.ran ∧ b ∈ s.queue

variable {a b : Nat} {s s' : Trace}

theorem Ordered.effect (h : Ordered a b s) (he : Effect s s') : Ordered a b s' := by
  cases he with
  | runs q ran removed c =>
    rcases h with h | h | h | h | ⟨ha, hb⟩
    · exact .inl h
    · exact .inr (.inl h)
    · exact .inr (.inr (.inl (h.trans (sublist_append_left _ _))))
    · exact .inr (.inr (.inr (.inl h)))
    · exact .inr (.inr (.inr (.inr ⟨mem_append_left _ ha, hb⟩)))
  | pushBack q ran removed c =>
    rcases h with h | h | h | h | ⟨ha, hb⟩
    · exact .inl h
    · exact .inr (.inl h)
    · exact .inr (.inr (.inl h))
    · exact .inr (.inr (.inr (.inl (h.trans (sublist_append_left _ _)))))
    · exact .inr (.inr (.inr (.inr ⟨ha, mem_append_left _ hb⟩)))
  | pushFront q ran removed c =>
    rcases h with h | h | h | h | ⟨ha, hb⟩
    · exact .inl h
    · exact .inr (.inl h)
    · exact .inr (.inr (.inl h))
    · exact .inr (.inr (.inr (.inl (h.cons c))))
    · exact .inr (.inr (.inr (.inr ⟨ha, mem_cons_of_mem _ hb⟩)))
  | pops q ran removed c =>
    rcases h with h | h | h | h | ⟨ha, hb⟩
    · exact .inl h
    · exact .inr (.inl h)
    · exact .inr (.inr (.inl (h.trans (sublist_append_left _ _))))
    · rcases sublist_cons_iff.1 h with h | ⟨r, hr, h⟩
      · exact .inr (.inr (.inr (.inl h)))
      · obtain ⟨rfl, rfl⟩ := List.cons.inj hr
        refine .inr (.inr (.inr (.inr ⟨?_, singleton_sublist.1 h⟩)))
        exact mem_append_right _ (mem_singleton.2 rfl)
    · rcases mem_cons.1 hb with rfl | hb
      · refine .inr (.inr (.inl ?_)); exact (singleton_sublist.2 ha).append (List.Sublist.refl [b])
      · exact .inr (.inr (.inr (.inr ⟨mem_append_left _ ha, hb⟩)))
  | removes us vs ran removed c =>
    have hmem : ∀ x, x = c → x ∈ removed ++ [c] := fun x hx =>
      mem_append_right _ (mem_singleton.2 hx)
    rcases h with h | h | h | h | ⟨ha, hb⟩
    · exact .inl (mem_append_left _ h)
    · exact .inr (.inl (mem_append_left _ h))
    · exact .inr (.inr (.inl h))
    · by_cases ha : a = c
      · exact .inl (hmem a ha)
      by_cases hb : b = c
      · exact .inr (.inl (hmem b hb))
      refine .inr (.inr (.inr (.inl ?_)))
      have hfilter := h.filter (fun x => decide (x ≠ c))
      have hpair : [a, b].filter (fun x => decide (x ≠ c)) = [a, b] := by simp [ha, hb]
      have hcons : (c :: vs).filter (fun x => decide (x ≠ c)) =
          vs.filter fun x => decide (x ≠ c) := by simp
      rw [hpair, filter_append, hcons] at hfilter
      exact hfilter.trans (filter_sublist.append filter_sublist)
    · rcases mem_append.1 hb with hb | hb
      · exact .inr (.inr (.inr (.inr ⟨ha, mem_append_left _ hb⟩)))
      · rcases mem_cons.1 hb with rfl | hb
        · exact .inr (.inl (hmem b rfl))
        · exact .inr (.inr (.inr (.inr ⟨ha, mem_append_right _ hb⟩)))

theorem Ordered.effects (h : Ordered a b s) (he : ReflTransGen Effect s s') : Ordered a b s' := by
  induction he with
  | refl => exact h
  | tail _ he ih => exact ih.effect he

/-! ## Removal -/

variable {t t' : Throttle} {live free xs ys : List Node} {n : Nat}

def trace (t : Throttle) (live : List Node) : Trace := ⟨actions t live, t.ran, t.removed⟩

section

variable (h : Inv t live free)

include h

theorem Inv.isQueued_iff : isQueued t (.element n) ↔ .element n ∈ live := by
  unfold isQueued
  constructor
  · intro hqueued
    by_contra hlive
    by_cases hfree : Node.element n ∈ free
    · rw [h.list.rep.freed _ hfree] at hqueued
      exact absurd hqueued (by simp [Common.WList.Link.node])
    · rw [(h.list.rep.detached n hlive hfree).1] at hqueued
      exact absurd hqueued (by simp [Common.WList.Link.node])
  · intro hlive
    obtain ⟨⟨b, hb⟩, -⟩ := h.list.rep.linked hlive
    rw [hb]
    rfl

omit h in
theorem actions_append (t : Throttle) (xs ys : List Node) :
    actions t (xs ++ ys) = actions t xs ++ actions t ys := map_append

/-- Actions were taken off the list, and nothing else changed. -/
structure Removal (t t' : Throttle) (live live' : List Node) : Prop where
  same : t' = { t with mMsgQueue := t'.mMsgQueue, removed := t'.removed }
  allocated : t'.mMsgQueue.allocated = t.mMsgQueue.allocated
  fewer : live'.Sublist live
  effects : ReflTransGen Effect (trace t live) (trace t' live')

variable {free' live' : List Node} {S : Type}

omit h in
theorem Removal.trans {t'' : Throttle} {live'' : List Node} (h : Removal t t' live live')
    (h' : Removal t' t'' live' live'') : Removal t t'' live live'' where
  same := by
    rw [h'.same, h.same]
  allocated := h'.allocated.trans h.allocated
  fewer := h'.fewer.trans h.fewer
  effects := h.effects.trans h'.effects

theorem Inv.of_removal (henqueuing : t.enqueuing = none) (hremoval : Removal t t' live live')
    (hlist : Common.WList.Inv Placed t'.mMsgQueue live' free')
    (hplaces : ∀ a, (actions t live').count a + t'.removed.count a =
      (actions t live).count a + t.removed.count a) :
    Inv t' live' free' := by
  have hsame := hremoval.same
  refine ⟨hlist, fun a => ?_, fun call info hinfo => ?_, fun info hinfo => ?_⟩
  · have hold := h.places a
    have hnew := hplaces a
    rw [hsame]
    show t.ran.count a + (actions t live').count a + t'.removed.count a + t.refused.count a +
      (inTransit t).count a = (List.range t.dispatched).count a
    omega
  · rw [hsame] at hinfo; exact absurd (henqueuing.symm.trans hinfo) (by simp)
  · rw [hremoval.allocated]
    rw [hsame] at hinfo
    exact h.running info hinfo

theorem Inv.removeElement (henqueuing : t.enqueuing = none) (n : Nat) :
    ∃ t', removeElement t (.element n) = some t' ∧ Inv t' (live.erase (.element n)) free ∧
      Removal t t' live (live.erase (.element n)) := by
  obtain ⟨l, hrun, hallocated, hlist⟩ :=
    h.list.removeElement placed_rules (n := n) fun _ _ _ => trivial
  rw [WombatThrottle.removeElement, hrun]
  by_cases hlive : .element n ∈ live
  · simp only [if_pos (h.isQueued_iff.2 hlive)]
    refine ⟨_, rfl, ?_⟩
    obtain ⟨us, vs, rfl⟩ := append_of_mem hlive
    have hnotMem : .element n ∉ us := by
      have hnodup := nodup_middle.1 h.list.rep.nodup.of_append_left
      rw [nodup_cons, mem_append, not_or] at hnodup
      exact hnodup.1.1
    have hsplit : actions t (us ++ .element n :: vs) =
        actions t us ++ (t.info (.element n)).action :: actions t vs := actions_append t us _
    have herase : (us ++ .element n :: vs).erase (.element n) = us ++ vs := by
      rw [erase_append_right _ hnotMem, erase_cons_head]
    have hremoval : Removal t
        { t with mMsgQueue := l, removed := t.removed ++ [(t.info (.element n)).action] }
        (us ++ .element n :: vs) ((us ++ .element n :: vs).erase (.element n)) := by
      refine ⟨rfl, hallocated, erase_sublist, ReflTransGen.single ?_⟩
      rw [herase, trace, trace, hsplit]
      rw [actions_append]
      exact Effect.removes _ _ _ _ _
    refine ⟨h.of_removal henqueuing hremoval hlist fun a => ?_, hremoval⟩
    rw [herase, hsplit, actions_append]
    simp only [count_append, count_cons, count_nil]
    omega
  · have hnot : ¬ isQueued t (.element n) := fun hqueued => hlive (h.isQueued_iff.1 hqueued)
    simp only [if_neg hnot]
    rw [erase_of_not_mem hlive] at hlist ⊢
    have hremoval : Removal t { t with mMsgQueue := l } live live :=
      ⟨rfl, hallocated, List.Sublist.refl _, ReflTransGen.refl⟩
    exact ⟨_, rfl, h.of_removal henqueuing hremoval hlist fun _ => rfl, hremoval⟩

omit h in
theorem freeElement_allocated (l : ListImpl) (e : Node) :
    (Common.WList.freeElement l e).allocated = l.allocated := by
  unfold Common.WList.freeElement
  split <;> rfl

theorem Inv.freeElement (henqueuing : t.enqueuing = none)
    (hn : n < t.mMsgQueue.allocated) : (∃ free', Inv (freeElement t (.element n)) live free') ∧
      Removal t (WombatThrottle.freeElement t (.element n)) live live := by
  obtain ⟨free', hrep⟩ := h.list.rep.freeElement hn
  obtain ⟨hiterators, hiterator⟩ := Common.WList.freeElement_iterators t.mMsgQueue (.element n)
  have hremoval : Removal t (WombatThrottle.freeElement t (.element n)) live live :=
    ⟨rfl, freeElement_allocated _ _, List.Sublist.refl _, ReflTransGen.refl⟩
  exact ⟨⟨free', h.of_removal henqueuing hremoval (h.list.of_rep hrep hiterators hiterator)
    fun _ => rfl⟩, hremoval⟩

theorem Inv.removeAndFree (henqueuing : t.enqueuing = none)
    (hn : n < t.mMsgQueue.allocated) : ∃ t', (do
        let t ← WombatThrottle.removeElement t (.element n)
        some (WombatThrottle.freeElement t (.element n))) = some t' ∧
      (∃ free', Inv t' (live.erase (.element n)) free') ∧
        Removal t t' live (live.erase (.element n)) := by
  obtain ⟨t₁, hrun, h₁, hremoval₁⟩ := h.removeElement henqueuing n
  have henqueuing₁ : t₁.enqueuing = none := by rwa [hremoval₁.same]
  obtain ⟨hfree, hremoval₂⟩ := h₁.freeElement henqueuing₁ (hremoval₁.allocated ▸ hn)
  exact ⟨_, by rw [hrun]; rfl, hfree, hremoval₁.trans hremoval₂⟩

omit h in
theorem forEach_element (list : S → ListImpl) (cb : S → Node → Option S) (fuel : Nat) (s : S)
    (n : Nat) : Common.WList.forEach list cb (fuel + 1) s (some (.element n)) =
      (cb s (.element n)).bind fun s' =>
        Common.WList.forEach list cb fuel s' ((list s).mNext (.element n)) := by
  simp [Common.WList.forEach]

omit h in
theorem forEach_tail (list : S → ListImpl) (cb : S → Node → Option S) (fuel : Nat) (s : S) :
    Common.WList.forEach list cb (fuel + 1) s (some .tail) = some s := by
  simp [Common.WList.forEach]

omit h in
/-- The rest of the list is gone through, and the actions of the owner are taken off. -/
theorem Inv.removeMessages (h : Inv t (xs ++ ys) free) (henqueuing : t.enqueuing = none)
    (owner : Nat)
    {fuel : Nat} (hfuel : ys.length < fuel) : ∃ t', Common.WList.forEach Throttle.mMsgQueue
        (removeMessagesForOwnerCb · owner) fuel t (some (firstOf ys .tail)) = some t' ∧
      ∃ live' free', Inv t' live' free' ∧ Removal t t' (xs ++ ys) live' := by
  induction ys generalizing t xs free fuel with
  | nil =>
    cases fuel with
    | zero => exact absurd hfuel (Nat.not_lt_zero _)
    | succ fuel =>
      exact ⟨t, forEach_tail .., _, free, h, rfl, rfl, List.Sublist.refl _, ReflTransGen.refl⟩
  | cons e ys ih =>
    cases fuel with
    | zero => exact absurd hfuel (Nat.not_lt_zero _)
    | succ fuel =>
      rw [length_cons] at hfuel
      obtain ⟨n, hn, rfl⟩ := h.list.rep.live_element (mem_append_right xs mem_cons_self)
      have hnext : t.mMsgQueue.mNext (.element n) = some (firstOf ys .tail) :=
        h.list.rep.links.next_eq
      rw [firstOf_cons, forEach_element, hnext]
      unfold removeMessagesForOwnerCb
      by_cases howner : owner = (t.info (.element n)).mOwner
      · obtain ⟨t₁, hrun, ⟨free₁, h₁⟩, hremoval₁⟩ := h.removeAndFree henqueuing hn
        have henqueuing₁ : t₁.enqueuing = none := by rwa [hremoval₁.same]
        have herase : (xs ++ Node.element n :: ys).erase (.element n) = xs ++ ys := by
          have hnodup := nodup_middle.1 h.list.rep.nodup.of_append_left
          rw [nodup_cons, mem_append, not_or] at hnodup
          rw [erase_append_right _ hnodup.1.1, erase_cons_head]
        rw [herase] at h₁ hremoval₁
        obtain ⟨t', hrest, live', free', h', hremoval'⟩ := ih h₁ henqueuing₁
          (show ys.length < fuel by omega)
        rw [if_pos howner, hrun]
        exact ⟨t', hrest, live', free', h', hremoval₁.trans hremoval'⟩
      · rw [append_cons] at h ⊢
        obtain ⟨t', hrest, live', free', h', hremoval'⟩ := ih h henqueuing
          (show ys.length < fuel by omega)
        rw [if_neg howner]
        exact ⟨t', hrest, live', free', h', hremoval'⟩

theorem Inv.removeMessagesForOwner (henqueuing : t.enqueuing = none)
    (owner : Nat) : ∃ t', removeMessagesForOwner t owner = some t' ∧
      ∃ live' free', Inv t' live' free' ∧ Removal t t' live live' := by
  have hfront : Inv t ([] ++ live) free := h
  have hfuel : live.length < t.mMsgQueue.size + 1 := by
    rw [h.list.rep.size]; omega
  rw [WombatThrottle.removeMessagesForOwner, h.list.rep.first]
  exact hfront.removeMessages henqueuing owner hfuel

theorem Inv.removeMessagesFromList (henqueuing : t.enqueuing = none)
    {handles : List Nat} (hhandles : ∀ n ∈ handles, n < t.mMsgQueue.allocated) :
    ∃ t', removeMessagesFromList t handles = some t' ∧
      ∃ live' free', Inv t' live' free' ∧ Removal t t' live live' := by
  unfold WombatThrottle.removeMessagesFromList
  induction handles generalizing t live free with
  | nil => exact ⟨t, rfl, live, free, h, rfl, rfl, List.Sublist.refl _, ReflTransGen.refl⟩
  | cons n handles ih =>
    obtain ⟨t₁, hrun, ⟨free₁, h₁⟩, hremoval₁⟩ :=
      h.removeAndFree henqueuing (hhandles n mem_cons_self)
    have henqueuing₁ : t₁.enqueuing = none := by rwa [hremoval₁.same]
    obtain ⟨t', hrest, live', free', h', hremoval'⟩ := ih h₁ henqueuing₁ fun m hm =>
      hremoval₁.allocated ▸ hhandles m (mem_cons_of_mem _ hm)
    refine ⟨t', ?_, live', free', h', hremoval₁.trans hremoval'⟩
    rwa [foldlM_cons, hrun]

/-! ## Dispatch -/

/-- What a call leaves of the callback, and that it does not destroy the timer. -/
structure Frame (t t' : Throttle) : Prop where
  rate : t'.mRate = t.mRate
  sent : t'.mMsgsSentThisInterval = t.mMsgsSentThisInterval
  messages : t'.mMessagesPerInterval = t.mMessagesPerInterval
  phase : t'.phase = t.phase
  callback : t'.callback = t.callback
  callbacks : t'.callbacks = t.callbacks
  timer : t.mTimer → t'.mTimer

/-- How many actions are in the list, or will be when the list is unlocked. -/
def waiting (t : Throttle) (live : List Node) : Nat :=
  live.length + if t.enqueuing.isSome then 1 else 0

/-- A call of another than the callback: no more actions wait after it, or there is a timer. -/
def Calls (t t' : Throttle) (live : List Node) : Prop :=
  ∃ live' free', Inv t' live' free' ∧ ReflTransGen Effect (trace t live) (trace t' live') ∧
    Frame t t' ∧
    (waiting t' live' ≤ waiting t live ∨ t'.mTimer)

omit h in
theorem Removal.calls (h : Removal t t' live live') (h' : Inv t' live' free') :
    Calls t t' live := by
  have hsame := h.same
  refine ⟨live', free', h', h.effects, ?_, .inl ?_⟩
  · rw [hsame]; exact ⟨rfl, rfl, rfl, rfl, rfl, rfl, id⟩
  · have hle := h.fewer.length_le
    rw [hsame]
    exact Nat.add_le_add_right hle _

theorem Inv.dispatch (owner : Nat) (immediate : Bool) :
    Calls t (dispatch t owner immediate) live := by
  simp only [WombatThrottle.dispatch]
  split
  · refine ⟨live, free, ⟨h.list, fun a => ?_, h.enqueuing, h.running⟩,
      ReflTransGen.single (Effect.runs _ _ _ _), ⟨rfl, rfl, rfl, rfl, rfl, rfl, id⟩,
        .inl (Nat.le_refl _)⟩
    have hplaces := h.places a
    show (t.ran ++ [t.dispatched]).count a + (actions t live).count a + t.removed.count a +
      t.refused.count a + (inTransit t).count a = (List.range (t.dispatched + 1)).count a
    rw [range_succ, count_append, count_append]
    omega
  refine ⟨live, free, ⟨h.list, fun a => ?_, h.enqueuing, h.running⟩, ReflTransGen.refl,
    ⟨rfl, rfl, rfl, rfl, rfl, rfl, id⟩, .inl (Nat.le_refl _)⟩
  have hplaces := h.places a
  show t.ran.count a + (actions t live).count a + t.removed.count a + t.refused.count a +
    (List.map Call.action (t.arrived ++ [⟨owner, t.dispatched, immediate⟩]) ++
      (t.enqueuing.map fun e => e.1.action).toList).count a =
    (List.range (t.dispatched + 1)).count a
  rw [range_succ, map_append]
  simp only [inTransit, count_append] at hplaces ⊢
  show _ + (_ + [t.dispatched].count a + _) = _
  omega

theorem Inv.enqueueBegin (henqueuing : t.enqueuing = none) {call : Call}
    (hcall : call ∈ t.arrived) : Calls t (enqueueBegin t call) live := by
  obtain ⟨free', hrep, hallocated, hfresh⟩ := h.list.rep.allocateElement
  obtain ⟨hiterators, hiterator⟩ := Common.WList.allocateElement_iterators t.mMsgQueue
  refine ⟨live, free',
    ⟨h.list.of_rep hrep hiterators hiterator, fun a => ?_, fun call' info hinfo => ?_,
    fun info hinfo => ?_⟩, ReflTransGen.refl, ⟨rfl, rfl, rfl, rfl, rfl, rfl, fun _ => rfl⟩,
      .inr rfl⟩
  · have hplaces := h.places a
    have hperm := ((perm_cons_erase hcall).map Call.action).count_eq a
    rw [inTransit, henqueuing] at hplaces
    show t.ran.count a + (actions t live).count a + t.removed.count a + t.refused.count a +
      (List.map Call.action (t.arrived.erase call) ++ [call.action]).count a =
      (List.range t.dispatched).count a
    simp only [map_cons, count_cons, count_append, map_none, toList_none] at hperm hplaces ⊢
    omega
  · obtain ⟨-, hsome⟩ := Prod.mk.inj (some.inj hinfo)
    obtain ⟨n, hn, rfl, hlive, hfree⟩ := hfresh info hsome
    exact ⟨n, hn, rfl, hlive, hfree⟩
  · obtain ⟨n, hn, rfl⟩ := h.running info hinfo
    exact ⟨n, Nat.lt_of_lt_of_le hn hallocated, rfl⟩

theorem Inv.enqueueEnd (hrun : enqueueEnd t = some t') : Calls t t' live := by
  unfold WombatThrottle.enqueueEnd at hrun
  split at hrun
  · cases hrun
  · rename_i call hcall
    cases hrun
    refine ⟨live, free, ⟨h.list, fun a => ?_, fun _ _ hinfo => absurd hinfo (by simp), h.running⟩,
      ReflTransGen.refl, ⟨rfl, rfl, rfl, rfl, rfl, rfl, id⟩, .inl ?_⟩
    · have hplaces := h.places a
      rw [inTransit, hcall] at hplaces
      show t.ran.count a + (actions t live).count a + t.removed.count a +
        (t.refused ++ [call.action]).count a + (List.map Call.action t.arrived ++ []).count a =
        (List.range t.dispatched).count a
      simp only [count_append, count_nil, map_some, toList_some] at hplaces ⊢
      omega
    · exact Nat.add_le_add_left (Nat.zero_le _) _
  rename_i call info hcall
  obtain ⟨n, hn, rfl, hlive, hfree⟩ := h.enqueuing call info hcall
  -- Both ends of the list take the element; its action is that of the call.
  have hpushed : ∀ l live', Common.WList.Inv Placed l live' free →
      l.allocated = t.mMsgQueue.allocated →
      live'.length = live.length + 1 →
      (∀ a, (live'.map fun e => (Function.update t.info (.element n)
        ⟨call.owner, call.action⟩ e).action).count a =
          (actions t live).count a + [call.action].count a) →
      Effect (trace t live) ⟨live'.map fun e => (Function.update t.info (.element n)
        ⟨call.owner, call.action⟩ e).action, t.ran, t.removed⟩ →
      Calls t { t with
        mMsgQueue := l
        info := Function.update t.info (.element n) ⟨call.owner, call.action⟩
        enqueuing := none } live := by
    intro l live' hlist hallocated hlen hcount heffect
    refine ⟨live', free, ⟨hlist, fun a => ?_, fun _ _ hinfo => absurd hinfo (by simp), ?_⟩,
      ReflTransGen.single heffect, ⟨rfl, rfl, rfl, rfl, rfl, rfl, id⟩, .inl ?_⟩
    · have hplaces := h.places a
      rw [inTransit, hcall] at hplaces
      show t.ran.count a + (List.map _ live').count a + t.removed.count a + t.refused.count a +
        (List.map Call.action t.arrived ++ []).count a = (List.range t.dispatched).count a
      rw [hcount]
      simp only [count_append, count_nil, map_some, toList_some] at hplaces ⊢
      omega
    · intro info hinfo
      rw [hallocated]
      exact h.running info hinfo
    · unfold waiting
      rw [hlen, hcall]
      exact Nat.le_refl _
  have hold : (live.map fun e => (Function.update t.info (.element n)
      ⟨call.owner, call.action⟩ e).action) = actions t live := by
    refine map_congr_left fun e he => ?_
    rw [Function.update_of_ne]
    rintro rfl
    exact hlive he
  cases himmediate : call.immediate with
  | true =>
    obtain ⟨l, hpush, hallocated, hlist⟩ := h.list.pushFront placed_rules hn hlive hfree
    rw [himmediate, hpush] at hrun
    cases hrun
    refine hpushed l _ hlist hallocated (length_cons ..) (fun a => ?_) ?_
    · rw [map_cons, hold, Function.update_self, count_cons, count_singleton]
    · rw [map_cons, hold]; exact Effect.pushFront _ _ _ _
  | false =>
    obtain ⟨l, hpush, hallocated, hlist⟩ := h.list.pushBack placed_rules hn hlive hfree
    rw [himmediate, hpush] at hrun
    cases hrun
    refine hpushed l _ hlist hallocated (length_append ..) (fun a => ?_) ?_
    · rw [map_append, hold, count_append, map_singleton, Function.update_self]
    · rw [map_append, hold]; exact Effect.pushBack _ _ _ _

/-! ## The callback -/

theorem Inv.sendQueuedMessage (henqueuing : t.enqueuing = none)
    {running : Node → Phase} {empty : Throttle → Throttle}
    (hrunning : running = .drainRunning ∨ running = .quotaRunning)
    (hrun : sendQueuedMessage t running empty = some t') :
    (live = [] ∧ t' = empty t) ∨ ∃ e ys l, live = e :: ys ∧ Inv t' ys free ∧
      Effect (trace t live) (trace t' ys) ∧
      t' = { t with
        mMsgQueue := l
        phase := running e
        ran := t.ran ++ [(t.info e).action]
        callback := { t.callback with ran := t.callback.ran + 1 } } := by
  unfold WombatThrottle.sendQueuedMessage at hrun
  cases live with
  | nil => rw [h.list.rep.popFront_nil] at hrun; exact .inl ⟨rfl, (some.inj hrun).symm⟩
  | cons e ys =>
    obtain ⟨l, hpop, hallocated, hlist⟩ := h.list.popFront placed_rules
    obtain ⟨n, hn, rfl⟩ := h.list.rep.live_element mem_cons_self
    rw [hpop] at hrun
    cases hrun
    refine .inr ⟨_, ys, l, rfl,
      ⟨hlist, fun a => ?_, fun call info hinfo => ?_, fun info hinfo => ?_⟩, ?_, rfl⟩
    · have hplaces := h.places a
      have hcons : actions t (.element n :: ys) = (t.info (.element n)).action :: actions t ys :=
        rfl
      rw [hcons] at hplaces
      show (t.ran ++ [(t.info (.element n)).action]).count a + (actions t ys).count a +
        t.removed.count a + t.refused.count a + (inTransit t).count a =
          (List.range t.dispatched).count a
      simp only [count_append, count_cons, count_nil] at hplaces ⊢
      omega
    · exact absurd (henqueuing.symm.trans hinfo) (by simp)
    · rw [hallocated]
      have hor : info = .element n ∨ info ∈ t.freeing := by
        rcases hrunning with rfl | rfl
        · rcases hinfo with hphase | hphase | hfreeing
          · exact .inl (Phase.drainRunning.inj hphase).symm
          · cases hphase
          · exact .inr hfreeing
        · rcases hinfo with hphase | hphase | hfreeing
          · cases hphase
          · exact .inl (Phase.quotaRunning.inj hphase).symm
          · exact .inr hfreeing
      rcases hor with rfl | hfreeing
      · exact ⟨n, hn, rfl⟩
      · exact h.running info (.inr (.inr hfreeing))
    · exact Effect.pops _ _ _ _

end

end Mama.WombatThrottle

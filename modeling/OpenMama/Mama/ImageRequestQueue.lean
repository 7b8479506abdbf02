import OpenMama.Mama.ImageRequest
import OpenMama.Mama.ThrottleRuns

/-!
# The actions of image requests

The actions of all requests wait in the list of one throttle.  Every element of the list is known to
the request that owns its action by a handle in `mPendingActions` (`Queued.held`); the calls keep
this, and what each of them does is made explicit (`Dispatched`, `Sent`).
-/

namespace Mama.WombatThrottle

open List

open Common.WList (Node ListImpl Rep Placed placed_rules)

variable {t t' : Throttle} {live live' free free' : List Node} {n : Nat}

/-! ## The list of the throttle -/

theorem live_unique {l : ListImpl} (h : Rep l live free) (h' : Rep l live' free') : live' = live :=
  h'.walk_eq.symm.trans h.walk_eq

theorem Inv.removeHandles (h : Inv t live free) (henqueuing : t.enqueuing = none)
    {handles : List Nat}
    (hhandles : ∀ n ∈ handles, n < t.mMsgQueue.allocated) :
    ∃ t', WombatThrottle.removeMessagesFromList t handles = some t' ∧
      (∃ free', Inv t' (live.filter fun e => e ∉ handles.map Node.element) free') ∧
      Removal t t' live (live.filter fun e => e ∉ handles.map Node.element) := by
  unfold WombatThrottle.removeMessagesFromList
  induction handles generalizing t live free with
  | nil =>
    have hall : (live.filter fun e => e ∉ ([] : List Nat).map Node.element) = live :=
      List.filter_eq_self.mpr fun e _ => by simp
    rw [hall]
    exact ⟨t, rfl, ⟨free, h⟩, rfl, rfl, List.Sublist.refl _, Relation.ReflTransGen.refl⟩
  | cons n handles ih =>
    obtain ⟨t₁, hrun, ⟨free₁, h₁⟩, hremoval₁⟩ :=
      h.removeAndFree henqueuing (hhandles n mem_cons_self)
    have henqueuing₁ : t₁.enqueuing = none := by rwa [hremoval₁.same]
    obtain ⟨t', hrest, hinv, hremoval'⟩ := ih h₁ henqueuing₁ fun m hm =>
      hremoval₁.allocated ▸ hhandles m (List.mem_cons_of_mem _ hm)
    have hnodup : live.Nodup := h.list.rep.nodup.of_append_left
    have hfilter : ((live.erase (.element n)).filter fun e => e ∉ handles.map Node.element) =
        live.filter fun e => e ∉ (n :: handles).map Node.element := by
      rw [hnodup.erase_eq_filter, filter_filter]
      refine filter_congr fun e _ => ?_
      rw [Bool.eq_iff_iff]
      simp only [Bool.and_eq_true, decide_eq_true_eq, bne_iff_ne, map_cons, mem_cons, not_or]
      exact and_comm
    rw [hfilter] at hinv hremoval'
    refine ⟨t', ?_, hinv, hremoval₁.trans hremoval'⟩
    rwa [foldlM_cons, hrun]

structure Enqueued (t t' : Throttle) (owner n : Nat) : Prop where
  info : t'.info = Function.update t.info (.element n) ⟨owner, t.dispatched⟩
  allocated : t.mMsgQueue.allocated ≤ t'.mMsgQueue.allocated
  handle : n < t'.mMsgQueue.allocated
  rate : t'.mRate = t.mRate
  dispatched : t'.dispatched = t.dispatched + 1
  ran : t'.ran = t.ran
  phase : t'.phase = t.phase
  enqueuing : t'.enqueuing = none
  arrived : t'.arrived = t.arrived

/-- The list lock is held while an action is put into the list. -/
def enqueue (t : Throttle) (owner : Nat) (immediate : Bool) : Throttle :=
  enqueueBegin (dispatch t owner immediate) ⟨owner, t.dispatched, immediate⟩

/-- **An action is put into the list** with a new element. -/
theorem Inv.enqueue (h : Inv t live free) (henqueuing : t.enqueuing = none)
    (harrived : t.arrived = []) (hrate : ¬ t.mRate ≤ 0) {owner : Nat} {immediate : Bool}
    {call : Call}
    (hbegin : (WombatThrottle.enqueue t owner immediate).enqueuing = some (call, some (.element n)))
    (hend : WombatThrottle.enqueueEnd (WombatThrottle.enqueue t owner immediate) = some t') :
    .element n ∉ live ∧ Enqueued t t' owner n ∧
      ∃ free', Inv t' (if immediate then .element n :: live else live ++ [.element n]) free' := by
  unfold WombatThrottle.enqueue at hbegin hend
  generalize hcall : (⟨owner, t.dispatched, immediate⟩ : Call) = call' at hbegin hend
  have hdispatch : WombatThrottle.dispatch t owner immediate =
      { t with dispatched := t.dispatched + 1, arrived := t.arrived ++ [call'] } := by
    rw [WombatThrottle.dispatch, if_neg hrate, ← hcall]
  -- the action arrives
  obtain ⟨live₁, free₁, h₁, -⟩ := h.dispatch owner immediate
  rw [hdispatch] at h₁ hbegin hend
  obtain rfl := live_unique h.list.rep h₁.list.rep
  -- an element is allocated
  obtain ⟨live₂, free₂, h₂, -⟩ := h₁.enqueueBegin henqueuing (List.mem_append_right _
    (List.mem_singleton_self call'))
  obtain ⟨free₃, hrep₃, hallocated, -⟩ := h₁.list.rep.allocateElement
  obtain rfl := live_unique hrep₃ h₂.list.rep
  obtain ⟨rfl, -⟩ := Prod.mk.inj (Option.some.inj hbegin)
  obtain ⟨m, hm, heq, hlive, hfree⟩ := h₂.enqueuing _ _ hbegin
  obtain rfl := Node.element.inj heq
  -- it is pushed
  obtain ⟨live₄, free₄, h₄, -⟩ := h₂.enqueueEnd hend
  unfold WombatThrottle.enqueueEnd at hend
  rw [hbegin] at hend
  dsimp only at hend
  subst hcall
  have harrived' : (t.arrived ++ [(⟨owner, t.dispatched, immediate⟩ : Call)]).erase
      ⟨owner, t.dispatched, immediate⟩ = t.arrived := by
    rw [harrived]
    exact erase_cons_head _ _
  cases immediate with
  | true =>
    obtain ⟨l, hpush, hpushed, hlist⟩ := h₂.list.pushFront placed_rules hm hlive hfree
    rw [hpush] at hend
    cases hend
    obtain rfl := live_unique hlist.rep h₄.list.rep
    refine ⟨hlive, ⟨rfl, ?_, ?_, rfl, rfl, rfl, rfl, rfl, harrived'⟩, free₄, h₄⟩
    · exact Nat.le_trans hallocated (Nat.le_of_eq hpushed.symm)
    · exact Nat.lt_of_lt_of_eq hm hpushed.symm
  | false =>
    obtain ⟨l, hpush, hpushed, hlist⟩ := h₂.list.pushBack placed_rules hm hlive hfree
    rw [hpush] at hend
    cases hend
    obtain rfl := live_unique hlist.rep h₄.list.rep
    refine ⟨hlive, ⟨rfl, ?_, ?_, rfl, rfl, rfl, rfl, rfl, harrived'⟩, free₄, h₄⟩
    · exact Nat.le_trans hallocated (Nat.le_of_eq hpushed.symm)
    · exact Nat.lt_of_lt_of_eq hm hpushed.symm

end Mama.WombatThrottle

namespace Mama.ImageRequest

open Common.WList (Node)
open WombatThrottle (Throttle actions)

variable {s s' : System} {live live' free free' : List Node} {q : Request} {r n : Nat} {now : ℚ}

/-! ## What leaves the pending actions -/

@[simp] theorem pending_checkDestroyReplyTimer (q : Request) (now : ℚ) :
    (checkDestroyReplyTimer q now).impl.mPendingActions = q.impl.mPendingActions := by
  unfold checkDestroyReplyTimer
  split <;> rfl

@[simp] theorem pending_startReplyTimer (q : Request) (now : ℚ) :
    (startReplyTimer q now).impl.mPendingActions = q.impl.mPendingActions := by
  unfold startReplyTimer
  split <;> rfl

@[simp] theorem pending_publish (q : Request) (now : ℚ) :
    (q.publish now).impl.mPendingActions = q.impl.mPendingActions := by
  unfold Request.publish
  split
  · exact pending_startReplyTimer q now
  · rfl

@[simp] theorem pending_checkTimeout (q : Request) (received : Bool) :
    (checkTimeout q received).impl.mPendingActions = q.impl.mPendingActions := by
  unfold checkTimeout
  split
  · rfl
  · split
    · rfl
    · dsimp only
      split
      · split <;> rfl
      · rfl

@[simp] theorem pending_timedOut (q : Request) (received : Bool) :
    (q.timedOut received).impl.mPendingActions = q.impl.mPendingActions := by
  unfold Request.timedOut
  dsimp only
  split
  · exact pending_checkTimeout _ received
  · rfl

/-! ## The invariant -/

/-- The elements of the throttle's list, each known to the request that owns its action. -/
structure Queued (s : System) (live free : List Node) : Prop where
  inv : WombatThrottle.Inv s.throttle live free
  enqueuing : s.throttle.enqueuing = none
  arrived : s.throttle.arrived = []
  phase : s.throttle.phase = .idle
  held : ∀ e ∈ live, ∃ p ∈ (s.request (s.throttle.info e).mOwner).impl.mPendingActions,
    p.action = (s.throttle.info e).action ∧ p.handle.map Node.element = some e
  handles : ∀ r, ∀ p ∈ (s.request r).impl.mPendingActions, ∀ n, p.handle = some n →
    n < s.throttle.mMsgQueue.allocated

section

variable (h : Queued s live free)

include h

theorem Queued.action_lt {e : Node} (he : e ∈ live) :
    (s.throttle.info e).action < s.throttle.dispatched := by
  have hplaces := h.inv.places (s.throttle.info e).action
  have hpos : 0 < (actions s.throttle live).count (s.throttle.info e).action :=
    List.count_pos_iff.mpr (List.mem_map_of_mem he)
  have hrange : 0 < (List.range s.throttle.dispatched).count (s.throttle.info e).action := by omega
  exact List.mem_range.mp (List.count_pos_iff.mp hrange)

theorem Queued.setRequest (hpending : q.impl.mPendingActions = (s.request r).impl.mPendingActions) :
    Queued (s.setRequest r q) live free := by
  have hsame : ∀ r', ((s.setRequest r q).request r').impl.mPendingActions =
      (s.request r').impl.mPendingActions := by
    intro r'
    show (Function.update s.request r q r').impl.mPendingActions = _
    by_cases heq : r' = r
    · rw [heq, Function.update_self, hpending]
    · rw [Function.update_of_ne heq]
  refine ⟨h.inv, h.enqueuing, h.arrived, h.phase, fun e he => ?_, fun r' => ?_⟩
  · rw [hsame]; exact h.held e he
  · rw [hsame]; exact h.handles r'

def entries (t : Throttle) (live : List Node) : List (Nat × Nat) :=
  live.map fun e => ((t.info e).mOwner, (t.info e).action)

/-- The actions in the throttle's list from the front, with the requests that own them. -/
def waiting (s : System) : List (Nat × Nat) :=
  entries s.throttle (Common.WList.walk s.throttle.mMsgQueue.mNext s.throttle.mMsgQueue.size .head)

theorem Queued.waiting_eq : waiting s = entries s.throttle live := by
  rw [waiting, h.inv.list.rep.walk_eq]

omit h in
theorem entries_congr {t t' : Throttle} (h : ∀ e ∈ live, t'.info e = t.info e) :
    entries t' live = entries t live := by
  refine List.map_congr_left fun e he => ?_
  rw [h e he]

/-- What a dispatch does: the action runs at once, or it waits. -/
inductive Dispatched (s s' : System) (r : Nat) (now : ℚ) (retry : Bool) : Prop
  | run (a : Nat) (hrequest : s'.request = Function.update s.request r
        (requestAction ((s.request r).push ⟨a, none, retry⟩) now (some a)))
      (hwaiting : waiting s' = waiting s) (hran : s'.throttle.ran = s.throttle.ran ++ [a])
  | push (a n : Nat) (hrequest : s'.request = Function.update s.request r
        ((s.request r).push ⟨a, some n, retry⟩))
      (hwaiting : waiting s' = (r, a) :: waiting s ∨ waiting s' = waiting s ++ [(r, a)])
      (hran : s'.throttle.ran = s.throttle.ran)

/-- What the throttle does when it sends: nothing waits, or the front runs. -/
inductive Sent (s s' : System) (now : ℚ) : Prop
  | empty (hnil : waiting s = []) (hrequest : s'.request = s.request)
      (hwaiting : waiting s' = waiting s)
      (hran : s'.throttle.ran = s.throttle.ran)
  | pop (a : Nat × Nat) (hdestroyed : (s.request a.1).destroyed = false)
      (hrequest : s'.request = Function.update s.request a.1
        (requestAction (s.request a.1) now (some a.2)))
      (hwaiting : waiting s = a :: waiting s') (hran : s'.throttle.ran = s.throttle.ran ++ [a.2])

/-- **A dispatch.** -/
theorem Queued.dispatch {immediate retry : Bool}
    (hrun : dispatch s r now immediate retry = some s') :
    ∃ live' free', Queued s' live' free' ∧ Dispatched s s' r now retry := by
  unfold ImageRequest.dispatch at hrun
  dsimp only at hrun
  by_cases hrate : s.throttle.mRate ≤ 0
  · -- the action runs at once, and its element is taken off again
    rw [if_pos hrate] at hrun
    cases hrun
    have hdispatch : WombatThrottle.dispatch s.throttle r immediate = { s.throttle with
        dispatched := s.throttle.dispatched + 1
        ran := s.throttle.ran ++ [s.throttle.dispatched] } := by
      rw [WombatThrottle.dispatch, if_pos hrate]
    obtain ⟨live₁, free₁, h₁, -⟩ := h.inv.dispatch r immediate
    rw [hdispatch] at h₁ ⊢
    obtain rfl := WombatThrottle.live_unique h.inv.list.rep h₁.list.rep
    generalize hq : requestAction _ now _ = q
    have hpending : q.impl.mPendingActions = (s.request r).impl.mPendingActions.filter
        fun p => p.action ≠ s.throttle.dispatched := by
      rw [← hq]
      simp [requestAction, Request.takeOff]
    refine ⟨_, free₁, ⟨h₁, h.enqueuing, h.arrived, h.phase, fun e he => ?_, fun r' p hp => ?_⟩, ?_⟩
    · obtain ⟨p, hp, haction, hhandle⟩ := h.held e he
      refine ⟨p, ?_, haction, hhandle⟩
      show p ∈ (Function.update s.request r q _).impl.mPendingActions
      by_cases heq : (s.throttle.info e).mOwner = r
      · rw [heq, Function.update_self, hpending, List.mem_filter]
        rw [heq] at hp
        have hlt := h.action_lt he
        refine ⟨hp, decide_eq_true ?_⟩
        omega
      · rwa [Function.update_of_ne heq]
    · have hp : p ∈ (Function.update s.request r q r').impl.mPendingActions := hp
      by_cases heq : r' = r
      · rw [heq, Function.update_self, hpending] at hp
        exact h.handles r p (List.mem_of_mem_filter hp)
      · rw [Function.update_of_ne heq] at hp; exact h.handles r' p hp
    · exact .run s.throttle.dispatched (by rw [← hq]; rfl) rfl rfl
  rw [if_neg hrate] at hrun
  split at hrun
  · next call n hbegin =>
    obtain ⟨t, hend, hs'⟩ := Option.bind_eq_some_iff.mp hrun
    cases hs'
    obtain ⟨hnew, henqueued, free', hinv⟩ := h.inv.enqueue h.enqueuing h.arrived hrate hbegin hend
    have hinfo : ∀ e ∈ live, t.info e = s.throttle.info e := by
      intro e he
      rw [henqueued.info, Function.update_of_ne]
      rintro rfl
      exact hnew he
    have hself : t.info (.element n) = ⟨r, s.throttle.dispatched⟩ := by
      rw [henqueued.info, Function.update_self]
    generalize hq : ({ s.request r with impl := _ } : Request) = q
    have hpending : q.impl.mPendingActions = (s.request r).impl.mPendingActions ++
        [⟨s.throttle.dispatched, some n, retry⟩] := by
      rw [← hq]
    have hqueued : Queued { throttle := t, request := Function.update s.request r q }
        (if immediate then .element n :: live else live ++ [.element n]) free' := by
      refine ⟨hinv, henqueued.enqueuing, henqueued.arrived.trans h.arrived,
        henqueued.phase.trans h.phase, fun e he => ?_, fun r' p hp m hm => ?_⟩
      · have hor : e = .element n ∨ e ∈ live := by
          cases immediate with
          | true => exact List.mem_cons.mp he
          | false => rw [or_comm, ← List.mem_singleton]; exact List.mem_append.mp he
        rcases hor with rfl | he
        · refine ⟨⟨s.throttle.dispatched, some n, retry⟩, ?_, ?_, rfl⟩
          · show _ ∈ (Function.update s.request r q
              (t.info (.element n)).mOwner).impl.mPendingActions
            rw [hself, Function.update_self, hpending]
            exact List.mem_append_right _ (List.mem_singleton_self _)
          · show s.throttle.dispatched = (t.info (.element n)).action
            rw [hself]
        obtain ⟨p, hp, haction, hhandle⟩ := h.held e he
        refine ⟨p, ?_, ?_, hhandle⟩
        · show p ∈ (Function.update s.request r q (t.info e).mOwner).impl.mPendingActions
          rw [hinfo e he]
          by_cases heq : (s.throttle.info e).mOwner = r
          · rw [heq, Function.update_self, hpending]
            rw [heq] at hp
            exact List.mem_append_left _ hp
          · rwa [Function.update_of_ne heq]
        · show p.action = (t.info e).action
          rwa [hinfo e he]
      show m < t.mMsgQueue.allocated
      have hp : p ∈ (Function.update s.request r q r').impl.mPendingActions := hp
      by_cases heq : r' = r
      · rw [heq, Function.update_self, hpending] at hp
        rcases List.mem_append.mp hp with hp | hp
        · exact Nat.lt_of_lt_of_le (h.handles r p hp m hm) henqueued.allocated
        · obtain rfl := List.mem_singleton.mp hp
          cases hm
          exact henqueued.handle
      · rw [Function.update_of_ne heq] at hp
        exact Nat.lt_of_lt_of_le (h.handles r' p hp m hm) henqueued.allocated
    refine ⟨_, free', hqueued, .push s.throttle.dispatched n (by rw [← hq]; rfl) ?_ henqueued.ran⟩
    rw [hqueued.waiting_eq, h.waiting_eq, ← entries_congr hinfo]
    have hentry : ((t.info (.element n)).mOwner, (t.info (.element n)).action) =
        (r, s.throttle.dispatched) := by
      rw [hself]
    rw [← hentry]
    cases immediate with
    | true => exact .inl rfl
    | false => exact .inr List.map_append
  · cases hrun

/-! ## Stops -/

def keptHandles (s : System) (r : Nat) : List Nat :=
  (s.request r).impl.mPendingActions.filterMap PendingAction.handle

theorem Queued.removeActions
    (hpending : q.impl.mPendingActions = (s.request r).impl.mPendingActions) :
    ∃ t, removeActions s q = some t ∧ t.info = s.throttle.info ∧ t.ran = s.throttle.ran ∧
      ∃ free', Queued { s with throttle := t }
        (live.filter fun e => e ∉ (keptHandles s r).map Node.element) free' := by
  rw [ImageRequest.removeActions, keptHandles, hpending]
  by_cases hnil : (s.request r).impl.mPendingActions = []
  · rw [hnil]
    have hall : (live.filter fun e => e ∉ (([] : List PendingAction).filterMap
        PendingAction.handle).map Node.element) = live := List.filter_eq_self.mpr fun e _ => by simp
    rw [hall]
    exact ⟨_, rfl, rfl, rfl, free, h⟩
  rw [if_neg hnil]
  have hhandles : ∀ n ∈ (s.request r).impl.mPendingActions.filterMap PendingAction.handle,
      n < s.throttle.mMsgQueue.allocated := by
    intro n hn
    obtain ⟨p, hp, hhandle⟩ := List.mem_filterMap.mp hn
    exact h.handles r p hp n hhandle
  obtain ⟨t, hrun, ⟨free', hinv⟩, hremoval⟩ := h.inv.removeHandles h.enqueuing hhandles
  have hinfo : t.info = s.throttle.info := by rw [hremoval.same]
  refine ⟨t, hrun, hinfo, by rw [hremoval.same], free', hinv, ?_, ?_, ?_, fun e he => ?_,
    fun r' p hp m hm => ?_⟩
  · show t.enqueuing = none
    rw [hremoval.same]
    exact h.enqueuing
  · show t.arrived = []
    rw [hremoval.same]
    exact h.arrived
  · show t.phase = .idle
    rw [hremoval.same]
    exact h.phase
  · show ∃ p ∈ (s.request (t.info e).mOwner).impl.mPendingActions, p.action = (t.info e).action ∧ _
    rw [hinfo]
    exact h.held e (List.mem_of_mem_filter he)
  · show m < t.mMsgQueue.allocated
    rw [hremoval.allocated]
    exact h.handles r' p hp m hm

/-- **A stop.** -/
theorem Queued.stopWaitForResponse (r : Nat) (now : ℚ) :
    ∃ s' free', stopWaitForResponse s r now = some s' ∧
      Queued s' (live.filter fun e => e ∉ (keptHandles s r).map Node.element) free' ∧
      s'.throttle.info = s.throttle.info ∧ s'.throttle.ran = s.throttle.ran := by
  obtain ⟨t, hrun, hinfo, hran, free', hqueued⟩ :=
    h.removeActions (pending_checkDestroyReplyTimer (s.request r) now)
  unfold ImageRequest.stopWaitForResponse
  dsimp only
  rw [hrun]
  refine ⟨_, free', rfl, hqueued.setRequest ?_, hinfo, hran⟩
  exact pending_checkDestroyReplyTimer (s.request r) now

theorem Queued.stopWith (r : Nat) (now : ℚ) (ending : Ending) :
    ∃ s' free', stopWith s r now ending = some s' ∧
      Queued s' (live.filter fun e => e ∉ (keptHandles s r).map Node.element) free' ∧
      s'.throttle.info = s.throttle.info ∧ s'.throttle.ran = s.throttle.ran := by
  obtain ⟨s₁, free₁, hrun, hqueued, hinfo, hran⟩ := h.stopWaitForResponse r now
  rw [ImageRequest.stopWith, hrun]
  by_cases hwaiting : (s.request r).impl.mWaitingForResponse
  · exact ⟨_, free₁, congrArg some (if_pos hwaiting), hqueued.setRequest rfl, hinfo, hran⟩
  · exact ⟨_, free₁, congrArg some (if_neg hwaiting), hqueued, hinfo, hran⟩

/-! ## The throttle sends -/

/-- **An action is sent.** -/
theorem Queued.sendQueuedMessage (hrun : sendQueuedMessage s now = some s') : ∃ live' free',
    Queued s' live' free' ∧ Sent s s' now := by
  obtain ⟨t, hsend, hrun⟩ := Option.bind_eq_some_iff.mp hrun
  rcases h.inv.sendQueuedMessage h.enqueuing (.inl rfl) hsend with
    ⟨rfl, ht⟩ | ⟨e, ys, l, rfl, hinv, -, ht⟩
  · have hphase : t.phase = .idle := by
      rw [ht]; exact h.phase
    rw [hphase] at hrun
    cases hrun
    exact ⟨[], free, h, .empty h.waiting_eq rfl rfl rfl⟩
  have hphase : t.phase = .drainRunning e := by rw [ht]
  have hinfo : t.info = s.throttle.info := by rw [ht]
  rw [hphase] at hrun
  dsimp only at hrun
  split at hrun
  · cases hrun
  next hdestroyed =>
  obtain ⟨n, hn, rfl⟩ := hinv.running e (.inl hphase)
  have henqueuing : t.enqueuing = none := by
    rw [ht]; exact h.enqueuing
  obtain ⟨⟨free', hinv'⟩, hremoval⟩ := hinv.freeElement henqueuing hn
  cases hrun
  rw [hinfo] at hdestroyed ⊢
  generalize hq : requestAction _ now _ = q
  have hpending : q.impl.mPendingActions =
      (s.request (s.throttle.info (.element n)).mOwner).impl.mPendingActions.filter
        fun p => p.action ≠ (s.throttle.info (.element n)).action := by
    rw [← hq]
    simp [requestAction, Request.takeOff]
  -- no other action has the number of the one that runs
  have hother : ∀ e ∈ ys, (s.throttle.info e).action ≠ (s.throttle.info (.element n)).action := by
    intro e he heq
    have hplaces := h.inv.places (s.throttle.info (.element n)).action
    have hnodup := List.nodup_iff_count_le_one.mp (List.nodup_range (n := s.throttle.dispatched))
      (s.throttle.info (.element n)).action
    have hpos : 0 < (actions s.throttle ys).count (s.throttle.info (.element n)).action :=
      List.count_pos_iff.mpr (heq ▸ List.mem_map_of_mem he)
    have hcons : actions s.throttle (.element n :: ys) =
        (s.throttle.info (.element n)).action :: actions s.throttle ys := rfl
    rw [hcons, List.count_cons_self] at hplaces
    omega
  have hqueued : Queued
      { throttle := { WombatThrottle.freeElement t (.element n) with phase := s.throttle.phase }
        request := Function.update s.request (s.throttle.info (.element n)).mOwner q }
      ys free' := by
    refine ⟨⟨hinv'.list, hinv'.places, hinv'.enqueuing, fun info hinfo => ?_⟩, henqueuing, ?_,
      h.phase, fun e he => ?_, fun r' p hp m hm => ?_⟩
    · refine hinv'.running info ?_
      rcases hinfo with hinfo | hinfo | hinfo
      · exact absurd (h.phase.symm.trans hinfo) (by simp)
      · exact absurd (h.phase.symm.trans hinfo) (by simp)
      · exact .inr (.inr hinfo)
    · show t.arrived = []
      rw [ht]
      exact h.arrived
    · show ∃ p ∈ (Function.update s.request _ q (t.info e).mOwner).impl.mPendingActions,
        p.action = (t.info e).action ∧ _
      rw [hinfo]
      obtain ⟨p, hp, haction, hhandle⟩ := h.held e (List.mem_cons_of_mem _ he)
      refine ⟨p, ?_, haction, hhandle⟩
      by_cases heq : (s.throttle.info e).mOwner = (s.throttle.info (.element n)).mOwner
      · rw [heq, Function.update_self, hpending, List.mem_filter]
        rw [heq] at hp
        refine ⟨hp, decide_eq_true ?_⟩
        rw [haction]
        exact hother e he
      · rwa [Function.update_of_ne heq]
    have hallocated : (WombatThrottle.freeElement t (.element n)).mMsgQueue.allocated =
        s.throttle.mMsgQueue.allocated := by
      obtain ⟨l', hpop, hsame, -⟩ := h.inv.list.popFront Common.WList.placed_rules
      unfold WombatThrottle.sendQueuedMessage at hsend
      rw [hpop] at hsend
      have hqueue : t.mMsgQueue = l' := by rw [← Option.some.inj hsend]
      rwa [hremoval.allocated, hqueue]
    rw [hallocated]
    have hp : p ∈ (Function.update s.request (s.throttle.info (.element n)).mOwner q
      r').impl.mPendingActions := hp
    by_cases heq : r' = (s.throttle.info (.element n)).mOwner
    · rw [heq, Function.update_self, hpending] at hp
      exact h.handles _ p (List.mem_of_mem_filter hp) m hm
    · rw [Function.update_of_ne heq] at hp; exact h.handles r' p hp m hm
  refine ⟨ys, free', hqueued, .pop ((s.throttle.info (.element n)).mOwner,
    (s.throttle.info (.element n)).action) (Bool.eq_false_iff.mpr hdestroyed) (by rw [← hq]) ?_ ?_⟩
  · rw [hqueued.waiting_eq, h.waiting_eq]
    show _ = _ :: entries t ys
    rw [entries_congr fun e _ => congrFun hinfo e]
    rfl
  · show t.ran = _
    rw [ht]

end

end Mama.ImageRequest

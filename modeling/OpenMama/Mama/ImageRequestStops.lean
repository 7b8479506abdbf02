import OpenMama.Lib.Unwinding
import OpenMama.Mama.ImageRequestQueue

/-!
# Stops of image requests

A stop takes the elements off the throttle that the request has handles of.  Every action that
waits has such a handle with its owner, so the actions of the request that is stopped are taken off.
Nothing else is if and only if no handle that the request has kept stands for an action of another
one (`exact_iff`): the throttle uses its elements again, and the handles of earlier stops stay.
-/

namespace Mama.ImageRequest

open List

open Common.WList (Node)
open WombatThrottle (actions)

variable {s s' : System} {live live' free free' : List Node} {r : Nat} {e : Event}

def stops (s : System) : Event → Option Nat
  | .stopWaitForResponse r _ => some r
  | .destroy r transport _ =>
    if transport ∧ (s.request r).impl.mWaitingForResponse then some r else none
  | .onInitialMessage r stops _ => if (s.request r).removeReference.1 ∧ stops then some r else none
  | .processTimeout r _ =>
    match (s.request r).processing with
    | some (.received _) | some (.final _) => some r
    | _ => none
  | _ => none

/-- The elements of the throttle's list, from the front. -/
def listed (s : System) : List Node :=
  Common.WList.walk s.throttle.mMsgQueue.mNext s.throttle.mMsgQueue.size .head

/-- A stop finds no handle with its request that stands for an action of another one. -/
def Meets (s : System) (e : Event) : Prop :=
  ∀ r, stops s e = some r → ∀ n ∈ keptHandles s r, .element n ∈ listed s →
    (s.throttle.info (.element n)).mOwner = r

instance (s : System) (e : Event) : Decidable (Meets s e) :=
  decidable_of_iff (∀ r ∈ stops s e, ∀ n ∈ keptHandles s r, .element n ∈ listed s →
    (s.throttle.info (.element n)).mOwner = r) (by rfl)

section

variable (h : Queued s live free)

include h

theorem Queued.listed_eq : listed s = live := h.inv.list.rep.walk_eq

/-! ## One step -/

/-- How a step without a stop changes the list and what ran. -/
inductive Change (s s' : System) : Prop
  | same (hwaiting : waiting s' = waiting s) (hran : s'.throttle.ran = s.throttle.ran)
  | run (hwaiting : waiting s' = waiting s) (a : Nat)
      (hran : s'.throttle.ran = s.throttle.ran ++ [a])
  | push (a : Nat × Nat) (hwaiting : waiting s' = a :: waiting s ∨ waiting s' = waiting s ++ [a])
      (hran : s'.throttle.ran = s.throttle.ran)
  | pop (a : Nat × Nat) (hwaiting : waiting s = a :: waiting s')
      (hran : s'.throttle.ran = s.throttle.ran ++ [a.2])

structure Outcome (s s' : System) (e : Event) (live live' : List Node) : Prop where
  other : stops s e = none → Change s s'
  stopped : ∀ r, stops s e = some r →
    live' = (live.filter fun e => e ∉ (keptHandles s r).map Node.element) ∧
      s'.throttle.info = s.throttle.info ∧ s'.throttle.ran = s.throttle.ran

omit h in
theorem Outcome.of_none {live live' : List Node} (hnone : stops s e = none) (h : Change s s') :
    Outcome s s' e live live' :=
  ⟨fun _ => h, fun r hr => absurd (hnone.symm.trans hr) (by simp)⟩

omit h in
theorem Outcome.of_some (hsome : stops s e = some r)
    (hinfo : s'.throttle.info = s.throttle.info) (hran : s'.throttle.ran = s.throttle.ran) :
    Outcome s s' e live (live.filter fun e => e ∉ (keptHandles s r).map Node.element) := by
  refine ⟨fun hnone => absurd (hsome.symm.trans hnone) (by simp), fun r' hr' => ?_⟩
  cases hsome.symm.trans hr'
  exact ⟨rfl, hinfo, hran⟩

omit h in
theorem Dispatched.change {s₁ : System} {now : ℚ} {retry : Bool} (h : Dispatched s₁ s' r now retry)
    (hthrottle : s₁.throttle = s.throttle) : Change s s' := by
  have hwaiting₁ : waiting s₁ = waiting s := by
    unfold waiting
    rw [hthrottle]
  cases h with
  | run a hrequest hwaiting hran => exact .run (hwaiting.trans hwaiting₁) a (hthrottle ▸ hran)
  | push a n hrequest hwaiting hran =>
    rw [hwaiting₁] at hwaiting; exact .push (r, a) hwaiting (hthrottle ▸ hran)

omit h in
theorem Change.setRequest (h : Change s s') (q : Request) : Change s (s'.setRequest r q) := by
  cases h with
  | same hwaiting hran => exact .same hwaiting hran
  | run hwaiting a hran => exact .run hwaiting a hran
  | push a hwaiting hran => exact .push a hwaiting hran
  | pop a hwaiting hran => exact .pop a hwaiting hran

omit h in
theorem keptHandles_setRequest {q : Request}
    (hpending : q.impl.mPendingActions = (s.request r).impl.mPendingActions) :
    keptHandles (s.setRequest r q) r = keptHandles s r := by
  show (Function.update s.request r q r).impl.mPendingActions.filterMap _ = _
  rw [Function.update_self, hpending]
  rfl

/-- **One step.** -/
theorem Queued.step (hstep : ImageRequest.step s e = some s') :
    ∃ live' free', Queued s' live' free' ∧ Outcome s s' e live live' := by
  cases e with
  | sendRequest r timeout retries throttle isRecapRequest =>
    obtain ⟨-, hrun⟩ := Option.ite_none_right_eq_some.1 hstep
    cases hrun
    exact ⟨live, free, h.setRequest rfl, .of_none rfl (.same rfl rfl)⟩
  | sendEnd r throttle isRecapRequest now =>
    obtain ⟨-, hrun⟩ := Option.ite_none_right_eq_some.1 hstep
    obtain ⟨-, hrun⟩ := Option.ite_none_right_eq_some.1 hrun
    have hq : Queued (s.setRequest r { s.request r with
        sending := (s.request r).sending.erase (throttle, isRecapRequest) }) live free :=
      h.setRequest rfl
    cases throttle with
    | true =>
      obtain ⟨live', free', h', hdispatched⟩ := hq.dispatch hrun
      exact ⟨live', free', h', .of_none rfl (hdispatched.change rfl)⟩
    | false =>
      cases hrun
      exact ⟨live, free, h.setRequest (pending_publish _ _), .of_none rfl (.same rfl rfl)⟩
  | stopWaitForResponse r now =>
    obtain ⟨-, hrun⟩ := Option.ite_none_right_eq_some.1 hstep
    obtain ⟨s₁, free₁, hstop, h₁, hinfo, hran⟩ := h.stopWith r now .stopped
    cases hstop.symm.trans hrun
    exact ⟨_, free₁, h₁, .of_some rfl hinfo hran⟩
  | destroy r transport now =>
    obtain ⟨-, hrun⟩ := Option.ite_none_right_eq_some.1 hstep
    obtain ⟨s₁, ⟨htransport, hwaits, hstop⟩ | ⟨hnot, rfl⟩, rfl⟩ := destroy_cases hrun
    · obtain ⟨s₂, free₂, hstop', h₂, hinfo, hran⟩ := h.stopWith r now .stopped
      cases hstop'.symm.trans hstop
      exact ⟨_, free₂, h₂.setRequest rfl, .of_some (if_pos ⟨htransport, hwaits⟩) hinfo hran⟩
    · exact ⟨live, free, h.setRequest rfl, .of_none (if_neg hnot) (.same rfl rfl)⟩
  | onInitialMessage r stops now =>
    obtain ⟨-, ⟨howner, hstops, hrun⟩ | ⟨hnot, rfl⟩⟩ := onInitialMessage_cases hstep
    · have h₁ : Queued (s.setRequest r (s.request r).answered) live free := h.setRequest rfl
      obtain ⟨s₂, free₂, hstop, h₂, hinfo, hran⟩ := h₁.stopWith r now .response
      cases hstop.symm.trans hrun
      have hkept : keptHandles (s.setRequest r (s.request r).answered) r = keptHandles s r :=
        keptHandles_setRequest rfl
      rw [hkept] at h₂
      exact ⟨_, free₂, h₂, .of_some (if_pos ⟨howner, hstops⟩) hinfo hran⟩
    · exact ⟨live, free, h.setRequest rfl, .of_none (if_neg hnot) (.same rfl rfl)⟩
  | onReplyTimeout r received =>
    obtain ⟨-, -, rfl⟩ := onReplyTimeout_cases hstep
    exact ⟨live, free, h.setRequest (pending_timedOut _ _), .of_none rfl (.same rfl rfl)⟩
  | processTimeout r now =>
    obtain ⟨-, timeout, hprocessing, s₁, hs₁, hrun⟩ := processTimeout_cases hstep
    have h₁ : Queued s₁ live free := hs₁ ▸ h.setRequest rfl
    have hkept : keptHandles s₁ r = keptHandles s r := hs₁ ▸ keptHandles_setRequest rfl
    have hstops : stops s (.processTimeout r now) =
        if timeout = .retry then none else some r := by
      show (match (s.request r).processing with
        | some (.received _) | some (.final _) => some r
        | _ => none) = _
      rw [hprocessing]
      cases timeout <;> rfl
    have hthrottle₁ : s₁.throttle = s.throttle := by
      rw [hs₁]; rfl
    cases timeout with
    | received isRecap =>
      cases isRecap with
      | true =>
        obtain ⟨s₂, free₂, hstop, h₂, hinfo, hran⟩ := h₁.stopWith r now .response
        cases hstop.symm.trans hrun
        rw [hkept] at h₂
        rw [hthrottle₁] at hinfo hran
        exact ⟨_, free₂, h₂, .of_some hstops hinfo hran⟩
      | false =>
        obtain ⟨s₂, hrun, rfl⟩ := hrun
        obtain ⟨s₃, free₂, hstop, h₂, hinfo, hran⟩ := h₁.stopWaitForResponse r now
        cases hstop.symm.trans hrun
        rw [hkept] at h₂
        rw [hthrottle₁] at hinfo hran
        exact ⟨_, free₂, h₂.setRequest rfl, .of_some hstops hinfo hran⟩
    | retry =>
      obtain ⟨s₂, hdispatch, rfl⟩ := hrun
      obtain ⟨live', free', h₂, hdispatched⟩ := h₁.dispatch hdispatch
      exact ⟨live', free', h₂.setRequest (pending_startReplyTimer _ now),
        .of_none hstops ((hdispatched.change hthrottle₁).setRequest _)⟩
    | final isRecap =>
      obtain ⟨s₂, hrun, rfl⟩ := hrun
      obtain ⟨s₃, free₂, hstop, h₂, hinfo, hran⟩ := h₁.stopWaitForResponse r now
      cases hstop.symm.trans hrun
      rw [hkept] at h₂
      rw [hthrottle₁] at hinfo hran
      exact ⟨_, free₂, h₂.setRequest rfl, .of_some hstops hinfo hran⟩
  | sendQueuedMessage now =>
    obtain ⟨live', free', h', hsent⟩ := h.sendQueuedMessage hstep
    refine ⟨live', free', h', .of_none rfl ?_⟩
    cases hsent with
    | empty hnil hrequest hwaiting hran => exact .same hwaiting hran
    | pop a hdestroyed hrequest hwaiting hran => exact .pop a hwaiting hran

omit h in
theorem queued_start (rate : ℚ) : Queued (start rate) [] [] := by
  obtain ⟨interval, messages, heq, -⟩ := WombatThrottle.setRate_eq {} (· * ·) rate
  have hthrottle : (start rate).throttle = WombatThrottle.setRate {} (· * ·) rate := rfl
  rw [heq] at hthrottle
  refine ⟨?_, ?_, ?_, ?_, fun e he => absurd he (by simp),
    fun r p hp => absurd hp (by simp [start])⟩
  · rw [hthrottle]
    refine ⟨Common.WList.inv_create _, fun a => rfl, fun _ _ h => absurd h (by simp), ?_⟩
    rintro info (hphase | hphase | hfreeing)
    · cases hphase
    · cases hphase
    · cases hfreeing
  · rw [hthrottle]
  · rw [hthrottle]
  · rw [hthrottle]

variable {events : List Event} {a : Nat × Nat}

theorem Queued.steps (hrun : events.foldlM ImageRequest.step s = some s') :
    ∃ live' free', Queued s' live' free' := by
  induction events generalizing s live free with
  | nil => cases hrun; exact ⟨live, free, h⟩
  | cons e events ih =>
    obtain ⟨s₁, hstep, hrun⟩ := Option.bind_eq_some_iff.1 hrun
    obtain ⟨live₁, free₁, h₁, -⟩ := h.step hstep
    exact ih h₁ hrun

/-! ## What a stop takes off -/

theorem Queued.count_le (a : Nat) :
    s.throttle.ran.count a + ((waiting s).map Prod.snd).count a ≤ 1 := by
  have hcount := h.inv.count_le a
  have hactions : (waiting s).map Prod.snd = actions s.throttle live := by
    rw [h.waiting_eq]
    rw [entries, map_map]
    rfl
  rw [hactions]
  omega

theorem Queued.eq_of_action {e e' : Node} (he : e ∈ live) (he' : e' ∈ live)
    (haction : (s.throttle.info e).action = (s.throttle.info e').action) : e = e' := by
  have hnodup : (actions s.throttle live).Nodup := by
    refine nodup_iff_count_le_one.mpr fun a => ?_
    have hcount := h.inv.count_le a
    omega
  exact inj_on_of_nodup_map hnodup he he' haction

/-- Handles of the owner take off its actions; others must not stand for anything in the list. -/
theorem Queued.entries_stop (r : Nat) :
    entries s.throttle (live.filter fun e => e ∉ (keptHandles s r).map Node.element) =
        (waiting s).filter (fun a => a.1 ≠ r) ↔
      ∀ n ∈ keptHandles s r, .element n ∈ listed s → (s.throttle.info (.element n)).mOwner = r := by
  have hfilter : (waiting s).filter (fun a => a.1 ≠ r) =
      entries s.throttle (live.filter fun e => (s.throttle.info e).mOwner ≠ r) := by
    rw [h.waiting_eq]
    rw [entries, filter_map]
    rfl
  rw [hfilter, h.listed_eq]
  constructor
  · intro heq n hn hlive
    by_contra howner
    -- its entry stays, so another element would have the same action
    have hmem : ((s.throttle.info (.element n)).mOwner, (s.throttle.info (.element n)).action) ∈
        entries s.throttle (live.filter fun e => e ∉ (keptHandles s r).map Node.element) := by
      rw [heq]
      refine mem_map.mpr ⟨.element n, mem_filter.mpr ⟨hlive, decide_eq_true howner⟩, rfl⟩
    obtain ⟨e, he, hentry⟩ := mem_map.mp hmem
    obtain ⟨he, hnot⟩ := mem_filter.mp he
    obtain rfl := h.eq_of_action he hlive (Prod.mk.inj hentry).2
    exact of_decide_eq_true hnot (mem_map_of_mem hn)
  intro hmeets
  have hsame : (live.filter fun e => e ∉ (keptHandles s r).map Node.element) =
      live.filter fun e => (s.throttle.info e).mOwner ≠ r := by
    refine filter_congr fun e he => ?_
    rw [decide_eq_decide]
    refine not_congr ⟨fun hkept => ?_, fun howner => ?_⟩
    · obtain ⟨n, hn, rfl⟩ := mem_map.mp hkept
      exact hmeets n hn he
    · obtain ⟨p, hp, -, hhandle⟩ := h.held e he
      obtain ⟨n, hn, rfl⟩ := Option.map_eq_some_iff.mp hhandle
      rw [howner] at hp
      exact mem_map_of_mem (mem_filterMap.mpr ⟨p, hp, hn⟩)
  rw [hsame]

/-- A stop has taken off the actions of its request, and no other one. -/
def StopsOwn (s : System) (e : Event) (s' : System) : Prop :=
  ∀ r, stops s e = some r →
    waiting s' = (waiting s).filter (fun a => a.1 ≠ r) ∧ s'.throttle.ran = s.throttle.ran

theorem Queued.stopsOwn_iff (hstep : ImageRequest.step s e = some s') :
    StopsOwn s e s' ↔ Meets s e := by
  obtain ⟨live', free', h', houtcome⟩ := h.step hstep
  refine forall_congr' fun r => forall_congr' fun hstops => ?_
  obtain ⟨rfl, hinfo, hran⟩ := houtcome.stopped r hstops
  rw [h'.waiting_eq, entries_congr fun e _ => congrFun hinfo e, h.entries_stop r]
  exact and_iff_left hran

/-! ## Whole runs -/

def run (rate : ℚ) (events : List Event) : Option System := events.foldlM step (start rate)

def Stopped (r : Nat) : System → List Event → Prop
  | _, [] => False
  | s, e :: events => stops s e = some r ∨ ∃ s', step s e = some s' ∧ Stopped r s' events

def Once (s : System) (a : Nat × Nat) : Prop :=
  (a ∈ waiting s ∧ a.2 ∉ s.throttle.ran) ∨ (a ∉ waiting s ∧ s.throttle.ran.count a.2 = 1)

/-- **A stop takes off the actions of its request, and the other ones run once.** -/
structure Exact (rate : ℚ) (events : List Event) : Prop where
  stop : ∀ pre e suf, events = pre ++ e :: suf → ∀ s s', run rate pre = some s →
    step s e = some s' → StopsOwn s e s'
  stays : ∀ pre mid suf, events = pre ++ (mid ++ suf) → ∀ s s', run rate pre = some s →
    mid.foldlM step s = some s' → ∀ a ∈ waiting s, ¬ Stopped a.1 s mid → Once s' a
  sends : ∀ pre now suf, events = pre ++ .sendQueuedMessage now :: suf → ∀ s s',
    run rate pre = some s → step s (.sendQueuedMessage now) = some s' →
    ∀ a rest, waiting s = a :: rest → waiting s' = rest ∧ s'.throttle.ran = s.throttle.ran ++ [a.2]

def Present (s : System) (a : Nat × Nat) : Prop := a ∈ waiting s ∨ a.2 ∈ s.throttle.ran

omit h in
theorem Change.present (h : Change s s') (ha : Present s a) : Present s' a := by
  cases h with
  | same hwaiting hran => rwa [Present, hwaiting, hran]
  | run hwaiting b hran =>
    rw [Present, hwaiting, hran]; exact ha.imp_right fun ha => mem_append_left _ ha
  | push b hwaiting hran =>
    refine ha.imp (fun ha => ?_) fun ha => hran ▸ ha
    rcases hwaiting with hwaiting | hwaiting
    · rw [hwaiting]; exact mem_cons_of_mem _ ha
    · rw [hwaiting]; exact mem_append_left _ ha
  | pop b hwaiting hran =>
    rw [Present, hran]
    rcases ha with ha | ha
    · rw [hwaiting] at ha
      rcases mem_cons.mp ha with rfl | ha
      · exact .inr (mem_append_right _ (mem_singleton_self _))
      · exact .inl ha
    · exact .inr (mem_append_left _ ha)

theorem Queued.present_step (hstep : ImageRequest.step s e = some s') (hmeets : Meets s e)
    (hnot : stops s e ≠ some a.1) (ha : Present s a) : Present s' a := by
  cases hstops : stops s e with
  | none =>
    obtain ⟨live', free', -, houtcome⟩ := h.step hstep
    exact (houtcome.other hstops).present ha
  | some r =>
    obtain ⟨hwaiting, hran⟩ := (h.stopsOwn_iff hstep).mpr hmeets r hstops
    rw [hstops] at hnot
    refine ha.imp (fun ha => ?_) fun ha => hran ▸ ha
    rw [hwaiting]
    refine mem_filter.mpr ⟨ha, decide_eq_true ?_⟩
    rintro rfl
    exact hnot rfl

theorem Queued.present_steps (hrun : events.foldlM ImageRequest.step s = some s')
    (hmeets : ∀ pre e suf, events = pre ++ e :: suf → ∀ s₁ s₂,
      pre.foldlM ImageRequest.step s = some s₁ → ImageRequest.step s₁ e = some s₂ → Meets s₁ e)
    (hnot : ¬ Stopped a.1 s events) (ha : Present s a) : Present s' a := by
  induction events generalizing s live free with
  | nil => cases hrun; exact ha
  | cons e events ih =>
    obtain ⟨s₁, hstep, hrun⟩ := Option.bind_eq_some_iff.1 hrun
    obtain ⟨live₁, free₁, h₁, -⟩ := h.step hstep
    obtain ⟨hnotStops, hnotStopped⟩ := not_or.mp hnot
    have hpresent : Present s₁ a :=
      h.present_step hstep (hmeets [] e events rfl s s₁ rfl hstep) hnotStops ha
    refine ih h₁ hrun (fun pre e' suf hsplit s₂ s₃ hpre => ?_)
      (fun hstopped => hnotStopped ⟨s₁, hstep, hstopped⟩) hpresent
    refine hmeets (e :: pre) e' suf (by rw [hsplit]; rfl) s₂ s₃ ?_
    rwa [foldlM_cons, hstep]

theorem Queued.once (ha : Present s a) : Once s a := by
  have hcount := h.count_le a.2
  by_cases hmem : a ∈ waiting s
  · refine .inl ⟨hmem, fun hran => ?_⟩
    have hpos : 0 < s.throttle.ran.count a.2 := count_pos_iff.mpr hran
    have hpos' : 0 < ((waiting s).map Prod.snd).count a.2 :=
      count_pos_iff.mpr (mem_map_of_mem hmem)
    omega
  · have hran : a.2 ∈ s.throttle.ran := ha.resolve_left hmem
    have hpos : 0 < s.throttle.ran.count a.2 := count_pos_iff.mpr hran
    exact .inr ⟨hmem, by omega⟩

end

/-- **Stopping one request drops no action of another one** in a run if and only if no stop finds a
handle with its request that stands for an action of another one. -/
theorem exact_iff (rate : ℚ) (events : List Event) : Exact rate events ↔ ∀ pre e suf,
    events = pre ++ e :: suf → ∀ s s', run rate pre = some s → step s e = some s' → Meets s e := by
  constructor
  · intro hexact pre e suf hsplit s s' hpre hstep
    obtain ⟨live, free, h⟩ := (queued_start rate).steps hpre
    exact (h.stopsOwn_iff hstep).mp (hexact.stop pre e suf hsplit s s' hpre hstep)
  intro hmeets
  refine ⟨fun pre e suf hsplit s s' hpre hstep => ?_,
    fun pre mid suf hsplit s s' hpre hmid a ha hnot => ?_,
    fun pre now suf hsplit s s' hpre hstep a rest hwaiting => ?_⟩
  · obtain ⟨live, free, h⟩ := (queued_start rate).steps hpre
    exact (h.stopsOwn_iff hstep).mpr (hmeets pre e suf hsplit s s' hpre hstep)
  · obtain ⟨live, free, h⟩ := (queued_start rate).steps hpre
    obtain ⟨live', free', h'⟩ := h.steps hmid
    refine h'.once (h.present_steps hmid (fun pre' e suf' hmid' s₁ s₂ hpre' => ?_) hnot (.inl ha))
    refine hmeets (pre ++ pre') e (suf' ++ suf) ?_ s₁ s₂ ?_
    · rw [hsplit, hmid']; simp
    · unfold run at hpre ⊢
      rwa [foldlM_append, hpre]
  obtain ⟨live, free, h⟩ := (queued_start rate).steps hpre
  obtain ⟨-, -, -, hsent⟩ := h.sendQueuedMessage hstep
  cases hsent with
  | empty hnil => exact absurd (hnil.symm.trans hwaiting) (by simp)
  | pop b hdestroyed hrequest hfront hran =>
    obtain ⟨rfl, rfl⟩ := List.cons.inj (hfront.symm.trans hwaiting)
    exact ⟨rfl, hran⟩

/-! ## A handle that was kept -/

/-- A request is stopped while its action waits; the element is used again for another request, and
the first one is stopped once more. -/
def stoppedTwice : List Event :=
  [.sendRequest 0 30 2 true true, .sendEnd 0 true true 0, .stopWaitForResponse 0 0,
    .sendRequest 1 30 2 true true, .sendEnd 1 true true 0, .stopWaitForResponse 0 0]

/-- The action of the other request is lost. -/
theorem not_exact : ¬ ∀ rate events, Exact rate events := by
  intro h
  have hbefore : (run 1000 (stoppedTwice.take 5)).map waiting = some [(1, 1)] := rfl
  have hafter : ((run 1000 (stoppedTwice.take 5)).bind fun s =>
      step s (.stopWaitForResponse 0 0)).map waiting = some [] := rfl
  obtain ⟨s, hs, hwaiting⟩ := Option.map_eq_some_iff.mp hbefore
  rw [hs] at hafter
  obtain ⟨s', hs', hwaiting'⟩ := Option.map_eq_some_iff.mp hafter
  have hown := (h 1000 stoppedTwice).stop (stoppedTwice.take 5) (.stopWaitForResponse 0 0) [] rfl
    s s' hs hs' 0 rfl
  rw [hwaiting, hwaiting'] at hown
  exact absurd hown.1 (by simp)

end Mama.ImageRequest

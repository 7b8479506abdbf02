import OpenMama.Mama.ImageRequestStops

/-!
# The waits of image requests

A wait starts with `imageRequest_sendRequest`.  The messages that may still be published for it are
counted with those that were: the calls under way, the actions in the throttle, and a retry that was
decided on (`WaitsFor.budget`).  A retry is added when the request count goes up, so there are no
more than the retries and one.  The wait ends once, where no client stops it between a timeout and
what the timeout does (`protocol_of_run`).
-/

namespace Mama.ImageRequest

open List Function Option

open Common.WList (Node)

variable {s s' : System} {live free : List Node} {q : Request} {r k : Nat} {now : ℚ} {sent : Bool}
  {e : Event}

/-! ## The protocol -/

/-- How many actions of the request wait in the throttle. -/
def queuedFor (s : System) (r : Nat) : Nat := (waiting s).countP fun a => a.1 = r

def Request.onTheWay (q : Request) : Nat :=
  q.sending.length + if q.processing = some .retry then 1 else 0

/-- A timeout is acted on that ends the wait, whether there is one or not. -/
def Request.ends (q : Request) : Bool :=
  match q.processing with
  | some (.final _) | some (.received false) => true
  | _ => false

def Event.sends (r : Nat) : Event → Bool
  | .sendRequest r' .. => r' == r
  | _ => false

/-- **The protocol of a request**, which was sent or not. -/
structure Protocol (sent : Bool) (q : Request) : Prop where
  timers : q.timers ≤ 1
  published : (q.published : Int) ≤ q.impl.mRetries + 1
  ending : sent → (q.impl.mWaitingForResponse ∧ q.endings = []) ∨
    (q.impl.mWaitingForResponse = false ∧ ∃ ending, q.endings = [ending])
  publishedLate : q.publishedLate = 0

/-- A request with nothing under way is sent when it does not wait, and no client stops it while a
timeout that ends the wait is acted on. -/
def Orderly (s : System) : Event → Prop
  | .sendRequest r _ retries _ _ =>
    0 ≤ retries ∧ (s.request r).impl.mWaitingForResponse = false ∧ queuedFor s r = 0 ∧
      (s.request r).onTheWay = 0
  | .stopWaitForResponse r _ => (s.request r).ends = false
  | _ => True

instance (s : System) (e : Event) : Decidable (Orderly s e) := by
  cases e <;> unfold Orderly <;> infer_instance

/-- What a request keeps, with `k` actions in the throttle. -/
structure WaitsFor (sent : Bool) (k : Nat) (q : Request) : Prop where
  timers : q.timers ≤ if q.impl.mReplyTimer then 1 else 0
  msg : q.impl.mMsg = q.impl.mWaitingForResponse
  listener : q.impl.mP2PListener →
    q.impl.mWaitingForResponse ∨ (q.timers = 0 ∧ q.processing = none)
  ends : q.ends → q.impl.mWaitingForResponse ∨ q.destroyed
  reqCount : 0 ≤ q.impl.mReqCount
  budget : q.impl.mWaitingForResponse →
    (q.published : Int) + q.onTheWay + k ≤ min q.impl.mReqCount q.impl.mRetries + 1
  published : (q.published : Int) ≤ q.impl.mRetries + 1
  waiting : q.impl.mWaitingForResponse → sent ∧ q.endings = []
  ended : q.impl.mWaitingForResponse = false → sent → ∃ ending, q.endings = [ending]
  late : q.publishedLate = 0

section

variable (h : WaitsFor sent k q)

include h

theorem WaitsFor.protocol : Protocol sent q := by
  refine ⟨?_, h.published, fun hsent => ?_, h.late⟩
  · have htimers := h.timers
    split at htimers <;> omega
  · cases hwaiting : q.impl.mWaitingForResponse with
    | true => exact .inl ⟨rfl, (h.waiting hwaiting).2⟩
    | false => exact .inr ⟨rfl, h.ended hwaiting hsent⟩

theorem WaitsFor.mono {k' : Nat} (hk : k' ≤ k) : WaitsFor sent k' q := by
  refine { h with budget := fun hwaiting => ?_ }
  have hbudget := h.budget hwaiting
  omega

/-! ## What the calls keep -/

theorem WaitsFor.answered : WaitsFor sent k q.answered :=
  ⟨h.timers, h.msg, h.listener, h.ends, h.reqCount, h.budget, h.published, h.waiting, h.ended,
    h.late⟩

theorem WaitsFor.push (pending : PendingAction) : WaitsFor sent k (q.push pending) :=
  ⟨h.timers, h.msg, h.listener, h.ends, h.reqCount, h.budget, h.published, h.waiting, h.ended,
    h.late⟩

theorem WaitsFor.takeOff (action : Nat) : WaitsFor sent k (q.takeOff action) :=
  ⟨h.timers, h.msg, h.listener, h.ends, h.reqCount, h.budget, h.published, h.waiting, h.ended,
    h.late⟩

theorem WaitsFor.startReplyTimer (hlistener : q.impl.mP2PListener → q.impl.mWaitingForResponse) :
    WaitsFor sent k (startReplyTimer q now) := by
  unfold ImageRequest.startReplyTimer
  split
  · exact h
  next htimer =>
  have htimers := h.timers
  rw [if_neg htimer] at htimers
  refine ⟨?_, h.msg, fun hp2p => .inl (hlistener hp2p), h.ends, h.reqCount, h.budget, h.published,
    h.waiting, h.ended, h.late⟩
  show q.timers + 1 ≤ 1
  omega

omit h in
theorem startReplyTimer_flags (q : Request) (now : ℚ) :
    (startReplyTimer q now).impl.mP2PListener = q.impl.mP2PListener ∧
      (startReplyTimer q now).impl.mWaitingForResponse = q.impl.mWaitingForResponse := by
  unfold startReplyTimer
  split <;> exact ⟨rfl, rfl⟩

omit h in
theorem publish_flags (q : Request) (now : ℚ) :
    (q.publish now).impl.mP2PListener = q.impl.mP2PListener ∧
      (q.publish now).impl.mWaitingForResponse = q.impl.mWaitingForResponse := by
  unfold Request.publish
  split
  · exact startReplyTimer_flags q now
  · exact ⟨rfl, rfl⟩

omit h in
theorem WaitsFor.publish (h : WaitsFor sent (k + 1) q) : WaitsFor sent k (q.publish now) := by
  unfold Request.publish
  split
  · next hmsg =>
    have hwaiting : q.impl.mWaitingForResponse := h.msg.symm.trans hmsg
    have h' : WaitsFor sent (k + 1) (ImageRequest.startReplyTimer q now) :=
      h.startReplyTimer fun _ => hwaiting
    have hbudget := h'.budget ((startReplyTimer_flags q now).2.trans hwaiting)
    refine ⟨h'.timers, h'.msg, h'.listener, h'.ends, h'.reqCount, fun _ => ?_, ?_, h'.waiting,
      h'.ended,
      ?_⟩
    · show ((ImageRequest.startReplyTimer q now).published + 1 : Nat) +
        ((ImageRequest.startReplyTimer q now).onTheWay : Int) + k ≤ _
      push_cast
      omega
    · show (((ImageRequest.startReplyTimer q now).published + 1 : Nat) : Int) ≤ _
      push_cast
      omega
    · show (if (ImageRequest.startReplyTimer q now).endings = [] then
        (ImageRequest.startReplyTimer q now).publishedLate else _) = 0
      have hnil : (ImageRequest.startReplyTimer q now).endings = [] :=
        (h'.waiting ((startReplyTimer_flags q now).2.trans hwaiting)).2
      rw [if_pos hnil]
      exact h'.late
  · exact h.mono (Nat.le_succ k)

/-- The request is stopped, which ends the wait if there is one; the rest may change as in
`imageRequest_destroy`. -/
theorem WaitsFor.stop (now : ℚ) (ending : Ending)
    (mResponse : Common.Handle.DestroyHandle) {destroyed : Bool}
    (hdestroyed : q.ends → destroyed) (k' : Nat) {q' : Request}
    (hq' : q' = if q.impl.mWaitingForResponse then (q.stopped now).finish ending
      else q.stopped now) :
    WaitsFor sent k' { q' with impl := { q'.impl with mResponse := mResponse },
                               destroyed := destroyed } := by
  have htimers : (checkDestroyReplyTimer q now).timers ≤
      if (checkDestroyReplyTimer q now).impl.mReplyTimer then 1 else 0 := by
    unfold checkDestroyReplyTimer
    split
    · next hcheck =>
      have hone := h.timers
      rw [if_pos hcheck.1] at hone
      show q.timers - 1 ≤ 0
      omega
    · exact h.timers
  have hsame : (checkDestroyReplyTimer q now).ends = q.ends ∧
      (checkDestroyReplyTimer q now).impl.mReqCount = q.impl.mReqCount ∧
      (checkDestroyReplyTimer q now).impl.mRetries = q.impl.mRetries ∧
      (checkDestroyReplyTimer q now).published = q.published ∧
      (checkDestroyReplyTimer q now).endings = q.endings ∧
      (checkDestroyReplyTimer q now).publishedLate = q.publishedLate := by
    unfold checkDestroyReplyTimer
    split <;> exact ⟨rfl, rfl, rfl, rfl, rfl, rfl⟩
  obtain ⟨hends, hreqCount, hretries, hpublished, hendings, hlate⟩ := hsame
  have hstopped : q'.timers = (checkDestroyReplyTimer q now).timers ∧
      q'.impl.mReplyTimer = (checkDestroyReplyTimer q now).impl.mReplyTimer ∧
      q'.impl.mWaitingForResponse = false ∧ q'.impl.mMsg = false ∧ q'.impl.mP2PListener = false ∧
      q'.ends = q.ends ∧ q'.impl.mReqCount = q.impl.mReqCount ∧ q'.impl.mRetries = q.impl.mRetries ∧
      q'.published = q.published ∧ q'.publishedLate = q.publishedLate := by
    rw [hq']
    split <;> exact ⟨rfl, rfl, rfl, rfl, rfl, hends, hreqCount, hretries, hpublished, hlate⟩
  obtain ⟨ht, hreply, hwaiting', hmsg', hp2p', hends', hreqCount', hretries', hpublished',
    hlate'⟩ :=
    hstopped
  constructor
  · show q'.timers ≤ if q'.impl.mReplyTimer then 1 else 0
    rwa [ht, hreply]
  · exact hmsg'.trans hwaiting'.symm
  · intro hp2p; cases hp2p'.symm.trans hp2p
  · intro hq; exact .inr (hdestroyed (hends'.symm.trans hq))
  · show 0 ≤ q'.impl.mReqCount
    rw [hreqCount']
    exact h.reqCount
  · intro hwaiting; cases hwaiting'.symm.trans hwaiting
  · show (q'.published : Int) ≤ q'.impl.mRetries + 1
    rw [hpublished', hretries']
    exact h.published
  · intro hwaiting; cases hwaiting'.symm.trans hwaiting
  · intro _ hsent
    rw [hq']
    cases hwaiting : q.impl.mWaitingForResponse with
    | true =>
      refine ⟨ending, ?_⟩
      show (checkDestroyReplyTimer q now).endings ++ [ending] = [ending]
      rw [hendings, (h.waiting hwaiting).2]
      rfl
    | false =>
      obtain ⟨before, hbefore⟩ := h.ended hwaiting hsent
      exact ⟨before, hendings.trans hbefore⟩
  · exact hlate'.trans h.late

theorem WaitsFor.stopped (now : ℚ) (ending : Ending) (hends : q.ends = false)
    (k' : Nat) :
    WaitsFor sent k'
      (if q.impl.mWaitingForResponse then (q.stopped now).finish ending else q.stopped now) :=
  h.stop now ending _ (fun hq => nomatch hends.symm.trans hq) k' rfl

theorem WaitsFor.clear :
    WaitsFor sent (k + if q.processing = some .retry then 1 else 0)
      { q with processing := none } := by
  refine ⟨h.timers, h.msg, fun hp2p => (h.listener hp2p).imp_right fun hnone => ⟨hnone.1, rfl⟩,
    nofun, h.reqCount, fun hwaiting => ?_, h.published,
    h.waiting, h.ended, h.late⟩
  have hbudget := h.budget hwaiting
  unfold Request.onTheWay at hbudget ⊢
  push_cast at hbudget ⊢
  omega

theorem WaitsFor.sendEnd {call : Bool × Bool} (hmem : call ∈ q.sending) :
    WaitsFor sent (k + 1) { q with sending := q.sending.erase call } := by
  refine ⟨h.timers, h.msg, h.listener, h.ends, h.reqCount, fun hwaiting => ?_, h.published,
    h.waiting,
    h.ended, h.late⟩
  have hbudget := h.budget hwaiting
  have hlength : (q.sending.erase call).length + 1 = q.sending.length := by
    rw [length_erase_of_mem hmem]; exact Nat.sub_add_cancel (length_pos_of_mem hmem)
  unfold Request.onTheWay at hbudget ⊢
  push_cast at hbudget ⊢
  omega

theorem WaitsFor.checkTimeout (hprocessing : q.processing = none)
    (hlistener : q.impl.mP2PListener → q.impl.mWaitingForResponse) (received : Bool) :
    WaitsFor sent k (checkTimeout q received) := by
  have hway : q.onTheWay = q.sending.length := by
    rw [Request.onTheWay, hprocessing]; rfl
  unfold ImageRequest.checkTimeout
  split
  · exact h
  next hp2p =>
  have hwaiting : q.impl.mWaitingForResponse :=
    hlistener (by simpa using hp2p)
  have hbudget := h.budget hwaiting
  rw [hway] at hbudget
  split
  · exact ⟨h.timers, h.msg, fun _ => .inl hwaiting, fun _ => .inl hwaiting, h.reqCount,
      fun _ => hbudget, h.published, h.waiting, h.ended, h.late⟩
  dsimp only
  split
  · next hlt =>
    -- the retry takes the place that the count makes
    refine ⟨h.timers, h.msg, fun _ => .inl hwaiting, nofun,
      ?_, fun _ => ?_, h.published, h.waiting, h.ended, h.late⟩
    · show 0 ≤ q.impl.mReqCount + 1; omega
    · show (q.published : Int) + ((q.sending.length + 1 : Nat) : Int) + k ≤
        min (q.impl.mReqCount + 1) q.impl.mRetries + 1
      omega
  next hge =>
  refine ⟨h.timers, h.msg, fun _ => .inl hwaiting, fun _ => .inl hwaiting, ?_, fun _ => ?_,
    h.published, h.waiting, h.ended, h.late⟩
  · show 0 ≤ q.impl.mReqCount + 1; omega
  · show (q.published : Int) + (q.sending.length : Int) + k ≤
      min (q.impl.mReqCount + 1) q.impl.mRetries + 1
    omega

theorem WaitsFor.timedOut (htimers : 0 < q.timers) (hprocessing : q.processing = none)
    (received : Bool) : WaitsFor sent k (q.timedOut received) := by
  have hone := h.timers
  have hlistener : q.impl.mP2PListener → q.impl.mWaitingForResponse := fun hp2p =>
    (h.listener hp2p).resolve_right fun hnone => absurd hnone.1 (by omega)
  have hzero : q.timers - 1 = 0 := by split at hone <;> omega
  unfold Request.timedOut
  dsimp only
  split
  · apply WaitsFor.checkTimeout
    · refine ⟨?_, h.msg, fun hp2p => .inl (hlistener hp2p), h.ends, h.reqCount, h.budget,
        h.published,
        h.waiting, h.ended, h.late⟩
      show q.timers - 1 ≤ 0
      omega
    · exact hprocessing
    · exact hlistener
  · refine ⟨?_, h.msg, fun hp2p => .inl (hlistener hp2p), h.ends, h.reqCount, h.budget, h.published,
      h.waiting, h.ended, h.late⟩
    show q.timers - 1 ≤ if q.impl.mReplyTimer then 1 else 0
    omega

end

/-! ## One step -/

def Waits (sent : Nat → Bool) (s : System) : Prop :=
  ∀ r, WaitsFor (sent r) (queuedFor s r) (s.request r)

variable {sentOf : Nat → Bool}

theorem Waits.update (h : Waits sentOf s) {q : Request}
    (hrequest : s'.request = Function.update s.request r q)
    (hothers : ∀ r', r' ≠ r → queuedFor s' r' ≤ queuedFor s r')
    (hq : WaitsFor (sentOf r) (queuedFor s' r) q) : Waits sentOf s' := by
  intro r'
  rw [hrequest]
  by_cases heq : r' = r
  · rwa [heq, update_self]
  · rw [update_of_ne heq]; exact (h r').mono (hothers r' heq)

theorem WaitsFor.dispatched {s₁ : System} {retry : Bool}
    (h : WaitsFor sent (queuedFor s₁ r + 1) (s₁.request r)) (hrun : Dispatched s₁ s' r now retry) :
    ∃ q, s'.request = Function.update s₁.request r q ∧
      (∀ r', r' ≠ r → queuedFor s' r' = queuedFor s₁ r') ∧ WaitsFor sent (queuedFor s' r) q ∧
      q.impl.mP2PListener = (s₁.request r).impl.mP2PListener ∧
      q.impl.mWaitingForResponse = (s₁.request r).impl.mWaitingForResponse := by
  cases hrun with
  | run a hrequest hwaiting hran =>
    have hsame : ∀ r', queuedFor s' r' = queuedFor s₁ r' := by
      intro r'
      unfold queuedFor
      rw [hwaiting]
    refine ⟨_, hrequest, fun r' _ => hsame r', ?_, publish_flags _ now⟩
    rw [hsame]
    exact ((h.push _).takeOff a).publish
  | push a n hrequest hwaiting hran =>
    have hcount : ∀ r', queuedFor s' r' = queuedFor s₁ r' + if r = r' then 1 else 0 := by
      intro r'
      unfold queuedFor
      rcases hwaiting with hwaiting | hwaiting
      · rw [hwaiting, countP_cons]; simp
      · rw [hwaiting, countP_append, countP_singleton]; simp
    refine ⟨_, hrequest, fun r' hne => ?_, ?_, rfl, rfl⟩
    · rw [hcount, if_neg hne.symm]; rfl
    · rw [hcount, if_pos rfl]; exact h.push _

theorem Queued.queuedFor_stop (h : Queued s live free) (hstep : ImageRequest.step s e = some s')
    (hstops : stops s e = some r) (r' : Nat) : queuedFor s' r' ≤ queuedFor s r' := by
  obtain ⟨live', free', h', houtcome⟩ := h.step hstep
  obtain ⟨rfl, hinfo, -⟩ := houtcome.stopped r hstops
  unfold queuedFor
  rw [h'.waiting_eq, h.waiting_eq, entries_congr fun e _ => congrFun hinfo e]
  exact List.Sublist.countP_le (List.Sublist.map _ filter_sublist)

/-- **A step keeps it.** -/
theorem Waits.step (h : Waits sentOf s) (hqueued : Queued s live free)
    (horderly : Orderly s e) (hstep : ImageRequest.step s e = some s') :
    Waits (fun r => sentOf r || e.sends r) s' := by
  cases e with
  | sendRequest r timeout retries throttle isRecapRequest =>
    obtain ⟨hretries, hnot, hnone, hway⟩ := horderly
    obtain ⟨-, hrun⟩ := ite_none_right_eq_some.1 hstep
    cases hrun
    have hways : (s.request r).sending.length = 0 ∧ (s.request r).processing ≠ some .retry := by
      unfold Request.onTheWay at hway
      constructor
      · omega
      · intro hretry
        rw [if_pos hretry] at hway
        omega
    have hq := h r
    intro r'
    show WaitsFor (sentOf r' || Event.sends r' _) (queuedFor s r')
      (Function.update s.request r _ r')
    by_cases heq : r' = r
    · subst heq
      have hsends :
          (sentOf r' || (Event.sendRequest r' timeout retries throttle isRecapRequest).sends r')
          = true := by
        simp [Event.sends]
      rw [update_self, hsends, hnone]
      refine ⟨hq.timers, rfl, fun _ => .inl rfl, fun _ => .inl rfl, Int.le_refl 0, fun _ => ?_, ?_,
        fun _ => ⟨rfl, rfl⟩, fun hwaiting => absurd hwaiting.symm Bool.false_ne_true, rfl⟩
      · show ((0 : Nat) : Int) + (((s.request r').sending ++ [(throttle, isRecapRequest)]).length +
          (if (s.request r').processing = some .retry then 1 else 0) : Nat) + ((0 : Nat) : Int) ≤
            min 0 retries + 1
        rw [if_neg hways.2, length_append, hways.1]
        simp
        omega
      · show ((0 : Nat) : Int) ≤ retries + 1; omega
    · have hsends :
          (sentOf r' || (Event.sendRequest r timeout retries throttle isRecapRequest).sends r')
          = sentOf r' := by
        simp [Event.sends, Ne.symm heq]
      rw [update_of_ne heq, hsends]
      exact h r'
  | sendEnd r throttle isRecapRequest now =>
    simp only [Event.sends, Bool.or_false]
    obtain ⟨-, hrun⟩ := ite_none_right_eq_some.1 hstep
    obtain ⟨hmem, q, hq, hrun⟩ := sendEnd_cases hrun
    have hwaits : WaitsFor (sentOf r) (queuedFor s r + 1) q := hq ▸ (h r).sendEnd hmem
    cases throttle with
    | true =>
      obtain ⟨live', free', -, hdispatched⟩ := (hqueued.setRequest (by rw [hq])).dispatch hrun
      have hself : (s.setRequest r q).request r = q := update_self _ _ _
      have hwaits' : WaitsFor (sentOf r) (queuedFor (s.setRequest r q) r + 1)
          ((s.setRequest r q).request r) := by
        rwa [hself]
      obtain ⟨q', hrequest, hothers, hq', -⟩ := hwaits'.dispatched hdispatched
      refine h.update (hrequest.trans (update_idem _ _ _)) (fun r' hne => ?_) hq'
      exact Nat.le_of_eq (hothers r' hne)
    | false =>
      obtain rfl : s' = s.setRequest r (requestAction q now none) := hrun
      refine h.update rfl (fun r' _ => Nat.le_refl _) ?_
      apply WaitsFor.publish
      exact ⟨hwaits.timers, hwaits.msg, hwaits.listener, hwaits.ends, hwaits.reqCount,
        hwaits.budget,
        hwaits.published, hwaits.waiting, hwaits.ended, hwaits.late⟩
  | stopWaitForResponse r now =>
    simp only [Event.sends, Bool.or_false]
    have hothers := hqueued.queuedFor_stop hstep rfl
    obtain ⟨-, hrun⟩ := ite_none_right_eq_some.1 hstep
    exact h.update (stopWith_cases hrun) (fun r' _ => hothers r')
      ((h r).stopped now .stopped horderly _)
  | destroy r transport now =>
    simp only [Event.sends, Bool.or_false]
    obtain ⟨-, hrun⟩ := ite_none_right_eq_some.1 hstep
    obtain ⟨s₁, ⟨htransport, hwaits, hstop⟩ | ⟨hnot, rfl⟩, rfl⟩ := destroy_cases hrun
    · have hothers := hqueued.queuedFor_stop hstep (if_pos ⟨htransport, hwaits⟩)
      have hrequest := stopWith_cases hstop
      refine h.update ?_ (fun r' _ => hothers r') ((h r).stop now .stopped
        (Common.Handle.destroyOwner (s₁.request r).impl.mResponse) (fun _ => rfl) _ rfl)
      show Function.update s₁.request r { s₁.request r with
        impl := { (s₁.request r).impl with
          mResponse := Common.Handle.destroyOwner (s₁.request r).impl.mResponse }
        destroyed := true } = _
      rw [hrequest, update_idem, update_self]
    · refine h.update rfl (fun r' _ => Nat.le_refl _) ?_
      have hold := h r
      exact ⟨hold.timers, hold.msg, hold.listener, fun _ => .inr rfl, hold.reqCount, hold.budget,
        hold.published, hold.waiting, hold.ended, hold.late⟩
  | onInitialMessage r stops now =>
    simp only [Event.sends, Bool.or_false]
    obtain ⟨hprocessing, ⟨howner, hstops, hrun⟩ | ⟨hnot, rfl⟩⟩ := onInitialMessage_cases hstep
    · have hothers := hqueued.queuedFor_stop hstep (if_pos ⟨howner, hstops⟩)
      have hrequest := stopWith_cases hrun
      have hself : (s.setRequest r (s.request r).answered).request r = (s.request r).answered :=
        update_self _ _ _
      rw [hself] at hrequest
      refine h.update (hrequest.trans (update_idem _ _ _)) (fun r' _ => hothers r') ?_
      refine (h r).answered.stopped now .response ?_ _
      show (s.request r).ends = false
      rw [Request.ends, hprocessing]
    · exact h.update rfl (fun r' _ => Nat.le_refl _) (h r).answered
  | onReplyTimeout r received =>
    simp only [Event.sends, Bool.or_false]
    obtain ⟨htimers, hprocessing, rfl⟩ := onReplyTimeout_cases hstep
    exact h.update rfl (fun r' _ => Nat.le_refl _) ((h r).timedOut htimers hprocessing received)
  | processTimeout r now =>
    simp only [Event.sends, Bool.or_false]
    obtain ⟨hnotDestroyed, timeout, hprocessing, s₁, hs₁, hrun⟩ := processTimeout_cases hstep
    have hself : s₁.request r = { s.request r with processing := none } := by
      rw [hs₁]; exact update_self _ _ _
    have hidem : ∀ q, Function.update s₁.request r q = Function.update s.request r q := by
      intro q; rw [hs₁]; exact update_idem _ _ _
    have hclear := (h r).clear
    rw [hprocessing, ← hself] at hclear
    have hstops : timeout ≠ .retry → stops s (.processTimeout r now) = some r := by
      intro hne
      rw [stops, hprocessing]
      cases timeout with
      | received | final => rfl
      | retry => exact absurd rfl hne
    -- a timeout that ends the wait was found in it
    have hwaiting : (s.request r).ends → (s₁.request r).impl.mWaitingForResponse := by
      intro hends
      rw [hself]
      refine ((h r).ends hends).resolve_right fun hdestroyed => ?_
      cases hnotDestroyed.symm.trans hdestroyed
    have hnone : (s₁.request r).ends = false := by
      rw [hself]; rfl
    cases timeout with
    | received isRecap =>
      have hothers := hqueued.queuedFor_stop hstep (hstops (by simp))
      cases isRecap with
      | true =>
        refine h.update ((stopWith_cases hrun).trans (hidem _)) (fun r' _ => hothers r') ?_
        exact hclear.stopped now .response hnone _
      | false =>
        obtain ⟨s₂, hstop, rfl⟩ := hrun
        have hrequest := stopWaitForResponse_cases hstop
        refine h.update (System.setRequest_twice hs₁ (·.finish .endOfInitials) hrequest)
          (fun r' _ => hothers r') ?_
        have hstopped := hclear.stopped now .endOfInitials hnone (queuedFor s₂ r)
        rw [if_pos (hwaiting (by unfold Request.ends; rw [hprocessing]))] at hstopped
        exact hstopped
    | retry =>
      obtain ⟨s₂, hdispatch, rfl⟩ := hrun
      have hqueued₁ : Queued s₁ live free := hs₁ ▸ hqueued.setRequest rfl
      obtain ⟨live', free', -, hdispatched⟩ := hqueued₁.dispatch hdispatch
      have hsame : queuedFor s₁ = queuedFor s := by rw [hs₁]; rfl
      have hclear' : WaitsFor (sentOf r) (queuedFor s₁ r + 1) (s₁.request r) := by rwa [hsame]
      obtain ⟨q, hrequest, hothers, hq, hp2p, hwait⟩ := hclear'.dispatched hdispatched
      refine h.update (System.setRequest_twice hs₁ (startReplyTimer · now) hrequest)
        (fun r' hne => ?_) (hq.startReplyTimer fun hq => ?_)
      · show queuedFor s₂ r' ≤ _
        rw [hothers r' hne, hsame]
      · rw [hp2p, hself] at hq
        rw [hwait, hself]
        refine ((h r).listener hq).resolve_right fun hidle => ?_
        exact absurd (hprocessing.symm.trans hidle.2) (by simp)
    | final isRecap =>
      have hothers := hqueued.queuedFor_stop hstep (hstops (by simp))
      obtain ⟨s₂, hstop, rfl⟩ := hrun
      have hrequest := stopWaitForResponse_cases hstop
      refine h.update (System.setRequest_twice hs₁ (·.answered.finish .timeout) hrequest)
        (fun r' _ => hothers r') ?_
      have hstopped := hclear.stopped now .timeout hnone (queuedFor s₂ r)
      rw [if_pos (hwaiting (by unfold Request.ends; rw [hprocessing]))] at hstopped
      exact hstopped.answered
  | sendQueuedMessage now =>
    simp only [Event.sends, Bool.or_false]
    obtain ⟨live', free', -, hsent⟩ := hqueued.sendQueuedMessage hstep
    cases hsent with
    | empty hnil hrequest hwaiting hran =>
      intro r
      have hsame : queuedFor s' r = queuedFor s r := by
        unfold queuedFor
        rw [hwaiting]
      rw [hrequest, hsame]
      exact h r
    | pop a hdestroyed hrequest hwaiting hran =>
      have hcount : ∀ r', queuedFor s r' = queuedFor s' r' + if a.1 = r' then 1 else 0 := by
        intro r'
        unfold queuedFor
        rw [hwaiting, countP_cons]
        simp
      refine h.update hrequest (fun r' hne => ?_) ?_
      · rw [hcount]; exact Nat.le_add_right _ _
      · have hself := h a.1
        rw [hcount, if_pos rfl] at hself
        exact (hself.takeOff a.2).publish

/-! ## Whole runs -/

theorem waits_start (rate : ℚ) : Waits (fun _ => false) (start rate) := by
  intro r
  refine ⟨Nat.le_refl 0, rfl, fun _ => .inr ⟨rfl, rfl⟩, nofun, Int.le_refl 0,
    nofun, ?_, nofun,
    fun _ h => absurd h Bool.false_ne_true, rfl⟩
  show (0 : Int) ≤ 2 + 1
  decide

theorem Waits.steps (h : Waits sentOf s) (hqueued : Queued s live free) {events : List Event}
    (hrun : events.foldlM ImageRequest.step s = some s')
    (horderly : ∀ pre e suf, events = pre ++ e :: suf →
      ∀ s₁, pre.foldlM ImageRequest.step s = some s₁ →
      Orderly s₁ e) :
    Waits (fun r => sentOf r || events.any (Event.sends r)) s' := by
  induction events generalizing s sentOf live free with
  | nil => cases hrun; simpa using h
  | cons e events ih =>
    obtain ⟨s₁, hstep, hrun⟩ := bind_eq_some_iff.1 hrun
    obtain ⟨live₁, free₁, hqueued₁, -⟩ := hqueued.step hstep
    have h₁ := h.step hqueued (horderly [] e events rfl s rfl) hstep
    have hrest := ih h₁ hqueued₁ hrun fun pre e' suf hsplit s₂ hpre => by
      refine horderly (e :: pre) e' suf (by rw [hsplit]; rfl) s₂ ?_
      rwa [foldlM_cons, hstep]
    simpa only [any_cons, Bool.or_assoc] using hrest

/-- **The protocol of image requests.**  A run keeps it for every request, if requests are sent when
they do not wait and have nothing under way, and no client stops one while a timeout that ends the
wait is acted on. -/
theorem protocol_of_run {rate : ℚ} {events : List Event} (hrun : run rate events = some s)
    (horderly : ∀ pre e suf, events = pre ++ e :: suf → ∀ s₁, run rate pre = some s₁ → Orderly s₁ e)
    (r : Nat) : Protocol (events.any (Event.sends r)) (s.request r) := by
  have hwaits := (waits_start rate).steps (queued_start rate) hrun horderly r
  exact hwaits.protocol

/-- A request is published twice, and times out. -/
theorem protocol_of_run_retried :
    ∃ s, run 1000 [.sendRequest 0 30 1 true false, .sendEnd 0 true false 0,
      .sendQueuedMessage 0, .onReplyTimeout 0 false, .processTimeout 0 30, .sendQueuedMessage 31,
      .onReplyTimeout 0 false, .processTimeout 0 60] = some s ∧
    (s.request 0).published = 2 ∧ Protocol true (s.request 0) := by
  have hchecked : ∃ s, [Event.sendRequest 0 30 1 true false, .sendEnd 0 true false 0,
      .sendQueuedMessage 0, .onReplyTimeout 0 false, .processTimeout 0 30, .sendQueuedMessage 31,
      .onReplyTimeout 0 false, .processTimeout 0 60].foldlM
        (fun s e => if Orderly s e then step s e else none) (start 1000) = some s ∧
      (s.request 0).published = 2 := ⟨_, rfl, rfl⟩
  obtain ⟨s, hs, hpublished⟩ := hchecked
  obtain ⟨hrun, horderly⟩ := Lib.checked_split hs
  exact ⟨s, hrun, hpublished, protocol_of_run hrun horderly 0⟩

/-- A client stops the request when its last timeout was looked at, and the timeout is reported. -/
theorem not_protocol : ¬ ∀ rate events s, run rate events = some s → ∀ r,
    Protocol (events.any (Event.sends r)) (s.request r) := by
  intro h
  have hrun : (run 1000 [.sendRequest 0 30 0 false false, .sendEnd 0 false false 0,
      .onReplyTimeout 0 false, .stopWaitForResponse 0 30, .processTimeout 0 30]).map
        (fun s => (s.request 0).endings) = some [.stopped, .timeout] := rfl
  obtain ⟨s, hs, hendings⟩ := map_eq_some_iff.mp hrun
  rcases (h 1000 _ s hs 0).ending rfl with ⟨-, hnil⟩ | ⟨-, ending, hone⟩
  · exact absurd (hendings.symm.trans hnil) (by simp)
  · exact absurd (hendings.symm.trans hone) (by simp)

end Mama.ImageRequest

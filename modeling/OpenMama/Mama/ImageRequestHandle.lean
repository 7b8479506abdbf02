import OpenMama.Mama.ImageRequestStops

/-!
# The destroy handles of image requests

The responses that a request awaits and its reply timer hold its destroy handle.  A reference is
added for each request that is sent and dropped for each response, so the count is right as long as
every request is answered once.  A response or a timer that finds its owner destroyed frees the
handle if it is the last holder, and else returns with the lock held.  `accounted_iff` says just
which steps keep the count.
-/

namespace Mama.ImageRequest

open Function Option

open Common.WList (Node)
open Common.Handle (Accounts Held)

variable {s s' : System} {live free : List Node} {q : Request} {r a : Nat} {now : ℚ} {e : Event}

/-- **The handle of a request**: its holders are the responses that are awaited and the timers, and
no callback got an owner that was destroyed. -/
def Accounted (q : Request) : Prop :=
  Accounts q.impl.mResponse (q.awaited + q.timers) q.destroyed ∧ q.ownerLate = false

def Holds (q : Request) : Prop :=
  Held q.impl.mResponse (q.awaited + q.timers) q.destroyed ∧ q.ownerLate = false ∧
    (q.destroyed = false → q.timers = if q.impl.mReplyTimer then 1 else 0)

section

variable (h : Holds q)

include h

theorem Holds.accounted : Accounted q := ⟨h.1.toAccounts, h.2.1⟩

/-! ## Each reference is dropped by a holder -/

/-- No response is awaited of a request that was not published. -/
def Request.AllPublished (q : Request) : Prop := q.awaited = 0 ∨ q.unpublished = 0

/-- A callback of a request that was destroyed is the last holder. -/
def Request.LastHolder (q : Request) : Prop := q.destroyed → q.awaited + q.timers = 1

/-- The steps that drop references: a response that is awaited, of the last holder if the owner was
destroyed; and stops that find nothing unpublished. -/
def Balanced (s : System) : Event → Prop
  | .stopWaitForResponse r _ => (s.request r).AllPublished
  | .destroy r transport _ =>
    transport → (s.request r).impl.mWaitingForResponse → (s.request r).AllPublished
  | .onInitialMessage r stops _ =>
    0 < (s.request r).awaited ∧ (s.request r).LastHolder ∧
      (stops → (s.request r).destroyed = false →
        (s.request r).awaited = 1 ∨ (s.request r).unpublished = 0)
  | .onReplyTimeout r _ => (s.request r).LastHolder
  | .processTimeout r _ =>
    match (s.request r).processing with
    | some (.received _) => (s.request r).AllPublished
    | some (.final _) => 0 < (s.request r).awaited ∧
        ((s.request r).awaited = 1 ∨ (s.request r).unpublished = 0)
    | _ => True
  | _ => True

/-! ## Calls -/

theorem Holds.push (pending : PendingAction) : Holds (q.push pending) := h

theorem Holds.takeOff (action : Nat) : Holds (q.takeOff action) := h

omit h in
theorem startReplyTimer_destroyed (q : Request) (now : ℚ) :
    (startReplyTimer q now).destroyed = q.destroyed := by
  unfold startReplyTimer
  split <;> rfl

omit h in
theorem publish_destroyed (q : Request) (now : ℚ) : (q.publish now).destroyed = q.destroyed := by
  unfold Request.publish
  split
  · exact startReplyTimer_destroyed q now
  · rfl

section

variable (halive : q.destroyed = false)

include halive

theorem Holds.startReplyTimer : Holds (startReplyTimer q now) := by
  obtain ⟨hheld, howner, htimer⟩ := h
  unfold ImageRequest.startReplyTimer
  split
  · exact ⟨hheld, howner, htimer⟩
  next hnone =>
  have hzero := htimer halive
  rw [if_neg hnone] at hzero
  rw [halive] at hheld
  refine ⟨?_, howner, fun _ => ?_⟩
  · show Held _ (q.awaited + (q.timers + 1)) q.destroyed
    rw [halive]
    exact hheld.incrementRefCount
  · show q.timers + 1 = 1; omega

theorem Holds.publish : Holds (q.publish now) := by
  unfold Request.publish
  split
  · exact h.startReplyTimer halive
  · exact h

theorem Holds.requestAction (action : Option Nat) :
    Holds (ImageRequest.requestAction q now action) := by
  cases action with
  | some action => exact (h.takeOff action).publish halive
  | none => exact Holds.publish h halive

theorem Holds.checkDestroyReplyTimer : Holds (checkDestroyReplyTimer q now) := by
  unfold ImageRequest.checkDestroyReplyTimer
  split
  · next hcheck =>
    obtain ⟨hheld, howner, htimer⟩ := h
    have hone := htimer halive
    rw [if_pos hcheck.1] at hone
    rw [halive, hone] at hheld
    obtain ⟨-, hdropped⟩ := hheld.removeReference nofun
    refine ⟨?_, ?_, fun _ => ?_⟩
    · show Held _ (q.awaited + (q.timers - 1)) q.destroyed
      rwa [halive, hone]
    · show (q.ownerLate || (_ && q.destroyed)) = false
      rw [howner, halive, Bool.and_false]
      rfl
    · show q.timers - 1 = 0; omega
  · exact h

end

omit h in
theorem checkDestroyReplyTimer_same (q : Request) (now : ℚ) :
    (checkDestroyReplyTimer q now).awaited = q.awaited ∧
      (checkDestroyReplyTimer q now).unpublished = q.unpublished ∧
      (checkDestroyReplyTimer q now).destroyed = q.destroyed := by
  unfold checkDestroyReplyTimer
  split <;> exact ⟨rfl, rfl, rfl⟩

theorem Holds.stopped (halive : q.destroyed = false) (now : ℚ) :
    Holds { q.stopped now with awaited := q.awaited } := by
  have hcheck : Holds (ImageRequest.checkDestroyReplyTimer q now) := h.checkDestroyReplyTimer halive
  have hawaited := (checkDestroyReplyTimer_same q now).1
  unfold Holds at hcheck
  rwa [hawaited] at hcheck

omit h in
theorem stopped_same (q : Request) (now : ℚ) :
    (q.stopped now).awaited = q.awaited - q.unpublished ∧
      (q.stopped now).destroyed = q.destroyed := by
  obtain ⟨hawaited, hunpublished, hdestroyed⟩ := checkDestroyReplyTimer_same q now
  refine ⟨?_, hdestroyed⟩
  rw [← hawaited, ← hunpublished]
  rfl

omit h in
theorem removeReference_held {holders : Nat}
    (hheld : Held q.impl.mResponse (holders + 1) q.destroyed) (howner : q.ownerLate = false)
    (hlast : q.destroyed → holders = 0) :
    q.removeReference.1 = !q.destroyed ∧
      Held q.removeReference.2.impl.mResponse holders q.destroyed ∧
      q.removeReference.2.ownerLate = false := by
  obtain ⟨howns, hdropped⟩ := hheld.removeReference hlast
  have howns' : q.removeReference.1 = !q.destroyed := howns
  refine ⟨howns', hdropped, ?_⟩
  show (q.ownerLate || (q.removeReference.1 && q.destroyed)) = false
  rw [howner, howns']
  cases q.destroyed <;> rfl

theorem Holds.answered (hawaited : 0 < q.awaited) (hlast : q.LastHolder) :
    q.removeReference.1 = !q.destroyed ∧ Holds q.answered := by
  obtain ⟨hheld, howner, htimer⟩ := h
  have hholders : q.awaited + q.timers = q.awaited - 1 + q.timers + 1 := by omega
  rw [hholders] at hheld
  obtain ⟨howns, hdropped, hlate⟩ := removeReference_held hheld howner fun hd => by
    have hone := hlast hd
    omega
  exact ⟨howns, hdropped, hlate, htimer⟩

/-! ## What the count tells -/

omit h in
theorem Accounted.awaited_eq (h : Accounted q)
    (hreferences : q.impl.mResponse.m_numberReferences = ((a + q.timers : Nat) : Int)) :
    q.awaited = a := by
  have heq := h.1.references
  omega

theorem Holds.references :
    q.impl.mResponse.m_numberReferences = ((q.awaited + q.timers : Nat) : Int) := h.1.references

theorem Holds.stopped_iff (halive : q.destroyed = false) (now : ℚ) :
    (Accounted (q.stopped now) → q.AllPublished) ∧ (q.AllPublished → Holds (q.stopped now)) := by
  have hstopped := h.stopped halive now
  have hawaited := (stopped_same q now).1
  constructor
  · intro hacc
    have heq : (q.stopped now).awaited = q.awaited := hacc.awaited_eq hstopped.references
    unfold Request.AllPublished
    omega
  · intro hall
    have heq : (q.stopped now).awaited = q.awaited := by
      rcases hall with hall | hall <;> omega
    rwa [← heq] at hstopped

theorem Holds.lastHolder (hholders : 0 < q.awaited + q.timers) {holders : Nat}
    (hacc : Accounts q.removeReference.2.impl.mResponse holders q.destroyed) : q.LastHolder := by
  intro hdestroyed
  by_contra hothers
  obtain ⟨hheld, -, -⟩ := h
  have hsucc : q.awaited + q.timers = q.awaited + q.timers - 1 + 1 := by omega
  rw [hdestroyed, hsucc] at hheld
  obtain ⟨-, hfreed, hlock⟩ := hheld.locked (by omega)
  have hzero := hacc.lock hfreed
  have hone : q.removeReference.2.impl.mResponse.m_lock = 1 := hlock
  omega

/-- A response keeps the count just if it is awaited, and of the last holder if the owner was
destroyed. -/
theorem Holds.answered_iff : (Accounted q.answered → 0 < q.awaited ∧ q.LastHolder) ∧
    (0 < q.awaited ∧ q.LastHolder → q.removeReference.1 = !q.destroyed ∧ Holds q.answered) := by
  refine ⟨fun hacc => ?_, fun hdue => h.answered hdue.1 hdue.2⟩
  have hreferences : q.answered.impl.mResponse.m_numberReferences =
      q.impl.mResponse.m_numberReferences - 1 := Common.Handle.removeReference_references _
  have hlaw := hacc.1.references
  have hold := h.references
  rw [hreferences, hold] at hlaw
  have hlaw' : ((q.awaited + q.timers : Nat) : Int) - 1 =
      ((q.awaited - 1 + q.timers : Nat) : Int) := hlaw
  have hawaited : 0 < q.awaited := by omega
  exact ⟨hawaited, h.lastHolder (by omega) hacc.1⟩

theorem Holds.checkTimeout (received : Bool) : Holds (checkTimeout q received) := by
  unfold ImageRequest.checkTimeout
  split
  · exact h
  · split
    · exact h
    · dsimp only
      split
      · split <;> exact h
      · exact h

/-- A timer keeps the count just if it is the last holder, where the owner was destroyed. -/
theorem Holds.timedOut_iff (htimers : 0 < q.timers) (received : Bool) :
    (Accounted (q.timedOut received) → q.LastHolder) ∧
      (q.LastHolder → Holds (q.timedOut received)) := by
  obtain ⟨hheld, howner, htimer⟩ := h
  have hholders : q.awaited + q.timers = q.awaited + (q.timers - 1) + 1 := by omega
  obtain ⟨p, hp⟩ : ∃ p, p = ({ q with timers := q.timers - 1 } : Request) := ⟨_, rfl⟩
  have hdef : q.timedOut received = if p.removeReference.1 then
      ImageRequest.checkTimeout { p.removeReference.2 with
        impl := { p.removeReference.2.impl with mReplyTimer := false } } received
    else p.removeReference.2 := by
    rw [hp]
    rfl
  have hdestroyed : p.destroyed = q.destroyed := by rw [hp]
  have hresponse : p.impl.mResponse = q.impl.mResponse := by rw [hp]
  rw [hholders, ← hresponse, ← hdestroyed] at hheld
  constructor
  · intro hacc hd
    by_contra hothers
    rw [hdestroyed, hd] at hheld
    obtain ⟨hnone, hfreed, hlock⟩ := hheld.locked (by omega)
    have hnot : ¬ p.removeReference.1 := fun hsome =>
      nomatch hnone.symm.trans hsome
    rw [hdef, if_neg hnot] at hacc
    have hzero : (Common.Handle.removeReference p.impl.mResponse).2.m_lock = 0 := hacc.1.lock hfreed
    omega
  intro hlast
  have howner' : p.ownerLate = false := by rw [hp, howner]
  obtain ⟨howns, hdropped, hlate⟩ := removeReference_held hheld howner' fun hd => by
    have hone := hlast (hdestroyed.symm.trans hd)
    omega
  have hsame : p.awaited = q.awaited ∧ p.timers = q.timers - 1 := by
    rw [hp]; exact ⟨rfl, rfl⟩
  rw [← hsame.1, ← hsame.2] at hdropped
  rw [hdef]
  split
  · next howns' =>
    have halive : q.destroyed = false := by
      rw [howns, hdestroyed] at howns'; simpa using howns'
    have hone := htimer halive
    apply Holds.checkTimeout
    refine ⟨hdropped, hlate, fun _ => ?_⟩
    show p.timers = 0
    split at hone <;> omega
  · next howns' =>
    refine ⟨hdropped, hlate, fun halive => absurd ?_ howns'⟩
    have halive' : p.destroyed = false := halive
    rw [howns, halive']
    rfl

/-! ## One step -/

omit h in
theorem Holds.dispatched {s₁ : System} {retry : Bool} (h : Holds (s₁.request r))
    (halive : (s₁.request r).destroyed = false) (hrun : Dispatched s₁ s' r now retry) :
    ∃ q, s'.request = Function.update s₁.request r q ∧ Holds q ∧ q.destroyed = false := by
  cases hrun with
  | run a hrequest hwaiting hran =>
    exact ⟨_, hrequest, (h.push _).requestAction halive (some a),
      (publish_destroyed _ now).trans halive⟩
  | push a n hrequest hwaiting hran => exact ⟨_, hrequest, h.push _, halive⟩

theorem Holds.not_awaited (hnone : q.awaited = 0) (now : ℚ) :
    ¬ Accounted (q.answered.stopped now) := by
  intro hacc
  have hreferences : q.answered.impl.mResponse.m_numberReferences =
      q.impl.mResponse.m_numberReferences - 1 := Common.Handle.removeReference_references _
  have hold := h.references
  have hless :
      (ImageRequest.checkDestroyReplyTimer q.answered now).impl.mResponse.m_numberReferences <
      (ImageRequest.checkDestroyReplyTimer q.answered now).timers := by
    unfold ImageRequest.checkDestroyReplyTimer
    split
    · have hdropped :
          (Common.Handle.removeReference q.answered.impl.mResponse).2.m_numberReferences =
          q.answered.impl.mResponse.m_numberReferences - 1 :=
            Common.Handle.removeReference_references _
      show (Common.Handle.removeReference q.answered.impl.mResponse).2.m_numberReferences <
        ((q.timers - 1 : Nat) : Int)
      omega
    · show q.answered.impl.mResponse.m_numberReferences < (q.timers : Int); omega
  have hlaw := hacc.1.references
  have hawaited := (stopped_same q.answered now).1
  have hzero : q.answered.awaited = 0 := by
    show q.awaited - 1 = 0; omega
  have htimers : (q.answered.stopped now).timers =
      (ImageRequest.checkDestroyReplyTimer q.answered now).timers := rfl
  have hresponse : (q.answered.stopped now).impl.mResponse =
      (ImageRequest.checkDestroyReplyTimer q.answered now).impl.mResponse := rfl
  rw [hresponse] at hlaw
  omega

theorem Holds.destroy (halive : q.destroyed = false) :
    Holds { q with
      impl := { q.impl with mResponse := Common.Handle.destroyOwner q.impl.mResponse }
      destroyed := true } := by
  obtain ⟨hheld, howner, htimer⟩ := h
  rw [halive] at hheld
  exact ⟨hheld.destroyOwner, howner, nofun⟩

theorem Holds.final_iff (halive : q.destroyed = false) (now : ℚ) :
    (Accounted (q.stopped now).answered → 0 < q.awaited ∧ (q.awaited = 1 ∨ q.unpublished = 0)) ∧
      (0 < q.awaited ∧ (q.awaited = 1 ∨ q.unpublished = 0) → Holds (q.stopped now).answered) := by
  have hstopped := h.stopped halive now
  obtain ⟨hawaited, hdestroyed⟩ := stopped_same q now
  have hanswered : (q.stopped now).answered.awaited = q.awaited - q.unpublished - 1 :=
    congrArg (· - 1) hawaited
  constructor
  · intro hacc
    have hreferences : (q.stopped now).answered.impl.mResponse.m_numberReferences =
        (q.stopped now).impl.mResponse.m_numberReferences - 1 :=
      Common.Handle.removeReference_references _
    have hold : (q.stopped now).impl.mResponse.m_numberReferences =
        ((q.awaited + (q.stopped now).timers : Nat) : Int) := hstopped.references
    have hlaw : (q.stopped now).answered.impl.mResponse.m_numberReferences =
        (((q.stopped now).answered.awaited + (q.stopped now).timers : Nat) : Int) :=
          hacc.1.references
    omega
  rintro ⟨hpos, hall⟩
  have hlast : ({ q.stopped now with awaited := q.awaited } : Request).LastHolder := fun hd =>
    absurd (halive.symm.trans (hdestroyed.symm.trans hd)) Bool.false_ne_true
  obtain ⟨-, hholds⟩ := hstopped.answered hpos hlast
  have heq : (q.stopped now).answered.awaited = q.awaited - 1 := by omega
  have hheld : Held (q.stopped now).answered.impl.mResponse
      (q.awaited - 1 + (q.stopped now).answered.timers) (q.stopped now).answered.destroyed :=
        hholds.1
  rw [← heq] at hheld
  exact ⟨hheld, hholds.2⟩

end

/-- **One step**: a request changes, and keeps its count just if the step drops what is held. -/
theorem Holds.step (h : ∀ r, Holds (s.request r)) (hqueued : Queued s live free)
    (hstep : ImageRequest.step s e = some s') : ∃ r q, s'.request = Function.update s.request r q ∧
    (Accounted q → Balanced s e) ∧ (Balanced s e → Holds q) := by
  cases e with
  | sendRequest r timeout retries throttle isRecapRequest =>
    obtain ⟨halive, hrun⟩ := ite_none_right_eq_some.1 hstep
    cases hrun
    have hd : (s.request r).destroyed = false := by simpa [System.alive] using halive
    obtain ⟨hheld, howner, htimer⟩ := h r
    refine ⟨r, _, rfl, fun _ => trivial, fun _ => ⟨?_, howner, htimer⟩⟩
    rw [hd] at hheld
    rw [hd, Nat.add_right_comm]
    exact hheld.incrementRefCount
  | sendEnd r throttle isRecapRequest now =>
    obtain ⟨halive, hrun⟩ := ite_none_right_eq_some.1 hstep
    have hd : (s.request r).destroyed = false := by simpa [System.alive] using halive
    obtain ⟨hmem, q, hq, hrun⟩ := sendEnd_cases hrun
    have hholds : Holds q := hq ▸ h r
    have hdq : q.destroyed = false := hq ▸ hd
    cases throttle with
    | true =>
      obtain ⟨live', free', -, hdispatched⟩ := (hqueued.setRequest (by rw [hq])).dispatch hrun
      have hself : (s.setRequest r q).request r = q := update_self _ _ _
      obtain ⟨q', hrequest, hholds', -⟩ :=
        Holds.dispatched (hself.symm ▸ hholds) (hself.symm ▸ hdq) hdispatched
      exact ⟨r, q', hrequest.trans (update_idem _ _ _), fun _ => trivial, fun _ => hholds'⟩
    | false =>
      obtain rfl : s' = s.setRequest r (ImageRequest.requestAction q now none) := hrun
      exact ⟨r, _, rfl, fun _ => trivial, fun _ => hholds.requestAction hdq none⟩
  | stopWaitForResponse r now =>
    obtain ⟨halive, hrun⟩ := ite_none_right_eq_some.1 hstep
    have hd : (s.request r).destroyed = false := by simpa [System.alive] using halive
    obtain ⟨hmeets, hkeeps⟩ := (h r).stopped_iff hd now
    have hrequest := stopWith_cases hrun
    refine ⟨r, _, hrequest, ?_⟩
    split
    · exact ⟨hmeets, hkeeps⟩
    · exact ⟨hmeets, hkeeps⟩
  | destroy r transport now =>
    obtain ⟨halive, hrun⟩ := ite_none_right_eq_some.1 hstep
    have hd : (s.request r).destroyed = false := by simpa [System.alive] using halive
    obtain ⟨s₁, ⟨htransport, hwaits, hstop⟩ | ⟨hnot, rfl⟩, rfl⟩ := destroy_cases hrun
    · have hrequest := stopWith_cases hstop
      rw [if_pos hwaits] at hrequest
      obtain ⟨hawaited, hdestroyed⟩ := stopped_same (s.request r) now
      have hself := congrFun hrequest r
      rw [update_self] at hself
      refine ⟨r, _, (congrArg (Function.update · r _) hrequest).trans (update_idem _ _ _), ?_, ?_⟩
      · rw [hself]
        intro hacc _ _
        have hreferences := (Common.Handle.destroyOwner_references _).trans
          ((h r).stopped hd now).references
        have heq : ((s.request r).stopped now).awaited = (s.request r).awaited :=
          hacc.awaited_eq hreferences
        unfold Request.AllPublished
        omega
      · rw [hself]
        intro hbalanced
        exact Holds.destroy (((h r).stopped_iff hd now).2 (hbalanced htransport hwaits))
          (hdestroyed.trans hd)
    · exact ⟨r, _, rfl, fun _ ht hw => absurd ⟨ht, hw⟩ hnot, fun _ => (h r).destroy hd⟩
  | onInitialMessage r stops now =>
    obtain ⟨hprocessing, ⟨howner, hstops, hrun⟩ | ⟨hnot, rfl⟩⟩ := onInitialMessage_cases hstep
    · have hrequest := stopWith_cases hrun
      have hself : (s.setRequest r (s.request r).answered).request r = (s.request r).answered :=
        update_self _ _ _
      rw [hself] at hrequest
      have hkeeps : 0 < (s.request r).awaited ∧ (s.request r).LastHolder →
          (s.request r).destroyed = false ∧
            (Accounted ((s.request r).answered.stopped now) → (s.request r).answered.AllPublished) ∧
            ((s.request r).answered.AllPublished → Holds ((s.request r).answered.stopped now)) := by
        intro hdue
        obtain ⟨howns, hanswered⟩ := (h r).answered_iff.2 hdue
        have hd : (s.request r).destroyed = false := by
          rw [howner] at howns; simpa using howns.symm
        exact ⟨hd, hanswered.stopped_iff hd now⟩
      have hlaw : Accounted ((s.request r).answered.stopped now) →
          Balanced s (.onInitialMessage r stops now) := by
        intro hacc
        have hawaited : 0 < (s.request r).awaited := by
          by_contra hnone; exact (h r).not_awaited (by omega) now hacc
        have hlast : (s.request r).LastHolder := by
          intro hd
          by_contra hothers
          obtain ⟨hheld, -, -⟩ := h r
          have hsucc : (s.request r).awaited + (s.request r).timers =
              (s.request r).awaited + (s.request r).timers - 1 + 1 := by omega
          rw [hd, hsucc] at hheld
          obtain ⟨hnone, -, -⟩ := hheld.locked (by omega)
          cases hnone.symm.trans howner
        obtain ⟨-, hmeets, -⟩ := hkeeps ⟨hawaited, hlast⟩
        refine ⟨hawaited, hlast, fun _ _ => (hmeets hacc).imp_left fun hzero => ?_⟩
        have hzero' : (s.request r).awaited - 1 = 0 := hzero
        omega
      have hkeep : Balanced s (.onInitialMessage r stops now) →
          Holds ((s.request r).answered.stopped now) := by
        rintro ⟨hawaited, hlast, hall⟩
        obtain ⟨hd, -, hholds⟩ := hkeeps ⟨hawaited, hlast⟩
        refine hholds ((hall hstops hd).imp_left fun hone => ?_)
        show (s.request r).awaited - 1 = 0
        omega
      refine ⟨r, _, hrequest.trans (update_idem _ _ _), ?_⟩
      split
      · exact ⟨hlaw, hkeep⟩
      · exact ⟨hlaw, hkeep⟩
    obtain ⟨hmeets, hkeeps⟩ := (h r).answered_iff
    refine ⟨r, _, rfl, fun hacc => ?_, fun hbalanced => (hkeeps ⟨hbalanced.1, hbalanced.2.1⟩).2⟩
    obtain ⟨hawaited, hlast⟩ := hmeets hacc
    obtain ⟨howns, -⟩ := hkeeps ⟨hawaited, hlast⟩
    refine ⟨hawaited, hlast, fun hstops hd => absurd ⟨?_, hstops⟩ hnot⟩
    rw [howns, hd]
    rfl
  | onReplyTimeout r received =>
    obtain ⟨htimers, hprocessing, rfl⟩ := onReplyTimeout_cases hstep
    exact ⟨r, _, rfl, (h r).timedOut_iff htimers received⟩
  | processTimeout r now =>
    obtain ⟨hd, timeout, hprocessing, s₁, hs₁, hrun⟩ := processTimeout_cases hstep
    have hself : s₁.request r = { s.request r with processing := none } := by
      rw [hs₁]; exact update_self _ _ _
    have hidem : ∀ q, Function.update s₁.request r q = Function.update s.request r q := by
      intro q; rw [hs₁]; exact update_idem _ _ _
    have hclear : Holds (s₁.request r) := by
      rw [hself]; exact h r
    have hd₁ : (s₁.request r).destroyed = false := by rwa [hself]
    have hbalanced : Balanced s (.processTimeout r now) ↔
        match some timeout with
        | some (.received _) => (s₁.request r).AllPublished
        | some (.final _) => 0 < (s₁.request r).awaited ∧
            ((s₁.request r).awaited = 1 ∨ (s₁.request r).unpublished = 0)
        | _ => True := by
      rw [hself, ← hprocessing]
      rfl
    rw [hbalanced]
    cases timeout with
    | received isRecap =>
      have hiff := hclear.stopped_iff hd₁ now
      cases isRecap with
      | true =>
        refine ⟨r, _, (stopWith_cases hrun).trans (hidem _), ?_⟩
        split
        · exact hiff
        · exact hiff
      | false =>
        obtain ⟨s₂, hstop, rfl⟩ := hrun
        have hrequest := stopWaitForResponse_cases hstop
        exact ⟨r, _, System.setRequest_twice hs₁ (·.finish .endOfInitials) hrequest, hiff⟩
    | retry =>
      obtain ⟨s₂, hdispatch, rfl⟩ := hrun
      have hqueued₁ : Queued s₁ live free := hs₁ ▸ hqueued.setRequest rfl
      obtain ⟨live', free', -, hdispatched⟩ := hqueued₁.dispatch hdispatch
      obtain ⟨q, hrequest, hholds, hdq⟩ := hclear.dispatched hd₁ hdispatched
      exact ⟨r, _, System.setRequest_twice hs₁ (ImageRequest.startReplyTimer · now) hrequest,
        fun _ => trivial,
        fun _ => hholds.startReplyTimer hdq⟩
    | final isRecap =>
      obtain ⟨s₂, hstop, rfl⟩ := hrun
      have hrequest := stopWaitForResponse_cases hstop
      exact ⟨r, _, System.setRequest_twice hs₁ (·.answered.finish .timeout) hrequest,
        hclear.final_iff hd₁ now⟩
  | sendQueuedMessage now =>
    obtain ⟨live', free', -, hsent⟩ := hqueued.sendQueuedMessage hstep
    cases hsent with
    | empty hnil hrequest hwaiting hran =>
      exact ⟨0, s.request 0, by rw [hrequest, update_eq_self], fun _ => trivial, fun _ => h 0⟩
    | pop a hdestroyed hrequest hwaiting hran =>
      exact ⟨a.1, _, hrequest, fun _ => trivial,
        fun _ => (h a.1).requestAction hdestroyed (some a.2)⟩

/-! ## Whole runs -/

/-- Every request keeps its count, and the throttle its list. -/
def AllHold (s : System) : Prop := (∃ live free, Queued s live free) ∧ ∀ r, Holds (s.request r)

theorem allHold_start (rate : ℚ) : AllHold (start rate) :=
  ⟨⟨[], [], queued_start rate⟩, fun _ => ⟨Common.Handle.held_new, rfl, fun _ => rfl⟩⟩

theorem AllHold.step (h : AllHold s) (hstep : ImageRequest.step s e = some s') :
    ((∀ r, Accounted (s'.request r)) → Balanced s e) ∧ (Balanced s e → AllHold s') := by
  obtain ⟨⟨live, free, hqueued⟩, hholds⟩ := h
  obtain ⟨r, q, hrequest, hmeets, hkeeps⟩ := Holds.step hholds hqueued hstep
  obtain ⟨live', free', hqueued', -⟩ := hqueued.step hstep
  constructor
  · intro hall
    have hself := hall r
    rw [hrequest, update_self] at hself
    exact hmeets hself
  · intro hbalanced
    refine ⟨⟨live', free', hqueued'⟩, fun r' => ?_⟩
    rw [hrequest]
    by_cases heq : r' = r
    · rw [heq, update_self]; exact hkeeps hbalanced
    · rw [update_of_ne heq]; exact hholds r'

/-- **The destroy handles of image requests.**  In all states of a run the count of every request is
right, its handle is freed once with the last holder, and no lock is left held, if and only if every
step of the run drops only references that are held. -/
theorem accounted_iff (rate : ℚ) (events : List Event) :
    (∀ pre suf, events = pre ++ suf → ∀ s, run rate pre = some s → ∀ r, Accounted (s.request r)) ↔
      ∀ pre e suf, events = pre ++ e :: suf → ∀ s s', run rate pre = some s →
        step s e = some s' → Balanced s e :=
  Lib.law_iff (fun _ h r => (h.2 r).accounted) (fun _ _ _ h hstep => h.step hstep)
    (allHold_start rate) events

/-- A request of a group is answered three times. -/
theorem not_accounted : ¬ ∀ rate events s, run rate events = some s →
    ∀ r, Accounted (s.request r) := by
  intro h
  have hrun : (run 1000 [.sendRequest 0 30 2 false false, .sendEnd 0 false false 0,
      .onInitialMessage 0 false 1, .onInitialMessage 0 false 1, .onInitialMessage 0 false 1]).map
        (fun s => (s.request 0).impl.mResponse.m_numberReferences) = some (-1) := rfl
  obtain ⟨s, hs, hreferences⟩ := map_eq_some_iff.mp hrun
  have hlaw := (h 1000 _ s hs 0).1.references
  omega

end Mama.ImageRequest

import OpenMama.Mama.Subscription

/-!
# The callbacks of a subscription's bridge

Whatever fails, a callback is owed only while the subscription waits for one, and what the
queue has counted for a subscription is that it is activated and not deactivated, less the
callbacks that are past their decrement.  The exception is a snapshot or a dictionary.
-/

namespace Mama.Lifecycle

open List Option

def Part.isCallback : Part → Bool
  | .bridgeDestroyed | .onSubscriptionDestroyed | .onDestroyDeallocate _ | .deallocate => true
  | _ => false

def Part.isDecremented : Part → Bool
  | .onSubscriptionDestroyed | .onDestroyDeallocate _ | .deallocate => true
  | _ => false

def Part.isCleaned : Part → Bool
  | .onDestroyDeallocate _ | .deallocate => true
  | _ => false

def State.awaits : State → Bool
  | .deactivating | .reactivating | .destroying | .deallocating => true
  | _ => false

/-- The subscription was activated and is not deactivated. -/
def State.isOpen : State → Bool
  | .activated => true
  | state => state.awaits

def owed (s : SubscriptionImpl) : List Part := s.pending.filter (·.isCallback)

def decremented (s : SubscriptionImpl) : Nat := (owed s).countP (·.isDecremented)

/-- The section of a `deactivate` of market data. -/
def Event.isDeactivate : Event → Bool
  | .part (.deactivate false _ _) => true
  | _ => false

theorem Event.isDeactivate_iff {e : Event} : e.isDeactivate ↔
    ∃ throttle destroys, e = .part (.deactivate false throttle destroys) := by
  constructor
  · intro h
    unfold isDeactivate at h
    split at h
    · exact ⟨_, _, rfl⟩
    · cases h
  · rintro ⟨throttle, destroys, rfl⟩; rfl

/-- A snapshot or a dictionary that is activated is deactivated, and no bridge calls back. -/
def SnapshotDeactivated (s : SubscriptionImpl) (l : Label) : Prop :=
  s.mState = .activated ∧ s.mSubscMsgType.isSnapshot ∧ ¬ (s.mSubscBridge ∧ l.env.callsBack) ∧
    l.event.isDeactivate

instance (s : SubscriptionImpl) (l : Label) : Decidable (SnapshotDeactivated s l) :=
  inferInstanceAs (Decidable (_ ∧ _ ∧ _ ∧ _))

structure Waits (s : SubscriptionImpl) : Prop where
  callback : owed s = [] ∨ ∃ p, owed s = [p] ∧ s.mState.awaits ∧
    (p.isCleaned → s.mState = .deallocating)
  bridge : s.mSubscBridge → s.mState = .activated
  initialised : s.initialised = s.mState.isOpen

def balance (s : SubscriptionImpl) : Int :=
  s.mQueue.mNumberOpenObjects + decremented s - s.initialised.toNat - s.requestObjects

structure Keeps (s s' : SubscriptionImpl) : Prop where
  waits : Waits s'
  balance_eq : balance s' = balance s

variable {env : Environment} {s s' s'' : SubscriptionImpl} {l : Label}

theorem Keeps.trans (h : Keeps s s') (h' : Keeps s' s'') : Keeps s s'' :=
  ⟨h'.waits, h'.balance_eq.trans h.balance_eq⟩

section

variable (h : Waits s)

include h

theorem Waits.keeps : Keeps s s := ⟨h, rfl⟩

theorem Waits.keeps_of_eq (s' : SubscriptionImpl) (hstate : s'.mState = s.mState)
    (hinitialised : s'.initialised = s.initialised) (hbridge : s'.mSubscBridge = s.mSubscBridge)
    (hqueue : s'.mQueue.mNumberOpenObjects - s'.requestObjects =
      s.mQueue.mNumberOpenObjects - s.requestObjects) (howed : owed s' = owed s) : Keeps s s' where
  waits :=
    { callback := by
        rw [howed, hstate]; exact h.callback
      bridge := by
        rw [hbridge, hstate]; exact h.bridge
      initialised := by
        rw [hinitialised, hstate]; exact h.initialised }
  balance_eq := by
    unfold balance decremented
    rw [howed, hinitialised]
    omega

variable {p : Part} {state : State} {destroys : Bool}

omit h in
theorem owed_erase_eq (hcallback : p.isCallback = false) :
    owed { s with pending := s.pending.erase p } = owed s := by
  show (s.pending.erase p).filter _ = s.pending.filter _
  rw [← erase_filter, erase_of_not_mem]
  intro hmem
  have htrue := (List.mem_filter.1 hmem).2
  rw [hcallback] at htrue
  exact Bool.false_ne_true htrue

theorem Waits.erase (hcallback : p.isCallback = false) :
    Keeps s { s with pending := s.pending.erase p } :=
  h.keeps_of_eq _ rfl rfl rfl rfl (owed_erase_eq hcallback)

theorem Waits.owed_erase (hp : p ∈ s.pending) (hcallback : p.isCallback) :
    owed s = [p] ∧ s.mState.awaits ∧ (p.isCleaned → s.mState = .deallocating) ∧
      owed { s with pending := s.pending.erase p } = [] := by
  have hmem : p ∈ owed s := List.mem_filter.2 ⟨hp, hcallback⟩
  rcases h.callback with hnil | ⟨p', howed, hawaits, hcleaned⟩
  · rw [hnil] at hmem; exact absurd hmem not_mem_nil
  rw [howed, mem_singleton] at hmem
  obtain rfl := hmem
  refine ⟨howed, hawaits, hcleaned, ?_⟩
  show (s.pending.erase p).filter _ = []
  rw [← erase_filter]
  show (owed s).erase p = []
  rw [howed, erase_cons_head]

theorem Waits.owed_nil (hstate : s.mState.awaits = false) : owed s = [] := by
  rcases h.callback with hnil | ⟨p, -, hawaits, -⟩
  · exact hnil
  · rw [hstate] at hawaits; cases hawaits

theorem Waits.no_bridge (hstate : s.mState ≠ .activated) : s.mSubscBridge = false :=
  Bool.eq_false_iff.2 fun hbridge => hstate (h.bridge hbridge)

theorem Waits.move (hopen : s.mState.isOpen = state.isOpen)
    (howed : owed s = [] ∨ s.mState ≠ .deallocating ∧ state.awaits)
    (hbridge : s.mSubscBridge = false) : Keeps s (setState s state) := by
  have hinitialised : (setState s state).initialised = s.initialised := by
    have hsame := h.initialised.trans hopen
    cases state <;> first | rfl | exact hsame.symm
  refine ⟨⟨?_, ?_, ?_⟩, ?_⟩
  · rcases howed with hnil | ⟨hstate, hawaits⟩
    · exact .inl hnil
    · refine h.callback.imp id ?_
      rintro ⟨p, howed, -, hcleaned⟩
      exact ⟨p, howed, hawaits, fun hp => absurd (hcleaned hp) hstate⟩
  · intro htrue
    rw [setState_mSubscBridge, hbridge] at htrue
    cases htrue
  · rw [hinitialised, h.initialised, hopen]; rfl
  · rw [balance, hinitialised]; rfl

theorem Waits.take (hp : p ∈ s.pending) (hcallback : p.isCallback) :
    Waits { s with pending := s.pending.erase p } ∧
      balance { s with pending := s.pending.erase p } = balance s - p.isDecremented.toNat := by
  obtain ⟨howed, -, -, hnil⟩ := h.owed_erase hp hcallback
  refine ⟨⟨.inl hnil, h.bridge, h.initialised⟩, ?_⟩
  unfold balance decremented
  rw [howed, hnil, countP_cons]
  cases p.isDecremented with
  | false => simp
  | true => simp; omega

/-! ## Each function -/

omit h in
theorem openInboxes_sub (s : SubscriptionImpl) (n : Nat) :
    (openInboxes s n).mQueue.mNumberOpenObjects - (openInboxes s n).requestObjects =
      s.mQueue.mNumberOpenObjects - s.requestObjects := by
  show s.mQueue.mNumberOpenObjects + n - ((s.requestObjects + n : Nat) : Int) = _
  omega

theorem Waits.setup (a : SetUp) : Keeps s (setup s a).2 := by
  unfold Lifecycle.setup
  split
  case isFalse => exact h.keeps
  case isTrue hidle =>
  have hstate : s.mState.awaits = false ∧ s.mState.isOpen = false ∧ s.mState ≠ .activated := by
    rcases hidle with heq | heq <;> rw [heq] <;> decide
  obtain ⟨hawaits, hopen, hactivated⟩ := hstate
  unfold setupBasic
  split
  · exact h.keeps_of_eq _ rfl rfl rfl rfl rfl
  · exact h.keeps_of_eq _ rfl rfl rfl rfl rfl
  rename_i subscMsgType _ _
  split
  · exact h.keeps_of_eq _ rfl rfl rfl (openInboxes_sub _ _) rfl
  have hregistered := h.keeps_of_eq { openInboxes (register { s with
      mType := a.mType
      mTransport := some a.transport
      mSubscMsgType := subscMsgType }) 2 with
      succeeded := s.succeeded ++ [s.setUps] } rfl rfl rfl (openInboxes_sub _ _) rfl
  refine hregistered.trans (hregistered.waits.move hopen (.inl ?_) ?_)
  · exact h.owed_nil hawaits
  · exact h.no_bridge hactivated

theorem Waits.complete (env : Environment) : Keeps s (completeMarketDataInitialisation env s) := by
  unfold completeMarketDataInitialisation
  dsimp only
  split
  case isFalse => exact h.keeps_of_eq _ rfl rfl rfl rfl rfl
  case isTrue hactivating =>
  have hstate : s.mState = .activating := hactivating.1
  have howed : owed s = [] := h.owed_nil (by rw [hstate]; rfl)
  have hinitialised : s.initialised = false := by rw [h.initialised, hstate]; rfl
  unfold initializeSubscription
  refine ⟨⟨.inl ?_, fun _ => rfl, rfl⟩, ?_⟩
  · dsimp only
    split <;> exact howed
  · unfold balance decremented
    rw [hinitialised]
    split <;> simp [owed, setState, Queue.incrementObjectCount] <;> omega

theorem Waits.activateInternal {result : Status × SubscriptionImpl}
    (hrun : activateInternal env s = some result) : Keeps s result.2 := by
  unfold Lifecycle.activateInternal at hrun
  split at hrun
  · cases hrun; exact h.keeps
  · cases hrun; exact h.keeps
  · cases hrun
    exact (h.complete env).trans ((h.complete env).waits.keeps_of_eq _ rfl rfl rfl rfl rfl)
  · split at hrun
    · contradiction
    · cases hrun; exact h.keeps
  · split at hrun
    · contradiction
    · cases hrun; exact h.keeps_of_eq _ rfl rfl rfl rfl rfl

theorem Waits.activate {result : Status × SubscriptionImpl}
    (hrun : activate env s = some result) : Keeps s result.2 := by
  unfold Lifecycle.activate at hrun
  split at hrun
  · cases hrun; exact h.keeps
  split at hrun
  all_goals rename_i hstate
  case h_1 | h_2 =>
    have hmove : Keeps s (setState s .activating) := by
      refine h.move (by rw [hstate]; rfl) (.inl (h.owed_nil (by rw [hstate]; rfl))) ?_
      exact h.no_bridge (by rw [hstate]; decide)
    exact hmove.trans (hmove.waits.activateInternal hrun)
  case h_6 =>
    cases hrun
    refine h.move (by rw [hstate]; rfl) (.inr ⟨by rw [hstate]; decide, rfl⟩) ?_
    exact h.no_bridge (by rw [hstate]; decide)
  all_goals
    cases hrun
    exact h.keeps

theorem Waits.completeBasic (status : Status) :
    Keeps s (completeBasicInitialisation s status).2 := by
  unfold completeBasicInitialisation
  split
  case isFalse => exact h.keeps
  case isTrue hstate =>
  split
  case isFalse => exact h.keeps
  have howed : owed s = [] := h.owed_nil (by rw [hstate]; rfl)
  have hinitialised : s.initialised = false := by rw [h.initialised, hstate]; rfl
  refine ⟨⟨.inl howed, fun _ => rfl, rfl⟩, ?_⟩
  unfold balance decremented
  rw [hinitialised]
  simp [owed, setState, Queue.incrementObjectCount]
  omega

theorem Waits.createBasic (a : CreateBasic) (wildCard : Bool) :
    Keeps s (createBasic s a wildCard).2 := by
  unfold Lifecycle.createBasic
  split
  case isFalse => exact h.keeps
  case isTrue hidle =>
  split
  case isFalse => exact h.keeps
  have hstate : s.mState.awaits = false ∧ s.mState.isOpen = false ∧ s.mState ≠ .activated := by
    rcases hidle with heq | heq <;> rw [heq] <;> decide
  obtain ⟨hawaits, hopen, hactivated⟩ := hstate
  dsimp only
  generalize hregister : (if wildCard then
    { s with mTransport := some a.transport, mType := SubscriptionType.basic } else
    register { s with mTransport := some a.transport, mType := SubscriptionType.basic }) = s₁
  have hregistered : Keeps s s₁ := by
    rw [← hregister]
    split <;> exact h.keeps_of_eq _ rfl rfl rfl rfl rfl
  have hmState : s₁.mState = s.mState := by
    rw [← hregister]
    split <;> rfl
  rw [← hmState] at hawaits hopen hactivated
  have hmove : Keeps s₁ (setState s₁ .activating) :=
    hregistered.waits.move hopen (.inl (hregistered.waits.owed_nil hawaits))
      (hregistered.waits.no_bridge hactivated)
  have hcomplete := hmove.waits.completeBasic a.status
  refine (hregistered.trans hmove).trans (hcomplete.trans ?_)
  split
  · exact hcomplete.waits.keeps_of_eq _ rfl rfl rfl rfl rfl
  · exact hcomplete.waits.keeps

omit h in
theorem Waits.close (howed : owed s = []) (hinitialised : s.initialised)
    (hbridge : s.mSubscBridge = false)
    (hclosed : state = .deactivated ∨ state = .destroyed ∨ state = .deallocated) :
    Waits (setState s state) ∧ balance (setState s state) = balance s + 1 := by
  have hfalse : (setState s state).initialised = false ∧ state.isOpen = false := by
    rcases hclosed with rfl | rfl | rfl <;> exact ⟨rfl, rfl⟩
  refine ⟨⟨.inl howed, fun htrue => ?_, hfalse.1.trans hfalse.2.symm⟩, ?_⟩
  · rw [setState_mSubscBridge, hbridge] at htrue; cases htrue
  · unfold balance
    rw [hfalse.1, hinitialised]
    show s.mQueue.mNumberOpenObjects + decremented s - 0 - s.requestObjects =
      s.mQueue.mNumberOpenObjects + decremented s - 1 - s.requestObjects + 1
    omega

theorem Waits.onSubscriptionDestroyed (howed : owed s = []) (hawaits : s.mState.awaits)
    (hrun : onSubscriptionDestroyed env s = some s') : Waits s' ∧ balance s' = balance s + 1 := by
  have hbridge : s.mSubscBridge = false :=
    h.no_bridge fun heq => by rw [heq] at hawaits; exact Bool.false_ne_true hawaits
  have hinitialised : s.initialised := by
    rw [h.initialised]
    cases hstate : s.mState <;> rw [hstate] at hawaits <;>
      first | rfl | cases hawaits
  unfold Lifecycle.onSubscriptionDestroyed at hrun
  split at hrun
  case h_1 => cases hrun; exact Waits.close howed hinitialised hbridge (.inl rfl)
  case h_2 hstate =>
    cases hrun
    have hcons :
        owed { cleanup s with pending := .onDestroyDeallocate s.mUserCallbacks :: s.pending } =
        [.onDestroyDeallocate s.mUserCallbacks] := by
      exact congrArg _ howed
    refine ⟨⟨.inr ⟨_, hcons, by rw [show (cleanup s).mState = s.mState from rfl, hstate]; rfl,
      fun _ => hstate⟩, h.bridge,
      h.initialised⟩, ?_⟩
    unfold balance decremented
    rw [hcons, howed]
    show s.mQueue.mNumberOpenObjects + 1 - s.initialised.toNat - s.requestObjects =
      s.mQueue.mNumberOpenObjects + 0 - s.initialised.toNat - s.requestObjects + 1
    omega
  case h_3 =>
    cases hrun
    obtain ⟨hwaits, hbalance⟩ :=
      Waits.close (s := cleanup s) howed hinitialised hbridge (.inr (.inl rfl))
    have hkeeps := hwaits.keeps_of_eq { setState (cleanup s) .destroyed with
      pending := .onDestroy s.mUserCallbacks :: s.pending } rfl rfl rfl rfl rfl
    exact ⟨hkeeps.waits, hkeeps.balance_eq.trans hbalance⟩
  case h_4 =>
    obtain ⟨result, hactivate, rfl⟩ := map_eq_some_iff.1 hrun
    obtain ⟨hwaits, hbalance⟩ := Waits.close howed hinitialised hbridge (.inl rfl)
    have hkeeps := hwaits.activate hactivate
    exact ⟨hkeeps.waits, hkeeps.balance_eq.trans hbalance⟩
  case h_5 =>
    cases hstate : s.mState <;> rw [hstate] at hawaits <;>
      first | exact absurd hawaits Bool.false_ne_true | exact absurd hstate (by assumption)

omit h in
theorem deactivateInternal_cases
    (hrun : deactivateInternal env (setState s .deactivating) = some s') :
    (s.mSubscBridge = false ∧ s' = setState s .deactivating) ∨
    ((s.mSubscBridge ∧ env.callsBack) ∧ s' = { setState s .deactivated with
      mQueue := s.mQueue.decrementObjectCount
      mSubscBridge := false }) ∨
    ((s.mSubscBridge ∧ ¬ env.callsBack) ∧ s' = { setState s .deactivating with
      mSubscBridge := false
      pending := .bridgeDestroyed :: s.pending }) := by
  unfold deactivateInternal at hrun
  split at hrun
  case isFalse hbridge => cases hrun; exact .inl ⟨Bool.eq_false_iff.2 hbridge, rfl⟩
  case isTrue hbridge =>
  split at hrun
  case isTrue hnow =>
    obtain ⟨s₁, hcallback, hrun⟩ := bind_eq_some_iff.1 hrun
    cases hcallback
    cases hrun
    exact .inr (.inl ⟨⟨hbridge, hnow⟩, rfl⟩)
  case isFalse hlater => cases hrun; exact .inr (.inr ⟨⟨hbridge, hlater⟩, rfl⟩)

theorem Waits.deactivateInternal (hactivated : s.mState = .activated)
    (hrun : deactivateInternal env (setState s .deactivating) = some s') : Keeps s s' := by
  have howed : owed s = [] := h.owed_nil (by rw [hactivated]; rfl)
  have hinitialised : s.initialised := by rw [h.initialised, hactivated]; rfl
  rcases deactivateInternal_cases hrun with ⟨hbridge, rfl⟩ | ⟨-, rfl⟩ | ⟨-, rfl⟩
  · exact h.move (by rw [hactivated]; rfl) (.inl howed) hbridge
  · refine ⟨⟨.inl howed, nofun, rfl⟩, ?_⟩
    unfold balance
    rw [hinitialised]
    show s.mQueue.mNumberOpenObjects - 1 + decremented s - 0 - s.requestObjects =
      s.mQueue.mNumberOpenObjects + decremented s - 1 - s.requestObjects
    omega
  · have hcons : List.filter (·.isCallback) (.bridgeDestroyed :: s.pending) =
        [.bridgeDestroyed] := by
      exact congrArg _ howed
    refine ⟨⟨.inr ⟨_, hcons, rfl, nofun⟩,
      nofun, hinitialised⟩, ?_⟩
    rfl

omit h in
theorem removeAction_some {throttle : Option Nat} (hrun : removeAction s throttle = some s') :
    ∃ t action, throttle = some t ∧ s.mAction = some action ∧
      s' = { s with actions := s.actions.erase action } := by
  unfold removeAction at hrun
  split at hrun
  case h_1 t action haction => exact ⟨t, action, rfl, haction, (some.inj hrun).symm⟩
  case h_2 => contradiction

theorem Waits.deactivate {basic : Bool} {throttle : Option Nat}
    {result : Status × SubscriptionImpl}
    (hsnapshot : basic = false → s.mState = .activated → s.mSubscMsgType.isSnapshot →
      s.mSubscBridge ∧ env.callsBack)
    (hrun : deactivate env s basic throttle = some result) : Keeps s result.2 := by
  unfold Lifecycle.deactivate at hrun
  split at hrun
  case isTrue =>
    split at hrun
    case h_1 hactivated =>
      obtain ⟨s₁, hinternal, hrun⟩ := bind_eq_some_iff.1 hrun
      cases hrun
      exact h.deactivateInternal hactivated hinternal
    all_goals
      cases hrun
      exact h.keeps
  case isFalse hbasic =>
    split at hrun
    case h_1 hactivating =>
      obtain ⟨s₁, hremove, hrun⟩ := bind_eq_some_iff.1 hrun
      cases hrun
      obtain ⟨t, action, -, -, rfl⟩ := removeAction_some hremove
      have hremoved := h.keeps_of_eq { s with
        actions := s.actions.erase action
        mAction := none } rfl rfl rfl rfl rfl
      refine hremoved.trans (hremoved.waits.move ?_ (.inl ?_) ?_)
      · show s.mState.isOpen = _
        rw [hactivating]
        rfl
      · exact h.owed_nil (by rw [hactivating]; rfl)
      · exact h.no_bridge (by rw [hactivating]; decide)
    case h_2 hreactivating =>
      cases hrun
      refine h.move (by rw [hreactivating]; rfl) (.inr ⟨by rw [hreactivating]; decide, rfl⟩) ?_
      exact h.no_bridge (by rw [hreactivating]; decide)
    case h_3 hactivated =>
      obtain ⟨s₁, hinternal, hrun⟩ := bind_eq_some_iff.1 hrun
      cases hrun
      have hkeeps := h.deactivateInternal hactivated hinternal
      have hnow := hsnapshot (Bool.eq_false_iff.2 hbasic) hactivated
      rcases deactivateInternal_cases hinternal with ⟨hbridge, rfl⟩ | ⟨-, rfl⟩ | ⟨⟨-, hlater⟩, rfl⟩
      all_goals
        split
      · rename_i hsnap
        exact absurd (hnow hsnap).1 (by rw [hbridge]; decide)
      · exact hkeeps
      · exact hkeeps
      · exact hkeeps
      · rename_i hsnap
        exact absurd (hnow hsnap).2 hlater
      · exact hkeeps
    all_goals
      cases hrun
      exact h.keeps

omit h in
theorem deactivateBegin_some (hrun : deactivateBegin s destroys = some s') :
    ∃ basic throttle, basic = decide (s.mType = .basic) ∧
      throttle = (if basic then none else s.mTransport) ∧ throttle.any (isLocked s) = false ∧
      s' = { s with pending := .deactivate basic throttle destroys :: s.pending } := by
  obtain ⟨hlocked, hrun⟩ := ite_none_left_eq_some.1 hrun
  exact ⟨_, _, rfl, rfl, Bool.eq_false_iff.2 hlocked, (some.inj hrun).symm⟩

theorem Waits.deactivateBegin (hrun : deactivateBegin s destroys = some s') : Keeps s s' := by
  obtain ⟨basic, throttle, -, -, -, rfl⟩ := deactivateBegin_some hrun
  exact h.keeps_of_eq _ rfl rfl rfl rfl rfl

theorem Waits.destroy : Keeps s (destroy s).2 := by
  unfold Lifecycle.destroy
  split
  all_goals rename_i hstate
  case h_1 | h_2 =>
    have hmove : Keeps s (setState (cleanup s) .destroyed) := by
      have hcleaned := h.keeps_of_eq (cleanup s) rfl rfl rfl rfl rfl
      refine hcleaned.trans (hcleaned.waits.move ?_ (.inl ?_) ?_)
      · show s.mState.isOpen = _
        rw [hstate]
        rfl
      · exact h.owed_nil (by rw [hstate]; rfl)
      · exact h.no_bridge (by rw [hstate]; decide)
    exact hmove.trans (hmove.waits.keeps_of_eq _ rfl rfl rfl rfl rfl)
  case h_3 =>
    refine h.move (by rw [hstate]; rfl) (.inr ⟨by rw [hstate]; decide, rfl⟩) ?_
    exact h.no_bridge (by rw [hstate]; decide)
  all_goals exact h.keeps

theorem Waits.deallocate : Keeps s (deallocate s).2 := by
  unfold Lifecycle.deallocate
  split
  all_goals rename_i hstate
  case h_1 =>
    refine h.move (by rw [hstate]; rfl) (.inr ⟨by rw [hstate]; decide, rfl⟩) ?_
    exact h.no_bridge (by rw [hstate]; decide)
  case h_2 | h_3 =>
    refine h.move (by rw [hstate]; rfl) (.inl (h.owed_nil (by rw [hstate]; rfl))) ?_
    exact h.no_bridge (by rw [hstate]; decide)
  case h_4 => exact h.keeps

/-! ## A step -/

theorem Waits.owe (howed : owed s = []) (hcallback : p.isCallback) (hawaits : s.mState.awaits)
    (hcleaned : p.isCleaned → s.mState = .deallocating) :
    Waits { s with pending := p :: s.pending } ∧
      balance { s with pending := p :: s.pending } = balance s + p.isDecremented.toNat := by
  have hcons : owed { s with pending := p :: s.pending } = [p] := by
    show List.filter _ (p :: s.pending) = _
    rw [filter_cons_of_pos hcallback]
    exact congrArg _ howed
  refine ⟨⟨.inr ⟨p, hcons, hawaits, hcleaned⟩, h.bridge, h.initialised⟩, ?_⟩
  unfold balance decremented
  rw [hcons, howed, countP_cons]
  cases p.isDecremented with
  | false => simp
  | true => simp; omega

theorem Waits.run (hp : p ∈ s.pending)
    (hsnapshot : ∀ throttle destroys, p = .deactivate false throttle destroys →
      s.mState = .activated → s.mSubscMsgType.isSnapshot → s.mSubscBridge ∧ env.callsBack)
    (hrun : p.run env { s with pending := s.pending.erase p } = some s') : Keeps s s' := by
  cases p with
  | deactivate basic throttle destroys =>
    have herase := h.erase (p := .deactivate basic throttle destroys) rfl
    obtain ⟨result, hdeactivate, hrun⟩ := bind_eq_some_iff.1 hrun
    cases hrun
    have hkeeps := herase.waits.deactivate (fun hbasic => by
      subst hbasic; exact hsnapshot throttle destroys rfl) hdeactivate
    refine herase.trans (hkeeps.trans ?_)
    split <;> exact hkeeps.waits.keeps_of_eq _ rfl rfl rfl rfl rfl
  | destroy =>
    cases hrun
    have herase := h.erase (p := .destroy) rfl
    exact herase.trans herase.waits.destroy
  | onCreate | unlock => cases hrun; exact h.erase rfl
  | onDestroy setUp =>
    cases hrun
    have herase := h.erase (p := .onDestroy setUp) rfl
    exact herase.trans (herase.waits.keeps_of_eq _ rfl rfl rfl rfl rfl)
  | bridgeDestroyed =>
    cases hrun
    obtain ⟨-, hawaits, -, hnil⟩ := h.owed_erase hp rfl
    obtain ⟨herase, hbalance⟩ := h.take hp rfl
    obtain ⟨howe, hbalance'⟩ := herase.owe (p := .onSubscriptionDestroyed) hnil rfl hawaits
      nofun
    refine ⟨⟨howe.callback, howe.bridge, howe.initialised⟩, ?_⟩
    have hafter : s.mQueue.mNumberOpenObjects +
        decremented { s with
          pending := .onSubscriptionDestroyed :: s.pending.erase .bridgeDestroyed } -
        s.initialised.toNat - s.requestObjects =
          balance { s with pending := s.pending.erase .bridgeDestroyed } + 1 :=
      hbalance'
    have hbefore : balance { s with pending := s.pending.erase .bridgeDestroyed } = balance s - 0 :=
      hbalance
    show s.mQueue.mNumberOpenObjects - 1 +
      decremented { s with
        pending := .onSubscriptionDestroyed :: s.pending.erase .bridgeDestroyed } -
      s.initialised.toNat - s.requestObjects = balance s
    omega
  | onSubscriptionDestroyed =>
    obtain ⟨-, hawaits, -, hnil⟩ := h.owed_erase hp rfl
    obtain ⟨herase, hbalance⟩ := h.take hp rfl
    obtain ⟨hwaits, hbalance'⟩ := herase.onSubscriptionDestroyed hnil hawaits hrun
    refine ⟨hwaits, hbalance'.trans ?_⟩
    rw [hbalance]
    exact Int.sub_add_cancel _ _
  | onDestroyDeallocate setUp =>
    cases hrun
    obtain ⟨-, hawaits, hcleaned, hnil⟩ := h.owed_erase hp rfl
    obtain ⟨herase, hbalance⟩ := h.take hp rfl
    obtain ⟨howe, hbalance'⟩ := herase.owe (p := .deallocate) hnil rfl hawaits hcleaned
    refine ⟨⟨howe.callback, howe.bridge, howe.initialised⟩, ?_⟩
    refine hbalance'.trans ?_
    rw [hbalance]
    exact Int.sub_add_cancel _ _
  | deallocate =>
    cases hrun
    obtain ⟨-, hawaits, hcleaned, hnil⟩ := h.owed_erase hp rfl
    obtain ⟨herase, hbalance⟩ := h.take hp rfl
    have hstate : s.mState = .deallocating := hcleaned rfl
    have hinitialised : s.initialised := by rw [h.initialised, hstate]; rfl
    have hbridge : s.mSubscBridge = false := h.no_bridge (by rw [hstate]; decide)
    obtain ⟨hwaits, hbalance'⟩ :=
      Waits.close (s := { s with pending := s.pending.erase .deallocate })
      hnil hinitialised hbridge (.inr (.inr rfl))
    refine ⟨hwaits, hbalance'.trans ?_⟩
    rw [hbalance]
    exact Int.sub_add_cancel _ _

theorem Waits.step (hsnapshot : ¬ SnapshotDeactivated s l)
    (hstep : step s l = some s') : Keeps s s' := by
  unfold Lifecycle.step at hstep
  split at hstep
  case h_8 throttle heq =>
    split at hstep
    case isFalse => contradiction
    have haction := h.keeps_of_eq { s with actions := s.actions.erase throttle }
      rfl rfl rfl rfl rfl
    unfold access at hstep
    split at hstep
    · cases hstep; exact haction.trans (haction.waits.keeps_of_eq _ rfl rfl rfl rfl rfl)
    · cases hstep
      have hcomplete := haction.trans (haction.waits.complete l.env)
      exact hcomplete.trans (hcomplete.waits.keeps_of_eq _ rfl rfl rfl rfl rfl)
  case h_9 p heq =>
    split at hstep
    case isFalse => contradiction
    case isTrue hp =>
    unfold access at hstep
    split at hstep
    case isTrue hfreed =>
      cases hstep
      cases hcallback : p.isCallback with
      | true =>
        have hawaits := (h.owed_erase hp hcallback).2.1
        rw [show s.mState = .deallocated from hfreed] at hawaits
        cases hawaits
      | false =>
        have herase := h.erase hcallback
        exact herase.trans (herase.waits.keeps_of_eq _ rfl rfl rfl rfl rfl)
    case isFalse =>
    refine h.run hp (fun throttle destroys hpart hactivated hsnap => ?_) hstep
    by_contra hlater
    refine hsnapshot ⟨hactivated, hsnap, hlater, Event.isDeactivate_iff.2 ?_⟩
    exact ⟨throttle, destroys, by rw [heq, hpart]⟩
  all_goals
    unfold call at hstep
    split at hstep
    · contradiction
  · cases hstep; exact h.setup _
  · cases hstep; exact h.createBasic _ _
  · cases hstep
    have hregister := h.keeps_of_eq (register s) rfl rfl rfl rfl rfl
    exact hregister.trans (hregister.waits.createBasic _ _)
  · obtain ⟨result, hactivate, rfl⟩ := map_eq_some_iff.1 hstep
    exact h.activate hactivate
  · exact h.deactivateBegin hstep
  · exact h.deactivateBegin hstep
  · cases hstep; exact h.deallocate

end

end Mama.Lifecycle

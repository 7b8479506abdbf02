import OpenMama.Mama.SubscriptionCallbacks

/-!
# Activations that fail

`mamaSubscription_activate` sets the state to ACTIVATING before the steps that may fail, and
nothing sets it back: what is left looks like an activation that waits for the throttle, which
holds no action of it.  `completeMarketDataInitialisation` invokes `onCreate` whether or not the
transport takes the subscription.
-/

namespace Mama.Lifecycle

open Lib List Option

/-! ## What is promised -/

/-- `onCreate` is invoked at the start of the part, or was before. -/
def Part.announces : Part → Bool
  | .onCreate _ | .unlock => true
  | _ => false

def announced (s : SubscriptionImpl) : Nat := s.pending.countP (·.announces)

/-- What a step begins with: a part, or an action, is taken off. -/
def begun (s : SubscriptionImpl) (l : Label) : SubscriptionImpl :=
  match l.event with
  | .part p => { s with pending := s.pending.erase p }
  | .createAction throttle => { s with actions := s.actions.erase throttle }
  | _ => s

/-- The step activates the subscription anew, or after a deactivation. -/
def attempt (s : SubscriptionImpl) (l : Label) : Option SubscriptionImpl :=
  if s.mType = .basic then none
  else match l.event with
  | .activate => if s.mState = .setup ∨ s.mState = .deactivated then some s else none
  | .part .onSubscriptionDestroyed =>
    if s.mState = .reactivating then some (setState (begun s l) .deactivated) else none
  | _ => none

/-- The subscription can be activated again, or destroyed, and the throttle holds nothing. -/
structure Recovers (s : SubscriptionImpl) : Prop where
  retry : ∀ throttle, s.mTransport = some throttle → isLocked s throttle = false →
    ∃ s', activate {} s = some (.ok, s') ∧ s'.actions = [throttle]
  destroy : ∀ env, ∃ result, deactivate env s false s.mTransport = some result ∧
    (destroy result.2).1 = .ok
  actions : s.actions = []

/-- `onCreate` is invoked just if the subscription becomes ACTIVATED. -/
def OnCreate (s s' : SubscriptionImpl) : Prop :=
  announced s' = announced s + (decide (s.mState ≠ .activated ∧ s'.mState = .activated)).toNat

structure NoTrace (s : SubscriptionImpl) (l : Label) (s' : SubscriptionImpl) : Prop where
  activate : ∀ s₀ ∈ attempt s l, ∀ result, activate l.env s₀ = some result → result.1 ≠ .ok →
    Recovers result.2
  createAction : ((∃ throttle, l.event = .createAction throttle) ∨
    attempt s l ≠ none ∧ l.env.dispatch = .immediate) → s'.mState ≠ .activated → Recovers s'
  onCreate : OnCreate (begun s l) s'

/-- The transport takes the subscription, if it is given it. -/
def Completes (s : SubscriptionImpl) (env : Environment) : Prop :=
  s.mSubscMsgType.isSnapshot || env.added

/-- There is a transport, and its throttle takes the action, or runs it at once to the end. -/
def Taken (s : SubscriptionImpl) (env : Environment) : Prop :=
  s.mTransport ≠ none ∧
    (env.dispatch = .queued ∨ env.dispatch = .immediate ∧ Completes s env)

def Succeeds (s : SubscriptionImpl) (l : Label) : Prop :=
  match l.event with
  | .createAction _ => Completes s l.env
  | _ => ∀ s₀ ∈ attempt s l, Taken s₀ l.env

/-! ## The invariant -/

def Waiting (s : SubscriptionImpl) : Prop := s.mState = .activating ∧ s.mType ≠ .basic

/-- The throttle holds the action of a subscription that is ACTIVATING, and no other. -/
structure Ordered (s : SubscriptionImpl) : Prop where
  waiting : Waiting s → ∃ throttle, s.actions = [throttle] ∧ s.mAction = some throttle
  quiet : ¬ Waiting s → s.actions = [] ∧ s.mAction = none
  freed : ∀ p ∈ s.pending, p.isCleaned → s.mState = .deallocating ∨ s.mState = .deallocated

/-- A step that does not activate. -/
structure Calm (s s' : SubscriptionImpl) : Prop where
  actions : s'.actions = s.actions ∧ s'.mAction = s.mAction
  waiting : Waiting s' ↔ Waiting s
  freed : s.mState = .deallocating ∨ s.mState = .deallocated →
    s'.mState = .deallocating ∨ s'.mState = .deallocated
  cleaned : ∀ p ∈ s'.pending, p.isCleaned →
    p ∈ s.pending ∨ s'.mState = .deallocating ∨ s'.mState = .deallocated
  onCreate : OnCreate s s'

variable {env : Environment} {s s' : SubscriptionImpl} {l : Label}

theorem Calm.refl (s : SubscriptionImpl) : Calm s s :=
  ⟨⟨rfl, rfl⟩, Iff.rfl, id, fun _ hp _ => .inl hp, by simp [OnCreate]⟩

theorem Calm.ordered (h : Calm s s') (hs : Ordered s) : Ordered s' where
  waiting hwaiting := by
    rw [h.actions.1, h.actions.2]; exact hs.waiting (h.waiting.1 hwaiting)
  quiet hquiet := by
    rw [h.actions.1, h.actions.2]; exact hs.quiet fun hwaiting => hquiet (h.waiting.2 hwaiting)
  freed p hp hcleaned := by
    rcases h.cleaned p hp hcleaned with hold | hnow
    · exact h.freed (hs.freed p hold hcleaned)
    · exact hnow

/-! ## What does not activate -/

theorem setup_calm (s : SubscriptionImpl) (a : SetUp) : Calm s (setup s a).2 := by
  unfold setup setupBasic
  split
  case isFalse => exact Calm.refl s
  case isTrue hstate =>
    split
    · constructor <;> rcases hstate with h | h <;> simp_all [OnCreate, Waiting, announced]
    · constructor <;> rcases hstate with h | h <;> simp_all [OnCreate, Waiting, announced]
    · dsimp only
      split <;> constructor <;> rcases hstate with h | h <;>
        simp_all [OnCreate, Waiting, announced, register, openInboxes, setState]

theorem createBasic_calm (s : SubscriptionImpl) (a : CreateBasic) (wildCard : Bool) :
    Calm s (createBasic s a wildCard).2 := by
  unfold createBasic completeBasicInitialisation
  split
  case isFalse => exact Calm.refl s
  case isTrue hstate =>
    split
    · cases wildCard <;> by_cases hok : a.status = .ok <;> constructor <;>
        rcases hstate with h | h <;>
        simp_all [OnCreate, Waiting, announced, register, setState, Part.announces, Part.isCleaned]
    · exact Calm.refl s

theorem destroy_calm (s : SubscriptionImpl) : Calm s (destroy s).2 := by
  unfold destroy
  split <;> constructor <;>
    simp_all [OnCreate, Waiting, announced, setState, cleanup, Part.announces, Part.isCleaned]

theorem deallocate_calm (s : SubscriptionImpl) : Calm s (deallocate s).2 := by
  unfold deallocate
  split <;> constructor <;> simp_all [OnCreate, Waiting, announced, setState, deallocateImpl]

theorem deactivateBegin_calm {destroys : Bool} (hrun : deactivateBegin s destroys = some s') :
    Calm s s' := by
  obtain ⟨basic, throttle, -, -, -, rfl⟩ := deactivateBegin_some hrun
  constructor <;> simp_all [OnCreate, Waiting, announced, Part.announces, Part.isCleaned]

theorem deactivateInternal_calm (hactivated : s.mState = .activated)
    (hrun : deactivateInternal env (setState s .deactivating) = some s') : Calm s s' := by
  rcases deactivateInternal_cases hrun with ⟨-, rfl⟩ | ⟨-, rfl⟩ | ⟨-, rfl⟩ <;> constructor <;>
    simp_all [OnCreate, Waiting, announced, setState, Part.announces, Part.isCleaned]

variable {basic : Bool} {p : Part}

theorem deactivate_calm {throttle : Option Nat} {result : Status × SubscriptionImpl}
    (hquiet : s.mAction = none) (hrun : deactivate env s basic throttle = some result) :
    Calm s result.2 := by
  unfold deactivate at hrun
  split at hrun
  case isTrue =>
    split at hrun
    case h_1 hactivated =>
      obtain ⟨s₁, hinternal, hrun⟩ := bind_eq_some_iff.1 hrun
      cases hrun
      exact deactivateInternal_calm hactivated hinternal
    all_goals
      cases hrun
      exact Calm.refl s
  case isFalse =>
    split at hrun
    case h_1 => simp [removeAction, hquiet] at hrun
    case h_2 hreactivating =>
      cases hrun
      constructor <;> simp_all [OnCreate, Waiting, announced, setState]
    case h_3 hactivated =>
      obtain ⟨s₁, hinternal, hrun⟩ := bind_eq_some_iff.1 hrun
      cases hrun
      rcases deactivateInternal_cases hinternal with ⟨-, rfl⟩ | ⟨-, rfl⟩ | ⟨-, rfl⟩ <;>
        dsimp only <;>
        split <;> constructor <;>
        simp_all [OnCreate, Waiting, announced, setState, Part.announces, Part.isCleaned]
    all_goals
      cases hrun
      exact Calm.refl s

section

variable (hs : Ordered s)

include hs

/-- A `deactivate` of a subscription that waits takes its action from the throttle. -/
theorem Ordered.deactivate {throttle : Option Nat}
    {result : Status × SubscriptionImpl} (hrun : deactivate env s basic throttle = some result) :
    Ordered result.2 ∧ OnCreate s result.2 := by
  by_cases hwaiting : Waiting s
  · obtain ⟨t, hactions, haction⟩ := hs.waiting hwaiting
    unfold Lifecycle.deactivate at hrun
    rw [hwaiting.1] at hrun
    cases basic with
    | true => cases hrun; exact ⟨hs, (Calm.refl s).onCreate⟩
    | false =>
      obtain ⟨s₁, hremove, hrun⟩ := bind_eq_some_iff.1 hrun
      obtain ⟨-, action, -, haction', rfl⟩ := removeAction_some hremove
      cases haction.symm.trans haction'
      cases hrun
      refine ⟨⟨?_, ?_, ?_⟩, ?_⟩
      · simp [Waiting, setState]
      · simp [setState, hactions]
      · intro p hp hcleaned
        have := hs.freed p hp hcleaned
        simp [hwaiting.1] at this
      · simp [OnCreate, announced, setState]
  · have hcalm := deactivate_calm (hs.quiet hwaiting).2 hrun
    exact ⟨hcalm.ordered hs, hcalm.onCreate⟩

/-! ## What activates -/

omit hs in
theorem not_recovers (hstate : s.mState = .activating) (haction : s.mAction = none) :
    ¬ Recovers s := by
  intro h
  obtain ⟨result, hrun, -⟩ := h.destroy {}
  simp [deactivate, hstate, removeAction, haction] at hrun

theorem Ordered.not_cleaned (hp : p ∈ s.pending)
    (hstate : ¬ (s.mState = .deallocating ∨ s.mState = .deallocated)) : p.isCleaned = false :=
  Bool.eq_false_iff.2 fun hcleaned => hstate (hs.freed p hp hcleaned)

/-- How the initialisation ends; `onCreate` is invoked behind it in any case. -/
structure Ends (s : SubscriptionImpl) (env : Environment) (s' : SubscriptionImpl) : Prop where
  completes : Completes s env → Ordered s' ∧ OnCreate s s' ∧ s'.mState = .activated
  fails : ¬ Completes s env → s'.mState = .activating ∧ s'.mAction = none

omit hs in
theorem complete_ends (hstate : s.mState = .activating) (hactions : s.actions = [])
    (hfreed : ∀ q ∈ s.pending, q.isCleaned = false) (hannounces : p.announces) :
    Ends s env { completeMarketDataInitialisation env s with
      pending := p :: (completeMarketDataInitialisation env s).pending } := by
  have hp : p.isCleaned = false := by cases p <;> first | rfl | contradiction
  unfold completeMarketDataInitialisation initializeSubscription
  constructor
  · intro hcompletes
    rw [if_pos ⟨hstate, hcompletes⟩]
    refine ⟨⟨?_, ?_, ?_⟩, ?_, rfl⟩
    · simp [Waiting, setState]
    · dsimp only
      split <;> simp [setState, hactions]
    · dsimp only
      split <;> simp_all [setState]
    · dsimp only
      split <;> simp_all [OnCreate, announced, setState]
  · intro hcompletes
    rw [if_neg fun h => hcompletes h.2]
    exact ⟨hstate, rfl⟩

/-- An activation of a subscription that the throttle holds nothing for. -/
theorem Ordered.activate {result : Status × SubscriptionImpl}
    (hbasic : s.mType ≠ .basic) (hstate : s.mState = .setup ∨ s.mState = .deactivated)
    (hrun : activate env s = some result) :
    (Taken s env → Ordered result.2 ∧ OnCreate s result.2 ∧ result.1 = .ok ∧
      (env.dispatch = .immediate → result.2.mState = .activated)) ∧
    (¬ Taken s env → result.2.mState = .activating ∧ result.2.mAction = none ∧
      (result.1 ≠ .ok ∨ env.dispatch = .immediate)) := by
  have hquiet : s.actions = [] ∧ s.mAction = none :=
    hs.quiet fun hwaiting => by rcases hstate with h | h <;> simp [h, Waiting] at hwaiting
  have hfreed : ∀ p ∈ s.pending, p.isCleaned = false :=
    fun p hp => hs.not_cleaned hp (by rcases hstate with h | h <;> simp [h])
  have hrun : activateInternal env (setState s .activating) = some result := by
    rcases hstate with h | h <;> simpa [Lifecycle.activate, hbasic, h] using hrun
  unfold activateInternal at hrun
  split at hrun
  case h_1 htransport =>
    cases hrun
    have htaken : ¬ Taken s env := fun h => h.1 htransport
    exact ⟨fun h => absurd h htaken, fun _ => ⟨rfl, hquiet.2, .inl (by simp)⟩⟩
  case h_2 hdispatch =>
    cases hrun
    refine ⟨fun h => ?_, fun _ => ⟨rfl, hquiet.2, .inl (by simp)⟩⟩
    simp [Taken, hdispatch] at h
  case h_3 throttle htransport hdispatch =>
    cases hrun
    have htaken : Taken s env ↔ Completes s env := by
      have hsome : s.mTransport = some throttle := htransport
      simp [Taken, hdispatch, hsome]
    have hends : Ends (setState s .activating) env _ :=
      complete_ends (p := .unlock) rfl hquiet.1 hfreed rfl
    rw [htaken]
    refine ⟨fun h => ?_, fun h => ?_⟩
    · obtain ⟨hordered, hcreate, hactivated⟩ := hends.completes h
      refine ⟨hordered, ?_, rfl, fun _ => hactivated⟩
      rcases hstate with h | h <;> simpa [OnCreate, announced, setState, h] using hcreate
    · obtain ⟨hactivating, haction⟩ := hends.fails h
      exact ⟨hactivating, haction, .inr hdispatch⟩
  case h_4 throttle _ hdispatch =>
    obtain ⟨-, hrun⟩ := ite_none_left_eq_some.1 hrun
    cases hrun
    refine ⟨fun h => ?_, fun _ => ⟨rfl, hquiet.2, .inl (by simp)⟩⟩
    simp [Taken, hdispatch] at h
  case h_5 throttle htransport hdispatch =>
    obtain ⟨-, hrun⟩ := ite_none_left_eq_some.1 hrun
    cases hrun
    have hsome : s.mTransport = some throttle := htransport
    refine ⟨fun _ => ⟨⟨?_, ?_, ?_⟩, ?_, rfl, ?_⟩, fun h => ?_⟩
    · simp [setState, hquiet.1]
    · simp [Waiting, setState, hbasic]
    · simp_all [setState]
    · simp [OnCreate, announced, setState]
    · simp [hdispatch]
    · simp [Taken, hdispatch, hsome] at h

/-! ## A step -/

/-- What is to be shown of a step. -/
structure Tells (s : SubscriptionImpl) (l : Label) (s' : SubscriptionImpl) : Prop where
  ordered : Succeeds s l → Ordered s'
  noTrace : NoTrace s l s' ↔ Succeeds s l

omit hs in
theorem tells_of_calm (hattempt : attempt s l = none)
    (hevent : ∀ throttle, l.event ≠ .createAction throttle) (hordered : Ordered s')
    (hcreate : OnCreate (begun s l) s') : Tells s l s' := by
  have hsucceeds : Succeeds s l := by
    unfold Succeeds
    split
    · exact absurd ‹_› (hevent _)
    · simp [hattempt]
  refine ⟨fun _ => hordered, fun _ => hsucceeds, fun _ => ⟨?_, ?_, hcreate⟩⟩
  · simp [hattempt]
  · rintro (⟨throttle, heq⟩ | ⟨hnone, -⟩)
    · exact absurd heq (hevent throttle)
    · exact absurd hattempt hnone

omit hs in
theorem tells_of_attempt {s₀ : SubscriptionImpl} {result : Status × SubscriptionImpl}
    (hattempt : attempt s l = some s₀) (hs : Ordered s₀)
    (hevent : ∀ throttle, l.event ≠ .createAction throttle) (hbasic : s₀.mType ≠ .basic)
    (hstate : s₀.mState = .setup ∨ s₀.mState = .deactivated)
    (hcreate : OnCreate s₀ result.2 → OnCreate (begun s l) result.2)
    (hrun : activate l.env s₀ = some result) : Tells s l result.2 := by
  obtain ⟨hok, hfails⟩ := hs.activate hbasic hstate hrun
  have hsucceeds : Succeeds s l ↔ Taken s₀ l.env := by
    unfold Succeeds
    split
    · exact absurd ‹_› (hevent _)
    · simp [hattempt]
  rw [← hsucceeds] at hok hfails
  refine ⟨fun h => (hok h).1, fun hnoTrace => ?_, fun h => ?_⟩
  · by_contra h
    obtain ⟨hactivating, haction, hreason⟩ := hfails h
    refine not_recovers hactivating haction ?_
    rcases hreason with hstatus | himmediate
    · exact hnoTrace.activate s₀ hattempt result hrun hstatus
    · refine hnoTrace.createAction (.inr ⟨by simp [hattempt], himmediate⟩) ?_; simp [hactivating]
  obtain ⟨-, hannounced, hstatus, hactivated⟩ := hok h
  refine ⟨fun s₁ hs₁ result' hrun' hne => ?_, ?_, hcreate hannounced⟩
  · cases hattempt.symm.trans hs₁
    cases hrun.symm.trans hrun'
    exact absurd hstatus hne
  · rintro (⟨throttle, heq⟩ | ⟨-, himmediate⟩) hne
    · exact absurd heq (hevent throttle)
    · exact absurd (hactivated himmediate) hne

omit hs in
theorem tells_of_createAction {throttle : Nat} (hevent : l.event = .createAction throttle)
    (hends : Ends (begun s l) l.env s') : Tells s l s' := by
  have hsucceeds : Succeeds s l ↔ Completes (begun s l) l.env := by
    simp [Succeeds, Completes, begun, hevent]
  have hattempt : attempt s l = none := by simp [attempt, hevent]
  obtain ⟨hcompletes, hfails⟩ := hends
  rw [← hsucceeds] at hcompletes hfails
  refine ⟨fun h => (hcompletes h).1, fun hnoTrace => ?_, fun h => ?_⟩
  · by_contra h
    obtain ⟨hactivating, haction⟩ := hfails h
    refine not_recovers hactivating haction (hnoTrace.createAction (.inl ⟨throttle, hevent⟩) ?_)
    simp [hactivating]
  · obtain ⟨-, hannounced, hactivated⟩ := hcompletes h
    exact ⟨by simp [hattempt], fun _ hne => absurd hactivated hne, hannounced⟩

theorem Ordered.erase (p : Part) : Ordered { s with pending := s.pending.erase p } :=
  ⟨hs.waiting, hs.quiet, fun q hq => hs.freed q (mem_of_mem_erase hq)⟩

/-- A part that neither activates nor deactivates. -/
theorem run_calm (hp : p ∈ s.pending)
    (hdeactivate : ∀ basic throttle destroys, p ≠ .deactivate basic throttle destroys)
    (hreactivating : p = .onSubscriptionDestroyed → s.mState = .reactivating → s.mType = .basic)
    (hrun : p.run env { s with pending := s.pending.erase p } = some s') :
    Calm { s with pending := s.pending.erase p } s' := by
  cases p with
  | deactivate basic throttle destroys => exact absurd rfl (hdeactivate basic throttle destroys)
  | destroy => cases hrun; exact destroy_calm _
  | onCreate | unlock => cases hrun; exact Calm.refl _
  | onDestroy setUp =>
    cases hrun
    constructor <;> simp [OnCreate, Waiting, announced, invokeDestroyedCallback]
    tauto
  | bridgeDestroyed =>
    cases hrun
    constructor <;> simp_all [OnCreate, Waiting, announced, Part.announces, Part.isCleaned]
  | onSubscriptionDestroyed =>
    change onSubscriptionDestroyed env _ = some s' at hrun
    unfold onSubscriptionDestroyed at hrun
    split at hrun
    case h_4 hstate =>
      obtain ⟨result, hactivate, rfl⟩ := map_eq_some_iff.1 hrun
      cases hactivate.symm.trans (if_pos (hreactivating rfl hstate))
      constructor <;> simp_all [OnCreate, Waiting, announced, setState]
    all_goals
      cases hrun
      constructor <;>
        simp_all [OnCreate, Waiting, announced, setState, cleanup, Part.announces, Part.isCleaned]
  | onDestroyDeallocate setUp =>
    cases hrun
    have hfreed := hs.freed _ hp rfl
    constructor <;> simp_all [OnCreate, Waiting, announced, Part.announces, invokeDestroyedCallback]
  | deallocate =>
    cases hrun
    have hfreed := hs.freed _ hp rfl
    constructor <;> rcases hfreed with h | h <;>
      simp_all [OnCreate, Waiting, announced, deallocateImpl, setState]

theorem Ordered.part (hevent : l.event = .part p) (hp : p ∈ s.pending)
    (hstep : access { s with pending := s.pending.erase p } (p.run l.env) = some s') :
    Tells s l s' := by
  have hnot : ∀ throttle, l.event ≠ .createAction throttle := by simp [hevent]
  have hbegun : begun s l = { s with pending := s.pending.erase p } := by simp [begun, hevent]
  by_cases hreactivating : p = .onSubscriptionDestroyed ∧ s.mState = .reactivating ∧
    s.mType ≠ .basic
  · obtain ⟨rfl, hstate, hbasic⟩ := hreactivating
    have hattempt : attempt s l = some (setState (begun s l) .deactivated) := by
      simp [attempt, hbasic, hevent, hstate]
    rw [access, if_neg (by simp [hstate])] at hstep
    change onSubscriptionDestroyed l.env _ = some s' at hstep
    rw [onSubscriptionDestroyed] at hstep
    simp only [hstate] at hstep
    obtain ⟨result, hactivate, rfl⟩ := map_eq_some_iff.1 hstep
    rw [hbegun] at hattempt
    have hdeactivated : Ordered (setState { s with
        pending := s.pending.erase .onSubscriptionDestroyed } .deactivated) := by
      have hquiet : ¬ Waiting s := by simp [Waiting, hstate]
      refine ⟨by simp [Waiting, setState], fun _ => hs.quiet hquiet, fun q hq hcleaned => ?_⟩
      simpa [hstate] using (hs.erase _).freed q hq hcleaned
    refine tells_of_attempt hattempt hdeactivated hnot hbasic (.inr rfl) (fun hcreate => ?_)
      hactivate
    rw [hbegun]
    simpa [OnCreate, announced, setState, hstate] using hcreate
  have hattempt : attempt s l = none := by
    unfold attempt
    split
    · rfl
    · simp only [hevent]
      split <;> simp_all
  unfold access at hstep
  split at hstep
  case isTrue =>
    cases hstep
    obtain ⟨hwaiting, hquiet, hfreed⟩ := hs.erase p
    refine tells_of_calm hattempt hnot ⟨hwaiting, hquiet, hfreed⟩ ?_
    rw [hbegun]
    exact (Calm.refl { s with pending := s.pending.erase p }).onCreate
  case isFalse =>
    by_cases hdeactivate : ∃ basic throttle destroys, p = .deactivate basic throttle destroys
    · obtain ⟨basic, throttle, destroys, rfl⟩ := hdeactivate
      obtain ⟨result, hrun, hresult⟩ := bind_eq_some_iff.1 hstep
      cases hresult
      obtain ⟨hordered, hcreate⟩ := (hs.erase _).deactivate hrun
      refine tells_of_calm hattempt hnot ?_ ?_
      · obtain ⟨hwaiting, hquiet, hfreed⟩ := hordered
        split
        · refine ⟨hwaiting, hquiet, fun q hq hcleaned => ?_⟩
          rcases mem_cons.1 hq with rfl | hq
          · contradiction
          · exact hfreed q hq hcleaned
        · exact ⟨hwaiting, hquiet, hfreed⟩
      · rw [hbegun]
        split <;> simp_all [OnCreate, announced, Part.announces]
    · have hcalm := run_calm hs hp (by simpa using hdeactivate) (by simpa using hreactivating) hstep
      refine tells_of_calm hattempt hnot (hcalm.ordered (hs.erase p)) ?_
      rw [hbegun]
      exact hcalm.onCreate

omit hs in
theorem activate_calm {result : Status × SubscriptionImpl}
    (hattempts : ¬ (s.mType ≠ .basic ∧ (s.mState = .setup ∨ s.mState = .deactivated)))
    (hrun : activate env s = some result) : Calm s result.2 := by
  unfold activate at hrun
  split at hrun
  · cases hrun; exact Calm.refl s
  split at hrun
  case h_1 | h_2 => simp_all
  case h_6 hstate =>
    cases hrun
    constructor <;> simp_all [OnCreate, Waiting, announced, setState]
  all_goals
    cases hrun
    exact Calm.refl s

theorem tells_of_call {run : SubscriptionImpl → Option SubscriptionImpl}
    (hevent : l.event ≠ .activate ∧ (∀ throttle, l.event ≠ .createAction throttle) ∧
      ∀ p, l.event ≠ .part p)
    (hcalm : ∀ s', run s = some s' → Calm s s') (hrun : call s run = some s') : Tells s l s' := by
  obtain ⟨hactivate, hcreate, hpart⟩ := hevent
  obtain ⟨-, hrun⟩ := ite_none_left_eq_some.1 hrun
  refine tells_of_calm ?_ hcreate ((hcalm s' hrun).ordered hs) ?_
  · unfold attempt
    split
    · rfl
    · split <;> simp_all
  · have hbegun : begun s l = s := by
      unfold begun
      split <;> simp_all
    rw [hbegun]
    exact (hcalm s' hrun).onCreate

theorem Ordered.step (hstep : step s l = some s') : Tells s l s' := by
  unfold Lifecycle.step at hstep
  split at hstep
  all_goals rename_i hevent
  case h_1 a =>
    refine tells_of_call hs (by simp [hevent]) (fun s₁ h => ?_) hstep
    cases h
    exact setup_calm s a
  case h_2 a =>
    refine tells_of_call hs (by simp [hevent]) (fun s₁ h => ?_) hstep
    cases h
    exact createBasic_calm s a false
  case h_3 a =>
    refine tells_of_call hs (by simp [hevent]) (fun s₁ h => ?_) hstep
    cases h
    have hcalm := createBasic_calm (register s) a true
    exact ⟨hcalm.actions, hcalm.waiting, hcalm.freed, hcalm.cleaned, hcalm.onCreate⟩
  case h_4 =>
    obtain ⟨-, hrun⟩ := ite_none_left_eq_some.1 hstep
    obtain ⟨result, hactivate, rfl⟩ := map_eq_some_iff.1 hrun
    have hnot : ∀ throttle, l.event ≠ .createAction throttle := by simp [hevent]
    have hbegun : begun s l = s := by simp [begun, hevent]
    by_cases hattempts : s.mType ≠ .basic ∧ (s.mState = .setup ∨ s.mState = .deactivated)
    · obtain ⟨hbasic, hstate⟩ := hattempts
      have hattempt : attempt s l = some s := by simp [attempt, hbasic, hevent, hstate]
      refine tells_of_attempt hattempt hs hnot hbasic hstate (fun hcreate => ?_) hactivate
      rwa [hbegun]
    have hattempt : attempt s l = none := by
      simp only [attempt, hevent]
      split_ifs <;> simp_all
    have hcalm := activate_calm hattempts hactivate
    refine tells_of_calm hattempt hnot (hcalm.ordered hs) ?_
    rw [hbegun]
    exact hcalm.onCreate
  case h_5 | h_6 =>
    exact tells_of_call hs (by simp [hevent]) (fun s₁ h => deactivateBegin_calm h) hstep
  case h_7 =>
    refine tells_of_call hs (by simp [hevent]) (fun s₁ h => ?_) hstep
    cases h
    exact deallocate_calm s
  case h_8 throttle =>
    obtain ⟨⟨hmem, -⟩, hstep⟩ := ite_none_right_eq_some.1 hstep
    have hwaiting : Waiting s := by
      by_contra hquiet; simp [(hs.quiet hquiet).1] at hmem
    obtain ⟨t, hactions, -⟩ := hs.waiting hwaiting
    obtain rfl : throttle = t := by simpa [hactions] using hmem
    rw [access, if_neg (by simp [hwaiting.1])] at hstep
    cases hstep
    refine tells_of_createAction hevent ?_
    rw [show begun s l = { s with actions := s.actions.erase throttle } by simp [begun, hevent]]
    refine complete_ends hwaiting.1 (by simp [hactions]) (fun q hq => ?_) rfl
    exact hs.not_cleaned hq (by simp [hwaiting.1])
  case h_9 p =>
    obtain ⟨hp, hstep⟩ := ite_none_right_eq_some.1 hstep
    exact hs.part hevent hp hstep

end

/-! ## Whole runs -/

theorem ordered_create : Ordered create :=
  ⟨by simp [Waiting, create], fun _ => ⟨rfl, rfl⟩, by simp [create]⟩

/-- Every failure leaves a trace, and a step without one leaves none. -/
theorem noTrace_of_runs (hs : Runs step (fun s l => Succeeds s l) create s) (l : Label) :
    ∀ s', step s l = some s' → (NoTrace s l s' ↔ Succeeds s l) := by
  have hordered : Ordered s :=
    hs.invariant ordered_create fun _ _ _ hs hok hstep => (hs.step hstep).ordered hok
  exact fun s' hstep => (hordered.step hstep).noTrace

/-- An activation that the throttle has no memory for. -/
def refused : Label := { event := .activate, env := { dispatch := .nomem } }

theorem noTrace_of_runs_set_up : ∃ s', step (setup create {}).2 refused = some s' ∧
    (NoTrace (setup create {}).2 refused s' ↔ Succeeds (setup create {}).2 refused) := by
  have hset : Succeeds create { event := .setup {} } := by simp [Succeeds, attempt]
  exact ⟨_, rfl, noTrace_of_runs (.step .init hset rfl) refused _ rfl⟩

theorem not_noTrace : ¬ ∀ s l s', Reachable step create s → step s l = some s' →
    NoTrace s l s' := by
  intro h
  have hset : Reachable step create (setup create {}).2 :=
    .step (l := { event := .setup {} }) .init trivial rfl
  have hnoTrace := h _ refused _ hset rfl
  have hstate : attempt (setup create {}).2 refused = some (setup create {}).2 := rfl
  have hrecovers := hnoTrace.activate _ hstate _ rfl (by decide)
  exact not_recovers rfl rfl hrecovers

end Mama.Lifecycle

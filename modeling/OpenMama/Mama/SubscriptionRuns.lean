import Mathlib.Data.List.Nodup
import OpenMama.Mama.SubscriptionCallbacks

/-!
# Runs of a real-time subscription

The state of a subscription says what the throttle and the bridge hold for it and whether a
callback is owed, `onDestroy` is invoked once for every set-up, and nothing is left to access
a subscription that is deallocated.  The throttle, the transport and the bridge have to take
what they are given, the callbacks of a set-up must not be replaced before `onDestroy`, and
nothing may be under way when the memory is freed.  A `deactivate` of a subscription that is
`reactivating` is refused although it is done.
-/

namespace Mama.Lifecycle

open Lib List Option

/-! ## What is asked of a subscription -/

/-- `onDestroy` is to be invoked for a set-up. -/
def Part.owes (setUp : Nat) : Part → Bool
  | .onDestroy n | .onDestroyDeallocate n => n == setUp
  | _ => false

def State.isIdle : State → Bool
  | .allocated | .destroyed | .deallocated => true
  | _ => false

/-- The invocations of `onDestroy` for a set-up, with those that are about to be made. -/
def onDestroys (s : SubscriptionImpl) (setUp : Nat) : Nat :=
  s.destroyed.count setUp + s.pending.countP (·.owes setUp)

structure Sound (s : SubscriptionImpl) : Prop where
  action : s.actions.length = (decide (s.mState = .activating)).toNat
  bridge : s.mSubscBridge = decide (s.mState = .activated)
  callback : (owed s).length = s.mState.awaits.toNat
  /-- Every set-up that succeeded is cleaned up when it is destroyed. -/
  cleaned : s.cleaned <+: s.succeeded ∧ (s.mState.isIdle → s.cleaned = s.succeeded)
  onDestroy : ∀ setUp, onDestroys s setUp = (decide (setUp ∈ s.cleaned)).toNat
  deactivate : ∀ status state, (status, state) ∈ s.deactivations →
    state = .deactivating ∨ state = .deactivated → status = .ok
  access : s.accessed = false ∧ (s.mState = .deallocated → s.pending = [] ∧ s.actions = [])

def Label.isMarketData (l : Label) : Bool :=
  match l.event with
  | .setup a => a.mServiceLevel = .realTime && a.mType ≠ .basic && a.mType ≠ .dictionary
  | .createBasic _ | .createBasicWildCard _ => false
  | _ => true

/-- An activation is taken: by the throttle or, if it is run at once, by the transport and the
bridge. -/
def Environment.activates (env : Environment) : Bool :=
  match env.dispatch with
  | .queued => true
  | .immediate => env.added && env.created
  | .noBridgeImpl | .nomem => false

def Meets (s : SubscriptionImpl) (l : Label) : Prop :=
  match l.event with
  | .activate => s.mState = .setup ∨ s.mState = .deactivated → l.env.activates
  | .createAction _ => l.env.added ∧ l.env.created
  | .deallocate => s.mState = .allocated ∨ s.mState = .destroyed → s.pending = []
  | .part (.deactivate _ _ _) => s.mState ≠ .reactivating
  | .part .onSubscriptionDestroyed => s.mState = .reactivating → l.env.activates
  | .part (.onDestroy setUp) => s.mUserCallbacks = setUp
  | .part .deallocate => s.pending = [.deallocate]
  | _ => True

instance (s : SubscriptionImpl) : (l : Label) → Decidable (Meets s l)
  | ⟨.activate, _⟩ => inferInstanceAs (Decidable (_ ∨ _ → _))
  | ⟨.createAction _, _⟩ => inferInstanceAs (Decidable (_ ∧ _))
  | ⟨.deallocate, _⟩ => inferInstanceAs (Decidable (_ ∨ _ → _))
  | ⟨.part (.deactivate _ _ _), _⟩ => inferInstanceAs (Decidable (_ ≠ _))
  | ⟨.part .onSubscriptionDestroyed, _⟩ => inferInstanceAs (Decidable (_ → _))
  | ⟨.part (.onDestroy _), _⟩ => inferInstanceAs (Decidable (_ = _))
  | ⟨.part .deallocate, _⟩ => inferInstanceAs (Decidable (_ = _))
  | ⟨.setup _, _⟩ | ⟨.createBasic _, _⟩ | ⟨.createBasicWildCard _, _⟩ | ⟨.deactivate, _⟩
  | ⟨.destroy, _⟩ | ⟨.part .destroy, _⟩ | ⟨.part (.onCreate _), _⟩ | ⟨.part .unlock, _⟩
  | ⟨.part .bridgeDestroyed, _⟩ | ⟨.part (.onDestroyDeallocate _), _⟩ =>
    inferInstanceAs (Decidable True)

/-! ## The invariant -/

def current (s : SubscriptionImpl) : List Nat :=
  if s.mState.isIdle ∨ s.mTransport = none then [] else [s.mUserCallbacks]

def Part.Fits (s : SubscriptionImpl) : Part → Prop
  | .deactivate basic _ _ => basic = false
  | .bridgeDestroyed | .onSubscriptionDestroyed => s.mTransport ≠ none
  | .onDestroyDeallocate setUp => s.mTransport = none ∧ s.mUserCallbacks = setUp
  | .deallocate => s.mTransport = none
  | _ => True

structure Core (s : SubscriptionImpl) : Prop where
  marketData : s.mType ≠ .basic ∧ s.mSubscMsgType = .subscribe
  transport : s.mState.isIdle = false → s.mState ≠ .deallocating → s.mTransport ≠ none
  fits : ∀ p ∈ s.pending, p.Fits s
  succeeded : s.succeeded = s.cleaned ++ current s
  nodup : s.succeeded.Nodup
  below : ∀ setUp ∈ s.succeeded, setUp < s.setUps
  onDestroy : ∀ setUp, onDestroys s setUp = s.cleaned.count setUp
  answered : ∀ status state, (status, state) ∈ s.deactivations →
    state = .deactivating ∨ state = .deactivated → status = .ok
  access : s.accessed = false
  deallocated : s.mState = .deallocated → s.pending = []

structure Whole (s : SubscriptionImpl) : Prop extends Core s where
  waits : Waits s
  activating : s.mState = .activating → ∃ throttle, s.actions = [throttle] ∧
    s.mAction = some throttle
  noAction : s.mState ≠ .activating → s.actions = []
  bridge : s.mState = .activated → s.mSubscBridge
  callback : s.mState.awaits → owed s ≠ []

variable {env : Environment} {s s' : SubscriptionImpl} {l : Label}

theorem Core.nodup_cleaned (h : Core s) : s.cleaned.Nodup := by
  have hsucceeded := h.nodup
  rw [h.succeeded] at hsucceeded
  exact (nodup_append.1 hsucceeded).1

theorem Whole.sound (h : Whole s) : Sound s where
  action := by
    by_cases hstate : s.mState = .activating
    · obtain ⟨throttle, hactions, -⟩ := h.activating hstate
      rw [hactions, decide_eq_true hstate]
      rfl
    · rw [h.noAction hstate, decide_eq_false hstate]; rfl
  bridge := by
    by_cases hstate : s.mState = .activated
    · rw [h.bridge hstate, decide_eq_true hstate]
    · rw [h.waits.no_bridge hstate, decide_eq_false hstate]
  callback := by
    cases hawaits : s.mState.awaits with
    | false => rw [h.waits.owed_nil hawaits]; rfl
    | true =>
      rcases h.waits.callback with hnil | ⟨p, howed, -, -⟩
      · exact absurd hnil (h.callback hawaits)
      · rw [howed]; rfl
  cleaned := by
    refine ⟨⟨current s, h.succeeded.symm⟩, fun hidle => ?_⟩
    have hcurrent : current s = [] := if_pos (.inl hidle)
    rw [h.succeeded, hcurrent, append_nil]
  onDestroy setUp := by
    rw [h.onDestroy setUp]
    by_cases hmem : setUp ∈ s.cleaned
    · rw [count_eq_one_of_mem h.nodup_cleaned hmem, decide_eq_true hmem]; rfl
    · rw [count_eq_zero_of_not_mem hmem, decide_eq_false hmem]; rfl
  deactivate := h.answered
  access := by
    refine ⟨h.access, fun hstate => ⟨h.deallocated hstate, h.noAction ?_⟩⟩
    rw [hstate]
    decide

/-! ## Pieces of a step -/

variable {p : Part}

theorem Part.Fits.of_not_callback (h : p.Fits s) (hp : p.isCallback = false) : p.Fits s' := by
  cases p <;> first | exact h | exact trivial | exact Bool.noConfusion hp

theorem isCallback_of_owed_nil (howed : owed s = []) (hp : p ∈ s.pending) : p.isCallback = false :=
  Bool.eq_false_iff.2 (filter_eq_nil_iff.1 howed p hp)

theorem current_eq (hidle : s.mState.isIdle = false) (htransport : s.mTransport ≠ none) :
    current s = [s.mUserCallbacks] := by
  refine if_neg ?_
  rintro (htrue | hnone)
  · rw [hidle] at htrue; exact Bool.false_ne_true htrue
  · exact htransport hnone

section

variable (h : Core s)

include h

theorem Core.outside (queue : Queue) (bridge : Bool) (action : Option Nat)
    (actions : List Nat) (initialised : Bool) :
    Core { s with
      mQueue := queue
      mSubscBridge := bridge
      mAction := action
      actions := actions
      initialised := initialised } :=
  ⟨h.marketData, h.transport, h.fits, h.succeeded, h.nodup, h.below, h.onDestroy, h.answered,
    h.access, h.deallocated⟩

theorem Core.setState {state : State} (hfrom : s.mState.isIdle = false)
    (hdeallocating : s.mState ≠ .deallocating) (hto : state.isIdle = false) :
    Core (setState s state) where
  marketData := h.marketData
  transport _ _ := h.transport hfrom hdeallocating
  fits := h.fits
  succeeded := by
    have htransport := h.transport hfrom hdeallocating
    have hcurrent : current (Lifecycle.setState s state) = [s.mUserCallbacks] :=
      current_eq hto htransport
    rw [hcurrent, ← current_eq hfrom htransport]
    exact h.succeeded
  nodup := h.nodup
  below := h.below
  onDestroy := h.onDestroy
  answered := h.answered
  access := h.access
  deallocated hstate := by
    rw [show state = .deallocated from hstate] at hto; exact nomatch hto.symm

theorem Core.erase (hp : p ∈ s.pending) (howes : ∀ setUp, p.owes setUp = false) :
    Core { s with pending := s.pending.erase p } where
  marketData := h.marketData
  transport := h.transport
  fits q hq := h.fits q (mem_of_mem_erase hq)
  succeeded := h.succeeded
  nodup := h.nodup
  below := h.below
  onDestroy setUp := by
    rw [← h.onDestroy setUp]
    unfold onDestroys
    rw [(perm_cons_erase hp).countP_eq, countP_cons_of_neg (by rw [howes setUp]; decide)]
  answered := h.answered
  access := h.access
  deallocated hstate := by
    rw [h.deallocated hstate]; rfl

theorem Core.push (hfits : p.Fits s) (howes : ∀ setUp, p.owes setUp = false)
    (hstate : s.mState ≠ .deallocated) : Core { s with pending := p :: s.pending } where
  marketData := h.marketData
  transport := h.transport
  fits := by
    intro q hq
    rcases mem_cons.1 hq with rfl | hq
    · exact hfits
    · exact h.fits q hq
  succeeded := h.succeeded
  nodup := h.nodup
  below := h.below
  onDestroy setUp := by
    rw [← h.onDestroy setUp]
    unfold onDestroys
    rw [countP_cons_of_neg (by rw [howes setUp]; decide)]
  answered := h.answered
  access := h.access
  deallocated hdeallocated := absurd hdeallocated hstate

theorem Core.cleaned (p : Part) (hidle : s.mState.isIdle = false)
    (htransport : s.mTransport ≠ none) (howed : owed s = [])
    (howes : ∀ setUp, p.owes setUp = (s.mUserCallbacks == setUp))
    (hfits : p.Fits { s with mTransport := none }) (state : State) (initialised : Bool)
    (hto : state = .destroyed ∨ state = .deallocating) :
    Core { s with
      mState := state
      mTransport := none
      cleaned := s.cleaned ++ [s.mUserCallbacks]
      pending := p :: s.pending
      initialised := initialised } where
  marketData := h.marketData
  transport hidle' hdeallocating := by
    rcases hto with rfl | rfl
    · exact Bool.noConfusion hidle'
    · exact absurd rfl hdeallocating
  fits := by
    intro q hq
    rcases mem_cons.1 hq with rfl | hq
    · exact hfits
    · exact (h.fits q hq).of_not_callback (isCallback_of_owed_nil howed hq)
  succeeded := by
    rw [current, if_pos (.inr rfl), append_nil]
    rw [h.succeeded, current_eq hidle htransport]
  nodup := h.nodup
  below := h.below
  onDestroy setUp := by
    have hbefore := h.onDestroy setUp
    unfold onDestroys at hbefore ⊢
    rw [countP_cons, howes, count_append, count_singleton, ← hbefore]
    exact (Nat.add_assoc _ _ _).symm
  answered := h.answered
  access := h.access
  deallocated hstate := by
    rcases hto with rfl | rfl <;> nomatch hstate

theorem Core.invoke (hp : p ∈ s.pending)
    (howes : ∀ setUp, p.owes setUp = (s.mUserCallbacks == setUp)) :
    Core (invokeDestroyedCallback { s with pending := s.pending.erase p }) where
  marketData := h.marketData
  transport := h.transport
  fits q hq := h.fits q (mem_of_mem_erase hq)
  succeeded := h.succeeded
  nodup := h.nodup
  below := h.below
  onDestroy setUp := by
    have hbefore := h.onDestroy setUp
    unfold onDestroys at hbefore ⊢
    rw [(perm_cons_erase hp).countP_eq, countP_cons, howes] at hbefore
    show (s.destroyed ++ [s.mUserCallbacks]).count setUp +
      List.countP (·.owes setUp) (s.pending.erase p) = s.cleaned.count setUp
    rw [count_append, count_singleton]
    omega
  answered := h.answered
  access := h.access
  deallocated hstate := by
    rw [h.deallocated hstate]; rfl

theorem Core.free (hcurrent : current s = []) (hpending : s.pending = []) :
    Core (Lifecycle.setState s .deallocated) where
  marketData := h.marketData
  transport hidle := nomatch hidle
  fits := h.fits
  succeeded := by
    show s.succeeded = s.cleaned ++ []
    rw [h.succeeded, hcurrent]
  nodup := h.nodup
  below := h.below
  onDestroy := h.onDestroy
  answered := h.answered
  access := h.access
  deallocated _ := hpending

end

/-! ## Each function -/

section

variable (h : Whole s)

include h

theorem Whole.erase (hp : p ∈ s.pending) (hcallback : p.isCallback = false)
    (howes : ∀ setUp, p.owes setUp = false) : Whole { s with pending := s.pending.erase p } where
  toCore := h.toCore.erase hp howes
  waits := (h.waits.erase hcallback).waits
  activating := h.activating
  noAction := h.noAction
  bridge := h.bridge
  callback hawaits := by
    rw [owed_erase_eq hcallback]; exact h.callback hawaits

theorem Whole.push (hcallback : p.isCallback = false) (hfits : p.Fits s)
    (howes : ∀ setUp, p.owes setUp = false) (hstate : s.mState ≠ .deallocated) :
    Whole { s with pending := p :: s.pending } := by
  have howed : owed { s with pending := p :: s.pending } = owed s :=
    filter_cons_of_neg (by rw [hcallback]; decide)
  refine ⟨h.toCore.push hfits howes hstate, ?_, h.activating, h.noAction, h.bridge,
    fun hawaits => ?_⟩
  · exact (h.waits.keeps_of_eq { s with pending := p :: s.pending } rfl rfl rfl rfl howed).waits
  · rw [howed]; exact h.callback hawaits

omit h in
theorem subscMsgType_eq {a : SetUp} {subscMsgType : SubscMsgType}
    (ha : (Label.mk (.setup a) env).isMarketData) (h : a.subscMsgType = some subscMsgType) :
    subscMsgType = .subscribe := by
  obtain ⟨⟨hlevel, -⟩, hdictionary⟩ : ((a.mServiceLevel = .realTime) ∧ a.mType ≠ .basic) ∧
      a.mType ≠ .dictionary := by
    simpa [Label.isMarketData] using ha
  unfold SetUp.subscMsgType at h
  rw [hlevel] at h
  obtain ⟨level, hreal, h⟩ := bind_eq_some_iff.1 h
  cases hreal
  split at h
  · contradiction
  · contradiction
  · contradiction
  · exact (some.inj h).symm

omit h in
theorem Core.register (h : Core s) (howed : owed s = []) (hidle : s.mState.isIdle)
    (throttle : Nat) (mType : SubscriptionType) (hmType : mType ≠ .basic) (n : Nat) :
    Core (openInboxes (register { s with
      mType := mType
      mTransport := some throttle
      mSubscMsgType := .subscribe }) n) where
  marketData := ⟨hmType, rfl⟩
  transport _ _ := some_ne_none throttle
  fits p hp := (h.fits p hp).of_not_callback (isCallback_of_owed_nil howed hp)
  succeeded := by
    have hbefore : current s = [] := if_pos (.inl hidle)
    have hafter : current (openInboxes (Lifecycle.register { s with
        mType := mType
        mTransport := some throttle
        mSubscMsgType := .subscribe }) n) = [] := if_pos (.inl hidle)
    rw [hafter, ← hbefore]
    exact h.succeeded
  nodup := h.nodup
  below setUp hmem := Nat.lt_succ_of_lt (h.below setUp hmem)
  onDestroy := h.onDestroy
  answered := h.answered
  access := h.access
  deallocated := h.deallocated

theorem Whole.setup (a : SetUp) (ha : (Label.mk (.setup a) env).isMarketData) :
    Whole (setup s a).2 := by
  have hwaits := (h.waits.setup a).waits
  unfold Lifecycle.setup at hwaits ⊢
  split at hwaits
  case isFalse hidle => rwa [if_neg hidle]
  case isTrue hidle =>
  rw [if_pos hidle]
  have hmType : a.mType ≠ .basic := by
    have hprops := ha
    simp only [Label.isMarketData, Bool.and_eq_true, decide_eq_true_eq] at hprops
    exact hprops.1.2
  have hstate : s.mState.isIdle ∧ s.mState.awaits = false ∧ s.mState ≠ .activating := by
    rcases hidle with heq | heq <;> rw [heq] <;> decide
  obtain ⟨hisIdle, hawaits, hactivating⟩ := hstate
  have howed : owed s = [] := h.waits.owed_nil hawaits
  have htyped : Whole { s with mType := a.mType } :=
    ⟨⟨⟨hmType, h.marketData.2⟩, h.transport, h.fits, h.succeeded, h.nodup, h.below, h.onDestroy,
      h.answered, h.access, h.deallocated⟩, ⟨h.waits.callback, h.waits.bridge, h.waits.initialised⟩,
      h.activating, h.noAction, h.bridge, h.callback⟩
  unfold setupBasic at hwaits ⊢
  split at hwaits
  · exact htyped
  · exact htyped
  rename_i subscMsgType _ htype
  obtain rfl := subscMsgType_eq ha htype
  have hcore := h.toCore.register howed hisIdle a.transport a.mType hmType
  split at hwaits
  · exact ⟨hcore _, hwaits, h.activating, h.noAction, h.bridge, h.callback⟩
  have hcore := hcore 2
  have hnotin : s.setUps ∉ s.succeeded := fun hmem => Nat.lt_irrefl _ (h.below _ hmem)
  have hcurrent : current s = [] := if_pos (.inl hisIdle)
  refine ⟨⟨hcore.marketData, fun _ _ => some_ne_none _, hcore.fits, ?_, ?_, ?_,
    hcore.onDestroy, hcore.answered, hcore.access, nofun⟩, hwaits, nofun,
    fun _ => h.noAction hactivating, nofun, nofun⟩
  · show s.succeeded ++ [s.setUps] = s.cleaned ++ [s.setUps]
    rw [h.succeeded, hcurrent, append_nil]
  · show (s.succeeded ++ [s.setUps]).Nodup
    exact nodup_append.2 ⟨h.nodup, nodup_singleton _, fun x hx y hy => by
      rw [mem_singleton.1 hy]
      rintro rfl
      exact hnotin hx⟩
  · intro setUp hmem
    rcases mem_append.1 hmem with hmem | hmem
    · exact Nat.lt_succ_of_lt (h.below setUp hmem)
    · rw [mem_singleton.1 hmem]; exact Nat.lt_succ_self _

omit h in
theorem complete_eq (hstate : s.mState = .activating) (hmsgType : s.mSubscMsgType = .subscribe)
    (hadded : env.added) (hcreated : env.created) :
    completeMarketDataInitialisation env s = Lifecycle.setState { s with
      mAction := none
      mSubscBridge := true
      mQueue := s.mQueue.incrementObjectCount } .activated := by
  rw [completeMarketDataInitialisation, if_pos ⟨hstate, by rw [hadded, Bool.or_true]⟩]
  rw [initializeSubscription, hmsgType, hcreated]
  rfl

omit h in
theorem Whole.complete (hcore : Core s) (hwaits : Waits s) (hstate : s.mState = .activating)
    (hactions : s.actions = []) (hadded : env.added) (hcreated : env.created) :
    Whole (completeMarketDataInitialisation env s) := by
  have hwaits := (hwaits.complete env).waits
  rw [complete_eq hstate hcore.marketData.2 hadded hcreated] at hwaits ⊢
  refine ⟨?_, hwaits, nofun, fun _ => hactions, fun _ => rfl, nofun⟩
  exact (hcore.setState (by rw [hstate]; rfl) (by rw [hstate]; decide) rfl).outside _ _ _ _ _

theorem Whole.activateInternal {result : Status × SubscriptionImpl}
    (hstate : s.mState = .setup ∨ s.mState = .deactivated) (hok : env.activates)
    (hrun : activateInternal env (Lifecycle.setState s .activating) = some result) :
    Whole result.2 := by
  have hidle : s.mState.isIdle = false ∧ s.mState.isOpen = false ∧ s.mState.awaits = false := by
    rcases hstate with heq | heq <;> rw [heq] <;> exact ⟨rfl, rfl, rfl⟩
  have hne : s.mState ≠ .deallocating ∧ s.mState ≠ .activated ∧ s.mState ≠ .activating := by
    rcases hstate with heq | heq <;> rw [heq] <;> decide
  have hcore : Core (Lifecycle.setState s .activating) := h.toCore.setState hidle.1 hne.1 rfl
  have hwaits : Waits (Lifecycle.setState s .activating) :=
    (h.waits.move (hidle.2.1.trans rfl) (.inl (h.waits.owed_nil hidle.2.2))
      (h.waits.no_bridge hne.2.1)).waits
  have hactions : s.actions = [] := h.noAction hne.2.2
  have hresult := (hwaits.activateInternal hrun).waits
  unfold Environment.activates at hok
  unfold Lifecycle.activateInternal at hrun
  split at hrun
  case h_1 htransport => exact absurd htransport (h.transport hidle.1 hne.1)
  case h_2 hdispatch => rw [hdispatch] at hok; exact Bool.noConfusion hok
  case h_3 hdispatch =>
    cases hrun
    rw [hdispatch] at hok
    obtain ⟨hadded, hcreated⟩ := Bool.and_eq_true_iff.1 hok
    have hcomplete := Whole.complete hcore hwaits rfl hactions hadded hcreated
    refine hcomplete.push rfl trivial (fun _ => rfl) ?_
    rw [complete_eq rfl hcore.marketData.2 hadded hcreated]
    show State.activated ≠ .deallocated
    decide
  case h_4 hdispatch => rw [hdispatch] at hok; exact Bool.noConfusion hok
  case h_5 throttle _ hdispatch =>
    split at hrun
    · contradiction
    · cases hrun
      refine ⟨hcore.outside _ _ _ _ _, hresult, fun _ => ⟨throttle, ?_, rfl⟩,
        fun hactivating => absurd rfl hactivating, nofun, nofun⟩
      show throttle :: s.actions = [throttle]
      rw [hactions]

theorem Whole.activate {result : Status × SubscriptionImpl}
    (hok : s.mState = .setup ∨ s.mState = .deactivated → env.activates)
    (hrun : activate env s = some result) : Whole result.2 := by
  have hwaits := (h.waits.activate hrun).waits
  unfold Lifecycle.activate at hrun
  rw [if_neg h.marketData.1] at hrun
  split at hrun
  all_goals rename_i hstate
  case h_1 => exact h.activateInternal (.inr hstate) (hok (.inr hstate)) hrun
  case h_2 => exact h.activateInternal (.inl hstate) (hok (.inl hstate)) hrun
  case h_6 =>
    cases hrun
    exact ⟨h.toCore.setState (by rw [hstate]; rfl) (by rw [hstate]; decide) rfl, hwaits, nofun,
      fun _ => h.noAction (by rw [hstate]; decide), nofun,
      fun _ => h.callback (by rw [hstate]; rfl)⟩
  all_goals
    cases hrun
    exact h

omit h in
theorem Whole.onSubscriptionDestroyed (hcore : Core s) (hwaits : Waits s) (howed : owed s = [])
    (hactions : s.actions = []) (hawaits : s.mState.awaits) (htransport : s.mTransport ≠ none)
    (hok : s.mState = .reactivating → env.activates)
    (hrun : onSubscriptionDestroyed env s = some s') : Whole s' := by
  have hafter := (hwaits.onSubscriptionDestroyed howed hawaits hrun).1
  have hidle : s.mState.isIdle = false ∧ s.mState ≠ .activated := by
    cases hstate : s.mState <;> rw [hstate] at hawaits <;>
      first | exact ⟨rfl, by decide⟩ | exact Bool.noConfusion hawaits
  unfold Lifecycle.onSubscriptionDestroyed at hrun
  split at hrun
  all_goals rename_i hstate
  case h_1 =>
    cases hrun
    exact ⟨hcore.setState hidle.1 (by rw [hstate]; decide) rfl, hafter, nofun, fun _ => hactions,
      nofun, nofun⟩
  case h_2 =>
    cases hrun
    have hcons :
        owed { cleanup s with pending := .onDestroyDeallocate s.mUserCallbacks :: s.pending } =
        .onDestroyDeallocate s.mUserCallbacks :: owed s := filter_cons_of_pos rfl
    refine ⟨hcore.cleaned (.onDestroyDeallocate s.mUserCallbacks) hidle.1 htransport howed
        (fun _ => rfl) ⟨rfl, rfl⟩ _ _ (.inr hstate), hafter, fun hactivating => ?_, fun _ =>
          hactions, fun hactivated => absurd hactivated hidle.2,
      fun _ => ?_⟩
    · cases hstate.symm.trans hactivating
    · rw [hcons]; exact cons_ne_nil _ _
  case h_3 =>
    cases hrun
    refine ⟨hcore.cleaned (.onDestroy s.mUserCallbacks) hidle.1 htransport howed (fun _ => rfl)
      trivial _ _ (.inl rfl), hafter, nofun, fun _ => hactions, nofun, nofun⟩
  case h_4 =>
    obtain ⟨result, hactivate, rfl⟩ := map_eq_some_iff.1 hrun
    have hinitialised : s.initialised := by rw [hwaits.initialised, hstate]; rfl
    have hclosed := (Waits.close howed hinitialised (hwaits.no_bridge hidle.2) (.inl rfl)).1
    have hdeactivated : Whole (Lifecycle.setState s .deactivated) :=
      ⟨hcore.setState hidle.1 (by rw [hstate]; decide) rfl, hclosed, nofun, fun _ => hactions,
        nofun, nofun⟩
    exact hdeactivated.activate (fun _ => hok hstate) hactivate
  case h_5 hdeactivating hdeallocating hdestroying hreactivating =>
    cases hstate : s.mState <;> rw [hstate] at hawaits <;>
      first | exact Bool.noConfusion hawaits | exact absurd hstate (by assumption)

theorem Whole.deactivate {throttle : Option Nat} {result : Status × SubscriptionImpl}
    (hrun : deactivate env s false throttle = some result) : Whole result.2 := by
  have hwaits := (h.waits.deactivate (fun _ _ hsnap => by
    rw [h.marketData.2] at hsnap; exact Bool.noConfusion hsnap) hrun).waits
  unfold Lifecycle.deactivate at hrun
  rw [if_neg Bool.false_ne_true] at hrun
  split at hrun
  all_goals rename_i hstate
  case h_1 =>
    obtain ⟨s₁, hremove, hrun⟩ := bind_eq_some_iff.1 hrun
    cases hrun
    obtain ⟨t, action, -, haction, rfl⟩ := removeAction_some hremove
    obtain ⟨throttle, hactions, hhandle⟩ := h.activating hstate
    have hcore := h.toCore.setState (by rw [hstate]; rfl) (by rw [hstate]; decide)
      (rfl : State.deactivated.isIdle = false)
    refine ⟨hcore.outside _ _ _ _ _, hwaits, nofun, fun _ => ?_, nofun, nofun⟩
    show s.actions.erase action = []
    rw [hactions, some.inj (haction.symm.trans hhandle), erase_cons_head]
  case h_2 =>
    cases hrun
    exact ⟨h.toCore.setState (by rw [hstate]; rfl) (by rw [hstate]; decide) rfl, hwaits, nofun,
      fun _ => h.noAction (by rw [hstate]; decide), nofun,
      fun _ => h.callback (by rw [hstate]; rfl)⟩
  case h_3 =>
    obtain ⟨s₁, hinternal, hrun⟩ := bind_eq_some_iff.1 hrun
    cases hrun
    have hcore (state : State) (hto : state.isIdle = false) : Core (Lifecycle.setState s state) :=
      h.toCore.setState (by rw [hstate]; rfl) (by rw [hstate]; decide) hto
    have hmsgType : s₁.mSubscMsgType = .subscribe := by
      rw [← h.marketData.2]
      rcases deactivateInternal_cases hinternal with ⟨-, rfl⟩ | ⟨-, rfl⟩ | ⟨-, rfl⟩ <;> rfl
    rw [hmsgType] at hwaits ⊢
    rcases deactivateInternal_cases hinternal with ⟨hbridge, -⟩ | ⟨-, rfl⟩ | ⟨-, rfl⟩
    · rw [h.bridge hstate] at hbridge; exact Bool.noConfusion hbridge
    · exact ⟨(hcore .deactivated rfl).outside _ _ _ _ _, hwaits, nofun,
        fun _ => h.noAction (by rw [hstate]; decide), nofun, nofun⟩
    · have htransport := h.transport (by rw [hstate]; rfl) (by rw [hstate]; decide)
      have hpush := (hcore .deactivating rfl).push (p := .bridgeDestroyed) htransport
        (fun _ => rfl) nofun
      refine ⟨hpush.outside _ _ _ _ _, hwaits, nofun,
        fun _ => h.noAction (by rw [hstate]; decide), nofun, fun _ => ?_⟩
      exact cons_ne_nil _ _
  all_goals
    cases hrun
    exact h

theorem Whole.destroy : Whole (destroy s).2 := by
  have hwaits := h.waits.destroy.waits
  unfold Lifecycle.destroy at hwaits ⊢
  split at hwaits
  all_goals rename_i hstate
  case h_1 | h_2 =>
    have htransport := h.transport (by rw [hstate]; rfl) (by rw [hstate]; decide)
    have howed := h.waits.owed_nil (by rw [hstate]; rfl)
    exact ⟨h.toCore.cleaned (.onDestroy s.mUserCallbacks) (by rw [hstate]; rfl) htransport howed
      (fun _ => rfl) trivial _ _ (.inl rfl), hwaits, nofun,
      fun _ => h.noAction (by rw [hstate]; decide), nofun, nofun⟩
  case h_3 =>
    exact ⟨h.toCore.setState (by rw [hstate]; rfl) (by rw [hstate]; decide) rfl, hwaits, nofun,
      fun _ => h.noAction (by rw [hstate]; decide), nofun,
      fun _ => h.callback (by rw [hstate]; rfl)⟩
  all_goals exact h

theorem Whole.deallocate (hok : s.mState = .allocated ∨ s.mState = .destroyed → s.pending = []) :
    Whole (deallocate s).2 := by
  have hwaits := h.waits.deallocate.waits
  unfold Lifecycle.deallocate at hwaits ⊢
  split at hwaits
  all_goals rename_i hstate
  case h_1 =>
    exact ⟨h.toCore.setState (by rw [hstate]; rfl) (by rw [hstate]; decide) rfl, hwaits, nofun,
      fun _ => h.noAction (by rw [hstate]; decide), nofun,
      fun _ => h.callback (by rw [hstate]; rfl)⟩
  case h_2 | h_3 =>
    have hcurrent : current s = [] := if_pos (.inl (by rw [hstate]; rfl))
    exact ⟨h.toCore.free hcurrent (hok (by rw [hstate]; decide)), hwaits, nofun,
      fun _ => h.noAction (by rw [hstate]; decide), nofun, nofun⟩
  case h_4 => exact h

theorem Whole.deactivateBegin {destroys : Bool} (hstate : s.mState ≠ .deallocated)
    (hrun : deactivateBegin s destroys = some s') : Whole s' := by
  obtain ⟨basic, throttle, hbasic, -, -, rfl⟩ := deactivateBegin_some hrun
  refine h.push rfl ?_ (fun _ => rfl) hstate
  rw [hbasic]
  exact decide_eq_false h.marketData.1

omit h in
theorem deactivate_answer {throttle : Option Nat} {result : Status × SubscriptionImpl}
    (hrun : deactivate env s false throttle = some result) :
    (result.2.mState = .deallocated → s.mState = .deallocated) ∧
    (result.2.mState = .deactivating ∨ result.2.mState = .deactivated →
      (result.1 = .ok ↔ s.mState ≠ .reactivating)) := by
  unfold Lifecycle.deactivate at hrun
  rw [if_neg Bool.false_ne_true] at hrun
  split at hrun
  all_goals rename_i hstate
  case h_1 =>
    obtain ⟨s₁, -, hrun⟩ := bind_eq_some_iff.1 hrun
    cases hrun
    exact ⟨nofun, fun _ => iff_of_true rfl (by rw [hstate]; decide)⟩
  case h_2 => cases hrun; exact ⟨nofun, fun _ => iff_of_false nofun fun hne => hne hstate⟩
  case h_3 =>
    obtain ⟨s₁, hinternal, hrun⟩ := bind_eq_some_iff.1 hrun
    cases hrun
    refine ⟨fun hdeallocated => ?_, fun _ => iff_of_true rfl (by rw [hstate]; decide)⟩
    rcases deactivateInternal_cases hinternal with ⟨-, rfl⟩ | ⟨-, rfl⟩ | ⟨-, rfl⟩
    all_goals
      split at hdeallocated <;> exact nomatch hdeallocated
  case h_4 | h_5 => cases hrun; exact ⟨id, fun _ => iff_of_true rfl (by rw [hstate]; decide)⟩
  case h_6 =>
    cases hrun
    refine ⟨id, fun hleft => ?_⟩
    rcases hleft with hleft | hleft
    · exact absurd hleft (by assumption)
    · exact absurd hleft (by assumption)

/-! ## A step -/

theorem Whole.queued {throttle : Nat} (hmem : throttle ∈ s.actions) :
    s.mState = .activating ∧ s.actions.erase throttle = [] := by
  have hactivating : s.mState = .activating := by
    by_contra hstate
    rw [h.noAction hstate] at hmem
    exact not_mem_nil hmem
  obtain ⟨queued, hactions, -⟩ := h.activating hactivating
  rw [hactions, mem_singleton] at hmem
  rw [hactions, hmem, erase_cons_head]
  exact ⟨hactivating, rfl⟩

theorem Whole.answer (status : Status)
    (hanswer : s.mState = .deactivating ∨ s.mState = .deactivated → status = .ok) :
    Whole { s with deactivations := s.deactivations ++ [(status, s.mState)] } := by
  refine ⟨⟨h.marketData, h.transport, h.fits, h.succeeded, h.nodup, h.below, h.onDestroy, ?_,
    h.access, h.deallocated⟩, ⟨h.waits.callback, h.waits.bridge, h.waits.initialised⟩, h.activating,
    h.noAction, h.bridge, h.callback⟩
  intro status' state hmem hleft
  rcases mem_append.1 hmem with hmem | hmem
  · exact h.answered status' state hmem hleft
  · obtain ⟨rfl, rfl⟩ := Prod.mk.inj (mem_singleton.1 hmem)
    exact hanswer hleft

theorem Whole.run (hp : p ∈ s.pending) (hstate : s.mState ≠ .deallocated)
    (hmeets : Meets s ⟨.part p, env⟩)
    (hrun : p.run env { s with pending := s.pending.erase p } = some s') : Whole s' := by
  have hwaits : Waits s' := by
    refine (h.waits.run hp (fun _ _ _ _ hsnap => ?_) hrun).waits
    rw [h.marketData.2] at hsnap
    exact Bool.noConfusion hsnap
  have hactions (hawaits : s.mState.awaits) : s.actions = [] := by
    refine h.noAction fun hactivating => ?_
    rw [hactivating] at hawaits
    exact Bool.noConfusion hawaits
  cases p with
  | deactivate basic throttle destroys =>
    obtain rfl : basic = false := h.fits _ hp
    have herase := h.erase hp rfl fun _ => rfl
    obtain ⟨result, hdeactivate, hrun⟩ := bind_eq_some_iff.1 hrun
    cases hrun
    obtain ⟨hfreed, hanswer⟩ := deactivate_answer hdeactivate
    have hanswered := (herase.deactivate hdeactivate).answer result.1 fun hleft =>
      (hanswer hleft).2 hmeets
    split
    · exact hanswered.push rfl trivial (fun _ => rfl) fun hdeallocated =>
        hstate (hfreed hdeallocated)
    · exact hanswered
  | destroy => cases hrun; exact (h.erase hp rfl fun _ => rfl).destroy
  | onCreate | unlock => cases hrun; exact h.erase hp rfl fun _ => rfl
  | onDestroy setUp =>
    cases hrun
    obtain rfl : s.mUserCallbacks = setUp := hmeets
    refine ⟨h.toCore.invoke hp fun _ => rfl, hwaits, h.activating, h.noAction, h.bridge,
      fun hawaits => ?_⟩
    show owed { s with pending := s.pending.erase (.onDestroy s.mUserCallbacks) } ≠ []
    rw [owed_erase_eq rfl]
    exact h.callback hawaits
  | bridgeDestroyed =>
    cases hrun
    obtain ⟨-, hawaits, -, -⟩ := h.waits.owed_erase hp rfl
    have hpush :=
      (h.toCore.erase hp fun _ => rfl).push (p := .onSubscriptionDestroyed) (h.fits _ hp)
      (fun _ => rfl) hstate
    refine ⟨hpush.outside _ _ _ _ _, hwaits, h.activating, h.noAction, h.bridge, fun _ => ?_⟩
    exact cons_ne_nil _ _
  | onSubscriptionDestroyed =>
    obtain ⟨-, hawaits, -, hnil⟩ := h.waits.owed_erase hp rfl
    have hcore := h.toCore.erase hp fun _ => rfl
    exact Whole.onSubscriptionDestroyed hcore (h.waits.take hp rfl).1 hnil (hactions hawaits)
      hawaits
      (h.fits _ hp) hmeets hrun
  | onDestroyDeallocate setUp =>
    cases hrun
    obtain ⟨htransport, rfl⟩ := h.fits _ hp
    have hpush :=
      (h.toCore.invoke hp fun _ => rfl).push (p := .deallocate) htransport (fun _ => rfl)
      hstate
    refine ⟨hpush, hwaits, h.activating, h.noAction, h.bridge, fun _ => ?_⟩
    exact cons_ne_nil _ _
  | deallocate =>
    cases hrun
    obtain ⟨-, hawaits, -, -⟩ := h.waits.owed_erase hp rfl
    have hnil : s.pending.erase .deallocate = [] := by
      rw [show s.pending = [.deallocate] from hmeets, erase_cons_head]
    have hcurrent : current s = [] := if_pos (.inr (h.fits _ hp))
    exact ⟨(h.toCore.erase hp fun _ => rfl).free hcurrent hnil, hwaits, nofun,
      fun _ => hactions hawaits, nofun, nofun⟩

theorem Whole.step (hmarketData : l.isMarketData) (hmeets : Meets s l)
    (hstep : step s l = some s') : Whole s' := by
  obtain ⟨event, env⟩ := l
  cases event with
  | setup a =>
    obtain ⟨-, hstep⟩ := ite_none_left_eq_some.1 hstep
    cases hstep
    exact h.setup a hmarketData
  | createBasic a | createBasicWildCard a => exact Bool.noConfusion hmarketData
  | activate =>
    obtain ⟨-, hstep⟩ := ite_none_left_eq_some.1 hstep
    obtain ⟨result, hactivate, rfl⟩ := map_eq_some_iff.1 hstep
    exact h.activate hmeets hactivate
  | deactivate | destroy =>
    obtain ⟨hstate, hstep⟩ := ite_none_left_eq_some.1 hstep
    exact h.deactivateBegin hstate hstep
  | deallocate =>
    obtain ⟨-, hstep⟩ := ite_none_left_eq_some.1 hstep
    cases hstep
    exact h.deallocate hmeets
  | createAction throttle =>
    obtain ⟨⟨hmem, -⟩, hstep⟩ := ite_none_right_eq_some.1 hstep
    obtain ⟨hactivating, hnil⟩ := h.queued hmem
    unfold access at hstep
    rw [if_neg (show ¬ s.mState = .deallocated by rw [hactivating]; decide)] at hstep
    cases hstep
    have hwaits : Waits { s with actions := s.actions.erase throttle } :=
      ⟨h.waits.callback, h.waits.bridge, h.waits.initialised⟩
    have hcore : Core { s with actions := s.actions.erase throttle } := h.toCore.outside _ _ _ _ _
    refine (Whole.complete hcore hwaits hactivating hnil hmeets.1 hmeets.2).push rfl trivial
      (fun _ => rfl) ?_
    rw [complete_eq (s := { s with actions := s.actions.erase throttle }) hactivating h.marketData.2
      hmeets.1 hmeets.2]
    show State.activated ≠ .deallocated
    decide
  | part p =>
    obtain ⟨hp, hstep⟩ := ite_none_right_eq_some.1 hstep
    unfold access at hstep
    split at hstep
    case isTrue hstate => rw [h.deallocated hstate] at hp; exact absurd hp not_mem_nil
    case isFalse hstate => exact h.run hp hstate hmeets hstep

end

/-! ## What is not met -/

/-- An activation that neither the throttle nor the bridge has taken. -/
def Lost (s : SubscriptionImpl) : Prop :=
  (s.mState = .activating ∧ s.actions = []) ∨ (s.mState = .activated ∧ s.mSubscBridge = false)

theorem Lost.not_sound (h : Lost s) : ¬ Sound s := by
  intro hsound
  rcases h with ⟨hstate, hactions⟩ | ⟨hstate, hbridge⟩
  · have haction := hsound.action
    rw [hstate, hactions] at haction
    cases haction
  · have hbridge' := hsound.bridge
    rw [hstate, hbridge] at hbridge'
    cases hbridge'

theorem lost_complete (hstate : s.mState = .activating) (hmsgType : s.mSubscMsgType = .subscribe)
    (hactions : s.actions = []) (hbridge : s.mSubscBridge = false)
    (hfails : ¬ (env.added ∧ env.created)) : Lost (completeMarketDataInitialisation env s) := by
  unfold completeMarketDataInitialisation initializeSubscription
  dsimp only
  rw [hmsgType]
  split
  case isFalse => exact .inl ⟨hstate, hactions⟩
  case isTrue hadded =>
  have hcreated : env.created = false := Bool.eq_false_iff.2 fun hcreated =>
      hfails ⟨hadded.2, hcreated⟩
  rw [hcreated]
  exact .inr ⟨rfl, hbridge⟩

theorem Whole.lost_activate {result : Status × SubscriptionImpl} (hcore : Core s)
    (hactions : s.actions = []) (hbridge : s.mSubscBridge = false)
    (hstate : s.mState = .setup ∨ s.mState = .deactivated) (hfails : ¬ env.activates)
    (hrun : Lifecycle.activate env s = some result) : Lost result.2 := by
  have hrun : Lifecycle.activateInternal env (Lifecycle.setState s .activating) = some result := by
    unfold Lifecycle.activate at hrun
    rw [if_neg hcore.marketData.1] at hrun
    rcases hstate with heq | heq <;> rw [heq] at hrun <;> exact hrun
  have hlost : Lost (Lifecycle.setState s .activating) := .inl ⟨rfl, hactions⟩
  unfold Environment.activates at hfails
  unfold Lifecycle.activateInternal at hrun
  split at hrun
  case h_1 => cases hrun; exact hlost
  case h_2 => cases hrun; exact hlost
  case h_3 hdispatch =>
    cases hrun
    rw [hdispatch] at hfails
    exact lost_complete (s := Lifecycle.setState s .activating) rfl hcore.marketData.2 hactions
      hbridge
      fun htaken => hfails (Bool.and_eq_true_iff.2 htaken)
  case h_4 =>
    obtain ⟨-, hrun⟩ := ite_none_left_eq_some.1 hrun
    cases hrun
    exact hlost
  case h_5 hdispatch => rw [hdispatch] at hfails; exact absurd rfl hfails

theorem deactivate_reactivating {throttle : Option Nat} (hstate : s.mState = .reactivating) :
    deactivate env s false throttle =
      some (.subscriptionInvalidType, Lifecycle.setState s .deactivating) := by
  rw [deactivate, if_neg Bool.false_ne_true, hstate]

theorem onSubscriptionDestroyed_reactivating (hstate : s.mState = .reactivating)
    (hrun : onSubscriptionDestroyed env s = some s') :
    ∃ result, activate env (Lifecycle.setState s .deactivated) = some result ∧ result.2 = s' := by
  unfold onSubscriptionDestroyed at hrun
  rw [hstate] at hrun
  exact map_eq_some_iff.1 hrun

theorem Whole.not_sound_run (h : Whole s) (hp : p ∈ s.pending) (hmeets : ¬ Meets s ⟨.part p, env⟩)
    (hrun : p.run env { s with pending := s.pending.erase p } = some s') : ¬ Sound s' := by
  cases p with
  | deactivate basic throttle destroys =>
    obtain rfl : basic = false := h.fits _ hp
    obtain hreactivating : s.mState = .reactivating := not_not.1 hmeets
    obtain ⟨result, hdeactivate, hrun⟩ := bind_eq_some_iff.1 hrun
    cases hrun
    have hresult : Lifecycle.deactivate env
        { s with pending := s.pending.erase (.deactivate false throttle destroys) } false throttle =
          _ :=
      deactivate_reactivating hreactivating
    cases hresult.symm.trans hdeactivate
    intro hsound
    have hanswer := hsound.deactivate .subscriptionInvalidType .deactivating (by
      split <;> exact mem_append_right _ (mem_singleton.2 rfl)) (.inl rfl)
    contradiction
  | destroy | onCreate | unlock | bridgeDestroyed | onDestroyDeallocate =>
    exact absurd trivial hmeets
  | onDestroy setUp =>
    cases hrun
    intro hsound
    have hne : s.mUserCallbacks ≠ setUp := hmeets
    have hbefore := h.onDestroy setUp
    have hafter := hsound.onDestroy setUp
    unfold onDestroys at hbefore hafter
    have howes : (Part.onDestroy setUp).owes setUp := beq_self_eq_true setUp
    rw [(perm_cons_erase hp).countP_eq, countP_cons_of_pos howes] at hbefore
    have hcount : (s.destroyed ++ [s.mUserCallbacks]).count setUp = s.destroyed.count setUp := by
      rw [count_append, count_singleton, if_neg fun heq => hne (beq_iff_eq.1 heq),
        Nat.add_zero]
    have hmem : setUp ∈ s.cleaned := count_pos_iff.1 (by omega)
    have hone := count_eq_one_of_mem h.nodup_cleaned hmem
    have hafter' : (s.destroyed ++ [s.mUserCallbacks]).count setUp +
      (s.pending.erase (.onDestroy setUp)).countP (Part.owes setUp) =
        (decide (setUp ∈ s.cleaned)).toNat := hafter
    rw [decide_eq_true hmem] at hafter'
    have htrue : true.toNat = 1 := rfl
    omega
  | onSubscriptionDestroyed =>
    obtain ⟨hreactivating, hfails⟩ := Classical.not_imp.1 hmeets
    have hcore := (h.toCore.erase hp fun _ => rfl).setState (by rw [hreactivating]; rfl)
      (by rw [hreactivating]; decide) (rfl : State.deactivated.isIdle = false)
    obtain ⟨result, hactivate, rfl⟩ := onSubscriptionDestroyed_reactivating
      (s := { s with pending := s.pending.erase .onSubscriptionDestroyed }) hreactivating hrun
    refine (Whole.lost_activate hcore ?_ ?_ (.inr rfl) hfails hactivate).not_sound
    · exact h.noAction (by rw [hreactivating]; decide)
    · exact h.waits.no_bridge (by rw [hreactivating]; decide)
  | deallocate =>
    cases hrun
    intro hsound
    have hnil : s.pending.erase .deallocate = [] := (hsound.access.2 rfl).1
    have hperm := perm_cons_erase hp
    rw [hnil, perm_singleton] at hperm
    exact hmeets hperm

theorem Whole.not_sound (h : Whole s) (hmeets : ¬ Meets s l) (hmarketData : l.isMarketData)
    (hstep : Lifecycle.step s l = some s') : ¬ Sound s' := by
  obtain ⟨event, env⟩ := l
  cases event with
  | setup a | deactivate | destroy => exact absurd trivial hmeets
  | createBasic a | createBasicWildCard a => exact Bool.noConfusion hmarketData
  | activate =>
    obtain ⟨-, hstep⟩ := ite_none_left_eq_some.1 hstep
    obtain ⟨result, hactivate, rfl⟩ := map_eq_some_iff.1 hstep
    obtain ⟨hstate, hfails⟩ := Classical.not_imp.1 hmeets
    have hne : s.mState ≠ .activating ∧ s.mState ≠ .activated := by
      rcases hstate with heq | heq <;> rw [heq] <;> decide
    exact (Whole.lost_activate h.toCore (h.noAction hne.1) (h.waits.no_bridge hne.2) hstate hfails
      hactivate).not_sound
  | deallocate =>
    obtain ⟨-, hstep⟩ := ite_none_left_eq_some.1 hstep
    cases hstep
    obtain ⟨hstate, hpending⟩ := Classical.not_imp.1 hmeets
    have hfreed : Lifecycle.deallocate s = (.ok, Lifecycle.setState s .deallocated) := by
      unfold Lifecycle.deallocate
      rcases hstate with heq | heq <;> rw [heq] <;> rfl
    intro hsound
    rw [hfreed] at hsound
    exact hpending (hsound.access.2 rfl).1
  | createAction throttle =>
    obtain ⟨⟨hmem, -⟩, hstep⟩ := ite_none_right_eq_some.1 hstep
    obtain ⟨hactivating, hnil⟩ := h.queued hmem
    unfold access at hstep
    rw [if_neg (show ¬ s.mState = .deallocated by rw [hactivating]; decide)] at hstep
    cases hstep
    have hlost := lost_complete (s := { s with actions := s.actions.erase throttle }) hactivating
      h.marketData.2 hnil (h.waits.no_bridge (by rw [hactivating]; decide)) hmeets
    exact Lost.not_sound hlost
  | part p =>
    obtain ⟨hp, hstep⟩ := ite_none_right_eq_some.1 hstep
    unfold access at hstep
    split at hstep
    case isTrue hstate => rw [h.deallocated hstate] at hp; exact absurd hp not_mem_nil
    case isFalse hstate => exact h.not_sound_run hp hmeets hstep

/-! ## Runs -/

/-- **The life of a real-time subscription** is sound as long as what its steps have to meet is
met, and no longer. -/
theorem sound_of_runs (hs : Runs step (fun s l => l.isMarketData ∧ Meets s l) create s) :
    Sound s ∧ ∀ l s', l.isMarketData → step s l = some s' → (Sound s' ↔ Meets s l) := by
  have hcore : Core create :=
    ⟨⟨nofun, rfl⟩, nofun, fun _ hp => absurd hp not_mem_nil, rfl, nodup_nil,
      fun _ hmem => absurd hmem not_mem_nil, fun _ => rfl,
      fun _ _ hmem => absurd hmem not_mem_nil, rfl, nofun⟩
  have hwhole : Whole s :=
    hs.invariant ⟨hcore, ⟨.inl rfl, nofun, rfl⟩, nofun, fun _ => rfl, nofun, nofun⟩
      fun s l s' h hok hstep => h.step hok.1 hok.2 hstep
  refine ⟨hwhole.sound, fun l s' hmarketData hstep => ⟨fun hsound => ?_, fun hmeets => ?_⟩⟩
  · by_contra hmeets; exact hwhole.not_sound hmeets hmarketData hstep hsound
  · exact (hwhole.step hmarketData hmeets hstep).sound

/-- Until a subscription is `reactivating`. -/
def untilReactivating : List Label :=
  [⟨.setup {}, {}⟩, ⟨.activate, {}⟩, ⟨.createAction 0, {}⟩, ⟨.part (.onCreate (some 0)), {}⟩,
    ⟨.deactivate, {}⟩, ⟨.part (.deactivate false (some 0) false), {}⟩, ⟨.activate, {}⟩]

/-- The callback comes, and the subscription is destroyed and deallocated before the next. -/
def untilDeallocated : List Label :=
  untilReactivating ++
    [⟨.part .bridgeDestroyed, {}⟩, ⟨.part .onSubscriptionDestroyed, {}⟩, ⟨.createAction 0, {}⟩,
      ⟨.part (.onCreate (some 0)), {}⟩, ⟨.destroy, {}⟩,
      ⟨.part (.deactivate false (some 0) true), {}⟩, ⟨.part .destroy, {}⟩, ⟨.deallocate, {}⟩,
      ⟨.part .bridgeDestroyed, {}⟩, ⟨.part .onSubscriptionDestroyed, {}⟩,
      ⟨.part (.onDestroyDeallocate 0), {}⟩, ⟨.part .deallocate, {}⟩]

theorem sound_of_runs_deallocated : ∃ s, untilDeallocated.foldlM step create = some s ∧
    s.mState = .deallocated ∧ s.destroyed = [0] ∧ Sound s :=
  ⟨_, rfl, rfl, rfl, (sound_of_runs (Runs.init.checked untilDeallocated rfl)).1⟩

/-- The `deactivate` of a subscription that is `reactivating` is refused. -/
theorem not_sound_reactivating :
    ¬ ∀ s, Runs step (fun _ l => l.isMarketData) create s → Sound s := by
  intro h
  have hsound := h _ (Runs.init.checked (untilReactivating ++
    [⟨.deactivate, {}⟩, ⟨.part (.deactivate false (some 0) false), {}⟩]) rfl)
  have hanswer := hsound.deactivate .subscriptionInvalidType .deactivating (by decide) (.inl rfl)
  contradiction

end Mama.Lifecycle

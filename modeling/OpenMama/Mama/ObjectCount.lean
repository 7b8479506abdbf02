import Mathlib.Algebra.BigOperators.Ring.Finset
import Mathlib.Algebra.Order.BigOperators.Group.Finset
import OpenMama.Mama.SubscriptionCallbacks

/-!
# The open objects of a queue

Any number of subscriptions of any kind share a queue.  It counts those that are activated
and not deactivated, destroyed or deallocated since, and the inboxes and the reply timers of
their image requests, except for the callbacks that have not taken the lock after their
decrement, until a snapshot or a dictionary is deactivated: there is no bridge that calls
back for it, and the queue can never be destroyed.

When an image request makes an inbox or a timer, and when the bridge is done with one, is
left open but for the inboxes of a set-up.
-/

namespace Mama.Lifecycle

open Lib Finset

variable {ι : Type} [DecidableEq ι]

structure World (ι : Type) where
  queue : Queue := {}
  subs : ι → SubscriptionImpl := fun _ => create

inductive WorldLabel (ι : Type)
  | life (i : ι) (l : Label)
  /-- An image request is made for a context of a group, with an inbox, or starts its timer. -/
  | opened (i : ι)
  /-- `mamaInbox_onInboxDestroyed`, `mamaTimer_onTimerDestroyed`. -/
  | closed (i : ι)

def World.put (w : World ι) (i : ι) (s : SubscriptionImpl) : World ι :=
  ⟨s.mQueue, Function.update w.subs i s⟩

def World.step (w : World ι) : WorldLabel ι → Option (World ι)
  | .life i l => (Lifecycle.step { w.subs i with mQueue := w.queue } l).map (w.put i)
  | .opened i =>
    let s := w.subs i
    some (w.put i { s with
      mQueue := w.queue.incrementObjectCount
      requestObjects := s.requestObjects + 1 })
  | .closed i =>
    let s := w.subs i
    if s.requestObjects = 0 then none
    else some (w.put i { s with
      mQueue := w.queue.decrementObjectCount
      requestObjects := s.requestObjects - 1 })

/-- An activated snapshot or dictionary is deactivated. -/
def World.SnapshotDeactivated (w : World ι) : WorldLabel ι → Prop
  | .life i l => Lifecycle.SnapshotDeactivated (w.subs i) l
  | _ => False

instance (w : World ι) (l : WorldLabel ι) : Decidable (w.SnapshotDeactivated l) := by
  unfold World.SnapshotDeactivated
  cases l <;> infer_instance

variable {w w' : World ι} {l : WorldLabel ι} [Fintype ι]

/-- The subscriptions that are initialised and not deactivated since. -/
def World.subscriptions (w : World ι) : Nat := (univ.filter fun i => (w.subs i).initialised).card

/-- With the inboxes and the timers of their image requests. -/
def World.openObjects (w : World ι) : Nat := w.subscriptions + ∑ i, (w.subs i).requestObjects

/-- The callbacks that have not taken the lock after their decrement. -/
def World.decremented (w : World ι) : Nat := ∑ i, Lifecycle.decremented (w.subs i)

structure World.Counted (w : World ι) : Prop where
  nonneg : 0 ≤ w.queue.mNumberOpenObjects
  count : w.queue.mNumberOpenObjects + w.decremented = w.openObjects
  exact : w.decremented = 0 → w.queue.mNumberOpenObjects = w.openObjects
  canDestroy : (∀ i, ((w.subs i).mState = .allocated ∨ (w.subs i).mState = .destroyed ∨
    (w.subs i).mState = .deallocated) ∧ (w.subs i).requestObjects = 0) → w.queue.canDestroy = .ok

/-! ## The share of a subscription -/

def share (s : SubscriptionImpl) : Int :=
  s.initialised.toNat + s.requestObjects - decremented s

theorem balance_eq (s : SubscriptionImpl) : balance s = s.mQueue.mNumberOpenObjects - share s := by
  unfold balance share
  omega

variable {s : SubscriptionImpl}

theorem Waits.withQueue (h : Waits s) (q : Queue) (n : Nat) :
    Waits { s with mQueue := q, requestObjects := n } := ⟨h.callback, h.bridge, h.initialised⟩

theorem Waits.decremented_le (h : Waits s) : decremented s ≤ s.initialised.toNat := by
  unfold decremented
  rcases h.callback with hnil | ⟨p, howed, hawaits, -⟩
  · rw [hnil]; exact Nat.zero_le _
  · have hinitialised : s.initialised := by
      rw [h.initialised]
      cases hstate : s.mState <;> rw [hstate] at hawaits <;>
        first | rfl | cases hawaits
    rw [howed, hinitialised]
    exact List.countP_le_length

omit [DecidableEq ι] in
theorem World.sum_share (w : World ι) :
    ∑ i, share (w.subs i) = (w.openObjects : Int) - w.decremented := by
  have hcard : (∑ i, ((w.subs i).initialised.toNat : Int)) = w.subscriptions := by
    unfold World.subscriptions
    rw [card_filter]
    push_cast
    refine sum_congr rfl fun i _ => ?_
    cases (w.subs i).initialised <;> rfl
  unfold share World.openObjects World.decremented
  rw [sum_sub_distrib, sum_add_distrib, hcard]
  push_cast
  rfl

theorem World.sum_share_put (w : World ι) (i : ι) (s : SubscriptionImpl) :
    ∑ j, share ((w.put i s).subs j) = ∑ j, share (w.subs j) - share (w.subs i) + share s := by
  show ∑ j, share (Function.update w.subs i s j) = _
  have hupdate : (fun j => share (Function.update w.subs i s j)) =
      Function.update (fun j => share (w.subs j)) i (share s) :=
    (Function.comp_update share w.subs i s)
  rw [hupdate, sum_update_of_mem (mem_univ i), sdiff_singleton_eq_erase,
    ← add_sum_erase univ _ (mem_univ i)]
  omega

/-! ## Runs -/

/-- Every subscription waits as it should, and the queue has counted what it should. -/
structure World.Inv (w : World ι) : Prop where
  waits : ∀ i, Waits (w.subs i)
  count : w.queue.mNumberOpenObjects = ∑ i, share (w.subs i)

omit [DecidableEq ι] in
theorem World.Inv.counted (h : w.Inv) : w.Counted := by
  have hcount : w.queue.mNumberOpenObjects + w.decremented = w.openObjects := by
    rw [h.count, w.sum_share]; omega
  have hnonneg : 0 ≤ w.queue.mNumberOpenObjects := by
    rw [h.count]
    refine sum_nonneg fun i _ => ?_
    have hle := (h.waits i).decremented_le
    unfold share
    omega
  refine ⟨hnonneg, hcount, fun hzero => by rw [← hcount, hzero]; simp, fun hstates => ?_⟩
  have hnone : w.subscriptions = 0 := by
    refine card_eq_zero.2 (filter_eq_empty_iff.2 fun i _ => ?_)
    rw [(h.waits i).initialised]
    rcases (hstates i).1 with hstate | hstate | hstate <;> rw [hstate] <;> decide
  have hopen : w.openObjects = 0 := by
    rw [World.openObjects, hnone, Nat.zero_add]
    exact sum_eq_zero fun i _ => (hstates i).2
  rw [Queue.canDestroy, if_pos (by omega)]

/-- A subscription changes, and the queue counts what the change of its share is. -/
theorem World.Inv.put (h : w.Inv) {i : ι} {s : SubscriptionImpl} (hwaits : Waits s)
    (hshare : s.mQueue.mNumberOpenObjects - share s =
      w.queue.mNumberOpenObjects - share (w.subs i)) : (w.put i s).Inv := by
  refine ⟨fun j => ?_, ?_⟩
  · show Waits (Function.update w.subs i s j)
    rw [Function.update_apply]
    split
    · exact hwaits
    · exact h.waits j
  · have hcount := h.count
    rw [World.sum_share_put]
    show s.mQueue.mNumberOpenObjects = _
    omega

theorem World.Inv.step (h : w.Inv) (hsnapshot : ¬ w.SnapshotDeactivated l)
    (hstep : w.step l = some w') : w'.Inv := by
  cases l with
  | life i l =>
    obtain ⟨s, hs, rfl⟩ := Option.map_eq_some_iff.1 hstep
    have hkeeps := ((h.waits i).withQueue w.queue (w.subs i).requestObjects).step hsnapshot hs
    have hbalance := hkeeps.balance_eq
    rw [balance_eq, balance_eq] at hbalance
    exact h.put hkeeps.waits hbalance
  | opened i =>
    cases hstep
    refine h.put ((h.waits i).withQueue _ _) ?_
    show w.queue.mNumberOpenObjects + 1 - ((w.subs i).initialised.toNat +
      ((w.subs i).requestObjects + 1 : Nat) - Lifecycle.decremented (w.subs i)) = _
    unfold share
    omega
  | closed i =>
    obtain ⟨hsome, hput⟩ := Option.ite_none_left_eq_some.1 hstep
    cases hput
    refine h.put ((h.waits i).withQueue _ _) ?_
    show w.queue.mNumberOpenObjects - 1 - ((w.subs i).initialised.toNat +
      ((w.subs i).requestObjects - 1 : Nat) - Lifecycle.decremented (w.subs i)) = _
    unfold share
    omega

/-- **The open objects are counted** as long as no activated snapshot or dictionary is
deactivated. -/
theorem counted_of_runs
    (hw : Runs World.step (fun w l => ¬ w.SnapshotDeactivated l) ({} : World ι) w) :
    w.Counted := by
  have hinv : w.Inv := by
    refine hw.invariant ⟨fun i => ⟨.inl rfl, fun h => by (cases h), rfl⟩, ?_⟩
      fun w l w' h hok hstep => h.step hok hstep
    symm
    exact sum_eq_zero fun i _ => rfl
  exact hinv.counted

/-- The labels of a subscription from its set-up to its deallocation. -/
def wholeLife (a : SetUp) (calledBack : List Part) : List Label :=
  [⟨.setup a, {}⟩, ⟨.activate, {}⟩, ⟨.createAction a.transport, {}⟩,
    ⟨.part (.onCreate (some a.transport)), {}⟩, ⟨.deactivate, {}⟩,
    ⟨.part (.deactivate false (some a.transport) false), {}⟩] ++
  calledBack.map (fun p => ⟨.part p, {}⟩) ++
  [⟨.destroy, {}⟩, ⟨.part (.deactivate false (some a.transport) true), {}⟩,
    ⟨.part .destroy, {}⟩, ⟨.part (.onDestroy 0), {}⟩, ⟨.deallocate, {}⟩]

/-- A subscription that starts a reply timer and whose bridge calls back for everything, and a
snapshot that is left activated with its two inboxes. -/
def twoLives : List (WorldLabel Bool) :=
  ((wholeLife {} [.bridgeDestroyed, .onSubscriptionDestroyed]).map (.life true)).insertIdx 3
      (.opened true) ++ [.closed true, .closed true, .closed true] ++
    ((wholeLife { mServiceLevel := .snapshot } []).take 3).map (.life false)

theorem counted_of_runs_twoLives : ∃ w : World Bool, twoLives.foldlM World.step {} = some w ∧
    w.queue.mNumberOpenObjects = 3 ∧ w.Counted :=
  ⟨_, rfl, rfl, counted_of_runs (Runs.init.checked twoLives rfl)⟩

/-- The inboxes of the image requests are counted once the subscription is set up. -/
theorem counts_inboxes : ¬ ∀ w : World Unit, Reachable World.step {} w →
    w.queue.mNumberOpenObjects = w.subscriptions := by
  intro h
  obtain ⟨w, hrun, hcount, hnone⟩ : ∃ w : World Unit,
      [WorldLabel.life () ⟨.setup {}, {}⟩].foldlM World.step {} = some w ∧
      w.queue.mNumberOpenObjects = 2 ∧ w.subscriptions = 0 := ⟨_, rfl, rfl, rfl⟩
  have heq := h w (Runs.init.steps (fun _ _ _ => trivial) hrun)
  rw [hcount, hnone] at heq
  contradiction

/-- A snapshot is still counted when it is deallocated and its inboxes are closed. -/
theorem not_counted_snapshot : ¬ ∀ w : World Unit, Reachable World.step {} w → w.Counted := by
  intro h
  obtain ⟨w, hrun, hstate, hcount⟩ : ∃ w : World Unit,
      ((wholeLife { mServiceLevel := .snapshot } []).map (WorldLabel.life ()) ++
        [WorldLabel.closed (), WorldLabel.closed ()]).foldlM World.step {} = some w ∧
      ((w.subs ()).mState = .deallocated ∧ (w.subs ()).requestObjects = 0) ∧
      w.queue.canDestroy = .queueOpenObjects := ⟨_, rfl, ⟨rfl, rfl⟩, rfl⟩
  have hcounted := h w (Runs.init.steps (fun _ _ _ => trivial) hrun)
  have hok := hcounted.canDestroy fun i => ⟨.inr (.inr hstate.1), hstate.2⟩
  rw [hcount] at hok
  contradiction

end Mama.Lifecycle

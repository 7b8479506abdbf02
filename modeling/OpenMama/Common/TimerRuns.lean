import OpenMama.Common.Timers

/-!
# Runs of the timer heap

As long as `createTimer` finds room for its byte whenever it has to write it, no thread is
stopped with the lock held, no wake-up is lost and the callbacks are called when they
should be.  Nothing else is needed but that a callback does not make a timer that is due
before its own.  When there is no room, the lock is never given back.
-/

namespace Common.Timers

open Lib List Option

/-! ## What is asked of the timers -/

/-- `select` returns in time for the timers. -/
def Wait.InTime (wait : Wait) (tree : List Timer) : Prop :=
  ∀ timer ∈ tree, match wait with
    | .forever => False
    | .upTo now timeout => timeout = 0 ∨ now + timeout ≤ timer.1

/-- An event may come after another: no timer is fired twice, none after it was destroyed,
and those of one pass in the order of the times that they are due. -/
def Event.MayFollow (later earlier : Event) : Prop :=
  match later, earlier with
  | .fired pass' timer' _, .fired pass timer _ =>
    timer.2 ≠ timer'.2 ∧ (pass = pass' → timer.1 ≤ timer'.1)
  | .fired _ timer' _, .destroyed id => timer'.2 ≠ id
  | .destroyed _, _ => True

/-- `createTimer` finds no room for its byte and keeps the lock. -/
def Heap.Stuck (capacity : Nat) (s : Heap) : Prop := s.writing ≠ none ∧ capacity ≤ s.unread

structure Good (capacity : Nat) (s : Heap) : Prop where
  awake : ∀ wait, s.dispatcher = .selecting wait → wait.InTime s.mTimeTree ∨ 0 < s.unread
  order : s.log.Pairwise Event.MayFollow
  due : ∀ pass timer now, .fired pass timer now ∈ s.log → timer.1 ≤ now
  free : ¬ s.Stuck capacity

/-- There is room for the byte that `createTimer` has to write, and a callback makes no timer
that is due before its own. -/
def Meets (capacity : Nat) (s : Heap) : Label → Prop
  | .create caller timeout =>
    (s.kickPipe timeout → s.unread < capacity) ∧
    ∀ now due, s.dispatcher = .callback now due → caller = .callback → due ≤ timeout
  | _ => True

/-! ## The tree -/

theorem le_trans' {x y z : Timer} (h : le x y) (h' : le y z) : le x z := by
  unfold le at *
  omega

theorem le_total' (x y : Timer) : le x y ∨ le y x := by
  unfold le
  omega

instance : IsTrans Timer le := ⟨fun _ _ _ => le_trans'⟩

instance : Std.Total le := ⟨le_total'⟩

theorem fst_le_of_le {x y : Timer} (h : le x y) : x.1 ≤ y.1 := by
  unfold le at h
  omega

/-- The timers made so far, each with its own number, in their order. -/
structure Tree (made : Nat) (tree : List Timer) : Prop where
  sorted : tree.Pairwise le
  nodup : (tree.map Prod.snd).Nodup
  below : ∀ timer ∈ tree, timer.2 < made

variable {made : Nat} {tree rest : List Timer} {first timer : Timer}

theorem Tree.insert (h : Tree made tree) (timeout : Int) :
    Tree (made + 1) (tree.orderedInsert le (timeout, made)) where
  sorted := h.sorted.orderedInsert (timeout, made) tree
  nodup := by
    have hperm := (perm_orderedInsert le (timeout, made) tree).map Prod.snd
    rw [hperm.nodup_iff, map_cons, nodup_cons]
    refine ⟨fun hmem => ?_, h.nodup⟩
    obtain ⟨timer, htimer, hid⟩ := mem_map.1 hmem
    have hlt := h.below timer htimer
    omega
  below timer htimer := by
    rcases (mem_orderedInsert le).1 htimer with rfl | hmem
    · exact Nat.lt_succ_self made
    · exact Nat.lt_succ_of_lt (h.below timer hmem)

theorem Tree.filter (h : Tree made tree) (id : Nat) : Tree made (tree.filter (·.2 ≠ id)) where
  sorted := h.sorted.filter _
  nodup := h.nodup.sublist (filter_sublist.map Prod.snd)
  below timer htimer := h.below timer (mem_of_mem_filter htimer)

theorem Tree.tail (h : Tree made (first :: rest)) : Tree made rest where
  sorted := h.sorted.of_cons
  nodup := (nodup_cons.1 h.nodup).2
  below timer htimer := h.below timer (mem_cons_of_mem first htimer)

theorem Tree.first_le (h : Tree made (first :: rest)) (htimer : timer ∈ rest) : first.1 ≤ timer.1 :=
  fst_le_of_le (rel_of_pairwise_cons h.sorted htimer)

theorem inTime_waitFor (h : Tree made tree) (now : Int) : (waitFor tree now).InTime tree := by
  cases tree with
  | nil => exact fun timer htimer => absurd htimer not_mem_nil
  | cons first rest =>
    intro timer htimer
    have hfirst : first.1 ≤ timer.1 := by
      rcases mem_cons.1 htimer with rfl | htimer
      · exact Int.le_refl _
      · exact h.first_le htimer
    simp only [waitFor, head?_cons]
    split
    · omega
    · exact .inl rfl

/-! ## The invariant -/

structure Inv (s : Heap) : Prop where
  idle : s.writing = none
  tree : Tree s.made s.mTimeTree
  awake : ∀ wait, s.dispatcher = .selecting wait → wait.InTime s.mTimeTree ∨ 0 < s.unread
  order : s.log.Pairwise Event.MayFollow
  fired : ∀ pass timer now, .fired pass timer now ∈ s.log →
    timer.1 ≤ now ∧ timer.2 < s.made ∧ pass ≤ s.passes ∧ ∀ timer' ∈ s.mTimeTree, timer'.2 ≠ timer.2
  destroyed : ∀ id, .destroyed id ∈ s.log →
    id < s.made ∧ ∀ timer ∈ s.mTimeTree, timer.2 ≠ id
  /-- In a pass, no timer of the tree is due before one that was fired in it. -/
  ahead : ∀ timer now', .fired s.passes timer now' ∈ s.log →
    (∃ now, s.dispatcher = .dispatching now) ∨ (∃ now due, s.dispatcher = .callback now due) →
    ∀ timer' ∈ s.mTimeTree, timer.1 ≤ timer'.1
  /-- In a callback, no timer of the pass was due after it. -/
  last : ∀ timer now', .fired s.passes timer now' ∈ s.log →
    ∀ now due, s.dispatcher = .callback now due → timer.1 ≤ due

variable {capacity : Nat} {s s' : Heap}

theorem Inv.good (h : Inv s) : Good capacity s where
  awake := h.awake
  order := h.order
  due pass timer now hfired := (h.fired pass timer now hfired).1
  free hstuck := hstuck.1 h.idle

theorem inv_init : Inv {} where
  idle := rfl
  tree := ⟨List.Pairwise.nil, nodup_nil, fun _ h => absurd h not_mem_nil⟩
  awake _ h := absurd h (by simp)
  order := List.Pairwise.nil
  fired _ _ _ h := absurd h not_mem_nil
  destroyed _ h := absurd h not_mem_nil
  ahead _ _ h := absurd h not_mem_nil
  last _ _ h := absurd h not_mem_nil

variable {caller : Caller}

theorem mayLock_dispatching {now : Int} (h : s.mayLock caller) :
    s.dispatcher ≠ .dispatching now := by
  intro hd
  simp [Heap.mayLock, hd] at h

theorem mayLock_callback {now due : Int} (h : s.mayLock caller)
    (hd : s.dispatcher = .callback now due) : caller = .callback := by
  cases caller with
  | callback => rfl
  | thread => simp [Heap.mayLock, hd] at h

theorem inTime_of_not_kick {wait : Wait} {timeout : Int} (hkick : s.kickPipe timeout = false)
    (h : wait.InTime s.mTimeTree) (id : Nat) :
    wait.InTime (s.mTimeTree.orderedInsert le (timeout, id)) := by
  intro timer htimer
  rcases (mem_orderedInsert le).1 htimer with rfl | htimer
  · unfold Heap.kickPipe at hkick
    cases htree : s.mTimeTree with
    | nil => rw [htree] at hkick; cases hkick
    | cons first rest =>
      rw [htree] at hkick
      have hlate : first.1 < timeout := by simpa using hkick
      have hfirst := h first (htree ▸ mem_cons_self)
      cases wait with
      | forever => exact hfirst
      | upTo now t => omega
  · exact h timer htimer

section

variable (h : Inv s)

include h

theorem Inv.create {timeout : Int} (hmeets : Meets capacity s (.create caller timeout))
    (hstep : step capacity s (.create caller timeout) = some s') : Inv s' := by
  simp only [step] at hstep
  obtain ⟨hlock, hstep⟩ := ite_none_right_eq_some.1 hstep
  obtain ⟨hroom, hlate⟩ := hmeets
  have hmem : ∀ timer, timer ∈ s.mTimeTree.orderedInsert le (timeout, s.made) →
      timer = (timeout, s.made) ∨ timer ∈ s.mTimeTree :=
    fun timer => (mem_orderedInsert le).1
  -- The new timer is in time, or the byte says that it may not be.
  have hs' : s' = { s with
        mTimeTree := s.mTimeTree.orderedInsert le (timeout, s.made)
        made := s.made + 1
        unread := if s.kickPipe timeout then s.unread + 1 else s.unread } := by
    split at hstep
    case isTrue hkick =>
      rw [if_pos (hroom hkick), Option.some.injEq] at hstep
      rw [← hstep, if_pos hkick]
    case isFalse hkick =>
      rw [Option.some.injEq] at hstep
      rw [← hstep, if_neg hkick]
  subst hs'
  refine ⟨h.idle, h.tree.insert timeout, ?_, h.order, ?_, ?_, ?_, h.last⟩
  · intro wait hwait
    by_cases hkick : s.kickPipe timeout
    · right
      rw [if_pos hkick]
      exact Nat.succ_pos _
    · dsimp only
      rw [if_neg hkick]
      exact (h.awake wait hwait).imp_left fun hin =>
        inTime_of_not_kick (by simpa using hkick) hin s.made
  · intro pass timer now hfired
    obtain ⟨hdue, hmade, hpass, hgone⟩ := h.fired pass timer now hfired
    refine ⟨hdue, Nat.lt_succ_of_lt hmade, hpass, fun timer' htimer' => ?_⟩
    rcases hmem timer' htimer' with rfl | htimer'
    · exact Nat.ne_of_gt hmade
    · exact hgone timer' htimer'
  · intro id hid
    obtain ⟨hmade, hgone⟩ := h.destroyed id hid
    refine ⟨Nat.lt_succ_of_lt hmade, fun timer htimer => ?_⟩
    rcases hmem timer htimer with rfl | htimer
    · exact Nat.ne_of_gt hmade
    · exact hgone timer htimer
  intro timer now' hfired hpass timer' htimer'
  rcases hmem timer' htimer' with rfl | htimer'
  · rcases hpass with ⟨now, hd⟩ | ⟨now, due, hd⟩
    · exact absurd hd (mayLock_dispatching hlock)
    · have hlast := h.last timer now' hfired now due hd
      have hdue := hlate now due hd (mayLock_callback hlock hd)
      exact Int.le_trans hlast hdue
  · exact h.ahead timer now' hfired hpass timer' htimer'

theorem Inv.destroy {id : Nat} (hstep : step capacity s (.destroy caller id) = some s') :
    Inv s' := by
  simp only [step, Bool.and_eq_true, decide_eq_true_eq] at hstep
  obtain ⟨hlock, hstep⟩ := ite_none_right_eq_some.1 hstep
  cases hstep
  have hsub : ∀ timer ∈ s.mTimeTree.filter (·.2 ≠ id), timer ∈ s.mTimeTree :=
    fun timer => mem_of_mem_filter
  have hlog : ∀ {pass timer now}, Event.fired pass timer now ∈ Event.destroyed id :: s.log →
      Event.fired pass timer now ∈ s.log := by
    intro pass timer now hmem
    rcases mem_cons.1 hmem with heq | hmem
    · cases heq
    · exact hmem
  refine ⟨h.idle, h.tree.filter id, ?_, ?_, ?_, ?_, ?_, ?_⟩
  · intro wait hwait
    exact (h.awake wait hwait).imp_left fun hin timer htimer => hin timer (hsub timer htimer)
  · exact pairwise_cons.2 ⟨fun _ _ => trivial, h.order⟩
  · intro pass timer now hfired
    obtain ⟨hdue, hmade, hpass, hgone⟩ := h.fired pass timer now (hlog hfired)
    exact ⟨hdue, hmade, hpass, fun timer' htimer' => hgone timer' (hsub timer' htimer')⟩
  · intro id' hid
    rcases mem_cons.1 hid with heq | hid
    · obtain rfl := Event.destroyed.inj heq
      exact ⟨hlock.2, fun timer htimer => by simpa using of_mem_filter htimer⟩
    · obtain ⟨hmade, hgone⟩ := h.destroyed id' hid
      exact ⟨hmade, fun timer htimer => hgone timer (hsub timer htimer)⟩
  · intro timer now' hfired hpass timer' htimer'
    exact h.ahead timer now' (hlog hfired) hpass timer' (hsub timer' htimer')
  · intro timer now' hfired; exact h.last timer now' (hlog hfired)

/-- The dispatch thread moves on without touching the timers, and without being in a pass
afterwards. -/
theorem Inv.leave {d : Dispatcher} {unread : Nat}
    (hd : ∀ now, d ≠ .dispatching now) (hd' : ∀ now due, d ≠ .callback now due)
    (hawake : ∀ wait, d = .selecting wait → wait.InTime s.mTimeTree ∨ 0 < unread) :
    Inv { s with dispatcher := d, unread := unread } where
  idle := h.idle
  tree := h.tree
  awake := hawake
  order := h.order
  fired := h.fired
  destroyed := h.destroyed
  ahead := by
    rintro timer now' - (⟨now, hnow⟩ | ⟨now, due, hdue⟩)
    · exact absurd hnow (hd now)
    · exact absurd hdue (hd' now due)
  last _ _ _ now due hdue := absurd hdue (hd' now due)

theorem Inv.start {now : Int} (hstep : step capacity s (.start now) = some s') : Inv s' := by
  simp only [step] at hstep
  split at hstep
  case isFalse => cases hstep
  case isTrue =>
    cases hstep
    refine h.leave (by simp) (by simp) ?_
    rintro _ ⟨⟩
    exact .inl (inTime_waitFor h.tree now)

theorem Inv.unlock {now : Int} (hstep : step capacity s (.unlock now) = some s') : Inv s' := by
  simp only [step] at hstep
  split at hstep
  case h_2 => cases hstep
  case h_1 =>
    split at hstep
    case isFalse => cases hstep
    case isTrue =>
      cases hstep
      refine h.leave (by simp) (by simp) ?_
      rintro _ ⟨⟩
      exact .inl (inTime_waitFor h.tree now)

theorem Inv.wake {result : Woken} (hstep : step capacity s (.wake result) = some s') : Inv s' := by
  simp only [step] at hstep
  split at hstep
  case h_2 => cases hstep
  case h_1 =>
    split at hstep
    case isTrue => cases hstep
    case isFalse => cases hstep; exact h.leave (by simp) (by simp) (by simp)

theorem Inv.drain {now : Int} (hstep : step capacity s (.drain now) = some s') : Inv s' := by
  simp only [step] at hstep
  split at hstep
  case h_2 => cases hstep
  case h_1 result hwoken =>
    split at hstep
    case isFalse => cases hstep
    case isTrue =>
      cases hstep
      have hnew : ∀ timer now', .fired (s.passes + 1) timer now' ∉ s.log := by
        intro timer now' hmem
        have hle := (h.fired _ timer now' hmem).2.2.1
        omega
      refine ⟨h.idle, h.tree, by simp, h.order, ?_, h.destroyed, ?_, ?_⟩
      · intro pass timer now' hfired
        obtain ⟨hdue, hmade, hpass, hgone⟩ := h.fired pass timer now' hfired
        exact ⟨hdue, hmade, Nat.le_succ_of_le hpass, hgone⟩
      · exact fun timer now' hfired => absurd hfired (hnew timer now')
      · exact fun timer now' hfired => absurd hfired (hnew timer now')

theorem Inv.returned (hstep : step capacity s .returned = some s') : Inv s' := by
  simp only [step] at hstep
  split at hstep
  case h_2 => cases hstep
  case h_1 now due hd =>
    split at hstep
    case isFalse => cases hstep
    case isTrue =>
      cases hstep
      refine ⟨h.idle, h.tree, by simp, h.order, h.fired, h.destroyed, ?_, by simp⟩
      exact fun timer now' hfired _ => h.ahead timer now' hfired (.inr ⟨now, due, hd⟩)

theorem Inv.fire (hstep : step capacity s .fire = some s') : Inv s' := by
  simp only [step] at hstep
  split at hstep
  case h_2 => cases hstep
  case h_1 now first rest hd htree =>
    obtain ⟨hdue, hstep⟩ := ite_none_right_eq_some.1 hstep
    cases hstep
    have hall := h.tree
    rw [htree] at hall
    have hfirst : first ∈ s.mTimeTree := htree ▸ mem_cons_self
    have hrest : ∀ timer ∈ rest, timer ∈ s.mTimeTree :=
      fun timer htimer => htree ▸ mem_cons_of_mem first htimer
    have hgone : ∀ timer ∈ rest, timer.2 ≠ first.2 := by
      intro timer htimer heq
      have hnodup := hall.nodup
      rw [map_cons, nodup_cons] at hnodup
      exact hnodup.1 (heq ▸ mem_map_of_mem htimer)
    refine ⟨h.idle, hall.tail, by simp, ?_, ?_, ?_, ?_, ?_⟩
    · refine pairwise_cons.2 ⟨fun e he => ?_, h.order⟩
      cases e with
      | fired pass timer now' =>
        obtain ⟨-, -, -, hnot⟩ := h.fired pass timer now' he
        refine ⟨(hnot first hfirst).symm, ?_⟩
        rintro rfl
        exact h.ahead timer now' he (.inl ⟨now, hd⟩) first hfirst
      | destroyed id => exact (h.destroyed id he).2 first hfirst
    · intro pass timer now' hfired
      rcases mem_cons.1 hfired with heq | hfired
      · obtain ⟨rfl, rfl, rfl⟩ := Event.fired.inj heq
        exact ⟨hdue, hall.below timer mem_cons_self, Nat.le_refl _, hgone⟩
      · obtain ⟨hdue', hmade, hpass, hnot⟩ := h.fired pass timer now' hfired
        exact ⟨hdue', hmade, hpass, fun timer' htimer' => hnot timer' (hrest timer' htimer')⟩
    · intro id hid
      rcases mem_cons.1 hid with heq | hid
      · cases heq
      · obtain ⟨hmade, hnot⟩ := h.destroyed id hid
        exact ⟨hmade, fun timer htimer => hnot timer (hrest timer htimer)⟩
    · intro timer now' hfired _ timer' htimer'
      rcases mem_cons.1 hfired with heq | hfired
      · obtain ⟨-, rfl, -⟩ := Event.fired.inj heq
        exact hall.first_le htimer'
      · exact h.ahead timer now' hfired (.inl ⟨now, hd⟩) timer' (hrest timer' htimer')
    · rintro timer now' hfired _ _ ⟨⟩
      rcases mem_cons.1 hfired with heq | hfired
      · obtain ⟨-, rfl, -⟩ := Event.fired.inj heq
        exact Int.le_refl _
      · exact h.ahead timer now' hfired (.inl ⟨now, hd⟩) first hfirst

theorem Inv.step {l : Label} (hmeets : Meets capacity s l)
    (hstep : step capacity s l = some s') : Inv s' := by
  cases l with
  | create caller timeout => exact h.create hmeets hstep
  | write => exact absurd hstep (by simp [Timers.step, h.idle])
  | destroy caller id => exact h.destroy hstep
  | start now => exact h.start hstep
  | wake result => exact h.wake hstep
  | drain now => exact h.drain hstep
  | fire => exact h.fire hstep
  | returned => exact h.returned hstep
  | unlock now => exact h.unlock hstep

end

/-- The timer heap is good in every run in which there is room for the bytes of `createTimer`. -/
theorem good_of_runs (capacity : Nat) (s : Heap)
    (hs : Runs (step capacity) (Meets capacity) {} s) : Good capacity s :=
  (hs.invariant inv_init fun _ _ _ h hmeets hstep => h.step hmeets hstep).good

/-- A timer that is created, waited for and fired. -/
theorem good_of_runs_fired : Good 1 { ({} : Heap) with
    made := 1, dispatcher := .dispatching 6, passes := 1, log := [.fired 1 (5, 0) 6] } := by
  refine good_of_runs 1 _ ?_
  have hcreate : Runs (step 1) (Meets 1) {} { mTimeTree := [(5, 0)], made := 1, unread := 1 } :=
    Runs.init.step (l := .create .thread 5) ⟨fun _ => Nat.one_pos, fun _ _ h => by cases h⟩ rfl
  have hstart := hcreate.step (l := Label.start 0) trivial rfl
  have hwake := hstart.step (l := Label.wake .readable) trivial rfl
  have hdrain := hwake.step (l := Label.drain 6) trivial rfl
  have hfire := hdrain.step (l := Label.fire) trivial rfl
  exact hfire.step (l := Label.returned) trivial rfl

/-! ## Without room -/

theorem kickPipe_zero (h : ∀ timer ∈ s.mTimeTree, timer.1 = 0) : s.kickPipe 0 := by
  unfold Heap.kickPipe
  cases htree : s.mTimeTree with
  | nil => rfl
  | cons first rest =>
    have hfirst := h first (htree ▸ mem_cons_self)
    simp [hfirst]

theorem create_room {timeout : Int} (hlock : s.mayLock caller)
    (hkick : s.kickPipe timeout) (hroom : s.unread < capacity) :
    step capacity s (.create caller timeout) = some { s with
      mTimeTree := s.mTimeTree.orderedInsert le (timeout, s.made)
      made := s.made + 1
      unread := s.unread + 1 } := by
  simp [step, hlock, hkick, hroom]

theorem create_full {timeout : Int} (hlock : s.mayLock caller)
    (hkick : s.kickPipe timeout) (hfull : capacity ≤ s.unread) :
    step capacity s (.create caller timeout) = some { s with
      mTimeTree := s.mTimeTree.orderedInsert le (timeout, s.made)
      made := s.made + 1
      writing := some caller } := by
  simp [step, hlock, hkick, Nat.not_lt.2 hfull]

theorem exists_full (capacity n : Nat) (hn : n ≤ capacity) :
    ∃ s, Reachable (step capacity) {} s ∧ s.unread = n ∧ s.writing = none ∧
      s.dispatcher = .starting ∧ ∀ timer ∈ s.mTimeTree, timer.1 = 0 := by
  induction n with
  | zero => exact ⟨{}, Runs.init, rfl, rfl, rfl, fun _ h => absurd h not_mem_nil⟩
  | succ n ih =>
    obtain ⟨s, hs, hunread, hwriting, hstarting, hdue⟩ := ih (Nat.le_of_succ_le hn)
    have hlock : s.mayLock .thread := by simp [Heap.mayLock, hwriting, hstarting]
    have hstep := create_room hlock (kickPipe_zero hdue) (hunread ▸ hn)
    refine ⟨_, hs.step trivial hstep, congrArg (· + 1) hunread, hwriting, hstarting, ?_⟩
    intro timer htimer
    rcases (mem_orderedInsert le).1 htimer with rfl | htimer
    · rfl
    · exact hdue timer htimer

theorem exists_stuck (capacity : Nat) : ∃ s, Reachable (step capacity) {} s ∧ s.Stuck capacity := by
  obtain ⟨s, hs, hunread, hwriting, hstarting, hdue⟩ :=
    exists_full capacity capacity (Nat.le_refl capacity)
  have hlock : s.mayLock .thread := by simp [Heap.mayLock, hwriting, hstarting]
  have hstep := create_full hlock (kickPipe_zero hdue) (Nat.le_of_eq hunread.symm)
  exact ⟨_, hs.step trivial hstep, by simp, Nat.le_of_eq hunread.symm⟩

/-- Three timers, and room for the bytes of two. -/
theorem not_good_of_runs : ¬ ∀ s, Reachable (step 2) {} s → Good 2 s := by
  intro h
  obtain ⟨s, hs, hstuck⟩ := exists_stuck 2
  exact (h s hs).free hstuck

end Common.Timers

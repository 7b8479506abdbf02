import Mathlib.Algebra.Order.Group.Nat
import Mathlib.Data.List.Nodup
import OpenMama.Lib.Until
import OpenMama.Mama.RefreshTransport

/-!
# Runs of the refreshes

The lists stay in order as long as no listener is reset in the second in which another one was
put to the end of the main list: a reset puts it behind the other, but is due one second
before it.  In order, the callback of the timer finds all that is due at the heads, and it
returns in any case, since what it has sent a refresh is not due any more.
-/

namespace Mama.Refresh

open List Function Option

variable {time : Nat → Nat} {s s' : RefreshTransport} {handle cur : Nat} {held rest : List Nat}
  {after : Int}

/-! ## What is asked of the lists -/

def next (s : RefreshTransport) (handle : Nat) : Int := (s.info handle).mNextRefreshTime

def interval : Int := MAMA_REFRESHINTERVALRAND * 60

def InOrder (s : RefreshTransport) (handles : List Nat) : Prop :=
  handles.Pairwise fun x y => next s x ≤ next s y

structure Sound (s : RefreshTransport) : Prop where
  once : ∀ handle ∈ s.registered, (s.mNewListeners ++ s.mListeners).count handle = 1
  known : ∀ handle ∈ s.mNewListeners ++ s.mListeners, handle ∈ s.registered
  flag : ∀ handle ∈ s.registered,
    (s.info handle).mIsInMainList ≠ 0 ↔ handle ∈ s.mListeners
  newInOrder : InOrder s s.mNewListeners
  mainInOrder : InOrder s s.mListeners

def Due (s : RefreshTransport) (curTime : Int) (handle : Nat) : Prop :=
  100 * next s handle ≤ 100 * curTime + REFRESH_GRANULARITY

/-- The callback returns; those that were due were sent a refresh, nobody was sent two, and nobody
is due after it. -/
def Refreshes (time : Nat → Nat) (s : RefreshTransport) (draw : Draw) (fuel : Nat) : Prop :=
  ∃ s', step time s (.timerCallback draw fuel) = some s' ∧
    (∀ handle ∈ s.registered, Due s (now time s) handle → handle ∈ s'.refreshed) ∧
    s'.refreshed.Nodup ∧
    ∀ handle ∈ s'.registered, ¬ Due s' (now time s) handle

/-- What is asked of the transport in a state: fuel for each listener is enough. -/
def Lawful (time : Nat → Nat) (s : RefreshTransport) : Prop :=
  Sound s ∧ ∀ draw fuel, s.registered.length < fuel → Refreshes time s draw fuel

/-- No other listener of the main list is due later than a reset makes this one. -/
def ResetOk (time : Nat → Nat) (s : RefreshTransport) (handle : Nat) : Prop :=
  ∀ other ∈ s.mListeners, other ≠ handle → next s other ≤ now time s + (interval - 1)

/-! ## The invariant -/

/-- The lists, with some of the handles held outside of them. -/
structure Inv (time : Nat → Nat) (held : List Nat) (s : RefreshTransport) : Prop where
  perm : (s.mNewListeners ++ (s.mListeners ++ held)).Perm s.registered
  nodup : s.registered.Nodup
  new : ∀ handle ∈ s.mNewListeners, (s.info handle).mIsInMainList = 0
  main : ∀ handle ∈ s.mListeners, (s.info handle).mIsInMainList ≠ 0
  bound : ∀ handle ∈ s.registered, next s handle ≤ now time s + interval
  newInOrder : InOrder s s.mNewListeners
  mainInOrder : InOrder s s.mListeners

theorem InOrder.congr {handles : List Nat} (h : InOrder s handles)
    (hnext : ∀ handle ∈ handles, next s' handle = next s handle) : InOrder s' handles := by
  refine List.Pairwise.imp_of_mem (fun hx hy hle => ?_) h
  rwa [hnext _ hx, hnext _ hy]

theorem InOrder.concat {handles : List Nat} (h : InOrder s handles)
    (hlast : ∀ other ∈ handles, next s other ≤ next s handle) :
    InOrder s (handles ++ [handle]) := by
  refine pairwise_append.mpr ⟨h, pairwise_singleton _ _, fun x hx y hy => ?_⟩
  obtain rfl := mem_singleton.mp hy
  exact hlast x hx

theorem now_le (htime : Monotone time) (s : RefreshTransport) : now time s ≤ time (s.calls + 1) :=
  Int.ofNat_le.mpr (htime (Nat.le_succ s.calls))

namespace Inv

theorem nodup' (hs : Inv time held s) : (s.mNewListeners ++ (s.mListeners ++ held)).Nodup :=
  hs.perm.nodup_iff.mpr hs.nodup

theorem mem_iff (hs : Inv time held s) : handle ∈ s.registered ↔ handle ∈ s.mNewListeners ∨
    handle ∈ s.mListeners ∨ handle ∈ held := by
  rw [← hs.perm.mem_iff, mem_append, mem_append]

theorem held_notMem (hs : Inv time [handle] s) :
    handle ∉ s.mNewListeners ∧ handle ∉ s.mListeners := by
  obtain ⟨-, hmain, hne⟩ := nodup_append.mp hs.nodup'
  obtain ⟨-, -, hne'⟩ := nodup_append.mp hmain
  refine ⟨fun h => hne handle h handle (by simp) rfl, fun h => ?_⟩
  exact hne' handle h handle (by simp) rfl

theorem sound (hs : Inv time [] s) : Sound s where
  once handle h := by
    have hnodup := hs.nodup'
    rw [append_nil] at hnodup
    refine count_eq_one_of_mem hnodup ?_
    simpa using hs.mem_iff.mp h
  known handle h := hs.mem_iff.mpr (by simpa using h)
  flag handle h := by
    constructor
    · intro hflag
      rcases hs.mem_iff.mp h with hnew | hmain | hheld
      · exact (hflag (hs.new handle hnew)).elim
      · exact hmain
      · cases hheld
    · exact hs.main handle
  newInOrder := hs.newInOrder
  mainInOrder := hs.mainInOrder

/-! ## One operation at a time -/

theorem clock (htime : Monotone time) (hs : Inv time held s) :
    Inv time held { s with calls := s.calls + 1 } where
  perm := hs.perm
  nodup := hs.nodup
  new := hs.new
  main := hs.main
  bound handle h := (hs.bound handle h).trans (Int.add_le_add_right (now_le htime s) interval)
  newInOrder := hs.newInOrder
  mainInOrder := hs.mainInOrder

theorem withRefreshed (hs : Inv time held s) (refreshed : List Nat) :
    Inv time held { s with refreshed := refreshed } where
  perm := hs.perm
  nodup := hs.nodup
  new := hs.new
  main := hs.main
  bound := hs.bound
  newInOrder := hs.newInOrder
  mainInOrder := hs.mainInOrder

theorem next_pushMain : next (pushMain time s handle after) handle = now time s + after := by
  show (Function.update s.info handle _ handle).mNextRefreshTime = _
  rw [update_self]

theorem next_pushMain_ne {other : Nat} (h : other ≠ handle) :
    next (pushMain time s handle after) other = next s other := by
  show (Function.update s.info handle _ other).mNextRefreshTime = _
  rw [update_of_ne h]
  rfl

/-- A handle that is held goes to the end of the main list, if nobody there is due later. -/
theorem pushMain (htime : Monotone time) (hs : Inv time [handle] s) (hafter : after ≤ interval)
    (hlast : ∀ other ∈ s.mListeners, next s other ≤ now time s + after) :
    Inv time [] (pushMain time s handle after) := by
  obtain ⟨hnew, hmain⟩ := hs.held_notMem
  have hne : ∀ {handles : List Nat}, handle ∉ handles → ∀ other ∈ handles,
      next (Refresh.pushMain time s handle after) other = next s other :=
    fun hmem other ho => next_pushMain_ne fun heq => hmem (heq ▸ ho)
  refine
    { perm := ?_
      nodup := hs.nodup
      new := fun other h => ?_
      main := fun other h => ?_
      bound := fun other h => ?_
      newInOrder := hs.newInOrder.congr (hne hnew)
      mainInOrder := ?_ }
  · show (s.mNewListeners ++ (s.mListeners ++ [handle] ++ [])).Perm _
    rw [append_nil]
    exact hs.perm
  · show (Function.update s.info handle _ other).mIsInMainList = 0
    have heq : other ≠ handle := by
      rintro rfl; exact hnew h
    rw [update_of_ne heq]
    exact hs.new other h
  · show (Function.update s.info handle _ other).mIsInMainList ≠ 0
    by_cases heq : other = handle
    · rw [heq, update_self]; exact Int.one_ne_zero
    · rw [update_of_ne heq]
      refine hs.main other ((mem_append.mp h).resolve_right fun hmem => ?_)
      exact heq (mem_singleton.mp hmem)
  · have hlater := now_le htime s
    show _ ≤ (time (s.calls + 1) : Int) + interval
    by_cases heq : other = handle
    · rw [heq, next_pushMain]; omega
    · rw [next_pushMain_ne heq]
      have := hs.bound other h
      omega
  · refine (hs.mainInOrder.congr (hne hmain)).concat fun other ho => ?_
    rw [next_pushMain, hne hmain other ho]
    exact hlast other ho

section

variable (hs : Inv time [] s)

include hs

theorem popNew (hlist : s.mNewListeners = cur :: rest) :
    Inv time [cur] { s with mNewListeners := rest } where
  perm := by
    have hperm := hs.perm
    rw [hlist, append_nil] at hperm
    refine List.Perm.trans ?_ hperm
    rw [← append_assoc]
    exact perm_append_singleton cur _
  nodup := hs.nodup
  new handle h := hs.new handle (hlist ▸ mem_cons_of_mem cur h)
  main := hs.main
  bound := hs.bound
  newInOrder := by
    have horder := hs.newInOrder
    rw [hlist] at horder
    exact horder.tail
  mainInOrder := hs.mainInOrder

theorem popMain (hlist : s.mListeners = cur :: rest) :
    Inv time [cur] { s with mListeners := rest } where
  perm := by
    have hperm := hs.perm
    rw [hlist, append_nil] at hperm
    refine List.Perm.trans ?_ hperm
    exact (perm_append_singleton cur rest).append_left s.mNewListeners
  nodup := hs.nodup
  new := hs.new
  main handle h := hs.main handle (hlist ▸ mem_cons_of_mem cur h)
  bound := hs.bound
  newInOrder := hs.newInOrder
  mainInOrder := by
    have horder := hs.mainInOrder
    rw [hlist] at horder
    exact horder.tail

theorem removeElement (hmem : handle ∈ s.registered) :
    Inv time [handle] (removeElement s handle) := by
  have hperm := hs.perm
  rw [append_nil] at hperm
  unfold Refresh.removeElement
  split
  · next hflag =>
    have hmain : handle ∈ s.mListeners := by
      rcases hs.mem_iff.mp hmem with hnew | hmain | hheld
      · exact (hflag (hs.new handle hnew)).elim
      · exact hmain
      · cases hheld
    refine
      { perm := ?_
        nodup := hs.nodup
        new := hs.new
        main := fun other h => hs.main other (mem_of_mem_erase h)
        bound := hs.bound
        newInOrder := hs.newInOrder
        mainInOrder := hs.mainInOrder.sublist erase_sublist }
    refine List.Perm.trans (List.Perm.append_left s.mNewListeners ?_) hperm
    exact (perm_append_singleton handle _).trans (perm_cons_erase hmain).symm
  next hflag =>
  have hnew : handle ∈ s.mNewListeners := by
    rcases hs.mem_iff.mp hmem with hnew | hmain | hheld
    · exact hnew
    · exact (hflag (hs.main handle hmain)).elim
    · cases hheld
  refine
    { perm := ?_
      nodup := hs.nodup
      new := fun other h => hs.new other (mem_of_mem_erase h)
      main := hs.main
      bound := hs.bound
      newInOrder := hs.newInOrder.sublist erase_sublist
      mainInOrder := hs.mainInOrder }
  refine List.Perm.trans ?_ hperm
  rw [← append_assoc]
  refine (perm_append_singleton handle _).trans ?_
  exact (perm_cons_erase hnew).symm.append_right s.mListeners

end

end Inv

/-! ## The callback of the timer -/

/-- In the midst of the callback that was called at `curTime`, in the state `before`. -/
structure Callback (time : Nat → Nat) (before : RefreshTransport) (curTime : Int)
    (s : RefreshTransport) : Prop where
  inv : Inv time [] s
  registered : s.registered = before.registered
  later : curTime ≤ now time s
  kept : ∀ handle, handle ∉ s.refreshed → next s handle = next before handle
  nodup : s.refreshed.Nodup
  moved : ∀ handle ∈ s.refreshed, handle ∈ s.mListeners
  notDue : ∀ handle ∈ s.refreshed, ¬ Due s curTime handle

theorem due_iff {curTime : Int} (hpos : 0 ≤ curTime) : Due s curTime handle ↔
    next s handle ≤ (100 * curTime + REFRESH_GRANULARITY).tdiv 100 := by
  rw [Due, REFRESH_GRANULARITY, Int.tdiv_eq_ediv_of_nonneg (by omega)]
  omega

variable {fuel : Nat}

namespace Callback

variable {before : RefreshTransport} {curTime : Int} {news mains : List Nat}

section

variable (htime : Monotone time)

include htime

section

variable (hs : Callback time before curTime s)

include hs

theorem refresh
    (hpop : Inv time [cur] { s with mNewListeners := news, mListeners := mains })
    (hmoved : ∀ handle ∈ s.refreshed, handle ∈ mains) (hcur : cur ∉ s.refreshed) :
    Callback time before curTime
      (pushMain time { sendRefresh s cur with mNewListeners := news, mListeners := mains } cur
        interval) where
  inv := by
    refine (hpop.withRefreshed (s.refreshed ++ [cur])).pushMain htime le_rfl fun other ho => ?_
    exact hpop.bound other (hpop.mem_iff.mpr (.inr (.inl ho)))
  registered := hs.registered
  later := hs.later.trans (now_le htime s)
  kept handle h := by
    have hnot : handle ∉ s.refreshed ++ [cur] := h
    rw [mem_append, mem_singleton, not_or] at hnot
    rw [Inv.next_pushMain_ne hnot.2]
    exact hs.kept handle hnot.1
  nodup := by
    refine nodup_append.mpr ⟨hs.nodup, nodup_singleton cur, fun x hx y hy => ?_⟩
    rintro rfl
    exact hcur (mem_singleton.mp hy ▸ hx)
  moved handle h := by
    rcases mem_append.mp h with hold | hnew
    · exact mem_append.mpr (.inl (hmoved handle hold))
    · exact mem_append.mpr (.inr hnew)
  notDue handle h := by
    by_cases heq : handle = cur
    · rw [Due, heq, Inv.next_pushMain]
      show ¬ 100 * (now time s + interval) ≤ _
      have := hs.later
      unfold interval MAMA_REFRESHINTERVALRAND REFRESH_GRANULARITY
      omega
    · have hold : handle ∈ s.refreshed :=
        (mem_append.mp h).resolve_right fun hmem => heq (mem_singleton.mp hmem)
      rw [Due, Inv.next_pushMain_ne heq]
      exact hs.notDue handle hold

theorem clock : Callback time before curTime { s with calls := s.calls + 1 } where
  inv := hs.inv.clock htime
  registered := hs.registered
  later := hs.later.trans (now_le htime s)
  kept := hs.kept
  nodup := hs.nodup
  moved := hs.moved
  notDue := hs.notDue

theorem refreshNew {readTime dontRefreshBefore maxMessages sent : Int}
    {handles : List Nat}
    (hlist : s.mNewListeners = handles) (hread : curTime ≤ readTime) :
    let s' := refreshNew time readTime dontRefreshBefore maxMessages sent handles s
    Callback time before curTime s' ∧ ∀ handle ∈ s'.mNewListeners, ¬ Due s' curTime handle := by
  induction handles generalizing s sent with
  | nil =>
    refine ⟨hs, fun handle h => ?_⟩
    have hnil : handle ∈ s.mNewListeners := h
    rw [hlist] at hnil
    cases hnil
  | cons cur rest ih =>
    unfold Refresh.refreshNew
    split
    · next hkeeps =>
      refine ⟨hs, fun handle h => ?_⟩
      obtain ⟨hlater, -⟩ := of_decide_eq_true hkeeps
      have horder := hs.inv.newInOrder
      rw [hlist] at h horder
      -- the head is due first
      have hle : next s cur ≤ next s handle := by
        rcases mem_cons.mp h with rfl | hrest
        · exact le_rfl
        · exact (pairwise_cons.mp horder).1 handle hrest
      have hcur : 100 * next s cur > 100 * readTime + REFRESH_GRANULARITY := hlater
      unfold Due
      omega
    · have hpop := hs.inv.popNew hlist
      have hcur : cur ∉ s.refreshed := fun h => hpop.held_notMem.2 (hs.moved cur h)
      exact ih (hs.refresh htime hpop hs.moved hcur) rfl

end

theorem processNewSubscriptions (draw : Draw)
    (hs : Callback time before curTime s) :
    let s' := processNewSubscriptions time s draw
    Callback time before curTime s' ∧ ∀ handle ∈ s'.mNewListeners, ¬ Due s' curTime handle := by
  have hclock := hs.clock htime
  unfold Refresh.processNewSubscriptions
  dsimp only
  split
  · next hlist =>
    refine ⟨hclock, fun handle h => ?_⟩
    have hnil : handle ∈ s.mNewListeners := h
    rw [hlist] at hnil
    cases hnil
  next cur rest hlist =>
  split
  · next hlater =>
    refine ⟨hclock, fun handle h => ?_⟩
    have hmem : handle ∈ s.mNewListeners := h
    have horder := hs.inv.newInOrder
    rw [hlist] at hmem horder
    have hle : next s cur ≤ next s handle := by
      rcases mem_cons.mp hmem with rfl | hrest
      · exact le_rfl
      · exact (pairwise_cons.mp horder).1 handle hrest
    have hcur : next s cur > now time s +
        (MAMA_REFRESHINTERVALRAND - MAMA_REFRESHINTERVALMIN) * 60 := hlater
    have := hs.later
    show ¬ 100 * next s handle ≤ _
    unfold MAMA_REFRESHINTERVALRAND MAMA_REFRESHINTERVALMIN at hcur
    unfold REFRESH_GRANULARITY
    omega
  · exact hclock.refreshNew htime hlist hs.later

/-- The loop over the main list returns once it has seen every listener that was in it. -/
theorem refreshDue (hpos : 0 ≤ curTime) {seen : List Nat} (hs : Callback time before curTime s)
    (hnew : ∀ handle ∈ s.mNewListeners, ¬ Due s curTime handle)
    (hlist : s.mListeners = rest ++ seen) (hseen : ∀ handle ∈ seen, ¬ Due s curTime handle)
    (hfuel : rest.length < fuel) :
    ∃ s', refreshDue time ((100 * curTime + REFRESH_GRANULARITY).tdiv 100) fuel s = some s' ∧
      Callback time before curTime s' ∧ ∀ handle ∈ s'.registered, ¬ Due s' curTime handle := by
  induction fuel generalizing s rest seen with
  | zero => cases hfuel
  | succ fuel ih =>
    have hreturn : (∀ handle ∈ s.mListeners, ¬ Due s curTime handle) →
        ∀ handle ∈ s.registered, ¬ Due s curTime handle := by
      intro hmain handle h
      rcases hs.inv.mem_iff.mp h with hmem | hmem | hmem
      · exact hnew handle hmem
      · exact hmain handle hmem
      · cases hmem
    unfold Refresh.refreshDue
    cases hcons : s.mListeners with
    | nil =>
      refine ⟨s, rfl, hs, hreturn fun handle h => ?_⟩
      rw [hcons] at h
      cases h
    | cons cur tail =>
      dsimp only
      have hiff : Due s curTime cur ↔ (s.info cur).mNextRefreshTime ≤ _ := due_iff hpos
      split
      · next hlater =>
        have hcur : ¬ Due s curTime cur := fun hdue => absurd (hiff.mp hdue) (not_le.mpr hlater)
        refine ⟨s, rfl, hs, hreturn fun handle h => ?_⟩
        have horder := hs.inv.mainInOrder
        rw [hcons] at h horder
        rcases mem_cons.mp h with rfl | htail
        · exact hcur
        · have hle := (pairwise_cons.mp horder).1 handle htail
          unfold Due at hcur ⊢
          omega
      next hlater =>
      have hdue : Due s curTime cur := hiff.mpr (not_lt.mp hlater)
      have hpop := hs.inv.popMain hcons
      have hcur : cur ∉ s.refreshed := fun h => hs.notDue cur h hdue
      have hmoved : ∀ handle ∈ s.refreshed, handle ∈ tail := by
        intro handle h
        have hmem := hs.moved handle h
        rw [hcons] at hmem
        refine (mem_cons.mp hmem).resolve_left ?_
        rintro rfl
        exact hcur h
      -- the head is one that was not seen yet
      obtain ⟨rest', rfl, rfl⟩ : ∃ rest', rest = cur :: rest' ∧ tail = rest' ++ seen := by
        rw [hcons] at hlist
        cases rest with
        | nil =>
          refine (hseen cur ?_ hdue).elim
          rw [← hlist.trans (nil_append seen)]
          exact mem_cons_self
        | cons x rest' =>
          obtain ⟨rfl, rfl⟩ := List.cons.inj hlist
          exact ⟨rest', rfl, rfl⟩
      have hnext := hs.refresh htime hpop hmoved hcur
      have hne : ∀ handle, handle ≠ cur → ¬ Due s curTime handle → ¬ Due (pushMain time
          { sendRefresh s cur with mListeners := rest' ++ seen } cur interval) curTime handle := by
        intro handle heq h
        rwa [Due, Inv.next_pushMain_ne heq]
      refine ih hnext (fun handle h => ?_) (append_assoc rest' seen [cur])
        (fun handle h => ?_) (Nat.lt_of_succ_lt_succ hfuel)
      · refine hne handle ?_ (hnew handle h)
        rintro rfl
        exact hnew _ h hdue
      · rcases mem_append.mp h with hold | hlast
        · refine hne handle ?_ (hseen handle hold)
          rintro rfl
          exact hseen _ hold hdue
        · obtain rfl := mem_singleton.mp hlast
          exact hnext.notDue _ (mem_append.mpr (.inr mem_cons_self))

end

end Callback

section

variable (htime : Monotone time)

include htime

theorem Inv.callback (hs : Inv time [] s) :
    Callback time s (now time s) { s with calls := s.calls + 1, refreshed := [] } where
  inv := (hs.withRefreshed []).clock htime
  registered := rfl
  later := now_le htime s
  kept _ _ := rfl
  nodup := nodup_nil
  moved handle h := by cases h
  notDue handle h := by cases h

/-- **The callback of the timer**, with fuel for each listener. -/
theorem Inv.refreshes (hs : Inv time [] s) (draw : Draw) (hfuel : s.registered.length < fuel) :
    Refreshes time s draw fuel := by
  obtain ⟨hnews, hnot⟩ := (hs.callback htime).processNewSubscriptions htime draw
  have hlength : (Refresh.processNewSubscriptions time
      { s with calls := s.calls + 1, refreshed := [] } draw).mListeners.length < fuel := by
    have hperm := hnews.inv.perm.length_eq
    rw [hnews.registered, length_append, length_append] at hperm
    omega
  obtain ⟨s', hrun, hs', hdone⟩ := hnews.refreshDue htime (Int.natCast_nonneg _) hnot
    (append_nil _).symm (fun handle h => by cases h) hlength
  refine ⟨s', hrun, fun handle h hdue => ?_, hs'.nodup, hdone⟩
  by_contra hnot
  refine hdone handle (hs'.registered ▸ h) ?_
  rwa [Due, hs'.kept handle hnot]

/-! ## Runs -/

omit htime in
theorem refreshDue_fuel {refreshUntil : Int} (h : refreshDue time refreshUntil fuel s = some s')
    (more : Nat) : refreshDue time refreshUntil (fuel + more) s = some s' := by
  induction fuel generalizing s with
  | zero => cases h
  | succ fuel ih =>
    rw [Nat.succ_add]
    unfold refreshDue at h ⊢
    cases hcons : s.mListeners with
    | nil => rwa [hcons] at h
    | cons cur rest =>
      rw [hcons] at h
      dsimp only at h ⊢
      by_cases hlater : (s.info cur).mNextRefreshTime > refreshUntil
      · rw [if_pos hlater] at h ⊢; exact h
      · rw [if_neg hlater] at h ⊢; exact ih h

theorem Inv.timerCallback (hs : Inv time [] s) {draw : Draw}
    (h : doRefresh time s draw fuel = some s') : Inv time [] s' := by
  obtain ⟨hnews, hnot⟩ := (hs.callback htime).processNewSubscriptions htime draw
  have hmore := refreshDue_fuel h ((Refresh.processNewSubscriptions time
    { s with calls := s.calls + 1, refreshed := [] } draw).mListeners.length + 1)
  obtain ⟨s₁, hrun, hs₁, -⟩ := hnews.refreshDue htime (Int.natCast_nonneg _) hnot
    (append_nil _).symm (fun handle h => by cases h)
    (Nat.lt_of_lt_of_le (Nat.lt_succ_self _) (Nat.le_add_left _ fuel))
  cases hmore.symm.trans hrun
  exact hs₁.inv

theorem Inv.addSubscription (hs : Inv time [] s) (hnot : handle ∉ s.registered) :
    Inv time [] (addSubscription time (allocateSubscInfo s handle) handle) := by
  have hnew : handle ∉ s.mNewListeners := fun h => hnot (hs.mem_iff.mpr (.inl h))
  have hmain : handle ∉ s.mListeners := fun h => hnot (hs.mem_iff.mpr (.inr (.inl h)))
  generalize hs' : Refresh.addSubscription time (allocateSubscInfo s handle) handle = s'
  have hself : s'.info handle = ⟨now time s + interval, 0⟩ := by
    rw [← hs']
    show Function.update (Function.update s.info handle {}) handle
      { Function.update s.info handle {} handle with
        mNextRefreshTime := now time s + interval } handle = _
    rw [update_self, update_self]
  have hother : ∀ other, other ≠ handle → s'.info other = s.info other := by
    intro other h
    rw [← hs']
    show Function.update (Function.update s.info handle {}) handle _ other = _
    rw [update_of_ne h, update_of_ne h]
  have hkept : ∀ {handles : List Nat}, handle ∉ handles → ∀ other ∈ handles,
      next s' other = next s other := by
    intro handles hmem other ho
    refine congrArg SubscriptionInfo.mNextRefreshTime (hother other ?_)
    rintro rfl
    exact hmem ho
  have hlists : s'.mNewListeners = s.mNewListeners ++ [handle] ∧ s'.mListeners = s.mListeners ∧
      s'.registered = handle :: s.registered ∧ s'.calls = s.calls + 1 := by
    subst hs'
    exact ⟨rfl, rfl, rfl, rfl⟩
  obtain ⟨hnews, hmains, hreg, hcalls⟩ := hlists
  refine
    { perm := ?_
      nodup := ?_
      new := fun other h => ?_
      main := fun other h => ?_
      bound := fun other h => ?_
      newInOrder := ?_
      mainInOrder := ?_ }
  · rw [hnews, hmains, hreg, append_assoc]; exact perm_middle.trans (hs.perm.cons handle)
  · rw [hreg]; exact nodup_cons.mpr ⟨hnot, hs.nodup⟩
  · by_cases heq : other = handle
    · rw [heq, hself]
    · rw [hnews] at h
      rw [hother other heq]
      refine hs.new other ((mem_append.mp h).resolve_right fun hmem => ?_)
      exact heq (mem_singleton.mp hmem)
  · rw [hmains] at h
    rw [hother other fun heq => hmain (heq ▸ h)]
    exact hs.main other h
  · have hlater := now_le htime s
    have hnow : now time s' = time (s.calls + 1) := by rw [now, hcalls]
    by_cases heq : other = handle
    · have : next s' other = now time s + interval := by
        rw [next, heq, hself]
      omega
    · rw [hreg] at h
      have hold := hs.bound other ((mem_cons.mp h).resolve_left heq)
      have : next s' other = next s other :=
        congrArg SubscriptionInfo.mNextRefreshTime (hother other heq)
      omega
  · rw [hnews]
    refine (hs.newInOrder.congr (hkept hnew)).concat fun other ho => ?_
    have hold := hs.bound other (hs.mem_iff.mpr (.inl ho))
    have : next s' handle = now time s + interval := by rw [next, hself]
    rwa [hkept hnew other ho, this]
  · rw [hmains]; exact hs.mainInOrder.congr (hkept hmain)

omit htime in
theorem Inv.removeListener (hs : Inv time [] s) (hmem : handle ∈ s.registered) :
    Inv time [] (removeListener s handle) := by
  have hheld := hs.removeElement hmem
  have hsame : (Refresh.removeElement s handle).registered = s.registered := by
    unfold Refresh.removeElement
    split <;> rfl
  obtain ⟨hnew, hmain⟩ := hheld.held_notMem
  generalize hs' : Refresh.removeElement s handle = s₁ at hheld hsame hnew hmain
  have hremoved : Refresh.removeListener s handle =
      { s₁ with registered := s₁.registered.erase handle } := by
    rw [← hs']
    rfl
  rw [hremoved]
  refine
    { perm := ?_
      nodup := hheld.nodup.erase handle
      new := hheld.new
      main := hheld.main
      bound := fun other h => hheld.bound other (mem_of_mem_erase h)
      newInOrder := hheld.newInOrder
      mainInOrder := hheld.mainInOrder }
  have hperm := hheld.perm.erase handle
  rwa [erase_append_right _ hnew, erase_append_right _ hmain, erase_cons_head] at hperm

theorem Inv.reset (hs : Inv time [] s) (hmem : handle ∈ s.registered)
    (hok : ResetOk time s handle) : Inv time [] (resetRefreshForListener time s handle) := by
  have hheld := hs.removeElement hmem
  have hsub : ∀ other ∈ (Refresh.removeElement s handle).mListeners, other ∈ s.mListeners := by
    unfold Refresh.removeElement
    split
    · exact fun other h => mem_of_mem_erase h
    · exact fun other h => h
  have hsame : ∀ other, next (Refresh.removeElement s handle) other = next s other ∧
      now time (Refresh.removeElement s handle) = now time s := by
    intro other
    unfold Refresh.removeElement
    split <;> exact ⟨rfl, rfl⟩
  refine hheld.pushMain htime (show interval - 1 ≤ interval by omega) fun other ho => ?_
  obtain ⟨hnext, hnow⟩ := hsame other
  rw [hnext, hnow]
  refine hok other (hsub other ho) ?_
  rintro rfl
  exact hheld.held_notMem.2 ho

omit htime in
theorem not_sound_reset (hnot : ¬ ResetOk time s handle) :
    ¬ Sound (resetRefreshForListener time s handle) := by
  unfold ResetOk at hnot
  push Not at hnot
  obtain ⟨other, hother, hne, hlater⟩ := hnot
  have hkept : other ∈ (Refresh.removeElement s handle).mListeners := by
    unfold Refresh.removeElement
    split
    · exact (mem_erase_of_ne hne).mpr hother
    · exact hother
  have hsame : next (Refresh.removeElement s handle) other = next s other ∧
      now time (Refresh.removeElement s handle) = now time s := by
    unfold Refresh.removeElement
    split <;> exact ⟨rfl, rfl⟩
  intro hsound
  have horder : InOrder (resetRefreshForListener time s handle)
      ((Refresh.removeElement s handle).mListeners ++ [handle]) := hsound.mainInOrder
  have hle := (pairwise_append.mp horder).2.2 other hkept handle mem_cons_self
  unfold resetRefreshForListener at hle
  rw [Inv.next_pushMain, Inv.next_pushMain_ne hne, hsame.1, hsame.2] at hle
  exact absurd hle (not_le.mpr hlater)

variable {e : Event}

theorem Inv.step (hs : Inv time [] s)
    (hok : ∀ handle, e = .resetRefreshForListener handle → ResetOk time s handle)
    (h : step time s e = some s') : Inv time [] s' := by
  cases e with
  | addSubscription handle =>
    obtain ⟨hnot, hs'⟩ := ite_none_left_eq_some.1 h
    cases hs'
    exact hs.addSubscription htime hnot
  | resetRefreshForListener handle =>
    obtain ⟨hmem, hs'⟩ := ite_none_right_eq_some.1 h
    cases hs'
    exact hs.reset htime hmem (hok handle rfl)
  | removeListener handle =>
    obtain ⟨hmem, hs'⟩ := ite_none_right_eq_some.1 h
    cases hs'
    exact hs.removeListener hmem
  | timerCallback draw fuel => exact hs.timerCallback htime h

omit htime in
theorem inv_create : Inv time [] create where
  perm := List.Perm.refl []
  nodup := nodup_nil
  new handle h := by cases h
  main handle h := by cases h
  bound handle h := by cases h
  newInOrder := List.Pairwise.nil
  mainInOrder := List.Pairwise.nil

def run (time : Nat → Nat) (events : List Event) : Option RefreshTransport :=
  events.foldlM (step time) create

omit htime in
theorem run_concat {events : List Event} :
    run time (events ++ [e]) = (run time events).bind fun s => step time s e := by
  unfold run
  rw [foldlM_append]
  cases events.foldlM (Refresh.step time) create with
  | none => rfl
  | some s =>
    show ([e].foldlM (Refresh.step time) s) = Refresh.step time s e
    rw [foldlM_cons]
    cases Refresh.step time s e <;> rfl

theorem Inv.lawful (hs : Inv time [] s) : Lawful time s :=
  ⟨hs.sound, fun draw _ hfuel => hs.refreshes htime draw hfuel⟩

theorem Inv.lawful_iff (hs : Inv time [] s) (h : Refresh.step time s e = some s') : Lawful time s' ↔
      ∀ handle, e = .resetRefreshForListener handle → ResetOk time s handle := by
  constructor
  · rintro hlaw handle rfl
    by_contra hnot
    obtain ⟨-, hreset⟩ := ite_none_right_eq_some.1 h
    cases hreset
    exact not_sound_reset hnot hlaw.1
  · intro hok; exact (hs.step htime hok h).lawful htime

end

theorem exists_run_prefix {pre suf : List Event} (h : (run time (pre ++ suf)).isSome) :
    ∃ s, run time pre = some s := by
  unfold run at h ⊢
  rw [foldlM_append] at h
  exact isSome_iff_exists.mp (isSome_of_isSome_bind h)

/-- **Refresh scheduling.**  In all states of a run the lists are sound and a callback sends just
the refreshes that are due, if and only if each reset is of a listener that no other one of the
main list is due after. -/
theorem scheduled_iff (htime : Monotone time) {events : List Event}
    (hrun : (run time events).isSome) :
    (∀ pre suf, events = pre ++ suf → ∀ s, run time pre = some s → Lawful time s) ↔
      ∀ pre e suf, events = pre ++ e :: suf → ∀ s, run time pre = some s →
        ∀ handle, e = .resetRefreshForListener handle → ResetOk time s handle := by
  have hstep : ∀ {pre e suf}, events = pre ++ e :: suf →
      (∀ s, run time pre = some s → Inv time [] s) →
      ∃ s s', run time pre = some s ∧ run time (pre ++ [e]) = some s' ∧
        Inv time [] s ∧ step time s e = some s' := by
    rintro pre e suf rfl hinv
    rw [append_cons] at hrun
    obtain ⟨s', hs'⟩ := exists_run_prefix hrun
    have hbind := hs'
    rw [run_concat] at hbind
    obtain ⟨s, hs, hstep⟩ := bind_eq_some_iff.1 hbind
    exact ⟨s, s', hs, hs', hinv s hs, hstep⟩
  have hiff := @Lib.forall_split_iff Event events
    (fun pre => ∀ s, run time pre = some s → Inv time [] s)
    (fun pre e => ∀ s, run time (pre ++ [e]) = some s → Lawful time s)
    (fun pre e => ∀ s, run time pre = some s →
      ∀ handle, e = .resetRefreshForListener handle → ResetOk time s handle)
    (fun s hs => by cases hs; exact inv_create)
    (fun pre e suf hsplit hinv => by
      obtain ⟨s, s', hs, hs', hinv', hrun'⟩ := hstep hsplit hinv
      have hlaw := hinv'.lawful_iff htime hrun'
      rw [hs, hs']
      simpa using hlaw)
    fun pre e suf hsplit hinv hlaw s₁ hs₁ => by
      obtain ⟨s, s', hs, hs', hinv', hrun'⟩ := hstep hsplit hinv
      cases hs'.symm.trans hs₁
      exact hinv'.step htime ((hinv'.lawful_iff htime hrun').mp (hlaw _ hs')) hrun'
  refine Iff.trans ⟨fun hall pre e suf hsplit => ?_, fun hall pre suf hsplit s hs => ?_⟩ hiff
  · refine hall (pre ++ [e]) suf ?_
    rw [hsplit, append_cons]
  · rcases eq_nil_or_concat pre with rfl | ⟨pre, e, rfl⟩
    · cases hs; exact inv_create.lawful htime
    · rw [concat_eq_append] at hsplit hs
      rw [append_assoc] at hsplit
      exact hall pre e suf hsplit s hs

/-! ## A reset in the second of another refresh -/

/-- Two listeners are added, and sent their first refresh. -/
def refreshedTwice : List Event :=
  [.addSubscription 0, .addSubscription 1, .timerCallback ⟨0, 1⟩ 3]

/-- The reset takes place in the second of the refresh, or in the next. -/
def clock (later : Nat) (calls : Nat) : Nat :=
  if calls < 2 then 0 else if calls < 6 then 3290 else 3290 + later

theorem monotone_clock (later : Nat) : Monotone (clock later) := by
  intro x y hxy
  unfold clock
  by_cases hx : x < 2
  · rw [if_pos hx]; exact Nat.zero_le _
  · rw [if_neg hx, if_neg (show ¬ y < 2 by omega)]
    by_cases hy : y < 6
    · rw [if_pos hy, if_pos (show x < 6 by omega)]
    · rw [if_neg hy]
      split <;> omega

/-- One second later a reset leaves the list in order. -/
theorem scheduled_next_second :
    ∃ s, run (clock 1) (refreshedTwice ++ [.resetRefreshForListener 0]) = some s ∧
      Lawful (clock 1) s := by
  have hrun : (run (clock 1) (refreshedTwice ++ [.resetRefreshForListener 0])).isSome := by decide
  obtain ⟨s, hs⟩ := isSome_iff_exists.mp hrun
  refine ⟨s, hs, (scheduled_iff (monotone_clock 1) hrun).mpr ?_ _ [] (append_nil _).symm s hs⟩
  rintro pre e suf hsplit s hs handle rfl
  rcases pre with _ | ⟨x, _ | ⟨y, _ | ⟨z, _ | ⟨v, pre⟩⟩⟩⟩
  · cases hsplit
  · cases hsplit
  · cases hsplit
  · cases hsplit
    have hok : ∀ s ∈ run (clock 1) refreshedTwice, ∀ other ∈ s.mListeners, other ≠ 0 →
        next s other ≤ now (clock 1) s + (interval - 1) := by decide
    exact hok s hs
  · have hlength := congrArg List.length hsplit
    simp [refreshedTwice] at hlength

/-- In the second of the refresh it does not. -/
theorem not_scheduled : ¬ ∀ pre suf, refreshedTwice ++ [.resetRefreshForListener 0] = pre ++ suf →
    ∀ s, run (clock 0) pre = some s → Lawful (clock 0) s := by
  intro h
  have hrun : (run (clock 0) (refreshedTwice ++ [.resetRefreshForListener 0])).isSome := by decide
  obtain ⟨s, hs⟩ := isSome_iff_exists.mp hrun
  have horder := (h _ [] (append_nil _).symm s hs).1.mainInOrder
  have hnot : ∀ s ∈ run (clock 0) (refreshedTwice ++ [.resetRefreshForListener 0]),
      ¬ s.mListeners.Pairwise fun x y => next s x ≤ next s y := by decide
  exact hnot s hs horder

end Mama.Refresh

import OpenMama.Common.QueueRuns

/-!
# The capacity of the event queue

Items are allocated in chunks, and the maximum is looked at only where no item is free: the
size of the semaphore and a whole chunk are compared with it.  A level counts what is queued,
what is allocated and what the semaphore shows; the calls follow it (`Holds.follows`), and what
they keep to is arithmetic.
-/

namespace Common.WombatQueue

open Lib List Option

inductive QueueStatus
  | ok
  | full
  | wouldBlock
  deriving DecidableEq, Repr

/-- `SEM_VALUE_MAX`. -/
def semValueMax : Nat := 2147483647

/-- A post that the semaphore has no room for fails, and nobody looks. -/
def saturate (q : Queue) : Queue := { q with mSem := min q.mSem semValueMax }

inductive Call
  | enqueue (p : Payload)
  | dispatch
  | poll
  deriving DecidableEq, Repr

/-- A call from its first line to its last, `none` where a dispatch blocks. -/
def call (q : Queue) : Call → Option (QueueStatus × Queue)
  | .enqueue p =>
    match takeFree q p with
    | (none, q') => some (.full, q')
    | (some _, _) => (enqueue q p).map fun q' => (.ok, saturate q')
  | .dispatch =>
    ([.wait .dispatch, .readFlag, if q.mUnblocking then .clearFlag else .dequeue].foldlM step q).map
      fun q' => (.ok, q')
  | .poll =>
    if q.mSem = 0 then some (.wouldBlock, q)
    else ([.wait .poll, .poll].foldlM step q).map fun q' => (.ok, q')

def callStep (q : Queue) (k : Call) : Option Queue := (call q k).map Prod.snd

/-! ## What is asked of the queue -/

/-- `n` rounded up to a multiple of `c`. -/
def roundUp (n c : Nat) : Nat := (n + (c - 1)) / c * c

/-- No more is queued than the maximum rounded up to whole chunks; the queue is full only with
the maximum queued, and not after a dispatch. -/
def Capacity (q : Queue) : Prop :=
  ∃ live, Listed q.mNext q.mPrev some .head .tail live ∧ .tail ∉ live ∧
    live.length ≤ roundUp q.mMaxSize q.mChunkSize ∧
    ∀ p q₁, call q (.enqueue p) = some (.full, q₁) → q.mMaxSize ≤ live.length ∧
      ∀ q₂, call q₁ .dispatch = some (.ok, q₂) → ∀ p', ∃ q₃, call q₂ (.enqueue p') = some (.ok, q₃)

/-! ## Levels -/

/-- What is counted: the items that are queued, those that are allocated, and the semaphore. -/
structure Level where
  items : Nat
  allocated : Nat
  sem : Nat
  deriving DecidableEq, Repr

variable {k : Call} {n t : Nat}

namespace Level

variable {m c i : Nat} {l l' : Level}

def enqueue (m c : Nat) (l : Level) : QueueStatus × Level :=
  if l.items < l.allocated then
    (.ok, ⟨l.items + 1, l.allocated, min (l.sem + 1) semValueMax⟩)
  else if m < (l.sem + c) % 2 ^ 32 then
    (.full, l)
  else
    (.ok, ⟨l.items + 1, l.allocated + c, min (l.sem + 1) semValueMax⟩)

def consume (l : Level) : Level := ⟨l.items - 1, l.allocated, l.sem - 1⟩

def call (m c : Nat) (l : Level) : Call → Option (QueueStatus × Level)
  | .enqueue _ => some (enqueue m c l)
  | .dispatch => if l.sem = 0 then none else some (.ok, consume l)
  | .poll => if l.sem = 0 then some (.wouldBlock, l) else some (.ok, consume l)

def step (m c : Nat) (l : Level) (k : Call) : Option Level := (call m c l k).map Prod.snd

/-- The queue after `create`. -/
def initial (i : Nat) : Level := ⟨0, i, 0⟩

def Within (m c : Nat) (l : Level) : Prop :=
  l.items ≤ roundUp m c ∧ ((enqueue m c l).1 = .full → m ≤ l.items)

/-- The chunks fill the maximum exactly, and one more exceeds it as unsigned integers. -/
def Fits (m i c : Nat) : Prop := c ∣ m - i ∧ m < (min m semValueMax + c) % 2 ^ 32

instance : Decidable (Fits m i c) := inferInstanceAs (Decidable (_ ∧ _))

theorem le_roundUp (hc : 0 < c) (n : Nat) : n ≤ roundUp n c := by
  have hdiv := Nat.div_add_mod (n + (c - 1)) c
  have hmod := Nat.mod_lt (n + (c - 1)) hc
  rw [Nat.mul_comm] at hdiv
  unfold roundUp
  omega

theorem roundUp_lt (hc : 0 < c) (n : Nat) : roundUp n c < n + c := by
  have hle := Nat.div_mul_le_self (n + (c - 1)) c
  unfold roundUp
  omega

theorem roundUp_of_le (hn : 0 < n) (hle : n ≤ c) : roundUp n c = c := by
  have hdiv : (n + (c - 1)) / c = 1 := by
    rw [Nat.div_eq_iff (Nat.lt_of_lt_of_le hn hle)]; omega
  rw [roundUp, hdiv, Nat.one_mul]

/-! ### Where the chunks fit -/

/-- What is allocated is short of the maximum by whole chunks, and the semaphore has missed no
more posts than there are items above its most. -/
structure Sound (m c : Nat) (l : Level) : Prop where
  allocated_le : l.allocated ≤ m
  dvd : c ∣ m - l.allocated
  items_le : l.items ≤ l.allocated
  sem_le : l.sem ≤ l.items
  sem_max : l.sem ≤ semValueMax
  missed : l.items ≤ l.sem + (l.allocated - semValueMax)

section

variable (h : Sound m c l)

include h

theorem Sound.room (hlt : l.allocated < m) : l.allocated + c ≤ m := by
  have hle := Nat.le_of_dvd (Nat.sub_pos_of_lt hlt) h.dvd
  omega

theorem Sound.refuses_iff (hfits : Fits m i c) (hm : m < 2 ^ 32)
    (hfull : l.items = l.allocated) : m < (l.sem + c) % 2 ^ 32 ↔ l.allocated = m := by
  have hsem := h.sem_le
  have hmax := h.sem_max
  have hmissed := h.missed
  constructor
  · intro hlt
    by_contra hne
    have hroom := h.room (Nat.lt_of_le_of_ne h.allocated_le hne)
    omega
  · intro heq
    have hmin : l.sem = min m semValueMax := by omega
    rw [hmin]
    exact hfits.2

theorem Sound.step (hfits : Fits m i c) (hm : m < 2 ^ 32) (hc : 0 < c)
    (hstep : Level.step m c l k = some l') : Sound m c l' := by
  obtain ⟨hallocated, hdvd, hitems, hsem, hmax, hmissed⟩ := h
  have hconsume : l.sem ≠ 0 → Sound m c (consume l) := fun hne =>
    ⟨hallocated, hdvd, by simp only [consume]; omega, by simp only [consume]; omega,
      by simp only [consume]; omega, by simp only [consume]; omega⟩
  cases k with
  | enqueue p =>
    cases hstep
    simp only [enqueue]
    split
    · exact ⟨hallocated, hdvd, by dsimp only; omega, by dsimp only; omega, Nat.min_le_right _ _,
        by dsimp only; omega⟩
    split
    · exact ⟨hallocated, hdvd, hitems, hsem, hmax, hmissed⟩
    rename_i hnone hroom
    have hfull : l.items = l.allocated := by omega
    have hsound : Sound m c l := ⟨hallocated, hdvd, hitems, hsem, hmax, hmissed⟩
    have hlt : l.allocated < m :=
      Nat.lt_of_le_of_ne hallocated fun heq => hroom ((hsound.refuses_iff hfits hm hfull).2 heq)
    have hle := hsound.room hlt
    refine ⟨hle, ?_, by dsimp only; omega, by dsimp only; omega, Nat.min_le_right _ _,
      by dsimp only; omega⟩
    rw [Nat.sub_add_eq]
    exact Nat.dvd_sub hdvd (Nat.dvd_refl c)
  | dispatch =>
    simp only [Level.step, Level.call] at hstep
    split at hstep
    · cases hstep
    · rename_i hne
      cases hstep
      exact hconsume hne
  | poll =>
    simp only [Level.step, Level.call] at hstep
    split at hstep
    · cases hstep; exact ⟨hallocated, hdvd, hitems, hsem, hmax, hmissed⟩
    · rename_i hne
      cases hstep
      exact hconsume hne

theorem Sound.within (hfits : Fits m i c) (hm : m < 2 ^ 32) (hc : 0 < c) : Within m c l := by
  have hround := le_roundUp hc m
  have hallocated := h.allocated_le
  have hitems := h.items_le
  refine ⟨by omega, fun hfull => ?_⟩
  simp only [enqueue] at hfull
  split at hfull
  · cases hfull
  rename_i hnone
  have heq : l.items = l.allocated := by omega
  split at hfull
  · rename_i hrefused
    have hmax := (h.refuses_iff hfits hm heq).1 hrefused
    omega
  · cases hfull

end

theorem within_of_fits (hm : m < 2 ^ 32) (hc : 0 < c) (hi : i ≤ m) (hfits : Fits m i c)
    (hl : Reachable (Level.step m c) (initial i) l) : Within m c l := by
  have hinit : Sound m c (initial i) :=
    ⟨hi, hfits.1, Nat.zero_le _, Nat.le_refl 0, Nat.zero_le _, Nat.zero_le _⟩
  exact (hl.invariant hinit fun l k l' h _ hstep => h.step hfits hm hc hstep).within hfits hm hc

/-! ### Where they do not -/

/-- The levels that enqueues alone lead to: the semaphore misses what is above its most. -/
def Filled (m c i n t : Nat) : Prop :=
  Reachable (Level.step m c) (initial i) ⟨n, t, min n semValueMax⟩

theorem Filled.next {t' : Nat} (h : Filled m c i n t)
    (hok : enqueue m c ⟨n, t, min n semValueMax⟩ =
      (.ok, ⟨n + 1, t', min (min n semValueMax + 1) semValueMax⟩)) :
    Filled m c i (n + 1) t' := by
  have hmin : min (min n semValueMax + 1) semValueMax = min (n + 1) semValueMax := by omega
  refine Runs.step (l := Call.enqueue ⟨0, 0, 0⟩) h trivial ?_
  rw [Level.step, Level.call, hok, hmin]
  rfl

theorem Filled.climb {k : Nat} (h : Filled m c i n t) (hle : n + k ≤ t) :
    Filled m c i (n + k) t := by
  induction k with
  | zero => exact h
  | succ k ih => exact (ih (by omega)).next (if_pos (by dsimp only; omega))

theorem Filled.grow (h : Filled m c i t t) (hc : 0 < c) :
    m < (min t semValueMax + c) % 2 ^ 32 ∨ Filled m c i (t + c) (t + c) := by
  by_cases hrefused : m < (min t semValueMax + c) % 2 ^ 32
  · exact .inl hrefused
  · right
    have hnext : Filled m c i (t + 1) (t + c) := by
      refine h.next ?_
      rw [enqueue, if_neg (Nat.lt_irrefl t), if_neg hrefused]
    have hall := hnext.climb (k := c - 1) (by omega)
    rwa [Nat.add_assoc, Nat.add_sub_cancel' hc] at hall

/-- How the chunks got where the level is: none was added, or the last one was, where the
comparison let it. -/
def Grown (m c i n t : Nat) : Prop :=
  t = i ∨ ∃ t₀, t₀ < n ∧ i ≤ t₀ ∧ t = t₀ + c ∧ (min t₀ semValueMax + c) % 2 ^ 32 ≤ m

theorem Grown.mono {n' : Nat} (h : Grown m c i n t) (hle : n ≤ n') : Grown m c i n' t :=
  h.imp_right fun ⟨t₀, hlt, hrest⟩ => ⟨t₀, Nat.lt_of_lt_of_le hlt hle, hrest⟩

theorem filled_of_within (hc : 0 < c)
    (hall : ∀ l, Reachable (Level.step m c) (initial i) l → Within m c l) (hn : n ≤ m) :
    ∃ t, Filled m c i n t ∧ n ≤ t ∧ i ≤ t ∧ c ∣ t - i ∧ Grown m c i n t := by
  induction n with
  | zero =>
    refine ⟨i, Runs.init, Nat.zero_le i, Nat.le_refl i, ?_, .inl rfl⟩
    rw [Nat.sub_self]
    exact Nat.dvd_zero c
  | succ n ih =>
    obtain ⟨t, hfilled, hnt, hit, hdvd, hgrown⟩ := ih (by omega)
    rcases Nat.lt_or_eq_of_le hnt with hlt | rfl
    · exact ⟨t, hfilled.climb hlt, hlt, hit, hdvd, hgrown.mono (Nat.le_succ n)⟩
    have hfull := (hall _ hfilled).2
    simp only [enqueue, Nat.lt_irrefl] at hfull
    by_cases hrefused : m < (min n semValueMax + c) % 2 ^ 32
    · rw [if_pos hrefused] at hfull
      have hle := hfull rfl
      omega
    · refine ⟨n + c, hfilled.next ?_, by omega, by omega, ?_, .inr ⟨n, ?_, hit, rfl, ?_⟩⟩
      · rw [enqueue, if_neg (Nat.lt_irrefl n), if_neg hrefused]
      · rw [Nat.sub_add_comm hit]; exact Nat.dvd_add hdvd (Nat.dvd_refl c)
      · exact Nat.lt_succ_self n
      · exact Nat.le_of_not_lt hrefused

/-- A chunk that was let past the maximum is not refused at the next comparison either, unless it
is past the maximum rounded up. -/
theorem not_refused {m c t₀ s : Nat} (hm : m < 4294967296) (hc : c < 4294967296) (ht₀ : t₀ < m)
    (hs : s < 2147483648) (hpast : m < t₀ + c) (hround : c < m)
    (hlet : (min t₀ s + c) % 4294967296 ≤ m) : (min (t₀ + c) s + c) % 4294967296 ≤ m := by
  by_cases hwrap : min t₀ s + c < 4294967296
  · have hmin : min (t₀ + c) s = min t₀ s := by omega
    rwa [hmin]
  · omega

theorem fits_of_within (hm : m < 2 ^ 32) (hc : 0 < c) (hc' : c < 2 ^ 32) (hi : 0 < i) (him : i ≤ m)
    (hall : ∀ l, Reachable (Level.step m c) (initial i) l → Within m c l) : Fits m i c := by
  obtain ⟨t, hfilled, hmt, hit, hdvd, hgrown⟩ := filled_of_within hc hall (Nat.le_refl m)
  have hround := roundUp_lt hc m
  have htop : Filled m c i t t := by
    have hclimb := hfilled.climb (k := t - m) (by omega)
    rwa [Nat.add_sub_cancel' hmt] at hclimb
  -- one more chunk would be filled past what is allowed
  have hrefused : m < (min t semValueMax + c) % 2 ^ 32 := by
    rcases htop.grow hc with hrefused | hmore
    · exact hrefused
    · have hle := (hall _ hmore).1
      dsimp only at hle
      omega
  have hexact : t = m := by
    by_contra hne
    have hle := (hall _ htop).1
    dsimp only at hle
    rcases hgrown with heq | ⟨t₀, hlt, hle₀, rfl, hlet⟩
    · omega
    · have hcm : c < m := by
        by_contra hnot
        rw [roundUp_of_le (by omega) (Nat.le_of_not_lt hnot)] at hle
        omega
      have hmore := not_refused (s := semValueMax) hm hc' hlt (by decide) (by omega) hcm hlet
      exact absurd hrefused (Nat.not_lt.2 hmore)
  rw [hexact] at hrefused hdvd
  exact ⟨hdvd, hrefused⟩

end Level

/-! ## The queue follows the levels -/

variable {q q' : Queue} {live free hand : List Node} {p : Payload} {m c : Nat} {l : Level}

theorem Rep.firstFree_isNone (h : Rep q live free []) :
    q.firstFree.isNone ↔ live.length = q.allocated := by
  have hlength := h.length_eq
  cases free with
  | nil =>
    have hnone : q.firstFree = none := h.chain
    simpa [hnone] using hlength
  | cons a free =>
    rw [(path_cons.1 h.chain).1]
    rw [length_cons] at hlength
    refine ⟨nofun, fun heq => absurd hlength (by omega)⟩

/-- The state of a queue at a level, between two calls. -/
structure Holds (q : Queue) (m c : Nat) (l : Level) : Prop where
  mMaxSize : q.mMaxSize = m
  mChunkSize : q.mChunkSize = c
  waiters : q.waiters = {}
  mUnblocking : q.mUnblocking = false
  lists : ∃ live free, Rep q live free [] ∧ live.length = l.items
  allocated : q.allocated = l.allocated
  mSem : q.mSem = l.sem
  sem_le : l.sem ≤ l.items

section

variable (h : Holds q m c l)

include h

theorem Holds.items_le : l.items ≤ l.allocated := by
  obtain ⟨live, free, hrep, hitems⟩ := h.lists
  have hlength := hrep.length_eq
  rw [h.allocated] at hlength
  omega

omit h in
theorem allocChunk_mMaxSize (q : Queue) (items : Nat) :
    (allocChunk q items).mMaxSize = q.mMaxSize := by
  unfold allocChunk
  split <;> rfl

omit h in
theorem refill_mMaxSize (q : Queue) : (refill q).mMaxSize = q.mMaxSize := by
  unfold refill
  split
  · exact allocChunk_mMaxSize q q.mChunkSize
  · rfl

omit h in
theorem takeFree_eq (q : Queue) (p : Payload) : (takeFree q p).1 = (refill q).firstFree ∧
    (takeFree q p).2.allocated = (refill q).allocated ∧ (takeFree q p).2.mMaxSize = q.mMaxSize := by
  have hmax := refill_mMaxSize q
  unfold takeFree
  cases hfirst : (refill q).firstFree with
  | none => exact ⟨by simp [hfirst], by simp [hfirst], by simp only [hfirst]; exact hmax⟩
  | some item => exact ⟨by simp [hfirst], by simp [hfirst], by simp only [hfirst]; exact hmax⟩

theorem Holds.enqueue_room (hc : 0 < c) (hfree : (refill q).firstFree ≠ none)
    (ht : (refill q).allocated = t) : ∃ q', call q (.enqueue p) = some (.ok, q') ∧
      Holds q' m c ⟨l.items + 1, t, min (l.sem + 1) semValueMax⟩ := by
  obtain ⟨live, free, hrep, hitems⟩ := h.lists
  have hrep' : Rep q (live ++ []) free [] := by rwa [append_nil]
  have hchunk : 0 < q.mChunkSize := by rwa [h.mChunkSize]
  obtain ⟨hfst, hallocated, hmax⟩ := takeFree_eq q p
  obtain ⟨q₁, free', hsame, -, -, ⟨htake, -, -⟩ | ⟨e, htake, hprev, -, hlinked, -, -⟩⟩ :=
    hrep'.put hchunk p
  · rw [htake] at hfst; exact absurd hfst.symm hfree
  rw [htake] at hallocated hmax
  rw [firstOf_nil] at hprev hlinked
  refine ⟨_, by rw [call, enqueue, htake]; simp only [hprev]; rfl, ?_⟩
  refine ⟨hmax.trans h.mMaxSize, hsame.mChunkSize.trans h.mChunkSize, hsame.waiters.trans h.waiters,
    hsame.mUnblocking.trans h.mUnblocking, ⟨live ++ [e], free', hlinked.congr rfl rfl rfl rfl, ?_⟩,
    hallocated.trans ht, ?_, ?_⟩
  · rw [length_append, length_singleton, hitems]
  · have hsem : q₁.mSem = l.sem := hsame.mSem.trans h.mSem
    simp [saturate, post, linkBetween, setNext, setPrev, hsem]
  · exact (Nat.min_le_left _ _).trans (Nat.succ_le_succ h.sem_le)

theorem Holds.enqueue (hc : 0 < c) (p : Payload) :
    ∃ q', call q (.enqueue p) = some ((l.enqueue m c).1, q') ∧ Holds q' m c (l.enqueue m c).2 := by
  obtain ⟨live, free, hrep, hitems⟩ := h.lists
  have hnone := hrep.firstFree_isNone
  rw [h.allocated] at hnone
  have hle := h.items_le
  unfold Level.enqueue
  by_cases hlt : l.items < l.allocated
  · rw [if_pos hlt]
    have hsome : q.firstFree.isNone = false := by
      rw [Bool.eq_false_iff, ne_eq, hnone]; omega
    have hrefill : refill q = q := by rw [refill, hsome]; rfl
    refine h.enqueue_room hc ?_ (by rw [hrefill, h.allocated])
    rw [hrefill]
    rintro heq
    rw [heq] at hsome
    cases hsome
  rw [if_neg hlt]
  have hempty : q.firstFree.isNone := hnone.2 (by omega)
  have hrefill : refill q = allocChunk q c := by rw [refill, hempty, h.mChunkSize]; rfl
  unfold allocChunk at hrefill
  rw [h.mMaxSize, h.mSem] at hrefill
  by_cases hrefused : m < (l.sem + c) % 2 ^ 32
  · rw [if_pos hrefused] at hrefill ⊢
    have htake : takeFree q p = (none, q) := by
      have hfirst := isNone_iff_eq_none.1 hempty
      rw [takeFree, hrefill]
      simp [hfirst]
    exact ⟨q, by rw [call, htake], h⟩
  · rw [if_neg hrefused] at hrefill ⊢
    refine h.enqueue_room hc ?_ ?_
    · rw [hrefill]; simp
    · rw [hrefill, ← h.allocated]

omit h in
theorem removeHead_mMaxSize (hremove : removeHead q = some q') : q'.mMaxSize = q.mMaxSize := by
  obtain ⟨ele, -, hremove⟩ := bind_eq_some_iff.1 hremove
  obtain ⟨q₁, hunlink, hremove⟩ := bind_eq_some_iff.1 hremove
  obtain ⟨before, -, hunlink⟩ := bind_eq_some_iff.1 hunlink
  obtain ⟨after, -, hunlink⟩ := bind_eq_some_iff.1 hunlink
  rw [← some.inj hremove, ← some.inj hunlink]
  rfl

/-- The semaphore is taken and the thread has the lock. -/
def taken (q : Queue) : Queue := { q with mSem := q.mSem - 1, waiters := {} }

/-- The first item is unlinked, with the semaphore one lower and nobody left waiting. -/
theorem Holds.removeHead (hpos : l.sem ≠ 0) : isEmpty (taken q) = false ∧ ∃ q',
    WombatQueue.removeHead (taken q) = some q' ∧ Holds q' m c l.consume := by
  obtain ⟨live, free, hrep, hitems⟩ := h.lists
  have hle := h.sem_le
  cases live with
  | nil => rw [length_nil] at hitems; omega
  | cons e live =>
    rw [length_cons] at hitems
    have htaken : Rep (taken q) (e :: live) free [] := hrep.congr rfl rfl rfl rfl
    obtain ⟨q', hrun, hrep', hsame, -⟩ := htaken.removeHead
    have hempty : isEmpty (taken q) = false := by
      rw [Bool.eq_false_iff, ne_eq, htaken.isEmpty_iff]; exact cons_ne_nil e live
    refine ⟨hempty, q', hrun, (removeHead_mMaxSize hrun).trans h.mMaxSize,
      hsame.mChunkSize.trans h.mChunkSize, hsame.waiters,
      hsame.mUnblocking.trans h.mUnblocking, ⟨live, e :: free, hrep', ?_⟩, ?_, ?_, ?_⟩
    · simp only [Level.consume]; omega
    · have hbefore := hrep.length_eq
      have hafter := hrep'.length_eq
      have hallocated := h.allocated
      simp only [length_cons] at hbefore hafter
      simp only [Level.consume]
      omega
    · have hsem : q'.mSem = q.mSem - 1 := hsame.mSem
      rw [hsem, h.mSem]
      rfl
    · simp only [Level.consume]; omega

theorem Holds.dispatch : (l.sem = 0 → call q .dispatch = none) ∧
    (l.sem ≠ 0 → ∃ q', call q .dispatch = some (.ok, q') ∧ Holds q' m c l.consume) := by
  have hsem := h.mSem
  have hwaiters := h.waiters
  have hflag := h.mUnblocking
  have hcall : call q .dispatch =
      ([.wait .dispatch, .readFlag, .dequeue].foldlM step q).map fun q' => (.ok, q') := by
    rw [call, hflag]
    rfl
  refine ⟨fun hzero => ?_, fun hpos => ?_⟩
  · have hwait : step q (.wait .dispatch) = none := if_neg (by omega)
    rw [hcall, foldlM_cons, hwait]
    rfl
  obtain ⟨hempty, q', hrun, hholds⟩ := h.removeHead hpos
  have hwait : step q (.wait .dispatch) =
      some { q with mSem := q.mSem - 1, waiters := { dispatch := 1 } } := by
    rw [step, if_pos (by omega), hwaiters]
  have hread : step { q with mSem := q.mSem - 1, waiters := { dispatch := 1 } } .readFlag =
      some { q with mSem := q.mSem - 1, waiters := { dequeue := 1 } } := by
    simp only [hflag]
    rfl
  have hdequeue : step { q with mSem := q.mSem - 1, waiters := { dequeue := 1 } } .dequeue =
      some q' := by
    have hlocked : step { q with mSem := q.mSem - 1, waiters := { dequeue := 1 } } .dequeue =
        if isEmpty (taken q) then some { taken q with returns := q.returns + 1 }
        else WombatQueue.removeHead (taken q) := rfl
    rwa [hlocked, hempty]
  refine ⟨q', ?_, hholds⟩
  rw [hcall, foldlM_cons, hwait, bind_eq_bind, bind_some, foldlM_cons, hread,
    bind_eq_bind, bind_some, foldlM_cons, hdequeue]
  rfl

theorem Holds.poll : (l.sem = 0 → call q .poll = some (.wouldBlock, q)) ∧
    (l.sem ≠ 0 → ∃ q', call q .poll = some (.ok, q') ∧ Holds q' m c l.consume) := by
  have hsem := h.mSem
  have hwaiters := h.waiters
  refine ⟨fun hzero => if_pos (by omega), fun hpos => ?_⟩
  obtain ⟨-, q', hrun, hholds⟩ := h.removeHead hpos
  have hwait : step q (.wait .poll) =
      some { q with mSem := q.mSem - 1, waiters := { poll := 1 } } := by
    rw [step, if_pos (by omega), hwaiters]
  have hpoll : step { q with mSem := q.mSem - 1, waiters := { poll := 1 } } .poll = some q' := hrun
  refine ⟨q', ?_, hholds⟩
  rw [call, if_neg (by omega), foldlM_cons, hwait, bind_eq_bind, bind_some, foldlM_cons, hpoll]
  rfl

/-- **The queue follows its level**, call by call. -/
theorem Holds.follows (hc : 0 < c) (k : Call) : (l.call m c k = none ∧ call q k = none) ∨ ∃ s l' q',
    l.call m c k = some (s, l') ∧ call q k = some (s, q') ∧ Holds q' m c l' := by
  cases k with
  | enqueue p =>
    obtain ⟨q', hcall, hholds⟩ := h.enqueue hc p
    exact .inr ⟨_, _, q', rfl, hcall, hholds⟩
  | dispatch =>
    obtain ⟨hblocks, htakes⟩ := h.dispatch
    by_cases hzero : l.sem = 0
    · exact .inl ⟨if_pos hzero, hblocks hzero⟩
    · obtain ⟨q', hcall, hholds⟩ := htakes hzero
      exact .inr ⟨_, _, q', if_neg hzero, hcall, hholds⟩
  | poll =>
    obtain ⟨hblocks, htakes⟩ := h.poll
    by_cases hzero : l.sem = 0
    · exact .inr ⟨_, _, q, if_pos hzero, hblocks hzero, h⟩
    · obtain ⟨q', hcall, hholds⟩ := htakes hzero
      exact .inr ⟨_, _, q', if_neg hzero, hcall, hholds⟩

theorem Holds.step (hc : 0 < c) (hstep : callStep q k = some q') :
    ∃ l', Level.step m c l k = some l' ∧ Holds q' m c l' := by
  rw [callStep] at hstep
  rcases h.follows hc k with ⟨-, hnone⟩ | ⟨s, l', q₁, hlevel, hcall, hholds⟩
  · rw [hnone] at hstep; cases hstep
  · rw [hcall] at hstep
    cases hstep
    exact ⟨l', by rw [Level.step, hlevel]; rfl, hholds⟩

omit h in
theorem Holds.runs {q₀ : Queue} {l₀ : Level} (h : Holds q₀ m c l₀) (hc : 0 < c) :
    (∀ q, Reachable callStep q₀ q → ∃ l, Reachable (Level.step m c) l₀ l ∧ Holds q m c l) ∧
      ∀ l, Reachable (Level.step m c) l₀ l → ∃ q, Reachable callStep q₀ q ∧ Holds q m c l := by
  constructor
  · intro q hq
    induction hq with
    | init => exact ⟨l₀, Runs.init, h⟩
    | step _ _ hstep ih =>
      obtain ⟨l, hl, hholds⟩ := ih
      obtain ⟨l', hlevel, hholds'⟩ := hholds.step hc hstep
      exact ⟨l', hl.step trivial hlevel, hholds'⟩
  intro l hl
  induction hl with
  | init => exact ⟨q₀, Runs.init, h⟩
  | @step l l' k _ _ hstep ih =>
    obtain ⟨q, hq, hholds⟩ := ih
    rw [Level.step] at hstep
    rcases hholds.follows hc k with ⟨hnone, -⟩ | ⟨s, l₁, q', hlevel, hcall, hholds'⟩
    · rw [hnone] at hstep; cases hstep
    · rw [hlevel] at hstep
      cases hstep
      exact ⟨q', hq.step (l := k) trivial (by rw [callStep, hcall]; rfl), hholds'⟩

theorem Holds.enqueue_after_dispatch (hc : 0 < c) (hdispatch : call q .dispatch = some (.ok, q'))
    (p : Payload) : ∃ q'', call q' (.enqueue p) = some (.ok, q'') := by
  obtain ⟨hblocks, htakes⟩ := h.dispatch
  have hpos : l.sem ≠ 0 := by
    intro hzero
    rw [hblocks hzero] at hdispatch
    cases hdispatch
  obtain ⟨q₁, hcall, hholds⟩ := htakes hpos
  obtain ⟨-, rfl⟩ := Prod.mk.inj (some.inj (hcall.symm.trans hdispatch))
  have hroom : l.consume.items < l.consume.allocated := by
    have hle := h.items_le
    have hsem := h.sem_le
    simp only [Level.consume]
    omega
  obtain ⟨q'', hcall', -⟩ := hholds.enqueue hc p
  rw [Level.enqueue, if_pos hroom] at hcall'
  exact ⟨q'', hcall'⟩

theorem Holds.capacity_iff_within (hc : 0 < c) : Capacity q ↔ l.Within m c := by
  obtain ⟨live, free, hrep, hitems⟩ := h.lists
  have htail : Node.tail ∉ live := fun hmem => (hrep.live_item hmem).2 rfl
  constructor
  · rintro ⟨live', hlinks, htail', hle, hfull⟩
    obtain rfl := Listed.unique (fun _ _ => some.inj) hlinks hrep.links htail' htail
    rw [hitems, h.mMaxSize, h.mChunkSize] at hle
    refine ⟨hle, fun hstatus => ?_⟩
    obtain ⟨q₁, hcall, -⟩ := h.enqueue hc ⟨0, 0, 0⟩
    rw [hstatus] at hcall
    have hmax := (hfull _ q₁ hcall).1
    rwa [hitems, h.mMaxSize] at hmax
  rintro ⟨hle, hfull⟩
  refine ⟨live, hrep.links, htail, ?_, fun p q₁ hcall => ⟨?_, fun q₂ hdispatch p' => ?_⟩⟩
  · rwa [hitems, h.mMaxSize, h.mChunkSize]
  · obtain ⟨q', hcall', -⟩ := h.enqueue hc p
    obtain ⟨hstatus, -⟩ := Prod.mk.inj (some.inj (hcall'.symm.trans hcall))
    rw [hitems, h.mMaxSize]
    exact hfull hstatus
  · obtain ⟨q', hcall', hholds⟩ := h.enqueue hc p
    obtain ⟨-, rfl⟩ := Prod.mk.inj (some.inj (hcall'.symm.trans hcall))
    exact hholds.enqueue_after_dispatch hc hdispatch p'

end

/-! ## Every queue that is created -/

def orDefault (size default : Nat) : Nat := if size = 0 then default else size

variable {size default : Nat}

theorem orDefault_pos (hdefault : 0 < default) : 0 < orDefault size default := by
  unfold orDefault
  split <;> omega

theorem orDefault_lt (hdefault : default < n) (hsize : size < n) : orDefault size default < n := by
  unfold orDefault
  split <;> assumption

/-- `create` returns `WOMBAT_QUEUE_OK`. -/
def Accepted (maxSize initialSize growBySize : Nat) : Prop :=
  (create maxSize initialSize growBySize).firstFree ≠ none

instance {maxSize initialSize growBySize : Nat} :
    Decidable (Accepted maxSize initialSize growBySize) :=
  inferInstanceAs (Decidable (¬ _))

theorem holds_create {maxSize initialSize growBySize : Nat} (hinitial : initialSize < 2 ^ 32)
    (haccepted : Accepted maxSize initialSize growBySize) :
    orDefault initialSize chunkSizeDefault ≤ orDefault maxSize maxSizeDefault ∧
      Holds (create maxSize initialSize growBySize) (orDefault maxSize maxSizeDefault)
        (orDefault growBySize chunkSizeDefault)
        (Level.initial (orDefault initialSize chunkSizeDefault)) := by
  obtain ⟨free, hinv, -⟩ := inv_create maxSize initialSize growBySize
  have hlt : orDefault initialSize chunkSizeDefault < 2 ^ 32 := orDefault_lt (by decide) hinitial
  have hcreate : create maxSize initialSize growBySize =
      allocChunk { mMaxSize := orDefault maxSize maxSizeDefault
                   mChunkSize := orDefault growBySize chunkSizeDefault }
        (orDefault initialSize chunkSizeDefault) := rfl
  have hle : orDefault initialSize chunkSizeDefault ≤ orDefault maxSize maxSizeDefault := by
    by_contra hgt
    refine haccepted ?_
    rw [hcreate, allocChunk, if_pos]
    rw [Nat.zero_add, Nat.mod_eq_of_lt hlt]
    exact Nat.lt_of_not_le hgt
  refine ⟨hle, ?_⟩
  have hroom : ¬ orDefault maxSize maxSizeDefault <
      (0 + orDefault initialSize chunkSizeDefault) % 2 ^ 32 := by
    rw [Nat.zero_add, Nat.mod_eq_of_lt hlt]
    exact Nat.not_lt.2 hle
  have hrep := hinv.rep
  rw [hcreate, allocChunk, if_neg hroom] at hrep ⊢
  exact ⟨rfl, rfl, rfl, rfl, ⟨[], free, hrep, rfl⟩, Nat.zero_add _, rfl, Nat.le_refl 0⟩

def Fits (maxSize initialSize growBySize : Nat) : Prop :=
  Level.Fits (orDefault maxSize maxSizeDefault) (orDefault initialSize chunkSizeDefault)
    (orDefault growBySize chunkSizeDefault)

instance {maxSize initialSize growBySize : Nat} :
    Decidable (Fits maxSize initialSize growBySize) :=
  inferInstanceAs (Decidable (_ ∧ _))

section Sizes

variable {maxSize initialSize growBySize : Nat} (hmax : maxSize < 2 ^ 32)
  (hinitial : initialSize < 2 ^ 32) (hgrow : growBySize < 2 ^ 32)
  (haccepted : Accepted maxSize initialSize growBySize)

include hmax hinitial haccepted

theorem capacity_of_fits (hfits : Fits maxSize initialSize growBySize) {q : Queue}
    (hq : Reachable callStep (create maxSize initialSize growBySize) q) : Capacity q := by
  obtain ⟨hle, hcreate⟩ := holds_create hinitial haccepted
  have hc : 0 < orDefault growBySize chunkSizeDefault := orDefault_pos (by decide)
  obtain ⟨l, hl, hholds⟩ := (hcreate.runs hc).1 q hq
  exact (hholds.capacity_iff_within hc).2
    (Level.within_of_fits (orDefault_lt (by decide) hmax) hc hle hfits hl)

include hgrow

theorem fits_of_capacity
    (hall : ∀ q, Reachable callStep (create maxSize initialSize growBySize) q → Capacity q) :
    Fits maxSize initialSize growBySize := by
  obtain ⟨hle, hcreate⟩ := holds_create hinitial haccepted
  have hc : 0 < orDefault growBySize chunkSizeDefault := orDefault_pos (by decide)
  refine Level.fits_of_within (orDefault_lt (by decide) hmax) hc (orDefault_lt (by decide) hgrow)
    (orDefault_pos (by decide)) hle fun l hl => ?_
  obtain ⟨q, hq, hholds⟩ := (hcreate.runs hc).2 l hl
  exact (hholds.capacity_iff_within hc).1 (hall q hq)

/-- **The capacity is kept in every run** just if the initial size and whole chunks fill the maximum
exactly, and a chunk more does not wrap around. -/
theorem capacity_iff :
    (∀ q, Reachable callStep (create maxSize initialSize growBySize) q → Capacity q) ↔
      Fits maxSize initialSize growBySize :=
  ⟨fits_of_capacity hmax hinitial hgrow haccepted, fun hfits _ hq =>
    capacity_of_fits hmax hinitial haccepted hfits hq⟩

end Sizes

/-- Two chunks and a maximum of two. -/
theorem capacity_iff_two_chunks : Fits 4 2 2 ∧
    ∀ q, Reachable callStep (create 4 2 2) q → Capacity q :=
  ⟨by decide, (capacity_iff (by decide) (by decide) (by decide) (by decide)).2 (by decide)⟩

/-- A maximum of three is two with chunks of two: the queue is full with two items. -/
theorem not_capacity : ¬ ∀ maxSize initialSize growBySize : Nat, maxSize < 2 ^ 32 →
    initialSize < 2 ^ 32 → growBySize < 2 ^ 32 → Accepted maxSize initialSize growBySize →
    ∀ q, Reachable callStep (create maxSize initialSize growBySize) q → Capacity q := by
  intro hall
  have haccepted : Accepted 3 2 2 := by decide
  have hcapacity := hall 3 2 2 (by decide) (by decide) (by decide) haccepted
  have hfits := fits_of_capacity (by decide) (by decide) (by decide) haccepted hcapacity
  exact absurd hfits (by decide)

end Common.WombatQueue

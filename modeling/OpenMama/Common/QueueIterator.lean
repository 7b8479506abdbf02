import OpenMama.Common.QueueRuns
import OpenMama.Lib.ChangingList

/-!
# The iterator of the event queue

The one iterator of a queue points to a node, and neither the consumers nor the producers look
at it.  A walk starts with `begin` and ends where `next` returns `WOMBAT_QUEUE_END`; while it is
on, the run records what `next` came to.
-/

namespace Common.WombatQueue

open Lib List Function Option

/-- `wombatQueue_cur`: what the item carries, if the iterator is at one. -/
def cur (q : Queue) : Option (Option Payload) := do
  let it ← q.mIterator
  some (if it = .head || it = .tail then none else some (q.payload it))

/-- `next` returns `WOMBAT_QUEUE_END`. -/
def atEnd (q : Queue) : Bool := q.mIterator.bind q.mNext = some .tail

def follow (q : Queue) : Nat → Node → List Node
  | 0, _ => []
  | fuel + 1, a =>
    match q.mNext a with
    | none | some .tail => []
    | some b => b :: follow q fuel b

def items (q : Queue) : List Node := follow q q.allocated .head

inductive Walking
  | idle
  | walking (k : Walk Node)
  /-- `next` returned `WOMBAT_QUEUE_END`. -/
  | ended (k : Walk Node)
  deriving DecidableEq, Repr

structure Watched where
  queue : Queue
  walk : Walking := .idle

inductive Op
  | step (l : Label)
  | cur
  deriving DecidableEq, Repr

/-- What a step on the queue, that leads to `q'`, is for the walk. -/
def Walking.watch (walk : Walking) (q q' : Queue) (l : Label) : Walking :=
  match l, walk with
  | .toBegin, _ => .walking ⟨items q', []⟩
  | .toEnd, _ | .prev, _ => .idle
  | .next, .walking k => if atEnd q then .ended k else .walking (q'.mIterator.elim k k.visit)
  | _, .walking k => .walking (k.keep (items q'))
  | _, walk => walk

def Watched.step (w : Watched) : Op → Option Watched
  | .cur => (WombatQueue.cur w.queue).map fun _ => w
  | .step l => (WombatQueue.step w.queue l).map fun q' => ⟨q', w.walk.watch w.queue q' l⟩

/-! ## What is asked of the iterator -/

/-- What `next`, called again and again, returns before `WOMBAT_QUEUE_END`. -/
inductive Nexts : Queue → List Node → Prop
  | done {q q' : Queue} : atEnd q → next q = some q' → Nexts q []
  | next {q q' : Queue} {e : Node} {l : List Node} : atEnd q = false → next q = some q' →
      q'.mIterator = some e → Nexts q' l → Nexts q (e :: l)

/-- The iterator is on the queue, and a walk meets what is linked throughout once and in order: what
it has met and what `next` returns from here on, or what it had met at its end. -/
structure OnQueue (w : Watched) : Prop where
  linked : IteratorLinked w.queue
  walk : ∃ rest, Nexts w.queue rest ∧
    ∀ k, w.walk = .walking k → (k.visited ++ rest).filter (· ∈ k.present) = k.present
  ended : ∀ k, w.walk = .ended k → k.visited.filter (· ∈ k.present) = k.present

/-- A remove in a walk: `next` still returns what it would have returned. -/
def RemoveKeeps (w w' : Watched) : Prop :=
  ∀ k, w.walk = .walking k → ∀ rest, Nexts w.queue rest → Nexts w'.queue rest

/-! ## When it holds -/

/-- A consumer does not take the item that the iterator is at, and it finds one. -/
def Spares (q : Queue) : Label → Prop
  | .dequeue => isEmpty q = false → q.mIterator ≠ q.mNext .head
  | .poll | .flush => isEmpty q = false ∧ q.mIterator ≠ q.mNext .head
  | _ => True

/-- The steps that do not move the iterator past an item, or back. -/
def Quiet (q : Queue) : Label → Prop
  | .remove => q.mIterator = some .head ∨ atEnd q
  | .insertBefore _ => q.mIterator = some .head → isEmpty q
  | .insertAfter _ => q.mIterator = some .tail → isEmpty q
  | _ => True

def Watched.Meets (w : Watched) : Op → Prop
  | .cur => True
  | .step l => Spares w.queue l ∧ ∀ k, w.walk = .walking k → Quiet w.queue l

/-! ## The queue as a whole -/

variable {q q' : Queue} {live free hand xs ys : List Node} {e : Node} {p : Payload}

/-- The lists of a queue; an iterator stays at a dummy that it would pass. -/
structure Whole (q : Queue) (live : List Node) : Prop where
  lists : ∃ free, Rep q live free []
  chunk : 0 < q.mChunkSize
  next_tail : q.mNext .tail = some .tail
  prev_head : q.mPrev .head = some .head

theorem Whole.congr (h : Whole q live) (hnext : q'.mNext = q.mNext) (hprev : q'.mPrev = q.mPrev)
    (hfree : q'.firstFree = q.firstFree) (hallocated : q'.allocated = q.allocated)
    (hchunk : q'.mChunkSize = q.mChunkSize) : Whole q' live where
  lists := by
    obtain ⟨free, hrep⟩ := h.lists
    exact ⟨free, hrep.congr hnext hprev hfree hallocated⟩
  chunk := by
    rw [hchunk]; exact h.chunk
  next_tail := by
    rw [hnext]; exact h.next_tail
  prev_head := by
    rw [hprev]; exact h.prev_head

theorem allocChunk_ends (q : Queue) (items : Nat) :
    (allocChunk q items).mNext .tail = q.mNext .tail ∧
      (allocChunk q items).mPrev .head = q.mPrev .head := by
  unfold allocChunk
  split <;> exact ⟨rfl, rfl⟩

theorem refill_ends (q : Queue) :
    (refill q).mNext .tail = q.mNext .tail ∧ (refill q).mPrev .head = q.mPrev .head := by
  unfold refill
  split
  · exact allocChunk_ends q q.mChunkSize
  · exact ⟨rfl, rfl⟩

theorem takeFree_ends (q : Queue) (p : Payload) : (takeFree q p).2.mNext .tail = q.mNext .tail ∧
    (takeFree q p).2.mPrev .head = q.mPrev .head := by
  obtain ⟨hnext, hprev⟩ := refill_ends q
  unfold takeFree
  cases hfirst : (refill q).firstFree with
  | none => simp only [hfirst]; exact ⟨hnext, hprev⟩
  | some item => simp only [hfirst]; exact ⟨hnext, hprev⟩

theorem linkBetween_ends {before after : Node} (he : e ≠ .head ∧ e ≠ .tail)
    (hbefore : before ≠ .tail)
    (hafter : after ≠ .head) : (linkBetween q e before after).mNext .tail = q.mNext .tail ∧
      (linkBetween q e before after).mPrev .head = q.mPrev .head := by
  simp only [linkBetween, setNext, setPrev]
  rw [update_of_ne hbefore.symm, update_of_ne he.2.symm,
    update_of_ne hafter.symm, update_of_ne he.1.symm]
  exact ⟨rfl, rfl⟩

theorem Rep.lastOf_ne_tail (h : Rep q (xs ++ ys) free hand) : lastOf .head xs ≠ .tail := by
  intro heq
  rcases mem_cons.1 (lastOf_mem .head xs) with hhead | hmem
  · exact absurd (heq.symm.trans hhead) (by simp)
  · exact (h.live_item (mem_append_left ys hmem)).2 heq

theorem Rep.firstOf_ne_head (h : Rep q (xs ++ ys) free hand) : firstOf ys .tail ≠ .head := by
  intro heq
  rcases mem_append.1 (firstOf_mem ys .tail) with hmem | htail
  · exact (h.live_item (mem_append_right xs hmem)).1 heq
  · exact absurd ((mem_singleton.1 htail).symm.trans heq) (by simp)

theorem Whole.put (h : Whole q (xs ++ ys)) (p : Payload) : ∃ q₁, q₁.mIterator = q.mIterator ∧
    (takeFree q p = (none, q₁) ∧ Whole q₁ (xs ++ ys) ∨
      ∃ e, takeFree q p = (some e, q₁) ∧ q₁.mPrev (firstOf ys .tail) = some (lastOf .head xs) ∧
        q₁.mNext (lastOf .head xs) = some (firstOf ys .tail) ∧
        Whole (linkBetween q₁ e (lastOf .head xs) (firstOf ys .tail)) (xs ++ e :: ys) ∧
        e ∉ xs ++ ys) := by
  obtain ⟨free, hrep⟩ := h.lists
  obtain ⟨hnext, hprev⟩ := takeFree_ends q p
  obtain ⟨q₁, free', hsame, hit, -, hput⟩ := hrep.put h.chunk p
  have hchunk : 0 < q₁.mChunkSize := by
    rw [hsame.mChunkSize]; exact h.chunk
  refine ⟨q₁, hit, ?_⟩
  rcases hput with ⟨htake, hrep', -⟩ | ⟨e, htake, hfirst, hlast, hrep', hnew, -⟩
  · rw [htake] at hnext hprev
    exact .inl ⟨htake, ⟨free', hrep'⟩, hchunk, hnext.trans h.next_tail, hprev.trans h.prev_head⟩
  · rw [htake] at hnext hprev
    have he : e ≠ .head ∧ e ≠ .tail := hrep'.live_item (by simp)
    obtain ⟨hnext', hprev'⟩ :=
      linkBetween_ends (q := q₁) he hrep.lastOf_ne_tail hrep.firstOf_ne_head
    refine .inr ⟨e, htake, hfirst, hlast, ⟨⟨free', hrep'⟩, hchunk, ?_, ?_⟩, hnew⟩
    · exact hnext'.trans (hnext.trans h.next_tail)
    · exact hprev'.trans (hprev.trans h.prev_head)

theorem unlink_ends (hrun : unlink q e = some q') (he : e ≠ .head ∧ e ≠ .tail)
    (hprev : q.mPrev e ≠ some .tail) (hnext : q.mNext e ≠ some .head) :
    q'.mNext .tail = q.mNext .tail ∧ q'.mPrev .head = q.mPrev .head := by
  obtain ⟨before, hbefore, hrun⟩ := bind_eq_some_iff.1 hrun
  obtain ⟨after, hafter, hrun⟩ := bind_eq_some_iff.1 hrun
  have hread : (setNext q before (q.mNext e)).mNext e = q.mNext e := by
    simp only [setNext]
    by_cases heq : e = before
    · rw [← heq, update_self]
    · rw [update_of_ne heq]
  have htail : before ≠ .tail := by
    rintro rfl; exact hprev hbefore
  have hhead : after ≠ .head := by
    rintro rfl; exact hnext (hread ▸ hafter)
  rw [← some.inj hrun]
  simp only [setNext, setPrev]
  rw [update_of_ne he.2.symm, update_of_ne htail.symm, update_of_ne hhead.symm]
  exact ⟨rfl, rfl⟩

theorem Whole.unlink (h : Whole q (xs ++ e :: ys)) :
    ∃ q', unlink q e = some q' ∧ Whole q' (xs ++ ys) ∧ q'.mIterator = q.mIterator := by
  obtain ⟨free, hrep⟩ := h.lists
  obtain ⟨q', hrun, hrep', hsame, hit, -⟩ := hrep.unlink
  have he : e ≠ .head ∧ e ≠ .tail := hrep.live_item (by simp)
  obtain ⟨hnext, hprev⟩ := unlink_ends hrun he
    (by rw [hrep.links.prev_eq]; exact fun heq => hrep.lastOf_ne_tail (some.inj heq))
    (by rw [hrep.links.next_eq]; exact fun heq => hrep'.firstOf_ne_head (some.inj heq))
  refine ⟨q', hrun, ⟨⟨e :: free, hrep'⟩, ?_, hnext.trans h.next_tail, hprev.trans h.prev_head⟩, hit⟩
  rw [hsame.mChunkSize]
  exact h.chunk

theorem follow_eq {fuel : Nat} {a : Node} (hlinks : Listed q.mNext q.mPrev some a .tail live)
    (htail : .tail ∉ live) (hle : live.length ≤ fuel) : follow q fuel a = live := by
  induction fuel generalizing a live with
  | zero => rw [follow, eq_nil_of_length_eq_zero (Nat.le_zero.1 hle)]
  | succ fuel ih =>
    cases live with
    | nil =>
      have hlink : q.mNext a = some .tail := (isChain_cons_cons.1 hlinks).1.1
      rw [follow, hlink]
    | cons b live =>
      obtain ⟨⟨hlink, -⟩, hrest⟩ := isChain_cons_cons.1 hlinks
      rw [mem_cons, not_or] at htail
      have htake := ih hrest htail.2 (Nat.le_of_succ_le_succ hle)
      rw [follow, hlink]
      cases b with
      | tail => exact absurd rfl htail.1
      | head | item n => exact congrArg (List.cons _) htake

theorem Whole.items_eq (h : Whole q live) : items q = live := by
  obtain ⟨free, hrep⟩ := h.lists
  have htail : Node.tail ∉ live := fun hmem => (hrep.live_item hmem).2 rfl
  have hlength := hrep.length_eq
  exact follow_eq hrep.links htail (by omega)

/-! ## The iterator between two parts -/

/-- The iterator is at the end of what is behind it; at the tail, nothing is ahead. -/
structure Stands (q : Queue) (xs ys : List Node) : Prop where
  whole : Whole q (xs ++ ys)
  iterator : q.mIterator = some (lastOf .head xs) ∨ q.mIterator = some .tail ∧ ys = []

variable {l : Label}

section

variable (h : Stands q xs ys)

include h

theorem Stands.linked : IteratorLinked q := by
  obtain ⟨free, hrep⟩ := h.whole.lists
  have htail : Node.tail ∉ xs ++ ys := fun hmem => (hrep.live_item hmem).2 rfl
  rcases h.iterator with hit | ⟨hit, rfl⟩
  · refine ⟨_, xs ++ ys, hit, hrep.links, htail, ?_⟩
    rw [append_assoc]
    exact mem_append_left _ (lastOf_mem .head xs)
  · exact ⟨.tail, xs ++ [], hit, hrep.links, htail, by simp⟩

theorem Stands.congr (hnext : q'.mNext = q.mNext) (hprev : q'.mPrev = q.mPrev)
    (hfree : q'.firstFree = q.firstFree) (hallocated : q'.allocated = q.allocated)
    (hchunk : q'.mChunkSize = q.mChunkSize) (hit : q'.mIterator = q.mIterator) :
    Stands q' xs ys where
  whole := h.whole.congr hnext hprev hfree hallocated hchunk
  iterator := by
    rw [hit]; exact h.iterator

/-- What a step leaves around the iterator, where it stays between the same items if the step is
quiet. -/
def Stays (q q' : Queue) (xs ys : List Node) (l : Label) : Prop :=
  ∃ xs' ys', Stands q' xs' ys' ∧ (Quiet q l → SameSides xs ys xs' ys')

omit h in
theorem Stands.stays (h : Stands q' xs ys) (l : Label) : Stays q q' xs ys l :=
  ⟨xs, ys, h, fun _ => SameSides.refl xs ys⟩

theorem Stands.enqueue (hstep : enqueue q p = some q') : Stays q q' xs ys (.enqueue p) := by
  have hwhole : Whole q (xs ++ ys ++ []) := by
    rw [append_nil]; exact h.whole
  obtain ⟨q₁, hit, ⟨htake, hwhole'⟩ | ⟨e, htake, hprev, -, hwhole', hnew⟩⟩ := hwhole.put p
  · rw [append_nil] at hwhole'
    rw [WombatQueue.enqueue, htake] at hstep
    cases hstep
    refine Stands.stays ⟨hwhole', ?_⟩ _
    rw [hit]
    exact h.iterator
  rw [firstOf_nil] at hprev hwhole'
  rw [append_nil] at hnew
  rw [WombatQueue.enqueue, htake] at hstep
  simp only [hprev, bind_eq_bind, bind_some, Option.some.injEq] at hstep
  subst hstep
  rcases h.iterator with hlast | ⟨htail, rfl⟩
  · rw [append_assoc] at hwhole'
    exact ⟨xs, ys ++ [e], ⟨hwhole'.congr rfl rfl rfl rfl rfl, .inl (hit.trans hlast)⟩,
      fun _ => SameSides.append_ahead hnew⟩
  · rw [append_assoc, nil_append, ← append_nil [e], ← append_assoc] at hwhole'
    rw [append_nil] at hnew
    exact ⟨xs ++ [e], [], ⟨hwhole'.congr rfl rfl rfl rfl rfl, .inr ⟨hit.trans htail, rfl⟩⟩,
      fun _ => SameSides.append_behind hnew⟩

omit h in
theorem Stands.put_after (h : Whole q (xs ++ ys)) (hit : q.mIterator = some (lastOf .head xs))
    (hstep : (match takeFree q p with
      | (none, q') => some q'
      | (some item, q') => do
        let it ← q'.mIterator
        let after ← q'.mNext it
        some (post (linkBetween q' item it after))) = some q') :
    Stands q' xs ys ∨ ∃ e, e ∉ xs ++ ys ∧ Stands q' xs (e :: ys) := by
  obtain ⟨q₁, hit₁, ⟨htake, hwhole⟩ | ⟨e, htake, -, hnext, hwhole, hnew⟩⟩ := h.put p
  · rw [htake] at hstep
    cases hstep
    exact .inl ⟨hwhole, .inl (hit₁.trans hit)⟩
  · rw [htake] at hstep
    simp only [hit₁.trans hit, hnext, bind_eq_bind, bind_some, Option.some.injEq] at hstep
    subst hstep
    exact .inr ⟨e, hnew, hwhole.congr rfl rfl rfl rfl rfl, .inl (hit₁.trans hit)⟩

theorem Stands.insertAfter (hstep : insertAfter q p = some q') :
    Stays q q' xs ys (.insertAfter p) := by
  unfold WombatQueue.insertAfter at hstep
  rcases h.iterator with hlast | ⟨htail, rfl⟩
  · obtain ⟨free, hrep⟩ := h.whole.lists
    have hne : q.mIterator ≠ some .tail := by
      rw [hlast]; exact fun heq => hrep.lastOf_ne_tail (some.inj heq)
    rw [if_neg hne] at hstep
    rcases Stands.put_after h.whole hlast hstep with hstands | ⟨e, hnew, hstands⟩
    · exact hstands.stays _
    · exact ⟨xs, e :: ys, hstands, fun _ => SameSides.insert_ahead (a := []) hnew⟩
  -- The iterator goes to the head, in front of what it has passed.
  rw [if_pos htail] at hstep
  have hwhole : Whole { q with mIterator := some .head } ([] ++ xs) := by
    have hall := h.whole
    rw [append_nil] at hall
    exact hall.congr rfl rfl rfl rfl rfl
  have hempty : Quiet q (.insertAfter p) → xs = [] := by
    intro hquiet
    obtain ⟨free, hrep⟩ := h.whole.lists
    exact (append_eq_nil_iff.1 (hrep.isEmpty_iff.1 (hquiet htail))).1
  rcases Stands.put_after hwhole rfl hstep with hstands | ⟨e, hnew, hstands⟩
  · refine ⟨[], xs, hstands, fun hquiet => ?_⟩
    rw [hempty hquiet]
    exact SameSides.refl [] []
  · refine ⟨[], e :: xs, hstands, fun hquiet => ?_⟩
    rw [hempty hquiet] at hnew ⊢
    exact SameSides.insert_ahead (a := []) (b := []) hnew

omit h in
theorem Stands.put_before {it : Node} (h : Whole q (xs ++ ys)) (hit : q.mIterator = some it)
    (hfirst : it = firstOf ys .tail)
    (hstep : (match takeFree q p with
      | (none, q') => some q'
      | (some item, q') => do
        let it ← q'.mIterator
        let before ← q'.mPrev it
        some (post (linkBetween q' item before it))) = some q') :
    q'.mIterator = some it ∧
      (Whole q' (xs ++ ys) ∨ ∃ e, e ∉ xs ++ ys ∧ Whole q' (xs ++ e :: ys)) := by
  subst hfirst
  obtain ⟨q₁, hit₁, ⟨htake, hwhole⟩ | ⟨e, htake, hprev, -, hwhole, hnew⟩⟩ := h.put p
  · rw [htake] at hstep
    cases hstep
    exact ⟨hit₁.trans hit, .inl hwhole⟩
  · rw [htake] at hstep
    simp only [hit₁.trans hit, hprev, bind_eq_bind, bind_some, Option.some.injEq] at hstep
    subst hstep
    exact ⟨hit₁.trans hit, .inr ⟨e, hnew, hwhole.congr rfl rfl rfl rfl rfl⟩⟩

omit h in
theorem Stands.put_last (h : Whole q xs) (hit : q.mIterator = some .tail)
    (hstep : (match takeFree q p with
      | (none, q') => some q'
      | (some item, q') => do
        let it ← q'.mIterator
        let before ← q'.mPrev it
        some (post (linkBetween q' item before it))) = some q') :
    Stands q' xs [] ∨ ∃ e, e ∉ xs ∧ Stands q' (xs ++ [e]) [] := by
  rw [← append_nil xs] at h
  obtain ⟨hit', hwhole | ⟨e, hnew, hwhole⟩⟩ := Stands.put_before h hit rfl hstep
  · exact .inl ⟨hwhole, .inr ⟨hit', rfl⟩⟩
  · refine .inr ⟨e, by rwa [append_nil] at hnew, ?_, .inr ⟨hit', rfl⟩⟩
    rwa [append_nil]

theorem Stands.insertBefore (hstep : insertBefore q p = some q') :
    Stays q q' xs ys (.insertBefore p) := by
  unfold WombatQueue.insertBefore at hstep
  rcases h.iterator with hlast | ⟨htail, rfl⟩
  · rcases eq_nil_or_concat xs with rfl | ⟨xs, it, rfl⟩
    · -- The iterator goes to the tail, past everything.
      rw [lastOf_nil] at hlast
      rw [if_pos hlast] at hstep
      have hwhole : Whole { q with mIterator := some .tail } ys :=
        h.whole.congr rfl rfl rfl rfl rfl
      have hempty : Quiet q (.insertBefore p) → ys = [] := by
        intro hquiet
        obtain ⟨free, hrep⟩ := h.whole.lists
        exact hrep.isEmpty_iff.1 (hquiet hlast)
      rcases Stands.put_last hwhole rfl hstep with hstands | ⟨e, hnew, hstands⟩
      · refine ⟨ys, [], hstands, fun hquiet => ?_⟩
        rw [hempty hquiet]
        exact SameSides.refl [] []
      · refine ⟨ys ++ [e], [], hstands, fun hquiet => ?_⟩
        rw [hempty hquiet] at hnew ⊢
        exact SameSides.append_behind hnew
    rw [concat_eq_append] at h hlast ⊢
    rw [lastOf_concat] at hlast
    obtain ⟨free, hrep⟩ := h.whole.lists
    have hne : q.mIterator ≠ some .head := by
      rw [hlast]; exact fun heq => (hrep.live_item (by simp)).1 (some.inj heq)
    rw [if_neg hne] at hstep
    have hwhole : Whole q (xs ++ it :: ys) := by
      have hall := h.whole
      rwa [append_assoc] at hall
    obtain ⟨hit', hwhole' | ⟨e, hnew, hwhole'⟩⟩ := Stands.put_before hwhole hlast rfl hstep
    · refine Stands.stays ⟨?_, .inl ?_⟩ _
      · rwa [append_assoc]
      · rwa [lastOf_concat]
    · refine ⟨xs ++ [e, it], ys, ⟨?_, .inl ?_⟩, fun _ => ?_⟩
      · rwa [append_assoc]
      · rwa [append_cons, lastOf_concat]
      · refine SameSides.insert_behind ?_; rwa [append_assoc]
  have hne : q.mIterator ≠ some .head := by
    rw [htail]; simp
  rw [if_neg hne] at hstep
  have hwhole := h.whole
  rw [append_nil] at hwhole
  rcases Stands.put_last hwhole htail hstep with hstands | ⟨e, hnew, hstands⟩
  · exact hstands.stays _
  · exact ⟨xs ++ [e], [], hstands, fun _ => SameSides.append_behind hnew⟩

theorem Stands.atEnd_iff : atEnd q ↔ ys = [] := by
  obtain ⟨free, hrep⟩ := h.whole.lists
  unfold atEnd
  rcases h.iterator with hlast | ⟨htail, rfl⟩
  · have hnext : q.mNext (lastOf .head xs) = some (firstOf ys .tail) := hrep.links.next_last
    rw [hlast, bind_some, hnext]
    cases ys with
    | nil => simp
    | cons y ys =>
      have hne : y ≠ .tail := (hrep.live_item (by simp)).2
      simpa using hne
  · rw [htail, bind_some, h.whole.next_tail]; simp

theorem Stands.remove (hstep : remove q = some q') :
    ∃ xs' ys', Stands q' xs' ys' ∧ (Quiet q .remove → SameSides xs ys xs' ys' ∧ ys' = ys) := by
  obtain ⟨free, hrep⟩ := h.whole.lists
  unfold WombatQueue.remove at hstep
  split at hstep
  · cases hstep; exact ⟨xs, ys, h, fun _ => ⟨SameSides.refl xs ys, rfl⟩⟩
  rename_i hitem
  simp only [Bool.or_eq_true, decide_eq_true_eq, not_or] at hitem
  rcases h.iterator with hlast | ⟨htail, -⟩
  · rcases eq_nil_or_concat xs with rfl | ⟨xs, it, rfl⟩
    · exact absurd hlast hitem.1
    rw [concat_eq_append] at h hlast hrep ⊢
    rw [lastOf_concat] at hlast
    rw [append_assoc] at hrep
    have hnext : q.mNext it = some (firstOf ys .tail) := hrep.links.next_eq
    have hwhole : Whole { q with mIterator := some (firstOf ys .tail) } (xs ++ it :: ys) := by
      have hall := h.whole
      rw [append_assoc] at hall
      exact hall.congr rfl rfl rfl rfl rfl
    obtain ⟨q₁, hrun, hwhole', hit⟩ := hwhole.unlink
    simp only [hlast, hnext, bind_eq_bind, bind_some] at hstep
    rw [hrun] at hstep
    cases hstep
    have hoff : it ∉ xs ++ ys := by
      have hnodup : (xs ++ it :: ys).Nodup := hrep.nodup.of_append_left.of_append_left
      exact (nodup_middle.1 hnodup).notMem
    cases ys with
    | nil =>
      refine ⟨xs, [], ⟨hwhole', .inr ⟨hit, rfl⟩⟩, fun _ => ?_⟩
      rw [append_nil] at hoff
      exact ⟨(SameSides.append_behind hoff).symm, rfl⟩
    | cons y ys =>
      -- The iterator goes to the next item, which the next `next` leaves behind.
      refine ⟨xs ++ [y], ys, ⟨?_, .inl ?_⟩, fun hquiet => ?_⟩
      · rwa [append_assoc]
      · rwa [lastOf_concat]
      · rcases hquiet with hhead | hend
        · exact absurd hhead hitem.1
        · exact absurd (h.atEnd_iff.1 hend) (cons_ne_nil y ys)
  · exact absurd htail hitem.2

theorem Stands.removeHead {w : Waiters} (hitem : isEmpty q = false)
    (hspares : q.mIterator ≠ q.mNext .head) (hstep : removeHead { q with waiters := w } = some q') :
    Stays q q' xs ys l := by
  obtain ⟨free, hrep⟩ := h.whole.lists
  unfold WombatQueue.removeHead at hstep
  have hhead := hrep.links.next_head
  simp only [hhead, bind_eq_bind, bind_some] at hstep
  obtain ⟨q₁, hunlink, hstep⟩ := bind_eq_some_iff.1 hstep
  cases hstep
  have hnodup : (xs ++ ys).Nodup := hrep.nodup.of_append_left.of_append_left
  have hunlinks : ∀ (e : Node) (rest : List Node), xs ++ ys = e :: rest →
      Whole q₁ rest ∧ q₁.mIterator = q.mIterator ∧ e ∉ rest := by
    intro e rest heq
    have hwhole : Whole { q with waiters := w } ([] ++ e :: rest) := by
      have hall := h.whole
      rw [heq] at hall
      exact hall.congr rfl rfl rfl rfl rfl
    obtain ⟨q₂, hrun, hwhole', hit⟩ := hwhole.unlink
    rw [heq] at hunlink
    cases hrun.symm.trans hunlink
    rw [heq] at hnodup
    exact ⟨hwhole', hit, (nodup_cons.1 hnodup).1⟩
  cases xs with
  | nil =>
    cases ys with
    | nil =>
      have hempty : isEmpty q := hrep.isEmpty_iff.2 rfl
      exact absurd hempty (by simp [hitem])
    | cons e ys =>
      obtain ⟨hwhole, hit, hoff⟩ := hunlinks e ys rfl
      have hlast : q.mIterator = some .head := by
        rcases h.iterator with hlast | ⟨-, hnil⟩
        · exact hlast
        · exact absurd hnil (cons_ne_nil e ys)
      exact ⟨[], ys, ⟨hwhole.congr rfl rfl rfl rfl rfl, .inl (hit.trans hlast)⟩,
        fun _ => SameSides.symm (@SameSides.insert_ahead _ _ [] [] ys e hoff)⟩
  | cons e xs =>
    obtain ⟨hwhole, hit, hoff⟩ := hunlinks e (xs ++ ys) rfl
    refine ⟨xs, ys, ⟨hwhole.congr rfl rfl rfl rfl rfl, ?_⟩,
      fun _ => (SameSides.insert_behind (a := []) (b := xs) hoff).symm⟩
    rcases h.iterator with hlast | ⟨htail, hnil⟩
    · left
      rcases eq_nil_or_concat xs with rfl | ⟨xs, it, rfl⟩
      · rw [hhead] at hspares; exact absurd hlast hspares
      · rw [concat_eq_append, lastOf_concat]
        rw [concat_eq_append, ← cons_append, lastOf_concat] at hlast
        exact hit.trans hlast
    · exact .inr ⟨hit.trans htail, hnil⟩

omit h in
theorem Whole.iterate (h : Whole q live) (it : Option Node) :
    Whole { q with mIterator := it } live :=
  h.congr rfl rfl rfl rfl rfl

omit h in
theorem Stands.next_end (h : Stands q xs []) : ∃ q', next q = some q' ∧ Stands q' xs [] := by
  obtain ⟨free, hrep⟩ := h.whole.lists
  have hprev : q.mPrev .tail = some (lastOf .head xs) := hrep.links.prev_first
  obtain ⟨it, hit, hnext⟩ : ∃ it, q.mIterator = some it ∧ q.mNext it = some .tail := by
    rcases h.iterator with hlast | ⟨htail, -⟩
    · exact ⟨_, hlast, hrep.links.next_last⟩
    · exact ⟨_, htail, h.whole.next_tail⟩
  refine ⟨{ q with mIterator := some (lastOf .head xs) }, ?_, h.whole.iterate _, .inl rfl⟩
  simp [WombatQueue.next, hit, hnext, hprev]

omit h in
theorem Stands.next_item (h : Stands q xs (e :: ys)) :
    ∃ q', next q = some q' ∧ q'.mIterator = some e ∧ Stands q' (xs ++ [e]) ys := by
  obtain ⟨free, hrep⟩ := h.whole.lists
  have hne : e ≠ .tail := (hrep.live_item (by simp)).2
  have hlast : q.mIterator = some (lastOf .head xs) := by
    rcases h.iterator with hlast | ⟨-, hnil⟩
    · exact hlast
    · exact absurd hnil (cons_ne_nil e ys)
  have hnext : q.mNext (lastOf .head xs) = some e := hrep.links.next_last
  refine ⟨{ q with mIterator := some e }, ?_, rfl, ?_, .inl ?_⟩
  · simp [WombatQueue.next, hlast, hnext, if_neg hne]
  · rw [append_assoc]; exact h.whole.iterate _
  · rw [lastOf_concat]

omit h in
theorem Whole.stands (h : Whole q live) {it : Node} (hit : it ∈ Node.head :: (live ++ [.tail])) :
    ∃ xs ys, live = xs ++ ys ∧ Stands { q with mIterator := some it } xs ys := by
  obtain ⟨free, hrep⟩ := h.lists
  by_cases htail : it = .tail
  · subst htail
    refine ⟨live, [], by simp, ?_, .inr ⟨rfl, rfl⟩⟩
    rw [append_nil]
    exact h.iterate _
  · obtain ⟨xs, ys, rfl, rfl⟩ := split_after hrep hit htail
    exact ⟨xs, ys, rfl, h.iterate _, .inl rfl⟩

theorem Stands.prev (hstep : prev q = some q') : ∃ xs' ys', Stands q' xs' ys' := by
  obtain ⟨free, hrep⟩ := h.whole.lists
  have hhead := hrep.links.next_head
  have hfirst : firstOf (xs ++ ys) .tail ∈ Node.head :: (xs ++ ys ++ [.tail]) :=
    mem_cons_of_mem _ (firstOf_mem (xs ++ ys) .tail)
  -- The node before the iterator, where the head is before itself.
  obtain ⟨it, before, hit, hbefore, hmem⟩ : ∃ it before, q.mIterator = some it ∧
      q.mPrev it = some before ∧ before ∈ Node.head :: (xs ++ ys ++ [.tail]) := by
    rcases h.iterator with hlast | ⟨htail, rfl⟩
    · rcases eq_nil_or_concat xs with rfl | ⟨xs, it, rfl⟩
      · exact ⟨.head, .head, hlast, h.whole.prev_head, mem_cons_self⟩
      · rw [concat_eq_append] at hlast hrep ⊢
        rw [lastOf_concat] at hlast
        rw [append_assoc] at hrep
        refine ⟨it, lastOf .head xs, hlast, hrep.links.prev_eq, ?_⟩
        rw [append_assoc, append_assoc]
        exact mem_append_left _ (lastOf_mem .head xs)
    · refine ⟨.tail, lastOf .head xs, htail, hrep.links.prev_first, ?_⟩
      rw [append_assoc]
      exact mem_append_left _ (lastOf_mem .head xs)
  have hresult : ∃ it', it' ∈ Node.head :: (xs ++ ys ++ [.tail]) ∧
      q' = { q with mIterator := some it' } := by
    simp only [WombatQueue.prev, hit, hbefore, bind_eq_bind, bind_some, Option.some.injEq] at hstep
    by_cases hdummy : before = .head
    · rw [if_pos hdummy, hhead] at hstep; exact ⟨_, hfirst, hstep.symm⟩
    · rw [if_neg hdummy] at hstep; exact ⟨_, hmem, hstep.symm⟩
  obtain ⟨it', hmem', rfl⟩ := hresult
  obtain ⟨xs', ys', -, hstands⟩ := h.whole.stands hmem'
  exact ⟨xs', ys', hstands⟩

theorem Stands.beside (hnext : q'.mNext = q.mNext) (hprev : q'.mPrev = q.mPrev)
    (hfree : q'.firstFree = q.firstFree) (hallocated : q'.allocated = q.allocated)
    (hchunk : q'.mChunkSize = q.mChunkSize) (hit : q'.mIterator = q.mIterator) :
    Stays q q' xs ys l :=
  (h.congr hnext hprev hfree hallocated hchunk hit).stays l

/-- The steps that neither start a walk nor move the iterator along it. -/
def Label.Aside : Label → Prop
  | .next | .prev | .toBegin | .toEnd => False
  | _ => True

theorem Stands.aside (hl : l.Aside) (hspares : Spares q l) (hstep : step q l = some q') :
    Stays q q' xs ys l := by
  cases l with
  | enqueue p => exact h.enqueue hstep
  | insertAfter p => exact h.insertAfter hstep
  | insertBefore p => exact h.insertBefore hstep
  | remove =>
    obtain ⟨xs', ys', hstands, hquiet⟩ := h.remove hstep
    exact ⟨xs', ys', hstands, fun hq => (hquiet hq).1⟩
  | next | prev | toBegin | toEnd => exact absurd hl id
  | setFlag => cases hstep; exact h.beside rfl rfl rfl rfl rfl rfl
  | wait consumer | readFlag | clearFlag | postUnblock =>
    simp only [WombatQueue.step] at hstep
    split at hstep
    · cases hstep; exact h.beside rfl rfl rfl rfl rfl rfl
    · cases hstep
  | dequeue =>
    simp only [WombatQueue.step] at hstep
    split at hstep
    · split at hstep
      · cases hstep; exact h.beside rfl rfl rfl rfl rfl rfl
      · rename_i hempty
        have hitem : isEmpty q = false := Bool.eq_false_iff.2 hempty
        exact h.removeHead hitem (hspares hitem) hstep
    · cases hstep
  | poll | flush =>
    simp only [WombatQueue.step] at hstep
    split at hstep
    · exact h.removeHead hspares.1 hspares.2 hstep
    · cases hstep
  | replace mData mClosure =>
    simp only [WombatQueue.step, replace] at hstep
    split at hstep
    · cases hstep; exact h.stays _
    · obtain ⟨ele, -, hstep⟩ := bind_eq_some_iff.1 hstep
      cases hstep
      exact h.beside rfl rfl rfl rfl rfl rfl

/-! ## Whole runs -/

theorem Stands.nexts : Nexts q ys := by
  induction ys generalizing q xs with
  | nil =>
    obtain ⟨q', hnext, -⟩ := h.next_end
    exact .done (h.atEnd_iff.2 rfl) hnext
  | cons e ys ih =>
    obtain ⟨q', hnext, hit, hstands⟩ := h.next_item
    refine .next ?_ hnext hit (ih hstands)
    exact Bool.eq_false_iff.2 fun hend => cons_ne_nil e ys (h.atEnd_iff.1 hend)

end

theorem Nexts.unique {l l' : List Node} (h : Nexts q l) (h' : Nexts q l') : l = l' := by
  induction h generalizing l' with
  | done hend _ =>
    cases h' with
    | done => rfl
    | next hnot => exact absurd hend (by simp [hnot])
  | next hnot hnext hit _ ih =>
    cases h' with
    | done hend => exact absurd hend (by simp [hnot])
    | next _ hnext' hit' hrest' =>
      cases hnext.symm.trans hnext'
      cases hit.symm.trans hit'
      rw [ih hrest']

def Walking.At (xs ys : List Node) : Walking → Prop
  | .idle => True
  | .walking k => k.At xs ys
  | .ended k => k.visited.filter (· ∈ k.present) = k.present

structure On (w : Watched) (xs ys : List Node) : Prop where
  stands : Stands w.queue xs ys
  walk : w.walk.At xs ys

variable {w w' : Watched} {op : Op}

theorem watch_aside (hl : l.Aside) (walk : Walking) : walk.watch q q' l = match walk with
      | .walking k => .walking (k.keep (items q'))
      | walk => walk := by
  cases l with
  | next | prev | toBegin | toEnd => exact absurd hl id
  | _ => cases walk <;> rfl

section

variable (h : On w xs ys)

include h

theorem On.aside (hl : l.Aside) (hmeets : w.Meets (.step l)) (hstep : step w.queue l = some q') :
    ∃ xs' ys', On ⟨q', w.walk.watch w.queue q' l⟩ xs' ys' := by
  obtain ⟨hspares, hquiet⟩ := hmeets
  obtain ⟨xs', ys', hstands, hsame⟩ := h.stands.aside hl hspares hstep
  refine ⟨xs', ys', hstands, ?_⟩
  have hwalk := h.walk
  rw [watch_aside hl]
  cases hw : w.walk with
  | walking k =>
    rw [hw] at hwalk
    rw [hstands.whole.items_eq]
    exact hwalk.follow (hsame (hquiet k hw))
  | idle | ended k => rwa [hw] at hwalk

theorem On.next (hstep : next w.queue = some q') :
    ∃ xs' ys', On ⟨q', w.walk.watch w.queue q' .next⟩ xs' ys' := by
  have hend := h.stands.atEnd_iff
  have hwalk := h.walk
  cases ys with
  | nil =>
    obtain ⟨q₁, hnext, hstands⟩ := h.stands.next_end
    cases hnext.symm.trans hstep
    refine ⟨xs, [], hstands, ?_⟩
    cases hw : w.walk with
    | walking k =>
      rw [hw] at hwalk
      have hall := Walk.At.all hwalk
      rw [append_nil] at hall
      rwa [Walking.watch, if_pos (hend.2 rfl)]
    | idle | ended k => rwa [hw] at hwalk
  | cons e ys =>
    obtain ⟨q₁, hnext, hit, hstands⟩ := h.stands.next_item
    cases hnext.symm.trans hstep
    have hnot : ¬ atEnd w.queue := fun hat => cons_ne_nil e ys (hend.1 hat)
    refine ⟨xs ++ [e], ys, hstands, ?_⟩
    cases hw : w.walk with
    | walking k =>
      rw [hw] at hwalk
      rw [Walking.watch, if_neg hnot, hit]
      exact Walk.At.visit hwalk
    | idle | ended k => rwa [hw] at hwalk

/-- A step that meets the condition keeps the iterator on the queue, and the walk with it. -/
theorem On.step (hmeets : w.Meets op) (hstep : w.step op = some w') : ∃ xs' ys', On w' xs' ys' := by
  cases op with
  | cur =>
    obtain ⟨-, -, rfl⟩ := map_eq_some_iff.1 hstep
    exact ⟨xs, ys, h⟩
  | step l =>
    obtain ⟨q', hq', rfl⟩ := map_eq_some_iff.1 hstep
    by_cases hl : l.Aside
    · exact h.aside hl hmeets hq'
    cases l with
    | next => exact h.next hq'
    | prev =>
      obtain ⟨xs', ys', hstands⟩ := h.stands.prev hq'
      exact ⟨xs', ys', hstands, trivial⟩
    | toBegin =>
      cases hq'
      have hstands : Stands { w.queue with mIterator := some .head } [] (xs ++ ys) :=
        ⟨h.stands.whole.iterate _, .inl rfl⟩
      refine ⟨[], xs ++ ys, hstands, ?_⟩
      show (⟨items { w.queue with mIterator := some .head }, []⟩ : Walk Node).At [] (xs ++ ys)
      rw [hstands.whole.items_eq]
      exact Walk.At.start (xs ++ ys)
    | toEnd =>
      cases hq'
      have hstands : Stands { w.queue with mIterator := some .tail } (xs ++ ys) [] := by
        refine ⟨?_, .inr ⟨rfl, rfl⟩⟩
        rw [append_nil]
        exact h.stands.whole.iterate _
      exact ⟨xs ++ ys, [], hstands, trivial⟩
    | _ => exact absurd trivial hl

theorem On.onQueue : OnQueue w where
  linked := h.stands.linked
  walk := by
    refine ⟨ys, h.stands.nexts, fun k hk => ?_⟩
    have hwalk := h.walk
    rw [hk] at hwalk
    exact Walk.At.all hwalk
  ended k hk := by
    have hwalk := h.walk
    rwa [hk] at hwalk

theorem On.remove_keeps (hmeets : w.Meets (.step .remove))
    (hstep : w.step (.step .remove) = some w') : RemoveKeeps w w' := by
  intro k hk rest hrest
  obtain ⟨q', hq', rfl⟩ := map_eq_some_iff.1 hstep
  obtain ⟨xs', ys', hstands, hquiet⟩ := h.stands.remove hq'
  obtain ⟨-, rfl⟩ := hquiet (hmeets.2 k hk)
  obtain rfl := hrest.unique h.stands.nexts
  exact hstands.nexts

end

theorem on_create (maxSize initialSize growBySize : Nat) :
    On ⟨create maxSize initialSize growBySize, .idle⟩ [] [] := by
  obtain ⟨free, hinv, -⟩ := inv_create maxSize initialSize growBySize
  refine ⟨⟨⟨⟨free, hinv.rep⟩, hinv.counts.chunk, ?_, ?_⟩, .inl ?_⟩, trivial⟩
  · exact (allocChunk_ends _ _).1
  · exact (allocChunk_ends _ _).2
  · exact (allocChunk_same _ _).2.1

/-- **The iterator stays on the queue**, and a walk meets what stays there, in every run whose steps
meet the condition; a remove in a walk skips nothing. -/
theorem onQueue_of_runs (maxSize initialSize growBySize : Nat) (w : Watched)
    (hw : Runs Watched.step Watched.Meets ⟨create maxSize initialSize growBySize, .idle⟩ w) :
    OnQueue w ∧ ∀ w', w.Meets (.step .remove) → w.step (.step .remove) = some w' →
      RemoveKeeps w w' := by
  obtain ⟨xs, ys, h⟩ := hw.invariant (P := fun w => ∃ xs ys, On w xs ys)
    ⟨[], [], on_create maxSize initialSize growBySize⟩
    fun _ _ _ ⟨_, _, h⟩ hmeets hstep => h.step hmeets hstep
  exact ⟨h.onQueue, fun w' => h.remove_keeps⟩

/-- A walk over two items that removes the last. -/
theorem onQueue_of_runs_removed : ∃ w, [.step (.enqueue ⟨1, 2, 3⟩), .step (.enqueue ⟨4, 5, 6⟩),
      .step .toBegin, .step .next, .cur, .step .next, .step .remove,
        .step .next].foldlM Watched.step
      ⟨create 4 2 2, .idle⟩ = some w ∧
    w.walk = .ended ⟨[.item 0], [.item 0, .item 1]⟩ ∧ OnQueue w := by
  refine ⟨_, rfl, rfl, (onQueue_of_runs 4 2 2 _ ?_).1⟩
  have h₀ : Runs Watched.step Watched.Meets ⟨create 4 2 2, .idle⟩ ⟨create 4 2 2, .idle⟩ := Runs.init
  have h₁ := h₀.step (l := Op.step (.enqueue ⟨1, 2, 3⟩)) ⟨trivial, fun _ _ => trivial⟩ rfl
  have h₂ := h₁.step (l := Op.step (.enqueue ⟨4, 5, 6⟩)) ⟨trivial, fun _ _ => trivial⟩ rfl
  have h₃ := h₂.step (l := Op.step .toBegin) ⟨trivial, fun _ _ => trivial⟩ rfl
  have h₄ := h₃.step (l := Op.step .next) ⟨trivial, fun _ _ => trivial⟩ rfl
  have h₅ := h₄.step (l := Op.cur) trivial rfl
  have h₆ := h₅.step (l := Op.step .next) ⟨trivial, fun _ _ => trivial⟩ rfl
  have h₇ := h₆.step (l := Op.step .remove) ⟨trivial, fun _ _ => .inr rfl⟩ rfl
  exact h₇.step (l := Op.step .next) ⟨trivial, fun _ _ => trivial⟩ rfl

/-- A dispatch leaves the iterator at a free item, and a remove passes over the item that comes
after. -/
theorem not_onQueue :
    (∃ w, [.step (.enqueue ⟨1, 2, 3⟩), .step .toBegin, .step .next, .step (.wait .dispatch),
        .step .readFlag, .step .dequeue].foldlM Watched.step ⟨create 4 2 2, .idle⟩ = some w ∧
      ¬ IteratorLinked w.queue) ∧
    ∃ w, [.step (.enqueue ⟨1, 2, 3⟩), .step (.enqueue ⟨4, 5, 6⟩), .step .toBegin, .step .next,
        .step .remove, .step .next].foldlM Watched.step ⟨create 4 2 2, .idle⟩ = some w ∧
      w.walk = .ended ⟨[.item 1], [.item 0]⟩ ∧ ¬ OnQueue w := by
  refine ⟨⟨_, rfl, ?_⟩, ⟨_, rfl, rfl, fun h => absurd (h.ended _ rfl) (by decide)⟩⟩
  rintro ⟨it, live, hit, hlinks, htail, hmem⟩
  have hempty : live = [] :=
    hlinks.unique (fun _ _ => some.inj)
      (isChain_cons_cons.2 ⟨⟨rfl, rfl⟩, List.IsChain.singleton _⟩) htail not_mem_nil
  have hat : it = .item 0 := some.inj (hit.symm.trans rfl)
  rw [hempty, hat] at hmem
  exact nomatch hmem

end Common.WombatQueue

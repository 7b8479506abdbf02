import OpenMama.Common.QueueLists

/-!
# Runs of the event queue

What the semaphore counts and what is linked go together as long as nothing is removed
through the iterator, nothing is put in next to an item that was dispatched, `poll` and
`flush` find an item, and the flag of an unblock is neither seen twice nor left set.
-/

namespace Common.WombatQueue

open Lib List Option

/-! ## What is asked of the queue -/

/-- `wombatQueue_getSize`. -/
def getSize (q : Queue) : Nat := q.mSem

/-- The lists are whole, and the semaphore counts the items and the unblocks that are not
consumed, less the waiters that have taken it. -/
def Balanced (q : Queue) : Prop :=
  ∃ live free, Rep q live free [] ∧ .tail ∉ free ∧ q.returns ≤ q.unblocks ∧
    q.mSem + q.waiters.total = live.length + (q.unblocks - q.returns) ∧
    (q.waiters.total = 0 → q.returns = q.unblocks → getSize q = live.length)

/-- Items are delivered in the order that they were enqueued in, each once; the returns
without an item are no more than the unblocks; and nothing is left behind. -/
def Delivers (q : Queue) : Prop :=
  ∃ live, Listed q.mNext q.mPrev some .head .tail live ∧ .tail ∉ live ∧
    q.enqueued = q.delivered ++ live.map q.payload ∧ q.returns ≤ q.unblocks ∧
    (q.waiters.total = 0 → q.mSem = 0 → live = [])

/-! ## When it holds -/

/-- The iterator is at a dummy node or at an item that is linked. -/
def IteratorLinked (q : Queue) : Prop :=
  ∃ it live, q.mIterator = some it ∧ Listed q.mNext q.mPrev some .head .tail live ∧
    .tail ∉ live ∧ it ∈ Node.head :: (live ++ [.tail])

def Meets (q : Queue) : Label → Prop
  | .insertAfter _ | .insertBefore _ => IteratorLinked q
  | .remove => q.mIterator = some .head ∨ q.mIterator = some .tail
  | .poll | .flush => isEmpty q = false
  | .readFlag => q.mUnblocking → q.waiters.unblocked = 0 ∧ q.unblocking = 0
  | .dequeue => isEmpty q → q.mUnblocking → q.waiters.unblocked = 0 →
      q.unblocking = 0 → 2 ≤ q.mSem + q.waiters.total
  | _ => True

/-- The steps of `enqueue`, `dispatch`, `timedDispatch`, `poll` and `unblock`. -/
def Label.IsDelivery : Label → Prop
  | .flush | .insertAfter _ | .insertBefore _ | .remove | .replace .. | .next | .prev
  | .toBegin | .toEnd => False
  | .wait consumer => consumer ≠ .flush
  | _ => True

/-! ## The invariant -/

/-- What the semaphore, the waiters and the unblocks amount to, for `n` items. -/
structure Counts (q : Queue) (n : Nat) : Prop where
  sem : q.mSem + q.waiters.total + q.returns = n + q.unblocks
  consumed : q.returns + q.waiters.unblocked ≤ q.unblocks
  /-- A set flag belongs to an unblock that is not consumed. -/
  flag : q.mUnblocking → q.waiters.unblocked = 0 → q.unblocking = 0 → q.returns < q.unblocks
  chunk : 0 < q.mChunkSize

def InOrder (q : Queue) (live : List Node) : Prop :=
  q.enqueued = q.delivered ++ live.map q.payload

structure Inv (q : Queue) (live free : List Node) : Prop where
  rep : Rep q live free []
  counts : Counts q live.length

variable {q q' : Queue} {live free xs ys : List Node} {e : Node} {n : Nat}

theorem Rep.congr (h : Rep q live free []) (hnext : q'.mNext = q.mNext) (hprev : q'.mPrev = q.mPrev)
    (hfree : q'.firstFree = q.firstFree) (hallocated : q'.allocated = q.allocated) :
    Rep q' live free [] where
  links := by
    rw [hnext, hprev]; exact h.links
  chain := by
    rw [hnext, hfree]; exact h.chain
  nodup := h.nodup
  items := by
    rw [hallocated]; exact h.items

theorem Counts.of_same (h : Counts q n) (hsame : SameCounts q q') : Counts q' n where
  sem := by
    rw [hsame.mSem, hsame.waiters, hsame.returns, hsame.unblocks]; exact h.sem
  consumed := by
    rw [hsame.waiters, hsame.returns, hsame.unblocks]; exact h.consumed
  flag := by
    rw [hsame.mUnblocking, hsame.waiters, hsame.unblocking, hsame.returns, hsame.unblocks]
    exact h.flag
  chunk := by
    rw [hsame.mChunkSize]; exact h.chunk

theorem Counts.post (h : Counts q n) : Counts (post q) (n + 1) where
  sem := by
    have hsem := h.sem
    simp only [WombatQueue.post]
    omega
  consumed := h.consumed
  flag := h.flag
  chunk := h.chunk

/-- The next state, with its lists; deliveries stay in order. -/
def Keeps (q q' : Queue) (live : List Node) (l : Label) : Prop :=
  ∃ live' free', Inv q' live' free' ∧ (l.IsDelivery → InOrder q live → InOrder q' live')

theorem inv_create (maxSize initialSize growBySize : Nat) :
    ∃ free, Inv (create maxSize initialSize growBySize) [] free ∧
      InOrder (create maxSize initialSize growBySize) [] := by
  have hchunk : 0 < if growBySize = 0 then chunkSizeDefault else growBySize := by
    split
    · decide
    · omega
  have hinitial : 0 < if initialSize = 0 then chunkSizeDefault else initialSize := by
    split
    · decide
    · omega
  let empty : Queue := {
    mMaxSize := if maxSize = 0 then maxSizeDefault else maxSize
    mChunkSize := if growBySize = 0 then chunkSizeDefault else growBySize }
  have hrep : Rep empty [] [] [] := by
    refine ⟨?_, rfl, nodup_nil, fun a => ⟨fun h => absurd h not_mem_nil, ?_⟩⟩
    · exact List.isChain_cons_cons.2 ⟨⟨rfl, rfl⟩, List.IsChain.singleton _⟩
    · rintro ⟨n, hn, -⟩; exact absurd hn (Nat.not_lt_zero n)
  have hcounts : Counts empty 0 := ⟨rfl, Nat.le_refl 0, fun h => absurd h (by simp [empty]), hchunk⟩
  obtain ⟨free, hrep'⟩ : ∃ free, Rep (allocChunk empty
      (if initialSize = 0 then chunkSizeDefault else initialSize)) [] free [] := by
    rcases hrep.allocChunk hinitial with heq | hrep'
    · rw [heq]; exact ⟨[], hrep⟩
    · exact ⟨_, hrep'⟩
  obtain ⟨hsame, -, -, hdelivered⟩ := allocChunk_same empty
    (if initialSize = 0 then chunkSizeDefault else initialSize)
  refine ⟨free, ⟨hrep', hcounts.of_same hsame⟩, ?_⟩
  show (allocChunk empty _).enqueued = (allocChunk empty _).delivered ++ []
  rw [hsame.enqueued, hdelivered]
  rfl

variable {p : Payload} {l : Label}

theorem payload_map {l : List Node} (he : e ∉ l) :
    l.map (Function.update q.payload e p) = l.map q.payload := by
  refine map_congr_left fun a ha => Function.update_of_ne ?_ _ _
  rintro rfl
  exact he ha

section

variable (h : Inv q live free)

include h

theorem Inv.enqueue (hstep : enqueue q p = some q') : Keeps q q' live (.enqueue p) := by
  have hrep : Rep q (live ++ []) free [] := by
    rw [append_nil]; exact h.rep
  obtain ⟨q₁, free', hsame, -, hdelivered, hfull | hroom⟩ := hrep.put h.counts.chunk p
  · obtain ⟨htake, hrep', hpayload⟩ := hfull
    rw [append_nil] at hrep'
    rw [WombatQueue.enqueue, htake] at hstep
    cases hstep
    refine ⟨live, free', ⟨hrep', h.counts.of_same hsame⟩, fun _ horder => ?_⟩
    rwa [InOrder, hsame.enqueued, hdelivered, hpayload]
  obtain ⟨e, htake, hprev, -, hrep', hnew, hpayload⟩ := hroom
  rw [firstOf_nil] at hprev hrep'
  rw [WombatQueue.enqueue, htake] at hstep
  simp only [hprev, bind_eq_bind, bind_some, Option.some.injEq] at hstep
  subst hstep
  refine ⟨live ++ [e], free', ⟨hrep'.congr rfl rfl rfl rfl, ?_⟩, fun _ horder => ?_⟩
  · have hcounts := (h.counts.of_same hsame).post
    rw [length_append]
    exact ⟨hcounts.sem, hcounts.consumed, hcounts.flag, hcounts.chunk⟩
  rw [append_nil] at hnew
  have hsent : q₁.payload e = p := by rw [hpayload, Function.update_self]
  have hlive : live.map q₁.payload = live.map q.payload := by rw [hpayload, payload_map hnew]
  have henqueued : q₁.enqueued = q₁.delivered ++ live.map q₁.payload := by
    rwa [hsame.enqueued, hdelivered, hlive]
  show q₁.enqueued ++ [p] = q₁.delivered ++ (live ++ [e]).map q₁.payload
  rw [henqueued, map_append, map_singleton, hsent, append_assoc]

omit h in
theorem Inv.put (h : Inv q (xs ++ ys) free) (p : Payload) (l : Label) (hl : ¬ l.IsDelivery) :
    ∃ q₁, q₁.mIterator = q.mIterator ∧
      (takeFree q p = (none, q₁) ∧ Keeps q q₁ (xs ++ ys) l ∨
        ∃ e, takeFree q p = (some e, q₁) ∧ q₁.mPrev (firstOf ys .tail) = some (lastOf .head xs) ∧
          q₁.mNext (lastOf .head xs) = some (firstOf ys .tail) ∧
          Keeps q (post (linkBetween q₁ e (lastOf .head xs) (firstOf ys .tail))) (xs ++ ys) l) := by
  obtain ⟨q₁, free', hsame, hit, -, hfull | hroom⟩ := h.rep.put h.counts.chunk p
  · obtain ⟨htake, hrep', -⟩ := hfull
    exact ⟨q₁, hit, .inl ⟨htake, xs ++ ys, free', ⟨hrep', h.counts.of_same hsame⟩,
      fun hdelivery => absurd hdelivery hl⟩⟩
  obtain ⟨e, htake, hprev, hnext, hrep', -, -⟩ := hroom
  refine ⟨q₁, hit, .inr ⟨e, htake, hprev, hnext, xs ++ e :: ys, free',
    ⟨hrep'.congr rfl rfl rfl rfl, ?_⟩, fun hdelivery => absurd hdelivery hl⟩⟩
  have hcounts := (h.counts.of_same hsame).post
  have hlength : (xs ++ e :: ys).length = (xs ++ ys).length + 1 := by
    simp only [length_append, length_cons]; omega
  rw [hlength]
  exact ⟨hcounts.sem, hcounts.consumed, hcounts.flag, hcounts.chunk⟩

theorem Inv.iterate (it : Option Node) : Inv { q with mIterator := it } live free where
  rep := h.rep.congr rfl rfl rfl rfl
  counts := ⟨h.counts.sem, h.counts.consumed, h.counts.flag, h.counts.chunk⟩

variable {it : Node} {w : Waiters}

omit h in
theorem split_after (h : Rep q live free []) (hit : it ∈ Node.head :: (live ++ [.tail]))
    (htail : it ≠ .tail) : ∃ xs ys, live = xs ++ ys ∧ it = lastOf .head xs := by
  rcases List.mem_cons.1 hit with rfl | hit
  · exact ⟨[], live, rfl, rfl⟩
  · have hlive : it ∈ live := by simpa [htail] using hit
    obtain ⟨xs, ys, rfl⟩ := append_of_mem hlive
    exact ⟨xs ++ [it], ys, by simp, by simp⟩

omit h in
theorem split_before (hit : it ∈ Node.head :: (live ++ [.tail])) (hhead : it ≠ .head) :
    ∃ xs ys, live = xs ++ ys ∧ it = firstOf ys .tail := by
  have hmem : it ∈ live ∨ it = .tail := by simpa [hhead] using hit
  rcases hmem with hlive | rfl
  · obtain ⟨xs, ys, rfl⟩ := append_of_mem hlive
    exact ⟨xs, it :: ys, rfl, rfl⟩
  · exact ⟨live, [], by simp, rfl⟩

omit h in
theorem Rep.iterator_mem (h : Rep q live free []) (hit : IteratorLinked q) :
    ∃ it, q.mIterator = some it ∧ it ∈ Node.head :: (live ++ [.tail]) := by
  obtain ⟨it, live', heq, hlinks, htail, hmem⟩ := hit
  have hnot : Node.tail ∉ live := fun hlive => (h.live_item hlive).2 rfl
  have hsame := h.links.unique (fun _ _ => some.inj) hlinks hnot htail
  exact ⟨it, heq, hsame ▸ hmem⟩

theorem Inv.insertAfter (hmeets : IteratorLinked q)
    (hstep : insertAfter q p = some q') : Keeps q q' live (.insertAfter p) := by
  obtain ⟨it, hit, hmem⟩ := h.rep.iterator_mem hmeets
  -- At the tail, the iterator goes to the head.
  obtain ⟨it', hit', hne, hq⟩ : ∃ it', it' ∈ Node.head :: (live ++ [.tail]) ∧ it' ≠ .tail ∧
      (if q.mIterator = some .tail then { q with mIterator := some .head } else q) =
        { q with mIterator := some it' } := by
    by_cases htail : it = .tail
    · exact ⟨.head, mem_cons_self, by simp, by rw [hit, htail, if_pos rfl]⟩
    · refine ⟨it, hmem, htail, ?_⟩
      rw [hit, if_neg (by simpa using htail), ← hit]
  obtain ⟨xs, ys, rfl, rfl⟩ := split_after h.rep hit' hne
  obtain ⟨q₁, hiterator, hput⟩ :=
    (h.iterate (some (lastOf .head xs))).put p (.insertAfter p) (by simp [Label.IsDelivery])
  rw [WombatQueue.insertAfter, hq] at hstep
  rcases hput with ⟨htake, hkeeps⟩ | ⟨e, htake, -, hnext, hkeeps⟩
  · rw [htake] at hstep
    cases hstep
    exact hkeeps
  · rw [htake] at hstep
    simp only [hiterator, hnext, bind_eq_bind, bind_some, Option.some.injEq] at hstep
    exact hstep ▸ hkeeps

theorem Inv.insertBefore (hmeets : IteratorLinked q)
    (hstep : insertBefore q p = some q') : Keeps q q' live (.insertBefore p) := by
  obtain ⟨it, hit, hmem⟩ := h.rep.iterator_mem hmeets
  -- At the head, the iterator goes to the tail.
  obtain ⟨it', hit', hne, hq⟩ : ∃ it', it' ∈ Node.head :: (live ++ [.tail]) ∧ it' ≠ .head ∧
      (if q.mIterator = some .head then { q with mIterator := some .tail } else q) =
        { q with mIterator := some it' } := by
    by_cases hhead : it = .head
    · exact ⟨.tail, by simp, by simp, by rw [hit, hhead, if_pos rfl]⟩
    · refine ⟨it, hmem, hhead, ?_⟩
      rw [hit, if_neg (by simpa using hhead), ← hit]
  obtain ⟨xs, ys, rfl, rfl⟩ := split_before hit' hne
  obtain ⟨q₁, hiterator, hput⟩ :=
    (h.iterate (some (firstOf ys .tail))).put p (.insertBefore p) (by simp [Label.IsDelivery])
  rw [WombatQueue.insertBefore, hq] at hstep
  rcases hput with ⟨htake, hkeeps⟩ | ⟨e, htake, hprev, -, hkeeps⟩
  · rw [htake] at hstep
    cases hstep
    exact hkeeps
  · rw [htake] at hstep
    simp only [hiterator, hprev, bind_eq_bind, bind_some, Option.some.injEq] at hstep
    exact hstep ▸ hkeeps

omit h in
theorem Inv.consume (h : Inv q (e :: live) free) (htotal : q.waiters.total = w.total + 1)
    (hunblocked : q.waiters.unblocked = w.unblocked)
    (hstep : removeHead { q with waiters := w } = some q') :
    ∃ free', Inv q' live free' ∧ (InOrder q (e :: live) → InOrder q' live) := by
  have hrep : Rep { q with waiters := w } (e :: live) free [] := h.rep.congr rfl rfl rfl rfl
  have hcounts : Counts { q with waiters := w } live.length := by
    obtain ⟨hsem, hconsumed, hflag, hchunk⟩ := h.counts
    rw [length_cons] at hsem
    refine ⟨?_, ?_, ?_, hchunk⟩
    · show q.mSem + w.total + q.returns = live.length + q.unblocks; omega
    · exact hunblocked ▸ hconsumed
    · exact hunblocked ▸ hflag
  obtain ⟨q₁, hrun, hrep', hsame, -, hpayload, hdelivered⟩ := hrep.removeHead
  rw [hrun] at hstep
  cases hstep
  refine ⟨e :: free, ⟨hrep', hcounts.of_same hsame⟩, fun horder => ?_⟩
  rwa [InOrder, hsame.enqueued, hdelivered, hpayload, append_assoc]

theorem Inv.dequeue (hmeets : Meets q .dequeue)
    (hstep : step q .dequeue = some q') : Keeps q q' live .dequeue := by
  simp only [step] at hstep
  obtain ⟨hwaiting, hstep⟩ := ite_none_right_eq_some.1 hstep
  have htotal : q.waiters.total =
      { q.waiters with dequeue := q.waiters.dequeue - 1 : Waiters }.total + 1 := by
    simp only [Waiters.total]
    omega
  cases live with
  | nil =>
    have hempty : isEmpty q := h.rep.isEmpty_iff.2 rfl
    have hempty' : isEmpty { q with
        waiters := { q.waiters with dequeue := q.waiters.dequeue - 1 } } = true := hempty
    rw [if_pos hempty', Option.some.injEq] at hstep
    subst hstep
    -- An unblock is consumed: the token is not that of an item.
    obtain ⟨hsem, hconsumed, hflag, hchunk⟩ := h.counts
    have hlen : ([] : List Node).length = 0 := rfl
    have hunblocked : q.waiters.unblocked < q.waiters.total := by
      simp only [Waiters.total]; omega
    refine ⟨[], free, ⟨h.rep.congr rfl rfl rfl rfl, ⟨?_, ?_, ?_, hchunk⟩⟩, fun _ horder => horder⟩
    · show q.mSem + Waiters.total { q.waiters with dequeue := q.waiters.dequeue - 1 } +
        (q.returns + 1) = 0 + q.unblocks
      omega
    · show q.returns + 1 + q.waiters.unblocked ≤ q.unblocks; omega
    · intro hset hnone hpost
      show q.returns + 1 < q.unblocks
      have htwo := hmeets hempty hset hnone hpost
      omega
  | cons e live =>
    have hnot : ¬ isEmpty { q with
        waiters := { q.waiters with dequeue := q.waiters.dequeue - 1 } } = true := by
      intro hempty
      exact absurd (h.rep.isEmpty_iff.1 hempty) (by simp)
    rw [if_neg hnot] at hstep
    obtain ⟨free', hinv, horder⟩ := h.consume htotal rfl hstep
    exact ⟨live, free', hinv, fun _ => horder⟩

theorem Inv.removeFirst (hfirst : isEmpty q = false) (htotal : q.waiters.total = w.total + 1)
    (hunblocked : q.waiters.unblocked = w.unblocked)
    (hstep : removeHead { q with waiters := w } = some q') : Keeps q q' live l := by
  cases live with
  | nil => exact absurd (h.rep.isEmpty_iff.2 rfl) (by simp [hfirst])
  | cons e live =>
    obtain ⟨free', hinv, horder⟩ := h.consume htotal hunblocked hstep
    exact ⟨live, free', hinv, fun _ => horder⟩

theorem Inv.count (hnext : q'.mNext = q.mNext) (hprev : q'.mPrev = q.mPrev)
    (hfree : q'.firstFree = q.firstFree) (hallocated : q'.allocated = q.allocated)
    (hpayload : q'.payload = q.payload) (henqueued : q'.enqueued = q.enqueued)
    (hdelivered : q'.delivered = q.delivered) (hcounts : Counts q' live.length) :
    Keeps q q' live l := by
  refine ⟨live, free, ⟨h.rep.congr hnext hprev hfree hallocated, hcounts⟩, fun _ horder => ?_⟩
  rwa [InOrder, henqueued, hdelivered, hpayload]

theorem Inv.wait {consumer : Consumer}
    (hstep : step q (.wait consumer) = some q') : Keeps q q' live (.wait consumer) := by
  simp only [step] at hstep
  obtain ⟨hsem, hstep⟩ := ite_none_right_eq_some.1 hstep
  cases hstep
  refine h.count rfl rfl rfl rfl rfl rfl rfl ?_
  obtain ⟨htokens, hconsumed, hflag, hchunk⟩ := h.counts
  simp only [Waiters.total] at htokens
  cases consumer <;>
    exact ⟨by simp only [Waiters.total]; omega, hconsumed, hflag, hchunk⟩

theorem Inv.readFlag (hmeets : Meets q .readFlag)
    (hstep : step q .readFlag = some q') : Keeps q q' live .readFlag := by
  simp only [step] at hstep
  obtain ⟨hwaiting, hstep⟩ := ite_none_right_eq_some.1 hstep
  cases hstep
  refine h.count rfl rfl rfl rfl rfl rfl rfl ?_
  obtain ⟨hsem, hconsumed, hflag, hchunk⟩ := h.counts
  simp only [Waiters.total] at hsem
  by_cases hset : q.mUnblocking
  · obtain ⟨hnone, hpost⟩ := hmeets hset
    have hpending := hflag hset hnone hpost
    refine ⟨?_, ?_, ?_, hchunk⟩
    · simp only [hset, if_true, Waiters.total]; omega
    · simp only [hset, if_true]; omega
    · simp only [hset]; omega
  · have hclear : q.mUnblocking = false := by simpa using hset
    refine ⟨?_, ?_, ?_, hchunk⟩
    · simp only [hclear, Bool.false_eq_true, if_false, Waiters.total]; omega
    · simp only [hclear, Bool.false_eq_true, if_false]; omega
    · exact fun hset' => absurd hset' hset

theorem Inv.clearFlag (hstep : step q .clearFlag = some q') : Keeps q q' live .clearFlag := by
  simp only [step] at hstep
  obtain ⟨hwaiting, hstep⟩ := ite_none_right_eq_some.1 hstep
  cases hstep
  refine h.count rfl rfl rfl rfl rfl rfl rfl ?_
  obtain ⟨hsem, hconsumed, -, hchunk⟩ := h.counts
  simp only [Waiters.total] at hsem
  refine ⟨?_, ?_, by simp, hchunk⟩
  · simp only [Waiters.total]; omega
  · show q.returns + 1 + (q.waiters.unblocked - 1) ≤ q.unblocks; omega

theorem Inv.postUnblock (hstep : step q .postUnblock = some q') : Keeps q q' live .postUnblock := by
  simp only [step] at hstep
  obtain ⟨hposting, hstep⟩ := ite_none_right_eq_some.1 hstep
  cases hstep
  refine h.count rfl rfl rfl rfl rfl rfl rfl ?_
  obtain ⟨hsem, hconsumed, -, hchunk⟩ := h.counts
  refine ⟨?_, ?_, fun _ _ _ => ?_, hchunk⟩
  · show q.mSem + 1 + q.waiters.total + q.returns = live.length + (q.unblocks + 1); omega
  · show q.returns + q.waiters.unblocked ≤ q.unblocks + 1; omega
  · show q.returns < q.unblocks + 1; omega

theorem Inv.through {it : Option Node} {payload : Node → Payload}
    (hl : ¬ l.IsDelivery) : Keeps q { q with mIterator := it, payload := payload } live l :=
  ⟨live, free, ⟨h.rep.congr rfl rfl rfl rfl,
    ⟨h.counts.sem, h.counts.consumed, h.counts.flag, h.counts.chunk⟩⟩,
    fun hdelivery => absurd hdelivery hl⟩

theorem Inv.step (hmeets : Meets q l) (hstep : step q l = some q') : Keeps q q' live l := by
  cases l with
  | enqueue p => exact h.enqueue hstep
  | wait consumer => exact h.wait hstep
  | readFlag => exact h.readFlag hmeets hstep
  | clearFlag => exact h.clearFlag hstep
  | dequeue => exact h.dequeue hmeets hstep
  | poll =>
    simp only [WombatQueue.step] at hstep
    obtain ⟨hwaiting, hstep⟩ := ite_none_right_eq_some.1 hstep
    refine h.removeFirst (w := { q.waiters with poll := q.waiters.poll - 1 }) hmeets ?_ rfl hstep
    simp only [Waiters.total]
    omega
  | flush =>
    simp only [WombatQueue.step] at hstep
    obtain ⟨hwaiting, hstep⟩ := ite_none_right_eq_some.1 hstep
    refine h.removeFirst (w := { q.waiters with flush := q.waiters.flush - 1 }) hmeets ?_ rfl hstep
    simp only [Waiters.total]
    omega
  | setFlag =>
    cases hstep
    refine h.count rfl rfl rfl rfl rfl rfl rfl ?_
    exact ⟨h.counts.sem, h.counts.consumed, fun _ _ hpost => absurd hpost (Nat.succ_ne_zero _),
      h.counts.chunk⟩
  | postUnblock => exact h.postUnblock hstep
  | insertAfter p => exact h.insertAfter hmeets hstep
  | insertBefore p => exact h.insertBefore hmeets hstep
  | remove =>
    have hdummy : (q.mIterator = some .head || q.mIterator = some .tail) = true := by
      simpa [Meets] using hmeets
    rw [WombatQueue.step, remove, if_pos hdummy] at hstep
    cases hstep
    exact ⟨live, free, h, fun _ => id⟩
  | replace mData mClosure =>
    simp only [WombatQueue.step, replace] at hstep
    split at hstep
    · cases hstep; exact ⟨live, free, h, fun _ => id⟩
    cases hit : q.mIterator with
    | none => rw [hit] at hstep; cases hstep
    | some it =>
      rw [hit] at hstep
      simp only [bind_eq_bind, bind_some, Option.some.injEq] at hstep
      subst hstep
      exact h.through id
  | next | prev =>
    simp only [WombatQueue.step, next, prev] at hstep
    cases hit : q.mIterator with
    | none => rw [hit] at hstep; cases hstep
    | some it =>
      rw [hit] at hstep
      simp only [bind_eq_bind, bind_some, Option.some.injEq] at hstep
      subst hstep
      exact h.through id
  | toBegin | toEnd => cases hstep; exact h.through id

/-! ## Whole runs -/

theorem Inv.balanced : Balanced q := by
  obtain ⟨hsem, hconsumed, -, -⟩ := h.counts
  have htail : Node.tail ∉ free := by
    intro hmem
    refine (h.rep.is_item (e := .tail) ?_).2 rfl
    exact mem_append_left _ (mem_append_right _ hmem)
  refine ⟨live, free, h.rep, htail, by omega, by omega, fun hidle hnone => ?_⟩
  unfold getSize
  omega

theorem Inv.delivers (horder : InOrder q live) : Delivers q := by
  obtain ⟨hsem, hconsumed, -, -⟩ := h.counts
  have htail : Node.tail ∉ live := fun hmem => (h.rep.live_item hmem).2 rfl
  refine ⟨live, h.rep.links, htail, horder, by omega, fun hidle hzero => ?_⟩
  refine eq_nil_of_length_eq_zero ?_
  omega

end

/-- The queue is balanced in every run whose steps meet the condition. -/
theorem balanced_of_runs (maxSize initialSize growBySize : Nat) (q : Queue)
    (hq : Runs step Meets (create maxSize initialSize growBySize) q) : Balanced q := by
  obtain ⟨free₀, hinit, -⟩ := inv_create maxSize initialSize growBySize
  obtain ⟨live, free, h⟩ := hq.invariant (P := fun q => ∃ live free, Inv q live free)
    ⟨[], free₀, hinit⟩ fun q l q' ⟨live, free, h⟩ hmeets hstep => by
      obtain ⟨live', free', h', -⟩ := h.step hmeets hstep
      exact ⟨live', free', h'⟩
  exact h.balanced

/-- An item that is enqueued and polled. -/
theorem balanced_of_runs_polled : ∃ q, [.enqueue ⟨1, 2, 3⟩, .wait .poll, .poll].foldlM step
    (create 0 0 0) = some q ∧ q.delivered = [⟨1, 2, 3⟩] ∧ Balanced q := by
  refine ⟨_, rfl, rfl, balanced_of_runs 0 0 0 _ ?_⟩
  have hinit : Runs step Meets (create 0 0 0) (create 0 0 0) := Runs.init
  have henqueue := Runs.step (l := Label.enqueue ⟨1, 2, 3⟩) hinit trivial rfl
  have hwait := Runs.step (l := Label.wait .poll) henqueue trivial rfl
  exact Runs.step (l := Label.poll) hwait rfl rfl

/-- A removed item leaves its count behind, and the next `poll` unlinks the tail. -/
theorem not_balanced : ¬ ∀ q, Reachable step (create 0 0 0) q → Balanced q := by
  intro h
  obtain ⟨q, hrun, hfree⟩ : ∃ q, [.enqueue ⟨1, 2, 3⟩, .next, .remove, .wait .poll, .poll].foldlM
      step (create 0 0 0) = some q ∧ q.firstFree = some .tail := ⟨_, rfl, rfl⟩
  obtain ⟨live, free, hrep, htail, -⟩ := h q (Runs.init.steps (fun _ _ _ => trivial) hrun)
  have hchain := hrep.chain
  rw [hfree] at hchain
  cases free with
  | nil => cases hchain
  | cons a free =>
    obtain ⟨ha, -⟩ := path_cons.1 hchain
    cases ha
    exact htail mem_cons_self

/-- Producers and consumers alone: every item is delivered once and in order. -/
theorem delivers_of_runs (maxSize initialSize growBySize : Nat) (q : Queue)
    (hq : Runs step (fun q l => l.IsDelivery ∧ Meets q l)
      (create maxSize initialSize growBySize) q) : Delivers q := by
  obtain ⟨free₀, hinit, horder₀⟩ := inv_create maxSize initialSize growBySize
  obtain ⟨live, free, h, horder⟩ := hq.invariant
    (P := fun q => ∃ live free, Inv q live free ∧ InOrder q live)
    ⟨[], free₀, hinit, horder₀⟩ fun q l q' ⟨live, free, h, horder⟩ ⟨hdelivery, hmeets⟩ hstep => by
      obtain ⟨live', free', h', horder'⟩ := h.step hmeets hstep
      exact ⟨live', free', h', horder' hdelivery horder⟩
  exact h.delivers horder

/-- An unblock that a dispatch returns for, and an item that the next one takes. -/
theorem delivers_of_runs_dispatched : ∃ q,
    [.setFlag, .postUnblock, .wait .dispatch, .readFlag, .clearFlag, .enqueue ⟨1, 2, 3⟩,
      .wait .dispatch, .readFlag, .dequeue].foldlM step (create 0 0 0) = some q ∧
    q.delivered = [⟨1, 2, 3⟩] ∧ q.returns = 1 ∧ Delivers q := by
  refine ⟨_, rfl, rfl, rfl, delivers_of_runs 0 0 0 _ ?_⟩
  have h₀ : Runs step (fun q l => l.IsDelivery ∧ Meets q l) (create 0 0 0) (create 0 0 0) :=
    Runs.init
  have h₁ := h₀.step (l := Label.setFlag) ⟨trivial, trivial⟩ rfl
  have h₂ := h₁.step (l := Label.postUnblock) ⟨trivial, trivial⟩ rfl
  have h₃ := h₂.step (l := Label.wait .dispatch) ⟨by simp [Label.IsDelivery], trivial⟩ rfl
  have h₄ := h₃.step (l := Label.readFlag) ⟨trivial, fun _ => ⟨rfl, rfl⟩⟩ rfl
  have h₅ := h₄.step (l := Label.clearFlag) ⟨trivial, trivial⟩ rfl
  have h₆ := h₅.step (l := Label.enqueue ⟨1, 2, 3⟩) ⟨trivial, trivial⟩ rfl
  have h₇ := h₆.step (l := Label.wait .dispatch) ⟨by simp [Label.IsDelivery], trivial⟩ rfl
  have h₈ := h₇.step (l := Label.readFlag) ⟨trivial, nofun⟩ rfl
  exact h₈.step (l := Label.dequeue) ⟨trivial, nofun⟩ rfl

/-- A timed dispatch consumes an unblock and leaves its flag, for which a dispatch returns
with the token of an item. -/
theorem not_delivers :
    ¬ ∀ q, Runs step (fun _ l => l.IsDelivery) (create 0 0 0) q → Delivers q := by
  intro h
  obtain ⟨q, hrun, hreturns, hunblocks⟩ : ∃ q,
      [.setFlag, .postUnblock, .wait .timedDispatch, .dequeue, .enqueue ⟨1, 2, 3⟩, .wait .dispatch,
        .readFlag, .clearFlag].foldlM step (create 0 0 0) = some q ∧
      q.returns = 2 ∧ q.unblocks = 1 := ⟨_, rfl, rfl, rfl⟩
  have hdelivery : ∀ (q : Queue) l,
      l ∈ [Label.setFlag, .postUnblock, .wait .timedDispatch, .dequeue,
      .enqueue ⟨1, 2, 3⟩, .wait .dispatch, .readFlag, .clearFlag] → l.IsDelivery := by
    intro _ l hl
    simp only [mem_cons, not_mem_nil, or_false] at hl
    rcases hl with rfl | rfl | rfl | rfl | rfl | rfl | rfl | rfl <;> simp [Label.IsDelivery]
  obtain ⟨live, -, -, -, hle, -⟩ := h q (Runs.init.steps hdelivery hrun)
  omega

end Common.WombatQueue

import OpenMama.Common.Queue
import OpenMama.Lib.Chain
import OpenMama.Lib.DoublyLinked

/-!
# The items of the queue

`Rep` says which items are linked between the dummies, which are free and which an operation
has in hand.  Each operation on the links is described by what it does to these lists.
-/

namespace Common.WombatQueue

open Lib List Function

/-- Every allocated item is linked, free or in hand, and only one of these. -/
structure Rep (q : Queue) (live free hand : List Node) : Prop where
  links : Listed q.mNext q.mPrev some .head .tail live
  chain : Path q.mNext q.firstFree free
  nodup : (live ++ free ++ hand).Nodup
  items : ∀ a, a ∈ live ++ free ++ hand ↔ ∃ n, n < q.allocated ∧ a = .item n

variable {q q' : Queue} {live free hand xs ys : List Node} {e : Node}

section

variable (h : Rep q live free hand)

include h

theorem Rep.is_item (he : e ∈ live ++ free ++ hand) : e ≠ .head ∧ e ≠ .tail := by
  obtain ⟨n, -, rfl⟩ := (h.items e).1 he
  exact ⟨by simp, by simp⟩

theorem Rep.live_item (he : e ∈ live) : e ≠ .head ∧ e ≠ .tail :=
  h.is_item (mem_append_left _ (mem_append_left _ he))

theorem Rep.path_nodup : (Node.head :: (live ++ [.tail])).Nodup := by
  have hlive : live.Nodup := h.nodup.of_append_left.of_append_left
  have hhead : Node.head ∉ live ++ [.tail] := by
    rw [mem_append, not_or]; exact ⟨fun hmem => (h.live_item hmem).1 rfl, by simp⟩
  have htail : Node.tail ∉ live := fun hmem => (h.live_item hmem).2 rfl
  refine nodup_cons.2 ⟨hhead, nodup_append.2 ⟨hlive, nodup_singleton _, ?_⟩⟩
  rintro a ha b hb rfl
  rw [mem_singleton] at hb
  exact htail (hb ▸ ha)

theorem Rep.off_path (he : e ∈ free ++ hand) : e ∉ Node.head :: (live ++ [.tail]) := by
  have hitem : e ≠ .head ∧ e ≠ .tail := by
    refine h.is_item ?_
    rw [append_assoc]
    exact mem_append_right _ he
  have hdisj : List.Disjoint live (free ++ hand) := by
    have hnodup := h.nodup
    rw [append_assoc] at hnodup
    exact disjoint_of_nodup_append hnodup
  rw [mem_cons, mem_append, mem_singleton, not_or, not_or]
  exact ⟨hitem.1, fun hmem => hdisj hmem he, hitem.2⟩

theorem Rep.of_links {live' free' hand' : List Node}
    (hlinks : Listed q'.mNext q'.mPrev some .head .tail live')
    (hchain : Path q'.mNext q'.firstFree free') (hallocated : q'.allocated = q.allocated)
    (hperm : (live' ++ free' ++ hand').Perm (live ++ free ++ hand)) : Rep q' live' free' hand' where
  links := hlinks
  chain := hchain
  nodup := hperm.nodup_iff.2 h.nodup
  items a := by rw [hperm.mem_iff, h.items, hallocated]

/-! ## Allocation -/

def chunk (base items : Nat) : List Node := (List.range' base items).map Node.item

omit h in
theorem mem_chunk {base items : Nat} {a : Node} :
    a ∈ chunk base items ↔ ∃ n, base ≤ n ∧ n < base + items ∧ a = .item n := by
  simp only [chunk, mem_map, mem_range'_1]
  constructor
  · rintro ⟨n, ⟨hle, hlt⟩, rfl⟩; exact ⟨n, hle, hlt, rfl⟩
  · rintro ⟨n, hle, hlt, rfl⟩; exact ⟨n, ⟨hle, hlt⟩, rfl⟩

omit h in
theorem chunk_nodup (base items : Nat) : (chunk base items).Nodup :=
  List.Nodup.map (fun _ _ h => Node.item.inj h) nodup_range'

theorem Rep.length_eq : live.length + free.length + hand.length = q.allocated := by
  have hperm : (live ++ free ++ hand).Perm (chunk 0 q.allocated) := by
    rw [perm_ext_iff_of_nodup h.nodup (chunk_nodup 0 q.allocated)]
    intro a
    rw [h.items, mem_chunk, Nat.zero_add]
    simp
  have hlength := hperm.length_eq
  rw [length_append] at hlength
  simpa [chunk] using hlength

end

theorem path_chunk {next : Node → Option Node} {base items : Nat}
    (hnext : ∀ n, base ≤ n → n < base + items → next (.item n) = some (.item (n + 1)))
    (hlast : next (.item (base + items)) = none) :
    Path next (some (.item base)) (chunk base (items + 1)) := by
  induction items generalizing base with
  | zero => exact path_cons.2 ⟨rfl, hlast⟩
  | succ items ih =>
    have hrest : Path next (some (.item (base + 1))) (chunk (base + 1) (items + 1)) := by
      refine ih (fun n hle hlt => hnext n (by omega) (by omega)) ?_
      rw [← hlast]
      congr 2
      omega
    refine path_cons.2 ⟨rfl, ?_⟩
    rwa [hnext base (Nat.le_refl _) (by omega)]

theorem Rep.allocChunk (h : Rep q live [] hand) {items : Nat} (hitems : 0 < items) :
    allocChunk q items = q ∨ Rep (allocChunk q items) live (chunk q.allocated items) hand := by
  unfold WombatQueue.allocChunk
  split
  · exact .inl rfl
  right
  obtain ⟨items, rfl⟩ := Nat.exists_eq_add_of_lt hitems
  rw [Nat.zero_add]
  have hold : ∀ a ∈ Node.head :: (live ++ [.tail]), ∀ n, a = .item n → n < q.allocated := by
    rintro a ha n rfl
    have hlive : Node.item n ∈ live := by simpa using ha
    obtain ⟨m, hm, heq⟩ := (h.items (.item n)).1
      (mem_append_left _ (mem_append_left _ hlive))
    exact Node.item.inj heq ▸ hm
  refine ⟨Linked.congr h.links (fun a ha => ?_) (fun a ha => ?_), ?_, ?_, fun a => ?_⟩
  · cases a with
    | item n =>
      have hlt := hold _ (mem_of_mem_dropLast ha) n rfl
      have hfirst : ¬ q.allocated ≤ n := Nat.not_le.2 hlt
      have hlast : n ≠ q.allocated + items := by omega
      simp [hfirst, hlast]
    | head | tail => rfl
  · cases a with
    | item n =>
      have hlt := hold _ (mem_of_mem_tail ha) n rfl
      have hfirst : ¬ q.allocated < n := Nat.not_lt.2 (Nat.le_of_lt hlt)
      simp [hfirst, Nat.ne_of_lt hlt]
    | head | tail => rfl
  · refine path_chunk (fun n hle hlt => ?_) ?_
    · simp [hle, hlt]
    · simp
  · have hnodup := h.nodup
    rw [append_nil] at hnodup
    have hperm : (live ++ chunk q.allocated (items + 1) ++ hand).Perm
        (chunk q.allocated (items + 1) ++ (live ++ hand)) := by
      rw [append_assoc]
      exact perm_append_comm_assoc ..
    rw [hperm.nodup_iff, nodup_append]
    refine ⟨chunk_nodup .., hnodup, ?_⟩
    rintro a ha _ hb rfl
    obtain ⟨n, hle, -, rfl⟩ := mem_chunk.1 ha
    obtain ⟨m, hm, heq⟩ := (h.items (.item n)).1 (by rwa [append_nil])
    have hmn := Node.item.inj heq
    omega
  have hmem := h.items a
  rw [append_nil, mem_append] at hmem
  rw [mem_append, mem_append, mem_chunk]
  constructor
  · rintro ((ha | ⟨n, -, hlt, rfl⟩) | ha)
    · obtain ⟨n, hn, rfl⟩ := hmem.1 (.inl ha)
      exact ⟨n, by dsimp only; omega, rfl⟩
    · exact ⟨n, hlt, rfl⟩
    · obtain ⟨n, hn, rfl⟩ := hmem.1 (.inr ha)
      exact ⟨n, by dsimp only; omega, rfl⟩
  · rintro ⟨n, hn, rfl⟩
    by_cases hlt : n < q.allocated
    · exact (hmem.2 ⟨n, hlt, rfl⟩).imp_left .inl
    · exact .inl (.inr ⟨n, Nat.not_lt.1 hlt, hn, rfl⟩)

structure SameCounts (q q' : Queue) : Prop where
  mSem : q'.mSem = q.mSem
  mUnblocking : q'.mUnblocking = q.mUnblocking
  mChunkSize : q'.mChunkSize = q.mChunkSize
  waiters : q'.waiters = q.waiters
  unblocking : q'.unblocking = q.unblocking
  unblocks : q'.unblocks = q.unblocks
  returns : q'.returns = q.returns
  enqueued : q'.enqueued = q.enqueued

theorem SameCounts.refl (q : Queue) : SameCounts q q := ⟨rfl, rfl, rfl, rfl, rfl, rfl, rfl, rfl⟩

theorem allocChunk_same (q : Queue) (items : Nat) : SameCounts q (allocChunk q items) ∧
    (allocChunk q items).mIterator = q.mIterator ∧ (allocChunk q items).payload = q.payload ∧
    (allocChunk q items).delivered = q.delivered := by
  unfold allocChunk
  split <;> exact ⟨⟨rfl, rfl, rfl, rfl, rfl, rfl, rfl, rfl⟩, rfl, rfl, rfl⟩

theorem refill_same (q : Queue) : SameCounts q (refill q) ∧ (refill q).mIterator = q.mIterator ∧
    (refill q).payload = q.payload ∧ (refill q).delivered = q.delivered := by
  unfold refill
  split
  · exact allocChunk_same q q.mChunkSize
  · exact ⟨SameCounts.refl q, rfl, rfl, rfl⟩

theorem Rep.refill (h : Rep q live free []) (hchunk : 0 < q.mChunkSize) :
    ∃ free', Rep (refill q) live free' [] := by
  unfold WombatQueue.refill
  split
  · rename_i hnone
    have hfree : free = [] := by
      cases free with
      | nil => rfl
      | cons a free => rw [(path_cons.1 h.chain).1] at hnone; cases hnone
    subst hfree
    rcases h.allocChunk hchunk with heq | hrep
    · rw [heq]; exact ⟨[], h⟩
    · exact ⟨_, hrep⟩
  · exact ⟨free, h⟩

theorem Rep.takeFree (h : Rep q live free []) (hchunk : 0 < q.mChunkSize) (p : Payload) :
    ∃ q' free', SameCounts q q' ∧ q'.mIterator = q.mIterator ∧ q'.delivered = q.delivered ∧
      (takeFree q p = (none, q') ∧ Rep q' live free' [] ∧ q'.payload = q.payload ∨
        ∃ e, takeFree q p = (some e, q') ∧ Rep q' live free' [e] ∧
          q'.payload = Function.update q.payload e p) := by
  obtain ⟨free', hrep⟩ := h.refill hchunk
  obtain ⟨hcounts, hit, hpayload, hdelivered⟩ := refill_same q
  unfold WombatQueue.takeFree
  cases hfirst : (WombatQueue.refill q).firstFree with
  | none =>
    refine ⟨WombatQueue.refill q, free', hcounts, hit, hdelivered, .inl ⟨?_, hrep, hpayload⟩⟩
    simp [hfirst]
  | some e =>
    have hchain := hrep.chain
    rw [hfirst] at hchain
    cases free' with
    | nil => cases hchain
    | cons a rest =>
      obtain ⟨hea, hrest⟩ := path_cons.1 hchain
      cases hea
      refine ⟨_, rest, ?_, ?_, ?_, .inr ⟨e, by simp only [hfirst]; rfl, ?_, ?_⟩⟩
      · exact ⟨hcounts.mSem, hcounts.mUnblocking, hcounts.mChunkSize, hcounts.waiters,
          hcounts.unblocking, hcounts.unblocks, hcounts.returns, hcounts.enqueued⟩
      · exact hit
      · exact hdelivered
      · refine hrep.of_links hrep.links hrest rfl ?_
        rw [append_assoc, append_nil]
        exact perm_append_comm.append_left live
      · rw [← hpayload]

/-! ## Links -/

theorem Rep.linkBetween (h : Rep q (xs ++ ys) free [e]) :
    Rep (linkBetween q e (lastOf .head xs) (firstOf ys .tail)) (xs ++ e :: ys) free [] := by
  have hoff : e ∉ Node.head :: (xs ++ ys ++ [.tail]) := h.off_path (by simp)
  refine h.of_links (h.links.insert h.path_nodup hoff) ?_ rfl ?_
  · refine h.chain.congr fun a ha => ?_
    have hae : a ≠ e := by
      rintro rfl; exact disjoint_of_nodup_append h.nodup (mem_append_right _ ha) (by simp)
    have hlast : a ≠ lastOf .head xs := by
      rintro rfl
      refine h.off_path (mem_append_left _ ha) ?_
      rw [append_assoc]
      exact mem_append_left _ (lastOf_mem .head xs)
    exact (update_of_ne hlast _ _).trans (update_of_ne hae _ _)
  · rw [append_nil, append_assoc xs, append_assoc xs, append_assoc xs]
    refine List.Perm.append_left xs ?_
    exact (perm_append_singleton e (ys ++ free)).symm

theorem Rep.unlink (h : Rep q (xs ++ e :: ys) free []) :
    ∃ q', unlink q e = some q' ∧ Rep q' (xs ++ ys) (e :: free) [] ∧ SameCounts q q' ∧
      q'.mIterator = q.mIterator ∧ q'.payload = q.payload ∧ q'.delivered = q.delivered := by
  have hnext := h.links.next_eq
  have hprev := h.links.prev_eq
  have hnodup := h.path_nodup
  have hpath : (Node.head :: (xs ++ e :: ys ++ [.tail])).Perm
      (e :: .head :: (xs ++ ys ++ [.tail])) := by
    rw [append_assoc, append_assoc]
    exact (perm_middle.cons _).trans (List.Perm.swap ..)
  obtain ⟨hoff, hnodup'⟩ := nodup_cons.1 (hpath.nodup_iff.1 hnodup)
  have hlast : e ≠ lastOf .head xs := by
    intro heq
    refine hoff ?_
    rw [append_assoc, ← cons_append]
    exact mem_append_left _ (heq ▸ lastOf_mem .head xs)
  have hlinks := (h.links.unlink hnodup').write_off (u := q.firstFree)
    (v := Function.update q.mPrev (firstOf ys .tail) (some (lastOf .head xs)) e) hoff
  rw [update_eq_self] at hlinks
  have hfree : ∀ a ∈ free, a ≠ e ∧ a ≠ lastOf .head xs := by
    intro a ha
    have hpath := h.off_path (mem_append_left _ ha)
    rw [append_assoc, ← cons_append] at hpath
    constructor
    · rintro rfl; exact hpath (mem_append_right _ (by simp))
    · rintro rfl; exact hpath (mem_append_left _ (lastOf_mem .head xs))
  refine ⟨{ q with
      mNext := Function.update (Function.update q.mNext (lastOf .head xs) (some (firstOf ys .tail)))
        e q.firstFree
      mPrev := Function.update q.mPrev (firstOf ys .tail) (some (lastOf .head xs))
      firstFree := some e }, ?_, ?_, ⟨rfl, rfl, rfl, rfl, rfl, rfl, rfl, rfl⟩, rfl, rfl, rfl⟩
  · simp [WombatQueue.unlink, hprev, setNext, setPrev, hnext, update_of_ne hlast]
  refine h.of_links hlinks (path_cons.2 ⟨rfl, ?_⟩) rfl ?_
  · dsimp only
    rw [update_self]
    refine h.chain.congr fun a ha => ?_
    rw [update_of_ne (hfree a ha).1, update_of_ne (hfree a ha).2]
  · rw [append_nil, append_nil, append_assoc, append_assoc]
    refine List.Perm.append_left xs ?_
    exact perm_middle

/-! ## Operations -/

theorem Rep.removeHead (h : Rep q (e :: live) free []) : ∃ q', removeHead q = some q' ∧
    Rep q' live (e :: free) [] ∧ SameCounts q q' ∧ q'.mIterator = q.mIterator ∧
    q'.payload = q.payload ∧ q'.delivered = q.delivered ++ [q.payload e] := by
  have hnext : q.mNext .head = some e := (isChain_cons_cons.1 h.links).1.1
  have h' : Rep q ([] ++ e :: live) free [] := h
  obtain ⟨q', hrun, hrep, hcounts, hit, hpayload, hdelivered⟩ := h'.unlink
  refine ⟨{ q' with delivered := q'.delivered ++ [q'.payload e] }, ?_,
    ⟨hrep.links, hrep.chain, hrep.nodup, hrep.items⟩, ?_, hit, hpayload, ?_⟩
  · simp [WombatQueue.removeHead, hnext, hrun]
  · exact ⟨hcounts.mSem, hcounts.mUnblocking, hcounts.mChunkSize, hcounts.waiters,
      hcounts.unblocking, hcounts.unblocks, hcounts.returns, hcounts.enqueued⟩
  · rw [hdelivered, hpayload]

theorem Rep.isEmpty_iff (h : Rep q live free []) : isEmpty q ↔ live = [] := by
  unfold isEmpty
  cases live with
  | nil =>
    have hnext : q.mNext .head = some .tail := (isChain_cons_cons.1 h.links).1.1
    simp [hnext]
  | cons a live =>
    have hnext : q.mNext .head = some a := (isChain_cons_cons.1 h.links).1.1
    have hne := (h.live_item (mem_cons_self (a := a) (l := live))).2
    simp [hnext, hne]

theorem Rep.put (h : Rep q (xs ++ ys) free []) (hchunk : 0 < q.mChunkSize) (p : Payload) :
    ∃ q' free', SameCounts q q' ∧ q'.mIterator = q.mIterator ∧ q'.delivered = q.delivered ∧
      (WombatQueue.takeFree q p = (none, q') ∧ Rep q' (xs ++ ys) free' [] ∧ q'.payload = q.payload ∨
        ∃ e, WombatQueue.takeFree q p = (some e, q') ∧
          q'.mPrev (firstOf ys .tail) = some (lastOf .head xs) ∧
          q'.mNext (lastOf .head xs) = some (firstOf ys .tail) ∧
          Rep (WombatQueue.linkBetween q' e (lastOf .head xs) (firstOf ys .tail)) (xs ++ e :: ys)
            free' [] ∧
          e ∉ xs ++ ys ∧ q'.payload = Function.update q.payload e p) := by
  obtain ⟨q', free', hcounts, hit, hdelivered, htake⟩ := h.takeFree hchunk p
  refine ⟨q', free', hcounts, hit, hdelivered, htake.imp_right ?_⟩
  rintro ⟨e, hrun, hrep, hpayload⟩
  have hoff : e ∉ Node.head :: (xs ++ ys ++ [.tail]) := hrep.off_path (by simp)
  rw [mem_cons, mem_append, not_or, not_or] at hoff
  exact ⟨e, hrun, hrep.links.prev_first, hrep.links.next_last, hrep.linkBetween, hoff.2.1, hpayload⟩

end Common.WombatQueue

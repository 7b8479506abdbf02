import OpenMama.Mamda.DepthFilter

/-!
# One delta in the depth filter

A delta changes one half of the truncated book and forwards some deltas.
`HalfStep` lists what it can do to the half and what it then forwards, and
`DepthFilter.process_spec` says that `processBidDelta` and `processAskDelta` do
just that: they differ only in when the handlers are called.
-/

namespace Mamda

open Mama Lib SortedMap List

/-! ## Ranks of prices -/

def Better (s : BookSide) (p q : Price) : Prop :=
  match s with
  | .bid => q < p
  | .ask => p < q

variable {p : Price} {b : FullBook}

theorem worse_iff {s : BookSide} {q : Price} : worse s p q ↔ Better s q p := by
  cases s <;> simp [worse, Better]

instance (s : BookSide) : IsStrictTotalOrder Price (Better s) := by
  cases s with
  | bid => exact inferInstanceAs (IsStrictTotalOrder Price (· > ·))
  | ask => exact inferInstanceAs (IsStrictTotalOrder Price (· < ·))

theorem ranks_bestFirst (s : BookSide) (m : PtrMap) : Ranks (Better s) m (bestFirst s m) := by
  cases s with
  | bid => exact ranks_gt m
  | ask => exact ranks_lt m

theorem mem_bestFirst {s : BookSide} {m : PtrMap} {r : Ref} :
    (p, r) ∈ bestFirst s m ↔ m.find? p = some r := (ranks_bestFirst s m).mem

theorem length_bestFirst (s : BookSide) (m : PtrMap) :
    (bestFirst s m).length = m.toList.length := (ranks_bestFirst s m).perm.length_eq

theorem FullBook.visible_eq {s : BookSide} {m : PtrMap}
    (h : ∀ p r, m.find? p = some r → (b.object r).size ≠ 0) : b.visible s m = bestFirst s m := by
  refine List.filter_eq_self.mpr ?_
  rintro ⟨p, r⟩ hmem
  simpa using h p r (mem_bestFirst.mp hmem)

/-! ## The deltas that were forwarded -/

namespace DepthFilter

/-- All deltas so far: those handed out and those that wait. -/
def sent (x : DepthFilter) : List BasicDelta := x.handed.flatten ++ x.waiting

abbrev Collects (x : DepthFilter) : Prop := x.deltas.Collects

theorem Collects.addDelta {x : DepthFilter} (h : Collects x) (d : BasicDelta) :
    Collects (x.addDelta d) ∧ (x.addDelta d).waiting = x.waiting ++ [d] :=
  Publisher.Collects.addDelta h d

theorem Collects.invoke {x : DepthFilter} (h : Collects x) : Collects x.invokeDeltaHandlers ∧
    x.invokeDeltaHandlers.waiting = [] ∧ x.invokeDeltaHandlers.sent = x.sent := by
  obtain ⟨-, hclearKeeps, hclearPlain⟩ := DeltaList.toList_clear h.plain
  unfold invokeDeltaHandlers
  split
  · next hn =>
    have hnone : x.waiting = [] := by rw [waiting, Publisher.waiting, hn]
    exact ⟨h, hnone, rfl⟩
  have hnone : (⟨x.maxDepth, x.halves, x.processesEntries, x.deltas.clear,
      x.handed ++ [x.waiting]⟩ : DepthFilter).waiting = [] := rfl
  refine ⟨⟨hclearKeeps.trans h.keeps, hclearPlain, fun hn => ?_⟩, hnone, ?_⟩
  · cases hn
  · unfold sent
    rw [hnone]
    simp

/-- A delta as `addDelta` passes it on: without its entry where entries are not processed. -/
def kept (processesEntries : Bool) (d : BasicDelta) : BasicDelta :=
  if processesEntries then d else { d with entry := none, entryAction := .unknown }

def dropped (b : FullBook) (s : BookSide) (a : Price × Ref) : BasicDelta :=
  ⟨none, b.level s a, (b.level s a).size, .delete, .unknown⟩

/-- A step that changes one half and forwards deltas; the rest of the filter stays. -/
structure Moves (x : DepthFilter) (s : BookSide) (h : HalfView) (out : List BasicDelta)
    (y : DepthFilter) : Prop where
  maxDepth : y.maxDepth = x.maxDepth
  processesEntries : y.processesEntries = x.processesEntries
  half : y.halves.get s = h
  other : ∀ t, t ≠ s → y.halves.get t = x.halves.get t
  collects : Collects y
  sent : y.sent = x.sent ++ out

theorem Moves.refl {x : DepthFilter} (hx : Collects x) (s : BookSide) :
    Moves x s (x.halves.get s) [] x :=
  ⟨rfl, rfl, rfl, fun _ _ => rfl, hx, (append_nil _).symm⟩

section Moves

variable {x y : DepthFilter} {s : BookSide} {h : HalfView} {out : List BasicDelta}

section

variable (m : Moves x s h out y)

include m

theorem Moves.setHalf (h' : HalfView) : Moves x s h' out (y.setHalf s h') where
  maxDepth := m.maxDepth
  processesEntries := m.processesEntries
  half := by simp [DepthFilter.setHalf]
  other t ht := by
    rw [← m.other t ht]; simp [DepthFilter.setHalf, ht]
  collects := ⟨m.collects.keeps, m.collects.plain, m.collects.simple⟩
  sent := m.sent

theorem Moves.addDelta (d : BasicDelta) : Moves x s h (out ++ [d]) (y.addDelta d) where
  maxDepth := m.maxDepth
  processesEntries := m.processesEntries
  half := m.half
  other := m.other
  collects := (m.collects.addDelta d).1
  sent := by
    have hwaiting := (m.collects.addDelta d).2
    show y.handed.flatten ++ (y.addDelta d).waiting = _
    rw [hwaiting, ← append_assoc, ← append_assoc, ← m.sent]
    rfl

theorem Moves.forward (d : BasicDelta) :
    Moves x s h (out ++ [kept x.processesEntries d]) (y.forward d) := by
  rw [DepthFilter.forward, kept, m.processesEntries]
  split <;> exact m.addDelta _

theorem Moves.addDeltas (ds : List BasicDelta) :
    Moves x s h (out ++ ds) (ds.foldl DepthFilter.addDelta y) := by
  induction ds generalizing out y with
  | nil => rwa [append_nil]
  | cons d ds ih =>
    have hrest := ih (m.addDelta d)
    rwa [append_assoc] at hrest

theorem Moves.invoke : Moves x s h out y.invokeDeltaHandlers := by
  obtain ⟨hcollects, -, hsent⟩ := m.collects.invoke
  have hsame : y.invokeDeltaHandlers.maxDepth = y.maxDepth ∧
      y.invokeDeltaHandlers.processesEntries = y.processesEntries ∧
      y.invokeDeltaHandlers.halves = y.halves := by
    unfold invokeDeltaHandlers
    split <;> exact ⟨rfl, rfl, rfl⟩
  obtain ⟨h₁, h₂, h₃⟩ := hsame
  exact ⟨h₁.trans m.maxDepth, h₂.trans m.processesEntries, by rw [h₃, m.half],
    fun t ht => by rw [h₃, m.other t ht], hcollects, hsent.trans m.sent⟩

variable {l : PriceLevel}

theorem Moves.addLevel (hside : l.side = s.side) (hnone : h.levels.find? l.price = none) : ∃ z,
    y.addLevel l = .ok z ∧ Moves x s { h with levels := h.levels.insert l.price l.ref } out z := by
  refine ⟨_, ?_, m.setHalf _⟩
  rw [DepthFilter.addLevel, hside, BookSide.book?_side]
  dsimp only
  rw [m.half, hnone]

theorem Moves.deleteLevel (hside : l.side = s.side) (hsome : h.levels.find? l.price ≠ none) : ∃ z,
    y.deleteLevel l = .ok z ∧ Moves x s { h with levels := h.levels.erase l.price } out z := by
  obtain ⟨r, hr⟩ := Option.ne_none_iff_exists'.mp hsome
  refine ⟨_, ?_, m.setHalf _⟩
  rw [DepthFilter.deleteLevel, hside, BookSide.book?_side]
  dsimp only
  rw [m.half, hr]

end

end Moves

end DepthFilter

/-! ## One step of one half -/

/-- The delta is passed over: its price is out of scope. -/
def OutOfScope (n : Nat) (s : BookSide) (h : HalfView) (d : BasicDelta) : Prop :=
  worse s d.level.price h.lastPrice ∧ h.depth = n

/-- What a delta does to one half, and what it forwards. -/
inductive HalfStep (processesEntries : Bool) (n : Nat) (b : FullBook) (s : BookSide)
    (d : BasicDelta) (h : HalfView) : HalfView → List BasicDelta → Prop
  | outside (hout : OutOfScope n s h d) : HalfStep processesEntries n b s d h h []
  | update (hin : ¬ OutOfScope n s h d) (haction : d.plAction = .update) :
    HalfStep processesEntries n b s d h h [DepthFilter.kept processesEntries d]
  | unknown (hin : ¬ OutOfScope n s h d) (haction : d.plAction = .unknown) :
    HalfStep processesEntries n b s d h h []
  | addSmall (hin : ¬ OutOfScope n s h d) (haction : d.plAction = .add) (hdepth : h.depth ≠ n)
    (hnone : h.levels.find? d.level.price = none) :
    HalfStep processesEntries n b s d h
      ⟨h.levels.insert d.level.price d.level.ref,
        if worse s d.level.price h.lastPrice then d.level.price else h.lastPrice,
        sizeInc h.depth⟩
      [DepthFilter.kept processesEntries d]
  | addFull (hin : ¬ OutOfScope n s h d) (haction : d.plAction = .add) (hdepth : h.depth = n)
    (hnone : h.levels.find? d.level.price = none) (worst last : Price × Ref)
    (rest : List (Price × Ref))
    (hview : (b.visible s (h.levels.insert d.level.price d.level.ref)).reverse =
      worst :: last :: rest) :
    HalfStep processesEntries n b s d h
      ⟨(h.levels.insert d.level.price d.level.ref).erase worst.1, last.1, h.depth⟩
      [DepthFilter.kept processesEntries d, DepthFilter.dropped b s worst]
  | deletePull (hin : ¬ OutOfScope n s h d) (haction : d.plAction = .delete)
    (hsome : h.levels.find? d.level.price ≠ none) (a : Price × Ref)
    (hnext : b.getLevelAtPosition (sizeDec h.depth % 2 ^ 32) s = some a)
    (hnew : (h.levels.erase d.level.price).find? a.1 = none) :
    HalfStep processesEntries n b s d h
      ⟨(h.levels.erase d.level.price).insert a.1 a.2, a.1, h.depth⟩
      (DepthFilter.kept processesEntries d ::
        DepthFilter.levelDeltas processesEntries b (b.level s a))
  | deleteLast (hin : ¬ OutOfScope n s h d) (haction : d.plAction = .delete)
    (hsome : h.levels.find? d.level.price ≠ none)
    (hnext : b.getLevelAtPosition (sizeDec h.depth % 2 ^ 32) s = none) :
    HalfStep processesEntries n b s d h
      ⟨h.levels.erase d.level.price, h.lastPrice, sizeDec h.depth⟩
      [DepthFilter.kept processesEntries d]

namespace DepthFilter

variable {d : BasicDelta} {h' : HalfView}

/-- **What `processBidDelta` and `processAskDelta` do**: a step of the half, with its deltas
forwarded; they differ in when the handlers are called. -/
theorem processDelta_spec {x : DepthFilter} (hx : Collects x) {s : BookSide}
    (hside : d.level.side = s.side) (flush : Bool) {out : List BasicDelta}
    (hstep : HalfStep x.processesEntries x.maxDepth b s d (x.halves.get s) h' out) :
    ∃ y, processDelta s flush x b d = .ok y ∧ Moves x s h' out y := by
  have m := Moves.refl hx s
  unfold processDelta
  dsimp only
  have hscope : ∀ hin : ¬ OutOfScope x.maxDepth s (x.halves.get s) d,
      (worse s d.level.price (x.halves.get s).lastPrice &&
        (x.halves.get s).depth == x.maxDepth) = false := by
    intro hin
    unfold OutOfScope at hin
    simpa using hin
  cases hstep with
  | outside hout =>
    obtain ⟨hworse, hdepth⟩ := hout
    rw [hworse, hdepth]
    exact ⟨x, if_pos (by simp), m⟩
  | update hin haction => rw [hscope hin, haction]; exact ⟨_, rfl, m.forward d⟩
  | unknown hin haction => rw [hscope hin, haction]; exact ⟨_, rfl, m⟩
  | addSmall hin haction hdepth hnone =>
    obtain ⟨y, hy, my⟩ := m.addLevel hside hnone
    rw [hscope hin, haction]
    refine ⟨_, ?_, (my.setHalf _).forward d⟩
    rw [hy]
    show (if (x.halves.get s).depth = y.maxDepth then _ else pure _) = _
    rw [my.maxDepth, if_neg hdepth, my.half]
    rfl
  | addFull hin haction hdepth hnone worst last rest hview =>
    obtain ⟨y, hy, my⟩ := m.addLevel hside hnone
    have mf := my.forward d
    have hworst : (h'' : PtrMap) → h'' = (x.halves.get s).levels.insert d.level.price d.level.ref →
        h''.find? worst.1 ≠ none := by
      rintro h'' rfl
      have hmem :
          worst ∈ b.visible s ((x.halves.get s).levels.insert d.level.price d.level.ref) := by
        rw [← mem_reverse, hview]; exact mem_cons_self
      have hfind := mem_bestFirst.mp (mem_of_mem_filter hmem)
      rw [hfind]
      exact Option.some_ne_none _
    obtain ⟨z, hz, mz⟩ := ((mf.setHalf
      { (x.halves.get s) with
        levels := (x.halves.get s).levels.insert d.level.price d.level.ref
        lastPrice := last.1 }).addDelta (dropped b s worst)).deleteLevel
          (l := b.level s worst) rfl (hworst _ rfl)
    have hdrop : (y.forward d).dropWorst b s = .ok z := by
      unfold dropWorst
      dsimp only
      rwa [mf.half, hview]
    rw [hscope hin, haction]
    rw [hy]
    show ∃ w, (if (x.halves.get s).depth = y.maxDepth then
      (y.forward d).dropWorst b s >>= fun x => pure (if flush then x.invokeDeltaHandlers else x)
      else pure _) = .ok w ∧ _
    rw [my.maxDepth, if_pos hdepth, hdrop]
    cases flush with
    | true => exact ⟨_, rfl, mz.invoke⟩
    | false => exact ⟨_, rfl, mz⟩
  | deletePull hin haction hsome a hnext hnew =>
    obtain ⟨y, hy, my⟩ := m.deleteLevel hside hsome
    have mf := my.forward d
    obtain ⟨z, hz, mz⟩ := mf.addLevel (l := b.level s a) rfl hnew
    have mlevel := mz.addDeltas (levelDeltas x.processesEntries b (b.level s a))
    have hadd : z.addDeltasFromLevel b (b.level s a) =
        (levelDeltas x.processesEntries b (b.level s a)).foldl addDelta z := by
      rw [addDeltasFromLevel, mz.processesEntries]
    rw [hscope hin, haction]
    simp only [hy, hnext, hz, bind, Except.bind]
    refine ⟨_, rfl, ?_⟩
    rw [hadd, mlevel.half]
    exact mlevel.setHalf _
  | deleteLast hin haction hsome hnext =>
    obtain ⟨y, hy, my⟩ := m.deleteLevel hside hsome
    have mf := my.forward d
    rw [hscope hin, haction, if_neg Bool.false_ne_true]
    rw [hy]
    refine ⟨_, ?_, mf.setHalf _⟩
    simp only [hnext, bind, Except.bind, pure, Except.pure]
    rw [mf.half]

theorem process_spec {x : DepthFilter} (hx : Collects x) (hside : d.level.side ≠ .unknown)
    {out : List BasicDelta}
    (hstep : HalfStep x.processesEntries x.maxDepth b d.level.deltaSide d
      (x.halves.get d.level.deltaSide) h' out) :
    ∃ y, process b x d = .ok y ∧ Moves x d.level.deltaSide h' out y := by
  have hname : d.level.side = d.level.deltaSide.side := by
    unfold PriceLevel.deltaSide
    cases hc : d.level.side with
    | bid => rfl
    | ask => rfl
    | unknown => exact absurd hc hside
  unfold process
  cases hs : d.level.deltaSide with
  | bid => rw [hs] at hstep hname; exact processDelta_spec hx hname false hstep
  | ask => rw [hs] at hstep hname; exact processDelta_spec hx hname true hstep

end DepthFilter

end Mamda

import OpenMama.Mamda.BasicDeltaList

/-!
# Conflation by level

A list that conflates by level keeps at most one delta for a price.  For a
sequence of level actions that fits the book (a level is added when it is
absent, updated or deleted when it is there) the kept delta carries the right
action and the list the right count (`LevelMode.addAll`).  The size
of the kept delta is not always the sum of the sizes: a DELETE leaves the size
it finds alone, and an ADD after a level that came and went starts from its own
size.  `netChanges_iff` says when this shows.
-/

namespace Mamda

open Mama Lib List

namespace DeltaList

structure LevelMode (x : DeltaList) : Prop where
  keep : x.keepDeltas
  conflate : x.conflateDeltas
  levels : x.processEntries = false
  noDeltas : x.deltas = none

def keptAt (x : DeltaList) (k : BookSide × Price) : Option BasicDelta :=
  (x.levelMaps.get k.1).find? k.2

def numKept (x : DeltaList) : Nat :=
  x.levelMaps.bid.toList.length + x.levelMaps.ask.toList.length

/-! ## One delta -/

variable {x : DeltaList}

section

variable (h : LevelMode x)

include h

theorem LevelMode.clear : LevelMode x.clear ∧ (∀ k, x.clear.keptAt k = none) ∧ x.clear.size = 0 ∧
    x.clear.numKept = 0 := by
  obtain ⟨keep, conflate, entries, deltas, levelDeltas, entryDeltas, sides, send, size⟩ := x
  obtain ⟨rfl, rfl, rfl, rfl⟩ := h
  cases levelDeltas with
  | some m =>
    refine ⟨⟨rfl, rfl, rfl, rfl⟩, ?_, rfl, rfl⟩
    rintro ⟨s, p⟩
    cases s <;> rfl
  | none =>
    cases entryDeltas <;>
    · refine ⟨⟨rfl, rfl, rfl, rfl⟩, ?_, rfl, rfl⟩
      rintro ⟨s, p⟩
      cases s <;> rfl

/-- The list with the map of one side replaced by one that differs at one price only. -/
theorem LevelMode.put (d : BasicDelta) {m : BasicDeltaMap} {n : Nat}
    (sides : ModifiedSides) {kept : Option BasicDelta}
    (hm : ∀ q,
      m.find? q = if q = d.level.price then kept else (x.levelMaps.get d.level.deltaSide).find? q)
    (hn : x.numKept ≤ x.size →
      n + (x.levelMaps.get d.level.deltaSide).toList.length = x.size + m.toList.length)
    {y : DeltaList}
    (hy : y = { x with levelDeltas := some (x.levelMaps.set d.level.deltaSide m), size := n,
                       modSides := sides }) :
    LevelMode y ∧ (∀ k, y.keptAt k = if k = d.key then kept else x.keptAt k) ∧
      (∀ j, x.size = x.numKept + j → y.size = y.numKept + j) := by
  subst hy
  refine ⟨⟨h.keep, h.conflate, h.levels, h.noDeltas⟩, ?_, ?_⟩
  · intro k
    show ((x.levelMaps.set d.level.deltaSide m).get k.1).find? k.2 = _
    rw [Sides.get_set]
    by_cases hs : k.1 = d.level.deltaSide
    · rw [if_pos hs, hm]
      by_cases hp : k.2 = d.level.price
      · rw [if_pos hp, if_pos (Prod.ext hs hp)]
      · rw [if_neg hp, if_neg (fun hk => hp (congrArg Prod.snd hk)), ← hs]
        rfl
    · rw [if_neg hs, if_neg (fun hk => hs (congrArg Prod.fst hk))]
      rfl
  intro j hx
  have hlen : (x.levelMaps.set d.level.deltaSide m).bid.toList.length +
      (x.levelMaps.set d.level.deltaSide m).ask.toList.length +
      (x.levelMaps.get d.level.deltaSide).toList.length = x.numKept + m.toList.length := by
    unfold numKept
    cases d.level.deltaSide <;> simp only [Sides.set, Sides.get] <;> omega
  show n = (x.levelMaps.set d.level.deltaSide m).bid.toList.length +
    (x.levelMaps.set d.level.deltaSide m).ask.toList.length + j
  omega

theorem LevelMode.add (d : BasicDelta) : LevelMode (x.add d) ∧
    (∀ k, (x.add d).keptAt k = if k = d.key then conflateLevel (x.keptAt d.key) d else x.keptAt k) ∧
    (∀ j, x.size = x.numKept + j → (x.add d).size = (x.add d).numKept + j) := by
  have hadd : x.add d = { x.conflateLevelDeltas d with
      modSides := (x.conflateLevelDeltas d).modSides.checkSide d.level } := by
    rw [DeltaList.add, if_pos h.keep, if_pos h.conflate, if_neg (by rw [h.levels]; decide)]
  have hkey : x.keptAt d.key = (x.levelMaps.get d.level.deltaSide).find? d.level.price := rfl
  rw [hkey]
  cases hf : (x.levelMaps.get d.level.deltaSide).find? d.level.price with
  | none =>
    refine h.put d (x.modSides.checkSide d.level) (m := (x.levelMaps.get d.level.deltaSide).insert
      d.level.price d) (n := x.size + 1) ?_ ?_ ?_
    · intro q
      rw [SortedMap.find?_insert]
      rfl
    · intro _
      rw [SortedMap.length_insert_new hf]
      omega
    · rw [hadd]
      unfold DeltaList.conflateLevelDeltas
      simp only [hf]
      rfl
  | some old =>
    cases hc : conflateLevel (some old) d with
    | some new =>
      refine h.put d (x.modSides.checkSide d.level) (m := (x.levelMaps.get
        d.level.deltaSide).insert d.level.price new) (n := x.size) ?_ ?_ ?_
      · intro q
        rw [SortedMap.find?_insert]
      · intro _
        rw [SortedMap.length_insert_old hf]
      · rw [hadd]
        unfold DeltaList.conflateLevelDeltas
        simp [hf, hc]
    | none =>
      have hlen := SortedMap.length_erase hf
      refine h.put d (x.modSides.checkSide d.level) (m := (x.levelMaps.get
        d.level.deltaSide).erase d.level.price) (n := x.size - 1) ?_ ?_ ?_
      · intro q
        rw [SortedMap.find?_erase]
      · intro hx
        have hle : (x.levelMaps.get d.level.deltaSide).toList.length ≤ x.numKept := by
          unfold numKept
          cases d.level.deltaSide <;> simp only [Sides.get] <;> omega
        omega
      · rw [hadd]
        unfold DeltaList.conflateLevelDeltas
        simp [hf, hc]

/-- What is kept for a price is the conflation of the deltas at that price, and the count follows
the number of kept deltas. -/
theorem LevelMode.addAll (ds : List BasicDelta) : LevelMode (x.addAll ds) ∧
      (∀ k, (x.addAll ds).keptAt k = (atKey k ds).foldl conflateLevel (x.keptAt k)) ∧
      (∀ j, x.size = x.numKept + j → (x.addAll ds).size = (x.addAll ds).numKept + j) := by
  induction ds generalizing x with
  | nil => exact ⟨h, fun _ => rfl, fun _ hx => hx⟩
  | cons d ds ih =>
    obtain ⟨hmode, hkept, hsize⟩ := h.add d
    obtain ⟨hmode', hk, hs⟩ := ih hmode
    refine ⟨hmode', fun k => ?_, fun j hx => hs j (hsize j hx)⟩
    show ((x.add d).addAll ds).keptAt k = _
    rw [hk, hkept]
    unfold atKey
    by_cases heq : k = d.key
    · subst heq
      rw [if_pos rfl, filter_cons_of_pos (by simp), foldl_cons]
    · rw [if_neg heq, filter_cons_of_neg (by simpa using Ne.symm heq)]

end

/-! ## Sequences that fit the book -/

/-- The actions alternate as they should for a level that is there or not. -/
def WellFormed : Bool → List BasicDelta → Prop
  | _, [] => True
  | present, d :: ds =>
    match d.plAction with
    | .add => present = false ∧ WellFormed true ds
    | .update => present ∧ WellFormed true ds
    | .delete => present ∧ WellFormed false ds
    | .unknown => False

def presentAfter : Bool → List BasicDelta → Bool
  | present, [] => present
  | present, d :: ds =>
    match d.plAction with
    | .add => presentAfter true ds
    | .delete => presentAfter false ds
    | _ => presentAfter present ds

def netAction (before : Bool) (ds : List BasicDelta) : Option Action :=
  if ds.isEmpty then none
  else match before, presentAfter before ds with
    | false, false => none
    | false, true => some .add
    | true, false => some .delete
    | true, true => some .update

def total (ds : List BasicDelta) : Int := (ds.map BasicDelta.plDeltaSize).sum

def totalDeleted (ds : List BasicDelta) : Int := total (ds.filter fun d => d.plAction = .delete)

/-- The sum of the sizes of the deltas that an ADD follows. -/
def totalBeforeLastAdd : List BasicDelta → Int
  | [] => 0
  | d :: ds => if ds.any (fun d => d.plAction = .add) then d.plDeltaSize + totalBeforeLastAdd ds
    else 0

@[simp] theorem total_cons (d : BasicDelta) (ds : List BasicDelta) :
    total (d :: ds) = d.plDeltaSize + total ds := rfl

theorem totalDeleted_cons (d : BasicDelta) (ds : List BasicDelta) :
    totalDeleted (d :: ds) =
      (if d.plAction = .delete then d.plDeltaSize else 0) + totalDeleted ds := by
  unfold totalDeleted
  by_cases h : d.plAction = .delete <;> simp [h]

section

variable (ds : List BasicDelta)

include ds

/-- A kept UPDATE or DELETE stays: its action follows the level, and it takes up the sizes of
all but the DELETE deltas. -/
theorem fold_of_seen : ∀ (present : Bool) (old : BasicDelta),
    old.plAction = (if present then .update else .delete) → WellFormed present ds →
    ∃ new, ds.foldl conflateLevel (some old) = some new ∧
      new.plAction = (if presentAfter present ds then .update else .delete) ∧
      new.plDeltaSize = old.plDeltaSize + (total ds - totalDeleted ds) := by
  induction ds with
  | nil => intro present old hold _; exact ⟨old, rfl, hold, by simp [totalDeleted]⟩
  | cons d ds ih =>
    intro present old hold hwf
    rw [totalDeleted_cons, total_cons]
    unfold WellFormed at hwf
    unfold presentAfter
    cases ha : d.plAction with
    | add =>
      simp only [ha] at hwf ⊢
      obtain ⟨rfl, hwf⟩ := hwf
      obtain ⟨new, hnew, hact, hsize⟩ := ih true
        ⟨old.entry, d.level, old.plDeltaSize + d.plDeltaSize, .update, old.entryAction⟩ rfl hwf
      refine ⟨new, ?_, hact, ?_⟩
      · rw [foldl_cons]
        unfold conflateLevel
        simp only [ha]
        exact hnew
      · rw [hsize]
        simp only [reduceCtorEq, if_false]
        omega
    | update =>
      simp only [ha] at hwf ⊢
      obtain ⟨rfl, hwf⟩ := hwf
      obtain ⟨new, hnew, hact, hsize⟩ := ih true
        ⟨old.entry, d.level, old.plDeltaSize + d.plDeltaSize, old.plAction, old.entryAction⟩
        hold hwf
      refine ⟨new, ?_, hact, ?_⟩
      · rw [foldl_cons]
        unfold conflateLevel
        simp only [ha]
        exact hnew
      · rw [hsize]
        simp only [reduceCtorEq, if_false]
        omega
    | delete =>
      simp only [ha] at hwf ⊢
      obtain ⟨rfl, hwf⟩ := hwf
      obtain ⟨new, hnew, hact, hsize⟩ := ih false { old with plAction := .delete } rfl hwf
      refine ⟨new, ?_, hact, ?_⟩
      · rw [foldl_cons]
        unfold conflateLevel
        simp only [ha, hold]
        exact hnew
      · rw [hsize]
        simp only [if_true]
        omega
    | unknown => simp only [ha] at hwf

theorem any_add_of_present (hwf : WellFormed false ds)
    (h : presentAfter false ds) : ds.any (fun d => d.plAction = .add) := by
  cases ds with
  | nil => cases h
  | cons d ds =>
    unfold WellFormed at hwf
    cases ha : d.plAction <;> simp [ha] at hwf ⊢

/-- A level that was absent is kept as an ADD while it is there and not at all while it is not;
the kept size is that of the deltas from the last ADD on. -/
theorem fold_of_unseen :
    (WellFormed false ds →
      if presentAfter false ds then
        ∃ new, ds.foldl conflateLevel none = some new ∧ new.plAction = .add ∧
          new.plDeltaSize = total ds - totalBeforeLastAdd ds
      else ds.foldl conflateLevel none = none) ∧
    ∀ old : BasicDelta, old.plAction = .add → WellFormed true ds →
      if presentAfter true ds then
        ∃ new, ds.foldl conflateLevel (some old) = some new ∧ new.plAction = .add ∧
          new.plDeltaSize =
            if ds.any (fun d => d.plAction = .add) then total ds - totalBeforeLastAdd ds
            else old.plDeltaSize + total ds
      else ds.foldl conflateLevel (some old) = none := by
  induction ds with
  | nil =>
    refine ⟨fun _ => rfl, fun old hold _ => ⟨old, rfl, hold, ?_⟩⟩
    simp [total]
  | cons d ds ih =>
    obtain ⟨ihAbsent, ihPresent⟩ := ih
    refine ⟨fun hwf => ?_, fun old hold hwf => ?_⟩
    · unfold WellFormed at hwf
      cases ha : d.plAction with
      | add =>
        simp only [ha] at hwf
        have hnext := ihPresent d ha hwf.2
        simp only [presentAfter, ha]
        split at hnext
        · next hpres =>
          obtain ⟨new, hnew, hact, hsize⟩ := hnext
          rw [if_pos hpres]
          refine ⟨new, hnew, hact, ?_⟩
          rw [hsize, total_cons, totalBeforeLastAdd]
          split <;> omega
        · next hpres => rwa [if_neg hpres]
      | update => simp [ha] at hwf
      | delete => simp [ha] at hwf
      | unknown => simp [ha] at hwf
    unfold WellFormed at hwf
    cases ha : d.plAction with
    | add => simp [ha] at hwf
    | update =>
      simp only [ha] at hwf
      have hnext := ihPresent
        ⟨old.entry, d.level, old.plDeltaSize + d.plDeltaSize, old.plAction, old.entryAction⟩
        hold hwf.2
      have hfold : conflateLevel (some old) d = some
          ⟨old.entry, d.level, old.plDeltaSize + d.plDeltaSize, old.plAction,
            old.entryAction⟩ := by
        unfold conflateLevel
        simp [ha]
      have hany : (d :: ds).any (fun d => d.plAction = .add) =
          ds.any (fun d => d.plAction = .add) := by simp [ha]
      simp only [presentAfter, ha, foldl_cons, hfold]
      split at hnext
      · next hpres =>
        obtain ⟨new, hnew, hact, hsize⟩ := hnext
        simp only at hsize
        rw [if_pos hpres]
        refine ⟨new, hnew, hact, ?_⟩
        rw [hsize, hany, total_cons, totalBeforeLastAdd]
        split <;> omega
      · next hpres => rwa [if_neg hpres]
    | delete =>
      simp only [ha] at hwf
      have hnext := ihAbsent hwf.2
      have hfold : conflateLevel (some old) d = none := by
        unfold conflateLevel; simp [ha, hold]
      simp only [presentAfter, ha, foldl_cons, hfold]
      split at hnext
      · next hpres =>
        obtain ⟨new, hnew, hact, hsize⟩ := hnext
        have hadd := any_add_of_present ds hwf.2 hpres
        rw [if_pos hpres]
        refine ⟨new, hnew, hact, ?_⟩
        have hany : (d :: ds).any (fun d => d.plAction = .add) := by
          rw [any_cons, hadd, Bool.or_true]
        rw [if_pos hany, total_cons, totalBeforeLastAdd, if_pos hadd]
        omega
      · next hpres => rwa [if_neg hpres]
    | unknown => simp [ha] at hwf

/-! ## The net change -/

/-- The kept delta is the net change of the sequence, with the sum of its sizes. -/
def NetAt (before : Bool) (ds : List BasicDelta) (kept : Option BasicDelta) : Prop :=
  kept.map BasicDelta.plAction = netAction before ds ∧
    ∀ d, kept = some d → d.plDeltaSize = total ds

/-- The sizes that the kept delta misses add up to zero: those of the DELETE deltas after the
first delta where the level was there before, those of the deltas before the last ADD where it
was not but is now. -/
def SizesKept (before : Bool) (ds : List BasicDelta) : Prop :=
  match before with
  | true => totalDeleted ds.tail = 0
  | false => presentAfter false ds → totalBeforeLastAdd ds = 0

omit ds in
/-- The kept delta has the action of the net change, whatever the sizes; its size is the sum
exactly when the sizes it misses add up to zero. -/
theorem netAt_iff (before : Bool) (ds : List BasicDelta) (hwf : WellFormed before ds) :
    NetAt before ds (ds.foldl conflateLevel none) ↔ SizesKept before ds := by
  cases before with
  | false =>
    have hfold := (fold_of_unseen ds).1 hwf
    unfold NetAt SizesKept netAction
    cases hpres : presentAfter false ds with
    | false =>
      rw [hpres] at hfold
      rw [hfold]
      simp
    | true =>
      rw [hpres] at hfold
      obtain ⟨new, hnew, hact, hsize⟩ := hfold
      have hne : ds.isEmpty = false := by
        cases ds with
        | nil => cases hpres
        | cons d ds => rfl
      rw [hnew, hne]
      simp only [Option.map_some, hact, Option.some.injEq, Bool.false_eq_true, if_false,
        true_and, forall_eq', forall_const]
      omega
  | true =>
    cases ds with
    | nil => simp [NetAt, SizesKept, netAction, totalDeleted, total]
    | cons d ds =>
      unfold WellFormed at hwf
      obtain ⟨present, hact, hwf', hpa⟩ : ∃ present : Bool,
          d.plAction = (if present then .update else .delete) ∧ WellFormed present ds ∧
          presentAfter true (d :: ds) = presentAfter present ds := by
        cases ha : d.plAction with
        | add => simp [ha] at hwf
        | update => simp only [ha] at hwf; exact ⟨true, rfl, hwf.2, by simp [presentAfter, ha]⟩
        | delete => simp only [ha] at hwf; exact ⟨false, rfl, hwf.2, by simp [presentAfter, ha]⟩
        | unknown => simp [ha] at hwf
      obtain ⟨new, hnew, hnewact, hsize⟩ := fold_of_seen ds present d hact hwf'
      have hfold : (d :: ds).foldl conflateLevel none = some new := hnew
      unfold NetAt SizesKept netAction
      rw [hfold, hpa]
      simp only [Option.map_some, hnewact, Option.some.injEq, forall_eq', hsize]
      cases presentAfter present ds <;> simp

/-- The deltas kept at the end of an interval are the net changes, and the count is theirs. -/
def NetChanges (present : BookSide × Price → Bool) (ds : List BasicDelta) (x : DeltaList) : Prop :=
  (∀ k, NetAt (present k) (atKey k ds) (x.keptAt k)) ∧ x.size = x.numKept

omit ds in
/-- For every interval of level deltas that fit the book, from a list cleared at its start, the
kept deltas are the net changes if and only if at every price the sizes that the conflation
drops add up to zero. -/
theorem netChanges_iff (x : DeltaList) (hx : LevelMode x) (present : BookSide × Price → Bool)
    (ds : List BasicDelta) (hwf : ∀ k, WellFormed (present k) (atKey k ds)) :
    NetChanges present ds (x.clear.addAll ds) ↔ ∀ k, SizesKept (present k) (atKey k ds) := by
  obtain ⟨hmode, hnone, hsize, hnum⟩ := hx.clear
  obtain ⟨-, hkept, hcount⟩ := hmode.addAll ds
  have hkept' : ∀ k, (x.clear.addAll ds).keptAt k = (atKey k ds).foldl conflateLevel none := by
    intro k
    rw [hkept, hnone]
  have hcount' : (x.clear.addAll ds).size = (x.clear.addAll ds).numKept :=
    hcount 0 (hsize.trans hnum.symm)
  constructor
  · rintro ⟨hnet, -⟩ k
    have hk := hnet k
    rw [hkept'] at hk
    exact (netAt_iff (present k) (atKey k ds) (hwf k)).mp hk
  · intro hkeep
    refine ⟨fun k => ?_, hcount'⟩
    rw [hkept']
    exact (netAt_iff (present k) (atKey k ds) (hwf k)).mpr (hkeep k)

def bidDelta (action : Action) (size : Int) : BasicDelta :=
  ⟨none, PriceLevel.new ⟨9, 0⟩ 10 .bid, size, action, .unknown⟩

/-- A list as a client sets it up to conflate by level. -/
def levelList : DeltaList :=
    { DeltaList.new 0 with conflateDeltas := true, processEntries := false }

theorem wellFormed_bid (hds : ∀ d ∈ ds, d.key = (.bid, 10)) (before : Bool)
    (hwf : WellFormed before ds) (k : BookSide × Price) :
    WellFormed (if k = (.bid, 10) then before else false) (atKey k ds) := by
  rw [atKey_of_all hds]
  split
  · exact hwf
  · trivial

end

def comeAndGo : List BasicDelta := [bidDelta .add 5, bidDelta .update 2, bidDelta .delete (-7)]

theorem netChanges_comeAndGo : NetChanges (fun k => if k = (.bid, 10) then false else false)
    comeAndGo (levelList.clear.addAll comeAndGo) := by
  refine (netChanges_iff levelList ⟨rfl, rfl, rfl, rfl⟩ _ comeAndGo
    (wellFormed_bid comeAndGo (by decide) false ⟨rfl, rfl, rfl, trivial⟩)).mpr ?_
  intro k
  rw [atKey_of_all (by decide : ∀ d ∈ comeAndGo, d.key = (.bid, 10))]
  split <;>
  · intro hpres; cases hpres

/-- An update and then a DELETE of a level: the DELETE that is kept carries the size of the
update. -/
theorem delete_keeps_update_size :
    (∀ k, WellFormed (if k = (.bid, 10) then true else false)
      (atKey k [bidDelta .update 3, bidDelta .delete (-8)])) ∧
    (levelList.clear.addAll [bidDelta .update 3, bidDelta .delete (-8)]).keptAt (.bid, 10) =
      some (bidDelta .delete 3) ∧
    ¬ NetChanges (fun k => if k = (.bid, 10) then true else false)
      [bidDelta .update 3, bidDelta .delete (-8)]
      (levelList.clear.addAll [bidDelta .update 3, bidDelta .delete (-8)]) := by
  refine ⟨wellFormed_bid _ (by decide) true ⟨rfl, rfl, trivial⟩, rfl, ?_⟩
  rintro ⟨hnet, -⟩
  have hsize := (hnet (.bid, 10)).2 (bidDelta .delete 3) rfl
  cases hsize

end DeltaList

end Mamda

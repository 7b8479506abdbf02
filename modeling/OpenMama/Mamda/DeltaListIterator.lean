import OpenMama.Lib.Cursor
import OpenMama.Mamda.EntryConflation
import OpenMama.Mamda.LevelConflation

/-!
# Iterators of a delta list

One iterator class walks the three representations of a delta list.  Over the
maps of the conflated modes it goes through the bids and then hops to the asks,
and in the mode that conflates entries it goes through the list of each price
and passes the empty ones over.

From `begin ()` to `end ()` it visits `toList` (`iterate_eq`).  How many
deltas that are is kept in `mSize` by the conflation code, which adds and
subtracts right but starts from whatever the constructor finds there
(`iteratesKept_iff`).
-/

namespace Mamda

open Mama Lib List

/-! ## Algorithm -/

/-- A `std::map` iterator into the bids or the asks: the number of elements is the end. -/
abbrev MapIter := BookSide × Nat

namespace MapIter

section Maps

variable {α : Type} (v : Sides (List α))

def atEnd : MapIter := (.ask, v.ask.length)

/-- The begin of the bids, or of the asks where there are no bids. -/
def first : MapIter := if v.bid.length ≠ 0 then (.bid, 0) else (.ask, 0)

/-- `++`, then the hop from the end of the bids to the begin of the asks. -/
def next (p : MapIter) : MapIter :=
  if (p.1, p.2 + 1) = (.bid, v.bid.length) then (.ask, 0) else (p.1, p.2 + 1)

def deref (p : MapIter) : Option α := (v.get p.1)[p.2]?

end Maps

/-- `while (iter != end && 0 == iter->second->size ()) ++iter`, with fuel. -/
def skipEmpty (v : Sides (List (List BasicDelta))) : Nat → MapIter → MapIter
  | 0, p => p
  | fuel + 1, p =>
    if p ≠ atEnd v ∧ (deref v p).elim false List.isEmpty then skipEmpty v fuel (next v p) else p

end MapIter

/-- `iteratorImpl`, by the iterator that is not null; `mEntryIterator` goes through the list that
`mMapIterator` is at. -/
inductive DeltaIter
  | delta (i : Nat)
  | level (p : MapIter)
  | entry (p : MapIter) (j : Option Nat)
  deriving DecidableEq

namespace DeltaList

def levelValues (x : DeltaList) : Sides (List BasicDelta) :=
  ⟨x.levelMaps.bid.values, x.levelMaps.ask.values⟩

def entryValues (x : DeltaList) : Sides (List (List BasicDelta)) :=
  ⟨x.entryMaps.bid.values, x.entryMaps.ask.values⟩

/-- Fuel for the loop that passes empty lists over: one for each list. -/
def numLists (x : DeltaList) : Nat := x.entryValues.bid.length + x.entryValues.ask.length

/-- The constructor of `iteratorImpl` for an iterator into the entry maps, after its loop. -/
def entryIter (x : DeltaList) (p : MapIter) : DeltaIter :=
  .entry p (if p ≠ MapIter.atEnd x.entryValues then some 0 else none)

/-- `begin`. -/
def beginIter (x : DeltaList) : Except String DeltaIter :=
  if !x.keepDeltas then .error "attempt to iterate over unsaved basic deltas"
  else if x.conflateDeltas then
    if x.processEntries then
      let v := x.entryValues
      .ok (x.entryIter (MapIter.skipEmpty v x.numLists (MapIter.first v)))
    else .ok (.level (MapIter.first x.levelValues))
  else .ok (.delta 0)

/-- `end`. -/
def endIter (x : DeltaList) : Except String DeltaIter :=
  if !x.keepDeltas then .error "attempt to iterate over unsaved basic deltas"
  else if x.conflateDeltas then
    if x.processEntries then .ok (x.entryIter (MapIter.atEnd x.entryValues))
    else .ok (.level (MapIter.atEnd x.levelValues))
  else .ok (.delta (x.deltas.getD []).length)

/-- `operator++`; none where it would follow an iterator that is null or past its list. -/
def nextIter (x : DeltaList) : DeltaIter → Option DeltaIter
  | .delta i => some (.delta (if i ≠ (x.deltas.getD []).length then i + 1 else i))
  | .level p =>
    some (.level (if p ≠ MapIter.atEnd x.levelValues then MapIter.next x.levelValues p else p))
  | .entry p j =>
    let v := x.entryValues
    if p = MapIter.atEnd v then some (.entry p j)
    else do
      let ds ← MapIter.deref v p
      let j ← j
      if j + 1 = ds.length then
        let p := MapIter.skipEmpty v x.numLists (MapIter.next v p)
        pure (.entry p (some (if p ≠ MapIter.atEnd v then 0 else j + 1)))
      else pure (.entry p (some (j + 1)))

/-- `operator==`. -/
def eqIter (x : DeltaList) : DeltaIter → DeltaIter → Bool
  | .delta i, .delta j => decide (i = j)
  | .level p, .level q => decide (p = q)
  | .entry p i, .entry q j =>
    (j.isSome && decide (p = q ∧ i = j)) ||
      decide (p = MapIter.atEnd x.entryValues ∧ q = MapIter.atEnd x.entryValues)
  | _, _ => false

/-- `operator*`. -/
def derefIter (x : DeltaList) : DeltaIter → Option BasicDelta
  | .delta i => (x.deltas.getD [])[i]?
  | .level p => MapIter.deref x.levelValues p
  | .entry p j => do
    let ds ← MapIter.deref x.entryValues p
    let j ← j
    ds[j]?

/-- `for (i = begin (); i != end (); ++i)`; none when the loop runs out of fuel or `begin ()`
throws. -/
def iterate (x : DeltaList) (fuel : Nat) : Option (List BasicDelta) :=
  match x.beginIter, x.endIter with
  | .ok first, .ok last => walk (fun i => x.eqIter i last) x.derefIter x.nextIter fuel first
  | _, _ => none

end DeltaList

/-! ## Both maps in a row -/

variable {g : Nat}

namespace MapIter

variable {α : Type} {v : Sides (List α)}

/-- The place of an element, the bids and the asks being numbered in a row. -/
def place (v : Sides (List α)) (g : Nat) : MapIter :=
  if g < v.bid.length then (.bid, g) else (.ask, g - v.bid.length)

theorem place_zero : place v 0 = first v := by
  unfold place first
  by_cases h : 0 < v.bid.length
  · rw [if_pos h, if_pos (by omega)]
  · rw [if_neg h, if_neg (by omega), Nat.zero_sub]

theorem place_end : place v (v.bid ++ v.ask).length = atEnd v := by
  rw [place, atEnd, length_append, if_neg (by omega), Nat.add_sub_cancel_left]

theorem place_inj {g' : Nat} : place v g = place v g' ↔ g = g' := by
  constructor
  · intro h
    unfold place at h
    by_cases h₁ : g < v.bid.length
    · by_cases h₂ : g' < v.bid.length
      · rw [if_pos h₁, if_pos h₂] at h; exact congrArg Prod.snd h
      · rw [if_pos h₁, if_neg h₂] at h; cases congrArg Prod.fst h
    · by_cases h₂ : g' < v.bid.length
      · rw [if_neg h₁, if_pos h₂] at h; cases congrArg Prod.fst h
      · rw [if_neg h₁, if_neg h₂] at h
        have hsnd : g - v.bid.length = g' - v.bid.length := congrArg Prod.snd h
        omega
  · rintro rfl; rfl

theorem next_place (g : Nat) : next v (place v g) = place v (g + 1) := by
  unfold next place
  by_cases h : g < v.bid.length
  · rw [if_pos h]
    by_cases h' : g + 1 < v.bid.length
    · rw [if_pos h', if_neg]
      intro heq
      have hsnd : g + 1 = v.bid.length := congrArg Prod.snd heq
      omega
    · have hlast : g + 1 = v.bid.length := by omega
      rw [if_neg h', hlast, if_pos rfl, Nat.sub_self]
  · rw [if_neg h, if_neg (fun heq => by cases congrArg Prod.fst heq), if_neg (by omega),
      Nat.sub_add_comm (by omega)]

theorem deref_place (g : Nat) : deref v (place v g) = (v.bid ++ v.ask)[g]? := by
  rw [deref, place, getElem?_append]
  by_cases h : g < v.bid.length
  · rw [if_pos h, if_pos h]; rfl
  · rw [if_neg h, if_neg h]; rfl

theorem skipEmpty_place {v : Sides (List (List BasicDelta))} {n : Nat}
    (hg : g ≤ (v.bid ++ v.ask).length) (hfuel : (v.bid ++ v.ask).length ≤ g + n) :
    ∃ g', skipEmpty v n (place v g) = place v g' ∧ g' ≤ (v.bid ++ v.ask).length ∧
      ((v.bid ++ v.ask).drop g').flatten = ((v.bid ++ v.ask).drop g).flatten ∧
      ∀ hlt : g' < (v.bid ++ v.ask).length, (v.bid ++ v.ask)[g'] ≠ [] := by
  induction n generalizing g with
  | zero =>
    refine ⟨g, rfl, hg, rfl, fun hlt => ?_⟩
    omega
  | succ n ih =>
    rw [skipEmpty]
    by_cases hend : g = (v.bid ++ v.ask).length
    · rw [hend, place_end, if_neg (fun h => h.1 rfl)]
      exact ⟨_, place_end.symm, Nat.le_refl _, rfl, fun hlt => absurd hlt (by omega)⟩
    have hlt : g < (v.bid ++ v.ask).length := by omega
    have hne : place v g ≠ atEnd v := by rwa [← place_end, ne_eq, place_inj]
    have hderef : deref v (place v g) = some (v.bid ++ v.ask)[g] := by
      rw [deref_place, getElem?_eq_getElem hlt]
    rw [hderef]
    by_cases hempty : (v.bid ++ v.ask)[g] = []
    · obtain ⟨g', heq, hle, hdrop, hfull⟩ := ih (g := g + 1) (by omega) (by omega)
      refine ⟨g', ?_, hle, ?_, hfull⟩
      · rw [if_pos ⟨hne, List.isEmpty_iff.mpr hempty⟩, next_place, heq]
      · rw [hdrop, drop_eq_getElem_cons hlt, flatten_cons, hempty, nil_append]
    · refine ⟨g, ?_, hg, rfl, fun _ => hempty⟩
      rw [if_neg (fun h => hempty (List.isEmpty_iff.mp h.2))]

end MapIter

/-! ## The loop -/

namespace DeltaList

variable {x : DeltaList}

theorem visits_deltas {i : Nat} (hi : i ≤ (x.deltas.getD []).length) :
    Visits (fun j => x.eqIter j (.delta (x.deltas.getD []).length)) x.derefIter x.nextIter
      (.delta i) ((x.deltas.getD []).drop i) := by
  induction hn : (x.deltas.getD []).length - i generalizing i with
  | zero =>
    have hend : i = (x.deltas.getD []).length := by omega
    rw [hend, drop_length]
    exact Visits.stop (decide_eq_true rfl)
  | succ n ih =>
    have hlt : i < (x.deltas.getD []).length := by omega
    rw [drop_eq_getElem_cons hlt]
    refine Visits.visit ?_ (getElem?_eq_getElem hlt) ?_ (ih (by omega) (by omega))
    · exact decide_eq_false (by omega)
    · show some (DeltaIter.delta (if i ≠ (x.deltas.getD []).length then i + 1 else i)) = _
      rw [if_pos (by omega)]

theorem visits_levels (hg : g ≤ (x.levelValues.bid ++ x.levelValues.ask).length) :
    Visits (fun j => x.eqIter j (.level (MapIter.atEnd x.levelValues))) x.derefIter x.nextIter
      (.level (MapIter.place x.levelValues g))
      ((x.levelValues.bid ++ x.levelValues.ask).drop g) := by
  induction hn : (x.levelValues.bid ++ x.levelValues.ask).length - g generalizing g with
  | zero =>
    have hend : g = (x.levelValues.bid ++ x.levelValues.ask).length := by omega
    rw [hend, drop_length, MapIter.place_end]
    exact Visits.stop (decide_eq_true rfl)
  | succ n ih =>
    have hlt : g < (x.levelValues.bid ++ x.levelValues.ask).length := by omega
    have hne : MapIter.place x.levelValues g ≠ MapIter.atEnd x.levelValues := by
      rw [← MapIter.place_end, ne_eq, MapIter.place_inj]; omega
    rw [drop_eq_getElem_cons hlt]
    refine Visits.visit (decide_eq_false hne) ?_ ?_ (ih (by omega) (by omega))
    · show MapIter.deref x.levelValues (MapIter.place x.levelValues g) = _
      rw [MapIter.deref_place, getElem?_eq_getElem hlt]
    · show some (DeltaIter.level (if MapIter.place x.levelValues g ≠ MapIter.atEnd x.levelValues
        then MapIter.next x.levelValues (MapIter.place x.levelValues g)
        else MapIter.place x.levelValues g)) = _
      rw [if_pos hne, MapIter.next_place]

def allLists (x : DeltaList) : List (List BasicDelta) := x.entryValues.bid ++ x.entryValues.ask

theorem place_ne_atEnd (hg : g < x.allLists.length) :
    MapIter.place x.entryValues g ≠ MapIter.atEnd x.entryValues := by
  rw [← MapIter.place_end, ne_eq, MapIter.place_inj]
  exact Nat.ne_of_lt hg

theorem endEntry_eq (x : DeltaList) : x.entryIter (MapIter.atEnd x.entryValues) =
    .entry (MapIter.atEnd x.entryValues) none := by
  rw [entryIter, if_neg (fun h => h rfl)]

theorem visits_end (j : Option Nat) :
    Visits (fun i => x.eqIter i (x.entryIter (MapIter.atEnd x.entryValues))) x.derefIter x.nextIter
      (.entry (MapIter.atEnd x.entryValues) j) [] := by
  refine Visits.stop ?_
  rw [endEntry_eq]
  simp [eqIter]

variable {j : Nat} {k : BookSide × Price} {ds : List BasicDelta}

theorem visits_entries (hg : g < x.allLists.length) (hj : j < x.allLists[g].length) :
    Visits (fun i => x.eqIter i (x.entryIter (MapIter.atEnd x.entryValues))) x.derefIter x.nextIter
      (.entry (MapIter.place x.entryValues g) (some j))
      (x.allLists[g].drop j ++ (x.allLists.drop (g + 1)).flatten) := by
  -- by the number of deltas left
  induction hn : (x.allLists[g].drop j ++ (x.allLists.drop (g + 1)).flatten).length
    generalizing g j with
  | zero => rw [length_append, length_drop] at hn; omega
  | succ n ih =>
    have hne := place_ne_atEnd hg
    have hderef : MapIter.deref x.entryValues (MapIter.place x.entryValues g) =
        some x.allLists[g] := by
      rw [MapIter.deref_place]
      exact getElem?_eq_getElem hg
    have hstop : x.eqIter (.entry (MapIter.place x.entryValues g) (some j))
        (x.entryIter (MapIter.atEnd x.entryValues)) = false := by
      rw [endEntry_eq]
      simp [eqIter, hne]
    have hread : x.derefIter (.entry (MapIter.place x.entryValues g) (some j)) =
        some x.allLists[g][j] := by
      simp only [derefIter, hderef]
      exact getElem?_eq_getElem hj
    rw [drop_eq_getElem_cons hj, cons_append] at hn ⊢
    by_cases hlast : j + 1 = x.allLists[g].length
    · obtain ⟨g', hskip, hle, hdrop, hfull⟩ := MapIter.skipEmpty_place (v := x.entryValues)
        (n := x.numLists) (g := g + 1) hg (by
          rw [length_append]
          unfold numLists
          omega)
      have hnext : x.nextIter (.entry (MapIter.place x.entryValues g) (some j)) =
          some (.entry (MapIter.place x.entryValues g')
            (some (if MapIter.place x.entryValues g' ≠ MapIter.atEnd x.entryValues then 0
              else j + 1))) := by
        simp only [nextIter, if_neg hne, hderef, Option.bind_eq_bind, Option.bind_some,
          if_pos hlast,
          MapIter.next_place, hskip]
        rfl
      have hrest : x.allLists[g].drop (j + 1) ++ (x.allLists.drop (g + 1)).flatten =
          (x.allLists.drop g').flatten := by
        rw [drop_eq_nil_of_le (by omega)]
        exact hdrop.symm
      refine Visits.visit hstop hread hnext ?_
      rw [hrest] at hn ⊢
      by_cases hend : g' = x.allLists.length
      · have hplace : MapIter.place x.entryValues g' = MapIter.atEnd x.entryValues := by
          rw [hend]; exact MapIter.place_end
        rw [hplace, hend, drop_length]
        exact visits_end _
      · have hg' : g' < x.allLists.length := Nat.lt_of_le_of_ne hle hend
        have hpos : 0 < x.allLists[g'].length := length_pos_iff.mpr (hfull hg')
        rw [if_pos (place_ne_atEnd hg')]
        rw [drop_eq_getElem_cons hg'] at hn ⊢
        exact ih hg' hpos (Nat.succ.inj hn)
    · have hnext : x.nextIter (.entry (MapIter.place x.entryValues g) (some j)) =
          some (.entry (MapIter.place x.entryValues g) (some (j + 1))) := by
        simp only [nextIter, if_neg hne, hderef, Option.bind_eq_bind, Option.bind_some,
          if_neg hlast]
        rfl
      exact Visits.visit hstop hread hnext (ih hg (by omega) (Nat.succ.inj hn))

theorem iterate_eq (h : x.keepDeltas) {fuel : Nat} (hfuel : x.toList.length < fuel) :
    x.iterate fuel = some x.toList := by
  rw [iterate, beginIter, endIter, h]
  unfold toList at hfuel ⊢
  cases hc : x.conflateDeltas with
  | false => rw [hc] at hfuel; exact (visits_deltas (Nat.zero_le _)).walk_eq hfuel
  | true =>
    rw [hc] at hfuel
    cases he : x.processEntries with
    | false =>
      rw [he] at hfuel
      have hvisits := visits_levels (x := x) (g := 0) (Nat.zero_le _)
      rw [MapIter.place_zero] at hvisits
      exact hvisits.walk_eq hfuel
    | true =>
      rw [he] at hfuel
      obtain ⟨g, hskip, hle, hdrop, hfull⟩ := MapIter.skipEmpty_place (v := x.entryValues)
        (n := x.numLists) (g := 0) (Nat.zero_le _) (by
          rw [length_append]
          unfold numLists
          omega)
      have hall : (x.allLists.drop g).flatten =
          x.entryMaps.bid.values.flatten ++ x.entryMaps.ask.values.flatten := by
        rwa [← flatten_append]
      rw [MapIter.place_zero] at hskip
      show walk _ _ _ fuel (x.entryIter (MapIter.skipEmpty x.entryValues x.numLists
        (MapIter.first x.entryValues))) = some (_ ++ _)
      rw [hskip, ← hall]
      by_cases hend : g = x.allLists.length
      · have hplace : MapIter.place x.entryValues g = MapIter.atEnd x.entryValues := by
          rw [hend]; exact MapIter.place_end
        have hstart : x.entryIter (MapIter.place x.entryValues g) =
            .entry (MapIter.atEnd x.entryValues) none := by
          rw [hplace, endEntry_eq]
        rw [hstart, hend, drop_length]
        exact (visits_end none).walk_eq (Nat.lt_of_le_of_lt (Nat.zero_le _) hfuel)
      have hg : g < x.allLists.length := Nat.lt_of_le_of_ne hle hend
      have hvisits := visits_entries hg (length_pos_iff.mpr (hfull hg))
      have hrest : x.allLists[g].drop 0 ++ (x.allLists.drop (g + 1)).flatten =
          (x.allLists.drop g).flatten := by
        rw [drop_eq_getElem_cons hg]
        rfl
      have hstart : x.entryIter (MapIter.place x.entryValues g) =
          .entry (MapIter.place x.entryValues g) (some 0) := by
        rw [entryIter, if_pos (place_ne_atEnd hg)]
      rw [hstart, ← hrest]
      refine hvisits.walk_eq ?_
      rwa [hrest, hall]

/-! ## The modes -/

inductive Mode
  | plain
  | levels
  | entries
  deriving DecidableEq

/-- A list that is set to a mode before anything is added; `junk` is what the constructor leaves in
`mSize`. -/
def start (junk : Nat) : Mode → DeltaList
  | .plain => new junk
  | .levels => { new junk with conflateDeltas := true, processEntries := false }
  | .entries => { new junk with conflateDeltas := true }

def keptFor (mode : Mode) (ds : List BasicDelta) (k : BookSide × Price) : List BasicDelta :=
  match mode with
  | .plain => atKey k ds
  | .levels => ((atKey k ds).foldl conflateLevel none).toList
  | .entries => (atKey k ds).foldl conflateEntry []

def KeyLe (a c : BookSide × Price) : Prop :=
  a.1 = .bid ∧ c.1 = .ask ∨ a.1 = c.1 ∧ a.2 ≤ c.2

/-- The loop over a list to which `ds` were added visits every kept delta once and in order, and
`getSize` is the number of deltas it visits. -/
structure IteratesKept (mode : Mode) (ds : List BasicDelta) (x : DeltaList)
    (visited : List BasicDelta) : Prop where
  ends : ∃ fuel, x.iterate fuel = some visited
  kept : ∀ k, atKey k visited = keptFor mode ds k
  plain : mode = .plain → visited = ds
  ordered : mode ≠ .plain → (visited.map BasicDelta.key).Pairwise KeyLe
  size : visited.length = x.getSize

/-! ### Keys -/

theorem key_of_conflateLevel {kept : Option BasicDelta} {d x : BasicDelta}
    (hkept : ∀ y ∈ kept, y.key = k) (hd : d.key = k) (hx : x ∈ conflateLevel kept d) :
    x.key = k := by
  cases kept with
  | none => cases hx; exact hd
  | some old =>
    have hold := hkept old rfl
    unfold conflateLevel at hx
    cases ha : d.plAction with
    | add =>
      simp only [ha] at hx
      cases hx
      exact hd
    | update =>
      simp only [ha] at hx
      cases hx
      exact hd
    | delete =>
      simp only [ha] at hx
      split at hx
      · cases hx
      · cases hx; exact hold
    | unknown =>
      simp only [ha] at hx
      cases hx
      exact hold

theorem key_of_keptAt (hds : ∀ d ∈ ds, d.key = k) {x : BasicDelta}
    (hx : x ∈ ds.foldl conflateLevel none) : x.key = k := by
  have hfold : ∀ (kept : Option BasicDelta), (∀ y ∈ kept, y.key = k) →
      ∀ y ∈ ds.foldl conflateLevel kept, y.key = k := by
    clear hx
    induction ds with
    | nil => exact fun kept h => h
    | cons d ds ih =>
      intro kept hkept
      exact ih (fun d' hd' => hds d' (mem_cons_of_mem d hd'))
        (conflateLevel kept d) fun y hy =>
          key_of_conflateLevel hkept (hds d mem_cons_self) hy
  exact hfold none (fun y hy => by cases hy) x hx

theorem key_of_atKey : ∀ d ∈ atKey k ds, d.key = k := by
  intro d hd
  exact of_decide_eq_true (mem_filter.mp hd).2

/-! ### Maps of lists -/

def bothSides (v : Sides DeltaListMap) : List BasicDelta :=
  v.bid.values.flatten ++ v.ask.values.flatten

def KeyedLists (v : Sides DeltaListMap) : Prop :=
  ∀ s p ds, (v.get s).find? p = some ds → ∀ d ∈ ds, d.key = (s, p)

def singletons (m : BasicDeltaMap) : DeltaListMap := m.mapVal fun d => [d]

theorem flatten_singletons (m : BasicDeltaMap) : (singletons m).values.flatten = m.values := by
  unfold singletons SortedMap.values SortedMap.mapVal
  rw [map_map]
  induction m.toList with
  | nil => rfl
  | cons a l ih => rw [map_cons, flatten_cons, ih]; rfl

theorem atKey_bothSides {v : Sides DeltaListMap} (h : KeyedLists v) (k : BookSide × Price) :
    atKey k (bothSides v) = ((v.get k.1).find? k.2).getD [] := by
  unfold atKey bothSides
  rw [filter_append, filter_flatten_values v.bid (h .bid), filter_flatten_values v.ask (h .ask)]
  obtain ⟨s, p⟩ := k
  cases s with
  | bid => simp [Sides.get]
  | ask => simp [Sides.get]

theorem ordered_half {v : Sides DeltaListMap} (h : KeyedLists v) (s : BookSide) :
    ((v.get s).values.flatten).Pairwise fun a c => KeyLe a.key c.key := by
  have hkeys : ∀ a ∈ (v.get s).toList, ∀ d ∈ a.2, d.key = (s, a.1) :=
    fun a ha => h s a.1 a.2 (SortedMap.mem_toList.mp ha)
  refine pairwise_flatten.mpr ⟨fun ds hds => ?_, ?_⟩
  · obtain ⟨a, ha, rfl⟩ := mem_map.mp hds
    refine pairwise_of_forall_mem_list fun c hc d hd => ?_
    rw [hkeys a ha c hc, hkeys a ha d hd]
    exact .inr ⟨rfl, le_refl _⟩
  · refine pairwise_map.mpr ((v.get s).sorted.imp_of_mem fun {a c} ha hc hlt => ?_)
    intro d hd e he
    rw [hkeys a ha d hd, hkeys c hc e he]
    exact .inr ⟨rfl, le_of_lt hlt⟩

theorem ordered_bothSides {v : Sides DeltaListMap} (h : KeyedLists v) :
    ((bothSides v).map BasicDelta.key).Pairwise KeyLe := by
  refine pairwise_map.mpr (pairwise_append.mpr
    ⟨ordered_half h .bid, ordered_half h .ask, fun a ha c hc => .inl ⟨?_, ?_⟩⟩)
  · obtain ⟨ds, hds, had⟩ := mem_flatten.mp ha
    obtain ⟨b, hb, rfl⟩ := mem_map.mp hds
    rw [h .bid b.1 b.2 (SortedMap.mem_toList.mp hb) a had]
  · obtain ⟨ds, hds, hcd⟩ := mem_flatten.mp hc
    obtain ⟨b, hb, rfl⟩ := mem_map.mp hds
    rw [h .ask b.1 b.2 (SortedMap.mem_toList.mp hb) c hcd]

/-! ### The count of the entry mode -/

theorem EntryMode.size_add {x : DeltaList} (h : EntryMode x) (d : BasicDelta)
    (hx : x.size = (bothSides x.entryMaps).length + j) :
    (x.add d).size = (bothSides (x.add d).entryMaps).length + j := by
  have hadd : x.add d = { x.conflateEntryDeltas d with
      modSides := (x.conflateEntryDeltas d).modSides.checkSide d.level } := by
    rw [DeltaList.add, if_pos h.keep, if_pos h.conflate, if_pos h.entries]
  have hmap := (x.entryMaps.get d.level.deltaSide).length_flatten_insert d.level.price
    (conflateEntry (((x.entryMaps.get d.level.deltaSide).find? d.level.price).getD []) d)
  -- the deltas of the price are among those counted
  have hle := (x.entryMaps.get d.level.deltaSide).length_flatten_insert d.level.price []
  rw [length_nil] at hle
  rw [hadd]
  unfold bothSides at hx ⊢
  rw [length_append] at hx ⊢
  unfold conflateEntryDeltas
  cases hs : d.level.deltaSide <;>
  · rw [hs] at hmap hle
    simp only [Sides.get, Sides.set, entryMaps, Option.getD_some] at hx hmap hle ⊢
    omega

theorem EntryMode.size_addAll {x : DeltaList} (h : EntryMode x) (ds : List BasicDelta)
    (hx : x.size = (bothSides x.entryMaps).length + j) :
    (x.addAll ds).size = (bothSides (x.addAll ds).entryMaps).length + j := by
  induction ds generalizing x with
  | nil => exact hx
  | cons d ds ih => exact ih (h.add d).1 (h.size_add d hx)

/-! ### Results -/

theorem iterate_unique {visited : List BasicDelta} (h : x.keepDeltas)
    (hends : ∃ fuel, x.iterate fuel = some visited) : visited = x.toList := by
  obtain ⟨fuel, hvisited⟩ := hends
  have hlist : x.iterate (fuel + (x.toList.length + 1)) = some x.toList := iterate_eq h (by omega)
  have hmore : x.iterate (fuel + (x.toList.length + 1)) = some visited := by
    unfold iterate at hvisited ⊢
    split at hvisited
    · exact walk_add hvisited _
    · cases hvisited
  rw [hlist] at hmore
  exact (Option.some.inj hmore).symm

theorem plain_addAll {x : DeltaList} (hkeep : x.keepDeltas) (hplain : x.conflateDeltas = false)
    (ds : List BasicDelta) : (x.addAll ds).keepDeltas ∧ (x.addAll ds).conflateDeltas = false ∧
    (x.addAll ds).deltas = (if ds = [] then x.deltas else some (x.deltas.getD [] ++ ds)) ∧
    (x.addAll ds).size = x.size := by
  induction ds generalizing x with
  | nil => exact ⟨hkeep, hplain, rfl, rfl⟩
  | cons d ds ih =>
    have hone : x.add d = { x with
        deltas := some (x.deltas.getD [] ++ [d]), modSides := x.modSides.checkSide d.level } := by
      rw [add, if_pos hkeep, hplain, if_neg Bool.false_ne_true]
    obtain ⟨h₁, h₂, h₃, h₄⟩ := ih (x := x.add d) (by rw [hone]; exact hkeep)
      (by rw [hone]; exact hplain)
    refine ⟨h₁, h₂, ?_, h₄.trans (by rw [hone])⟩
    show ((x.add d).addAll ds).deltas = _
    rw [h₃, hone, if_neg (cons_ne_nil d ds)]
    by_cases hnil : ds = []
    · rw [if_pos hnil, hnil]
    · rw [if_neg hnil, Option.getD_some, append_assoc]; rfl

theorem kept_plain (junk : Nat) (ds : List BasicDelta) :
    ((start junk .plain).addAll ds).toList = ds ∧ ((start junk .plain).addAll ds).keepDeltas ∧
    (ds.length = ((start junk .plain).addAll ds).getSize ↔ junk = 0 ∨ ds ≠ []) := by
  obtain ⟨hkeep, hplain, hdeltas, hsize⟩ := plain_addAll (x := start junk .plain) rfl rfl ds
  have hlist : (((start junk .plain).addAll ds).deltas).getD [] = ds := by
    rw [hdeltas]
    by_cases hnil : ds = []
    · rw [hnil]; rfl
    · rw [if_neg hnil]; rfl
  refine ⟨?_, hkeep, ?_⟩
  · rw [toList, hplain, if_neg Bool.false_ne_true, hlist]
  rw [getSize, hdeltas]
  by_cases hnil : ds = []
  · rw [hnil]
    constructor
    · exact fun h => .inl h.symm
    · rintro (h | h)
      · exact h.symm
      · exact absurd rfl h
  · rw [if_neg hnil]; exact iff_of_true rfl (.inr hnil)

theorem kept_levels (junk : Nat) (ds : List BasicDelta) :
    (∀ k, atKey k ((start junk .levels).addAll ds).toList = keptFor .levels ds k) ∧
      (((start junk .levels).addAll ds).toList.map BasicDelta.key).Pairwise KeyLe ∧
      ((start junk .levels).addAll ds).keepDeltas ∧
      (((start junk .levels).addAll ds).toList.length = ((start junk .levels).addAll ds).getSize ↔
        junk = 0) := by
  have hmode : LevelMode (start junk .levels) := ⟨rfl, rfl, rfl, rfl⟩
  obtain ⟨hmode', hkept, hsize⟩ := hmode.addAll ds
  have hsize := hsize junk (Nat.zero_add junk).symm
  generalize (start junk .levels).addAll ds = x at hmode' hkept hsize ⊢
  have hkept' : ∀ k, x.keptAt k = (atKey k ds).foldl conflateLevel none := by
    intro k
    rw [hkept]
    cases k with
    | mk s p => cases s <;> rfl
  have hlist : x.toList =
      bothSides ⟨singletons x.levelMaps.bid, singletons x.levelMaps.ask⟩ := by
    unfold toList bothSides
    rw [if_pos hmode'.conflate, hmode'.levels, if_neg Bool.false_ne_true, flatten_singletons,
      flatten_singletons]
  have hfind : ∀ s p,
      (Sides.get ⟨singletons x.levelMaps.bid, singletons x.levelMaps.ask⟩ s).find? p =
      (x.keptAt (s, p)).map fun d => [d] := by
    intro s p
    cases s with
    | bid => exact SortedMap.find?_mapVal x.levelMaps.bid (fun d => [d]) p
    | ask => exact SortedMap.find?_mapVal x.levelMaps.ask (fun d => [d]) p
  have hkeyed : KeyedLists ⟨singletons x.levelMaps.bid, singletons x.levelMaps.ask⟩ := by
    intro s p l hl d hd
    rw [hfind, hkept'] at hl
    obtain ⟨d', hd', rfl⟩ := Option.map_eq_some_iff.mp hl
    rw [mem_singleton.mp hd]
    exact key_of_keptAt key_of_atKey hd'
  rw [hlist]
  refine ⟨fun k => ?_, ordered_bothSides hkeyed, hmode'.keep, ?_⟩
  · rw [atKey_bothSides hkeyed, hfind, hkept']
    show _ = ((atKey k ds).foldl conflateLevel none).toList
    cases (atKey k ds).foldl conflateLevel none <;> rfl
  have hlen : (bothSides ⟨singletons x.levelMaps.bid, singletons x.levelMaps.ask⟩).length =
      x.numKept := by
    rw [bothSides, numKept, flatten_singletons, flatten_singletons, length_append]
    unfold SortedMap.values
    rw [length_map, length_map]
  rw [getSize, hmode'.noDeltas, hlen]
  show x.numKept = x.size ↔ _
  omega

theorem kept_entries (junk : Nat) (ds : List BasicDelta) :
    (∀ k, atKey k ((start junk .entries).addAll ds).toList = keptFor .entries ds k) ∧
      (((start junk .entries).addAll ds).toList.map BasicDelta.key).Pairwise KeyLe ∧
      ((start junk .entries).addAll ds).keepDeltas ∧
      (((start junk .entries).addAll ds).toList.length = ((start junk .entries).addAll ds).getSize ↔
        junk = 0) := by
  have hmode : EntryMode (start junk .entries) := ⟨rfl, rfl, rfl, rfl, rfl⟩
  obtain ⟨hmode', hkept⟩ := hmode.addAll ds
  have hsize := hmode.size_addAll ds (j := junk) (Nat.zero_add junk).symm
  generalize (start junk .entries).addAll ds = x at hmode' hkept hsize ⊢
  have hkept' : ∀ k, x.keptEntries k = (atKey k ds).foldl conflateEntry [] := by
    intro k
    rw [hkept]
    cases k with
    | mk s p => cases s <;> rfl
  have hlist : x.toList = bothSides x.entryMaps := by
    rw [toList, if_pos hmode'.conflate, if_pos hmode'.entries]; rfl
  have hkeyed : KeyedLists x.entryMaps := by
    intro s p l hl d hd
    have hget : x.keptEntries (s, p) = l := by
      rw [keptEntries, hl]; rfl
    rw [← hget, hkept'] at hd
    exact key_of_mem_keptEntries hd
  rw [hlist]
  refine ⟨fun k => ?_, ordered_bothSides hkeyed, hmode'.keep, ?_⟩
  · rw [atKey_bothSides hkeyed]; exact hkept' k
  · rw [getSize, hmode'.noDeltas]
    show _ = x.size ↔ _
    omega

/-- For every sequence of deltas added to a list in each of its modes, the loop from `begin ()` to
`end ()` visits every kept delta once and in order; and `getSize` is their number just where the
constructor found a zero in `mSize`, or the list is plain and something was added. -/
theorem iteratesKept_iff (junk : Nat) (mode : Mode) (ds : List BasicDelta) :
    (∃ visited, IteratesKept mode ds ((start junk mode).addAll ds) visited) ↔
      junk = 0 ∨ (mode = .plain ∧ ds ≠ []) := by
  cases mode with
  | plain =>
    obtain ⟨hlist, hkeep, hsize⟩ := kept_plain junk ds
    constructor
    · rintro ⟨visited, hends, -, -, -, hcount⟩
      rw [iterate_unique hkeep hends, hlist, hsize] at hcount
      exact hcount.imp id fun h => ⟨rfl, h⟩
    · intro h
      refine ⟨ds, ⟨ds.length + 1, ?_⟩, fun k => rfl, fun _ => rfl, fun hne => absurd rfl hne,
        hsize.mpr (h.imp id And.right)⟩
      rw [iterate_eq hkeep (by rw [hlist]; omega), hlist]
  | levels =>
    obtain ⟨hkept, hordered, hkeep, hsize⟩ := kept_levels junk ds
    constructor
    · rintro ⟨visited, hends, -, -, -, hcount⟩
      rw [iterate_unique hkeep hends, hsize] at hcount
      exact .inl hcount
    · rintro (h | ⟨h, -⟩)
      · exact ⟨_, ⟨_, iterate_eq hkeep (Nat.lt_succ_self _)⟩, hkept, nofun,
          fun _ => hordered, hsize.mpr h⟩
      · cases h
  | entries =>
    obtain ⟨hkept, hordered, hkeep, hsize⟩ := kept_entries junk ds
    constructor
    · rintro ⟨visited, hends, -, -, -, hcount⟩
      rw [iterate_unique hkeep hends, hsize] at hcount
      exact .inl hcount
    · rintro (h | ⟨h, -⟩)
      · exact ⟨_, ⟨_, iterate_eq hkeep (Nat.lt_succ_self _)⟩, hkept, nofun,
          fun _ => hordered, hsize.mpr h⟩
      · cases h

/-- In a list that conflates levels and whose constructor found a 5, one delta is counted as six. -/
theorem not_iteratesKept :
    ((start 5 .levels).addAll [bidDelta .add 5]).getSize = 6 ∧
      ¬ ∃ visited, IteratesKept .levels [bidDelta .add 5]
        ((start 5 .levels).addAll [bidDelta .add 5]) visited := by
  obtain ⟨-, -, hkeep, hsize⟩ := kept_levels 5 [bidDelta .add 5]
  refine ⟨rfl, ?_⟩
  rintro ⟨visited, hends, -, -, -, hcount⟩
  rw [iterate_unique hkeep hends] at hcount
  cases hcount

end DeltaList

end Mamda

import OpenMama.Mamda.AddedDeltas
import OpenMama.Mamda.DeltaListIterator

/-!
# What a publisher holds back

From the second delta on a publisher moves to its list, which may have been used
before and conflates if it is set to.  `Publisher.Holds` says that what it holds
back are the deltas of one interval, whatever came before: the list is like one
that was just made and to which these deltas were added (`DeltaList.Alike`).
-/

namespace Mamda

open Mama Lib List

namespace DeltaList

def mode (x : DeltaList) : Mode :=
  if x.conflateDeltas then if x.processEntries then .entries else .levels else .plain

/-- A list that has used the containers of its mode only. -/
def Clean (x : DeltaList) : Prop :=
  match x.mode with
  | .plain => True
  | .levels => x.deltas = none
  | .entries => x.deltas = none ∧ x.levelDeltas = none

/-! ## Lists that hold the same -/

/-- Two lists of one mode that keep their deltas and hold the same. -/
inductive Alike (x y : DeltaList) : Prop
  | plain (hx : x.keepDeltas ∧ x.conflateDeltas = false)
      (hy : y.keepDeltas ∧ y.conflateDeltas = false)
      (h : x.deltas.getD [] = y.deltas.getD [])
  | levels (hx : LevelMode x) (hy : LevelMode y) (h : x.levelMaps = y.levelMaps)
      (hsize : x.size = y.size)
  | entries (hx : EntryMode x) (hy : EntryMode y) (h : x.entryMaps = y.entryMaps)
      (hsize : x.size = y.size)

variable {x y : DeltaList}

theorem add_plain (hx : x.keepDeltas ∧ x.conflateDeltas = false) (d : BasicDelta) :
    x.add d = { x with
      deltas := some (x.deltas.getD [] ++ [d]), modSides := x.modSides.checkSide d.level } := by
  rw [add, if_pos hx.1, hx.2, if_neg Bool.false_ne_true]

theorem LevelMode.add_eq (hx : LevelMode x) (d : BasicDelta) :
    x.add d = { x.conflateLevelDeltas d with
      modSides := (x.conflateLevelDeltas d).modSides.checkSide d.level } := by
  rw [DeltaList.add, if_pos hx.keep, if_pos hx.conflate, hx.levels, if_neg Bool.false_ne_true]

theorem EntryMode.add_eq (hx : EntryMode x) (d : BasicDelta) :
    x.add d = { x.conflateEntryDeltas d with
      modSides := (x.conflateEntryDeltas d).modSides.checkSide d.level } := by
  rw [DeltaList.add, if_pos hx.keep, if_pos hx.conflate, if_pos hx.entries]

theorem Alike.add (h : Alike x y) (d : BasicDelta) : Alike (x.add d) (y.add d) := by
  cases h with
  | plain hx hy h =>
    rw [add_plain hx, add_plain hy]
    exact .plain hx hy (by rw [Option.getD_some, Option.getD_some, h])
  | levels hx hy h hsize =>
    refine .levels (hx.add d).1 (hy.add d).1 ?_ ?_
    · rw [hx.add_eq, hy.add_eq]
      unfold conflateLevelDeltas
      rw [h]
      dsimp only
      cases hf : (y.levelMaps.get d.level.deltaSide).find? d.level.price with
      | none => cases hc : conflateLevel none d <;> rfl
      | some old => cases hc : conflateLevel (some old) d <;> rfl
    rw [hx.add_eq, hy.add_eq]
    unfold conflateLevelDeltas
    rw [h]
    dsimp only
    cases hf : (y.levelMaps.get d.level.deltaSide).find? d.level.price with
    | none =>
      cases hc : conflateLevel none d <;> dsimp only
      · exact hsize
      · rw [hsize]
    | some old =>
      cases hc : conflateLevel (some old) d <;> dsimp only
      · rw [hsize]
      · exact hsize
  | entries hx hy h hsize =>
    refine .entries (hx.add d).1 (hy.add d).1 ?_ ?_
    · rw [hx.add_eq, hy.add_eq]
      rw [conflateEntryDeltas, h]
      rfl
    · rw [hx.add_eq, hy.add_eq]
      unfold conflateEntryDeltas
      rw [h]
      rw [hsize]

theorem Alike.toList (h : Alike x y) : x.toList = y.toList := by
  unfold DeltaList.toList
  cases h with
  | plain hx hy h => rw [hx.2, hy.2, h]; rfl
  | levels hx hy h hsize => rw [hx.conflate, hy.conflate, hx.levels, hy.levels, h]; rfl
  | entries hx hy h hsize => rw [hx.conflate, hy.conflate, hx.entries, hy.entries, h]; rfl

/-! ## Clearing -/

theorem clear_clear (x : DeltaList) : x.clear.clear = x.clear := by
  obtain ⟨keep, conflate, entries, deltas, levels, entryDeltas, sides, send, size⟩ := x
  cases deltas <;> cases levels <;> cases entryDeltas <;> rfl

theorem mode_clear (x : DeltaList) : x.clear.mode = x.mode := by
  unfold clear
  split <;> rfl

theorem Clean.cases (hclean : Clean x) (hkeep : x.keepDeltas) :
    x.mode = .plain ∧ (x.keepDeltas ∧ x.conflateDeltas = false) ∨
      x.mode = .levels ∧ LevelMode x ∨ x.mode = .entries ∧ EntryMode x := by
  unfold Clean mode at *
  cases hc : x.conflateDeltas with
  | false => exact .inl ⟨rfl, hkeep, rfl⟩
  | true =>
    cases he : x.processEntries with
    | false =>
      simp only [hc, he, if_true, Bool.false_eq_true, if_false] at hclean ⊢
      exact .inr (.inl ⟨trivial, hkeep, hc, he, hclean⟩)
    | true =>
      simp only [hc, he, if_true] at hclean ⊢
      exact .inr (.inr ⟨trivial, hkeep, hc, he, hclean.1, hclean.2⟩)

theorem Clean.alike (hclean : Clean x) (hkeep : x.keepDeltas) : Alike x.clear (start 0 x.mode) := by
  rcases hclean.cases hkeep with ⟨hmode, hx⟩ | ⟨hmode, hx⟩ | ⟨hmode, hx⟩
  · rw [hmode]
    obtain ⟨keep, conflate, entries, deltas, levels, entryDeltas, sides, send, size⟩ := x
    obtain ⟨rfl, rfl⟩ := hx
    cases deltas <;> cases levels <;> cases entryDeltas <;>
      exact .plain ⟨rfl, rfl⟩ ⟨rfl, rfl⟩ rfl
  · rw [hmode]
    refine .levels hx.clear.1 ⟨rfl, rfl, rfl, rfl⟩ ?_ hx.clear.2.2.1
    obtain ⟨keep, conflate, entries, deltas, levels, entryDeltas, sides, send, size⟩ := x
    obtain ⟨rfl, rfl, rfl, rfl⟩ := hx
    cases levels <;> cases entryDeltas <;> rfl
  rw [hmode]
  refine .entries hx.clear.1 ⟨rfl, rfl, rfl, rfl, rfl⟩ ?_ ?_
  · obtain ⟨keep, conflate, entries, deltas, levels, entryDeltas, sides, send, size⟩ := x
    obtain ⟨rfl, rfl, rfl, rfl, rfl⟩ := hx
    cases entryDeltas <;> rfl
  · obtain ⟨keep, conflate, entries, deltas, levels, entryDeltas, sides, send, size⟩ := x
    cases entryDeltas <;> rfl

theorem Clean.clear (hclean : Clean x) : Clean x.clear := by
  unfold Clean at *
  rw [mode_clear]
  cases hm : x.mode with
  | plain => trivial
  | levels =>
    simp only [hm] at hclean ⊢
    obtain ⟨keep, conflate, entries, deltas, levels, entryDeltas, sides, send, size⟩ := x
    obtain rfl : deltas = none := hclean
    cases levels <;> cases entryDeltas <;> rfl
  | entries =>
    simp only [hm] at hclean ⊢
    obtain ⟨keep, conflate, entries, deltas, levels, entryDeltas, sides, send, size⟩ := x
    obtain ⟨rfl, rfl⟩ : deltas = none ∧ levels = none := hclean
    cases entryDeltas <;> exact ⟨rfl, rfl⟩

theorem switches_add (x : DeltaList) (d : BasicDelta) : (x.add d).keepDeltas = x.keepDeltas ∧
    (x.add d).conflateDeltas = x.conflateDeltas ∧ (x.add d).processEntries = x.processEntries := by
  have hlevels : (x.conflateLevelDeltas d).keepDeltas = x.keepDeltas ∧
      (x.conflateLevelDeltas d).conflateDeltas = x.conflateDeltas ∧
      (x.conflateLevelDeltas d).processEntries = x.processEntries := by
    unfold conflateLevelDeltas
    dsimp only
    split <;> exact ⟨rfl, rfl, rfl⟩
  unfold add
  split
  · split
    · split
      · exact ⟨rfl, rfl, rfl⟩
      · exact hlevels
    · exact ⟨rfl, rfl, rfl⟩
  · exact ⟨rfl, rfl, rfl⟩

theorem mode_add (x : DeltaList) (d : BasicDelta) : (x.add d).mode = x.mode := by
  unfold mode
  rw [(switches_add x d).2.1, (switches_add x d).2.2]

theorem keepDeltas_clear (x : DeltaList) : x.clear.keepDeltas = x.keepDeltas := by
  unfold clear
  split <;> rfl

theorem Clean.add (hclean : Clean x) (d : BasicDelta) : Clean (x.add d) := by
  cases hkeep : x.keepDeltas with
  | false =>
    have hadd : x.add d = { x with modSides := x.modSides.checkSide d.level } := by
      rw [DeltaList.add, if_neg (by rw [hkeep]; exact Bool.false_ne_true)]
    rwa [hadd]
  | true =>
    rw [Clean, mode_add]
    rcases hclean.cases hkeep with ⟨hmode, hx⟩ | ⟨hmode, hx⟩ | ⟨hmode, hx⟩ <;> rw [hmode]
    · trivial
    · exact (hx.add d).1.noDeltas
    · exact ⟨(hx.add d).1.noDeltas, (hx.add d).1.noLevels⟩

/-! ## The deltas of an interval -/

/-- What handlers are to get of some deltas: the deltas themselves, or what conflating them
leaves. -/
def gathered (mode : Mode) (ds : List BasicDelta) : List BasicDelta :=
  ((start 0 mode).addAll ds).toList

theorem gathered_plain (ds : List BasicDelta) : gathered .plain ds = ds := (kept_plain 0 ds).1

theorem gathered_nil (mode : Mode) : gathered mode [] = [] := by cases mode <;> rfl

theorem gathered_singleton (mode : Mode) (d : BasicDelta) : gathered mode [d] = [d] := by
  have hside : d.level.deltaSide = .bid ∨ d.level.deltaSide = .ask := by
    cases d.level.deltaSide
    · exact .inl rfl
    · exact .inr rfl
  cases mode with
  | plain => rfl
  | levels =>
    have hmode : LevelMode (start 0 .levels) := ⟨rfl, rfl, rfl, rfl⟩
    show ((start 0 .levels).add d).toList = [d]
    rw [hmode.add_eq]
    unfold conflateLevelDeltas
    rcases hside with h | h <;> rw [h] <;> rfl
  | entries =>
    have hmode : EntryMode (start 0 .entries) := ⟨rfl, rfl, rfl, rfl, rfl⟩
    show ((start 0 .entries).add d).toList = [d]
    rw [hmode.add_eq]
    unfold conflateEntryDeltas
    rcases hside with h | h <;> rw [h] <;> rfl

theorem getSize_addAll (mode : Mode) (ds : List BasicDelta) (hmode : mode ≠ .plain) :
    ((start 0 mode).addAll ds).getSize = (gathered mode ds).length := by
  cases mode with
  | plain => exact absurd rfl hmode
  | levels => exact ((kept_levels 0 ds).2.2.2.mpr rfl).symm
  | entries => exact ((kept_entries 0 ds).2.2.2.mpr rfl).symm

theorem Alike.empty {mode : Mode} {ds : List BasicDelta} (h : Alike x ((start 0 mode).addAll ds))
    (hsize : x.getSize = 0) : gathered mode ds = [] := by
  have hlist : x.toList = gathered mode ds := h.toList
  have hconflated : x.deltas = none → ((start 0 mode).addAll ds).deltas = none →
      x.size = ((start 0 mode).addAll ds).size → mode ≠ .plain → gathered mode ds = [] := by
    intro hx hy heq hmode
    have hxsize : x.getSize = x.size := by rw [getSize, hx]
    have hysize : ((start 0 mode).addAll ds).getSize = ((start 0 mode).addAll ds).size := by
      rw [getSize, hy]
    have hlen := getSize_addAll mode ds hmode
    exact length_eq_zero_iff.mp (by omega)
  cases h with
  | plain hx hy h =>
    rw [← hlist]
    unfold getSize at hsize
    rw [DeltaList.toList, hx.2]
    cases hd : x.deltas with
    | none => rfl
    | some l => rw [hd] at hsize; exact length_eq_zero_iff.mp hsize
  | levels hx hy h hsize' =>
    refine hconflated hx.noDeltas hy.noDeltas hsize' ?_
    rintro rfl
    exact absurd hy.conflate (by rw [(plain_addAll rfl rfl ds).2.1]; exact Bool.false_ne_true)
  | entries hx hy h hsize' =>
    refine hconflated hx.noDeltas hy.noDeltas hsize' ?_
    rintro rfl
    exact absurd hy.conflate (by rw [(plain_addAll rfl rfl ds).2.1]; exact Bool.false_ne_true)

end DeltaList

namespace Publisher

variable {x : Publisher} {mode : DeltaList.Mode} {ds : List BasicDelta}

inductive Holds (mode : DeltaList.Mode) (x : Publisher) (ds : List BasicDelta) : Prop
  | none (h : x.currentDeltaCount = 0) (hds : ds = [])
  | one (h : x.currentDeltaCount = 1) (d : BasicDelta) (hsimple : x.simpleDelta = some d)
      (hds : ds = [d])
  | list (h : 1 < x.currentDeltaCount)
      (hlist : x.complexDelta.Alike ((DeltaList.start 0 mode).addAll ds))

section

variable (h : x.Holds mode ds)

include h

theorem Holds.waiting : x.waiting = DeltaList.gathered mode ds := by
  unfold Publisher.waiting
  cases h with
  | none h hds => rw [h, hds, DeltaList.gathered_nil]
  | one h d hsimple hds => rw [h, hsimple, hds, DeltaList.gathered_singleton]
  | list h hlist =>
    obtain ⟨n, hn⟩ := Nat.exists_eq_add_of_lt h
    have hn' : x.currentDeltaCount = n + 2 := by omega
    rw [hn']
    exact hlist.toList

theorem Holds.eq_nil (hcount : x.currentDeltaCount = 0) : ds = [] := by
  cases h with
  | none h hds => exact hds
  | one h d hsimple hds => omega
  | list h hlist => omega

/-- A delta is added to those held back; the list has to be clean for the second, and to keep its
deltas from then on. -/
theorem Holds.addDelta (hclean : x.complexDelta.Clean) (hmode : x.complexDelta.mode = mode)
    (d : BasicDelta) (hkeep : x.complexDelta.keepDeltas ∨ (x.addDelta d).currentDeltaCount ≤ 1) :
    (x.addDelta d).Holds mode (ds ++ [d]) := by
  cases h with
  | none h hds =>
    have hadd : x.addDelta d = { x with currentDeltaCount := 1, simpleDelta := some d } := by
      rw [Publisher.addDelta, h]
    rw [hadd, hds]
    exact .one rfl d rfl rfl
  | one h first hsimple hds =>
    have hadd : x.addDelta d = { x with
        currentDeltaCount := 2
        complexDelta := (x.complexDelta.clear.add first).add d } := by
      rw [Publisher.addDelta, h, hsimple]
    rw [hadd] at hkeep ⊢
    have hkeep := hkeep.resolve_right (by show ¬ 2 ≤ 1; omega)
    subst hmode
    rw [hds]
    exact .list (by show 1 < 2; omega) (((hclean.alike hkeep).add first).add d)
  | list h hlist =>
    obtain ⟨n, hn⟩ := Nat.exists_eq_add_of_lt h
    have hn' : x.currentDeltaCount = n + 2 := by omega
    have hadd : x.addDelta d = { x with
        currentDeltaCount := n + 3, complexDelta := x.complexDelta.add d } := by
      rw [Publisher.addDelta, hn']
    rw [hadd]
    refine .list (by show 1 < n + 3; omega) ?_
    rw [DeltaList.addAll, foldl_append]
    exact hlist.add d

end

/-! ### Adding to a publisher -/

/-- The list of a publisher is set to a mode and has used the containers of that mode only. -/
structure Ready (mode : DeltaList.Mode) (x : Publisher) : Prop where
  clean : x.complexDelta.Clean
  mode : x.complexDelta.mode = mode

theorem Ready.clear (h : x.Ready mode) (n : Nat) :
    Ready mode { x with currentDeltaCount := n, complexDelta := x.complexDelta.clear } :=
  ⟨h.clean.clear, (DeltaList.mode_clear _).trans h.mode⟩

theorem Ready.addDelta (h : x.Ready mode) (d : BasicDelta) : (x.addDelta d).Ready mode := by
  have hclear : (x.complexDelta.clear).Clean ∧ x.complexDelta.clear.mode = mode :=
    ⟨h.clean.clear, (DeltaList.mode_clear _).trans h.mode⟩
  have hadd : ∀ {l : DeltaList}, l.Clean ∧ l.mode = mode → ∀ d, (l.add d).Clean ∧
      (l.add d).mode = mode := fun hl d => ⟨hl.1.add d, (DeltaList.mode_add _ d).trans hl.2⟩
  unfold Publisher.addDelta
  split
  · exact ⟨h.clean, h.mode⟩
  · exact ⟨(hadd (hadd hclear _) d).1, (hadd (hadd hclear _) d).2⟩
  · exact ⟨(hadd hclear d).1, (hadd hclear d).2⟩
  · exact ⟨(hadd ⟨h.clean, h.mode⟩ d).1, (hadd ⟨h.clean, h.mode⟩ d).2⟩

theorem Ready.addAll (h : x.Ready mode) (ds : List BasicDelta) : (x.addAll ds).Ready mode :=
  foldlRecOn ds _ h fun _ hx d _ => hx.addDelta d

theorem count_addDelta (x : Publisher) (d : BasicDelta) :
    (x.addDelta d).currentDeltaCount = x.currentDeltaCount + 1 := by
  unfold Publisher.addDelta
  split
  · next h => rw [h]
  · next h _ => rw [h]
  · next h _ => rw [h]
  · next h => rw [h]

theorem count_addAll (x : Publisher) (ds : List BasicDelta) :
    (x.addAll ds).currentDeltaCount = x.currentDeltaCount + ds.length := by
  induction ds generalizing x with
  | nil => rfl
  | cons d ds ih =>
    show ((x.addDelta d).addAll ds).currentDeltaCount = _
    rw [ih, count_addDelta, length_cons]
    omega

theorem keepDeltas_addDelta (x : Publisher) (d : BasicDelta) :
    (x.addDelta d).complexDelta.keepDeltas = x.complexDelta.keepDeltas := by
  unfold Publisher.addDelta
  split
  · rfl
  · exact (DeltaList.switches_add _ d).1.trans
      ((DeltaList.switches_add _ _).1.trans (DeltaList.keepDeltas_clear _))
  · exact (DeltaList.switches_add _ d).1.trans (DeltaList.keepDeltas_clear _)
  · exact (DeltaList.switches_add _ d).1

theorem keepDeltas_addAll (x : Publisher) (ds : List BasicDelta) :
    (x.addAll ds).complexDelta.keepDeltas = x.complexDelta.keepDeltas :=
  foldlRecOn (motive := (·.complexDelta.keepDeltas = x.complexDelta.keepDeltas)) ds _ rfl
    fun y hy d _ => (keepDeltas_addDelta y d).trans hy

/-- **Adding an interval's deltas.** -/
theorem Holds.addAll (h : x.Holds mode ds) (hready : x.Ready mode) (more : List BasicDelta)
    (hkeep : x.complexDelta.keepDeltas ∨ (x.addAll more).currentDeltaCount ≤ 1) :
    (x.addAll more).Holds mode (ds ++ more) := by
  induction more generalizing x ds with
  | nil => rwa [append_nil]
  | cons d more ih =>
    have hkeep' : x.complexDelta.keepDeltas ∨ (x.addDelta d).currentDeltaCount ≤ 1 := by
      refine hkeep.imp_right fun hcount => ?_
      rw [count_addAll, length_cons] at hcount
      rw [count_addDelta]
      omega
    have hnext := ih (h.addDelta hready.clean hready.mode d hkeep') (hready.addDelta d)
      (by rw [keepDeltas_addDelta]; exact hkeep)
    rwa [append_assoc] at hnext

end Publisher

end Mamda

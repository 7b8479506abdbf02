import OpenMama.Mamda.OrderBook

/-!
# The deltas that a publisher holds

`addDelta` keeps the first delta apart and moves to a list with the second
(`Publisher.addDelta`).  `Publisher.waiting` is what a handler would be given, and
`Publisher.Collects.addDelta` says that a delta always comes after those that wait.
-/

namespace Mamda

open Mama Lib

/-- The deltas that wait for the handlers: the simple one, or the list from the second on. -/
def Publisher.waiting (x : Publisher) : List BasicDelta :=
  match x.currentDeltaCount, x.simpleDelta with
  | 0, _ => []
  | 1, some d => [d]
  | 1, none => []
  | _ + 2, _ => x.complexDelta.toList

variable {l : DeltaList} {x : Publisher}

theorem DeltaList.toList_add (hkeeps : l.keepDeltas) (hplain : l.conflateDeltas = false)
    (d : BasicDelta) : (l.add d).toList = l.toList ++ [d] ∧ (l.add d).keepDeltas ∧
      (l.add d).conflateDeltas = false := by
  refine ⟨?_, ?_, ?_⟩ <;> simp [DeltaList.add, DeltaList.toList, hkeeps, hplain]

theorem DeltaList.toList_clear (hplain : l.conflateDeltas = false) :
    l.clear.toList = [] ∧ l.clear.keepDeltas = l.keepDeltas ∧ l.clear.conflateDeltas = false := by
  unfold DeltaList.clear DeltaList.toList
  split <;> simp_all

/-- The list of deltas is a plain one, and a delta that is kept apart is there. -/
structure Publisher.Collects (x : Publisher) : Prop where
  keeps : x.complexDelta.keepDeltas
  plain : x.complexDelta.conflateDeltas = false
  simple : x.currentDeltaCount = 1 → x.simpleDelta ≠ none

theorem Publisher.Collects.addDelta (h : x.Collects) (d : BasicDelta) :
    (x.addDelta d).Collects ∧ (x.addDelta d).waiting = x.waiting ++ [d] := by
  obtain ⟨hkeeps, hplain, hsimple⟩ := h
  obtain ⟨hclear, hclearKeeps, hclearPlain⟩ := DeltaList.toList_clear hplain
  rw [hkeeps] at hclearKeeps
  cases hn : x.currentDeltaCount with
  | zero => refine ⟨⟨?_, ?_, ?_⟩, ?_⟩ <;> simp [Publisher.addDelta, waiting, hn, hkeeps, hplain]
  | succ n =>
    cases n with
    | zero =>
      obtain ⟨first, hfirst⟩ := Option.ne_none_iff_exists'.mp (hsimple hn)
      obtain ⟨h₁, h₂, h₃⟩ := DeltaList.toList_add hclearKeeps hclearPlain first
      obtain ⟨h₄, h₅, h₆⟩ := DeltaList.toList_add h₂ h₃ d
      refine ⟨⟨?_, ?_, ?_⟩, ?_⟩ <;>
        simp [Publisher.addDelta, waiting, hn, hfirst, h₁, h₄, h₅, h₆, hclear]
    | succ n =>
      obtain ⟨h₄, h₅, h₆⟩ := DeltaList.toList_add hkeeps hplain d
      refine ⟨⟨?_, ?_, ?_⟩, ?_⟩ <;> simp [Publisher.addDelta, waiting, hn, h₄, h₅, h₆]

theorem Publisher.Collects.restart (h : x.Collects) :
    ({ x with currentDeltaCount := 0 } : Publisher).Collects :=
  ⟨h.keeps, h.plain, fun hn => by cases hn⟩

theorem Publisher.Collects.clearList (h : x.Collects) :
    ({ x with complexDelta := x.complexDelta.clear } : Publisher).Collects := by
  obtain ⟨-, hkeeps, hplain⟩ := DeltaList.toList_clear h.plain
  exact ⟨hkeeps.trans h.keeps, hplain, h.simple⟩

end Mamda

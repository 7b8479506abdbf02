import OpenMama.Mamda.OrderBookEntries

/-!
# The levels a book holds

`AllLevels P b`: every level in the maps of the book satisfies `P`, which may
speak of the half of the book and the price the level is kept under.  An
operation reaches the maps through `putLevel`, `eraseLevel` and `mapVal` only,
and each of them has its rule here; an invariant of the levels is then a
predicate `P` and one application of a rule for each place that writes a map.
-/

namespace Mamda

open Mama Lib Option

namespace Book

/-! ## Lookup after a write -/

theorem findLevel_putLevel (b : Book) (s t : BookSide) (p q : Price) (l : PriceLevel) :
    (b.putLevel (.limit s p) l).findLevel t q =
      if t = s ∧ q = p then some l else b.findLevel t q := by
  show ((b.levels.set s ((b.levels.get s).insert p l)).get t).find? q = _
  rw [Sides.get_set]
  by_cases hs : t = s
  · subst hs
    rw [if_pos rfl, SortedMap.find?_insert]
    by_cases hp : q = p
    · rw [if_pos hp, if_pos ⟨rfl, hp⟩]
    · rw [if_neg hp, if_neg (fun h => hp h.2)]
      rfl
  · rw [if_neg hs, if_neg (fun h => hs h.1)]
    rfl

@[simp] theorem findLevel_putLevel_self (b : Book) (s : BookSide) (p : Price) (l : PriceLevel) :
    (b.putLevel (.limit s p) l).findLevel s p = some l := by
  rw [findLevel_putLevel, if_pos ⟨rfl, rfl⟩]

theorem findLevel_eraseLevel (b : Book) (s t : BookSide) (p q : Price) :
    (b.eraseLevel s p).findLevel t q = if t = s ∧ q = p then none else b.findLevel t q := by
  show ((b.levels.set s ((b.levels.get s).erase p)).get t).find? q = _
  rw [Sides.get_set]
  by_cases hs : t = s
  · subst hs
    rw [if_pos rfl, SortedMap.find?_erase]
    by_cases hp : q = p
    · rw [if_pos hp, if_pos ⟨rfl, hp⟩]
    · rw [if_neg hp, if_neg (fun h => hp h.2)]
      rfl
  · rw [if_neg hs, if_neg (fun h => hs h.1)]
    rfl

/-! ## A property of every level -/

/-- Every level in the maps satisfies `P`. -/
def AllLevels (P : BookSide → Price → PriceLevel → Prop) (b : Book) : Prop :=
  ∀ s p l, b.findLevel s p = some l → P s p l

variable {l : PriceLevel} {p : Price} {s : BookSide}

section AllLevels

variable {P : BookSide → Price → PriceLevel → Prop} {b : Book}

section

variable (h : AllLevels P b)

include h

theorem AllLevels.putLevel (hl : P s p l) : AllLevels P (b.putLevel (.limit s p) l) := by
  intro t q l' hf
  rw [findLevel_putLevel] at hf
  split at hf
  · next heq =>
    obtain ⟨rfl, rfl⟩ := heq
    rwa [← some.inj hf]
  · exact h t q l' hf

theorem AllLevels.eraseLevel (s : BookSide) (p : Price) : AllLevels P (b.eraseLevel s p) := by
  intro t q l' hf
  rw [findLevel_eraseLevel] at hf
  split at hf
  · cases hf
  · exact h t q l' hf

theorem AllLevels.detachLevel (l : PriceLevel) : AllLevels P (b.detachLevel l) := by
  unfold Book.detachLevel
  split
  · exact h
  · exact h
  · split
    · exact h
    · exact h.eraseLevel _ _

theorem AllLevels.mapVal {Q : BookSide → Price → PriceLevel → Prop}
    (f : PriceLevel → PriceLevel) (hf : ∀ s p l, P s p l → Q s p (f l)) {b' : Book}
    (hb : b'.levels = ⟨b.levels.bid.mapVal f, b.levels.ask.mapVal f⟩) : AllLevels Q b' := by
  intro s p l hl
  have hfind : b'.findLevel s p = (b.findLevel s p).map f := by
    show (b'.levels.get s).find? p = ((b.levels.get s).find? p).map f
    rw [hb]
    cases s <;> exact SortedMap.find?_mapVal _ _ _
  rw [hfind, map_eq_some_iff] at hl
  obtain ⟨l₀, h₀, rfl⟩ := hl
  exact hf s p l₀ (h s p l₀ h₀)

end

theorem allLevels_of_toList (hbid : ∀ a ∈ b.levels.bid.toList, P .bid a.1 a.2)
    (hask : ∀ a ∈ b.levels.ask.toList, P .ask a.1 a.2) : AllLevels P b := by
  intro s p l hl
  cases s with
  | bid => exact hbid (p, l) (SortedMap.mem_toList.mpr hl)
  | ask => exact hask (p, l) (SortedMap.mem_toList.mpr hl)

theorem allLevels_of_empty (hb : b.levels = ⟨.empty, .empty⟩) : AllLevels P b := by
  intro s p l hl
  unfold findLevel at hl
  rw [hb, Sides.get_mk] at hl
  cases hl

end AllLevels

/-! ## Following a pointer to an entry -/

def levelAt (b : Book) : LevelPos → Option PriceLevel
  | .limit s p => b.findLevel s p
  | .market s => b.marketOrders.get s

variable {e : Entry} {ref : Ref}

theorem locateIn_spec {m : PlMap} (h : locateIn m ref = some (p, l, e)) :
    m.find? p = some l ∧ l.entryList.find? (·.ref == ref) = some e := by
  obtain ⟨⟨p', l'⟩, hmem, hfind⟩ := List.exists_of_findSome?_eq_some h
  rw [map_eq_some_iff] at hfind
  obtain ⟨e', he, heq⟩ := hfind
  cases heq
  exact ⟨SortedMap.mem_toList.mp hmem, he⟩

/-- What `locate` finds is in the book, and the entry is the first of its level at that
address. -/
theorem locate_spec {b : Book} {pos : LevelPos} (h : b.locate ref = some (pos, l, e)) :
    b.levelAt pos = some l ∧ l.entryList.find? (·.ref == ref) = some e := by
  unfold locate at h
  split at h
  · next hbid => cases h; exact locateIn_spec hbid
  · next hask => cases h; exact locateIn_spec hask
  · rw [or_eq_some_iff] at h
    rcases h with h | ⟨_, h⟩ <;>
    · simp only [bind_eq_bind, bind_eq_some_iff] at h
      obtain ⟨l', hl, e', he, rfl, rfl, rfl⟩ := h
      exact ⟨hl, he⟩

theorem locate_ne_none {b : Book} (hl : b.findLevel s p = some l) (he : e ∈ l.entryList) :
    b.locate e.ref ≠ none := by
  have hin : locateIn (b.levels.get s) e.ref ≠ none := by
    intro hnone
    have hno := List.findSome?_eq_none_iff.mp hnone (p, l) (SortedMap.mem_toList.mpr hl)
    rw [map_eq_none_iff, List.find?_eq_none] at hno
    exact hno e he (by simp)
  unfold locate
  cases s with
  | bid =>
    cases hb : locateIn b.levels.bid e.ref with
    | none => exact absurd hb hin
    | some x => simp
  | ask =>
    cases ha : locateIn b.levels.ask e.ref with
    | none => exact absurd ha hin
    | some x => cases hb : locateIn b.levels.bid e.ref <;> simp

end Book

end Mamda

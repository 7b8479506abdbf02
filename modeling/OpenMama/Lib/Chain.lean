import Mathlib.Data.List.Nodup
import Mathlib.Data.List.Perm.Subperm

/-!
# Linked chains

A cell at an address holds a value and the address of the next cell.  `Chain` says that
following the cells from an address visits a list of them and then ends; what is read
determines that list (`Chain.unique`), so no address comes twice (`Chain.nodup`).
The rules say what is left of a chain when one cell is written.
-/

namespace Lib

open List Function

variable {α β : Type}

/-- From `p` the cells are visited in turn, and `q` comes after the last. -/
def Segment (read : α → Option (β × Option α)) : Option α → List (α × β) → Option α → Prop
  | p, [], q => p = q
  | p, (a, v) :: cells, q =>
    p = some a ∧ ∃ next, read a = some (v, next) ∧ Segment read next cells q

/-- From `p` the cells are visited in turn, and there is no further one. -/
def Chain (read : α → Option (β × Option α)) (p : Option α) (cells : List (α × β)) : Prop :=
  Segment read p cells none

/-- The address of the first cell, or what comes after no cells. -/
def start (cells : List (α × β)) (q : Option α) : Option α :=
  match cells with
  | [] => q
  | (a, _) :: _ => some a

variable {read read' : α → Option (β × Option α)} {p q : Option α} {xs ys cells : List (α × β)}

@[simp] theorem start_nil (q : Option α) : start ([] : List (α × β)) q = q := rfl

@[simp] theorem start_cons (c : α × β) (cells : List (α × β)) (q : Option α) :
    start (c :: cells) q = some c.1 := rfl

@[simp] theorem segment_nil : Segment read p [] q ↔ p = q := Iff.rfl

@[simp] theorem chain_nil : Chain read p [] ↔ p = none := Iff.rfl

theorem Segment.start_eq (h : Segment read p cells q) : p = start cells q := by
  cases cells with
  | nil => exact h
  | cons c cells => exact h.1

theorem segment_append : Segment read p (xs ++ ys) q ↔ Segment read p xs (start ys q) ∧
    Segment read (start ys q) ys q := by
  induction xs generalizing p with
  | nil =>
    constructor
    · intro h
      have hp := Segment.start_eq h
      exact ⟨hp, hp ▸ h⟩
    · rintro ⟨hp, h⟩
      rwa [hp]
  | cons c xs ih =>
    constructor
    · rintro ⟨hp, next, hread, hrest⟩
      obtain ⟨hxs, hys⟩ := ih.1 hrest
      exact ⟨⟨hp, next, hread, hxs⟩, hys⟩
    · rintro ⟨⟨hp, next, hread, hxs⟩, hys⟩; exact ⟨hp, next, hread, ih.2 ⟨hxs, hys⟩⟩

theorem Chain.suffix (h : Chain read p (xs ++ ys)) : Chain read (start ys none) ys :=
  (segment_append.1 h).2

theorem Chain.read_eq {a : α} {v : β} (h : Chain read p (xs ++ (a, v) :: ys)) :
    read a = some (v, start ys none) := by
  obtain ⟨-, next, hread, hrest⟩ := h.suffix
  rw [hread, hrest.start_eq]

theorem Chain.read_isSome (h : Chain read p cells) {c : α × β} (hc : c ∈ cells) :
    ∃ next, read c.1 = some (c.2, next) := by
  obtain ⟨xs, ys, rfl⟩ := append_of_mem hc
  exact ⟨_, h.read_eq⟩

theorem Chain.unique (h : Chain read p xs) (h' : Chain read p ys) : xs = ys := by
  induction xs generalizing p ys with
  | nil =>
    cases ys with
    | nil => rfl
    | cons c ys => rw [h] at h'; exact absurd h'.1 (by simp)
  | cons c xs ih =>
    obtain ⟨hp, next, hread, hrest⟩ := h
    cases ys with
    | nil => rw [hp] at h'; cases h'
    | cons c' ys =>
      obtain ⟨hp', next', hread', hrest'⟩ := h'
      have haddr : c.1 = c'.1 := by simpa using hp.symm.trans hp'
      rw [haddr, hread', Option.some.injEq, Prod.mk.injEq] at hread
      obtain ⟨hval, hnext⟩ := hread
      rw [ih hrest (hnext ▸ hrest'), Prod.ext haddr hval.symm]

theorem Chain.nodup (h : Chain read p cells) : (cells.map Prod.fst).Nodup := by
  induction cells generalizing p with
  | nil => exact nodup_nil
  | cons c cells ih =>
    obtain ⟨hp, next, hread, hrest⟩ := h
    rw [map_cons, nodup_cons]
    refine ⟨fun hmem => ?_, ih hrest⟩
    obtain ⟨c', hc', haddr⟩ := List.mem_map.1 hmem
    obtain ⟨xs, ys, rfl⟩ := append_of_mem hc'
    -- The chain from that address is a part of itself.
    have hlater : Chain read (some c.1) (c' :: ys) := by
      rw [← haddr]; exact Chain.suffix hrest
    have hnow : Chain read (some c.1) (c :: (xs ++ c' :: ys)) := ⟨rfl, next, hread, hrest⟩
    have hlen := congrArg List.length (hlater.unique hnow)
    simp only [length_cons, length_append] at hlen
    omega

theorem Chain.ne_of_mem {a : α} {v : β} (h : Chain read p (xs ++ (a, v) :: ys)) (c : α × β)
    (hc : c ∈ xs ∨ c ∈ ys) : c.1 ≠ a := by
  have hnodup := h.nodup
  rw [map_append, map_cons, nodup_middle, nodup_cons, ← map_append] at hnodup
  intro hca
  have hmem : c.1 ∈ (xs ++ ys).map Prod.fst := mem_map_of_mem (List.mem_append.2 hc)
  rw [hca] at hmem
  exact hnodup.1 hmem

theorem Segment.congr (h : Segment read p cells q) (hread : ∀ c ∈ cells, read' c.1 = read c.1) :
    Segment read' p cells q := by
  induction cells generalizing p with
  | nil => exact h
  | cons c cells ih =>
    obtain ⟨hp, next, hc, hrest⟩ := h
    refine ⟨hp, next, ?_, ih hrest fun c' hc' => hread c' (mem_cons_of_mem c hc')⟩
    rwa [hread c mem_cons_self]

theorem Chain.congr (h : Chain read p cells) (hread : ∀ c ∈ cells, read' c.1 = read c.1) :
    Chain read' p cells := Segment.congr h hread

theorem Chain.length_le {read : Nat → Option (β × Option Nat)} {p : Option Nat}
    {cells : List (Nat × β)} (h : Chain read p cells) {top : Nat}
    (htop : ∀ c ∈ cells, c.1 < top) : cells.length ≤ top := by
  have hsub : cells.map Prod.fst ⊆ List.range top := by
    intro a ha
    obtain ⟨c, hc, rfl⟩ := List.mem_map.1 ha
    exact List.mem_range.2 (htop c hc)
  have hle := (h.nodup.subperm hsub).length_le
  rwa [length_map, length_range] at hle

section Write

variable [DecidableEq α] {a : α} {v w : β} {next : Option α}

theorem Chain.write_off {c : Option (β × Option α)} (h : Chain read p cells)
    (ha : a ∉ cells.map Prod.fst) : Chain (Function.update read a c) p cells := by
  refine h.congr fun b hb => update_of_ne ?_ _ _
  rintro hba
  exact ha (hba ▸ mem_map_of_mem hb)

theorem Chain.write_value (h : Chain read p (xs ++ (a, v) :: ys)) :
    Chain (Function.update read a (some (w, start ys none))) p (xs ++ (a, w) :: ys) := by
  have hne := h.ne_of_mem
  obtain ⟨hxs, -, next, hread, hrest⟩ := segment_append.1 h
  refine segment_append.2 ⟨hxs.congr fun c hc => ?_, rfl, next, ?_, hrest.congr fun c hc => ?_⟩
  · exact update_of_ne (hne c (.inl hc)) _ _
  · rw [update_self, hrest.start_eq]
  · exact update_of_ne (hne c (.inr hc)) _ _

theorem Chain.unlink {b : α} {u : β} (h : Chain read p (xs ++ (b, u) :: (a, v) :: ys)) :
    Chain (Function.update read b (some (u, start ys none))) p (xs ++ (b, u) :: ys) := by
  have hne := h.ne_of_mem
  obtain ⟨hxs, -, next, hread, -, next', hread', hrest⟩ := segment_append.1 h
  refine segment_append.2 ⟨hxs.congr fun c hc => ?_, rfl, next', ?_, hrest.congr fun c hc => ?_⟩
  · exact update_of_ne (hne c (.inl hc)) _ _
  · rw [update_self, hrest.start_eq]
  · exact update_of_ne (hne c (.inr (mem_cons_of_mem _ hc))) _ _

end Write

/-! ## Chains without values -/

/-- From `p` the addresses are visited in turn, and there is no further one. -/
def Path (next : α → Option α) (p : Option α) (l : List α) : Prop :=
  Chain (fun a => some ((), next a)) p (l.map fun a => (a, ()))

section Path

variable {next next' : α → Option α} {l : List α} {a : α}

@[simp] theorem path_nil : Path next p [] ↔ p = none := Iff.rfl

theorem path_cons : Path next p (a :: l) ↔ p = some a ∧ Path next (next a) l := by
  constructor
  · rintro ⟨hp, n, hread, hrest⟩
    obtain ⟨-, rfl⟩ := hread
    exact ⟨hp, hrest⟩
  · rintro ⟨hp, hrest⟩; exact ⟨hp, next a, rfl, hrest⟩

theorem Path.congr (h : Path next p l) (hnext : ∀ a ∈ l, next' a = next a) : Path next' p l := by
  refine Chain.congr h fun c hc => ?_
  obtain ⟨a, ha, rfl⟩ := List.mem_map.1 hc
  rw [hnext a ha]

end Path

end Lib

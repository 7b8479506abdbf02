import OpenMama.Lib.Doubles
import OpenMama.Mamda.Aggregation

/-!
# Quantities

The sizes of entries and levels are doubles.  When a level loses an entry or is given another
size, `mama_isQuantityNone` makes zero of everything below `MAMA_QUANTITY_EPSILON`, the negative
sizes too.  `Sizes` is what a level keeps of its sizes when every sum is rounded.

`PriceLevel` counts units: where all sizes are whole multiples of a unit that is not below the
epsilon and no sum is rounded (`Exact`), the operations of the two are the same
(`sizes_addEntry` … `sizes_reevaluate`).  With a negative size (`negative_size_dropped`) or a sum
that is rounded (`rounded_size_left`) the size of a level is not that of its entries.
-/

namespace Mamda

open Mama Lib List

/-- `MAMA_QUANTITY_EPSILON`. -/
def quantityEpsilon : ℚ := 1 / 10 ^ 11

/-- `mama_isQuantityNone`. -/
def isQuantityNone (q : ℚ) : Bool := q < quantityEpsilon

/-- `mama_isQuantityEqual`. -/
def isQuantityEqual (lhs rhs : ℚ) : Bool :=
  if lhs < rhs then rhs - lhs < quantityEpsilon else lhs - rhs < quantityEpsilon

def noneToZero (q : ℚ) : ℚ := if isQuantityNone q then 0 else q

/-- The size of a level and those of its entries, which are named by their addresses. -/
structure Sizes where
  size : ℚ := 0
  entries : List (Ref × ℚ) := []
  deriving DecidableEq

namespace Sizes

variable (round : ℚ → ℚ) (counts : Ref → Bool) (x : Sizes)

def addEntry (ref : Ref) (n : ℚ) : Sizes where
  size := if counts ref then round (x.size + n) else x.size
  entries := x.entries ++ [(ref, n)]

/-- What `eraseEntryByIterator` leaves of the size. -/
def uncount (counted : Bool) (size n : ℚ) : ℚ :=
  if counted then noneToZero (round (size - n)) else size

/-- `removeEntry`. -/
def removeEntry (ref : Ref) : Sizes :=
  match x.entries.find? (·.1 == ref) with
  | none => x
  | some e => ⟨uncount round (counts e.1) x.size e.2, x.entries.eraseP (·.1 == ref)⟩

/-- `updateEntry` of the book. -/
def updateEntry (ref : Ref) (n : ℚ) : Sizes :=
  match x.entries.find? (·.1 == ref) with
  | none => x
  | some e =>
    { size := if n ≠ e.2 ∧ counts e.1 then noneToZero (round (x.size + round (n - e.2))) else x.size
      entries := updateFirst (·.1 == ref) (fun e => (e.1, n)) x.entries }

def reevaluate : Sizes :=
  if x.entries = [] then x
  else
    let size := (x.entries.filter (counts ·.1)).foldl (fun size e => round (size + e.2)) 0
    { x with size := if isQuantityEqual x.size size then x.size else size }

/-- The sum of the sizes that count. -/
def total : ℚ := ((x.entries.filter (counts ·.1)).map Prod.snd).sum

end Sizes

/-! ## Units -/

/-- The sizes of a level that counts in units of `u`. -/
def PriceLevel.sizes (u : ℚ) (l : PriceLevel) : Sizes :=
  ⟨u * l.size, l.entryList.map fun e => (e.ref, u * e.size)⟩

/-- Up to `bound` units nothing is rounded, and one of them is not none. -/
structure Exact (round : ℚ → ℚ) (u : ℚ) (bound : Nat) : Prop where
  unit : quantityEpsilon ≤ u
  round : ∀ z : ℤ, z.natAbs ≤ bound → round (u * z) = u * z

theorem quantityEpsilon_pos : 0 < quantityEpsilon := by
  unfold quantityEpsilon
  norm_num

section

variable {round : ℚ → ℚ} {u : ℚ} {bound : Nat} {counts : Entry → Bool} {visible : Ref → Bool}
  {l : PriceLevel} {e : Entry}

theorem noneToZero_units (hu : quantityEpsilon ≤ u) (z : ℤ) :
    noneToZero (u * z) = u * z.toNat := by
  have hpos : 0 < u := quantityEpsilon_pos.trans_le hu
  unfold noneToZero isQuantityNone
  rcases le_or_gt z 0 with hz | hz
  · have hnonpos : u * z ≤ 0 := mul_nonpos_of_nonneg_of_nonpos hpos.le (by exact_mod_cast hz)
    rw [if_pos (by simpa using hnonpos.trans_lt quantityEpsilon_pos), Int.toNat_of_nonpos hz]
    simp
  · have hone : u ≤ u * z := le_mul_of_one_le_right hpos.le (by exact_mod_cast hz)
    have hcast : ((z.toNat : ℤ) : ℚ) = z := by rw [Int.toNat_of_nonneg hz.le]
    rw [if_neg (by simpa using hu.trans hone), ← hcast]
    rfl

theorem isQuantityEqual_units (hu : quantityEpsilon ≤ u) (m n : Nat) :
    isQuantityEqual (u * m) (u * n) ↔ m = n := by
  have hpos : 0 < u := quantityEpsilon_pos.trans_le hu
  have hfar : ∀ a b : Nat, a < b → u ≤ u * b - u * a := by
    intro a b hab
    have hle : (a : ℚ) + 1 ≤ b := by exact_mod_cast hab
    nlinarith
  unfold isQuantityEqual
  rcases lt_trichotomy m n with hlt | rfl | hlt
  · have hlt' : u * m < u * n := mul_lt_mul_of_pos_left (by exact_mod_cast hlt) hpos
    rw [if_pos hlt', decide_eq_true_iff]
    exact ⟨fun h => absurd (hfar m n hlt) (not_le.mpr (h.trans_le hu)), fun h => absurd h hlt.ne⟩
  · simp [quantityEpsilon_pos]
  · have hlt' : u * n < u * m := mul_lt_mul_of_pos_left (by exact_mod_cast hlt) hpos
    rw [if_neg (not_lt.mpr hlt'.le), decide_eq_true_iff]
    exact ⟨fun h => absurd (hfar n m hlt) (not_le.mpr (h.trans_le hu)), fun h => absurd h hlt.ne'⟩

variable (h : Exact round u bound)

include h

theorem sizes_addEntry (hc : counts e = visible e.ref) (hle : l.size + e.size ≤ bound) :
    (l.addEntry counts e).sizes u = (l.sizes u).addEntry round visible e.ref (u * e.size) := by
  have hround := h.round (l.size + e.size) (by omega)
  push_cast at hround
  unfold PriceLevel.sizes Sizes.addEntry
  congr 1
  · show u * ((if counts e then l.size + e.size else l.size : Nat) : ℚ) = _
    rw [hc]
    split
    · dsimp only
      rw [← mul_add, hround]
      push_cast
      rfl
    · rfl
  · show map _ (l.entryList ++ [_]) = _
    rw [map_append]
    rfl

theorem uncount_units {m n : Nat} (hm : m ≤ bound) (hn : n ≤ bound) (counted : Bool) :
    Sizes.uncount round counted (u * m) (u * n) = u * (if counted then m - n else m : Nat) := by
  have hround := h.round ((m : ℤ) - n) (by omega)
  push_cast at hround
  unfold Sizes.uncount
  split
  · have hz := noneToZero_units h.unit ((m : ℤ) - n)
    push_cast at hz
    rw [← mul_sub, hround, hz, Int.toNat_sub]
  · rfl

theorem sizes_removeEntry (hc : ∀ e ∈ l.entryList, counts e = visible e.ref)
    (hsize : l.size ≤ bound) (hsizes : ∀ e ∈ l.entryList, e.size ≤ bound) (ref : Ref) :
    (l.removeEntry counts ref).sizes u = (l.sizes u).removeEntry round visible ref := by
  have hfind : (l.sizes u).entries.find? (·.1 == ref) =
      (l.entryList.find? (·.ref == ref)).map fun e => (e.ref, u * e.size) := find?_map
  unfold PriceLevel.removeEntry PriceLevel.eraseEntryByIterator Sizes.removeEntry
  rw [hfind]
  cases hf : l.entryList.find? (·.ref == ref) with
  | none => rfl
  | some e =>
    have hmem := mem_of_find?_eq_some hf
    have huncount := uncount_units h hsize (hsizes e hmem) (visible e.ref)
    show Sizes.mk (u * ((if counts e then l.size - e.size else l.size : Nat) : ℚ))
        (map _ (l.entryList.eraseP _)) = _
    rw [hc e hmem, ← huncount]
    exact congrArg (Sizes.mk _) (eraseP_map (f := fun e : Entry => (e.ref, u * (e.size : ℚ)))
      (p := (·.1 == ref))).symm

/-- `deleteEntriesFromSource` erases one entry after the other. -/
theorem size_uncount_foldl (es : List Entry) (hsize : l.size ≤ bound)
    (hsizes : ∀ e ∈ es, e.size ≤ bound) :
    u * (es.foldl (PriceLevel.uncountEntry counts) l).size =
      es.foldl (fun size e => Sizes.uncount round (counts e) size (u * e.size)) (u * l.size) := by
  induction es generalizing l with
  | nil => rfl
  | cons e es ih =>
    have huncount := uncount_units h hsize (hsizes e mem_cons_self) (counts e)
    rw [foldl_cons, foldl_cons, huncount]
    refine ih ?_ fun e' he' => hsizes e' (mem_cons_of_mem _ he')
    show (if counts e then l.size - e.size else l.size) ≤ bound
    split <;> omega

theorem sizes_updatedLevel {b : Book} (hc : b.seesEntry e = visible e.ref)
    (hf : l.entryList.find? (·.ref == e.ref) = some e) {n : Nat}
    (hsize : l.size + n ≤ bound) (hold : e.size ≤ bound) (t : DateTime) :
    (b.updatedLevel l e n t).sizes u = (l.sizes u).updateEntry round visible e.ref (u * n) := by
  have hpos : 0 < u := quantityEpsilon_pos.trans_le h.unit
  have hfind : (l.sizes u).entries.find? (·.1 == e.ref) = some (e.ref, u * e.size) := by
    show (l.entryList.map _).find? _ = _
    rw [find?_map]
    exact congrArg (Option.map _) hf
  have hentries : (l.entryList.map fun e => (e.ref, u * (e.size : ℚ))) = (l.sizes u).entries := rfl
  unfold Sizes.updateEntry
  rw [hfind]
  unfold PriceLevel.sizes
  rw [size_updatedLevel, entryList_updatedLevel]
  congr 1
  · have hne : u * (n : ℚ) ≠ u * e.size ↔ n ≠ e.size := by
      rw [ne_eq, mul_right_inj' hpos.ne']
      exact_mod_cast Iff.rfl
    simp only [hne, hc]
    split
    · have hchange := h.round ((n : ℤ) - e.size) (by omega)
      have hround := h.round ((l.size : ℤ) + (n - e.size)) (by omega)
      have hz := noneToZero_units h.unit ((l.size : ℤ) + (n - e.size))
      push_cast at hchange hround hz
      rw [← mul_sub, hchange, ← mul_add, hround, hz]
      congr 2
      omega
    · rfl
  · refine map_updateFirst (g := fun e : Entry => (e.ref, u * (e.size : ℚ)))
      (q := fun x => x.1 == e.ref) (h := fun x => (x.1, u * (n : ℚ))) (fun _ => rfl)
      (fun e => ?_) l.entryList
    rw [updatedEntry_ref, updatedEntry_size]

theorem sum_units (es : List Entry) (hc : ∀ e ∈ es, counts e = visible e.ref) (k : Nat)
    (hle : k + sumOn counts Entry.size es ≤ bound) :
    ((es.map fun e => (e.ref, u * (e.size : ℚ))).filter (visible ·.1)).foldl
      (fun size e => round (size + e.2)) (u * k) = u * (k + sumOn counts Entry.size es : Nat) := by
  induction es generalizing k with
  | nil => rfl
  | cons e es ih =>
    have hrest := ih fun e' he' => hc e' (mem_cons_of_mem _ he')
    have hhead := hc e mem_cons_self
    rw [sumOn_cons, hhead] at hle ⊢
    rw [map_cons, filter_cons]
    cases hv : visible e.ref with
    | false =>
      rw [hv, if_neg Bool.false_ne_true] at hle
      simpa using hrest k (by omega)
    | true =>
      rw [hv, if_pos rfl] at hle
      have hround := h.round (k + e.size) (by omega)
      push_cast at hround
      rw [if_pos rfl, if_pos rfl, foldl_cons, ← mul_add, hround, ← Nat.add_assoc]
      exact_mod_cast hrest (k + e.size) (by omega)

theorem sizes_reevaluate (hc : ∀ e ∈ l.entryList, counts e = visible e.ref)
    (hle : sumOn counts Entry.size l.entryList ≤ bound) :
    (l.reevaluate counts).sizes u = (l.sizes u).reevaluate round visible := by
  have hempty : l.empty = true ↔ (l.sizes u).entries = [] := by
    unfold PriceLevel.empty PriceLevel.sizes
    rw [List.isEmpty_iff, map_eq_nil_iff]
  unfold PriceLevel.reevaluate Sizes.reevaluate
  by_cases hnil : l.empty = true
  · rw [if_pos hnil, if_pos (hempty.mp hnil)]
  · rw [if_neg hnil, if_neg (mt hempty.mpr hnil)]
    have hsum := sum_units h l.entryList hc 0 (by omega)
    have hequal := isQuantityEqual_units h.unit l.size (sumOn counts Entry.size l.entryList)
    rw [Nat.cast_zero, mul_zero, Nat.zero_add] at hsum
    change foldl _ 0 ((l.sizes u).entries.filter _) = _ at hsum
    dsimp only
    rw [hsum]
    show Sizes.mk _ _ = Sizes.mk (if isQuantityEqual (u * l.size) _ then _ else _) _
    split
    · next heq => rw [← hequal.mp heq]; rfl
    · rfl

end

/-! ## Sizes that are lost and sizes that stay -/

/-- An entry of size -3 stays alone in a level, whose size is zero. -/
theorem negative_size_dropped :
    let x := ((({} : Sizes).addEntry id (fun _ => true) ⟨0, 0⟩ (-3)).addEntry
      id (fun _ => true) ⟨0, 1⟩ 5).removeEntry id (fun _ => true) ⟨0, 1⟩
    x.size = 0 ∧ x.total (fun _ => true) = -3 := by
  decide +kernel

theorem rounded_size_left :
    let add := Sizes.addEntry roundF64 fun _ => true
    let remove := Sizes.removeEntry roundF64 fun _ => true
    let x := remove (remove (add (add {} ⟨0, 0⟩ (2 ^ 53)) ⟨0, 1⟩ 3) ⟨0, 0⟩) ⟨0, 1⟩
    x.entries = [] ∧ x.size = 1 ∧ x.reevaluate roundF64 (fun _ => true) = x := by
  decide +kernel

end Mamda

import Mathlib.Order.Lattice
import Mathlib.Data.List.Basic

/-!
# Ordered maps

`SortedMap κ ν` is `std::map`: a finite map whose iteration goes through the
keys in increasing order.  It is kept as an association list, and the field
`sorted` says the keys increase strictly, so a key occurs once and a map with
two values for a key cannot be built.

Everything a proof about a map needs goes through `find?`: what `insert` and
`erase` do to it (`find?_insert`, `find?_erase`), what the iteration order
visits (`mem_toList`), and that it decides the map (`ext`).
-/

namespace Lib

open List

/-- A map kept as a list of pairs with strictly increasing keys. -/
structure SortedMap (κ ν : Type) [LinearOrder κ] where
  toList : List (κ × ν)
  sorted : toList.Pairwise fun a b => a.1 < b.1

namespace SortedMap

variable {κ ν μ : Type} [LinearOrder κ]

/-! ## Operations on the list -/

def findList (k : κ) : List (κ × ν) → Option ν
  | [] => none
  | (k', v) :: l => if k = k' then some v else findList k l

def insertList (k : κ) (v : ν) : List (κ × ν) → List (κ × ν)
  | [] => [(k, v)]
  | (k', v') :: l =>
    if k < k' then (k, v) :: (k', v') :: l
    else if k = k' then (k, v) :: l
    else (k', v') :: insertList k v l

def eraseList (k : κ) : List (κ × ν) → List (κ × ν)
  | [] => []
  | (k', v') :: l => if k = k' then l else (k', v') :: eraseList k l

variable {k : κ} {l : List (κ × ν)} {v : ν} {m : SortedMap κ ν} {α : Type}

theorem mem_insertList {a : κ × ν} (h : a ∈ insertList k v l) : a = (k, v) ∨ a ∈ l := by
  induction l with
  | nil => simpa [insertList] using h
  | cons b l ih =>
    simp only [insertList] at h
    split at h
    · simpa using h
    split at h
    · rcases mem_cons.mp h with h | h
      · exact .inl h
      · exact .inr (mem_cons_of_mem _ h)
    · rcases mem_cons.mp h with h | h
      · exact .inr (by rw [h]; exact mem_cons_self)
      · rcases ih h with h | h
        · exact .inl h
        · exact .inr (mem_cons_of_mem _ h)

theorem insertList_sorted (k : κ) (v : ν) (l : List (κ × ν)) (h : l.Pairwise fun a b => a.1 < b.1) :
    (insertList k v l).Pairwise fun a b => a.1 < b.1 := by
  induction l with
  | nil => simp [insertList]
  | cons b l ih =>
    rw [pairwise_cons] at h
    obtain ⟨hhead, htail⟩ := h
    simp only [insertList]
    split
    · next hlt =>
      refine pairwise_cons.mpr ⟨fun a ha => ?_, pairwise_cons.mpr ⟨hhead, htail⟩⟩
      rcases mem_cons.mp ha with rfl | ha
      · exact hlt
      · exact hlt.trans (hhead a ha)
    split
    · next heq => subst heq; exact pairwise_cons.mpr ⟨hhead, htail⟩
    · next hnlt hne =>
      refine pairwise_cons.mpr ⟨fun a ha => ?_, ih htail⟩
      rcases mem_insertList ha with rfl | ha
      · exact lt_of_le_of_ne (not_lt.mp hnlt) (Ne.symm hne)
      · exact hhead a ha

theorem eraseList_sublist (k : κ) (l : List (κ × ν)) : (eraseList k l).Sublist l := by
  induction l with
  | nil => exact List.Sublist.refl _
  | cons b l ih =>
    simp only [eraseList]
    split
    · exact sublist_cons_self _ _
    · exact ih.cons_cons _

/-! ## The map -/

def empty : SortedMap κ ν := ⟨[], List.Pairwise.nil⟩

instance : Inhabited (SortedMap κ ν) := ⟨empty⟩

/-- `map::find`. -/
def find? (m : SortedMap κ ν) (k : κ) : Option ν := findList k m.toList

/-- Binds `k` to `v`, in place of the value `k` had. -/
def insert (m : SortedMap κ ν) (k : κ) (v : ν) : SortedMap κ ν :=
  ⟨insertList k v m.toList, insertList_sorted k v m.toList m.sorted⟩

def erase (m : SortedMap κ ν) (k : κ) : SortedMap κ ν :=
  ⟨eraseList k m.toList, m.sorted.sublist (eraseList_sublist k m.toList)⟩

def mapVal (m : SortedMap κ ν) (f : ν → μ) : SortedMap κ μ :=
  ⟨m.toList.map fun a => (a.1, f a.2), pairwise_map.mpr m.sorted⟩

def filterKeys (m : SortedMap κ ν) (p : κ → Bool) : SortedMap κ ν :=
  ⟨m.toList.filter fun a => p a.1, m.sorted.sublist filter_sublist⟩

def values (m : SortedMap κ ν) : List ν := m.toList.map Prod.snd

/-! ## Lookup -/

theorem findList_eq_none (h : ∀ a ∈ l, k ≠ a.1) : findList k l = none := by
  induction l with
  | nil => rfl
  | cons b l ih =>
    obtain ⟨k', v'⟩ := b
    rw [findList, if_neg (h (k', v') mem_cons_self)]
    exact ih fun a ha => h a (mem_cons_of_mem _ ha)

theorem findList_insertList (k k' : κ) (v : ν) (l : List (κ × ν)) :
    findList k' (insertList k v l) = if k' = k then some v else findList k' l := by
  induction l with
  | nil => rfl
  | cons b l ih =>
    obtain ⟨k₁, v₁⟩ := b
    simp only [insertList]
    split
    · rfl
    split
    · next heq =>
      subst heq
      by_cases hk : k' = k <;> simp [findList, hk]
    · next hne =>
      rw [findList, ih, findList]
      by_cases hk : k' = k₁
      · subst hk; simp [Ne.symm hne]
      · simp [hk]

@[simp] theorem find?_empty (k : κ) : (empty : SortedMap κ ν).find? k = none := rfl

theorem find?_insert (m : SortedMap κ ν) (k k' : κ) (v : ν) :
    (m.insert k v).find? k' = if k' = k then some v else m.find? k' :=
  findList_insertList k k' v m.toList

@[simp] theorem find?_insert_self (m : SortedMap κ ν) (k : κ) (v : ν) :
    (m.insert k v).find? k = some v := by rw [find?_insert, if_pos rfl]

theorem find?_insert_ne (m : SortedMap κ ν) {k' : κ} (v : ν) (h : k' ≠ k) :
    (m.insert k v).find? k' = m.find? k' := by rw [find?_insert, if_neg h]

theorem findList_eraseList (k k' : κ) (l : List (κ × ν)) (h : l.Pairwise fun a b => a.1 < b.1) :
    findList k' (eraseList k l) = if k' = k then none else findList k' l := by
  induction l with
  | nil => simp [eraseList, findList]
  | cons b l ih =>
    obtain ⟨k₁, v₁⟩ := b
    rw [pairwise_cons] at h
    simp only [eraseList]
    split
    · next heq =>
      subst heq
      by_cases hk : k' = k
      · rw [if_pos hk, hk]; exact findList_eq_none fun a ha => ne_of_lt (h.1 a ha)
      · simp [findList, hk]
    · next hne =>
      rw [findList, ih h.2, findList]
      by_cases hk : k' = k₁
      · subst hk; simp [Ne.symm hne]
      · simp [hk]

theorem find?_erase (m : SortedMap κ ν) (k k' : κ) :
    (m.erase k).find? k' = if k' = k then none else m.find? k' :=
  findList_eraseList k k' m.toList m.sorted

theorem insertList_last (h : ∀ a ∈ l, a.1 < k) (v : ν) : insertList k v l = l ++ [(k, v)] := by
  induction l with
  | nil => rfl
  | cons b l ih =>
    obtain ⟨k', v'⟩ := b
    have hlt : k' < k := h (k', v') mem_cons_self
    rw [insertList, if_neg (not_lt_of_gt hlt), if_neg hlt.ne', ih fun a ha =>
      h a (mem_cons_of_mem _ ha)]
    rfl

theorem mem_of_findList (h : findList k l = some v) : (k, v) ∈ l := by
  induction l with
  | nil => cases h
  | cons b l ih =>
    obtain ⟨k', v'⟩ := b
    rw [findList] at h
    split at h
    · next heq =>
      subst heq
      rw [Option.some.inj h]
      exact mem_cons_self
    · exact mem_cons_of_mem _ (ih h)

theorem findList_of_mem (hs : l.Pairwise fun a b => a.1 < b.1) (h : (k, v) ∈ l) :
    findList k l = some v := by
  induction l with
  | nil => cases h
  | cons b l ih =>
    rw [pairwise_cons] at hs
    rcases mem_cons.mp h with h | h
    · cases h
      rw [findList, if_pos rfl]
    · rw [findList, if_neg (ne_of_gt (hs.1 (k, v) h)), ih hs.2 h]

theorem mem_toList : (k, v) ∈ m.toList ↔ m.find? k = some v :=
  ⟨findList_of_mem m.sorted, mem_of_findList⟩

theorem find?_mapVal (m : SortedMap κ ν) (f : ν → μ) (k : κ) :
    (m.mapVal f).find? k = (m.find? k).map f := by
  show findList k (m.toList.map fun a => (a.1, f a.2)) = (findList k m.toList).map f
  induction m.toList with
  | nil => rfl
  | cons b l ih =>
    simp only [map_cons, findList]
    split
    · rfl
    · exact ih

theorem find?_filterKeys (m : SortedMap κ ν) (p : κ → Bool) (k : κ) :
    (m.filterKeys p).find? k = if p k then m.find? k else none := by
  have hmem : ∀ v, (k, v) ∈ (m.filterKeys p).toList ↔ (k, v) ∈ m.toList ∧ p k := by
    intro v
    rw [filterKeys, mem_filter]
  apply Option.ext
  intro v
  rw [← mem_toList, hmem, mem_toList]
  split
  · next hk => simp [hk]
  · next hk => simp [hk]

theorem ext {m' : SortedMap κ ν} (h : ∀ k, m.find? k = m'.find? k) : m = m' := by
  have hmem : ∀ a, a ∈ m.toList ↔ a ∈ m'.toList := by
    rintro ⟨k, v⟩
    rw [mem_toList, mem_toList, h]
  have hnd : ∀ m₁ : SortedMap κ ν, m₁.toList.Nodup := fun m₁ =>
    m₁.sorted.imp fun hlt heq => by rw [heq] at hlt; exact lt_irrefl _ hlt
  have hperm : m.toList.Perm m'.toList :=
    (perm_ext_iff_of_nodup (hnd m) (hnd m')).mpr hmem
  have hasymm : ∀ a b : κ × ν, a ∈ m.toList → b ∈ m'.toList → a.1 < b.1 → b.1 < a.1 → a = b := by
    intro a b _ _ hab hba; exact (lt_asymm hab hba).elim
  have heq : m.toList = m'.toList := hperm.eq_of_pairwise hasymm m.sorted m'.sorted
  cases m
  cases m'
  simp only [mk.injEq]
  exact heq

/-! ## The number of bindings -/

theorem length_insertList_new (h : findList k l = none) (v : ν) :
    (insertList k v l).length = l.length + 1 := by
  induction l with
  | nil => rfl
  | cons b l ih =>
    rw [findList] at h
    split at h
    · cases h
    · next hne =>
      rw [insertList]
      split
      · rfl
      · rw [length_cons, ih h, length_cons]

theorem length_insertList_old {v' : ν} (hs : l.Pairwise fun a b => a.1 < b.1)
    (h : findList k l = some v') (v : ν) : (insertList k v l).length = l.length := by
  induction l with
  | nil => cases h
  | cons b l ih =>
    obtain ⟨k₁, v₁⟩ := b
    rw [pairwise_cons] at hs
    rw [findList] at h
    split at h
    · next heq =>
      rw [insertList, if_neg (by rw [heq]; exact lt_irrefl _), if_pos heq]
      rfl
    · next hne =>
      have hlt : k₁ < k := hs.1 (k, v') (mem_of_findList h)
      rw [insertList, if_neg (not_lt.mpr hlt.le), if_neg hne, length_cons, ih hs.2 h, length_cons]

theorem length_eraseList (h : findList k l = some v) : l.length = (eraseList k l).length + 1 := by
  induction l with
  | nil => cases h
  | cons b l ih =>
    rw [findList] at h
    rw [eraseList]
    split at h
    · next heq => rw [if_pos heq]; rfl
    · next hne => rw [if_neg hne, length_cons, ih h, length_cons]

theorem length_insert_new (h : m.find? k = none) (v : ν) :
    (m.insert k v).toList.length = m.toList.length + 1 :=
  length_insertList_new h v

theorem length_insert_old {v' : ν} (h : m.find? k = some v') (v : ν) :
    (m.insert k v).toList.length = m.toList.length :=
  length_insertList_old m.sorted h v

theorem length_erase (h : m.find? k = some v) : m.toList.length = (m.erase k).toList.length + 1 :=
  length_eraseList h

theorem length_flatten_insertList {v : List α} {l : List (κ × List α)}
    (h : l.Pairwise fun a b => a.1 < b.1) :
    ((insertList k v l).map Prod.snd).flatten.length + ((findList k l).getD []).length =
      (l.map Prod.snd).flatten.length + v.length := by
  induction l with
  | nil => simp [insertList, findList]
  | cons b l ih =>
    obtain ⟨k', v'⟩ := b
    rw [pairwise_cons] at h
    have htail := ih h.2
    rw [insertList, findList]
    by_cases heq : k = k'
    · rw [if_neg (by rw [heq]; exact lt_irrefl k'), if_pos heq, if_pos heq]
      simp only [map_cons, flatten_cons, length_append, Option.getD_some]
      omega
    rw [if_neg heq, if_neg heq]
    by_cases hlt : k < k'
    · have hnone : findList k l = none :=
        findList_eq_none fun a ha => ne_of_lt (hlt.trans (h.1 a ha))
      rw [if_pos hlt, hnone]
      simp only [map_cons, flatten_cons, length_append, Option.getD_none, length_nil]
      omega
    · rw [if_neg hlt]
      simp only [map_cons, flatten_cons, length_append]
      omega

theorem length_flatten_insert (m : SortedMap κ (List α)) (k : κ) (v : List α) :
    (m.insert k v).values.flatten.length + ((m.find? k).getD []).length =
      m.values.flatten.length + v.length :=
  length_flatten_insertList m.sorted

theorem flatten_insertList_append (vs : List α) {l : List (κ × List α)}
    (h : l.Pairwise fun a b => a.1 < b.1) :
    ((insertList k ((findList k l).getD [] ++ vs) l).map Prod.snd).flatten.Perm
      ((l.map Prod.snd).flatten ++ vs) := by
  induction l with
  | nil =>
    show ((vs ++ []) : List α).Perm ([] ++ vs)
    rw [append_nil, nil_append]
  | cons b l ih =>
    obtain ⟨k', v'⟩ := b
    rw [pairwise_cons] at h
    have htail := ih h.2
    rw [insertList, findList]
    by_cases heq : k = k'
    · rw [if_neg (by rw [heq]; exact lt_irrefl k'), if_pos heq, if_pos heq, Option.getD_some]
      simp only [map_cons, flatten_cons, append_assoc]
      exact List.Perm.append_left v' perm_append_comm
    rw [if_neg heq, if_neg heq]
    by_cases hlt : k < k'
    · have hnone : findList k l = none :=
        findList_eq_none fun a ha => ne_of_lt (hlt.trans (h.1 a ha))
      rw [if_pos hlt, hnone]
      exact perm_append_comm
    · rw [if_neg hlt]
      simp only [map_cons, flatten_cons, append_assoc]
      exact List.Perm.append_left v' htail

theorem flatten_insert_append (m : SortedMap κ (List α)) (k : κ) (vs : List α) :
    (m.insert k ((m.find? k).getD [] ++ vs)).values.flatten.Perm (m.values.flatten ++ vs) :=
  flatten_insertList_append vs m.sorted

end SortedMap

end Lib

import Mathlib.Data.List.Perm.Subperm
import Mathlib.Order.RelClasses
import OpenMama.Lib.SortedMap

/-!
# The best bindings of a map

`IsTop r n m t` says that `t` holds the `n` best bindings of `m`, or all of them
if there are fewer, where `r` tells which of two keys is the better one.  A top
stays one while the map changes: a key that is worse than all of a full top does
not touch it (`IsTop.insert_outside`, `IsTop.erase_outside`), a better one pushes
the worst out (`IsTop.insert_full`), and one that leaves lets the next one in
(`IsTop.erase`, `IsTop.grow`).  `IsTop.take_eq` reads the top off a list of the bindings,
best first.
-/

namespace Lib

open List Option

namespace SortedMap

variable {κ ν : Type} [LinearOrder κ]

/-- `t` holds the `n` best bindings of `m`. -/
structure IsTop (r : κ → κ → Prop) (n : Nat) (m t : SortedMap κ ν) : Prop where
  sub : ∀ k v, t.find? k = some v → m.find? k = some v
  size : t.toList.length = min n m.toList.length
  better : ∀ k k', t.find? k ≠ none → m.find? k' ≠ none → t.find? k' = none → r k k'

variable {k : κ}

theorem find?_ne_none {m : SortedMap κ ν} : m.find? k ≠ none ↔ ∃ v, (k, v) ∈ m.toList := by
  simp only [mem_toList, ne_none_iff_exists']

theorem toList_eq_nil {m : SortedMap κ ν} : m.toList = [] ↔ ∀ k, m.find? k = none := by
  constructor
  · intro h k
    by_contra hk
    obtain ⟨v, hv⟩ := find?_ne_none.mp hk
    rw [h] at hv
    cases hv
  · intro h
    refine eq_nil_iff_forall_not_mem.mpr ?_
    rintro ⟨k, v⟩ hv
    rw [mem_toList, h] at hv
    cases hv

theorem take_eq_of_best {α : Type} {r : α → α → Prop} (hasymm : ∀ a b, r a b → ¬ r b a)
    (n : Nat) (all : List α) : ∀ (best : List α), all.Pairwise r → best.Pairwise r →
      (∀ a ∈ best, a ∈ all) → best.length = min n all.length →
      (∀ a ∈ best, ∀ b ∈ all, b ∉ best → r a b) → best = all.take n := by
  induction all generalizing n with
  | nil =>
    intro best _ _ hsub _ _
    rw [take_nil]
    exact eq_nil_iff_forall_not_mem.mpr fun a ha => not_mem_nil (hsub a ha)
  | cons a all ih =>
    intro best hall hbest hsub hlen hbetter
    obtain ⟨ha, hrest⟩ := pairwise_cons.mp hall
    cases n with
    | zero => refine eq_nil_of_length_eq_zero ?_; omega
    | succ n =>
      cases best with
      | nil => simp at hlen
      | cons b best =>
        obtain ⟨hb, hrest'⟩ := pairwise_cons.mp hbest
        -- the first of the best is the first of all
        have hab : b = a := by
          rcases mem_cons.mp (hsub b mem_cons_self) with h | h
          · exact h
          · by_cases hmem : a ∈ b :: best
            · rcases mem_cons.mp hmem with h' | h'
              · exact h'.symm
              · exact absurd (hb a h') (hasymm a b (ha b h))
            · exact absurd (hbetter b mem_cons_self a mem_cons_self hmem)
                (hasymm a b (ha b h))
        subst hab
        have hne : ∀ c ∈ best, c ≠ b := by
          intro c hc heq
          subst heq
          exact hasymm c c (hb c hc) (hb c hc)
        have hne' : ∀ c ∈ all, c ≠ b := by
          intro c hc heq
          subst heq
          exact hasymm c c (ha c hc) (ha c hc)
        rw [take_succ_cons, ← ih n best hrest hrest' ?_ ?_ ?_]
        · intro c hc
          rcases mem_cons.mp (hsub c (mem_cons_of_mem _ hc)) with h | h
          · exact absurd h (hne c hc)
          · exact h
        · rw [length_cons, length_cons] at hlen; omega
        · intro c hc d hd hmem
          refine hbetter c (mem_cons_of_mem _ hc) d (mem_cons_of_mem _ hd) ?_
          intro h
          rcases mem_cons.mp h with h | h
          · exact hne' d hd h
          · exact hmem h

/-! ## Ranked lists -/

structure Ranks (r : κ → κ → Prop) (m : SortedMap κ ν) (all : List (κ × ν)) : Prop where
  perm : all.Perm m.toList
  sorted : all.Pairwise fun a b => r a.1 b.1

theorem ranks_lt (m : SortedMap κ ν) : Ranks (· < ·) m m.toList := ⟨.refl _, m.sorted⟩

theorem ranks_gt (m : SortedMap κ ν) : Ranks (· > ·) m m.toList.reverse :=
  ⟨reverse_perm _, pairwise_reverse.mpr m.sorted⟩

theorem Ranks.mem {r : κ → κ → Prop} {m : SortedMap κ ν} {all : List (κ × ν)} (h : Ranks r m all)
    {v : ν} : (k, v) ∈ all ↔ m.find? k = some v := by
  rw [h.perm.mem_iff, mem_toList]

theorem Ranks.filter_eq_singleton {r : κ → κ → Prop} (hirrefl : ∀ k, ¬ r k k) {m : SortedMap κ ν}
    {all : List (κ × ν)} (h : Ranks r m all) (pass : κ × ν → Bool) {v : ν} (hk : m.find? k = some v)
    (hpass : pass (k, v)) (honly : ∀ k' v', m.find? k' = some v' → pass (k', v') → k' = k) :
    all.filter pass = [(k, v)] := by
  have hmem : (k, v) ∈ all.filter pass := mem_filter.mpr ⟨h.mem.mpr hk, hpass⟩
  have hkey : ∀ a ∈ all.filter pass, a.1 = k := by
    rintro ⟨k', v'⟩ ha
    obtain ⟨hall, hp⟩ := mem_filter.mp ha
    exact honly k' v' (h.mem.mp hall) hp
  have hsorted := h.sorted.filter pass
  cases hf : all.filter pass with
  | nil => rw [hf] at hmem; cases hmem
  | cons a rest =>
    rw [hf] at hmem hkey hsorted
    cases rest with
    | nil => rw [mem_singleton.mp hmem]
    | cons b rest =>
      have hab := (pairwise_cons.mp hsorted).1 b mem_cons_self
      rw [hkey a mem_cons_self, hkey b (mem_cons_of_mem _ mem_cons_self)] at hab
      exact (hirrefl k hab).elim

theorem Ranks.filter_eq_nil {r : κ → κ → Prop} {m : SortedMap κ ν} {all : List (κ × ν)}
    (h : Ranks r m all) (pass : κ × ν → Bool) :
    all.filter pass = [] ↔ ∀ k v, m.find? k = some v → pass (k, v) = false := by
  rw [filter_eq_nil_iff]
  constructor
  · intro hnone k v hk; exact Bool.eq_false_iff.mpr (hnone (k, v) (h.mem.mpr hk))
  · rintro hnone ⟨k, v⟩ ha; exact Bool.eq_false_iff.mp (hnone k v (h.mem.mp ha))

theorem perm_insertList {v : ν} {l : List (κ × ν)} (h : findList k l = none) :
    (insertList k v l).Perm ((k, v) :: l) := by
  induction l with
  | nil => exact .refl _
  | cons a l ih =>
    obtain ⟨k', v'⟩ := a
    rw [findList] at h
    split at h
    · cases h
    · next hne =>
      rw [insertList]
      split
      · exact .refl _
      · exact ((ih h).cons _).trans (.swap _ _ _)

theorem perm_insert {m : SortedMap κ ν} (h : m.find? k = none) (v : ν) :
    (m.insert k v).toList.Perm ((k, v) :: m.toList) := perm_insertList h

theorem length_le_of_sub {m t : SortedMap κ ν}
    (h : ∀ k v, t.find? k = some v → m.find? k = some v) :
    t.toList.length ≤ m.toList.length ∧ (t.toList.length = m.toList.length → t = m) := by
  have hnodup : ∀ m₁ : SortedMap κ ν, m₁.toList.Nodup := fun m₁ =>
    m₁.sorted.imp fun hlt heq => by rw [heq] at hlt; exact lt_irrefl _ hlt
  have hsub : t.toList.Subperm m.toList := by
    refine subperm_of_subset (hnodup t) ?_
    rintro ⟨k, v⟩ hv
    exact mem_toList.mpr (h k v (mem_toList.mp hv))
  refine ⟨hsub.length_le, fun hlen => ext fun k => ?_⟩
  have hperm := hsub.perm_of_length_le (Nat.le_of_eq hlen.symm)
  refine Option.ext fun v => ?_
  rw [← mem_toList, ← mem_toList, hperm.mem_iff]

section Top

variable {r : κ → κ → Prop} {n : Nat} {m t : SortedMap κ ν}

theorem IsTop.self (r : κ → κ → Prop) (h : m.toList.length ≤ n) : IsTop r n m m :=
  ⟨fun _ _ hv => hv, (Nat.min_eq_right h).symm, fun _ _ _ hk hnone => absurd hnone hk⟩

section

variable (h : IsTop r n m t)

include h

theorem IsTop.eq_self (hle : m.toList.length ≤ n) : t = m :=
  (length_le_of_sub h.sub).2 (h.size.trans (Nat.min_eq_right hle))

theorem IsTop.length_le : t.toList.length ≤ n :=
  h.size.trans_le (Nat.min_le_left _ _)

theorem IsTop.eq_of_length_lt (hlt : t.toList.length < n) : t = m := by
  have hsize := h.size
  refine h.eq_self ?_
  omega

theorem IsTop.take_eq (hasymm : ∀ a b, r a b → ¬ r b a) {all best : List (κ × ν)}
    (hall : Ranks r m all) (hbest : Ranks r t best) : best = all.take n := by
  refine take_eq_of_best (r := fun a b => r a.1 b.1) (fun a b => hasymm a.1 b.1) n all best
    hall.sorted hbest.sorted ?_ ?_ ?_
  · rintro ⟨k, v⟩ ha; exact hall.mem.mpr (h.sub k v (hbest.mem.mp ha))
  · rw [hbest.perm.length_eq, hall.perm.length_eq, h.size]
  rintro ⟨k, v⟩ ha ⟨k', v'⟩ hb hnb
  rw [hbest.mem] at ha hnb
  rw [hall.mem] at hb
  refine h.better k k' (by rw [ha]; exact some_ne_none v)
    (by rw [hb]; exact some_ne_none v') ?_
  by_contra hne
  obtain ⟨w, hw⟩ := ne_none_iff_exists'.mp hne
  have hsame := h.sub k' w hw
  rw [hb] at hsame
  exact hnb (hw.trans hsame.symm)

/-! ## A key that is put -/

theorem IsTop.insert_small (hlt : t.toList.length < n) (k : κ) (v : ν)
    (hk : m.find? k = none) : IsTop r n (m.insert k v) (t.insert k v) := by
  have heq := h.eq_of_length_lt hlt
  subst heq
  refine .self r ?_
  rwa [length_insert_new hk]

section

variable (hfull : t.toList.length = n)

include hfull

theorem IsTop.insert_outside (v : ν) (hk : t.find? k = none)
    (hout : ∀ k', t.find? k' ≠ none → r k' k) : IsTop r n (m.insert k v) t := by
  have hsub : ∀ k' v', t.find? k' = some v' → (m.insert k v).find? k' = some v' := by
    intro k' v' hv
    have hne : k' ≠ k := by
      rintro rfl
      rw [hv] at hk
      cases hk
    rw [find?_insert_ne m v hne]
    exact h.sub k' v' hv
  have hle := (length_le_of_sub hsub).1
  refine ⟨hsub, by omega, ?_⟩
  intro k₁ k₂ h₁ h₂ hnone
  by_cases hk₂ : k₂ = k
  · rw [hk₂]; exact hout k₁ h₁
  · rw [find?_insert_ne m v hk₂] at h₂; exact h.better k₁ k₂ h₁ h₂ hnone

theorem IsTop.insert_full [IsStrictTotalOrder κ r]
    {w : κ} (v : ν) (hk : m.find? k = none) (hw : (t.insert k v).find? w ≠ none)
    (hworst : ∀ k', (t.insert k v).find? k' ≠ none → k' ≠ w → r k' w) :
    IsTop r n (m.insert k v) ((t.insert k v).erase w) := by
  have hsize := h.size
  have hkt : t.find? k = none := by
    by_contra hne
    obtain ⟨v', hv'⟩ := ne_none_iff_exists'.mp hne
    rw [h.sub k v' hv'] at hk
    cases hk
  constructor
  · intro k' v' hv
    rw [find?_erase] at hv
    split at hv
    · cases hv
    · rw [find?_insert] at hv ⊢
      split
      · next heq => rwa [if_pos heq] at hv
      · next hne => rw [if_neg hne] at hv; exact h.sub k' v' hv
  · obtain ⟨v', hv'⟩ := ne_none_iff_exists'.mp hw
    have hlen := length_erase hv'
    rw [length_insert_new hkt] at hlen
    rw [length_insert_new hk]
    omega
  intro k₁ k₂ h₁ h₂ hnone
  have h₁w : k₁ ≠ w := by
    rintro rfl
    rw [find?_erase, if_pos rfl] at h₁
    exact h₁ rfl
  rw [find?_erase, if_neg h₁w] at h₁
  have hk₁w : r k₁ w := hworst k₁ h₁ h₁w
  by_cases h₂w : k₂ = w
  · rwa [h₂w]
  rw [find?_erase, if_neg h₂w, find?_insert] at hnone
  rw [find?_insert] at h₂
  split at hnone
  · cases hnone
  next hk₂ =>
  rw [if_neg hk₂] at h₂
  -- what is outside is worse than anything that was in the top
  by_cases hwk : w = k
  · have hk₁ : t.find? k₁ ≠ none := by
      rwa [find?_insert, if_neg (hwk ▸ h₁w)] at h₁
    exact h.better k₁ k₂ hk₁ h₂ hnone
  · have hwt : t.find? w ≠ none := by
      rwa [find?_insert, if_neg hwk] at hw
    exact trans_of r hk₁w (h.better w k₂ hwt h₂ hnone)

/-! ## A key that leaves -/

omit hfull in
theorem IsTop.erase_small (hle : m.toList.length ≤ n) (k : κ) :
    IsTop r n (m.erase k) (t.erase k) := by
  have heq := h.eq_self hle
  subst heq
  exact .self r (Nat.le_trans (eraseList_sublist k t.toList).length_le hle)

theorem IsTop.erase_outside (hk : t.find? k = none) : IsTop r n (m.erase k) t := by
  have hsub : ∀ k' v', t.find? k' = some v' → (m.erase k).find? k' = some v' := by
    intro k' v' hv
    have hne : k' ≠ k := by
      rintro rfl
      rw [hv] at hk
      cases hk
    rw [find?_erase, if_neg hne]
    exact h.sub k' v' hv
  have hle := (length_le_of_sub hsub).1
  refine ⟨hsub, by omega, ?_⟩
  intro k₁ k₂ h₁ h₂ hnone
  rw [find?_erase] at h₂
  split at h₂
  · exact absurd rfl h₂
  · exact h.better k₁ k₂ h₁ h₂ hnone

end

omit h in
theorem IsTop.erase (h : IsTop r (n + 1) m t) (hk : t.find? k ≠ none) :
    IsTop r n (m.erase k) (t.erase k) := by
  have hsize := h.size
  obtain ⟨v, hv⟩ := ne_none_iff_exists'.mp hk
  constructor
  · intro k' v' hv'
    rw [find?_erase] at hv' ⊢
    split
    · next heq => rwa [if_pos heq] at hv'
    · next hne => rw [if_neg hne] at hv'; exact h.sub k' v' hv'
  · have hlen := length_erase hv
    have hlen' := length_erase (h.sub k v hv)
    omega
  intro k₁ k₂ h₁ h₂ hnone
  rw [find?_erase] at h₁ h₂ hnone
  split at h₂
  · exact absurd rfl h₂
  · next hne =>
    rw [if_neg hne] at hnone
    split at h₁
    · exact absurd rfl h₁
    · exact h.better k₁ k₂ h₁ h₂ hnone

theorem IsTop.grow [IsStrictTotalOrder κ r] {all best : List (κ × ν)}
    (hall : Ranks r m all) (hbest : Ranks r t best) {v : ν} (hnext : all[n]? = some (k, v)) :
    t.find? k = none ∧ IsTop r (n + 1) m (t.insert k v) := by
  have htake := h.take_eq (fun a b => asymm_of r) hall hbest
  obtain ⟨hn, hget⟩ := List.getElem?_eq_some_iff.mp hnext
  have hlen := hall.perm.length_eq
  have hsize := h.size
  have hdrop : all.drop n = (k, v) :: all.drop (n + 1) := by rw [← hget, drop_eq_getElem_cons]
  have hsplit : all = best ++ (k, v) :: all.drop (n + 1) := by rw [htake, ← hdrop, take_append_drop]
  have hsorted := hall.sorted
  rw [hsplit, pairwise_append, pairwise_cons] at hsorted
  obtain ⟨-, ⟨hafter, -⟩, hbefore⟩ := hsorted
  have hk : t.find? k = none := by
    by_contra hne
    obtain ⟨v', hv'⟩ := ne_none_iff_exists'.mp hne
    exact irrefl_of r k (hbefore (k, v') (hbest.mem.mpr hv') (k, v) mem_cons_self)
  refine ⟨hk, ?_, ?_, ?_⟩
  · intro k' v' hv
    rw [find?_insert] at hv
    split at hv
    · next heq => rw [heq, ← some.inj hv]; exact hall.mem.mp (mem_of_getElem? hnext)
    · exact h.sub k' v' hv
  · rw [length_insert_new hk]; omega
  intro k₁ k₂ h₁ h₂ hnone
  have hk₂ : k₂ ≠ k := by
    rintro rfl
    rw [find?_insert_self] at hnone
    cases hnone
  rw [find?_insert_ne t v hk₂] at hnone
  obtain ⟨v₂, hv₂⟩ := ne_none_iff_exists'.mp h₂
  by_cases hk₁ : k₁ = k
  · subst hk₁
    have hmem := hall.mem.mpr hv₂
    rw [hsplit, mem_append, mem_cons] at hmem
    rcases hmem with hmem | hmem | hmem
    · rw [hbest.mem, hnone] at hmem; cases hmem
    · cases hmem; exact absurd rfl hk₂
    · exact hafter (k₂, v₂) hmem
  · rw [find?_insert_ne t v hk₁] at h₁; exact h.better k₁ k₂ h₁ h₂ hnone

end

theorem IsTop.of_take {all : List (κ × ν)} (hall : Ranks r m all)
    (ht : t.toList.Perm (all.take n)) : IsTop r n m t := by
  constructor
  · intro k v hv; exact hall.mem.mp (mem_of_mem_take (ht.mem_iff.mp (mem_toList.mpr hv)))
  · rw [ht.length_eq, length_take, hall.perm.length_eq]
  intro k k' h₁ h₂ hnone
  obtain ⟨v, hv⟩ := ne_none_iff_exists'.mp h₁
  obtain ⟨v', hv'⟩ := ne_none_iff_exists'.mp h₂
  have hmem := ht.mem_iff.mp (mem_toList.mpr hv)
  have hmem' := hall.mem.mpr hv'
  rw [← take_append_drop n all, mem_append] at hmem'
  have hsorted := hall.sorted
  rw [← take_append_drop n all, pairwise_append] at hsorted
  rcases hmem' with hmem' | hmem'
  · rw [mem_toList.mp (ht.mem_iff.mpr hmem')] at hnone; cases hnone
  · exact hsorted.2.2 (k, v) hmem (k', v') hmem'

end Top

end SortedMap

end Lib

import Mathlib.Logic.Function.Basic

/-!
# Items at places with an index

Items are kept at places, each under a name, and beside them an index leads from a
key to an item.  The key follows from the name and the place, and an item carries
the key it is indexed under as its label.  An item whose place was taken away is
aside: it stays in the index until it is forgotten.

`Sound` is what makes the index agree with the items (`Sound.index_iff`); each
operation keeps it.  An item that is aside may be indexed only where `late` allows
that.
-/

namespace Lib

open Function Option List

variable {P R N K : Type}

/-- Items with their names at their places, the index, and the labels of the items. -/
structure Register (P R N K : Type) where
  items : P → R → N → Prop
  index : K → Option R
  label : R → Option K

namespace Register

/-! ## Operations -/

section Operations

variable [DecidableEq R] [DecidableEq K]

def add (g : Register P R N K) (p : P) (r : R) (n : N) (k : K) : Register P R N K where
  items q s m := g.items q s m ∨ q = p ∧ s = r ∧ m = n
  index := Function.update g.index k (some r)
  label := Function.update g.label r (some k)

def drop (g : Register P R N K) (r : R) (k : K) : Register P R N K where
  items q s m := g.items q s m ∧ s ≠ r
  index := Function.update g.index k none
  label := Function.update g.label r none

/-- An item that is gone leaves the index, if it is there. -/
def forget (g : Register P R N K) (r : R) : Register P R N K :=
  match g.label r with
  | some k => { g with
      index := Function.update g.index k none, label := Function.update g.label r none }
  | none => g

end Operations

def take (g : Register P R N K) (p : P) : Register P R N K :=
  { g with items := fun q s m => g.items q s m ∧ q ≠ p }

/-! ## Soundness -/

/-- The index leads to the items, and to those that are aside where that is allowed. -/
structure Sound (key : N → P → K) (aside : R → Prop) (late : Prop) (g : Register P R N K) :
    Prop where
  kept : ∀ {p r n}, g.items p r n → g.index (key n p) = some r
  inverse : ∀ {k r}, g.index k = some r ↔ g.label r = some k
  somewhere : ∀ {k r}, g.index k = some r → (∃ p n, g.items p r n) ∨ late ∧ aside r
  apart : ∀ {p r n}, g.items p r n → ¬ aside r
  one : ∀ {p q r n m}, g.items p r n → g.items q r m → p = q ∧ n = m

variable {g' : Register P R N K} {n : N} {p : P}

namespace Sound

variable {key : N → P → K} {aside : R → Prop} {late : Prop} {g : Register P R N K}
variable {r : R}

theorem index_iff (h : Sound key aside False g) {k : K} :
    g.index k = some r ↔ ∃ p n, g.items p r n ∧ key n p = k := by
  constructor
  · intro hk
    rcases h.somewhere hk with ⟨p, n, hitem⟩ | ⟨hlate, -⟩
    · refine ⟨p, n, hitem, ?_⟩
      have hlabel := h.inverse.mp hk
      rw [h.inverse.mp (h.kept hitem)] at hlabel
      exact some.inj hlabel
    · exact hlate.elim
  · rintro ⟨p, n, hitem, rfl⟩; exact h.kept hitem

section

variable (h : Sound key aside late g)

include h

theorem eq_of_name {s : R} (hr : g.items p r n) (hs : g.items p s n) : r = s := by
  have hk := h.kept hr
  rw [h.kept hs] at hk
  exact (some.inj hk).symm

variable {aside' : R → Prop}

theorem congr (hitems : ∀ p r n, g'.items p r n ↔ g.items p r n) (hindex : g'.index = g.index)
    (hlabel : g'.label = g.label) (haside : ∀ r, aside' r ↔ aside r) :
    Sound key aside' late g' where
  kept hitem := by
    rw [hindex]; exact h.kept ((hitems _ _ _).mp hitem)
  inverse := by
    rw [hindex, hlabel]; exact h.inverse
  somewhere hk := by
    rw [hindex] at hk
    rcases h.somewhere hk with ⟨p, n, hitem⟩ | ⟨hlate, hr⟩
    · exact .inl ⟨p, n, (hitems _ _ _).mpr hitem⟩
    · exact .inr ⟨hlate, (haside _).mpr hr⟩
  apart hitem hr := h.apart ((hitems _ _ _).mp hitem) ((haside _).mp hr)
  one hr hs := h.one ((hitems _ _ _).mp hr) ((hitems _ _ _).mp hs)

theorem mono {late' : Prop} (hlate : late → late') : Sound key aside late' g where
  kept := h.kept
  inverse := h.inverse
  somewhere hk := (h.somewhere hk).imp_right fun hr => ⟨hlate hr.1, hr.2⟩
  apart := h.apart
  one := h.one

theorem settled (hno : ∀ r, aside r → g.label r = none) : Sound key aside False g where
  kept := h.kept
  inverse := h.inverse
  somewhere {k r} hk := by
    rcases h.somewhere hk with hitem | ⟨-, hr⟩
    · exact .inl hitem
    · have hlabel := h.inverse.mp hk
      rw [hno r hr] at hlabel
      cases hlabel
  apart := h.apart
  one := h.one

omit h in
theorem shrink (h : Sound key aside False g) (haside : ∀ r, aside' r → aside r) :
    Sound key aside' False g where
  kept := h.kept
  inverse := h.inverse
  somewhere hk := (h.somewhere hk).imp_right fun hr => hr.1.elim
  apart hitem hr := h.apart hitem (haside _ hr)
  one := h.one

omit h in
theorem empty (key : N → P → K) (aside : R → Prop) (late : Prop) :
    Sound key aside late ⟨fun _ _ _ => False, fun _ => none, fun _ => none⟩ where
  kept hitem := hitem.elim
  inverse := ⟨nofun, nofun⟩
  somewhere := nofun
  apart hitem := hitem.elim
  one hr := hr.elim

theorem take (p : P) (hlate : ∀ r n, g.items p r n → late) :
    Sound key (fun r => aside r ∨ ∃ n, g.items p r n) late (g.take p) where
  kept hitem := h.kept hitem.1
  inverse := h.inverse
  somewhere {k r} hk := by
    rcases h.somewhere hk with ⟨q, n, hitem⟩ | ⟨hlate', hr⟩
    · by_cases hq : q = p
      · subst hq; exact .inr ⟨hlate r n hitem, .inr ⟨n, hitem⟩⟩
      · exact .inl ⟨q, n, hitem, hq⟩
    · exact .inr ⟨hlate', .inl hr⟩
  apart hitem hr := by
    rcases hr with hr | ⟨n, hp⟩
    · exact h.apart hitem.1 hr
    · exact hitem.2 (h.one hitem.1 hp).1
  one hr hs := h.one hr.1 hs.1

end

section Operations

variable [DecidableEq R] [DecidableEq K]

section

variable (h : Sound key aside late g)

include h

theorem add (hfree : g.index (key n p) = none) (hnew : ∀ q m, ¬ g.items q r m) (hnot : ¬ aside r) :
    Sound key aside late (g.add p r n (key n p)) := by
  have hlabel : g.label r = none := by
    rw [eq_none_iff_forall_not_mem]
    intro k hk
    rcases h.somewhere (h.inverse.mpr hk) with ⟨q, m, hitem⟩ | ⟨-, hr⟩
    · exact hnew q m hitem
    · exact hnot hr
  have hold : ∀ {q s m}, g.items q s m → key m q ≠ key n p := by
    intro q s m hitem heq
    have hk := h.kept hitem
    rw [heq, hfree] at hk
    cases hk
  refine ⟨?_, ?_, ?_, ?_, ?_⟩
  · rintro q s m (hitem | ⟨rfl, rfl, rfl⟩)
    · exact (update_of_ne (hold hitem) _ _).trans (h.kept hitem)
    · exact update_self _ _ _
  · intro k s
    show Function.update g.index _ _ k = _ ↔ Function.update g.label _ _ s = _
    by_cases hk : k = key n p
    · subst hk
      rw [update_self]
      by_cases hs : s = r
      · subst hs; simp
      · rw [update_of_ne hs, ← h.inverse, hfree]
        simp only [Option.some.injEq, reduceCtorEq, iff_false]
        exact Ne.symm hs
    rw [update_of_ne hk]
    by_cases hs : s = r
    · subst hs
      rw [update_self, h.inverse, hlabel]
      simp only [reduceCtorEq, Option.some.injEq, false_iff]
      exact Ne.symm hk
    · rw [update_of_ne hs]; exact h.inverse
  · intro k s hk
    change Function.update g.index _ _ k = _ at hk
    by_cases hkey : k = key n p
    · subst hkey
      rw [update_self] at hk
      exact .inl ⟨p, n, .inr ⟨rfl, (some.inj hk).symm, rfl⟩⟩
    · rw [update_of_ne hkey] at hk
      rcases h.somewhere hk with ⟨q, m, hitem⟩ | hr
      · exact .inl ⟨q, m, .inl hitem⟩
      · exact .inr hr
  · rintro q s m (hitem | ⟨rfl, rfl, rfl⟩)
    · exact h.apart hitem
    · exact hnot
  · rintro q q' s m m' (hitem | ⟨hq, hs, hm⟩) (hitem' | ⟨hq', hs', hm'⟩)
    · exact h.one hitem hitem'
    · exact absurd (hs' ▸ hitem) (hnew _ _)
    · exact absurd (hs ▸ hitem') (hnew _ _)
    · exact ⟨hq.trans hq'.symm, hm.trans hm'.symm⟩

theorem drop {k : K} (hk : g.index k = some r) : Sound key aside late (g.drop r k) := by
  have hkey : ∀ {k' s}, s ≠ r → g.index k' = some s → k' ≠ k := by
    intro k' s hs hk' heq
    rw [heq, hk] at hk'
    exact hs (some.inj hk').symm
  refine ⟨?_, ?_, ?_, ?_, ?_⟩
  · rintro q s m ⟨hitem, hs⟩; exact (update_of_ne (hkey hs (h.kept hitem)) _ _).trans (h.kept hitem)
  · intro k' s
    show Function.update g.index _ _ k' = _ ↔ Function.update g.label _ _ s = _
    by_cases hs : s = r
    · subst hs
      rw [update_self]
      simp only [reduceCtorEq, iff_false]
      by_cases hk' : k' = k
      · rw [hk']; simp
      · rw [update_of_ne hk', h.inverse, h.inverse.mp hk]
        simp only [Option.some.injEq]
        exact Ne.symm hk'
    · rw [update_of_ne hs, ← h.inverse]
      by_cases hk' : k' = k
      · rw [hk', update_self, hk]
        simp only [reduceCtorEq, Option.some.injEq, false_iff]
        exact Ne.symm hs
      · rw [update_of_ne hk']
  · intro k' s hk'
    change Function.update g.index _ _ k' = _ at hk'
    have hne : k' ≠ k := by
      intro heq
      rw [heq, update_self] at hk'
      cases hk'
    rw [update_of_ne hne] at hk'
    rcases h.somewhere hk' with ⟨q, m, hitem⟩ | hr
    · refine .inl ⟨q, m, hitem, ?_⟩
      intro hs
      rw [hs, h.inverse, h.inverse.mp hk] at hk'
      exact hne (some.inj hk').symm
    · exact .inr hr
  · intro q s m hitem; exact h.apart hitem.1
  · intro q q' s m m' hitem hitem'; exact h.one hitem.1 hitem'.1

theorem forget (hr : ∀ p n, ¬ g.items p r n) : Sound key aside late (g.forget r) := by
  unfold Register.forget
  split
  · next k hk =>
    refine (h.drop (h.inverse.mpr hk)).congr (fun p s n => ?_) rfl rfl fun _ => Iff.rfl
    refine ⟨fun hitem => ⟨hitem, ?_⟩, And.left⟩
    rintro rfl
    exact hr p n hitem
  · exact h

end

end Operations

end Sound

/-! ## Forgetting -/

section Forget

variable [DecidableEq R] [DecidableEq K]

section

variable (g : Register P R N K)

include g

theorem items_forget (r : R) : (g.forget r).items = g.items := by
  unfold forget
  split <;> rfl

theorem label_forget (r s : R) : (g.forget r).label s = if s = r then none else g.label s := by
  unfold forget
  split
  · show Function.update g.label r none s = _
    rw [update_apply]
  · next hr =>
    split
    · next hs => rw [hs, hr]
    · rfl

theorem label_forgetAll (rs : List R) (s : R) :
    (rs.foldl forget g).label s = if s ∈ rs then none else g.label s := by
  induction rs generalizing g with
  | nil => rfl
  | cons r rs ih =>
    rw [foldl_cons, ih, label_forget]
    by_cases hs : s ∈ rs
    · rw [if_pos hs, if_pos (mem_cons_of_mem r hs)]
    rw [if_neg hs]
    by_cases hr : s = r
    · rw [if_pos hr, if_pos (mem_cons.mpr (.inl hr))]
    · rw [if_neg hr, if_neg]
      intro hmem
      rcases mem_cons.mp hmem with heq | hmem
      · exact hr heq
      · exact hs hmem

end

variable {key : N → P → K} {aside : R → Prop} {late : Prop} {g : Register P R N K}
variable {rs : List R}

section

variable (h : Sound key aside late g)

include h

theorem Sound.forgetAll (hrs : ∀ r ∈ rs, ∀ p n, ¬ g.items p r n) :
    Sound key aside late (rs.foldl Register.forget g) := by
  induction rs generalizing g with
  | nil => exact h
  | cons r rs ih =>
    refine ih (h.forget (hrs r mem_cons_self)) ?_
    intro s hs p n
    rw [items_forget]
    exact hrs s (mem_cons_of_mem r hs) p n

theorem Sound.sweep (hrs : ∀ r ∈ rs, ∀ p n, ¬ g.items p r n)
    (hall : ∀ r, aside r → r ∈ rs) : Sound key aside False (rs.foldl Register.forget g) := by
  refine (h.forgetAll hrs).settled ?_
  intro r hr
  rw [label_forgetAll, if_pos (hall r hr)]

theorem Sound.clear (rs : List R) (hitems : ∀ p r n, g.items p r n → r ∈ rs)
    (haside : ∀ r, aside r → r ∈ rs) : (rs.foldl Register.forget g).label = fun _ => none := by
  funext s
  rw [label_forgetAll]
  split
  · rfl
  · next hs =>
    rw [eq_none_iff_forall_not_mem]
    intro k hk
    rcases h.somewhere (h.inverse.mpr hk) with ⟨p, n, hitem⟩ | ⟨-, hr⟩
    · exact hs (hitems p s n hitem)
    · exact hs (haside s hr)

end

end Forget

/-! ## Where names were last put -/

/-- Each item is where its title was last put; the title follows from the name and the place. -/
def Placed {T : Type} (title : N → P → T) (last : T → Option P) (g : Register P R N K) : Prop :=
  ∀ p r n, g.items p r n → last (title n p) = some p

variable {T : Type}

theorem Placed.put [DecidableEq T] {title : N → P → T} {last : T → Option P} {g : Register P R N K}
    (h : g.Placed title last) (halone : ∀ q r m, g.items q r m → title m q = title n p → q = p)
    (hitems : ∀ q r m, g'.items q r m → g.items q r m ∨ q = p ∧ m = n) :
    g'.Placed title (Function.update last (title n p) (some p)) := by
  intro q r m hitem
  rcases hitems q r m hitem with hold | ⟨rfl, rfl⟩
  · by_cases htitle : title m q = title n p
    · rw [htitle, update_self, halone q r m hold htitle]
    · rw [update_of_ne htitle]; exact h q r m hold
  · exact update_self _ _ _

theorem Placed.mono {title : N → P → T} {last : T → Option P} {g : Register P R N K}
    (h : g.Placed title last) (hitems : ∀ q r m, g'.items q r m → g.items q r m) :
    g'.Placed title last := fun q r m hitem => h q r m (hitems q r m hitem)

end Register

end Lib

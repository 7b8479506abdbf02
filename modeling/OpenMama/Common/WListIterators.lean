import OpenMama.Common.WListRuns

/-!
# Iterators of a list that changes

An iterator cuts the list in two: what is before it was passed, and what is after it is still
to come (`Follows`).  Each change of the list moves the cut along, but for the removal of
the last element under an iterator, which takes it back to the first.
-/

namespace Common.WList

open Lib List

/-- A traversal between what was passed and what is to come: of the elements that stay, the
passed ones were returned once and in order. -/
structure Traversal.Follows (t : Traversal) (xs ys : List Node) : Prop where
  stays : ∃ sx sy, t.stays = sx ++ sy ∧ sx.Sublist xs ∧ sy.Sublist ys ∧
    t.returned.filter (· ∈ t.stays) = sx
  bound : t.returned.length + ys.length ≤ t.available
  ended : t.ended → ys = []

/-- An iterator stands between two parts of the list, and its traversal with it. -/
def Traversing (live : List Node) (i : Iterator) : Prop :=
  ∃ xs ys, live = xs ++ ys ∧ i.currentElement = some (firstOf ys .tail) ∧
    ∀ t, i.traversal = some t → t.Follows xs ys

variable {live xs ys xs' ys' : List Node} {a e : Node} {i : Iterator} {t : Traversal}

/-! ## Changes of the list -/

theorem Traversal.Follows.grown (h : t.Follows xs ys) (hxs : xs.Sublist xs') (hys : ys.Sublist ys')
    (hlen : ys'.length ≤ ys.length + 1) (hended : ys = [] → ys' = []) :
    Traversal.Follows { t with available := t.available + 1 } xs' ys' := by
  obtain ⟨sx, sy, hstays, hsx, hsy, hreturned⟩ := h.stays
  have hbound := h.bound
  refine ⟨⟨sx, sy, hstays, hsx.trans hxs, hsy.trans hys, hreturned⟩, ?_,
    fun hend => hended (h.ended hend)⟩
  show t.returned.length + ys'.length ≤ t.available + 1
  omega

theorem Traversal.Follows.without (h : t.Follows xs ys) :
    Traversal.Follows { t with stays := t.stays.filter (· ≠ e) } (xs.filter (· ≠ e))
      (ys.filter (· ≠ e)) := by
  obtain ⟨sx, sy, hstays, hsx, hsy, hreturned⟩ := h.stays
  refine ⟨⟨sx.filter (· ≠ e), sy.filter (· ≠ e), ?_, hsx.filter _, hsy.filter _, ?_⟩, ?_, ?_⟩
  · rw [hstays, filter_append]
  · rw [← hreturned, filter_filter]
    refine filter_congr fun a _ => ?_
    simp [and_comm]
  · have hbound := h.bound
    have hle := length_filter_le (· ≠ e) ys
    show t.returned.length + (ys.filter (· ≠ e)).length ≤ t.available
    omega
  · intro hended
    rw [h.ended hended, filter_nil]

theorem filter_ne_self (he : e ∉ xs) : xs.filter (· ≠ e) = xs := by
  refine filter_eq_self.2 fun a ha => ?_
  have hne : a ≠ e := fun heq => he (heq ▸ ha)
  simpa using hne

theorem filter_ne_middle (h : (xs ++ e :: ys).Nodup) :
    (xs ++ e :: ys).filter (· ≠ e) = xs ++ ys := by
  rw [nodup_middle, nodup_cons, mem_append, not_or] at h
  have hcons : (e :: ys).filter (· ≠ e) = ys.filter (· ≠ e) := by simp
  rw [filter_append, hcons, filter_ne_self h.1.1, filter_ne_self h.1.2]

theorem Traversal.Follows.advances (h : t.Follows xs (a :: ys)) (hnodup : (xs ++ a :: ys).Nodup) :
    (t.record (some a)).Follows (xs ++ [a]) ys := by
  obtain ⟨sx, sy, hstays, hsx, hsy, hreturned⟩ := h.stays
  have hbound := h.bound
  rw [nodup_middle, nodup_cons, mem_append, not_or] at hnodup
  obtain ⟨⟨hxs, hys⟩, -⟩ := hnodup
  have hnot : a ∉ sx := fun hmem => hxs (hsx.subset hmem)
  refine ⟨?_, ?_, fun hended => absurd (h.ended hended) (by simp)⟩
  · show ∃ sx' sy', t.stays = sx' ++ sy' ∧ _ ∧ _ ∧
      (t.returned ++ [a]).filter (· ∈ t.stays) = sx'
    rw [filter_append, hreturned]
    cases hsy with
    | cons _ hsy =>
      -- The element came into the list later.
      have hnone : a ∉ t.stays := by
        rw [hstays, mem_append, not_or]; exact ⟨hnot, fun hmem => hys (hsy.subset hmem)⟩
      refine ⟨sx, sy, hstays, hsx.trans (sublist_append_left _ _), hsy, ?_⟩
      simp [hnone]
    | cons_cons _ hsy =>
      rename_i sy
      have hmem : a ∈ t.stays := by
        rw [hstays]; simp
      refine ⟨sx ++ [a], sy, ?_, hsx.append_right [a], hsy, ?_⟩
      · rw [hstays, append_assoc, singleton_append]
      · simp [hmem]
  · show (t.returned ++ [a]).length + ys.length ≤ t.available
    rw [length_append, length_singleton]
    rw [length_cons] at hbound
    omega

theorem Traversal.Follows.ends (h : t.Follows xs []) : (t.record none).Follows xs [] :=
  ⟨h.stays, h.bound, fun _ => rfl⟩

theorem traversing_first : Traversing live (atFirst live) := by
  refine ⟨[], live, rfl, rfl, fun t ht => ?_⟩
  cases ht
  refine ⟨⟨[], live, rfl, List.Sublist.refl _, List.Sublist.refl _, rfl⟩, ?_, ?_⟩
  · show 0 + live.length ≤ live.length; omega
  · exact nofun

theorem traversing_of_mem (hnone : i.traversal = none) (ha : a ∈ live)
    (hcur : i.currentElement = some a) : Traversing live i := by
  obtain ⟨xs, ys, rfl⟩ := append_of_mem ha
  refine ⟨xs, a :: ys, rfl, hcur, fun t ht => ?_⟩
  rw [hnone] at ht
  cases ht

theorem split_unique (hnodup : (xs ++ e :: ys).Nodup) (h : xs ++ e :: ys = xs' ++ e :: ys') :
    xs = xs' ∧ ys = ys' := by
  rw [nodup_middle, nodup_cons, mem_append, not_or] at hnodup
  obtain ⟨hxs, -, hys⟩ := (append_cons_inj_of_notMem hnodup.1.1 hnodup.1.2).1 h
  exact ⟨hxs, hys⟩

theorem Proper.nodup (h : Proper live) : live.Nodup := List.Nodup.of_append_left h

theorem Proper.tail_notMem (h : Proper live) : Node.tail ∉ live := fun hmem =>
  disjoint_of_nodup_append h hmem (mem_singleton.2 rfl)

theorem Proper.eq_nil_of_firstOf (h : Proper (xs ++ ys)) (htail : firstOf ys .tail = .tail) :
    ys = [] := by
  cases ys with
  | nil => rfl
  | cons a ys => rw [firstOf_cons] at htail; exact absurd (by simp [htail]) h.tail_notMem

theorem traversing_grows (h : Traversing (xs ++ ys) i) : Traversing (xs ++ e :: ys) i.grown := by
  obtain ⟨xs₁, ys₁, hsplit, hcur, hfollows⟩ := h
  have hgrown : ∀ xs' ys', xs₁.Sublist xs' → ys₁.Sublist ys' → ys'.length ≤ ys₁.length + 1 →
      (ys₁ = [] → ys' = []) → ∀ t, i.grown.traversal = some t → t.Follows xs' ys' := by
    intro xs' ys' hxs hys hlen hended t ht
    obtain ⟨t₀, ht₀, rfl⟩ := Option.map_eq_some_iff.1 ht
    exact (hfollows t₀ ht₀).grown hxs hys hlen hended
  rcases append_eq_append_iff.1 hsplit with ⟨m, rfl, rfl⟩ | ⟨m, rfl, rfl⟩
  · refine ⟨xs ++ e :: m, ys₁, by simp, hcur, hgrown _ _ ?_ (List.Sublist.refl _) (by omega) id⟩
    exact List.Sublist.append_left (sublist_cons_self e m) xs
  cases m with
  | nil =>
    -- The element comes in right before the iterator.
    refine ⟨xs₁ ++ [e], ys, by simp, hcur, hgrown _ _ ?_ (List.Sublist.refl _) (by simp) id⟩
    exact sublist_append_left xs₁ [e]
  | cons b m =>
    refine ⟨xs₁, b :: (m ++ e :: ys), by simp, hcur, hgrown _ _ (List.Sublist.refl _) ?_ ?_ ?_⟩
    · exact (List.Sublist.append_left (sublist_cons_self e ys) m).cons_cons b
    · simp; omega
    · exact nofun

theorem traversing_leaves (hproper : Proper (xs ++ e :: ys)) (h : Traversing (xs ++ e :: ys) i)
    (hlast : i.currentElement = some e → ys = [] → xs ≠ [] → i.traversal = none) :
    Traversing (xs ++ ys) (i.without e (firstOf (ys ++ xs) .tail)) := by
  by_cases hwrap : i.currentElement = some e ∧ ys = [] ∧ xs ≠ []
  · obtain ⟨hcur, rfl, hxs⟩ := hwrap
    obtain ⟨b, xs, rfl⟩ := exists_cons_of_ne_nil hxs
    refine traversing_of_mem (a := b) ?_ (by simp) (if_pos hcur)
    rw [Iterator.without, hlast hcur rfl hxs]
    rfl
  obtain ⟨xs₁, ys₁, hsplit, hcur, hfollows⟩ := h
  refine ⟨xs₁.filter (· ≠ e), ys₁.filter (· ≠ e), ?_, ?_, fun t ht => ?_⟩
  · rw [← filter_append, ← hsplit, filter_ne_middle hproper.nodup]
  · show (if i.currentElement = some e then _ else i.currentElement) = _
    rw [hcur] at hwrap ⊢
    rcases eq_or_ne (firstOf ys₁ .tail) e with heq | hne
    · rw [if_pos (congrArg some heq)]
      cases ys₁ with
      | nil => exact absurd (by simp [← heq]) hproper.tail_notMem
      | cons b ys₁ =>
        rw [firstOf_cons] at heq
        subst heq
        obtain ⟨-, rfl⟩ := split_unique hproper.nodup hsplit
        have hnodup : ([] ++ b :: ys).Nodup := hproper.nodup.of_append_right
        have hb : (b :: ys).filter (· ≠ b) = ys := filter_ne_middle hnodup
        rw [hb]
        cases ys with
        | nil =>
          have hxs : xs = [] := by
            by_contra hxs; exact hwrap ⟨rfl, rfl, hxs⟩
          rw [hxs, append_nil]
        | cons c ys => rfl
    rw [if_neg fun hsome => hne (Option.some.inj hsome)]
    cases ys₁ with
    | nil => rfl
    | cons b ys₁ =>
      have hb : (b :: ys₁).filter (· ≠ e) = b :: ys₁.filter (· ≠ e) :=
        filter_cons_of_pos (by simpa using hne)
      rw [hb, firstOf_cons, firstOf_cons]
  · obtain ⟨t₀, ht₀, rfl⟩ := Option.map_eq_some_iff.1 ht
    exact (hfollows t₀ ht₀).without

theorem traversing_rules :
    Rules Traversing (fun i => i.traversal = none) fun i => i.underWay = false where
  stands live i := by
    rintro ⟨xs, ys, hlive, hcur, -⟩; exact .inr ⟨xs, ys, hlive, hcur⟩
  begins live _ := traversing_first
  grows xs ys e i h _ := traversing_grows h
  leaves xs ys e i hproper h hlast := traversing_leaves hproper h hlast
  restarts live i _ _ _ hbegins := by
    rw [hbegins]; exact traversing_first
  advances xs ys a i hproper h hcur := by
    obtain ⟨xs₁, ys₁, hsplit, hcur₁, hfollows⟩ := h
    cases ys₁ with
    | nil => cases hcur.symm.trans hcur₁; exact absurd (by simp) hproper.tail_notMem
    | cons b ys₁ =>
      obtain rfl := Option.some.inj (hcur.symm.trans hcur₁)
      obtain ⟨rfl, rfl⟩ := split_unique hproper.nodup hsplit
      refine ⟨xs ++ [a], ys, by simp, rfl, fun t ht => ?_⟩
      obtain ⟨t₀, ht₀, rfl⟩ := Option.map_eq_some_iff.1 ht
      exact (hfollows t₀ ht₀).advances hproper.nodup
  ends live i hproper h htail := by
    obtain ⟨xs, ys, rfl, hcur, hfollows⟩ := h
    obtain rfl := hproper.eq_nil_of_firstOf (Option.some.inj (hcur.symm.trans htail))
    refine ⟨xs, [], rfl, hcur, fun t ht => ?_⟩
    obtain ⟨t₀, ht₀, rfl⟩ := Option.map_eq_some_iff.1 ht
    exact (hfollows t₀ ht₀).ends
  circles live a ha := traversing_of_mem rfl ha rfl

/-! ## Going round -/

/-- Calls of `iterator_next_circ` one after the other, with what they return. -/
def circulate (l : ListImpl) (it : Nat) : Nat → Option (List (Option Node) × ListImpl)
  | 0 => some ([], l)
  | n + 1 => do
    let (rval, l) ← iteratorNextCirc l it
    let (rvals, l) ← circulate l it n
    some (rval :: rvals, l)

variable {l l' : ListImpl} {it : Nat} {free ms : List Node}

theorem circulate_succ {rval : Option Node} {rvals : List (Option Node)} {l₁ l' : ListImpl}
    {n : Nat}
    (hcall : iteratorNextCirc l it = some (rval, l₁))
    (hrest : circulate l₁ it n = some (rvals, l')) :
    circulate l it (n + 1) = some (rval :: rvals, l') := by
  simp [circulate, hcall, hrest]

theorem circulate_add {rvals rvals' : List (Option Node)} {l₁ l' : ListImpl} {m n : Nat}
    (hfirst : circulate l it m = some (rvals, l₁)) (hrest : circulate l₁ it n = some (rvals', l')) :
    circulate l it (m + n) = some (rvals ++ rvals', l') := by
  induction m generalizing l rvals with
  | zero =>
    obtain ⟨rfl, rfl⟩ := Prod.mk.inj (Option.some.inj hfirst)
    rwa [Nat.zero_add]
  | succ m ih =>
    rw [circulate] at hfirst
    cases hcall : iteratorNextCirc l it with
    | none => simp [hcall] at hfirst
    | some r =>
      cases hthen : circulate r.2 it m with
      | none => simp [hcall, hthen] at hfirst
      | some rs =>
        simp only [hcall, hthen, Option.bind_eq_bind, Option.bind_some] at hfirst
        obtain ⟨rfl, rfl⟩ := hfirst
        rw [Nat.add_right_comm]
        exact circulate_succ hcall (ih hthen)

theorem setIterator_current (l : ListImpl) (it : Nat) (i : Iterator) :
    (setIterator l it i).iterator it = i := Function.update_self ..

/-- A stretch of the list is returned, and the iterator stands behind it, or at the first
element if the list ends there. -/
theorem Rep.circulate_stretch (h : Rep l (xs ++ ms ++ ys) free)
    (hcur : (l.iterator it).currentElement = some (firstOf (ms ++ (ys ++ xs)) .tail)) :
    ∃ l', circulate l it ms.length = some (ms.map some, l') ∧ Rep l' (xs ++ ms ++ ys) free ∧
      (l'.iterator it).currentElement = some (firstOf (ys ++ (xs ++ ms)) .tail) := by
  induction ms generalizing l xs with
  | nil =>
    refine ⟨l, rfl, h, ?_⟩
    rwa [append_nil]
  | cons b ms ih =>
    have hsplit : xs ++ b :: ms ++ ys = xs ++ b :: (ms ++ ys) := by simp
    have hmove : xs ++ b :: ms ++ ys = (xs ++ [b]) ++ ms ++ ys := by simp
    rw [hsplit] at h
    have hcall := h.iteratorNextCirc_element hcur
    have hrep : Rep (setIterator l it
        { currentElement := some (firstOf (ms ++ ys ++ (xs ++ [b])) .tail) })
        ((xs ++ [b]) ++ ms ++ ys) free := by
      rw [← hmove, hsplit]
      exact h.of_iterators
    obtain ⟨l', hrest, h', hcur'⟩ := ih hrep (by
      rw [setIterator_current, append_assoc])
    refine ⟨l', circulate_succ hcall hrest, hmove ▸ h', ?_⟩
    rw [hcur', append_assoc, singleton_append]

theorem Rep.circulate_all (h : Rep l live free) (htraversing : Placed live (l.iterator it))
    (hnone : (l.iterator it).currentElement ≠ none) :
    ∃ rvals l', circulate l it live.length = some (rvals, l') ∧ rvals.Perm (live.map some) := by
  obtain ⟨xs, ys, rfl, hcur⟩ := htraversing.resolve_left hnone
  cases ys with
  | nil =>
    cases xs with
    | nil => exact ⟨[], l, rfl, List.Perm.nil⟩
    | cons a xs =>
      rw [append_nil] at h ⊢
      have hcall := h.iteratorNextCirc_end hcur
      have hrep : Rep (setIterator l it { currentElement := some (firstOf (xs ++ [a]) .tail) })
          ([a] ++ xs ++ []) free := by
        rw [append_nil]
        exact h.of_iterators
      obtain ⟨l', hrest, -, -⟩ := hrep.circulate_stretch (congrArg _ (setIterator_current l it _))
      exact ⟨_, l', circulate_succ hcall hrest, List.Perm.refl _⟩
  | cons a ys =>
    have hrep : Rep l (xs ++ (a :: ys) ++ []) free := by rwa [append_nil]
    obtain ⟨l₁, hfirst, h₁, hcur₁⟩ := hrep.circulate_stretch hcur
    have hrep₁ : Rep l₁ ([] ++ xs ++ (a :: ys)) free := by rwa [append_nil] at h₁
    have hcur₂ : (l₁.iterator it).currentElement =
        some (firstOf (xs ++ (a :: ys ++ [])) .tail) := by
      rw [hcur₁, append_nil, nil_append]
    obtain ⟨l', hrest, -, -⟩ := hrep₁.circulate_stretch hcur₂
    have hall := circulate_add hfirst hrest
    rw [length_append, Nat.add_comm]
    refine ⟨_, l', hall, ?_⟩
    rw [map_append]
    exact perm_append_comm

/-! ## Whole runs -/

/-- The elements of the list that stay are returned once and in order, all of them before null,
and no more elements than were there or put in. -/
def Traversal.Sound (t : Traversal) (live : List Node) : Prop :=
  t.stays.Sublist live ∧ t.returned.filter (· ∈ t.stays) <+: t.stays ∧
    (t.ended → t.returned.filter (· ∈ t.stays) = t.stays) ∧
    t.returned.length ≤ t.available

/-- Every iterator has a node of the list for its current element, its traversal is sound, and
going round it meets every element once. -/
def IteratorsSurvive (l : ListImpl) : Prop :=
  ∃ live, Listed l.mNext (prevNode l) some .head .tail live ∧ (live ++ [Node.tail]).Nodup ∧
    l.size = live.length ∧ ∀ it ∈ l.iterators,
      (∃ a, (l.iterator it).currentElement = some a ∧ (a = .head ∨ a = .tail ∨ a ∈ live)) ∧
      (∀ t, (l.iterator it).traversal = some t → t.Sound live) ∧
      ∃ rvals l', circulate l it live.length = some (rvals, l') ∧ rvals.Perm (live.map some)

theorem Traversal.Follows.sound {t : Traversal} (h : t.Follows xs ys) : t.Sound (xs ++ ys) := by
  obtain ⟨sx, sy, hstays, hsx, hsy, hreturned⟩ := h.stays
  have hbound := h.bound
  refine ⟨hstays ▸ hsx.append hsy, ?_, fun hended => ?_, by omega⟩
  · rw [hreturned, hstays]; exact prefix_append sx sy
  · rw [hreturned, hstays]
    rw [h.ended hended] at hsy
    rw [sublist_nil.1 hsy, append_nil]

theorem Inv.survive (h : Inv Traversing l live free) : IteratorsSurvive l := by
  refine ⟨live, h.rep.links, h.rep.proper, h.rep.size, fun it hit => ⟨?_, fun t ht => ?_, ?_⟩⟩
  · obtain ⟨xs, ys, rfl, hcur, -⟩ := h.keeps it hit
    refine ⟨_, hcur, .inr ?_⟩
    rcases mem_append.1 (firstOf_mem ys .tail) with hmem | hmem
    · exact .inr (mem_append_right _ hmem)
    · exact .inl (mem_singleton.1 hmem)
  · obtain ⟨xs, ys, rfl, -, hfollows⟩ := h.keeps it hit
    exact (hfollows t ht).sound
  · obtain ⟨xs, ys, rfl, hcur, -⟩ := h.keeps it hit
    exact h.rep.circulate_all (.inr ⟨xs, ys, rfl, hcur⟩) (by simp [hcur])

/-- No iterator in a traversal goes back to the first element: not from the last element, where
that is taken out, and not from the end, where it is asked for its current node.  No iterator goes
round an empty list. -/
def MeetsIterators (l : ListImpl) (c : Label) : Prop :=
  Meets l c ∧
    (∀ n, Removes l n c → ∀ it ∈ l.iterators, OnLast l it (.element n) →
      (l.iterator it).traversal = none) ∧
    (∀ it, LooksAt it c → AtEnd l it → (l.iterator it).underWay = false) ∧
    ∀ it, c = .iteratorNextCirc it → l.size ≠ 0

theorem MeetsIterators.of_meets {c : Label} (h : Meets l c) (hremoves : ∀ n, ¬ Removes l n c)
    (hlooks : ∀ it, ¬ LooksAt it c) (hcirc : ∀ it, c ≠ .iteratorNextCirc it) : MeetsIterators l c :=
  ⟨h, fun n hn => absurd hn (hremoves n), fun it hit => absurd hit (hlooks it),
    fun it heq => absurd heq (hcirc it)⟩

/-- The iterators survive, and no call fails, in every run whose calls meet the condition. -/
theorem survive_of_runs (l : ListImpl)
    (hl : Runs step (fun l c => OfList l c ∧ MeetsIterators l c) create l) :
    IteratorsSurvive l ∧ ∀ c, OfList l c → MeetsIterators l c → ∃ l', step l c = some l' := by
  have hstep : ∀ l live free c, Inv Traversing l live free → OfList l c → MeetsIterators l c →
      ∃ l', step l c = some l' ∧ ∃ live' free', Inv Traversing l' live' free' :=
    fun l live free c h hof ⟨hmeets, hlast, hend, hsize⟩ =>
      h.step traversing_rules hof hmeets hlast hend fun it heq hzero => absurd hzero (hsize it heq)
  obtain ⟨live, free, h⟩ := hl.invariant (P := fun l => ∃ live free, Inv Traversing l live free)
    ⟨[], [], inv_create Traversing⟩ fun l c l' ⟨live, free, h⟩ ⟨hof, hmeets⟩ hrun => by
      obtain ⟨l₁, hrun₁, hinv⟩ := hstep l live free c h hof hmeets
      cases hrun₁.symm.trans hrun
      exact hinv
  refine ⟨h.survive, fun c hof hmeets => ?_⟩
  obtain ⟨l', hrun, -⟩ := hstep l live free c h hof hmeets
  exact ⟨l', hrun⟩

/-- The element under an iterator is removed, and the others are returned once. -/
theorem survive_of_runs_removed : ∃ l,
    [.allocateElement, .pushBack 0, .allocateElement, .pushBack 1, .createIterator,
      .removeElement 0, .iteratorNext 0, .iteratorNext 0].foldlM step create = some l ∧
    (l.iterator 0).traversal = some
      { stays := [.element 1], available := 2, returned := [.element 1], ended := true } ∧
    IteratorsSurvive l := by
  refine ⟨_, rfl, rfl, (survive_of_runs _ ?_).1⟩
  have h₀ : Runs step (fun l c => OfList l c ∧ MeetsIterators l c) create create := Runs.init
  have h₁ := h₀.step (l := Label.allocateElement)
    ⟨trivial, .of_meets trivial (fun _ => id) (fun _ => id) (by simp)⟩ rfl
  have h₂ := h₁.step (l := Label.pushBack 0)
    ⟨Nat.zero_lt_one, .of_meets rfl (fun _ => id) (fun _ => id) (by simp)⟩ rfl
  have h₃ := h₂.step (l := Label.allocateElement)
    ⟨trivial, .of_meets trivial (fun _ => id) (fun _ => id) (by simp)⟩ rfl
  have h₄ := h₃.step (l := Label.pushBack 1)
    ⟨Nat.one_lt_two, .of_meets rfl (fun _ => id) (fun _ => id) (by simp)⟩ rfl
  have h₅ := h₄.step (l := Label.createIterator)
    ⟨trivial, .of_meets trivial (fun _ => id) (fun _ => id) (by simp)⟩ rfl
  have h₆ := h₅.step (l := Label.removeElement 0) ⟨Nat.zero_lt_two, trivial, by
    rintro n hn it - ⟨-, hnext, -⟩
    obtain rfl : 0 = n := hn
    exact absurd hnext (by decide), fun _ => False.elim, by simp⟩ rfl
  have h₇ := h₆.step (l := Label.iteratorNext 0) ⟨mem_singleton.2 rfl,
    .of_meets (nofun) (fun _ => id) (fun _ => id) (by simp)⟩ rfl
  exact h₇.step (l := Label.iteratorNext 0) ⟨mem_singleton.2 rfl,
    .of_meets (nofun) (fun _ => id) (fun _ => id) (by simp)⟩ rfl

/-- Going round an empty list leaves an iterator without a current element. -/
theorem not_survive : ¬ ∀ l, Runs step OfList create l → IteratorsSurvive l := by
  intro h
  have h₀ : Runs step OfList create create := Runs.init
  have h₁ := h₀.step (l := Label.createIterator) trivial rfl
  have h₂ := h₁.step (l := Label.iteratorNextCirc 0) (mem_singleton.2 rfl) rfl
  obtain ⟨live, -, -, -, hall⟩ := h _ h₂
  obtain ⟨⟨a, hcur, -⟩, -⟩ := hall 0 (mem_singleton.2 rfl)
  have hnone : (none : Option Node) = some a := hcur
  cases hnone

/-- A traversal that the last element is removed under returns the first one twice. -/
example : ([.allocateElement, .pushBack 0, .allocateElement, .pushBack 1, .createIterator,
    .iteratorNext 0, .removeElement 1, .iteratorNext 0].foldlM step create).map
      (fun l => (l.iterator 0).traversal) = some (some
        { stays := [.element 0], available := 2, returned := [.element 0, .element 0] }) := rfl

end Common.WList

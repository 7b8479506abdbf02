import OpenMama.Mamda.DepthStep

/-!
# What the depth filter shows

`Shows x full` says that each half of the truncated book is the top of the full
book, that the depth is its number of levels and the cached price that of its
worst level.  `DepthFilter.shown_of_run` keeps it over runs, as long as the events
stay clear of what the filter gets wrong (`DepthEvent.Fits`): halves of a recap
that are empty, a book that is cleared while it has levels, a first level better
than the price that is cached, the last level being deleted with none to take its
place, a level that is added or deleted twice, and a deletion in the middle of a
message that is followed by others.
-/

namespace Mamda

open Mama Lib SortedMap List Option

/-! ## What a step keeps -/

/-- One half of the full book once a delta has been worked in. -/
def workedHalf (full : PtrMap) (d : BasicDelta) : PtrMap :=
  match d.plAction with
  | .add => full.insert d.level.price d.level.ref
  | .delete => full.erase d.level.price
  | _ => full

/-- The half is the top of the full half, its depth is right, and the cached price tells what is
in view from what is not. -/
structure HalfOk (n : Nat) (full : PtrMap) (s : BookSide) (h : HalfView) : Prop where
  top : IsTop (Better s) n full h.levels
  depth : h.depth = h.levels.toList.length
  shown : ∀ p, h.levels.find? p ≠ none → worse s p h.lastPrice = false
  hidden : ∀ p, full.find? p ≠ none → h.levels.find? p = none → worse s p h.lastPrice

/-- What a delta in scope must be for the filter to get it right: an ADD of a new price, in a view
whose levels all have sizes, or a DELETE of a price that is there, after which the full book has
at the end of the view the level that belongs there. -/
def DeltaFits (n : Nat) (full : PtrMap) (b : FullBook) (s : BookSide) (h : HalfView)
    (d : BasicDelta) : Prop :=
  OutOfScope n s h d ∨
    match d.plAction with
    | .add => full.find? d.level.price = none ∧ (h.depth = n →
        ∀ p r, (h.levels.insert d.level.price d.level.ref).find? p = some r →
          (b.object r).size ≠ 0)
    | .delete => full.find? d.level.price ≠ none ∧
        b.getLevelAtPosition (sizeDec h.depth % 2 ^ 32) s =
          (bestFirst s (full.erase d.level.price))[h.depth - 1]?
    | _ => True

variable {out : List BasicDelta}

section Step

variable {n : Nat} {full : PtrMap} {b : FullBook} {s : BookSide} {d : BasicDelta} {h : HalfView}

theorem HalfOk.find?_ne_none (hok : HalfOk n full s h) (hin : ¬ OutOfScope n s h d)
    (hsome : full.find? d.level.price ≠ none) : h.levels.find? d.level.price ≠ none := by
  intro hnone
  have hworse := hok.hidden _ hsome hnone
  refine hin ⟨hworse, ?_⟩
  rw [hok.depth]
  by_contra hne
  have hlt : h.levels.toList.length < n := lt_of_le_of_ne hok.top.length_le hne
  rw [hok.top.eq_of_length_lt hlt] at hnone
  exact hsome hnone

theorem HalfOk.depth_le (hok : HalfOk n full s h) : h.depth ≤ n := by
  rw [hok.depth]
  exact hok.top.length_le

variable {p : Price}
variable {m : PtrMap} {l q : Price} {h' : HalfView} {processesEntries : Bool}

theorem length_pos_of_find? (h : m.find? p ≠ none) : 0 < m.toList.length := by
  obtain ⟨r, hr⟩ := ne_none_iff_exists'.mp h
  exact length_pos_of_mem (mem_toList.mpr hr)

/-- Where a deletion leaves a level to take the free place, the view was full, and it is full
again with that level. -/
theorem HalfOk.pulled (hok : HalfOk n full s h) (hsome : h.levels.find? p ≠ none) {a : Price × Ref}
    (hnext : (bestFirst s (full.erase p))[h.depth - 1]? = some a) :
    h.depth = n ∧ (h.levels.erase p).find? a.1 = none ∧
      (∀ q, (h.levels.erase p).find? q ≠ none → Better s q a.1) ∧
      IsTop (Better s) n (full.erase p) ((h.levels.erase p).insert a.1 a.2) := by
  obtain ⟨r, hr⟩ := ne_none_iff_exists'.mp hsome
  have hlen := length_erase (hok.top.sub p r hr)
  have hpos := length_pos_of_find? hsome
  have hsize := hok.top.size
  obtain ⟨hlt, -⟩ := List.getElem?_eq_some_iff.mp hnext
  rw [length_bestFirst] at hlt
  rw [hok.depth] at hlt hnext ⊢
  have hdepth : h.levels.toList.length = n := by omega
  rw [hdepth] at hnext
  cases n with
  | zero => omega
  | succ k =>
    have hrest := hok.top.erase hsome
    obtain ⟨hnone, hgrown⟩ := hrest.grow (ranks_bestFirst s _) (ranks_bestFirst s _) hnext
    refine ⟨hdepth, hnone, fun q hq => ?_, hgrown⟩
    have hmem : (full.erase p).find? a.1 = some a.2 :=
      mem_bestFirst.mp (mem_of_getElem? hnext)
    exact hrest.better q a.1 hq (by rw [hmem]; exact some_ne_none _) hnone

/-- **There is a step** for a delta that fits. -/
theorem HalfOk.step (hok : HalfOk n full s h) (hn : 0 < n) (hfits : DeltaFits n full b s h d)
    (processesEntries : Bool) : ∃ h' out, HalfStep processesEntries n b s d h h' out := by
  by_cases hout : OutOfScope n s h d
  · exact ⟨_, _, .outside hout⟩
  have hfits := hfits.resolve_left hout
  cases haction : d.plAction with
  | update => exact ⟨_, _, .update hout haction⟩
  | unknown => exact ⟨_, _, .unknown hout haction⟩
  | add =>
    rw [haction] at hfits
    obtain ⟨hnew, hsizes⟩ := hfits
    have hnone : h.levels.find? d.level.price = none := by
      by_contra hne
      obtain ⟨r, hr⟩ := ne_none_iff_exists'.mp hne
      rw [hok.top.sub _ _ hr] at hnew
      cases hnew
    by_cases hdepth : h.depth = n
    · -- at least two levels are in view, so there is a worst and one before it
      have hlen : (b.visible s (h.levels.insert d.level.price d.level.ref)).reverse.length =
          n + 1 := by
        rw [FullBook.visible_eq (hsizes hdepth), length_reverse, length_bestFirst,
          length_insert_new hnone, ← hok.depth, hdepth]
      cases hview : (b.visible s (h.levels.insert d.level.price d.level.ref)).reverse with
      | nil => simp [hview] at hlen
      | cons worst rest =>
        cases rest with
        | nil => rw [hview, length_singleton] at hlen; omega
        | cons last rest => exact ⟨_, _, .addFull hout haction hdepth hnone worst last rest hview⟩
    · exact ⟨_, _, .addSmall hout haction hdepth hnone⟩
  | delete =>
    rw [haction] at hfits
    obtain ⟨hold, hnext⟩ := hfits
    have hsome := hok.find?_ne_none hout hold
    cases hget : b.getLevelAtPosition (sizeDec h.depth % 2 ^ 32) s with
    | none => exact ⟨_, _, .deleteLast hout haction hsome hget⟩
    | some a =>
      rw [hnext] at hget
      have hpulled := hok.pulled hsome hget
      exact ⟨_, _, .deletePull hout haction hsome a (hnext.trans hget) hpulled.2.1⟩

theorem better_of_worse (hq : worse s q l = false) (hp : worse s p l) : Better s q p := by
  rw [worse_iff] at hp
  rcases trichotomous_of (Better s) q l with h | h | h
  · exact trans_of (Better s) h hp
  · rwa [h]
  · rw [worse_iff.mpr h] at hq; cases hq

theorem not_worse_of_better (h : Better s p q) : worse s p q = false := by
  refine Bool.eq_false_iff.mpr fun hw => ?_
  exact asymm_of (Better s) h (worse_iff.mp hw)

theorem not_worse_self (s : BookSide) (p : Price) : worse s p p = false := by
  cases s <;> simp [worse]

theorem worst_two {worst last : Price × Ref} {rest : List (Price × Ref)}
    (hview : (bestFirst s m).reverse = worst :: last :: rest) :
    m.find? worst.1 = some worst.2 ∧ m.find? last.1 = some last.2 ∧ Better s last.1 worst.1 ∧
      (∀ p, m.find? p ≠ none → p ≠ worst.1 → Better s p worst.1) ∧
      ∀ p, m.find? p ≠ none → p ≠ worst.1 → p ≠ last.1 → Better s p last.1 := by
  have hall : bestFirst s m = rest.reverse ++ [last, worst] := by
    rw [← reverse_reverse (bestFirst s m), hview]; simp
  have hsorted := (ranks_bestFirst s m).sorted
  rw [hall, pairwise_append] at hsorted
  obtain ⟨-, htwo, hbefore⟩ := hsorted
  have hlast : Better s last.1 worst.1 := by simpa using htwo
  have hcases : ∀ p, m.find? p ≠ none → p = last.1 ∨ p = worst.1 ∨ ∃ r, (p, r) ∈ rest.reverse := by
    intro p hp
    obtain ⟨r, hr⟩ := ne_none_iff_exists'.mp hp
    have hmem := mem_bestFirst (s := s).mpr hr
    rw [hall, mem_append, mem_cons, mem_singleton] at hmem
    rcases hmem with hmem | hmem | hmem
    · exact .inr (.inr ⟨r, hmem⟩)
    · exact .inl (congrArg Prod.fst hmem)
    · exact .inr (.inl (congrArg Prod.fst hmem))
  refine ⟨mem_bestFirst.mp (by rw [hall]; simp), mem_bestFirst.mp (by rw [hall]; simp), hlast,
    fun p hp hne => ?_, fun p hp hne hne' => ?_⟩
  · rcases hcases p hp with h | h | ⟨r, hr⟩
    · rwa [h]
    · exact absurd h hne
    · exact hbefore _ hr _ (by simp)
  · rcases hcases p hp with h | h | ⟨r, hr⟩
    · exact absurd h hne'
    · exact absurd h hne
    · exact hbefore _ hr _ (by simp)

/-- **A step keeps the half right.** -/
theorem HalfStep.ok (hstep : HalfStep processesEntries n b s d h h' out) (hok : HalfOk n full s h)
    (hn : n < 2 ^ 64) (hfits : DeltaFits n full b s h d) : HalfOk n (workedHalf full d) s h' := by
  have hdepth := hok.depth
  have hle := hok.depth_le
  unfold workedHalf
  cases hstep with
  | outside hout =>
    obtain ⟨hworse, hfull⟩ := hout
    have hnone : h.levels.find? d.level.price = none := by
      by_contra hne
      rw [hok.shown _ hne] at hworse
      cases hworse
    have hfull' : h.levels.toList.length = n := hdepth.symm.trans hfull
    cases d.plAction with
    | update => exact hok
    | unknown => exact hok
    | add =>
      refine ⟨hok.top.insert_outside hfull' _ hnone fun q hq => ?_, hdepth, hok.shown, ?_⟩
      · exact better_of_worse (hok.shown q hq) hworse
      · intro q hq hqnone
        rw [find?_insert] at hq
        split at hq
        · next heq => rwa [heq]
        · exact hok.hidden q hq hqnone
    | delete =>
      refine ⟨hok.top.erase_outside hfull' hnone, hdepth, hok.shown, ?_⟩
      intro q hq hqnone
      rw [find?_erase] at hq
      split at hq
      · exact absurd rfl hq
      · exact hok.hidden q hq hqnone
  | update hin haction => rwa [haction]
  | unknown hin haction => rwa [haction]
  | addSmall hin haction hne hnone =>
    rw [haction]
    have hlt : h.levels.toList.length < n := by omega
    have heq := hok.top.eq_of_length_lt hlt
    refine ⟨hok.top.insert_small hlt _ _ (heq ▸ hnone), ?_, ?_, ?_⟩
    · show sizeInc h.depth = _
      rw [length_insert_new hnone]
      unfold sizeInc
      omega
    · intro q hq
      rw [find?_insert] at hq
      split at hq
      · next hqp =>
        rw [hqp]
        split
        · exact not_worse_self s _
        · next hnw => exact Bool.eq_false_iff.mpr hnw
      · have hqlast := hok.shown q hq
        split
        · next hw => exact not_worse_of_better (better_of_worse hqlast hw)
        · exact hqlast
    · intro q hq hqnone
      rw [heq] at hqnone
      exact absurd hqnone hq
  | addFull hin haction hfull hnone worst last rest hview =>
    rw [haction]
    have hsizes : ∀ p r, (h.levels.insert d.level.price d.level.ref).find? p = some r →
        (b.object r).size ≠ 0 := by
      have hfits := hfits.resolve_left hin
      rw [haction] at hfits
      exact hfits.2 hfull
    have hnew : full.find? d.level.price = none := by
      have hfits := hfits.resolve_left hin
      rw [haction] at hfits
      exact hfits.1
    rw [FullBook.visible_eq hsizes] at hview
    obtain ⟨hworst, hlast, hlw, hbw, hbl⟩ := worst_two hview
    have htop := hok.top.insert_full (hdepth.symm.trans hfull) d.level.ref hnew
      (by rw [hworst]; exact some_ne_none _) hbw
    have hlastIn : ((h.levels.insert d.level.price d.level.ref).erase worst.1).find? last.1 =
        some last.2 := by
      rw [find?_erase, if_neg (ne_of_irrefl (r := Better s) hlw), hlast]
    refine ⟨htop, ?_, ?_, ?_⟩
    · have hlen := length_erase hworst
      rw [length_insert_new hnone] at hlen
      dsimp only
      omega
    · intro q hq
      rw [find?_erase] at hq
      split at hq
      · exact absurd rfl hq
      · next hqw =>
        by_cases hql : q = last.1
        · rw [hql]; exact not_worse_self s _
        · exact not_worse_of_better (hbl q hq hqw hql)
    · intro q hq hqnone
      exact worse_iff.mpr (htop.better last.1 q (by rw [hlastIn]; exact some_ne_none _) hq
        hqnone)
  | deletePull hin haction hsome a hnext hnew =>
    rw [haction]
    have hget : (bestFirst s (full.erase d.level.price))[h.depth - 1]? = some a := by
      have hfits := hfits.resolve_left hin
      rw [haction] at hfits
      exact hfits.2.symm.trans hnext
    obtain ⟨hfull, -, hbetter, htop⟩ := hok.pulled hsome hget
    have haIn : ((h.levels.erase d.level.price).insert a.1 a.2).find? a.1 ≠ none := by
      rw [find?_insert_self]; exact some_ne_none _
    refine ⟨htop, ?_, ?_, ?_⟩
    · obtain ⟨r, hr⟩ := ne_none_iff_exists'.mp hsome
      rw [length_insert_new hnew, ← length_erase hr, hdepth]
    · intro q hq
      rw [find?_insert] at hq
      split at hq
      · next hqa => rw [hqa]; exact not_worse_self s _
      · exact not_worse_of_better (hbetter q hq)
    · intro q hq hqnone; exact worse_iff.mpr (htop.better a.1 q haIn hq hqnone)
  | deleteLast hin haction hsome hnext =>
    rw [haction]
    obtain ⟨r, hr⟩ := ne_none_iff_exists'.mp hsome
    have hlen := length_erase hr
    have hlen' := length_erase (hok.top.sub _ _ hr)
    have hget : (bestFirst s (full.erase d.level.price))[h.depth - 1]? = none := by
      have hfits := hfits.resolve_left hin
      rw [haction] at hfits
      exact hfits.2.symm.trans hnext
    rw [List.getElem?_eq_none_iff, length_bestFirst] at hget
    have hall : full.toList.length ≤ n := by omega
    have heq := hok.top.eq_self hall
    refine ⟨hok.top.erase_small hall _, ?_, ?_, ?_⟩
    · dsimp only
      unfold sizeDec
      omega
    · intro q hq
      rw [find?_erase] at hq
      split at hq
      · exact absurd rfl hq
      · exact hok.shown q hq
    · intro q hq hqnone
      rw [heq] at hqnone
      exact absurd hqnone hq

/-! ## The price of the worst level -/

/-- `l` is the price of the worst level. -/
structure IsLast (s : BookSide) (m : PtrMap) (l : Price) : Prop where
  mem : m.find? l ≠ none
  better : ∀ q, m.find? q ≠ none → q ≠ l → Better s q l

/-- The price of the worst level, where there is a level. -/
def LastRight (s : BookSide) (m : PtrMap) (l : Price) : Prop :=
  ∀ a, (bestFirst s m).getLast? = some a → l = a.1

theorem lastRight_iff : LastRight s m l ↔ m.toList = [] ∨ IsLast s m l := by
  constructor
  · intro h
    cases hlast : (bestFirst s m).getLast? with
    | none =>
      left
      rw [getLast?_eq_none_iff] at hlast
      rw [← length_eq_zero_iff, ← length_bestFirst s, hlast, length_nil]
    | some a =>
      right
      rw [h a hlast]
      obtain ⟨before, hall⟩ := getLast?_eq_some_iff.mp hlast
      have hsorted := (ranks_bestFirst s m).sorted
      rw [hall, pairwise_append] at hsorted
      refine ⟨?_, fun q hq hne => ?_⟩
      · have hmem : m.find? a.1 = some a.2 := mem_bestFirst.mp (mem_of_getLast? hlast)
        rw [hmem]
        exact some_ne_none _
      · obtain ⟨r, hr⟩ := ne_none_iff_exists'.mp hq
        have hmem := mem_bestFirst (s := s).mpr hr
        rw [hall, mem_append, mem_singleton] at hmem
        rcases hmem with hmem | hmem
        · exact hsorted.2.2 _ hmem a (mem_singleton.mpr rfl)
        · exact absurd (congrArg Prod.fst hmem) hne
  rintro (hnil | ⟨hmem, hbetter⟩) a ha
  · have hempty : bestFirst s m = [] := by
      rw [← length_eq_zero_iff, length_bestFirst, hnil, length_nil]
    rw [hempty] at ha
    cases ha
  by_contra hne
  obtain ⟨before, hall⟩ := getLast?_eq_some_iff.mp ha
  obtain ⟨r, hr⟩ := ne_none_iff_exists'.mp hmem
  have hin := mem_bestFirst (s := s).mpr hr
  have hsorted := (ranks_bestFirst s m).sorted
  rw [hall, pairwise_append] at hsorted
  rw [hall, mem_append, mem_singleton] at hin
  rcases hin with hin | hin
  · have haIn : m.find? a.1 = some a.2 := mem_bestFirst.mp (mem_of_getLast? ha)
    have hal := hbetter a.1 (by rw [haIn]; exact some_ne_none _) (Ne.symm hne)
    exact asymm_of (Better s) hal (hsorted.2.2 _ hin a (mem_singleton.mpr rfl))
  · exact hne (congrArg Prod.fst hin)

/-- What a delta in scope must be for the cached price to stay right: a first level that is not
better than it, and a DELETE of the worst level only where another comes into view or none is
left. -/
def LastFits (n : Nat) (full : PtrMap) (s : BookSide) (h : HalfView) (d : BasicDelta) : Prop :=
  OutOfScope n s h d ∨
    match d.plAction with
    | .add => h.depth = 0 → worse s h.lastPrice d.level.price = false
    | .delete => (bestFirst s (full.erase d.level.price))[h.depth - 1]? = none →
        d.level.price = h.lastPrice → h.depth = 1
    | _ => True

theorem HalfStep.lastRight (hstep : HalfStep processesEntries n b s d h h' out)
    (hok : HalfOk n full s h) (hfits : DeltaFits n full b s h d) (hlastFits : LastFits n full s h d)
    (hlast : LastRight s h.levels h.lastPrice) : LastRight s h'.levels h'.lastPrice := by
  have hdepth := hok.depth
  cases hstep with
  | outside hout => exact hlast
  | update hin haction => exact hlast
  | unknown hin haction => exact hlast
  | addSmall hin haction hne hnone =>
    have hfirst := hlastFits.resolve_left hin
    rw [haction] at hfirst
    rw [lastRight_iff] at hlast ⊢
    right
    by_cases hw : worse s d.level.price h.lastPrice
    · dsimp only
      rw [if_pos hw]
      refine ⟨?_, fun q hq hqp => ?_⟩
      · rw [find?_insert_self]; exact some_ne_none _
      · rw [find?_insert, if_neg hqp] at hq; exact better_of_worse (hok.shown q hq) hw
    dsimp only
    rw [if_neg hw]
    rcases hlast with hnil | ⟨hmem, hbetter⟩
    · -- the first level of the half
      have hzero : h.depth = 0 := by rw [hdepth, hnil, length_nil]
      have heq : d.level.price = h.lastPrice := by
        rcases trichotomous_of (Better s) d.level.price h.lastPrice with hb | hb | hb
        · rw [worse_iff.mpr hb] at hfirst; exact absurd (hfirst hzero) (by simp)
        · exact hb
        · exact absurd (worse_iff.mpr hb) hw
      rw [← heq]
      refine ⟨?_, fun q hq hqp => ?_⟩
      · rw [find?_insert_self]; exact some_ne_none _
      · rw [find?_insert, if_neg hqp, toList_eq_nil.mp hnil q] at hq; exact absurd rfl hq
    have hlp : h.lastPrice ≠ d.level.price := by
      intro heq
      rw [heq] at hmem
      exact hmem hnone
    refine ⟨?_, fun q hq hql => ?_⟩
    · rwa [find?_insert, if_neg hlp]
    rw [find?_insert] at hq
    split at hq
    · next hqp =>
      rw [hqp] at hql ⊢
      rcases trichotomous_of (Better s) d.level.price h.lastPrice with hb | hb | hb
      · exact hb
      · exact absurd hb hql
      · exact absurd (worse_iff.mpr hb) hw
    · exact hbetter q hq hql
  | addFull hin haction hfull hnone worst last rest hview =>
    have hfits := hfits.resolve_left hin
    rw [haction] at hfits
    rw [FullBook.visible_eq (hfits.2 hfull)] at hview
    obtain ⟨-, hlastIn, hlw, -, hbl⟩ := worst_two hview
    rw [lastRight_iff]
    right
    refine ⟨?_, fun q hq hql => ?_⟩
    · rw [find?_erase, if_neg (ne_of_irrefl (r := Better s) hlw), hlastIn]; exact some_ne_none _
    · rw [find?_erase] at hq
      split at hq
      · exact absurd rfl hq
      · next hqw => exact hbl q hq hqw hql
  | deletePull hin haction hsome a hnext hnew =>
    have hfits := hfits.resolve_left hin
    rw [haction] at hfits
    obtain ⟨-, -, hbetter, -⟩ := hok.pulled hsome (hfits.2.symm.trans hnext)
    rw [lastRight_iff]
    right
    refine ⟨?_, fun q hq hqa => ?_⟩
    · rw [find?_insert_self]; exact some_ne_none _
    · rw [find?_insert, if_neg hqa] at hq; exact hbetter q hq
  | deleteLast hin haction hsome hnext =>
    have hfits := hfits.resolve_left hin
    have hrest := hlastFits.resolve_left hin
    rw [haction] at hfits hrest
    obtain ⟨r, hr⟩ := ne_none_iff_exists'.mp hsome
    have hlen := length_erase hr
    rw [lastRight_iff] at hlast ⊢
    by_cases hone : h.depth = 1
    · left
      refine eq_nil_of_length_eq_zero ?_
      dsimp only
      omega
    right
    have hpl : d.level.price ≠ h.lastPrice := fun heq =>
      hone (hrest (hfits.2.symm.trans hnext) heq)
    rcases hlast with hnil | ⟨hmem, hbetter⟩
    · rw [toList_eq_nil.mp hnil] at hr; cases hr
    · refine ⟨?_, fun q hq hql => ?_⟩
      · rwa [find?_erase, if_neg (Ne.symm hpl)]
      · rw [find?_erase] at hq
        split at hq
        · exact absurd rfl hq
        · exact hbetter q hq hql

end Step

/-! ## What is shown -/

/-- One half shows the top of the full half, with the right depth and last price. -/
structure ShowsHalf (n : Nat) (full : PtrMap) (s : BookSide) (h : HalfView) : Prop where
  top : bestFirst s h.levels = (bestFirst s full).take n
  depth : h.depth = (bestFirst s h.levels).length
  last : LastRight s h.levels h.lastPrice

theorem showsHalf_empty (n : Nat) (s : BookSide) {h : HalfView} (hlevels : h.levels = .empty)
    (hdepth : h.depth = 0) : ShowsHalf n .empty s h := by
  have hnil : bestFirst s (.empty : PtrMap) = [] := by cases s <;> rfl
  refine ⟨?_, ?_, fun a ha => ?_⟩
  · rw [hlevels, hnil, take_nil]
  · rw [hlevels, hnil, hdepth]; rfl
  · rw [hlevels, hnil] at ha; cases ha

def DepthFilter.Shows (x : DepthFilter) (full : Sides PtrMap) : Prop :=
  ∀ s, ShowsHalf x.maxDepth (full.get s) s (x.halves.get s)

theorem halfOk_of_last {n : Nat} {full : PtrMap} {s : BookSide} {h : HalfView} (hn : 0 < n)
    (htop : IsTop (Better s) n full h.levels) (hdepth : h.depth = h.levels.toList.length)
    (hlast : LastRight s h.levels h.lastPrice) : HalfOk n full s h := by
  rw [lastRight_iff] at hlast
  refine ⟨htop, hdepth, fun q hq => ?_, fun q hq hnone => ?_⟩
  · rcases hlast with hnil | ⟨-, hbetter⟩
    · rw [toList_eq_nil.mp hnil] at hq; exact absurd rfl hq
    · by_cases hql : q = h.lastPrice
      · rw [hql]; exact not_worse_self s _
      · exact not_worse_of_better (hbetter q hq hql)
  · rcases hlast with hnil | ⟨hmem, -⟩
    · have hsize := htop.size
      have hpos := length_pos_of_find? hq
      rw [hnil, length_nil] at hsize
      omega
    · exact worse_iff.mpr (htop.better _ q hmem hq hnone)

theorem showsHalf_iff {n : Nat} {full : PtrMap} {s : BookSide} {h : HalfView} (hn : 0 < n) :
    ShowsHalf n full s h ↔ HalfOk n full s h ∧ LastRight s h.levels h.lastPrice := by
  constructor
  · rintro ⟨htop, hdepth, hlast⟩
    refine ⟨halfOk_of_last hn (IsTop.of_take (ranks_bestFirst s full) ?_) ?_ hlast, hlast⟩
    · rw [← htop]; exact (ranks_bestFirst s h.levels).perm.symm
    · rw [hdepth, length_bestFirst]
  · rintro ⟨hok, hlast⟩
    refine ⟨?_, by rw [hok.depth, length_bestFirst], hlast⟩
    exact hok.top.take_eq (fun a b => asymm_of (Better s)) (ranks_bestFirst s full)
      (ranks_bestFirst s h.levels)

/-! ## Deltas of an event -/

def worked (full : Sides PtrMap) (d : BasicDelta) : Sides PtrMap :=
  full.set d.level.deltaSide (workedHalf (full.get d.level.deltaSide) d)

variable {x : DepthFilter}

namespace DepthFilter

/-- Every delta fits the filter and the book that the deltas before it leave. -/
def DeltasFit (b : FullBook) : DepthFilter → Sides PtrMap → List BasicDelta → Prop
  | _, _, [] => True
  | x, full, d :: ds =>
    let s := d.level.deltaSide
    DeltaFits x.maxDepth (full.get s) b s (x.halves.get s) d ∧
      LastFits x.maxDepth (full.get s) s (x.halves.get s) d ∧
      ∀ y, process b x d = .ok y → DeltasFit b y (worked full d) ds

theorem shows_process (hx : Collects x) {full : Sides PtrMap} (hn : 0 < x.maxDepth)
    (hn' : x.maxDepth < 2 ^ 64) (hshows : x.Shows full) {b : FullBook} {d : BasicDelta}
    (hside : d.level.side ≠ .unknown)
    (hfits : DeltaFits x.maxDepth (full.get d.level.deltaSide) b d.level.deltaSide
      (x.halves.get d.level.deltaSide) d)
    (hlastFits : LastFits x.maxDepth (full.get d.level.deltaSide) d.level.deltaSide
      (x.halves.get d.level.deltaSide) d) :
    ∃ y, process b x d = .ok y ∧ Collects y ∧ y.maxDepth = x.maxDepth ∧
      y.Shows (worked full d) := by
  obtain ⟨hok, hlast⟩ := (showsHalf_iff hn).mp (hshows d.level.deltaSide)
  obtain ⟨h', out, hstep⟩ := hok.step hn hfits x.processesEntries
  obtain ⟨y, hy, my⟩ := process_spec hx hside hstep
  refine ⟨y, hy, my.collects, my.maxDepth, fun s => ?_⟩
  rw [my.maxDepth]
  by_cases hs : s = d.level.deltaSide
  · rw [hs, my.half]
    rw [worked, Sides.get_set, if_pos rfl]
    exact (showsHalf_iff hn).mpr
      ⟨hstep.ok hok hn' hfits, hstep.lastRight hok hfits hlastFits hlast⟩
  · rw [my.other s hs]
    rw [worked, Sides.get_set, if_neg hs]
    exact hshows s

theorem shows_deltas {b : FullBook} (ds : List BasicDelta) : ∀ {x : DepthFilter}
    {full : Sides PtrMap}, Collects x → 0 < x.maxDepth → x.maxDepth < 2 ^ 64 → x.Shows full →
    (∀ d ∈ ds, d.level.side ≠ .unknown) → DeltasFit b x full ds →
    ∃ y, ds.foldlM (process b) x = .ok y ∧ Collects y ∧ y.maxDepth = x.maxDepth ∧
      y.Shows (ds.foldl worked full) := by
  induction ds with
  | nil => exact fun hx _ _ hshows _ _ => ⟨_, rfl, hx, rfl, hshows⟩
  | cons d ds ih =>
    intro x full hx hn hn' hshows hsides hfit
    obtain ⟨hfits, hlastFits, hrest⟩ := hfit
    obtain ⟨y, hy, hcollects, hdepth, hyshows⟩ := shows_process hx hn hn' hshows
      (hsides d mem_cons_self) hfits hlastFits
    obtain ⟨z, hz, hzcollects, hzdepth, hzshows⟩ := ih hcollects (hdepth ▸ hn) (hdepth ▸ hn')
      hyshows (fun d' hd' => hsides d' (mem_cons_of_mem _ hd')) (hrest y hy)
    refine ⟨z, ?_, hzcollects, hzdepth.trans hdepth, hzshows⟩
    rwa [foldlM_cons, hy]

/-! ## A recap -/

theorem addLevels_spec {b : FullBook} {s : BookSide} (as : List (Price × Ref)) :
    ∀ {x y : DepthFilter} {h : HalfView} {out : List BasicDelta}, Moves x s h out y →
    (as.map Prod.fst).Nodup → (∀ a ∈ as, h.levels.find? a.1 = none) →
    ∃ z m, as.foldlM (fun x a => x.addLevel (b.level s a)) y = .ok z ∧
      Moves x s { h with levels := m } out z ∧ m.toList.Perm (as ++ h.levels.toList) := by
  induction as with
  | nil => exact fun my _ _ => ⟨_, _, rfl, my, .refl _⟩
  | cons a as ih =>
    intro x y h out my hnodup hnew
    obtain ⟨ha, hnodup⟩ := nodup_cons.mp hnodup
    have hnone := hnew a mem_cons_self
    obtain ⟨z, hz, mz⟩ := my.addLevel (l := b.level s a) rfl hnone
    obtain ⟨w, m, hw, mw, hm⟩ := ih mz hnodup fun a' ha' => by
      have hne : a'.1 ≠ a.1 := fun heq => ha (mem_map.mpr ⟨a', ha', heq⟩)
      show (h.levels.insert a.1 a.2).find? a'.1 = none
      rw [find?_insert, if_neg hne]
      exact hnew a' (mem_cons_of_mem _ ha')
    refine ⟨w, m, ?_, mw, ?_⟩
    · rwa [foldlM_cons, hz]
    · refine hm.trans ?_; exact ((perm_insert hnone a.2).append_left as).trans perm_middle

theorem recapHalf_spec {y : DepthFilter} {b : FullBook} {s : BookSide} {h : HalfView}
    (my : Moves x s h out y) (hn : 0 < x.maxDepth) (hempty : h.levels = .empty)
    (hne : (b.levels.get s).toList ≠ [])
    (hsized : ∀ p r, (b.levels.get s).find? p = some r → (b.object r).size ≠ 0) : ∃ z h',
    y.recapHalf b s = .ok z ∧ Moves x s h' out z ∧ ShowsHalf x.maxDepth (b.levels.get s) s h' := by
  have hvisible : b.visible s (b.levels.get s) = _ := FullBook.visible_eq hsized
  have hranks := ranks_bestFirst s (b.levels.get s)
  have hnodup : (((bestFirst s (b.levels.get s)).take x.maxDepth).map Prod.fst).Nodup := by
    refine pairwise_map.mpr ((hranks.sorted.sublist (take_sublist _ _)).imp ?_)
    intro a a' hlt heq
    rw [heq] at hlt
    exact irrefl_of (Better s) _ hlt
  obtain ⟨z, m, hz, mz, hm⟩ := addLevels_spec (b := b) _ my hnodup fun a _ => by
    rw [hempty]; rfl
  rw [hempty] at hm
  have hperm : m.toList.Perm ((bestFirst s (b.levels.get s)).take x.maxDepth) := by
    refine hm.trans ?_
    show (_ ++ []).Perm _
    rw [append_nil]
  have htop := IsTop.of_take hranks hperm
  have htake := htop.take_eq (fun a b => asymm_of (Better s)) hranks (ranks_bestFirst s m)
  have hlen : 0 < (bestFirst s (b.levels.get s)).length := by
    rw [length_bestFirst]; exact length_pos_iff.mpr hne
  obtain ⟨last, hlast⟩ : ∃ last, ((bestFirst s (b.levels.get s)).take x.maxDepth).getLast? =
      some last := by
    cases hl : ((bestFirst s (b.levels.get s)).take x.maxDepth).getLast? with
    | some last => exact ⟨last, rfl⟩
    | none =>
      have hnil := congrArg List.length (getLast?_eq_none_iff.mp hl)
      rw [length_take, length_nil] at hnil
      omega
  refine ⟨_, ⟨m, last.1, ((bestFirst s (b.levels.get s)).take x.maxDepth).length⟩, ?_,
    mz.setHalf _, htake, ?_, ?_⟩
  · unfold recapHalf
    dsimp only
    rw [hvisible, my.maxDepth, hz]
    rw [hlast]
    show Except.ok (z.setHalf s ⟨(z.halves.get s).levels, _, _⟩) = _
    rw [mz.half]
  · rw [htake]
  · intro a ha
    rw [htake, hlast] at ha
    cases ha
    rfl

theorem shows_recap (hx : Collects x) (hn : 0 < x.maxDepth) {b : FullBook}
    (hne : ∀ s, (b.levels.get s).toList ≠ [])
    (hsized : ∀ s p r, (b.levels.get s).find? p = some r → (b.object r).size ≠ 0) :
    ∃ y, x.onBookRecap b = .ok y ∧ Collects y ∧ y.maxDepth = x.maxDepth ∧ y.sent = x.sent ∧
      y.Shows b.levels := by
  have hclear : Collects x.clearLevels := ⟨hx.keeps, hx.plain, hx.simple⟩
  obtain ⟨y, h₁, hy, my, hbid⟩ := recapHalf_spec (s := .bid) (Moves.refl hclear .bid) hn rfl
    (hne .bid) (hsized .bid)
  have hask : (y.halves.get .ask).levels = .empty := by
    rw [my.other .ask (by decide)]; rfl
  obtain ⟨z, h₂, hz, mz, hask⟩ := recapHalf_spec (s := .ask) (Moves.refl my.collects .ask)
    (my.maxDepth ▸ hn) hask (hne .ask) (hsized .ask)
  have hdepth : z.maxDepth = x.maxDepth := mz.maxDepth.trans my.maxDepth
  have hsent : z.sent = x.sent := by
    rw [mz.sent, my.sent, append_nil, append_nil]; rfl
  refine ⟨z, ?_, mz.collects, hdepth, hsent, fun s => ?_⟩
  · rwa [onBookRecap, hy]
  · cases s with
    | bid => rwa [mz.other .bid (by decide), my.half, hdepth]
    | ask => rwa [mz.half, mz.maxDepth]

end DepthFilter

/-! ## Runs -/

namespace DepthEvent

def deltas : DepthEvent → List BasicDelta
  | recap _ => []
  | clear _ => []
  | simple d _ => [d]
  | complex ds _ => ds

/-- The event comes with the full book as it stands after it, all levels of non-zero size. -/
structure Delivered (full : Sides PtrMap) (e : DepthEvent) : Prop where
  after : match e with
    | recap _ => True
    | clear b => b.levels = ⟨.empty, .empty⟩
    | simple d b => b.levels = worked full d
    | complex ds b => b.levels = ds.foldl worked full
  sized : ∀ s p r, (e.after.levels.get s).find? p = some r → (e.after.object r).size ≠ 0
  sided : ∀ d ∈ e.deltas, d.level.side ≠ .unknown

/-- An event that the filter gets right, in the state it has. -/
def Fits (x : DepthFilter) (full : Sides PtrMap) : DepthEvent → Prop
  | recap b => ∀ s, (b.levels.get s).toList ≠ []
  | clear _ => ∀ s, (x.halves.get s).depth = 0
  | simple d b => x.DeltasFit b full [d]
  | complex ds b => x.DeltasFit b full ds

end DepthEvent

namespace DepthFilter

def AllDelivered : Sides PtrMap → List DepthEvent → Prop
  | _, [] => True
  | full, e :: es => e.Delivered full ∧ AllDelivered e.after.levels es

def AllFit : DepthFilter → Sides PtrMap → List DepthEvent → Prop
  | _, _, [] => True
  | x, full, e :: es => e.Fits x full ∧ ∀ y, e.handle x = .ok y → AllFit y e.after.levels es

/-- Every event of a run is handled without an exception and leaves the top of the full book. -/
def AllShown : DepthFilter → List DepthEvent → Prop
  | _, [] => True
  | x, e :: es => ∃ y, e.handle x = .ok y ∧ y.Shows e.after.levels ∧ AllShown y es

theorem shows_invoke {full : Sides PtrMap} (h : x.Shows full) :
    x.invokeDeltaHandlers.Shows full ∧ x.invokeDeltaHandlers.maxDepth = x.maxDepth := by
  unfold invokeDeltaHandlers
  split <;> exact ⟨h, rfl⟩

/-- **One event**: if it is a recap the filter need not have shown anything before. -/
theorem shows_event (hx : Collects x) (hn : 0 < x.maxDepth) (hn' : x.maxDepth < 2 ^ 64)
    {full : Sides PtrMap} {e : DepthEvent} (hshows : (∃ b, e = .recap b) ∨ x.Shows full)
    (hdelivered : e.Delivered full) (hfits : e.Fits x full) : ∃ y, e.handle x = .ok y ∧ Collects y ∧
    y.maxDepth = x.maxDepth ∧ y.Shows e.after.levels := by
  obtain ⟨hafter, hsized, hsided⟩ := hdelivered
  have hdeltas : ∀ (b : FullBook) (ds : List BasicDelta), x.Shows full →
      (∀ d ∈ ds, d.level.side ≠ .unknown) → x.DeltasFit b full ds →
      ∃ y, x.onBookComplexDelta b ds = .ok y ∧ Collects y ∧ y.maxDepth = x.maxDepth ∧
        y.Shows (ds.foldl worked full) := by
    intro b ds hshows hsided hfits
    obtain ⟨y, hy, hcollects, hdepth, hyshows⟩ := shows_deltas ds hx hn hn' hshows hsided hfits
    obtain ⟨hshown, hsame⟩ := shows_invoke hyshows
    refine ⟨y.invokeDeltaHandlers, ?_, hcollects.invoke.1, hsame.trans hdepth, hshown⟩
    rw [onBookComplexDelta, hy]
    rfl
  cases e with
  | recap b =>
    obtain ⟨y, hy, hcollects, hdepth, -, hyshows⟩ := shows_recap hx hn hfits hsized
    exact ⟨y, hy, hcollects, hdepth, hyshows⟩
  | clear b =>
    refine ⟨_, rfl, ⟨hx.keeps, hx.plain, hx.simple⟩, rfl, fun s => ?_⟩
    have hempty : (x.clearLevels.halves.get s) = { x.halves.get s with levels := .empty } := by
      cases s <;> rfl
    have hfull : (b.levels.get s) = .empty := by
      rw [hafter]
      cases s <;> rfl
    show ShowsHalf x.maxDepth (b.levels.get s) s (x.clearLevels.halves.get s)
    rw [hfull, hempty]
    exact showsHalf_empty _ s rfl (hfits s)
  | simple d b =>
    have hshows := hshows.resolve_left (by rintro ⟨_, h⟩; cases h)
    obtain ⟨y, hy, hrest⟩ := hdeltas b [d] hshows hsided hfits
    refine ⟨y, ?_, hrest.1, hrest.2.1, ?_⟩
    · have hone : x.onBookComplexDelta b [d] = x.onBookDelta b d := by
        rw [onBookComplexDelta, onBookDelta, foldlM_cons]
        cases process b x d <;> rfl
      exact hone.symm.trans hy
    · show y.Shows b.levels
      rw [hafter]
      exact hrest.2.2
  | complex ds b =>
    have hshows := hshows.resolve_left (by rintro ⟨_, h⟩; cases h)
    obtain ⟨y, hy, hrest⟩ := hdeltas b ds hshows hsided hfits
    refine ⟨y, hy, hrest.1, hrest.2.1, ?_⟩
    show y.Shows b.levels
    rw [hafter]
    exact hrest.2.2

theorem shows_run (es : List DepthEvent) : ∀ {x : DepthFilter} {full : Sides PtrMap}, Collects x →
    0 < x.maxDepth → x.maxDepth < 2 ^ 64 → ((∃ b rest, es = .recap b :: rest) ∨ x.Shows full) →
    AllDelivered full es → AllFit x full es → AllShown x es := by
  induction es with
  | nil => exact fun _ _ _ _ _ _ => trivial
  | cons e es ih =>
    intro x full hx hn hn' hshows hdelivered hfit
    have hfirst : (∃ b, e = .recap b) ∨ x.Shows full := by
      refine hshows.imp_left ?_
      rintro ⟨b, rest, heq⟩
      exact ⟨b, (cons_eq_cons.mp heq).1⟩
    obtain ⟨y, hy, hcollects, hdepth, hyshows⟩ := shows_event hx hn hn' hfirst hdelivered.1 hfit.1
    exact ⟨y, hy, hyshows, ih hcollects (hdepth ▸ hn) (hdepth ▸ hn') (.inr hyshows)
      hdelivered.2 (hfit.2 y hy)⟩

/-- **The depth filter shows the top of the book** after every event of a run of a new filter, of
any depth and with any initial contents of the members it does not initialise, if the run begins
with a recap or the full book was empty, and every event fits. -/
theorem shown_of_run (maxDepth : Nat) (hpos : 0 < maxDepth) (hsize : maxDepth < 2 ^ 64)
    (processesEntries : Bool) (junk : Sides Price) (full : Sides PtrMap) (es : List DepthEvent)
    (hstart : (∃ b rest, es = .recap b :: rest) ∨ full = ⟨.empty, .empty⟩)
    (hdelivered : AllDelivered full es)
    (hfit : (new maxDepth processesEntries junk).AllFit full es) :
    (new maxDepth processesEntries junk).AllShown es := by
  have hx : Collects (new maxDepth processesEntries junk) :=
    ⟨rfl, rfl, fun h => by cases h⟩
  refine shows_run es hx hpos hsize (hstart.imp_right ?_) hdelivered hfit
  rintro rfl s
  have hfull : (⟨.empty, .empty⟩ : Sides PtrMap).get s = .empty := by cases s <;> rfl
  rw [hfull]
  refine showsHalf_empty _ s ?_ ?_ <;> cases s <;> rfl

end DepthFilter

/-! ## A book with one level on each half -/

/-- The level objects and entries do not matter here: every level has size one. -/
def bookOf (levels : Sides PtrMap) : FullBook where
  levels := levels
  object r := { PriceLevel.new r 0 .bid with size := 1 }
  shown _ := []

def oneEach : FullBook :=
  bookOf ⟨(SortedMap.empty.insert 10 ⟨0, 0⟩), (SortedMap.empty.insert 11 ⟨0, 1⟩)⟩

def noLevels : FullBook := bookOf ⟨.empty, .empty⟩

/-- A delta of a bid, whose level object is the one named. -/
def deltaOfBid (ref : Ref) (price : Price) (action : Action) : BasicDelta :=
  ⟨none, PriceLevel.new ref price .bid, 1, action, .unknown⟩

def addOfBid : BasicDelta := deltaOfBid ⟨0, 3⟩ 12 .add

def updateOfBid : BasicDelta := deltaOfBid ⟨0, 3⟩ 12 .update

def deleteOfBid : BasicDelta := deltaOfBid ⟨0, 0⟩ 10 .delete

/-- The bids are at 8, 9 and 10. -/
def threeBids : FullBook :=
  bookOf ⟨((SortedMap.empty.insert 8 ⟨0, 4⟩).insert 9 ⟨0, 2⟩).insert 10 ⟨0, 0⟩,
    SortedMap.empty.insert 13 ⟨0, 1⟩⟩

/-- The book after a delta; its levels show an entry. -/
def FullBook.after (b : FullBook) (d : BasicDelta) : FullBook :=
  { bookOf (worked b.levels d) with shown := fun r => [Entry.create r "A"] }

def bidAdded : FullBook := threeBids.after addOfBid

def bidDeleted : FullBook := bidAdded.after deleteOfBid

/-- For a filter of depth two: a new level goes into a full view, and a deletion pulls the level at
9 in again. -/
def bidDeltas : List DepthEvent :=
  [.simple addOfBid bidAdded, .complex [deleteOfBid, updateOfBid] bidDeleted]

theorem bidDeltas_delivered : DepthFilter.AllDelivered threeBids.levels bidDeltas := by
  refine ⟨⟨rfl, fun _ _ _ _ => Nat.one_ne_zero, fun d hd => ?_⟩,
    ⟨rfl, fun _ _ _ _ => Nat.one_ne_zero, fun d hd => ?_⟩, trivial⟩
  · rw [mem_singleton.mp hd]
    decide
  · rcases mem_pair.mp hd with rfl | rfl <;> decide

/-- The view is full before each of the two. -/
theorem bidDeltas_full {x : DepthFilter}
    (hx : (DepthFilter.new 2 true ⟨0, 0⟩).onBookRecap threeBids = .ok x) :
    x.halves.bid.depth = 2 ∧ ∀ {y}, (DepthEvent.simple addOfBid bidAdded).handle x = .ok y →
      y.halves.bid.depth = 2 := by
  have hrun : (match (DepthFilter.new 2 true ⟨0, 0⟩).onBookRecap threeBids with
      | .ok x => match (DepthEvent.simple addOfBid bidAdded).handle x with
        | .ok y => (x.halves.bid.depth, y.halves.bid.depth)
        | .error _ => (0, 0)
      | .error _ => (0, 0)) = (2, 2) := by
    decide +kernel
  rw [hx] at hrun
  dsimp only at hrun
  cases hy : (DepthEvent.simple addOfBid bidAdded).handle x with
  | error stop =>
    rw [hy] at hrun
    cases hrun
  | ok y =>
    rw [hy] at hrun
    obtain ⟨hleft, hright⟩ := Prod.mk.inj hrun
    exact ⟨hleft, fun h => by cases h; exact hright⟩

theorem shown_bidDeltas :
    (DepthFilter.new 2 true ⟨0, 0⟩).AllShown (.recap threeBids :: bidDeltas) := by
  have hsized : ∀ s p r, (threeBids.levels.get s).find? p = some r →
      (threeBids.object r).size ≠ 0 :=
    fun _ _ _ _ => Nat.one_ne_zero
  refine DepthFilter.shown_of_run 2 Nat.two_pos (by decide) true ⟨0, 0⟩ ⟨.empty, .empty⟩
    (.recap threeBids :: bidDeltas) (.inl ⟨_, _, rfl⟩)
    ⟨⟨trivial, hsized, fun _ h => by cases h⟩, bidDeltas_delivered⟩
    ⟨fun s => by cases s <;> exact cons_ne_nil _ _, fun x hx => ⟨⟨?_, ?_, fun _ _ => trivial⟩,
      fun y hy => ⟨⟨?_, ?_, fun z _ => ⟨.inr trivial, .inr trivial, fun _ _ => trivial⟩⟩,
        fun _ _ => trivial⟩⟩⟩
  · exact .inr ⟨by decide +kernel, fun _ _ _ _ => Nat.one_ne_zero⟩
  · refine .inr fun hnone => ?_
    rw [show (x.halves.get addOfBid.level.deltaSide).depth = 2 from (bidDeltas_full hx).1] at hnone
    cases hnone
  · refine .inr ⟨by decide +kernel, ?_⟩
    rw [show (y.halves.get deleteOfBid.level.deltaSide).depth = 2 from (bidDeltas_full hx).2 hy]
    decide +kernel
  · refine .inr fun hnone _ => ?_
    rw [show (y.halves.get deleteOfBid.level.deltaSide).depth = 2 from (bidDeltas_full hx).2 hy]
      at hnone
    exact absurd hnone (by decide +kernel)

/-- A clear empties the truncated book and leaves the depths as they were. -/
theorem clear_keeps_depth :
    DepthFilter.AllDelivered ⟨.empty, .empty⟩ [.recap oneEach, .clear noLevels] ∧
      ¬ (DepthFilter.new 1 true ⟨0, 0⟩).AllShown [.recap oneEach, .clear noLevels] := by
  have hdepth : (match DepthEvent.handle (.new 1 true ⟨0, 0⟩) (.recap oneEach) with
      | .ok y => y.halves.bid.depth
      | .error _ => 0) = 1 := by
    decide +kernel
  constructor
  · refine ⟨⟨trivial, fun _ _ _ _ => Nat.one_ne_zero, fun _ h => by cases h⟩,
      ⟨rfl, fun _ _ _ _ => Nat.one_ne_zero, fun _ h => by cases h⟩, trivial⟩
  · rintro ⟨y, hy, -, z, hz, hshows, -⟩
    rw [hy] at hdepth
    cases hz
    have hbid := (hshows .bid).depth
    rw [show (y.onBookClear.halves.get .bid).depth = 1 from hdepth] at hbid
    cases hbid

end Mamda

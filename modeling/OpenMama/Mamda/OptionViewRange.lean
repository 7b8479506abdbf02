import OpenMama.Mamda.OptionViewCopies

/-!
# The range of a view

`resetRange` as the view's documentation has it (`RightRange`): the dates that
the settings ask for, at each the chain's strikes in the range asked for, and
`isVisible` true for just the contracts that are there.  `Meets` is the exact
condition on the chain, the clock, the underlying price and the settings.
-/

namespace Mamda

open Mama Lib List Option

/-! ## Trimming -/

theorem find?_trimStrikes (m : SortedMap Price Nat) {strikeSet : List Price} (hne : strikeSet ≠ [])
    (x : Price) :
    (trimStrikes m strikeSet).find? x = if within strikeSet x then m.find? x else none := by
  rw [trimStrikes, within, head?_eq_some_head hne, getLast?_eq_some_getLast hne]
  simp only [SortedMap.find?_filterKeys]
  by_cases hlow : strikeSet.head hne ≤ x
  · simp [hlow]
  · simp [hlow]

theorem trimStrikes_trimStrikes (m : SortedMap Price Nat) (strikeSet : List Price) :
    trimStrikes (trimStrikes m strikeSet) strikeSet = trimStrikes m strikeSet := by
  by_cases hne : strikeSet = []
  · rw [hne]; rfl
  · apply SortedMap.ext
    intro x
    rw [find?_trimStrikes _ hne, find?_trimStrikes _ hne]
    split
    · rfl
    · rfl

namespace ChainState

variable {s s' : ChainState}

theorem trimEach_get (l : List (Nat × DateTime × Nat)) (strikeSet : List Price) (s : ChainState)
    (q : Nat) :
    (s.trimEach l strikeSet).expirationStrikes[q]? =
      if q ∈ l.map fun a => a.2.2 then
        s.expirationStrikes[q]?.map fun m => trimStrikes m strikeSet
      else s.expirationStrikes[q]? := by
  induction l generalizing s with
  | nil => simp [trimEach]
  | cons a l ih =>
    obtain ⟨k, d, p⟩ := a
    rw [trimEach, ih]
    simp only [map_cons, mem_cons]
    by_cases hqp : q = p
    · subst hqp
      rw [if_pos (Or.inl rfl), getElem?_modify_eq]
      split
      · cases s.expirationStrikes[q]? with
        | none => rfl
        | some m => simp [trimStrikes_trimStrikes]
      · rfl
    · simp only [hqp, false_or, getElem?_modify, Ne.symm hqp]; simp

theorem trimEach_same (l : List (Nat × DateTime × Nat)) (strikeSet : List Price) (s : ChainState) :
    (s.trimEach l strikeSet).contracts = s.contracts ∧
      (s.trimEach l strikeSet).strikeSets = s.strikeSets ∧
      (s.trimEach l strikeSet).chain = s.chain := by
  induction l generalizing s with
  | nil => exact ⟨rfl, rfl, rfl⟩
  | cons a l ih => exact ih _

/-! ## What is asked for -/

/-- The strikes whose range the settings ask for: those within the percentage if it yields any,
else those of the number of strikes. -/
def wantedStrikes (s : ChainState) (v : ViewSettings) : List Price :=
  let percent :=
    if v.strikeMargin > 0 then
      (s.chain.getStrikesWithinPercent v.strikeMargin v.atTheMoneyType).getD []
    else []
  if percent ≠ [] then percent
  else if v.numStrikes > 0 then
    (s.chain.getStrikesWithinRangeSize v.numStrikes v.atTheMoneyType).getD []
  else []

/-- What a view holds and shows after a `resetRange` of the view `v`. -/
structure RightRange (s : ChainState) (clock : Clock) (v : ChainView) (s' : ChainState)
    (v' : ChainView) : Prop where
  contracts : s'.contracts = s.contracts
  strikeSets : s'.strikeSets = s.strikeSets
  chain : s'.chain = s.chain
  expirations : ∀ k x, s'.strikePtr k x = s.strikePtr k x
  dates : ExpirationDateSet.keys v'.expirationDateSet = wantedDates s v.settings clock
  strikes : ∀ k ∈ ExpirationDateSet.keys v'.expirationDateSet, ∀ x,
    s'.strikeIn v'.expirationDateSet k x =
      if within (wantedStrikes s v.settings) x then s.strikePtr k x else none
  visible : ∀ c : OptionContract, c.gotExpireDate → c.gotStrikePrice →
    (s.strikePtr c.expireDate.timeOnly c.strikePrice).isSome →
    (v'.isVisible c ↔
      (s'.strikeIn v'.expirationDateSet c.expireDate.timeOnly c.strikePrice).isSome)

/-- `resetRange` can be computed and leaves the view as the settings ask. -/
def Delivers (s : ChainState) (clock : Clock) (v : ChainView) : Prop :=
  ∃ s' v', s.resetRange clock v = some (s', v') ∧ RightRange s clock v s' v'

/-! ## When it is delivered -/

def NoPercent (s : ChainState) (v : ViewSettings) : Prop :=
  v.strikeMargin > 0 →
    s.chain.getStrikesWithinPercent v.strikeMargin v.atTheMoneyType = some []

/-- Nothing bounds the strikes: no percentage does, and the number of strikes, which is looked at
only if a number of expirations is set, yields none. -/
def Unbounded (s : ChainState) (v : ViewSettings) : Prop :=
  NoPercent s v ∧ (v.numExpirations > 0 →
    s.chain.getStrikesWithinRangeSize v.numStrikes v.atTheMoneyType = some [])

/-- The moment a year from now, as the view computes it. -/
def horizon (clock : Clock) : Nat := (clock.now.addWholeSeconds oneYear).timeOnly

/-- The condition for `Delivers`. -/
structure Meets (s : ChainState) (clock : Clock) (v : ViewSettings) : Prop where
  seconds : v.expirationDays * 86400 < 2 ^ 31
  percent : v.strikeMargin > 0 →
    (s.chain.getStrikesWithinPercent v.strikeMargin v.atTheMoneyType).isSome
  number : NoPercent s v → v.numExpirations > 0 →
    (s.chain.getStrikesWithinRangeSize v.numStrikes v.atTheMoneyType).isSome
  dates : DatesFit s v clock
  guard : NoPercent s v → v.numExpirations ≤ 0 → ∀ k ∈ wantedDates s v clock, ∀ x,
    (s.strikePtr k x).isSome → within (wantedStrikes s v) x
  bounds : Unbounded s v → ∀ k ∈ wantedDates s v clock, ∀ x, (s.strikePtr k x).isSome →
    OptionChain.dblMin ≤ x ∧ x ≤ OptionChain.dblMax
  noDates : wantedDates s v clock = [] → ∀ k x, (s.strikePtr k x).isSome → k ≤ horizon clock →
    (Unbounded s v → ¬(OptionChain.dblMin ≤ x ∧ x ≤ OptionChain.dblMax)) ∧
      (¬Unbounded s v → ¬within (wantedStrikes s v) x)

/-! ## The strikes of the range -/

theorem percent_cases (s : ChainState) (v : ViewSettings) :
    (¬(v.strikeMargin > 0 →
        (s.chain.getStrikesWithinPercent v.strikeMargin v.atTheMoneyType).isSome) ∧
      s.strikesOfRange v = none) ∨
    (NoPercent s v ∧
      (if v.strikeMargin > 0 then
        (s.chain.getStrikesWithinPercent v.strikeMargin v.atTheMoneyType).getD [] else []) = [] ∧
      s.strikesOfRange v = if v.numExpirations > 0 then
        s.chain.getStrikesWithinRangeSize v.numStrikes v.atTheMoneyType else some []) ∨
    ∃ strikeSet, ¬NoPercent s v ∧ strikeSet ≠ [] ∧
      (if v.strikeMargin > 0 then
        (s.chain.getStrikesWithinPercent v.strikeMargin v.atTheMoneyType).getD [] else []) =
          strikeSet ∧
      s.strikesOfRange v = some strikeSet := by
  unfold strikesOfRange NoPercent
  by_cases hmargin : v.strikeMargin > 0
  · simp only [hmargin, true_implies]
    cases hpercent : s.chain.getStrikesWithinPercent v.strikeMargin v.atTheMoneyType with
    | none => exact .inl ⟨by simp, rfl⟩
    | some strikeSet =>
      by_cases hempty : strikeSet = []
      · subst hempty; exact .inr (.inl ⟨rfl, rfl, rfl⟩)
      · refine .inr (.inr ⟨strikeSet, by simpa using hempty, hempty, rfl, ?_⟩); simp [hempty]
  · simp only [hmargin, false_implies]; exact .inr (.inl ⟨trivial, rfl, rfl⟩)

theorem answered_of_strikesOfRange {v : ViewSettings} {strikeSet : List Price}
    (h : s.strikesOfRange v = some strikeSet) :
    (v.strikeMargin > 0 →
        (s.chain.getStrikesWithinPercent v.strikeMargin v.atTheMoneyType).isSome) ∧
      (NoPercent s v → v.numExpirations > 0 →
        (s.chain.getStrikesWithinRangeSize v.numStrikes v.atTheMoneyType).isSome) := by
  rcases percent_cases s v with ⟨-, hnone⟩ | ⟨hno, -, hsome⟩ | ⟨strikes, hno, hne, hset, -⟩
  · rw [hnone] at h; cases h
  · refine ⟨fun hmargin => ?_, fun _ hnum => ?_⟩
    · rw [hno hmargin]; rfl
    · rw [hsome, if_pos hnum] at h
      rw [h]
      rfl
  · refine ⟨fun hmargin => ?_, fun hno' => absurd hno' hno⟩
    rw [if_pos hmargin] at hset
    cases hpercent : s.chain.getStrikesWithinPercent v.strikeMargin v.atTheMoneyType with
    | none => rw [hpercent] at hset; exact absurd hset.symm hne
    | some _ => rfl

/-- The strikes `filterStrikes` goes by are those wanted, except that the number of strikes is
not looked at without a number of expirations. -/
theorem strikesOfRange_spec {v : ViewSettings}
    (hpercent : v.strikeMargin > 0 →
      (s.chain.getStrikesWithinPercent v.strikeMargin v.atTheMoneyType).isSome)
    (hnumber : NoPercent s v → v.numExpirations > 0 →
      (s.chain.getStrikesWithinRangeSize v.numStrikes v.atTheMoneyType).isSome) :
    ∃ strikeSet, s.strikesOfRange v = some strikeSet ∧
      (Unbounded s v ↔ strikeSet = []) ∧
      (¬(NoPercent s v ∧ v.numExpirations ≤ 0) → strikeSet = wantedStrikes s v) := by
  rcases percent_cases s v with ⟨hnone, -⟩ | ⟨hno, hset, hsome⟩ | ⟨strikes, hno, hne, hset, hsome⟩
  · exact absurd hpercent hnone
  · by_cases hnum : v.numExpirations > 0
    · obtain ⟨strikeSet, hrange⟩ := isSome_iff_exists.mp (hnumber hno hnum)
      refine ⟨strikeSet, by rw [hsome, if_pos hnum, hrange], ?_, fun _ => ?_⟩
      · simp [Unbounded, hno, hnum, hrange]
      · simp only [wantedStrikes, hset]
        by_cases hstrikes : v.numStrikes > 0
        · simp [hstrikes, hrange]
        · have hle : v.numStrikes ≤ 0 := by omega
          simp only [OptionChain.getStrikesWithinRangeSize, if_pos hle, Option.some.injEq] at hrange
          simp [hstrikes, ← hrange]
    · refine ⟨[], by rw [hsome, if_neg hnum], ?_, fun h => absurd ⟨hno, by omega⟩ h⟩
      simp [Unbounded, hno, hnum]
  · refine ⟨strikes, hsome, ?_, fun _ => ?_⟩
    · simp [Unbounded, hno, hne]
    · simp only [wantedStrikes, hset]; simp [hne]

/-! ## One reset -/

/-- The view after a reset: the dates of a copy, their strikes in a range, and the bounds. -/
structure Ranged (s : ChainState) (clock : Clock) (dates : List Nat) (strikeSet : List Price)
    (s' : ChainState) (v' : ChainView) : Prop where
  kept : ChainKept s s'
  keys : ExpirationDateSet.keys v'.expirationDateSet = dates
  strikes : ∀ k x, s'.strikeIn v'.expirationDateSet k x =
    if k ∈ dates ∧ within strikeSet x then s.strikePtr k x else none
  lowExpireDate : v'.lowExpireDate.timeOnly = dates.head?.getD 0
  highExpireDate : v'.highExpireDate.timeOnly = dates.getLast?.getD (horizon clock)
  strikeBounds : ∀ x, v'.lowStrike ≤ x ∧ x ≤ v'.highStrike ↔
    if strikeSet = [] then OptionChain.dblMin ≤ x ∧ x ≤ OptionChain.dblMax
    else within strikeSet x

theorem Copies.strikeIn {keep : Nat → Bool} {copy : ExpirationDateSet} (hs : Linked s)
    (h : Copies s s.chain.expirationSet keep s' copy) (k : Nat) (x : Price) :
    s'.strikeIn copy k x = if k ∈ ExpirationDateSet.keys copy then s.strikePtr k x else none := by
  unfold ChainState.strikeIn
  cases hfind : copy.find? k with
  | none =>
    rw [if_neg]
    · rfl
    · intro hk
      obtain ⟨d, q, hdq⟩ := mem_keys.mp hk
      rw [hfind] at hdq
      cases hdq
  | some found =>
    obtain ⟨d, q⟩ := found
    obtain ⟨-, -, p, hp, hget⟩ := h.find hfind
    rw [if_pos (mem_keys.mpr ⟨d, q, hfind⟩), strikePtr_of_date hs hp]
    simp [hget]

variable {k : Nat} {x : Price}

theorem mem_addresses {dates : ExpirationDateSet} {q : Nat} {d : DateTime}
    (h : dates.find? k = some (d, q)) : q ∈ dates.toList.map fun a => a.2.2 :=
  mem_map.mpr ⟨(k, d, q), SortedMap.mem_toList.mpr h, rfl⟩

theorem filterStrikes_spec (hs : Linked s) {keep : Nat → Bool} {copy : ExpirationDateSet}
    (h : Copies s s.chain.expirationSet keep s' copy) (v : ChainView) {strikeSet : List Price}
    (hset : s'.strikesOfRange v.settings = some strikeSet) (hcopy : v.expirationDateSet = copy) :
    ∃ s'' v'', s'.filterStrikes v = some (s'', v'') ∧ ChainKept s s'' ∧
      v''.expirationDateSet = copy ∧
      (∀ k x, s''.strikeIn copy k x =
        if k ∈ ExpirationDateSet.keys copy ∧ within strikeSet x then s.strikePtr k x else none) ∧
      ∀ x, v''.lowStrike ≤ x ∧ x ≤ v''.highStrike ↔
        if strikeSet = [] then OptionChain.dblMin ≤ x ∧ x ≤ OptionChain.dblMax
        else within strikeSet x := by
  subst hcopy
  by_cases hne : strikeSet = []
  · subst hne
    refine ⟨s', { v with lowStrike := OptionChain.dblMin, highStrike := OptionChain.dblMax },
      by rw [filterStrikes, hset]; rfl, h.kept, rfl, fun k x => ?_, fun x => by simp⟩
    rw [h.strikeIn hs]
    simp
  have hhead := head?_eq_some_head hne
  have hlast := getLast?_eq_some_getLast hne
  obtain ⟨hcontracts, hsets, hchain⟩ :=
    trimEach_same v.expirationDateSet.toList strikeSet s'
  refine ⟨s'.trimEach v.expirationDateSet.toList strikeSet,
    { v with lowStrike := strikeSet.head hne, highStrike := strikeSet.getLast hne },
    by rw [filterStrikes, hset]; simp [hhead, hlast], ?_, rfl, fun k x => ?_, fun x => ?_⟩
  · refine ⟨hcontracts.trans h.kept.contracts, hsets.trans h.kept.strikeSets,
      hchain.trans h.kept.chain, fun p hp => ?_⟩
    rw [trimEach_get, if_neg, h.kept.old p hp]
    -- the maps that are trimmed were made in this call
    intro hmem
    obtain ⟨⟨k, d, q⟩, hkdq, heq⟩ := mem_map.mp hmem
    have hnew := (h.find (SortedMap.mem_toList.mp hkdq)).2.1
    have hqp : q = p := heq
    omega
  · have hcopied := h.strikeIn hs k x
    cases hfind : v.expirationDateSet.find? k with
    | none =>
      have hk : k ∉ ExpirationDateSet.keys v.expirationDateSet := by
        intro hk
        obtain ⟨d, q, hdq⟩ := mem_keys.mp hk
        rw [hfind] at hdq
        cases hdq
      simp [ChainState.strikeIn, hfind, hk]
    | some found =>
      have hk := mem_keys.mpr ⟨found.1, found.2, hfind⟩
      obtain ⟨-, -, p, hp, hget⟩ := h.find (show _ = some (found.1, found.2) from hfind)
      simp only [ChainState.strikeIn, hfind, hget, bind_eq_bind, bind_some]
        at hcopied ⊢
      rw [trimEach_get, if_pos (mem_addresses hfind), hget]
      simp only [map_some, bind_some]
      rw [find?_trimStrikes _ hne, hcopied]
      simp [hk]
  · rw [if_neg hne]; simp [within, hhead, hlast]

theorem strikesOfRange_congr (h : s'.chain = s.chain) (v : ViewSettings) :
    s'.strikesOfRange v = s.strikesOfRange v := by
  unfold strikesOfRange
  rw [h]

theorem keys_head? (dates : ExpirationDateSet) :
    (ExpirationDateSet.keys dates).head? = dates.toList.head?.map Prod.fst := by
  rw [ExpirationDateSet.keys, head?_map]

theorem keys_getLast? (dates : ExpirationDateSet) :
    (ExpirationDateSet.keys dates).getLast? = dates.toList.getLast?.map Prod.fst := by
  rw [ExpirationDateSet.keys, getLast?_map]

theorem resetRange_spec (hs : Linked s) (clock : Clock) (v : ChainView) {s₁ : ChainState}
    {keep : Nat → Bool} {copy : ExpirationDateSet} {strikeSet : List Price}
    (hdates : s.filterExpirations v.settings clock = some (s₁, copy))
    (h : Copies s s.chain.expirationSet keep s₁ copy)
    (hset : s.strikesOfRange v.settings = some strikeSet) :
    ∃ s' v', s.resetRange clock v = some (s', v') ∧
      Ranged s clock (ExpirationDateSet.keys copy) strikeSet s' v' := by
  rw [← strikesOfRange_congr h.kept.chain] at hset
  obtain ⟨s₂, v₂, hfilter, hkept, hv₂, hstrikes, hbounds⟩ :=
    filterStrikes_spec hs h { v with expirationDateSet := copy } hset rfl
  have hgood : ∀ a ∈ copy.toList, a.2.1.timeOnly = a.1 := by
    rintro ⟨k, d, q⟩ ha; exact (h.find (SortedMap.mem_toList.mp ha)).1
  rw [← hv₂] at hstrikes hgood ⊢
  rw [resetRange, hdates]
  simp only [bind_eq_bind, bind_some, hfilter]
  cases hl : v₂.expirationDateSet.toList with
  | nil =>
    refine ⟨_, _, rfl, hkept, rfl, hstrikes, ?_, ?_, hbounds⟩
    · rw [keys_head?, hl]; exact DateTime.timeOnly_null
    · rw [keys_getLast?, hl]; rfl
  | cons a l =>
    have hne : a :: l ≠ [] := cons_ne_nil a l
    have hlast := getLast?_eq_some_getLast hne
    refine ⟨_, _, rfl, hkept, rfl, hstrikes, ?_, ?_, hbounds⟩
    · rw [keys_head?, hl]; exact hgood a (hl ▸ mem_cons_self)
    · rw [keys_getLast?, hl]
      refine hgood _ ?_
      rw [hl]
      exact getLast_mem hne

theorem computed_of_resetRange (hs : Linked s) {clock : Clock} {v : ChainView}
    {r : ChainState × ChainView} (h : s.resetRange clock v = some r) :
    v.settings.expirationDays * 86400 < 2 ^ 31 ∧
      ∃ strikeSet, s.strikesOfRange v.settings = some strikeSet := by
  obtain ⟨⟨s₁, copy⟩, hdates, h⟩ := bind_eq_some_iff.mp h
  obtain ⟨⟨s₂, v₂⟩, hfilter, -⟩ := bind_eq_some_iff.mp h
  have hcopies := filterExpirations_copies hs v.settings clock
  split at hcopies
  · next hfits =>
    obtain ⟨keep, s₁', copy', hdates', hcopies, -⟩ := hcopies
    rw [hdates'] at hdates
    cases hdates
    obtain ⟨strikeSet, hset, -⟩ := bind_eq_some_iff.mp hfilter
    refine ⟨hfits, strikeSet, ?_⟩
    rwa [← strikesOfRange_congr hcopies.kept.chain]
  · rw [hcopies] at hdates; cases hdates

/-! ## The contracts shown -/

theorem isVisible_iff (v : ChainView) (c : OptionContract) :
    v.isVisible c ↔ (v.lowExpireDate.timeOnly ≤ c.expireDate.timeOnly ∧
      c.expireDate.timeOnly ≤ v.highExpireDate.timeOnly) ∧
      v.lowStrike ≤ c.strikePrice ∧ c.strikePrice ≤ v.highStrike := by
  have hlow : v.lowExpireDate.compare c.expireDate ≤ 0 ↔
      v.lowExpireDate.timeOnly ≤ c.expireDate.timeOnly := by
    have hpos := DateTime.compare_pos v.lowExpireDate c.expireDate
    omega
  have hhigh : v.highExpireDate.compare c.expireDate ≥ 0 ↔
      c.expireDate.timeOnly ≤ v.highExpireDate.timeOnly := by
    unfold DateTime.compare
    split
    · omega
    · split
      · omega
      · omega
  unfold ChainView.isVisible
  simp [hlow, hhigh, and_assoc]

theorem filter_le_prefix (l : List Nat) (hl : l.Pairwise (· < ·)) (c : Nat) :
    l.filter (fun k => k ≤ c) <+: l := by
  induction l with
  | nil => exact prefix_refl _
  | cons a l ih =>
    obtain ⟨hhead, htail⟩ := pairwise_cons.mp hl
    by_cases ha : a ≤ c
    · rw [filter_cons_of_pos (by simpa using ha), prefix_cons_inj]; exact ih htail
    have hnone : l.filter (fun k => decide (k ≤ c)) = [] := by
      rw [filter_eq_nil_iff]
      intro k hk
      have := hhead k hk
      simp only [decide_eq_true_eq]
      omega
    rw [filter_cons_of_neg (by simpa using ha), hnone]
    exact nil_prefix

theorem wantedDates_prefix (s : ChainState) (v : ViewSettings) (clock : Clock) :
    wantedDates s v clock <+: ExpirationDateSet.keys s.chain.expirationSet := by
  simp only [wantedDates]
  split
  · exact filter_le_prefix _ (keys_sorted _) _
  · split
    · exact take_prefix _ _
    · exact prefix_refl _

theorem mem_prefix_iff {l dates : List Nat} (hl : l.Pairwise (· < ·)) (hpre : dates <+: l)
    (hne : dates ≠ []) (hk : k ∈ l) (last : Nat) :
    k ∈ dates ↔ dates.head?.getD 0 ≤ k ∧ k ≤ dates.getLast?.getD last := by
  obtain ⟨rest, rfl⟩ := hpre
  obtain ⟨hdates, -, hcross⟩ := pairwise_append.mp hl
  rw [getLast?_eq_some_getLast hne]
  simp only [getD_some]
  constructor
  · intro hmem
    refine ⟨?_, ?_⟩
    · obtain ⟨a, tail, rfl⟩ := exists_cons_of_ne_nil hne
      rcases mem_cons.mp hmem with rfl | hmem
      · exact Nat.le_refl _
      · exact Nat.le_of_lt ((pairwise_cons.mp hdates).1 k hmem)
    · have hsplit := dropLast_append_getLast hne
      rw [← hsplit] at hdates hmem
      rcases mem_append.mp hmem with hmem | hmem
      · exact Nat.le_of_lt
          ((pairwise_append.mp hdates).2.2 k hmem _ mem_cons_self)
      · rw [mem_singleton.mp hmem]
  · rintro ⟨-, hle⟩
    rcases mem_append.mp hk with hmem | hmem
    · exact hmem
    · have := hcross _ (getLast_mem hne) k hmem
      omega

/-! ## The condition is exact -/

theorem ChainKept.strikePtr (hs : Linked s) (h : ChainKept s s') (k : Nat) (x : Price) :
    s'.strikePtr k x = s.strikePtr k x := by
  unfold ChainState.strikePtr
  rw [h.chain]
  cases hfind : s.chain.expirationSet.find? k with
  | none => rfl
  | some found =>
    obtain ⟨d, p⟩ := found
    simp [h.old p (hs.date hfind).2]

theorem exists_contract (hs : Linked s) (h : (s.strikePtr k x).isSome) : ∃ c : OptionContract,
    c.gotExpireDate ∧ c.gotStrikePrice ∧ c.expireDate.timeOnly = k ∧ c.strikePrice = x := by
  cases hfind : s.chain.expirationSet.find? k with
  | none => rw [strikePtr_of_none hfind] at h; cases h
  | some found =>
    obtain ⟨d, p⟩ := found
    exact ⟨((OptionContract.new [] []).setExpireDate d).setStrikePrice x, rfl, rfl,
      (hs.date hfind).1, rfl⟩

theorem mem_keys_of_isSome (h : (s.strikePtr k x).isSome) :
    k ∈ ExpirationDateSet.keys s.chain.expirationSet := by
  cases hfind : s.chain.expirationSet.find? k with
  | none => rw [strikePtr_of_none hfind] at h; cases h
  | some found => exact mem_keys.mpr ⟨found.1, found.2, hfind⟩

section

variable {clock : Clock} {v v' : ChainView} {dates : List Nat} {strikeSet : List Price}
  (hr : Ranged s clock dates strikeSet s' v')

include hr

/-- Where dates are shown, a contract of the chain is visible just if its date is one of them
and its strike is within the bounds. -/
theorem Ranged.visible_of_ne_nil (hpre : dates <+: ExpirationDateSet.keys s.chain.expirationSet)
    (hne : dates ≠ []) {c : OptionContract}
    (hin : (s.strikePtr c.expireDate.timeOnly c.strikePrice).isSome) :
    v'.isVisible c ↔ c.expireDate.timeOnly ∈ dates ∧
      v'.lowStrike ≤ c.strikePrice ∧ c.strikePrice ≤ v'.highStrike := by
  rw [isVisible_iff, hr.lowExpireDate, hr.highExpireDate,
    ← mem_prefix_iff (keys_sorted _) hpre hne (mem_keys_of_isSome hin)]

theorem Ranged.visible_of_nil (hnil : dates = []) (c : OptionContract) :
    v'.isVisible c ↔ c.expireDate.timeOnly ≤ horizon clock ∧
      v'.lowStrike ≤ c.strikePrice ∧ c.strikePrice ≤ v'.highStrike := by
  rw [isVisible_iff, hr.lowExpireDate, hr.highExpireDate, hnil]
  simp

theorem Ranged.right_of_meets (hs : Linked s) (hm : Meets s clock v.settings)
    (hdates : dates = wantedDates s v.settings clock)
    (hun : Unbounded s v.settings ↔ strikeSet = [])
    (hwanted : ¬(NoPercent s v.settings ∧ v.settings.numExpirations ≤ 0) →
      strikeSet = wantedStrikes s v.settings) :
    RightRange s clock v s' v' := by
  have hpre := wantedDates_prefix s v.settings clock
  rw [← hdates] at hpre
  refine ⟨hr.kept.contracts, hr.kept.strikeSets, hr.kept.chain, hr.kept.strikePtr hs,
    hr.keys.trans hdates, fun k hk x => ?_, fun c _ _ hin => ?_⟩
  · rw [hr.keys] at hk
    rw [hr.strikes]
    by_cases hskipped : NoPercent s v.settings ∧ v.settings.numExpirations ≤ 0
    · -- the number of strikes is not looked at, and nothing is lost by that
      have hempty : strikeSet = [] := hun.mp ⟨hskipped.1, fun h => absurd h (by omega)⟩
      rw [hempty, if_pos ⟨hk, rfl⟩]
      cases hptr : s.strikePtr k x with
      | none => simp
      | some q =>
        rw [if_pos]; exact hm.guard hskipped.1 hskipped.2 k (hdates ▸ hk) x (by rw [hptr]; rfl)
    · rw [← hwanted hskipped]; simp [hk]
  rw [hr.strikes]
  by_cases hnil : dates = []
  · rw [hr.visible_of_nil hnil, hnil]
    refine ⟨?_, fun h => by cases h⟩
    rintro ⟨hhorizon, hbounds⟩
    obtain ⟨hunbounded, hbounded⟩ := hm.noDates (hdates ▸ hnil) _ _ hin hhorizon
    rw [hr.strikeBounds] at hbounds
    by_cases hempty : strikeSet = []
    · rw [if_pos hempty] at hbounds; exact absurd hbounds (hunbounded (hun.mpr hempty))
    · rw [if_neg hempty] at hbounds
      have hnot : ¬Unbounded s v.settings := fun h => hempty (hun.mp h)
      have hskipped : ¬(NoPercent s v.settings ∧ v.settings.numExpirations ≤ 0) :=
        fun h => hnot ⟨h.1, fun hpos => absurd hpos (by omega)⟩
      rw [hwanted hskipped] at hbounds
      exact absurd hbounds (hbounded hnot)
  rw [hr.visible_of_ne_nil hpre hnil hin, hr.strikeBounds]
  by_cases hempty : strikeSet = []
  · rw [hempty]
    constructor
    · rintro ⟨hk, -⟩
      rwa [if_pos ⟨hk, rfl⟩]
    · intro h
      split at h
      · next hk => exact ⟨hk.1, hm.bounds (hun.mpr hempty) _ (hdates ▸ hk.1) _ hin⟩
      · cases h
  rw [if_neg hempty]
  constructor
  · intro h
    rwa [if_pos h]
  · intro h
    split at h
    · next hk => exact hk
    · cases h

theorem Ranged.meets_of_right (hs : Linked s) (hright : RightRange s clock v s' v')
    (hseconds : v.settings.expirationDays * 86400 < 2 ^ 31)
    (hfit : dates = wantedDates s v.settings clock → DatesFit s v.settings clock)
    (hset : s.strikesOfRange v.settings = some strikeSet)
    (hun : Unbounded s v.settings ↔ strikeSet = [])
    (hwanted : ¬(NoPercent s v.settings ∧ v.settings.numExpirations ≤ 0) →
      strikeSet = wantedStrikes s v.settings) :
    Meets s clock v.settings := by
  obtain ⟨hpercent, hnumber⟩ := answered_of_strikesOfRange hset
  have hdates : dates = wantedDates s v.settings clock := by
    rw [← hr.keys]; exact hright.dates
  have hpre := wantedDates_prefix s v.settings clock
  rw [← hdates] at hpre
  refine ⟨hseconds, hpercent, hnumber, hfit hdates, ?_, ?_, ?_⟩
  · intro hno hnum k hk x hin
    have hempty : strikeSet = [] := hun.mp ⟨hno, fun h => absurd h (by omega)⟩
    rw [← hdates] at hk
    have hstrikes := hright.strikes k (by rw [hr.keys]; exact hk) x
    rw [hr.strikes, hempty, if_pos ⟨hk, rfl⟩] at hstrikes
    by_cases hwithin : within (wantedStrikes s v.settings) x
    · exact hwithin
    · rw [if_neg hwithin] at hstrikes
      rw [hstrikes] at hin
      cases hin
  · intro hunbounded k hk x hin
    have hempty := hun.mp hunbounded
    rw [← hdates] at hk
    obtain ⟨c, hdate, hstrike, rfl, rfl⟩ := exists_contract hs hin
    have hvisible := (hright.visible c hdate hstrike hin).mpr (by
      rw [hr.strikes, hempty, if_pos ⟨hk, rfl⟩]; exact hin)
    rw [hr.visible_of_ne_nil hpre (ne_nil_of_mem hk) hin, hr.strikeBounds,
      if_pos hempty] at hvisible
    exact hvisible.2
  intro hnil k x hin hhorizon
  rw [← hdates] at hnil
  obtain ⟨c, hdate, hstrike, rfl, rfl⟩ := exists_contract hs hin
  have hhidden : ¬(v'.lowStrike ≤ c.strikePrice ∧ c.strikePrice ≤ v'.highStrike) := by
    intro hbounds
    have hshown := (hright.visible c hdate hstrike hin).mp
      ((hr.visible_of_nil hnil c).mpr ⟨hhorizon, hbounds⟩)
    rw [hr.strikes, hnil] at hshown
    cases hshown
  rw [hr.strikeBounds] at hhidden
  refine ⟨fun hunbounded => ?_, fun hnot => ?_⟩
  · rwa [if_pos (hun.mp hunbounded)] at hhidden
  · have hempty : strikeSet ≠ [] := fun h => hnot (hun.mpr h)
    have hskipped : ¬(NoPercent s v.settings ∧ v.settings.numExpirations ≤ 0) :=
      fun h => hnot ⟨h.1, fun hpos => absurd hpos (by omega)⟩
    rwa [if_neg hempty, hwanted hskipped] at hhidden

end

theorem delivers_iff_meets (hs : Linked s) (clock : Clock) (v : ChainView) :
    Delivers s clock v ↔ Meets s clock v.settings := by
  have hcopies := filterExpirations_copies hs v.settings clock
  constructor
  · rintro ⟨s', v', hreset, hright⟩
    obtain ⟨hseconds, strikeSet, hset⟩ := computed_of_resetRange hs hreset
    rw [if_pos hseconds] at hcopies
    obtain ⟨keep, s₁, copy, hdates, hcopies, hfit⟩ := hcopies
    obtain ⟨hpercent, hnumber⟩ := answered_of_strikesOfRange hset
    obtain ⟨strikeSet', hset', hun, hwanted⟩ := strikesOfRange_spec hpercent hnumber
    rw [hset] at hset'
    cases hset'
    obtain ⟨s'', v'', hreset', hr⟩ := resetRange_spec hs clock v hdates hcopies hset
    rw [hreset] at hreset'
    cases hreset'
    exact hr.meets_of_right hs hright hseconds hfit.mp hset hun hwanted
  · intro hm
    rw [if_pos hm.seconds] at hcopies
    obtain ⟨keep, s₁, copy, hdates, hcopies, hfit⟩ := hcopies
    obtain ⟨strikeSet, hset, hun, hwanted⟩ := strikesOfRange_spec hm.percent hm.number
    obtain ⟨s', v', hreset, hr⟩ := resetRange_spec hs clock v hdates hcopies hset
    exact ⟨s', v', hreset, hr.right_of_meets hs hm (hfit.mpr hm.dates) hun hwanted⟩

theorem kept_of_resetRange (hs : Linked s) {clock : Clock} {v v' : ChainView}
    (h : s.resetRange clock v = some (s', v')) : ChainKept s s' := by
  obtain ⟨hseconds, strikeSet, hset⟩ := computed_of_resetRange hs h
  have hcopies := filterExpirations_copies hs v.settings clock
  rw [if_pos hseconds] at hcopies
  obtain ⟨keep, s₁, copy, hdates, hcopies, -⟩ := hcopies
  obtain ⟨s'', v'', hreset, hr⟩ := resetRange_spec hs clock v hdates hcopies hset
  rw [h] at hreset
  cases hreset
  exact hr.kept

end ChainState

end Mamda

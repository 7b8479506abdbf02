import OpenMama.Mamda.OptionChainView

/-!
# The copy a view makes of the chain

What one `resetRange` writes: new strike maps behind the addresses in use
(`Copies`), trimmed to a range of strikes afterwards.  The chain's own maps stay
as they were, since every map that is trimmed was made in the same call.
-/

namespace Mamda

open Mama Lib List

def ExpirationDateSet.keys (dates : ExpirationDateSet) : List Nat := dates.toList.map Prod.fst

/-- The strike is in the range that a set of strikes spans; no strikes span everything. -/
def within (strikeSet : List Price) (x : Price) : Bool :=
  match strikeSet.head?, strikeSet.getLast? with
  | some low, some high => low ≤ x && x ≤ high
  | _, _ => true

@[simp] theorem within_nil (x : Price) : within [] x := rfl

theorem keys_sorted (dates : ExpirationDateSet) :
    (ExpirationDateSet.keys dates).Pairwise (· < ·) :=
  pairwise_map.mpr dates.sorted

theorem mem_keys {dates : ExpirationDateSet} {k : Nat} :
    k ∈ ExpirationDateSet.keys dates ↔ ∃ d p, dates.find? k = some (d, p) := by
  simp only [ExpirationDateSet.keys, mem_map, Prod.exists, exists_and_right, exists_eq_right]
  constructor
  · rintro ⟨d, p, h⟩; exact ⟨d, p, SortedMap.mem_toList.mp h⟩
  · rintro ⟨d, p, h⟩; exact ⟨d, p, SortedMap.mem_toList.mpr h⟩

namespace ChainState

variable {s s' s'' : ChainState}

/-- The strike set of a date and strike in a set of dates, by address. -/
def strikeIn (s : ChainState) (dates : ExpirationDateSet) (k : Nat) (x : Price) : Option Nat := do
  let found ← dates.find? k
  let strikes ← s.expirationStrikes[found.2]?
  strikes.find? x

/-- What the chain gives access to is the same, and no old strike map changed. -/
structure ChainKept (s s' : ChainState) : Prop where
  contracts : s'.contracts = s.contracts
  strikeSets : s'.strikeSets = s.strikeSets
  chain : s'.chain = s.chain
  old : ∀ p < s.expirationStrikes.length, s'.expirationStrikes[p]? = s.expirationStrikes[p]?

theorem ChainKept.refl (s : ChainState) : ChainKept s s := ⟨rfl, rfl, rfl, fun _ _ => rfl⟩

/-- The dates of a copy: those of the original that are kept, each with a new map of the
original's strikes. -/
structure Copies (s : ChainState) (dates : ExpirationDateSet) (keep : Nat → Bool)
    (s' : ChainState) (copy : ExpirationDateSet) : Prop where
  kept : ChainKept s s'
  keys : ExpirationDateSet.keys copy = (ExpirationDateSet.keys dates).filter keep
  find : ∀ {k d q}, copy.find? k = some (d, q) → d.timeOnly = k ∧
    s.expirationStrikes.length ≤ q ∧
    ∃ p, dates.find? k = some (d, p) ∧ s'.expirationStrikes[q]? = some (s.strikesAt p)

/-- The addresses of a set of dates are good and its keys are its dates. -/
def GoodDates (s : ChainState) (l : List (Nat × DateTime × Nat)) : Prop :=
  ∀ k d p, (k, d, p) ∈ l → d.timeOnly = k ∧ p < s.expirationStrikes.length

theorem Linked.goodDates (hs : Linked s) : GoodDates s s.chain.expirationSet.toList := by
  intro k d p h
  exact hs.date (SortedMap.mem_toList.mp h)

theorem strikesAt_append {p : Nat} (hp : p < s.expirationStrikes.length) (m : SortedMap Price Nat) :
    strikesAt { s with expirationStrikes := s.expirationStrikes ++ [m] } p = s.strikesAt p := by
  simp [strikesAt, getElem?_append_left hp]

/-- The loop of `copyStrikes`: the entries still to come are larger than those copied. -/
theorem copyEach_spec (l : List (Nat × DateTime × Nat)) (s : ChainState)
    (result : ExpirationDateSet) (hgood : GoodDates s l) (hsorted : l.Pairwise fun a b => a.1 < b.1)
    (hbelow : ∀ a ∈ result.toList, ∀ b ∈ l, a.1 < b.1) : ChainKept s (s.copyEach l result).1 ∧
    (s.copyEach l result).2.toList.map Prod.fst = result.toList.map Prod.fst ++ l.map Prod.fst ∧
    ∀ k d q, (k, d, q) ∈ (s.copyEach l result).2.toList → (k, d, q) ∈ result.toList ∨
    s.expirationStrikes.length ≤ q ∧ ∃ p, (k, d, p) ∈ l ∧
    (s.copyEach l result).1.expirationStrikes[q]? = some (s.strikesAt p) := by
  induction l generalizing s result with
  | nil => exact ⟨ChainKept.refl s, by simp [copyEach], fun k d q h => .inl h⟩
  | cons a l ih =>
    obtain ⟨k₀, d₀, p₀⟩ := a
    obtain ⟨hhead, htail⟩ := pairwise_cons.mp hsorted
    obtain ⟨hkey, hp₀⟩ := hgood k₀ d₀ p₀ mem_cons_self
    simp only [copyEach]
    set s₁ : ChainState :=
      { s with expirationStrikes := s.expirationStrikes ++ [s.strikesAt p₀] } with hs₁
    set r₁ := result.insert d₀.timeOnly (d₀, s.expirationStrikes.length) with hr₁
    have hlength : s₁.expirationStrikes.length = s.expirationStrikes.length + 1 := by simp [hs₁]
    have hlist : r₁.toList = result.toList ++ [(k₀, d₀, s.expirationStrikes.length)] := by
      rw [hr₁, hkey]
      refine SortedMap.insertList_last (fun a ha => ?_) _
      exact hbelow a ha _ mem_cons_self
    obtain ⟨hkept, hkeys, hfind⟩ := ih s₁ r₁
      (fun k d p h => by
        have := hgood k d p (mem_cons_of_mem _ h)
        exact ⟨this.1, by omega⟩) htail
      (fun a ha b hb => by
        rw [hlist] at ha
        rcases mem_append.mp ha with ha | ha
        · exact hbelow a ha b (mem_cons_of_mem _ hb)
        · rw [mem_singleton.mp ha]; exact hhead b hb)
    have hold : ∀ p < s.expirationStrikes.length,
        s₁.expirationStrikes[p]? = s.expirationStrikes[p]? := by
      intro p hp
      rw [getElem?_append_left hp]
    refine ⟨⟨hkept.contracts, hkept.strikeSets, hkept.chain, fun p hp => ?_⟩, ?_, ?_⟩
    · rw [hkept.old p (by omega), hold p hp]
    · rw [hkeys, hlist]; simp
    intro k d q h
    rcases hfind k d q h with h | ⟨hq, p, hp, hget⟩
    · rw [hlist] at h
      rcases mem_append.mp h with h | h
      · exact .inl h
      · cases mem_singleton.mp h
        refine .inr ⟨Nat.le_refl _, p₀, mem_cons_self, ?_⟩
        rw [hkept.old _ (by omega), hs₁]
        simp
    · refine .inr ⟨by omega, p, mem_cons_of_mem _ hp, ?_⟩
      rw [hget]
      have hlt := (hgood k d p (mem_cons_of_mem _ hp)).2
      rw [strikesAt_append hlt]

theorem copyStrikes_copies (hs : Linked s) :
    Copies s s.chain.expirationSet (fun _ => true) (s.copyStrikes s.chain.expirationSet).1
      (s.copyStrikes s.chain.expirationSet).2 := by
  obtain ⟨hkept, hkeys, hfind⟩ := copyEach_spec s.chain.expirationSet.toList s .empty hs.goodDates
    s.chain.expirationSet.sorted (fun a ha => by cases ha)
  refine ⟨hkept, ?_, fun {k d q} h => ?_⟩
  · rwa [filter_true]
  · rcases hfind k d q (SortedMap.mem_toList.mpr h) with h | ⟨hq, p, hp, hget⟩
    · cases h
    · exact ⟨(hs.goodDates k d p hp).1, hq, p, SortedMap.mem_toList.mp hp, hget⟩

theorem getExpirationsBefore_copies (hs : Linked s) (date : DateTime) :
    Copies s s.chain.expirationSet (fun k => k ≤ date.timeOnly)
      (s.getExpirationsBefore s.chain.expirationSet date).1
      (s.getExpirationsBefore s.chain.expirationSet date).2 := by
  obtain ⟨hkept, hkeys, hfind⟩ := copyStrikes_copies hs
  simp only [getExpirationsBefore]
  refine ⟨hkept, ?_, fun {k d q} h => ?_⟩
  · rw [filter_true] at hkeys
    rw [← hkeys]
    simp only [ExpirationDateSet.keys, filter_map]
    rfl
  · rw [SortedMap.find?_filterKeys] at h
    split at h
    · exact hfind h
    · cases h

/-! ## Which dates -/

def wantedDates (s : ChainState) (v : ViewSettings) (clock : Clock) : List Nat :=
  let keys := ExpirationDateSet.keys s.chain.expirationSet
  if v.expirationDays > 0 then
    keys.filter fun k =>
      k ≤ 2 ^ 32 * (clock.tvSec + v.expirationDays.toNat * 86400) + clock.tvUsec
  else if v.numExpirations > 0 then keys.take v.numExpirations.toNat
  else keys

/-- The dates of the chain for which the view computes what the settings ask for: the seconds
since the epoch stay below `2 ^ 32`, or no date is lost because they do not; and where one date
is asked for, the first date is not the empty one, or it is the only one. -/
structure DatesFit (s : ChainState) (v : ViewSettings) (clock : Clock) : Prop where
  days : v.expirationDays > 0 → clock.tvSec + v.expirationDays.toNat * 86400 < 2 ^ 32 ∨
    ∀ k ∈ ExpirationDateSet.keys s.chain.expirationSet,
      k ≤ (clock.now.addWholeSeconds (v.expirationDays * 86400)).timeOnly
  first : v.expirationDays ≤ 0 → v.numExpirations = 1 →
    ∀ a l, s.chain.expirationSet.toList = a :: l → a.2.1.empty → l = []

theorem timeOnly_lt (t : DateTime) : t.timeOnly < 2 ^ 64 := (t.word &&& DateTime.maskTimeOnly).isLt

theorem Linked.key_lt (hs : Linked s) {k : Nat}
    (hk : k ∈ ExpirationDateSet.keys s.chain.expirationSet) : k < 2 ^ 64 := by
  obtain ⟨d, p, h⟩ := mem_keys.mp hk
  rw [← (hs.date h).1]
  exact timeOnly_lt d

theorem timeOnly_inDays (clock : Clock) (days : Nat) :
    (clock.now.addWholeSeconds (days * 86400 : Int)).timeOnly =
      2 ^ 32 * ((clock.tvSec + days * 86400) % 2 ^ 32) + clock.tvUsec := by
  have hlt := clock.tvUsec_lt
  have hnow := DateTime.timeOnly_setToNow clock.tvSec
    (show clock.tvUsec < 2 ^ 20 by omega)
  have hparts := DateTime.timeOnly_eq (.setToNow clock.tvSec clock.tvUsec)
  have hmicro : (DateTime.setToNow clock.tvSec clock.tvUsec).microSeconds < 2 ^ 20 := by
    rw [DateTime.microSeconds_eq]; omega
  rw [Clock.now, DateTime.timeOnly_addWholeSeconds]
  omega

theorem filter_days_iff (hs : Linked s) (v : ViewSettings) (clock : Clock)
    (hdays : v.expirationDays > 0) :
    (ExpirationDateSet.keys s.chain.expirationSet).filter
        (fun k => k ≤ (clock.now.addWholeSeconds (v.expirationDays * 86400)).timeOnly) =
      wantedDates s v clock ↔
    (clock.tvSec + v.expirationDays.toNat * 86400 < 2 ^ 32 ∨
      ∀ k ∈ ExpirationDateSet.keys s.chain.expirationSet,
        k ≤ (clock.now.addWholeSeconds (v.expirationDays * 86400)).timeOnly) := by
  have hcut := timeOnly_inDays clock v.expirationDays.toNat
  rw [Int.toNat_of_nonneg (by omega)] at hcut
  simp only [wantedDates, if_pos hdays]
  by_cases hfits : clock.tvSec + v.expirationDays.toNat * 86400 < 2 ^ 32
  · refine ⟨fun _ => .inl hfits, fun _ => ?_⟩
    rw [hcut, Nat.mod_eq_of_lt hfits]
  -- every date is before the moment meant
  have hall : (ExpirationDateSet.keys s.chain.expirationSet).filter (fun k => decide
      (k ≤ 2 ^ 32 * (clock.tvSec + v.expirationDays.toNat * 86400) + clock.tvUsec)) =
      ExpirationDateSet.keys s.chain.expirationSet := by
    rw [filter_eq_self]
    intro k hk
    have := hs.key_lt hk
    exact decide_eq_true (by omega)
  rw [hall, filter_eq_self]
  constructor
  · intro h; exact .inr fun k hk => of_decide_eq_true (h k hk)
  · rintro (h | h) k hk
    · exact absurd h hfits
    · exact decide_eq_true (h k hk)

theorem countExpirations_short (l : List (Nat × DateTime × Nat)) (n : Int) (date : DateTime)
    (hn : (l.length : Int) < n) : (countExpirations l n date).2 = n - l.length := by
  induction l generalizing n date with
  | nil => simp [countExpirations]
  | cons a l ih =>
    obtain ⟨k, d, p⟩ := a
    rw [length_cons] at hn ⊢
    have hpos : n > 0 := by omega
    rw [countExpirations, if_pos hpos, ih (n - 1) d (by omega)]
    omega

theorem countExpirations_enough (l : List (Nat × DateTime × Nat)) (m : Nat) (hm : m < l.length)
    (date : DateTime) : countExpirations l (m + 1) date = (l[m].2.1, 0) := by
  induction l generalizing m date with
  | nil => exact absurd hm (Nat.not_lt_zero m)
  | cons a l ih =>
    obtain ⟨k, d, p⟩ := a
    have hpos : ((m : Int) + 1) > 0 := by omega
    rw [countExpirations, if_pos hpos]
    cases m with
    | zero => cases l <;> simp [countExpirations]
    | succ m =>
      have hm' : m < l.length := by simpa using hm
      have hstep : ((m + 1 : Nat) : Int) + 1 - 1 = (m : Int) + 1 := by omega
      rw [hstep, ih m hm' d]
      rfl

theorem filter_le_getElem (l : List Nat) (hl : l.Pairwise (· < ·)) (m : Nat) (hm : m < l.length) :
    l.filter (fun k => k ≤ l[m]) = l.take (m + 1) := by
  induction l generalizing m with
  | nil => exact absurd hm (Nat.not_lt_zero m)
  | cons a l ih =>
    obtain ⟨hhead, htail⟩ := pairwise_cons.mp hl
    cases m with
    | zero =>
      have hnone : l.filter (fun k => decide (k ≤ a)) = [] := by
        rw [filter_eq_nil_iff]
        intro k hk
        have := hhead k hk
        simp only [decide_eq_true_eq]
        omega
      simp [hnone]
    | succ m =>
      have hm' : m < l.length := by simpa using hm
      have hle : a ≤ l[m] := Nat.le_of_lt (hhead _ (getElem_mem hm'))
      simp [hle, ih htail m hm']

theorem getExpirations_copies (hs : Linked s) {n : Int} (hn : n > 0) :
    ∃ keep, Copies s s.chain.expirationSet keep (s.getExpirations s.chain.expirationSet n).1
        (s.getExpirations s.chain.expirationSet n).2 ∧
      ((ExpirationDateSet.keys s.chain.expirationSet).filter keep =
          (ExpirationDateSet.keys s.chain.expirationSet).take n.toNat ↔
        (n = 1 → ∀ a l, s.chain.expirationSet.toList = a :: l → a.2.1.empty → l = [])) := by
  set dates := s.chain.expirationSet with hdates
  have hlength : (ExpirationDateSet.keys dates).length = dates.toList.length := by
    simp [ExpirationDateSet.keys]
  rcases Int.lt_or_le dates.toList.length n with hshort | henough
  · have hcount := countExpirations_short dates.toList n .null hshort
    refine ⟨fun _ => true, ?_, ?_⟩
    · have hcopy : s.getExpirations dates n = s.copyStrikes dates := by
        have hne : ¬n - dates.toList.length = 0 := by omega
        simp [getExpirations, hcount, hne]
      rw [hcopy]
      exact copyStrikes_copies hs
    · rw [filter_true, take_of_length_le (by omega)]
      refine ⟨fun _ h1 a l hl _ => ?_, fun _ => rfl⟩
      rw [hl, length_cons] at hshort
      omega
  obtain ⟨m, rfl⟩ : ∃ m : Nat, n = m + 1 := ⟨(n - 1).toNat, by omega⟩
  have hm : m < dates.toList.length := by omega
  have hmkeys : m < (ExpirationDateSet.keys dates).length := by omega
  have hcount := countExpirations_enough dates.toList m hm .null
  have hkey : dates.toList[m].2.1.timeOnly = (ExpirationDateSet.keys dates)[m] := by
    have hgood := hs.goodDates dates.toList[m].1 dates.toList[m].2.1 dates.toList[m].2.2
      (getElem_mem hm)
    simp [ExpirationDateSet.keys, hgood.1]
  cases hempty : dates.toList[m].2.1.empty with
  | false =>
    refine ⟨fun k => k ≤ dates.toList[m].2.1.timeOnly, ?_, ?_⟩
    · have hbefore : s.getExpirations dates (m + 1) =
          s.getExpirationsBefore dates dates.toList[m].2.1 := by
        simp [getExpirations, hcount, hempty]
      rw [hbefore]
      exact getExpirationsBefore_copies hs _
    rw [hkey, filter_le_getElem _ (keys_sorted dates) m hmkeys]
    refine ⟨fun _ h1 a l hl hnull => ?_, fun _ => rfl⟩
    have hm0 : m = 0 := by omega
    subst hm0
    simp only [hl, getElem_cons_zero] at hempty
    rw [hnull] at hempty
    cases hempty
  | true =>
    refine ⟨fun _ => true, ?_, ?_⟩
    · have hcopy : s.getExpirations dates (m + 1) = s.copyStrikes dates := by
        simp [getExpirations, hcount, hempty]
      rw [hcopy]
      exact copyStrikes_copies hs
    -- the empty date has the least key, so it is the first
    have hzero : (ExpirationDateSet.keys dates)[m] = 0 := by
      rw [← hkey, (DateTime.empty_iff _).mp hempty]; rfl
    have hm0 : m = 0 := by
      rcases Nat.eq_zero_or_pos m with h | h
      · exact h
      · have := pairwise_iff_getElem.mp (keys_sorted dates) 0 m (by omega) hmkeys h
        omega
    subst hm0
    rw [filter_true]
    constructor
    · intro htake _ a l hl _
      have hlen := congrArg List.length htake
      rw [length_take, hlength, hl, length_cons] at hlen
      exact length_eq_zero_iff.mp (by omega)
    intro honly
    cases hl : dates.toList with
    | nil => rw [hl] at hm; exact absurd hm (Nat.not_lt_zero _)
    | cons a l =>
      simp only [hl] at hempty
      rw [take_of_length_le]
      rw [hlength, hl, honly (by omega) a l hl hempty]
      simp

theorem filterExpirations_copies (hs : Linked s) (v : ViewSettings) (clock : Clock) :
    if v.expirationDays * 86400 < 2 ^ 31 then
      ∃ keep s' copy, s.filterExpirations v clock = some (s', copy) ∧
        Copies s s.chain.expirationSet keep s' copy ∧
        (ExpirationDateSet.keys copy = wantedDates s v clock ↔ DatesFit s v clock)
    else s.filterExpirations v clock = none := by
  have hseconds : v.expirationDays * 24 * 60 * 60 = v.expirationDays * 86400 := by omega
  simp only [filterExpirations, hseconds]
  by_cases hdays : v.expirationDays > 0
  · rw [if_pos hdays]
    split
    · next hfits =>
      rw [if_neg (by omega)]
      have hcopies := getExpirationsBefore_copies hs
        (clock.now.addWholeSeconds (v.expirationDays * 86400))
      refine ⟨_, (s.getExpirationsBefore s.chain.expirationSet _).1,
        (s.getExpirationsBefore s.chain.expirationSet _).2, rfl, hcopies, ?_⟩
      rw [hcopies.keys, filter_days_iff hs v clock hdays]
      exact ⟨fun h => ⟨fun _ => h, fun hle => absurd hdays (by omega)⟩, fun h => h.days hdays⟩
    · next hoverflow => rw [if_pos (by omega)]
  rw [if_neg hdays, if_pos (by omega)]
  by_cases hnum : v.numExpirations > 0
  · rw [if_pos hnum]
    obtain ⟨keep, hcopies, hiff⟩ := getExpirations_copies hs hnum
    refine ⟨keep, (s.getExpirations s.chain.expirationSet v.numExpirations).1,
      (s.getExpirations s.chain.expirationSet v.numExpirations).2, rfl, hcopies, ?_⟩
    simp only [wantedDates, if_neg hdays, if_pos hnum]
    rw [hcopies.keys, hiff]
    exact ⟨fun h => ⟨fun hpos => absurd hpos hdays, fun _ => h⟩, fun h => h.first (by omega)⟩
  rw [if_neg hnum]
  have hcopies := copyStrikes_copies hs
  refine ⟨_, (s.copyStrikes s.chain.expirationSet).1, (s.copyStrikes s.chain.expirationSet).2,
    rfl, hcopies, ?_⟩
  simp only [wantedDates, if_neg hdays, if_neg hnum]
  rw [hcopies.keys, filter_true]
  exact ⟨fun _ => ⟨fun hpos => absurd hpos hdays, fun _ h1 => absurd h1 (by omega)⟩,
    fun _ => rfl⟩

end ChainState

end Mamda

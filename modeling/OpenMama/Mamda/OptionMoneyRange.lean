import Mathlib.Data.List.Infix
import OpenMama.Mamda.OptionStrikeRange

/-!
# What the queries around the money yield

Both queries cut the sorted strikes at two bounds, and the cuts are filters.  The
percentage test for one price is written apart from them, and the upper bound of the
query by number lies a little above the strike it stands for.
-/

namespace Mamda.OptionChain

open Mama Lib List

variable {strikes : List Price} {low high m : Price}

/-! ## Cuts of a sorted list -/

def below (strikes : List Price) (m : Price) : List Price := strikes.filter (· < m)

/-- The strikes from a price on. -/
def above (strikes : List Price) (m : Price) : List Price := strikes.filter (m ≤ ·)

/-- What a bound cuts off a sorted list, and what it leaves, are filters of it. -/
theorem cut_sorted {p q : Price → Bool} (hq : ∀ s, q s = !p s)
    (hp : ∀ a b, a < b → p b → p a) (h : strikes.Pairwise (· < ·)) :
    strikes.filter p ++ strikes.filter q = strikes ∧ strikes.dropWhile p = strikes.filter q := by
  induction strikes with
  | nil => exact ⟨rfl, rfl⟩
  | cons s rest ih =>
    obtain ⟨hs, hrest⟩ := pairwise_cons.1 h
    cases hps : p s with
    | true => simp [hps, hq, ih hrest]
    | false =>
      have hnone : ∀ s' ∈ rest, p s' = false := fun s' hs' => by
        rw [← Bool.not_eq_true]
        intro hps'
        rw [hp s s' (hs s' hs') hps'] at hps
        cases hps
      have hfilter : rest.filter p = [] := filter_eq_nil_iff.2 (by simpa using hnone)
      have hall : rest.filter q = rest := filter_eq_self.2 (by simpa [hq] using hnone)
      simp [hps, hq, hfilter, hall]

section

variable (h : strikes.Pairwise (· < ·))

include h

theorem cut_lt (m : Price) : below strikes m ++ above strikes m = strikes ∧
    strikes.dropWhile (· < m) = above strikes m :=
  cut_sorted (fun s => by simp [← not_lt])
    (fun _ _ hab hb => decide_eq_true (hab.trans (of_decide_eq_true hb))) h

theorem cut_le (m : Price) : strikes.filter (· ≤ m) ++ strikes.filter (m < ·) = strikes ∧
    strikes.dropWhile (· ≤ m) = strikes.filter (m < ·) :=
  cut_sorted (fun s => by simp [← not_le])
    (fun _ _ hab hb => decide_eq_true (hab.le.trans (of_decide_eq_true hb))) h

/-- The strikes from one bound to the other. -/
def strikesBetween (strikes : List Price) (low high : Price) : List Price :=
  (above strikes low).filter (· ≤ high)

theorem copyRange_eq (hle : low ≤ high) :
    copyRange strikes low high = some (strikesBetween strikes low high) := by
  have hback : (above strikes low).filter (high < ·) = strikes.filter (high < ·) := by
    rw [above, filter_filter]
    refine filter_congr fun s _ => ?_
    by_cases hs : high < s
    · simp [hs, hle.trans hs.le]
    · simp [hs]
  have hfrom : (above strikes low).Pairwise (· < ·) := h.filter (low ≤ ·)
  have hcut := (cut_le hfrom high).1
  rw [hback] at hcut
  unfold copyRange
  rw [(cut_lt h low).2, (cut_le h high).2]
  dsimp only
  rw [← hcut, if_neg (by simp), length_append, Nat.add_sub_cancel, take_left]
  rfl

/-! ## The percentage -/

/-- The test for one price and the set of strikes agree, on the range the header states. -/
def PercentAgrees (chain : OptionChain) (percentage : Price) (compareType : AtTheMoneyCompareType)
    (m s : Price) : Prop :=
  ∃ strikeSet, chain.getStrikesWithinPercent percentage compareType = some strikeSet ∧
    (chain.getIsPriceWithinPercentOfMoney s percentage compareType = some true ↔ s ∈ strikeSet) ∧
    (s ∈ strikeSet ↔ m * (1 - percentage / 100) ≤ s ∧ s ≤ m * (1 + percentage / 100))

omit h in
/-- **The test for one price answers true to every price**: it and the set of strikes agree on a
strike just when the strike is within the percentage. -/
theorem percentAgrees_iff (chain : OptionChain) {percentage m s : Price}
    {compareType : AtTheMoneyCompareType} (hsorted : chain.strikePrices.Pairwise (· < ·))
    (hmoney : chain.getAtTheMoney compareType = some m) (hm : m ≠ 0) (hpercent : 0 < percentage)
    (hs : s ∈ chain.strikePrices) : PercentAgrees chain percentage compareType m s ↔
    m * (1 - percentage / 100) ≤ s ∧ s ≤ m * (1 + percentage / 100) := by
  have htrue : chain.getIsPriceWithinPercentOfMoney s percentage compareType = some true := by
    rw [getIsPriceWithinPercentOfMoney, hmoney]
    dsimp only [Option.bind_eq_bind, Option.bind_some]
    rw [if_neg hm]
    by_cases hlow : 1 - percentage ≤ s
    · simp [hlow]
    · have hhigh : s ≤ 1 + percentage := by linarith
      simp [hhigh]
  constructor
  · rintro ⟨strikeSet, -, hagree, hrange⟩; exact hrange.1 (hagree.1 htrue)
  intro hrange
  have hset : chain.getStrikesWithinPercent percentage compareType =
      some (strikesBetween chain.strikePrices
      (m * (1 - percentage / 100)) (m * (1 + percentage / 100))) := by
    have hpos : ¬percentage / 100 ≤ 0 := by linarith
    unfold getStrikesWithinPercent
    dsimp only
    rw [if_neg hpos, hmoney]
    dsimp only [Option.bind_eq_bind, Option.bind_some]
    rw [if_neg hm, copyRange_eq hsorted (hrange.1.trans hrange.2)]
  have hmem : s ∈ strikesBetween chain.strikePrices
      (m * (1 - percentage / 100)) (m * (1 + percentage / 100)) := by
    simp [strikesBetween, above, hs, hrange]
  exact ⟨_, hset, iff_of_true htrue hmem, iff_of_true hmem hrange⟩

/-! ## The number of strikes -/

/-- Half of the strikes, rounded up, are taken from the money on, as far as there are. -/
def countAbove (strikes : List Price) (rangeLength : Nat) (m : Price) : Nat :=
  min ((rangeLength + 1) / 2) (above strikes m).length

def countBelow (strikes : List Price) (rangeLength : Nat) (m : Price) : Nat :=
  min (rangeLength - countAbove strikes rangeLength m) (below strikes m).length

/-- The highest strikes below the money and the lowest from it on. -/
def aroundMoney (strikes : List Price) (rangeLength : Nat) (m : Price) : List Price :=
  (below strikes m).drop
      ((below strikes m).length - countBelow strikes rangeLength m) ++
    (above strikes m).take (countAbove strikes rangeLength m)

/-- The upper bound, once `n` of the strikes are counted. -/
def boundAfter (upperBound : Price) (n : Nat) (above : List Price) : Price :=
  ((above.take n).getLast?.map (· + 1 / 100000)).getD upperBound

omit h in
theorem countStrikes_below {below : List Price} (h : ∀ s ∈ below, s < m) (half : Price)
    (above : List Price) (counted : Nat) :
    countStrikes m half (below ++ above) counted 0 dblMax =
      countStrikes m half above (counted + below.length) 0 dblMax := by
  induction below generalizing counted with
  | nil => rfl
  | cons s below ih =>
    rw [cons_append, countStrikes, if_pos (h s (by simp)),
      ih (fun s' hs' => h s' (by simp [hs']))]
    congr 1
    simp only [length_cons]
    omega

omit h in
theorem countStrikes_above {above : List Price} (h : ∀ s ∈ above, m ≤ s) {r : Nat} (counted : Nat)
    {found : Nat} (hfound : found < (r + 1) / 2) (upperBound : Price) :
    countStrikes m ((r : Int) / 2) above counted found upperBound =
      (counted, found + min ((r + 1) / 2 - found) above.length,
        boundAfter upperBound ((r + 1) / 2 - found) above) := by
  induction above generalizing found upperBound with
  | nil => simp [countStrikes, boundAfter]
  | cons s above ih =>
    have hnot : ¬s < m := not_lt.2 (h s (by simp))
    have hhalf : ((r : Int) : Price) / 2 ≤ (found + 1 : Nat) ↔ (r + 1) / 2 ≤ found + 1 := by
      rw [div_le_iff₀ (by norm_num)]
      norm_cast
      omega
    obtain ⟨n, hn⟩ : ∃ n, (r + 1) / 2 - found = n + 1 := ⟨(r + 1) / 2 - found - 1, by omega⟩
    rw [countStrikes, if_neg hnot, hn]
    dsimp only
    by_cases hdone : (r + 1) / 2 ≤ found + 1
    · obtain rfl : n = 0 := by omega
      rw [if_pos (hhalf.2 hdone)]
      simp [boundAfter]
    rw [if_neg (mt hhalf.1 hdone), ih (fun s' hs' => h s' (by simp [hs'])) (by omega)]
    obtain rfl : (r + 1) / 2 - (found + 1) = n := by omega
    refine congrArg₂ _ rfl (congrArg₂ _ ?_ ?_)
    · rw [length_cons]; omega
    · unfold boundAfter
      rw [take_succ_cons, getLast?_cons]
      cases (above.take ((r + 1) / 2 - (found + 1))).getLast? <;> rfl

omit h in
theorem lowestStrike_eq (targetCount : Int) :
    lowestStrike strikes targetCount = ((strikes.drop targetCount.toNat).head?).getD dblMin := by
  induction strikes generalizing targetCount with
  | nil => rw [drop_nil]; rfl
  | cons s rest ih =>
    rw [lowestStrike]
    split
    · obtain ⟨n, hn⟩ : ∃ n, targetCount.toNat = n + 1 := ⟨targetCount.toNat - 1, by omega⟩
      obtain hpred : (targetCount - 1).toNat = n := by omega
      rw [ih, hn, hpred, drop_succ_cons]
    · obtain hzero : targetCount.toNat = 0 := by omega
      rw [hzero]
      rfl

/-- The cut at the strike `n` is the list from there on. -/
theorem dropWhile_drop {n : Nat} (hn : n < strikes.length ∨ strikes = []) :
    strikes.dropWhile (· < ((strikes.drop n).head?).getD dblMin) = strikes.drop n := by
  rcases hn with hn | rfl
  · have hsplit := take_append_drop n strikes
    obtain ⟨s, rest, hdrop⟩ := exists_cons_of_ne_nil (mt drop_eq_nil_iff.1 (not_le.2 hn))
    rw [hdrop] at hsplit ⊢
    rw [← hsplit] at h ⊢
    have hbefore : ∀ s' ∈ strikes.take n, decide (s' < s) = true := fun s' hs' =>
      decide_eq_true ((pairwise_append.1 h).2.2 s' hs' s (by simp))
    rw [head?_cons, Option.getD_some, dropWhile_append_of_pos hbefore,
      dropWhile_cons_of_neg (by simp)]
  · rw [drop_nil]; rfl

omit h in
theorem le_of_getLast? {l : List Price} (h : l.Pairwise (· < ·)) {last : Price}
    (hlast : last ∈ l.getLast?) : ∀ s ∈ l, s ≤ last := by
  rw [← dropLast_append_getLast? last hlast] at h ⊢
  intro s hs
  rcases mem_append.1 hs with hs | hs
  · exact ((pairwise_append.1 h).2.2 s hs last (by simp)).le
  · rw [mem_singleton.1 hs]

omit h in
theorem take_eq_iff (kept rest : List Price) (n : Nat) :
    (if (kept ++ rest).length < n then none
      else some ((kept ++ rest).take ((kept ++ rest).length - n))) = some kept ↔
        n = rest.length := by
  constructor
  · intro h
    obtain ⟨hn, h⟩ := Option.ite_none_left_eq_some.1 h
    have hlength := congrArg List.length (Option.some.inj h)
    simp only [length_take, length_append] at hlength hn
    omega
  · rintro rfl
    rw [if_neg (by simp), length_append, Nat.add_sub_cancel, take_left]

/-- The query yields the strikes around the money, a run of at most so many of them. -/
def YieldsAround (chain : OptionChain) (rangeLength : Int) (compareType : AtTheMoneyCompareType)
    (m : Price) : Prop :=
  chain.getStrikesWithinRangeSize rangeLength compareType =
      some (aroundMoney chain.strikePrices rangeLength.toNat m) ∧
    aroundMoney chain.strikePrices rangeLength.toNat m <:+: chain.strikePrices ∧
    (aroundMoney chain.strikePrices rangeLength.toNat m).length ≤ rangeLength.toNat

/-- No strike that is left out lies at the bound or below it. -/
def ClearOfBound (strikes : List Price) (rangeLength : Nat) (m : Price) : Prop :=
  (∀ last ∈ ((above strikes m).take (countAbove strikes rangeLength m)).getLast?,
    ∀ next ∈ (above strikes m).drop (countAbove strikes rangeLength m),
      last + 1 / 100000 < next) ∧
  (above strikes m = [] → ∀ s ∈ strikes, s ≤ dblMax)

/-- The upper bound leaves out just the strikes after those counted. -/
theorem length_cut_iff {r : Nat} (hr : 1 ≤ r) :
    (strikes.dropWhile (· ≤ boundAfter dblMax ((r + 1) / 2) (above strikes m))).length =
        ((above strikes m).drop (countAbove strikes r m)).length ↔
      ClearOfBound strikes r m := by
  obtain ⟨hsplit, -⟩ := cut_lt h m
  have habove : (above strikes m).Pairwise (· < ·) := h.filter (m ≤ ·)
  have hbelow : ∀ s ∈ below strikes m, s < m := fun s hs => by simpa using (mem_filter.1 hs).2
  have hfrom : ∀ s ∈ above strikes m, m ≤ s := fun s hs => by simpa using (mem_filter.1 hs).2
  rw [ClearOfBound, boundAfter, countAbove, ← take_eq_take_min, (cut_le h _).2]
  generalize below strikes m = lower at *
  generalize above strikes m = upper at *
  subst hsplit
  cases hlast : (upper.take ((r + 1) / 2)).getLast? with
  | none =>
    have hnil : upper = [] := by
      rcases take_eq_nil_iff.1 (getLast?_eq_none_iff.1 hlast) with hzero | hnil
      · omega
      · exact hnil
    subst hnil
    simp
  | some last =>
    -- the strikes counted, and those below the money, are not past the bound
    have hcounted := le_of_getLast? (pairwise_append.1
      ((take_append_drop ((r + 1) / 2) upper).symm ▸ habove)).1 hlast
    have hm : m ≤ last := hfrom last (mem_of_mem_take (mem_of_getLast? hlast))
    have hne : upper ≠ [] := fun hnil => by simp [hnil] at hlast
    have hdrop : upper.drop (min ((r + 1) / 2) upper.length) = upper.drop ((r + 1) / 2) := by
      rw [drop_eq_drop_iff, min_assoc, min_self]
    have hcut : (lower ++ upper).filter (last + 1 / 100000 < ·) =
        (upper.drop ((r + 1) / 2)).filter (last + 1 / 100000 < ·) := by
      conv_lhs => rw [← take_append_drop ((r + 1) / 2) upper]
      rw [filter_append, filter_append, filter_eq_nil_iff.2,
        filter_eq_nil_iff.2, nil_append, nil_append]
      · intro s hs
        have hle := hcounted s hs
        simpa using (by linarith : s ≤ last + 1 / 100000)
      · intro s hs
        have hlt := hbelow s hs
        simpa using (by linarith : s ≤ last + 1 / 100000)
    simp only [Option.map_some, Option.getD_some, hdrop, hcut, length_filter_eq_length_iff]
    simp [hne]

end

/-- **The bound lies a hundred-thousandth above the last strike counted**: the query yields the
strikes around the money just when no further strike lies that close. -/
theorem yieldsAround_iff (chain : OptionChain) {rangeLength : Int} {m : Price}
    {compareType : AtTheMoneyCompareType} (hsorted : chain.strikePrices.Pairwise (· < ·))
    (hmoney : chain.getAtTheMoney compareType = some m) (hm : m ≠ 0) (hr : 1 ≤ rangeLength) :
    YieldsAround chain rangeLength compareType m ↔
      ClearOfBound chain.strikePrices rangeLength.toNat m := by
  obtain ⟨r, rfl⟩ := Int.eq_ofNat_of_zero_le (by omega : 0 ≤ rangeLength)
  have hpos : 1 ≤ r := by omega
  obtain ⟨hsplit, -⟩ := cut_lt hsorted m
  rw [YieldsAround, Int.toNat_natCast, ← length_cut_iff hsorted hpos]
  have hcount : countStrikes m ((r : Int) / 2) chain.strikePrices 0 0 dblMax =
      ((below chain.strikePrices m).length, countAbove chain.strikePrices r m,
        boundAfter dblMax ((r + 1) / 2) (above chain.strikePrices m)) := by
    conv_lhs => rw [← hsplit]
    rw [countStrikes_below (by simp [below]), countStrikes_above (by simp [above]) _ (by omega)]
    simp [countAbove]
  have hdrop : chain.strikePrices.drop ((below chain.strikePrices m).length -
      countBelow chain.strikePrices r m) = aroundMoney chain.strikePrices r m ++
        (above chain.strikePrices m).drop (countAbove chain.strikePrices r m) := by
    refine (congrArg (List.drop _) hsplit.symm).trans ?_
    rw [drop_append_of_le_length (Nat.sub_le _ _), aroundMoney, append_assoc, take_append_drop]
  have hlength := congrArg List.length hsplit
  rw [length_append] at hlength
  have htarget : (((below chain.strikePrices m).length : Int) -
      (r - countAbove chain.strikePrices r m)).toNat =
        (below chain.strikePrices m).length - countBelow chain.strikePrices r m := by
    unfold countBelow countAbove
    omega
  have hquery : chain.getStrikesWithinRangeSize r compareType =
      some (aroundMoney chain.strikePrices r m) ↔
      (chain.strikePrices.dropWhile
        (· ≤ boundAfter dblMax ((r + 1) / 2) (above chain.strikePrices m))).length =
        ((above chain.strikePrices m).drop (countAbove chain.strikePrices r m)).length := by
    rw [getStrikesWithinRangeSize, if_neg (by omega), hmoney]
    dsimp only [Option.bind_eq_bind, Option.bind_some]
    rw [if_neg hm, hcount]
    dsimp only
    rw [lowestStrike_eq, htarget, copyRange, dropWhile_drop hsorted, hdrop]
    · exact take_eq_iff _ _ _
    · by_cases hnil : chain.strikePrices = []
      · exact .inr hnil
      · have hlength' := length_pos_iff.2 hnil
        left
        unfold countBelow countAbove
        omega
  rw [hquery, and_iff_left]
  constructor
  · have hprefix := prefix_append (aroundMoney chain.strikePrices r m)
      ((above chain.strikePrices m).drop (countAbove chain.strikePrices r m))
    rw [← hdrop] at hprefix
    exact hprefix.isInfix.trans (drop_suffix _ _).isInfix
  · rw [aroundMoney, length_append, length_drop, length_take]
    unfold countBelow countAbove
    omega

/-- A chain with these strikes and this last trade price. -/
def tradedAt (strikes : List Price) (money : Price) : OptionChain :=
  ⟨[], [], strikes, .unset, .to money, .empty⟩

theorem yieldsAround_iff_strikes :
    YieldsAround (tradedAt [8, 9, 10, 11] 10) 3 .lastTrade 10 ↔ ClearOfBound [8, 9, 10, 11] 3 10 :=
  yieldsAround_iff (tradedAt [8, 9, 10, 11] 10) (by norm_num [tradedAt]) rfl (by norm_num)
    (by norm_num)

/-- The second strike from the money on lies within the bound of the first. -/
theorem not_yieldsAround : ¬∀ (chain : OptionChain) (rangeLength : Int) (m : Price),
    chain.strikePrices.Pairwise (· < ·) → chain.getAtTheMoney .lastTrade = some m → m ≠ 0 →
    1 ≤ rangeLength → YieldsAround chain rangeLength .lastTrade m := by
  intro h
  obtain ⟨hyields, -⟩ := h (tradedAt [10, 10 + 1 / 1000000] 10) 1 10 (by norm_num [tradedAt]) rfl
    (by norm_num) (by norm_num)
  norm_num [getStrikesWithinRangeSize, tradedAt, getAtTheMoney, countStrikes, lowestStrike,
    copyRange,
    aroundMoney, countAbove, countBelow, below, above] at hyields

theorem percentAgrees_iff_strikes : PercentAgrees (tradedAt [8, 9, 10, 11] 10) 10 .lastTrade 10 9 ↔
    10 * (1 - 10 / 100) ≤ (9 : Price) ∧ (9 : Price) ≤ 10 * (1 + 10 / 100) :=
  percentAgrees_iff (tradedAt [8, 9, 10, 11] 10) (by norm_num [tradedAt]) rfl (by norm_num)
    (by norm_num)
    (by simp [tradedAt])

/-- A strike far below the money is within a tenth of it by the test alone. -/
theorem not_percentAgrees : ¬∀ (chain : OptionChain) (percentage m s : Price),
    chain.strikePrices.Pairwise (· < ·) → chain.getAtTheMoney .lastTrade = some m → m ≠ 0 →
    0 < percentage → s ∈ chain.strikePrices → PercentAgrees chain percentage .lastTrade m s := by
  intro h
  obtain ⟨strikeSet, -, hagree, hrange⟩ :=
    h (tradedAt [8, 9, 10, 11] 10) 10 10 8 (by norm_num [tradedAt]) rfl
    (by norm_num) (by norm_num) (by simp [tradedAt])
  have hin := hrange.1 (hagree.1 (by decide +kernel))
  norm_num at hin

end Mamda.OptionChain

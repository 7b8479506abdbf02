import OpenMama.Mamda.OptionChain

/-!
# Strikes around the money

The queries of `MamdaOptionChain` that a view asks: the underlying price, the
strikes within a percentage of it and the strikes of a fixed number around it.
`none` is a query that the source answers by undefined behaviour: a listener
pointer that was never set is read, or a copy starts behind its end and runs out
of the set.
-/

namespace Mamda

open Mama Lib

/-- `MamdaOptionAtTheMoneyCompareType`. -/
inductive AtTheMoneyCompareType
  | midQuote
  | bid
  | ask
  | lastTrade
  deriving DecidableEq

namespace OptionChain

/-- `DBL_MIN`, the least positive normal double. -/
@[irreducible] def dblMin : Price := 1 / 2 ^ 1022

/-- `DBL_MAX`. -/
@[irreducible] def dblMax : Price := 2 ^ 1024 - 2 ^ 971

/-- The elements from `lower_bound (low)` up to `upper_bound (high)`. -/
def copyRange (strikes : List Price) (low high : Price) : Option (List Price) :=
  let i := strikes.dropWhile (· < low)
  let iterEnd := strikes.dropWhile (· ≤ high)
  if i.length < iterEnd.length then none else some (i.take (i.length - iterEnd.length))

/-- The first loop of `getStrikesWithinRangeSize`: `countToMoney`, `countFromMoney` and
`upperBound`. -/
def countStrikes (atTheMoney halfRangeLength : Price) :
    List Price → Nat → Nat → Price → Nat × Nat × Price
  | [], countToMoney, countFromMoney, upperBound => (countToMoney, countFromMoney, upperBound)
  | strikePrice :: strikes, countToMoney, countFromMoney, upperBound =>
    if strikePrice < atTheMoney then
      countStrikes atTheMoney halfRangeLength strikes (countToMoney + 1) countFromMoney upperBound
    else
      let countFromMoney := countFromMoney + 1
      let upperBound := strikePrice + 1 / 100000
      if halfRangeLength ≤ countFromMoney then (countToMoney, countFromMoney, upperBound)
      else countStrikes atTheMoney halfRangeLength strikes countToMoney countFromMoney upperBound

/-- The second loop: `lowerBound`. -/
def lowestStrike : List Price → Int → Price
  | [], _ => dblMin
  | strikePrice :: strikes, targetCount =>
    if targetCount > 0 then lowestStrike strikes (targetCount - 1) else strikePrice

def getAtTheMoney (chain : OptionChain) : AtTheMoneyCompareType → Option Price
  | .midQuote =>
    match chain.quoteListener with
    | .unset => none
    | .null => some 0
    | .to quote => some ((quote.bidPrice + quote.askPrice) / 2)
  | .bid =>
    match chain.quoteListener with
    | .unset => none
    | .null => some 0
    | .to quote => some quote.bidPrice
  | .ask =>
    match chain.quoteListener with
    | .unset => none
    | .null => some 0
    | .to quote => some quote.askPrice
  | .lastTrade =>
    match chain.tradeListener with
    | .unset => none
    | .null => some 0
    | .to lastPrice => some lastPrice

def getIsPriceWithinPercentOfMoney (chain : OptionChain) (price percentage : Price)
    (compareType : AtTheMoneyCompareType) : Option Bool := do
  let atTheMoney ← chain.getAtTheMoney compareType
  if atTheMoney = 0 then some false
  else some (decide (1 - percentage ≤ price) || decide (price ≤ 1 + percentage))

def getStrikesWithinPercent (chain : OptionChain) (percentage : Price)
    (compareType : AtTheMoneyCompareType) : Option (List Price) :=
  let percentage := percentage / 100
  if percentage ≤ 0 then some []
  else do
    let atTheMoney ← chain.getAtTheMoney compareType
    if atTheMoney = 0 then some []
    else
      let lowPercent := atTheMoney * (1 - percentage)
      let highPercent := atTheMoney * (1 + percentage)
      copyRange chain.strikePrices lowPercent highPercent

def getStrikesWithinRangeSize (chain : OptionChain) (rangeLength : Int)
    (compareType : AtTheMoneyCompareType) : Option (List Price) :=
  if rangeLength ≤ 0 then some []
  else do
    let atTheMoney ← chain.getAtTheMoney compareType
    if atTheMoney = 0 then some []
    else
      let (countToMoney, countFromMoney, upperBound) :=
        countStrikes atTheMoney (rangeLength / 2) chain.strikePrices 0 0 dblMax
      let targetCount := countToMoney - (rangeLength - countFromMoney)
      let lowerBound := lowestStrike chain.strikePrices targetCount
      copyRange chain.strikePrices lowerBound upperBound

end OptionChain

end Mamda

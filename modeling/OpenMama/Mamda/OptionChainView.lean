import OpenMama.Mama.DateTimeSeconds
import OpenMama.Mamda.OptionStrikeRange

/-!
# `MamdaOptionChainView`

A view keeps a copy of the chain's expirations: `copyStrikes` makes new strike
maps for it, so that `trimStrikes` can erase strikes there, while the strike
sets behind them are the chain's own.  Beside the copy it keeps four bounds, and
`isVisible` asks only these.

`resetRange` computes both again; it reads the clock, the chain and the
underlying price once.  `none` is undefined behaviour: an overflow of `int`, or a
query of the chain that has no answer.
-/

namespace Mamda

open Mama Lib

/-- `MamdaOptionExpirationDateSet`, dates with the addresses of their strike maps. -/
abbrev ExpirationDateSet := SortedMap Nat (DateTime × Nat)

/-- What `gettimeofday` says. -/
structure Clock where
  tvSec : Nat
  tvUsec : Nat
  tvUsec_lt : tvUsec < 1000000

def Clock.now (clock : Clock) : DateTime := .setToNow clock.tvSec clock.tvUsec

structure ViewSettings where
  atTheMoneyType : AtTheMoneyCompareType
  strikeMargin : Price
  numStrikes : Int
  expirationDays : Int
  numExpirations : Int
  jitterMargin : Price

/-- `MamdaOptionChainViewImpl`. -/
structure ChainView where
  settings : ViewSettings
  expirationDateSet : ExpirationDateSet
  lowExpireDate : DateTime
  highExpireDate : DateTime
  lowStrike : Price
  highStrike : Price

/-- A view as its constructor leaves it before the first `resetRange`. -/
def ChainView.new : ChainView :=
  { settings := ⟨.midQuote, 0, 0, 0, 0, 1 / 2⟩
    expirationDateSet := .empty
    lowExpireDate := .null
    highExpireDate := .null
    lowStrike := 0
    highStrike := 0 }

def ChainView.isVisible (v : ChainView) (contract : OptionContract) : Bool :=
  v.lowExpireDate.compare contract.expireDate ≤ 0 &&
    v.highExpireDate.compare contract.expireDate ≥ 0 &&
    v.lowStrike ≤ contract.strikePrice && contract.strikePrice ≤ v.highStrike

def trimStrikes (strikes : SortedMap Price Nat) (strikeSet : List Price) : SortedMap Price Nat :=
  match strikeSet.head?, strikeSet.getLast? with
  | some lowStrike, some highStrike =>
    (strikes.filterKeys fun x => lowStrike ≤ x).filterKeys fun x => x ≤ highStrike
  | _, _ => .empty

/-- The loop of `getExpirations`: the last date counted and what is left of the count. -/
def countExpirations : List (Nat × DateTime × Nat) → Int → DateTime → DateTime × Int
  | [], numExpirations, date => (date, numExpirations)
  | (_, expireDate, _) :: l, numExpirations, date =>
    if numExpirations > 0 then countExpirations l (numExpirations - 1) expireDate
    else (date, numExpirations)

namespace ChainState

/-! ## Dates -/

/-- The loop of `copyStrikes`. -/
def copyEach : List (Nat × DateTime × Nat) → ChainState → ExpirationDateSet →
    ChainState × ExpirationDateSet
  | [], s, result => (s, result)
  | (_, expireDate, strikes) :: l, s, result =>
    copyEach l { s with expirationStrikes := s.expirationStrikes ++ [s.strikesAt strikes] }
      (result.insert expireDate.timeOnly (expireDate, s.expirationStrikes.length))

/-- `copyStrikes`, into a set that is cleared first. -/
def copyStrikes (s : ChainState) (rhs : ExpirationDateSet) : ChainState × ExpirationDateSet :=
  s.copyEach rhs.toList .empty

def getExpirationsBefore (s : ChainState) (dates : ExpirationDateSet) (date : DateTime) :
    ChainState × ExpirationDateSet :=
  let (s, result) := s.copyStrikes dates
  (s, result.filterKeys fun k => k ≤ date.timeOnly)

def getExpirations (s : ChainState) (dates : ExpirationDateSet) (numExpirations : Int) :
    ChainState × ExpirationDateSet :=
  let (date, numExpirations) := countExpirations dates.toList numExpirations .null
  if numExpirations = 0 && !date.empty then s.getExpirationsBefore dates date
  else s.copyStrikes dates

def filterExpirations (s : ChainState) (v : ViewSettings) (clock : Clock) :
    Option (ChainState × ExpirationDateSet) :=
  let initialSet := s.chain.expirationSet
  if v.expirationDays > 0 then
    let seconds := v.expirationDays * 24 * 60 * 60
    if seconds ≥ 2 ^ 31 then none
    else some (s.getExpirationsBefore initialSet (clock.now.addWholeSeconds seconds))
  else if v.numExpirations > 0 then some (s.getExpirations initialSet v.numExpirations)
  else some (s.copyStrikes initialSet)

/-! ## Strikes -/

/-- The loop of `filterStrikes`, through the pointers of the dates. -/
def trimEach : List (Nat × DateTime × Nat) → List Price → ChainState → ChainState
  | [], _, s => s
  | (_, _, strikes) :: l, strikeSet, s =>
    trimEach l strikeSet
      { s with
        expirationStrikes := s.expirationStrikes.modify strikes fun m => trimStrikes m strikeSet }

/-- The first part of `filterStrikes`: the strikes that give the range. -/
def strikesOfRange (s : ChainState) (v : ViewSettings) : Option (List Price) := do
  let strikeSet ←
    if v.strikeMargin > 0 then s.chain.getStrikesWithinPercent v.strikeMargin v.atTheMoneyType
    else some []
  if strikeSet = [] then
    if v.numExpirations > 0 then
      s.chain.getStrikesWithinRangeSize v.numStrikes v.atTheMoneyType
    else some []
  else some strikeSet

def filterStrikes (s : ChainState) (v : ChainView) : Option (ChainState × ChainView) := do
  let strikeSet ← s.strikesOfRange v.settings
  match strikeSet.head?, strikeSet.getLast? with
  | some low, some high =>
    some (s.trimEach v.expirationDateSet.toList strikeSet,
      { v with lowStrike := low, highStrike := high })
  | _, _ => some (s, { v with lowStrike := OptionChain.dblMin, highStrike := OptionChain.dblMax })

/-- One year of seconds, as far as the view looks without expirations. -/
def oneYear : Int := 366 * 24 * 60 * 60

def resetRange (s : ChainState) (clock : Clock) (v : ChainView) :
    Option (ChainState × ChainView) := do
  let (s, expirationDateSet) ← s.filterExpirations v.settings clock
  let (s, v) ← s.filterStrikes { v with expirationDateSet := expirationDateSet }
  match v.expirationDateSet.toList.head?, v.expirationDateSet.toList.getLast? with
  | some first, some last =>
    some (s, { v with lowExpireDate := first.2.1, highExpireDate := last.2.1 })
  | _, _ =>
    some (s, { v with
      lowExpireDate := .null
      highExpireDate := clock.now.addWholeSeconds oneYear })

end ChainState

end Mamda

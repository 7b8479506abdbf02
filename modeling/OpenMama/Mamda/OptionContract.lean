import Mathlib.Data.Char
import Mathlib.Data.List.Lex
import Mathlib.Data.Prod.Lex
import OpenMama.Lib.OrderedSet
import OpenMama.Mamda.OrderBookTypes

/-!
# Option contracts and their order

`MamdaOptionContract` with what the chain reads of it, the comparator
`contract_less_than` of the chain's call and put sets, and the exchange slots of
`MamdaOptionContractSet`.  Strings are lists of characters; open interest,
exercise style and the contract's own listeners take no part in the chain.
-/

namespace Mamda

open Mama Lib

/-- `MamdaOptionPutCall`. -/
inductive PutCall
  | call
  | put
  | unknown
  deriving DecidableEq, Repr

/-- `MamdaOptionContractImpl`. -/
structure OptionContract where
  symbol : List Char
  exchange : List Char
  expireDate : DateTime
  gotExpireDate : Bool
  strikePrice : Price
  gotStrikePrice : Bool
  putCall : PutCall
  gotPutCall : Bool
  recapRequired : Bool
  deriving DecidableEq

namespace OptionContract

/-- `MAX_SYMBOL_LEN`. -/
def maxSymbolLen : Nat := 256

/-- `MAX_PART_ID_LEN`. -/
def maxPartIdLen : Nat := 5

/-- The constructor from symbol and exchange; `snprintf` cuts both to their buffers. -/
def new (symbol exchange : List Char) : OptionContract :=
  { symbol := symbol.take (maxSymbolLen - 1)
    exchange := exchange.take (maxPartIdLen - 1)
    expireDate := .null
    gotExpireDate := false
    strikePrice := 0
    gotStrikePrice := false
    putCall := .unknown
    gotPutCall := false
    recapRequired := false }

instance : Inhabited OptionContract := ⟨new [] []⟩

def setExpireDate (c : OptionContract) (expireDate : DateTime) : OptionContract :=
  { c with expireDate := expireDate, gotExpireDate := true }

def setStrikePrice (c : OptionContract) (strikePrice : Price) : OptionContract :=
  { c with strikePrice := strikePrice, gotStrikePrice := true }

def setPutCall (c : OptionContract) (putCall : PutCall) : OptionContract :=
  { c with putCall := putCall, gotPutCall := true }

def setRecapRequired (c : OptionContract) (recapRequired : Bool) : OptionContract :=
  { c with recapRequired := recapRequired }

end OptionContract

/-! ## `contract_less_than` -/

/-- `strcmp`, as far as its sign. -/
def strcmp (a b : List Char) : Int :=
  if a < b then -1 else if b < a then 1 else 0

/-- `contract_less_than`. -/
def contractLessThan (contract1 contract2 : OptionContract) : Bool :=
  let comp := contract1.expireDate.compare contract2.expireDate
  let comp :=
    if comp = 0 then
      let strikeDiff := contract1.strikePrice - contract2.strikePrice
      if strikeDiff > 0 then 1 else if strikeDiff < 0 then -1 else comp
    else comp
  let comp := if comp = 0 then strcmp contract1.exchange contract2.exchange else comp
  let comp := if comp = 0 then strcmp contract1.symbol contract2.symbol else comp
  comp < 0

/-- What `contract_less_than` looks at, in the order it does. -/
def OptionContract.key (c : OptionContract) : Nat ×ₗ Price ×ₗ List Char ×ₗ List Char :=
  toLex (c.expireDate.timeOnly, toLex (c.strikePrice, toLex (c.exchange, c.symbol)))

theorem strcmp_neg {a b : List Char} : strcmp a b < 0 ↔ a < b := by
  unfold strcmp
  split
  · next h => simp [h]
  · next h =>
    split
    · simp [h]
    · simp [h]

theorem strcmp_eq_zero {a b : List Char} : strcmp a b = 0 ↔ a = b := by
  unfold strcmp
  split
  · next h => simp [h.ne]
  · next h =>
    split
    · next h' => simp [h'.ne']
    · next h' => simp [le_antisymm (not_lt.mp h') (not_lt.mp h)]

theorem contractLessThan_keyed : Keyed contractLessThan OptionContract.key := by
  intro a b
  have hdate : a.expireDate.compare b.expireDate < 0 ↔
      a.expireDate.timeOnly < b.expireDate.timeOnly := by
    unfold DateTime.compare
    split
    · omega
    · split <;> omega
  have hsame := DateTime.compare_eq_zero a.expireDate b.expireDate
  simp only [contractLessThan, OptionContract.key, Prod.Lex.toLex_lt_toLex, decide_eq_true_eq]
  by_cases h1 : a.expireDate.compare b.expireDate = 0
  · have h1' := hsame.mp h1
    rw [if_pos h1]
    rcases lt_trichotomy a.strikePrice b.strikePrice with h2 | h2 | h2
    · have hpos : ¬a.strikePrice - b.strikePrice > 0 := by linarith
      have hneg : a.strikePrice - b.strikePrice < 0 := by linarith
      simp [hpos, h1', h2]
    · have hpos : ¬a.strikePrice - b.strikePrice > 0 := by linarith
      have hneg : ¬a.strikePrice - b.strikePrice < 0 := by linarith
      rw [if_neg hpos, if_neg hneg, if_pos h1]
      by_cases h3 : strcmp a.exchange b.exchange = 0
      · rw [if_pos h3, strcmp_neg]; simp [h1', h2, strcmp_eq_zero.mp h3]
      · have h3' : a.exchange ≠ b.exchange := fun h => h3 (strcmp_eq_zero.mpr h)
        rw [if_neg h3, strcmp_neg]
        simp [h1', h2, h3']
    · have hpos : a.strikePrice - b.strikePrice > 0 := by linarith
      simp [hpos, h1', h2.not_gt, h2.ne']
  · have h1' : a.expireDate.timeOnly ≠ b.expireDate.timeOnly := fun h => h1 (hsame.mpr h)
    rw [if_neg h1, if_neg h1, if_neg h1, hdate]
    simp [h1']

/-! ## `MamdaOptionContractSet` -/

def isBbo (exchange : List Char) : Bool :=
  exchange = [] || strcmp exchange "BBO".toList = 0 || strcmp exchange "Z".toList = 0

def isWombatBbo (exchange : List Char) : Bool :=
  strcmp exchange "WBBO".toList = 0

/-- The contracts of one date, strike and side, by address. -/
structure ContractSet where
  bboContract : Option Nat
  wombatBboContract : Option Nat
  exchangeContracts : SortedMap (List Char) Nat

namespace ContractSet

def new : ContractSet := ⟨none, none, .empty⟩

def setBboContract (s : ContractSet) (contract : Nat) : ContractSet :=
  { s with bboContract := some contract }

def setWombatBboContract (s : ContractSet) (contract : Nat) : ContractSet :=
  { s with wombatBboContract := some contract }

def setExchangeContract (s : ContractSet) (exchange : List Char) (contract : Nat) : ContractSet :=
  { s with exchangeContracts := s.exchangeContracts.insert exchange contract }

/-- The last step of `processNewContractDetails`. -/
def setContract (s : ContractSet) (exchange : List Char) (contract : Nat) : ContractSet :=
  if isBbo exchange then s.setBboContract contract
  else if isWombatBbo exchange then s.setWombatBboContract contract
  else s.setExchangeContract exchange contract

end ContractSet

inductive Slot
  | bbo
  | wombatBbo
  | exchange (exchange : List Char)
  deriving DecidableEq

def slotOf (exchange : List Char) : Slot :=
  if isBbo exchange then .bbo
  else if isWombatBbo exchange then .wombatBbo
  else .exchange exchange

/-- `getBboContract`, `getWombatBboContract` and `getExchangeContract`. -/
def ContractSet.get (s : ContractSet) : Slot → Option Nat
  | .bbo => s.bboContract
  | .wombatBbo => s.wombatBboContract
  | .exchange e => s.exchangeContracts.find? e

@[simp] theorem ContractSet.get_new (slot : Slot) : ContractSet.new.get slot = none := by
  cases slot <;> rfl

theorem ContractSet.get_setContract (s : ContractSet) (exchange : List Char) (contract : Nat)
    (slot : Slot) :
    (s.setContract exchange contract).get slot =
      if slot = slotOf exchange then some contract else s.get slot := by
  unfold setContract slotOf
  split
  · cases slot <;> simp [setBboContract, get]
  · split
    · cases slot <;> simp [setWombatBboContract, get]
    · cases slot <;> simp [setExchangeContract, get, SortedMap.find?_insert]

end Mamda

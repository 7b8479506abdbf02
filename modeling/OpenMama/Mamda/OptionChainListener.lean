import OpenMama.Lib.Runs
import OpenMama.Mamda.OptionChain

/-!
# `MamdaOptionChainListener`

A message of an item is looked up under the item's contract, kept in the item
closure.  The first message makes the contract; it enters the chain when it has
every mandatory field, and otherwise later messages fill in what is missing
until it has.  Each call of `onOptionContractCreate` is written to a log; every
handler is called, in turn, with the same contract.

What the listener does next with the message (the contract's own quote, trade
and fundamental listeners) does not touch the chain.
-/

namespace Mamda

open Mama Lib

/-- A put/call field, by what `getPutCall` asks of its type. -/
inductive PutCallField
  | int (value : Nat)
  | string (text : List Char)
  | other

/-- What `findContract` reads of a message. -/
structure OptionMsg where
  contractSymbol : Option (List Char)
  expirationDate : Option DateTime
  strikePrice : Option Price
  putCall : Option PutCallField

/-- The message types that `onMsg` tells apart before it looks up the contract. -/
inductive OptionMsgType
  | endOfInitials
  | other
  deriving DecidableEq

/-- One call of `onMsg`. -/
structure OptionDelivery where
  item : Nat
  msgType : OptionMsgType
  msg : OptionMsg

/-- `getPutCall` on a field that is there. -/
def PutCallField.value : PutCallField → PutCall
  | .int 1 => .put
  | .int 2 => .call
  | .int _ => .unknown
  | .string ('1' :: _) => .put
  | .string ('P' :: _) => .put
  | .string ('2' :: _) => .call
  | .string ('C' :: _) => .call
  | .string _ => .unknown
  | .other => .unknown

/-- `getPutCall`; `none` where it returns false. -/
def OptionMsg.getPutCall (msg : OptionMsg) : Option PutCall := msg.putCall.map PutCallField.value

/-- `getSymbolAndExchange`: the symbol up to the first dot, the exchange after it. -/
def getSymbolAndExchange (fullSymbol : List Char) : List Char × List Char :=
  match fullSymbol.dropWhile (· ≠ '.') with
  | [] => (fullSymbol, [])
  | _ :: exchange => (fullSymbol.takeWhile (· ≠ '.'), exchange)

/-- `MamdaOptionChainListenerImpl`. -/
structure ChainListener where
  state : ChainState
  expireDateManditory : Bool
  strikePriceManditory : Bool
  putCallManditory : Bool
  itemClosure : Nat → Option Nat
  created : List Nat

namespace ChainListener

/-- A listener with its own chain, after `setManditoryFields`. -/
def new (expireDate strikePrice putCall : Bool) : ChainListener :=
  ⟨.new, expireDate, strikePrice, putCall, fun _ => none, []⟩

def gotAllMandFields (l : ChainListener) (gotExpireDate gotStrikePrice gotPutCall : Bool) : Bool :=
  let gotAllPrimFields := gotExpireDate && gotStrikePrice && gotPutCall
  gotAllPrimFields ||
    ((!l.expireDateManditory || (l.expireDateManditory && gotExpireDate)) &&
      (!l.strikePriceManditory || (l.strikePriceManditory && gotStrikePrice)) &&
      (!l.putCallManditory || (l.putCallManditory && gotPutCall)))

def newContract (l : ChainListener) (msg : OptionMsg) (fullSymbol : List Char) : OptionContract :=
  let (symbol, exchange) := getSymbolAndExchange fullSymbol
  let contract := OptionContract.new symbol exchange
  let contract := msg.expirationDate.elim contract contract.setExpireDate
  let contract := msg.strikePrice.elim contract contract.setStrikePrice
  let contract := msg.getPutCall.elim contract contract.setPutCall
  contract.setRecapRequired
    (!l.gotAllMandFields msg.expirationDate.isSome msg.strikePrice.isSome msg.getPutCall.isSome)

/-- A contract that waits for a recap, with the fields it lacks taken from the message. -/
def fillContract (contract : OptionContract) (msg : OptionMsg) : OptionContract :=
  let contract :=
    if contract.gotExpireDate then contract
    else msg.expirationDate.elim contract contract.setExpireDate
  let contract :=
    if contract.gotStrikePrice then contract
    else msg.strikePrice.elim contract contract.setStrikePrice
  if contract.gotPutCall then contract else msg.getPutCall.elim contract contract.setPutCall

/-- Whether the fields at hand and those of the message are all that is mandatory. -/
def gotMandWith (l : ChainListener) (contract : OptionContract) (msg : OptionMsg) : Bool :=
  l.gotAllMandFields (contract.gotExpireDate || msg.expirationDate.isSome)
    (contract.gotStrikePrice || msg.strikePrice.isSome)
    (contract.gotPutCall || msg.getPutCall.isSome)

/-- The branch of `findContract` for an item without a contract. -/
def createContract (l : ChainListener) (item : Nat) (msg : OptionMsg) (fullSymbol : List Char) :
    Option ChainListener := do
  let contract := l.state.contracts.length
  let state ← (l.state.allocate (l.newContract msg fullSymbol)).processNewContractDetails contract
  some { l with
    state := state
    itemClosure := fun i => if i = item then some contract else l.itemClosure i
    created := l.created ++ [contract] }

/-- The branch of `findContract` for an item with a contract. -/
def updateContract (l : ChainListener) (contract : Nat) (msg : OptionMsg) :
    Option ChainListener :=
  let found := l.state.contract contract
  if found.recapRequired then
    if l.gotMandWith found msg then do
      let filled := (fillContract found msg).setRecapRequired false
      let state ← (l.state.store contract filled).processNewContractDetails contract
      some { l with state := state, created := l.created ++ [contract] }
    else
      some { l with state := l.state.store contract (fillContract found msg) }
  else some l

/-- `findContract`; without a contract symbol it throws, and `onMsg` catches that. -/
def findContract (l : ChainListener) (item : Nat) (msg : OptionMsg) : Option ChainListener :=
  match msg.contractSymbol with
  | none => some l
  | some fullSymbol =>
    match l.itemClosure item with
    | none => l.createContract item msg fullSymbol
    | some contract => l.updateContract contract msg

def onMsg (l : ChainListener) (d : OptionDelivery) : Option ChainListener :=
  match d.msgType with
  | .endOfInitials => some l
  | .other => l.findContract d.item d.msg

end ChainListener

end Mamda

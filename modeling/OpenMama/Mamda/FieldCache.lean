import Mathlib.Data.Rat.Defs
import OpenMama.Mama.DateTime
import OpenMama.Mamda.MultiParticipant

/-!
# The caches of the trade and the quote listener

`TradeCache` and `QuoteCache` hold a value and a field state for each of their members.
Here a cache is a value and a state for each key, where the kind of the key says what
its values are.  Prices, quantities and yields are the doubles of the source taken as
exact rationals.

A field of a message is what its accessors return; `type` is what the updaters look at
where they look at the type.
-/

namespace Mamda.Cached

open Mama

/-- `MamdaFieldState`. -/
inductive FieldState
  | notInitialised
  | notModified
  | modified
  deriving DecidableEq, Repr

/-- A state before the next message: `MODIFIED` turns to `NOT_MODIFIED`. -/
def FieldState.age : FieldState → FieldState
  | .modified => .notModified
  | state => state

inductive Kind
  | text
  | time
  | number
  | count
  | id
  | char
  | bool

@[reducible] def Kind.Type : Kind → Type
  | text => String
  | time => DateTime
  | number => ℚ
  | count => Nat
  | id => Int
  | char => Char
  | bool => Bool

inductive FieldType
  | char
  | string
  | integer
  | other
  deriving DecidableEq

/-- `MamaMsgField`. -/
structure MsgField (Fid : Type) where
  fid : Fid
  type : FieldType := .other
  getU32 : Nat := 0
  getI64 : Int := 0
  getF64 : ℚ := 0
  getPrice : ℚ := 0
  getBool : Bool := false
  getChar : Char := ' '
  getString : String := ""
  getAsString : String := ""
  getDateTime : DateTime := .null

def firstChar (s : String) : Char := s.toList.headD '\x00'

/-- `MamaMsgQual`. -/
structure Qualifier where
  value : BitVec 16
  deriving DecidableEq

namespace Qualifier

def clear : Qualifier := ⟨0#16⟩

def getIsPossiblyDuplicate (q : Qualifier) : Bool := q.value.getLsbD 0

def getIsDefinatelyDuplicate (q : Qualifier) : Bool := q.value.getLsbD 1

def getIsOutOfSequence (q : Qualifier) : Bool := q.value.getLsbD 4

/-- `setIsDefinatelyDuplicate (true)` and `setIsPossiblyDuplicate (false)`. -/
def setDuplicate (q : Qualifier) : Qualifier := ⟨(q.value ||| 2#16) &&& ~~~1#16⟩

end Qualifier

inductive TradeMsgType
  | initial
  | recap
  | preopening
  | snapshot
  | trade
  | quote
  | cancel
  | error
  | correction
  | closing
  | update
  | other
  deriving DecidableEq

/-- A message: its type, what is looked up in it by name, and its fields in the order in which
they are visited. -/
structure FieldMsg (Fid : Type) where
  msgType : TradeMsgType
  qual : Option Qualifier := none
  issueSymbol : Option String := none
  indexSymbol : Option String := none
  symbol : Option String := none
  partId : Option String := none
  conflateCount : Option Nat := none
  fields : List (MsgField Fid) := []

def FieldMsg.field {Fid : Type} [DecidableEq Fid] (m : FieldMsg Fid) (fid : Fid) :
    Option (MsgField Fid) := m.fields.find? (·.fid = fid)

/-- `getSymbolAndPartId`: the symbol. -/
def FieldMsg.getSymbol {Fid : Type} (m : FieldMsg Fid) : Option String :=
  m.issueSymbol.or (m.indexSymbol.or m.symbol)

/-- `getSymbolAndPartId`: the participant, which is the text after the last dot of the symbol where
no field names it. -/
def FieldMsg.getPartId {Fid : Type} (m : FieldMsg Fid) : Option String :=
  match m.partId with
  | some partId => some partId
  | none => m.getSymbol.bind fun symbol =>
    (MultiParticipant.strrchr symbol.toList '.').map fun lastDot => String.ofList lastDot.tail

/-! ## Caches -/

def Kind.zero : (kind : Kind) → kind.Type
  | .text => ""
  | .time => .null
  | .number => 0
  | .count => 0
  | .id => 0
  | .char => '\x00'
  | .bool => false

instance : (kind : Kind) → DecidableEq kind.Type
  | .text => inferInstanceAs (DecidableEq String)
  | .time => inferInstanceAs (DecidableEq DateTime)
  | .number => inferInstanceAs (DecidableEq ℚ)
  | .count => inferInstanceAs (DecidableEq Nat)
  | .id => inferInstanceAs (DecidableEq Int)
  | .char => inferInstanceAs (DecidableEq Char)
  | .bool => inferInstanceAs (DecidableEq Bool)

/-- A value and a state for each key, and the flags that have no state. -/
@[ext]
structure Cache {K : Type} (kind : K → Kind) (Flags : Type) where
  value : (k : K) → (kind k).Type
  state : K → FieldState
  flags : Flags

namespace Cache

variable {K Flags : Type} {kind : K → Kind}

section Updates

variable [DecidableEq K]

def put (c : Cache kind Flags) (k : K) (v : (kind k).Type) : Cache kind Flags :=
  { c with value := Function.update c.value k v }

/-- A state is set to `MODIFIED`. -/
def mark (c : Cache kind Flags) (k : K) : Cache kind Flags :=
  { c with state := Function.update c.state k .modified }

def store (c : Cache kind Flags) (k : K) (v : (kind k).Type) : Cache kind Flags :=
  (c.put k v).mark k

/-- A value is set, and its state with it, where there is one to set. -/
def storeSome (c : Cache kind Flags) (k : K) (v : Option (kind k).Type) : Cache kind Flags :=
  match v with
  | some v => c.store k v
  | none => c

end Updates

def setFlags (c : Cache kind Flags) (f : Flags → Flags) : Cache kind Flags :=
  { c with flags := f c.flags }

/-- `updateFieldStates`, for the keys that it looks at. -/
def updateFieldStates (c : Cache kind Flags) (looksAt : K → Bool) : Cache kind Flags :=
  { c with state := fun k => if looksAt k then (c.state k).age else c.state k }

end Cache

/-! ## Updaters -/

/-- What is done with a field that comes with a message. -/
abbrev Update (Fid : Type) {K : Type} (kind : K → Kind) (Flags : Type) :=
  MsgField Fid → Cache kind Flags → Cache kind Flags

section Updaters

variable {Fid K Flags : Type} [DecidableEq K] {kind : K → Kind}

def store (k : K) (get : MsgField Fid → (kind k).Type) : Update Fid kind Flags :=
  fun field c => c.store k (get field)

/-- An updater that sets a value and its state if the type of the field is one that it knows. -/
def storeSome (k : K) (get : MsgField Fid → Option (kind k).Type) : Update Fid kind Flags :=
  fun field c => c.storeSome k (get field)

/-- An updater that sets a value alone, if the type of the field is one that it knows. -/
def putSome (k : K) (get : MsgField Fid → Option (kind k).Type) : Update Fid kind Flags :=
  fun field c =>
    match get field with
    | some v => c.put k v
    | none => c

/-- An updater that sets a value and its state if it is not the value there is. -/
def storeOther (k : K) (get : MsgField Fid → (kind k).Type) : Update Fid kind Flags :=
  fun field c => if get field ≠ c.value k then c.store k (get field) else c

end Updaters

end Mamda.Cached

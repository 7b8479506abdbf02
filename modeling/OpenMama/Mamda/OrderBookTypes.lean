import Mathlib.Data.Rat.Floor
import OpenMama.Mama.DateTime
import OpenMama.Lib.SortedMap

/-!
# Order book types and entries

The enumerations of `MamdaOrderBookTypes.h`, the sources an entry can come from
(`MamaSource`, `MamaSourceDerivative`) and `MamdaOrderBookEntry`.

Prices are the doubles of the source taken as exact rationals.  A quantity is a
natural number: `mama_isQuantityNone` sends every level size at or below zero to
zero, which is what the truncated subtraction of `Nat` does.  Counters of type
`mama_u32_t` are taken modulo `2 ^ 32` (`u32Inc`, `u32Dec`).

An object the source reaches through a pointer carries its address in a field
`ref`; a book and its levels own the objects, so a pointer is followed by
looking the address up in the owner.  Each book allocates in a heap of its own,
so objects of two books never share an address.
-/

namespace Mamda

open Mama Lib

/-- `MamdaOrderBookTypes::Action`; any other character a message carries acts as `unknown`. -/
inductive Action
  | add
  | update
  | delete
  | unknown
  deriving DecidableEq, Repr

inductive BookSide
  | bid
  | ask
  deriving DecidableEq, Repr

inductive Side
  | bid
  | ask
  | unknown
  deriving DecidableEq, Repr

inductive OrderType
  | limit
  | market
  | unknown
  deriving DecidableEq, Repr

/-- The half of the book a side names, if it names one. -/
def Side.book? : Side → Option BookSide
  | .bid => some .bid
  | .ask => some .ask
  | .unknown => none

def BookSide.side : BookSide → Side
  | .bid => .bid
  | .ask => .ask

@[simp] theorem BookSide.book?_side (s : BookSide) : s.side.book? = some s := by
  cases s <;> rfl

theorem Side.book?_eq_some {s : Side} {t : BookSide} : s.book? = some t ↔ s = t.side := by
  cases s <;> cases t <;> simp [Side.book?, BookSide.side]

theorem BookSide.side_injective {s t : BookSide} (h : s.side = t.side) : s = t := by
  cases s <;> cases t <;> first | rfl | cases h

structure Sides (α : Type) where
  bid : α
  ask : α

namespace Sides

variable {α : Type}

def get (x : Sides α) : BookSide → α
  | .bid => x.bid
  | .ask => x.ask

def set (x : Sides α) (s : BookSide) (a : α) : Sides α :=
  match s with
  | .bid => { x with bid := a }
  | .ask => { x with ask := a }

@[simp] theorem get_set (x : Sides α) (s t : BookSide) (a : α) :
    (x.set s a).get t = if t = s then a else x.get t := by
  cases s <;> cases t <;> rfl

@[simp] theorem get_mk (a : α) (s : BookSide) : (Sides.mk a a).get s = a := by
  cases s <;> rfl

@[ext] theorem ext {x y : Sides α} (h : ∀ s, x.get s = y.get s) : x = y := by
  cases x
  cases y
  exact congr (congrArg mk (h .bid)) (h .ask)

end Sides

/-! ## Counters -/

/-- `++` on a `mama_u32_t`. -/
def u32Inc (n : Nat) : Nat := (n + 1) % 2 ^ 32

/-- `--` on a `mama_u32_t`: zero wraps to `2 ^ 32 - 1`. -/
def u32Dec (n : Nat) : Nat := (n + (2 ^ 32 - 1)) % 2 ^ 32

theorem u32Inc_mod (n : Nat) : u32Inc (n % 2 ^ 32) = (n + 1) % 2 ^ 32 := by
  unfold u32Inc
  omega

theorem u32Dec_mod_succ (n : Nat) : u32Dec ((n + 1) % 2 ^ 32) = n % 2 ^ 32 := by
  unfold u32Dec
  omega

/-! ## Sources -/

/-- `MamaSource`: an object with an address, below a parent or at the root. -/
inductive Source
  | root (addr : Nat)
  | child (addr : Nat) (parent : Source)
  deriving DecidableEq, Repr

/-- `MamaSource::isPartOf`: the source itself or one of its ancestors. -/
def Source.isPartOf (this source : Source) : Bool :=
  match this with
  | .root _ => this == source
  | .child _ parent => this == source || parent.isPartOf source

/-- `MamaSourceDerivative`: its state lives outside the book and is looked up by address. -/
structure SourceDerivative where
  addr : Nat
  base : Source
  deriving DecidableEq, Repr

/-! ## Entries -/

structure Ref where
  heap : Nat
  index : Nat
  deriving DecidableEq, Repr

/-- `MamdaOrderBookEntry`.  `priceLevel` is the address of the level the entry is wired to. -/
structure Entry where
  ref : Ref
  id : String
  size : Nat
  time : DateTime
  status : UInt16
  action : Action
  sourceDeriv : Option SourceDerivative
  priceLevel : Option Ref
  deriving DecidableEq, Repr

namespace Entry

/-- `MamdaOrderBookEntry()`, then `setId`. -/
def create (ref : Ref) (id : String) : Entry where
  ref := ref
  id := id
  size := 0
  time := .null
  status := 0
  action := .add
  sourceDeriv := none
  priceLevel := none

/-- `MamdaOrderBookEntry (entryId, size, action, entryTime, deriv)`. -/
def new (ref : Ref) (id : String) (size : Nat) (action : Action) (time : DateTime)
    (deriv : Option SourceDerivative) : Entry where
  ref := ref
  id := id
  size := size
  time := time
  status := 0
  action := action
  sourceDeriv := deriv
  priceLevel := none

/-- The copy constructor: the copy is wired to no level and its status is zero. -/
def copyAt (e : Entry) (ref : Ref) : Entry :=
  { e with ref := ref, priceLevel := none, status := 0 }

def setDetails (e copy : Entry) : Entry :=
  { e with size := copy.size, time := copy.time, status := copy.status }

/-- `getSource ()->isPartOf (source)`.  Without a source derivative it follows a null pointer, and
the book's operation has no result. -/
def isPartOf (e : Entry) (source : Source) : Bool :=
  match e.sourceDeriv with
  | some d => d.base.isPartOf source
  | none => false

/-- `isVisible`, `sourceOk` saying which source derivatives are in state OK. -/
def isVisible (sourceOk : Nat → Bool) (e : Entry) : Bool :=
  match e.sourceDeriv with
  | some d => sourceOk d.addr
  | none => true

end Entry

/-! ## Prices -/

abbrev Price := ℚ

/-- The rounding the listener does on a price it receives, to 8 decimal places. -/
def roundPrice (p : Price) : Price := ⌊100000000 * p + 1 / 2⌋ / 100000000

end Mamda

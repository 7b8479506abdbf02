import Mathlib.Algebra.Order.Ring.Int
import OpenMama.Lib.Chain

/-!
# The hash table

A table is an array of `2 ^ size` chains of buckets.  The buckets live in a heap; an
operation returns `none` where it would read one that is not allocated, or go round a
chain for ever.  A null pointer is `none` as well, for data and buckets.
-/

namespace Common

open Lib

/-- `bucket_t`. -/
structure Bucket (K D : Type) where
  key : K
  data : Option D
  next : Option Nat

/-- `_wtable_t` and the buckets allocated so far. -/
structure Wtable (K D : Type) where
  buckets : Nat → Option Nat
  size : Nat
  heap : Nat → Option (Bucket K D)
  top : Nat

namespace Wtable

variable {K D C : Type}

/-- An empty table, as `wtable_create` leaves it. -/
def create (size : Nat) : Wtable K D where
  buckets _ := none
  size := size
  heap _ := none
  top := 0

/-- `hashmask (size)` takes the bits of the hash that select a chain. -/
def slot (hash : K → Nat) (size : Nat) (key : K) : Nat := hash key &&& (2 ^ size - 1)

/-- The address of a bucket and of the one before it, if there is one. -/
structure Found where
  before : Option Nat
  bucket : Nat

def find [DecidableEq K] (t : Wtable K D) (key : K) :
    Nat → Option Nat → Option Nat → Option (Option Found)
  | 0, _, _ => none
  | _ + 1, _, none => some none
  | fuel + 1, before, some b => do
    let bucket ← t.heap b
    if key = bucket.key then
      some (some ⟨before, b⟩)
    else
      t.find key fuel (some b) bucket.next

/-- The bucket of a key, looked for in the chain of its hash. -/
def findKey [DecidableEq K] (hash : K → Nat) (t : Wtable K D) (key : K) : Option (Option Found) :=
  t.find key (t.top + 1) none (t.buckets (slot hash t.size key))

def write (t : Wtable K D) (b : Nat) (bucket : Option (Bucket K D)) : Wtable K D :=
  { t with heap := Function.update t.heap b bucket }

def setChain (t : Wtable K D) (h : Nat) (b : Option Nat) : Wtable K D :=
  { t with buckets := Function.update t.buckets h b }

section Operations

variable [DecidableEq K] (hash : K → Nat)

/-- `wtable_insert`. -/
def insert (t : Wtable K D) (key : K) (data : Option D) : Option (Int × Wtable K D) := do
  match ← t.findKey hash key with
  | some found =>
    let bucket ← t.heap found.bucket
    some (0, t.write found.bucket (some { bucket with data := data }))
  | none =>
    let h := slot hash t.size key
    let t' := t.write t.top (some ⟨key, data, t.buckets h⟩)
    some (1, { t'.setChain h (some t.top) with top := t.top + 1 })

/-- `wtable_lookup`. -/
def lookup (t : Wtable K D) (key : K) : Option (Option D) := do
  match ← t.findKey hash key with
  | some found =>
    let bucket ← t.heap found.bucket
    some bucket.data
  | none => some none

/-- `wtable_remove`. -/
def remove (t : Wtable K D) (key : K) : Option (Option D × Wtable K D) := do
  match ← t.findKey hash key with
  | some found =>
    let bucket ← t.heap found.bucket
    match found.before with
    | some b0 =>
      let last ← t.heap b0
      let t' := t.write b0 (some { last with next := bucket.next })
      some (bucket.data, t'.write found.bucket none)
    | none =>
      let t' := t.setChain (slot hash t.size key) bucket.next
      some (bucket.data, t'.write found.bucket none)
  | none => some (none, t)

end Operations

/-- `1 << size`, the bound of the loops over all chains.  It is an `int`: from 31 bits on
its value is up to the compiler. -/
def count (wide : Nat → BitVec 32) (size : Nat) : Nat :=
  if size ≤ 30 then 2 ^ size else (wide size).toInt.toNat

/-- The buckets of a chain are freed, each after its next one was read. -/
def freeChain : Nat → Option Nat → Wtable K D → Option (Wtable K D)
  | 0, _, _ => none
  | _ + 1, none, t => some t
  | fuel + 1, some b, t => do
    let bucket ← t.heap b
    freeChain fuel bucket.next (t.write b none)

def clearSlot (t : Wtable K D) (i : Nat) : Option (Wtable K D) := do
  let t' ← freeChain (t.top + 1) (t.buckets i) t
  some (t'.setChain i none)

/-- `wtable_clear`. -/
def clear (wide : Nat → BitVec 32) (t : Wtable K D) : Option (Wtable K D) :=
  (List.range (count wide t.size)).foldlM clearSlot t

/-- A `wTableCallback`, which may change its closure and the table. -/
abbrev Callback (K D C : Type) := C → Wtable K D → Option D → K → C × Wtable K D

/-- How far an iteration over a table has come: the calls made are the last ones first. -/
structure Iteration (K D C : Type) where
  table : Wtable K D
  closure : C
  calls : List (K × Option D) := []

def Iteration.call (cb : Callback K D C) (it : Iteration K D C) (bucket : Bucket K D) :
    Iteration K D C :=
  let result := cb it.closure it.table bucket.data bucket.key
  ⟨result.2, result.1, (bucket.key, bucket.data) :: it.calls⟩

/-- The callback is called along a chain; the next bucket is read before each call. -/
def forEachFrom (cb : Callback K D C) :
    Nat → Option Nat → Iteration K D C → Option (Iteration K D C)
  | 0, _, _ => none
  | _ + 1, none, it => some it
  | fuel + 1, some b, it => do
    let bucket ← it.table.heap b
    forEachFrom cb fuel bucket.next (it.call cb bucket)

def forEachSlot (cb : Callback K D C) (it : Iteration K D C) (i : Nat) :
    Option (Iteration K D C) :=
  forEachFrom cb (it.table.top + 1) (it.table.buckets i) it

/-- `wtable_for_each`. -/
def forEach (wide : Nat → BitVec 32) (cb : Callback K D C) (t : Wtable K D) (closure : C) :
    Option (Iteration K D C) :=
  (List.range (count wide t.size)).foldlM (forEachSlot cb) ⟨t, closure, []⟩

end Wtable

end Common

import Mathlib.Algebra.Order.Ring.Int
import OpenMama.Lib.Runs

/-!
# The list and its iterators

The elements of a `wList` are linked between a dummy head and a dummy tail.  Where an
element stands is written in its links alone: an element of the list has both, an element
taken out has null in both, and one on the free list has -1 for `mPrev`.  Iterators are
registered with the list, so that a removal can move them on.  Every operation holds the
lock of the list and is one step; a step is `none` where it would follow a link that is not
a node, and where it would not end.
-/

namespace Common.WList

inductive Node
  | head
  | tail
  | element (n : Nat)
  deriving DecidableEq, Repr

/-- What `mPrev` holds: null, `(header*)-1`, or a node. -/
inductive Link
  | null
  | freed
  | to (a : Node)
  deriving DecidableEq, Repr

def Link.node : Link → Option Node
  | .to a => some a
  | _ => none

/-- A record of the calls of `iterator_next` on one iterator. -/
structure Traversal where
  /-- The elements that were in the list when it began and were not taken out since. -/
  stays : List Node
  /-- How many elements were in the list then or were put in since. -/
  available : Nat
  returned : List Node := []
  ended : Bool := false
  deriving DecidableEq, Repr

/-- `wIteratorImpl`. -/
structure Iterator where
  currentElement : Option Node := none
  traversal : Option Traversal := none
  deriving DecidableEq, Repr

def Iterator.underWay (i : Iterator) : Bool := i.traversal.any fun t => !t.ended && t.returned ≠ []

/-- `wListImpl`, with its elements and iterators. -/
structure ListImpl where
  mNext : Node → Option Node := fun
    | .head => some .tail
    | _ => none
  mPrev : Node → Link := fun
    | .tail => .to .head
    | _ => .null
  mFreeList : Option Node := none
  size : Nat := 0
  iterators : List Nat := []
  iterator : Nat → Iterator := fun _ => {}
  created : Nat := 0
  allocated : Nat := 0
  /-- What was returned by `list_allocate_element` and not freed since. -/
  handedOut : List Node := []

/-- `list_create`. -/
def create : ListImpl := {}

variable (l : ListImpl)

def setNext (a : Node) (b : Option Node) : ListImpl :=
  { l with mNext := Function.update l.mNext a b }

def setPrev (a : Node) (b : Link) : ListImpl :=
  { l with mPrev := Function.update l.mPrev a b }

def setIterator (it : Nat) (i : Iterator) : ListImpl :=
  { l with iterator := Function.update l.iterator it i }

/-- The elements that `mNext` leads through from a node, at most as many as the fuel. -/
def walk (next : Node → Option Node) : Nat → Node → List Node
  | 0, _ => []
  | fuel + 1, a =>
    match next a with
    | some (.element n) => .element n :: walk next fuel (.element n)
    | _ => []

def beginTraversal : Iterator where
  currentElement := l.mNext .head
  traversal := some
    { stays := walk l.mNext l.size .head
      available := (walk l.mNext l.size .head).length }

/-! ## Elements -/

/-- There is memory for this many elements: each has a header of 16 bytes. -/
def maxElements : Nat := 2 ^ 60

/-- `list_allocate_element`, which returns null where there is no memory. -/
def allocateElement : Option Node × ListImpl :=
  match l.mFreeList with
  | some result =>
    let l := { l with mFreeList := l.mNext result }
    let l := setPrev (setNext l result none) result .null
    (some result, { l with handedOut := l.handedOut ++ [result] })
  | none =>
    if l.allocated < maxElements then
      let result := .element l.allocated
      let l := setPrev (setNext l result none) result .null
      (some result, { l with allocated := l.allocated + 1, handedOut := l.handedOut ++ [result] })
    else
      (none, l)

/-- `free_element_`. -/
def freeElement (ele : Node) : ListImpl :=
  if l.mPrev ele ≠ .null ∨ l.mNext ele ≠ none then
    l
  else
    let l := setPrev l ele .freed
    let l := setNext l ele l.mFreeList
    { l with mFreeList := some ele, handedOut := l.handedOut.erase ele }

/-- `size++`. -/
def grow : ListImpl :=
  { l with
    size := (l.size + 1) % 2 ^ 64
    iterator := fun it =>
      let i := l.iterator it
      { i with traversal := i.traversal.map fun t => { t with available := t.available + 1 } } }

/-- `size--`, where an element is taken out. -/
def shrink (ele : Node) : ListImpl :=
  { l with
    size := (l.size + (2 ^ 64 - 1)) % 2 ^ 64
    iterator := fun it =>
      let i := l.iterator it
      { i with traversal := i.traversal.map fun t =>
        { t with stays := t.stays.filter (· ≠ ele) } } }

/-- `insert_before`. -/
def insertBeforeNode (what position : Node) : Option ListImpl := do
  let l := setNext l what (some position)
  let l := setPrev l what (l.mPrev position)
  let before ← (l.mPrev position).node
  let l := setNext l before (some what)
  some (grow (setPrev l position (.to what)))

/-- `list_push_back` has the writes of `insert_before` at the tail. -/
def pushBack (ele : Node) : Option ListImpl := insertBeforeNode l ele .tail

/-- `list_push_front`. -/
def pushFront (ele : Node) : Option ListImpl := do
  let l := setPrev l ele (.to .head)
  let l := setNext l ele (l.mNext .head)
  let after ← l.mNext .head
  let l := setPrev l after (.to ele)
  some (grow (setNext l .head (some ele)))

/-- `list_insert_before`, which fails quietly. -/
def insertBefore (position what : Node) : Option ListImpl :=
  if l.mPrev position = .null ∨ l.mNext what ≠ none then
    some l
  else
    insertBeforeNode l what position

/-- `list_is_empty`. -/
def isEmpty : Bool := l.mNext .head = some .tail

/-- `list_adjust_iterators`. -/
def adjustIterators (ele : Node) : ListImpl :=
  let next := l.mNext ele
  let next := if next = some .tail ∧ 1 < l.size then l.mNext .head else next
  { l with
    iterator := fun it =>
      let i := l.iterator it
      if it ∈ l.iterators ∧ i.currentElement = some ele then { i with currentElement := next }
        else i }

/-- `list_pop_front`. -/
def popFront : Option (Option Node × ListImpl) :=
  if isEmpty l then
    some (none, l)
  else do
    let rval ← l.mNext .head
    let l := adjustIterators l rval
    let l := setNext l .head (l.mNext rval)
    let after ← l.mNext rval
    let l := setPrev l after (.to .head)
    let l := setPrev (setNext l rval none) rval .null
    some (some rval, shrink l rval)

/-- `list_remove_element`. -/
def removeElement (ele : Node) : Option ListImpl :=
  let l := adjustIterators l ele
  match l.mPrev ele with
  | .null => some l
  | .freed => some l
  | .to before => do
    let l := setNext l before (l.mNext ele)
    let after ← l.mNext ele
    let l := setPrev l after (l.mPrev ele)
    some (setPrev (setNext (shrink l ele) ele none) ele .null)

/-- `list_for_each`, over a state that the list is a part of; the fuel bounds the passes. -/
def forEach {S : Type} (list : S → ListImpl) (cb : S → Node → Option S) :
    Nat → S → Option Node → Option S
  | 0, _, _ => none
  | fuel + 1, s, cur => do
    let cur ← cur
    if cur = .tail ∨ cur = .head then
      some s
    else
      let next := (list s).mNext cur
      forEach list cb fuel (← cb s cur) next

/-! ## Iterators -/

/-- `getCurrentNode`, which leaves a dummy for the first element.  A traversal begins there,
unless one is under way. -/
def getCurrentNode (it : Nat) : Option Node × ListImpl :=
  let i := l.iterator it
  if i.currentElement = some .head ∨ i.currentElement = some .tail then
    if 0 < l.size then
      let first := beginTraversal l
      (l.mNext .head, setIterator l it
        { first with traversal := if i.underWay then i.traversal else first.traversal })
    else
      (none, l)
  else
    (i.currentElement, l)

/-- `list_create_iterator`. -/
def createIterator : Nat × ListImpl :=
  let it := l.created
  let l := { l with iterators := it :: l.iterators, created := l.created + 1 }
  (it, setIterator l it (beginTraversal l))

/-- `iterator_current`. -/
def iteratorCurrent (it : Nat) : Option Node × ListImpl := getCurrentNode l it

/-- `iterator_insert_before`. -/
def iteratorInsertBefore (it : Nat) (ele : Node) : Option ListImpl := do
  let (cur, l) := getCurrentNode l it
  insertBeforeNode l ele (← cur)

/-- What a call of `iterator_next` adds to the record. -/
def Traversal.record (t : Traversal) : Option Node → Traversal
  | some a => { t with returned := t.returned ++ [a] }
  | none => { t with ended := true }

/-- `iterator_next`. -/
def iteratorNext (it : Nat) : Option (Option Node × ListImpl) :=
  if (l.iterator it).currentElement = some .tail then
    let i := l.iterator it
    some (none, setIterator l it { i with traversal := i.traversal.map (·.record none) })
  else do
    let (rval, l) := getCurrentNode l it
    let i := l.iterator it
    let cur ← i.currentElement
    some (rval, setIterator l it
      { currentElement := l.mNext cur, traversal := i.traversal.map (·.record rval) })

/-- `iterator_next_circ`; the iterator is no longer in a traversal by `iterator_next`. -/
def iteratorNextCirc (it : Nat) : Option (Option Node × ListImpl) := do
  let (rval, l) := getCurrentNode l it
  let cur ← (l.iterator it).currentElement
  let next := if l.mNext cur = some .tail then l.mNext .head else l.mNext cur
  some (rval, setIterator l it { currentElement := next })

/-- `iterator_move_element_before`. -/
def iteratorMoveElementBefore (it : Nat) (ele : Node) : Option ListImpl := do
  let (cur, l) := getCurrentNode l it
  let cur ← cur
  if ele ≠ cur ∧ l.mPrev cur ≠ .to ele then
    let l ← removeElement l ele
    insertBeforeNode l ele cur
  else
    some l

/-- `iterator_destroy`.  The loop looks at the iterator after the first one, and does not go
on from there. -/
def iteratorDestroy (it : Nat) : Option ListImpl :=
  match l.iterators with
  | [] => some l
  | [first] => if first = it then some { l with iterators := [] } else none
  | first :: second :: rest =>
    if first = it then some { l with iterators := second :: rest }
    else if second = it then some { l with iterators := first :: rest }
    else none

/-! ## Steps -/

inductive Label
  | allocateElement
  | freeElement (n : Nat)
  | pushBack (n : Nat)
  | pushFront (n : Nat)
  | insertBefore (position n : Nat)
  | popFront
  | removeElement (n : Nat)
  | createIterator
  | iteratorCurrent (it : Nat)
  | iteratorInsertBefore (it n : Nat)
  | iteratorNext (it : Nat)
  | iteratorNextCirc (it : Nat)
  | iteratorMoveElementBefore (it n : Nat)
  | iteratorDestroy (it : Nat)
  deriving DecidableEq, Repr

def step (l : ListImpl) : Label → Option ListImpl
  | .allocateElement => some (allocateElement l).2
  | .freeElement n => some (freeElement l (.element n))
  | .pushBack n => pushBack l (.element n)
  | .pushFront n => pushFront l (.element n)
  | .insertBefore position n => insertBefore l (.element position) (.element n)
  | .popFront => (popFront l).map Prod.snd
  | .removeElement n => removeElement l (.element n)
  | .createIterator => some (createIterator l).2
  | .iteratorCurrent it => some (iteratorCurrent l it).2
  | .iteratorInsertBefore it n => iteratorInsertBefore l it (.element n)
  | .iteratorNext it => (iteratorNext l it).map Prod.snd
  | .iteratorNextCirc it => (iteratorNextCirc l it).map Prod.snd
  | .iteratorMoveElementBefore it n => iteratorMoveElementBefore l it (.element n)
  | .iteratorDestroy it => iteratorDestroy l it

end Common.WList

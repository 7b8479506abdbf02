import Mathlib.Logic.Basic

/-!
# Trees behind a cursor

A forest whose nodes have an order, with a cursor through which it is written and read.  The cursor
is on a node of a level, or in front of the first one.  `put` writes the node that comes next: it
takes the place of the node that is there, or is appended where there is none.

`roots_write` says what is there after a node was written at the front with its children, and
`AtEnd.roots_put` what a node does that is put where the cursor has been left at the end.
-/

namespace Lib

open List

inductive OrderedTree (α : Type*)
  | node (label : α) (children : List (OrderedTree α))

namespace OrderedTree

variable {α : Type*}

def label : OrderedTree α → α
  | node a _ => a

def children : OrderedTree α → List (OrderedTree α)
  | node _ ts => ts

def leaf (a : α) : OrderedTree α := node a []

end OrderedTree

open OrderedTree

/-- A level that was left for the children of one of its nodes. -/
structure Level (α : Type*) where
  before : List (OrderedTree α)
  label : α
  after : List (OrderedTree α)

/-- The current node is the first one of `before`, which has the nearest nodes first. -/
structure TreeCursor (α : Type*) where
  before : List (OrderedTree α)
  after : List (OrderedTree α)
  above : List (Level α)

namespace TreeCursor

variable {α : Type*}

def empty : TreeCursor α := ⟨[], [], []⟩

def unwind : List (Level α) → List (OrderedTree α) → List (OrderedTree α)
  | [], ts => ts
  | l :: ls, ts => unwind ls (l.before.reverse ++ node l.label ts :: l.after)

def roots (c : TreeCursor α) : List (OrderedTree α) := unwind c.above (c.before.reverse ++ c.after)

def rewind (c : TreeCursor α) : TreeCursor α := ⟨[], c.roots, []⟩

def next (c : TreeCursor α) : TreeCursor α :=
  match c.after with
  | [] => c
  | t :: ts => ⟨t :: c.before, ts, c.above⟩

def enter (c : TreeCursor α) : TreeCursor α :=
  match c.before with
  | [] => c
  | t :: ts => ⟨[], t.children, ⟨ts, t.label, c.after⟩ :: c.above⟩

def exit (c : TreeCursor α) : TreeCursor α :=
  match c.above with
  | [] => c
  | l :: ls => ⟨node l.label (c.before.reverse ++ c.after) :: l.before, l.after, ls⟩

def put (c : TreeCursor α) (a : α) : TreeCursor α := ⟨leaf a :: c.before, c.after.tail, c.above⟩

def putAll (c : TreeCursor α) (as : List α) : TreeCursor α := as.foldl put c

def current (c : TreeCursor α) : Option (OrderedTree α) := c.before.head?

/-! ## Moving changes nothing -/

theorem current_next_rewind (c : TreeCursor α) : c.rewind.next.current = c.roots.head? := by
  unfold rewind next current
  cases c.roots <;> rfl

/-! ## Writing -/

theorem putAll_last (before : List (OrderedTree α)) (above : List (Level α)) (as : List α) :
    putAll ⟨before, [], above⟩ as = ⟨(as.map leaf).reverse ++ before, [], above⟩ := by
  induction as generalizing before with
  | nil => rfl
  | cons a as ih =>
    show putAll ⟨leaf a :: before, [], above⟩ as = _
    rw [ih, map_cons, reverse_cons, append_assoc, singleton_append]

theorem roots_write (c : TreeCursor α) (a : α) (as : List α) :
    (((c.rewind.put a).enter.putAll as).exit).roots = node a (as.map leaf) :: c.roots.tail := by
  have henter : (c.rewind.put a).enter = ⟨[], [], [⟨[], a, c.roots.tail⟩]⟩ := rfl
  rw [henter, putAll_last, append_nil]
  show unwind [] ([] ++ node a ((as.map leaf).reverse.reverse ++ []) :: c.roots.tail) = _
  rw [reverse_reverse, append_nil]
  rfl

structure AtEnd (c : TreeCursor α) : Prop where
  after : c.after = []
  above : c.above = []

theorem atEnd_empty : AtEnd (empty : TreeCursor α) := ⟨rfl, rfl⟩

theorem AtEnd.put {c : TreeCursor α} (h : c.AtEnd) (a : α) : (c.put a).AtEnd where
  after := by
    show c.after.tail = []
    rw [h.after]
    rfl
  above := h.above

theorem AtEnd.roots_put {c : TreeCursor α} (h : c.AtEnd) (a : α) :
    (c.put a).roots = c.roots ++ [leaf a] := by
  obtain ⟨before, after, above⟩ := c
  obtain ⟨hafter, habove⟩ := h
  subst hafter habove
  show (leaf a :: before).reverse ++ [] = (before.reverse ++ []) ++ [leaf a]
  rw [reverse_cons, append_nil, append_nil]

end TreeCursor

end Lib

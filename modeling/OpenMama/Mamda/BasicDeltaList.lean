import OpenMama.Mamda.PriceLevel

/-!
# `MamdaOrderBookBasicDelta` and `MamdaOrderBookBasicDeltaList`

A basic delta names a level and perhaps one of its entries by pointer, together
with what happened to each.  Here it holds the two objects as they were when the
delta was made; their addresses are the pointers.

A list of deltas works in one of three modes: plain (`deltas`), conflated by
level (`levelDeltas`: at most one delta for a price) and conflated by entry
(`entryDeltas`: a list of deltas for a price).
-/

namespace Mamda

open Mama Lib

/-- `MamdaOrderBookBasicDelta`. -/
structure BasicDelta where
  entry : Option Entry
  level : PriceLevel
  plDeltaSize : Int
  plAction : Action
  entryAction : Action

/-- The address of the entry of a delta: the pointer that is compared. -/
def BasicDelta.entryRef (d : BasicDelta) : Option Ref := d.entry.map Entry.ref

/-- The half of a delta list that a level's deltas go to. -/
def PriceLevel.deltaSide (l : PriceLevel) : BookSide :=
  if l.side = .bid then .bid else .ask

def BasicDelta.key (d : BasicDelta) : BookSide × Price := (d.level.deltaSide, d.level.price)

inductive ModifiedSides
  | none
  | bid
  | ask
  | bidAndAsk
  deriving DecidableEq, Repr

def ModifiedSides.checkSide (m : ModifiedSides) (l : PriceLevel) : ModifiedSides :=
  if l.side = .bid then
    match m with
    | .none => .bid
    | .ask => .bidAndAsk
    | m => m
  else
    match m with
    | .none => .ask
    | .bid => .bidAndAsk
    | m => m

abbrev BasicDeltaMap := SortedMap Price BasicDelta

abbrev DeltaListMap := SortedMap Price (List BasicDelta)

/-- `MamdaOrderBookBasicDeltaListImpl`; a list or a pair of maps that is not allocated is
`none`. -/
structure DeltaList where
  keepDeltas : Bool
  conflateDeltas : Bool
  processEntries : Bool
  deltas : Option (List BasicDelta)
  levelDeltas : Option (Sides BasicDeltaMap)
  entryDeltas : Option (Sides DeltaListMap)
  modSides : ModifiedSides
  sendImmediately : Bool
  size : Nat

namespace DeltaList

/-- The constructor, which leaves `mSize` uninitialised: `junk` is what it then holds. -/
def new (junk : Nat) : DeltaList where
  keepDeltas := true
  conflateDeltas := false
  processEntries := true
  deltas := none
  levelDeltas := none
  entryDeltas := none
  modSides := .none
  sendImmediately := false
  size := junk

/-- `clear`: the containers of one mode are emptied. -/
def clear (x : DeltaList) : DeltaList :=
  let x :=
    match x.deltas, x.levelDeltas, x.entryDeltas with
    | some _, _, _ => { x with deltas := some [] }
    | none, some _, _ => { x with levelDeltas := some ⟨.empty, .empty⟩ }
    | none, none, some _ => { x with entryDeltas := some ⟨.empty, .empty⟩ }
    | none, none, none => x
  { x with modSides := .none, sendImmediately := false, size := 0 }

/-- The level maps, allocated when they are not there yet. -/
def levelMaps (x : DeltaList) : Sides BasicDeltaMap := x.levelDeltas.getD ⟨.empty, .empty⟩

/-- The entry maps, allocated when they are not there yet. -/
def entryMaps (x : DeltaList) : Sides DeltaListMap := x.entryDeltas.getD ⟨.empty, .empty⟩

/-! ## Conflation by level -/

/-- `conflateLevelDeltas` at its price: the delta kept there before and after. -/
def conflateLevel (kept : Option BasicDelta) (d : BasicDelta) : Option BasicDelta :=
  match kept with
  | none => some d
  | some old =>
    match d.plAction with
    | .delete => if old.plAction = .add then none else some { old with plAction := .delete }
    | .add =>
      some { old with plAction := .update, plDeltaSize := old.plDeltaSize + d.plDeltaSize,
                      level := d.level }
    | .update => some { old with plDeltaSize := old.plDeltaSize + d.plDeltaSize, level := d.level }
    | .unknown => some old

def conflateLevelDeltas (x : DeltaList) (d : BasicDelta) : DeltaList :=
  let maps := x.levelMaps
  let side := d.level.deltaSide
  let m := maps.get side
  let found := m.find? d.level.price
  match found, conflateLevel found d with
  | none, some new =>
    { x with levelDeltas := some (maps.set side (m.insert d.level.price new)), size := x.size + 1 }
  | some _, some new => { x with levelDeltas := some (maps.set side (m.insert d.level.price new)) }
  | some _, none =>
    { x with levelDeltas := some (maps.set side (m.erase d.level.price)), size := x.size - 1 }
  | none, none => { x with levelDeltas := some maps }

/-! ## Conflation by entry -/

/-- `applyEntryDelta` on the list of a price.  An entry action that is unknown skips every
delta of the entry and is added at the end. -/
def applyEntryDelta (kept : List BasicDelta) (d : BasicDelta) : List BasicDelta :=
  match kept.find? (fun x => decide (x.entryRef = d.entryRef) && d.entryAction != .unknown) with
  | none => kept ++ [d]
  | some old =>
    let rest := kept.eraseP fun x => decide (x.entryRef = d.entryRef) && d.entryAction != .unknown
    if d.entryAction = .delete ∧ old.entryAction = .add then rest else rest ++ [d]

/-- `conflateEntryDeltas` at its price: the list kept there before and after. -/
def conflateEntry (kept : List BasicDelta) (d : BasicDelta) : List BasicDelta :=
  match kept with
  | [] => [d]
  | first :: _ =>
    match d.plAction with
    | .delete => if first.plAction = .add then [] else [{ d with entry := none }]
    | .add => kept ++ [d]
    | .update => applyEntryDelta kept d
    | .unknown => kept

def conflateEntryDeltas (x : DeltaList) (d : BasicDelta) : DeltaList :=
  let maps := x.entryMaps
  let side := d.level.deltaSide
  let m := maps.get side
  let kept := (m.find? d.level.price).getD []
  let new := conflateEntry kept d
  { x with
    entryDeltas := some (maps.set side (m.insert d.level.price new))
    size := x.size - kept.length + new.length
    sendImmediately := x.sendImmediately ||
      (match kept with
        | [] => false
        | first :: _ => decide (d.plAction = .delete) && decide (first.plAction ≠ .add)) }

/-! ## The list -/

def add (x : DeltaList) (d : BasicDelta) : DeltaList :=
  let x :=
    if x.keepDeltas then
      if x.conflateDeltas then
        if x.processEntries then x.conflateEntryDeltas d else x.conflateLevelDeltas d
      else { x with deltas := some (x.deltas.getD [] ++ [d]) }
    else x
  { x with modSides := x.modSides.checkSide d.level }

def getSize (x : DeltaList) : Nat :=
  match x.deltas with
  | some ds => ds.length
  | none => x.size

/-- What `begin ()` to `end ()` visits: bid prices upwards, then ask prices upwards, a price
whose list is empty being passed over. -/
def toList (x : DeltaList) : List BasicDelta :=
  if x.conflateDeltas then
    if x.processEntries then
      x.entryMaps.bid.values.flatten ++ x.entryMaps.ask.values.flatten
    else x.levelMaps.bid.values ++ x.levelMaps.ask.values
  else x.deltas.getD []

def addAll (x : DeltaList) (ds : List BasicDelta) : DeltaList := ds.foldl add x

def atKey (k : BookSide × Price) (ds : List BasicDelta) : List BasicDelta :=
  ds.filter fun d => decide (d.key = k)

theorem atKey_of_all {k₀ : BookSide × Price} {ds : List BasicDelta} (h : ∀ d ∈ ds, d.key = k₀)
    (k : BookSide × Price) : atKey k ds = if k = k₀ then ds else [] := by
  split
  · next hk => exact List.filter_eq_self.mpr fun d hd => by simp [h d hd, hk]
  · next hk =>
    refine List.filter_eq_nil_iff.mpr fun d hd => ?_
    simpa [h d hd] using Ne.symm hk

end DeltaList

end Mamda

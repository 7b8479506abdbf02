import OpenMama.Mamda.ReachedBooks

/-!
# Copies of a book

`copy` clears the book and applies the other one to it, level by level, by the action that
each level has; `assertEqual` compares two books.  What `assertEqual` compares is
`ComparedLevel`, and it finds no difference just where that is the same
(`assertEqual_eq_none_iff`).

Into an empty book only a level whose action is ADD can be applied: an UPDATE and a
DELETE throw, and a level of an unknown action is passed over.  The copies of entries have
the status zero.  So a book is copied as it is if and only if all its levels have the
action ADD and all its entries the status zero (`copies_iff`).
-/

namespace Mamda

open Mama Lib List

/-! ## Algorithm -/

/-- The fields of an entry that `assertEqual` compares. -/
structure ComparedEntry where
  id : String
  size : Nat
  action : Action
  time : DateTime

/-- The fields of a level that `assertEqual` compares. -/
structure ComparedLevel where
  price : Price
  size : Nat
  numEntries : Nat
  numEntriesTotal : Nat
  side : Side
  action : Action
  time : DateTime
  orderType : OrderType
  entries : Option (List ComparedEntry)

namespace Entry

def compared (e : Entry) : ComparedEntry := ⟨e.id, e.size, e.action, e.time⟩

/-- `assertEqual`: the error that it throws starts with this. -/
def assertEqual (e rhs : Entry) : Option String :=
  let error := if e.id = rhs.id then none else some "entry IDs not equal"
  let error := if e.size = rhs.size then error else some "entry size not equal"
  let error := if e.action = rhs.action then error else some "entry action not equal"
  if e.time = rhs.time then error else some "entry time not equal"

end Entry

def assertPairs {α : Type} (assertEqual : α → α → Option String) (sizes : String)
    (xs ys : List α) : Option String :=
  if xs.length ≠ ys.length then some sizes
  else (xs.zip ys).findSome? fun x => assertEqual x.1 x.2

namespace PriceLevel

def compared (l : PriceLevel) : ComparedLevel :=
  ⟨l.price, l.size, l.numEntries, l.numEntriesTotal, l.side, l.action, l.time, l.orderType,
    l.entries.map (List.map Entry.compared)⟩

def assertEqual (l rhs : PriceLevel) : Option String :=
  if l.price ≠ rhs.price then some "price not equal"
  else if l.size ≠ rhs.size then some "size not equal"
  else if l.numEntries ≠ rhs.numEntries then some "number of entries not equal"
  else if l.numEntriesTotal ≠ rhs.numEntriesTotal then some "number of total entries not equal"
  else if l.side ≠ rhs.side then some "side not equal"
  else if l.action ≠ rhs.action then some "action not equal"
  else if l.time ≠ rhs.time then some "time not equal"
  else if l.orderType ≠ rhs.orderType then some "order type not equal"
  else
    match l.entries, rhs.entries with
    | none, none => none
    | some es, some es' => assertPairs Entry.assertEqual "entries size mismatch" es es'
    | _, _ => some "entries mismatch"

end PriceLevel

namespace Book

/-- `assertEqual` of two market order levels. -/
def assertEqualMarket : Option PriceLevel → Option PriceLevel → Option String
  | none, none => none
  | some l, some rhs => l.assertEqual rhs
  | _, _ => some "market order levels not equal"

/-- `assertEqual` of two maps of levels. -/
def assertEqualLevels (m rhs : PlMap) : Option String :=
  assertPairs PriceLevel.assertEqual "number of price levels do not add up" m.values rhs.values

def assertEqual (b rhs : Book) : Option String :=
  if b.symbol ≠ "" ∧ b.symbol ≠ rhs.symbol then some "different symbols"
  else if b.partId ≠ "" ∧ b.partId ≠ rhs.partId then some "different participant ids"
  else
    (assertEqualLevels b.levels.bid rhs.levels.bid).or
      ((assertEqualLevels b.levels.ask rhs.levels.ask).or
        ((assertEqualMarket b.marketOrders.bid rhs.marketOrders.bid).or
          (assertEqualMarket b.marketOrders.ask rhs.marketOrders.ask)))

end Book

/-! ## Copies -/

structure EntryData where
  id : String
  size : Nat
  time : DateTime
  action : Action
  status : UInt16

def Entry.data (e : Entry) : EntryData := ⟨e.id, e.size, e.time, e.action, e.status⟩

def PriceLevel.rows (l : PriceLevel) : List EntryData := l.entryList.map Entry.data

namespace Book

/-- `rhs`, another book than `b`, is copied into it as it is: nothing is thrown, `assertEqual`
finds no difference, and neither is there one in the entries. -/
structure Copies (b rhs : Book) : Prop where
  finishes : (b.copy rhs).2 = none
  equal : (b.copy rhs).1.assertEqual rhs = none
  rows : ∀ s, ((b.copy rhs).1.levels.get s).values.map PriceLevel.rows =
    (rhs.levels.get s).values.map PriceLevel.rows
  marketRows : ∀ s, ((b.copy rhs).1.marketOrders.get s).map PriceLevel.rows =
    (rhs.marketOrders.get s).map PriceLevel.rows

end Book

/-- The level has the action ADD and no status at its entries. -/
structure PriceLevel.Plain (l : PriceLevel) : Prop where
  action : l.action = .add
  status : ∀ e ∈ l.entryList, e.status = 0

structure Book.Plain (b : Book) : Prop where
  levels : b.AllLevels fun _ _ l => l.Plain
  market : ∀ s l, b.marketOrders.get s = some l → l.Plain

/-! ## What is compared -/

variable {α : Type}

theorem assertPairs_eq_none_iff {β : Type} {f : α → α → Option String} {g : α → β}
    (hf : ∀ x y, f x y = none ↔ g x = g y) (sizes : String) (xs ys : List α) :
    assertPairs f sizes xs ys = none ↔ xs.map g = ys.map g := by
  unfold assertPairs
  induction xs generalizing ys with
  | nil =>
    cases ys with
    | nil => exact ⟨fun _ => rfl, fun _ => rfl⟩
    | cons y ys => exact ⟨fun h => (by cases h), fun h => (by cases h)⟩
  | cons x xs ih =>
    cases ys with
    | nil => exact ⟨fun h => (by cases h), fun h => (by cases h)⟩
    | cons y ys =>
      have hrest := ih ys
      rw [map_cons, map_cons, List.cons.injEq, ← hf x y, ← hrest, length_cons,
        length_cons, zip_cons_cons, findSome?_cons]
      by_cases hlen : xs.length = ys.length
      · rw [if_neg fun h => h (congrArg (· + 1) hlen), if_neg fun h => h hlen]
        cases f x y with
        | none => exact ⟨fun h => ⟨rfl, h⟩, fun h => h.2⟩
        | some error => exact ⟨fun h => (by cases h), fun h => (by cases h.1)⟩
      · rw [if_pos (fun h => hlen (Nat.succ.inj h)), if_pos hlen]
        exact ⟨fun h => (by cases h), fun h => (by cases h.2)⟩

theorem Entry.assertEqual_eq_none_iff (e rhs : Entry) :
    e.assertEqual rhs = none ↔ e.compared = rhs.compared := by
  unfold assertEqual compared
  by_cases hid : e.id = rhs.id <;> by_cases hsize : e.size = rhs.size <;>
    by_cases haction : e.action = rhs.action <;> by_cases htime : e.time = rhs.time <;>
    simp [hsize, haction, htime]

theorem PriceLevel.assertEqual_eq_none_iff (l rhs : PriceLevel) :
    l.assertEqual rhs = none ↔ l.compared = rhs.compared := by
  unfold assertEqual compared
  rw [ComparedLevel.mk.injEq]
  have hite : ∀ {p : Prop} [Decidable p] {error : String} {x : Option String},
      (if ¬ p then some error else x) = none ↔ p ∧ x = none := by
    intro p _ error x
    by_cases hp : p
    · rw [if_neg (not_not.mpr hp)]; exact ⟨fun h => ⟨hp, h⟩, fun h => h.2⟩
    · rw [if_pos hp]; exact ⟨fun h => (by cases h), fun h => absurd h.1 hp⟩
  simp only [hite]
  have hentries : ∀ es es' : Option (List Entry), (match es, es' with
      | none, none => none
      | some es, some es' => assertPairs Entry.assertEqual "entries size mismatch" es es'
      | _, _ => some "entries mismatch") = none ↔
        es.map (List.map Entry.compared) = es'.map (List.map Entry.compared) := by
    intro es es'
    cases es with
    | none =>
      cases es' with
      | none => exact ⟨fun _ => rfl, fun _ => rfl⟩
      | some es' => exact ⟨fun h => (by cases h), fun h => (by cases h)⟩
    | some es =>
      cases es' with
      | none => exact ⟨fun h => (by cases h), fun h => (by cases h)⟩
      | some es' =>
        rw [Option.map_some, Option.map_some, Option.some.injEq]
        exact assertPairs_eq_none_iff Entry.assertEqual_eq_none_iff _ es es'
  rw [hentries]

namespace Book

theorem assertEqualMarket_eq_none_iff (l rhs : Option PriceLevel) : assertEqualMarket l rhs = none ↔
    l.map PriceLevel.compared = rhs.map PriceLevel.compared := by
  cases l with
  | none =>
    cases rhs with
    | none => exact ⟨fun _ => rfl, fun _ => rfl⟩
    | some rhs => exact ⟨fun h => (by cases h), fun h => (by cases h)⟩
  | some l =>
    cases rhs with
    | none => exact ⟨fun h => (by cases h), fun h => (by cases h)⟩
    | some rhs =>
      rw [Option.map_some, Option.map_some, Option.some.injEq]; exact l.assertEqual_eq_none_iff rhs

theorem assertEqual_eq_none_iff (b rhs : Book) : b.assertEqual rhs = none ↔
    (b.symbol = "" ∨ b.symbol = rhs.symbol) ∧ (b.partId = "" ∨ b.partId = rhs.partId) ∧
      (∀ s, (b.levels.get s).values.map PriceLevel.compared =
        (rhs.levels.get s).values.map PriceLevel.compared) ∧
      ∀ s, (b.marketOrders.get s).map PriceLevel.compared =
        (rhs.marketOrders.get s).map PriceLevel.compared := by
  have hsides : ∀ P : BookSide → Prop, (∀ s, P s) ↔ P .bid ∧ P .ask := by
    intro P
    refine ⟨fun h => ⟨h .bid, h .ask⟩, fun h s => ?_⟩
    cases s with
    | bid => exact h.1
    | ask => exact h.2
  unfold assertEqual assertEqualLevels
  by_cases hsymbol : b.symbol = "" ∨ b.symbol = rhs.symbol
  · rw [if_neg fun h => hsymbol.elim h.1 h.2]
    by_cases hpartId : b.partId = "" ∨ b.partId = rhs.partId
    · rw [if_neg fun h => hpartId.elim h.1 h.2, Option.or_eq_none_iff, Option.or_eq_none_iff,
        Option.or_eq_none_iff, assertPairs_eq_none_iff PriceLevel.assertEqual_eq_none_iff,
        assertPairs_eq_none_iff PriceLevel.assertEqual_eq_none_iff,
        assertEqualMarket_eq_none_iff, assertEqualMarket_eq_none_iff, hsides, hsides]
      exact ⟨fun h => ⟨hsymbol, hpartId, ⟨h.1, h.2.1⟩, h.2.2⟩,
        fun h => ⟨h.2.2.1.1, h.2.2.1.2, h.2.2.2⟩⟩
    · rw [if_pos (not_or.mp hpartId)]; exact ⟨fun h => (by cases h), fun h => absurd h.2.1 hpartId⟩
  · rw [if_pos (not_or.mp hsymbol)]; exact ⟨fun h => (by cases h), fun h => absurd h.1 hsymbol⟩

/-! ## One level -/

/-- `m` is a copy of `l`: only the status of the entries may differ, which is zero. -/
structure IsCopy (l m : PriceLevel) : Prop where
  compared : m.compared = l.compared
  rows : m.rows = l.rows.map fun row => { row with status := 0 }

theorem isCopy_newLevelCopy (b : Book) (l : PriceLevel) : IsCopy l (b.newLevelCopy l) := by
  have hcopies : ∀ {β : Type} (f : Entry → β) (fresh : Nat → Ref) (level : Ref) (es : List Entry),
      (∀ (e : Entry) (ref level : Ref),
        f { e.copyAt ref with priceLevel := some level } = f { e with status := 0 }) →
      (PriceLevel.copyEntries fresh level es).map f =
        es.map fun e => f { e with status := 0 } := by
    intro β f fresh level es hf
    apply ext_getElem?
    intro i
    simp only [PriceLevel.copyEntries, getElem?_map, getElem?_mapIdx, Option.map_map]
    congr 1
    funext e
    exact hf e (fresh i) level
  constructor
  · unfold PriceLevel.compared newLevelCopy PriceLevel.copyAt PriceLevel.setOrderBook
    congr 1
    cases l.entries with
    | none => rfl
    | some es => exact congrArg some (hcopies Entry.compared _ _ es fun _ _ _ => rfl)
  unfold PriceLevel.rows PriceLevel.entryList newLevelCopy PriceLevel.copyAt
  cases l.entries with
  | none => rfl
  | some es =>
    refine (hcopies Entry.data _ _ es fun _ _ _ => rfl).trans ?_
    rw [map_map]
    rfl

variable {l : PriceLevel}
variable {m : PriceLevel}

theorem IsCopy.rows_eq_iff (h : IsCopy l m) :
    m.rows = l.rows ↔ ∀ e ∈ l.entryList, e.status = 0 := by
  rw [h.rows]
  rw [PriceLevel.rows, map_map, map_inj_left]
  constructor
  · intro hrows e he; exact (congrArg EntryData.status (hrows e he)).symm
  · intro hstatus e he
    rw [Function.comp, Entry.data, hstatus e he]

/-- A level that can be applied to a book that does not have its price. -/
def Applies (l : PriceLevel) : Prop := l.action = .add ∨ l.action = .unknown

variable {b b' : Book} {s : BookSide}

theorem findLevel_insertLevelCopy (b : Book) (s t : BookSide) (l : PriceLevel) (q : Price) :
    (b.insertLevelCopy s l).findLevel t q =
      if t = s ∧ q = l.price then some (b.newLevelCopy l) else b.findLevel t q :=
  findLevel_putLevel (b.takeLevelCopy l) s t l.price q (b.newLevelCopy l)

theorem applyLevel_absent (book : Book) (h : b.findLevel s l.price = none) :
    (l.action = .add ∧ b.applyLevel s book l = (b.insertLevelCopy s l, none)) ∨
      (l.action = .unknown ∧ b.applyLevel s book l = (b, none)) ∨
      (¬ Applies l ∧ ∃ b' error, b.applyLevel s book l = (b', some error)) := by
  unfold applyLevel
  cases haction : l.action with
  | add =>
    refine .inl ⟨rfl, ?_⟩
    rw [addLevelSide, h]
  | unknown => exact .inr (.inl ⟨rfl, rfl⟩)
  | update =>
    refine .inr (.inr ⟨?_, ?_⟩)
    · rw [Applies, haction]; decide
    · dsimp only
      rw [applyLevelSide, h]
      exact ⟨_, _, rfl⟩
  | delete =>
    refine .inr (.inr ⟨?_, ?_⟩)
    · rw [Applies, haction]; decide
    · dsimp only
      rw [deleteLevelSide, h]
      exact ⟨_, _, rfl⟩

/-! ## One half of a book -/

/-- The levels `ls` were applied to one half of `b`, which had none of their prices. -/
structure Replays (s : BookSide) (ls : List PriceLevel) (b b' : Book) : Prop where
  added : ∀ l ∈ ls, l.action = .add → ∃ m, b'.findLevel s l.price = some m ∧ IsCopy l m
  others : ∀ t q, ¬ (t = s ∧ ∃ l ∈ ls, l.action = .add ∧ l.price = q) →
    b'.findLevel t q = b.findLevel t q
  market : b'.marketOrders = b.marketOrders
  symbol : b'.symbol = b.symbol

theorem applySide_spec (s : BookSide) (book : Book) (ls : List PriceLevel) {b : Book}
    (hprices : ls.Pairwise fun l l' => l.price ≠ l'.price)
    (habsent : ∀ l ∈ ls, b.findLevel s l.price = none) :
    ((b.applySide s book ls).2 = none ↔ ∀ l ∈ ls, Applies l) ∧
      ((b.applySide s book ls).2 = none → Replays s ls b (b.applySide s book ls).1) := by
  induction ls generalizing b with
  | nil =>
    refine ⟨⟨fun _ l hl => absurd hl not_mem_nil, fun _ => rfl⟩, fun _ => ?_⟩
    exact ⟨fun l hl => absurd hl not_mem_nil, fun _ _ _ => rfl, rfl, rfl⟩
  | cons l ls ih =>
    obtain ⟨hfirst, hrest⟩ := pairwise_cons.mp hprices
    rw [applySide, forall_mem_cons]
    rcases applyLevel_absent book (habsent l mem_cons_self) with
      ⟨haction, happly⟩ | ⟨haction, happly⟩ | ⟨hnot, b', error, happly⟩
    · rw [happly]
      have hrestAbsent : ∀ l' ∈ ls, (b.insertLevelCopy s l).findLevel s l'.price = none := by
        intro l' hl'
        rw [findLevel_insertLevelCopy, if_neg fun h => hfirst l' hl' h.2.symm]
        exact habsent l' (mem_cons_of_mem l hl')
      obtain ⟨hiff, hreplays⟩ := ih hrest hrestAbsent
      refine ⟨hiff.trans ⟨fun h => ⟨.inl haction, h⟩, fun h => h.2⟩, fun hnone => ?_⟩
      have hr := hreplays hnone
      refine ⟨fun l' hl' hadd => ?_, fun t q hq => ?_, hr.market, hr.symbol⟩
      · rcases mem_cons.mp hl' with rfl | hmem
        · refine ⟨b.newLevelCopy l', ?_, isCopy_newLevelCopy b l'⟩
          refine (hr.others s l'.price ?_).trans ?_
          · rintro ⟨-, x, hx, -, hprice⟩; exact hfirst x hx hprice.symm
          · rw [findLevel_insertLevelCopy, if_pos ⟨rfl, rfl⟩]
        · exact hr.added l' hmem hadd
      · refine (hr.others t q ?_).trans ?_
        · rintro ⟨ht, x, hx, hadd, hprice⟩; exact hq ⟨ht, x, mem_cons_of_mem l hx, hadd, hprice⟩
        · rw [findLevel_insertLevelCopy, if_neg]
          rintro ⟨ht, hprice⟩
          exact hq ⟨ht, l, mem_cons_self, haction, hprice.symm⟩
    · rw [happly]
      obtain ⟨hiff, hreplays⟩ := ih hrest fun l' hl' => habsent l' (mem_cons_of_mem l hl')
      refine ⟨hiff.trans ⟨fun h => ⟨.inr haction, h⟩, fun h => h.2⟩, fun hnone => ?_⟩
      have hr := hreplays hnone
      refine ⟨fun l' hl' hadd => ?_, fun t q hq => hr.others t q ?_, hr.market, hr.symbol⟩
      · rcases mem_cons.mp hl' with rfl | hmem
        · rw [haction] at hadd; cases hadd
        · exact hr.added l' hmem hadd
      · rintro ⟨ht, x, hx, hadd, hprice⟩; exact hq ⟨ht, x, mem_cons_of_mem l hx, hadd, hprice⟩
    · rw [happly]; exact ⟨⟨fun h => (by cases h), fun h => absurd h.1 hnot⟩, fun h => (by cases h)⟩

/-! ## The market orders -/

/-- The market orders of one side after those of `book` were applied to a book without any. -/
def MarketCopied (book : Book) (s : BookSide) (m : Option PriceLevel) : Prop :=
  match book.marketOrders.get s with
  | none => m = none
  | some l => if l.action = .add then ∃ m', m = some m' ∧ IsCopy l m' else m = none

theorem applyMarketOrders_spec (book : Book) {s : BookSide}
    (habsent : b.marketOrders.get s = none) :
    ((b.applyMarketOrders s book).2 = none ↔
        ∀ l, book.marketOrders.get s = some l → l.action ≠ .update) ∧
      ((b.applyMarketOrders s book).2 = none →
        MarketCopied book s ((b.applyMarketOrders s book).1.marketOrders.get s) ∧
          (∀ t, t ≠ s → (b.applyMarketOrders s book).1.marketOrders.get t = b.marketOrders.get t) ∧
          (b.applyMarketOrders s book).1.levels = b.levels ∧
          (b.applyMarketOrders s book).1.symbol = b.symbol) := by
  unfold applyMarketOrders MarketCopied
  cases hl : book.marketOrders.get s with
  | none => exact ⟨⟨fun _ _ h => absurd h.symm (Option.some_ne_none _), fun _ => rfl⟩,
      fun _ => ⟨habsent, fun _ _ => rfl, rfl, rfl⟩⟩
  | some l =>
    dsimp only
    unfold applyMarketOrderSide
    cases haction : l.action with
    | add =>
      rw [addMarketOrderLevelSide, insertMarketCopy, putLevel, habsent]
      refine ⟨⟨fun _ l' hl' => ?_, fun _ => rfl⟩, fun _ => ⟨?_, fun t ht => ?_, rfl, rfl⟩⟩
      · rw [← Option.some.inj hl', haction]; decide
      · rw [if_pos rfl]
        exact ⟨b.newLevelCopy l, by dsimp only; rw [Sides.get_set, if_pos rfl],
          isCopy_newLevelCopy b l⟩
      · exact (Sides.get_set ..).trans (if_neg ht)
    | update =>
      rw [applyMarketOrderLevelSide, habsent]
      exact ⟨⟨fun h => (by cases h), fun h => absurd haction (h l rfl)⟩, fun h => (by cases h)⟩
    | delete =>
      refine ⟨⟨fun _ l' hl' => ?_, fun _ => rfl⟩, fun _ => ⟨?_, fun t ht => ?_, rfl, rfl⟩⟩
      · rw [← Option.some.inj hl', haction]; decide
      · rw [if_neg (by decide)]; exact (Sides.get_set ..).trans (if_pos rfl)
      · exact (Sides.get_set ..).trans (if_neg ht)
    | unknown =>
      refine ⟨⟨fun _ l' hl' => ?_, fun _ => rfl⟩, fun _ => ⟨?_, fun _ _ => rfl, rfl, rfl⟩⟩
      · rw [← Option.some.inj hl', haction]; decide
      · rwa [if_neg (by decide)]

/-! ## The whole book -/

/-- What the copy of a book is when nothing was thrown. -/
structure Copied (rhs c : Book) : Prop where
  added : ∀ s, ∀ l ∈ (rhs.levels.get s).values, l.action = .add →
    ∃ m, c.findLevel s l.price = some m ∧ IsCopy l m
  only : ∀ s q m, c.findLevel s q = some m →
    ∃ l ∈ (rhs.levels.get s).values, l.action = .add ∧ l.price = q
  market : ∀ s, MarketCopied rhs s (c.marketOrders.get s)
  symbol : c.symbol = rhs.symbol
  partId : c.partId = rhs.partId

variable {r : Outcome} {a : Nat}

theorem andThen_of_none (h : r.2 = none) (f : Book → Outcome) : Outcome.andThen r f = f r.1 := by
  obtain ⟨c, error⟩ := r
  cases h
  rfl

theorem none_of_andThen {f : Book → Outcome} (h : (Outcome.andThen r f).2 = none) : r.2 = none := by
  obtain ⟨c, error⟩ := r
  cases error with
  | none => rfl
  | some error => exact h

/-- The book that `copy` applies the other one to. -/
def emptied (b rhs : Book) : Book :=
  { b.clear with checkVisibility := rhs.checkVisibility, symbol := rhs.symbol }

structure BothReplayed (b rhs c : Book) : Prop where
  added : ∀ s, ∀ l ∈ (rhs.levels.get s).values, l.action = .add →
    ∃ m, c.findLevel s l.price = some m ∧ IsCopy l m
  only : ∀ s q m, c.findLevel s q = some m →
    ∃ l ∈ (rhs.levels.get s).values, l.action = .add ∧ l.price = q
  market : ∀ s, c.marketOrders.get s = none
  symbol : c.symbol = rhs.symbol

def replayBoth (b rhs : Book) : Outcome :=
  Outcome.andThen ((b.emptied rhs).applySide .bid rhs rhs.levels.bid.values) fun c =>
    c.applySide .ask rhs rhs.levels.ask.values

theorem replayBoth_spec {rhs : Book} (hrhs : rhs.Filed a) (b : Book) :
    ((b.replayBoth rhs).2 = none ↔ ∀ s, ∀ l ∈ (rhs.levels.get s).values, Applies l) ∧
      ((b.replayBoth rhs).2 = none → BothReplayed b rhs (b.replayBoth rhs).1) := by
  have hempty : ∀ s q, (b.emptied rhs).findLevel s q = none := by
    intro s q
    cases s <;> rfl
  obtain ⟨hbidIff, hbid⟩ := applySide_spec .bid rhs rhs.levels.bid.values
    (KeepsLevels.values hrhs .bid).2 fun l _ => hempty .bid l.price
  unfold replayBoth
  cases herror : ((b.emptied rhs).applySide .bid rhs rhs.levels.bid.values).2 with
  | some error =>
    have hthrown : (Outcome.andThen ((b.emptied rhs).applySide .bid rhs rhs.levels.bid.values)
        fun c => c.applySide .ask rhs rhs.levels.ask.values).2 ≠ none := by
      intro h
      have hnone := none_of_andThen h
      rw [herror] at hnone
      cases hnone
    refine ⟨⟨fun h => absurd h hthrown, fun h => ?_⟩, fun h => absurd h hthrown⟩
    have hnone := hbidIff.mpr (h .bid)
    rw [herror] at hnone
    cases hnone
  | none =>
    have hb := hbid herror
    rw [andThen_of_none herror]
    generalize ((b.emptied rhs).applySide .bid rhs rhs.levels.bid.values).1 = c at hb
    have habsent : ∀ q, c.findLevel .ask q = none := by
      intro q
      rw [hb.others .ask q fun h => nomatch h.1]
      exact hempty .ask q
    obtain ⟨haskIff, hask⟩ := applySide_spec .ask rhs rhs.levels.ask.values (b := c)
      (KeepsLevels.values hrhs .ask).2 fun l _ => habsent l.price
    refine ⟨haskIff.trans ⟨fun h s => ?_, fun h => h .ask⟩, fun hnone => ?_⟩
    · cases s with
      | bid => exact hbidIff.mp herror
      | ask => exact h
    have ha := hask hnone
    refine ⟨fun s l hl hadd => ?_, fun s q m hm => ?_, fun s => ?_, ha.symbol.trans hb.symbol⟩
    · cases s with
      | bid =>
        obtain ⟨m, hm, hcopy⟩ := hb.added l hl hadd
        exact ⟨m, (ha.others .bid l.price fun h => nomatch h.1).trans hm, hcopy⟩
      | ask => exact ha.added l hl hadd
    · by_contra hno
      have hnone : c.findLevel s q = none := by
        cases s with
        | bid =>
          rw [hb.others .bid q fun h => hno h.2]
          exact hempty .bid q
        | ask => exact habsent q
      rw [ha.others s q fun h => hno (by obtain ⟨rfl, hl⟩ := h; exact hl), hnone] at hm
      cases hm
    · rw [ha.market, hb.market]
      cases s <;> rfl

theorem copy_spec {rhs : Book} (hrhs : rhs.Filed a) (b : Book) :
    (rhs.Plain → (b.copy rhs).2 = none) ∧ ((b.copy rhs).2 = none → Copied rhs (b.copy rhs).1) := by
  obtain ⟨hbothIff, hboth⟩ := replayBoth_spec hrhs b
  let bidMarket (c : Book) : Outcome := c.applyMarketOrders .bid rhs
  let askMarket (c : Book) : Outcome := c.applyMarketOrders .ask rhs
  let last (c : Book) : Outcome := ({ c with partId := rhs.partId }, none)
  have hcopy : b.copy rhs = Outcome.andThen (Outcome.andThen (Outcome.andThen (b.replayBoth rhs)
      bidMarket) askMarket) last := rfl
  have hmarket : ∀ {c : Book} (s : BookSide), c.marketOrders.get s = none → rhs.Plain →
      (c.applyMarketOrders s rhs).2 = none := by
    intro c s habsent hplain
    refine (applyMarketOrders_spec rhs habsent).1.mpr fun l hl => ?_
    rw [(hplain.market s l hl).action]
    nofun
  rw [hcopy]
  constructor
  · intro hplain
    have hnone : (b.replayBoth rhs).2 = none := hbothIff.mpr fun s l hl => by
      obtain ⟨x, hx, rfl⟩ := mem_map.mp hl
      exact .inl (hplain.levels s x.1 x.2 (SortedMap.mem_toList.mp hx)).action
    have hreplayed := hboth hnone
    rw [andThen_of_none hnone]
    have hbid := hmarket .bid (hreplayed.market .bid) hplain
    obtain ⟨-, hothers, -, -⟩ := (applyMarketOrders_spec rhs (hreplayed.market .bid)).2 hbid
    rw [andThen_of_none (r := bidMarket (b.replayBoth rhs).1) hbid]
    have hask := hmarket .ask ((hothers .ask nofun).trans (hreplayed.market .ask)) hplain
    rw [andThen_of_none (r := askMarket (bidMarket (b.replayBoth rhs).1).1) hask]
  intro h
  have hask := none_of_andThen h
  have hbid := none_of_andThen hask
  have hnone := none_of_andThen hbid
  have hreplayed := hboth hnone
  rw [andThen_of_none hnone] at hbid hask ⊢
  obtain ⟨hbidCopied, hothers, hlevels, hsymbol⟩ :=
    (applyMarketOrders_spec rhs (hreplayed.market .bid)).2 hbid
  rw [andThen_of_none hbid] at hask ⊢
  obtain ⟨haskCopied, hothers', hlevels', hsymbol'⟩ :=
    (applyMarketOrders_spec rhs ((hothers .ask nofun).trans (hreplayed.market .ask))).2 hask
  rw [andThen_of_none hask]
  have hfind : ∀ s q, (last (askMarket (bidMarket (b.replayBoth rhs).1).1).1).1.findLevel s q =
      (b.replayBoth rhs).1.findLevel s q := by
    intro s q
    show ((askMarket (bidMarket (b.replayBoth rhs).1).1).1.levels.get s).find? q = _
    rw [hlevels', hlevels]
    rfl
  refine ⟨fun s l hl hadd => ?_, fun s q m hm => ?_, fun s => ?_, ?_, rfl⟩
  · obtain ⟨m, hm, hcopied⟩ := hreplayed.added s l hl hadd
    exact ⟨m, (hfind s l.price).trans hm, hcopied⟩
  · exact hreplayed.only s q m ((hfind s q).symm.trans hm)
  · cases s with
    | bid => rwa [hothers' .bid nofun]
    | ask => exact haskCopied
  · exact hsymbol'.trans (hsymbol.trans hreplayed.symbol)

/-! ## Results -/

theorem mem_values {b : Book} {s : BookSide} :
    l ∈ (b.levels.get s).values ↔ ∃ q, b.findLevel s q = some l := by
  constructor
  · intro hl
    obtain ⟨x, hx, rfl⟩ := mem_map.mp hl
    exact ⟨x.1, SortedMap.mem_toList.mp hx⟩
  · rintro ⟨q, hq⟩; exact mem_map.mpr ⟨(q, l), SortedMap.mem_toList.mpr hq, rfl⟩

theorem map_values_eq {f : PriceLevel → α} {m m' : PlMap}
    (h : ∀ q, (m.find? q).map f = (m'.find? q).map f) : m.values.map f = m'.values.map f := by
  have hmaps : m.mapVal f = m'.mapVal f := SortedMap.ext fun q => by
    rw [SortedMap.find?_mapVal, SortedMap.find?_mapVal, h]
  have hvalues : ∀ m : PlMap, (m.mapVal f).values = m.values.map f := by
    intro m
    unfold SortedMap.values SortedMap.mapVal
    rw [map_map, map_map]
    rfl
  rw [← hvalues, ← hvalues, hmaps]

section

variable {rhs c : Book}

theorem Copied.source (h : Copied rhs c) {s : BookSide} (hm : m ∈ (c.levels.get s).values) :
    ∃ l ∈ (rhs.levels.get s).values, l.action = .add ∧ IsCopy l m := by
  obtain ⟨q, hq⟩ := mem_values.mp hm
  obtain ⟨l, hl, hadd, rfl⟩ := h.only s q m hq
  obtain ⟨m', hm', hcopy⟩ := h.added s l hl hadd
  rw [hq] at hm'
  exact ⟨l, hl, hadd, Option.some.inj hm' ▸ hcopy⟩

theorem Copied.plain_levels (h : Copied rhs c) {s : BookSide}
    (hequal : (c.levels.get s).values.map PriceLevel.compared =
      (rhs.levels.get s).values.map PriceLevel.compared)
    (hrows : (c.levels.get s).values.map PriceLevel.rows =
      (rhs.levels.get s).values.map PriceLevel.rows)
    (hl : l ∈ (rhs.levels.get s).values) : l.Plain := by
  constructor
  · obtain ⟨m, hm, hcompared⟩ : ∃ m ∈ (c.levels.get s).values, m.compared = l.compared :=
      mem_map.mp (hequal ▸ mem_map_of_mem hl)
    obtain ⟨l', hl', hadd, hcopy⟩ := h.source hm
    have hsame := hcopy.compared.symm.trans hcompared
    exact (congrArg ComparedLevel.action hsame).symm.trans hadd
  obtain ⟨m, hm, hsame⟩ : ∃ m ∈ (c.levels.get s).values, m.rows = l.rows :=
    mem_map.mp (hrows ▸ mem_map_of_mem hl)
  obtain ⟨l', -, -, hcopy⟩ := h.source hm
  intro e he
  have hrow : e.data ∈ m.rows := hsame ▸ mem_map_of_mem he
  rw [hcopy.rows] at hrow
  obtain ⟨row, -, hzero⟩ := mem_map.mp hrow
  exact (congrArg EntryData.status hzero).symm

theorem Copied.plain_market (h : Copied rhs c) {s : BookSide}
    (hequal : (c.marketOrders.get s).map PriceLevel.compared =
      (rhs.marketOrders.get s).map PriceLevel.compared)
    (hrows : (c.marketOrders.get s).map PriceLevel.rows =
      (rhs.marketOrders.get s).map PriceLevel.rows)
    (hl : rhs.marketOrders.get s = some l) : l.Plain := by
  have hmarket := h.market s
  unfold MarketCopied at hmarket
  rw [hl] at hmarket hequal hrows
  dsimp only at hmarket
  split at hmarket
  · next hadd =>
    obtain ⟨m, hm, hcopy⟩ := hmarket
    rw [hm] at hrows
    exact ⟨hadd, hcopy.rows_eq_iff.mp (Option.some.inj hrows)⟩
  · rw [hmarket] at hequal; cases hequal

/-- **A book that was reached is copied as it is if and only if it is plain.** -/
theorem copies_iff {rhs : Book} (h : Reached rhs) (b : Book) : b.Copies rhs ↔ rhs.Plain := by
  have hfiled := keepsLevels_of_reached h
  obtain ⟨hfinishes, hcopied⟩ := copy_spec hfiled b
  constructor
  · intro hcopies
    have hc := hcopied hcopies.finishes
    obtain ⟨-, -, hlevels, hmarket⟩ := (assertEqual_eq_none_iff _ _).mp hcopies.equal
    refine ⟨fun s p l hl => ?_, fun s l hl => ?_⟩
    · exact hc.plain_levels (hlevels s) (hcopies.rows s) (mem_values.mpr ⟨p, hl⟩)
    · exact hc.plain_market (hmarket s) (hcopies.marketRows s) hl
  intro hplain
  have hc := hcopied (hfinishes hplain)
  have hfind : ∀ {α : Type} {f : PriceLevel → α}, (∀ l m, l.Plain → IsCopy l m → f m = f l) →
      ∀ s q, ((b.copy rhs).1.findLevel s q).map f = (rhs.findLevel s q).map f := by
    intro α f hf s q
    cases hl : rhs.findLevel s q with
    | some l =>
      have hprice := (hfiled.levels s q l hl).price
      have hpl := hplain.levels s q l hl
      obtain ⟨m, hm, hcopy⟩ := hc.added s l (mem_values.mpr ⟨q, hl⟩) hpl.action
      rw [hprice] at hm
      rw [hm]
      exact congrArg some (hf l m hpl hcopy)
    | none =>
      cases hm : (b.copy rhs).1.findLevel s q with
      | none => rfl
      | some m =>
        obtain ⟨l, hmem, -, hprice⟩ := hc.only s q m hm
        obtain ⟨q', hq'⟩ := mem_values.mp hmem
        rw [← (hfiled.levels s q' l hq').price, hprice, hl] at hq'
        cases hq'
  have hmarket : ∀ {α : Type} {f : PriceLevel → α}, (∀ l m, l.Plain → IsCopy l m → f m = f l) →
      ∀ s, ((b.copy rhs).1.marketOrders.get s).map f = (rhs.marketOrders.get s).map f := by
    intro α f hf s
    have hm := hc.market s
    unfold MarketCopied at hm
    cases hl : rhs.marketOrders.get s with
    | none =>
      rw [hl] at hm
      rw [hm]
    | some l =>
      have hpl := hplain.market s l hl
      rw [hl] at hm
      dsimp only at hm
      rw [if_pos hpl.action] at hm
      obtain ⟨m, hm, hcopy⟩ := hm
      rw [hm]
      exact congrArg some (hf l m hpl hcopy)
  have hcompared : ∀ l m : PriceLevel, l.Plain → IsCopy l m → m.compared = l.compared :=
    fun _ _ _ hcopy => hcopy.compared
  have hrows : ∀ l m : PriceLevel, l.Plain → IsCopy l m → m.rows = l.rows :=
    fun _ _ hpl hcopy => hcopy.rows_eq_iff.mpr hpl.status
  exact {
    finishes := hfinishes hplain
    equal := (assertEqual_eq_none_iff _ _).mpr ⟨.inr hc.symbol, .inr hc.partId,
      fun s => map_values_eq (hfind hcompared s), hmarket hcompared⟩
    rows := fun s => map_values_eq (hfind hrows s)
    marketRows := hmarket hrows }

end

def withEntry : Book :=
  ((Book.start 1 (fun _ => true) true false).addEntry true .bid 10 (.create ⟨1, 0⟩ "a") .null).1

theorem copies_withEntry : (Book.new 0 fun _ => true).Copies withEntry := by
  have hstep : EntryOp.step (Book.start 1 (fun _ => true) true false)
      (.addEntry true .bid 10 (.create ⟨1, 0⟩ "a") .null) = some withEntry := by
    rfl
  have hreached : Reached withEntry := .entry (.new 1 _ true false) (fun _ _ h => by cases h) hstep
  have hlevels : ∀ s, ∀ l ∈ (withEntry.levels.get s).values,
      l.action = .add ∧ ∀ e ∈ l.entryList, e.status = 0 := by
    intro s
    cases s <;> decide +kernel
  refine (copies_iff hreached _).mpr ⟨fun s p l hl => ?_, fun s l hl => ?_⟩
  · obtain ⟨haction, hstatus⟩ := hlevels s l (mem_values.mpr ⟨p, hl⟩)
    exact ⟨haction, hstatus⟩
  · cases s <;> cases hl

def added : Book :=
  ((Book.start 1 (fun _ => true) true false).addLevel (.new ⟨2, 0⟩ 10 .bid)).1

def addedAndUpdated : Book :=
  (added.updateLevel { PriceLevel.new ⟨3, 0⟩ 10 .bid with size := 5, action := .update }).1

/-- The update is applied to the cleared book, which does not have the level. -/
theorem not_copies : ¬ ∀ rhs, Reached rhs → ∀ b : Book, rhs.addr ≠ b.addr → b.Copies rhs := by
  intro h
  have hadded : Reached added :=
    .level (o := .addLevel (.new ⟨2, 0⟩ 10 .bid)) (.new 1 _ true false) (fun _ h => nomatch h) rfl
  have hreached : Reached addedAndUpdated :=
    .level (o := .updateLevel { PriceLevel.new ⟨3, 0⟩ 10 .bid with size := 5, action := .update })
      hadded (fun _ h => nomatch h) rfl
  have haddr : addedAndUpdated.addr ≠ (Book.new 0 fun _ => true).addr := by decide +kernel
  have hthrows : ((Book.new 0 fun _ => true).copy addedAndUpdated).2.isSome := by decide +kernel
  rw [(h _ hreached _ haddr).finishes] at hthrows
  cases hthrows

end Book

end Mamda

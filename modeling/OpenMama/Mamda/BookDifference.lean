import OpenMama.Lib.MapDiff
import OpenMama.Mamda.Linkage

/-!
# The difference of two books

`setAsDeltaDifference` makes a book of the levels in which two books differ, and
`apply` interprets the actions of these levels.  The loop walks both halves by
price; a half that is exhausted has the price `DBL_MIN`, so a level of that price
would be taken for the end.

For the sizes of the levels the loop is `diffSorted` and `apply` is `patch`, so
the difference turns the one book into the other.
-/

namespace Mamda

open Mama Lib List

/-- `DBL_MIN`. -/
@[irreducible] def dblMin : Price := 1 / 2 ^ 1022

namespace PriceLevel

/-- `setSizeChange`: a size that is none becomes zero. -/
def setSizeChange (l : PriceLevel) (size : Int) : PriceLevel := { l with sizeChange := size.toNat }

/-- `markAllDeleted` of a level that is linked to no book and so shows all its entries. -/
def markAllDeleted (l : PriceLevel) : PriceLevel :=
  { ((l.setSizeChange (-l.size)).setSize 0).setNumEntries 0 with
    action := .delete
    entries := some (l.entryList.map fun e => { e with size := 0, action := .delete }) }

/-- `setAsDifference`.  Both iterators of its loop go through the entries of this level, and each
round adds an entry at the end: it does not return unless the level has none. -/
def setAsDifference (l lhs rhs : PriceLevel) : Option PriceLevel :=
  if l.empty then
    some { ((({ l with price := rhs.price, entries := some [] }.setSizeChange
      ((rhs.size : Int) - lhs.size)).setSize rhs.size).setNumEntries rhs.numEntries) with
        action := .update
        time := rhs.time
        side := rhs.side }
  else none

def priceOr (l : Option PriceLevel) : Price := l.elim dblMin PriceLevel.price

def sizeOr (l : Option PriceLevel) : Nat := l.elim 0 PriceLevel.size

/-- The branches of the loop of `determineDiffs`. -/
inductive DiffBranch
  | same
  | changed
  | onlyRhs
  | onlyLhs
  deriving DecidableEq

/-- The branch that is taken with the iterators at these levels. -/
def diffBranch (l r : Option PriceLevel) : DiffBranch :=
  if priceOr l = priceOr r ∧ sizeOr l = sizeOr r then .same
  else if priceOr l = priceOr r then .changed
  else if (priceOr l > priceOr r ∧ priceOr r ≠ dblMin) ∨ priceOr l = dblMin then .onlyRhs
  else .onlyLhs

end PriceLevel

namespace Book

open PriceLevel

/-- `resultSide.insert`: a price that is taken keeps its level. -/
def insertDiff (b : Book) (s : BookSide) (p : Price) (l : PriceLevel) : Book :=
  match b.findLevel s p with
  | some _ => b
  | none => b.putLevel (.limit s p) l

/-- `new MamdaOrderBookPriceLevel (level)`, which is not linked. -/
def diffCopy (b : Book) (rhs : PriceLevel) : PriceLevel :=
  PriceLevel.copyAt (b.fresh 0) (fun i => b.fresh (i + 1)) rhs

/-- The branch for a level that the right side has in addition. -/
def diffAdded (b : Book) (s : BookSide) (r : PriceLevel) : Book :=
  (b.takeLevelCopy r).insertDiff s r.price (b.diffCopy r)

/-- The branch for a level that the right side does not have. -/
def diffDeleted (b : Book) (s : BookSide) (l : PriceLevel) : Book :=
  (b.takeLevelCopy l).insertDiff s l.price (b.diffCopy l).markAllDeleted

/-- The branch for levels of one price and different sizes. -/
def diffChanged (b : Book) (s : BookSide) (l r : PriceLevel) : Option Book :=
  ((PriceLevel.new (b.fresh 0) 0 .bid).setAsDifference l r).map fun diff =>
    { b with nextRef := b.nextRef + 1 }.insertDiff s l.price diff

/-- `determineDiffs`.  There is no result where a branch moves an iterator past its end or reads
a level there. -/
def determineDiffs (b : Book) (s : BookSide) (lhs rhs : List PriceLevel) : Option Book :=
  match lhs, rhs with
  | [], [] => some b
  | [], r :: rhs =>
    if diffBranch none (some r) = .onlyRhs then (b.diffAdded s r).determineDiffs s [] rhs
    else none
  | l :: lhs, [] =>
    if diffBranch (some l) none = .onlyLhs then (b.diffDeleted s l).determineDiffs s lhs []
    else none
  | l :: lhs, r :: rhs =>
    match diffBranch (some l) (some r) with
    | .same => b.determineDiffs s lhs rhs
    | .changed => (b.diffChanged s l r).bind fun b => b.determineDiffs s lhs rhs
    | .onlyRhs => (b.diffAdded s r).determineDiffs s (l :: lhs) rhs
    | .onlyLhs => (b.diffDeleted s l).determineDiffs s lhs (r :: rhs)
termination_by lhs.length + rhs.length

def setAsDeltaDifference (b lhs rhs : Book) : Option Book :=
  (b.clear.determineDiffs .bid lhs.levels.bid.values rhs.levels.bid.values).bind fun b =>
    b.determineDiffs .ask lhs.levels.ask.values rhs.levels.ask.values

/-! ## Sizes and edits -/

def sizeAt (b : Book) (s : BookSide) (p : Price) : Option Nat := (b.findLevel s p).map size

def sizesOf (ls : List PriceLevel) : List (Price × Nat) := ls.map fun l => (l.price, l.size)

/-- The level carries this edit of the sizes.  An update carries no entries. -/
structure IsEdit (l : PriceLevel) (e : Price × Edit Nat) : Prop where
  price : l.price = e.1
  edit : match e.2 with
    | .put n => l.action = .add ∧ l.size = n
    | .set n => l.action = .update ∧ l.size = n ∧ l.entryList = []
    | .drop => l.action = .delete

variable {l r : PriceLevel}

theorem isEdit_diffCopy (b : Book) (h : l.action = .add) :
    IsEdit (b.diffCopy l) (l.price, .put l.size) := ⟨rfl, h, rfl⟩

theorem isEdit_markAllDeleted (b : Book) (l : PriceLevel) :
    IsEdit (b.diffCopy l).markAllDeleted (l.price, .drop) := ⟨rfl, rfl⟩

theorem setAsDifference_new (ref : Ref) (h : l.price = r.price) :
    ∃ diff, (PriceLevel.new ref 0 .bid).setAsDifference l r = some diff ∧
      IsEdit diff (l.price, .set r.size) := by
  refine ⟨_, if_pos rfl, h.symm, rfl, ?_, rfl⟩
  exact Int.toNat_natCast r.size

/-! ## The loop -/

/-- The loop over the levels of one half ends and appends levels with these edits. -/
def AppendsEdits (b : Book) (s : BookSide) (result : Option Book) (es : List (Price × Edit Nat)) :
    Prop :=
  ∃ d new, result = some d ∧
    (d.levels.get s).toList = (b.levels.get s).toList ++ new ∧
    List.Forall₂ IsEdit (new.map Prod.snd) es ∧
    (∀ t, t ≠ s → d.levels.get t = b.levels.get t) ∧ d.marketOrders = b.marketOrders

variable {b : Book} {s : BookSide}

theorem appendsEdits_nil (b : Book) (s : BookSide) : b.AppendsEdits s (some b) [] :=
  ⟨b, [], rfl, (append_nil _).symm, List.Forall₂.nil, fun _ _ => rfl, rfl⟩

variable {p : Price} {ls : List PriceLevel}

theorem toList_insertDiff (h : ∀ a ∈ (b.levels.get s).toList, a.1 < p) (l : PriceLevel) (n : Nat) :
    (({ b with nextRef := n }.insertDiff s p l).levels.get s).toList =
      (b.levels.get s).toList ++ [(p, l)] := by
  have hnone : ({ b with nextRef := n } : Book).findLevel s p = none :=
    SortedMap.findList_eq_none fun a ha => (h a ha).ne'
  rw [insertDiff, hnone]
  show ((b.levels.set s ((b.levels.get s).insert p l)).get s).toList = _
  rw [Sides.get_set, if_pos rfl]
  exact SortedMap.insertList_last h l

variable {es : List (Price × Edit Nat)}

theorem AppendsEdits.insert {e : Edit Nat} {n : Nat} {result : Option Book}
    (hbelow : ∀ a ∈ (b.levels.get s).toList, a.1 < p) (hl : IsEdit l (p, e))
    (h : AppendsEdits ({ b with nextRef := n }.insertDiff s p l) s result es) :
    b.AppendsEdits s result ((p, e) :: es) := by
  obtain ⟨d, new, hd, hlist, hedits, hother, hmarket⟩ := h
  have hnone : ({ b with nextRef := n } : Book).findLevel s p = none :=
    SortedMap.findList_eq_none fun a ha => (hbelow a ha).ne'
  have hput : ({ b with nextRef := n } : Book).insertDiff s p l =
      ({ b with nextRef := n } : Book).putLevel (.limit s p) l := by
    rw [insertDiff, hnone]
  refine ⟨d, (p, l) :: new, hd, ?_, List.Forall₂.cons hl hedits, ?_, ?_⟩
  · rw [hlist, toList_insertDiff hbelow, append_assoc]; rfl
  · intro t ht
    rw [hother t ht, hput]
    show (b.levels.set s _).get t = _
    rw [Sides.get_set, if_neg ht]
  · rw [hmarket, hput]; rfl

def Ascending (ls : List PriceLevel) : Prop := ls.Pairwise fun l l' => l.price < l'.price

theorem Ascending.cons (h : Ascending (l :: ls)) :
    (∀ l' ∈ ls, l.price < l'.price) ∧ Ascending ls := pairwise_cons.mp h

/-- One side of the loop: the levels left are above those of the result, and none has the price
that stands for the end. -/
structure Ahead (b : Book) (s : BookSide) (ls : List PriceLevel) : Prop where
  ascending : Ascending ls
  notMin : ∀ l ∈ ls, l.price ≠ dblMin
  above : ∀ l ∈ ls, ∀ a ∈ (b.levels.get s).toList, a.1 < l.price

theorem Ahead.tail (h : b.Ahead s (l :: ls)) : b.Ahead s ls :=
  ⟨h.ascending.cons.2, fun l' hl' => h.notMin l' (mem_cons_of_mem _ hl'),
    fun l' hl' => h.above l' (mem_cons_of_mem _ hl')⟩

theorem Ahead.insert (h : b.Ahead s ls) (hp : ∀ l ∈ ls, p < l.price)
    (hbelow : ∀ a ∈ (b.levels.get s).toList, a.1 < p) (z : PriceLevel) (n : Nat) :
    Ahead ({ b with nextRef := n }.insertDiff s p z) s ls := by
  refine ⟨h.ascending, h.notMin, fun l hl a ha => ?_⟩
  rw [toList_insertDiff hbelow] at ha
  rcases mem_append.mp ha with ha | ha
  · exact h.above l hl a ha
  · rw [mem_singleton.mp ha]; exact hp l hl

theorem diffBranch_left (h : l.price ≠ dblMin) : diffBranch (some l) none = .onlyLhs := by
  have hne : priceOr (some l) ≠ priceOr none := h
  rw [diffBranch, if_neg fun hc => hne hc.1, if_neg hne, if_neg]
  rintro (⟨-, hc⟩ | hc)
  · exact hc rfl
  · exact h hc

theorem diffBranch_right (h : r.price ≠ dblMin) : diffBranch none (some r) = .onlyRhs := by
  have hne : priceOr none ≠ priceOr (some r) := Ne.symm h
  unfold diffBranch
  have hend : priceOr none = dblMin := rfl
  rw [if_neg fun hc => hne hc.1, if_neg hne, if_pos (.inr hend)]

theorem diffBranch_both (hl : l.price ≠ dblMin) (hr : r.price ≠ dblMin) :
    diffBranch (some l) (some r) =
      if l.price = r.price then if l.size = r.size then .same else .changed
      else if r.price < l.price then .onlyRhs else .onlyLhs := by
  show (if l.price = r.price ∧ l.size = r.size then DiffBranch.same
    else if l.price = r.price then .changed
    else if (l.price > r.price ∧ r.price ≠ dblMin) ∨ l.price = dblMin then .onlyRhs
    else .onlyLhs) = _
  by_cases hp : l.price = r.price <;> by_cases hs : l.size = r.size <;>
    by_cases hlt : r.price < l.price <;> simp [hp, hl, hr]

theorem determineDiffs_appends (s : BookSide) (lhs rhs : List PriceLevel) (b : Book)
    (hl : b.Ahead s lhs) (hr : b.Ahead s rhs) (hadd : ∀ r ∈ rhs, r.action = .add) :
    b.AppendsEdits s (b.determineDiffs s lhs rhs) (diffSorted (sizesOf lhs) (sizesOf rhs)) := by
  match lhs, rhs with
  | [], [] => rw [determineDiffs, sizesOf, map_nil, diffSorted]; exact appendsEdits_nil b s
  | [], r :: rhs =>
    have hbelow := hr.above r mem_cons_self
    have hnext := determineDiffs_appends s [] rhs (b.diffAdded s r)
      (hl.insert (by simp) hbelow _ _) (hr.tail.insert hr.ascending.cons.1 hbelow _ _)
      fun r' hr' => hadd r' (mem_cons_of_mem _ hr')
    rw [determineDiffs, if_pos (diffBranch_right (hr.notMin r mem_cons_self))]
    have hedits : diffSorted (sizesOf []) (sizesOf (r :: rhs)) =
        (r.price, .put r.size) :: diffSorted (sizesOf []) (sizesOf rhs) := by
      rw [sizesOf, map_nil, diffSorted_nil_left, diffSorted_nil_left]
      rfl
    rw [hedits]
    exact hnext.insert hbelow (isEdit_diffCopy b (hadd r mem_cons_self))
  | l :: lhs, [] =>
    have hbelow := hl.above l mem_cons_self
    have hnext := determineDiffs_appends s lhs [] (b.diffDeleted s l)
      (hl.tail.insert hl.ascending.cons.1 hbelow _ _) (hr.insert (by simp) hbelow _ _) (by simp)
    rw [determineDiffs, if_pos (diffBranch_left (hl.notMin l mem_cons_self))]
    have hedits : diffSorted (sizesOf (l :: lhs)) (sizesOf []) =
        (l.price, .drop) :: diffSorted (sizesOf lhs) (sizesOf []) := by
      rw [sizesOf, sizesOf, map_nil, diffSorted_nil_right, diffSorted_nil_right]
      rfl
    rw [hedits]
    exact hnext.insert hbelow (isEdit_markAllDeleted b l)
  | l :: lhs, r :: rhs =>
    have hbelow := hl.above l mem_cons_self
    have hbelow' := hr.above r mem_cons_self
    have hadd' : ∀ r' ∈ rhs, r'.action = .add := fun r' hr' => hadd r' (mem_cons_of_mem _ hr')
    rw [determineDiffs, diffBranch_both (hl.notMin l mem_cons_self)
      (hr.notMin r mem_cons_self)]
    show AppendsEdits b s _ (diffSorted ((l.price, l.size) :: sizesOf lhs)
      ((r.price, r.size) :: sizesOf rhs))
    rw [diffSorted]
    by_cases hp : l.price = r.price
    · rw [if_pos hp, if_pos hp]
      by_cases hsize : l.size = r.size
      · rw [if_pos hsize, if_pos hsize]
        exact determineDiffs_appends s lhs rhs b hl.tail hr.tail hadd'
      rw [if_neg hsize, if_neg hsize]
      obtain ⟨diff, hdiff, hedit⟩ := setAsDifference_new (b.fresh 0) hp
      rw [diffChanged, hdiff]
      have hnext := determineDiffs_appends s lhs rhs
        ({ b with nextRef := b.nextRef + 1 }.insertDiff s l.price diff)
        (hl.tail.insert hl.ascending.cons.1 hbelow _ _)
        (hr.tail.insert (fun r' hr' => hp ▸ hr.ascending.cons.1 r' hr') hbelow _ _) hadd'
      exact hnext.insert hbelow hedit
    rw [if_neg hp, if_neg hp]
    by_cases hlt : r.price < l.price
    · rw [if_pos hlt, if_pos hlt]
      have hnext := determineDiffs_appends s (l :: lhs) rhs (b.diffAdded s r)
        (hl.insert (fun l' hl' => by
          rcases mem_cons.mp hl' with rfl | hl'
          · exact hlt
          · exact hlt.trans (hl.ascending.cons.1 l' hl')) hbelow' _ _)
        (hr.tail.insert hr.ascending.cons.1 hbelow' _ _) hadd'
      exact hnext.insert hbelow' (isEdit_diffCopy b (hadd r mem_cons_self))
    rw [if_neg hlt, if_neg hlt]
    have hlt' : l.price < r.price := lt_of_le_of_ne (not_lt.mp hlt) hp
    have hnext := determineDiffs_appends s lhs (r :: rhs) (b.diffDeleted s l)
      (hl.tail.insert hl.ascending.cons.1 hbelow _ _)
      (hr.insert (fun r' hr' => by
        rcases mem_cons.mp hr' with rfl | hr'
        · exact hlt'
        · exact hlt'.trans (hr.ascending.cons.1 r' hr')) hbelow _ _) hadd
    exact hnext.insert hbelow (isEdit_markAllDeleted b l)
termination_by lhs.length + rhs.length

/-! ## Applying it -/

theorem sizeAt_putLevel (b : Book) (s t : BookSide) (p q : Price) (l : PriceLevel) :
    (b.putLevel (.limit s p) l).sizeAt t q =
      if t = s ∧ q = p then some l.size else b.sizeAt t q := by
  rw [sizeAt, findLevel_putLevel]
  split <;> rfl

theorem sizeAt_eraseLevel (b : Book) (s t : BookSide) (p q : Price) :
    (b.eraseLevel s p).sizeAt t q = if t = s ∧ q = p then none else b.sizeAt t q := by
  rw [sizeAt, findLevel_eraseLevel]
  split <;> rfl

/-- What an operation that does not throw makes of the sizes of one half; the other half and the
market orders stay. -/
structure Resized (b : Book) (s : BookSide) (r : Outcome) (f : Price → Option Nat) : Prop where
  noThrow : r.2 = none
  here : r.1.sizeAt s = f
  other : ∀ t, t ≠ s → r.1.sizeAt t = b.sizeAt t
  market : r.1.marketOrders = b.marketOrders

theorem resized_applyLevel (c book : Book) (s : BookSide) {e : Price × Edit Nat} (hl : IsEdit l e)
    {x : Option Nat} (hx : e.2.step (c.sizeAt s e.1) = some x) :
    Resized c s (c.applyLevel s book l) (Function.update (c.sizeAt s) e.1 x) := by
  obtain ⟨p, e⟩ := e
  obtain ⟨hp, hedit⟩ := hl
  dsimp only at hp hedit hx ⊢
  subst hp
  unfold applyLevel
  cases e with
  | put n =>
    obtain ⟨haction, rfl⟩ := hedit
    cases hf : c.findLevel s l.price with
    | some l₀ => rw [sizeAt, hf] at hx; cases hx
    | none =>
      rw [sizeAt, hf] at hx
      cases hx
      rw [haction]
      rw [addLevelSide, hf]
      refine ⟨rfl, ?_, ?_, rfl⟩
      · funext q
        show ((c.takeLevelCopy l).putLevel _ (c.newLevelCopy l)).sizeAt s q = _
        rw [sizeAt_putLevel, Function.update_apply]
        by_cases hq : q = l.price
        · rw [if_pos ⟨rfl, hq⟩, if_pos hq]; rfl
        · rw [if_neg fun h => hq h.2, if_neg hq]
          rfl
      · intro t ht
        funext q
        show ((c.takeLevelCopy l).putLevel _ (c.newLevelCopy l)).sizeAt t q = _
        rw [sizeAt_putLevel, if_neg fun h => ht h.1]
        rfl
  | set n =>
    obtain ⟨haction, rfl, hnone⟩ := hedit
    cases hf : c.findLevel s l.price with
    | none => rw [sizeAt, hf] at hx; cases hx
    | some l₀ =>
      rw [sizeAt, hf] at hx
      cases hx
      have hshown : book.shownEntries l = [] := by
        rw [shownEntries, hnone]; rfl
      have hdetails : c.setLevelDetails (.limit s l.price) l =
          c.putLevel (.limit s l.price) (l₀.setDetails l) := by
        show (match c.findLevel s l.price with | some l₁ => _ | none => _) = _
        rw [hf]
      rw [haction]
      rw [applyLevelSide, hf, hshown, applyEntries]
      dsimp only
      rw [hdetails]
      refine ⟨rfl, ?_, ?_, rfl⟩
      · funext q
        rw [sizeAt_putLevel, Function.update_apply]
        by_cases hq : q = l.price
        · rw [if_pos ⟨rfl, hq⟩, if_pos hq]; rfl
        · rw [if_neg fun h => hq h.2, if_neg hq]
      · intro t ht
        funext q
        rw [sizeAt_putLevel, if_neg fun h => ht h.1]
  | drop =>
    cases hf : c.findLevel s l.price with
    | none => rw [sizeAt, hf] at hx; cases hx
    | some l₀ =>
      rw [sizeAt, hf] at hx
      cases hx
      have haction : l.action = .delete := hedit
      rw [haction]
      rw [deleteLevelSide, hf]
      refine ⟨rfl, ?_, ?_, rfl⟩
      · funext q
        show (c.eraseLevel s l.price).sizeAt s q = _
        rw [sizeAt_eraseLevel, Function.update_apply]
        by_cases hq : q = l.price
        · rw [if_pos ⟨rfl, hq⟩, if_pos hq]
        · rw [if_neg fun h => hq h.2, if_neg hq]
      · intro t ht
        funext q
        show (c.eraseLevel s l.price).sizeAt t q = _
        rw [sizeAt_eraseLevel, if_neg fun h => ht h.1]

/-- Levels that carry edits which fit the sizes are applied without an exception, and for the
sizes this is `patch`. -/
theorem resized_applySide (book : Book) (s : BookSide) (h : List.Forall₂ IsEdit ls es) :
    ∀ (c : Book) {f : Price → Option Nat}, patch es (c.sizeAt s) = some f →
      Resized c s (c.applySide s book ls) f := by
  induction h with
  | nil =>
    intro c f hf
    obtain rfl : c.sizeAt s = f := Option.some.inj hf
    exact ⟨rfl, rfl, fun _ _ => rfl, rfl⟩
  | @cons l e ls es hl _ ih =>
    intro c f hf
    obtain ⟨g, hg, hf⟩ := Option.bind_eq_some_iff.mp
      (show (changeAt (fun a : Price × Edit Nat => some a.1) (fun a => a.2.step) (c.sizeAt s)
        e).bind (patch es) = some f from hf)
    obtain ⟨x, hx, rfl⟩ := Option.map_eq_some_iff.mp hg
    have hstep := resized_applyLevel c book s hl hx
    have hresult : c.applyLevel s book l = ((c.applyLevel s book l).1, none) :=
      Prod.ext rfl hstep.noThrow
    have hrest := ih (c.applyLevel s book l).1 (hstep.here ▸ hf)
    rw [applySide, hresult]
    exact ⟨hrest.noThrow, hrest.here, fun t ht => (hrest.other t ht).trans (hstep.other t ht),
      hrest.market.trans hstep.market⟩

/-- The market orders of a book can be applied: they are added where there are none. -/
def MarketFits (b book : Book) (s : BookSide) : Prop :=
  ∀ l, book.marketOrders.get s = some l → b.marketOrders.get s = none ∧ l.action = .add

theorem applyMarketOrders_fits {b book : Book} {s : BookSide} (h : b.MarketFits book s) :
    (b.applyMarketOrders s book).2 = none ∧ (b.applyMarketOrders s book).1.sizeAt = b.sizeAt ∧
      ∀ t, t ≠ s → (b.applyMarketOrders s book).1.marketOrders.get t = b.marketOrders.get t := by
  unfold applyMarketOrders
  cases hm : book.marketOrders.get s with
  | none => exact ⟨rfl, rfl, fun _ _ => rfl⟩
  | some l =>
    obtain ⟨hfree, haction⟩ := h l hm
    dsimp only
    rw [haction]
    rw [applyMarketOrderSide, addMarketOrderLevelSide, hfree]
    refine ⟨rfl, rfl, fun t ht => ?_⟩
    show (b.marketOrders.set s _).get t = _
    rw [Sides.get_set, if_neg ht]

theorem apply_patch {b book : Book} {es : BookSide → List (Price × Edit Nat)}
    {f : BookSide → Price → Option Nat}
    (hes : ∀ s, List.Forall₂ IsEdit (book.levels.get s).values (es s))
    (hf : ∀ s, patch (es s) (b.sizeAt s) = some (f s)) (hm : ∀ s, b.MarketFits book s) :
    (b.apply book).2 = none ∧ (b.apply book).1.sizeAt = f := by
  have hbid := resized_applySide book .bid (hes .bid) { b with symbol := book.symbol } (hf .bid)
  generalize hr₁ : applySide { b with symbol := book.symbol } .bid book book.levels.bid.values = r₁
  have hresult₁ : r₁ = (r₁.1, none) := Prod.ext rfl (hr₁ ▸ hbid.noThrow)
  replace hbid : Resized { b with symbol := book.symbol } .bid r₁ (f .bid) := hr₁ ▸ hbid
  have hask₁ : r₁.1.sizeAt .ask = b.sizeAt .ask := hbid.other .ask (by decide)
  have hask := resized_applySide book .ask (hes .ask) r₁.1 (hask₁ ▸ hf .ask)
  generalize hr₂ : r₁.1.applySide .ask book book.levels.ask.values = r₂
  have hresult₂ : r₂ = (r₂.1, none) := Prod.ext rfl (hr₂ ▸ hask.noThrow)
  replace hask : Resized r₁.1 .ask r₂ (f .ask) := hr₂ ▸ hask
  have hmarket : r₂.1.marketOrders = b.marketOrders := hask.market.trans hbid.market
  have hfits : ∀ s, r₂.1.MarketFits book s := fun s l hl => hmarket ▸ hm s l hl
  obtain ⟨hnone₃, hsize₃, hother₃⟩ := applyMarketOrders_fits (hfits .bid)
  generalize hr₃ : r₂.1.applyMarketOrders .bid book = r₃ at hnone₃ hsize₃ hother₃
  have hresult₃ : r₃ = (r₃.1, none) := Prod.ext rfl hnone₃
  have hfits₃ : r₃.1.MarketFits book .ask := fun l hl => by
    rw [hother₃ .ask (by decide)]; exact hfits .ask l hl
  obtain ⟨hnone₄, hsize₄, -⟩ := applyMarketOrders_fits hfits₃
  generalize hr₄ : r₃.1.applyMarketOrders .ask book = r₄ at hnone₄ hsize₄
  have hresult₄ : r₄ = (r₄.1, none) := Prod.ext rfl hnone₄
  have happly : b.apply book = ({ r₄.1 with partId := book.partId }, none) := by
    rw [apply, hr₁, hresult₁]
    unfold Outcome.andThen
    dsimp only
    rw [hr₂, hresult₂]
    dsimp only
    rw [hr₃, hresult₃]
    dsimp only
    rw [hr₄, hresult₄]
  rw [happly]
  refine ⟨rfl, ?_⟩
  funext s
  show r₄.1.sizeAt s = f s
  rw [hsize₄, hsize₃]
  cases s with
  | bid => exact (hask.other .bid (by decide)).trans hbid.here
  | ask => exact hask.here

/-! ## Books and their difference -/

/-- A book whose levels lie under their prices, as all operations leave them, none of them under
`DBL_MIN`, and carry the action ADD. -/
structure Diffable (b : Book) : Prop where
  keyed : b.AllLevels fun _ p l => l.price = p
  added : b.AllLevels fun _ _ l => l.action = .add
  notMin : b.AllLevels fun _ p _ => p ≠ dblMin
  marketAdded : ∀ s l, b.marketOrders.get s = some l → l.action = .add

section

variable (h : b.Diffable)

include h

theorem Diffable.mem (hl : l ∈ (b.levels.get s).values) : b.findLevel s l.price = some l := by
  obtain ⟨⟨p, l⟩, ha, rfl⟩ := mem_map.mp hl
  have hfind : b.findLevel s p = some l := SortedMap.mem_toList.mp ha
  rwa [h.keyed s p l hfind]

theorem Diffable.sizesOf (s : BookSide) :
    Book.sizesOf (b.levels.get s).values = (b.levels.get s).toList.map fun a =>
      (a.1, a.2.size) := by
  rw [Book.sizesOf, SortedMap.values, map_map]
  refine map_congr_left fun a ha => ?_
  have hp := h.keyed s a.1 a.2 (SortedMap.mem_toList.mp ha)
  exact Prod.ext hp rfl

theorem Diffable.ascending (s : BookSide) : Ascending (b.levels.get s).values := by
  refine pairwise_map.mpr ((b.levels.get s).sorted.imp_of_mem ?_)
  intro x y hx hy hlt
  rwa [h.keyed s x.1 x.2 (SortedMap.mem_toList.mp hx),
    h.keyed s y.1 y.2 (SortedMap.mem_toList.mp hy)]

theorem Diffable.findList (s : BookSide) :
    (fun p => SortedMap.findList p (Book.sizesOf (b.levels.get s).values)) = b.sizeAt s := by
  funext p
  rw [h.sizesOf]
  exact SortedMap.find?_mapVal (b.levels.get s) PriceLevel.size p

theorem Diffable.pairwise (s : BookSide) :
    (Book.sizesOf (b.levels.get s).values).Pairwise fun a b => a.1 < b.1 :=
  pairwise_map.mpr (h.ascending s)

theorem Diffable.isEdit (s : BookSide) :
    List.Forall₂ IsEdit (b.levels.get s).values
      (diffSorted [] (Book.sizesOf (b.levels.get s).values)) := by
  rw [diffSorted_nil_left, Book.sizesOf, map_map]
  refine forall₂_map_right_iff.mpr (forall₂_same.mpr fun l hl => ?_)
  exact ⟨rfl, h.added s l.price l (h.mem hl), rfl⟩

end

theorem copy_sizes {l : Book} (h : l.Diffable) (c₀ : Book) :
    (c₀.copy l).2 = none ∧ (c₀.copy l).1.sizeAt = l.sizeAt := by
  refine apply_patch (fun s => h.isEdit s) (fun s => ?_) fun s m hm => ⟨?_, h.marketAdded s m hm⟩
  · have hpatch := patch_diffSorted [] _ List.Pairwise.nil (h.pairwise s)
    rw [h.findList] at hpatch
    refine Eq.trans (congrArg _ ?_) hpatch
    funext p
    cases s <;> rfl
  · cases s <;> rfl

/-- The difference of two books is determined, and its levels carry the edits from one to the
other. -/
theorem setAsDeltaDifference_edits {l r : Book} (hl : l.Diffable) (hr : r.Diffable) (d₀ : Book) :
    ∃ d, d₀.setAsDeltaDifference l r = some d ∧ d.marketOrders = ⟨none, none⟩ ∧
      ∀ s, List.Forall₂ IsEdit (d.levels.get s).values
        (diffSorted (Book.sizesOf (l.levels.get s).values)
          (Book.sizesOf (r.levels.get s).values)) := by
  have hahead : ∀ {b x : Book}, x.Diffable → ∀ s, (b.levels.get s).toList = [] →
      b.Ahead s (x.levels.get s).values := by
    intro b x hx s hnil
    refine ⟨hx.ascending s, fun y hy => hx.notMin s y.price y (hx.mem hy), fun y _ a ha => ?_⟩
    rw [hnil] at ha
    cases ha
  have hadded : ∀ s, ∀ y ∈ (r.levels.get s).values, y.action = .add := fun s y hy =>
    hr.added s y.price y (hr.mem hy)
  obtain ⟨d₁, new₁, hd₁, hlist₁, hedits₁, hother₁, hmarket₁⟩ :=
    determineDiffs_appends .bid l.levels.bid.values r.levels.bid.values d₀.clear
      (hahead hl .bid rfl) (hahead hr .bid rfl) (hadded .bid)
  have hempty : (d₁.levels.get .ask).toList = [] := by
    rw [hother₁ .ask (by decide)]; rfl
  obtain ⟨d₂, new₂, hd₂, hlist₂, hedits₂, hother₂, hmarket₂⟩ :=
    determineDiffs_appends .ask l.levels.ask.values r.levels.ask.values d₁
      (hahead hl .ask hempty) (hahead hr .ask hempty) (hadded .ask)
  refine ⟨d₂, ?_, hmarket₂.trans hmarket₁, fun s => ?_⟩
  · rw [setAsDeltaDifference, hd₁, Option.bind_some, hd₂]
  · cases s with
    | bid =>
      rw [hother₂ .bid (by decide)]
      rwa [SortedMap.values, hlist₁]
    | ask => rwa [SortedMap.values, hlist₂, hempty]

theorem ne_dblMin (h : p ≤ 0 ∨ 1 ≤ p) : p ≠ dblMin := by
  have hpos : (0 : Price) < dblMin := by
    unfold dblMin
    positivity
  have hlt : dblMin < 1 := by
    unfold dblMin; exact (div_lt_one (by positivity)).mpr (one_lt_pow₀ (by norm_num) (by norm_num))
  rintro rfl
  rcases h with h | h
  · exact absurd hpos (not_lt.mpr h)
  · exact absurd hlt (not_lt.mpr h)

def lhsOps : List EntryOp :=
  [.addEntry true .bid (-1) (Entry.new ⟨9, 0⟩ "a" 5 .add .null none) .null,
    .addEntry true .bid 3 (Entry.new ⟨9, 1⟩ "b" 2 .add .null none) .null,
    .addEntry true .ask 4 (Entry.new ⟨9, 2⟩ "c" 1 .add .null none) .null]

/-- The negative price with another size, the same ask and one more. -/
def rhsOps : List EntryOp :=
  [.addEntry true .bid (-1) (Entry.new ⟨8, 0⟩ "a" 7 .add .null none) .null,
    .addEntry true .ask 4 (Entry.new ⟨8, 1⟩ "c" 1 .add .null none) .null,
    .addEntry true .ask 6 (Entry.new ⟨8, 2⟩ "d" 3 .add .null none) .null]

theorem diffable_of_allLevels
    (h : b.AllLevels fun _ p l => l.price = p ∧ l.action = .add ∧ (p ≤ 0 ∨ 1 ≤ p))
    (hm : b.marketOrders = ⟨none, none⟩) : b.Diffable := by
  refine ⟨fun s p l hl => (h s p l hl).1, fun s p l hl => (h s p l hl).2.1,
    fun s p l hl => ne_dblMin (h s p l hl).2.2, fun s l hl => ?_⟩
  rw [hm] at hl
  cases s <;> cases hl

theorem diffable_lhs : ∃ b, EntryOp.run (Book.start 0 (fun _ => true) false false) lhsOps = some b ∧
    b.Diffable := by
  refine ⟨_, rfl, diffable_of_allLevels (allLevels_of_toList ?_ ?_) rfl⟩ <;> decide +kernel

theorem diffable_rhs : ∃ b, EntryOp.run (Book.start 1 (fun _ => true) false false) rhsOps = some b ∧
    b.Diffable := by
  refine ⟨_, rfl, diffable_of_allLevels (allLevels_of_toList ?_ ?_) rfl⟩ <;> decide +kernel

end Book

end Mamda

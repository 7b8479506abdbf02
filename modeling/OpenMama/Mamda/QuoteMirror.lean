import OpenMama.Lib.TopOfMap
import OpenMama.Mamda.ListenerLevels
import OpenMama.Mamda.QuoteToBook

/-!
# The book of quotes

A side of the book should show the cached quote, as a level of its own, or nothing
where the price or the size is zero (`Mirrors`), and the deltas that the handler was
given since the last recap should account for the change of its total size
(`Accounts`).

`Listener.mirrors_iff_allOk` says which messages keep both (`StepOk`).  A recap adds a level
for any price and size, a size below zero is never shown, and the deltas of a book
that is inconsistent are held back.  A level that is deleted is reported with a size
of zero, since `deleteLevel` clears the size before it reads it.

The proof follows `Shown`, what a side shows: every step of the listener takes one
side from one quote to the next (`Works`), and hidden levels of size zero do not
matter to it.
-/

namespace Mamda

open Mama Lib SortedMap List

/-! ## What a side shows -/

variable {b : Book} {l : PriceLevel} {p : Price} {v : Option (Price × Nat)}

namespace Book

/-- A level is kept under its own price, on its own side. -/
def Keyed (b : Book) : Prop :=
  AllLevels (fun s p l => l.price = p ∧ l.side = s.side ∧ l.orderType = .limit) b

/-- The side shows one level with the price and size of the quote, or none. -/
def Shown (b : Book) (s : BookSide) : Option (Price × Nat) → Prop
  | none => b.visibleLevels s = []
  | some q => ∃ l, b.visibleLevels s = [l] ∧ l.price = q.1 ∧ l.size = q.2

theorem visibleLevels_eq (b : Book) (s : BookSide) :
    ∃ (r : Price → Price → Prop) (all : List (Price × PriceLevel)), (∀ k, ¬ r k k) ∧
      Ranks r (b.levels.get s) all ∧
      b.visibleLevels s = (all.filter fun a => a.2.size ≠ 0).map Prod.snd := by
  cases s with
  | bid =>
    refine ⟨(· > ·), _, fun k => lt_irrefl k, ranks_gt _, ?_⟩
    show ((b.levels.get .bid).toList.map Prod.snd).reverse.filter _ = _
    rw [← map_reverse, filter_map]
    rfl
  | ask =>
    refine ⟨(· < ·), _, fun k => lt_irrefl k, ranks_lt _, ?_⟩
    show ((b.levels.get .ask).toList.map Prod.snd).filter _ = _
    rw [filter_map]
    rfl

theorem shown_none {s : BookSide} :
    b.Shown s none ↔ ∀ p l, b.findLevel s p = some l → l.size = 0 := by
  obtain ⟨r, all, -, hranks, heq⟩ := b.visibleLevels_eq s
  show b.visibleLevels s = [] ↔ _
  rw [heq, map_eq_nil_iff, hranks.filter_eq_nil]
  refine forall_congr' fun p => forall_congr' fun l => ?_
  simp only [decide_not, Bool.not_eq_false', decide_eq_true_eq]
  rfl

theorem shown_of_find {s : BookSide} (hl : b.findLevel s p = some l) (hp : l.price = p)
    (hsize : l.size ≠ 0) (honly : ∀ q l', b.findLevel s q = some l' → l'.size ≠ 0 → q = p) :
    b.Shown s (some (p, l.size)) := by
  obtain ⟨r, all, hirrefl, hranks, heq⟩ := b.visibleLevels_eq s
  have hfilter := hranks.filter_eq_singleton hirrefl (fun a => a.2.size ≠ 0) hl
    (by simpa using hsize) fun q l' hq hpass => honly q l' hq (by simpa using hpass)
  refine ⟨l, ?_, hp, rfl⟩
  rw [heq, hfilter]
  rfl

theorem Shown.find (hb : b.Keyed) {s : BookSide} (h : b.visibleLevels s = [l]) :
    b.findLevel s l.price = some l ∧ l.size ≠ 0 ∧
      ∀ q l', b.findLevel s q = some l' → l'.size ≠ 0 → q = l.price := by
  obtain ⟨r, all, -, hranks, heq⟩ := b.visibleLevels_eq s
  rw [heq] at h
  obtain ⟨⟨p, l₀⟩, hfilter, hl₀⟩ := List.map_eq_singleton_iff.mp h
  obtain rfl : l₀ = l := hl₀
  have hmem : (p, l₀) ∈ all.filter fun a => a.2.size ≠ 0 := by
    rw [hfilter]; exact mem_singleton_self _
  obtain ⟨hall, hsize⟩ := List.mem_filter.mp hmem
  have hfind : b.findLevel s p = some l₀ := hranks.mem.mp hall
  have hp := (hb s p l₀ hfind).1
  refine ⟨hp ▸ hfind, by simpa using hsize, fun q l' hq hsize' => ?_⟩
  have hmem' : (q, l') ∈ all.filter fun a => a.2.size ≠ 0 :=
    List.mem_filter.mpr ⟨hranks.mem.mpr hq, by simpa using hsize'⟩
  rw [hfilter, mem_singleton] at hmem'
  rw [hp]
  exact congrArg Prod.fst hmem'

theorem totalSize_eq (b : Book) (s : BookSide) :
    b.totalSize s = ((b.visibleLevels s).map fun l => (l.size : Int)).sum := by
  have hhidden : ∀ ls : List PriceLevel, (ls.map fun l => (l.size : Int)).sum =
      ((ls.filter fun l => l.size ≠ 0).map fun l => (l.size : Int)).sum := by
    intro ls
    induction ls with
    | nil => rfl
    | cons l ls ih =>
      rw [map_cons, sum_cons, ih]
      by_cases hl : l.size = 0
      · rw [filter_cons_of_neg (by simpa using hl), hl]; simp
      · rw [filter_cons_of_pos (by simpa using hl), map_cons, sum_cons]
  cases s with
  | ask => exact hhidden _
  | bid =>
    show _ = (((b.levels.get .bid).values.reverse.filter _).map _).sum
    rw [← hhidden, map_reverse, sum_reverse]
    rfl

end Book

def quoteSize : Option (Price × Nat) → Int
  | none => 0
  | some q => q.2

theorem Book.Shown.totalSize {s : BookSide} (h : b.Shown s v) : b.totalSize s = quoteSize v := by
  rw [b.totalSize_eq]
  cases v with
  | none => rw [show b.visibleLevels s = [] from h]; rfl
  | some q =>
    obtain ⟨l, hl, -, hsize⟩ := h
    rw [hl]
    simp [quoteSize, hsize]

/-! ## What a side reports -/

def plDeltaSum (s : BookSide) (ds : List BasicDelta) : Int :=
  ((ds.filter fun d => d.level.side = s.side).map fun d => d.plDeltaSize).sum

theorem plDeltaSum_append (s : BookSide) (ds es : List BasicDelta) :
    plDeltaSum s (ds ++ es) = plDeltaSum s ds + plDeltaSum s es := by
  unfold plDeltaSum
  rw [filter_append, map_append, sum_append]

theorem plDeltaSum_singleton {s t : BookSide} {d : BasicDelta} (hd : d.level.side = s.side) :
    plDeltaSum t [d] = if t = s then d.plDeltaSize else 0 := by
  unfold plDeltaSum
  by_cases ht : t = s
  · rw [filter_cons_of_pos (by simp [hd, ht]), if_pos ht]; simp
  · rw [filter_cons_of_neg, if_neg ht]
    · rfl
    · simp only [hd, decide_eq_true_eq]; exact fun h => ht (BookSide.side_injective h).symm

namespace QuoteToBook

variable {n : Int} {y : Listener}
variable {w : Option (Price × Nat)} {b' : Book}

namespace Listener

/-- A step that takes one side to a quote and reports a size for it; nothing else but the book and
the deltas changes. -/
structure Works (x : Listener) (s : BookSide) (v : Option (Price × Nat)) (n : Int)
    (y : Listener) : Prop where
  same : y = { x with book := y.book, delta := y.delta }
  keyed : y.book.Keyed
  shown : y.book.Shown s v
  other : ∀ t, t ≠ s → y.book.levels.get t = x.book.levels.get t
  collects : y.delta.Collects
  waiting : ∀ t, plDeltaSum t y.delta.waiting =
    plDeltaSum t x.delta.waiting + if t = s then n else 0

theorem Works.refl {x : Listener} (hkeyed : x.book.Keyed) (hcollects : x.delta.Collects)
    {s : BookSide} (hshown : x.book.Shown s v) : Works x s v 0 x where
  same := rfl
  keyed := hkeyed
  shown := hshown
  other _ _ := rfl
  collects := hcollects
  waiting t := by simp

variable {z : Listener}

theorem Works.trans {x : Listener} {s : BookSide} {m : Int} (h₁ : Works x s v m y)
    (h₂ : Works y s w n z) : Works x s w (m + n) z where
  same := by
    rw [h₂.same, h₁.same]
  keyed := h₂.keyed
  shown := h₂.shown
  other t ht := (h₂.other t ht).trans (h₁.other t ht)
  collects := h₂.collects
  waiting t := by
    rw [h₂.waiting, h₁.waiting]
    split <;> omega

def HiddenBut (b : Book) (s : BookSide) (p : Price) : Prop :=
  ∀ q l, b.findLevel s q = some l → l.size ≠ 0 → q = p

theorem shown_putLevel {s : BookSide} (hhidden : HiddenBut b s p) (hp : l.price = p) :
    (b.putLevel (.limit s p) l).Shown s (if l.size = 0 then none else some (p, l.size)) := by
  have honly : HiddenBut (b.putLevel (.limit s p) l) s p := by
    intro q l' hq hsize
    rw [Book.findLevel_putLevel] at hq
    by_contra hne
    rw [if_neg (by simp [hne])] at hq
    exact hne (hhidden q l' hq hsize)
  have hself := Book.findLevel_putLevel_self b s p l
  split
  · next hsize =>
    refine Book.shown_none.mpr fun q l' hq => ?_
    by_contra hne
    obtain rfl := honly q l' hq hne
    rw [hself] at hq
    exact hne (Option.some.inj hq ▸ hsize)
  · next hsize => exact Book.shown_of_find hself hp hsize honly

variable {x : Listener} {s : BookSide}

theorem waiting_addDelta (hcollects : x.delta.Collects) (hl : l.side = s.side) (n : Int)
    (action : Action) (t : BookSide) : plDeltaSum t (x.addDelta l n action).delta.waiting =
      plDeltaSum t x.delta.waiting + if t = s then n else 0 := by
  have hwaiting := (hcollects.addDelta ⟨none, l, n, action, .unknown⟩).2
  show plDeltaSum t (x.delta.addDelta _).waiting = _
  rw [hwaiting, plDeltaSum_append, plDeltaSum_singleton hl]

theorem works_putLevel (hcollects : x.delta.Collects) (hkeyed : b.Keyed)
    (hother : ∀ t, t ≠ s → b.levels.get t = x.book.levels.get t)
    (hl : l.side = s.side ∧ l.orderType = .limit) (hhidden : HiddenBut b s l.price) (n : Int)
    (action : Action) : Works x s (if l.size = 0 then none else some (l.price, l.size)) n
      (addDelta { x with book := b.putLevel (.limit s l.price) l } l n action) where
  same := rfl
  keyed := hkeyed.putLevel ⟨rfl, hl⟩
  shown := shown_putLevel hhidden rfl
  other t ht := by
    rw [← hother t ht]
    show (b.levels.set s _).get t = _
    rw [Sides.get_set, if_neg ht]
  collects := (hcollects.addDelta _).1
  waiting t := waiting_addDelta (x := { x with book := b.putLevel (.limit s l.price) l })
    hcollects hl.1 n action t

/-- A size as a level takes it, with its price; nothing when there is none to show. -/
def showOf (p : Price) (n : Int) : Option (Price × Nat) :=
  if n.toNat = 0 then none else some (p, n.toNat)

section

variable (hkeyed : x.book.Keyed)

include hkeyed

section

variable (hcollects : x.delta.Collects)

include hcollects

theorem works_addLevel (hhidden : HiddenBut x.book s p) (n : Int) (t : DateTime) :
    Works x s (showOf p n) n (x.addLevel p n s t) := by
  unfold addLevel Book.findOrCreateLevel
  cases hl : x.book.findLevel s p with
  | some l =>
    obtain ⟨hp, hside⟩ := hkeyed s p l hl
    obtain rfl := hp
    exact works_putLevel (l := (l.setTime t).setSize n) hcollects hkeyed (fun _ _ => rfl) hside
      hhidden n .add
  | none =>
    let l := (PriceLevel.new (x.book.fresh 0) p s.side).setOrderBook x.book.addr
    let b := (({ x.book with nextRef := x.book.nextRef + 1 }).putLevel (.limit s p) l).publish
      none l 0 .add .unknown
    have hb : b.Keyed :=
      Book.AllLevels.putLevel (b := { x.book with nextRef := x.book.nextRef + 1 })
      hkeyed ⟨rfl, rfl, rfl⟩
    have hother : ∀ t, t ≠ s → b.levels.get t = x.book.levels.get t := by
      intro t ht
      show (x.book.levels.set s _).get t = _
      rw [Sides.get_set, if_neg ht]
    have hhidden' : HiddenBut b s p := by
      intro q l' hq hsize
      have hq' : (({ x.book with nextRef := x.book.nextRef + 1 }).putLevel (.limit s p) l).findLevel
        s q = some l' := hq
      rw [Book.findLevel_putLevel] at hq'
      by_contra hne
      rw [if_neg (by simp [hne])] at hq'
      exact hne (hhidden q l' hq' hsize)
    exact works_putLevel (l := (l.setTime t).setSize n) hcollects hb hother
      ⟨rfl, rfl⟩ hhidden' n .add

theorem works_updateLevel (hl : x.book.visibleLevels s = [l]) (n change : Int) (t : DateTime) :
    Works x s (showOf l.price n) change (x.updateLevel l n change s t) := by
  obtain ⟨hfind, -, honly⟩ := Book.Shown.find hkeyed hl
  have hside := (hkeyed s l.price l hfind).2
  exact works_putLevel (l := (l.setTime t).setSize n) hcollects hkeyed (fun _ _ => rfl) hside honly
    change .update

theorem works_deleteLevel
    (hl : x.book.visibleLevels s = [l]) (t : DateTime) : Works x s none 0 (x.deleteLevel l t) := by
  obtain ⟨hfind, -, honly⟩ := Book.Shown.find hkeyed hl
  obtain ⟨-, hside, hlimit⟩ := hkeyed s l.price l hfind
  have hdetach := Book.detachLevel_of_find (l := (l.setTime t).setSize 0) hside hlimit hfind
  have hlevels : (x.deleteLevel l t).book.levels =
      x.book.levels.set s ((x.book.levels.get s).erase l.price) := by
    show (x.book.detachLevel ((l.setTime t).setSize 0)).levels = _
    rw [hdetach]
    rfl
  have hfinds : ∀ u q, (x.deleteLevel l t).book.findLevel u q =
      (x.book.eraseLevel s l.price).findLevel u q := by
    intro u q
    show ((x.deleteLevel l t).book.levels.get u).find? q = _
    rw [hlevels]
    rfl
  refine ⟨rfl, ?_, ?_, fun u hu => ?_, (hcollects.addDelta _).1, fun u => ?_⟩
  · exact hkeyed.detachLevel _
  · refine Book.shown_none.mpr fun q l' hq => ?_
    rw [hfinds, Book.findLevel_eraseLevel] at hq
    by_contra hsize
    by_cases hq' : q = l.price
    · rw [if_pos ⟨rfl, hq'⟩] at hq; cases hq
    · rw [if_neg (by simp [hq'])] at hq; exact hq' (honly q l' hq hsize)
  · rw [hlevels, Sides.get_set, if_neg hu]
  · exact waiting_addDelta
      (l := (l.setTime t).setSize 0) hcollects hside 0 .delete u

end

/-- The quote that a side should show for a price and a size. -/
def held (p : Price) (n : Int) : Option (Price × Nat) :=
  if priceIsZero p then none else showOf p n

omit hkeyed in
theorem held_eq_none_of (h : n = 0 ∨ priceIsZero p) : held p n = none := by
  unfold held showOf
  rcases h with rfl | h
  · split <;> rfl
  · rw [if_pos h]

/-- The size that `handleQuote` reports for a side that showed `v`. -/
def reported (q : Quote) (v : Option (Price × Nat)) : Int :=
  if q.got ∧ ¬ (q.size = 0 ∨ priceIsZero q.price) then
    match v with
    | none => q.size
    | some w => if q.price = w.1 then q.size - w.2 else q.size
  else 0

/-- **One side of a quote**: it shows the cached quote after it, whatever levels are hidden. -/
theorem works_quoteSide (hcollects : x.delta.Collects)
    (hshown : x.book.Shown s v) : Works x s
      (if (x.cache.quotes.get s).got then
        held (x.cache.quotes.get s).price (x.cache.quotes.get s).size else v)
      (reported (x.cache.quotes.get s) v) (x.quoteSide s) := by
  unfold quoteSide reported
  generalize x.cache.quotes.get s = q
  dsimp only
  cases hgot : q.got with
  | false => exact Works.refl hkeyed hcollects hshown
  | true =>
    rw [if_pos rfl]
    have hbool : (decide (q.size = 0) || priceIsZero q.price) = true ↔
        (q.size = 0 ∨ priceIsZero q.price) := by simp
    cases v with
    | none =>
      have hfirst : x.book.firstVisible s = none := by
        rw [Book.firstVisible, show x.book.visibleLevels s = [] from hshown]; rfl
      rw [hfirst]
      by_cases hzero : q.size = 0 ∨ priceIsZero q.price
      · rw [if_neg (by simp [hzero]), if_pos (hbool.mpr hzero), held_eq_none_of hzero]
        exact Works.refl hkeyed hcollects hshown
      · rw [if_pos ⟨rfl, hzero⟩, if_neg (hbool.not.mpr hzero)]
        have hheld : held q.price q.size = showOf q.price q.size := if_neg fun h => hzero (.inr h)
        rw [hheld]
        exact works_addLevel hkeyed hcollects
          (fun p l hl hsize => (hsize (Book.shown_none.mp hshown p l hl)).elim) q.size _
    | some w =>
      obtain ⟨l, hl, hp, hsize⟩ := hshown
      have hfirst : x.book.firstVisible s = some l := by
        rw [Book.firstVisible, hl]; rfl
      have hdelete := works_deleteLevel hkeyed hcollects hl x.cache.quoteTime
      rw [hfirst]
      dsimp only
      by_cases hzero : q.size = 0 ∨ priceIsZero q.price
      · rwa [if_neg (by simp [hzero]), if_pos (hbool.mpr hzero), held_eq_none_of hzero]
      rw [if_pos ⟨rfl, hzero⟩, if_neg (hbool.not.mpr hzero)]
      have hheld : held q.price q.size = showOf q.price q.size := if_neg fun h => hzero (.inr h)
      rw [hheld, ← hp, ← hsize]
      by_cases hprice : q.price = l.price
      · rw [if_pos hprice, if_pos hprice, hprice]
        exact works_updateLevel hkeyed hcollects hl q.size _ _
      · rw [if_neg hprice, if_neg hprice]
        have hadd := works_addLevel hdelete.keyed hdelete.collects (p := q.price)
          (fun p l' hl' hsize' => (hsize' (Book.shown_none.mp hdelete.shown p l' hl')).elim)
          q.size x.cache.quoteTime
        have htrans := hdelete.trans hadd
        rwa [Int.zero_add] at htrans

theorem works_recapSide (hcollects : x.delta.Collects)
    (hempty : x.book.Shown s none) :
    ∃ n, Works x s
      (if (x.cache.quotes.get s).got then
        showOf (x.cache.quotes.get s).price (x.cache.quotes.get s).size else none) n
      (x.recapSide s) := by
  unfold recapSide
  generalize x.cache.quotes.get s = q
  dsimp only
  cases hgot : q.got with
  | false => exact ⟨0, Works.refl hkeyed hcollects hempty⟩
  | true =>
    exact ⟨q.size, works_addLevel hkeyed hcollects
      (fun p l hl hsize => (hsize (Book.shown_none.mp hempty p l hl)).elim) q.size _⟩

/-! ## Both sides -/

structure WorksBoth (x : Listener) (v : BookSide → Option (Price × Nat)) (n : BookSide → Int)
    (y : Listener) : Prop where
  same : y = { x with book := y.book, delta := y.delta }
  keyed : y.book.Keyed
  shown : ∀ s, y.book.Shown s (v s)
  collects : y.delta.Collects
  waiting : ∀ s, plDeltaSum s y.delta.waiting = plDeltaSum s x.delta.waiting + n s

omit hkeyed in
theorem shown_congr {s : BookSide} (h : b.levels.get s = b'.levels.get s) (hshown : b.Shown s v) :
    b'.Shown s v := by
  have hvisible : b'.visibleLevels s = b.visibleLevels s := by
    unfold Book.visibleLevels
    cases s <;> rw [h]
  cases v with
  | none => exact hvisible.trans hshown
  | some q =>
    obtain ⟨l, hl, hq⟩ := hshown
    exact ⟨l, hvisible.trans hl, hq⟩

omit hkeyed in
theorem Works.both {x : Listener} {v : BookSide → Option (Price × Nat)} {n : BookSide → Int}
    (h₁ : Works x .bid (v .bid) (n .bid) y) (h₂ : Works y .ask (v .ask) (n .ask) z) :
    WorksBoth x v n z where
  same := by
    rw [h₂.same, h₁.same]
  keyed := h₂.keyed
  shown s := by
    cases s with
    | bid => exact shown_congr (h₂.other .bid (by decide)).symm h₁.shown
    | ask => exact h₂.shown
  collects := h₂.collects
  waiting s := by
    rw [h₂.waiting, h₁.waiting]
    cases s <;> simp

theorem works_quote (hcollects : x.delta.Collects)
    {v : BookSide → Option (Price × Nat)} (hshown : ∀ s, x.book.Shown s (v s)) :
    WorksBoth x
      (fun s => if (x.cache.quotes.get s).got then
        held (x.cache.quotes.get s).price (x.cache.quotes.get s).size else v s)
      (fun s => reported (x.cache.quotes.get s) (v s)) ((x.quoteSide .bid).quoteSide .ask) := by
  have h₁ := works_quoteSide hkeyed hcollects (hshown .bid)
  have hask := shown_congr (h₁.other .ask (by decide)).symm (hshown .ask)
  have h₂ := works_quoteSide h₁.keyed h₁.collects hask
  have hcache : (x.quoteSide .bid).cache = x.cache := by rw [h₁.same]
  rw [hcache] at h₂
  exact Works.both h₁ h₂

theorem works_recap (hcollects : x.delta.Collects)
    (hempty : ∀ s, x.book.Shown s none) :
    ∃ n, WorksBoth x
      (fun s => if (x.cache.quotes.get s).got then
        showOf (x.cache.quotes.get s).price (x.cache.quotes.get s).size else none) n
      ((x.recapSide .bid).recapSide .ask) := by
  obtain ⟨m, h₁⟩ := works_recapSide hkeyed hcollects (hempty .bid)
  have hask := shown_congr (h₁.other .ask (by decide)).symm (hempty .ask)
  obtain ⟨n, h₂⟩ := works_recapSide h₁.keyed h₁.collects hask
  have hcache : (x.recapSide .bid).cache = x.cache := by rw [h₁.same]
  rw [hcache] at h₂
  exact ⟨fun s => if s = .bid then m else n, Works.both h₁ h₂⟩

end

end Listener

/-! ## Reading a message -/

def Field.price? (s : BookSide) : Field → Option Price
  | .bidPrice p => if s = .bid then some p else none
  | .askPrice p => if s = .ask then some p else none
  | _ => none

def Field.size? (s : BookSide) : Field → Option Int
  | .bidSize n => if s = .bid then some n else none
  | .askSize n => if s = .ask then some n else none
  | _ => none

def Field.count? : Field → Option Nat
  | .quoteCount n => some n
  | _ => none

/-- The last price of a side in a message, or the one there was. -/
def Msg.priceFrom (m : Msg) (s : BookSide) (p : Price) : Price :=
  m.fields.foldl (fun p f => (f.price? s).getD p) p

/-- The last size of a side in a message times the multiplier, or the one there was. -/
def Msg.sizeFrom (m : Msg) (multiplier : Int) (s : BookSide) (n : Int) : Int :=
  m.fields.foldl (fun n f => ((f.size? s).map (· * multiplier)).getD n) n

def Msg.countFrom (m : Msg) (n : Nat) : Nat := m.fields.foldl (fun n f => f.count?.getD n) n

namespace Cache

theorem onField_quote (k : Int) (c : Cache) (f : Field) (s : BookSide) :
    ((c.onField k f).quotes.get s).price = (f.price? s).getD (c.quotes.get s).price ∧
    ((c.onField k f).quotes.get s).size = ((f.size? s).map (· * k)).getD (c.quotes.get s).size ∧
    (((c.onField k f).quotes.get s).got = false → (c.onField k f).quotes.get s = c.quotes.get s) ∧
    (c.onField k f).tmpQuoteCount = f.count?.getD c.tmpQuoteCount ∧
    (c.onField k f).quoteCount = c.quoteCount := by
  have hprice : ∀ (t : BookSide) (p : Price),
      ((c.updatePrice t p).quotes.get s).price = (if s = t then p else (c.quotes.get s).price) ∧
        ((c.updatePrice t p).quotes.get s).size = (c.quotes.get s).size ∧
        (((c.updatePrice t p).quotes.get s).got = false →
          (c.updatePrice t p).quotes.get s = c.quotes.get s) ∧
        (c.updatePrice t p).tmpQuoteCount = c.tmpQuoteCount ∧
        (c.updatePrice t p).quoteCount = c.quoteCount := by
    intro t p
    unfold updatePrice setQuote
    dsimp only
    split
    · next hne =>
      by_cases hs : s = t
      · simp [hs, Quote.got]
      · simp [hs]
    · next heq =>
      have hp : (c.quotes.get t).price = p := not_not.mp heq
      refine ⟨?_, rfl, fun _ => rfl, rfl, rfl⟩
      split
      · next hs => rw [hs, hp]
      · rfl
  have hsize : ∀ (t : BookSide) (n : Int),
      ((c.updateSize k t n).quotes.get s).price = (c.quotes.get s).price ∧
        ((c.updateSize k t n).quotes.get s).size =
          (if s = t then n * k else (c.quotes.get s).size) ∧
        (((c.updateSize k t n).quotes.get s).got = false →
          (c.updateSize k t n).quotes.get s = c.quotes.get s) ∧
        (c.updateSize k t n).tmpQuoteCount = c.tmpQuoteCount ∧
        (c.updateSize k t n).quoteCount = c.quoteCount := by
    intro t n
    unfold updateSize setQuote
    dsimp only
    split
    · next hne =>
      by_cases hs : s = t
      · simp [hs, Quote.got]
      · simp [hs]
    · next heq =>
      have hn : (c.quotes.get t).size = n * k := not_not.mp heq
      refine ⟨rfl, ?_, fun _ => rfl, rfl, rfl⟩
      split
      · next hs => rw [hs, hn]
      · rfl
  cases f with
  | bidPrice p =>
    cases s <;> simpa [Field.price?, Field.size?, Field.count?, onField] using hprice .bid p
  | askPrice p =>
    cases s <;> simpa [Field.price?, Field.size?, Field.count?, onField] using hprice .ask p
  | bidSize n =>
    cases s <;> simpa [Field.price?, Field.size?, Field.count?, onField] using hsize .bid n
  | askSize n =>
    cases s <;> simpa [Field.price?, Field.size?, Field.count?, onField] using hsize .ask n
  | quoteTime t => exact ⟨rfl, rfl, fun _ => rfl, rfl, rfl⟩
  | quoteSeqNum n => exact ⟨rfl, rfl, fun _ => rfl, rfl, rfl⟩
  | quoteCount n => exact ⟨rfl, rfl, fun _ => rfl, rfl, rfl⟩

theorem foldl_onField (k : Int) (s : BookSide) (fs : List Field) : ∀ c : Cache,
    ((fs.foldl (onField k) c).quotes.get s).price =
        fs.foldl (fun p f => (f.price? s).getD p) (c.quotes.get s).price ∧
      ((fs.foldl (onField k) c).quotes.get s).size =
        fs.foldl (fun n f => ((f.size? s).map (· * k)).getD n) (c.quotes.get s).size ∧
      (((fs.foldl (onField k) c).quotes.get s).got = false →
        (fs.foldl (onField k) c).quotes.get s = c.quotes.get s) ∧
      (fs.foldl (onField k) c).tmpQuoteCount =
        fs.foldl (fun n f => f.count?.getD n) c.tmpQuoteCount ∧
      (fs.foldl (onField k) c).quoteCount = c.quoteCount := by
  induction fs with
  | nil => exact fun c => ⟨rfl, rfl, fun _ => rfl, rfl, rfl⟩
  | cons f fs ih =>
    intro c
    obtain ⟨hprice, hsize, hquote, htmp, hcount⟩ := c.onField_quote k f s
    obtain ⟨ihprice, ihsize, ihquote, ihtmp, ihcount⟩ := ih (c.onField k f)
    rw [hprice] at ihprice
    rw [hsize] at ihsize
    rw [htmp] at ihtmp
    refine ⟨ihprice, ihsize, fun hgot => ?_, ihtmp, ihcount.trans hcount⟩
    have hrest := ihquote hgot
    have hgot' : ((fs.foldl (onField k) (c.onField k f)).quotes.get s).got = false := hgot
    rw [hrest] at hgot'
    exact hrest.trans (hquote hgot')

end Cache

namespace Listener

theorem updateQuoteFields_quote (x : Listener) (m : Msg) (s : BookSide) :
    ((x.updateQuoteFields m).cache.quotes.get s).price =
        m.priceFrom s (x.cache.quotes.get s).price ∧
      ((x.updateQuoteFields m).cache.quotes.get s).size =
        m.sizeFrom x.settings.quoteSizeMultiplier s (x.cache.quotes.get s).size ∧
      (((x.updateQuoteFields m).cache.quotes.get s).got = false →
        ((x.updateQuoteFields m).cache.quotes.get s).price = (x.cache.quotes.get s).price ∧
          ((x.updateQuoteFields m).cache.quotes.get s).size = (x.cache.quotes.get s).size) ∧
      (x.updateQuoteFields m).cache.tmpQuoteCount = m.countFrom x.cache.tmpQuoteCount ∧
      (x.updateQuoteFields m).cache.quoteCount = x.cache.quoteCount := by
  have hlower : (x.cache.lowerFlags.quotes.get s).price = (x.cache.quotes.get s).price ∧
      (x.cache.lowerFlags.quotes.get s).size = (x.cache.quotes.get s).size := by
    cases s <;> exact ⟨rfl, rfl⟩
  obtain ⟨hprice, hsize, hquote, htmp, hcount⟩ :=
    Cache.foldl_onField x.settings.quoteSizeMultiplier s m.fields x.cache.lowerFlags
  rw [hlower.1] at hprice
  rw [hlower.2] at hsize
  refine ⟨hprice, hsize, fun hgot => ?_, htmp, hcount⟩
  have hsame := hquote hgot
  exact ⟨(congrArg Quote.price hsame).trans hlower.1, (congrArg Quote.size hsame).trans hlower.2⟩

/-! ## What the handler hears -/

/-- What the handler has of a side: its total size in the last recap, and the sizes reported
since. -/
structure Account where
  recapTotal : Int
  sizes : Int

def Account.hear (s : BookSide) (a : Account) : Call → Account
  | .recap b => ⟨b.totalSize s, 0⟩
  | .gap _ _ => a
  | .delta ds => { a with sizes := a.sizes + plDeltaSum s ds }

/-- The account after all calls so far; before the first recap the book has no size. -/
def account (x : Listener) (s : BookSide) : Account := x.calls.foldl (Account.hear s) ⟨0, 0⟩

/-- The side shows the cached quote, and nothing where its price or size is zero. -/
def Mirrors (x : Listener) (s : BookSide) : Prop :=
  let q := x.cache.quotes.get s
  if priceIsZero q.price ∨ q.size = 0 then x.book.visibleLevels s = []
  else ∃ l, x.book.visibleLevels s = [l] ∧ l.price = q.price ∧ (l.size : Int) = q.size

/-- The sizes reported since the last recap are the change of the total size. -/
def Accounts (x : Listener) (s : BookSide) : Prop :=
  (x.account s).sizes = x.book.totalSize s - (x.account s).recapTotal

def Right (x : Listener) : Prop := ∀ s, x.Mirrors s ∧ x.Accounts s

/-! ## The messages that keep it -/

/-- Whether `onMsg` works the message into the book. -/
def accepts (x : Listener) (m : Msg) : Bool :=
  (match m.msgType with
    | .snapshot | .initial | .recap => true
    | _ => x.isQualityOk || x.settings.updateStaleBook) &&
  (!x.isDuplicateMsg m && !x.isTransientMsg m)

/-- Whether the deltas of a quote are handed out: the book is consistent and the count of the
message leaves no gap, or inconsistent books are updated. -/
def handsOut (x : Listener) (m : Msg) : Bool :=
  x.settings.updateInconsistentBook || (x.isConsistent &&
    !countGap { x.cache with tmpQuoteCount := m.countFrom x.cache.tmpQuoteCount } m)

/-- A recap may give a side a quote, or neither a size nor a price. -/
def RecapOk (p : Price) (n : Int) : Prop := if priceIsZero p then n ≤ 0 else 0 ≤ n

/-- A message may take the quote of a side from `p` and `n` to `p'` and `n'`: a quote that is shown
keeps its price and a size, and where the deltas are held back it keeps its size. -/
def QuoteOk (handsOut : Bool) (p : Price) (n : Int) (p' : Price) (n' : Int) : Prop :=
  (priceIsZero p' ∨ 0 ≤ n') ∧
    if handsOut then held p n ≠ none → p' = p ∧ n' ≠ 0
    else quoteSize (held p' n') = quoteSize (held p n)

def StepOk (x : Listener) (m : Msg) : Prop :=
  x.accepts m → ∀ s,
    let q := x.cache.quotes.get s
    let k := x.settings.quoteSizeMultiplier
    if m.msgType.isRecap then RecapOk (m.priceFrom s 0) (m.sizeFrom k s 0)
    else QuoteOk (x.handsOut m) q.price q.size (m.priceFrom s q.price) (m.sizeFrom k s q.size)

theorem shown_unique {s : BookSide} (hv : b.Shown s v) (hw : b.Shown s w) : v = w := by
  cases v with
  | none =>
    cases w with
    | none => rfl
    | some q =>
      obtain ⟨l, hl, -⟩ := hw
      rw [show b.visibleLevels s = [] from hv] at hl
      cases hl
  | some q =>
    obtain ⟨l, hl, hp, hn⟩ := hv
    cases w with
    | none => rw [show b.visibleLevels s = [] from hw] at hl; cases hl
    | some q' =>
      obtain ⟨l', hl', hp', hn'⟩ := hw
      rw [hl] at hl'
      obtain rfl := (List.cons.inj hl').1
      exact congrArg some (Prod.ext (hp.symm.trans hp') (hn.symm.trans hn'))

theorem mirrors_iff {x : Listener} {s : BookSide} (hp : (x.cache.quotes.get s).price = p)
    (hn : (x.cache.quotes.get s).size = n) :
    x.Mirrors s ↔ x.book.Shown s (held p n) ∧ (priceIsZero p ∨ 0 ≤ n) := by
  unfold Mirrors
  dsimp only
  rw [hp, hn]
  by_cases hzero : priceIsZero p ∨ n = 0
  · rw [if_pos hzero, held_eq_none_of hzero.symm]
    constructor
    · intro h; exact ⟨h, hzero.imp_right fun hn => by omega⟩
    · exact fun h => h.1
  rw [if_neg hzero]
  push Not at hzero
  obtain ⟨hnz, hn0⟩ := hzero
  constructor
  · rintro ⟨l, hl, hlp, hln⟩
    have hheld : held p n = some (p, n.toNat) := by
      rw [held, showOf, if_neg hnz, if_neg (by omega)]
    rw [hheld]
    exact ⟨⟨l, hl, hlp, by dsimp only; omega⟩, .inr (by omega)⟩
  rintro ⟨hshown, hpos⟩
  have hpos' : 0 < n := lt_of_le_of_ne (hpos.resolve_left hnz) (Ne.symm hn0)
  have hheld : held p n = some (p, n.toNat) := by
    rw [held, showOf, if_neg hnz, if_neg (by omega)]
  rw [hheld] at hshown
  obtain ⟨l, hl, hlp, hln⟩ := hshown
  exact ⟨l, hl, hlp, by omega⟩

theorem held_of_ne_none (h : held p n ≠ none) :
    priceIsZero p = false ∧ 0 < n ∧ held p n = some (p, n.toNat) := by
  unfold held showOf at h ⊢
  cases hp : priceIsZero p with
  | true => simp [hp] at h
  | false =>
    by_cases hn : n.toNat = 0
    · simp [hn] at h
    · exact ⟨rfl, by omega, by simp [hn]⟩

theorem held_of_pos (hp : priceIsZero p = false) (hn : 0 < n) : held p n = some (p, n.toNat) := by
  rw [held, showOf, hp, if_neg Bool.false_ne_true, if_neg (by omega)]

variable {q : Quote}

/-- **What is reported is right** just where the quote that was shown keeps its price and a
size. -/
theorem reported_iff (hkept : q.got = false → q.price = p ∧ q.size = n)
    (hsized : priceIsZero q.price ∨ 0 ≤ q.size) :
    reported q (held p n) = quoteSize (held q.price q.size) - quoteSize (held p n) ↔
      (held p n ≠ none → q.price = p ∧ q.size ≠ 0) := by
  unfold reported
  by_cases hgot : q.got
  · by_cases hzero : q.size = 0 ∨ priceIsZero q.price
    · rw [if_neg fun h => h.2 hzero, held_eq_none_of hzero]
      constructor
      · intro h hne
        obtain ⟨-, hpos, hheld⟩ := held_of_ne_none hne
        rw [hheld] at h
        simp only [quoteSize] at h
        omega
      intro h
      by_cases hne : held p n = none
      · rw [hne]; rfl
      · obtain ⟨hprice, hsize⟩ := h hne
        obtain ⟨hp, -, -⟩ := held_of_ne_none hne
        rw [← hprice] at hp
        exact (hzero.elim hsize fun h' => by rw [hp] at h'; cases h').elim
    rw [if_pos ⟨hgot, hzero⟩]
    push Not at hzero
    obtain ⟨hsize, hprice⟩ := hzero
    have hpos : 0 < q.size := lt_of_le_of_ne (hsized.resolve_left hprice) (Ne.symm hsize)
    rw [held_of_pos (by simpa using hprice) hpos]
    by_cases hne : held p n = none
    · rw [hne]
      simp only [quoteSize, ne_eq, not_true, false_implies, iff_true]
      omega
    obtain ⟨-, hpos', hheld⟩ := held_of_ne_none hne
    rw [hheld]
    simp only [quoteSize, ne_eq, reduceCtorEq, not_false_eq_true, forall_const]
    by_cases hsame : q.price = p
    · rw [if_pos hsame]
      simp only [hsame, hsize, not_false_eq_true, and_self, iff_true]
      omega
    · rw [if_neg hsame]
      simp only [hsame, false_and, iff_false]
      omega
  · obtain ⟨hprice, hsize⟩ := hkept (by simpa using hgot)
    rw [if_neg fun h => hgot h.1, hprice, hsize]
    have hleft : (0 : Int) = quoteSize (held p n) - quoteSize (held p n) := by omega
    refine iff_of_true hleft fun hne => ⟨rfl, ?_⟩
    obtain ⟨-, hpos, -⟩ := held_of_ne_none hne
    omega

/-! ## One message -/

theorem account_eq {x : Listener} {c : Call} (h : y.calls = x.calls ++ [c]) (s : BookSide) :
    y.account s = (x.account s).hear s c := by
  rw [account, h, foldl_append]
  rfl

theorem checkQuoteCount_spec (x : Listener) (m : Msg) : (x.checkQuoteCount m).book = x.book ∧
    (x.checkQuoteCount m).delta = x.delta ∧ (x.checkQuoteCount m).settings = x.settings ∧
    (x.checkQuoteCount m).cache.quotes = x.cache.quotes ∧
    (x.checkQuoteCount m).isConsistent = (x.isConsistent && !countGap x.cache m) ∧ ∀ s,
    (x.checkQuoteCount m).account s = x.account s := by
  unfold checkQuoteCount
  cases hgap : countGap x.cache m with
  | false => exact ⟨rfl, rfl, rfl, rfl, by simp, fun _ => rfl⟩
  | true =>
    refine ⟨rfl, rfl, rfl, rfl, by simp, fun s => ?_⟩
    refine account_eq (x := x)
      (c := .gap (u32Add x.cache.quoteCount (m.conflateQuoteCount.getD 1))
        (x.cache.tmpQuoteCount - 1)) ?_ s
    rfl

theorem invokeDeltaHandlers_spec {x : Listener} (hcollects : x.delta.Collects) :
    x.invokeDeltaHandlers.book.levels = x.book.levels ∧
      x.invokeDeltaHandlers.cache = x.cache ∧ x.invokeDeltaHandlers.delta.Collects ∧
      ∀ s, x.invokeDeltaHandlers.account s =
        { x.account s with sizes := (x.account s).sizes + plDeltaSum s x.delta.waiting } := by
  unfold invokeDeltaHandlers
  split
  · next hn =>
    have hwaiting : x.delta.waiting = [] := by rw [Publisher.waiting, hn]
    refine ⟨rfl, rfl, hcollects, fun s => ?_⟩
    rw [hwaiting]
    show _ = Account.mk _ (_ + 0)
    rw [Int.add_zero]
  · refine ⟨rfl, rfl, ?_, fun s => ?_⟩
    · dsimp only
      split
      · exact hcollects.restart
      · exact hcollects.clearList.restart
    · refine account_eq (x := x) (c := .delta x.delta.waiting) ?_ s; rfl

theorem keyed_of_levels (h : b'.levels = b.levels) (hb : b.Keyed) : b'.Keyed := by
  intro s p l hl
  have hl' : (b'.levels.get s).find? p = some l := hl
  rw [h] at hl'
  exact hb s p l hl'

theorem handleQuote_spec {x : Listener} (m : Msg) (hkeyed : x.book.Keyed)
    (hcollects : x.delta.Collects) (hwaiting : x.delta.waiting = [])
    {v : BookSide → Option (Price × Nat)} (hshown : ∀ s, x.book.Shown s (v s)) :
    (x.handleQuote m).book.Keyed ∧ (x.handleQuote m).delta.Collects ∧
      (x.handleQuote m).cache.quotes = x.cache.quotes ∧
      ∀ s, (x.handleQuote m).book.Shown s
          (if (x.cache.quotes.get s).got then
            held (x.cache.quotes.get s).price (x.cache.quotes.get s).size else v s) ∧
        (x.handleQuote m).account s = { x.account s with
          sizes := (x.account s).sizes +
            if x.settings.updateInconsistentBook ||
              (x.isConsistent && !countGap x.cache m) then
              reported (x.cache.quotes.get s) (v s) else 0 } := by
  obtain ⟨hbook, hdelta, hsettings, hquotes, hconsistent, haccount⟩ := x.checkQuoteCount_spec m
  have hboth := works_quote (x := x.checkQuoteCount m) (hbook ▸ hkeyed) (hdelta ▸ hcollects)
    (hbook ▸ hshown)
  rw [hquotes] at hboth
  unfold handleQuote
  dsimp only
  generalize hy : ((x.checkQuoteCount m).quoteSide .bid).quoteSide .ask = y at hboth ⊢
  obtain ⟨hsame, hkeyed', hshown', hcollects', hwaiting'⟩ := hboth
  have hcond : (y.settings.updateInconsistentBook || y.isConsistent) =
      (x.settings.updateInconsistentBook || (x.isConsistent && !countGap x.cache m)) := by
    have h₁ : y.settings = (x.checkQuoteCount m).settings := by rw [hsame]
    have h₂ : y.isConsistent = (x.checkQuoteCount m).isConsistent := by rw [hsame]
    rw [h₁, h₂, hsettings, hconsistent]
  have hcalls : ∀ s, y.account s = x.account s := by
    intro s
    rw [← haccount s]
    unfold account
    rw [show y.calls = (x.checkQuoteCount m).calls by rw [hsame]]
  have hcache : y.cache.quotes = x.cache.quotes := by rw [← hquotes, hsame]
  have hsum : ∀ s, plDeltaSum s y.delta.waiting = reported (x.cache.quotes.get s) (v s) := by
    intro s
    rw [hwaiting' s, hdelta, hwaiting]
    exact Int.zero_add _
  rw [hcond]
  split
  · obtain ⟨hlevels, hcache', hcollects'', haccount'⟩ := invokeDeltaHandlers_spec hcollects'
    refine ⟨keyed_of_levels hlevels hkeyed', hcollects'',
      (congrArg Cache.quotes hcache').trans hcache,
      fun s => ⟨shown_congr (congrArg (Sides.get · s) hlevels.symm) (hshown' s), ?_⟩⟩
    rw [haccount' s, hcalls s, hsum s]
  · refine ⟨hkeyed', hcollects', hcache, fun s => ⟨hshown' s, ?_⟩⟩
    rw [hcalls s, Int.add_zero]

theorem handleRecap_spec {x : Listener} (m : Msg) (hcollects : x.delta.Collects) :
    (x.handleRecap m).book.Keyed ∧ (x.handleRecap m).delta.Collects ∧
      ∀ s, ((x.handleRecap m).cache.quotes.get s).price = m.priceFrom s 0 ∧
        ((x.handleRecap m).cache.quotes.get s).size =
          m.sizeFrom x.settings.quoteSizeMultiplier s 0 ∧
        (x.handleRecap m).book.Shown s
          (showOf (m.priceFrom s 0) (m.sizeFrom x.settings.quoteSizeMultiplier s 0)) ∧
        (x.handleRecap m).Accounts s := by
  let x₀ : Listener := { x with
    book := x.book.clear, isConsistent := true, cache := x.cache.clearQuotes }
  let x₁ := x₀.updateQuoteFields m
  obtain ⟨hbook, hdelta, -, hquotes, -, -⟩ := x₁.checkQuoteCount_spec m
  have hnone : ∀ s p, (x.book.clear).findLevel s p = none := by
    intro s p
    cases s <;> rfl
  have hkeyed : (x.book.clear).Keyed := by
    intro s p l hl
    rw [hnone] at hl
    cases hl
  have hempty : ∀ s, (x.book.clear).Shown s none := by
    intro s
    refine Book.shown_none.mpr fun p l hl => ?_
    rw [hnone] at hl
    cases hl
  obtain ⟨n, hboth⟩ := works_recap (x := x₁.checkQuoteCount m) (hbook.symm ▸ hkeyed)
    (hdelta.symm ▸ hcollects) (hbook.symm ▸ hempty)
  rw [hquotes] at hboth
  obtain ⟨hsame, hkeyed', hshown', hcollects', -⟩ := hboth
  have hcache : (((x₁.checkQuoteCount m).recapSide .bid).recapSide .ask).cache.quotes =
      x₁.cache.quotes := by
    rwa [hsame]
  refine ⟨hkeyed', hcollects'.clearList, fun s => ?_⟩
  have hzero : (x₀.cache.quotes.get s).price = 0 ∧ (x₀.cache.quotes.get s).size = 0 := by
    cases s <;> exact ⟨rfl, rfl⟩
  obtain ⟨hprice, hsize, hkept, -⟩ := x₀.updateQuoteFields_quote m s
  rw [hzero.1] at hprice hkept
  rw [hzero.2] at hsize hkept
  refine ⟨?_, ?_, ?_, ?_⟩
  · rw [← hprice]; exact congrArg (fun q : Sides Quote => (q.get s).price) hcache
  · rw [← hsize]; exact congrArg (fun q : Sides Quote => (q.get s).size) hcache
  · have hs := hshown' s
    rw [hprice, hsize] at hs
    cases hgot : (x₁.cache.quotes.get s).got with
    | true => rwa [hgot] at hs
    | false =>
      rw [hgot] at hs
      obtain ⟨-, hn⟩ := hkept hgot
      have hnone' : showOf (m.priceFrom s 0)
          (m.sizeFrom x.settings.quoteSizeMultiplier s 0) = none := by
        have hn' := hsize.symm.trans hn
        rw [hn']
        rfl
      rwa [hnone']
  · rw [Accounts, account_eq (y := x.handleRecap m) rfl s]; exact (Int.sub_self _).symm

theorem mirrors_recap {x : Listener} {s : BookSide} (hp : (x.cache.quotes.get s).price = p)
    (hn : (x.cache.quotes.get s).size = n) (hshown : x.book.Shown s (showOf p n)) :
    x.Mirrors s ↔ RecapOk p n := by
  rw [mirrors_iff hp hn]
  unfold RecapOk held
  cases hzero : priceIsZero p with
  | true =>
    simp only [if_true, true_or, and_true]
    constructor
    · intro hnone
      have hsame := shown_unique hshown hnone
      unfold showOf at hsame
      split at hsame
      · omega
      · cases hsame
    · intro hle
      have hnone : showOf p n = none := if_pos (by omega)
      rwa [← hnone]
  | false => simp only [Bool.false_eq_true, false_or]; exact ⟨fun h => h.2, fun h => ⟨hshown, h⟩⟩

structure Inv (x : Listener) : Prop where
  keyed : x.book.Keyed
  collects : x.delta.Collects

/-- A side that shows the cached quote is right just where the message may take it there. -/
theorem right_quote {x : Listener} {s : BookSide} {hands : Bool}
    (hright : x.Mirrors s ∧ x.Accounts s)
    (hkept : q.got = false → q.price = (x.cache.quotes.get s).price ∧
      q.size = (x.cache.quotes.get s).size)
    (hquote : y.cache.quotes.get s = q)
    (hshown : y.book.Shown s (if q.got then held q.price q.size
      else held (x.cache.quotes.get s).price (x.cache.quotes.get s).size))
    (haccount : y.account s = { x.account s with
      sizes := (x.account s).sizes +
        if hands then reported q (held (x.cache.quotes.get s).price (x.cache.quotes.get s).size)
        else 0 }) :
    y.Mirrors s ∧ y.Accounts s ↔
      QuoteOk hands (x.cache.quotes.get s).price (x.cache.quotes.get s).size q.price q.size := by
  obtain ⟨hmirrors, haccounts⟩ := hright
  obtain ⟨hheld, -⟩ := (mirrors_iff rfl rfl).mp hmirrors
  have hshown' : y.book.Shown s (held q.price q.size) := by
    cases hgot : q.got with
    | true => rwa [hgot, if_pos rfl] at hshown
    | false =>
      obtain ⟨hp, hn⟩ := hkept hgot
      rw [hgot] at hshown
      rwa [hp, hn]
  rw [mirrors_iff (congrArg Quote.price hquote) (congrArg Quote.size hquote)]
  have hbefore : (x.account s).sizes =
      quoteSize (held (x.cache.quotes.get s).price (x.cache.quotes.get s).size) -
        (x.account s).recapTotal := by
    rwa [← hheld.totalSize]
  have hafter : y.Accounts s ↔
      (if hands then
        reported q (held (x.cache.quotes.get s).price (x.cache.quotes.get s).size) else 0) =
      quoteSize (held q.price q.size) -
        quoteSize (held (x.cache.quotes.get s).price (x.cache.quotes.get s).size) := by
    rw [Accounts, haccount, hshown'.totalSize]
    dsimp only
    omega
  rw [and_iff_right hshown', hafter]
  refine and_congr_right fun hsized => ?_
  cases hands with
  | true => exact reported_iff hkept hsized
  | false => simp only [Bool.false_eq_true, if_false]; omega

theorem onMsg_eq (x : Listener) (m : Msg) : x.onMsg m = x.handleRegular m ∧ x.accepts m ∨
    (∃ n, x.onMsg m = { x with cache := { x.cache with quoteCount := n } }) ∧
    x.accepts m = false := by
  have hsame : ∃ n, x = { x with cache := { x.cache with quoteCount := n } } :=
    ⟨x.cache.quoteCount, rfl⟩
  have hmessage : ∀ gate : Bool,
      x.handleMessage m = x.handleRegular m ∧
          (true && (!x.isDuplicateMsg m && !x.isTransientMsg m)) = true ∨
        (∃ n, x.handleMessage m = { x with cache := { x.cache with quoteCount := n } }) ∧
          (gate && (!x.isDuplicateMsg m && !x.isTransientMsg m)) = false := by
    intro gate
    unfold handleMessage
    cases x.isDuplicateMsg m with
    | true => exact .inr ⟨hsame, by simp⟩
    | false =>
      cases x.isTransientMsg m with
      | true => exact .inr ⟨⟨_, rfl⟩, by simp⟩
      | false => exact .inl ⟨rfl, by simp⟩
  unfold onMsg accepts
  cases hgate : (x.isQualityOk || x.settings.updateStaleBook) with
  | true =>
    have hgate' : (!x.isQualityOk && !x.settings.updateStaleBook) = false := by
      rw [← Bool.not_or, hgate]; rfl
    rw [hgate']
    cases m.msgType <;> exact hmessage true
  | false =>
    have hgate' : (!x.isQualityOk && !x.settings.updateStaleBook) = true := by
      rw [← Bool.not_or, hgate]; rfl
    rw [hgate']
    cases m.msgType <;>
      first
      | exact hmessage true
      | exact .inr ⟨hsame, rfl⟩

theorem right_regular {x : Listener} {m : Msg} (hx : x.Inv) (hright : x.Right)
    (hy :
      y = updateQuoteFields { x with delta := { x.delta with currentDeltaCount := 0 } } m ∧
        y.cache.lastGenericMsgWasQuote = false ∨
      y = (updateQuoteFields { x with delta := { x.delta with currentDeltaCount := 0 } }
        m).handleQuote m) :
    y.Inv ∧ (y.Right ↔ ∀ s, QuoteOk (x.handsOut m) (x.cache.quotes.get s).price
      (x.cache.quotes.get s).size (m.priceFrom s (x.cache.quotes.get s).price)
      (m.sizeFrom x.settings.quoteSizeMultiplier s (x.cache.quotes.get s).size)) := by
  let x₁ := updateQuoteFields { x with delta := { x.delta with currentDeltaCount := 0 } } m
  have hfields := updateQuoteFields_quote
    { x with delta := { x.delta with currentDeltaCount := 0 } } m
  have hcollects : x₁.delta.Collects := hx.collects.restart
  have hheld : ∀ s, x₁.book.Shown s
      (held (x.cache.quotes.get s).price (x.cache.quotes.get s).size) :=
    fun s => ((mirrors_iff rfl rfl).mp (hright s).1).1
  have hassembled : ∀ {z : Listener}, (∀ s, z.Mirrors s ∧ z.Accounts s ↔
      QuoteOk (x.handsOut m) (x.cache.quotes.get s).price (x.cache.quotes.get s).size
        (x₁.cache.quotes.get s).price (x₁.cache.quotes.get s).size) →
      (z.Right ↔ ∀ s, QuoteOk (x.handsOut m) (x.cache.quotes.get s).price
        (x.cache.quotes.get s).size (m.priceFrom s (x.cache.quotes.get s).price)
        (m.sizeFrom x.settings.quoteSizeMultiplier s (x.cache.quotes.get s).size)) := by
    intro z hz
    refine forall_congr' fun s => (hz s).trans ?_
    rw [(hfields s).1, (hfields s).2.1]
  rcases hy with ⟨rfl, hquote⟩ | rfl
  · have hgot : ∀ s, (x₁.cache.quotes.get s).got = false := by
      have hboth : (x₁.cache.quotes.bid.got || x₁.cache.quotes.ask.got) = false := hquote
      obtain ⟨hbid, hask⟩ := Bool.or_eq_false_iff.mp hboth
      intro s
      cases s with
      | bid => exact hbid
      | ask => exact hask
    refine ⟨⟨hx.keyed, hcollects⟩, hassembled fun s => ?_⟩
    refine right_quote (hright s) (hfields s).2.2.1 rfl ?_ ?_
    · show x₁.book.Shown s _
      rw [if_neg (by rw [hgot s]; exact Bool.false_ne_true)]
      exact hheld s
    · have hzero : reported (x₁.cache.quotes.get s)
          (held (x.cache.quotes.get s).price (x.cache.quotes.get s).size) = 0 :=
        if_neg fun h => by rw [hgot s] at h; cases h.1
      rw [hzero, ite_self, Int.add_zero]
      rfl
  obtain ⟨hkeyed, hcollects', hquotes, hsides⟩ :=
    handleQuote_spec (x := x₁) m hx.keyed hcollects rfl hheld
  refine ⟨⟨hkeyed, hcollects'⟩, hassembled fun s => ?_⟩
  obtain ⟨hshown, haccount⟩ := hsides s
  refine right_quote (hright s) (hfields s).2.2.1 (congrArg (Sides.get · s) hquotes) hshown ?_
  have hhands : (x₁.settings.updateInconsistentBook ||
      (x₁.isConsistent && !countGap x₁.cache m)) = x.handsOut m := by
    have hgap : countGap x₁.cache m =
        countGap { x.cache with tmpQuoteCount := m.countFrom x.cache.tmpQuoteCount } m := by
      unfold countGap
      rw [(hfields s).2.2.2.1, (hfields s).2.2.2.2]
    rw [hgap]
    rfl
  rwa [hhands] at haccount

/-- **One message** keeps the book right just where `StepOk` says. -/
theorem right_onMsg {x : Listener} (hx : x.Inv) (hright : x.Right) (m : Msg) :
    (x.onMsg m).Inv ∧ ((x.onMsg m).Right ↔ x.StepOk m) := by
  rcases x.onMsg_eq m with ⟨heq, haccepts⟩ | ⟨⟨n, heq⟩, haccepts⟩
  · rw [heq]
    let x₀ : Listener := { x with delta := { x.delta with currentDeltaCount := 0 } }
    have hrecap : (x₀.handleRecap m).Inv ∧ ((x₀.handleRecap m).Right ↔
        ∀ s, RecapOk (m.priceFrom s 0) (m.sizeFrom x.settings.quoteSizeMultiplier s 0)) := by
      obtain ⟨hkeyed, hcollects, hsides⟩ :=
        handleRecap_spec (x := x₀) m hx.collects.restart
      refine ⟨⟨hkeyed, hcollects⟩, forall_congr' fun s => ?_⟩
      obtain ⟨hprice, hsize, hshown, haccounts⟩ := hsides s
      exact (and_iff_left haccounts).trans (mirrors_recap hprice hsize hshown)
    have hquote := right_regular (m := m) hx hright (.inr rfl)
    have hchanged : ∀ y, (y = if (x₀.updateQuoteFields m).cache.lastGenericMsgWasQuote then
        (x₀.updateQuoteFields m).handleQuote m else x₀.updateQuoteFields m) →
        y.Inv ∧ (y.Right ↔ ∀ s, QuoteOk (x.handsOut m) (x.cache.quotes.get s).price
          (x.cache.quotes.get s).size (m.priceFrom s (x.cache.quotes.get s).price)
          (m.sizeFrom x.settings.quoteSizeMultiplier s (x.cache.quotes.get s).size)) := by
      rintro y rfl
      cases hlast : (x₀.updateQuoteFields m).cache.lastGenericMsgWasQuote with
      | true => exact hquote
      | false => exact right_regular hx hright (.inl ⟨rfl, hlast⟩)
    rw [handleRegular, StepOk, haccepts]
    cases m.msgType <;>
      simp
    case initial => exact hrecap
    case recap => exact hrecap
    case preopening => exact hrecap
    case snapshot => exact hrecap
    case quote => exact hquote
    case update => exact hchanged _ rfl
    case trade => exact hchanged _ rfl
  · rw [heq]
    refine ⟨⟨hx.keyed, hx.collects⟩, iff_of_true hright fun h => ?_⟩
    rw [haccepts] at h
    cases h

/-! ## Runs -/

def AllRight : Listener → List Msg → Prop
  | _, [] => True
  | x, m :: ms => (x.onMsg m).Right ∧ AllRight (x.onMsg m) ms

def AllOk : Listener → List Msg → Prop
  | _, [] => True
  | x, m :: ms => x.StepOk m ∧ AllOk (x.onMsg m) ms

theorem allRight_iff (ms : List Msg) : ∀ {x : Listener}, x.Inv → x.Right →
    (x.AllRight ms ↔ x.AllOk ms) := by
  induction ms with
  | nil => exact fun _ _ => Iff.rfl
  | cons m ms ih =>
    intro x hx hright
    obtain ⟨hinv, hiff⟩ := right_onMsg hx hright m
    constructor
    · rintro ⟨hm, hms⟩; exact ⟨hiff.mp hm, (ih hinv hm).mp hms⟩
    · rintro ⟨hm, hms⟩
      have hm' := hiff.mpr hm
      exact ⟨hm', (ih hinv hm').mpr hms⟩

end Listener

def bidRecap : Msg := ⟨.recap, none, none, [.bidPrice 10, .bidSize 5]⟩

def bidGrows : Msg := ⟨.quote, none, none, [.bidSize 7]⟩

def bidGoes : Msg := ⟨.quote, none, none, [.bidSize 0]⟩

def fresh : Listener := .new {} (.new 0 fun _ => true) false true 0

end QuoteToBook

end Mamda

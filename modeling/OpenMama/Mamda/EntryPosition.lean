import Mathlib.Data.List.Nodup
import OpenMama.Mamda.Aggregation
import OpenMama.Mamda.LevelIterators

/-!
# The position of an entry

`getEntryAtPosition` of the book counts down through the levels of a half by
their numbers of entries, and `getPosition` of an entry counts up through them.
Over a book whose levels carry the number of entries they show, both number the
visible entries of the half from its best level on (`visible`), in 32 bits.

`getPosition` clips at the bound it is given only after a whole level: within
the level of the entry it goes on past the bound (`invertible_iff`).
-/

namespace Mamda

open Mama Lib List

namespace PriceLevel

/-! ## Algorithm -/

/-- The loop of `getEntryAtPosition` over the entries of a level, the entries it has passed being
counted in `i`. -/
def entryFrom (counts : Entry → Bool) (pos : Nat) : Nat → List Entry → Option Entry
  | _, [] => none
  | i, e :: es =>
    if !counts e then entryFrom counts pos i es
    else if pos = i then some e
    else entryFrom counts pos (u32Inc i) es

def getEntryAtPosition (counts : Entry → Bool) (l : PriceLevel) (pos : Nat) : Option Entry :=
  match l.entries with
  | none => none
  | some es => entryFrom counts pos 0 es

end PriceLevel

namespace Book

/-- The half a function that only asks for the bid side goes through. -/
def halfOf : Side → BookSide
  | .bid => .bid
  | _ => .ask

/-- The loop of `getEntryAtPosition` over the levels of a half. -/
def entryAmong (b : Book) : Nat → List (Price × PriceLevel) → Option Entry
  | _, [] => none
  | pos, a :: as =>
    if pos ≥ a.2.numEntries then b.entryAmong (pos - a.2.numEntries) as
    else a.2.getEntryAtPosition (b.counts a.2) pos

def getEntryAtPosition (b : Book) (pos : Nat) (side : Side) : Option Entry :=
  b.entryAmong pos (b.shown (halfOf side))

/-- The loop over the entries of the level of the entry at `ref`: where it finds it, or how far it
has counted. -/
def countTo (ref : Ref) : Nat → List Entry → Except Nat Nat
  | pos, [] => .error pos
  | pos, e :: es => if e.ref = ref then .ok pos else countTo ref (u32Inc pos) es

/-- Whether a level at price `p` is behind one at price `own`. -/
def isBehind : BookSide → Price → Price → Bool
  | .bid, own, p => decide (p < own)
  | .ask, own, p => decide (p > own)

/-- The text of the exception for an entry whose level is missing from the half. -/
def behindText : BookSide → String
  | .bid => "MamdaOrderBookEntry::getPosition() (bid)"
  | .ask => "MamdaOrderBookEntry::getPosition() (ask)"

/-- The loop of `getPosition` over the levels of a half. -/
def positionAmong (b : Book) (s : BookSide) (own : PriceLevel) (ref : Ref) (maxPos : Nat) :
    Nat → List (Price × PriceLevel) → Except String Nat
  | _, [] => .error "MamdaOrderBookEntry::getPosition() (not found)"
  | pos, a :: as =>
    if a.2.ref ≠ own.ref then
      if isBehind s own.price a.2.price then .error (behindText s)
      else
        let pos := (pos + a.2.numEntries) % 2 ^ 32
        if maxPos > 0 ∧ pos > maxPos then .ok maxPos
        else b.positionAmong s own ref maxPos pos as
    else
      match countTo ref pos (b.shownEntries a.2) with
      | .ok pos => .ok pos
      | .error pos =>
        if maxPos > 0 ∧ pos > maxPos then .ok maxPos
        else b.positionAmong s own ref maxPos pos as

/-- `getPosition` of an entry whose `mPriceLevel` points at `own`, a level of this book. -/
def getPosition (b : Book) (own : Option PriceLevel) (e : Entry) (maxPos : Nat) :
    Except String Nat :=
  match own with
  | none => .error "MamdaOrderBookEntry::getPosition() (no level)"
  | some l => b.positionAmong (halfOf l.side) l e.ref maxPos 0 (b.shown (halfOf l.side))

/-! ## Specification -/

/-- The visible entries of a half, from its best level on. -/
def visible (b : Book) (s : BookSide) : List Entry :=
  (b.shown s).flatMap fun a => b.shownEntries a.2

/-- The number of visible entries in the levels in front of the one at price `p`. -/
def ahead (b : Book) (s : BookSide) (p : Price) : Nat :=
  (((b.shown s).takeWhile fun a => a.1 != p).flatMap fun a => b.shownEntries a.2).length

/-- The number of visible entries of its level in front of an entry. -/
def rank (b : Book) (l : PriceLevel) (e : Entry) : Nat :=
  (b.shownEntries l).findIdx fun x => x.ref == e.ref

/-- A level of a book whose totals are right: it carries the number of entries it shows, and it and
its entries are what the pointers to them say. -/
structure Aggregated (b : Book) (s : BookSide) (p : Price) (l : PriceLevel) : Prop where
  price : l.price = p
  side : l.side = s.side
  numEntries : l.numEntries = (b.shownEntries l).length
  wired : ∀ e ∈ l.entryList, e.priceLevel = some l.ref
  refs : (l.entryList.map Entry.ref).Nodup
  apart : ∀ q l', b.findLevel s q = some l' → l'.ref = l.ref → q = p

/-- Positions and entries correspond, `e` being an entry of the level `l` of this half. -/
structure Invertible (b : Book) (s : BookSide) (l : PriceLevel) (e : Entry) (maxPos : Nat) :
    Prop where
  there : ∃ pos, b.getPosition (some l) e 0 = .ok pos ∧ b.getEntryAtPosition pos l.side = some e
  back : ∀ pos, pos < 2 ^ 32 → pos < (b.visible s).length → ∃ e' l',
    b.getEntryAtPosition pos s.side = some e' ∧ b.findLevel s l'.price = some l' ∧
      e' ∈ l'.entryList ∧ e'.priceLevel = some l'.ref ∧ b.getPosition (some l') e' 0 = .ok pos
  clipped : ∀ pos, b.getPosition (some l) e 0 = .ok pos →
    b.getPosition (some l) e maxPos = .ok (min pos maxPos)

/-! ## Lemmas -/

variable {rest front : List (Price × PriceLevel)} {pos : Nat}
variable {k : Nat}

section Lemmas

variable {b : Book} {s : BookSide} {p : Price} {l : PriceLevel} {e : Entry}

@[simp] theorem halfOf_side (s : BookSide) : halfOf s.side = s := by
  cases s <;> rfl

theorem entryFrom_eq (counts : Entry → Bool) (hpos : pos < 2 ^ 32) (es : List Entry) {i : Nat}
    (hi : i ≤ pos) : PriceLevel.entryFrom counts pos i es = (es.filter counts)[pos - i]? := by
  induction es generalizing i with
  | nil => rfl
  | cons e es ih =>
    rw [PriceLevel.entryFrom]
    cases hc : counts e with
    | false =>
      rw [if_pos (by decide), ih hi, filter_cons_of_neg (by rw [hc]; exact Bool.false_ne_true)]
    | true =>
      rw [if_neg (by decide), filter_cons_of_pos hc]
      by_cases hpi : pos = i
      · rw [if_pos hpi, hpi, Nat.sub_self]; rfl
      · have hinc : u32Inc i = i + 1 := Nat.mod_eq_of_lt (by omega)
        rw [if_neg hpi, hinc, ih (by omega), show pos - i = pos - (i + 1) + 1 by omega]
        rfl

theorem levelEntryAt_eq (l : PriceLevel) (hpos : pos < 2 ^ 32) :
    l.getEntryAtPosition (b.counts l) pos = (b.shownEntries l)[pos]? := by
  unfold PriceLevel.getEntryAtPosition shownEntries PriceLevel.entryList
  cases l.entries with
  | none => rfl
  | some es => exact entryFrom_eq _ hpos es (Nat.zero_le pos)

theorem entryAmong_eq {as : List (Price × PriceLevel)}
    (h : ∀ a ∈ as, a.2.numEntries = (b.shownEntries a.2).length) (hpos : pos < 2 ^ 32) :
    b.entryAmong pos as = (as.flatMap fun a => b.shownEntries a.2)[pos]? := by
  induction as generalizing pos with
  | nil => rfl
  | cons a as ih =>
    have hnum := h a mem_cons_self
    rw [entryAmong, flatMap_cons, getElem?_append, hnum]
    by_cases hlt : pos < (b.shownEntries a.2).length
    · rw [if_neg (by omega), if_pos hlt]; exact levelEntryAt_eq a.2 hpos
    · rw [if_pos (by omega), if_neg hlt]
      exact ih (fun a' ha' => h a' (mem_cons_of_mem a ha')) (by omega)

theorem countTo_eq {es : List Entry} (hrefs : (es.map Entry.ref).Nodup) (hk : es[k]? = some e)
    (pos : Nat) (hpos : pos < 2 ^ 32) : countTo e.ref pos es = .ok ((pos + k) % 2 ^ 32) := by
  induction es generalizing k pos with
  | nil => cases hk
  | cons x es ih =>
    rw [map_cons, nodup_cons] at hrefs
    rw [countTo]
    cases k with
    | zero =>
      cases hk
      rw [if_pos rfl, Nat.add_zero, Nat.mod_eq_of_lt hpos]
    | succ k =>
      have hmem : e ∈ es := mem_of_getElem? hk
      have hne : x.ref ≠ e.ref := by
        intro heq; exact hrefs.1 (heq ▸ mem_map_of_mem hmem)
      have hlt : u32Inc pos < 2 ^ 32 := Nat.mod_lt _ (by omega)
      rw [if_neg hne, ih hrefs.2 hk _ hlt]
      congr 1
      unfold u32Inc
      omega

def InFront (b : Book) (s : BookSide) (own : PriceLevel) (as : List (Price × PriceLevel)) : Prop :=
  ∀ a ∈ as, a.2.ref ≠ own.ref ∧ isBehind s own.price a.2.price = false ∧
    a.2.numEntries = (b.shownEntries a.2).length

variable {own : PriceLevel} {ref : Ref}

theorem positionAmong_zero (h : b.InFront s own front) (hpos : pos < 2 ^ 32) :
    b.positionAmong s own ref 0 pos (front ++ rest) =
      b.positionAmong s own ref 0
        ((pos + (front.flatMap fun a => b.shownEntries a.2).length) % 2 ^ 32) rest := by
  induction front generalizing pos with
  | nil =>
    show _ = b.positionAmong s own ref 0 ((pos + 0) % 2 ^ 32) rest
    rw [Nat.add_zero, Nat.mod_eq_of_lt hpos]
    rfl
  | cons a front ih =>
    obtain ⟨hne, hbehind, hnum⟩ := h a mem_cons_self
    have hlt : (pos + a.2.numEntries) % 2 ^ 32 < 2 ^ 32 := Nat.mod_lt _ (by omega)
    rw [cons_append, positionAmong, if_pos hne, hbehind, if_neg Bool.false_ne_true]
    rw [if_neg (by omega), ih (fun a' ha' => h a' (mem_cons_of_mem a ha')) hlt,
      flatMap_cons, length_append]
    congr 1
    omega

theorem positionAmong_pos {maxPos : Nat} (hmax : 0 < maxPos) (h : b.InFront s own front)
    (hle : pos ≤ maxPos)
    (hpos : pos + (front.flatMap fun a => b.shownEntries a.2).length < 2 ^ 32) :
    b.positionAmong s own ref maxPos pos (front ++ rest) =
      if maxPos < pos + (front.flatMap fun a => b.shownEntries a.2).length then .ok maxPos
      else b.positionAmong s own ref maxPos
        (pos + (front.flatMap fun a => b.shownEntries a.2).length) rest := by
  induction front generalizing pos with
  | nil =>
    show _ = if maxPos < pos + 0 then _ else b.positionAmong s own ref maxPos (pos + 0) rest
    rw [if_neg (by omega)]
    rfl
  | cons a front ih =>
    obtain ⟨hne, hbehind, hnum⟩ := h a mem_cons_self
    rw [flatMap_cons, length_append] at hpos ⊢
    have hmod : (pos + a.2.numEntries) % 2 ^ 32 = pos + (b.shownEntries a.2).length := by
      rw [hnum]; exact Nat.mod_eq_of_lt (by omega)
    rw [cons_append, positionAmong, if_pos hne, hbehind, if_neg Bool.false_ne_true, hmod]
    by_cases hexceeds : maxPos < pos + (b.shownEntries a.2).length
    · rw [if_pos ⟨hmax, hexceeds⟩, if_pos (by omega)]
    · rw [if_neg (fun hand => hexceeds hand.2),
        ih (fun a' ha' => h a' (mem_cons_of_mem a ha')) (by omega) (by omega), ← Nat.add_assoc]

theorem positionAmong_own {q : Price} {maxPos : Nat} (hrefs : (l.entryList.map Entry.ref).Nodup)
    (hk : (b.shownEntries l)[k]? = some e) (hpos : pos < 2 ^ 32) :
    b.positionAmong s l e.ref maxPos pos ((q, l) :: rest) = .ok ((pos + k) % 2 ^ 32) := by
  have hnodup : ((b.shownEntries l).map Entry.ref).Nodup :=
    hrefs.sublist (filter_sublist.map _)
  rw [positionAmong, if_neg (fun hne => hne rfl), countTo_eq hnodup hk pos hpos]

end Lemmas

/-! ## Positions in a book -/

section Positions

variable {b : Book} {s : BookSide} {p : Price} {l : PriceLevel} {e : Entry}

theorem shown_split (h : (p, l) ∈ b.shown s) : ∃ front rest, b.shown s = front ++ (p, l) :: rest ∧
    front = ((b.shown s).takeWhile fun a => a.1 != p) ∧ ∀ a ∈ front, Better s a.1 p := by
  obtain ⟨front, rest, hsplit⟩ := append_of_mem h
  have hbetter : ∀ a ∈ front, Better s a.1 p := by
    have hpair := b.pairwise_shown s
    rw [hsplit, pairwise_append] at hpair
    intro a ha
    exact hpair.2.2 a ha (p, l) mem_cons_self
  refine ⟨front, rest, hsplit, ?_, hbetter⟩
  have hne : ∀ a ∈ front, (a.1 != p) = true := by
    intro a ha
    have := hbetter a ha
    rw [bne_iff_ne]
    rintro rfl
    cases s <;> exact absurd this (lt_irrefl _)
  rw [hsplit, takeWhile_append_of_pos hne, takeWhile_cons_of_neg (by simp), append_nil]

section

variable (hb : b.AllLevels b.Aggregated)

include hb

theorem inFront_of_split (hsplit : b.shown s = front ++ (p, l) :: rest)
    (hbetter : ∀ a ∈ front, Better s a.1 p) : b.InFront s l front := by
  have hl := hb s p l ((b.mem_shown s).mp (by rw [hsplit]; simp)).1
  intro a ha
  have hmem : a ∈ b.shown s := by
    rw [hsplit]; exact mem_append_left _ ha
  have hfind := ((b.mem_shown s).mp hmem).1
  have ha' := hb s a.1 a.2 hfind
  have hlt := hbetter a ha
  refine ⟨fun heq => ?_, ?_, ha'.numEntries⟩
  · rw [hl.apart a.1 a.2 hfind heq] at hlt
    cases s <;> exact absurd hlt (lt_irrefl _)
  · rw [ha'.price, hl.price]
    cases s with
    | bid => exact decide_eq_false (not_lt_of_gt hlt)
    | ask => exact decide_eq_false (not_lt_of_gt hlt)

theorem getEntryAtPosition_eq (hpos : pos < 2 ^ 32) :
    b.getEntryAtPosition pos s.side = (b.visible s)[pos]? := by
  rw [getEntryAtPosition, visible, halfOf_side]
  exact entryAmong_eq (fun a ha => (hb s a.1 a.2 ((b.mem_shown s).mp ha).1).numEntries) hpos

/-- The positions of an entry, without a bound and with one that is not passed in front of its
level. -/
theorem getPosition_spec (hl : (p, l) ∈ b.shown s) (hk : (b.shownEntries l)[k]? = some e) :
    b.getPosition (some l) e 0 = .ok ((b.ahead s p + k) % 2 ^ 32) ∧
      (b.visible s)[b.ahead s p + k]? = some e ∧
      ∀ maxPos, 0 < maxPos → b.ahead s p + k < 2 ^ 32 → b.getPosition (some l) e maxPos =
        .ok (if maxPos < b.ahead s p then maxPos else b.ahead s p + k) := by
  obtain ⟨front, rest, hsplit, hfront, hbetter⟩ := b.shown_split hl
  have hlevel := hb s p l ((b.mem_shown s).mp hl).1
  have hin := inFront_of_split hb hsplit hbetter
  have hahead : b.ahead s p = (front.flatMap fun a => b.shownEntries a.2).length := by
    rw [ahead, ← hfront]
  have hget : ∀ maxPos, b.getPosition (some l) e maxPos =
      b.positionAmong s l e.ref maxPos 0 (front ++ (p, l) :: rest) := by
    intro maxPos
    show b.positionAmong (halfOf l.side) l e.ref maxPos 0 (b.shown (halfOf l.side)) = _
    rw [hlevel.side, halfOf_side, hsplit]
  have hklt : k < (b.shownEntries l).length := (List.getElem?_eq_some_iff.mp hk).1
  rw [hahead]
  refine ⟨?_, ?_, fun maxPos hmax hlt => ?_⟩
  · rw [hget, positionAmong_zero hin (by omega),
      positionAmong_own hlevel.refs hk (Nat.mod_lt _ (by omega))]
    congr 1
    omega
  · rw [visible, hsplit, flatMap_append, getElem?_append_right (by omega), Nat.add_sub_cancel_left,
      flatMap_cons, getElem?_append_left hklt]
    exact hk
  · rw [hget, positionAmong_pos hmax hin (by omega) (by omega), Nat.zero_add]
    by_cases hexceeds : maxPos < (front.flatMap fun a => b.shownEntries a.2).length
    · rw [if_pos hexceeds, if_pos hexceeds]
    · rw [if_neg hexceeds, if_neg hexceeds, positionAmong_own hlevel.refs hk (by omega),
        Nat.mod_eq_of_lt hlt]

theorem nodup_visible (s : BookSide) : (b.visible s).Nodup := by
  refine nodup_flatMap.mpr ⟨fun a ha => ?_, ?_⟩
  · have hrefs := (hb s a.1 a.2 ((b.mem_shown s).mp ha).1).refs
    exact List.Nodup.of_map _ (hrefs.sublist (filter_sublist.map _))
  -- the entries of different levels are wired to different levels
  refine (b.pairwise_shown s).imp_of_mem fun {a c} ha hc hlt => ?_
  have ha' := hb s a.1 a.2 ((b.mem_shown s).mp ha).1
  have hc' := hb s c.1 c.2 ((b.mem_shown s).mp hc).1
  intro e hea hec
  have hwired := ha'.wired e (mem_filter.mp hea).1
  rw [hc'.wired e (mem_filter.mp hec).1] at hwired
  have hprice := ha'.apart c.1 c.2 ((b.mem_shown s).mp hc).1 (Option.some.inj hwired)
  rw [hprice] at hlt
  cases s <;> exact lt_irrefl _ hlt

end

theorem getElem?_rank (hrefs : (l.entryList.map Entry.ref).Nodup) (he : e ∈ b.shownEntries l) :
    (b.shownEntries l)[b.rank l e]? = some e := by
  have hlt : b.rank l e < (b.shownEntries l).length :=
    findIdx_lt_length_of_exists ⟨e, he, by simp⟩
  have hat : (b.shownEntries l)[b.rank l e].ref = e.ref := by
    have := findIdx_getElem (w := hlt)
    exact beq_iff_eq.mp this
  have hmem : (b.shownEntries l)[b.rank l e] ∈ b.shownEntries l := getElem_mem hlt
  rw [getElem?_eq_getElem hlt]
  exact congrArg some (inj_on_of_nodup_map (hrefs.sublist (filter_sublist.map _)) hmem he
    hat)

end Positions

/-! ## Results -/

theorem exists_of_getElem?_flatMap {α β : Type} {f : α → List β} {as : List α} {n : Nat} {x : β}
    (h : (as.flatMap f)[n]? = some x) : ∃ front a rest k, as = front ++ a :: rest ∧
    (f a)[k]? = some x ∧ n = (front.flatMap f).length + k := by
  induction as generalizing n with
  | nil => cases h
  | cons a as ih =>
    rw [flatMap_cons, getElem?_append] at h
    by_cases hlt : n < (f a).length
    · rw [if_pos hlt] at h; exact ⟨[], a, as, n, rfl, h, (Nat.zero_add n).symm⟩
    · rw [if_neg hlt] at h
      obtain ⟨front, a', rest, k, rfl, hk, hn⟩ := ih h
      refine ⟨a :: front, a', rest, k, rfl, hk, ?_⟩
      rw [flatMap_cons, length_append]
      omega

section Results

variable {b : Book} {s : BookSide} {p : Price} {l : PriceLevel} {e : Entry} {maxPos : Nat}

theorem position_of_entryAt (hb : b.AllLevels b.Aggregated) (s : BookSide) (hpos : pos < 2 ^ 32)
    (hlt : pos < (b.visible s).length) : ∃ e' l', b.getEntryAtPosition pos s.side = some e' ∧
    b.findLevel s l'.price = some l' ∧ e' ∈ l'.entryList ∧ e'.priceLevel = some l'.ref ∧
    b.getPosition (some l') e' 0 = .ok pos := by
  have hat : (b.visible s)[pos]? = some (b.visible s)[pos] := getElem?_eq_getElem hlt
  obtain ⟨front, a, rest, k, hsplit, hk, hn⟩ := exists_of_getElem?_flatMap hat
  have hmem : (a.1, a.2) ∈ b.shown s := by
    rw [hsplit]; simp
  have hfind := ((b.mem_shown s).mp hmem).1
  have hlevel := hb s a.1 a.2 hfind
  have hin := (mem_filter.mp (mem_of_getElem? hk)).1
  obtain ⟨hzero, hindex, -⟩ := getPosition_spec hb hmem hk
  have hsame : b.ahead s a.1 + k = pos :=
    (getElem?_inj (List.getElem?_eq_some_iff.mp hindex).1 (nodup_visible hb s)).mp
      (hindex.trans hat.symm)
  refine ⟨_, a.2, ?_, ?_, hin, hlevel.wired _ hin, ?_⟩
  · rw [getEntryAtPosition_eq hb hpos, hat]
  · rwa [hlevel.price]
  · rw [hzero, hsame, Nat.mod_eq_of_lt hpos]

theorem entryAt_position_iff (hb : b.AllLevels b.Aggregated) (hl : (p, l) ∈ b.shown s)
    (hk : (b.shownEntries l)[k]? = some e) :
    (∃ pos, b.getPosition (some l) e 0 = .ok pos ∧ b.getEntryAtPosition pos l.side = some e) ↔
      b.ahead s p + k < 2 ^ 32 := by
  obtain ⟨hzero, hindex, -⟩ := getPosition_spec hb hl hk
  have hside := (hb s p l ((b.mem_shown s).mp hl).1).side
  have hmod : (b.ahead s p + k) % 2 ^ 32 < 2 ^ 32 := Nat.mod_lt _ (by omega)
  have hat : b.getEntryAtPosition _ s.side = _ := getEntryAtPosition_eq hb hmod
  rw [hside, hzero]
  constructor
  · rintro ⟨pos, hpos, he⟩
    cases hpos
    rw [hat] at he
    have hsame := (getElem?_inj (List.getElem?_eq_some_iff.mp hindex).1
      (nodup_visible hb s)).mp (hindex.trans he.symm)
    omega
  · intro hlt
    refine ⟨_, rfl, ?_⟩
    rw [hat, Nat.mod_eq_of_lt hlt, hindex]

/-- Positions and entries correspond just where the position of the entry fits 32 bits and the bound
is passed in front of the level of the entry or not at all. -/
theorem invertible_iff (hb : b.AllLevels b.Aggregated) (hfind : b.findLevel s p = some l)
    (hsize : l.size ≠ 0) (he : e ∈ l.entryList) (hvisible : b.counts l e) (hmax : 0 < maxPos) :
    b.Invertible s l e maxPos ↔ b.ahead s p + b.rank l e < 2 ^ 32 ∧
    (maxPos < b.ahead s p ∨ b.ahead s p + b.rank l e ≤ maxPos) := by
  have hl : (p, l) ∈ b.shown s := (b.mem_shown s).mpr ⟨hfind, hsize⟩
  have hk := getElem?_rank (hb s p l hfind).refs (mem_filter.mpr ⟨he, hvisible⟩)
  obtain ⟨hzero, -, hbounded⟩ := getPosition_spec hb hl hk
  constructor
  · rintro ⟨hthere, -, hclipped⟩
    have hlt := (entryAt_position_iff hb hl hk).mp hthere
    refine ⟨hlt, ?_⟩
    have := hclipped _ hzero
    rw [hbounded maxPos hmax hlt] at this
    have hmin := Except.ok.inj this
    by_contra hno
    rw [if_neg (by omega)] at hmin
    omega
  rintro ⟨hlt, hbound⟩
  refine ⟨(entryAt_position_iff hb hl hk).mpr hlt,
    fun pos hpos hlen => position_of_entryAt hb s hpos hlen, fun pos hpos => ?_⟩
  rw [hzero, Nat.mod_eq_of_lt hlt] at hpos
  cases hpos
  rw [hbounded maxPos hmax hlt]
  congr 1
  by_cases hexceeds : maxPos < b.ahead s p
  · rw [if_pos hexceeds]; omega
  · rw [if_neg hexceeds]; omega

end Results

/-! ### Three entries at one price -/

def threeFives (i : Nat) : Entry := Entry.new ⟨9, i⟩ "a" 5 .add .null none

def bidOfThree : PriceLevel :=
  let l := (PriceLevel.new ⟨0, 1⟩ 10 .bid).setOrderBook 0
  ((l.addEntry (fun _ => true) (threeFives 0)).addEntry (fun _ => true) (threeFives 1)).addEntry
    (fun _ => true) (threeFives 2)

def threeDeep : Book := (Book.new 0 fun _ => true).putLevel (.limit .bid 10) bidOfThree

def placedFive (i : Nat) : Entry := { threeFives i with priceLevel := some ⟨0, 1⟩ }

theorem threeDeep_aggregated : threeDeep.AllLevels threeDeep.Aggregated := by
  refine AllLevels.putLevel (allLevels_of_empty rfl) ⟨rfl, rfl, rfl, ?_, by decide, ?_⟩
  · intro e he
    revert e
    decide
  · intro q l' hfind _
    unfold threeDeep at hfind
    rw [findLevel_putLevel] at hfind
    split at hfind
    · next h => exact h.2
    · cases hfind

/-- Bounded by 2, the position of the third entry is 2. -/
theorem invertible_third : threeDeep.Invertible .bid bidOfThree (placedFive 2) 2 := by
  refine (invertible_iff threeDeep_aggregated (findLevel_putLevel_self _ _ _ _) (by decide)
    (by decide) rfl (by decide)).mpr ⟨by decide +kernel, .inr (by decide +kernel)⟩

/-- Bounded by 1, the position of the third entry is still 2. -/
theorem not_invertible : threeDeep.AllLevels threeDeep.Aggregated ∧ bidOfThree.size ≠ 0 ∧
    placedFive 2 ∈ bidOfThree.entryList ∧
    threeDeep.getPosition (some bidOfThree) (placedFive 2) 0 = .ok 2 ∧
    threeDeep.getPosition (some bidOfThree) (placedFive 2) 1 = .ok 2 ∧
    ¬ threeDeep.Invertible .bid bidOfThree (placedFive 2) 1 := by
  refine ⟨threeDeep_aggregated, by decide, by decide, rfl, rfl, fun h => ?_⟩
  have hclipped : threeDeep.getPosition (some bidOfThree) (placedFive 2) 1 = .ok 1 :=
    h.clipped 2 rfl
  cases Except.ok.inj hclipped

end Book

end Mamda

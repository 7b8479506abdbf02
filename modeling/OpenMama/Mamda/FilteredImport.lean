import OpenMama.Mamda.BookLevels

/-!
# Importing the entries of another book

`addEntriesFromBook` with a list that collects deltas.  Each entry of the other book is
copied and the filter is asked about the copy; `Offer` is what it is asked, with the level
that the copy would go to.

The entries that come to the book are the accepted ones (`Imports.entries`).  The delta of
the list is added behind both branches, for a rejected copy as well: the list reports just
what was added if and only if nothing was rejected (`reportsImport_iff`).

A list that conflates levels keeps one delta for a price whatever is added; the lists here
are the ones that keep what is added (`DeltaList.Separate`).
-/

namespace Mamda

open Mama Lib List

/-! ## Algorithm -/

namespace Book

/-- One entry of `addEntriesFromLevel`, which is copied and added or deleted. -/
def addEntryFromLevel (s : BookSide) (p : Price) (filter : Entry → Bool) (r : Book × DeltaList)
    (e : Entry) : Book × DeltaList :=
  let copyEntry := e.copyAt (r.1.fresh 0)
  let b := { r.1 with nextRef := r.1.nextRef + 1 }
  match b.findLevel s p with
  | none => (b, r.2)
  | some l =>
    if filter copyEntry then
      let copyEntry := { copyEntry with action := .add }
      let l' := l.addEntry (b.counts l) copyEntry
      (b.levelAddEntry (.limit s p) l copyEntry,
        r.2.add ⟨some { copyEntry with priceLevel := some l.ref }, l', e.size, .add, .add⟩)
    else (b, r.2.add ⟨some copyEntry, l, e.size, .add, .add⟩)

/-- One level of `addEntriesFromBook`. -/
def addEntriesFromLevelDelta (filter : Entry → Bool) (s : BookSide) (r : Book × DeltaList)
    (bookLevel : PriceLevel) : Book × DeltaList :=
  let b := (r.1.findOrCreateLevel s bookLevel.price bookLevel.side).1
  match bookLevel.entries with
  | none => (b, r.2)
  | some es =>
    let r := es.foldl (addEntryFromLevel s bookLevel.price filter) (b, r.2)
    match r.1.findLevel s bookLevel.price with
    | some l => (r.1.putLevel (.limit s bookLevel.price) (l.setTime bookLevel.time), r.2)
    | none => r

/-- `addEntriesFromBook` with a list of deltas; a book added to itself does not return. -/
def addEntriesFromBookDelta (b book : Book) (filter : Entry → Bool) (delta : DeltaList) :
    Option (Book × DeltaList) :=
  if book.addr = b.addr then none
  else
    let r := book.levels.bid.values.foldl (addEntriesFromLevelDelta filter .bid) (b, delta)
    some (book.levels.ask.values.foldl (addEntriesFromLevelDelta filter .ask) r)

def entriesAt (b : Book) (s : BookSide) (p : Price) : List Entry :=
  ((b.findLevel s p).map PriceLevel.entryList).getD []

def refAt (b : Book) (s : BookSide) (p : Price) : Option Ref :=
  (b.findLevel s p).map PriceLevel.ref

end Book

/-! ## What the filter is asked -/

/-- A copy that the filter is asked about, and the level that it would go to. -/
structure Offer where
  copy : Entry
  side : BookSide
  price : Price
  level : Ref

structure Report where
  entry : Option Ref
  level : Ref
  plDeltaSize : Int
  plAction : Action
  entryAction : Action
  deriving DecidableEq

def BasicDelta.report (d : BasicDelta) : Report :=
  ⟨d.entryRef, d.level.ref, d.plDeltaSize, d.plAction, d.entryAction⟩

namespace Offer

def added (o : Offer) : Entry := { o.copy with action := .add, priceLevel := some o.level }

def report (o : Offer) : Report := ⟨some o.copy.ref, o.level, o.copy.size, .add, .add⟩

/-- The copies of a level, from the address `n` on. -/
def ofLevel (addr n : Nat) (s : BookSide) (level : Ref) (l : PriceLevel) : List Offer :=
  l.entryList.mapIdx fun i e => ⟨e.copyAt ⟨addr, n + i⟩, s, l.price, level⟩

/-- The address of the level that entries at a price go to, and the next one that is free. -/
def target (addr n : Nat) (level : Option Ref) : Ref × Nat :=
  match level with
  | some level => (level, n)
  | none => (⟨addr, n⟩, n + 1)

/-- The copies of one half of a book, and the next address that is free. -/
def ofSide (addr : Nat) (s : BookSide) (refs : Price → Option Ref) (n : Nat) :
    List PriceLevel → List Offer × Nat
  | [] => ([], n)
  | l :: ls =>
    let t := target addr n (refs l.price)
    let rest := ofSide addr s (Function.update refs l.price (some t.1))
      (t.2 + l.entryList.length) ls
    (ofLevel addr t.2 s t.1 l ++ rest.1, rest.2)

end Offer

namespace Book

/-- What the filter is asked when `book` is added to `b`. -/
def offers (b book : Book) : List Offer :=
  let bid := Offer.ofSide b.addr .bid (b.refAt .bid) b.nextRef book.levels.bid.values
  bid.1 ++ (Offer.ofSide b.addr .ask (b.refAt .ask) bid.2 book.levels.ask.values).1

def accepted (b book : Book) (filter : Entry → Bool) : List Offer :=
  (b.offers book).filter fun o => filter o.copy

def addedAt (os : List Offer) (s : BookSide) (p : Price) : List Entry :=
  (os.filter fun o => decide (o.side = s ∧ o.price = p)).map Offer.added

/-- The accepted entries come to the levels of the book, nothing else does, and the list has one
more delta for each of them. -/
structure ReportsImport (b book : Book) (filter : Entry → Bool) (x : DeltaList)
    (r : Book × DeltaList) : Prop where
  entries : ∀ s p, r.1.entriesAt s p = b.entriesAt s p ++ addedAt (b.accepted book filter) s p
  levels : ∀ o ∈ b.accepted book filter, r.1.refAt o.side o.price = some o.level
  deltas : (r.2.toList.map BasicDelta.report).Perm
    (x.toList.map BasicDelta.report ++ (b.accepted book filter).map Offer.report)

end Book

/-! ## Lists of deltas -/

variable {x : DeltaList}

namespace DeltaList

structure Separate (x : DeltaList) : Prop where
  keeps : x.keepDeltas
  entries : x.conflateDeltas → x.processEntries

theorem Separate.add (h : x.Separate) {d : BasicDelta} (hd : d.plAction = .add) :
    (x.add d).Separate ∧ (x.add d).toList.Perm (x.toList ++ [d]) := by
  rw [DeltaList.add, if_pos h.keeps]
  cases hconflate : x.conflateDeltas with
  | false =>
    rw [if_neg Bool.false_ne_true]
    refine ⟨⟨h.keeps, nofun⟩, ?_⟩
    unfold DeltaList.toList
    rw [hconflate, if_neg Bool.false_ne_true, if_neg Bool.false_ne_true, Option.getD_some]
  | true =>
    have hentries := h.entries hconflate
    rw [if_pos rfl, if_pos hentries]
    refine ⟨⟨h.keeps, fun _ => hentries⟩, ?_⟩
    have hkept : ∀ kept, conflateEntry kept d = kept ++ [d] := by
      intro kept
      unfold conflateEntry
      cases kept with
      | nil => rfl
      | cons first kept => rw [hd]
    unfold conflateEntryDeltas DeltaList.toList
    dsimp only
    rw [hconflate, hentries, if_pos rfl, if_pos rfl, if_pos rfl, if_pos rfl, hkept]
    cases d.level.deltaSide with
    | bid =>
      have hbid := SortedMap.flatten_insert_append x.entryMaps.bid d.level.price [d]
      refine (hbid.append_right _).trans ?_
      rw [append_assoc, append_assoc]
      exact List.Perm.append_left _ perm_append_comm
    | ask =>
      have hask := SortedMap.flatten_insert_append x.entryMaps.ask d.level.price [d]
      rw [append_assoc]
      exact List.Perm.append_left _ hask

theorem Separate.addAll (h : x.Separate) {ds : List BasicDelta}
    (hds : ∀ d ∈ ds, d.plAction = .add) :
    (x.addAll ds).toList.Perm (x.toList ++ ds) := by
  induction ds generalizing x with
  | nil => rw [append_nil]; rfl
  | cons d ds ih =>
    obtain ⟨hsep, hone⟩ := h.add (hds d mem_cons_self)
    have hrest := ih hsep fun d' hd' => hds d' (mem_cons_of_mem d hd')
    refine hrest.trans ((hone.append_right ds).trans ?_)
    rw [append_assoc]
    rfl

end DeltaList

namespace Book

variable {filter : Entry → Bool} {os os' : List Offer} {r r' r'' : Book × DeltaList}

/-! ## What a part of the import does -/

/-- The offers `os` were made: the accepted copies came to the book, and all of them to the
list. -/
structure Imports (filter : Entry → Bool) (os : List Offer) (r r' : Book × DeltaList) : Prop where
  addr : r'.1.addr = r.1.addr
  entries : ∀ s p, r'.1.entriesAt s p =
    r.1.entriesAt s p ++ addedAt (os.filter fun o => filter o.copy) s p
  stays : ∀ s p ref, r.1.refAt s p = some ref → r'.1.refAt s p = some ref
  levels : ∀ o ∈ os, r'.1.refAt o.side o.price = some o.level
  deltas : ∃ ds, r'.2 = r.2.addAll ds ∧ ds.map BasicDelta.report = os.map Offer.report

theorem Imports.of_eq (haddr : r'.1.addr = r.1.addr)
    (hentries : ∀ s p, r'.1.entriesAt s p = r.1.entriesAt s p)
    (hstays : ∀ s p ref, r.1.refAt s p = some ref → r'.1.refAt s p = some ref)
    (hdeltas : r'.2 = r.2) : Imports filter [] r r' where
  addr := haddr
  entries s p := by
    rw [hentries]; exact (append_nil _).symm
  stays := hstays
  levels o ho := absurd ho not_mem_nil
  deltas := ⟨[], hdeltas, rfl⟩

theorem Imports.trans (h : Imports filter os r r') (h' : Imports filter os' r' r'') :
    Imports filter (os ++ os') r r'' where
  addr := h'.addr.trans h.addr
  entries s p := by
    rw [h'.entries, h.entries, append_assoc, filter_append]
    unfold addedAt
    rw [filter_append, map_append]
  stays s p ref href := h'.stays s p ref (h.stays s p ref href)
  levels o ho := by
    rcases mem_append.mp ho with ho | ho
    · exact h'.stays _ _ _ (h.levels o ho)
    · exact h'.levels o ho
  deltas := by
    obtain ⟨ds, hds, hreports⟩ := h.deltas
    obtain ⟨ds', hds', hreports'⟩ := h'.deltas
    refine ⟨ds ++ ds', ?_, ?_⟩
    · rw [hds', hds]; exact foldl_append.symm
    · rw [map_append, map_append, hreports, hreports']

/-! ## One entry -/

theorem entriesAt_putLevel (b : Book) (s t : BookSide) (p q : Price) (l : PriceLevel) :
    (b.putLevel (.limit s p) l).entriesAt t q =
      if t = s ∧ q = p then l.entryList else b.entriesAt t q := by
  rw [entriesAt, findLevel_putLevel]
  split <;> rfl

theorem refAt_putLevel (b : Book) (s t : BookSide) (p q : Price) (l : PriceLevel) :
    (b.putLevel (.limit s p) l).refAt t q = if t = s ∧ q = p then some l.ref else b.refAt t q := by
  rw [refAt, findLevel_putLevel]
  split <;> rfl

variable {p : Price} {s : BookSide}

theorem refAt_eq_some {b : Book} {ref : Ref} :
    b.refAt s p = some ref ↔ ∃ l, b.findLevel s p = some l ∧ l.ref = ref :=
  Option.map_eq_some_iff

theorem refAt_putLevel_same {b : Book} {l l' : PriceLevel} (hl : b.findLevel s p = some l)
    (href : l'.ref = l.ref) (t : BookSide) (q : Price) :
    (b.putLevel (.limit s p) l').refAt t q = b.refAt t q := by
  rw [refAt_putLevel]
  split
  · next h =>
    obtain ⟨rfl, rfl⟩ := h
    rw [href]
    exact (refAt_eq_some.mpr ⟨l, hl, rfl⟩).symm
  · rfl

theorem findLevel_levelAddEntry (b : Book) (s t : BookSide) (p q : Price) (l : PriceLevel)
    (e : Entry) : (b.levelAddEntry (.limit s p) l e).findLevel t q =
      if t = s ∧ q = p then some (l.addEntry (b.counts l) e) else b.findLevel t q :=
  findLevel_putLevel _ s t p q _

theorem addedAt_singleton (o : Offer) (s : BookSide) (p : Price) :
    addedAt [o] s p = if s = o.side ∧ p = o.price then [o.added] else [] := by
  unfold addedAt
  simp only [filter_cons, decide_eq_true_eq]
  by_cases h : s = o.side ∧ p = o.price
  · rw [if_pos ⟨h.1.symm, h.2.symm⟩, if_pos h]; rfl
  · rw [if_neg fun hc => h ⟨hc.1.symm, hc.2.symm⟩, if_neg h]
    rfl

theorem addEntryFromLevel_spec (filter : Entry → Bool) {level : Ref}
    (h : r.1.refAt s p = some level) (e : Entry) :
    Imports filter [⟨e.copyAt (r.1.fresh 0), s, p, level⟩] r (addEntryFromLevel s p filter r e) ∧
      (addEntryFromLevel s p filter r e).1.nextRef = r.1.nextRef + 1 ∧
      ∀ t q, (addEntryFromLevel s p filter r e).1.refAt t q = r.1.refAt t q := by
  obtain ⟨l, hl, rfl⟩ := refAt_eq_some.mp h
  have hfound : { r.1 with nextRef := r.1.nextRef + 1 }.findLevel s p = some l := hl
  unfold addEntryFromLevel
  dsimp only
  rw [hfound]
  dsimp only
  cases haccept : filter (e.copyAt (r.1.fresh 0)) with
  | false =>
    refine ⟨⟨rfl, fun t q => ?_, fun _ _ _ href => href, ?_, [_], rfl, rfl⟩, rfl, fun _ _ => rfl⟩
    · have hnone : List.filter (fun o : Offer => filter o.copy)
          [⟨e.copyAt (r.1.fresh 0), s, p, l.ref⟩] = [] :=
        filter_cons_of_neg (by rw [haccept]; exact Bool.false_ne_true)
      rw [hnone]
      exact (append_nil _).symm
    · intro o ho
      rwa [mem_singleton.mp ho]
  | true =>
    rw [if_pos rfl]
    have hrefs : ∀ t q, (levelAddEntry { r.1 with nextRef := r.1.nextRef + 1 } (.limit s p) l
        { e.copyAt (r.1.fresh 0) with action := .add }).refAt t q = r.1.refAt t q :=
      refAt_putLevel_same hl rfl
    refine ⟨⟨rfl, fun t q => ?_, fun t q ref href => (hrefs t q).trans href, ?_, [_], rfl, rfl⟩,
      rfl,
      hrefs⟩
    · have hone : List.filter (fun o : Offer => filter o.copy)
          [⟨e.copyAt (r.1.fresh 0), s, p, l.ref⟩] = [⟨e.copyAt (r.1.fresh 0), s, p, l.ref⟩] :=
        filter_cons_of_pos haccept
      rw [hone, addedAt_singleton]
      unfold entriesAt
      rw [findLevel_levelAddEntry]
      split
      · next heq =>
        obtain ⟨rfl, rfl⟩ := heq
        rw [hl]
        rfl
      · exact (append_nil _).symm
    · intro o ho
      rw [mem_singleton.mp ho]
      exact (hrefs s p).trans h

theorem foldl_addEntryFromLevel (filter : Entry → Bool) {level : Ref} (es : List Entry)
    (h : r.1.refAt s p = some level) : Imports filter
        (es.mapIdx fun i e => ⟨e.copyAt ⟨r.1.addr, r.1.nextRef + i⟩, s, p, level⟩) r
        (es.foldl (addEntryFromLevel s p filter) r) ∧
      (es.foldl (addEntryFromLevel s p filter) r).1.nextRef = r.1.nextRef + es.length ∧
      ∀ t q, (es.foldl (addEntryFromLevel s p filter) r).1.refAt t q = r.1.refAt t q := by
  induction es generalizing r with
  | nil => exact ⟨.of_eq rfl (fun _ _ => rfl) (fun _ _ _ href => href) rfl, rfl, fun _ _ => rfl⟩
  | cons e es ih =>
    obtain ⟨hone, hnext, hrefs⟩ := addEntryFromLevel_spec filter h e
    obtain ⟨hrest, hnexts, hrests⟩ := ih ((hrefs s p).trans h)
    rw [foldl_cons]
    refine ⟨?_, ?_, fun t q => (hrests t q).trans (hrefs t q)⟩
    · rw [hone.addr, hnext] at hrest
      have hall := hone.trans hrest
      rw [mapIdx_cons]
      simp only [Nat.add_assoc, Nat.add_comm 1] at hall
      exact hall
    · rw [length_cons]; omega

/-! ## One level and one half of a book -/

theorem findOrCreateLevel_spec (b : Book) (s : BookSide) (p : Price) (side : Side) :
    let t := Offer.target b.addr b.nextRef (b.refAt s p)
    let b' := (b.findOrCreateLevel s p side).1
    b'.addr = b.addr ∧ b'.nextRef = t.2 ∧ (∀ u q, b'.entriesAt u q = b.entriesAt u q) ∧
      ∀ u q, b'.refAt u q = if u = s ∧ q = p then some t.1 else b.refAt u q := by
  intro t b'
  have href : b.refAt s p = (b.findLevel s p).map PriceLevel.ref := rfl
  cases hl : b.findLevel s p with
  | some l =>
    have hb' : b' = b := by
      show (b.findOrCreateLevel s p side).1 = b
      rw [findOrCreateLevel, hl]
    have ht : t = (l.ref, b.nextRef) := by
      show Offer.target b.addr b.nextRef (b.refAt s p) = _
      rw [href, hl]
      rfl
    rw [hb', ht]
    refine ⟨rfl, rfl, fun _ _ => rfl, fun u q => ?_⟩
    split
    · next h => rw [h.1, h.2, href, hl]; rfl
    · rfl
  | none =>
    let new := (PriceLevel.new (b.fresh 0) p side).setOrderBook b.addr
    have hb' : b' = ({ b with nextRef := b.nextRef + 1 }.putLevel (.limit s p) new).publish none new
        0 .add .unknown := by
      show (b.findOrCreateLevel s p side).1 = _
      rw [findOrCreateLevel, hl]
    have ht : t = (b.fresh 0, b.nextRef + 1) := by
      show Offer.target b.addr b.nextRef (b.refAt s p) = _
      rw [href, hl]
      rfl
    rw [hb', ht]
    refine ⟨rfl, rfl, fun u q => ?_, fun u q => refAt_putLevel _ s u p q new⟩
    refine (entriesAt_putLevel { b with nextRef := b.nextRef + 1 } s u p q new).trans ?_
    split
    · next h =>
      rw [h.1, h.2]
      rw [entriesAt, hl]
      rfl
    · rfl

theorem addEntriesFromLevelDelta_spec (filter : Entry → Bool) (s : BookSide) (l : PriceLevel)
    (r : Book × DeltaList) :
    let t := Offer.target r.1.addr r.1.nextRef (r.1.refAt s l.price)
    let r' := addEntriesFromLevelDelta filter s r l
    Imports filter (Offer.ofLevel r.1.addr t.2 s t.1 l) r r' ∧
      r'.1.nextRef = t.2 + l.entryList.length ∧
      ∀ u q, r'.1.refAt u q = if u = s ∧ q = l.price then some t.1 else r.1.refAt u q := by
  intro t r'
  obtain ⟨haddr, hnext, hentries, hrefs⟩ := findOrCreateLevel_spec r.1 s l.price l.side
  have htarget : (r.1.findOrCreateLevel s l.price l.side).1.refAt s l.price = some t.1 := by
    rw [hrefs, if_pos ⟨rfl, rfl⟩]
  have hstays : ∀ u q ref, r.1.refAt u q = some ref →
      (r.1.findOrCreateLevel s l.price l.side).1.refAt u q = some ref := by
    intro u q ref href
    rw [hrefs]
    split
    · next h =>
      obtain ⟨rfl, rfl⟩ := h
      rw [href]
      rfl
    · exact href
  have hcreated : Imports filter [] r ((r.1.findOrCreateLevel s l.price l.side).1, r.2) :=
    .of_eq haddr hentries hstays rfl
  cases hes : l.entries with
  | none =>
    have hr' : r' = ((r.1.findOrCreateLevel s l.price l.side).1, r.2) := by
      show addEntriesFromLevelDelta filter s r l = _
      rw [addEntriesFromLevelDelta, hes]
    have hnil : l.entryList = [] := by
      rw [PriceLevel.entryList, hes]; rfl
    have hno : Offer.ofLevel r.1.addr t.2 s t.1 l = [] := by
      rw [Offer.ofLevel, hnil]; rfl
    rw [hno, hr', hnil]
    exact ⟨hcreated, hnext, hrefs⟩
  | some es =>
    have hlist : l.entryList = es := by
      rw [PriceLevel.entryList, hes]; rfl
    obtain ⟨hloop, hnexts, hrefs'⟩ := foldl_addEntryFromLevel filter
      (r := ((r.1.findOrCreateLevel s l.price l.side).1, r.2)) es htarget
    have hall := hcreated.trans hloop
    generalize hfold : es.foldl (addEntryFromLevel s l.price filter)
      ((r.1.findOrCreateLevel s l.price l.side).1, r.2) = looped at hall hnexts hrefs'
    obtain ⟨l', hl', -⟩ := refAt_eq_some.mp ((hrefs' s l.price).trans htarget)
    have hr' : r' = (looped.1.putLevel (.limit s l.price) (l'.setTime l.time), looped.2) := by
      show addEntriesFromLevelDelta filter s r l = _
      rw [addEntriesFromLevelDelta, hes]
      dsimp only
      rw [hfold, hl']
    have hset : ∀ u q, r'.1.refAt u q = looped.1.refAt u q := by
      rw [hr']; exact refAt_putLevel_same hl' rfl
    have hstamped : Imports filter [] looped r' := by
      refine .of_eq (by rw [hr']; rfl) (fun u q => ?_) (fun u q ref href => (hset u q).trans href)
        (by rw [hr'])
      rw [hr', entriesAt_putLevel]
      split
      · next h =>
        obtain ⟨rfl, rfl⟩ := h
        rw [entriesAt, hl']
        rfl
      · rfl
    refine ⟨?_, ?_, fun u q => (hset u q).trans ((hrefs' u q).trans (hrefs u q))⟩
    · have hwhole := hall.trans hstamped
      rw [Offer.ofLevel, hlist]
      rw [append_nil] at hwhole
      rwa [haddr, hnext] at hwhole
    · rw [hlist]
      have hkept : r'.1.nextRef = looped.1.nextRef := by
        rw [hr']; rfl
      rw [hkept, hnexts, hnext]

theorem foldl_addEntriesFromLevelDelta (filter : Entry → Bool) (s : BookSide)
    (ls : List PriceLevel) (r : Book × DeltaList) :
    let os := Offer.ofSide r.1.addr s (r.1.refAt s) r.1.nextRef ls
    let r' := ls.foldl (addEntriesFromLevelDelta filter s) r
    Imports filter os.1 r r' ∧ r'.1.nextRef = os.2 ∧
      ∀ u q, u ≠ s → r'.1.refAt u q = r.1.refAt u q := by
  induction ls generalizing r with
  | nil => exact ⟨.of_eq rfl (fun _ _ => rfl) (fun _ _ _ href => href) rfl, rfl, fun _ _ _ => rfl⟩
  | cons l ls ih =>
    obtain ⟨hone, hnext, hrefs⟩ := addEntriesFromLevelDelta_spec filter s l r
    obtain ⟨hrest, hnexts, hothers⟩ := ih (addEntriesFromLevelDelta filter s r l)
    have hupdate : (addEntriesFromLevelDelta filter s r l).1.refAt s =
        Function.update (r.1.refAt s) l.price
          (some (Offer.target r.1.addr r.1.nextRef (r.1.refAt s l.price)).1) := by
      funext q
      rw [hrefs, Function.update_apply]
      by_cases hq : q = l.price
      · rw [if_pos ⟨rfl, hq⟩, if_pos hq]
      · rw [if_neg fun h => hq h.2, if_neg hq]
    rw [hone.addr, hnext, hupdate] at hrest hnexts
    refine ⟨hone.trans hrest, hnexts, fun u q hu => (hothers u q hu).trans ?_⟩
    rw [hrefs, if_neg fun h => hu h.1]

theorem addEntriesFromBookDelta_spec {b book : Book} {r : Book × DeltaList}
    (h : b.addEntriesFromBookDelta book filter x = some r) :
    Imports filter (b.offers book) (b, x) r := by
  unfold addEntriesFromBookDelta at h
  split at h
  · cases h
  have hr := Option.some.inj h
  obtain ⟨hbid, hnext, hothers⟩ := foldl_addEntriesFromLevelDelta filter .bid
    book.levels.bid.values (b, x)
  obtain ⟨hask, -, -⟩ := foldl_addEntriesFromLevelDelta filter .ask
    book.levels.ask.values (book.levels.bid.values.foldl (addEntriesFromLevelDelta filter .bid)
      (b, x))
  have hrefs : (book.levels.bid.values.foldl (addEntriesFromLevelDelta filter .bid)
      (b, x)).1.refAt .ask = b.refAt .ask := funext fun q => hothers .ask q nofun
  rw [hbid.addr, hnext, hrefs] at hask
  rw [← hr]
  exact hbid.trans hask

theorem foldl_addEntryFromLevel_fst (s : BookSide) (p : Price) (filter : Entry → Bool)
    (es : List Entry) (r : Book × DeltaList) :
    (es.foldl (addEntryFromLevel s p filter) r).1 = r.1.addEntriesFromLevel s p filter es := by
  induction es generalizing r with
  | nil => rfl
  | cons e es ih =>
    rw [foldl_cons, ih, addEntriesFromLevel]
    congr 1
    unfold addEntryFromLevel
    dsimp only
    cases ({ r.1 with nextRef := r.1.nextRef + 1 } : Book).findLevel s p with
    | none => rfl
    | some l => cases filter (e.copyAt (r.1.fresh 0)) <;> rfl

theorem addEntriesFromLevelDelta_fst (filter : Entry → Bool) (s : BookSide) (r : Book × DeltaList)
    (l : PriceLevel) :
    addLevelEntries filter s r.1 l = (addEntriesFromLevelDelta filter s r l).1 := by
  unfold addEntriesFromLevelDelta addLevelEntries
  dsimp only
  cases l.entries with
  | none => rfl
  | some es =>
    have hbook := foldl_addEntryFromLevel_fst s l.price filter es
      ((r.1.findOrCreateLevel s l.price l.side).1, r.2)
    dsimp only at hbook ⊢
    rw [← hbook]
    generalize es.foldl _ _ = imported
    cases imported.1.findLevel s l.price <;> rfl

theorem foldl_addEntriesFromLevelDelta_fst (filter : Entry → Bool) (s : BookSide)
    (ls : List PriceLevel) (r : Book × DeltaList) :
    (ls.foldl (addEntriesFromLevelDelta filter s) r).1 = ls.foldl (addLevelEntries filter s) r.1 :=
  (foldl_hom Prod.fst (addEntriesFromLevelDelta_fst filter s)).symm

/-- **The list reports what was added just if the filter rejected nothing.** -/
theorem reportsImport_iff {b book : Book} (hother : book.addr ≠ b.addr) {x : DeltaList}
    (hx : x.Separate) (filter : Entry → Bool) :
    (∃ r, b.addEntriesFromBookDelta book filter x = some r ∧ b.ReportsImport book filter x r) ↔
      ∀ o ∈ b.offers book, filter o.copy := by
  have hlist : ∀ {r}, b.addEntriesFromBookDelta book filter x = some r →
      (r.2.toList.map BasicDelta.report).Perm
        (x.toList.map BasicDelta.report ++ (b.offers book).map Offer.report) := by
    intro r hr
    obtain ⟨ds, hds, hreports⟩ := (addEntriesFromBookDelta_spec hr).deltas
    have hadds : ∀ d ∈ ds, d.plAction = .add := by
      intro d hd
      have hmem : d.report ∈ (b.offers book).map Offer.report :=
        hreports ▸ mem_map_of_mem hd
      obtain ⟨o, -, ho⟩ := mem_map.mp hmem
      exact (congrArg Report.plAction ho).symm
    rw [hds, ← hreports, ← map_append]
    exact (hx.addAll hadds).map BasicDelta.report
  constructor
  · rintro ⟨r, hr, hreports⟩
    have hlength := ((hlist hr).symm.trans hreports.deltas).length_eq
    simp only [length_append, length_map] at hlength
    exact length_filter_eq_length_iff.mp (Nat.add_left_cancel hlength).symm
  intro hall
  have haccepted : b.accepted book filter = b.offers book := filter_eq_self.mpr hall
  have hsome : ∃ r, b.addEntriesFromBookDelta book filter x = some r := by
    rw [addEntriesFromBookDelta, if_neg hother]; exact ⟨_, rfl⟩
  obtain ⟨r, hr⟩ := hsome
  have himports := addEntriesFromBookDelta_spec hr
  refine ⟨r, hr, himports.entries, fun o ho => ?_, ?_⟩
  · exact himports.levels o (mem_of_mem_filter ho)
  · rw [haccepted]; exact hlist hr

def bidAndAsk : Book :=
  let b := ((Book.new 1 fun _ => true).addNewEntry true .bid 10 "a" 5 .null none).1
  (b.addNewEntry true .ask 11 "b" 7 .null none).1

/-- A list as it is made, and no filter. -/
theorem reportsImport_bidAndAsk : ∃ r,
    (Book.new 0 fun _ => true).addEntriesFromBookDelta bidAndAsk (fun _ => true) (.new 0) = some r ∧
    (Book.new 0 fun _ => true).ReportsImport bidAndAsk (fun _ => true) (.new 0) r :=
  (reportsImport_iff (by decide) ⟨rfl, fun hc => absurd hc Bool.false_ne_true⟩
    fun _ => true).mpr fun _ _ => rfl

/-- The list has a delta for the entry that was rejected, too. -/
theorem not_reportsImport :
    ¬ ∀ (b book : Book) (x : DeltaList) (filter : Entry → Bool), book.addr ≠ b.addr → x.Separate →
      ∃ r, b.addEntriesFromBookDelta book filter x = some r ∧ b.ReportsImport book filter x r := by
  intro h
  obtain ⟨r, hr, hreports⟩ := h (Book.new 0 fun _ => true) bidAndAsk (.new 0)
    (fun e => e.id == "a") (by decide) ⟨rfl, nofun⟩
  have hlist : ((Book.new 0 fun _ => true).addEntriesFromBookDelta bidAndAsk
      (fun e => e.id == "a") (.new 0)).map (fun r => r.2.toList.length) = some 2 := by
    decide +kernel
  have haccepted : ((Book.new 0 fun _ => true).accepted bidAndAsk fun e => e.id == "a").length =
      1 := by decide +kernel
  rw [hr] at hlist
  have htwo : r.2.toList.length = 2 := Option.some.inj hlist
  have hlength := hreports.deltas.length_eq
  simp only [length_append, length_map] at hlength
  rw [htwo] at hlength
  cases hlength

end Book

end Mamda

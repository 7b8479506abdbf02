import OpenMama.Mamda.Aggregation
import OpenMama.Mamda.OrderBookLevels

/-!
# A replica that follows the deltas

Each entry operation fills in a delta; a second book that applies the deltas
one after the other should show the same levels.  What is compared is the view
of a level: its size, its number of entries and the ids and sizes of its
entries in order.

The delta of an operation names the level as the operation left it, so the
replica's level takes its size and count from there; what has to be shown is
that the replica takes the branch (`addLevelSide`, `applyLevelSide`,
`deleteLevelSide`) that fits, and that its entry list changes as the book's
does.
-/

namespace Mamda

open Mama Lib List Option

structure LevelView where
  size : Nat
  numEntries : Nat
  entries : List (String × Nat)
  deriving DecidableEq

def PriceLevel.pairs (l : PriceLevel) : List (String × Nat) :=
    l.entryList.map fun e => (e.id, e.size)

def PriceLevel.view (l : PriceLevel) : LevelView := ⟨l.size, l.numEntries, l.pairs⟩

def Book.view (b : Book) (s : BookSide) (p : Price) : Option LevelView :=
  (b.findLevel s p).map PriceLevel.view

/-- A level whose totals are right and whose entries have different ids and are not empty, kept
at its price and side. -/
structure Sound (s : BookSide) (p : Price) (l : PriceLevel) : Prop where
  totals : Totals (fun _ => true) l
  price : l.price = p
  side : l.side = s.side
  limit : l.orderType ≠ .market
  ids : (l.entryList.map Entry.id).Nodup
  pos : ∀ e ∈ l.entryList, 0 < e.size

/-- A book that does not check source states, with sound levels only. -/
structure Book.Whole (b : Book) : Prop where
  unchecked : b.checkVisibility = false
  noMarket : b.marketOrders = ⟨none, none⟩
  levels : b.AllLevels Sound

def Agree (b r : Book) : Prop := ∀ s p, r.view s p = b.view s p

/-! ## What a delta says -/

/-- What an entry action does to the entries of a level. -/
def changePairs (action : Action) (e : String × Nat) (es : List (String × Nat)) :
    List (String × Nat) :=
  match action with
  | .add => es ++ [e]
  | .update => updateFirst (fun x => x.1 == e.1) (fun x => (x.1, e.2)) es
  | .delete => es.eraseP fun x => x.1 == e.1
  | .unknown => es

/-- `d` describes how the book changed at one price: the level is new, changed or gone. -/
inductive Change (d : BasicDelta) (e : Entry) : Option PriceLevel → Option PriceLevel → Prop
  | added (hd : d.plAction = .add) : Change d e none (some d.level)
  | changed {l : PriceLevel} (hd : d.plAction = .update)
    (hp : d.level.pairs = changePairs d.entryAction (e.id, e.size) l.pairs) :
    Change d e (some l) (some d.level)
  | removed {l : PriceLevel} (hd : d.plAction = .delete) : Change d e (some l) none

/-- `d` describes the step from `b` to `b'`. -/
structure Describes (d : BasicDelta) (b b' : Book) : Prop where
  limit : d.level.orderType ≠ .market
  here : ∃ s e, d.level.side = s.side ∧ d.entry = some e ∧ e.priceLevel ≠ none ∧
    Change d e (b.findLevel s d.level.price) (b'.findLevel s d.level.price) ∧
    ∀ t q, ¬ (t = s ∧ q = d.level.price) → b'.findLevel t q = b.findLevel t q

/-! ## The replica's side -/

variable {b' : Book}

section Replica

theorem pairs_addEntry (c : Entry → Bool) (l : PriceLevel) (e : Entry) :
    (l.addEntry c e).pairs = changePairs .add (e.id, e.size) l.pairs := by
  show (l.entryList ++ [_]).map _ = l.entryList.map _ ++ [_]
  rw [map_append]
  rfl

theorem pairs_updateEntry (l : PriceLevel) (e : Entry) :
    (l.updateEntry e).pairs = changePairs .update (e.id, e.size) l.pairs := by
  apply map_updateFirst <;>
  · intro x; rfl

theorem pairs_eraseById (c : Entry → Bool) (l : PriceLevel) (id : String) (n : Nat) :
    (l.eraseEntryByIterator c fun x => x.id == id).pairs = changePairs .delete (id, n) l.pairs := by
  have hlist : (l.eraseEntryByIterator c fun x => x.id == id).entryList =
      l.entryList.eraseP fun x => x.id == id := by
    unfold PriceLevel.eraseEntryByIterator
    split
    · next hnone =>
      refine (eraseP_of_forall_not ?_).symm
      intro x hx hid
      exact absurd hid (find?_eq_none.mp hnone x hx)
    · rfl
  show (PriceLevel.entryList _).map _ = (l.entryList.map _).eraseP _
  rw [hlist, eraseP_map]
  rfl

theorem view_newLevelCopy (r : Book) (l : PriceLevel) : (r.newLevelCopy l).view = l.view := by
  have hcopies : ∀ (fresh : Nat → Ref) (ref : Ref) (es : List Entry),
      (PriceLevel.copyEntries fresh ref es).map (fun e => (e.id, e.size)) =
        es.map fun e => (e.id, e.size) := by
    intro fresh ref es
    apply ext_getElem?
    intro i
    simp only [PriceLevel.copyEntries, getElem?_map, getElem?_mapIdx, Option.map_map]
    rfl
  show LevelView.mk l.size l.numEntries (((l.entries.map _).getD []).map _) = _
  unfold PriceLevel.view PriceLevel.pairs PriceLevel.entryList
  cases l.entries with
  | none => rfl
  | some es => exact congrArg (LevelView.mk l.size l.numEntries) (hcopies _ _ es)

variable {r : Book} {s : BookSide} {p : Price} {rl : PriceLevel}

/-- Only the level at one price of `r` differs in `r'`, and it now has these entries. -/
def EntriesAt (r r' : Book) (s : BookSide) (p : Price) (es : List (String × Nat)) : Prop :=
  (∃ l, r'.findLevel s p = some l ∧ l.pairs = es) ∧
    ∀ t q, ¬ (t = s ∧ q = p) → r'.findLevel t q = r.findLevel t q

theorem entriesAt_putLevel {r₀ : Book}
    (h : ∀ t q, ¬ (t = s ∧ q = p) → r.findLevel t q = r₀.findLevel t q) (l : PriceLevel) :
    EntriesAt r₀ (r.putLevel (.limit s p) l) s p l.pairs := by
  refine ⟨⟨l, Book.findLevel_putLevel_self r s p l, rfl⟩, fun t q hne => ?_⟩
  rw [Book.findLevel_putLevel, if_neg hne, h t q hne]

theorem levelRemoveEntryById_entries (r : Book) (s : BookSide) (p : Price) (l : PriceLevel)
    (e : Entry) : EntriesAt r (r.levelRemoveEntryById (.limit s p) l e) s p
      (changePairs .delete (e.id, e.size) l.pairs) := by
  have hput : ∀ t q, ¬ (t = s ∧ q = p) →
      (r.putLevel (.limit s p) { l with entries := some l.entryList }).findLevel t q =
        r.findLevel t q := by
    intro t q hne
    rw [Book.findLevel_putLevel, if_neg hne]
  unfold Book.levelRemoveEntryById Book.levelEraseEntry
  simp only
  split
  · next hnone =>
    have hkeep : changePairs .delete (e.id, e.size) l.pairs = l.pairs := by
      refine eraseP_of_forall_not ?_
      intro x hx hid
      obtain ⟨y, hy, rfl⟩ := mem_map.mp hx
      exact absurd hid (find?_eq_none.mp hnone y hy)
    rw [hkeep]
    exact entriesAt_putLevel (fun _ _ _ => rfl) { l with entries := some l.entryList }
  · have hpairs := fun c => pairs_eraseById c { l with entries := some l.entryList } e.id e.size
    have hl : PriceLevel.pairs { l with entries := some l.entryList } = l.pairs := rfl
    rw [← hl, ← hpairs]
    refine entriesAt_putLevel (fun t q hne => ?_) _
    rw [← hput t q hne]
    split <;> rfl

variable {d : BasicDelta}

/-- The entry of a delta changes the entries of the level as its action says, and nothing is
thrown. -/
theorem applyDeltaEntry_entries {e : Entry} (hf : r.findLevel s p = some rl) (he : d.entry = some e)
    (hw : e.priceLevel ≠ none) : ∃ r', r.applyDeltaEntry (.limit s p) d = (r', none) ∧
      EntriesAt r r' s p (changePairs d.entryAction (e.id, e.size) rl.pairs) := by
  have hat : r.levelAt (.limit s p) = some rl := hf
  obtain ⟨ref, href⟩ := ne_none_iff_exists'.mp hw
  rw [Book.applyDeltaEntry, he]
  cases ha : d.entryAction with
  | add =>
    simp only [Book.applyEntry]
    have hat' : { r with nextRef := r.nextRef + 1 }.levelAt (.limit s p) = some rl := hf
    rw [hat']
    refine ⟨_, rfl, ?_⟩
    have hp := pairs_addEntry ({ r with nextRef := r.nextRef + 1 }.counts rl) rl
    show EntriesAt r _ s p (changePairs .add ((e.copyAt (r.fresh 0)).id,
      (e.copyAt (r.fresh 0)).size) rl.pairs)
    rw [← hp]
    exact entriesAt_putLevel (fun _ _ _ => rfl) _
  | update =>
    simp only [Book.applyEntry, hat, href]
    have hput := entriesAt_putLevel (r := r) (s := s) (p := p) (fun _ _ _ => rfl)
      (rl.updateEntry e)
    rw [pairs_updateEntry] at hput
    unfold Book.levelUpdateEntry
    split
    · exact ⟨_, rfl, hput⟩
    · next howner => cases howner
    · exact ⟨_, rfl, hput⟩
  | delete =>
    simp only [Book.applyEntry, hat]; exact ⟨_, rfl, levelRemoveEntryById_entries r s p rl e⟩
  | unknown => simp only [Book.applyEntry, hat]; exact ⟨r, rfl, ⟨rl, hf, rfl⟩, fun _ _ _ => rfl⟩

/-- A replica that agreed with the book before a step agrees with it after the delta of the
step, and `apply` does not throw. -/
theorem Agree.applyDelta {b : Book} (h : Agree b r) (hd : Describes d b b') :
    ∃ r', r.applyDelta d = (r', none) ∧ Agree b' r' := by
  obtain ⟨s, e, hside, he, hw, hch, hother⟩ := hd.here
  have hbook : d.level.side.book? = some s := by rw [hside, BookSide.book?_side]
  have hside' : r.applyDelta d = r.applyDeltaSide s d := by
    rw [Book.applyDelta, hbook]
    split
    · next hm _ => exact absurd hm hd.limit
    · next hm _ => exact absurd hm hd.limit
    · next hs _ => cases hs; rfl
    · next hs _ => cases hs
  rw [hside']
  have hhere : (r.findLevel s d.level.price).map PriceLevel.view =
      (b.findLevel s d.level.price).map PriceLevel.view := h s d.level.price
  have hview : ∀ {r' : Book} {v : Option LevelView}, r'.view s d.level.price = v →
      (b'.findLevel s d.level.price).map PriceLevel.view = v →
      (∀ t q, ¬ (t = s ∧ q = d.level.price) → r'.findLevel t q = r.findLevel t q) →
      Agree b' r' := by
    intro r' v hr' hb' hr t q
    by_cases heq : t = s ∧ q = d.level.price
    · obtain ⟨rfl, rfl⟩ := heq
      exact hr'.trans hb'.symm
    · have hold := h t q
      unfold Book.view at hold ⊢
      rw [hr t q heq, hother t q heq, hold]
  generalize b.findLevel s d.level.price = lb at hch hhere
  generalize b'.findLevel s d.level.price = lb' at hch hview
  unfold Book.applyDeltaSide
  cases hch with
  | added ha =>
    have hnone : r.findLevel s d.level.price = none := map_eq_none_iff.mp hhere
    simp only [ha, Book.addDeltaLevelSide, hnone]
    refine ⟨_, rfl, hview (v := some d.level.view) ?_ rfl fun t q hne => ?_⟩
    · show (Book.findLevel (Book.putLevel _ (.limit s d.level.price) _) s d.level.price).map _ = _
      rw [Book.findLevel_putLevel_self]
      exact congrArg some (view_newLevelCopy r d.level)
    · show Book.findLevel (Book.putLevel _ (.limit s d.level.price) _) t q = _
      rw [Book.findLevel_putLevel, if_neg hne]
      rfl
  | @changed l ha hp =>
    obtain ⟨rl, hf, hrl⟩ := map_eq_some_iff.mp hhere
    have hpairs : rl.pairs = l.pairs := congrArg LevelView.entries hrl
    obtain ⟨r', hr', ⟨rl', hf', hrl'⟩, hsame⟩ := applyDeltaEntry_entries hf he hw
    have hat : r'.levelAt (.limit s d.level.price) = some rl' := hf'
    simp only [ha, Book.applyDeltaLevelSide, hf, hr', Book.setLevelDetails, hat]
    refine ⟨_, rfl, hview (v := some d.level.view) ?_ rfl fun t q hne => ?_⟩
    · show (Book.findLevel (Book.putLevel _ (.limit s d.level.price) _) s d.level.price).map _ = _
      rw [Book.findLevel_putLevel_self]
      show some (LevelView.mk d.level.size d.level.numEntries rl'.pairs) = some d.level.view
      rw [hrl', hpairs, ← hp]
      rfl
    · rw [Book.findLevel_putLevel, if_neg hne, hsame t q hne]
  | removed ha =>
    obtain ⟨rl, hf, -⟩ := map_eq_some_iff.mp hhere
    have hgone : ∀ r' : Book, r'.levels = (r.eraseLevel s d.level.price).levels → Agree b' r' := by
      intro r' hlev
      have hfind : ∀ t q, r'.findLevel t q = (r.eraseLevel s d.level.price).findLevel t q := by
        intro t q
        unfold Book.findLevel
        rw [hlev]
      refine hview (v := none) ?_ rfl fun t q hne => ?_
      · rw [Book.view, hfind, Book.findLevel_eraseLevel, if_pos ⟨rfl, rfl⟩]; rfl
      · rw [hfind, Book.findLevel_eraseLevel, if_neg hne]
    simp only [ha, Book.deleteDeltaLevelSide, he]
    rw [hf]
    cases hg : r.generateDeltas with
    | false => exact ⟨_, rfl, hgone _ rfl⟩
    | true => exact ⟨_, rfl, hgone _ rfl⟩

end Replica

/-! ## The book's side -/

section Source

variable {b : Book} {s : BookSide} {p : Price} {l : PriceLevel} {e : Entry}

theorem counts_of_unchecked (h : b.checkVisibility = false) (l : PriceLevel) :
    b.counts l = fun _ => true := by
  funext e
  rw [Book.counts, h]
  simp

theorem seesEntry_of_unchecked (h : b.checkVisibility = false) (e : Entry) : b.seesEntry e := by
  rw [Book.seesEntry, h]
  rfl

theorem stableTest_all : StableTest fun _ => true := fun _ _ _ _ => rfl

variable {n : Nat} {ref : Ref}

section

variable (h : Sound s p l)

include h

theorem Sound.touch (t : DateTime) (k : Option Nat) :
    Sound s p { l with time := t, book := k } :=
  ⟨⟨h.totals.size, h.totals.numEntries, h.totals.numEntriesTotal, h.totals.wired⟩, h.price, h.side,
    h.limit, h.ids, h.pos⟩

theorem Sound.addEntry (hid : e.id ∉ l.entryList.map Entry.id)
    (hpos : 0 < e.size) : Sound s p (l.addEntry (fun _ => true) e) := by
  refine ⟨h.totals.addEntry stableTest_all rfl, h.price, h.side, h.limit, ?_, ?_⟩
  · show ((l.entryList ++ [_]).map Entry.id).Nodup
    rw [map_append]
    refine nodup_append.mpr ⟨h.ids, by simp, ?_⟩
    intro x hx y hy heq
    rw [mem_singleton.mp hy] at heq
    exact hid (heq ▸ hx)
  · intro x hx
    rcases mem_append.mp hx with hx | hx
    · exact h.pos x hx
    · rwa [mem_singleton.mp hx]

/-- The entry found by its address is the only one of its id, so both searches act at the same
place of the list. -/
theorem Sound.split (hf : l.entryList.find? (·.ref == ref) = some e) :
    ∃ l₁ l₂, l.entryList = l₁ ++ e :: l₂ ∧ (∀ x ∈ l₁, (x.id == e.id) = false) ∧
      l.entryList.eraseP (·.ref == ref) = l₁ ++ l₂ ∧
      ∀ f, updateFirst (·.ref == ref) f l.entryList = l₁ ++ f e :: l₂ := by
  obtain ⟨l₁, l₂, hl, -, -, he, hu⟩ := split_of_find? hf
  refine ⟨l₁, l₂, hl, ?_, he, hu⟩
  intro x hx
  have hnd := h.ids
  rw [hl, map_append, nodup_append] at hnd
  have hne := hnd.2.2 x.id (mem_map_of_mem hx) e.id mem_cons_self
  simpa using hne

theorem Sound.updatedLevel (hb : b.checkVisibility = false)
    (hf : l.entryList.find? (·.ref == e.ref) = some e) (hn : 0 < n) (t : DateTime) :
    Sound s p (b.updatedLevel l e n t) ∧
      (b.updatedLevel l e n t).pairs = changePairs .update (e.id, n) l.pairs := by
  obtain ⟨l₁, l₂, hl, hno, -, hu⟩ := h.split hf
  have hlist : (b.updatedLevel l e n t).entryList = l₁ ++ Book.updatedEntry n t e :: l₂ := by
    rw [entryList_updatedLevel, hu]
  have hid : (Book.updatedEntry n t e).id = e.id := by
    unfold Book.updatedEntry
    split <;> rfl
  have htot := h.totals.updatedLevel stableTest_all hf n t fun _ => seesEntry_of_unchecked hb e
  refine ⟨⟨htot, ?_, ?_, ?_, ?_, ?_⟩, ?_⟩
  · rw [← h.price]
    unfold Book.updatedLevel
    split <;> rfl
  · rw [← h.side]
    unfold Book.updatedLevel
    split <;> rfl
  · have hlim : (b.updatedLevel l e n t).orderType = l.orderType := by
      unfold Book.updatedLevel
      split <;> rfl
    rw [hlim]
    exact h.limit
  · have hnd := h.ids
    rw [hl] at hnd
    rw [hlist]
    simpa [hid] using hnd
  · intro x hx
    rw [hlist] at hx
    have hpos := h.pos
    rw [hl] at hpos
    rcases mem_append.mp hx with hx | hx
    · exact hpos x (mem_append_left _ hx)
    · rcases mem_cons.mp hx with rfl | hx
      · rwa [updatedEntry_size]
      · exact hpos x (by simp [hx])
  have hno' : ∀ x ∈ l₁.map (fun e : Entry => (e.id, e.size)), (x.1 == e.id) = false := by
    intro x hx
    obtain ⟨y, hy, rfl⟩ := mem_map.mp hx
    exact hno y hy
  obtain ⟨-, -, hat⟩ := @at_split _ (fun x : String × Nat => x.1 == e.id) _
    (l₂.map fun e : Entry => (e.id, e.size)) (e.id, e.size) hno' (by simp)
  unfold PriceLevel.pairs changePairs
  rw [hlist, hl, map_append, map_cons, map_append, map_cons]
  rw [hat, hid, updatedEntry_size]

theorem Sound.removeEntry (hf : l.entryList.find? (·.ref == ref) = some e) :
    Sound s p (l.removeEntry (fun _ => true) ref) ∧
      (l.removeEntry (fun _ => true) ref).pairs = changePairs .delete (e.id, e.size) l.pairs := by
  obtain ⟨l₁, l₂, hl, hno, he, -⟩ := h.split hf
  have hrem : l.removeEntry (fun _ => true) ref =
      { l.uncountEntry (fun _ => true) e with entries := some (l₁ ++ l₂) } := by
    rw [PriceLevel.removeEntry, PriceLevel.eraseEntryByIterator, hf, he]
  have hlist : (l.removeEntry (fun _ => true) ref).entryList = l₁ ++ l₂ := by rw [hrem]; rfl
  have hsub : (l₁ ++ l₂).Sublist l.entryList := by
    rw [hl]; exact (List.Sublist.refl l₁).append (sublist_cons_self e l₂)
  refine ⟨⟨h.totals.eraseEntry hf rfl, ?_, ?_, ?_, ?_, ?_⟩, ?_⟩
  · rw [hrem]; exact h.price
  · rw [hrem]; exact h.side
  · rw [hrem]; exact h.limit
  · rw [hlist]; exact h.ids.sublist (hsub.map _)
  · intro x hx
    rw [hlist] at hx
    exact h.pos x (hsub.mem hx)
  have hno' : ∀ x ∈ l₁.map (fun e : Entry => (e.id, e.size)), (x.1 == e.id) = false := by
    intro x hx
    obtain ⟨y, hy, rfl⟩ := mem_map.mp hx
    exact hno y hy
  obtain ⟨-, hat, -⟩ := @at_split _ (fun x : String × Nat => x.1 == e.id) _
    (l₂.map fun e : Entry => (e.id, e.size)) (e.id, e.size) hno' (by simp)
  unfold PriceLevel.pairs changePairs
  rw [hlist, hl, map_append, map_append, map_cons]
  rw [hat]

omit h in
theorem findOrCreateLevel_sound (h : b.Whole) (s : BookSide) (p : Price) :
    (b.findOrCreateLevel s p s.side).1.Whole ∧ Sound s p (b.findOrCreateLevel s p s.side).2.1 ∧
    (b.findOrCreateLevel s p s.side).1.findLevel s p = some (b.findOrCreateLevel s p s.side).2.1 ∧
    ∀ t q, ¬ (t = s ∧ q = p) →
    (b.findOrCreateLevel s p s.side).1.findLevel t q = b.findLevel t q := by
  unfold Book.findOrCreateLevel
  cases hf : b.findLevel s p with
  | some l => exact ⟨h, h.levels s p l hf, hf, fun _ _ _ => rfl⟩
  | none =>
    have hnew : Sound s p ((PriceLevel.new (b.fresh 0) p s.side).setOrderBook b.addr) :=
      ⟨⟨rfl, rfl, rfl, fun e he => nomatch he⟩, rfl, rfl, (fun hm => nomatch hm), nodup_nil,
        fun e he => nomatch he⟩
    refine ⟨⟨h.unchecked, h.noMarket, Book.AllLevels.putLevel h.levels hnew⟩, hnew,
      Book.findLevel_putLevel_self _ s p _, fun t q hne => ?_⟩
    show (Book.putLevel _ (.limit s p) _).findLevel t q = _
    rw [Book.findLevel_putLevel, if_neg hne]
    rfl

/-- The level `addEntry` works on: stamped and, for a `double` price, linked. -/
def Book.readyLevel (b : Book) (relink : Bool) (l : PriceLevel) (e : Entry) (t : DateTime) :
    PriceLevel :=
  if relink then (b.stampLevel l e t).setOrderBook b.addr else b.stampLevel l e t

theorem Sound.readyLevel (b : Book) (relink : Bool) (e : Entry) (t : DateTime) :
    Sound s p (b.readyLevel relink l e t) ∧
      (b.readyLevel relink l e t).entryList = l.entryList := by
  cases relink with
  | true => exact ⟨h.touch _ _, rfl⟩
  | false => exact ⟨h.touch _ l.book, rfl⟩

end

section

variable (h : b.Whole)

include h

theorem addEntry_describes (relink : Bool) (s : BookSide) (p : Price) (t : DateTime)
    (hpos : 0 < e.size) (hid : ∀ l, b.findLevel s p = some l → e.id ∉ l.entryList.map Entry.id) :
    (b.addEntry relink s p e t).1.Whole ∧
    Describes (b.addEntry relink s p e t).2 b (b.addEntry relink s p e t).1 := by
  obtain ⟨h₁, hs₁, hf₁, hother⟩ := findOrCreateLevel_sound h s p
  generalize hfl : b.findOrCreateLevel s p s.side = fl at h₁ hs₁ hf₁ hother
  obtain ⟨b₁, l₀, a⟩ := fl
  obtain ⟨hready, hlist⟩ := hs₁.readyLevel b₁ relink e t
  have hold : (b.findLevel s p = some l₀ ∧ a = .update) ∨
      (b.findLevel s p = none ∧ a = .add ∧ l₀.entryList = []) := by
    unfold Book.findOrCreateLevel at hfl
    cases hf : b.findLevel s p with
    | some l =>
      rw [hf] at hfl
      cases hfl
      exact .inl ⟨rfl, rfl⟩
    | none =>
      rw [hf] at hfl
      cases hfl
      exact .inr ⟨rfl, rfl, rfl⟩
  have hid₀ : e.id ∉ (b₁.readyLevel relink l₀ e t).entryList.map Entry.id := by
    rw [hlist]
    rcases hold with ⟨hf, -⟩ | ⟨-, -, hnil⟩
    · exact hid l₀ hf
    · rw [hnil]; exact not_mem_nil
  have hsound := hready.addEntry hid₀ hpos
  have hpairs := pairs_addEntry (fun _ => true) (b₁.readyLevel relink l₀ e t) e
  have hadd : b.addEntry relink s p e t =
      (b₁.levelAddEntry (.limit s p) (b₁.readyLevel relink l₀ e t) e,
        ⟨some { e with priceLevel := some (b₁.readyLevel relink l₀ e t).ref },
          (b₁.readyLevel relink l₀ e t).addEntry (fun _ => true) e,
          if b₁.seesEntry e then e.size else 0, a, .add⟩) := by
    rw [Book.addEntry, hfl]
    simp only [counts_of_unchecked h₁.unchecked]
    rfl
  generalize b₁.readyLevel relink l₀ e t = l at hready hlist hid₀ hsound hpairs hadd
  have hcounts := counts_of_unchecked h₁.unchecked l
  have hlev : ∀ t' q, (b₁.levelAddEntry (.limit s p) l e).findLevel t' q =
      if t' = s ∧ q = p then some (l.addEntry (fun _ => true) e) else b₁.findLevel t' q := by
    intro t' q
    rw [Book.levelAddEntry, Book.findLevel_putLevel, hcounts]
    rfl
  rw [hadd]
  refine ⟨⟨h₁.unchecked, h₁.noMarket, ?_⟩, hsound.limit, ?_⟩
  · intro t' q x hx
    rw [hlev] at hx
    split at hx
    · next heq =>
      obtain ⟨rfl, rfl⟩ := heq
      cases hx
      exact hsound
    · exact h₁.levels t' q x hx
  have hprice : (l.addEntry (fun _ => true) e).price = p := hsound.price
  refine ⟨s, _, hsound.side, rfl, by simp, ?_, ?_⟩
  · show Change _ _ (b.findLevel s (l.addEntry (fun _ => true) e).price)
      ((b₁.levelAddEntry (.limit s p) l e).findLevel s (l.addEntry (fun _ => true) e).price)
    rw [hprice, hlev, if_pos (show s = s ∧ p = p from ⟨rfl, rfl⟩)]
    rcases hold with ⟨hf, rfl⟩ | ⟨hf, rfl, -⟩
    · rw [hf]
      refine Change.changed ?_ ?_
      · rfl
      rw [hpairs]
      unfold PriceLevel.pairs
      rw [hlist]
    · rw [hf]
      refine Change.added ?_
      rfl
  · intro t' q hne
    have hne' : ¬ (t' = s ∧ q = p) := by rwa [← hprice]
    rw [hlev, if_neg hne']
    exact hother t' q hne'

theorem Book.Whole.locate {pos : LevelPos} (hloc : b.locate ref = some (pos, l, e)) :
    (∃ s p, pos = .limit s p ∧ b.findLevel s p = some l ∧ Sound s p l) ∧ e.ref = ref ∧
      l.entryList.find? (·.ref == ref) = some e ∧ e.priceLevel = some l.ref := by
  obtain ⟨hat, hfind⟩ := Book.locate_spec hloc
  have href : e.ref = ref := by simpa using find?_some hfind
  cases pos with
  | limit s p =>
    have hs := h.levels s p l hat
    exact ⟨⟨s, p, rfl, hat, hs⟩, href, hfind, hs.totals.wired e (mem_of_find?_eq_some hfind)⟩
  | market s =>
    have hat' : b.marketOrders.get s = some l := hat
    rw [h.noMarket] at hat'
    cases s <;> cases hat'

variable {t : DateTime}

theorem updateEntry_describes (hn : 0 < n) {r : Book × BasicDelta}
    (hu : b.updateEntry ref n t = some r) : r.1.Whole ∧ Describes r.2 b r.1 := by
  unfold Book.updateEntry at hu
  split at hu
  · cases hu
  next pos l e hloc =>
  obtain ⟨⟨s, p, rfl, hf, hs⟩, rfl, hfind, hwired⟩ := h.locate hloc
  rw [if_pos hwired] at hu
  cases hu
  obtain ⟨hsound, hpairs⟩ := hs.updatedLevel h.unchecked hfind hn t
  have hid : (Book.updatedEntry n t e).id = e.id := by
    unfold Book.updatedEntry
    split <;> rfl
  refine ⟨⟨h.unchecked, h.noMarket, h.levels.putLevel hsound⟩, hsound.limit, s, _, hsound.side,
    rfl, ?_, ?_, ?_⟩
  · rw [updatedEntry_priceLevel, hwired]; simp
  · show Change _ _ (b.findLevel s (b.updatedLevel l e n t).price)
      ((b.putLevel (.limit s p) (b.updatedLevel l e n t)).findLevel s
        (b.updatedLevel l e n t).price)
    rw [hsound.price, Book.findLevel_putLevel_self, hf]
    refine Change.changed rfl ?_
    rwa [hid, updatedEntry_size]
  · intro t' q hne
    show (b.putLevel (.limit s p) (b.updatedLevel l e n t)).findLevel t' q = _
    rw [Book.findLevel_putLevel, if_neg]
    rwa [← hsound.price]

omit h in
theorem Sound.empty_iff_size (h : Sound s p l) : l.empty ↔ l.size = 0 := by
  unfold PriceLevel.empty
  have hsize := h.totals.size
  cases hl : l.entryList with
  | nil => rw [hl] at hsize; simpa using hsize
  | cons x xs =>
    have hx := h.pos x (by rw [hl]; exact mem_cons_self)
    rw [hl, sumOn_cons] at hsize
    simp only [if_true] at hsize
    constructor
    · intro hfalse; cases hfalse
    · intro hzero; omega

theorem levelEraseEntry_whole (hs : Sound s p l) (hf : l.entryList.find? (·.ref == ref) = some e) :
    (b.levelEraseEntry (.limit s p) l (·.ref == ref)).Whole ∧
      ∀ t q, (b.levelEraseEntry (.limit s p) l (·.ref == ref)).findLevel t q =
        if t = s ∧ q = p then some (l.removeEntry (fun _ => true) ref) else b.findLevel t q := by
  obtain ⟨hsound, -⟩ := hs.removeEntry hf
  have hcounts := counts_of_unchecked h.unchecked l
  rw [Book.levelEraseEntry, hf, hcounts]
  simp only
  split
  · exact ⟨⟨h.unchecked, h.noMarket, Book.AllLevels.putLevel h.levels hsound⟩, fun t q =>
      Book.findLevel_putLevel _ s t p q _⟩
  · exact ⟨⟨h.unchecked, h.noMarket, Book.AllLevels.putLevel h.levels hsound⟩, fun t q =>
      Book.findLevel_putLevel _ s t p q _⟩

theorem detachLevel_whole (hs : Sound s p l) (hf : b.findLevel s p = some l) :
    (b.detachLevel l).Whole ∧ ∀ t q, (b.detachLevel l).findLevel t q = if t = s ∧
    q = p then none else b.findLevel t q := by
  have hbook : l.side.book? = some s := by rw [hs.side, BookSide.book?_side]
  have hdetach : b.detachLevel l =
      { b.eraseLevel s l.price with detachedLevels := b.detachedLevels ++ [l] } := by
    rw [Book.detachLevel, hbook, hs.price]
    split
    · next hm _ => exact absurd hm hs.limit
    · next hnone => cases hnone
    · next hsome _ =>
      cases hsome
      rw [hf]
  rw [hdetach, hs.price]
  exact ⟨⟨h.unchecked, h.noMarket, h.levels.eraseLevel s p⟩, fun t q =>
    Book.findLevel_eraseLevel b s t p q⟩

theorem deleteEntry_describes {w : Bool} {r : Book × BasicDelta}
    (hd : b.deleteEntry ref t w = some r) : r.1.Whole ∧ Describes r.2 b r.1 := by
  unfold Book.deleteEntry at hd
  split at hd
  · cases hd
  next pos l e hloc =>
  obtain ⟨⟨s, p, rfl, hf, hs⟩, rfl, hfind, hwired⟩ := h.locate hloc
  rw [if_pos hwired] at hd
  have hs' : Sound s p (b.stampLevel l e t) := hs.touch _ l.book
  have hfind' : (b.stampLevel l e t).entryList.find? (·.ref == e.ref) = some e := hfind
  obtain ⟨hsound, hpairs⟩ := hs'.removeEntry hfind'
  obtain ⟨h₁, hlev⟩ := levelEraseEntry_whole h hs' hfind'
  simp only [counts_of_unchecked h.unchecked] at hd
  generalize (b.stampLevel l e t).removeEntry (fun _ => true) e.ref = l' at hsound hpairs hlev hd
  have hf₁ := hlev s p
  rw [if_pos ⟨rfl, rfl⟩] at hf₁
  cases hempty : l'.empty with
  | true =>
    have hzero := hsound.empty_iff_size.mp hempty
    obtain ⟨h₂, hgone⟩ := detachLevel_whole h₁ hsound hf₁
    simp only [hempty, hzero, Bool.not_true, Bool.and_false, if_true, Bool.false_eq_true,
      if_false] at hd
    cases hd
    refine ⟨h₂, hsound.limit, s, e, hsound.side, rfl, by simp [hwired], ?_, ?_⟩
    · show Change _ _ (b.findLevel s l'.price) (Book.findLevel _ s l'.price)
      rw [hsound.price, hf, hgone, if_pos (show s = s ∧ p = p from ⟨rfl, rfl⟩)]
      refine Change.removed ?_
      rfl
    · intro t' q hne
      have hne' : ¬ (t' = s ∧ q = p) := by rwa [← hsound.price]
      rw [hgone, if_neg hne', hlev, if_neg hne']
  | false =>
    have hzero : ¬ l'.size = 0 := fun h0 => by
      rw [hsound.empty_iff_size.mpr h0] at hempty; cases hempty
    simp only [hempty, hzero] at hd
    have hstep : Describes ⟨some e, l', if b.seesEntry e then -e.size else 0, .update, .delete⟩ b
        (b.levelEraseEntry (.limit s p) (b.stampLevel l e t) (·.ref == e.ref)) := by
      refine ⟨hsound.limit, s, e, hsound.side, rfl, by simp [hwired], ?_, ?_⟩
      · show Change _ _ (b.findLevel s l'.price) (Book.findLevel _ s l'.price)
        rw [hsound.price, hf, hf₁]
        refine Change.changed ?_ hpairs
        rfl
      · intro t' q hne
        have hne' : ¬ (t' = s ∧ q = p) := by rwa [← hsound.price]
        rw [hlev, if_neg hne']
    cases hd
    cases w with
    | true => exact ⟨⟨h₁.unchecked, h₁.noMarket, h₁.levels⟩, hstep.limit, hstep.here⟩
    | false => exact ⟨h₁, hstep⟩

end

end Source

/-! ## Runs -/

/-- A call on the book that is given a delta to fill in. -/
inductive SyncOp
  | addEntry (relink : Bool) (side : Side) (price : Price) (e : Entry) (eventTime : DateTime)
  | updateEntry (ref : Ref) (size : Nat) (eventTime : DateTime)
  | deleteEntry (ref : Ref) (eventTime : DateTime)

namespace SyncOp

/-- The call: the book it leaves and the delta it fills in.  An entry added to an unknown side
leaves the delta alone; there is no result for an entry that is added twice or a pointer that
leads to no entry of the book. -/
def call (b : Book) : SyncOp → Option (Book × Option BasicDelta)
  | .addEntry relink side p e t =>
    match b.locate e.ref, side.book? with
    | some _, _ => none
    | none, none => some (b, none)
    | none, some s => some ((b.addEntry relink s p e t).1, some (b.addEntry relink s p e t).2)
  | .updateEntry ref n t => (b.updateEntry ref n t).map fun r => (r.1, some r.2)
  | .deleteEntry ref t => (b.deleteEntry ref t true).map fun r => (r.1, some r.2)

/-- The calls one after the other, each followed by `apply` on the replica; an exception of
`apply` ends the run. -/
def replay (b r : Book) : List SyncOp → Option (Book × Outcome)
  | [] => some (b, r, none)
  | op :: ops =>
    match call b op with
    | none => none
    | some (b', none) => replay b' r ops
    | some (b', some d) =>
      match r.applyDelta d with
      | (r', none) => replay b' r' ops
      | (r', some err) => some (b', r', some err)

def Fitting (b : Book) : SyncOp → Prop
  | .addEntry _ side p e _ => 0 < e.size ∧ ∀ s l, side.book? = some s →
      b.findLevel s p = some l → e.id ∉ l.entryList.map Entry.id
  | .updateEntry _ n _ => 0 < n
  | .deleteEntry _ _ => True

def FittingRun (b : Book) : List SyncOp → Prop
  | [] => True
  | op :: ops => Fitting b op ∧ ∀ b' d, call b op = some (b', d) → FittingRun b' ops

theorem call_describes {b : Book} {op : SyncOp} {d : Option BasicDelta} (h : b.Whole)
    (hop : Fitting b op) (hc : call b op = some (b', d)) :
    b'.Whole ∧ (d = none ∧ b' = b ∨ ∃ d', d = some d' ∧ Describes d' b b') := by
  cases op with
  | addEntry relink side p e t =>
    obtain ⟨hpos, hid⟩ := hop
    simp only [call] at hc
    split at hc
    · cases hc
    · cases hc; exact ⟨h, .inl ⟨rfl, rfl⟩⟩
    · next s _ hside =>
      cases hc
      obtain ⟨hw, hd⟩ := addEntry_describes h relink s p t hpos fun l hl => hid s l hside hl
      exact ⟨hw, .inr ⟨_, rfl, hd⟩⟩
  | updateEntry ref n t =>
    obtain ⟨r, hr, heq⟩ := map_eq_some_iff.mp hc
    cases heq
    obtain ⟨hw, hd⟩ := updateEntry_describes h hop hr
    exact ⟨hw, .inr ⟨_, rfl, hd⟩⟩
  | deleteEntry ref t =>
    obtain ⟨r, hr, heq⟩ := map_eq_some_iff.mp hc
    cases heq
    obtain ⟨hw, hd⟩ := deleteEntry_describes h hr
    exact ⟨hw, .inr ⟨_, rfl, hd⟩⟩

/-- A replica that agrees with the book at the start agrees with it after every run of calls,
and `apply` throws at none of them. -/
theorem agree_of_replay (b r : Book) (hw : b.Whole) (ha : Agree b r) (ops : List SyncOp)
    (hops : FittingRun b ops) (b' : Book) (out : Outcome)
    (hrun : replay b r ops = some (b', out)) : out.2 = none ∧ Agree b' out.1 := by
  induction ops generalizing b r with
  | nil => cases hrun; exact ⟨rfl, ha⟩
  | cons op ops ih =>
    obtain ⟨hop, hrest⟩ := hops
    unfold replay at hrun
    split at hrun
    · cases hrun
    · next b₁ hc =>
      obtain ⟨hw₁, hd⟩ := call_describes hw hop hc
      rcases hd with ⟨-, rfl⟩ | ⟨d', hd', -⟩
      · exact ih b₁ r hw₁ ha (hrest _ _ hc) hrun
      · cases hd'
    next b₁ d hc =>
    obtain ⟨hw₁, hd⟩ := call_describes hw hop hc
    rcases hd with ⟨hd', -⟩ | ⟨d', hd', hdesc⟩
    · cases hd'
    · cases hd'
      obtain ⟨r', hr', ha'⟩ := ha.applyDelta hdesc
      rw [hr'] at hrun
      exact ih b₁ r' hw₁ ha' (hrest _ _ hc) hrun

/-- Two entries at one price and one at another; the level of the last goes again. -/
def threeEntries : List SyncOp :=
  [.addEntry true .bid 10 (Entry.new ⟨9, 0⟩ "a" 5 .add .null none) .null,
    .addEntry true .bid 10 (Entry.new ⟨9, 1⟩ "b" 7 .add .null none) .null,
    .addEntry false .ask 11 (Entry.new ⟨9, 2⟩ "c" 1 .add .null none) .null,
    .updateEntry ⟨9, 0⟩ 6 .null, .deleteEntry ⟨9, 1⟩ .null, .deleteEntry ⟨9, 2⟩ .null]

theorem agree_threeEntries : ∃ b' out,
    replay (Book.new 0 fun _ => true) (Book.new 1 fun _ => true) threeEntries = some (b', out) ∧
      out.2 = none ∧ Agree b' out.1 := by
  refine ⟨_, _, rfl, agree_of_replay (Book.new 0 fun _ => true) (Book.new 1 fun _ => true)
    ⟨rfl, rfl, Book.allLevels_of_empty rfl⟩ (fun s p => by cases s <;> rfl) threeEntries ?_ _ _ rfl⟩
  refine ⟨⟨by decide, ?_⟩, ?_⟩
  · rintro _ _ ⟨⟩ ⟨⟩
  rintro _ _ ⟨⟩
  refine ⟨⟨by decide, ?_⟩, ?_⟩
  · rintro _ _ ⟨⟩ ⟨⟩; decide
  rintro _ _ ⟨⟩
  refine ⟨⟨by decide, ?_⟩, ?_⟩
  · rintro _ _ ⟨⟩ ⟨⟩
  rintro _ _ ⟨⟩
  refine ⟨show 0 < 6 by decide, ?_⟩
  rintro _ _ ⟨⟩
  refine ⟨trivial, ?_⟩
  rintro _ _ ⟨⟩
  exact ⟨trivial, fun _ _ _ => trivial⟩

end SyncOp

end Mamda

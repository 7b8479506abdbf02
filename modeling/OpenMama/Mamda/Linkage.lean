import OpenMama.Mamda.OrderBookLevels

/-!
# Levels and the book they are linked to

A level in the bid or ask map should lie under its own price and side, and be
linked to the book: an unlinked level neither checks source states nor reports
its changes.  Price and side always fit.  The link is lost where
`updateLevelSide` overwrites a level, and missing where `addLevel` takes the
caller's level in as it is; a book that reaches neither place
(`KeepsLinks`) keeps all its levels linked.

The two results share their proofs: `Kept strict` asks for the link only when
`strict` is set, and each operation keeps it when, in the strict case, it does
not take one of those branches.
-/

namespace Mamda

open Mama Lib List

/-- What is asked of the levels of a book: to be linked to it (`strict`), and not to lie at a
place that is to stay free (`free`). -/
structure Wanted where
  strict : Bool
  free : BookSide → Price → Prop

/-- The level fits the place it is kept at in the book at address `a`. -/
structure Kept (w : Wanted) (a : Nat) (s : BookSide) (p : Price) (l : PriceLevel) : Prop where
  price : l.price = p
  side : l.side = s.side
  book : w.strict → l.book = some a
  taken : ¬ w.free s p

/-- The book is at address `a` and keeps all its levels. -/
structure Book.KeepsLevels (w : Wanted) (a : Nat) (b : Book) : Prop where
  addr : b.addr = a
  levels : b.AllLevels (Kept w a)

variable {strict : Bool}

namespace Book

/-- The level fits the position; nothing is asked of the market orders. -/
def KeptAt (w : Wanted) (a : Nat) : LevelPos → PriceLevel → Prop
  | .limit s p, l => Kept w a s p l
  | .market _, _ => True

section Operations

variable {w : Wanted} {a : Nat} {b : Book}
variable {l : PriceLevel} {pos : LevelPos} {d : BasicDelta} {s : BookSide}

theorem KeptAt.same {l' : PriceLevel} (h : KeptAt w a pos l) (hp : l'.price = l.price)
    (hs : l'.side = l.side) (hb : l'.book = l.book) : KeptAt w a pos l' := by
  cases pos with
  | market s => trivial
  | limit s p =>
    exact ⟨hp.trans h.price, hs.trans h.side, fun hst => hb.trans (h.book hst), h.taken⟩

section

variable (h : b.KeepsLevels w a)

include h

theorem KeepsLevels.keptAt (hat : b.levelAt pos = some l) : KeptAt w a pos l := by
  cases pos with
  | market s => trivial
  | limit s p => exact h.levels s p l hat

section

variable (hl : KeptAt w a pos l)

include hl

theorem KeepsLevels.putLevel : (b.putLevel pos l).KeepsLevels w a := by
  cases pos with
  | market s => exact ⟨h.addr, h.levels⟩
  | limit s p => exact ⟨h.addr, h.levels.putLevel hl⟩

omit hl in
theorem KeepsLevels.eraseLevel (s : BookSide) (p : Price) : (b.eraseLevel s p).KeepsLevels w a :=
  ⟨h.addr, h.levels.eraseLevel s p⟩

omit hl in
theorem KeepsLevels.withPublisher (x : Publisher) (n : Nat) :
    { b with publisher := x, nextRef := n }.KeepsLevels w a :=
  ⟨h.addr, h.levels⟩

omit hl in
theorem KeepsLevels.publish (e : Option Entry) (l : PriceLevel)
    (n : Int) (pa ea : Action) : (b.publish e l n pa ea).KeepsLevels w a :=
  ⟨h.addr, h.levels⟩

/-! ## Entries -/

theorem KeepsLevels.levelAddEntry (e : Entry) : (b.levelAddEntry pos l e).KeepsLevels w a := by
  exact (h.withPublisher _ b.nextRef).putLevel (hl.same rfl rfl rfl)

theorem KeepsLevels.levelEraseEntry
    (f : Entry → Bool) : (b.levelEraseEntry pos l f).KeepsLevels w a := by
  unfold Book.levelEraseEntry
  split
  · exact h
  next e hf =>
  have hl' : KeptAt w a pos (l.eraseEntryByIterator (b.counts l) f) := by
    rw [PriceLevel.eraseEntryByIterator, hf]; exact hl.same rfl rfl rfl
  refine KeepsLevels.putLevel ?_ hl'
  split
  · exact ⟨h.addr, h.levels⟩
  · exact h

theorem KeepsLevels.levelUpdateEntry (e : Entry)
    (owner : Option PriceLevel) : (b.levelUpdateEntry pos l e owner).1.KeepsLevels w a := by
  have h₁ : (b.putLevel pos (l.updateEntry e)).KeepsLevels w a :=
    h.putLevel (hl.same rfl rfl rfl)
  unfold Book.levelUpdateEntry
  split
  · exact h₁.publish _ _ _ _ _
  · exact h₁
  · exact h₁

theorem KeepsLevels.levelRemoveEntryById (e : Entry) :
    (b.levelRemoveEntryById pos l e).KeepsLevels w a := by
  have hl' : KeptAt w a pos { l with entries := some l.entryList } := hl.same rfl rfl rfl
  exact (h.putLevel hl').levelEraseEntry hl' _

end

theorem KeepsLevels.findOrCreateLevel (s : BookSide) (p : Price)
    (hp : ¬ w.free s p) :
    (b.findOrCreateLevel s p s.side).1.KeepsLevels w a ∧
      (b.findOrCreateLevel s p s.side).1.findLevel s p =
        some (b.findOrCreateLevel s p s.side).2.1 := by
  unfold Book.findOrCreateLevel
  split
  · next l hl => exact ⟨h, hl⟩
  · have hnew : Kept w a s p ((PriceLevel.new (b.fresh 0) p s.side).setOrderBook b.addr) :=
      ⟨rfl, rfl, fun _ => congrArg some h.addr, hp⟩
    have hat : KeptAt w a (.limit s p) _ := hnew
    have h₁ := (h.withPublisher b.publisher (b.nextRef + 1)).putLevel hat
    exact ⟨h₁.publish _ _ _ _ _, findLevel_putLevel_self _ s p _⟩

theorem KeepsLevels.addEntry (relink : Bool) (s : BookSide) (p : Price) (e : Entry) (t : DateTime)
    (hfree : ¬ w.free s p) : (b.addEntry relink s p e t).1.KeepsLevels w a := by
  obtain ⟨h₁, hf⟩ := h.findOrCreateLevel s p hfree
  have hl := h₁.levels s p _ hf
  have haddr := h₁.addr
  unfold Book.addEntry
  simp only
  refine h₁.levelAddEntry ?_ e
  cases relink with
  | true => exact ⟨hl.price, hl.side, fun _ => congrArg some haddr, hl.taken⟩
  | false => exact ⟨hl.price, hl.side, hl.book, hl.taken⟩

theorem KeepsLevels.detachLevel (l : PriceLevel) : (b.detachLevel l).KeepsLevels w a := by
  refine ⟨?_, h.levels.detachLevel l⟩
  rw [← h.addr]
  unfold Book.detachLevel
  split
  · rfl
  · rfl
  · split <;> rfl

variable {r : Book × BasicDelta} {ref : Ref} {t : DateTime} {rhs : PriceLevel}

theorem KeepsLevels.updateEntry {n : Nat} (hu : b.updateEntry ref n t = some r) :
    r.1.KeepsLevels w a := by
  unfold Book.updateEntry at hu
  split at hu
  · cases hu
  next pos l e hloc =>
  split at hu
  · cases hu
    have hl := h.keptAt (locate_spec hloc).1
    refine KeepsLevels.publish (h.putLevel (hl.same ?_ ?_ ?_)) _ _ _ _ _ <;>
    · unfold Book.updatedLevel
      split <;> rfl
  · cases hu

theorem KeepsLevels.deleteEntry {d : Bool} (hd : b.deleteEntry ref t d = some r) :
    r.1.KeepsLevels w a := by
  unfold Book.deleteEntry at hd
  split at hd
  · cases hd
  next pos l e hloc =>
  split at hd
  · cases hd
    have hl : KeptAt w a pos (b.stampLevel l e t) :=
      (h.keptAt (locate_spec hloc).1).same rfl rfl rfl
    have h₁ := h.levelEraseEntry hl (·.ref == ref)
    split <;> split
    · exact (h₁.detachLevel _).publish _ _ _ _ _
    · exact h₁.publish _ _ _ _ _
    · exact h₁.detachLevel _
    · exact h₁
  · cases hd

/-! ## Levels -/

theorem KeepsLevels.newLevelCopy (s : BookSide) {level : PriceLevel} (hs : level.side = s.side)
    (hp : ¬ w.free s level.price) : Kept w a s level.price (b.newLevelCopy level) :=
  ⟨rfl, hs, fun _ => congrArg some h.addr, hp⟩

theorem KeepsLevels.takeLevelCopy (level : PriceLevel) : (b.takeLevelCopy level).KeepsLevels w a :=
  ⟨h.addr, h.levels⟩

theorem KeepsLevels.insertLevelCopy (s : BookSide) {level : PriceLevel} (hs : level.side = s.side)
    (hp : ¬ w.free s level.price) : (b.insertLevelCopy s level).KeepsLevels w a := by
  have hnew : KeptAt w a (.limit s level.price) (b.newLevelCopy level) := h.newLevelCopy s hs hp
  exact ((h.takeLevelCopy level).putLevel hnew).publish _ _ _ _ _

theorem KeepsLevels.insertDeltaLevel (s : BookSide) (hs : d.level.side = s.side)
    (hp : ¬ w.free s d.level.price) : (b.insertDeltaLevel s d).KeepsLevels w a := by
  have hnew : KeptAt w a (.limit s d.level.price) (b.newLevelCopy d.level) :=
    h.newLevelCopy s hs hp
  exact ((h.takeLevelCopy d.level).putLevel hnew).publish _ _ _ _ _

omit h in
/-- An overwritten level lies under its price and side, be it a copy or emptied by being copied
onto itself. -/
theorem copy_price_side {p : Price} (fresh : Nat → Ref) (hl : Kept w a s p l) (hp : rhs.price = p)
    (hs : rhs.side = s.side) : (l.copy fresh rhs).price = p ∧ (l.copy fresh rhs).side = s.side := by
  unfold PriceLevel.copy
  split
  · split <;> exact ⟨hl.price, hl.side⟩
  · exact ⟨hp, hs⟩

theorem KeepsLevels.overwriteLevel {level : PriceLevel}
    (hf : b.findLevel s level.price = some l) (hs : level.side = s.side) (hw : w.strict = false) :
    (b.overwriteLevel s l level).KeepsLevels w a := by
  have hl := h.levels s _ l hf
  obtain ⟨hp, hside⟩ := copy_price_side b.fresh hl rfl hs
  have hcopy : KeptAt w a (.limit s level.price) (l.copy b.fresh level) :=
    ⟨hp, hside, fun hst => absurd (hw.symm.trans hst) (by decide), hl.taken⟩
  exact ((h.withPublisher _ _).putLevel hcopy).publish _ _ _ _ _

omit h in
theorem levelAt_putLevel_self (b : Book) (pos : LevelPos) (l : PriceLevel) :
    (b.putLevel pos l).levelAt pos = some l := by
  cases pos with
  | limit s p => exact findLevel_putLevel_self b s p l
  | market s =>
    show (b.marketOrders.set s (some l)).get s = some l
    rw [Sides.get_set, if_pos rfl]

theorem KeepsLevels.putLevel_putLevel (l' : PriceLevel)
    (hl : KeptAt w a pos l) : ((b.putLevel pos l').putLevel pos l).KeepsLevels w a := by
  cases pos with
  | market s => exact ⟨h.addr, h.levels⟩
  | limit s p =>
    refine ⟨h.addr, ?_⟩
    intro t q x hx
    rw [findLevel_putLevel] at hx
    split at hx
    · next heq =>
      obtain ⟨rfl, rfl⟩ := heq
      rwa [← Option.some.inj hx]
    · next hne => rw [findLevel_putLevel, if_neg hne] at hx; exact h.levels t q x hx

theorem KeepsLevels.levelCopy_relink
    (hcopy : KeptAt w a pos ((l.copy b.fresh rhs).setOrderBook a)) :
    ((b.levelCopy pos l rhs).relink pos).KeepsLevels w a := by
  have haddr : ∀ x : PriceLevel, ∀ b₁ : Book, (b₁.putLevel pos x).addr = b₁.addr := by
    intro x b₁
    cases pos <;> rfl
  obtain rfl := h.addr
  rw [Book.levelCopy, Book.relink, levelAt_putLevel_self]
  simp only [haddr]
  exact (h.withPublisher _ _).putLevel_putLevel _ hcopy

theorem KeepsLevels.overwriteDeltaLevel (hf : b.findLevel s d.level.price = some l)
    (hs : d.level.side = s.side) : (b.overwriteDeltaLevel s l d).KeepsLevels w a := by
  have hl := h.levels s _ l hf
  obtain ⟨hp, hside⟩ := copy_price_side b.fresh hl rfl hs
  have hcopy : KeptAt w a (.limit s d.level.price) ((l.copy b.fresh d.level).setOrderBook a) :=
    ⟨hp, hside, fun _ => rfl, hl.taken⟩
  exact (h.levelCopy_relink hcopy).publish _ _ _ _ _

theorem KeepsLevels.setLevelDetails (pos : LevelPos)
    (rhs : PriceLevel) : (b.setLevelDetails pos rhs).KeepsLevels w a := by
  unfold Book.setLevelDetails
  split
  · next l hat => exact h.putLevel ((h.keptAt hat).same rfl rfl rfl)
  · exact h

/-! ## Applying -/

theorem KeepsLevels.applyEntry (pos : LevelPos) (action : Action) (e : Entry)
    (owner : Option PriceLevel) : (b.applyEntry pos action e owner).1.KeepsLevels w a := by
  unfold Book.applyEntry
  split
  · next hat => exact h.levelAddEntry (h.keptAt hat) e
  · next hat => exact h.levelUpdateEntry (h.keptAt hat) e owner
  · next hat => exact h.levelRemoveEntryById (h.keptAt hat) e
  · exact h

omit h in
theorem KeepsLevels.applyEntries (pos : LevelPos) (es : List Entry) :
    ∀ {b : Book}, b.KeepsLevels w a → (b.applyEntries pos es).1.KeepsLevels w a := by
  induction es with
  | nil => exact fun h => h
  | cons e es ih =>
    intro b h
    have h₁ := (h.withPublisher b.publisher (b.nextRef + 1)).applyEntry pos e.action
      (e.copyAt (b.fresh 0)) none
    unfold Book.applyEntries
    split
    · next b' heq => rw [heq] at h₁; exact ih h₁
    · exact h₁

theorem KeepsLevels.applyDeltaEntry (pos : LevelPos)
    (d : BasicDelta) : (b.applyDeltaEntry pos d).1.KeepsLevels w a := by
  unfold Book.applyDeltaEntry
  split
  · exact (h.withPublisher b.publisher (b.nextRef + 1)).applyEntry _ _ _ _
  · exact h.applyEntry _ _ _ _
  · exact h

omit h in
theorem KeepsLevels.thenDetails {r : Outcome} (h : r.1.KeepsLevels w a) (pos : LevelPos)
    (level : PriceLevel) :
    (match r with
      | (b', none) => ((b'.setLevelDetails pos level, none) : Outcome)
      | r => r).1.KeepsLevels w a := by
  split
  · exact KeepsLevels.setLevelDetails h pos level
  · exact h

theorem KeepsLevels.deleteLevelSide (s : BookSide)
    (level : PriceLevel) : (b.deleteLevelSide s level).1.KeepsLevels w a := by
  unfold Book.deleteLevelSide
  split
  · exact (h.eraseLevel s level.price).publish _ _ _ _ _
  · exact h

theorem KeepsLevels.applyLevelSide {level : PriceLevel}
    (hs : level.side = s.side) (hp : ¬ w.free s level.price) (shown : List Entry) :
    (b.applyLevelSide s level shown).1.KeepsLevels w a := by
  unfold Book.applyLevelSide
  split
  · exact (h.applyEntries _ shown).thenDetails _ level
  · exact h.insertLevelCopy s hs hp

theorem KeepsLevels.addLevelSide {level : PriceLevel} (hs : level.side = s.side)
    (hp : ¬ w.free s level.price) (hnew : w.strict → b.findLevel s level.price = none) :
    (b.addLevelSide s level).1.KeepsLevels w a := by
  unfold Book.addLevelSide
  split
  · exact h.insertLevelCopy s hs hp
  · next l hf =>
    cases hw : w.strict with
    | true => rw [hnew hw] at hf; cases hf
    | false => exact h.overwriteLevel hf hs hw

theorem KeepsLevels.applyLevel {level : PriceLevel} (book : Book)
    (hs : level.side = s.side) (hp : ¬ w.free s level.price)
    (hnew : w.strict → level.action = .add → b.findLevel s level.price = none) :
    (b.applyLevel s book level).1.KeepsLevels w a := by
  unfold Book.applyLevel
  split
  · next hact => exact h.addLevelSide hs hp fun hst => hnew hst hact
  · exact h.applyLevelSide hs hp _
  · exact h.deleteLevelSide s level
  · exact h

theorem KeepsLevels.weaken {free : BookSide → Price → Prop}
    (hfree : ∀ s p, free s p → w.free s p) : b.KeepsLevels ⟨w.strict, free⟩ a := by
  refine ⟨h.addr, fun s p l hl => ?_⟩
  have hk := h.levels s p l hl
  exact ⟨hk.price, hk.side, hk.book, fun hf => hk.taken (hfree s p hf)⟩

/-- The places where the levels of a list are still to be added. -/
def awaited (strict : Bool) (s : BookSide) (ls : List PriceLevel) (t : BookSide) (q : Price) :
    Prop :=
  strict ∧ t = s ∧ ∃ l ∈ ls, l.action = .add ∧ l.price = q

omit h in
theorem KeepsLevels.applySide (s : BookSide) (book : Book) (rest : BookSide → Price → Prop)
    (ls : List PriceLevel) : (∀ l ∈ ls, l.side = s.side ∧ ¬ rest s l.price) →
    ls.Pairwise (fun l l' => l.price ≠ l'.price) →
    ∀ {b : Book}, b.KeepsLevels ⟨strict, fun t q => awaited strict s ls t q ∨ rest t q⟩ a →
      (b.applySide s book ls).1.KeepsLevels ⟨strict, rest⟩ a := by
  induction ls with
  | nil => intro _ _ b h; exact h.weaken fun _ _ hf => .inr hf
  | cons l ls ih =>
    intro hls hnd b h
    obtain ⟨hside, hrest⟩ := hls l mem_cons_self
    obtain ⟨hl, hnd'⟩ := pairwise_cons.mp hnd
    have h₁ : b.KeepsLevels ⟨strict, fun t q => awaited strict s ls t q ∨ rest t q⟩ a := by
      refine h.weaken ?_
      rintro t q (⟨hst, ht, x, hx, hxq⟩ | hr)
      · exact .inl ⟨hst, ht, x, mem_cons_of_mem _ hx, hxq⟩
      · exact .inr hr
    have hnew : strict → l.action = .add → b.findLevel s l.price = none := by
      intro hst hact
      cases hf : b.findLevel s l.price with
      | none => rfl
      | some x =>
        have hx := (h.levels s _ x hf).taken
        exact (hx (.inl ⟨hst, rfl, l, mem_cons_self, hact, rfl⟩)).elim
    have hfree : ¬ (awaited strict s ls s l.price ∨ rest s l.price) := by
      rintro (⟨-, -, x, hx, -, hxl⟩ | hr)
      · exact hl x hx hxl.symm
      · exact hrest hr
    have h₂ := h₁.applyLevel book hside hfree hnew
    unfold Book.applySide
    split
    · next b' heq => rw [heq] at h₂; exact ih (fun x hx => hls x (mem_cons_of_mem _ hx)) hnd' h₂
    · exact h₂.weaken fun _ _ hf => .inr hf

theorem KeepsLevels.applyMarketOrderSide (s : BookSide) (action : Action)
    (level : PriceLevel) (entries : Book → Outcome)
    (he : ∀ {b : Book}, b.KeepsLevels w a → (entries b).1.KeepsLevels w a) :
    (b.applyMarketOrderSide s action level entries).1.KeepsLevels w a := by
  have hinsert : (b.insertMarketCopy s level).KeepsLevels w a := ⟨h.addr, h.levels⟩
  unfold Book.applyMarketOrderSide
  split
  · unfold Book.addMarketOrderLevelSide
    split
    · exact hinsert
    · exact h.levelCopy_relink trivial
  · unfold Book.applyMarketOrderLevelSide
    split
    · exact (he h).thenDetails _ level
    · exact hinsert
  · exact ⟨h.addr, h.levels⟩
  · exact h

theorem KeepsLevels.applyMarketOrders (s : BookSide) (book : Book) :
    (b.applyMarketOrders s book).1.KeepsLevels w a := by
  unfold Book.applyMarketOrders
  split
  · exact h
  · exact h.applyMarketOrderSide s _ _ _ fun hb => hb.applyEntries _ _

omit h in
theorem KeepsLevels.andThen {r : Outcome} (h : r.1.KeepsLevels w a) {f : Book → Outcome}
    (hf : ∀ {b : Book}, b.KeepsLevels w a → (f b).1.KeepsLevels w a) :
    (Outcome.andThen r f).1.KeepsLevels w a := by
  unfold Outcome.andThen
  split
  · exact hf h
  · exact h

/-- Nothing but the fit, and the link where `strict` asks for it. -/
def anywhere (strict : Bool) : Wanted := ⟨strict, fun _ _ => False⟩

theorem KeepsLevels.values (s : BookSide) : (∀ l ∈ (b.levels.get s).values, l.side = s.side) ∧
    (b.levels.get s).values.Pairwise fun l l' => l.price ≠ l'.price := by
  have hmem : ∀ x ∈ (b.levels.get s).toList, Kept w a s x.1 x.2 := fun x hx =>
    h.levels s x.1 x.2 (SortedMap.mem_toList.mp hx)
  refine ⟨?_, ?_⟩
  · intro l hl
    obtain ⟨x, hx, rfl⟩ := mem_map.mp hl
    exact (hmem x hx).side
  · refine pairwise_map.mpr ((b.levels.get s).sorted.imp_of_mem ?_)
    intro x y hx hy hlt
    rw [(hmem x hx).price, (hmem y hy).price]
    exact ne_of_lt hlt

end

section

variable (h : b.KeepsLevels (anywhere strict) a)

include h

variable {a' : Nat} {v : Wanted}

theorem KeepsLevels.apply {book : Book} (hbook : book.KeepsLevels v a')
    (hnew : strict → ∀ s, ∀ l ∈ (book.levels.get s).values, l.action = .add →
      b.findLevel s l.price = none) :
    (b.apply book).1.KeepsLevels (anywhere strict) a := by
  obtain ⟨hbid, hbidnd⟩ := hbook.values .bid
  obtain ⟨hask, hasknd⟩ := hbook.values .ask
  have hstart : { b with symbol := book.symbol }.KeepsLevels ⟨strict, fun t q =>
      awaited strict .bid book.levels.bid.values t q ∨
        (awaited strict .ask book.levels.ask.values t q ∨ False)⟩ a := by
    refine ⟨h.addr, fun s p l hl => ?_⟩
    have hk := h.levels s p l hl
    refine ⟨hk.price, hk.side, hk.book, ?_⟩
    have habsent : ∀ t, s = t → strict →
        ¬ ∃ x ∈ (book.levels.get t).values, x.action = .add ∧ x.price = p := by
      rintro t rfl hst ⟨x, hx, hact, rfl⟩
      have hnone := hnew hst s x hx hact
      exact absurd (hnone.symm.trans hl) (by simp)
    rintro (⟨hst, ht, hx⟩ | ⟨hst, ht, hx⟩ | hf)
    · exact habsent .bid ht hst hx
    · exact habsent .ask ht hst hx
    · exact hf
  have h₁ := KeepsLevels.applySide .bid book
    (fun t q => awaited strict .ask book.levels.ask.values t q ∨ False) book.levels.bid.values
    (by
      refine fun l hl => ⟨hbid l hl, ?_⟩
      rintro (⟨-, ht, -⟩ | hf)
      · cases ht
      · exact hf) hbidnd hstart
  have h₂ : (Outcome.andThen (Book.applySide { b with symbol := book.symbol } .bid book
      book.levels.bid.values) fun b => b.applySide .ask book book.levels.ask.values).1.KeepsLevels
      (anywhere strict) a := by
    unfold Outcome.andThen
    split
    · next b' heq =>
      rw [heq] at h₁
      exact KeepsLevels.applySide .ask book (fun _ _ => False) book.levels.ask.values
        (fun l hl => ⟨hask l hl, fun hf => hf⟩) hasknd h₁
    · next b' err heq => rw [heq] at h₁; exact h₁.weaken fun _ _ hf => .inr hf
  refine ((h₂.andThen ?_).andThen ?_).andThen ?_
  · exact fun hb => hb.applyMarketOrders .bid book
  · exact fun hb => hb.applyMarketOrders .ask book
  · exact fun hb => ⟨hb.addr, hb.levels⟩

theorem KeepsLevels.copy {book : Book} (hbook : book.KeepsLevels v a') :
    (b.copy book).1.KeepsLevels (anywhere strict) a := by
  have hclear : { b.clear with checkVisibility := book.checkVisibility }.KeepsLevels
      (anywhere strict) a := ⟨h.addr, allLevels_of_empty rfl⟩
  refine hclear.apply hbook fun _ s l _ _ => ?_
  cases s <;> rfl

theorem KeepsLevels.applyDeltaSide
    (hs : d.level.side = s.side) : (b.applyDeltaSide s d).1.KeepsLevels (anywhere strict) a := by
  unfold Book.applyDeltaSide
  split
  · unfold Book.addDeltaLevelSide
    split
    · exact h.insertDeltaLevel s hs fun hf => hf
    · next l hf => exact h.overwriteDeltaLevel hf hs
  · unfold Book.applyDeltaLevelSide
    split
    · exact (h.applyDeltaEntry _ d).thenDetails _ d.level
    · exact h.insertDeltaLevel s hs fun hf => hf
  · unfold Book.deleteDeltaLevelSide
    split
    · exact h
    · exact h.eraseLevel s _
    · exact h.eraseLevel s _
    · exact (h.eraseLevel s _).publish _ _ _ _ _
  · exact h

theorem KeepsLevels.applyDelta (d : BasicDelta) :
    (b.applyDelta d).1.KeepsLevels (anywhere strict) a := by
  unfold Book.applyDelta
  split
  · exact h.applyMarketOrderSide _ _ _ _ fun hb => hb.applyDeltaEntry _ d
  · exact h
  · next hs _ => exact h.applyDeltaSide (Side.book?_eq_some.mp hs)
  · exact h

end

theorem KeepsLevels.applyDeltas (ds : List BasicDelta) : ∀ {b : Book},
    b.KeepsLevels (anywhere strict) a → (b.applyDeltas ds).1.KeepsLevels (anywhere strict) a := by
  induction ds with
  | nil => exact fun h => h
  | cons d ds ih => exact fun h => (h.applyDelta d).andThen ih

end Operations

end Book

/-! ## Runs -/

/-- The operations that put levels into a book or take them out. -/
inductive LevelOp
  | addLevel (level : PriceLevel)
  | updateLevel (level : PriceLevel)
  | deleteLevel (level : PriceLevel)
  | applyBook (book : Book)
  | applyDelta (d : BasicDelta)
  | applyDeltas (ds : List BasicDelta)
  | copy (book : Book)
  | entry (op : EntryOp)

namespace LevelOp

/-- One call, thrown or not; a book is not applied to itself. -/
def step (b : Book) : LevelOp → Option Book
  | .addLevel level => some (b.addLevel level).1
  | .updateLevel level => some (b.updateLevel level).1
  | .deleteLevel level => some (b.deleteLevel level).1
  | .applyBook book => if book.addr = b.addr then none else some (b.apply book).1
  | .applyDelta d => some (b.applyDelta d).1
  | .applyDeltas ds => some (b.applyDeltas ds).1
  | .copy book => if book.addr = b.addr then none else some (b.copy book).1
  | .entry (.addEntry relink side p e t) => EntryOp.step b (.addEntry relink side p e t)
  | .entry (.updateEntry ref n t) => EntryOp.step b (.updateEntry ref n t)
  | .entry (.deleteEntry ref t d) => EntryOp.step b (.deleteEntry ref t d)
  | .entry _ => none

def book? : LevelOp → Option Book
  | .applyBook book => some book
  | .copy book => some book
  | _ => none

/-- The operation takes neither a level that is not linked to the book nor overwrites one: an
added level is new and linked, an updated one is missing, and so is a level to be added by
`apply`. -/
def KeepsLinks (b : Book) : LevelOp → Prop
  | .addLevel level => ∀ s, level.side.book? = some s →
      b.findLevel s level.price = none ∧ level.book = some b.addr
  | .updateLevel level => ∀ s, level.side.book? = some s → b.findLevel s level.price = none
  | .applyBook book => ∀ s, ∀ l ∈ (book.levels.get s).values, l.action = .add →
      b.findLevel s l.price = none
  | _ => True

/-- The books that runs of these operations lead to, from new ones. -/
inductive Built : Book → Prop
  | new (addr : Nat) (sourceOk : Nat → Bool) (check publish : Bool) :
    Built (Book.start addr sourceOk check publish)
  | step {b b' : Book} {o : LevelOp} (hb : Built b)
    (hbook : ∀ book, o.book? = some book → Built book) (hs : step b o = some b') : Built b'

/-- The books that such runs lead to when every step keeps the links. -/
inductive BuiltLinked : Book → Prop
  | new (addr : Nat) (sourceOk : Nat → Bool) (check publish : Bool) :
    BuiltLinked (Book.start addr sourceOk check publish)
  | step {b b' : Book} {o : LevelOp} (hb : BuiltLinked b)
    (hbook : ∀ book, o.book? = some book → Built book) (hop : KeepsLinks b o)
    (hs : step b o = some b') : BuiltLinked b'

theorem keepsLevels_onSide {w : Wanted} {a : Nat} {b : Book} (h : b.KeepsLevels w a)
    {level : PriceLevel} {f : Book → BookSide → PriceLevel → Outcome}
    (hf : ∀ s, level.side.book? = some s → (f b s level).1.KeepsLevels w a) :
    (b.onSide level f).1.KeepsLevels w a := by
  unfold Book.onSide
  split
  · next s hs => exact hf s hs
  · exact h

theorem keepsLevels_step {a : Nat} {b b' : Book} {op : LevelOp}
    (h : b.KeepsLevels (Book.anywhere strict) a)
    (hbook : ∀ book, op.book? = some book → ∃ v a', book.KeepsLevels v a')
    (hop : strict → KeepsLinks b op) (hs : step b op = some b') :
    b'.KeepsLevels (Book.anywhere strict) a := by
  cases op with
  | addLevel level =>
    cases hs
    refine keepsLevels_onSide h fun s hside => ?_
    have hs' := Side.book?_eq_some.mp hside
    unfold Book.addLevelSideNoCopy
    split
    · have hkept : Book.KeptAt (Book.anywhere strict) a (.limit s level.price) level :=
        ⟨rfl, hs', fun hst => (hop hst s hside).2.trans (congrArg some h.addr), fun hf => hf⟩
      exact (h.putLevel hkept).publish _ _ _ _ _
    · next l hf =>
      cases strict with
      | true => exact absurd ((hop rfl s hside).1.symm.trans hf) (by simp)
      | false => exact h.overwriteLevel hf hs' rfl
  | updateLevel level =>
    cases hs
    refine keepsLevels_onSide h fun s hside => ?_
    have hs' := Side.book?_eq_some.mp hside
    unfold Book.updateLevelSide
    split
    · next l hf =>
      cases strict with
      | true => exact absurd ((hop rfl s hside).symm.trans hf) (by simp)
      | false => exact h.overwriteLevel hf hs' rfl
    · exact h.insertLevelCopy s hs' fun hf => hf
  | deleteLevel level => cases hs; exact keepsLevels_onSide h fun s _ => h.deleteLevelSide s level
  | applyBook book =>
    simp only [step] at hs
    split at hs
    · cases hs
    · cases hs
      obtain ⟨v, a', hb⟩ := hbook book rfl
      exact h.apply hb hop
  | applyDelta d => cases hs; exact h.applyDelta d
  | applyDeltas ds => cases hs; exact h.applyDeltas ds
  | copy book =>
    simp only [step] at hs
    split at hs
    · cases hs
    · cases hs
      obtain ⟨v, a', hb⟩ := hbook book rfl
      exact h.copy hb
  | entry op =>
    cases op with
    | addEntry relink side p e t =>
      simp only [step, EntryOp.step] at hs
      split at hs
      · cases hs
      · cases hs; exact h
      · cases hs; exact h.addEntry relink _ p e t fun hf => hf
    | updateEntry ref n t =>
      obtain ⟨r, hr, rfl⟩ := Option.map_eq_some_iff.mp hs
      exact h.updateEntry hr
    | deleteEntry ref t d =>
      obtain ⟨r, hr, rfl⟩ := Option.map_eq_some_iff.mp hs
      exact h.deleteEntry hr
    | addEntriesFromBook book filter => cases hs
    | deleteEntriesFromSource source => cases hs

theorem keepsLevels_start (strict : Bool) (addr : Nat) (sourceOk : Nat → Bool)
    (check publish : Bool) :
    (Book.start addr sourceOk check publish).KeepsLevels (Book.anywhere strict) addr := by
  cases publish <;> exact ⟨rfl, Book.allLevels_of_empty rfl⟩

theorem keepsLevels_of_built {b : Book} (h : Built b) :
    b.KeepsLevels (Book.anywhere false) b.addr := by
  induction h with
  | new addr sourceOk check publish =>
    have hstart := keepsLevels_start false addr sourceOk check publish
    rwa [hstart.addr]
  | step _ _ hs ih ihbook =>
    have hnext := keepsLevels_step ih (fun book hb => ⟨_, _, ihbook book hb⟩) (by simp) hs
    rwa [hnext.addr]

/-- A run that keeps the links at every step leads to books whose levels all lie under their
price and side and are linked to the book. -/
theorem linked_of_builtLinked (b : Book) (h : BuiltLinked b) : ∀ s p l, b.findLevel s p = some l →
    l.price = p ∧ l.side = s.side ∧ l.book = some b.addr := by
  have hkeeps : b.KeepsLevels (Book.anywhere true) b.addr := by
    induction h with
    | new addr sourceOk check publish =>
      have hstart := keepsLevels_start true addr sourceOk check publish
      rwa [hstart.addr]
    | step _ hbook hop hs ih =>
      have hnext := keepsLevels_step ih
        (fun book hb => ⟨_, _, keepsLevels_of_built (hbook book hb)⟩) (fun _ => hop) hs
      rwa [hnext.addr]
  intro s p l hl
  have hk := hkeeps.levels s p l hl
  exact ⟨hk.price, hk.side, hk.book rfl⟩

/-- A level is added by an update that throws, by its first entry, as the caller made and linked it,
by a delta, and then one is taken away. -/
def insertions : List LevelOp :=
  [.updateLevel (PriceLevel.new ⟨9, 0⟩ 10 .bid),
    .entry (.addEntry true .ask 20 (Entry.create ⟨9, 1⟩ "A") .null),
    .addLevel { PriceLevel.new ⟨9, 2⟩ 11 .bid with book := some 0 },
    .applyDelta ⟨none, PriceLevel.new ⟨9, 3⟩ 12 .bid, 1, .add, .unknown⟩,
    .deleteLevel (PriceLevel.new ⟨9, 4⟩ 10 .bid)]

theorem linked_insertions :
    ∃ b, insertions.foldlM step (Book.start 0 (fun _ => true) false true) = some b ∧
      (b.levels.bid.values.map PriceLevel.price, b.levels.ask.values.map PriceLevel.price) =
        ([11, 12], [20]) ∧
      ∀ s p l, b.findLevel s p = some l →
        l.price = p ∧ l.side = s.side ∧ l.book = some b.addr := by
  have hbook : ∀ o ∈ insertions, ∀ book, o.book? = some book → Built book := by
    intro o ho book hbook
    simp only [insertions, List.mem_cons, List.not_mem_nil, or_false] at ho
    rcases ho with rfl | rfl | rfl | rfl | rfl <;> cases hbook
  refine ⟨_, rfl, by decide +kernel, linked_of_builtLinked _ ?_⟩
  have updated := BuiltLinked.step (.new 0 (fun _ => true) false true) (hbook _ (.head _))
    (fun s _ => by cases s <;> rfl) rfl
  have entered := BuiltLinked.step updated (hbook _ (.tail _ (.head _))) trivial rfl
  have added := BuiltLinked.step entered (hbook _ (.tail _ (.tail _ (.head _))))
    (fun s _ => ⟨by cases s <;> rfl, rfl⟩) rfl
  have applied := BuiltLinked.step added (hbook _ (.tail _ (.tail _ (.tail _ (.head _))))) trivial
    rfl
  exact BuiltLinked.step applied
    (hbook _ (.tail _ (.tail _ (.tail _ (.tail _ (.head _)))))) trivial rfl

/-- A level that the caller made is added as it is: it stays linked to no book. -/
theorem addLevel_unlinked : ∃ b, Built b ∧
    ∃ l, b.findLevel .bid 10 = some l ∧ l.book ≠ some b.addr := by
  refine ⟨_, Built.step (Built.new 0 (fun _ => true) false false)
    (o := .addLevel (PriceLevel.new ⟨9, 0⟩ 10 .bid)) (fun _ h => nomatch h) rfl, _, rfl, ?_⟩
  decide

end LevelOp

end Mamda

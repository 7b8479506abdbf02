import OpenMama.Mamda.BookLevels

/-!
# The totals of a level

A level keeps its size, its number of entries and its total number of entries
up to date by adding and subtracting.  `Totals q l` says that they are what a
recount over the entries that `q` counts would give; each operation keeps it,
provided the entry it adds, changes or removes is one that the operation and
`q` agree on.  With `q` the entries the book sees now, the totals are right
after every run of entry operations while no source changes its state
(`totals_of_run`).
-/

namespace Mamda

open Mama Lib List

/-! ## One level -/

/-- The totals of the level are those of the entries `q` counts, and each entry is wired to
the level. -/
structure Totals (q : Entry → Bool) (l : PriceLevel) : Prop where
  size : l.size = sumOn q Entry.size l.entryList
  numEntries : l.numEntries = l.entryList.countP q % 2 ^ 32
  numEntriesTotal : l.numEntriesTotal = l.entryList.length % 2 ^ 32
  wired : ∀ e ∈ l.entryList, e.priceLevel = some l.ref

/-- A test that looks at the address and the source of an entry only. -/
def StableTest (q : Entry → Bool) : Prop :=
  ∀ e e' : Entry, e.ref = e'.ref → e.sourceDeriv = e'.sourceDeriv → q e = q e'

section Level

variable {q counts : Entry → Bool} {l : PriceLevel} {e : Entry}

theorem Totals.addEntry (hq : StableTest q) (h : Totals q l) (hc : counts e = q e) :
    Totals q (l.addEntry counts e) := by
  have hqe : q { e with priceLevel := some l.ref } = q e := hq _ _ rfl rfl
  constructor
  · show (if counts e then l.size + e.size else l.size) = sumOn q Entry.size (l.entryList ++ [_])
    rw [sumOn_append, sumOn_cons, hqe, hc, h.size]
    split <;> rfl
  · show (if counts e then u32Inc l.numEntries else l.numEntries) =
      (l.entryList ++ [_]).countP q % 2 ^ 32
    rw [countP_append, countP_singleton, hqe, hc, h.numEntries]
    split
    · exact u32Inc_mod _
    · rfl
  · show u32Inc l.numEntriesTotal = (l.entryList ++ [_]).length % 2 ^ 32
    rw [length_append, h.numEntriesTotal]
    exact u32Inc_mod _
  · intro x hx
    rcases List.mem_append.mp hx with hx | hx
    · exact h.wired x hx
    · rw [List.mem_singleton.mp hx]; rfl

variable {p : Entry → Bool}

theorem Totals.eraseEntry (h : Totals q l) (hf : l.entryList.find? p = some e)
    (hc : counts e = q e) :
    Totals q (l.eraseEntryByIterator counts p) := by
  have hsum := sumOn_eraseP (q := q) (w := Entry.size) hf
  have hcount := countP_eraseP (q := q) hf
  have hlen := length_eraseP_of_find? hf
  rw [PriceLevel.eraseEntryByIterator, hf]
  constructor
  · show (if counts e then l.size - e.size else l.size) = sumOn q Entry.size (l.entryList.eraseP p)
    rw [hc, h.size, hsum]
    split <;> omega
  · show (if counts e then u32Dec l.numEntries else l.numEntries) =
      (l.entryList.eraseP p).countP q % 2 ^ 32
    rw [hc, h.numEntries, hcount]
    split
    · exact u32Dec_mod_succ _
    · rfl
  · show u32Dec l.numEntriesTotal = (l.entryList.eraseP p).length % 2 ^ 32
    rw [h.numEntriesTotal, hlen]
    exact u32Dec_mod_succ _
  · intro x hx; exact h.wired x (mem_of_mem_eraseP hx)

variable {es : List Entry}

theorem sumOn_updateFirst (hf : es.find? p = some e) (f : Entry → Entry) (hqf : q (f e) = q e) :
    sumOn q Entry.size (updateFirst p f es) + (if q e then e.size else 0) =
      sumOn q Entry.size es + (if q e then (f e).size else 0) := by
  obtain ⟨l₁, l₂, hl, -, -, -, hu⟩ := split_of_find? hf
  rw [hu f, hl]
  simp only [sumOn_append, sumOn_cons, hqf]
  omega

theorem countP_updateFirst (hf : es.find? p = some e) (f : Entry → Entry) (hqf : q (f e) = q e) :
    (updateFirst p f es).countP q = es.countP q := by
  obtain ⟨l₁, l₂, hl, -, -, -, hu⟩ := split_of_find? hf
  rw [hu f, hl]
  simp [countP_cons, hqf]

theorem length_updateFirst (p : Entry → Bool) (f : Entry → Entry) (es : List Entry) :
    (updateFirst p f es).length = es.length := by
  induction es with
  | nil => rfl
  | cons a es ih =>
    unfold updateFirst
    split
    · rfl
    · rw [length_cons, ih, length_cons]

theorem updatedEntry_sourceDeriv (n : Nat) (t : DateTime) (e : Entry) :
    (Book.updatedEntry n t e).sourceDeriv = e.sourceDeriv := by
  unfold Book.updatedEntry
  split <;> rfl

theorem updatedEntry_ref (n : Nat) (t : DateTime) (e : Entry) :
    (Book.updatedEntry n t e).ref = e.ref := by
  unfold Book.updatedEntry
  split <;> rfl

theorem updatedEntry_priceLevel (n : Nat) (t : DateTime) (e : Entry) :
    (Book.updatedEntry n t e).priceLevel = e.priceLevel := by
  unfold Book.updatedEntry
  split <;> rfl

theorem updatedEntry_size (n : Nat) (t : DateTime) (e : Entry) :
    (Book.updatedEntry n t e).size = n := by
  unfold Book.updatedEntry
  split
  · next h => exact h.symm
  · rfl

theorem entryList_updatedLevel (b : Book) (l : PriceLevel) (e : Entry) (n : Nat) (t : DateTime) :
    (b.updatedLevel l e n t).entryList =
      updateFirst (·.ref == e.ref) (Book.updatedEntry n t) l.entryList := by
  show (l.entries.map _).getD [] = updateFirst _ _ (l.entries.getD [])
  cases l.entries <;> rfl

theorem size_updatedLevel (b : Book) (l : PriceLevel) (e : Entry) (n : Nat) (t : DateTime) :
    (b.updatedLevel l e n t).size =
      if n ≠ e.size ∧ b.seesEntry e then l.size + n - e.size else l.size := by
  unfold Book.updatedLevel
  by_cases h : n ≠ e.size ∧ b.seesEntry e
  · simp only [if_pos h, PriceLevel.setTime, PriceLevel.setSize, Book.updateSizeDelta, if_pos h.2]
    omega
  · simp [if_neg h]

theorem updatedLevel_frame (b : Book) (l : PriceLevel) (e : Entry) (n : Nat) (t : DateTime) :
    (b.updatedLevel l e n t).ref = l.ref ∧ (b.updatedLevel l e n t).book = l.book ∧
      (b.updatedLevel l e n t).numEntries = l.numEntries ∧
      (b.updatedLevel l e n t).numEntriesTotal = l.numEntriesTotal := by
  unfold Book.updatedLevel
  by_cases h : n ≠ e.size ∧ b.seesEntry e
  · simp only [if_pos h]; exact ⟨rfl, rfl, rfl, rfl⟩
  · simp [if_neg h]

theorem Totals.updatedLevel {b : Book} (hq : StableTest q) (h : Totals q l)
    (hf : l.entryList.find? (·.ref == e.ref) = some e) (n : Nat) (t : DateTime)
    (hc : n ≠ e.size → b.seesEntry e = q e) : Totals q (b.updatedLevel l e n t) := by
  obtain ⟨href, -, hnum, htot⟩ := updatedLevel_frame b l e n t
  have hqf : q (Book.updatedEntry n t e) = q e :=
    hq _ _ (updatedEntry_ref n t e) (updatedEntry_sourceDeriv n t e)
  constructor
  · have hsum := sumOn_updateFirst hf (Book.updatedEntry n t) hqf
    rw [updatedEntry_size] at hsum
    rw [entryList_updatedLevel, size_updatedLevel, h.size]
    by_cases hne : n = e.size
    · rw [if_neg (fun hh => hh.1 hne)]
      rw [hne] at hsum ⊢
      omega
    rw [hc hne]
    by_cases hqe : q e
    · rw [if_pos ⟨hne, hqe⟩]
      simp only [hqe, if_true] at hsum
      omega
    · rw [if_neg (fun hh => hqe hh.2)]
      simp only [hqe] at hsum
      simpa using hsum.symm
  · rw [entryList_updatedLevel, countP_updateFirst hf _ hqf, hnum, h.numEntries]
  · rw [entryList_updatedLevel, length_updateFirst, htot, h.numEntriesTotal]
  · rw [entryList_updatedLevel, href]
    refine forall_updateFirst h.wired ?_
    intro a _ ha
    rw [updatedEntry_priceLevel, ha]

/-- Entries that leave one by one: what is left of each total is the part of the rest. -/
theorem uncount_foldl (size count total : Nat) (es : List Entry) :
    ∀ l : PriceLevel, (∀ e ∈ es, counts e = q e) →
      l.size = size + sumOn q Entry.size es →
      l.numEntries = (count + es.countP q) % 2 ^ 32 →
      l.numEntriesTotal = (total + es.length) % 2 ^ 32 →
      let l' := es.foldl (PriceLevel.uncountEntry counts) l
      l'.size = size ∧ l'.numEntries = count % 2 ^ 32 ∧ l'.numEntriesTotal = total % 2 ^ 32 ∧
        l'.ref = l.ref := by
  induction es with
  | nil => intro l _ hs hn ht; exact ⟨hs, hn, ht, rfl⟩
  | cons e es ih =>
    intro l hc hs hn ht
    have hce := hc e mem_cons_self
    rw [sumOn_cons] at hs
    rw [countP_cons] at hn
    rw [length_cons] at ht
    refine ih (l.uncountEntry counts e) (fun x hx => hc x (mem_cons_of_mem _ hx)) ?_ ?_ ?_
    · show (if counts e then l.size - e.size else l.size) = _
      rw [hce, hs]
      split <;> omega
    · show (if counts e then u32Dec l.numEntries else l.numEntries) = _
      rw [hce, hn]
      split
      · rw [← Nat.add_assoc]; exact u32Dec_mod_succ _
      · rfl
    · show u32Dec l.numEntriesTotal = _
      rw [ht]
      exact u32Dec_mod_succ _

theorem uncount_foldl_book (counts : Entry → Bool) (es : List Entry) (l : PriceLevel) :
    (es.foldl (PriceLevel.uncountEntry counts) l).book = l.book :=
  foldlRecOn (motive := (PriceLevel.book · = l.book)) es _ rfl fun _ hl _ _ => hl

theorem Totals.deleteEntriesFromSource (h : Totals q l) (source : Source)
    (hc : ∀ e ∈ l.entryList, e.isPartOf source → counts e = q e) :
    Totals q (l.deleteEntriesFromSource counts source) := by
  unfold PriceLevel.deleteEntriesFromSource
  split
  · exact h
  have hlen : l.entryList.length = (l.entryList.filter fun e => !e.isPartOf source).length +
      (l.entryList.filter (·.isPartOf source)).length := by
    have := countP_filter_add (q := fun _ => true) (fun e : Entry => e.isPartOf source)
      l.entryList
    simpa using this
  obtain ⟨hs, hn, ht, hr⟩ := uncount_foldl (q := q)
    (sumOn q Entry.size (l.entryList.filter fun e => !e.isPartOf source))
    ((l.entryList.filter fun e => !e.isPartOf source).countP q)
    (l.entryList.filter fun e => !e.isPartOf source).length
    (l.entryList.filter (·.isPartOf source)) l
    (fun e he => hc e (List.mem_filter.mp he).1 (List.mem_filter.mp he).2)
    (by rw [h.size]; exact sumOn_filter_add _ _)
    (by rw [h.numEntries]; exact congrArg (· % 2 ^ 32) (countP_filter_add _ _))
    (by rw [h.numEntriesTotal, hlen])
  refine ⟨hs, hn, ht, ?_⟩
  intro e he
  rw [hr]
  exact h.wired e (List.mem_filter.mp he).1

theorem Totals.reevaluate (h : Totals q l) : Totals counts (l.reevaluate counts) := by
  unfold PriceLevel.reevaluate
  split
  · next hempty =>
    have hnil : l.entryList = [] := List.isEmpty_iff.mp hempty
    have hs := h.size
    have hn := h.numEntries
    exact ⟨by rw [hs, hnil]; rfl, by rw [hn, hnil]; rfl, h.numEntriesTotal, h.wired⟩
  · exact ⟨rfl, rfl, h.numEntriesTotal, h.wired⟩

end Level

/-! ## The book -/

structure Env where
  addr : Nat
  checkVisibility : Bool
  sourceOk : Nat → Bool
  generateDeltas : Bool

/-- Whether a level of a book in this environment counts an entry. -/
def Env.sees (v : Env) (e : Entry) : Bool := !v.checkVisibility || e.isVisible v.sourceOk

namespace Book

def env (b : Book) : Env := ⟨b.addr, b.checkVisibility, b.sourceOk, b.generateDeltas⟩

/-- A book in environment `v` whose levels are linked to it and carry the totals of `q`. -/
structure HasTotals (v : Env) (q : Entry → Bool) (b : Book) : Prop where
  env : b.env = v
  noMarket : b.marketOrders = ⟨none, none⟩
  levels : b.AllLevels fun _ _ l => l.book = some v.addr ∧ Totals q l

theorem counts_of_linked {b : Book} {l : PriceLevel} (h : l.book = some b.addr) (e : Entry) :
    b.counts l e = b.seesEntry e := by
  rw [counts, seesEntry, h]
  cases b.checkVisibility <;> simp

theorem stableTest_seesEntry (b : Book) : StableTest b.seesEntry := by
  intro e e' _ hd
  unfold seesEntry Entry.isVisible
  rw [hd]

section HasTotals

variable {v : Env} {q : Entry → Bool} {b : Book}

theorem HasTotals.addr (h : b.HasTotals v q) : b.addr = v.addr := congrArg Env.addr h.env

variable {s : BookSide}

section

variable (h : b.HasTotals v q)

include h

theorem HasTotals.putLevel {p : Price} {l : PriceLevel}
    (hb : l.book = some v.addr) (hl : Totals q l) : (b.putLevel (.limit s p) l).HasTotals v q :=
  ⟨h.env, h.noMarket, h.levels.putLevel ⟨hb, hl⟩⟩

theorem HasTotals.withPublisher (x : Publisher) : { b with publisher := x }.HasTotals v q :=
  ⟨h.env, h.noMarket, h.levels⟩

theorem HasTotals.publish (e : Option Entry) (l : PriceLevel) (n : Int)
    (pa ea : Action) : (b.publish e l n pa ea).HasTotals v q :=
  h.withPublisher _

omit h in
theorem HasTotals.levelAddEntry (hq : StableTest q) (h : b.HasTotals v q) {p : Price}
    {l : PriceLevel} {e : Entry} (hb : l.book = some v.addr) (hl : Totals q l)
    (hc : b.seesEntry e = q e) : (b.levelAddEntry (.limit s p) l e).HasTotals v q := by
  have hcount : b.counts l e = q e := by rw [counts_of_linked (by rw [hb, h.addr]), hc]
  exact (h.withPublisher _).putLevel (l := l.addEntry (b.counts l) e) hb (hl.addEntry hq hcount)

theorem HasTotals.findOrCreateLevel (s : BookSide) (p : Price) (side : Side) :
    (b.findOrCreateLevel s p side).1.HasTotals v q ∧
    (b.findOrCreateLevel s p side).1.findLevel s p = some (b.findOrCreateLevel s p side).2.1 := by
  unfold Book.findOrCreateLevel
  split
  · next l hl => exact ⟨h, hl⟩
  · have hnew : Totals q ((PriceLevel.new (b.fresh 0) p side).setOrderBook b.addr) :=
      ⟨rfl, rfl, rfl, by intro e he; cases he⟩
    have hput := HasTotals.putLevel (b := { b with nextRef := b.nextRef + 1 }) (s := s) (p := p)
      ⟨h.env, h.noMarket, h.levels⟩ (congrArg some h.addr) hnew
    exact ⟨hput.publish _ _ _ _ _, findLevel_putLevel_self _ s p _⟩

omit h in
theorem HasTotals.addEntry (hq : StableTest q) (h : b.HasTotals v q) (relink : Bool)
    (s : BookSide) (p : Price) (e : Entry) (t : DateTime) (hc : b.seesEntry e = q e) :
    (b.addEntry relink s p e t).1.HasTotals v q := by
  obtain ⟨h₁, hf⟩ := h.findOrCreateLevel s p s.side
  have hsees : (b.findOrCreateLevel s p s.side).1.seesEntry e = q e := by
    have henv : (b.findOrCreateLevel s p s.side).1.env = b.env := by rw [h₁.env, h.env]
    rw [← hc]
    show (!(Book.env _).checkVisibility || e.isVisible (Book.env _).sourceOk) = _
    rw [henv]
    rfl
  obtain ⟨hb, hl⟩ := h₁.levels s p _ hf
  have haddr := h₁.addr
  refine h₁.levelAddEntry hq ?_ ?_ hsees
  · split
    · exact congrArg some haddr
    · exact hb
  · split <;> exact ⟨hl.size, hl.numEntries, hl.numEntriesTotal, hl.wired⟩

variable {ref : Ref} {r : Book × BasicDelta} {t : DateTime}

theorem HasTotals.locate {pos : LevelPos} {l : PriceLevel} {e : Entry}
    (hloc : b.locate ref = some (pos, l, e)) :
    (∃ s p, pos = .limit s p) ∧ l.book = some v.addr ∧ Totals q l ∧ e.ref = ref ∧
      l.entryList.find? (·.ref == ref) = some e ∧ e.priceLevel = some l.ref := by
  obtain ⟨hat, hfind⟩ := locate_spec hloc
  have href : e.ref = ref := by simpa using find?_some hfind
  cases pos with
  | limit s p =>
    obtain ⟨hb, hl⟩ := h.levels s p l hat
    exact ⟨⟨s, p, rfl⟩, hb, hl, href, hfind, hl.wired e (mem_of_find?_eq_some hfind)⟩
  | market s =>
    have hat' : b.marketOrders.get s = some l := hat
    rw [h.noMarket] at hat'
    cases s <;> cases hat'

omit h in
theorem HasTotals.updateEntry (hq : StableTest q) (h : b.HasTotals v q) {n : Nat}
    (hc : ∀ pos l e, b.locate ref = some (pos, l, e) → n ≠ e.size → b.seesEntry e = q e)
    (hu : b.updateEntry ref n t = some r) : r.1.HasTotals v q := by
  unfold Book.updateEntry at hu
  split at hu
  · cases hu
  next pos l e hloc =>
  obtain ⟨⟨s, p, rfl⟩, hb, hl, rfl, hfind, hwired⟩ := h.locate hloc
  rw [if_pos hwired] at hu
  cases hu
  obtain ⟨-, hbook, -, -⟩ := updatedLevel_frame b l e n t
  refine HasTotals.publish (h.putLevel ?_ ?_) _ _ _ _ _
  · rw [hbook, hb]
  · exact hl.updatedLevel hq hfind n t (hc _ _ _ hloc)

theorem HasTotals.levelEraseEntry {p : Price} {l : PriceLevel}
    {f : Entry → Bool} (hb : l.book = some v.addr) (hl : Totals q l)
    (hc : ∀ e, l.entryList.find? f = some e → b.seesEntry e = q e) :
    (b.levelEraseEntry (.limit s p) l f).HasTotals v q := by
  unfold Book.levelEraseEntry
  split
  · exact h
  next e hf =>
  have hcount : b.counts l e = q e := by rw [counts_of_linked (by rw [hb, h.addr]), hc e hf]
  have hbook : (l.eraseEntryByIterator (b.counts l) f).book = some v.addr := by
    rwa [PriceLevel.eraseEntryByIterator, hf]
  refine HasTotals.putLevel ?_ hbook (hl.eraseEntry hf hcount)
  split
  · exact ⟨h.env, h.noMarket, h.levels⟩
  · exact h

theorem HasTotals.detachLevel (l : PriceLevel) : (b.detachLevel l).HasTotals v q := by
  refine ⟨?_, ?_, h.levels.detachLevel l⟩
  · rw [← h.env]
    unfold Book.detachLevel
    split
    · rfl
    · rfl
    · split <;> rfl
  unfold Book.detachLevel
  split
  · next s _ _ =>
    rw [h.noMarket]
    cases s <;> rfl
  · exact h.noMarket
  · split <;> exact h.noMarket

theorem HasTotals.deleteEntry {w : Bool}
    (hc : ∀ pos l e, b.locate ref = some (pos, l, e) → b.seesEntry e = q e)
    (hd : b.deleteEntry ref t w = some r) : r.1.HasTotals v q := by
  unfold Book.deleteEntry at hd
  split at hd
  · cases hd
  next pos l e hloc =>
  obtain ⟨⟨s, p, rfl⟩, hb, hl, rfl, hfind, hwired⟩ := h.locate hloc
  rw [if_pos hwired] at hd
  cases hd
  have hl' : Totals q (b.stampLevel l e t) :=
    ⟨hl.size, hl.numEntries, hl.numEntriesTotal, hl.wired⟩
  have h₁ := h.levelEraseEntry (s := s) (p := p) (l := b.stampLevel l e t)
    (f := (·.ref == e.ref)) hb hl' (by
      intro e' he'
      have : some e = some e' := hfind.symm.trans he'
      cases this
      exact hc _ _ _ hloc)
  split <;> split
  · exact HasTotals.publish (h₁.detachLevel _) _ _ _ _ _
  · exact HasTotals.publish h₁ _ _ _ _ _
  · exact h₁.detachLevel _
  · exact h₁

theorem HasTotals.deleteEntriesFromSource (source : Source)
    (hc : ∀ s p l, b.findLevel s p = some l → ∀ e ∈ l.entryList, e.isPartOf source →
      b.seesEntry e = q e) :
    (b.deleteEntriesFromSource source).HasTotals v q := by
  have hboth : b.AllLevels fun _ _ l => (l.book = some v.addr ∧ Totals q l) ∧
      ∀ e ∈ l.entryList, e.isPartOf source → b.seesEntry e = q e :=
    fun s p l hl => ⟨h.levels s p l hl, hc s p l hl⟩
  refine ⟨h.env, h.noMarket, hboth.mapVal _ ?_ rfl⟩
  rintro s p l ⟨⟨hb, hl⟩, hce⟩
  refine ⟨?_, hl.deleteEntriesFromSource source fun e he hpart => ?_⟩
  · rw [← hb]
    unfold PriceLevel.deleteEntriesFromSource
    split
    · rfl
    · exact uncount_foldl_book _ _ _
  · rw [counts_of_linked (by rw [hb, h.addr]), hce e he hpart]

theorem HasTotals.seesEntry : b.seesEntry = v.sees := by
  rw [← h.env]
  rfl

end

theorem HasTotals.addEntriesFromLevel (s : BookSide) (p : Price) (filter : Entry → Bool)
    (es : List Entry) : ∀ {b : Book}, b.HasTotals v v.sees →
      (b.addEntriesFromLevel s p filter es).HasTotals v v.sees := by
  induction es with
  | nil => exact fun h => h
  | cons e es ih =>
    intro b h
    have h₁ : { b with nextRef := b.nextRef + 1 }.HasTotals v v.sees :=
      ⟨h.env, h.noMarket, h.levels⟩
    apply ih
    split
    · next l hl =>
      obtain ⟨hb, ht⟩ := h₁.levels s p l hl
      split
      · refine h₁.levelAddEntry ?_ hb ht ?_
        · rw [← h.seesEntry]; exact stableTest_seesEntry b
        · rw [h₁.seesEntry]
      · exact h₁
    · exact h₁

theorem HasTotals.addLevelEntries (filter : Entry → Bool) (s : BookSide) (l : PriceLevel)
    (h : b.HasTotals v v.sees) : (addLevelEntries filter s b l).HasTotals v v.sees := by
  obtain ⟨h₁, -⟩ := h.findOrCreateLevel s l.price l.side
  unfold Book.addLevelEntries
  split
  · exact h₁
  next es _ =>
  have h₂ := h₁.addEntriesFromLevel s l.price filter es
  simp only
  split
  · next l' hl' =>
    obtain ⟨hb, ht⟩ := h₂.levels _ _ l' hl'
    exact h₂.putLevel (l := l'.setTime l.time) hb
      ⟨ht.size, ht.numEntries, ht.numEntriesTotal, ht.wired⟩
  · exact h₂

theorem HasTotals.addEntriesFromBook (h : b.HasTotals v v.sees) (book : Book)
    (filter : Entry → Bool) : (b.addEntriesFromBook book filter).HasTotals v v.sees := by
  have hfold : ∀ (s : BookSide) (ls : List PriceLevel) {b : Book}, b.HasTotals v v.sees →
      (ls.foldl (Book.addLevelEntries filter s) b).HasTotals v v.sees := fun s ls _ h =>
    foldlRecOn ls _ h fun _ hb l _ => hb.addLevelEntries filter s l
  exact hfold .ask _ (hfold .bid _ h)

end HasTotals

theorem hasTotals_start (addr : Nat) (sourceOk : Nat → Bool) (check publish : Bool)
    (q : Entry → Bool) :
    (start addr sourceOk check publish).HasTotals ⟨addr, check, sourceOk, publish⟩ q := by
  cases publish <;> exact ⟨rfl, rfl, allLevels_of_empty rfl⟩

end Book

/-! ## Runs of entry operations -/

namespace EntryOp

theorem hasTotals_step {v : Env} {b b' : Book} {op : EntryOp} (h : b.HasTotals v v.sees)
    (hs : step b op = some b') : b'.HasTotals v v.sees := by
  have hq : StableTest v.sees := by
    rw [← h.seesEntry]; exact b.stableTest_seesEntry
  have hc : ∀ e, b.seesEntry e = v.sees e := fun e => by rw [h.seesEntry]
  cases op with
  | addEntry relink side p e t =>
    simp only [step] at hs
    split at hs
    · cases hs
    · cases hs; exact h
    · cases hs; exact h.addEntry hq relink _ p e t (hc e)
  | updateEntry ref n t =>
    obtain ⟨r, hr, rfl⟩ := Option.map_eq_some_iff.mp hs
    exact h.updateEntry hq (fun _ _ e _ _ => hc e) hr
  | deleteEntry ref t w =>
    obtain ⟨r, hr, rfl⟩ := Option.map_eq_some_iff.mp hs
    exact h.deleteEntry (fun _ _ e _ => hc e) hr
  | addEntriesFromBook book filter =>
    simp only [step] at hs
    split at hs
    · cases hs
    · cases hs; exact h.addEntriesFromBook book filter
  | deleteEntriesFromSource source =>
    obtain ⟨-, hb'⟩ := Option.ite_none_right_eq_some.mp hs
    cases hb'
    exact h.deleteEntriesFromSource source fun _ _ _ _ e _ _ => hc e

theorem hasTotals_run {v : Env} (ops : List EntryOp) :
    ∀ {b b' : Book}, b.HasTotals v v.sees → run b ops = some b' → b'.HasTotals v v.sees := by
  induction ops with
  | nil =>
    intro b b' h hr
    cases hr
    exact h
  | cons op ops ih =>
    intro b b' h hr
    obtain ⟨b₁, hs, hr⟩ := Option.bind_eq_some_iff.mp hr
    exact ih (hasTotals_step h hs) hr

/-- After every run of entry operations every level carries the size and the counts of its
entries: of the visible ones where the book checks source states, of all of them where it does
not.  The counters are 32 bits wide. -/
theorem totals_of_run (addr : Nat) (sourceOk : Nat → Bool) (check publish : Bool)
    (ops : List EntryOp) (b : Book)
    (h : run (Book.start addr sourceOk check publish) ops = some b) :
    ∀ s p l, b.findLevel s p = some l →
      l.size = sumOn (fun e => !check || e.isVisible sourceOk) Entry.size l.entryList ∧
      l.numEntries = l.entryList.countP (fun e => !check || e.isVisible sourceOk) % 2 ^ 32 ∧
      l.numEntriesTotal = l.entryList.length % 2 ^ 32 ∧
      (l.entryList.length < 2 ^ 32 →
        l.numEntries = l.entryList.countP (fun e => !check || e.isVisible sourceOk) ∧
        l.numEntriesTotal = l.entryList.length) ∧
      ∀ e ∈ l.entryList, e.priceLevel = some l.ref := by
  intro s p l hl
  have hrun := hasTotals_run ops (Book.hasTotals_start addr sourceOk check publish _) h
  obtain ⟨-, ht⟩ := hrun.levels s p l hl
  refine ⟨ht.size, ht.numEntries, ht.numEntriesTotal, ?_, ht.wired⟩
  intro hlen
  have hle : l.entryList.countP (Env.sees ⟨addr, check, sourceOk, publish⟩) ≤ l.entryList.length :=
    countP_le_length
  refine ⟨?_, ?_⟩
  · rw [ht.numEntries]; exact Nat.mod_eq_of_lt (by omega)
  · rw [ht.numEntriesTotal]; exact Nat.mod_eq_of_lt hlen

/-- Two entries at one price, one of them updated and the other deleted again. -/
def twoEntries : List EntryOp :=
  [.addEntry true .bid 10 (Entry.new ⟨9, 0⟩ "a" 5 .add .null (some ⟨1, .root 1⟩)) .null,
    .addEntry false .bid 10 (Entry.new ⟨9, 1⟩ "b" 7 .add .null (some ⟨2, .root 2⟩)) .null,
    .updateEntry ⟨9, 1⟩ 9 .null, .deleteEntry ⟨9, 0⟩ .null false]

theorem totals_twoEntries :
    ∃ b, run (Book.start 0 (fun n => n == 2) true true) twoEntries = some b ∧
    ∀ s p l, b.findLevel s p = some l →
      l.size = sumOn (fun e => !true || e.isVisible fun n => n == 2) Entry.size l.entryList :=
  ⟨_, rfl, fun s p l hl =>
    (totals_of_run 0 (fun n => n == 2) true true twoEntries _ rfl s p l hl).1⟩

end EntryOp

end Mamda

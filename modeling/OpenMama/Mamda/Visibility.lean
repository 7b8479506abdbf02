import OpenMama.Mamda.Aggregation

/-!
# Source states that change between operations

An entry is counted under the state its source has when it is added, and
uncounted under the state it has when it is removed.  `counted` remembers for
each entry the state it was last counted under, by `addEntry` or by
`reevaluate`.  As long as no entry is resized or removed under another state
than that (`Settled`), the totals of every level are those of the counted
entries, so `numEntries` covers every decrement and `reevaluate` makes the
totals those of the visible entries.
-/

namespace Mamda

open Mama Lib

/-- The operations of a book that checks source states, and a change of such a state. -/
inductive VisOp
  | setSourceState (addr : Nat) (ok : Bool)
  | addEntry (relink : Bool) (side : Side) (price : Price) (e : Entry) (eventTime : DateTime)
  | updateEntry (ref : Ref) (size : Nat) (eventTime : DateTime)
  | deleteEntry (ref : Ref) (eventTime : DateTime) (withDelta : Bool)
  | deleteEntriesFromSource (source : Source)
  | reevaluate

namespace VisOp

def step (b : Book) : VisOp → Option Book
  | .setSourceState addr ok =>
    some { b with sourceOk := fun n => if n = addr then ok else b.sourceOk n }
  | .addEntry relink side p e t => EntryOp.step b (.addEntry relink side p e t)
  | .updateEntry ref n t => EntryOp.step b (.updateEntry ref n t)
  | .deleteEntry ref t w => EntryOp.step b (.deleteEntry ref t w)
  | .deleteEntriesFromSource source => EntryOp.step b (.deleteEntriesFromSource source)
  | .reevaluate => some b.reevaluate

def run (b : Book) (ops : List VisOp) : Option Book := ops.foldlM step b

/-- How often the operation executes `mNumEntries--` on the level at a price. -/
def decrements (b : Book) (s : BookSide) (p : Price) : VisOp → Nat
  | .deleteEntry ref _ _ =>
    match b.locate ref with
    | some (.limit s' p', l, e) => if s = s' ∧ p = p' ∧ b.counts l e then 1 else 0
    | _ => 0
  | .deleteEntriesFromSource source =>
    match b.findLevel s p with
    | some l => (l.entryList.filter (·.isPartOf source)).countP (b.counts l)
    | none => 0
  | _ => 0

/-- No level's `numEntries` goes below zero in the operation. -/
def NoWrap (b : Book) (op : VisOp) : Prop :=
  ∀ s p l, b.findLevel s p = some l → decrements b s p op ≤ l.numEntries

/-- The totals of every level are those of the entries visible now. -/
def Recounted (b : Book) : Prop :=
  ∀ s p l, b.findLevel s p = some l →
    l.size = sumOn (·.isVisible b.sourceOk) Entry.size l.entryList ∧
      l.numEntries = l.entryList.countP (·.isVisible b.sourceOk)

/-! ## When an entry was last counted -/

/-- The state each entry was last counted under, after the operation. -/
def countedAfter (b : Book) (counted : Entry → Bool) : VisOp → Entry → Bool
  | .addEntry _ _ _ e _ => fun x => if x.ref = e.ref then b.seesEntry e else counted x
  | .reevaluate => b.seesEntry
  | _ => counted

/-- The operation resizes and removes entries only under the state they were last counted
under. -/
def Settled (b : Book) (counted : Entry → Bool) : VisOp → Prop
  | .updateEntry ref n _ =>
    ∀ pos l e, b.locate ref = some (pos, l, e) → n ≠ e.size → b.seesEntry e = counted e
  | .deleteEntry ref _ _ => ∀ pos l e, b.locate ref = some (pos, l, e) → b.seesEntry e = counted e
  | .deleteEntriesFromSource source =>
    ∀ s p l, b.findLevel s p = some l → ∀ e ∈ l.entryList, e.isPartOf source →
      b.seesEntry e = counted e
  | _ => True

/-- Every operation of the run is settled, and no level holds `2 ^ 32` entries before it. -/
def SettledRun (b : Book) (counted : Entry → Bool) : List VisOp → Prop
  | [] => True
  | op :: ops =>
    Settled b counted op ∧ (b.AllLevels fun _ _ l => l.entryList.length < 2 ^ 32) ∧
      ∀ b', step b op = some b' → SettledRun b' (countedAfter b counted op) ops

/-! ## One operation -/

/-- What holds of the book and the record between operations. -/
structure Tracked (counted : Entry → Bool) (b : Book) : Prop where
  checks : b.checkVisibility
  stable : StableTest counted
  totals : b.HasTotals b.env counted

variable {b b' : Book} {op : VisOp}

theorem Tracked.record {counted : Entry → Bool} (h : Tracked counted b) {e : Entry}
    (hnone : b.locate e.ref = none) (c : Bool) :
    Tracked (fun x => if x.ref = e.ref then c else counted x) b := by
  refine ⟨h.checks, ?_, h.totals.env, h.totals.noMarket, ?_⟩
  · intro x x' href hd
    show (if x.ref = e.ref then c else counted x) = if x'.ref = e.ref then c else counted x'
    rw [href, h.stable x x' href hd]
  intro s p l hl
  obtain ⟨hb, ht⟩ := h.totals.levels s p l hl
  have hne : ∀ x ∈ l.entryList, (if x.ref = e.ref then c else counted x) = counted x := by
    intro x hx
    have hx' : x.ref ≠ e.ref := by
      intro heq; exact Book.locate_ne_none hl hx (heq ▸ hnone)
    rw [if_neg hx']
  refine ⟨hb, ?_, ?_, ht.numEntriesTotal, ht.wired⟩
  · rw [ht.size]; exact sumOn_congr fun x hx => ⟨(hne x hx).symm, rfl⟩
  · rw [ht.numEntries]
    congr 1
    exact List.countP_congr fun x hx => by rw [hne x hx]

theorem Tracked.of_totals {counted : Entry → Bool} (h : Tracked counted b)
    (h' : b'.HasTotals b.env counted) : Tracked counted b' :=
  ⟨(congrArg Env.checkVisibility h'.env).trans h.checks, h.stable, by rw [h'.env]; exact h'⟩

theorem Tracked.step {counted : Entry → Bool} (h : Tracked counted b) (hop : Settled b counted op)
    (hs : step b op = some b') : Tracked (countedAfter b counted op) b' := by
  cases op with
  | setSourceState addr ok =>
    cases hs; exact ⟨h.checks, h.stable, rfl, h.totals.noMarket, h.totals.levels⟩
  | addEntry relink side p e t =>
    simp only [VisOp.step, EntryOp.step] at hs
    split at hs
    · cases hs
    · next hnone _ => cases hs; exact h.record hnone (b.seesEntry e)
    · next s hnone _ =>
      cases hs
      have h' := h.record hnone (b.seesEntry e)
      refine h'.of_totals (h'.totals.addEntry h'.stable relink s p e t ?_)
      rw [if_pos rfl]
  | updateEntry ref n t =>
    obtain ⟨r, hr, rfl⟩ := Option.map_eq_some_iff.mp hs
    exact h.of_totals (h.totals.updateEntry h.stable hop hr)
  | deleteEntry ref t w =>
    obtain ⟨r, hr, rfl⟩ := Option.map_eq_some_iff.mp hs
    exact h.of_totals (h.totals.deleteEntry hop hr)
  | deleteEntriesFromSource source =>
    obtain ⟨-, hb'⟩ := Option.ite_none_right_eq_some.mp hs
    cases hb'
    exact h.of_totals (h.totals.deleteEntriesFromSource source hop)
  | reevaluate =>
    cases hs
    rw [Book.reevaluate, if_pos h.checks]
    refine ⟨h.checks, b.stableTest_seesEntry, rfl, ?_, ?_⟩
    · show (⟨b.marketOrders.bid.map _, b.marketOrders.ask.map _⟩ : Sides _) = _
      rw [h.totals.noMarket]
      rfl
    refine h.totals.levels.mapVal _ ?_ rfl
    rintro s p l ⟨hb, ht⟩
    refine ⟨?_, ?_⟩
    · have hbook : (l.reevaluate (b.counts l)).book = l.book := by
        unfold PriceLevel.reevaluate
        split <;> rfl
      exact hbook.trans hb
    · have hfun : b.counts l = b.seesEntry := funext fun e => Book.counts_of_linked hb e
      rw [hfun]
      exact ht.reevaluate

theorem Tracked.noWrap {counted : Entry → Bool} (h : Tracked counted b) (hop : Settled b counted op)
    (hlen : b.AllLevels fun _ _ l => l.entryList.length < 2 ^ 32) : NoWrap b op := by
  intro s p l hl
  obtain ⟨hb, ht⟩ := h.totals.levels s p l hl
  have hnum : l.numEntries = l.entryList.countP counted := by
    have hle : l.entryList.countP counted ≤ l.entryList.length := List.countP_le_length
    have hlt := hlen s p l hl
    rw [ht.numEntries, Nat.mod_eq_of_lt (by omega)]
  have hcounts : ∀ e, b.counts l e = b.seesEntry e := Book.counts_of_linked hb
  cases op with
  | deleteEntry ref t w =>
    simp only [decrements]
    split
    · next s' p' l' e hloc =>
      obtain ⟨hat, hfind⟩ := Book.locate_spec hloc
      split
      · next hcond =>
        obtain ⟨rfl, rfl, hce⟩ := hcond
        have hl' : some l = some l' := hl.symm.trans hat
        cases hl'
        have hcount := countP_eraseP (q := counted) hfind
        rw [hcounts, hop _ _ _ hloc] at hce
        rw [if_pos hce] at hcount
        omega
      · exact Nat.zero_le _
    · exact Nat.zero_le _
  | deleteEntriesFromSource source =>
    simp only [decrements]
    rw [hl, hnum]
    show (l.entryList.filter (·.isPartOf source)).countP (b.counts l) ≤ _
    have hsame : (l.entryList.filter (·.isPartOf source)).countP (b.counts l) =
        (l.entryList.filter (·.isPartOf source)).countP counted := by
      refine List.countP_congr fun e he => ?_
      obtain ⟨hmem, hpart⟩ := List.mem_filter.mp he
      rw [hcounts, hop s p l hl e hmem hpart]
    rw [countP_filter_add (fun e : Entry => e.isPartOf source) l.entryList]
    omega
  | setSourceState addr ok => exact Nat.zero_le _
  | addEntry relink side p e t => exact Nat.zero_le _
  | updateEntry ref n t => exact Nat.zero_le _
  | reevaluate => exact Nat.zero_le _

/-! ## Runs -/

/-- The record is right before the last operation of a settled run, and that operation is
settled too. -/
theorem tracked_before_last (op : VisOp) (ops : List VisOp) :
    ∀ {counted : Entry → Bool} {b b' : Book}, Tracked counted b →
    SettledRun b counted (ops ++ [op]) → run b ops = some b' → ∃ counted', Tracked counted' b' ∧
    Settled b' counted' op ∧ b'.AllLevels fun _ _ l => l.entryList.length < 2 ^ 32 := by
  induction ops with
  | nil =>
    intro counted b b' h hset hr
    cases hr
    exact ⟨counted, h, hset.1, hset.2.1⟩
  | cons op' ops ih =>
    intro counted b b' h hset hr
    obtain ⟨b₁, hs, hr⟩ := Option.bind_eq_some_iff.mp hr
    obtain ⟨hop, -, hrest⟩ := hset
    exact ih (h.step hop hs) (hrest b₁ hs) hr

theorem tracked_start (addr : Nat) (sourceOk : Nat → Bool) (publish : Bool) :
    Tracked (fun _ => false) (Book.start addr sourceOk true publish) := by
  have hstart := Book.hasTotals_start addr sourceOk true publish (fun _ => false)
  refine ⟨congrArg Env.checkVisibility hstart.env, fun _ _ _ _ => rfl, ?_⟩
  rwa [hstart.env]

theorem Tracked.recounted {counted : Entry → Bool} (h : Tracked counted b)
    (hlen : b.AllLevels fun _ _ l => l.entryList.length < 2 ^ 32) : Recounted b.reevaluate := by
  have hop : Settled b counted .reevaluate := trivial
  have h' : Tracked b.seesEntry b.reevaluate := h.step hop rfl
  have hsees : b.seesEntry = (·.isVisible b.reevaluate.sourceOk) := by
    funext e
    rw [Book.seesEntry, Book.reevaluate, h.checks]
    rfl
  have hlen' : b.reevaluate.AllLevels fun _ _ l => l.entryList.length < 2 ^ 32 := by
    refine hlen.mapVal (fun l => l.reevaluate (b.counts l)) ?_ ?_
    · intro s p l hl
      unfold PriceLevel.reevaluate
      split <;> exact hl
    · rw [Book.reevaluate, if_pos h.checks]
  intro s p l hl
  obtain ⟨-, ht⟩ := h'.totals.levels s p l hl
  rw [hsees] at ht
  refine ⟨ht.size, ?_⟩
  have hlt := hlen' s p l hl
  have hle : l.entryList.countP (·.isVisible b.reevaluate.sourceOk) ≤ l.entryList.length :=
    List.countP_le_length
  rw [ht.numEntries]
  exact Nat.mod_eq_of_lt (by omega)

/-- In a settled run of a book that checks source states no `numEntries` wraps below zero, and
every `reevaluate` leaves the totals of the visible entries. -/
theorem counts_of_settledRun (addr : Nat) (sourceOk : Nat → Bool) (publish : Bool)
    (ops : List VisOp) (op : VisOp) (b b' : Book)
    (hset : SettledRun (Book.start addr sourceOk true publish) (fun _ => false) (ops ++ [op]))
    (hrun : run (Book.start addr sourceOk true publish) ops = some b) (hs : step b op = some b') :
    NoWrap b op ∧ (op = .reevaluate → Recounted b') := by
  obtain ⟨counted, htr, hop, hlen⟩ :=
    tracked_before_last op ops (tracked_start addr sourceOk publish) hset hrun
  refine ⟨htr.noWrap hop hlen, ?_⟩
  rintro rfl
  cases hs
  exact htr.recounted hlen

/-- Two entries whose sources are down, one of which comes up. -/
def flipSource : List VisOp :=
  [.addEntry true .bid 10 (Entry.new ⟨9, 0⟩ "a" 5 .add .null (some ⟨1, .root 1⟩)) .null,
    .addEntry true .bid 10 (Entry.new ⟨9, 1⟩ "b" 7 .add .null (some ⟨2, .root 2⟩)) .null,
    .setSourceState 1 true]

/-- Reevaluated before the entry is deleted, the run is settled. -/
theorem counts_flipSource : ∃ b b',
    run (Book.start 0 (fun _ => false) true false) (flipSource ++ [.reevaluate]) = some b ∧
      step b (.deleteEntry ⟨9, 0⟩ .null false) = some b' ∧
        NoWrap b (.deleteEntry ⟨9, 0⟩ .null false) := by
  refine ⟨_, _, rfl, rfl, ?_⟩
  refine (counts_of_settledRun 0 (fun _ => false) false (flipSource ++ [.reevaluate])
    (.deleteEntry ⟨9, 0⟩ .null false) _ _ ?_ rfl rfl).1
  iterate 4
    refine ⟨trivial, Book.allLevels_of_toList (by decide) (by decide), ?_⟩
    rintro _ ⟨⟩
  refine ⟨?_, Book.allLevels_of_toList (by decide) (by decide), ?_⟩
  · rintro _ _ _ ⟨⟩; rfl
  · exact fun _ _ => trivial

/-- The entry that came up is deleted without having been counted: the level that stays says
that it holds `2 ^ 32 - 1` entries. -/
theorem numEntries_flipSource_wraps : ∃ b b',
    run (Book.start 0 (fun _ => false) true false) flipSource = some b ∧
      step b (.deleteEntry ⟨9, 0⟩ .null false) = some b' ∧
      ¬ NoWrap b (.deleteEntry ⟨9, 0⟩ .null false) ∧
      (b'.findLevel .bid 10).map PriceLevel.numEntries = some 4294967295 := by
  refine ⟨_, _, rfl, rfl, ?_, rfl⟩
  intro h
  cases h .bid 10 _ rfl

end VisOp

end Mamda

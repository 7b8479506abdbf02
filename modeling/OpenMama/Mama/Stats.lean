import Mathlib.Algebra.Order.Ring.Int
import OpenMama.Lib.Runs

/-!
# Statistics and their collector

A stat counts the changes of an interval in a signed counter and keeps a maximum and a total in
unsigned ones.  The collector has its stats in slots by their identifiers; its loop over them
shares its variables between the stats.  Stats that poll a callback for their value are left out.
A step is `none` where a counter overflows, and where a slot is not one of the collector.
-/

namespace Mama.Stats

open Lib List Option

/-- `mamaStatImpl`, with a record of the changes made to it. -/
structure Stat where
  mName : String
  mFid : Nat
  mIntervalValue : Int := 0
  mMaxValue : BitVec 32 := 0
  mTotalValue : BitVec 32 := 0
  mPublish : Bool := true
  mLog : Bool := true
  /-- The sum of all changes. -/
  changes : Int := 0
  /-- The sum of the interval values before each reset. -/
  settled : Int := 0
  /-- The greatest interval value after an increase, or zero. -/
  highest : Int := 0

/-- An `int` holds it. -/
def Fits (v : Int) : Prop := -2 ^ 31 ≤ v ∧ v < 2 ^ 31

instance (v : Int) : Decidable (Fits v) := inferInstanceAs (Decidable (_ ∧ _))

namespace Stat

/-- `mamaStat_add`: the comparison is between an `int` and an unsigned maximum. -/
def add (s : Stat) (value : Int) : Option Stat :=
  let interval := s.mIntervalValue + value
  if Fits value ∧ Fits interval then
    some { s with
      mIntervalValue := interval
      mMaxValue :=
        if BitVec.ofInt 32 interval > s.mMaxValue then .ofInt 32 interval else s.mMaxValue
      mTotalValue := s.mTotalValue + .ofInt 32 value
      changes := s.changes + value
      highest := max s.highest interval }
  else
    none

/-- `mamaStat_subtract`. -/
def subtract (s : Stat) (value : Int) : Option Stat :=
  let interval := s.mIntervalValue - value
  if Fits value ∧ Fits interval then
    some { s with
      mIntervalValue := interval
      mTotalValue := s.mTotalValue - .ofInt 32 value
      changes := s.changes - value }
  else
    none

/-- `mamaStat_increment` has the writes of `mamaStat_add`. -/
def increment (s : Stat) : Option Stat := s.add 1

def decrement (s : Stat) : Option Stat := s.subtract 1

/-- `mamaStat_reset`. -/
def reset (s : Stat) : Stat :=
  { s with mIntervalValue := 0, settled := s.settled + s.mIntervalValue }

end Stat

/-- What the variables of the loop hold for a stat. -/
structure Shown where
  name : Option String := none
  intervalValue : Int := 0
  maxValue : BitVec 32 := 0
  totalValue : BitVec 32 := 0
  deriving DecidableEq

/-- `mamaStat_getStats`, with the name. -/
def Stat.getStats (s : Stat) : Shown := ⟨s.mName, s.mIntervalValue, s.mMaxValue, s.mTotalValue⟩

/-- The line that is logged: a stat that counted nothing has none. -/
def Shown.line (x : Shown) : Option Shown :=
  if 0 < x.intervalValue ∨ 0 < x.maxValue ∨ 0 < x.totalValue then some x else none

abbrev Slots := List (Option Stat)

/-- `mamaStatsCollectorImpl`. -/
structure Collector where
  mPublishStats : Bool := false
  mLogStats : Bool := true
  mOffset : Nat := 0
  /-- There are `MAMA_STAT_MAX_STATS` of them. -/
  mMamaStats : Slots := .replicate 35 none
  /-- What the last message had in it of each slot, and what was logged of it. -/
  report : List (Option Shown × Option Shown) := []
  /-- What the stats themselves had to show then. -/
  own : List (Option Shown × Option Shown) := []

/-- What the loop puts into the message and logs; the variables keep what the last published stat
left in them. -/
def populateLoop (logStats : Bool) : Slots → Shown → List (Option Shown × Option Shown)
  | [], _ => []
  | none :: rest, shown => (none, none) :: populateLoop logStats rest shown
  | some s :: rest, shown =>
    let shown := if s.mPublish then s.getStats else shown
    (if s.mPublish then some shown else none, if logStats ∧ s.mLog then shown.line else none) ::
      populateLoop logStats rest shown

/-- What the stats have to show, each for itself. -/
def ownReport (logStats : Bool) (slots : Slots) : List (Option Shown × Option Shown) :=
  slots.map fun
    | none => (none, none)
    | some s =>
      (if s.mPublish then some s.getStats else none,
        if logStats ∧ s.mLog then s.getStats.line else none)

namespace Collector

/-- `mamaStatsCollector_populateMsg`; the loop resets a stat once it is done with it. -/
def populateMsg (c : Collector) : Collector :=
  if !c.mLogStats && !c.mPublishStats then c
  else
    { c with
      mMamaStats := c.mMamaStats.map (Option.map Stat.reset)
      report := populateLoop c.mLogStats c.mMamaStats {}
      own := ownReport c.mLogStats c.mMamaStats }

/-- `mamaStatsCollector_addStat`. -/
def addStat (c : Collector) (s : Stat) : Option Collector :=
  let offset := if c.mOffset = 0 then s.mFid else c.mOffset
  if offset ≤ s.mFid ∧ s.mFid - offset < c.mMamaStats.length then
    some { c with mOffset := offset, mMamaStats := c.mMamaStats.set (s.mFid - offset) (some s) }
  else
    none

/-- A call on the stat of a slot. -/
def onStat (c : Collector) (index : Nat) (f : Stat → Option Stat) : Option Collector :=
  c.mMamaStats[index]?.join.bind fun s =>
    (f s).map fun s' => { c with mMamaStats := c.mMamaStats.set index (some s') }

end Collector

inductive Label
  /-- `mamaStat_create`. -/
  | create (name : String) (fid : Nat)
  | setPublish (index : Nat) (publish : Bool)
  | setLog (index : Nat) (log : Bool)
  | setCollector (publish log : Bool)
  | increment (index : Nat)
  | decrement (index : Nat)
  | add (index : Nat) (value : Int)
  | subtract (index : Nat) (value : Int)
  | reset (index : Nat)
  /-- `mamaStatsCollector_incrementStat`. -/
  | incrementStat (identifier : Nat)
  | populateMsg

def step (c : Collector) : Label → Option Collector
  | .create name fid => c.addStat { mName := name, mFid := fid }
  | .setPublish index publish => c.onStat index fun s => some { s with mPublish := publish }
  | .setLog index log => c.onStat index fun s => some { s with mLog := log }
  | .setCollector publish log => some { c with mPublishStats := publish, mLogStats := log }
  | .increment index => c.onStat index Stat.increment
  | .decrement index => c.onStat index Stat.decrement
  | .add index value => c.onStat index (·.add value)
  | .subtract index value => c.onStat index (·.subtract value)
  | .reset index => c.onStat index fun s => some s.reset
  | .incrementStat identifier =>
    if c.mOffset ≤ identifier then c.onStat (identifier - c.mOffset) Stat.increment else none
  | .populateMsg => some c.populateMsg

/-! ## One stat -/

/-- What the counters of a stat say of the changes. -/
structure Stat.Conserved (s : Stat) : Prop where
  total : s.mTotalValue = .ofInt 32 s.changes
  settled : s.settled + s.mIntervalValue = s.changes
  highest : (s.mMaxValue.toNat : Int) = s.highest

structure Stat.Inv (s : Stat) : Prop extends s.Conserved where
  fits : Fits s.mIntervalValue
  range : 0 ≤ s.highest ∧ s.highest < 2 ^ 31

variable {s s' : Stat} {value : Int}

theorem Stat.Inv.subtract (h : s.Inv) (hs : s.subtract value = some s') : s'.Inv := by
  obtain ⟨⟨-, hfits⟩, heq⟩ := ite_none_right_eq_some.1 hs
  cases heq
  refine ⟨⟨?_, ?_, h.highest⟩, hfits, h.range⟩
  · show s.mTotalValue - .ofInt 32 value = .ofInt 32 (s.changes - value)
    rw [h.total, BitVec.sub_eq_add_neg, Int.sub_eq_add_neg, BitVec.ofInt_add, BitVec.ofInt_neg]
  · have hsettled := h.settled
    show s.settled + (s.mIntervalValue - value) = s.changes - value
    omega

theorem Stat.Inv.reset (h : s.Inv) : s.reset.Inv :=
  ⟨⟨h.total, (Int.add_zero _).trans h.settled, h.highest⟩, (by decide : Fits 0), h.range⟩

/-- An increase is counted right just if it does not leave the interval negative. -/
theorem Stat.Inv.add (h : s.Inv) (hs : s.add value = some s') :
    (s'.Conserved → 0 ≤ s.mIntervalValue + value) ∧ (0 ≤ s.mIntervalValue + value → s'.Inv) := by
  obtain ⟨⟨-, hfits⟩, heq⟩ := ite_none_right_eq_some.1 hs
  cases heq
  obtain ⟨hnone, hbound⟩ := h.range
  have hmax := h.highest
  have hsettled := h.settled
  have hunsigned := BitVec.toNat_ofInt (n := 32) (s.mIntervalValue + value)
  unfold Fits at hfits
  have htotal : s.mTotalValue + .ofInt 32 value = .ofInt 32 (s.changes + value) := by
    rw [h.total, BitVec.ofInt_add]
  constructor
  · intro hc
    by_contra hneg
    have heq : ((if BitVec.ofInt 32 (s.mIntervalValue + value) > s.mMaxValue then
      BitVec.ofInt 32 (s.mIntervalValue + value) else s.mMaxValue).toNat : Int) =
        max s.highest (s.mIntervalValue + value) := hc.highest
    rw [if_pos (BitVec.lt_def.2 (by omega))] at heq
    omega
  intro hpos
  refine ⟨⟨htotal, ?_, ?_⟩, hfits, ?_⟩
  · show s.settled + (s.mIntervalValue + value) = s.changes + value; omega
  · show ((if BitVec.ofInt 32 (s.mIntervalValue + value) > s.mMaxValue then
      BitVec.ofInt 32 (s.mIntervalValue + value) else s.mMaxValue).toNat : Int) =
        max s.highest (s.mIntervalValue + value)
    split
    case isTrue hlt =>
      have hlt' := BitVec.lt_def.1 hlt
      omega
    case isFalse hle =>
      have hle' := mt BitVec.lt_def.2 hle
      omega
  · show 0 ≤ max s.highest (s.mIntervalValue + value) ∧
      max s.highest (s.mIntervalValue + value) < 2 ^ 31
    omega

/-! ## The loop over the stats -/

/-- What the variables of the loop hold after these slots. -/
def held (shown : Shown) (before : Slots) : Shown :=
  before.foldl (fun shown slot => match slot with
    | some s => if s.mPublish then s.getStats else shown
    | none => shown) shown

/-- A stat that is logged but not published shows what the variables happen to hold. -/
def ShowsOwn (logStats : Bool) (slots : Slots) (shown : Shown) : Prop :=
  ∀ before s after, slots = before ++ some s :: after → logStats → s.mLog →
    s.mPublish = false → (held shown before).line = s.getStats.line

theorem showsOwn_cons {logStats : Bool} {slot : Option Stat} {rest : Slots} {shown : Shown} :
    ShowsOwn logStats (slot :: rest) shown ↔
      (∀ s, slot = some s → logStats → s.mLog → s.mPublish = false →
        shown.line = s.getStats.line) ∧ ShowsOwn logStats rest (held shown [slot]) := by
  constructor
  · intro h
    refine ⟨fun s hs => ?_, fun before s after hsplit => ?_⟩
    · exact h [] s rest (by rw [hs]; rfl)
    · exact h (slot :: before) s after (by rw [hsplit]; rfl)
  rintro ⟨hfirst, hrest⟩ before s after hsplit
  cases before with
  | nil =>
    obtain ⟨hslot, -⟩ := List.cons.inj hsplit
    exact hfirst s hslot
  | cons first before =>
    obtain ⟨rfl, hrest'⟩ := List.cons.inj hsplit
    exact hrest before s after hrest'

theorem populateLoop_eq_own (logStats : Bool) (slots : Slots) (shown : Shown) :
    populateLoop logStats slots shown = ownReport logStats slots ↔
      ShowsOwn logStats slots shown := by
  induction slots generalizing shown with
  | nil => exact iff_of_true rfl fun before s after h => absurd h (by simp)
  | cons slot rest ih =>
    rw [showsOwn_cons, ← ih]
    cases slot with
    | none => simp [populateLoop, ownReport, held]
    | some s =>
      cases hpublish : s.mPublish with
      | true => simp [populateLoop, ownReport, held, hpublish]
      | false =>
        simp only [populateLoop, ownReport, held, hpublish, map_cons, List.cons.injEq,
          Prod.mk.injEq,
          foldl_cons, foldl_nil, Bool.false_eq_true, if_false, true_and, Option.some.injEq]
        refine and_congr_left fun _ => ?_
        split
        case isTrue hlog => simp [hlog.1, hlog.2, hpublish]
        case isFalse hlog =>
          refine iff_of_true rfl fun s' hs' hlogs hlog' => ?_
          exact absurd ⟨hlogs, hs' ▸ hlog'⟩ hlog

/-! ## Runs -/

/-- The counters say what was changed, and the last report is of the stats' own values. -/
structure Conserved (c : Collector) : Prop where
  stats : ∀ s, some s ∈ c.mMamaStats → s.Conserved
  report : c.report = c.own

structure Inv (c : Collector) : Prop where
  stats : ∀ s, some s ∈ c.mMamaStats → s.Inv
  report : c.report = c.own

/-- No increase leaves an interval counter negative, and a stat that is logged without being
published has the values of the published one before it. -/
def Meets (c : Collector) : Label → Prop
  | .increment index => ∀ s, c.mMamaStats[index]? = some (some s) → 0 ≤ s.mIntervalValue + 1
  | .incrementStat identifier =>
    ∀ s, c.mMamaStats[identifier - c.mOffset]? = some (some s) → 0 ≤ s.mIntervalValue + 1
  | .add index value => ∀ s, c.mMamaStats[index]? = some (some s) → 0 ≤ s.mIntervalValue + value
  | .populateMsg => ShowsOwn c.mLogStats c.mMamaStats {}
  | _ => True

variable {c c' : Collector}

theorem Inv.conserved (h : Inv c) :
    Conserved c := ⟨fun s hs => (h.stats s hs).toConserved, h.report⟩

variable {f : Stat → Option Stat}

theorem Inv.onStat (h : Inv c) {index : Nat} {ok : Stat → Prop}
    (hf : ∀ s s', s.Inv → f s = some s' → (s'.Conserved → ok s) ∧ (ok s → s'.Inv))
    (hrun : c.onStat index f = some c') :
    (Conserved c' → ∀ s, c.mMamaStats[index]? = some (some s) → ok s) ∧
      ((∀ s, c.mMamaStats[index]? = some (some s) → ok s) → Inv c') := by
  obtain ⟨s, hslot, hrun⟩ := bind_eq_some_iff.1 hrun
  obtain ⟨s', hs', rfl⟩ := map_eq_some_iff.1 hrun
  rw [join_eq_some_iff] at hslot
  obtain ⟨hindex, hget⟩ := List.getElem?_eq_some_iff.1 hslot
  obtain ⟨hnecessary, henough⟩ := hf s s' (h.stats s (hget ▸ getElem_mem hindex)) hs'
  constructor
  · intro hc s₁ hs₁
    obtain rfl : s = s₁ := by simpa [hslot] using hs₁
    exact hnecessary (hc.stats s' (mem_set hindex _))
  · intro hok
    refine ⟨fun s₁ hs₁ => ?_, h.report⟩
    rcases mem_or_eq_of_mem_set hs₁ with hmem | heq
    · exact h.stats s₁ hmem
    · cases heq; exact henough (hok s hslot)

theorem Inv.onStat_keeps (h : Inv c) {index : Nat} (hf : ∀ s s', s.Inv → f s = some s' → s'.Inv)
    (hrun : c.onStat index f = some c') : Inv c' :=
  (h.onStat (fun s s' hs hs' => ⟨fun _ => trivial, fun _ => hf s s' hs hs'⟩) hrun).2 fun _ _ =>
    trivial

theorem Inv.step (h : Inv c) {l : Label} (hrun : step c l = some c') :
    (Conserved c' → Meets c l) ∧ (Meets c l → Inv c') := by
  cases l with
  | create name fid =>
    obtain ⟨-, heq⟩ := ite_none_right_eq_some.1 hrun
    cases heq
    refine ⟨fun _ => trivial, fun _ => ⟨fun s hs => ?_, h.report⟩⟩
    rcases mem_or_eq_of_mem_set hs with hmem | heq
    · exact h.stats s hmem
    · cases heq
      exact ⟨⟨(by decide : (0 : BitVec 32) = .ofInt 32 0), rfl, rfl⟩, (by decide : Fits 0),
        ⟨Int.le_refl 0, (by decide : (0 : Int) < 2 ^ 31)⟩⟩
  | setPublish index publish =>
    refine ⟨fun _ => trivial, fun _ => h.onStat_keeps (fun s s' hs hs' => ?_) hrun⟩
    cases hs'
    exact ⟨⟨hs.total, hs.settled, hs.highest⟩, hs.fits, hs.range⟩
  | setLog index log =>
    refine ⟨fun _ => trivial, fun _ => h.onStat_keeps (fun s s' hs hs' => ?_) hrun⟩
    cases hs'
    exact ⟨⟨hs.total, hs.settled, hs.highest⟩, hs.fits, hs.range⟩
  | setCollector publish log => cases hrun; exact ⟨fun _ => trivial, fun _ => ⟨h.stats, h.report⟩⟩
  | increment index => exact h.onStat (fun s s' hs hs' => hs.add hs') hrun
  | decrement index =>
    exact ⟨fun _ => trivial, fun _ => h.onStat_keeps (fun s s' hs hs' => hs.subtract hs') hrun⟩
  | add index value => exact h.onStat (fun s s' hs hs' => hs.add hs') hrun
  | subtract index value =>
    exact ⟨fun _ => trivial, fun _ => h.onStat_keeps (fun s s' hs hs' => hs.subtract hs') hrun⟩
  | reset index =>
    refine ⟨fun _ => trivial, fun _ => h.onStat_keeps (fun s s' hs hs' => ?_) hrun⟩
    cases hs'
    exact hs.reset
  | incrementStat identifier =>
    obtain ⟨-, hrun⟩ := ite_none_right_eq_some.1 hrun
    exact h.onStat (fun s s' hs hs' => hs.add hs') hrun
  | populateMsg =>
    cases hrun
    show (Conserved c.populateMsg → ShowsOwn c.mLogStats c.mMamaStats {}) ∧
      (ShowsOwn c.mLogStats c.mMamaStats {} → Inv c.populateMsg)
    unfold Collector.populateMsg
    split
    case isTrue hquiet =>
      -- neither logged nor published: the message is left alone
      refine ⟨fun _ before s after _ hlog => ?_, fun _ => h⟩
      simp [hlog] at hquiet
    case isFalse =>
      refine ⟨fun hc => (populateLoop_eq_own _ _ _).1 hc.report,
        fun hshows => ⟨fun s hs => ?_, (populateLoop_eq_own _ _ _).2 hshows⟩⟩
      obtain ⟨slot, hslot, heq⟩ := List.mem_map.1 hs
      obtain ⟨s₀, rfl, rfl⟩ := map_eq_some_iff.1 heq
      exact (h.stats s₀ hslot).reset

/-- **The comparison of a negative counter with the unsigned maximum, and the shared variables of
the loop**: everything is conserved all through a run just when no increase leaves a counter
negative and what is logged without being published coincides with what was published before. -/
theorem conserved_iff (ls : List Label) :
    (∀ pre suf, ls = pre ++ suf → ∀ c, pre.foldlM step {} = some c → Conserved c) ↔
      ∀ pre l suf, ls = pre ++ l :: suf → ∀ c c', pre.foldlM step {} = some c → step c l = some c' →
        Meets c l := by
  have hinit : Inv {} := ⟨fun s hs => by simp at hs, rfl⟩
  exact law_iff (fun _ => Inv.conserved) (fun _ _ _ h hrun => Inv.step h hrun) hinit ls

/-- A decrease before an increase leaves the greatest 32-bit value as the maximum. -/
theorem not_conserved :
    ¬∀ (ls : List Label) (c : Collector), ls.foldlM step {} = some c → Conserved c := by
  intro h
  obtain ⟨c, hrun, s, hs, hmax⟩ :
    ∃ c, [.create "Subscriptions" 1, .subtract 0 2, .increment 0].foldlM
      step {} = some c ∧ ∃ s, some s ∈ c.mMamaStats ∧ (s.mMaxValue.toNat : Int) ≠ s.highest := by
    refine ⟨_, rfl, _, mem_cons_self, ?_⟩
    decide
  exact hmax ((h _ c hrun).stats s hs).highest

end Mama.Stats

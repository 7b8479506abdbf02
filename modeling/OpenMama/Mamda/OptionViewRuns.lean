import OpenMama.Mamda.OptionChainContents
import OpenMama.Mamda.OptionViewRange

/-!
# Views of a chain over runs

Any number of views of one chain.  Between the resets the chain may take more
contracts, its underlying listeners may be set or change their prices, and time
passes; every setter and every callback of a view that resets its range is one
event (`EveryReset`).
-/

namespace Mamda

open Mama Lib ChainState Option

inductive ViewSetting
  | atTheMoneyType (atTheMoneyType : AtTheMoneyCompareType)
  | strikeRangePercent (percentMargin : Price)
  | strikeRangeNumber (number : Int)
  | expirationRangeDays (expirationDays : Int)
  | numberOfExpirations (numExpirations : Int)
  | jitterMargin (percentMargin : Price)

/-- The setter; `none` where it finds the value set already and does nothing. -/
def ViewSettings.set (v : ViewSettings) : ViewSetting → Option ViewSettings
  | .atTheMoneyType t => if v.atTheMoneyType ≠ t then some { v with atTheMoneyType := t } else none
  | .strikeRangePercent p => if v.strikeMargin ≠ p then some { v with strikeMargin := p } else none
  | .strikeRangeNumber n => if v.numStrikes ≠ n then some { v with numStrikes := n } else none
  | .expirationRangeDays d => some { v with expirationDays := d }
  | .numberOfExpirations n => some { v with numExpirations := n }
  | .jitterMargin p => some { v with jitterMargin := p }

/-- A callback of `MamdaOptionChainHandler`. -/
inductive ChainCallback
  | onOptionChainRecap
  | onOptionContractCreate
  | onOptionSeriesUpdate
  | onOptionChainGap

def ChainCallback.resets : ChainCallback → Bool
  | .onOptionChainRecap => true
  | .onOptionContractCreate => true
  | .onOptionSeriesUpdate => true
  | .onOptionChainGap => false

inductive ViewEvent
  | addContract (contract : OptionContract)
  | setUnderlyingQuoteListener (quoteListener : Option UnderlyingQuote)
  | setUnderlyingTradeListener (tradeListener : Option Price)
  | time (clock : Clock)
  | newView
  | set (view : Nat) (setting : ViewSetting)
  | callback (view : Nat) (callback : ChainCallback)

/-- The chain, the time and the views, which are named by their number. -/
structure ViewWorld where
  state : ChainState
  clock : Clock
  views : List ChainView

namespace ViewWorld

def start (clock : Clock) : ViewWorld := ⟨.new, clock, []⟩

def pointer {α : Type} : Option α → Pointer α
  | none => .null
  | some a => .to a

/-- An event up to the call of `resetRange`, with the view it is called on. -/
def prepare (w : ViewWorld) : ViewEvent → Option (ViewWorld × Option Nat)
  | .addContract contract => do
    let state ← (w.state.allocate contract).processNewContractDetails w.state.contracts.length
    some ({ w with state := state }, none)
  | .setUnderlyingQuoteListener q =>
    some ({ w with state := { w.state with
      chain := { w.state.chain with quoteListener := pointer q } } }, none)
  | .setUnderlyingTradeListener p =>
    some ({ w with state := { w.state with
      chain := { w.state.chain with tradeListener := pointer p } } }, none)
  | .time clock => some ({ w with clock := clock }, none)
  | .newView => some ({ w with views := w.views ++ [.new] }, some w.views.length)
  | .set view setting =>
    match w.views[view]? with
    | none => some (w, none)
    | some v =>
      match v.settings.set setting with
      | none => some (w, none)
      | some settings =>
        some ({ w with views := w.views.set view { v with settings := settings } }, some view)
  | .callback view callback => some (w, if callback.resets then some view else none)

/-- `resetRange` on one of the views. -/
def resetView (w : ViewWorld) (view : Nat) : Option ViewWorld :=
  match w.views[view]? with
  | none => some w
  | some v => do
    let (state, v) ← w.state.resetRange w.clock v
    some { w with state := state, views := w.views.set view v }

def step (w : ViewWorld) (e : ViewEvent) : Option ViewWorld := do
  let (w, view) ← w.prepare e
  match view with
  | none => some w
  | some view => w.resetView view

/-- The property holds of the chain, the time and the view at every `resetRange` of the run. -/
def EveryReset (P : ChainState → Clock → ChainView → Prop) (clock : Clock)
    (es : List ViewEvent) : Prop :=
  ∀ pre e suf, es = pre ++ e :: suf → ∀ w w' view v, pre.foldlM step (start clock) = some w →
    w.prepare e = some (w', some view) → w'.views[view]? = some v → P w'.state w'.clock v

/-! ## The chain stays linked -/

theorem linked_new : Linked .new := by
  refine ⟨?_, ?_, ?_, ?_⟩
  · intro k d p h; cases h
  · intro k d p k' d' h; cases h
  · intro k x q h; cases h
  · intro k x k' x' q h; cases h

variable {e : ViewEvent} {w w' : ViewWorld} {s : ChainState}

theorem linked_prepare (hw : Linked w.state) {view : Option Nat}
    (h : w.prepare e = some (w', view)) :
    Linked w'.state := by
  cases e with
  | addContract contract =>
    obtain ⟨state, hprocess, heq⟩ := bind_eq_some_iff.mp h
    cases heq
    have hstored := stored_append w.state contract
    have hlinked := hstored.linked hw
    cases hrecap : contract.recapRequired with
    | true =>
      rw [processNewContractDetails_waiting (by rw [hstored.at_self, hrecap])] at hprocess
      cases hprocess
      exact hlinked
    | false => exact (entered_of_process hlinked (by rw [hstored.at_self, hrecap]) hprocess).linked
  | setUnderlyingQuoteListener q => cases h; exact ⟨hw.date, hw.date_inj, hw.strike, hw.strike_inj⟩
  | setUnderlyingTradeListener p => cases h; exact ⟨hw.date, hw.date_inj, hw.strike, hw.strike_inj⟩
  | time clock => cases h; exact hw
  | newView => cases h; exact hw
  | set view setting =>
    simp only [prepare] at h
    split at h
    · cases h; exact hw
    · split at h
      · cases h; exact hw
      · cases h; exact hw
  | callback view callback => cases h; exact hw

theorem linked_kept {s' : ChainState} (hs : Linked s) (h : ChainKept s s') : Linked s' := by
  have hptr := h.strikePtr hs
  refine ⟨?_, ?_, ?_, ?_⟩
  · intro k d p hfind
    rw [h.chain] at hfind
    obtain ⟨hkey, hp⟩ := hs.date hfind
    have hold := h.old p hp
    rw [List.getElem?_eq_getElem hp] at hold
    exact ⟨hkey, (List.getElem?_eq_some_iff.mp hold).1⟩
  · rw [h.chain]; exact hs.date_inj
  · intro k x q hq
    rw [hptr] at hq
    rw [h.strikeSets]
    exact hs.strike hq
  · intro k x k' x' q hq hq'
    rw [hptr] at hq hq'
    exact hs.strike_inj hq hq'

theorem linked_step (hw : Linked w.state) (h : w.step e = some w') : Linked w'.state := by
  obtain ⟨⟨w₁, view⟩, hprepare, h⟩ := bind_eq_some_iff.mp h
  have hw₁ := linked_prepare hw hprepare
  cases view with
  | none => cases h; exact hw₁
  | some view =>
    simp only [resetView] at h
    split at h
    · cases h; exact hw₁
    · obtain ⟨⟨state, v⟩, hreset, heq⟩ := bind_eq_some_iff.mp h
      cases heq
      exact linked_kept hw₁ (kept_of_resetRange hw₁ hreset)

theorem linked_run {clock : Clock} {es : List ViewEvent}
    (h : es.foldlM step (start clock) = some w) :
    Linked w.state := by
  have hreached : Reachable step (start clock) w :=
    Runs.steps Runs.init (fun _ _ _ => trivial) h
  exact hreached.invariant linked_new fun _ _ _ hs _ hstep => linked_step hs hstep

def callAt (strikePrice : Price) : OptionContract :=
  (((OptionContract.new "IBM".toList []).setExpireDate (.ofTime 1700000000 0)).setStrikePrice
    strikePrice).setPutCall .call

/-- Two strikes, the underlying at the lower one, and a new view. -/
def twoStrikes : List ViewEvent :=
  [.addContract (callAt 100), .addContract (callAt 200),
    .setUnderlyingQuoteListener (some ⟨100, 100⟩), .newView]

/-- The view is to show one strike, and no number of expirations is set. -/
def oneStrike : ViewEvent := .set 0 (.strikeRangeNumber 1)

/-- Whether a view without a percentage or a number of expirations has a strike at a date that is
asked for and outside the strikes that are. -/
def losesNumber (s : ChainState) (clock : Clock) (v : ViewSettings) (k : Nat) (x : Price) : Bool :=
  v.strikeMargin ≤ 0 && v.numExpirations ≤ 0 && (wantedDates s v clock).contains k &&
    (s.strikePtr k x).isSome && !within (wantedStrikes s v) x

theorem not_meets_of_losesNumber {clock : Clock} {v : ViewSettings} {k : Nat} {x : Price}
    (h : losesNumber s clock v k x) : ¬Meets s clock v := by
  simp only [losesNumber, Bool.and_eq_true, decide_eq_true_eq, List.contains_iff_mem,
    Bool.not_eq_true'] at h
  obtain ⟨⟨⟨⟨hmargin, hnum⟩, hk⟩, hin⟩, hout⟩ := h
  intro hm
  have hwithin := hm.guard (fun hpos => absurd hpos (not_lt.mpr hmargin)) hnum k hk x hin
  rw [hout] at hwithin
  cases hwithin

/-- The state at the reset of `oneStrike`, if `losesNumber` holds there. -/
def lostAt (clock : Clock) : Option (ViewWorld × ChainView) := do
  let w ← twoStrikes.foldlM step (start clock)
  let (w', view) ← w.prepare oneStrike
  let view ← view
  let v ← w'.views[view]?
  if losesNumber w'.state w'.clock v.settings (DateTime.ofTime 1700000000 0).timeOnly 200 then
    some (w', v)
  else none

end ViewWorld

end Mamda

import OpenMama.Mamda.OrderBookTypes

/-!
# Trade and quote counts

The count half of `MamdaTradeListener` and `MamdaQuoteListener`: which messages
reveal a gap, which are taken for duplicates, and which handler each message
reaches.  The two listeners check their counts with the same code
(`checkTradeCount`, `checkQuoteCount`), which is `checkCount` here.

Messages are regular: they carry no qualifier that makes them duplicate or
transient, and a handler is registered.  The prices and sizes a listener caches
for its users are here only as far as they decide a callback.

* `CountLaw` says what a message should cause, given the count of the latest
  earlier message that carried one.
* A message that reveals a gap is taken for a duplicate, because the gap branch
  stores the new count before the duplicate test reads it
  (`checkCount_ignore`).  `CountLaw` holds for every other message.
-/

namespace Mamda

open Mama List

/-! ## The count check -/

/-- The counts of a `TradeCache` or a `QuoteCache`. -/
structure CountCache where
  count : Nat := 0
  tmpCount : Nat := 0
  gotCount : Bool := false
  gapBegin : Nat := 0
  gapEnd : Nat := 0
  deriving DecidableEq, Repr

/-- A call a listener makes on its handler: `onTradeGap` or `onQuoteGap` with the range the
cache holds at that moment, or the callback of the message itself. -/
inductive HandlerCall (κ : Type)
  | gap (gapBegin gapEnd : Nat)
  | own (callback : κ)
  deriving DecidableEq, Repr

/-- `+` on `mama_u32_t`. -/
def u32Add (m n : Nat) : Nat := (m + n) % 2 ^ 32

/-- `FieldUpdateTmpTradeCount`, `FieldUpdateTmpQuoteCount`: the flag is lowered before the
fields of a message are read. -/
def CountCache.note (c : CountCache) (count : Option Nat) : CountCache :=
  match count with
  | some n => { c with tmpCount := n, gotCount := true }
  | none => { c with gotCount := false }

/-- What a count check leaves: the cache, whether the gap handler is called, and
`mIgnoreUpdate`. -/
structure CountCheck where
  cache : CountCache
  gap : Bool
  ignoreUpdate : Bool

/-- `checkTradeCount`, `checkQuoteCount` for a message that is not transient. -/
def checkCount (c : CountCache) (conflateCount : Option Nat) (checkForGap : Bool) : CountCheck :=
  let conflateCount := conflateCount.getD 1
  let gap := checkForGap && c.gotCount &&
    (decide (0 < c.count) && decide (u32Add c.count conflateCount < c.tmpCount))
  -- the gap branch already stores the count that the duplicate test compares with
  let c₁ := if gap then
      { c with
        gapBegin := u32Add c.count conflateCount
        gapEnd := c.tmpCount - 1
        count := c.tmpCount }
    else c
  { cache := { c₁ with count := c.tmpCount }
    gap := gap
    ignoreUpdate := c₁.gotCount && decide (0 < c₁.tmpCount) && decide (c₁.tmpCount = c₁.count) }

def CountCheck.gapCalls {κ : Type} (r : CountCheck) : List (HandlerCall κ) :=
  if r.gap then [.gap r.cache.gapBegin r.cache.gapEnd] else []

/-- The count check at the head of a handler: a message that is ignored goes no further. -/
def unlessIgnored {σ κ : Type} (checked : (σ × List κ) × Bool) (handle : σ → σ × List κ) :
    σ × List κ :=
  match checked with
  | (ignored, true) => ignored
  | ((y, gap), false) =>
    let (z, calls) := handle y
    (z, gap ++ calls)

/-! ## `MamdaTradeListener` -/

/-- The message types `handleTradeMessage` tells apart. -/
inductive TradeMsgType
  | initial
  | recap
  | preopening
  | snapshot
  | trade
  | cancel
  | error
  | correction
  | closing
  | update
  deriving DecidableEq, Repr

/-- What the listener reads of a message to decide its callbacks. -/
structure TradeMsg where
  msgType : TradeMsgType
  tradeCount : Option Nat := none
  conflateTradeCount : Option Nat := none
  lastPrice : Option Price := none
  lastVolume : Option ℚ := none
  lastTime : Option DateTime := none
  irregPrice : Option Price := none
  irregVolume : Option ℚ := none
  irregTime : Option DateTime := none
  deriving DecidableEq, Repr

inductive TradeCallback
  | onTradeRecap
  | onTradeReport
  | onTradeCancelOrError (isCancel : Bool)
  | onTradeCorrection
  | onTradeClosing
  deriving DecidableEq, Repr

structure TradeCache where
  counts : CountCache := {}
  lastGenericMsgWasTrade : Bool := false
  gotTradeTime : Bool := false
  gotTradePrice : Bool := false
  gotTradeSize : Bool := false
  isCancel : Bool := false
  deriving DecidableEq, Repr

/-- `MamdaTradeListenerImpl`. -/
structure TradeListener where
  cache : TradeCache := {}
  deriving DecidableEq, Repr

namespace TradeListener

/-- What a handler of the listener leaves, and the calls it made. -/
abbrev Result := TradeListener × List (HandlerCall TradeCallback)

def updateTradeFields (x : TradeListener) (m : TradeMsg) : TradeListener :=
  let gotTradeTime := m.lastTime.any DateTime.hasTime || m.irregTime.isSome
  let gotTradePrice := m.lastPrice.isSome || m.irregPrice.isSome
  let gotTradeSize := m.lastVolume.isSome || m.irregVolume.isSome
  { x with
    cache := { x.cache with
      counts := x.cache.counts.note m.tradeCount
      gotTradeTime := gotTradeTime
      gotTradePrice := gotTradePrice
      gotTradeSize := gotTradeSize
      lastGenericMsgWasTrade := gotTradeTime || gotTradePrice || gotTradeSize } }

/-- `checkTradeCount`, and whether the message is to be ignored. -/
def checkTradeCount (x : TradeListener) (m : TradeMsg) (checkForGap : Bool) : Result × Bool :=
  let r := checkCount x.cache.counts m.conflateTradeCount checkForGap
  (({ x with cache := { x.cache with counts := r.cache } }, r.gapCalls), r.ignoreUpdate)

def handleRecap (x : TradeListener) (m : TradeMsg) : Result :=
  let (y, gap) := (x.checkTradeCount m false).1
  (y, gap ++ [.own .onTradeRecap])

def handleTrade (x : TradeListener) (m : TradeMsg) : Result :=
  unlessIgnored (x.checkTradeCount m true) fun y => (y, [.own .onTradeReport])

def handleCancelOrError (x : TradeListener) (m : TradeMsg) (isCancel : Bool) : Result :=
  unlessIgnored (x.checkTradeCount m true) fun y =>
    ({ y with cache := { y.cache with isCancel := isCancel } },
      [.own (.onTradeCancelOrError isCancel)])

def handleCorrection (x : TradeListener) (m : TradeMsg) : Result :=
  unlessIgnored (x.checkTradeCount m true) fun y => (y, [.own .onTradeCorrection])

/-- `handleClosing`: no count check. -/
def handleClosing (x : TradeListener) : Result :=
  (x, [.own .onTradeClosing])

/-- `handleUpdate`: a trade only if a trade field came with it. -/
def handleUpdate (x : TradeListener) (m : TradeMsg) : Result :=
  unlessIgnored (x.checkTradeCount m true) fun y =>
    (y, if y.cache.lastGenericMsgWasTrade then [.own .onTradeReport] else [])

def handleTradeMessage (x : TradeListener) (m : TradeMsg) : Result :=
  let y := x.updateTradeFields m
  match m.msgType with
  | .initial | .recap | .preopening | .snapshot => y.handleRecap m
  | .trade => y.handleTrade m
  | .cancel => y.handleCancelOrError m true
  | .error => y.handleCancelOrError m false
  | .correction => y.handleCorrection m
  | .closing => y.handleClosing
  | .update => y.handleUpdate m

def run (x : TradeListener) (ms : List TradeMsg) : TradeListener :=
  ms.foldl (fun x m => (x.handleTradeMessage m).1) x

end TradeListener

/-! ## `MamdaQuoteListener` -/

/-- The message types `handleQuoteMessage` tells apart. -/
inductive QuoteMsgType
  | initial
  | recap
  | preopening
  | snapshot
  | quote
  | update
  | trade
  deriving DecidableEq, Repr

structure QuoteSideMsg where
  price : Option Price := none
  size : Option ℚ := none
  depth : Option ℚ := none
  partId : Option String := none
  deriving DecidableEq, Repr

/-- What the listener reads of a message to decide its callbacks. -/
structure QuoteMsg where
  msgType : QuoteMsgType
  quoteCount : Option Nat := none
  conflateQuoteCount : Option Nat := none
  quoteQual : Option String := none
  bid : QuoteSideMsg := {}
  ask : QuoteSideMsg := {}
  deriving DecidableEq, Repr

inductive QuoteCallback
  | onQuoteRecap
  | onQuoteUpdate
  | onQuoteClosing
  deriving DecidableEq, Repr

/-- One side of a `QuoteCache`, with the flags of the fields the latest message changed. -/
structure QuoteSideCache where
  price : Price := 0
  priceInitialised : Bool := false
  size : ℚ := 0
  depth : ℚ := 0
  partId : String := ""
  gotPrice : Bool := false
  gotSize : Bool := false
  gotDepth : Bool := false
  gotPartId : Bool := false
  deriving DecidableEq, Repr

structure QuoteCache where
  counts : CountCache := {}
  lastGenericMsgWasQuote : Bool := false
  quoteQualStr : String := ""
  bid : QuoteSideCache := {}
  ask : QuoteSideCache := {}
  deriving DecidableEq, Repr

/-- Whether a field carries a value other than the cached one. -/
def differs {α : Type} [DecidableEq α] (cached : α) (field : Option α) : Bool :=
  field.any fun v => decide (cached ≠ v)

namespace QuoteSideCache

/-- `FieldUpdateBidSize` and its siblings: a field with the cached value leaves no trace. -/
def noteSizes (c : QuoteSideCache) (m : QuoteSideMsg) : QuoteSideCache :=
  { c with
    size := m.size.getD c.size
    depth := m.depth.getD c.depth
    partId := m.partId.getD c.partId
    gotSize := differs c.size m.size
    gotDepth := differs c.depth m.depth
    gotPartId := differs c.partId m.partId }

/-- The bid fields.  Only the bid price counts as changed when it comes for the first time. -/
def noteBid (c : QuoteSideCache) (m : QuoteSideMsg) : QuoteSideCache :=
  let gotPrice := m.price.any fun v => decide (c.price ≠ v) || !c.priceInitialised
  { c.noteSizes m with
    price := m.price.getD c.price
    priceInitialised := c.priceInitialised || gotPrice
    gotPrice := gotPrice }

def noteAsk (c : QuoteSideCache) (m : QuoteSideMsg) : QuoteSideCache :=
  { c.noteSizes m with
    price := m.price.getD c.price
    priceInitialised := c.priceInitialised || differs c.price m.price
    gotPrice := differs c.price m.price }

/-- Whether the latest message changed a field of the side. -/
def got (c : QuoteSideCache) : Bool :=
  c.gotPrice || c.gotSize || c.gotDepth || c.gotPartId

end QuoteSideCache

/-- `MamdaQuoteListenerImpl`. -/
structure QuoteListener where
  cache : QuoteCache := {}
  deriving DecidableEq, Repr

namespace QuoteListener

/-- What a handler of the listener leaves, and the calls it made. -/
abbrev Result := QuoteListener × List (HandlerCall QuoteCallback)

def updateQuoteFields (x : QuoteListener) (m : QuoteMsg) : QuoteListener :=
  let bid := x.cache.bid.noteBid m.bid
  let ask := x.cache.ask.noteAsk m.ask
  { x with
    cache := { x.cache with
      counts := x.cache.counts.note m.quoteCount
      quoteQualStr := m.quoteQual.getD x.cache.quoteQualStr
      bid := bid
      ask := ask
      lastGenericMsgWasQuote := bid.got || ask.got } }

/-- `checkQuoteCount`, and whether the message is to be ignored. -/
def checkQuoteCount (x : QuoteListener) (m : QuoteMsg) (checkForGap : Bool) : Result × Bool :=
  let r := checkCount x.cache.counts m.conflateQuoteCount checkForGap
  (({ x with cache := { x.cache with counts := r.cache } }, r.gapCalls), r.ignoreUpdate)

def handleRecap (x : QuoteListener) (m : QuoteMsg) : Result :=
  let (y, gap) := (x.checkQuoteCount m false).1
  (y, gap ++ [.own .onQuoteRecap])

def handleQuote (x : QuoteListener) (m : QuoteMsg) : Result :=
  unlessIgnored (x.checkQuoteCount m true) fun y =>
    (y, [.own (if y.cache.quoteQualStr ≠ "Closing" then .onQuoteUpdate else .onQuoteClosing)])

/-- `handleUpdate`: a quote only if the message changed a quote field. -/
def handleUpdate (x : QuoteListener) (m : QuoteMsg) : Result :=
  unlessIgnored (x.checkQuoteCount m true) fun y =>
    if y.cache.lastGenericMsgWasQuote then
      ({ y with cache := { y.cache with lastGenericMsgWasQuote := false } }, [.own .onQuoteUpdate])
    else (y, [])

def handleQuoteMessage (x : QuoteListener) (m : QuoteMsg) : Result :=
  let y := x.updateQuoteFields m
  match m.msgType with
  | .initial | .recap | .preopening | .snapshot => y.handleRecap m
  | .quote => y.handleQuote m
  | .update | .trade => y.handleUpdate m

def run (x : QuoteListener) (ms : List QuoteMsg) : QuoteListener :=
  ms.foldl (fun x m => (x.handleQuoteMessage m).1) x

end QuoteListener

/-! ## The law of counts -/

/-- The count of the latest message that carried one, zero if none did. -/
def lastCount (counts : List (Option Nat)) : Nat :=
  counts.foldl (fun last count => count.getD last) 0

/-- Whether a message with these counts reveals a gap after `last`. -/
def Reveals (last : Nat) (count : Option Nat) (conflate : Nat) (isRecap : Bool) : Prop :=
  isRecap = false ∧ 0 < last ∧ ∃ n, count = some n ∧ last + conflate < n

/-- What a message should cause when `last` is the count before it: `calls` are the calls it
made, `due` is its own callback, if it has one. -/
structure CountLaw {κ : Type} [DecidableEq κ] (last : Nat) (count : Option Nat) (conflate : Nat)
    (isRecap : Bool) (due : Option κ) (calls : List (HandlerCall κ)) : Prop where
  gap_iff : (∃ b e, .gap b e ∈ calls) ↔ Reveals last count conflate isRecap
  range : ∀ b e, .gap b e ∈ calls → ∀ n, count = some n →
    last + 1 ≤ b ∧ b ≤ e ∧ e ≤ n - 1 ∧ e + 1 - b = n - last - conflate
  gap_once : ∀ b e, calls.count (.gap b e) ≤ 1
  own : ∀ k, due = some k →
    calls.count (.own k) = if isRecap = false ∧ count = some last ∧ 0 < last then 0 else 1
  own_due : ∀ k, .own k ∈ calls → due = some k

/-- The cache between two messages: both counts are the latest one received. -/
def CountCache.Settled (c : CountCache) (last : Nat) : Prop :=
  c.count = last ∧ c.tmpCount = last

section Check

variable {c : CountCache} {last : Nat} (h : c.Settled last)
  (count conflate : Option Nat)

include h

theorem checkCount_settled (checkForGap : Bool) :
    (checkCount (c.note count) conflate checkForGap).cache.Settled (count.getD last) := by
  have htmp : (c.note count).tmpCount = count.getD last := by
    cases count with
    | none => exact h.2
    | some n => rfl
  constructor
  · exact htmp
  · simp only [checkCount]
    split <;> exact htmp

section

variable (hc : last + conflate.getD 1 < 2 ^ 32)

include hc

theorem checkCount_gap (isRecap : Bool) :
    (checkCount (c.note count) conflate (!isRecap)).gap = true ↔
      Reveals last count (conflate.getD 1) isRecap := by
  have hadd : u32Add last (conflate.getD 1) = last + conflate.getD 1 := Nat.mod_eq_of_lt hc
  cases count with
  | none => simp [checkCount, CountCache.note, Reveals]
  | some n => simp [checkCount, CountCache.note, Reveals, h.1, hadd]

theorem checkCount_range {checkForGap : Bool} {n : Nat} (hcount : count = some n)
    (hgap : (checkCount (c.note count) conflate checkForGap).gap) :
    (checkCount (c.note count) conflate checkForGap).cache.gapBegin = last + conflate.getD 1 ∧
    (checkCount (c.note count) conflate checkForGap).cache.gapEnd = n - 1 := by
  have hadd : u32Add last (conflate.getD 1) = last + conflate.getD 1 := Nat.mod_eq_of_lt hc
  subst hcount
  simp only [checkCount] at hgap ⊢
  rw [if_pos hgap]
  simp [CountCache.note, h.1, hadd]

omit hc in
/-- A message is taken for a duplicate when it repeats the count, and also when it reveals a
gap: the new count is stored by then. -/
theorem checkCount_ignore (checkForGap : Bool) :
    (checkCount (c.note count) conflate checkForGap).ignoreUpdate ↔ (count = some last ∧ 0 < last) ∨
    (checkCount (c.note count) conflate checkForGap).gap := by
  cases count with
  | none => simp [checkCount, CountCache.note]
  | some n =>
    cases hgap : (checkCount (c.note (some n)) conflate checkForGap).gap with
    | true =>
      have hpos : 0 < n := by
        have hlt : u32Add c.count (conflate.getD 1) < n := by
          simp only [checkCount, Bool.and_eq_true] at hgap; exact of_decide_eq_true hgap.2.2
        exact Nat.zero_lt_of_lt hlt
      simp only [checkCount] at hgap ⊢
      rw [if_pos hgap]
      simp [CountCache.note, hpos]
    | false =>
      simp only [checkCount] at hgap ⊢
      rw [if_neg (by simp [hgap])]
      simp only [CountCache.note, h.1, Option.some.injEq, Bool.and_eq_true, decide_eq_true_eq,
        true_and, Bool.false_eq_true, or_false]
      constructor
      · rintro ⟨hpos, heq⟩; exact ⟨heq, by omega⟩
      · rintro ⟨heq, hpos⟩; exact ⟨by omega, heq⟩

/-- The law holds of a message checked by `checkCount` exactly when the message reveals no gap
or has no callback to lose. -/
theorem countLaw_iff_of_calls {κ : Type} [DecidableEq κ]
    (hpos : 1 ≤ conflate.getD 1) (isRecap : Bool) (due : Option κ) {calls : List (HandlerCall κ)}
    (hcalls : calls = (checkCount (c.note count) conflate (!isRecap)).gapCalls ++
      if (checkCount (c.note count) conflate (!isRecap)).ignoreUpdate && !isRecap then []
      else due.toList.map .own) :
    CountLaw last count (conflate.getD 1) isRecap due calls ↔
      ¬ (Reveals last count (conflate.getD 1) isRecap ∧ due.isSome) := by
  have hgap := checkCount_gap h count conflate hc isRecap
  have hignore := checkCount_ignore h count conflate (!isRecap)
  have hrange := @checkCount_range _ _ h count conflate hc (!isRecap)
  generalize checkCount (c.note count) conflate (!isRecap) = r at *
  by_cases hr : Reveals last count (conflate.getD 1) isRecap
  · -- the gap is reported, and the message is ignored
    obtain ⟨hrec, hlast, n, hcount, hn⟩ := id hr
    obtain ⟨hb, he⟩ := hrange hcount (hgap.mpr hr)
    have hig : r.ignoreUpdate := hignore.mpr (.inr (hgap.mpr hr))
    have hone : calls = [.gap (last + conflate.getD 1) (n - 1)] := by
      rw [hcalls, hig, hrec, CountCheck.gapCalls, if_pos (hgap.mpr hr), hb, he]; rfl
    constructor
    · rintro law ⟨-, hdue⟩
      obtain ⟨k, hk⟩ := Option.isSome_iff_exists.mp hdue
      have := law.own k hk
      rw [hone, if_neg (by rw [hcount]; rintro ⟨-, heq, -⟩; cases heq; omega)] at this
      simp at this
    intro hnone
    have hdue : due = none := by
      cases due with
      | none => rfl
      | some k => exact absurd ⟨hr, rfl⟩ hnone
    subst hone hdue
    refine ⟨⟨fun _ => hr, fun _ => ⟨_, _, mem_singleton_self _⟩⟩, ?_, ?_, ?_, ?_⟩
    · intro b e hmem n' hn'
      rw [hcount] at hn'
      cases hn'
      cases List.mem_singleton.mp hmem
      omega
    · intro b e; exact count_le_length
    · intro k hk; cases hk
    · intro k hk; cases List.mem_singleton.mp hk
  have hnogap : r.gap = false := by
    rwa [← Bool.not_eq_true, hgap]
  have hown : calls = if r.ignoreUpdate && !isRecap then [] else due.toList.map .own := by
    rw [hcalls, CountCheck.gapCalls, if_neg (by rw [hnogap]; exact Bool.false_ne_true)]
    rfl
  have hdup : (r.ignoreUpdate && !isRecap) = true ↔
      isRecap = false ∧ count = some last ∧ 0 < last := by
    rw [Bool.and_eq_true, hignore, hnogap]
    simp [and_comm]
  have hnone : ∀ b e, HandlerCall.gap b e ∉ calls := by
    intro b e hmem
    rw [hown] at hmem
    split at hmem <;> simp at hmem
  refine ⟨fun _ hg => hr hg.1, fun _ => ?_⟩
  refine ⟨⟨?_, fun hg => absurd hg hr⟩, ?_, ?_, ?_, ?_⟩
  · rintro ⟨b, e, hmem⟩; exact absurd hmem (hnone b e)
  · intro b e hmem; exact absurd hmem (hnone b e)
  · intro b e
    rw [count_eq_zero_of_not_mem (hnone b e)]
    exact Nat.zero_le 1
  · intro k hk
    subst hk
    rw [hown]
    by_cases hd : isRecap = false ∧ count = some last ∧ 0 < last
    · rw [if_pos (hdup.mpr hd), if_pos hd]; rfl
    · rw [if_neg (by rw [hdup]; exact hd), if_neg hd]
      simp
  · intro k hk
    rw [hown] at hk
    split at hk
    · cases hk
    · simpa using hk

end

end Check

section

variable {σ κ : Type} {checked : (σ × List κ) × Bool} {handle : σ → σ × List κ}

theorem unlessIgnored_fst (counts : σ → CountCache) (h : ∀ y, counts (handle y).1 = counts y) :
    counts (unlessIgnored checked handle).1 = counts checked.1.1 := by
  obtain ⟨⟨y, gap⟩, _ | _⟩ := checked
  · exact h y
  · rfl

theorem unlessIgnored_snd : (unlessIgnored checked handle).2 =
    checked.1.2 ++ if checked.2 then [] else (handle checked.1.1).2 := by
  obtain ⟨⟨y, gap⟩, _ | _⟩ := checked
  · rfl
  · exact (append_nil gap).symm

end

theorem checkCount_cache (c : CountCache) (n : Option Nat) (b : Bool) :
    (checkCount c n b).cache =
      if (checkCount c n b).gap then
        { c with
          count := c.tmpCount
          gapBegin := (checkCount c n b).cache.gapBegin
          gapEnd := (checkCount c n b).cache.gapEnd }
      else { c with count := c.tmpCount } := by
  unfold checkCount
  dsimp only
  split <;> rfl

section

variable {σ τ κ ι : Type} (part : σ → τ) (call : κ → Option ι)

/-- A handler does to the counts what `handle'` does. -/
def CountsAs (handle : σ → σ × List κ) (handle' : τ → τ × List ι) : Prop :=
  ∀ y, (part (handle y).1, (handle y).2.filterMap call) = handle' (part y)

/-- A check of the count does what `check'` does. -/
def ChecksAs (check : σ → (σ × List κ) × Bool) (check' : τ → (τ × List ι) × Bool) : Prop :=
  ∀ y, ((part (check y).1.1, (check y).1.2.filterMap call), (check y).2) = check' (part y)

variable {part call} {check : σ → (σ × List κ) × Bool} {check' : τ → (τ × List ι) × Bool}
  {handle : σ → σ × List κ} {handle' : τ → τ × List ι}

theorem ChecksAs.unlessIgnored (hc : ChecksAs part call check check')
    (h : CountsAs part call handle handle') :
    CountsAs part call (fun y => unlessIgnored (check y) handle)
      fun z => unlessIgnored (check' z) handle' := by
  intro y
  dsimp only
  rw [← hc]
  obtain ⟨⟨z, gap⟩, _ | _⟩ := check y
  · simp only [Mamda.unlessIgnored]
    rw [← h, filterMap_append]
  · rfl

end

/-! ## Whole runs -/

/-- Between messages the counts are settled on the latest count, if every step checks one. -/
theorem settled_foldl {σ M : Type} (step : σ → M → σ) (counts : σ → CountCache)
    (count : M → Option Nat) {ms : List M}
    (hstep : ∀ x, ∀ m ∈ ms, ∃ conflate check,
      counts (step x m) = (checkCount ((counts x).note (count m)) conflate check).cache)
    {x : σ} {last : Nat} (h : (counts x).Settled last) :
    (counts (ms.foldl step x)).Settled
      ((ms.map count).foldl (fun last count => count.getD last) last) := by
  induction ms generalizing x last with
  | nil => exact h
  | cons m ms ih =>
    refine ih (fun y m' hm' => hstep y m' (mem_cons_of_mem m hm')) ?_
    obtain ⟨conflate, check, hcounts⟩ := hstep x m mem_cons_self
    rw [hcounts]
    exact checkCount_settled h _ _ _

/-- The messages `handleRecap` takes. -/
def TradeMsgType.isRecap : TradeMsgType → Bool
  | .initial | .recap | .preopening | .snapshot => true
  | _ => false

/-- Whether a message carries a trade field: a price, a volume, or a time with its time part. -/
def TradeMsg.hasTradeFields (m : TradeMsg) : Bool :=
  m.lastTime.any DateTime.hasTime || m.irregTime.isSome ||
    (m.lastPrice.isSome || m.irregPrice.isSome) || (m.lastVolume.isSome || m.irregVolume.isSome)

def TradeMsg.due (m : TradeMsg) : Option TradeCallback :=
  match m.msgType with
  | .initial | .recap | .preopening | .snapshot => some .onTradeRecap
  | .trade => some .onTradeReport
  | .cancel => some (.onTradeCancelOrError true)
  | .error => some (.onTradeCancelOrError false)
  | .correction => some .onTradeCorrection
  | .closing => some .onTradeClosing
  | .update => if m.hasTradeFields then some .onTradeReport else none

namespace TradeListener

section

variable (x : TradeListener)

theorem counts_handleTradeMessage {m : TradeMsg} (hm : m.msgType ≠ .closing) :
    (x.handleTradeMessage m).1.cache.counts =
      (checkCount (x.cache.counts.note m.tradeCount) m.conflateTradeCount
        (!m.msgType.isRecap)).cache := by
  unfold handleTradeMessage
  cases ht : m.msgType
  case closing => exact absurd ht hm
  case initial | recap | preopening | snapshot => rfl
  all_goals
    refine unlessIgnored_fst (fun y : TradeListener => y.cache.counts) ?_
    intro y
    rfl

theorem calls_handleTradeMessage {m : TradeMsg} (hm : m.msgType ≠ .closing) :
    (x.handleTradeMessage m).2 =
      (checkCount (x.cache.counts.note m.tradeCount) m.conflateTradeCount
        (!m.msgType.isRecap)).gapCalls ++
      if (checkCount (x.cache.counts.note m.tradeCount) m.conflateTradeCount
        (!m.msgType.isRecap)).ignoreUpdate && !m.msgType.isRecap then []
      else m.due.toList.map .own := by
  unfold handleTradeMessage TradeMsg.due
  cases ht : m.msgType
  case closing => exact absurd ht hm
  case initial | recap | preopening | snapshot => rw [if_neg (by simp [TradeMsgType.isRecap])]; rfl
  case update =>
    refine unlessIgnored_snd.trans ?_
    simp only [TradeMsgType.isRecap, Bool.not_false, Bool.and_true]
    -- the flag is the one `updateTradeFields` has just set
    rw [show ((x.updateTradeFields m).checkTradeCount m true).1.1.cache.lastGenericMsgWasTrade =
      m.hasTradeFields from rfl]
    cases m.hasTradeFields <;> rfl
  all_goals
    refine unlessIgnored_snd.trans ?_
    simp only [TradeMsgType.isRecap, Bool.not_false, Bool.and_true]
    rfl

end

theorem settled_run {ms : List TradeMsg} (hms : ∀ m ∈ ms, m.msgType ≠ .closing) :
    (({} : TradeListener).run ms).cache.counts.Settled (lastCount (ms.map TradeMsg.tradeCount)) :=
  settled_foldl _ (fun x : TradeListener => x.cache.counts) TradeMsg.tradeCount
    (fun x m hm => ⟨_, _, counts_handleTradeMessage x (hms m hm)⟩) ⟨rfl, rfl⟩

end TradeListener

/-- The messages `handleRecap` takes. -/
def QuoteMsgType.isRecap : QuoteMsgType → Bool
  | .initial | .recap | .preopening | .snapshot => true
  | _ => false

namespace QuoteListener

/-- Whether a message carries a quote field that differs from the cached one.  A field that
repeats the cached value tells the listener nothing, except a first bid price. -/
def hasQuoteFields (x : QuoteListener) (m : QuoteMsg) : Bool :=
  (x.cache.bid.noteBid m.bid).got || (x.cache.ask.noteAsk m.ask).got

def due (x : QuoteListener) (m : QuoteMsg) : Option QuoteCallback :=
  match m.msgType with
  | .initial | .recap | .preopening | .snapshot => some .onQuoteRecap
  | .quote =>
    if m.quoteQual.getD x.cache.quoteQualStr ≠ "Closing" then some .onQuoteUpdate
    else some .onQuoteClosing
  | .update | .trade => if x.hasQuoteFields m then some .onQuoteUpdate else none

section

variable (x : QuoteListener)

section

variable (m : QuoteMsg)

include m

theorem counts_handleQuoteMessage :
    (x.handleQuoteMessage m).1.cache.counts =
      (checkCount (x.cache.counts.note m.quoteCount) m.conflateQuoteCount
        (!m.msgType.isRecap)).cache := by
  unfold handleQuoteMessage
  cases m.msgType
  case initial | recap | preopening | snapshot => rfl
  case quote =>
    refine unlessIgnored_fst (fun y : QuoteListener => y.cache.counts) ?_
    intro y
    rfl
  case update | trade =>
    refine unlessIgnored_fst (fun y : QuoteListener => y.cache.counts) ?_
    intro y
    split <;> rfl

theorem calls_handleQuoteMessage :
    (x.handleQuoteMessage m).2 =
      (checkCount (x.cache.counts.note m.quoteCount) m.conflateQuoteCount
        (!m.msgType.isRecap)).gapCalls ++
      if (checkCount (x.cache.counts.note m.quoteCount) m.conflateQuoteCount
        (!m.msgType.isRecap)).ignoreUpdate && !m.msgType.isRecap then []
      else (x.due m).toList.map .own := by
  unfold handleQuoteMessage due
  cases m.msgType
  case initial | recap | preopening | snapshot => rw [if_neg (by simp [QuoteMsgType.isRecap])]; rfl
  case quote =>
    refine unlessIgnored_snd.trans ?_
    simp only [QuoteMsgType.isRecap, Bool.not_false, Bool.and_true]
    rw [show ((x.updateQuoteFields m).checkQuoteCount m true).1.1.cache.quoteQualStr =
      m.quoteQual.getD x.cache.quoteQualStr from rfl]
    by_cases hq : m.quoteQual.getD x.cache.quoteQualStr = "Closing"
    · simp only [hq]; rfl
    · simp only [hq, ne_eq]; rfl
  case update | trade =>
    refine unlessIgnored_snd.trans ?_
    simp only [QuoteMsgType.isRecap, Bool.not_false, Bool.and_true]
    rw [show ((x.updateQuoteFields m).checkQuoteCount m true).1.1.cache.lastGenericMsgWasQuote =
      x.hasQuoteFields m from rfl]
    cases x.hasQuoteFields m <;> rfl

end

end

theorem settled_run (ms : List QuoteMsg) :
    (({} : QuoteListener).run ms).cache.counts.Settled (lastCount (ms.map QuoteMsg.quoteCount)) :=
  settled_foldl _ (fun x : QuoteListener => x.cache.counts) QuoteMsg.quoteCount
    (fun x m _ => ⟨_, _, counts_handleQuoteMessage x m⟩) ⟨rfl, rfl⟩

end QuoteListener

/-- The law for the trade listener: after `ms`, the calls `m` makes are those it should. -/
def TradeListener.Lawful (ms : List TradeMsg) (m : TradeMsg) : Prop :=
  CountLaw (lastCount (ms.map TradeMsg.tradeCount)) m.tradeCount (m.conflateTradeCount.getD 1)
    m.msgType.isRecap m.due ((({} : TradeListener).run ms).handleTradeMessage m).2

def QuoteListener.Lawful (ms : List QuoteMsg) (m : QuoteMsg) : Prop :=
  CountLaw (lastCount (ms.map QuoteMsg.quoteCount)) m.quoteCount (m.conflateQuoteCount.getD 1)
    m.msgType.isRecap ((({} : QuoteListener).run ms).due m)
    ((({} : QuoteListener).run ms).handleQuoteMessage m).2

/-- **Counts over whole runs.**  Whatever messages came before, a message keeps the law exactly
when it reveals no gap or has no callback of its own; counts must not wrap. -/
theorem countLaw_iff (ms : List TradeMsg) (m : TradeMsg) (qs : List QuoteMsg) (q : QuoteMsg) :
    ((∀ m' ∈ m :: ms, m'.msgType ≠ .closing) →
      1 ≤ m.conflateTradeCount.getD 1 →
      lastCount (ms.map TradeMsg.tradeCount) + m.conflateTradeCount.getD 1 < 2 ^ 32 →
      (TradeListener.Lawful ms m ↔
        ¬ (Reveals (lastCount (ms.map TradeMsg.tradeCount)) m.tradeCount
          (m.conflateTradeCount.getD 1) m.msgType.isRecap ∧ m.due.isSome))) ∧
    (1 ≤ q.conflateQuoteCount.getD 1 →
      lastCount (qs.map QuoteMsg.quoteCount) + q.conflateQuoteCount.getD 1 < 2 ^ 32 →
      (QuoteListener.Lawful qs q ↔
        ¬ (Reveals (lastCount (qs.map QuoteMsg.quoteCount)) q.quoteCount
          (q.conflateQuoteCount.getD 1) q.msgType.isRecap ∧
          ((({} : QuoteListener).run qs).due q).isSome))) := by
  constructor
  · intro hms hpos hc
    have hset := TradeListener.settled_run fun m' hm' => hms m' (mem_cons_of_mem m hm')
    exact countLaw_iff_of_calls hset _ _ hc hpos _ _
      (TradeListener.calls_handleTradeMessage _ (hms m mem_cons_self))
  · intro hpos hc
    have hset := QuoteListener.settled_run qs
    exact countLaw_iff_of_calls hset _ _ hc hpos _ _
      (QuoteListener.calls_handleQuoteMessage _ q)

/-- A recap with count 10 and the trade and quote that follow it. -/
theorem countLaw_eleven :
    TradeListener.Lawful [{ msgType := .recap, tradeCount := some 10 }]
        { msgType := .trade, tradeCount := some 11 } ∧
      QuoteListener.Lawful [{ msgType := .recap, quoteCount := some 10 }]
        { msgType := .quote, quoteCount := some 11 } := by
  constructor
  · refine ((countLaw_iff [{ msgType := .recap, tradeCount := some 10 }]
      { msgType := .trade, tradeCount := some 11 } [] { msgType := .quote }).1
        (by decide) (by decide) (by decide)).mpr ?_
    rintro ⟨⟨-, -, n, hn, hlt⟩, -⟩
    cases hn
    exact nomatch hlt
  · refine ((countLaw_iff [] { msgType := .trade } [{ msgType := .recap, quoteCount := some 10 }]
      { msgType := .quote, quoteCount := some 11 }).2 (by decide) (by decide)).mpr ?_
    rintro ⟨⟨-, -, n, hn, hlt⟩, -⟩
    cases hn
    exact nomatch hlt

/-- The trade with count 15 after a recap with count 10 is reported as a gap and then lost. -/
theorem countLaw_gap_lost :
    ¬ TradeListener.Lawful [{ msgType := .recap, tradeCount := some 10 }]
      { msgType := .trade, tradeCount := some 15, lastPrice := some 1 } := by
  intro law
  have h := law.own .onTradeReport rfl
  revert h
  decide

end Mamda

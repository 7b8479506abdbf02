import OpenMama.Mamda.QuoteTransients
import OpenMama.Mamda.TradeTransients
import OpenMama.Mamda.TransientMessages

/-!
# Transient trades and quotes

What holds of the messages of a trade or a quote listener that processes transient
messages apart, and runs of the two where the regular record is lost.
-/

namespace Mamda.Cached

/-- `MamdaTradeListenerImpl`. -/
def Trade.made (msgQualFieldState : FieldState) : ListenerState Trade.TradeCache :=
  .new (Trade.clearCache Trade.newCache) msgQualFieldState

/-- `MamdaQuoteListenerImpl`, whose constructor does not set every state: `memory` is what is there
before. -/
def Quote.made (memory : Quote.Key → FieldState) (msgQualFieldState : FieldState) :
    ListenerState Quote.QuoteCache :=
  .new (Quote.clearCache { Quote.newCache with state := memory }) msgQualFieldState

/-- **Transient messages.**  In a run that has no regular message after a transient one, and where
the first transient message sets each member that a new cache and a cleared one differ in, the
regular messages are seen as they are without the others, and the callbacks of a transient message
show what it does to a cleared cache. -/
theorem transients_apart (settings : Settings)
    (hprocess : settings.processPosDupAndOutOfSeqAsTransient) :
    (∀ msgQualFieldState ms, Trade.listener.TransientLast settings Trade.CarriesUnlikeNew
        (Trade.made msgQualFieldState) ms →
      Trade.listener.RegularUndisturbed settings (Trade.made msgQualFieldState) ms ∧
        Trade.listener.OwnFieldsShown settings (Trade.made msgQualFieldState) ms) ∧
    (∀ memory msgQualFieldState ms, Quote.listener.TransientLast settings Quote.CarriesUnlikeNew
        (Quote.made memory msgQualFieldState) ms →
      Quote.listener.RegularUndisturbed settings (Quote.made memory msgQualFieldState) ms ∧
        Quote.listener.OwnFieldsShown settings (Quote.made memory msgQualFieldState) ms) := by
  constructor
  · intro msgQualFieldState ms h
    have hfirst : ∀ q m, Trade.CarriesUnlikeNew m →
        (Trade.listener.process settings true q m Trade.listener.newCache).2 =
          (Trade.listener.process settings true q m
            (Trade.listener.clearCache Trade.listener.newCache)).2 :=
      fun q m hm => congrArg Prod.snd (Trade.process_unlikeNew hm)
    exact ⟨CachedListener.regularUndisturbed h, CachedListener.ownFieldsShown hprocess hfirst rfl h⟩
  intro memory msgQualFieldState ms h
  have hfirst : ∀ q m, Quote.CarriesUnlikeNew m →
      (Quote.listener.process settings true q m Quote.listener.newCache).2 =
        (Quote.listener.process settings true q m
          (Quote.listener.clearCache Quote.listener.newCache)).2 :=
    fun q m hm => congrArg Prod.snd (Quote.process_unlikeNew hm)
  exact ⟨CachedListener.regularUndisturbed h, CachedListener.ownFieldsShown hprocess hfirst rfl h⟩

/-! ## Runs -/

def apart : Settings := { processPosDupAndOutOfSeqAsTransient := true }

def Trade.priced : FieldMsg Trade.Fid :=
  { msgType := .trade, fields := [{ fid := .tradePrice, getPrice := 10 }] }

/-- A trade with no fields, which leaves the price as it is. -/
def Trade.unpriced : FieldMsg Trade.Fid := { msgType := .trade }

def Trade.late : FieldMsg Trade.Fid := { msgType := .trade, qual := some ⟨16#16⟩ }

/-- One that sets each member that a new cache and a cleared one differ in. -/
def Trade.lateComplete : FieldMsg Trade.Fid :=
  { msgType := .trade
    qual := some ⟨16#16⟩
    fields :=
      [{ fid := .lastDirection, type := .integer, getU32 := 1 },
        { fid := .stopStockInd, type := .char, getChar := 'S' },
        { fid := .origStopStockInd, type := .char, getChar := 'S' },
        { fid := .corrStopStockInd, type := .char, getChar := 'S' },
        { fid := .shortSaleCircuitBreaker, type := .char, getChar := 'A' },
        { fid := .origShortSaleCircuitBreaker, type := .char, getChar := 'A' },
        { fid := .corrShortSaleCircuitBreaker, type := .char, getChar := 'A' }] }

def Quote.priced : FieldMsg Quote.Fid :=
  { msgType := .quote, fields := [{ fid := .bidPrice, getPrice := 10 }] }

/-- A quote with no fields, which leaves the price as it is. -/
def Quote.unpriced : FieldMsg Quote.Fid := { msgType := .quote }

def Quote.late : FieldMsg Quote.Fid := { msgType := .quote, qual := some ⟨16#16⟩ }

/-- One that sets each member that a new cache and a cleared one differ in. -/
def Quote.lateComplete : FieldMsg Quote.Fid :=
  { msgType := .quote
    qual := some ⟨16#16⟩
    fields :=
      [{ fid := .shortSaleBidTick, type := .char, getChar := 'U' },
        { fid := .shortSaleCircuitBreaker, type := .char, getChar := 'A' }] }

theorem transientLast_pair {Fid Name C : Type} [DecidableEq Fid] {L : CachedListener Fid Name C}
    {settings : Settings} {carries : FieldMsg Fid → Prop} {s : ListenerState C}
    {m n : FieldMsg Fid} (hm : L.isTransient settings s m = false) (hn : carries n) :
    L.TransientLast settings carries s [m, n] := by
  intro before k after hsplit hk
  rcases before with - | ⟨m', before⟩
  · cases hsplit
    rw [List.foldl_nil, hm] at hk
    cases hk
  obtain ⟨rfl, htail⟩ := List.cons_eq_cons.mp hsplit
  have hafter : before = [] ∧ after = [] ∧ k = n := by
    rcases before with - | ⟨n', before⟩
    · cases htail; exact ⟨rfl, rfl, rfl⟩
    · cases before <;> cases htail
  obtain ⟨rfl, rfl, rfl⟩ := hafter
  exact ⟨fun _ => hn, fun l hl => absurd hl List.not_mem_nil⟩

theorem Trade.carriesUnlikeNew_lateComplete : CarriesUnlikeNew lateComplete := by
  intro k hk
  cases k <;> cases hk
  all_goals simp [lateComplete, Key.SetBy, Key.fid, getIndicator]

theorem Quote.carriesUnlikeNew_lateComplete : CarriesUnlikeNew lateComplete := by
  intro k hk
  cases k <;> cases hk
  all_goals simp [lateComplete, Key.SetBy, Key.named, getTick]

theorem transients_apart_pair :
    (Trade.listener.RegularUndisturbed apart (Trade.made .notInitialised)
        [Trade.priced, Trade.lateComplete] ∧
      Trade.listener.OwnFieldsShown apart (Trade.made .notInitialised)
        [Trade.priced, Trade.lateComplete]) ∧
    (Quote.listener.RegularUndisturbed apart (Quote.made (fun _ => .notInitialised) .notInitialised)
        [Quote.priced, Quote.lateComplete] ∧
      Quote.listener.OwnFieldsShown apart (Quote.made (fun _ => .notInitialised) .notInitialised)
        [Quote.priced, Quote.lateComplete]) :=
  ⟨(transients_apart apart rfl).1 _ _
      (transientLast_pair (by decide) Trade.carriesUnlikeNew_lateComplete),
    (transients_apart apart rfl).2 _ _ _
      (transientLast_pair (by decide) Quote.carriesUnlikeNew_lateComplete)⟩

/-- A trade out of sequence takes the regular record away, and shows a stop stock indicator that is
not the one of a cleared cache. -/
theorem not_transients_apart :
    (¬ Trade.listener.RegularUndisturbed apart (Trade.made .notInitialised)
        [Trade.priced, Trade.late, Trade.unpriced] ∧
      ¬ Trade.listener.OwnFieldsShown apart (Trade.made .notInitialised) [Trade.late]) ∧
    (¬ Quote.listener.RegularUndisturbed apart
        (Quote.made (fun _ => .notInitialised) .notInitialised)
        [Quote.priced, Quote.late, Quote.unpriced] ∧
      ¬ Quote.listener.OwnFieldsShown apart
        (Quote.made (fun _ => .notInitialised) .notInitialised) [Quote.late]) := by
  refine ⟨⟨fun h => ?_, fun h => ?_⟩, ⟨fun h => ?_, fun h => ?_⟩⟩
  · unfold CachedListener.RegularUndisturbed at h
    have hprice := congrArg (List.map fun seen => seen.after.cache.value Trade.Key.lastPrice) h
    exact absurd hprice (by decide +kernel)
  · have hcalls := h [] Trade.late [] rfl (by decide +kernel)
    have hstop := congrArg (List.map fun call => call.cache.value Trade.Key.stopStockInd) hcalls
    exact absurd hstop (by decide +kernel)
  · unfold CachedListener.RegularUndisturbed at h
    have hprice := congrArg (List.map fun seen => seen.after.cache.value Quote.Key.bidPrice) h
    exact absurd hprice (by decide +kernel)
  · have hcalls := h [] Quote.late [] rfl (by decide +kernel)
    have htick := congrArg (List.map fun call => call.cache.value Quote.Key.shortSaleBidTick) hcalls
    exact absurd htick (by decide +kernel)

end Mamda.Cached

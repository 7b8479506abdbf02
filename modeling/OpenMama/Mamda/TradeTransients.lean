import OpenMama.Mamda.CacheAgreement
import OpenMama.Mamda.TradeHandling

/-!
# The first transient trade

A new trade cache is all zeros.  A cleared one differs from it in seven members
(`Key.unlikeNew`).  A message that sets them all leaves the same cache of both.
-/

namespace Mamda.Cached.Trade

/-- The members that a new cache and a cleared one differ in. -/
def Key.unlikeNew : Key → Bool
  | .tradeDirection | .stopStockInd | .origStopStockInd | .corrStopStockInd
  | .shortSaleCircuitBreaker | .origShortSaleCircuitBreaker | .corrShortSaleCircuitBreaker => true
  | _ => false

def Key.fid : Key → Fid
  | .tradeDirection => .lastDirection
  | .stopStockInd => .stopStockInd
  | .origStopStockInd => .origStopStockInd
  | .corrStopStockInd => .corrStopStockInd
  | .shortSaleCircuitBreaker => .shortSaleCircuitBreaker
  | .origShortSaleCircuitBreaker => .origShortSaleCircuitBreaker
  | .corrShortSaleCircuitBreaker => .corrShortSaleCircuitBreaker
  | _ => .other

/-- A field that sets such a member in a new cache and in a cleared one.  The circuit breakers are
set where the character is not the one there is. -/
def Key.SetBy (k : Key) (f : MsgField Fid) : Prop :=
  f.fid = k.fid ∧
    match k with
    | .stopStockInd | .origStopStockInd | .corrStopStockInd => (getIndicator f).isSome
    | .shortSaleCircuitBreaker | .origShortSaleCircuitBreaker | .corrShortSaleCircuitBreaker =>
      f.getChar ≠ '\x00' ∧ f.getChar ≠ ' '
    | _ => True

/-- The message sets each member that a new cache and a cleared one differ in. -/
def CarriesUnlikeNew (m : FieldMsg Fid) : Prop :=
  ∀ k : Key, k.unlikeNew → ∃ f ∈ m.fields, k.SetBy f

/-! ## Caches that agree but for these members -/

abbrev AgreeOffNew (c d : TradeCache) : Prop := c.AgreeOff (fun k => k.unlikeNew) d

theorem agreeOffNew_clearCache : AgreeOffNew newCache (clearCache newCache) := by
  refine ⟨rfl, fun k hk => ⟨?_, rfl⟩⟩
  simp only [clearCache]
  split
  · rfl
  · revert hk
    cases k <;> simp [Key.unlikeNew, clearedValue, newCache]

variable {c d : TradeCache} {k : Key} {S : Key → Prop} {m : FieldMsg Fid}

theorem agreeOffNew_regular (h : AgreeOffNew c d) : AgreeOffNew (regular c) (regular d) := by
  unfold regular
  rw [h.flags]
  split
  · exact h
  · exact h.put .isIrregular false

theorem agreeOffNew_irregular (h : AgreeOffNew c d) (isSet : Bool) :
    AgreeOffNew (irregular isSet c) (irregular isSet d) := by
  unfold irregular
  rw [h.flags, h.value_eq (k := .isIrregular) (by decide)]
  split
  · exact h.store .isIrregular true
  · exact h

abbrev RespectsNew (u : Update) : Prop := Respects (fun k => k.unlikeNew) u

theorem respectsNew_lastPrice : RespectsNew fieldUpdateLastPrice :=
  fun f _ _ h => agreeOffNew_regular ((h.store .lastPrice f.getPrice).setFlags _)

theorem respectsNew_lastVolume : RespectsNew fieldUpdateLastVolume :=
  fun f _ _ h => agreeOffNew_regular ((h.store .lastVolume f.getF64).setFlags _)

theorem respectsNew_lastPartId : RespectsNew fieldUpdateLastPartId :=
  fun f _ _ h => agreeOffNew_regular (h.store .lastPartId f.getString)

theorem respectsNew_lastTime : RespectsNew fieldUpdateLastTime := by
  intro f c d h
  unfold fieldUpdateLastTime
  split
  · exact (h.store .lastTime f.getDateTime).setFlags _
  · exact h

theorem respectsNew_irregPrice : RespectsNew fieldUpdateIrregPrice :=
  fun f _ _ h => agreeOffNew_irregular ((h.store .irregPrice f.getPrice).setFlags _) _

theorem respectsNew_irregVolume : RespectsNew fieldUpdateIrregVolume :=
  fun f _ _ h => agreeOffNew_irregular ((h.store .irregVolume f.getF64).setFlags _) _

theorem respectsNew_irregPartId : RespectsNew fieldUpdateIrregPartId :=
  fun f _ _ h => agreeOffNew_irregular (h.store .irregPartId f.getString) _

theorem respectsNew_irregTime : RespectsNew fieldUpdateIrregTime :=
  fun f _ _ h => agreeOffNew_irregular ((h.store .irregTime f.getDateTime).setFlags _) _

theorem respectsNew_tmpTradeCount : RespectsNew fieldUpdateTmpTradeCount :=
  fun f _ _ h => (h.store .tmpTradeCount f.getU32).setFlags _

theorem respectsNew_fieldUpdater {fid : Fid} {u : Update} (h : fieldUpdater fid = some u) :
    RespectsNew u := by
  cases fid <;> cases h
  case tradePrice => exact respectsNew_lastPrice
  case tradeSize => exact respectsNew_lastVolume
  case tradePartId => exact respectsNew_lastPartId
  case tradeTime => exact respectsNew_lastTime
  case irregPrice => exact respectsNew_irregPrice
  case irregSize => exact respectsNew_irregVolume
  case irregPartId => exact respectsNew_irregPartId
  case irregTime => exact respectsNew_irregTime
  case tradeCount => exact respectsNew_tmpTradeCount
  all_goals
    first
    | exact respects_store _ _
    | exact respects_storeSome _ _
    | exact respects_storeOther _ _

theorem agreeOffNew_onField (h : AgreeOffNew c d) (f : MsgField Fid) :
    AgreeOffNew (onField c f) (onField d f) := by
  unfold onField
  cases hu : fieldUpdater f.fid with
  | none => exact h
  | some u => exact respectsNew_fieldUpdater hu f c d h

/-! ## Fields that spare them -/

/-- The members that a field of some name is not written to. -/
def Key.isSparedBy (fid : Fid) (k : Key) : Bool := k.unlikeNew && decide (k.fid ≠ fid)

abbrev SparedBy (fid : Fid) (k : Key) : Prop := k.isSparedBy fid

theorem not_sparedBy {fid : Fid} (h : k.isSparedBy fid = false) : ¬ SparedBy fid k :=
  Bool.eq_false_iff.mp h

theorem spared_regular (hS : ¬ S .isIrregular) (hk : S k) (c : TradeCache) :
    (regular c).AgreeAt c k := by
  unfold regular
  split
  · exact ⟨rfl, rfl⟩
  · exact ⟨by simp [Cache.put, ne_of_spared hS hk], rfl⟩

theorem spared_irregular (hS : ¬ S .isIrregular) (hk : S k) (isSet : Bool) (c : TradeCache) :
    (irregular isSet c).AgreeAt c k := by
  unfold irregular
  split
  · exact spares_cacheStore (ne_of_spared hS hk) c true
  · exact ⟨rfl, rfl⟩

theorem spares_fieldUpdater_regular (hk : ¬ S k) (hS : ¬ S .isIrregular)
    (get : MsgField Fid → k.kind.Type) (got : Flags → Flags) :
    Spares S fun f c => regular ((c.store k (get f)).setFlags got) :=
  fun f c _ hl =>
    (spared_regular hS hl _).trans (spares_cacheStore (ne_of_spared hk hl) c (get f))

theorem spares_fieldUpdater_irregular (hk : ¬ S k) (hS : ¬ S .isIrregular)
    (get : MsgField Fid → k.kind.Type) (got : Flags → Flags) (isSet : MsgField Fid → Bool) :
    Spares S fun f c => irregular (isSet f) ((c.store k (get f)).setFlags got) :=
  fun f c _ hl =>
    (spared_irregular hS hl (isSet f) _).trans (spares_cacheStore (ne_of_spared hk hl) c (get f))

theorem spares_lastTime (hS : ¬ S .lastTime) : Spares S fieldUpdateLastTime := by
  intro f c k hk
  unfold fieldUpdateLastTime
  split
  · exact spares_cacheStore (ne_of_spared hS hk) c f.getDateTime
  · exact ⟨rfl, rfl⟩

theorem spares_fieldUpdater {fid : Fid} {u : Update} (h : fieldUpdater fid = some u) :
    Spares (SparedBy fid) u := by
  cases fid <;> cases h
  case tradePrice =>
    exact spares_fieldUpdater_regular (k := .lastPrice) (not_sparedBy rfl) (not_sparedBy rfl)
      MsgField.getPrice _
  case tradeSize =>
    exact spares_fieldUpdater_regular (k := .lastVolume) (not_sparedBy rfl) (not_sparedBy rfl)
      MsgField.getF64 _
  case tradePartId =>
    exact spares_fieldUpdater_regular (k := .lastPartId) (not_sparedBy rfl) (not_sparedBy rfl)
      MsgField.getString id
  case tradeTime => exact spares_lastTime (not_sparedBy rfl)
  case irregPrice =>
    exact spares_fieldUpdater_irregular (k := .irregPrice) (not_sparedBy rfl) (not_sparedBy rfl)
      MsgField.getPrice _ fun f => f.getPrice ≠ 0
  case irregSize =>
    exact spares_fieldUpdater_irregular (k := .irregVolume) (not_sparedBy rfl) (not_sparedBy rfl)
      MsgField.getF64 _ fun f => f.getF64 ≠ 0
  case irregPartId =>
    exact spares_fieldUpdater_irregular (k := .irregPartId) (not_sparedBy rfl) (not_sparedBy rfl)
      MsgField.getString id fun f => f.getString ≠ ""
  case irregTime =>
    exact spares_fieldUpdater_irregular (k := .irregTime) (not_sparedBy rfl) (not_sparedBy rfl)
      MsgField.getDateTime _ fun f => f.getDateTime.hasTime
  case tradeCount =>
    intro f c k hk
    exact spares_cacheStore (k := .tmpTradeCount) (ne_of_spared (not_sparedBy rfl) hk) c f.getU32
  all_goals
    first
    | exact spares_store (not_sparedBy rfl) _
    | exact spares_storeSome (not_sparedBy rfl) _
    | exact spares_storeOther (not_sparedBy rfl) _

theorem spared_onField (hk : k.unlikeNew) (c : TradeCache) (f : MsgField Fid)
    (hf : ¬ f.fid = k.fid) : (onField c f).AgreeAt c k := by
  unfold onField
  cases hu : fieldUpdater f.fid with
  | none => exact ⟨rfl, rfl⟩
  | some u =>
    have hspared : SparedBy f.fid k := by simp [SparedBy, Key.isSparedBy, hk, Ne.symm hf]
    exact spares_fieldUpdater hu f c k hspared

/-! ## Before the fields -/

theorem agreeOffNew_beforeMessage (h : AgreeOffNew c d) :
    AgreeOffNew (beforeMessage c) (beforeMessage d) := by
  rw [beforeMessage, h.value_eq (k := .isIrregular) (by decide)]
  exact (h.store .wasIrregular (d.value .isIrregular)).updateFieldStates _

theorem agreeOffNew_beforeFields (h : AgreeOffNew c d) (m : FieldMsg Fid) :
    AgreeOffNew (beforeFields m c) (beforeFields m d) :=
  ((h.storeSome .symbol m.getSymbol).storeSome .partId m.getPartId).setFlags Flags.reset

theorem value_beforeFields (hk : k.unlikeNew) (m : FieldMsg Fid) (c : TradeCache) :
    (beforeFields m (beforeMessage c)).value k = c.value k := by
  have hne : ∀ l : Key, l.unlikeNew = false → k ≠ l := by
    rintro l hl rfl
    rw [hk] at hl
    cases hl
  have hsymbol := hne .symbol rfl
  have hpartId := hne .partId rfl
  have hwas := hne .wasIrregular rfl
  cases hs : m.getSymbol <;> cases hp : m.getPartId <;>
    simp [beforeFields, beforeMessage, hs, hp, Cache.storeSome, Cache.store, Cache.put, Cache.mark,
      Cache.setFlags, Cache.updateFieldStates, hsymbol, hpartId, hwas]

/-! ## The message -/

/-- The fields of a message before which a new cache and a cleared one agree but for these members,
after which they agree on each that the message sets. -/
theorem agreeAt_fields (hk : k.unlikeNew) (h : ∃ f ∈ m.fields, k.SetBy f)
    (hc : c.value k = newCache.value k) (hd : d.value k = (clearCache newCache).value k) :
    (m.fields.foldl onField c).AgreeAt (m.fields.foldl onField d) k := by
  have hspares := spared_onField hk
  cases k <;> cases hk
  case tradeDirection =>
    refine agreeAt_foldl_storeSome (· = Fid.lastDirection) hspares
      (fun f => some (getTradeDirection f)) ?_ c d ?_
    · intro c f hf
      simp only [onField, hf]
      rfl
    · obtain ⟨f, hf, hset⟩ := h
      exact ⟨f, hf, hset.1, rfl⟩
  case stopStockInd | origStopStockInd | corrStopStockInd =>
    refine agreeAt_foldl_storeSome (· = Key.fid _) hspares getIndicator ?_ c d h
    intro c f hf
    simp only [onField, hf]
    rfl
  case shortSaleCircuitBreaker | origShortSaleCircuitBreaker | corrShortSaleCircuitBreaker =>
    refine agreeAt_foldl_storeOther (· = Key.fid _) hspares MsgField.getChar ?_ c d ?_
    · intro c f hf
      simp only [onField, hf]
      rfl
    · rwa [hc, hd]

theorem updateTradeFields_unlikeNew (h : CarriesUnlikeNew m) :
    updateTradeFields m (beforeMessage newCache) =
      updateTradeFields m (beforeMessage (clearCache newCache)) := by
  have hbefore := agreeOffNew_beforeFields (agreeOffNew_beforeMessage agreeOffNew_clearCache) m
  have hfields := agreeOff_foldl (fun _ _ f hcd => agreeOffNew_onField hcd f) m.fields hbefore
  have heq := hfields.eq fun k hk =>
    agreeAt_fields hk (h k hk) (value_beforeFields hk m newCache)
      (value_beforeFields hk m (clearCache newCache))
  unfold updateTradeFields
  rw [heq]

theorem process_unlikeNew {settings : Settings} {q : Qualifier} (h : CarriesUnlikeNew m) :
    process settings true q m newCache = process settings true q m (clearCache newCache) := by
  unfold process
  rw [updateTradeFields_unlikeNew h]

end Mamda.Cached.Trade

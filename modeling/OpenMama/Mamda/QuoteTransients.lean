import OpenMama.Mamda.CacheAgreement
import OpenMama.Mamda.QuoteHandling

/-!
# The first transient quote

A new quote cache is all zeros.  A cleared one differs from it in two members
(`Key.unlikeNew`).  A message that sets them both leaves the same cache of both.
-/

namespace Mamda.Cached.Quote

/-- The members that a new cache and a cleared one differ in. -/
def Key.unlikeNew : Key → Bool
  | .shortSaleBidTick | .shortSaleCircuitBreaker => true
  | _ => false

def Key.named : Key → Fid → Bool
  | .shortSaleBidTick, .shortSaleBidTick => true
  | .shortSaleBidTick, .bidTick => true
  | .shortSaleCircuitBreaker, .shortSaleCircuitBreaker => true
  | _, _ => false

/-- A field that sets such a member in a new cache and in a cleared one.  The circuit breaker is set
where the character is not the one there is. -/
def Key.SetBy (k : Key) (f : MsgField Fid) : Prop :=
  k.named f.fid ∧
    match k with
    | .shortSaleBidTick => (getTick f).isSome
    | .shortSaleCircuitBreaker => f.getChar ≠ '\x00' ∧ f.getChar ≠ ' '
    | _ => True

/-- The message sets each member that a new cache and a cleared one differ in. -/
def CarriesUnlikeNew (m : FieldMsg Fid) : Prop :=
  ∀ k : Key, k.unlikeNew → ∃ f ∈ m.fields, k.SetBy f

/-! ## Caches that agree but for these members -/

abbrev AgreeOffNew (c d : QuoteCache) : Prop := c.AgreeOff (fun k => k.unlikeNew) d

theorem agreeOffNew_clearCache : AgreeOffNew newCache (clearCache newCache) := by
  refine ⟨rfl, fun k hk => ⟨?_, ?_⟩⟩
  · simp only [clearCache]
    split
    · rfl
    · revert hk
      cases k <;> simp [Key.unlikeNew, clearedValue, newCache]
  · simp only [clearCache]
    split <;> rfl

abbrev RespectsNew (u : Update) : Prop := Respects (fun k => k.unlikeNew) u

variable {k : Key} {m : FieldMsg Fid}

theorem respectsNew_storeChanged (hk : k.unlikeNew = false) (get : MsgField Fid → k.kind.Type)
    (got : Flags → Flags) : RespectsNew (storeChanged k get got) := by
  intro f c d h
  unfold storeChanged
  rw [h.value_eq (Bool.eq_false_iff.mp hk)]
  split
  · exact (h.store k (get f)).setFlags got
  · exact h

theorem respectsNew_bidPrice : RespectsNew fieldUpdateBidPrice := by
  intro f c d h
  have hk : ¬ Key.unlikeNew .bidPrice = true := by decide
  unfold fieldUpdateBidPrice
  rw [h.value_eq hk, h.state_eq hk]
  split
  · exact (h.store .bidPrice f.getPrice).setFlags _
  · exact h

theorem respectsNew_tmpQuoteCount : RespectsNew fieldUpdateTmpQuoteCount :=
  fun f _ _ h => (h.store .tmpQuoteCount f.getU32).setFlags _

variable {u : Update} {c d : QuoteCache} {S : Key → Prop}

theorem respectsNew_fieldUpdater {fid : Fid} (h : fieldUpdater fid = some u) : RespectsNew u := by
  cases fid <;> cases h
  case bidPrice => exact respectsNew_bidPrice
  case quoteCount => exact respectsNew_tmpQuoteCount
  all_goals
    first
    | exact respects_store _ _
    | exact respects_storeSome _ _
    | exact respects_putSome _ _
    | exact respects_storeOther _ _
    | exact respectsNew_storeChanged rfl _ _

theorem agreeOffNew_onField (h : AgreeOffNew c d) (f : MsgField Fid) :
    AgreeOffNew (onField c f) (onField d f) := by
  unfold onField
  cases hu : fieldUpdater f.fid with
  | none => exact h
  | some u => exact respectsNew_fieldUpdater hu f c d h

/-! ## Fields that spare them -/

/-- The members that a field of some name is not written to. -/
def Key.isSparedBy (fid : Fid) (k : Key) : Bool := k.unlikeNew && !k.named fid

abbrev SparedBy (fid : Fid) (k : Key) : Prop := k.isSparedBy fid

theorem not_sparedBy {fid : Fid} (h : k.isSparedBy fid = false) : ¬ SparedBy fid k :=
  Bool.eq_false_iff.mp h

theorem spares_storeChanged (hk : ¬ S k) (get : MsgField Fid → k.kind.Type) (got : Flags → Flags) :
    Spares S (storeChanged k get got) := by
  intro f c l hl
  unfold storeChanged
  split
  · exact spares_cacheStore (ne_of_spared hk hl) c (get f)
  · exact ⟨rfl, rfl⟩

theorem spares_bidPrice (hS : ¬ S .bidPrice) : Spares S fieldUpdateBidPrice := by
  intro f c k hk
  unfold fieldUpdateBidPrice
  split
  · exact spares_cacheStore (ne_of_spared hS hk) c f.getPrice
  · exact ⟨rfl, rfl⟩

theorem spares_fieldUpdater {fid : Fid} (h : fieldUpdater fid = some u) :
    Spares (SparedBy fid) u := by
  cases fid <;> cases h
  case bidPrice => exact spares_bidPrice (not_sparedBy rfl)
  case quoteCount =>
    intro f c k hk
    exact spares_cacheStore (k := .tmpQuoteCount) (ne_of_spared (not_sparedBy rfl) hk) c f.getU32
  all_goals
    first
    | exact spares_store (not_sparedBy rfl) _
    | exact spares_storeSome (not_sparedBy rfl) _
    | exact spares_putSome (not_sparedBy rfl) _
    | exact spares_storeOther (not_sparedBy rfl) _
    | exact spares_storeChanged (not_sparedBy rfl) _ _

theorem spared_onField (hk : k.unlikeNew) (c : QuoteCache) (f : MsgField Fid)
    (hf : ¬ k.named f.fid) : (onField c f).AgreeAt c k := by
  unfold onField
  cases hu : fieldUpdater f.fid with
  | none => exact ⟨rfl, rfl⟩
  | some u =>
    have hspared : SparedBy f.fid k := by simp [SparedBy, Key.isSparedBy, hk, hf]
    exact spares_fieldUpdater hu f c k hspared

/-! ## The message -/

/-- The cache at which the fields of a message are read. -/
def atFields (m : FieldMsg Fid) (c : QuoteCache) : QuoteCache :=
  beforeFields m (c.updateFieldStates Key.ages)

theorem agreeOffNew_atFields (h : AgreeOffNew c d) (m : FieldMsg Fid) :
    AgreeOffNew (atFields m c) (atFields m d) :=
  (((h.updateFieldStates Key.ages).storeSome .symbol m.getSymbol).storeSome .partId
    m.getPartId).setFlags fun _ => {}

theorem atFields_unlikeNew (hk : k.unlikeNew) (m : FieldMsg Fid) (c : QuoteCache) :
    (atFields m c).AgreeAt (c.updateFieldStates Key.ages) k := by
  have hsymbol : k ≠ .symbol := by
    rintro rfl; cases hk
  have hpartId : k ≠ .partId := by
    rintro rfl; cases hk
  have hspared : ∀ (c : QuoteCache) (l : Key) (v : Option l.kind.Type), k ≠ l →
      (c.storeSome l v).AgreeAt c k := by
    intro c l v hl
    cases v with
    | none => exact ⟨rfl, rfl⟩
    | some v => exact spares_cacheStore hl c v
  exact (hspared _ .partId m.getPartId hpartId).trans (hspared _ .symbol m.getSymbol hsymbol)

theorem agreeAt_fields (hk : k.unlikeNew) (h : ∃ f ∈ m.fields, k.SetBy f) :
    (m.fields.foldl onField (atFields m newCache)).AgreeAt
      (m.fields.foldl onField (atFields m (clearCache newCache))) k := by
  have hspares := spared_onField hk
  have hnew := atFields_unlikeNew hk m newCache
  have hclear := atFields_unlikeNew hk m (clearCache newCache)
  cases k <;> cases hk
  case shortSaleBidTick =>
    refine agreeAt_foldl_putSome (fun fid => Key.named _ fid) hspares getTick ?_ ?_ h
    · intro c f hf
      obtain hfid | hfid : f.fid = .shortSaleBidTick ∨ f.fid = .bidTick := by
        revert hf
        cases f.fid <;> simp [Key.named]
      · simp only [onField, hfid]; rfl
      · simp only [onField, hfid]; rfl
    · rw [hnew.2, hclear.2]; rfl
  case shortSaleCircuitBreaker =>
    refine agreeAt_foldl_storeOther (fun fid => Key.named _ fid) hspares MsgField.getChar
      ?_ _ _ ?_
    · intro c f hf
      have hfid : f.fid = .shortSaleCircuitBreaker := by
        revert hf
        cases f.fid <;> simp [Key.named]
      simp only [onField, hfid]
      rfl
    · rwa [hnew.1, hclear.1]

theorem updateQuoteFields_unlikeNew (h : CarriesUnlikeNew m) :
    updateQuoteFields m (newCache.updateFieldStates Key.ages) =
      updateQuoteFields m ((clearCache newCache).updateFieldStates Key.ages) := by
  have hbefore := agreeOffNew_atFields agreeOffNew_clearCache m
  have hfields := agreeOff_foldl (fun _ _ f hcd => agreeOffNew_onField hcd f) m.fields hbefore
  have heq := hfields.eq fun k hk => agreeAt_fields hk (h k hk)
  unfold atFields at heq
  unfold updateQuoteFields
  rw [heq]

theorem process_unlikeNew {settings : Settings} {q : Qualifier} (h : CarriesUnlikeNew m) :
    process settings true q m newCache = process settings true q m (clearCache newCache) := by
  unfold process
  rw [updateQuoteFields_unlikeNew h]

end Mamda.Cached.Quote

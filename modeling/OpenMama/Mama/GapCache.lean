import Mathlib.Data.List.Basic
import Mathlib.Data.List.TakeWhile
import OpenMama.Lib.RingBuffer
import OpenMama.Mama.InitialImage

/-!
# The readers of the cache

`dqContext_cacheMsg` writes a ring (`Lib.Ring`), and two loops read it: that of
`dqContext_fillGap` from the oldest message on round the ring, and that of
`dqContext_applyPreInitialCache` from slot zero up to the position.  The slots they
come to are `fillSlots` and `applySlots`; what they do there is a scan of the messages
(`fillGap_eq`, `applyPreInitialCache_eq`).

The second loop misses what is behind the position, so the two agree just as long as
the ring has not come round (`readers_iff`).  The first one forwards while it still
searches, and takes a slot that a message was detached from for the end
(`fills_iff`).
-/

namespace Mama

open List

namespace Dq

namespace Context

/-! ## The loops -/

def ring (c : Context) : Lib.Ring (Option Msg) := ⟨c.cache, c.curCacheIdx⟩

/-- `dqStrategyImpl_detachMsg`: the first slot with a message of that number is emptied. -/
def detachMsg (c : Context) (m : Msg) : Context :=
  match c.cache.findIdx? fun slot => slot.any fun held => held.seqNum = m.seqNum with
  | some i => { c with cache := c.cache.set i none }
  | none => c

/-- The slots that the loop of `dqContext_fillGap` comes to from `cur` on, if nothing is found. -/
def fillWalk (c : Context) : Nat → Nat → List Nat
  | 0, _ => []
  | turns + 1, cur =>
    match c.slot cur with
    | none => []
    | some _ =>
      let next := if cur + 1 = c.cache.length then 0 else cur + 1
      cur :: (if next = c.curCacheIdx then [] else c.fillWalk turns next)

/-- The slots that `dqContext_fillGap` comes to. -/
def fillSlots (c : Context) : List Nat :=
  if c.cache = [] then []
  else c.fillWalk c.cache.length (if (c.slot c.curCacheIdx).isNone then 0 else c.curCacheIdx)

/-- The slots that `dqContext_applyPreInitialCache` comes to. -/
def applySlots (c : Context) : List Nat :=
  (List.range c.curCacheIdx).takeWhile fun i => (c.slot i).isSome

def messages (c : Context) (slots : List Nat) : List Msg := slots.filterMap c.slot

/-- What the loop of `dqContext_fillGap` does with the messages that it comes to: whether the gap
is filled, and the messages that it has forwarded. -/
def fillScan (last : UInt32) : UInt32 → List Msg → Bool × List Msg
  | _, [] => (false, [])
  | nextSeqNum, m :: ms =>
    if m.seqNum = nextSeqNum then
      if nextSeqNum + 1 = last then (true, [m])
      else
        let (filled, forwarded) := fillScan last (nextSeqNum + 1) ms
        (filled, m :: forwarded)
    else fillScan last nextSeqNum ms

def forwardCached (c : Context) (m : Msg) : Act :=
  .forward (if c.setCacheMsgStale then m.setStatus .stale else m)

theorem fillLoop_eq (c : Context) (last : UInt32) (turns : Nat) : ∀ nextSeqNum cur,
    c.fillLoop last turns nextSeqNum cur =
      ((fillScan last nextSeqNum (c.messages (c.fillWalk turns cur))).1,
        (fillScan last nextSeqNum (c.messages (c.fillWalk turns cur))).2.map c.forwardCached) := by
  induction turns with
  | zero => exact fun _ _ => rfl
  | succ turns ih =>
    intro nextSeqNum cur
    unfold fillLoop fillWalk
    cases hslot : c.slot cur with
    | none => rfl
    | some m =>
      dsimp only
      have hmessages : ∀ slots, c.messages (cur :: slots) = m :: c.messages slots := fun slots =>
        filterMap_cons_some hslot
      rw [hmessages, fillScan]
      by_cases hm : m.seqNum = nextSeqNum
      · rw [if_pos hm, if_pos hm]
        by_cases hlast : nextSeqNum + 1 = last
        · rw [if_pos hlast, if_pos hlast]; rfl
        · rw [if_neg hlast, if_neg hlast]
          by_cases hnext : (if cur + 1 = c.cache.length then 0 else cur + 1) = c.curCacheIdx
          · rw [if_pos hnext, if_pos hnext]; rfl
          · rw [if_neg hnext, if_neg hnext, ih]; rfl
      · rw [if_neg hm, if_neg hm]
        by_cases hnext : (if cur + 1 = c.cache.length then 0 else cur + 1) = c.curCacheIdx
        · rw [if_pos hnext, if_pos hnext]; rfl
        · rw [if_neg hnext, if_neg hnext, ih]

/-- **Filling a gap is a scan** of the messages in the slots that the loop comes to. -/
theorem fillGap_eq (c : Context) (last : UInt32) :
    ((c.fillGap last).1, (c.fillGap last).2.2) =
      ((fillScan last (c.seqNum + 1) (c.messages c.fillSlots)).1,
        (fillScan last (c.seqNum + 1) (c.messages c.fillSlots)).2.map c.forwardCached) := by
  unfold fillGap fillSlots
  by_cases hcache : c.cache = []
  · rw [if_pos hcache, if_pos hcache]; rfl
  · rw [if_neg hcache, if_neg hcache]
    dsimp only
    rw [fillLoop_eq]

/-! ## The slots -/

variable {c : Context} {size : Nat}

theorem ring_cacheMsg (h : c.cache ≠ []) (m : Msg) :
    (c.cacheMsg m).ring = c.ring.push (some m) := by
  rw [cacheMsg, if_neg h]
  rfl

/-- The messages in order of arrival: those from the position on round the ring. -/
def held (c : Context) : List Msg := c.ring.window.reduceOption

/-- The messages before the first hole, from the position on, or from slot zero up to the position
where that is a hole. -/
def reached (c : Context) : List Msg :=
  ((if (c.slot c.curCacheIdx).isNone then c.cache.take c.curCacheIdx
    else c.ring.window).takeWhile Option.isSome).reduceOption

section

variable (h : c.ring.InBounds)

include h

theorem fillWalk_eq (turns : Nat) : ∀ cur, cur < c.cache.length → (c.ring.path cur).length ≤ turns →
    c.fillWalk turns cur = (c.ring.path cur).takeWhile fun i => (c.slot i).isSome := by
  induction turns with
  | zero =>
    intro cur _ hlength
    rw [eq_nil_of_length_eq_zero (Nat.le_zero.mp hlength)]
    rfl
  | succ turns ih =>
    intro cur hcur hlength
    have hpath := Lib.Ring.path_cons h hcur
    have hnext : Lib.ringNext c.cache.length cur < c.cache.length := by
      unfold Lib.ringNext
      split <;> omega
    rw [hpath] at hlength ⊢
    unfold fillWalk
    cases hslot : c.slot cur with
    | none => rw [takeWhile_cons_of_neg (by rw [hslot]; decide)]
    | some m =>
      rw [takeWhile_cons_of_pos (by rw [hslot]; rfl)]
      change cur :: (if Lib.ringNext c.cache.length cur = c.ring.pos then []
        else c.fillWalk turns (Lib.ringNext c.cache.length cur)) = _
      change (cur :: (if Lib.ringNext c.cache.length cur = c.ring.pos then []
        else c.ring.path (Lib.ringNext c.cache.length cur))).length ≤ turns + 1 at hlength
      change _ = cur :: (if Lib.ringNext c.cache.length cur = c.ring.pos then []
        else c.ring.path (Lib.ringNext c.cache.length cur)).takeWhile _
      by_cases hend : Lib.ringNext c.cache.length cur = c.ring.pos
      · rw [if_pos hend, if_pos hend]; rfl
      · rw [if_neg hend] at hlength
        rw [if_neg hend, if_neg hend, ih _ hnext (Nat.le_of_succ_le_succ hlength)]

theorem fillSlots_of_none (hslot : c.slot c.curCacheIdx = none) :
    c.fillSlots = (List.range c.curCacheIdx).takeWhile fun i => (c.slot i).isSome := by
  have hpos : c.curCacheIdx < c.cache.length := h
  have hne : c.cache ≠ [] := ne_nil_of_length_pos (by omega)
  rw [fillSlots, if_neg hne, hslot]
  refine (fillWalk_eq h _ 0 (by omega) (Lib.Ring.length_path h 0)).trans ?_
  by_cases hzero : c.curCacheIdx = 0
  · rw [hzero] at hslot
    have hpath := Lib.Ring.path_cons h (show 0 < c.cache.length by omega)
    rw [hpath, hzero, takeWhile_cons_of_neg (by rw [hslot]; decide)]
    rfl
  · rw [Lib.Ring.path_zero hzero]; rfl

theorem fillSlots_of_some (hslot : (c.slot c.curCacheIdx).isNone = false) :
    c.fillSlots = c.ring.indices.takeWhile fun i => (c.slot i).isSome := by
  have hpos : c.curCacheIdx < c.cache.length := h
  have hne : c.cache ≠ [] := ne_nil_of_length_pos (by omega)
  rw [fillSlots, if_neg hne, hslot]
  refine (fillWalk_eq h _ _ hpos (Lib.Ring.length_path h _)).trans ?_
  exact congrArg _ c.ring.path_pos

omit h in
theorem messages_takeWhile (c : Context) (slots : List Nat) :
    c.messages (slots.takeWhile fun i => (c.slot i).isSome) =
      ((slots.map c.slot).takeWhile Option.isSome).reduceOption := by
  rw [takeWhile_map]
  exact (filterMap_map (g := id)).symm

theorem map_range_slot : (List.range c.curCacheIdx).map c.slot = c.cache.take c.curCacheIdx := by
  have hpos : c.curCacheIdx < c.cache.length := h
  apply ext_getElem
  · simp; omega
  · intro i h₁ h₂
    rw [length_take] at h₂
    rw [getElem_map, getElem_range, getElem_take]
    exact getD_eq_getElem _ _ (by omega)

theorem map_indices_slot : c.ring.indices.map c.slot = c.ring.window :=
  Lib.Ring.map_indices (Nat.le_of_lt h) none

end

/-- With the position behind the ring the loop comes to every slot. -/
theorem fillWalk_behind (h : c.cache.length ≤ c.curCacheIdx) (turns : Nat) :
    ∀ cur, cur + turns = c.cache.length → c.messages (c.fillWalk turns cur) =
      ((c.cache.drop cur).takeWhile Option.isSome).reduceOption := by
  induction turns with
  | zero =>
    intro cur hcur
    rw [drop_eq_nil_of_le (by omega)]
    rfl
  | succ turns ih =>
    intro cur hcur
    have hlt : cur < c.cache.length := by omega
    have hslot : c.slot cur = c.cache[cur] := getD_eq_getElem _ _ hlt
    rw [drop_eq_getElem_cons hlt, ← hslot]
    unfold fillWalk
    cases hheld : c.slot cur with
    | none => rfl
    | some m =>
      have hmessages : ∀ slots, c.messages (cur :: slots) = m :: c.messages slots := fun slots =>
        filterMap_cons_some hheld
      dsimp only
      rw [hmessages, takeWhile_cons_of_pos (by rfl), if_neg (by split <;> omega)]
      show _ = m :: List.reduceOption _
      cases turns with
      | zero => rw [drop_eq_nil_of_le (by omega)]; rfl
      | succ turns => rw [if_neg (by omega), ih _ (by omega)]

/-- **The messages that the loop of `dqContext_fillGap` comes to.** -/
theorem messages_fillSlots (c : Context) : c.messages c.fillSlots = c.reached := by
  rcases Nat.lt_or_ge c.curCacheIdx c.cache.length with hbounds | hbehind
  swap
  · have hslot : c.slot c.curCacheIdx = none := getD_eq_default _ _ hbehind
    rw [fillSlots, reached, hslot]
    change c.messages (if c.cache = [] then [] else c.fillWalk c.cache.length 0) =
      ((c.cache.take c.curCacheIdx).takeWhile Option.isSome).reduceOption
    rw [take_of_length_le hbehind]
    split
    · next hcache => rw [hcache]; rfl
    · exact fillWalk_behind hbehind _ 0 (Nat.zero_add _)
  · unfold reached
    by_cases hslot : (c.slot c.curCacheIdx).isNone
    · rw [if_pos hslot, fillSlots_of_none hbounds (Option.isNone_iff_eq_none.mp hslot),
        messages_takeWhile, map_range_slot hbounds]
    · rw [if_neg hslot, fillSlots_of_some hbounds (Bool.not_eq_true _ ▸ hslot), messages_takeWhile,
        map_indices_slot hbounds]

/-- **Applying the cache is the same loop** on the messages in the slots that it comes to. -/
theorem applyPreInitialCache_eq (h : c.ring.InBounds) :
    c.applyPreInitialCache = ({ c with
      seqNum := (applyLoop c.seqNum ((c.messages c.applySlots).map some)).1 },
      (applyLoop c.seqNum ((c.messages c.applySlots).map some)).2) := by
  have hloop : ∀ (slots : List (Option Msg)) seqNum, applyLoop seqNum
      ((slots.takeWhile Option.isSome).reduceOption.map some) = applyLoop seqNum slots := by
    intro slots
    induction slots with
    | nil => exact fun _ => rfl
    | cons slot slots ih =>
      intro seqNum
      cases slot with
      | none => rfl
      | some m =>
        change applyLoop seqNum
          (some m :: (slots.takeWhile Option.isSome).reduceOption.map some) = _
        rw [applyLoop, applyLoop, ih, ih]
  rw [applySlots, messages_takeWhile, map_range_slot h, hloop]
  rfl

/-! ## Filling a gap -/

def countFrom : UInt32 → Nat → List UInt32
  | _, 0 => []
  | seqNum, count + 1 => seqNum :: countFrom (seqNum + 1) count

/-- The numbers from the next one up to `last`. -/
def wanted (c : Context) (last : UInt32) : List UInt32 :=
  countFrom (c.seqNum + 1) (last - (c.seqNum + 1)).toNat

theorem toNat_sub_succ {a b : UInt32} (h : a ≠ b) : (b - a).toNat = (b - (a + 1)).toNat + 1 := by
  have hne : a.toNat ≠ b.toNat := fun heq => h (UInt32.toNat.inj heq)
  have ha := a.toNat_lt
  have hb := b.toNat_lt
  have hone : (1 : UInt32).toNat = 1 := rfl
  rw [UInt32.toNat_sub, UInt32.toNat_sub, UInt32.toNat_add]
  omega

theorem countFrom_ne_nil {a b : UInt32} (h : a ≠ b) :
    countFrom a (b - a).toNat = a :: countFrom (a + 1) (b - (a + 1)).toNat := by
  rw [toNat_sub_succ h, countFrom]

/-- The messages before the first hole have the numbers from `first` on up to the one before
`last`, in order. -/
def Covers (c : Context) (first last : UInt32) : Prop :=
  (countFrom first ((last - (first + 1)).toNat + 1)).Sublist (c.reached.map Msg.seqNum)

instance (c : Context) (first last : UInt32) : Decidable (c.Covers first last) :=
  inferInstanceAs (Decidable (List.Sublist _ _))

theorem fillScan_iff (last : UInt32) (ms : List Msg) : ∀ next, (fillScan last next ms).1 ↔
    (countFrom next ((last - (next + 1)).toNat + 1)).Sublist (ms.map Msg.seqNum) := by
  induction ms with
  | nil => intro next; simp [fillScan, countFrom]
  | cons m ms ih =>
    intro next
    rw [countFrom, map_cons]
    unfold fillScan
    by_cases hm : m.seqNum = next
    · rw [if_pos hm, hm, cons_sublist_cons]
      by_cases hlast : next + 1 = last
      · rw [if_pos hlast, hlast, UInt32.sub_self]
        exact iff_of_true rfl (nil_sublist _)
      · rw [if_neg hlast, toNat_sub_succ hlast]; exact ih (next + 1)
    · rw [if_neg hm, ih next, countFrom, cons_sublist_cons']
      exact ⟨.inl, fun h => h.resolve_right fun heq => hm heq.1.symm⟩

/-- **A gap is filled** just if the messages before the first hole have every number of it. -/
theorem fillGap_iff (c : Context) (last : UInt32) :
    (c.fillGap last).1 ↔ c.Covers (c.seqNum + 1) last := by
  rw [(Prod.mk.inj (c.fillGap_eq last)).1, messages_fillSlots]
  exact fillScan_iff last c.reached (c.seqNum + 1)

/-- There is a try left to fill a gap, and the ring has what fills it. -/
def IsBridged (t : Transport) (x : Strategy) (first last : UInt32) : Prop :=
  t.preInitialScheme = .onGap ∧ x.tryToFillGap ∧ x.ctx.Covers first last

instance (t : Transport) (x : Strategy) (first last : UInt32) :
    Decidable (IsBridged t x first last) :=
  inferInstanceAs (Decidable (_ ∧ _ ∧ _))

theorem isFilled_enter_iff (t : Transport) (x : Strategy) (m : Msg) : IsFilled t (x.enter m) ↔
    IsBridged t x ((if x.ctx.takenOver m then m.seqNum else x.ctx.seqNum) + 1) m.seqNum := by
  show _ ∧ _ ∧ ((x.enter m).ctx.fillGap m.seqNum).1 ↔ _
  rw [fillGap_iff]
  unfold Strategy.enter Context.entered
  cases x.ctx.takenOver m <;> exact Iff.rfl

/-- The scan forwards what it finds, and is silent just if not even the first number is there. -/
theorem fillScan_spec (last : UInt32) (ms : List Msg) : ∀ next, next ≠ last →
    ((fillScan last next ms).1 →
      (fillScan last next ms).2.map Msg.seqNum = countFrom next (last - next).toNat) ∧
    (fillScan last next ms).2.Sublist ms ∧
    ((fillScan last next ms).2 = [] ↔ next ∉ ms.map Msg.seqNum) := by
  induction ms with
  | nil =>
    intro next hne
    rw [countFrom_ne_nil hne]
    simp [fillScan]
  | cons m ms ih =>
    intro next hne
    rw [countFrom_ne_nil hne]
    unfold fillScan
    by_cases hm : m.seqNum = next
    · rw [if_pos hm]
      by_cases hlast : next + 1 = last
      · have hnone : (last - (next + 1)).toNat = 0 := by
          rw [hlast, UInt32.sub_self]; rfl
        rw [if_pos hlast, hnone]
        simp [countFrom, hm]
      obtain ⟨hforwarded, hsub, -⟩ := ih (next + 1) hlast
      rw [if_neg hlast]
      refine ⟨?_, ?_, ?_⟩
      · intro h
        rw [map_cons, hm, hforwarded h]
      · exact hsub.cons_cons m
      · simp [hm]
    rw [if_neg hm]
    obtain ⟨hforwarded, hsub, hsilent⟩ := ih next hne
    rw [countFrom_ne_nil hne] at hforwarded
    refine ⟨hforwarded, hsub.cons m, ?_⟩
    rw [hsilent, map_cons, mem_cons, not_or]
    exact ⟨fun h => ⟨fun heq => hm heq.symm, h⟩, fun h => h.2⟩

theorem forwarded_of_filled {last : UInt32} (ms : List Msg) : ∀ next,
    (fillScan last next ms).1 → (fillScan last next ms).2 ≠ [] := by
  induction ms with
  | nil => intro next h; cases h
  | cons m ms ih =>
    intro next
    unfold fillScan
    split
    · split <;> simp
    · exact ih next

/-- **What filling a gap is to do**: all of the messages, or none. -/
structure Fills (c : Context) (last : UInt32) : Prop where
  filled : (c.fillGap last).1 ↔ (c.wanted last).Sublist (c.held.map Msg.seqNum)
  forwarded : (c.fillGap last).1 → ∃ ms : List Msg, ms.Sublist c.held ∧
    ms.map Msg.seqNum = c.wanted last ∧ (c.fillGap last).2.2 = ms.map c.forwardCached
  silent : (c.fillGap last).1 = false → (c.fillGap last).2.2 = []

/-- There is something to fill, and before the first hole there is all of it, or nothing to begin
with where not all of it is held. -/
def AllOrNothing (c : Context) (last : UInt32) : Prop :=
  c.wanted last ≠ [] ∧
    ((c.wanted last).Sublist (c.reached.map Msg.seqNum) ∨
      ¬ (c.wanted last).Sublist (c.held.map Msg.seqNum) ∧
        c.seqNum + 1 ∉ c.reached.map Msg.seqNum)

instance (c : Context) (last : UInt32) : Decidable (c.AllOrNothing last) :=
  inferInstanceAs (Decidable (_ ∧ _))

theorem reached_sublist_held (c : Context) : c.reached.Sublist c.held := by
  have hwalk : (if (c.slot c.curCacheIdx).isNone then c.cache.take c.curCacheIdx
      else c.ring.window).Sublist c.ring.window := by
    split
    · exact sublist_append_right _ _
    · exact List.Sublist.refl _
  exact ((takeWhile_sublist _).trans hwalk).filterMap id

theorem wanted_eq_nil_iff (c : Context) (last : UInt32) :
    c.wanted last = [] ↔ c.seqNum + 1 = last := by
  constructor
  · intro h
    by_contra hne
    rw [wanted, countFrom_ne_nil hne] at h
    exact cons_ne_nil _ _ h
  · intro h
    rw [wanted, h, UInt32.sub_self]
    rfl

/-- **A gap is filled wholly or not at all** just if its messages are before the first hole, or do
not begin there and are not all held. -/
theorem fills_iff (c : Context) (last : UInt32) :
    c.Fills last ↔ c.AllOrNothing last := by
  obtain ⟨hflag, hacts⟩ := Prod.mk.inj (c.fillGap_eq last)
  rw [messages_fillSlots] at hflag hacts
  rw [AllOrNothing, Ne, wanted_eq_nil_iff]
  by_cases hnone : c.seqNum + 1 = last
  · -- nothing is wanted: the loop should have found it, and cannot without forwarding
    refine iff_of_false (fun hfills => ?_) (fun hall => hall.1 hnone)
    have hwanted := (c.wanted_eq_nil_iff last).mpr hnone
    have hfilled := hfills.filled.mpr (by rw [hwanted]; exact nil_sublist _)
    obtain ⟨ms, -, hnumbers, hforwarded⟩ := hfills.forwarded hfilled
    rw [hwanted, map_eq_nil_iff] at hnumbers
    rw [hnumbers, hacts, map_nil, map_eq_nil_iff] at hforwarded
    exact forwarded_of_filled _ _ (hflag ▸ hfilled) hforwarded
  obtain ⟨hnumbers, hsub, hsilent⟩ := fillScan_spec last c.reached (c.seqNum + 1) hnone
  have hfound : (c.fillGap last).1 ↔ (c.wanted last).Sublist (c.reached.map Msg.seqNum) := by
    rw [fillGap_iff, Covers, wanted, toNat_sub_succ hnone]
  have hheld := c.reached_sublist_held
  rw [← hflag] at hnumbers
  constructor
  · intro hfills
    refine ⟨hnone, ?_⟩
    cases hresult : (c.fillGap last).1 with
    | true => exact .inl (hfound.mp hresult)
    | false =>
      have hquiet := hfills.silent hresult
      rw [hacts, map_eq_nil_iff] at hquiet
      refine .inr ⟨fun hall => ?_, hsilent.mp hquiet⟩
      exact absurd (hfills.filled.mpr hall) (by rw [hresult]; exact Bool.false_ne_true)
  intro hall
  rcases hall.2 with hall | ⟨hmissing, hbegin⟩
  · have hfilled := hfound.mpr hall
    refine ⟨⟨fun _ => hall.trans (hheld.map _), fun _ => hfilled⟩, fun _ => ?_, fun hnot => ?_⟩
    · exact ⟨_, hsub.trans hheld, hnumbers hfilled, hacts⟩
    · exact absurd hfilled (by rw [hnot]; exact Bool.false_ne_true)
  · have hnot : ¬ (c.fillGap last).1 := fun hfilled =>
      hmissing ((hfound.mp hfilled).trans (hheld.map _))
    refine ⟨⟨fun hfilled => absurd hfilled hnot, fun hall => absurd hall hmissing⟩,
      fun hfilled => absurd hfilled hnot, fun _ => ?_⟩
    rw [hacts, hsilent.mpr hbegin]
    rfl

/-- The number 4 was the last, and so many updates are in a ring of four. -/
def cachedUpdates (seqNums : List UInt32) : Context :=
  seqNums.foldl (fun c s => c.cacheMsg (Strategy.updateOf .update s 1))
    { initializeContext 4 with seqNum := 4 }

/-- Without the update between them a hole is there, and the second update behind it. -/
example : ¬ ((cachedUpdates [5, 3, 6]).detachMsg (Strategy.updateOf .update 3 1)).AllOrNothing 7 :=
  by decide +kernel

/-- Two missed updates are in the ring, with one between them. -/
theorem fills_five_six : (cachedUpdates [5, 3, 6, 8]).Fills 7 :=
  (fills_iff (cachedUpdates [5, 3, 6, 8]) 7).mpr (by decide +kernel)

/-- The first of two missed updates is forwarded, and then the second one is not there. -/
theorem not_fills : ¬ ∀ (c : Context) (last : UInt32), c.Fills last := by
  intro hall
  have hsilent := (hall (cachedUpdates [5]) 7).silent (by decide +kernel)
  exact absurd hsilent (by decide +kernel)

/-! ## Both readers -/

inductive CacheOp
  | cacheMsg (m : Msg)
  | clearCache

def CacheOp.apply (c : Context) : CacheOp → Context
  | cacheMsg m => c.cacheMsg m
  | clearCache => c.clearCache

def cacheRun (size : Nat) (ops : List CacheOp) : Context :=
  ops.foldl CacheOp.apply (initializeContext size)

/-- The messages that were cached since the last clear. -/
def sinceClear (ops : List CacheOp) : List Msg :=
  ops.foldl (fun ms op =>
    match op with
    | .cacheMsg m => ms ++ [m]
    | .clearCache => []) []

def recent (size : Nat) (ms : List Msg) : List Msg := ms.drop (ms.length - size)

theorem cacheRun_concat (size : Nat) (ops : List CacheOp) (op : CacheOp) :
    cacheRun size (ops ++ [op]) = op.apply (cacheRun size ops) :=
  List.foldl_concat ..

section

variable (hsize : 0 < size)

include hsize

section

variable (ops : List CacheOp)

/-- **The ring of a run**: what was cached since the last clear was written to an empty one. -/
theorem ring_cacheRun : (cacheRun size ops).ring =
      ((sinceClear ops).map some).foldl Lib.Ring.push ⟨List.replicate size none, 0⟩ := by
  induction ops using List.reverseRecOn with
  | nil => rfl
  | append_singleton ops op ih =>
    have hlength : (cacheRun size ops).cache.length = size := by
      have hslots := congrArg (fun r => r.slots.length) ih
      simp only [Lib.Ring.length_slots_pushes, length_replicate] at hslots
      exact hslots
    have hne : (cacheRun size ops).cache ≠ [] := ne_nil_of_length_pos (by omega)
    rw [cacheRun_concat, sinceClear, List.foldl_concat]
    cases op with
    | cacheMsg m =>
      change ((cacheRun size ops).cacheMsg m).ring =
        ((sinceClear ops ++ [m]).map some).foldl Lib.Ring.push _
      rw [ring_cacheMsg hne, ih, map_append, foldl_append]
      rfl
    | clearCache =>
      change (cacheRun size ops).clearCache.ring = _
      rw [clearCache, if_neg hne]
      rw [hlength]
      rfl

theorem inBounds_cacheRun : (cacheRun size ops).ring.InBounds := by
  rw [ring_cacheRun hsize]
  refine Lib.Ring.inBounds_pushes ?_ _
  rwa [Lib.Ring.InBounds, length_replicate]

theorem window_cacheRun :
    (cacheRun size ops).ring.window = List.replicate (size - (sinceClear ops).length) none ++
      (recent size (sinceClear ops)).map some := by
  have hempty : (⟨List.replicate size none, 0⟩ : Lib.Ring (Option Msg)).InBounds := by
    rwa [Lib.Ring.InBounds, length_replicate]
  rw [ring_cacheRun hsize, Lib.Ring.window_pushes hempty, Lib.Ring.window_of_zero rfl,
    length_map, drop_append, drop_replicate, length_replicate, ← map_drop]
  rfl

theorem pos_cacheRun : (cacheRun size ops).curCacheIdx = (sinceClear ops).length % size := by
  have hempty : (⟨List.replicate size none, 0⟩ : Lib.Ring (Option Msg)).InBounds := by
    rwa [Lib.Ring.InBounds, length_replicate]
  have hpos := congrArg Lib.Ring.pos (ring_cacheRun hsize ops)
  rwa [Lib.Ring.pos_pushes hempty, length_map, length_replicate, Nat.zero_add] at hpos

end

omit hsize in
theorem head?_window (h : c.ring.InBounds) : c.ring.window.head? = some (c.slot c.curCacheIdx) := by
  rw [Lib.Ring.window, drop_eq_getElem_cons h]
  exact congrArg some (getD_eq_getElem _ _ h).symm

/-- **The readers agree**: they come to the same slots, those of the last messages in order of
arrival, to each once. -/
structure ReadersAgree (c : Context) (expected : List Msg) : Prop where
  same : c.fillSlots = c.applySlots
  fills : c.messages c.fillSlots = expected
  applies : c.messages c.applySlots = expected
  once : c.fillSlots.Nodup

theorem slots_before {ops : List CacheOp} (h : (sinceClear ops).length < size) :
    let c := cacheRun size ops
    c.fillSlots = List.range (sinceClear ops).length ∧ c.applySlots = c.fillSlots ∧
      c.messages c.fillSlots = sinceClear ops := by
  intro c
  have hbounds := inBounds_cacheRun hsize ops
  have hpos : c.curCacheIdx = (sinceClear ops).length :=
    (pos_cacheRun hsize ops).trans (Nat.mod_eq_of_lt h)
  have hwindow := window_cacheRun hsize ops
  have hall : recent size (sinceClear ops) = sinceClear ops := by
    rw [recent, Nat.sub_eq_zero_of_le (by omega)]; rfl
  rw [hall] at hwindow
  have hslot : c.slot c.curCacheIdx = none := by
    have hhead := head?_window hbounds
    obtain ⟨k, hk⟩ : ∃ k, size - (sinceClear ops).length = k + 1 :=
      ⟨size - (sinceClear ops).length - 1, by omega⟩
    rw [hwindow, hk] at hhead
    exact (Option.some.inj hhead).symm
  have hlength : (c.cache.take c.curCacheIdx).length = ((sinceClear ops).map some).length := by
    have hle : c.curCacheIdx ≤ c.cache.length := Nat.le_of_lt hbounds
    rw [length_take_of_le hle, hpos, length_map]
  have htake : c.cache.take c.curCacheIdx = (sinceClear ops).map some :=
    (append_inj' hwindow hlength).2
  have hsome : ∀ i ∈ List.range c.curCacheIdx, (c.slot i).isSome := by
    intro i hi
    have hmem : c.slot i ∈ (sinceClear ops).map some := by
      rw [← htake, ← map_range_slot hbounds]; exact mem_map_of_mem hi
    obtain ⟨m, -, hm⟩ := List.mem_map.mp hmem
    rw [← hm]
    rfl
  have htakeWhile : c.fillSlots = List.range c.curCacheIdx := by
    rw [fillSlots_of_none hbounds hslot]; exact List.takeWhile_eq_self_iff.mpr hsome
  refine ⟨by rw [htakeWhile, hpos], ?_, ?_⟩
  · rw [htakeWhile]; exact List.takeWhile_eq_self_iff.mpr hsome
  · have hmessages : c.messages c.fillSlots =
        ((List.range c.curCacheIdx).map c.slot).filterMap id := by
      rw [htakeWhile, filterMap_map]; rfl
    rw [hmessages, map_range_slot hbounds, htake, filterMap_map]
    exact filterMap_some

theorem slots_after {ops : List CacheOp} (h : size ≤ (sinceClear ops).length) :
    let c := cacheRun size ops
    c.fillSlots = c.ring.indices ∧ c.messages c.fillSlots = recent size (sinceClear ops) := by
  intro c
  have hbounds := inBounds_cacheRun hsize ops
  have hwindow := window_cacheRun hsize ops
  rw [Nat.sub_eq_zero_of_le h, replicate_zero, nil_append] at hwindow
  have hsome : ∀ slot ∈ c.ring.window, slot.isSome := by
    intro slot hmem
    rw [hwindow] at hmem
    obtain ⟨m, -, hm⟩ := List.mem_map.mp hmem
    rw [← hm]
    rfl
  have hslot : (c.slot c.curCacheIdx).isNone = false := by
    have hhead := mem_of_mem_head? (head?_window hbounds)
    have hfull := hsome _ hhead
    cases hc : c.slot c.curCacheIdx with
    | none => rw [hc] at hfull; cases hfull
    | some m => rfl
  have hindices : c.fillSlots = c.ring.indices := by
    rw [fillSlots_of_some hbounds hslot]
    refine List.takeWhile_eq_self_iff.mpr fun i hi => ?_
    have hmem : c.slot i ∈ c.ring.window := by
      rw [← map_indices_slot hbounds]; exact mem_map_of_mem hi
    exact hsome _ hmem
  refine ⟨hindices, ?_⟩
  have hmessages : c.messages c.fillSlots = (c.ring.indices.map c.slot).filterMap id := by
    rw [hindices, filterMap_map]; rfl
  rw [hmessages, map_indices_slot hbounds, hwindow, filterMap_map]
  exact filterMap_some

end

/-- **The reader of `dqContext_fillGap` always comes to the last messages, and the two agree just
as long as the ring has not come round.** -/
theorem readers_iff (size : Nat) (hsize : 0 < size) (ops : List CacheOp) :
    let c := cacheRun size ops
    (c.fillSlots.Nodup ∧ c.messages c.fillSlots = recent size (sinceClear ops)) ∧
      (c.ReadersAgree (recent size (sinceClear ops)) ↔ (sinceClear ops).length < size) := by
  intro c
  by_cases h : (sinceClear ops).length < size
  · obtain ⟨hslots, hsame, hmessages⟩ := slots_before hsize h
    have hall : recent size (sinceClear ops) = sinceClear ops := by
      rw [recent, Nat.sub_eq_zero_of_le (by omega)]; rfl
    have hnodup : c.fillSlots.Nodup := hslots ▸ nodup_range
    rw [hall]
    exact ⟨⟨hnodup, hmessages⟩, iff_of_true
      ⟨hsame.symm, hmessages, by rw [hsame]; exact hmessages, hnodup⟩ h⟩
  obtain ⟨hslots, hmessages⟩ := slots_after hsize (Nat.not_lt.mp h)
  have hnodup : c.fillSlots.Nodup := hslots ▸ c.ring.nodup_indices
  refine ⟨⟨hnodup, hmessages⟩, iff_of_false (fun hagree => ?_) h⟩
  -- the second reader comes to less slots than there are
  have hbounds := inBounds_cacheRun hsize ops
  have hlength : c.ring.indices.length = c.applySlots.length :=
    congrArg List.length (hslots.symm.trans hagree.same)
  have hle : c.applySlots.length ≤ c.curCacheIdx := by
    refine Nat.le_trans (takeWhile_sublist _).length_le ?_
    rw [length_range]
  have hindices : c.ring.indices.length = c.cache.length := by
    rw [← length_map c.slot, map_indices_slot hbounds, Lib.Ring.length_window]; rfl
  have hpos : c.curCacheIdx < c.cache.length := hbounds
  omega

/-- Two updates in a ring of three. -/
theorem readers_two_updates :
    (cacheRun 3 [.cacheMsg (Strategy.updateOf .update 5 1),
      .cacheMsg (Strategy.updateOf .update 6 1)]).ReadersAgree
        [Strategy.updateOf .update 5 1, Strategy.updateOf .update 6 1] :=
  (readers_iff 3 (by decide) [.cacheMsg (Strategy.updateOf .update 5 1),
    .cacheMsg (Strategy.updateOf .update 6 1)]).2.mpr (by decide)

/-- With one message in a ring of one, the second reader comes to none. -/
theorem not_readers : ¬ ∀ (size : Nat) (ops : List CacheOp), 0 < size →
    (cacheRun size ops).ReadersAgree (recent size (sinceClear ops)) := by
  intro hall
  exact absurd (hall 1 [.cacheMsg (Strategy.updateOf .update 5 1)] (by decide)).same (by decide)

end Context

end Dq

end Mama

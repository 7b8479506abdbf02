import OpenMama.Mama.DqStates
import OpenMama.Mama.ListenerMsgCallback

/-!
# The updates around the initial image

Updates that arrive before the initial image go to the ring of the context
(`RingHolds`).  Those newer than the image come from there afterwards: all at once
under `onInitial` (`applyLoop_spec`), and under `onGap` when the next update shows a
gap (`fillLoop_spec`).  `Subscription.kept_iff` says when the client gets the image
and each newer update in order: a ring that is exactly full has its index back at
slot zero, so nothing of it is applied, and under `onGap` the newer updates stay in
the ring until another arrives.
-/

namespace Mama

open List

namespace Dq

/-! ## Numbers -/

/-- The numbers of the messages follow `k` one by one, none of them zero. -/
def Follows : UInt32 → List Msg → Prop
  | _, [] => True
  | k, m :: ms => m.seqNum = k + 1 ∧ m.seqNum ≠ 0 ∧ Follows m.seqNum ms

/-- The last number of messages that follow `k`. -/
def lastOf (k : UInt32) (ms : List Msg) : UInt32 := (ms.getLast?.map Msg.seqNum).getD k

theorem lastOf_cons (k : UInt32) (m : Msg) (ms : List Msg) :
    lastOf k (m :: ms) = lastOf m.seqNum ms := by
  unfold lastOf
  cases h : ms.getLast? with
  | none => rw [getLast?_eq_none_iff.mp h]; rfl
  | some l => rw [getLast?_cons, h]; rfl

variable {k : UInt32} {ms old : List Msg} {c : Context} {size : Nat} {as bs : List Act}
variable {ns : List Msg}

theorem follows_append : Follows k (ms ++ ns) ↔ Follows k ms ∧ Follows (lastOf k ms) ns := by
  induction ms generalizing k with
  | nil => exact (and_iff_right trivial).symm
  | cons m ms ih =>
    rw [lastOf_cons]
    show (_ ∧ _ ∧ Follows m.seqNum (ms ++ ns)) ↔ (_ ∧ _ ∧ Follows m.seqNum ms) ∧ _
    rw [ih, and_assoc, and_assoc]

theorem lt_of_succ_ne_zero {s : UInt32} (h : s = k + 1) (h0 : s ≠ 0) : k < s := by
  have hne : s.toNat ≠ 0 := fun h => h0 (UInt32.toNat_inj.mp h)
  have hk := k.toNat_lt
  rw [h, UInt32.toNat_add] at hne
  rw [UInt32.lt_iff_toNat_lt, h, UInt32.toNat_add]
  simp only [UInt32.reduceToNat] at hne ⊢
  omega

theorem Follows.lt (h : Follows k ms) : ∀ m ∈ ms, k < m.seqNum := by
  induction ms generalizing k with
  | nil => exact fun _ hm => by cases hm
  | cons m ms ih =>
    have hlt := lt_of_succ_ne_zero h.1 h.2.1
    intro n hn
    rcases mem_cons.mp hn with rfl | hn
    · exact hlt
    · exact UInt32.lt_trans hlt (ih h.2.2 n hn)

theorem Follows.lt_lastOf (h : Follows k ms) (hne : ms ≠ []) : k < lastOf k ms := by
  rw [lastOf, getLast?_eq_some_getLast hne]
  exact h.lt _ (getLast_mem hne)

/-! ## The ring before the image -/

/-- The ring holds the messages, the oldest first, and has not come round yet. -/
structure RingHolds (c : Context) (size : Nat) (ms : List Msg) : Prop where
  fits : ms.length ≤ size
  cache : c.cache = ms.map some ++ List.replicate (size - ms.length) none
  curCacheIdx : c.curCacheIdx = if ms.length = size then 0 else ms.length

theorem ringHolds_initializeContext (size : Nat) : RingHolds (.initializeContext size) size [] :=
  ⟨Nat.zero_le _, rfl, (ite_self 0).symm⟩

theorem RingHolds.cacheMsg (h : RingHolds c size ms) {m : Msg} (hfits : ms.length < size) :
    RingHolds (c.cacheMsg m) size (ms ++ [m]) := by
  have hlength : c.cache.length = size := by
    rw [h.cache, length_append, length_map, length_replicate]; omega
  have hne : c.cache ≠ [] := by
    intro hnil
    rw [hnil] at hlength
    simp at hlength
    omega
  have hidx : c.curCacheIdx = ms.length := by rw [h.curCacheIdx, if_neg (by omega)]
  have hrest : List.replicate (size - ms.length) (none : Option Msg) =
      none :: List.replicate (size - (ms.length + 1)) none := by
    rw [← replicate_succ]
    congr 1
    omega
  rw [Context.cacheMsg, if_neg hne]
  refine ⟨by rw [length_append]; exact hfits, ?_, ?_⟩
  · show c.cache.set c.curCacheIdx (some m) = _
    rw [h.cache, hidx, hrest]
    simp
  · show (if c.curCacheIdx + 1 = c.cache.length then 0 else c.curCacheIdx + 1) = _
    rw [hidx, hlength, length_append]
    rfl

/-! ## The ring after the image -/

theorem applyLoop_spec {new : List Msg} (hold : ∀ m ∈ old, m.seqNum ≠ 0 ∧ m.seqNum ≤ k)
    (hnew : Follows k new) :
    Context.applyLoop k ((old ++ new).map some) = (lastOf k new, new.map .forward) := by
  induction old with
  | nil =>
    clear hold
    rw [nil_append]
    induction new generalizing k with
    | nil => rfl
    | cons m new ih =>
      rw [map_cons, Context.applyLoop, if_pos hnew.1, ih hnew.2.2, lastOf_cons]; rfl
  | cons m old ih =>
    obtain ⟨h0, hle⟩ := hold m mem_cons_self
    have hne : m.seqNum ≠ k + 1 := fun h =>
      absurd hle (UInt32.not_le.mpr (lt_of_succ_ne_zero h h0))
    rw [cons_append, map_cons, Context.applyLoop, if_neg hne]
    split
    · next hgt =>
      -- the number after `k` is zero, so nothing is newer than `k`
      cases new with
      | nil => rfl
      | cons n new =>
        have hlt := lt_of_succ_ne_zero hnew.1 hnew.2.1
        rw [← hnew.1] at hgt
        exact absurd hle (UInt32.not_le.mpr (UInt32.lt_trans hlt hgt))
    · exact ih fun n hn => hold n (mem_cons_of_mem m hn)

/-- Filling the gap under `onGap`, from slot `i` on: old messages are passed over, new ones
forwarded, and the last of them fills the gap. -/
theorem fillLoop_spec (hring : RingHolds c size ms) (hstale : c.setCacheMsgStale = false)
    {last : UInt32} (turns : Nat) : ∀ (old new : List Msg) (k : UInt32) (i : Nat),
    ms.drop i = old ++ new → new ≠ [] → (∀ m ∈ old, m.seqNum ≠ 0 ∧ m.seqNum ≤ k) → Follows k new →
    last = lastOf k new + 1 → ms.length ≤ i + turns →
    c.fillLoop last turns (k + 1) i = (true, new.map .forward) := by
  have hlength : c.cache.length = size := by
    have hfits := hring.fits
    rw [hring.cache, length_append, length_map, length_replicate]
    omega
  induction turns with
  | zero =>
    intro old new k i hdrop hne _ _ _ hturns
    have hnil : ms.drop i = [] := drop_eq_nil_iff.mpr hturns
    rw [hnil] at hdrop
    exact (hne (append_eq_nil_iff.mp hdrop.symm).2).elim
  | succ turns ih =>
    intro old new k i hdrop hne hold hnew hlast hturns
    obtain ⟨m, rest, hrest⟩ : ∃ m rest, ms.drop i = m :: rest := by
      cases h : ms.drop i with
      | nil => rw [h] at hdrop; exact (hne (append_eq_nil_iff.mp hdrop.symm).2).elim
      | cons m rest => exact ⟨m, rest, rfl⟩
    have hi : i < ms.length := by
      by_contra h
      rw [drop_eq_nil_iff.mpr (by omega)] at hrest
      cases hrest
    have hslot : c.slot i = some m := by
      have hget : ms[i]? = some m := by
        rw [← head?_drop, hrest]; rfl
      unfold Context.slot
      rw [hring.cache, getD_eq_getElem?_getD, getElem?_append_left (by simpa using hi),
        getElem?_map, hget]
      rfl
    have hdrop' : ms.drop (i + 1) = rest := by
      rw [← drop_drop, hrest]; rfl
    -- where more messages follow, the next slot is not where the loop began
    have hnext : rest ≠ [] → (if i + 1 = c.cache.length then 0 else i + 1) = i + 1 ∧
        i + 1 ≠ c.curCacheIdx := by
      intro hmore
      have hlt : i + 1 < ms.length := by
        by_contra h
        rw [drop_eq_nil_iff.mpr (by omega)] at hdrop'
        exact hmore hdrop'.symm
      have hfits := hring.fits
      refine ⟨if_neg (by omega), ?_⟩
      rw [hring.curCacheIdx]
      split <;> omega
    rw [Context.fillLoop, hslot]
    dsimp only
    rw [hstale]
    rw [hrest] at hdrop
    cases old with
    | nil =>
      obtain rfl : m :: rest = new := hdrop
      rw [if_pos hnew.1]
      cases rest with
      | nil =>
        have hend : k + 1 + 1 = last := by
          rw [hlast, ← hnew.1]; rfl
        rw [if_pos hend]
        rfl
      | cons n rest =>
        have hend : k + 1 + 1 ≠ last := by
          intro hend
          rw [hlast, lastOf_cons, ← hnew.1] at hend
          have hsame := (UInt32.add_left_inj 1).mp hend
          have hlt := hnew.2.2.lt_lastOf (cons_ne_nil n rest)
          rw [← hsame] at hlt
          exact absurd hlt (UInt32.lt_irrefl _)
        rw [if_neg hend, (hnext (by simp)).1, if_neg (hnext (by simp)).2, ← hnew.1,
          ih [] (n :: rest) m.seqNum (i + 1) hdrop' (by simp) (fun _ h => by cases h) hnew.2.2
            (by rw [hlast, lastOf_cons]) (by omega)]
        rfl
    | cons o old =>
      obtain ⟨rfl, htail⟩ := List.cons.inj hdrop
      obtain ⟨h0, hle⟩ := hold m mem_cons_self
      have hne' : m.seqNum ≠ k + 1 := fun h =>
        absurd hle (UInt32.not_le.mpr (lt_of_succ_ne_zero h h0))
      have hmore : rest ≠ [] := by
        rw [htail]; exact fun h => hne (append_eq_nil_iff.mp h).2
      rw [if_neg hne', (hnext hmore).1, if_neg (hnext hmore).2]
      exact ih old new k (i + 1) (hdrop'.trans htail) hne
        (fun n hn => hold n (mem_cons_of_mem m hn)) hnew hlast (by omega)

theorem fillGap_ring {new : List Msg} (hring : RingHolds c size (old ++ new))
    (hstale : c.setCacheMsgStale = false) (hne : new ≠ [])
    (hold : ∀ m ∈ old, m.seqNum ≠ 0 ∧ m.seqNum ≤ c.seqNum) (hnew : Follows c.seqNum new) :
    c.fillGap (lastOf c.seqNum new + 1) = (true, c, new.map .forward) := by
  have hfits := hring.fits
  have hlength : c.cache.length = size := by
    rw [hring.cache, length_append, length_map, length_replicate]; omega
  have hpos : 0 < (old ++ new).length := by
    rw [length_append]
    have := length_pos_iff.mpr hne
    omega
  have hcache : c.cache ≠ [] := by
    intro h
    rw [h] at hlength
    simp at hlength
    omega
  -- either the ring is full and its index is back at zero, or the slot at the index is free
  have hcur : (if (c.slot c.curCacheIdx).isNone then 0 else c.curCacheIdx) = 0 := by
    by_cases hfull : (old ++ new).length = size
    · rw [hring.curCacheIdx, if_pos hfull]; exact ite_self 0
    · have hfree : c.slot c.curCacheIdx = none := by
        rw [Context.slot, hring.curCacheIdx, if_neg hfull, hring.cache, getD_eq_getElem?_getD,
          getElem?_append_right (by simp), getElem?_replicate]
        split <;> rfl
      rw [hfree]
      rfl
  have hloop : c.fillLoop (lastOf c.seqNum new + 1) c.cache.length (c.seqNum + 1) 0 =
      (true, new.map .forward) :=
    fillLoop_spec hring hstale c.cache.length old new c.seqNum 0 rfl hne hold hnew rfl (by omega)
  rw [Context.fillGap, if_neg hcache, hcur]
  dsimp only
  rw [hloop, hstale]
  rw [Bool.false_and, ← hstale]

/-! ## A subscription and its messages -/

def MsgType.isUpdate : MsgType → Bool
  | .update | .bookUpdate | .quote | .trade | .secStatus => true
  | _ => false

/-- An update with status OK, for one number, of a sender. -/
structure Msg.IsLive (m : Msg) (sender : UInt64) : Prop where
  type : m.msgType.isUpdate
  conflateCnt : m.conflateCnt = 1
  statusOk : m.status = .ok
  senderId : m.senderId = sender

structure Msg.IsInitial (m : Msg) : Prop where
  type : m.msgType = .initial ∨ m.msgType = .bookInitial
  complete : m.msgTotal = 0 ∨ m.msgNum = m.msgTotal
  statusOk : m.status = .ok

def forwarded (acts : List Act) : List Msg :=
  acts.filterMap fun
    | .forward m => some m
    | _ => none

theorem forwarded_append (as bs : List Act) :
    forwarded (as ++ bs) = forwarded as ++ forwarded bs := filterMap_append

theorem forwarded_map (ms : List Msg) : forwarded (ms.map .forward) = ms := by
  rw [forwarded, filterMap_map]
  exact filterMap_some

/-- The client is told of no gap, and the publisher is asked for no recap. -/
def Quiet (acts : List Act) : Prop := .onGap ∉ acts ∧ .recapRequest ∉ acts

theorem quiet_append : Quiet (as ++ bs) ↔ Quiet as ∧ Quiet bs := by
  rw [Quiet, mem_append, mem_append, not_or, not_or]
  exact and_and_and_comm

theorem quiet_map (ms : List Msg) : Quiet (ms.map .forward) := by constructor <;> simp

namespace Subscription

variable {x : Subscription} {m : Msg} {s : UInt64}

theorem isUpdate_types {m : Msg} (h : m.msgType.isUpdate) :
    isInitialMessageOrRecap m.msgType = false ∧ m.msgType.isImage = false ∧
      m.msgType ≠ .ddictSnapshot ∧ (∀ x : Subscription, x.dispatch m = x.checkAndForward m) ∧
      ¬ (m.msgType = .delete ∨ m.msgType = .expire ∨ m.msgType = .unknown) := by
  cases hm : m.msgType <;> rw [hm] at h <;>
    first
    | exact (Bool.false_ne_true h).elim
    | refine ⟨rfl, rfl, nofun, fun x => ?_, by simp⟩
      rw [dispatch, hm]

theorem processMsg_live (x : Subscription) (hm : m.IsLive s) :
    x.processMsg m = if x.caches m then (x.cacheMsg m, []) else x.checkAndForward m := by
  obtain ⟨htype, -, -, hdispatch, -⟩ := isUpdate_types hm.type
  rw [processMsg, hm.statusOk]
  rw [processType, htype, hdispatch, if_neg Bool.false_ne_true]

theorem process_cached {held : List Msg} (hexpecting : x.expectingInitial)
    (harrived : x.initialArrived = false) (hstate : x.dq.ctx.dqState = .notEstablished)
    (hring : RingHolds x.dq.ctx size held) (ms : List Msg) (hms : ∀ m ∈ ms, m.IsLive s)
    (hfits : held.length + ms.length ≤ size) :
    ∃ cache idx, x.process ms = ({ x with dq := { x.dq with ctx := { x.dq.ctx with
        cache := cache, curCacheIdx := idx } } }, []) ∧
      RingHolds { x.dq.ctx with cache := cache, curCacheIdx := idx } size (held ++ ms) := by
  induction ms generalizing x held with
  | nil => exact ⟨x.dq.ctx.cache, x.dq.ctx.curCacheIdx, rfl, by rw [append_nil]; exact hring⟩
  | cons m ms ih =>
    have hcaches : x.caches m := by
      rw [caches, hexpecting, harrived]; rfl
    have hkept : (x.cacheMsg m).dq.ctx = x.dq.ctx.cacheMsg m := by
      rw [Subscription.cacheMsg, hstate]; simp
    obtain ⟨cache₁, idx₁, hcache₁⟩ : ∃ cache idx, x.dq.ctx.cacheMsg m =
        { x.dq.ctx with cache := cache, curCacheIdx := idx } := by
      unfold Context.cacheMsg
      split
      · exact ⟨_, _, rfl⟩
      · exact ⟨_, _, rfl⟩
    have hone : x.cacheMsg m = { x with dq := { x.dq with ctx := { x.dq.ctx with
        cache := cache₁, curCacheIdx := idx₁ } } } := by
      rw [← hcache₁, ← hkept]
      rfl
    have hlength : (m :: ms).length = ms.length + 1 := rfl
    have hring₁ := hring.cacheMsg (m := m) (by omega)
    rw [← hkept] at hring₁
    obtain ⟨cache, idx, hrest, hring'⟩ := ih (x := x.cacheMsg m)
      (by rw [hone]; exact hexpecting) (by rw [hone]; exact harrived) (by rw [hone]; exact hstate)
      hring₁ (fun n hn => hms n (mem_cons_of_mem m hn))
      (by rw [length_append]; simp only [length_singleton]; omega)
    rw [hone] at hrest hring'
    refine ⟨cache, idx, ?_, ?_⟩
    · rw [process, processMsg_live x (hms m mem_cons_self), if_pos hcaches, hone]
      dsimp only
      rw [hrest]
      rfl
    · rw [append_assoc] at hring'; exact hring'

/-- The subscription after the image: nothing waits, the latest number is `q`. -/
structure LiveAt (x : Subscription) (q : UInt32) (s : UInt64) : Prop where
  recoverGaps : x.recoverGaps
  arrived : x.initialArrived
  state : x.dq.ctx.dqState = .ok
  seqNum : x.dq.ctx.seqNum = q
  senderId : x.dq.ctx.senderId = s

variable {q : UInt32}

theorem processMsg_checked (hx : LiveAt x q s) (hm : m.IsLive s) :
    let y := (x.dq.enter m).checkUpdate x.transport x.dq.ctx
    x.processMsg m = ({ x with dq := ⟨y.ctx, y.tryToFillGap⟩ },
      if y.ctx.doNotForward then y.acts else y.acts ++ [.forward y.msg]) := by
  obtain ⟨-, himage, hddict, -, -⟩ := isUpdate_types hm.type
  have hcaches : x.caches m = false := by
    rw [caches, hx.arrived, hx.state]; simp
  have htook : x.dq.ctx.takenOver m = false := by simp [Context.takenOver, hx.senderId, hm.senderId]
  have hcheck : x.dq.check x.transport m =
      (x.dq.enter m).checkUpdate x.transport x.dq.ctx := by
    rw [Strategy.check_eq, if_neg fun h => Bool.noConfusion (htook.symm.trans h.1),
      Strategy.checkType_update (x := x.dq.enter m) himage hddict]
  rw [processMsg_live x hm, hcaches, if_neg Bool.false_ne_true]
  rw [checkAndForward, checkSeqNum, if_pos hx.recoverGaps, hcheck]

theorem forwarded_eq_nil {acts : List Act} (h : ∀ m, .forward m ∉ acts) : forwarded acts = [] := by
  rw [forwarded, filterMap_eq_nil_iff]
  intro a ha
  cases a with
  | forward m => exact (h m ha).elim
  | _ => rfl

/-- **The next update of a live subscription** is forwarded. -/
theorem processMsg_next (hx : LiveAt x q s) (hm : m.IsLive s) (hseq : m.seqNum = q + 1) :
    LiveAt (x.processMsg m).1 m.seqNum s ∧ forwarded (x.processMsg m).2 = [m] ∧
      Quiet (x.processMsg m).2 := by
  have htook : x.dq.ctx.takenOver m = false := by simp [Context.takenOver, hx.senderId, hm.senderId]
  have hforward : (x.dq.enter m).ctx.doNotForward = false := by
    rw [Strategy.enter_doNotForward, htook]
  have hsender : (x.dq.enter m).ctx.senderId = s := by
    rw [Strategy.enter, Context.entered, htook]; exact hx.senderId
  have hnext : IsNext x.dq.ctx m := by
    refine .inr (.inr ?_)
    rw [hseq, hx.seqNum, hm.conflateCnt]
  rw [processMsg_checked hx hm]
  obtain ⟨hverdict, hkept, -⟩ := Step.checkUpdate_verdict x.transport x.dq.ctx (x.dq.enter m)
  generalize Step.checkUpdate x.transport x.dq.ctx (x.dq.enter m) = y at hverdict hkept ⊢
  cases hverdict with
  | accepted _ _ state seqNum doNotForward msg acts =>
    have hmsg : y.msg = m := msg
    have hnone : ∀ n, .forward n ∉ y.acts := by
      intro n h; simpa [Strategy.enter] using (acts _).mp h
    have hquiet : Quiet y.acts := by
      constructor <;> intro h <;> simpa [Strategy.enter] using (acts _).mp h
    rw [doNotForward, hforward, if_neg Bool.false_ne_true, hmsg]
    refine ⟨⟨hx.recoverGaps, hx.arrived, state, seqNum, hkept.trans hsender⟩, ?_, ?_⟩
    · rw [forwarded_append, forwarded_eq_nil hnone]; rfl
    · exact quiet_append.mpr ⟨hquiet, quiet_map [m]⟩
  | ignored late => exact (late ⟨hnext, hm.statusOk⟩).elim
  | duplicate late => exact (late ⟨hnext, hm.statusOk⟩).elim
  | held late => exact (late ⟨hnext, hm.statusOk⟩).elim
  | filled late => exact (late hnext).elim
  | gap late => exact (late ⟨hnext, hm.statusOk⟩).elim

/-- **The updates of a live subscription**, one after the other. -/
theorem process_live (hx : LiveAt x q s) (hms : ∀ m ∈ ms, m.IsLive s) (hfollows : Follows q ms) :
    forwarded (x.process ms).2 = ms ∧ Quiet (x.process ms).2 := by
  induction ms generalizing x q with
  | nil => exact ⟨rfl, by constructor <;> simp [process]⟩
  | cons m ms ih =>
    obtain ⟨hlive, hfirst, hquiet⟩ := processMsg_next hx (hms m mem_cons_self) hfollows.1
    obtain ⟨hrest, hquiet'⟩ :=
      ih hlive (fun n hn => hms n (mem_cons_of_mem m hn)) hfollows.2.2
    rw [process, forwarded_append, hfirst, hrest]
    exact ⟨rfl, quiet_append.mpr ⟨hquiet, hquiet'⟩⟩

/-- **The update that shows the gap**, where the ring fills it. -/
theorem processMsg_filled {new : List Msg} (hx : LiveAt x k s)
    (hscheme : x.transport.preInitialScheme = .onGap) (htry : x.dq.tryToFillGap)
    (hstale : x.dq.ctx.setCacheMsgStale = false) (hring : RingHolds x.dq.ctx size (old ++ new))
    (hold : ∀ m ∈ old, m.seqNum ≠ 0 ∧ m.seqNum ≤ k) (hnew : Follows k new) (hne : new ≠ [])
    (hm : m.IsLive s) (hseq : m.seqNum = lastOf k new + 1) (h0 : m.seqNum ≠ 0) :
    LiveAt (x.processMsg m).1 m.seqNum s ∧ forwarded (x.processMsg m).2 = new ++ [m] ∧
      Quiet (x.processMsg m).2 := by
  have htook : x.dq.ctx.takenOver m = false := by simp [Context.takenOver, hx.senderId, hm.senderId]
  have henter : x.dq.enter m = ⟨{ x.dq.ctx with doNotForward := false }, true, m, []⟩ := by
    rw [Strategy.enter, Context.entered, htook, htry]; rfl
  have hnewest : k < lastOf k new := hnew.lt_lastOf hne
  have hlater : lastOf k new < m.seqNum := lt_of_succ_ne_zero hseq h0
  have hpast : k < m.seqNum := UInt32.lt_trans hnewest hlater
  have hlate : ¬ (x.dq.ctx.dqState = .notEstablished ∨ m.seqNum = 0 ∨
      m.seqNum = x.dq.ctx.seqNum + m.conflateCnt) := by
    rw [hx.state, hx.seqNum, hm.conflateCnt, hseq]
    rintro (h | h | h)
    · cases h
    · exact h0 (hseq.trans h)
    · rw [(UInt32.add_left_inj 1).mp h] at hnewest; exact UInt32.lt_irrefl _ hnewest
  have hcounted : ¬ m.seqNum ≤ x.dq.ctx.seqNum := by
    rw [hx.seqNum]; exact UInt32.not_le.mpr hpast
  have hother : m.seqNum ≠ x.dq.ctx.seqNum := fun h => hcounted (h ▸ UInt32.le_refl _)
  have hfill : ({ x.dq.ctx with doNotForward := false } : Context).fillGap m.seqNum =
      (true, { x.dq.ctx with doNotForward := false }, new.map .forward) := by
    have hk := hx.seqNum
    rw [hseq, ← hk]
    rw [← hk] at hold hnew
    exact fillGap_ring ⟨hring.fits, hring.cache, hring.curCacheIdx⟩ hstale hne hold hnew
  have hcheck : (x.dq.enter m).checkUpdate x.transport x.dq.ctx =
      ⟨{ ({ x.dq.ctx with doNotForward := false } : Context).clearCache with seqNum := m.seqNum },
        false, m, new.map .forward⟩ := by
    rw [henter]
    rw [Step.checkUpdate, if_neg fun h => hlate h.1]
    rw [Step.checkDuplicate, if_neg fun h => hcounted h.2.1, if_neg fun h => hother h.1,
      if_neg (by rw [hx.state]; decide)]
    rw [Step.missedSeqNum, if_pos ⟨hscheme, rfl⟩]
    rw [hfill]
    rfl
  obtain ⟨hstate', -, hforward', hsender'⟩ :=
    clearCache_spec { x.dq.ctx with doNotForward := false }
  rw [processMsg_checked hx hm, hcheck]
  rw [hforward', if_neg Bool.false_ne_true]
  refine ⟨⟨hx.recoverGaps, hx.arrived, hstate'.trans hx.state, rfl, hsender'.trans hx.senderId⟩,
    ?_, ?_⟩
  · rw [forwarded_append, forwarded_map]; rfl
  · exact quiet_append.mpr ⟨quiet_map new, quiet_map [m]⟩

theorem processMsg_gap (hx : LiveAt x k s) (hscheme : x.transport.preInitialScheme = .onInitial)
    (hm : m.IsLive s) (hnext : m.seqNum ≠ k + 1) (hlater : k < m.seqNum) :
    .onGap ∈ (x.processMsg m).2 := by
  have h0 : m.seqNum ≠ 0 := by
    intro h
    rw [h] at hlater
    exact UInt32.not_lt_zero hlater
  have hlate : ¬ IsNext x.dq.ctx m := by
    rw [IsNext, hx.state, hx.seqNum, hm.conflateCnt]
    rintro (h | h | h)
    · cases h
    · exact h0 h
    · exact hnext h
  rw [processMsg_checked hx hm]
  obtain ⟨hverdict, -, -⟩ := Step.checkUpdate_verdict x.transport x.dq.ctx (x.dq.enter m)
  have hbehind : ¬ m.seqNum ≤ x.dq.ctx.seqNum := by
    rw [hx.seqNum]; exact UInt32.not_le.mpr hlater
  have hstate : x.dq.ctx.dqState ≠ .waitingForRecapAfterFt := by
    rw [hx.state]; decide
  cases hverdict with
  | accepted next => exact (hlate next).elim
  | ignored _ ignored => exact (hbehind ignored.2).elim
  | duplicate _ _ same => exact (hbehind (same ▸ UInt32.le_refl _)).elim
  | held _ _ before => exact (hstate before).elim
  | filled _ _ _ _ filled => rw [filled.1] at hscheme; cases hscheme
  | gap _ _ _ _ _ _ _ _ _ onGap =>
    split
    · exact onGap
    · exact mem_append_left _ onGap

def imaged (c : Context) (m : Msg) : Context :=
  { c with seqNum := m.seqNum, senderId := m.senderId, dqState := .ok, doNotForward := false }

theorem check_initial (t : Transport) {d : Strategy} (hstate : d.ctx.dqState = .notEstablished)
    (hsender : d.ctx.senderId = 0) (hm : m.IsInitial) :
    d.check t m = ⟨imaged d.ctx m, true, m, [.unsetAllPossiblyStale]⟩ := by
  have htook : d.ctx.takenOver m = false := by simp [Context.takenOver, hsender]
  have henter : d.enter m = ⟨{ d.ctx with doNotForward := false }, d.tryToFillGap, m, []⟩ := by
    rw [Strategy.enter, Context.entered, htook]; rfl
  have hfine : ¬ (m.status = .possiblyStale ∨ m.status = .stale) := by
    rw [hm.statusOk]
    rintro (h | h) <;> cases h
  have hinitial : (d.enter m).checkType t d.ctx = (d.enter m).checkInitial t := by
    rw [Step.checkType, show (d.enter m).msg.msgType = m.msgType from rfl]
    rcases hm.type with h | h <;> rw [h]
  rw [Strategy.check_eq, if_neg fun h => Bool.noConfusion (htook.symm.trans h.1), hinitial, henter]
  rw [Step.checkInitial, if_neg hfine]
  have hreset : ∀ z : Step, z.ctx.dqState = .notEstablished → z.resetDqState = z.setState .ok := by
    intro z hz
    rw [Step.resetDqState, if_neg fun h => h.2 hz]
  unfold Step.checkRecap
  dsimp only
  have htry : (if t.preRecapCacheEnabled then
      (⟨{ d.ctx with doNotForward := false }, true, m, []⟩ : Step)
      else ⟨{ d.ctx with doNotForward := false }, true, m, []⟩) =
      ⟨{ d.ctx with doNotForward := false }, true, m, []⟩ := ite_self _
  rw [htry, hreset _ hstate]
  rfl

theorem processMsg_initial (hrecover : x.recoverGaps) (hexpects : x.expectsUpdates)
    (hstate : x.dq.ctx.dqState = .notEstablished) (hsender : x.dq.ctx.senderId = 0)
    (hm : m.IsInitial) :
    ∃ y : Subscription, y.recoverGaps ∧ y.initialArrived ∧
      y.transport = x.transport ∧ y.dq = ⟨imaged x.dq.ctx m, true⟩ ∧
      x.processMsg m = if x.transport.preInitialScheme = .onInitial then
          let applied := (imaged x.dq.ctx m).applyPreInitialCache
          ({ y with dq := ⟨applied.1.clearCache, true⟩ },
            [.unsetAllPossiblyStale, .forward m] ++ applied.2)
        else (y, [.unsetAllPossiblyStale, .forward m]) := by
  have hpoint : x.processMsg m = x.processPointToPointMessage m := by
    rw [processMsg, hm.statusOk]
    unfold processType isInitialMessageOrRecap
    rcases hm.type with h | h <;> rw [h] <;> rfl
  have happlies : appliesCache x.transport m.msgType =
      decide (x.transport.preInitialScheme = .onInitial) := by
    rcases hm.type with h | h <;> rw [h] <;> exact Bool.and_true _
  rw [hpoint]
  rw [processPointToPointMessage, if_pos hm.complete]
  dsimp only
  have hkeep : ∀ z : Subscription, z = (if x.acceptMultipleInitials then
        { x with imageCount := x.imageCount + 1, initialArrived := true }
        else ({ x with imageCount := x.imageCount + 1, initialArrived := true } :
          Subscription).stopWaitForResponse) →
      z.recoverGaps ∧ z.initialArrived ∧ z.transport = x.transport ∧ z.dq = x.dq ∧
        z.expectsUpdates := by
    rintro z rfl
    split
    · exact ⟨hrecover, rfl, rfl, rfl, hexpects⟩
    · exact ⟨hrecover, rfl, rfl, rfl, hexpects⟩
  generalize (if x.acceptMultipleInitials then
      { x with imageCount := x.imageCount + 1, initialArrived := true }
      else ({ x with imageCount := x.imageCount + 1, initialArrived := true } :
        Subscription).stopWaitForResponse) = z at hkeep ⊢
  obtain ⟨hz₁, hz₂, hz₃, hz₄, hz₅⟩ := hkeep z rfl
  refine ⟨{ z with dq := ⟨imaged x.dq.ctx m, true⟩ }, hz₁, hz₂, hz₃, rfl, ?_⟩
  have hcheck : z.checkSeqNum m =
      ({ z with dq := ⟨imaged x.dq.ctx m, true⟩ }, m, [.unsetAllPossiblyStale]) := by
    rw [checkSeqNum, if_pos hz₁, hz₃, hz₄, check_initial x.transport hstate hsender hm]
  rw [hcheck]
  rw [hz₅, hz₃, happlies]
  by_cases hscheme : x.transport.preInitialScheme = .onInitial
  · rw [if_pos hscheme, decide_eq_true hscheme]; rfl
  · rw [if_neg hscheme, decide_eq_false hscheme]; rfl

theorem process_cons (x : Subscription) (m : Msg) (ms : List Msg) :
    x.process (m :: ms) =
      (((x.processMsg m).1.process ms).1,
        (x.processMsg m).2 ++ ((x.processMsg m).1.process ms).2) :=
  rfl

theorem process_append (x : Subscription) (ms ns : List Msg) :
    x.process (ms ++ ns) =
      (((x.process ms).1.process ns).1, (x.process ms).2 ++ ((x.process ms).1.process ns).2) := by
  induction ms generalizing x with
  | nil => rfl
  | cons m ms ih => rw [cons_append, process_cons, process_cons, ih, append_assoc]

/-! ## The image among the updates -/

/-- An initial image and the updates around it: before it come old ones and, as many as the ring
takes, new ones; the new ones go on after it without a break. -/
structure Arrivals (size : Nat) (m : Msg) (old new after : List Msg) : Prop where
  initial : m.IsInitial
  live : ∀ u ∈ old ++ new ++ after, u.IsLive m.senderId
  passed : ∀ u ∈ old, u.seqNum ≠ 0 ∧ u.seqNum ≤ m.seqNum
  follows : Follows m.seqNum (new ++ after)
  fits : (old ++ new).length ≤ size

/-- The client gets the image and then every newer update in order, and hears of no gap. -/
def Kept (acts : List Act) (m : Msg) (updates : List Msg) : Prop :=
  forwarded acts = m :: updates ∧ Quiet acts

theorem kept_cons {m : Msg} (has : Kept as m ms) (hbs : forwarded bs = ns ∧ Quiet bs) :
    Kept (as ++ bs) m (ms ++ ns) := by
  refine ⟨?_, quiet_append.mpr ⟨has.2, hbs.2⟩⟩
  rw [forwarded_append, has.1, hbs.1]
  rfl

theorem not_kept_of_onGap {m : Msg} (h : .onGap ∈ bs) :
    ¬ Kept (as ++ bs) m ms := fun hkept => hkept.2.1 (mem_append_right as h)

theorem kept_image (m : Msg) (ms : List Msg) :
    Kept ([.unsetAllPossiblyStale, .forward m] ++ ms.map .forward) m ms := by
  refine ⟨?_, quiet_append.mpr ⟨by constructor <;> simp, quiet_map ms⟩⟩
  rw [forwarded_append, forwarded_map]
  rfl

theorem applied_ring {new : List Msg} {m : Msg} (hring : RingHolds c size (old ++ new))
    (hold : ∀ u ∈ old, u.seqNum ≠ 0 ∧ u.seqNum ≤ m.seqNum) (hnew : Follows m.seqNum new) :
    (imaged c m).applyPreInitialCache = if (old ++ new).length < size then
        ({ imaged c m with seqNum := lastOf m.seqNum new }, new.map .forward)
      else (imaged c m, []) := by
  have hfits := hring.fits
  have hloop : Context.applyLoop m.seqNum (c.cache.take c.curCacheIdx) =
      if (old ++ new).length < size then (lastOf m.seqNum new, new.map .forward)
      else (m.seqNum, []) := by
    rw [hring.curCacheIdx]
    by_cases hfull : (old ++ new).length < size
    · rw [if_pos hfull, if_neg (by omega), hring.cache, take_append_of_le_length (by simp),
        take_of_length_le (by simp), applyLoop_spec hold hnew]
    · rw [if_neg hfull, if_pos (by omega)]; rfl
  have happly : (imaged c m).applyPreInitialCache =
      ({ imaged c m with
        seqNum := (Context.applyLoop m.seqNum (c.cache.take c.curCacheIdx)).1 },
        (Context.applyLoop m.seqNum (c.cache.take c.curCacheIdx)).2) := rfl
  rw [happly, hloop]
  split <;> rfl

/-- **No loss around the initial image**: under `onInitial` unless the ring is exactly full, and
under `onGap` as soon as another update comes. -/
theorem kept_iff (t : Transport) {size : Nat} (acceptMultipleInitials : Bool) {m : Msg}
    {old new after : List Msg} (h : Arrivals size m old new after) :
    Kept ((Subscription.new t size acceptMultipleInitials).process
        (old ++ new ++ m :: after)).2 m (new ++ after) ↔
      new = [] ∨ (t.preInitialScheme = .onInitial ∧ (old ++ new).length < size) ∨
        (t.preInitialScheme = .onGap ∧ after ≠ []) := by
  have hlive : ∀ u ∈ after, u.IsLive m.senderId :=
    fun u hu => h.live u (mem_append_right _ hu)
  obtain ⟨hnew, hafter⟩ := follows_append.mp h.follows
  obtain ⟨cache, idx, hcached, hring⟩ := process_cached (s := m.senderId)
    (x := Subscription.new t size acceptMultipleInitials) rfl rfl rfl
    (ringHolds_initializeContext size) (old ++ new)
    (fun u hu => h.live u (mem_append_left _ hu)) (by rw [length_nil]; have := h.fits; omega)
  rw [nil_append] at hring
  generalize hc : ({ (Subscription.new t size acceptMultipleInitials).dq.ctx with
    cache := cache, curCacheIdx := idx } : Context) = c at hring hcached
  have hcstate : c.dqState = .notEstablished := by rw [← hc]; rfl
  have hcsender : c.senderId = 0 := by rw [← hc]; rfl
  have hcstale : c.setCacheMsgStale = false := by rw [← hc]; rfl
  obtain ⟨x, htransport, hrecover, hexpects, hctx, hprocess⟩ : ∃ x : Subscription,
      x.transport = t ∧ x.recoverGaps ∧ x.expectsUpdates ∧ x.dq.ctx = c ∧
        (Subscription.new t size acceptMultipleInitials).process (old ++ new) = (x, []) :=
    ⟨_, rfl, rfl, rfl, rfl, hcached⟩
  rw [← hctx] at hring hcstate hcsender hcstale
  obtain ⟨y, hrecover', harrived, htransport', hdq, himage⟩ :=
    processMsg_initial hrecover hexpects hcstate hcsender h.initial
  rw [htransport] at htransport' himage
  have hliveAt : LiveAt y m.seqNum m.senderId := by
    refine ⟨hrecover', harrived, ?_, ?_, ?_⟩ <;> rw [hdq] <;> rfl
  rw [process_append, hprocess, nil_append, process_cons, himage]
  cases hscheme : t.preInitialScheme with
  | onInitial =>
    rw [applied_ring hring h.passed hnew]
    by_cases hfull : (old ++ new).length < size
    · -- all that is new comes from the ring, and the rest follows it
      rw [if_pos hfull]
      have hafterRing : LiveAt { y with dq :=
          ⟨Context.clearCache { imaged x.dq.ctx m with seqNum := lastOf m.seqNum new }, true⟩ }
          (lastOf m.seqNum new) m.senderId := by
        obtain ⟨hstate', hseq', -, hsender'⟩ :=
          clearCache_spec { imaged x.dq.ctx m with seqNum := lastOf m.seqNum new }
        exact ⟨hrecover', harrived, hstate', hseq', hsender'⟩
      exact iff_of_true (kept_cons (kept_image m new) (process_live hafterRing hlive hafter))
        (.inr (.inl ⟨rfl, hfull⟩))
    rw [if_neg hfull]
    have hafterRing : LiveAt { y with dq := ⟨(imaged x.dq.ctx m).clearCache, true⟩ }
        m.seqNum m.senderId := by
      obtain ⟨hstate', hseq', -, hsender'⟩ := clearCache_spec (imaged x.dq.ctx m)
      exact ⟨hrecover', harrived, hstate', hseq', hsender'⟩
    by_cases hnone : new = []
    · subst hnone
      exact iff_of_true (kept_cons (kept_image m []) (process_live hafterRing hlive hafter))
        (.inl rfl)
    refine iff_of_false ?_ ?_
    · cases after with
      | nil =>
        rintro ⟨hforwarded, -⟩; exact hnone (by simpa [process, forwarded] using hforwarded)
      | cons u after =>
        have hnewest := hnew.lt_lastOf hnone
        have hlater := lt_of_succ_ne_zero hafter.1 hafter.2.1
        refine not_kept_of_onGap (mem_append_left _ (processMsg_gap hafterRing
          (htransport' ▸ hscheme) (hlive u mem_cons_self) ?_
          (UInt32.lt_trans hnewest hlater)))
        intro hseq
        have hsame := (UInt32.add_left_inj 1).mp (hafter.1.symm.trans hseq)
        rw [hsame] at hnewest
        exact UInt32.lt_irrefl _ hnewest
    · rintro (h | h | h)
      · exact hnone h
      · exact hfull h.2
      · cases h.1
  | onGap =>
    by_cases hnone : new = []
    · subst hnone
      exact iff_of_true (kept_cons (kept_image m []) (process_live hliveAt hlive hafter)) (.inl rfl)
    cases after with
    | nil =>
      refine iff_of_false ?_ ?_
      · rintro ⟨hforwarded, -⟩; exact hnone (by simpa [process, forwarded] using hforwarded)
      · rintro (h | h | h)
        · exact hnone h
        · cases h.1
        · exact h.2 rfl
    | cons u after =>
      -- the first update shows a gap, which the ring fills
      refine iff_of_true ?_ (.inr (.inr ⟨rfl, by simp⟩))
      have hring' : RingHolds y.dq.ctx size (old ++ new) := by
        rw [hdq]; exact ⟨hring.fits, hring.cache, hring.curCacheIdx⟩
      obtain ⟨hlive', hforwarded, hquiet⟩ := processMsg_filled hliveAt (htransport' ▸ hscheme)
        (by rw [hdq]) (by rw [hdq]; exact hcstale) hring' h.passed hnew hnone
        (hlive u mem_cons_self) hafter.1 hafter.2.1
      obtain ⟨hrest, hquiet'⟩ := process_live hlive'
        (fun v hv => hlive v (mem_cons_of_mem u hv)) hafter.2.2
      have hlater : forwarded ((y.processMsg u).2 ++ ((y.processMsg u).1.process after).2) =
          new ++ u :: after := by
        rw [forwarded_append, hforwarded, hrest, append_assoc]
        rfl
      have hkept := kept_cons (kept_image m [])
        ⟨hlater, quiet_append.mpr ⟨hquiet, hquiet'⟩⟩
      exact hkept

/-! ### A full ring -/

def image : Msg := Strategy.updateOf .initial 5 1

/-- An update with number `k`. -/
def update (k : UInt32) : Msg := Strategy.updateOf .update k 1

theorem arrivals_sevenSix (h : 2 ≤ size) :
    Arrivals size image [update 5] [update 6] [update 7] where
  initial := ⟨.inl rfl, .inl rfl, rfl⟩
  live := by
    intro u hu
    simp only [mem_append, mem_singleton] at hu
    rcases hu with (rfl | rfl) | rfl <;> exact ⟨rfl, rfl, rfl, rfl⟩
  passed := by
    intro u hu
    obtain rfl := mem_singleton.mp hu
    decide
  follows := ⟨rfl, by decide, rfl, by decide, trivial⟩
  fits := h

/-- With a ring that is not full, one update comes from it and one after the image. -/
theorem kept_sevenSix : Kept ((Subscription.new
    ⟨.onInitial, .deliverAll, .doNotWaitForRecap, false⟩ 3 false).process
      ([update 5] ++ [update 6] ++ image :: [update 7])).2 image ([update 6] ++ [update 7]) :=
  (kept_iff _ false (arrivals_sevenSix (by decide))).mpr (.inr (.inl ⟨rfl, by decide⟩))

/-- With a ring that is just full, the update in it is lost. -/
theorem lost_sevenSix : Arrivals 2 image [update 5] [update 6] [update 7] ∧
    ¬ Kept ((Subscription.new
      ⟨.onInitial, .deliverAll, .doNotWaitForRecap, false⟩ 2 false).process
        ([update 5] ++ [update 6] ++ image :: [update 7])).2 image ([update 6] ++ [update 7]) := by
  refine ⟨arrivals_sevenSix (by decide), fun h => ?_⟩
  have hforwarded := h.1
  revert hforwarded
  decide +kernel

end Subscription

end Dq

end Mama

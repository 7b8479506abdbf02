import OpenMama.Mama.GapCache

/-!
# When a gap is signalled

For updates of one sender on an established context a gap should be signalled just
where a number is there that is neither the last accepted one nor the one that is due
(`GapLaw`).  The context keeps one number, which an update without a number
overwrites with zero, so the law holds as long as no such update comes
(`GapOk`, `Strategy.gaps_iff`).
-/

namespace Mama

namespace Dq

/-- An update with status OK from the sender of the context. -/
structure Msg.IsUpdateOf (m : Msg) (c : Context) : Prop where
  type : m.msgType.isImage = false
  ddict : m.msgType ≠ .ddictSnapshot
  statusOk : m.status = .ok
  oneSender : c.takenOver m = false

/-- The number of an update is there, and neither the last nor the one that is due. -/
def Missed (last : UInt32) (m : Msg) : Prop :=
  m.seqNum ≠ 0 ∧ m.seqNum ≠ last ∧ m.seqNum ≠ last + m.conflateCnt

/-- The number of the last accepted update that has one. -/
def lastNumber (start : UInt32) (ms : List Msg) : UInt32 :=
  ms.foldl (fun last m =>
    if m.seqNum ≠ 0 ∧ m.seqNum = last + m.conflateCnt then m.seqNum else last) start

namespace Strategy

variable {t : Transport} {x : Strategy} {m : Msg}

/-- A gap is signalled where a number was missed, and an update without a number is forwarded and
changes nothing of the count. -/
def GapLaw (t : Transport) (x : Strategy) (last : UInt32) (m : Msg) : Prop :=
  (.onGap ∈ (x.check t m).acts ↔ Missed last m) ∧
    ((x.check t m).msg.status = .stale ↔ Missed last m) ∧
    (m.seqNum = 0 →
      (x.next t m).ctx.doNotForward = false ∧ (x.next t m).ctx.seqNum = x.ctx.seqNum)

/-- The condition on an update: it has a number, or the context has none; and where a number was
missed, the update is not ignored, the stream does not wait after a takeover, and there is no try
left or the ring does not have what was missed. -/
def GapOk (t : Transport) (x : Strategy) (m : Msg) : Prop :=
  (m.seqNum = 0 → x.ctx.seqNum = 0) ∧
    (Missed x.ctx.seqNum m → ¬ IsIgnored t x.ctx m ∧
      x.ctx.dqState ≠ .waitingForRecapAfterFt ∧
        ¬ Context.IsBridged t x (x.ctx.seqNum + 1) m.seqNum)

section

variable (hm : m.IsUpdateOf x.ctx)

include hm

theorem update_verdict :
    Verdict t x.ctx (x.enter m) (x.check t m) ∧ (x.check t m).ctx.senderId = x.ctx.senderId ∧
      (x.enter m).ctx = { x.ctx with doNotForward := false } := by
  have henter : (x.enter m).ctx = { x.ctx with doNotForward := false } := by
    rw [enter, Context.entered, hm.oneSender]; rfl
  have hcheck : x.check t m = (x.enter m).checkUpdate t x.ctx := by
    rw [check_eq, if_neg fun h => Bool.noConfusion (hm.oneSender.symm.trans h.1),
      checkType_update (x := x.enter m) hm.type hm.ddict]
  obtain ⟨hverdict, hsender, -⟩ := Step.checkUpdate_verdict t x.ctx (x.enter m)
  rw [hcheck]
  refine ⟨hverdict, hsender.trans ?_, henter⟩
  rw [henter]

theorem isFilled_iff :
    IsFilled t (x.enter m) ↔ Context.IsBridged t x (x.ctx.seqNum + 1) m.seqNum := by
  rw [Context.isFilled_enter_iff, hm.oneSender]
  rfl

/-- **One update**, where the number of the context is the last. -/
theorem gapLaw_iff (hest : x.ctx.dqState ≠ .notEstablished) :
    GapLaw t x x.ctx.seqNum m ↔ GapOk t x m := by
  obtain ⟨hverdict, -, henter⟩ := update_verdict (t := t) hm
  have hnext : IsNext x.ctx m ↔ m.seqNum = 0 ∨ m.seqNum = x.ctx.seqNum + m.conflateCnt :=
    or_iff_right hest
  have hmissed : Missed x.ctx.seqNum m ↔ ¬ IsNext x.ctx m ∧ m.seqNum ≠ x.ctx.seqNum := by
    unfold Missed; grind
  have hnumber : ¬ IsNext x.ctx m → m.seqNum ≠ 0 := fun h h0 => h (hnext.mpr (.inl h0))
  rw [GapLaw, GapOk, next_ctx]
  generalize x.check t m = y at hverdict ⊢
  cases hverdict with
  | accepted next statusOk state seqNum doNotForward msg acts =>
    have hno : ¬ Missed x.ctx.seqNum m := fun h => (hmissed.mp h).1 next
    have hgap : .onGap ∉ y.acts := fun h => by simpa [enter] using (acts .onGap).mp h
    have hstale : y.msg.status ≠ .stale := by rw [msg, statusOk]; decide
    have hforward : y.ctx.doNotForward = false := by rw [doNotForward, henter]
    rw [iff_false_intro hgap, iff_false_intro hstale, iff_false_intro hno, seqNum]
    simp only [true_and, hforward, false_imp_iff, and_true]
    exact forall_congr' fun h0 => by
      show m.seqNum = _ ↔ _
      rw [h0]
      exact eq_comm
  | ignored late ignored state seqNum doNotForward msg acts =>
    have hlate : ¬ IsNext x.ctx m := fun h => late ⟨h, hm.statusOk⟩
    have hgap : .onGap ∉ y.acts := fun h => by simpa [enter] using acts .onGap h
    rw [iff_false_intro hgap]
    refine ⟨fun h => ⟨fun h0 => (hnumber hlate h0).elim, fun hmiss => (h.1.mpr hmiss).elim⟩,
      fun h => ?_⟩
    have hno : ¬ Missed x.ctx.seqNum m := fun hmiss => (h.2 hmiss).1 ignored
    have hstale : y.msg.status ≠ .stale := by
      rw [msg, show (x.enter m).msg.status = .ok from hm.statusOk]; decide
    exact ⟨iff_of_false id hno, iff_of_false hstale hno, fun h0 => (hnumber hlate h0).elim⟩
  | duplicate late counted same before state seqNum doNotForward msg acts =>
    have hlate : ¬ IsNext x.ctx m := fun h => late ⟨h, hm.statusOk⟩
    have hno : ¬ Missed x.ctx.seqNum m := fun h => (hmissed.mp h).2 same
    have hgap : .onGap ∉ y.acts := fun h => by simpa [enter] using acts .onGap h
    have hstale : y.msg.status ≠ .stale := by
      rw [msg]
      intro h
      cases h
    exact iff_of_true
      ⟨iff_of_false hgap hno, iff_of_false hstale hno, fun h0 => (hnumber hlate h0).elim⟩
      ⟨fun h0 => (hnumber hlate h0).elim, fun h => (hno h).elim⟩
  | held late counted before state seqNum doNotForward msg acts =>
    have hlate : ¬ IsNext x.ctx m := fun h => late ⟨h, hm.statusOk⟩
    have hgap : .onGap ∉ y.acts := fun h => by simpa [enter] using acts .onGap h
    rw [iff_false_intro hgap]
    refine ⟨fun h => ⟨fun h0 => (hnumber hlate h0).elim, fun hmiss => (h.1.mpr hmiss).elim⟩,
      fun h => ?_⟩
    have hno : ¬ Missed x.ctx.seqNum m := fun hmiss => (h.2 hmiss).2.1 before
    have hstale : y.msg.status ≠ .stale := by
      rw [msg, show (x.enter m).msg.status = .ok from hm.statusOk]; decide
    exact ⟨iff_of_false id hno, iff_of_false hstale hno, fun h0 => (hnumber hlate h0).elim⟩
  | filled late counted new before filled state seqNum doNotForward msg acts =>
    have hmiss : Missed x.ctx.seqNum m := hmissed.mpr ⟨late, new⟩
    have hgap : .onGap ∉ y.acts := fun h => by simpa [enter] using acts .onGap h
    exact iff_of_false (fun h => hgap (h.1.mpr hmiss)) fun h =>
      (h.2 hmiss).2.2 ((isFilled_iff hm).mp filled)
  | gap late counted new before unfilled state seqNum doNotForward msg onGap =>
    have hlate : ¬ IsNext x.ctx m := fun h => late ⟨h, hm.statusOk⟩
    have hmiss : Missed x.ctx.seqNum m := hmissed.mpr ⟨hlate, new⟩
    refine iff_of_true ⟨iff_of_true onGap hmiss, iff_of_true ?_ hmiss,
      fun h0 => (hnumber hlate h0).elim⟩ ⟨fun h0 => (hnumber hlate h0).elim,
        fun _ => ⟨counted, before, mt (isFilled_iff hm).mpr (unfilled.resolve_left hlate)⟩⟩
    rw [msg]
    rfl

/-- An update that meets the condition keeps the context established, with its sender, and its
number the last. -/
theorem next_of_gapOk (hest : x.ctx.dqState ≠ .notEstablished) (hok : GapOk t x m) :
    (x.next t m).ctx.dqState ≠ .notEstablished ∧ (x.next t m).ctx.senderId = x.ctx.senderId ∧
    (x.next t m).ctx.seqNum = if m.seqNum ≠ 0 ∧
    m.seqNum = x.ctx.seqNum + m.conflateCnt then m.seqNum else x.ctx.seqNum := by
  obtain ⟨hverdict, hsender, henter⟩ := update_verdict (t := t) hm
  have hnext : IsNext x.ctx m ↔ m.seqNum = 0 ∨ m.seqNum = x.ctx.seqNum + m.conflateCnt :=
    or_iff_right hest
  have hseq : (x.enter m).ctx.seqNum = x.ctx.seqNum := by rw [henter]
  rw [next_ctx]
  refine ⟨?_, hsender, ?_⟩
  · generalize x.check t m = y at hverdict ⊢
    cases hverdict <;> simp_all
  have hkept : ¬ (IsNext x.ctx m ∧ m.status = .ok) →
      ¬ (m.seqNum ≠ 0 ∧ m.seqNum = x.ctx.seqNum + m.conflateCnt) :=
    fun h hdue => h ⟨hnext.mpr (.inr hdue.2), hm.statusOk⟩
  cases hverdict with
  | accepted next statusOk state seqNum =>
    rw [seqNum]
    show m.seqNum = _
    split
    · rfl
    · next hnot =>
      rcases hnext.mp next with h0 | hdue
      · rw [h0, hok.1 h0]
      · by_cases h0 : m.seqNum = 0
        · rw [h0, hok.1 h0]
        · exact (hnot ⟨h0, hdue⟩).elim
  | ignored late _ _ seqNum => rw [seqNum, hseq, if_neg (hkept late)]
  | duplicate late _ _ _ _ seqNum => rw [seqNum, hseq, if_neg (hkept late)]
  | held late _ _ _ seqNum => rw [seqNum, hseq, if_neg (hkept late)]
  | filled late _ new _ filled =>
    have hmiss : Missed x.ctx.seqNum m :=
      ⟨fun h => late (hnext.mpr (.inl h)), new, fun h => late (hnext.mpr (.inr h))⟩
    exact ((hok.2 hmiss).2.2 ((isFilled_iff hm).mp filled)).elim
  | gap late _ _ _ _ _ seqNum => rw [seqNum, hseq, if_neg (hkept late)]

end

/-- **A gap is signalled just where a number was missed**, as long as every update meets the
condition. -/
theorem gaps_iff (t : Transport) {x : Strategy} {ms : List Msg}
    (hest : x.ctx.dqState ≠ .notEstablished) (hms : ∀ m ∈ ms, m.IsUpdateOf x.ctx) :
    (∀ pre m suf, ms = pre ++ m :: suf → GapLaw t (x.run t pre) (lastNumber x.ctx.seqNum pre) m) ↔
    ∀ pre m suf, ms = pre ++ m :: suf → GapOk t (x.run t pre) m := by
  have hupdate : ∀ {pre m suf}, ms = pre ++ m :: suf →
      (x.run t pre).ctx.senderId = x.ctx.senderId → m.IsUpdateOf (x.run t pre).ctx := by
    intro pre m suf hsplit hsender
    obtain ⟨htype, hddict, hok, hone⟩ := hms m (by simp [hsplit])
    refine ⟨htype, hddict, hok, ?_⟩
    unfold Context.takenOver at hone ⊢
    rwa [hsender]
  have hsame : ∀ {pre m suf}, ms = pre ++ m :: suf →
      (x.run t pre).ctx.dqState ≠ .notEstablished ∧
        (x.run t pre).ctx.senderId = x.ctx.senderId ∧
        (x.run t pre).ctx.seqNum = lastNumber x.ctx.seqNum pre →
      (GapLaw t (x.run t pre) (lastNumber x.ctx.seqNum pre) m ↔ GapOk t (x.run t pre) m) := by
    rintro pre m suf hsplit ⟨hstate, hsender, hlast⟩
    rw [← hlast]
    exact gapLaw_iff (hupdate hsplit hsender) hstate
  refine Lib.forall_split_iff (I := fun pre => (x.run t pre).ctx.dqState ≠ .notEstablished ∧
    (x.run t pre).ctx.senderId = x.ctx.senderId ∧
    (x.run t pre).ctx.seqNum = lastNumber x.ctx.seqNum pre) ⟨hest, rfl, rfl⟩
    (fun pre m suf hsplit hinv => hsame hsplit hinv) fun pre m suf hsplit hinv hlaw => ?_
  have hok := (hsame hsplit hinv).mp hlaw
  obtain ⟨hstate, hsender, hlast⟩ := hinv
  obtain ⟨hstate', hsender', hlast'⟩ := next_of_gapOk (hupdate hsplit hsender) hstate hok
  rw [run, lastNumber, List.foldl_concat, List.foldl_concat]
  refine ⟨hstate', hsender'.trans hsender, hlast'.trans ?_⟩
  rw [hlast]
  rfl

/-! ### An update without a number -/

/-- A context that an initial with number 5 established. -/
def established : Strategy := fresh.run usual [updateOf .initial 5 1]

theorem isUpdateOf_established {s : UInt32} :
    (updateOf .update s 1).IsUpdateOf established.ctx := by
  refine ⟨rfl, nofun, rfl, ?_⟩
  rfl

/-- The next update, the same again and one too far: the last is told as a gap. -/
theorem gaps_signalled :
    GapLaw usual (established.run usual [updateOf .update 6 1, updateOf .update 6 1])
      (lastNumber established.ctx.seqNum [updateOf .update 6 1, updateOf .update 6 1])
      (updateOf .update 9 1) := by
  refine (gaps_iff usual (by decide +kernel) ?_).mpr (fun pre m suf hms => ?_)
    [updateOf .update 6 1, updateOf .update 6 1] (updateOf .update 9 1) [] rfl
  · intro m hm
    have hm' : m = updateOf .update 6 1 ∨ m = updateOf .update 6 1 ∨ m = updateOf .update 9 1 := by
      simpa using hm
    rcases hm' with rfl | rfl | rfl <;> exact isUpdateOf_established
  unfold GapOk Missed
  rcases pre with _ | ⟨a, _ | ⟨b, _ | ⟨c, pre⟩⟩⟩
  · obtain ⟨rfl, -⟩ := List.cons.inj hms
    decide +kernel
  · obtain ⟨ha, hms⟩ := List.cons.inj hms
    obtain ⟨rfl, -⟩ := List.cons.inj hms
    rw [← ha]
    decide +kernel
  · obtain ⟨ha, hms⟩ := List.cons.inj hms
    obtain ⟨hb, hms⟩ := List.cons.inj hms
    obtain ⟨rfl, -⟩ := List.cons.inj hms
    rw [← ha, ← hb]
    decide +kernel
  · have hlength := congrArg List.length hms
    simp at hlength

/-- After an update without a number the next one is told as a gap. -/
theorem zero_loses_count : ¬ ∀ pre m suf,
    [updateOf .update 0 1, updateOf .update 6 1] = pre ++ m :: suf →
      GapLaw usual (established.run usual pre) (lastNumber established.ctx.seqNum pre) m := by
  intro h
  have hgap := (h [updateOf .update 0 1] _ [] rfl).1
  revert hgap
  unfold Missed
  decide +kernel

end Strategy

end Dq

end Mama

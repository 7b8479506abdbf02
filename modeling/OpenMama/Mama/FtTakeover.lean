import OpenMama.Mama.GapCache

/-!
# Takeovers that wait for a recap

Under `waitForRecap` a message of another sender puts the context in
`waitingForRecapAfterFt`, where updates are not to be forwarded until an image
comes.  `checkSeqNum` goes on with the state and the number from before the takeover,
and its test of the waiting states holds of every state, so what the stream promises
(`HoldsUntil`) is kept just where no message of the takeover is accepted or told as a
gap (`HoldOk`, `Strategy.holds_iff`).
-/

namespace Mama

open List

namespace Dq

/-- A message of another sender takes the stream over, unless it settles it at once. -/
def Context.Takes (c : Context) (m : Msg) : Prop :=
  m.senderId ≠ 0 ∧ m.senderId ≠ c.senderId ∧ m.msgType.isImage = false

namespace Strategy

variable {t : Transport} {x : Strategy} {m : Msg}

/-- After the message the context waits, and an update is marked. -/
def Holds (t : Transport) (x : Strategy) (m : Msg) : Prop :=
  m.msgType.isImage = false ∧ (x.next t m).ctx.dqState = .waitingForRecapAfterFt ∧
    (m.msgType ≠ .ddictSnapshot → (x.next t m).ctx.doNotForward)

/-- After the image the context has its sender, and the updates that follow it are forwarded. -/
def Resumes (t : Transport) (x : Strategy) (m : Msg) : Prop :=
  m.msgType.isImage ∧ (x.next t m).ctx.senderId = m.senderId ∧
    (x.next t m).ctx.dqState ≠ .waitingForRecapAfterFt ∧
    ∀ u : Msg, u.msgType.isImage = false → u.senderId = m.senderId → u.status = .ok →
      IsNext (x.next t m).ctx u → ((x.next t m).next t u).ctx.doNotForward = false

def HoldsUntil (t : Transport) (x : Strategy) (ms : List Msg) : Prop :=
  Lib.Until (next t) (Resumes t) (Holds t) x ms

/-- The run has come to a takeover, and no image since. -/
def InTakeover (t : Transport) (x : Strategy) (ms : List Msg) : Prop :=
  ∃ pre m suf, ms = pre ++ m :: suf ∧ (x.run t pre).ctx.Takes m ∧
    ∀ n ∈ suf, n.msgType.isImage = false

/-- The condition on a message of a takeover: the context had a sender, or waits already; and the
message is neither accepted nor, with the state from before, told as a duplicate or a gap. -/
def HoldOk (t : Transport) (x : Strategy) (m : Msg) : Prop :=
  (x.ctx.takenOver m ∨ x.ctx.dqState = .waitingForRecapAfterFt) ∧
    (m.msgType ≠ .ddictSnapshot →
      ¬ (IsNext x.ctx m ∧ m.status = .ok) ∧
        (x.ctx.dqState = .waitingForRecapAfterFt ∨ IsIgnored t x.ctx m ∨
          (¬ IsNext x.ctx m ∧ m.seqNum ≠ x.ctx.seqNum ∧
            Context.IsBridged t x (m.seqNum + 1) m.seqNum)))

theorem enter_state_iff (x : Strategy) (m : Msg) :
    (x.enter m).ctx.dqState = .waitingForRecapAfterFt ↔
      x.ctx.takenOver m ∨ x.ctx.dqState = .waitingForRecapAfterFt := by
  rw [enter_state]
  cases x.ctx.takenOver m <;> simp

section

variable (ht : t.ftScheme = .waitForRecap)

include ht

theorem check_wait (x : Strategy) (m : Msg) : x.check t m = (x.enter m).checkType t x.ctx := by
  rw [check_eq, if_neg fun h => h.2 ht]

/-- **One message of a takeover.** -/
theorem holds_message (himage : m.msgType.isImage = false) : Holds t x m ↔ HoldOk t x m := by
  rw [Holds, HoldOk, and_iff_right himage, next_ctx, check_wait ht, ← enter_state_iff]
  by_cases hddict : m.msgType = .ddictSnapshot
  · have hsame : (x.enter m).checkType t x.ctx = x.enter m := by
      rw [Step.checkType, show (x.enter m).msg.msgType = .ddictSnapshot from hddict]
    rw [hsame]
    exact and_congr_right fun _ => iff_of_true (fun h => (h hddict).elim) fun h => (h hddict).elim
  rw [checkType_update (x := x.enter m) himage hddict, forall_prop_of_true hddict,
    forall_prop_of_true hddict]
  obtain ⟨hverdict, -, -⟩ := Step.checkUpdate_verdict t x.ctx (x.enter m)
  have hwaits : x.ctx.dqState = .waitingForRecapAfterFt →
      (x.enter m).ctx.dqState = .waitingForRecapAfterFt := fun h =>
    (enter_state_iff x m).mpr (.inr h)
  have hfills : x.ctx.takenOver m → (IsFilled t (x.enter m) ↔
      Context.IsBridged t x (m.seqNum + 1) m.seqNum) := fun htook => by
    rw [Context.isFilled_enter_iff, if_pos htook]
  cases hverdict with
  | accepted next statusOk state =>
    refine iff_of_false (fun h => ?_) fun h => h.2.1 ⟨next, statusOk⟩
    rw [state] at h
    cases h.1
  | ignored late ignored state _ doNotForward =>
    rw [state, doNotForward]
    exact and_congr_right fun _ => iff_of_true rfl ⟨late, .inr (.inl ignored)⟩
  | duplicate late counted same before state =>
    refine iff_of_false (fun h => ?_) fun h => ?_
    · rw [state] at h; cases h.1
    · rcases h.2.2 with h | h | h
      · exact before h
      · exact counted h
      · exact h.2.1 same
  | held late counted before state _ doNotForward =>
    rw [state, doNotForward]
    exact iff_of_true ⟨hwaits before, rfl⟩ ⟨hwaits before, late, .inl before⟩
  | filled late counted new before filled state _ doNotForward =>
    rw [state, doNotForward, enter_doNotForward]
    refine and_congr_right fun hstate => ?_
    have htook := ((enter_state_iff x m).mp hstate).resolve_right before
    exact iff_of_true htook
      ⟨fun h => late h.1, .inr (.inr ⟨late, new, (hfills htook).mp filled⟩)⟩
  | gap late counted new before unfilled state =>
    refine iff_of_false (fun h => ?_) ?_
    · rw [state] at h; cases h.1
    · rintro ⟨hstate, -, h | h | h⟩
      · exact before h
      · exact counted h
      · rcases unfilled with hnext | hunfilled
        · exact h.1 hnext
        · have htook := ((enter_state_iff x m).mp hstate).resolve_right before
          exact hunfilled ((hfills htook).mpr h.2.2)

theorem next_forwarded (himage : m.msgType.isImage = false) (hsender : m.senderId = x.ctx.senderId)
    (hok : m.status = .ok) (hnext : IsNext x.ctx m) : (x.next t m).ctx.doNotForward = false := by
  have htook : x.ctx.takenOver m = false := by simp [Context.takenOver, hsender]
  have henter : (x.enter m).ctx.doNotForward = false := by rw [enter_doNotForward, htook]
  rw [next_ctx, check_wait ht]
  by_cases hddict : m.msgType = .ddictSnapshot
  · rwa [Step.checkType, show (x.enter m).msg.msgType = .ddictSnapshot from hddict]
  rw [checkType_update (x := x.enter m) himage hddict]
  obtain ⟨hverdict, -, -⟩ := Step.checkUpdate_verdict t x.ctx (x.enter m)
  cases hverdict with
  | accepted _ _ _ _ doNotForward => exact doNotForward.trans henter
  | ignored late => exact (late ⟨hnext, hok⟩).elim
  | duplicate late => exact (late ⟨hnext, hok⟩).elim
  | held late => exact (late ⟨hnext, hok⟩).elim
  | filled late => exact (late hnext).elim
  | gap late => exact (late ⟨hnext, hok⟩).elim

theorem resumes_image (himage : m.msgType.isImage) : Resumes t x m := by
  obtain ⟨-, hstate, hsender⟩ := checkType_image (t := t) (x := x.enter m) x.ctx himage
  rw [← check_wait ht] at hstate hsender
  refine ⟨himage, hsender, hstate, fun u hu hfrom hok hnext => ?_⟩
  exact next_forwarded ht hu (hfrom.trans hsender.symm) hok hnext

end

theorem InTakeover.not_image {pre : List Msg} (h : InTakeover t x (pre ++ [m])) :
    m.msgType.isImage = false := by
  obtain ⟨qre, n, rest, hsplit, htakes, hquiet⟩ := h
  obtain ⟨before, hrest, -⟩ := Lib.exists_of_concat_eq hsplit
  have hmem : m ∈ n :: rest := by simp [hrest]
  rcases List.mem_cons.mp hmem with rfl | hmem
  · exact htakes.2.2
  · exact hquiet m hmem

/-- **A takeover is held until an image comes** just where each of its messages meets the
condition. -/
theorem holds_iff {t : Transport} (ht : t.ftScheme = .waitForRecap) (x : Strategy)
    (ms : List Msg) :
    (∀ pre m suf, ms = pre ++ m :: suf → (x.run t pre).ctx.Takes m →
        HoldsUntil t (x.run t pre) (m :: suf)) ↔
      ∀ pre m suf, ms = pre ++ m :: suf → InTakeover t x (pre ++ [m]) →
        HoldOk t (x.run t pre) m := by
  constructor
  · intro hall pre m suf hms htakeover
    have hlast := htakeover.not_image
    obtain ⟨qre, n, rest, hsplit, htakes, hquiet⟩ := htakeover
    -- the takeover begins with `n`, and its last message is `m`
    obtain ⟨before, hrest, rfl⟩ := Lib.exists_of_concat_eq hsplit
    have himages : ∀ k ∈ before ++ [m], k.msgType.isImage = false := by
      intro k hk
      rw [← hrest] at hk
      rcases List.mem_cons.mp hk with rfl | hk
      · exact htakes.2.2
      · exact hquiet k hk
    have hlist : n :: (rest ++ suf) = before ++ m :: suf := by
      rw [← cons_append, hrest, append_assoc]; rfl
    have huntil := hall qre n (rest ++ suf) (by rw [hms, hlist, append_assoc]) htakes
    rw [hlist] at huntil
    have hrun : x.run t (qre ++ before) = (x.run t qre).run t before := foldl_append
    rw [hrun]
    refine (holds_message ht hlast).mp ((huntil.at fun pre' k suf' hk hends => ?_).resolve_left ?_)
    · have hmem : k ∈ before ++ [m] := by simp [hk]
      have himage := hends.1
      rw [himages k hmem] at himage
      cases himage
    · intro hends
      have himage := hends.1
      rw [hlast] at himage
      cases himage
  rintro hall pre m suf rfl htakes
  -- carried: no image yet
  refine Lib.until_of (P := fun qre => ∀ n ∈ qre, n.msgType.isImage = false)
    (fun n hn => by cases hn) fun qre n rest hsuf hquiet hends => ?_
  have himage : n.msgType.isImage = false := by
    cases h : n.msgType.isImage with
    | false => rfl
    | true => exact (hends (resumes_image ht h)).elim
  have hquiet' : ∀ k ∈ qre ++ [n], k.msgType.isImage = false := by
    intro k hk
    rcases List.mem_append.mp hk with hk | hk
    · exact hquiet k hk
    · rwa [List.mem_singleton.mp hk]
  refine ⟨(holds_message ht himage).mpr ?_, hquiet'⟩
  have hrun : x.run t (pre ++ qre) = (x.run t pre).run t qre := foldl_append
  have hok := hall (pre ++ qre) n rest (by rw [hsuf, append_assoc])
  rw [hrun] at hok
  refine hok ?_
  cases qre with
  | nil =>
    obtain ⟨rfl, -⟩ := List.cons.inj hsuf
    exact ⟨pre, m, [], by rw [append_nil], htakes, fun k hk => by cases hk⟩
  | cons k qre =>
    obtain ⟨rfl, -⟩ := List.cons.inj hsuf
    refine ⟨pre, m, qre ++ [n], by simp, htakes, fun j hj => hquiet' j ?_⟩
    exact mem_cons_of_mem _ hj

/-! ### A takeover by an update with the next number -/

def waiting : Transport := ⟨.onGap, .ignoreDups, .waitForRecap, false⟩

/-- The initial of one sender, two updates of another, the first of them behind, and the recap. -/
def tookOver : List Msg :=
  [updateOf .initial 5 1, updateOf .update 3 2, updateOf .update 9 2, updateOf .recap 40 2]

/-- Both updates are held. -/
theorem held_until_recap :
    HoldsUntil waiting (fresh.run waiting [updateOf .initial 5 1])
      [updateOf .update 3 2, updateOf .update 9 2, updateOf .recap 40 2] := by
  have htakes : (fresh.run waiting [updateOf .initial 5 1]).ctx.Takes (updateOf .update 3 2) := by
    unfold Context.Takes; decide +kernel
  refine (holds_iff rfl fresh tookOver).mpr (fun pre m suf hms htakeover => ?_)
    [updateOf .initial 5 1] _ _ rfl htakes
  have himage := htakeover.not_image
  rcases pre with _ | ⟨a, _ | ⟨b, _ | ⟨c, pre⟩⟩⟩
  · obtain ⟨rfl, -⟩ := List.cons.inj hms
    cases himage
  · obtain ⟨ha, hms⟩ := List.cons.inj hms
    obtain ⟨rfl, -⟩ := List.cons.inj hms
    rw [← ha]
    unfold HoldOk
    decide +kernel
  · obtain ⟨ha, hms⟩ := List.cons.inj hms
    obtain ⟨hb, hms⟩ := List.cons.inj hms
    obtain ⟨rfl, -⟩ := List.cons.inj hms
    rw [← ha, ← hb]
    unfold HoldOk
    decide +kernel
  obtain ⟨-, hms⟩ := List.cons.inj hms
  obtain ⟨-, hms⟩ := List.cons.inj hms
  obtain ⟨-, hms⟩ := List.cons.inj hms
  cases pre with
  | nil =>
    obtain ⟨rfl, -⟩ := List.cons.inj hms
    cases himage
  | cons d pre =>
    have hlength := congrArg List.length hms
    simp at hlength

/-- An update of the new sender with the next number is accepted. -/
theorem next_not_held : ¬ ∀ pre m suf,
    [updateOf .initial 5 1, updateOf .update 6 2] = pre ++ m :: suf →
    (fresh.run waiting pre).ctx.Takes m →
      HoldsUntil waiting (fresh.run waiting pre) (m :: suf) := by
  intro h
  have htakes : (fresh.run waiting [updateOf .initial 5 1]).ctx.Takes (updateOf .update 6 2) := by
    unfold Context.Takes; decide +kernel
  rcases h [updateOf .initial 5 1] _ [] rfl htakes with h | ⟨h, -⟩
  · cases h.1
  · have := h.2.1
    revert this
    decide +kernel

end Strategy

end Dq

end Mama

import OpenMama.Lib.Until
import OpenMama.Mama.FaultTolerance

/-!
# The life of one member

A member is activated and deactivated, hears heartbeats, and its timeout timer fires.
Beside it is kept whether a timeout has fired since the last activation with no
winning heartbeat after it, and which incarnations the winning heartbeats since then
carried (`Track`).  What should hold of an active member is `Sound`; it does as long
as no member is activated in the active state, which deactivation leaves as it is,
and no incarnation wraps (`StepOk`, `sound_iff`).
-/

namespace Mama

open List

namespace Ft

def maxIncarnation : UInt32 := 4294967295

inductive Event
  | activate (ip : Int32)
  | deactivate
  | heartbeat (h : Heartbeat)
  | timeout (pending : List Heartbeat)

def Member.step (x : Member) : Event → Member
  | .activate ip => (x.activate ip).1
  | .deactivate => x.deactivate
  | .heartbeat h => (x.mamaCheckHeartbeat h).member
  | .timeout pending => if x.timeoutTimer then (x.ftTimeoutTimerCb pending).1 else x

/-- A member, whether a timeout has fired since its last activation with no winning heartbeat
after it, and the incarnations of the winning heartbeats since then. -/
structure Track where
  member : Member
  fired : Bool
  winners : List UInt32

namespace Track

/-- The member and what is kept of it after a heartbeat. -/
def heartbeat (x : Track) (h : Heartbeat) : Track :=
  if x.member.Winning h then
    ⟨(x.member.mamaCheckHeartbeat h).member, false, x.winners ++ [h.credentials.incarnation]⟩
  else { x with member := (x.member.mamaCheckHeartbeat h).member }

def step (x : Track) : Event → Track
  | .activate ip => ⟨x.member.step (.activate ip), false, []⟩
  | .deactivate => { x with member := x.member.step .deactivate }
  | .heartbeat h => x.heartbeat h
  | .timeout pending =>
    if x.member.timeoutTimer then
      { pending.foldl heartbeat { x with fired := true } with
        member := x.member.step (.timeout pending) }
    else x

def run (x : Track) (es : List Event) : Track := es.foldl step x

def new (groupName : String) (weight : UInt32) (pid : Int32) : Track :=
  ⟨.new groupName weight pid, false, []⟩

/-- **What should hold of an active member**: its timeout timer is on just where it is not active
as a state; it is in the active state only after a timeout that no winning heartbeat followed; and
then its incarnation is greater than those of the winning heartbeats. -/
def Sound (x : Track) : Prop :=
  x.member.isActive →
    (x.member.timeoutTimer ↔ x.member.state ≠ .active) ∧
      (x.member.state = .active → x.fired) ∧
      (x.member.state = .active → 1 ≤ x.member.incarnation ∧
        ∀ w ∈ x.winners, w ≠ maxIncarnation → w < x.member.incarnation)

/-- The incarnations of winning heartbeats do not wrap the next incarnation: where the greatest
number came, one that is as great as all the others before it came after it. -/
def Counted (ws : List UInt32) : Prop :=
  maxIncarnation ∈ ws → ∃ pre suf, ws = pre ++ maxIncarnation :: suf ∧ maxIncarnation ∉ suf ∧
    ∃ w ∈ suf, ∀ v ∈ pre, v ≠ maxIncarnation → v ≤ w

/-- The condition on an event: no member is activated in the active state, and one that a timeout
makes active has counted the incarnations. -/
def StepOk (x : Track) : Event → Prop
  | .activate _ => x.member.state ≠ .active
  | .timeout pending =>
    x.member.isActive → x.member.timeoutTimer → x.member.state ≠ .active →
      (x.member.receiveAll pending).found = false → Counted x.winners
  | _ => True

end Track

/-! ## Incarnations -/

def raisedAll (next : UInt32) (ws : List UInt32) : UInt32 := ws.foldl Member.raised next

theorem raised_wrap (next : UInt32) : Member.raised next maxIncarnation = 0 := by
  have hle : next ≤ maxIncarnation := by
    have hlt := next.toNat_lt
    show next.toNat ≤ 4294967295
    omega
  rw [Member.raised, if_pos hle]
  rfl

theorem raised_toNat {next w : UInt32} (hw : w ≠ maxIncarnation) :
    (Member.raised next w).toNat = max next.toNat (w.toNat + 1) := by
  have hlt := w.toNat_lt
  have hne : w.toNat ≠ 4294967295 := fun h => hw (UInt32.toNat_inj.mp h)
  unfold Member.raised
  split
  · next hge =>
    have hge' : next.toNat ≤ w.toNat := hge
    rw [UInt32.toNat_add]
    simp only [UInt32.reduceToNat]
    omega
  · next hlt' =>
    have hlt'' : ¬ next.toNat ≤ w.toNat := hlt'
    omega

theorem lt_raisedAll {ws : List UInt32} (hws : maxIncarnation ∉ ws) (next n : UInt32) :
    n < raisedAll next ws ↔ n < next ∨ ∃ w ∈ ws, n ≤ w := by
  induction ws generalizing next with
  | nil => simp [raisedAll]
  | cons w ws ih =>
    have hw : w ≠ maxIncarnation := fun h => hws (h ▸ mem_cons_self)
    have hstep : n < Member.raised next w ↔ n < next ∨ n ≤ w := by
      rw [UInt32.lt_iff_toNat_lt, raised_toNat hw, UInt32.lt_iff_toNat_lt, UInt32.le_iff_toNat_le]
      omega
    have hrest := ih (fun h => hws (mem_cons_of_mem w h)) (Member.raised next w)
    show n < raisedAll (Member.raised next w) ws ↔ _
    rw [hrest, hstep, or_assoc]
    simp

theorem lt_raisedAll_wrapped (pre : List UInt32) {suf : List UInt32} (hsuf : maxIncarnation ∉ suf)
    (n : UInt32) :
    n < raisedAll 1 (pre ++ maxIncarnation :: suf) ↔ ∃ w ∈ suf, n ≤ w := by
  have hcount : raisedAll 1 (pre ++ maxIncarnation :: suf) = raisedAll 0 suf := by
    unfold raisedAll
    rw [foldl_append, foldl_cons, raised_wrap]
  rw [hcount, lt_raisedAll hsuf]
  exact or_iff_right UInt32.not_lt_zero

theorem last_split {a : UInt32} {l : List UInt32} (h : a ∈ l) :
    ∃ pre suf, l = pre ++ a :: suf ∧ a ∉ suf := by
  obtain ⟨suf, pre, hsplit, hsuf⟩ := eq_append_cons_of_mem (List.mem_reverse.mpr h)
  refine ⟨pre.reverse, suf.reverse, ?_, fun h => hsuf (List.mem_reverse.mp h)⟩
  rw [← reverse_reverse l, hsplit, reverse_append, reverse_cons, append_assoc]
  rfl

/-- **Counting is exact**: the next incarnation is one at least, and past all winning ones below
the greatest. -/
theorem counted_iff (ws : List UInt32) : Track.Counted ws ↔ 1 ≤ raisedAll 1 ws ∧ ∀ w ∈ ws,
    w ≠ maxIncarnation → w < raisedAll 1 ws := by
  have hone : ∀ r : UInt32, 1 ≤ r ↔ 0 < r := fun r => by rfl
  rw [hone]
  by_cases hmem : maxIncarnation ∈ ws
  · constructor
    · intro h
      obtain ⟨pre, suf, rfl, hsuf, w, hw, hle⟩ := h hmem
      rw [lt_raisedAll_wrapped pre hsuf]
      refine ⟨⟨w, hw, UInt32.zero_le⟩, fun v hv hne => ?_⟩
      rw [lt_raisedAll_wrapped pre hsuf]
      rcases List.mem_append.mp hv with hv | hv
      · exact ⟨w, hw, hle v hv hne⟩
      · rcases List.mem_cons.mp hv with rfl | hv
        · exact (hne rfl).elim
        · exact ⟨v, hv, UInt32.le_refl v⟩
    rintro ⟨hpos, hall⟩ -
    obtain ⟨pre, suf, rfl, hsuf⟩ := last_split hmem
    -- the greatest of those after it is the next incarnation less one
    generalize hr : raisedAll 1 (pre ++ maxIncarnation :: suf) = r at hpos hall
    have hpos' : 0 < r.toNat := hpos
    have hpred : (r - 1).toNat = r.toNat - 1 := by
      rw [UInt32.toNat_sub_of_le]
      · rfl
      · exact (hone r).mpr hpos
    obtain ⟨w, hw, hle⟩ := (lt_raisedAll_wrapped pre hsuf (r - 1)).mp (by
      rw [hr, UInt32.lt_iff_toNat_lt]; omega)
    refine ⟨pre, suf, rfl, hsuf, w, hw, fun v hv hne => ?_⟩
    have hlt := hall v (mem_append_left _ hv) hne
    rw [UInt32.le_iff_toNat_le] at hle
    rw [UInt32.lt_iff_toNat_lt] at hlt
    rw [UInt32.le_iff_toNat_le]
    omega
  · refine iff_of_true (fun h => (hmem h).elim) ⟨?_, fun w hw _ => ?_⟩
    · rw [lt_raisedAll hmem]; exact .inl (by decide)
    · rw [lt_raisedAll hmem]; exact .inr ⟨w, hw, UInt32.le_refl w⟩

namespace Track

/-! ## Steps -/

/-- What is carried of an active member: what should hold, and the count of the incarnations. -/
structure Carried (x : Track) : Prop where
  sound : x.Sound
  next : x.member.isActive → x.member.nextIncarnation = raisedAll 1 x.winners

variable {x : Track}

theorem Carried.heartbeat (hx : x.Carried) (h : Heartbeat) : (x.heartbeat h).Carried := by
  obtain ⟨-, hmember⟩ := x.member.mamaCheckHeartbeat_eq h
  unfold Track.heartbeat
  by_cases hwins : x.member.Winning h
  · rw [if_pos hwins] at hmember ⊢
    rw [hmember]
    refine ⟨fun hactive => ⟨iff_of_true ?_ nofun, nofun, nofun⟩, fun hactive => ?_⟩
    · obtain ⟨htimer, -, -⟩ := hx.sound hactive
      by_cases hstate : x.member.state = .standby
      · rw [htimer.mpr (by rw [hstate]; nofun)]
        rfl
      · rw [decide_eq_true hstate, Bool.or_true]
    · show Member.raised x.member.nextIncarnation h.credentials.incarnation = _
      rw [hx.next hactive]
      unfold raisedAll
      rw [foldl_concat]
  · rw [if_neg hwins] at hmember ⊢
    rwa [hmember]

theorem Carried.heartbeats (hx : x.Carried) (hs : List Heartbeat) :
    (hs.foldl Track.heartbeat x).Carried :=
  foldlRecOn hs _ hx fun _ hx h _ => hx.heartbeat h

theorem heartbeats_eq (x : Track) (hs : List Heartbeat) :
    (hs.foldl Track.heartbeat x).member = (x.member.receiveAll hs).member ∧
      ((x.member.receiveAll hs).found = false → hs.foldl Track.heartbeat x = x) := by
  induction hs generalizing x with
  | nil => exact ⟨rfl, fun _ => rfl⟩
  | cons h hs ih =>
    obtain ⟨hfound, hmember⟩ := x.member.mamaCheckHeartbeat_eq h
    have hone : (x.heartbeat h).member = (x.member.mamaCheckHeartbeat h).member := by
      unfold Track.heartbeat
      split <;> rfl
    obtain ⟨hall, hnone⟩ := ih (x.heartbeat h)
    rw [hone] at hall hnone
    refine ⟨hall, fun hno => ?_⟩
    obtain ⟨hfirst, hrest⟩ := Bool.or_eq_false_iff.mp hno
    rw [hfound] at hfirst
    have hloses : ¬ x.member.Winning h := of_decide_eq_false hfirst
    have hsame : x.heartbeat h = x := by rw [Track.heartbeat, if_neg hloses, hmember, if_neg hloses]
    rw [foldl_cons, hnone hrest, hsame]

theorem activate_spec (x : Member) (ip : Int32) :
    (x.activate ip).1.isActive ∧ (x.activate ip).1.timeoutTimer ∧
      (x.activate ip).1.state = x.state ∧ (x.activate ip).1.nextIncarnation = 1 := by
  unfold Member.activate
  dsimp only
  rw [Member.startTimeoutTimer_member]
  refine ⟨rfl, rfl, ?_, rfl⟩
  split <;> rfl

theorem Carried.fire (hx : x.Carried) : Carried { x with fired := true } :=
  ⟨fun hactive => ⟨(hx.sound hactive).1, fun _ => rfl, (hx.sound hactive).2.2⟩, hx.next⟩

theorem step_timeout (htimer : x.member.timeoutTimer) (pending : List Heartbeat) :
    x.step (.timeout pending) = if (x.member.receiveAll pending).found then
        pending.foldl heartbeat { x with fired := true }
      else { x with fired := true, member := (x.member.checkState .active).1 } := by
  obtain ⟨hmember, hnone⟩ := heartbeats_eq { x with fired := true } pending
  have hcallback : x.member.step (.timeout pending) =
      if (x.member.receiveAll pending).found then (x.member.receiveAll pending).member
      else ((x.member.receiveAll pending).member.checkState .active).1 := by
    show (if x.member.timeoutTimer then _ else _) = _
    rw [if_pos htimer]
    unfold Member.ftTimeoutTimerCb
    dsimp only
    split <;> rfl
  show (if x.member.timeoutTimer then _ else _) = _
  rw [if_pos htimer, hcallback]
  cases hfound : (x.member.receiveAll pending).found with
  | true =>
    rw [if_pos rfl, if_pos rfl]
    rw [← hmember]
  | false =>
    have hsame := hnone hfound
    rw [hsame] at hmember
    rw [if_neg Bool.false_ne_true, if_neg Bool.false_ne_true, hsame]
    rw [← hmember]

theorem Carried.step (hx : x.Carried) {e : Event} (hok : x.StepOk e) : (x.step e).Carried := by
  cases e with
  | activate ip =>
    obtain ⟨-, htimer, hstate, hnext⟩ := activate_spec x.member ip
    have hidle : (x.member.activate ip).1.state ≠ .active := fun h => hok (hstate.symm.trans h)
    exact ⟨fun _ => ⟨iff_of_true htimer hidle, fun h => (hidle h).elim, fun h => (hidle h).elim⟩,
      fun _ => hnext⟩
  | deactivate => exact ⟨nofun, nofun⟩
  | heartbeat h => exact hx.heartbeat h
  | timeout pending =>
    cases htimer : x.member.timeoutTimer with
    | false =>
      have hsame : x.step (.timeout pending) = x := by
        show (if x.member.timeoutTimer then _ else x) = x
        rw [htimer]
        rfl
      rwa [hsame]
    | true =>
      rw [step_timeout htimer]
      cases hfound : (x.member.receiveAll pending).found with
      | true => exact hx.fire.heartbeats pending
      | false =>
        rw [Member.checkState_active]
        by_cases hstate : x.member.state = .active
        · rw [if_pos hstate]; exact hx.fire
        · rw [if_neg hstate]
          refine ⟨fun hactive => ⟨iff_of_false nofun fun h => h rfl, fun _ => rfl, fun _ => ?_⟩,
            hx.next⟩
          have hcounted := (counted_iff x.winners).mp (hok hactive htimer hstate hfound)
          rwa [← hx.next hactive] at hcounted

theorem stepOk_of_sound (hx : x.Carried) {e : Event} (h : (x.step e).Sound) : x.StepOk e := by
  cases e with
  | activate ip =>
    obtain ⟨hactive, htimer, hstate, -⟩ := activate_spec x.member ip
    intro hidle
    exact (h hactive).1.mp htimer (hstate.trans hidle)
  | deactivate => trivial
  | heartbeat h => trivial
  | timeout pending =>
    intro hactive htimer hstate hfound
    rw [step_timeout htimer, hfound, Member.checkState_active, if_neg hstate] at h
    have hcounted := (h hactive).2.2 rfl
    rwa [counted_iff, ← hx.next hactive]

/-- **What should hold of an active member does hold**, in every state of a run, just where each
event meets the condition. -/
theorem sound_iff (groupName : String) (weight : UInt32) (pid : Int32) (es : List Event) :
    (∀ pre suf, es = pre ++ suf → ((new groupName weight pid).run pre).Sound) ↔
      ∀ pre e suf, es = pre ++ e :: suf → ((new groupName weight pid).run pre).StepOk e := by
  have hstart : (new groupName weight pid).Carried := ⟨nofun, nofun⟩
  have hrun : ∀ pre e, (new groupName weight pid).run (pre ++ [e]) =
      ((new groupName weight pid).run pre).step e := fun pre e => foldl_concat ..
  rw [← Lib.forall_split_iff (I := fun pre => ((new groupName weight pid).run pre).Carried)
    (A := fun pre e => ((new groupName weight pid).run (pre ++ [e])).Sound) hstart]
  · constructor
    · intro h pre e suf hes; exact h (pre ++ [e]) suf (by rw [hes, append_assoc]; rfl)
    · intro h pre suf hes
      rcases eq_nil_or_concat pre with rfl | ⟨pre', e, rfl⟩
      · exact hstart.sound
      · rw [concat_eq_append] at hes ⊢; exact h pre' e suf (by rw [hes, append_assoc]; rfl)
  · intro pre e suf _ hcarried
    rw [hrun]
    exact ⟨fun h => stepOk_of_sound hcarried h, fun h => (hcarried.step h).sound⟩
  · intro pre e suf _ hcarried h
    rw [hrun] at h ⊢
    exact hcarried.step (stepOk_of_sound hcarried h)

/-- A member that was active and is activated again: its timeout timer is on in the active
state. -/
theorem cycled_not_sound : ¬ ∀ pre suf,
    [Event.activate 1, .timeout [], .deactivate, .activate 1] = pre ++ suf →
      ((new "g" 1 7).run pre).Sound := by
  intro h
  have hsound := h _ [] (append_nil _).symm (by decide)
  have htimer := hsound.1.mp (by decide)
  exact htimer (by decide)

end Track

end Ft

end Mama

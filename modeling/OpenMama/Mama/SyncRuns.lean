import OpenMama.Mama.SyncResponder
import Mathlib.Data.List.Induction

/-!
# Every topic once, and then the end

However the timers of the commands interleave, each command sends the topics that were asked for, in
replies of the right size, and is ended after the last one: just if every request says how many
topics go into a reply, and every listener of the transport that it came from has a source
(`served_iff`).
-/

namespace Mama

open List Option Function

namespace Sync

/-! ## What is expected of a command -/

/-- The listener is on the transport of the request, and its source is the one that is asked for. -/
def Request.Asks (r : Request) (l : Listener) : Bool :=
  decide (l.mTransportIndex = r.transportIndex) &&
    (r.source.isNone || decide (l.getSource = r.source))

def wanted (ls : List Listener) (r : Request) : List (String × Int) :=
  (ls.filter r.Asks).filterMap fun l => l.mUserSymbol.map fun topic => (topic, l.mType.toInt)

def Request.perMsg (r : Request) : Nat := (r.topicsPerMsg.getD 0).toNat

/-- Topics and types go together, and there are neither none nor too many of them. -/
def Reply.Fits (n : Nat) (reply : Reply) : Prop :=
  reply.topics.length = reply.types.length ∧ 1 ≤ reply.topics.length ∧ reply.topics.length ≤ n

def Sends (n : Nat) (want : List (String × Int)) (outputs : List Output) : Prop :=
  ∃ replies : List Reply, outputs = replies.map .reply ∧
    (replies.flatMap fun reply => reply.topics.zip reply.types) = want ∧
    ∀ reply ∈ replies, reply.Fits n

def Completes (n : Nat) (want : List (String × Int)) (outputs : List Output) : Prop :=
  ∃ replies, Sends n want replies ∧ outputs = replies ++ [.ended]

namespace CmResponder

def Event.isMsgCB : Event → Bool
  | .msgCB _ => true
  | .timerCB _ => false

def Event.isTimerCB (command : Nat) : Event → Bool
  | .msgCB _ => false
  | .timerCB command' => command' = command

/-- The command of a request that comes after some events. -/
def commandAfter (es : List Event) : Nat := es.countP Event.isMsgCB

/-- No request is a fault; what each command did is completed by what is still to come, and nothing
is to come once its timer was due as often as there are topics. -/
def Served (t : Transport) (es : List Event) : Prop :=
  ∃ s, es.foldlM (step t) new = some s ∧
    ∀ pre r suf, es = pre ++ .msgCB r :: suf → ∃ rest,
      Completes r.perMsg (wanted t.listeners r) (s.outputs (commandAfter pre) ++ rest) ∧
      ((wanted t.listeners r).length ≤ suf.countP (Event.isTimerCB (commandAfter pre)) → rest = [])

end CmResponder

/-- The request says how many topics go into a reply, and every listener of its transport has a
source. -/
def Request.Fits (t : Transport) (r : Request) : Prop :=
  r.topicsPerMsg.getD 0 ≠ 0 ∧
    ∀ l ∈ t.listeners, l.mTransportIndex = r.transportIndex → l.getSource ≠ none

/-! ## The topics -/

theorem numListeners_eq (t : Transport) : t.numListeners = t.listeners.length := by
  unfold Transport.numListeners Transport.listeners
  cases t.mRefreshTransport with
  | none => rfl
  | some mNewListeners =>
    dsimp only
    rw [length_append]
    omega

theorem wanted_cons (l : Listener) (ls : List Listener) (r : Request) :
    wanted (l :: ls) r = wanted [l] r ++ wanted ls r := by
  unfold wanted
  rw [← filterMap_append, ← filter_append]
  rfl

variable {l : Listener} {r : Request}

theorem topicsForSourceIterator_eq {c : Topics} {size : Nat}
    (hsource : l.mTransportIndex = r.transportIndex → l.getSource ≠ none)
    (hroom : c.topics.length < size) : topicsForSourceIterator size r.transportIndex r.source c l =
      some ⟨c.topics ++ (wanted [l] r).map Prod.fst, c.types ++ (wanted [l] r).map Prod.snd⟩ := by
  have hwanted : wanted [l] r = if r.Asks l then
      (l.mUserSymbol.map fun topic => (topic, l.mType.toInt)).toList else [] := by
    rw [wanted, filter_cons]
    split
    · cases hsymbol : l.mUserSymbol <;> simp [hsymbol]
    · rfl
  rw [hwanted]
  unfold topicsForSourceIterator Request.Asks
  by_cases hindex : l.mTransportIndex = r.transportIndex
  · obtain ⟨b, hb⟩ := ne_none_iff_exists'.1 (hsource hindex)
    rw [if_pos hindex, decide_eq_true hindex, hb]
    cases hr : r.source with
    | none => cases l.mUserSymbol <;> simp [hroom]
    | some a =>
      have heq : decide (some b = some a) = (a == b) := by
        by_cases hab : a = b
        · simp [hab]
        · simp [hab, Ne.symm hab]
      have hstrcmp : strcmpEqual (some a) (some b) = some (a == b) := rfl
      rw [heq, hstrcmp]
      cases a == b with
      | false => simp
      | true => cases l.mUserSymbol <;> simp [hroom]
  · rw [if_neg hindex, decide_eq_false hindex]; simp

theorem topicsForSourceIterator_fault (c : Topics) (size : Nat)
    (hindex : l.mTransportIndex = r.transportIndex) (hsource : l.getSource = none) :
    topicsForSourceIterator size r.transportIndex r.source c l = none := by
  rw [topicsForSourceIterator, strcmpEqual, if_pos hindex, hsource]
  cases r.source <;> rfl

theorem foldlM_topics {ls : List Listener} {c : Topics} {size : Nat}
    (hsource : ∀ l ∈ ls, l.mTransportIndex = r.transportIndex → l.getSource ≠ none)
    (hroom : c.topics.length + ls.length ≤ size) :
    ls.foldlM (topicsForSourceIterator size r.transportIndex r.source) c =
      some ⟨c.topics ++ (wanted ls r).map Prod.fst, c.types ++ (wanted ls r).map Prod.snd⟩ := by
  induction ls generalizing c with
  | nil => simp [wanted]
  | cons l ls ih =>
    rw [length_cons] at hroom
    rw [foldlM_cons, topicsForSourceIterator_eq (hsource l mem_cons_self) (by omega)]
    show ls.foldlM _ _ = _
    have hlength : ((wanted [l] r).map Prod.fst).length ≤ 1 := by
      rw [length_map]; exact Nat.le_trans (length_filterMap_le _ _) (length_filter_le _ _)
    rw [ih (fun l' hl' => hsource l' (mem_cons_of_mem l hl')), wanted_cons l ls]
    · simp
    · rw [length_append]; omega

theorem foldlM_topics_fault {ls : List Listener} (hl : l ∈ ls)
    (hindex : l.mTransportIndex = r.transportIndex) (hsource : l.getSource = none) (c : Topics)
    (size : Nat) : ls.foldlM (topicsForSourceIterator size r.transportIndex r.source) c = none := by
  induction ls generalizing c with
  | nil => exact absurd hl not_mem_nil
  | cons l' ls ih =>
    rw [foldlM_cons]
    rcases List.mem_cons.1 hl with rfl | hl
    · rw [topicsForSourceIterator_fault c size hindex hsource]; rfl
    · cases topicsForSourceIterator size r.transportIndex r.source c l' with
      | none => rfl
      | some c' => exact ih hl c'

/-! ## The command -/

structure SyncCommand.Sending (c : SyncCommand) (n : Nat) (want : List (String × Int))
    (outputs : List Output) : Prop where
  perMsg : c.mTopicsPerMsg.toNat = n
  positive : 1 ≤ n
  topics : c.mTopics = want.map Prod.fst
  types : c.mTypes = want.map Prod.snd
  length : c.mTopicsLen = want.length
  sent : Sends n (want.take c.mCurIndex) outputs

theorem Sends.concat {n : Nat} {want more : List (String × Int)} {outputs : List Output}
    {reply : Reply} (h : Sends n want outputs) (hreply : reply.topics.zip reply.types = more)
    (hfits : reply.Fits n) : Sends n (want ++ more) (outputs ++ [.reply reply]) := by
  obtain ⟨replies, rfl, hwant, hall⟩ := h
  refine ⟨replies ++ [reply], by simp, ?_, fun other hother => ?_⟩
  · rw [flatMap_append, hwant]; simp [hreply]
  · rcases List.mem_append.1 hother with hmem | hmem
    · exact hall other hmem
    · obtain rfl := List.mem_singleton.1 hmem; exact hfits

namespace SyncCommand

variable {c : SyncCommand} {n : Nat} {want : List (String × Int)} {outputs : List Output}

section

variable (h : c.Sending n want outputs)

include h

section

variable (hleft : c.mCurIndex < want.length)

include hleft

theorem Sending.sendNextMessage :
    ∃ k reply, c.sendNextMessage =
        (want.length - (c.mCurIndex + k), { c with mCurIndex := c.mCurIndex + k }, .reply reply) ∧
      1 ≤ k ∧ c.mCurIndex + k ≤ want.length ∧
      ({ c with mCurIndex := c.mCurIndex + k } : SyncCommand).Sending n want
        (outputs ++ [.reply reply]) := by
  obtain ⟨hper, hpos, htopics, htypes, hlen, hsent⟩ := h
  have hk : ∃ k, (if want.length - c.mCurIndex > n then n else want.length - c.mCurIndex) = k ∧
      1 ≤ k ∧ k ≤ n ∧ c.mCurIndex + k ≤ want.length := by
    refine ⟨_, rfl, ?_⟩
    split <;> omega
  obtain ⟨k, hk, hone, hle, hend⟩ := hk
  refine ⟨k, ⟨(c.mTopics.drop c.mCurIndex).take k, (c.mTypes.drop c.mCurIndex).take k⟩, ?_, hone,
    hend,
    hper, hpos, htopics, htypes, hlen, ?_⟩
  · unfold SyncCommand.sendNextMessage
    dsimp only
    rw [hlen, hper, hk, Nat.sub_sub]
  rw [take_add]
  refine hsent.concat ?_ ⟨?_, ?_, ?_⟩
  · dsimp only
    rw [htopics, htypes, ← map_drop, ← map_drop, ← map_take, ← map_take]
    exact (zip_of_prod rfl rfl).symm
  all_goals
    rw [htopics, ← map_drop, ← map_take, length_map, length_take, length_drop]
  · rw [htypes, ← map_drop, ← map_take, length_map, length_take, length_drop]
  · omega
  · omega

theorem Sending.sendAll {fuel : Nat} (hfuel : want.length < c.mCurIndex + fuel) :
    ∃ replies, SyncCommand.sendAll fuel c = some replies ∧ Sends n want (outputs ++ replies) := by
  induction fuel generalizing c outputs with
  | zero => omega
  | succ fuel ih =>
    obtain ⟨k, reply, hsend, hone, hend, hsending⟩ := h.sendNextMessage hleft
    rw [SyncCommand.sendAll, hsend]
    dsimp only
    by_cases hlast : want.length - (c.mCurIndex + k) = 0
    · rw [if_pos hlast]
      refine ⟨_, rfl, ?_⟩
      have hall := hsending.sent
      rwa [take_of_length_le (by dsimp only; omega)] at hall
    · rw [if_neg hlast]
      obtain ⟨replies, hrun, hsends⟩ := ih hsending (by dsimp only; omega) (by dsimp only; omega)
      refine ⟨.reply reply :: replies, by rw [hrun]; rfl, ?_⟩
      rwa [append_assoc] at hsends

theorem Sending.timerCB :
    ∃ result, c.timerCB = some result ∧
      match result.1 with
      | none => Completes n want (outputs ++ result.2)
      | some c' => c'.Sending n want (outputs ++ result.2) ∧ c'.mTimer ∧
          c.mCurIndex < c'.mCurIndex ∧ c'.mCurIndex < want.length := by
  unfold SyncCommand.timerCB
  split_ifs with hnow
  · have hfuel : want.length < c.mCurIndex + (c.mTopicsLen + 1) := by
      rw [h.length]; omega
    obtain ⟨replies, hrun, hsends⟩ := h.sendAll hleft hfuel
    refine ⟨(none, replies ++ [.ended]), by rw [hrun]; rfl, outputs ++ replies, hsends, ?_⟩
    rw [append_assoc]
  obtain ⟨k, reply, hsend, hone, hend, hsending⟩ := h.sendNextMessage hleft
  rw [hsend]
  dsimp only
  by_cases hlast : want.length - (c.mCurIndex + k) = 0
  · rw [if_pos hlast]
    refine ⟨_, rfl, outputs ++ [.reply reply], ?_, by simp⟩
    have hall := hsending.sent
    rwa [take_of_length_le (by dsimp only; omega)] at hall
  · rw [if_neg hlast]
    obtain ⟨hper, hpos, htopics, htypes, hlen, hsent⟩ := hsending
    refine ⟨_, rfl, ⟨hper, hpos, htopics, htypes, hlen, hsent⟩, rfl, ?_, ?_⟩ <;>
      dsimp only <;> omega

theorem Sending.completes : ∃ rest, Completes n want (outputs ++ rest) := by
  have hfuel : want.length < c.mCurIndex + (want.length + 1) := by omega
  obtain ⟨replies, -, hsends⟩ := h.sendAll hleft hfuel
  exact ⟨replies ++ [.ended], outputs ++ replies, hsends, by rw [append_assoc]⟩

end

end

end SyncCommand

theorem create_eq {t : Transport} (h : r.Fits t) : ∃ c, SyncCommand.create t r = some c ∧
    c.Sending r.perMsg (wanted t.listeners r) [] ∧ c.mCurIndex = 0 := by
  obtain ⟨hper, hsource⟩ := h
  have htopics : t.getTopicsAndTypesForSource r.transportIndex r.source =
      some ⟨(wanted t.listeners r).map Prod.fst, (wanted t.listeners r).map Prod.snd⟩ := by
    unfold Transport.getTopicsAndTypesForSource
    rw [foldlM_topics hsource (by rw [numListeners_eq]; exact Nat.le_of_eq (Nat.zero_add _))]
    rfl
  rw [SyncCommand.create, htopics]
  dsimp only [bind_eq_bind, bind_some]
  rw [if_neg hper]
  refine ⟨_, rfl, ⟨rfl, ?_, rfl, rfl, length_map _, [], rfl, rfl, by simp⟩, rfl⟩
  refine Nat.one_le_iff_ne_zero.2 fun hzero => hper (UInt16.toNat_inj.1 hzero)

theorem create_fault {t : Transport} (h : ¬ r.Fits t) : SyncCommand.create t r = none := by
  unfold SyncCommand.create
  by_cases hper : r.topicsPerMsg.getD 0 = 0
  · cases t.getTopicsAndTypesForSource r.transportIndex r.source with
    | none => rfl
    | some c =>
      dsimp only [bind_eq_bind, bind_some]
      rw [if_pos hper]
      rfl
  have hmissing : ∃ l ∈ t.listeners, l.mTransportIndex = r.transportIndex ∧ l.getSource = none := by
    by_contra hall; exact h ⟨hper, fun l hl hindex hsource => hall ⟨l, hl, hindex, hsource⟩⟩
  obtain ⟨l, hl, hindex, hsource⟩ := hmissing
  have hfault : t.getTopicsAndTypesForSource r.transportIndex r.source = none :=
    foldlM_topics_fault hl hindex hsource _ _
  rw [hfault]
  rfl

/-- What a command has come to after its timer was due `due` times. -/
def Progress (t : Transport) (r : Request) (due : Nat) (outputs : List Output) :
    Option SyncCommand → Prop
  | none => Completes r.perMsg (wanted t.listeners r) outputs
  | some c => c.Sending r.perMsg (wanted t.listeners r) outputs ∧ c.mTimer ∧
      due ≤ c.mCurIndex ∧ c.mCurIndex < (wanted t.listeners r).length

theorem progress_run {t : Transport} (h : r.Fits t) : ∃ c result, SyncCommand.create t r = some c ∧
    c.run = some result ∧ Progress t r 0 result.2 result.1 := by
  obtain ⟨c, hcreate, hsending, hstart⟩ := create_eq h
  by_cases hnone : c.mTopicsLen = 0
  · refine ⟨c, _, hcreate, if_pos hnone, [], ?_, rfl⟩
    have hempty : wanted t.listeners r = [] :=
      List.length_eq_zero_iff.1 (hsending.length.symm.trans hnone)
    rw [hempty]
    exact ⟨[], rfl, rfl, by simp⟩
  have hleft : c.mCurIndex < (wanted t.listeners r).length := by
    rw [← hsending.length]; omega
  by_cases hdelay : (c.mMsg.responseDelay.getD 0.0 != 0.0) = true
  · obtain ⟨hper, hpos, htopics, htypes, hlen, hsent⟩ := hsending
    exact ⟨c, _, hcreate, (if_neg hnone).trans (if_pos hdelay),
      ⟨hper, hpos, htopics, htypes, hlen, hsent⟩, rfl, Nat.zero_le _, hleft⟩
  · obtain ⟨⟨after, replies⟩, hrun, hresult⟩ := hsending.timerCB hleft
    refine ⟨c, _, hcreate, ((if_neg hnone).trans (if_neg hdelay)).trans hrun, ?_⟩
    cases after with
    | none => exact hresult
    | some c' => exact ⟨hresult.1, hresult.2.1, Nat.zero_le _, hresult.2.2.2⟩

theorem Progress.timerCB {t : Transport} {due : Nat} {outputs : List Output} {c : SyncCommand}
    (h : Progress t r due outputs (some c)) :
    ∃ result, c.timerCB = some result ∧ Progress t r (due + 1) (outputs ++ result.2) result.1 := by
  obtain ⟨hsending, -, hdue, hleft⟩ := h
  obtain ⟨⟨after, replies⟩, hrun, hresult⟩ := hsending.timerCB hleft
  refine ⟨_, hrun, ?_⟩
  cases after with
  | none => exact hresult
  | some c' => exact ⟨hresult.1, hresult.2.1, by have := hresult.2.2.1; omega, hresult.2.2.2⟩

/-! ## The responder -/

namespace CmResponder

theorem record_self (s : CmResponder) (command : Nat) (result : Option SyncCommand × List Output) :
    (s.record command result).mPendingCommands command = result.1 ∧
      (s.record command result).outputs command = s.outputs command ++ result.2 :=
  ⟨update_self .., update_self ..⟩

theorem record_other (s : CmResponder) {command other : Nat} (h : other ≠ command)
    (result : Option SyncCommand × List Output) :
    (s.record command result).mPendingCommands other = s.mPendingCommands other ∧
      (s.record command result).outputs other = s.outputs other :=
  ⟨update_of_ne h .., update_of_ne h ..⟩

structure Follows (t : Transport) (es : List Event) (s : CmResponder) : Prop where
  requests : s.requests = commandAfter es
  fresh : ∀ command, s.requests ≤ command →
    s.mPendingCommands command = none ∧ s.outputs command = []
  pending : ∀ command c, s.mPendingCommands command = some c →
    ∃ r due outputs, Progress t r due outputs (some c)
  commands : ∀ pre r suf, es = pre ++ .msgCB r :: suf →
    Progress t r (suf.countP (Event.isTimerCB (commandAfter pre))) (s.outputs (commandAfter pre))
      (s.mPendingCommands (commandAfter pre))

theorem follows_new (t : Transport) : Follows t [] new where
  requests := rfl
  fresh _ _ := ⟨rfl, rfl⟩
  pending _ _ h := absurd h.symm (some_ne_none _)
  commands pre _ _ hsplit := absurd hsplit.symm
    (append_ne_nil_of_right_ne_nil pre (cons_ne_nil _ _))

theorem commandAfter_append (es fs : List Event) :
    commandAfter (es ++ fs) = commandAfter es + commandAfter fs := countP_append

theorem commandAfter_lt {es pre suf : List Event} (h : es = pre ++ .msgCB r :: suf) :
    commandAfter pre < commandAfter es := by
  have hcons : commandAfter (.msgCB r :: suf) = commandAfter suf + 1 :=
    countP_cons_of_pos rfl
  rw [h, commandAfter_append]
  omega

theorem split_concat {es pre suf : List Event} {e : Event}
    (h : es ++ [e] = pre ++ .msgCB r :: suf) :
    (∃ suf', es = pre ++ .msgCB r :: suf' ∧ suf = suf' ++ [e]) ∨
      (e = .msgCB r ∧ pre = es ∧ suf = []) := by
  rcases eq_nil_or_concat suf with rfl | ⟨suf', last, rfl⟩
  · obtain ⟨rfl, hlast⟩ := append_inj' h rfl
    exact .inr ⟨(List.cons.inj hlast).1, rfl, rfl⟩
  · rw [concat_eq_append, ← cons_append, ← append_assoc] at h
    obtain ⟨rfl, hlast⟩ := append_inj' h rfl
    obtain ⟨rfl, -⟩ := List.cons.inj hlast
    exact .inl ⟨suf', rfl, concat_eq_append⟩

variable {t : Transport} {es : List Event} {s : CmResponder}

theorem Follows.msgCB (h : Follows t es s) (hfits : r.Fits t) :
    ∃ s', s.step t (.msgCB r) = some s' ∧ Follows t (es ++ [.msgCB r]) s' := by
  obtain ⟨hrequests, hfresh, hpending, hcommands⟩ := h
  obtain ⟨c, result, hcreate, hrun, hprogress⟩ := progress_run hfits
  have hnew := hfresh s.requests (Nat.le_refl _)
  have hcount : commandAfter (es ++ [.msgCB r]) = commandAfter es + 1 := commandAfter_append es _
  have hself := record_self { s with requests := s.requests + 1 } s.requests result
  have hother := fun {other : Nat} (hne : other ≠ s.requests) =>
    record_other { s with requests := s.requests + 1 } hne result
  refine ⟨{ s with requests := s.requests + 1 }.record s.requests result, ?_, ?_, ?_, ?_, ?_⟩
  · simp [step, hcreate, hrun]
  · show s.requests + 1 = _
    rw [hcount, hrequests]
  · intro command hcommand
    have hlt : s.requests + 1 ≤ command := hcommand
    have hne : command ≠ s.requests := by omega
    rw [(hother hne).1, (hother hne).2]
    exact hfresh command (by omega)
  · intro command c' hc'
    by_cases hsame : command = s.requests
    · rw [hsame, hself.1] at hc'; exact ⟨r, 0, result.2, hc' ▸ hprogress⟩
    · rw [(hother hsame).1] at hc'; exact hpending command c' hc'
  intro pre r' suf hsplit
  rcases split_concat hsplit with ⟨suf', hes, rfl⟩ | ⟨hr, rfl, rfl⟩
  · have hne : commandAfter pre ≠ s.requests := by
      have hlt := commandAfter_lt hes
      omega
    rw [(hother hne).1, (hother hne).2, countP_append]
    exact hcommands pre r' suf' hes
  · obtain rfl : r = r' := by injection hr
    rw [← hrequests, hself.1, hself.2]
    rwa [hnew.2]

theorem Follows.timerCB (h : Follows t es s) (command : Nat) :
    ∃ s', s.step t (.timerCB command) = some s' ∧ Follows t (es ++ [.timerCB command]) s' := by
  obtain ⟨hrequests, hfresh, hpending, hcommands⟩ := h
  have hcount : commandAfter (es ++ [.timerCB command]) = commandAfter es :=
    commandAfter_append es _
  have hearlier : ∀ {pre r suf}, es ++ [.timerCB command] = pre ++ .msgCB r :: suf →
      ∃ suf', es = pre ++ .msgCB r :: suf' ∧ suf = suf' ++ [.timerCB command] := by
    intro pre r suf hsplit
    rcases split_concat hsplit with hearlier | ⟨hr, -, -⟩
    · exact hearlier
    · cases hr
  have hdue : ∀ pre : List Event, ([.timerCB command] : List Event).countP
      (Event.isTimerCB (commandAfter pre)) = if command = commandAfter pre then 1 else 0 := by
    intro pre
    by_cases hsame : command = commandAfter pre
    · rw [if_pos hsame]; exact countP_cons_of_pos (decide_eq_true hsame)
    · rw [if_neg hsame]; exact countP_cons_of_neg (by simpa [Event.isTimerCB] using hsame)
  cases hcommand : s.mPendingCommands command with
  | none =>
    refine ⟨s, by simp [step, hcommand], hrequests.trans hcount.symm, hfresh, hpending,
      fun pre r suf hsplit => ?_⟩
    obtain ⟨suf', hes, rfl⟩ := hearlier hsplit
    have hprogress := hcommands pre r suf' hes
    rw [countP_append, hdue]
    by_cases hsame : command = commandAfter pre
    · rw [← hsame, hcommand] at hprogress ⊢; exact hprogress
    · rwa [if_neg hsame]
  | some c =>
    obtain ⟨r₀, due₀, outputs₀, hprogress₀⟩ := hpending command c hcommand
    obtain ⟨result, hrun, hnext₀⟩ := hprogress₀.timerCB
    have hself := record_self s command result
    have hother := fun {other : Nat} (hne : other ≠ command) => record_other s hne result
    refine ⟨s.record command result, ?_, hrequests.trans hcount.symm, ?_, ?_, ?_⟩
    · simp [step, hcommand, hprogress₀.2.1, hrun]
    · intro other hge
      have hne : other ≠ command := by
        rintro rfl
        have hnone := (hfresh other hge).1
        rw [hcommand] at hnone
        cases hnone
      rw [(hother hne).1, (hother hne).2]
      exact hfresh other hge
    · intro other c' hc'
      by_cases hsame : other = command
      · rw [hsame, hself.1] at hc'; exact ⟨r₀, due₀ + 1, _, hc' ▸ hnext₀⟩
      · rw [(hother hsame).1] at hc'; exact hpending other c' hc'
    intro pre r suf hsplit
    obtain ⟨suf', hes, rfl⟩ := hearlier hsplit
    have hprogress := hcommands pre r suf' hes
    rw [countP_append, hdue]
    by_cases hsame : command = commandAfter pre
    · rw [← hsame, hcommand] at hprogress
      obtain ⟨result', hrun', hnext⟩ := hprogress.timerCB
      cases hrun.symm.trans hrun'
      rwa [if_pos hsame, ← hsame, hself.1, hself.2]
    · rwa [if_neg hsame, (hother (Ne.symm hsame)).1, (hother (Ne.symm hsame)).2]

theorem follows_run (hfits : ∀ r, .msgCB r ∈ es → r.Fits t) :
    ∃ s, es.foldlM (step t) new = some s ∧ Follows t es s := by
  induction es using List.reverseRecOn with
  | nil => exact ⟨new, rfl, follows_new t⟩
  | append_singleton es e ih =>
    obtain ⟨s, hrun, hfollows⟩ := ih fun r hr => hfits r (mem_append_left _ hr)
    have hstep : ∃ s', s.step t e = some s' ∧ Follows t (es ++ [e]) s' := by
      cases e with
      | msgCB r => exact hfollows.msgCB (hfits r (mem_append_right _ mem_cons_self))
      | timerCB command => exact hfollows.timerCB command
    obtain ⟨s', hs', hfollows'⟩ := hstep
    refine ⟨s', ?_, hfollows'⟩
    rw [foldlM_append, hrun]
    show [e].foldlM (step t) s = _
    rw [foldlM_cons, hs']
    rfl

/-- **The responder serves its requests** just if they all fit. -/
theorem served_iff (t : Transport) (es : List Event) :
    Served t es ↔ ∀ r, .msgCB r ∈ es → r.Fits t := by
  constructor
  · rintro ⟨s, hrun, -⟩ r hr
    by_contra hnot
    obtain ⟨pre, suf, rfl⟩ := append_of_mem hr
    rw [foldlM_append] at hrun
    obtain ⟨s₁, -, hrun⟩ := bind_eq_some_iff.1 hrun
    obtain ⟨s₂, hstep, -⟩ := bind_eq_some_iff.1 hrun
    simp [step, create_fault hnot] at hstep
  intro hfits
  obtain ⟨s, hrun, hfollows⟩ := follows_run hfits
  refine ⟨s, hrun, fun pre r suf hsplit => ?_⟩
  have hprogress := hfollows.commands pre r suf hsplit
  cases hcommand : s.mPendingCommands (commandAfter pre) with
  | none =>
    rw [hcommand] at hprogress; exact ⟨[], by rw [append_nil]; exact hprogress, fun _ => rfl⟩
  | some c =>
    rw [hcommand] at hprogress
    obtain ⟨hsending, -, hdue, hleft⟩ := hprogress
    obtain ⟨rest, hcompletes⟩ := hsending.completes hleft
    exact ⟨rest, hcompletes, fun hmany => absurd hmany (by omega)⟩

/-! ### Requests that do not fit -/

def sourceless : Transport := ⟨[⟨0, .normal, none, some "MSFT"⟩], none⟩

/-- A request that says nothing of the number of topics, and one that meets a listener without a
source. -/
theorem not_served : ¬ Served ⟨[], none⟩ [.msgCB ⟨0, none, none, none, none⟩] ∧
    ¬ Served sourceless [.msgCB ⟨0, none, some 10, none, none⟩] := by
  constructor
  · rintro ⟨s, hrun, -⟩; cases hrun
  · rintro ⟨s, hrun, -⟩; cases hrun

end CmResponder

end Sync

end Mama

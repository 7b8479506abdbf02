import Mathlib.Data.List.TakeWhile
import Mathlib.Data.Set.List
import OpenMama.Qpid.EndpointRelation
import OpenMama.Qpid.InboundFan

/-!
# Runs of the inbound path

The bridge follows the fan-out as long as the steps meet their conditions: the endpoint pool has the
subscriptions that are there (`Members`), each queue has the nodes that carry what waits in it
(`Held`), and the dispatch thread has the rest of the subscriptions of its message
(`ThreadFollows`).  So in a run whose steps all meet them everything is as it should be
(`correct_of_meets`).
-/

namespace Mama

open List Function

namespace Qpid

variable {K F : Type}

/-! ## Following -/

def QpidSubscription.fanSub (s : QpidSubscription K) : FanSub K :=
  ⟨s.mSubjectKey, s.mMamaQueue, s.mIsNotMuted⟩

/-- The endpoint pool has the subscriptions that are there, each under its subject. -/
structure Members [DecidableEq K] (q : Settings K) (endpoints : EndpointPool K Nat)
    (subscriptions : Nat → Option (QpidSubscription K)) (created : Nat)
    (subs : Nat → Option (FanSub K)) : Prop where
  endpoints : ∃ R known, Represents q.platform endpoints R known ∧
    (∀ subject id data, R subject id = some data ↔ ∃ i s, subscriptions i = some s ∧
      s.mSubjectKey = subject ∧ id = q.platform.printed i ∧ data = some i) ∧
    ∀ i s, subscriptions i = some s → s.mSubjectKey ∈ known
  created : ∀ i, created ≤ i → subscriptions i = none
  identifier : ∀ i s, subscriptions i = some s → s.mEndpointIdentifier = q.platform.printed i
  subs : ∀ i, subs i = (subscriptions i).map QpidSubscription.fanSub

def Carries (p : MsgPool K F) (n : Nat) (d : Nat × PnMessage K F) : Prop :=
  (p.nodes n).mQpidSubscription = some d.1 ∧ (p.nodes n).mMsg.body = d.2.body ∧
    (p.nodes n).mMsg.properties = d.2.properties

/-- The open nodes are those in the queues, each once, and that of the dispatch thread. -/
structure Held (p : MsgPool K F) (queues : Nat → List Nat) (node : Option Nat)
    (waiting : Nat → List (Nat × PnMessage K F)) : Prop where
  lists : ∃ free opened, p.Lists free opened ∧
    ∀ n, n ∈ opened ↔ (∃ k, n ∈ queues k) ∨ node = some n
  once : ∀ k, (queues k).Nodup
  apart : ∀ k k' n, n ∈ queues k → n ∈ queues k' → k = k'
  offThread : ∀ k n, n ∈ queues k → node ≠ some n
  carries : ∀ k, List.Forall₂ (Carries p) (queues k) (waiting k)

def ThreadFollows (p : MsgPool K F) (thread : DispatchThread K)
    (current : Option (PnMessage K F × List Nat)) (stopped : Bool) : Prop :=
  match thread with
  | .receiving => current = none ∧ stopped = false
  | .returned => current = none ∧ stopped
  | .fanning msgNode subs subInc => stopped = false ∧ subInc < subs.count ∧
      ∃ m ids, current = some (m, ids) ∧ (p.nodes msgNode).mMsg = m ∧
        ids.map (fun i => some (.closure i)) = subs.elements.drop subInc

structure Follows [DecidableEq K] (q : Settings K) (b : TransportBridge K F) (f : Fan K F) :
    Prop where
  members : Members q b.mSubEndpoints b.subscriptions b.created f.subs
  created : f.created = b.created
  held : Held b.mQpidMsgPool b.queues b.thread.node f.queues
  thread : ThreadFollows b.mQpidMsgPool b.thread f.current f.stopped

/-! ## The subscriptions -/

section Members

variable [DecidableEq K] {q : Settings K} {endpoints : EndpointPool K Nat}
  {subscriptions : Nat → Option (QpidSubscription K)} {created : Nat}
  {subs : Nat → Option (FanSub K)}

section

variable (h : Members q endpoints subscriptions created subs)

include h

theorem Members.modify {i : Nat}
    {subscriptions' : Nat → Option (QpidSubscription K)} {subs' : Nat → Option (FanSub K)}
    (hsame : ∀ j, j ≠ i → subscriptions' j = subscriptions j ∧ subs' j = subs j)
    (hflags : subscriptions' i = none ∧ subscriptions i = none ∨ ∃ s s', subscriptions i = some s ∧
      subscriptions' i = some s' ∧ s'.mSubjectKey = s.mSubjectKey ∧
      s'.mEndpointIdentifier = s.mEndpointIdentifier)
    (hsub : subs' i = (subscriptions' i).map QpidSubscription.fanSub) :
    Members q endpoints subscriptions' created subs' := by
  -- a subscription that is there afterwards was there before, and the other way round
  have hold : ∀ j s', subscriptions' j = some s' → ∃ s, subscriptions j = some s ∧
      s'.mSubjectKey = s.mSubjectKey ∧ s'.mEndpointIdentifier = s.mEndpointIdentifier := by
    intro j s' hs'
    by_cases hj : j = i
    · subst hj
      rcases hflags with ⟨hnone, -⟩ | ⟨s, s'', hs, hs'', hkeys⟩
      · rw [hnone] at hs'; cases hs'
      · cases hs''.symm.trans hs'; exact ⟨s, hs, hkeys⟩
    · exact ⟨s', (hsame j hj).1 ▸ hs', rfl, rfl⟩
  have hnew : ∀ j s, subscriptions j = some s → ∃ s', subscriptions' j = some s' ∧
      s'.mSubjectKey = s.mSubjectKey := by
    intro j s hs
    by_cases hj : j = i
    · subst hj
      rcases hflags with ⟨-, hnone⟩ | ⟨s'', s', hs'', hs', hkeys⟩
      · rw [hnone] at hs; cases hs
      · cases hs''.symm.trans hs; exact ⟨s', hs', hkeys.1⟩
    · exact ⟨s, (hsame j hj).1.trans hs, rfl⟩
  obtain ⟨R, known, hrep, hR, hknown⟩ := h.endpoints
  refine ⟨⟨R, known, hrep, fun subject id data => ?_, fun j s' hs' => ?_⟩, fun j hj => ?_,
    fun j s' hs' => ?_, fun j => ?_⟩
  · rw [hR]
    constructor
    · rintro ⟨j, s, hs, hkey, hid, hdata⟩
      obtain ⟨s', hs', hkey'⟩ := hnew j s hs
      exact ⟨j, s', hs', hkey'.trans hkey, hid, hdata⟩
    · rintro ⟨j, s', hs', hkey, hid, hdata⟩
      obtain ⟨s, hs, hkey', -⟩ := hold j s' hs'
      exact ⟨j, s, hs, hkey'.symm.trans hkey, hid, hdata⟩
  · obtain ⟨s, hs, hkey, -⟩ := hold j s' hs'
    rw [hkey]
    exact hknown j s hs
  · cases hs' : subscriptions' j with
    | none => rfl
    | some s' =>
      obtain ⟨s, hs, -⟩ := hold j s' hs'
      rw [h.created j hj] at hs
      cases hs
  · obtain ⟨s, hs, -, hid⟩ := hold j s' hs'
    rw [hid]
    exact h.identifier j s hs
  · by_cases hj : j = i
    · rw [hj, hsub]
    · rw [(hsame j hj).1, (hsame j hj).2, h.subs]

theorem Members.create (subject : K)
    (queue : Nat) :
    ∃ endpoints', endpoints.registerWithoutIdentifier q.platform.hash q.platform.printed subject
        (some created) = some (endpoints', some (q.platform.printed created)) ∧
      Members q endpoints' (Function.update subscriptions created
          (some ⟨queue, subject, q.platform.printed created, true, true⟩)) (created + 1)
        (Function.update subs created (some ⟨subject, queue, true⟩)) := by
  obtain ⟨R, known, hrep, hR, hknown⟩ := h.endpoints
  obtain ⟨endpoints', hrun, hrep'⟩ :=
    hrep.registerWithIdentifier subject (q.platform.printed created) (some created)
  have habsent : subscriptions created = none := h.created created (Nat.le_refl _)
  have hfree : ∀ other, R other (q.platform.printed created) = none := by
    intro other
    cases hentry : R other (q.platform.printed created) with
    | none => rfl
    | some data =>
      obtain ⟨i, s, hs, -, hid, -⟩ := (hR _ _ _).1 hentry
      rw [← q.printed_injective hid, habsent] at hs
      cases hs
  have hwritten : R.written subject (q.platform.printed created) (some created) =
      Function.update R subject
        (Function.update (R subject) (q.platform.printed created) (some (some created))) := by
    rw [Relation.written, hfree]
    rfl
  rw [hwritten] at hrep'
  refine ⟨endpoints', ?_, ⟨_, _, hrep', fun other id data => ?_, fun i s hs => ?_⟩, fun i hi => ?_,
    fun i s hs => ?_, fun i => ?_⟩
  · simp [EndpointPool.registerWithoutIdentifier, hrun]
  · by_cases hid : id = q.platform.printed created
    · subst hid
      by_cases hother : other = subject
      · subst hother
        rw [update_self, update_self]
        constructor
        · intro hdata; exact ⟨created, _, update_self .., rfl, rfl, (Option.some.inj hdata).symm⟩
        · rintro ⟨i, s, hs, hkey, hid, hdata⟩
          rw [hdata, ← q.printed_injective hid]
      rw [update_of_ne hother, hfree]
      constructor
      · intro hdata; cases hdata
      · rintro ⟨i, s, hs, hkey, hid, hdata⟩
        rw [← q.printed_injective hid, update_self, Option.some.injEq] at hs
        rw [← hs] at hkey
        exact absurd hkey.symm hother
    have hentry : Function.update R subject (Function.update (R subject)
        (q.platform.printed created) (some (some created))) other id = R other id := by
      by_cases hother : other = subject
      · rw [hother, update_self, update_of_ne hid]
      · rw [update_of_ne hother]
    rw [hentry, hR]
    constructor
    · rintro ⟨i, s, hs, hkey, hi, hdata⟩
      have hne : i ≠ created := fun heq => hid (heq ▸ hi)
      exact ⟨i, s, (update_of_ne hne ..).trans hs, hkey, hi, hdata⟩
    · rintro ⟨i, s, hs, hkey, hi, hdata⟩
      have hne : i ≠ created := fun heq => hid (heq ▸ hi)
      rw [update_of_ne hne] at hs
      exact ⟨i, s, hs, hkey, hi, hdata⟩
  · by_cases hi : i = created
    · rw [hi, update_self, Option.some.injEq] at hs
      rw [← hs]
      exact mem_cons_self
    · rw [update_of_ne hi] at hs; exact mem_cons_of_mem _ (hknown i s hs)
  · rw [update_of_ne (by omega)]; exact h.created i (by omega)
  · by_cases hi : i = created
    · rw [hi, update_self, Option.some.injEq] at hs
      rw [← hs, hi]
    · rw [update_of_ne hi] at hs; exact h.identifier i s hs
  · by_cases hi : i = created
    · rw [hi, update_self, update_self]; rfl
    · rw [update_of_ne hi, update_of_ne hi]; exact h.subs i

theorem Members.destroy {i : Nat}
    {s : QpidSubscription K} (hs : subscriptions i = some s) :
    ∃ endpoints', endpoints.unregister q.platform.hash s.mSubjectKey s.mEndpointIdentifier =
        some endpoints' ∧
      Members q endpoints' (Function.update subscriptions i none) created
        (Function.update subs i none) := by
  obtain ⟨R, known, hrep, hR, hknown⟩ := h.endpoints
  obtain ⟨endpoints', hrun, hrep'⟩ := hrep.unregister s.mSubjectKey s.mEndpointIdentifier
  have hid := h.identifier i s hs
  refine ⟨endpoints', hrun, ⟨_, known, hrep', fun subject id data => ?_, fun j s' hs' => ?_⟩,
    fun j hj => ?_, fun j s' hs' => ?_, fun j => ?_⟩
  · have hback : (∃ j s', Function.update subscriptions i none j = some s' ∧
        s'.mSubjectKey = subject ∧ id = q.platform.printed j ∧ data = some j) ↔
        R subject id = some data ∧ id ≠ q.platform.printed i := by
      rw [hR]
      constructor
      · rintro ⟨j, s', hs', hkey, hj, hdata⟩
        have hne : j ≠ i := by
          rintro rfl
          rw [update_self] at hs'
          cases hs'
        rw [update_of_ne hne] at hs'
        refine ⟨⟨j, s', hs', hkey, hj, hdata⟩, fun heq => hne ?_⟩
        exact q.printed_injective (hj.symm.trans heq)
      · rintro ⟨⟨j, s', hs', hkey, hj, hdata⟩, hne⟩
        have hji : j ≠ i := fun heq => hne (heq ▸ hj)
        exact ⟨j, s', (update_of_ne hji ..).trans hs', hkey, hj, hdata⟩
    rw [hback]
    unfold Relation.unregister
    by_cases hsubject : subject = s.mSubjectKey
    · rw [hsubject, update_self, hid]
      by_cases hsame : id = q.platform.printed i
      · simp [hsame]
      · rw [update_of_ne hsame]; simp [hsame]
    · rw [update_of_ne hsubject]
      refine ⟨fun hentry => ⟨hentry, fun hsame => hsubject ?_⟩, fun hentry => hentry.1⟩
      obtain ⟨j, s', hs', hkey, hj, -⟩ := (hR _ _ _).1 hentry
      obtain rfl := q.printed_injective (hsame.symm.trans hj)
      cases hs.symm.trans hs'
      exact hkey.symm
  · by_cases hj : j = i
    · rw [hj, update_self] at hs'; cases hs'
    · rw [update_of_ne hj] at hs'; exact hknown j s' hs'
  · by_cases hji : j = i
    · rw [hji, update_self]
    · rw [update_of_ne hji]; exact h.created j hj
  · by_cases hj : j = i
    · rw [hj, update_self] at hs'; cases hs'
    · rw [update_of_ne hj] at hs'; exact h.identifier j s' hs'
  · by_cases hj : j = i
    · rw [hj, update_self, update_self]; rfl
    · rw [update_of_ne hj, update_of_ne hj]; exact h.subs j

end

end Members

/-! ## The queries -/

variable {subject : K}
variable {D : Type}

section Queries

variable [DecidableEq K] {q : Settings K} {b : TransportBridge K F}
  {subs : Nat → Option (FanSub K)}

theorem Represents.mem_known_iff {q : Platform K D} {p : EndpointPool K D} {R : Relation K D}
    {known : List K} (h : Represents q p R known) (topic : K) :
    topic ∈ known ↔ (p.mContainer.lookup q.hash topic).join.isSome := by
  rcases h.table topic with ⟨hmem, hlookup, -⟩ | ⟨a, t, hmem, hlookup, -⟩
  · simp [hmem, hlookup]
  · simp [hmem, hlookup]

section

variable (h : Members q b.mSubEndpoints b.subscriptions b.created subs)

include h

/-- A subscription is taken for registered under a null subject and under one that has a table. -/
theorem Members.isRegisted {subject : Option K} (sub : Nat)
    (htable : match subject with
      | none => True
      | some subject => b.HasTable q subject) :
    ∃ n, b.isRegisted q subject sub = some n ∧ n ≠ 0 := by
  cases subject with
  | none => exact ⟨5, rfl, by decide⟩
  | some subject =>
    obtain ⟨R, known, hrep, -⟩ := h.endpoints
    obtain ⟨n, hrun, hzero⟩ := hrep.isRegistedByContent subject (some sub)
    exact ⟨n, hrun, fun hn => (hzero.1 hn).1 ((hrep.mem_known_iff subject).2 htable)⟩

variable {ids : List Nat}

theorem length_le_countUnder (hnodup : ids.Nodup)
    (hids : ∀ i ∈ ids, ∃ s, b.subscriptions i = some s ∧ s.mSubjectKey = subject) :
    ids.length ≤ b.countUnder subject := by
  rw [TransportBridge.countUnder, countP_eq_length_filter]
  refine (subperm_of_subset hnodup fun i hi => ?_).length_le
  obtain ⟨s, hs, hkey⟩ := hids i hi
  have hlt : i < b.created := by
    by_contra hge
    rw [h.created i (by omega)] at hs
    cases hs
  rw [mem_filter, mem_range]
  exact ⟨hlt, by simp [hs, hkey]⟩

theorem length_eq_countUnder (hnodup : ids.Nodup)
    (hids : ∀ i, i ∈ ids ↔ ∃ s, b.subscriptions i = some s ∧ s.mSubjectKey = subject) :
    ids.length = b.countUnder subject := by
  refine Nat.le_antisymm (length_le_countUnder h hnodup fun i hi => (hids i).1 hi) ?_
  rw [TransportBridge.countUnder, countP_eq_length_filter]
  refine (subperm_of_subset (nodup_range.filter _) fun i hi => ?_).length_le
  rw [mem_filter, Option.any_eq_true] at hi
  obtain ⟨-, s, hs, hkey⟩ := hi
  exact (hids i).2 ⟨s, hs, by simpa using hkey⟩

theorem Members.getRegistered (subject : K)
    (hfits : q.platform.word * b.countUnder subject ≤ EndpointPool.bufferChunkSize) :
    ∃ endpoints' registered, ∃ ids : List Nat,
      b.mSubEndpoints.getRegistered q.platform.hash q.platform.wide q.platform.word subject =
        some (endpoints', registered) ∧
      Members q endpoints' b.subscriptions b.created subs ∧ ids.Nodup ∧
      (∀ i, i ∈ ids ↔ ∃ s, b.subscriptions i = some s ∧ s.mSubjectKey = subject) ∧
      registered.elements = ids.map (fun i => some (.closure i)) ∧
      registered.count = ids.length := by
  obtain ⟨R, known, hrep, hR, hknown⟩ := h.endpoints
  -- the identifiers of a subject are what the addresses of its subscriptions print as
  have hnames : ∀ names : List K, (∀ name ∈ names, (R subject name).isSome) →
      ∃ ids : List Nat, names = ids.map q.platform.printed := by
    intro names hall
    have hrange : names ∈ Set.range (List.map q.platform.printed) := by
      rw [Set.range_list_map]
      intro name hname
      obtain ⟨data, hdata⟩ := Option.isSome_iff_exists.1 (hall name hname)
      obtain ⟨i, s, -, -, hid, -⟩ := (hR _ _ _).1 hdata
      exact ⟨i, hid.symm⟩
    obtain ⟨ids, hids⟩ := hrange
    exact ⟨ids, hids.symm⟩
  have hsome : ∀ i, (R subject (q.platform.printed i)).isSome ↔
      ∃ s, b.subscriptions i = some s ∧ s.mSubjectKey = subject := by
    intro i
    rw [Option.isSome_iff_exists]
    constructor
    · rintro ⟨data, hdata⟩
      obtain ⟨j, s, hs, hkey, hid, -⟩ := (hR _ _ _).1 hdata
      rw [q.printed_injective hid]
      exact ⟨s, hs, hkey⟩
    · rintro ⟨s, hs, hkey⟩; exact ⟨_, (hR _ _ _).2 ⟨i, s, hs, hkey, rfl, rfl⟩⟩
  have hroom : Call.Fits q.platform R known (.getRegistered subject) := by
    intro names hnodup hall
    obtain ⟨ids, rfl⟩ := hnames names hall
    rw [length_map]
    refine Nat.le_trans (Nat.mul_le_mul_left _ ?_) hfits
    refine length_le_countUnder h hnodup.of_map fun i hi => (hsome i).1 ?_
    exact hall _ (mem_map_of_mem hi)
  obtain ⟨endpoints', registered, hrun, hrep', names, hnodup, hall, helements⟩ :=
    (hrep.getRegistered subject).1 hroom
  obtain ⟨ids, rfl⟩ := hnames names fun name hname => (hall name).1 hname
  refine ⟨endpoints', registered, ids, hrun,
    ⟨⟨R, known, hrep', hR, hknown⟩, h.created, h.identifier, h.subs⟩, hnodup.of_map, fun i => ?_,
    ?_, ?_⟩
  · rw [← hsome, ← hall, mem_map_of_injective q.printed_injective]
  · rw [helements, map_map]
    refine map_congr_left fun i hi => ?_
    have hentry := (hall _).1 (mem_map_of_mem hi)
    obtain ⟨data, hdata⟩ := Option.isSome_iff_exists.1 hentry
    obtain ⟨j, s, hs, hkey, hid, hj⟩ := (hR _ _ _).1 hdata
    show some (R.endpoint subject (q.platform.printed i)) = some (.closure i)
    rw [Relation.endpoint, hdata, hj, q.printed_injective hid]
    rfl
  · have hlength := congrArg List.length helements
    simpa [EndpointPool.Registered.elements] using hlength

end

end Queries

/-! ## The nodes -/

section Held

variable {p p' : MsgPool K F} {queues : Nat → List Nat} {node node' : Option Nat}
  {waiting : Nat → List (Nat × PnMessage K F)} {free opened : List Nat} {n : Nat}
variable {d : Nat × PnMessage K F}

theorem Carries.congr (h : Carries p n d) (hsame : p.SameContents p' n) : Carries p' n d := by
  obtain ⟨hsub, hbody, hproperties⟩ := h
  exact ⟨hsame.2.2.trans hsub, (congrArg PnMessage.body hsame.1).trans hbody,
    (congrArg PnMessage.properties hsame.1).trans hproperties⟩

variable {ds : List (Nat × PnMessage K F)}

theorem forall₂_carries {nodes : List Nat} (h : List.Forall₂ (Carries p) nodes ds)
    (hsame : ∀ m ∈ nodes, p.SameContents p' m) : List.Forall₂ (Carries p') nodes ds := by
  induction h with
  | nil => exact .nil
  | cons hfirst _ ih =>
    exact .cons (hfirst.congr (hsame _ mem_cons_self))
      (ih fun m hm => hsame m (mem_cons_of_mem _ hm))

section

variable (h : Held p queues node waiting)

include h

theorem Held.of_lists (hlists : p'.Lists free opened)
    (hopened : ∀ m, m ∈ opened ↔ (∃ k, m ∈ queues k) ∨ node' = some m)
    (hoff : ∀ k m, m ∈ queues k → node' ≠ some m)
    (hsame : ∀ k m, m ∈ queues k → p.SameContents p' m) : Held p' queues node' waiting where
  lists := ⟨free, opened, hlists, hopened⟩
  once := h.once
  apart := h.apart
  offThread := hoff
  carries k := forall₂_carries (h.carries k) (hsame k)

theorem Held.push (k : Nat)
    (hopened : p'.Lists free opened ∧ ∀ m, m ∈ opened ↔ m = n ∨ (∃ k, m ∈ queues k) ∨
      node' = some m)
    (hfresh : ∀ k, n ∉ queues k) (hnode : node' ≠ some n)
    (hoff : ∀ k m, m ∈ queues k → node' ≠ some m)
    (hsame : ∀ k m, m ∈ queues k → p.SameContents p' m) (hcarries : Carries p' n d) :
    Held p' (Function.update queues k (queues k ++ [n])) node'
      (Function.update waiting k (waiting k ++ [d])) where
  lists := by
    refine ⟨free, opened, hopened.1, fun m => ?_⟩
    rw [hopened.2]
    constructor
    · rintro (rfl | ⟨j, hj⟩ | hm)
      · exact .inl ⟨k, by simp⟩
      · refine .inl ⟨j, ?_⟩
        by_cases hjk : j = k
        · subst hjk; simp [hj]
        · rwa [update_of_ne hjk]
      · exact .inr hm
    rintro (⟨j, hj⟩ | hm)
    · by_cases hjk : j = k
      · subst hjk
        rw [update_self, mem_append, mem_singleton] at hj
        exact hj.elim (fun hold => .inr (.inl ⟨j, hold⟩)) .inl
      · rw [update_of_ne hjk] at hj; exact .inr (.inl ⟨j, hj⟩)
    · exact .inr (.inr hm)
  once j := by
    by_cases hjk : j = k
    · subst hjk
      rw [update_self]
      exact nodup_append.2 ⟨h.once j, nodup_singleton n, fun a ha c hc hac => hfresh j (by
        rw [mem_singleton] at hc; rwa [← hc, ← hac])⟩
    · rw [update_of_ne hjk]; exact h.once j
  apart j j' m hj hj' := by
    have hback : ∀ i, m ∈ Function.update queues k (queues k ++ [n]) i →
        m ∈ queues i ∨ i = k ∧ m = n := by
      intro i hi
      by_cases hik : i = k
      · subst hik
        rw [update_self, mem_append, mem_singleton] at hi
        exact hi.elim .inl fun heq => .inr ⟨rfl, heq⟩
      · rw [update_of_ne hik] at hi; exact .inl hi
    rcases hback j hj with hold | ⟨rfl, rfl⟩
    · rcases hback j' hj' with hold' | ⟨rfl, rfl⟩
      · exact h.apart j j' m hold hold'
      · exact absurd hold (hfresh j)
    · rcases hback j' hj' with hold' | ⟨rfl, -⟩
      · exact absurd hold' (hfresh j')
      · rfl
  offThread j m hm := by
    by_cases hjk : j = k
    · subst hjk
      rw [update_self, mem_append, mem_singleton] at hm
      rcases hm with hm | rfl
      · exact hoff j m hm
      · exact hnode
    · rw [update_of_ne hjk] at hm; exact hoff j m hm
  carries j := by
    by_cases hjk : j = k
    · subst hjk
      rw [update_self, update_self]
      exact rel_append (forall₂_carries (h.carries j) (hsame j)) (.cons hcarries .nil)
    · rw [update_of_ne hjk, update_of_ne hjk]; exact forall₂_carries (h.carries j) (hsame j)

theorem Held.pop {k : Nat} {rest : List Nat} (hqueue : queues k = n :: rest)
    (hwaiting : waiting k = d :: ds) (hroom : p.mNumFree < p.mNumMsgs) :
    Held (p.releasePoolMsg n).1 (Function.update queues k rest) node
      (Function.update waiting k ds) ∧ (p.releasePoolMsg n).1.top = p.top ∧
      ∀ m, p.SameContents (p.releasePoolMsg n).1 m := by
  obtain ⟨free, opened, hlists, hopened⟩ := h.lists
  have hn : n ∈ opened := (hopened n).2 (.inl ⟨k, by rw [hqueue]; exact mem_cons_self⟩)
  have hrelease := hlists.releasePoolMsg hn
  rw [if_pos hroom] at hrelease
  obtain ⟨p', opened', hrun, hlists', hopened', hsame, htop, -⟩ := hrelease
  rw [hrun]
  have honce := h.once k
  rw [hqueue, nodup_cons] at honce
  have hnotMem : ∀ j, n ∉ Function.update queues k rest j := by
    intro j hj
    by_cases hjk : j = k
    · rw [hjk, update_self] at hj; exact honce.1 hj
    · rw [update_of_ne hjk] at hj
      exact hjk (h.apart j k n hj (by rw [hqueue]; exact mem_cons_self))
  have hsub : ∀ j m, m ∈ Function.update queues k rest j → m ∈ queues j := by
    intro j m hm
    by_cases hjk : j = k
    · subst hjk
      rw [update_self] at hm
      rw [hqueue]
      exact mem_cons_of_mem _ hm
    · rwa [update_of_ne hjk] at hm
  refine ⟨⟨⟨_, opened', hlists', fun m => ?_⟩, fun j => ?_, fun j j' m hj hj' => ?_,
    fun j m hm => ?_, fun j => ?_⟩, htop, hsame⟩
  · rw [hopened', hopened]
    constructor
    · rintro ⟨⟨j, hj⟩ | hm, hne⟩
      · refine .inl ⟨j, ?_⟩
        by_cases hjk : j = k
        · subst hjk
          rw [hqueue, mem_cons] at hj
          rw [update_self]
          exact hj.resolve_left hne
        · rwa [update_of_ne hjk]
      · exact .inr hm
    · rintro (⟨j, hj⟩ | hm)
      · exact ⟨.inl ⟨j, hsub j m hj⟩, fun heq => hnotMem j (heq ▸ hj)⟩
      · refine ⟨.inr hm, ?_⟩
        rintro rfl
        exact h.offThread k m (by rw [hqueue]; exact mem_cons_self) hm
  · by_cases hjk : j = k
    · rw [hjk, update_self]; exact honce.2
    · rw [update_of_ne hjk]; exact h.once j
  · exact h.apart j j' m (hsub j m hj) (hsub j' m hj')
  · exact h.offThread j m (hsub j m hm)
  have hcarries : List.Forall₂ (Carries p) (Function.update queues k rest j)
      (Function.update waiting k ds j) := by
    by_cases hjk : j = k
    · rw [hjk, update_self, update_self]
      have hall := h.carries k
      rw [hqueue, hwaiting] at hall
      exact (forall₂_cons.1 hall).2
    · rw [update_of_ne hjk, update_of_ne hjk]; exact h.carries j
  exact forall₂_carries hcarries fun m _ => hsame m

omit h in
theorem sameContents_modify (p : MsgPool K F) {f : MsgNode K F → MsgNode K F} {n m : Nat}
    (hm : m ≠ n) : p.SameContents (p.modify n f) m := by
  rw [MsgPool.SameContents, MsgPool.modify_of_ne f hm]
  exact ⟨rfl, rfl, rfl⟩

theorem Held.lt_top {m : Nat} (hm : (∃ k, m ∈ queues k) ∨ node = some m) : m < p.top := by
  obtain ⟨free, opened, hlists, hopened⟩ := h.lists
  exact (hlists.allocated m).1 (mem_append_right _ ((hopened m).2 hm))

end

variable {incSize : Nat}

theorem Held.receive (h : Held p queues none waiting) (hone : 1 ≤ incSize) (m : PnMessage K F) :
    ∃ q n, p.getPoolMsg incSize = some (q, n) ∧
    Held ((q.setMsg n m).setMsgType n m.msgType) queues (some n) waiting ∧
    (((q.setMsg n m).setMsgType n m.msgType).nodes n).mMsg = m ∧ (q.top ≠ p.top → p.mNumFree = 0) ∧
    q.mNumFree = (if p.mNumFree = 0 then incSize else p.mNumFree) - 1 ∧
    q.mNumMsgs = p.mNumMsgs := by
  obtain ⟨free, opened, hlists, hopened⟩ := h.lists
  obtain ⟨q, n, free', hrun, hlists', hfresh, hkeeps, htop, hnumFree⟩ := hlists.getPoolMsg hone
  have hopened' : ∀ m, m ∈ opened ↔ ∃ k, m ∈ queues k := by
    intro m
    rw [hopened m]
    simp
  have hne : ∀ k j, j ∈ queues k → j ≠ n := by
    rintro k j hj rfl; exact hfresh ((hopened' j).2 ⟨k, hj⟩)
  have hset := (hlists'.modify (n := n) (f := fun node => { node with mMsg := m })
    fun _ => ⟨rfl, rfl⟩).modify (n := n) (f := fun node => { node with mMsgType := m.msgType })
    fun _ => ⟨rfl, rfl⟩
  refine ⟨q, n, hrun, h.of_lists hset (fun j => ?_) (fun k j hj => ?_) fun k j hj => ?_, ?_, htop,
    hnumFree, hkeeps.numMsgs⟩
  · rw [mem_cons, hopened', Option.some.injEq]
    exact ⟨fun hor => hor.symm.imp id Eq.symm, fun hor => hor.symm.imp Eq.symm id⟩
  · rw [ne_eq, Option.some.injEq]; exact fun heq => hne k j hj heq.symm
  · exact (hkeeps.contents j (h.lt_top (.inl ⟨k, hj⟩))).trans
      ((sameContents_modify q (hne k j hj)).trans (sameContents_modify _ (hne k j hj)))
  · rw [MsgPool.setMsgType, MsgPool.setMsg, MsgPool.modify_self, MsgPool.modify_self]

theorem Held.discard (h : Held p queues (some n) waiting) (hroom : p.mNumFree < p.mNumMsgs) :
    Held (p.releasePoolMsg n).1 queues none waiting ∧ (p.releasePoolMsg n).1.top = p.top := by
  obtain ⟨free, opened, hlists, hopened⟩ := h.lists
  have hrelease := hlists.releasePoolMsg ((hopened n).2 (.inr rfl))
  rw [if_pos hroom] at hrelease
  obtain ⟨p', opened', hrun, hlists', hopened', hsame, htop, -⟩ := hrelease
  rw [hrun]
  refine ⟨h.of_lists hlists' (fun m => ?_) (fun _ _ _ => by simp) fun _ m _ => hsame m, htop⟩
  rw [hopened', hopened]
  constructor
  · rintro ⟨hm | hm, hne⟩
    · exact .inl hm
    · exact absurd (Option.some.inj hm).symm hne
  · rintro (⟨k, hm⟩ | hm)
    · refine ⟨.inl ⟨k, hm⟩, ?_⟩
      rintro rfl
      exact h.offThread k m hm rfl
    · cases hm

theorem Held.copy {msgNode : Nat} (h : Held p queues (some msgNode) waiting) (hone : 1 ≤ incSize)
    (k sub : Nat) : ∃ q n, p.getPoolMsg incSize = some (q, n) ∧
      Held (TransportBridge.copyNode q msgNode n sub)
        (Function.update queues k (queues k ++ [n])) (some msgNode)
        (Function.update waiting k (waiting k ++ [(sub, (p.nodes msgNode).mMsg)])) ∧
      ((TransportBridge.copyNode q msgNode n sub).nodes msgNode).mMsg = (p.nodes msgNode).mMsg ∧
      (q.top ≠ p.top → p.mNumFree = 0) := by
  obtain ⟨free, opened, hlists, hopened⟩ := h.lists
  obtain ⟨q, n, free', hrun, hlists', hfresh, hkeeps, htop, -⟩ := hlists.getPoolMsg hone
  have hne : ∀ j, ((∃ k, j ∈ queues k) ∨ some msgNode = some j) → j ≠ n := by
    rintro j hj rfl; exact hfresh ((hopened j).2 hj)
  have hmsgNode : msgNode ≠ n := hne msgNode (.inr rfl)
  have hset := hlists'.modify (n := n) (f := fun node =>
    { node with
      mMsgType := (q.nodes msgNode).mMsgType
      mQpidSubscription := some sub
      mMsg := { node.mMsg with
        body := (q.nodes msgNode).mMsg.body
        properties := (q.nodes msgNode).mMsg.properties } }) fun _ => ⟨rfl, rfl⟩
  have hmsg := hkeeps.contents msgNode (h.lt_top (.inr rfl))
  have hsame : ∀ j, ((∃ k, j ∈ queues k) ∨ some msgNode = some j) →
      p.SameContents (TransportBridge.copyNode q msgNode n sub) j := fun j hj =>
    (hkeeps.contents j (h.lt_top hj)).trans (sameContents_modify q (hne j hj))
  have hbody := congrArg PnMessage.body hmsg.1
  have hproperties := congrArg PnMessage.properties hmsg.1
  refine ⟨q, n, hrun, h.push k ⟨hset, fun j => ?_⟩ (fun j hj => hne n (.inl ⟨j, hj⟩) rfl)
    (fun heq => hmsgNode (Option.some.inj heq)) h.offThread (fun j m hj => hsame m (.inl ⟨j, hj⟩))
    ⟨?_, ?_, ?_⟩, (hsame msgNode (.inr rfl)).1, htop⟩
  · rw [mem_cons, hopened]
  · rw [TransportBridge.copyNode, MsgPool.modify_self]
  · rwa [TransportBridge.copyNode, MsgPool.modify_self]
  · rwa [TransportBridge.copyNode, MsgPool.modify_self]

theorem Held.last (h : Held p queues (some n) waiting) (k sub : Nat) :
    Held (p.setSubscription n sub) (Function.update queues k (queues k ++ [n])) none
      (Function.update waiting k (waiting k ++ [(sub, (p.nodes n).mMsg)])) := by
  obtain ⟨free, opened, hlists, hopened⟩ := h.lists
  have hset := hlists.modify (n := n) (f := fun node => { node with mQpidSubscription := some sub })
    fun _ => ⟨rfl, rfl⟩
  have hne : ∀ k j, j ∈ queues k → j ≠ n := by
    rintro k j hj rfl; exact h.offThread k j hj rfl
  refine h.push k ⟨hset, fun j => ?_⟩ (fun j hj => hne j n hj rfl) (by simp) (fun _ _ _ => by simp)
    (fun j m hj => sameContents_modify p (hne j m hj)) ⟨?_, ?_, ?_⟩
  · rw [hopened, Option.some.injEq]
    constructor
    · rintro (hj | hj)
      · exact .inr (.inl hj)
      · exact .inl hj.symm
    · rintro (hj | hj | hj)
      · exact .inr hj.symm
      · exact .inl hj
      · cases hj
  all_goals
    rw [MsgPool.setSubscription, MsgPool.modify_self]

end Held

/-! ## Unpacking -/

section Unpacking

variable {accepts : List UInt8 → Bool} {m m' : PnMessage K F}

theorem setStringValue_of_storable {s : List UInt8} (h : Storable s) :
    setStringValue s = (s, true) := by
  have hall : s.takeWhile (· ≠ 0) = s := by
    refine takeWhile_eq_self_iff.2 fun c hc => ?_
    have hne : c ≠ 0 := fun heq => h.1 (heq ▸ hc)
    simpa using hne
  rw [setStringValue, hall]
  rw [if_pos h.2]

theorem unpackProperties_of_storable (target : MamaMsg) {metadata : Metadata}
    (hmetadata : m.metadata = some metadata) (hstorable : metadata.Storable)
    (nodes : Nat → MsgNode K F) : ∃ tmp, unpackProperties target m = some (tmp, true) ∧
    tmp.mPayload = target.mPayload ∧ (tmp.received nodes).metadata = metadata := by
  unfold PnMessage.metadata at hmetadata
  unfold unpackProperties
  cases htype : m.msgType with
  | inboxRequest =>
    split at hmetadata
    · rename_i heq hproperties
      cases hmetadata
      obtain ⟨hinbox, hreply⟩ := hstorable
      rw [hproperties]
      simp [nextIndex, Atom.getString, setStringValue_of_storable hinbox,
        setStringValue_of_storable hreply, MamaMsg.received]
    · cases hmetadata
    all_goals simp_all
  | inboxResponse =>
    split at hmetadata
    · simp_all
    · cases hmetadata
    · rename_i heq hproperties
      cases hmetadata
      have htarget : Storable _ := hstorable
      rw [hproperties]
      simp [nextIndex, Atom.getString, setStringValue_of_storable htarget, MamaMsg.received]
    · cases hmetadata
    · simp_all
  | pubSub | subRequest | terminate | other =>
    rw [htype] at hmetadata
    cases hmetadata
    exact ⟨_, rfl, rfl, rfl⟩

theorem unpack_of_unpacks (target : MamaMsg) {p : MsgPool K F} {node : Nat}
    (h : (p.nodes node).mMsg.Unpacks accepts) :
    ∃ tmp, unpack accepts target node (p.nodes node).mMsg = some (tmp, true) ∧
      (p.nodes node).mMsg.content = some (tmp.received p.nodes) := by
  obtain ⟨hbody, hmetadata⟩ := h
  unfold unpack PnMessage.content PnMessage.payload
  cases hmeta : (p.nodes node).mMsg.metadata with
  | none => rw [hmeta] at hmetadata; exact hmetadata.elim
  | some metadata =>
    rw [hmeta] at hmetadata
    cases hatom : (p.nodes node).mMsg.body with
    | list f =>
      obtain ⟨tmp, hrun, hpayload, hown⟩ := unpackProperties_of_storable
        { target with mPayload := some (.protonMessage node) } hmeta hmetadata p.nodes
      refine ⟨tmp, hrun, congrArg some (?_ : (⟨_, _⟩ : Received F) = _)⟩
      have hreceived : (tmp.received p.nodes).payload = some (.fields f) := by
        show tmp.mPayload.bind (Buffer.read p.nodes) = _
        rw [hpayload]
        show Buffer.read p.nodes (.protonMessage node) = _
        simp only [Buffer.read, hatom]
      rw [← hown, ← hreceived]
    | binary bytes =>
      rw [hatom] at hbody
      obtain ⟨tmp, hrun, hpayload, hown⟩ := unpackProperties_of_storable
        { target with mPayload := some (.bytes bytes) } hmeta hmetadata p.nodes
      refine ⟨tmp, ?_, congrArg some (?_ : (⟨_, _⟩ : Received F) = _)⟩
      · dsimp only
        rwa [if_neg hbody.1, if_pos hbody.2]
      · have hreceived : (tmp.received p.nodes).payload = some (.bytes bytes) := by
          show tmp.mPayload.bind (Buffer.read p.nodes) = _
          rw [hpayload]
          rfl
        rw [← hown, ← hreceived]
    | null | ubyte | string => rw [hatom] at hbody; exact hbody.elim

theorem content_congr (hbody : m.body = m'.body) (hproperties : m.properties = m'.properties) :
    m.content = m'.content := by
  unfold PnMessage.content PnMessage.payload PnMessage.metadata PnMessage.msgType
  rw [hbody, hproperties]

end Unpacking

/-! ## Steps -/

variable {ls : List (Step K F)}

section Steps

variable [DecidableEq K] {q : Settings K} {b : TransportBridge K F} {f : Fan K F}

section

variable (h : Follows q b f)

include h

theorem Follows.sound : b.Sound := by
  refine ⟨h.held.lists, fun hnode hqueues => ?_⟩
  obtain ⟨free, opened, hlists, hopened⟩ := h.held.lists
  have hnil : opened = [] := by
    refine eq_nil_iff_forall_not_mem.2 fun n hn => ?_
    rcases (hopened n).1 hn with ⟨k, hk⟩ | hheld
    · rw [hqueues k] at hk; cases hk
    · rw [hnode] at hheld; cases hheld
  subst hnil
  obtain ⟨last, hlisted⟩ := hlists.listed
  refine ⟨(isChain_cons_cons.1 hlisted).1.1, ?_⟩
  rw [hlists.numFree]
  have hperm : free.Perm (List.range b.mQpidMsgPool.top) := by
    refine (perm_ext_iff_of_nodup hlists.nodup.of_append_left nodup_range).2 fun n => ?_
    rw [mem_range, ← hlists.allocated n, append_nil]
  rw [hperm.length_eq, length_range]

def Leads (q : Settings K) (b : TransportBridge K F) (f : Fan K F) (l : Step K F) : Prop :=
  ∃ b' out f', b.step q l = some (b', out) ∧ f.Next l out f' ∧
    (b'.mQpidMsgPool.top ≠ b.mQpidMsgPool.top → b.mQpidMsgPool.mNumFree = 0) ∧ Follows q b' f'

theorem Follows.create (subject : K) (queue : Nat) : Leads q b f (.create subject queue) := by
  obtain ⟨endpoints', hrun, hmembers⟩ := h.members.create subject queue
  refine ⟨{ b with
    mSubEndpoints := endpoints'
    subscriptions := Function.update b.subscriptions b.created
      (some ⟨queue, subject, q.platform.printed b.created, true, true⟩)
    created := b.created + 1 }, none, _, ?_, ⟨rfl, rfl⟩, fun hne => absurd rfl hne,
    ⟨?_, congrArg (· + 1) h.created, h.held, h.thread⟩⟩
  · simp [TransportBridge.step, TransportBridge.createSubscription, hrun]
  · show Members q endpoints' _ (b.created + 1) (Function.update f.subs f.created _)
    rwa [h.created]

theorem Follows.mute (i : Nat) : Leads q b f (.mute i) := by
  have hself : (b.mute i).subscriptions i =
      (b.subscriptions i).map fun s => { s with mIsNotMuted := false } := update_self ..
  refine ⟨b.mute i, none, _, rfl, ⟨rfl, rfl⟩, fun hne => absurd rfl hne,
    ⟨h.members.modify (i := i) (fun j hj => ⟨update_of_ne hj .., update_of_ne hj ..⟩)
      ?_ ?_, h.created, h.held, h.thread⟩⟩
  · rw [hself]
    cases hs : b.subscriptions i with
    | none => exact .inl ⟨rfl, rfl⟩
    | some s => exact .inr ⟨s, _, rfl, rfl, rfl, rfl⟩
  · rw [hself]
    show Function.update _ i _ i = _
    rw [update_self, h.members.subs]
    cases b.subscriptions i <;> rfl

theorem Follows.destroy (i : Nat) : Leads q b f (.destroy i) := by
  cases hs : b.subscriptions i with
  | none =>
    have hsame : Function.update f.subs i none = f.subs := by
      refine Function.update_eq_self_iff.2 ?_
      rw [h.members.subs, hs]
      rfl
    refine ⟨b, none, f, ?_, ⟨rfl, by rw [hsame]⟩, fun hne => absurd rfl hne, h⟩
    simp [TransportBridge.step, TransportBridge.destroy, hs]
  | some s =>
    obtain ⟨endpoints', hrun, hmembers⟩ := h.members.destroy hs
    refine ⟨{ b with
      mSubEndpoints := endpoints'
      subscriptions := Function.update b.subscriptions i none }, none, _, ?_, ⟨rfl, rfl⟩,
      fun hne => absurd rfl hne, ⟨hmembers, h.created, h.held, h.thread⟩⟩
    simp [TransportBridge.step, TransportBridge.destroy, hs, hrun]

theorem Follows.busy (hthread : b.thread ≠ .receiving) : f.stopped ∨ f.current.isSome := by
  have hfollows := h.thread
  cases hcase : b.thread with
  | receiving => exact absurd hcase hthread
  | fanning msgNode subs subInc =>
    rw [hcase] at hfollows
    obtain ⟨-, -, m, ids, hcurrent, -⟩ := hfollows
    exact .inr (by rw [hcurrent]; rfl)
  | returned => rw [hcase] at hfollows; exact .inl hfollows.2

end

omit [DecidableEq K] in
theorem fannedUnder_eq_some {m : PnMessage K F} (h : m.fannedUnder = some subject) :
    m.msgType ≠ .terminate ∧ m.msgType ≠ .subRequest ∧ m.subject = some subject := by
  unfold PnMessage.fannedUnder at h
  cases htype : m.msgType with
  | terminate | subRequest => rw [htype] at h; cases h
  | pubSub | inboxRequest | inboxResponse | other => rw [htype] at h; exact ⟨by simp, by simp, h⟩

variable {pool : MsgPool K F}

theorem receive_discards {m : PnMessage K F} {n : Nat}
    (hget : b.mQpidMsgPool.getPoolMsg q.mQpidMsgPoolIncSize = some (pool, n))
    (h : m.fannedUnder = none) : b.receive q m = some ({ b with
      mQpidMsgPool := (pool.setMsg n m).setMsgType n m.msgType }.discard n
        (if m.msgType = MsgType.terminate then .returned else .receiving)) := by
  unfold PnMessage.fannedUnder at h
  rw [TransportBridge.receive, hget]
  cases htype : m.msgType with
  | terminate | subRequest => rfl
  | pubSub | inboxRequest | inboxResponse | other =>
    rw [htype] at h
    have hsubject : m.subject = none := h
    simp [hsubject]

theorem receive_fans {m : PnMessage K F} {n : Nat} {endpoints' : EndpointPool K Nat}
    {subs : EndpointPool.Registered K Nat}
    (hget : b.mQpidMsgPool.getPoolMsg q.mQpidMsgPoolIncSize = some (pool, n))
    (h : m.fannedUnder = some subject)
    (hsubs : b.mSubEndpoints.getRegistered q.platform.hash q.platform.wide q.platform.word subject =
      some (endpoints', subs)) :
    b.receive q m =
      let b := { b with
        mQpidMsgPool := (pool.setMsg n m).setMsgType n m.msgType
        mSubEndpoints := endpoints' }
      if subs.count = 0 then some (b.discard n .receiving)
      else some { b with thread := .fanning n subs 0 } := by
  obtain ⟨hterminate, hsubRequest, hsubject⟩ := fannedUnder_eq_some h
  rw [TransportBridge.receive, hget]
  cases htype : m.msgType with
  | terminate => exact absurd htype hterminate
  | subRequest => exact absurd htype hsubRequest
  | pubSub | inboxRequest | inboxResponse | other => simp [hsubject, hsubs]

section

variable (h : Follows q b f)

include h

theorem Follows.receive_busy (m : PnMessage K F)
    (hthread : b.thread ≠ .receiving) : Leads q b f (.receive m) := by
  have hbusy := h.busy hthread
  refine ⟨b, none, f, ?_, ⟨rfl, by rw [if_pos hbusy]⟩, fun hne => absurd rfl hne, h⟩
  unfold TransportBridge.step
  cases hcase : b.thread with
  | receiving => exact absurd hcase hthread
  | fanning | returned => rfl

theorem Follows.receive (m : PnMessage K F) (hmeets : b.Meets q (.receive m)) :
    Leads q b f (.receive m) := by
  by_cases hcase : b.thread = .receiving
  · have hthread := h.thread
    have hheld := h.held
    unfold TransportBridge.Meets at hmeets
    dsimp only at hmeets
    rw [hcase] at hthread hheld hmeets
    obtain ⟨hcurrent, hstopped⟩ := hthread
    have hidle : ¬ (f.stopped ∨ f.current.isSome) := by simp [hcurrent, hstopped]
    obtain ⟨pool, n, hget, hheld', hmsg, htop, hnumFree, hnumMsgs⟩ :=
      hheld.receive q.one_le_incSize m
    have hroom : b.RoomBehindNext q → ((pool.setMsg n m).setMsgType n m.msgType).mNumFree <
        ((pool.setMsg n m).setMsgType n m.msgType).mNumMsgs := by
      intro hroom
      show pool.mNumFree < pool.mNumMsgs
      rwa [hnumFree, hnumMsgs]
    have hstep : ∀ b', b.receive q m = some b' → b.step q (.receive m) = some (b', none) := by
      intro b' hrun
      rw [TransportBridge.step, hcase]
      dsimp only
      rw [hrun]
      rfl
    cases hfanned : m.fannedUnder with
    | none =>
      rw [hfanned] at hmeets
      obtain ⟨hdiscarded, htop'⟩ := hheld'.discard (hroom hmeets)
      have hrun := hstep _ (receive_discards hget hfanned)
      by_cases hterminate : m.msgType = .terminate
      · rw [if_pos hterminate] at hrun
        refine ⟨_, none, { f with stopped := true }, hrun, ⟨rfl, ?_⟩, fun hne => ?_,
          ⟨h.members, h.created, hdiscarded, hcurrent, rfl⟩⟩
        · rw [if_neg hidle, if_pos hterminate]
        · exact htop fun heq => hne (htop'.trans heq)
      · rw [if_neg hterminate] at hrun
        refine ⟨_, none, f, hrun, ⟨rfl, ?_⟩, fun hne => ?_,
          ⟨h.members, h.created, hdiscarded, hcurrent, hstopped⟩⟩
        · rw [if_neg hidle, if_neg hterminate, hfanned]
        · exact htop fun heq => hne (htop'.trans heq)
    | some subject =>
      rw [hfanned] at hmeets
      unfold TransportBridge.ReceiveMeets at hmeets
      dsimp only at hmeets
      have hterminate := (fannedUnder_eq_some hfanned).1
      have hfits : q.platform.word * b.countUnder subject ≤ EndpointPool.bufferChunkSize := by
        by_cases hzero : b.countUnder subject = 0
        · rw [hzero]; exact Nat.zero_le _
        · rwa [if_neg hzero] at hmeets
      obtain ⟨endpoints', subs, ids, hsubs, hmembers, hnodup, hids, helements, hcount⟩ :=
        h.members.getRegistered subject hfits
      have hnext : ∀ f', f' = { f with current := if ids = [] then none else some (m, ids) } →
          f.Next (.receive m) none f' := by
        rintro f' rfl
        refine ⟨rfl, ?_⟩
        rw [if_neg hidle, if_neg hterminate, hfanned]
        refine ⟨ids, hnodup, fun i => ?_, rfl⟩
        rw [hids, h.members.subs]
        constructor
        · rintro ⟨s, hs, hkey⟩; exact ⟨s.fanSub, by rw [hs]; rfl, hkey⟩
        · rintro ⟨s, hs, hkey⟩
          obtain ⟨impl, himpl, rfl⟩ := Option.map_eq_some_iff.1 hs
          exact ⟨impl, himpl, hkey⟩
      have hrun := receive_fans hget hfanned hsubs
      have hlength := length_eq_countUnder h.members hnodup hids
      by_cases hzero : b.countUnder subject = 0
      · rw [if_pos hzero] at hmeets
        obtain ⟨hdiscarded, htop'⟩ := hheld'.discard (hroom hmeets)
        have hnil : ids = [] := eq_nil_of_length_eq_zero (hlength.trans hzero)
        rw [if_pos (hcount.trans (hlength.trans hzero))] at hrun
        refine ⟨_, none, _, hstep _ hrun, hnext _ rfl, fun hne => ?_,
          ⟨hmembers, h.created, hdiscarded, ?_, hstopped⟩⟩
        · exact htop fun heq => hne (htop'.trans heq)
        · rw [if_pos hnil]
      have hcountPos : subs.count ≠ 0 := by rwa [hcount, hlength]
      have hne : ids ≠ [] := by
        rintro rfl; exact hcountPos hcount
      rw [if_neg hcountPos] at hrun
      refine ⟨_, none, _, hstep _ hrun, hnext _ rfl, htop,
        ⟨hmembers, h.created, hheld', hstopped, Nat.pos_of_ne_zero hcountPos, m, ids, ?_, hmsg,
          helements.symm⟩⟩
      rw [if_neg hne]
  · exact h.receive_busy m hcase

theorem Follows.receiveFailed (hmeets : b.Meets q .receiveFailed) : Leads q b f .receiveFailed := by
  have hthread : b.thread ≠ .receiving := by
    intro hcase
    unfold TransportBridge.Meets at hmeets
    rwa [hcase] at hmeets
  have hbusy := h.busy hthread
  refine ⟨b, none, f, ?_, ⟨rfl, by rw [if_pos hbusy]⟩, fun hne => absurd rfl hne, h⟩
  unfold TransportBridge.step
  cases hcase : b.thread with
  | receiving => exact absurd hcase hthread
  | fanning | returned => rfl

end

omit [DecidableEq K] in
theorem elements_drop {subs : EndpointPool.Registered K D} {subInc : Nat} {i : D} {ids : List D}
    (hlt : subInc < subs.count)
    (h : (i :: ids).map (fun i => some (Endpoint.closure i)) = subs.elements.drop subInc) :
    subs.endpoints.bind (fun buffer => buffer subInc) = some (.closure i) ∧
      ids.map (fun i => some (.closure i)) = subs.elements.drop (subInc + 1) ∧
      (ids = [] ↔ subInc + 1 = subs.count) := by
  have hlength : subs.elements.length = subs.count := by simp [EndpointPool.Registered.elements]
  have hin : subInc < subs.elements.length := by rwa [hlength]
  rw [drop_eq_getElem_cons hin, map_cons] at h
  obtain ⟨hfirst, hrest⟩ := List.cons.inj h
  refine ⟨?_, hrest, ?_⟩
  · rw [hfirst]; simp [EndpointPool.Registered.elements]
  · have hcount := congrArg List.length hrest
    rw [length_map, length_drop] at hcount
    rw [← length_eq_zero_iff]
    omega

/-- The subscriptions after a message went to one of them. -/
def connected (b : TransportBridge K F) (i : Nat) (s : QpidSubscription K) :
    Nat → Option (QpidSubscription K) :=
  Function.update b.subscriptions i (some { s with mIsTportDisconnected := false })

section Rounds

variable (q) {i : Nat} {s : QpidSubscription K} (hs : b.subscriptions i = some s)

include hs

omit [DecidableEq K] in
theorem fanOutTo_last (hunmuted : s.mIsNotMuted) (msgNode : Nat) :
    b.fanOutTo q msgNode i true = some ({ b with
      subscriptions := connected b i s
      mQpidMsgPool := b.mQpidMsgPool.setSubscription msgNode i }.enqueueEvent
        s.mMamaQueue msgNode) := by
  simp [TransportBridge.fanOutTo, hs, hunmuted, connected]

omit [DecidableEq K] in
theorem fanOutTo_muted (hmuted : s.mIsNotMuted = false) (msgNode : Nat) (isLast : Bool) :
    b.fanOutTo q msgNode i isLast = some { b with subscriptions := connected b i s } := by
  simp [TransportBridge.fanOutTo, hs, hmuted, connected]

omit [DecidableEq K] in
theorem fanOutTo_copy (hunmuted : s.mIsNotMuted) (msgNode : Nat) {n : Nat}
    (hget : b.mQpidMsgPool.getPoolMsg q.mQpidMsgPoolIncSize = some (pool, n)) :
    b.fanOutTo q msgNode i false = some ({ b with
      subscriptions := connected b i s
      mQpidMsgPool := TransportBridge.copyNode pool msgNode n i }.enqueueEvent
        s.mMamaQueue n) := by
  simp [TransportBridge.fanOutTo, hs, hunmuted, hget, connected]

end Rounds

section

variable (h : Follows q b f)

include h

theorem Follows.connect {i : Nat} {s : QpidSubscription K} (hs : b.subscriptions i = some s) :
    Members q b.mSubEndpoints (connected b i s) b.created f.subs := by
  refine h.members.modify (i := i) (fun j hj => ⟨update_of_ne hj .., rfl⟩)
    (.inr ⟨s, { s with mIsTportDisconnected := false }, hs, update_self .., rfl, rfl⟩) ?_
  rw [connected, update_self, h.members.subs, hs]
  rfl

theorem Follows.fanOut (hmeets : b.Meets q .fanOut) : Leads q b f .fanOut := by
  have hthread := h.thread
  have hheld := h.held
  unfold TransportBridge.Meets at hmeets
  cases hcase : b.thread with
  | receiving | returned =>
    rw [hcase] at hthread
    refine ⟨b, none, f, ?_, ⟨rfl, by rw [hthread.1]⟩, fun hne => absurd rfl hne, h⟩
    rw [TransportBridge.step, hcase]
  | fanning msgNode subs subInc =>
    rw [hcase] at hthread hheld hmeets
    obtain ⟨hstopped, hlt, m, ids, hcurrent, hmsg, helements⟩ := hthread
    cases ids with
    | nil =>
      have hcount := congrArg List.length helements
      simp [EndpointPool.Registered.elements] at hcount
      omega
    | cons i ids =>
      obtain ⟨hat, hrest, hlast⟩ := elements_drop hlt helements
      dsimp only at hmeets
      rw [hat] at hmeets
      unfold TransportBridge.FanOutMeets at hmeets
      dsimp only at hmeets
      cases hs : b.subscriptions i with
      | none => rw [hs] at hmeets; exact hmeets.elim
      | some s =>
        rw [hs] at hmeets
        have hmembers := h.connect hs
        have hsub : f.subs i = some s.fanSub := by
          rw [h.members.subs, hs]; rfl
        have hstep : ∀ b', b.fanOutTo q msgNode i (decide (subInc = subs.count - 1)) = some b' →
            b.step q .fanOut = some ({ b' with
              thread := if subInc + 1 < subs.count then .fanning msgNode subs (subInc + 1)
                else .receiving }, none) := by
          intro b' hrun
          simp [TransportBridge.step, hcase, TransportBridge.fanOut, hat, hrun]
        have hnext : ∀ f', f' = { f with
            current := if ids = [] then none else some (m, ids)
            queues := f.deliver m i } → f.Next .fanOut none f' := by
          rintro f' rfl
          refine ⟨rfl, ?_⟩
          rw [hcurrent]
        have hdeliver : s.mIsNotMuted → f.deliver m i =
            Function.update f.queues s.mMamaQueue (f.queues s.mMamaQueue ++ [(i, m)]) := by
          intro hunmuted
          rw [Fan.deliver, hsub]
          exact if_pos hunmuted
        by_cases hend : subInc + 1 = subs.count
        · -- the last one gets the node itself
          have hunmuted : s.mIsNotMuted = true := hmeets (decide_eq_true hend)
          have hheld' := hheld.last s.mMamaQueue i
          rw [hmsg] at hheld'
          have hisLast : decide (subInc = subs.count - 1) = true := decide_eq_true (by omega)
          have hrun := fanOutTo_last q hs hunmuted msgNode
          rw [← hisLast] at hrun
          have hthread' : (if subInc + 1 < subs.count then DispatchThread.fanning msgNode subs
              (subInc + 1) else .receiving) = .receiving := if_neg (by omega)
          have hfull := hstep _ hrun
          rw [hthread'] at hfull
          refine ⟨_, none, _, hfull, hnext _ rfl, fun hne => absurd rfl hne,
            ⟨hmembers, h.created, ?_, ?_, hstopped⟩⟩
          · rwa [hdeliver hunmuted]
          · rw [if_pos (hlast.2 hend)]
        have hne : ids ≠ [] := fun hnil => hend (hlast.1 hnil)
        have hisLast : decide (subInc = subs.count - 1) = false := decide_eq_false (by omega)
        have hthread' : (if subInc + 1 < subs.count then DispatchThread.fanning msgNode subs
            (subInc + 1) else .receiving) = .fanning msgNode subs (subInc + 1) :=
          if_pos (by omega)
        cases hunmuted : s.mIsNotMuted with
        | false =>
          -- a muted one is passed over
          have hrun := fanOutTo_muted q hs hunmuted msgNode (decide (subInc = subs.count - 1))
          have hskip : f.deliver m i = f.queues := by
            rw [Fan.deliver, hsub]; exact if_neg (by simp [QpidSubscription.fanSub, hunmuted])
          have hfull := hstep _ hrun
          rw [hthread'] at hfull
          refine ⟨_, none, _, hfull, hnext _ rfl, fun hne => absurd rfl hne,
            ⟨hmembers, h.created, ?_, hstopped, by omega, m, ids, ?_, hmsg, hrest⟩⟩
          · rwa [hskip]
          · rw [if_neg hne]
        | true =>
          -- the others get copies
          obtain ⟨pool, n, hget, hheld', hmsg', htop⟩ :=
            hheld.copy q.one_le_incSize s.mMamaQueue i
          rw [hmsg] at hheld' hmsg'
          have hrun := fanOutTo_copy q hs hunmuted msgNode hget
          rw [← hisLast] at hrun
          have hfull := hstep _ hrun
          rw [hthread'] at hfull
          refine ⟨_, none, _, hfull, hnext _ rfl, htop,
            ⟨hmembers, h.created, ?_, hstopped, by omega, m, ids, ?_, hmsg', hrest⟩⟩
          · rwa [hdeliver hunmuted]
          · rw [if_neg hne]

theorem Follows.callback (queue : Nat) (hmeets : b.Meets q (.callback queue)) :
    Leads q b f (.callback queue) := by
  unfold TransportBridge.Meets at hmeets
  dsimp only at hmeets
  have hcarries := h.held.carries queue
  cases hqueue : b.queues queue with
  | nil =>
    rw [hqueue] at hcarries
    have hwaiting := forall₂_nil_left_iff.1 hcarries
    refine ⟨b, none, f, ?_, ?_, fun hne => absurd rfl hne, h⟩
    · unfold TransportBridge.step
      dsimp only
      rw [hqueue]
    · unfold Fan.Next
      dsimp only
      rw [hwaiting]
      exact ⟨rfl, rfl⟩
  | cons n rest =>
    rw [hqueue] at hcarries hmeets
    obtain ⟨⟨i, m⟩, ds, ⟨hsub, hbody, hproperties⟩, hrest, hwaiting⟩ :=
      forall₂_cons_left_iff.1 hcarries
    obtain ⟨hthere, hunpacks, htable, hroom⟩ := hmeets
    rw [hsub, Option.bind_some] at hthere
    cases hs : b.subscriptions i with
    | none => rw [hs] at hthere; exact hthere.elim
    | some s =>
      rw [hs] at hthere
      have hunmuted : s.mIsNotMuted := hthere
      obtain ⟨tmp, hunpack, hcontent⟩ := unpack_of_unpacks (b.mMsgs s.mMamaQueue) hunpacks
      obtain ⟨hheld, htop, hsame⟩ := h.held.pop hqueue hwaiting hroom
      obtain ⟨r, hregisted, hr⟩ := h.members.isRegisted i htable
      refine ⟨{ b with
        queues := Function.update b.queues queue rest
        mMsgs := Function.update b.mMsgs s.mMamaQueue tmp
        mQpidMsgPool := (b.mQpidMsgPool.releasePoolMsg n).1 },
        some (i, tmp.received b.mQpidMsgPool.nodes),
        { f with queues := Function.update f.queues queue ds }, ?_, ?_, fun hne => absurd htop hne,
        ⟨h.members, h.created, hheld, ?_⟩⟩
      · have hregisted' : ({ b with
            queues := Function.update b.queues queue rest } : TransportBridge K F).isRegisted q
              (b.mQpidMsgPool.nodes n).mMsg.subject i = some r := hregisted
        simp [TransportBridge.step, TransportBridge.queueCallback, hqueue, hsub, hregisted', hr, hs,
          hunmuted, hunpack]
      · unfold Fan.Next
        dsimp only
        rw [hwaiting]
        refine ⟨rfl, ?_⟩
        rw [h.members.subs, hs]
        show if s.mIsNotMuted then _ else _
        rw [if_pos hunmuted]
        exact ⟨_, (content_congr hbody hproperties).symm.trans hcontent, rfl⟩
      have hthread := h.thread
      cases hcase : b.thread with
      | receiving | returned => rwa [hcase] at hthread
      | fanning msgNode subs subInc =>
        rw [hcase] at hthread
        obtain ⟨hstopped, hlt, m', ids, hcurrent, hmsg, helements⟩ := hthread
        exact ⟨hstopped, hlt, m', ids, hcurrent, (hsame msgNode).1.trans hmsg, helements⟩

/-- **One step.** -/
theorem Follows.step (l : Step K F) (hmeets : b.Meets q l) : Leads q b f l := by
  cases l with
  | create subject queue => exact h.create subject queue
  | mute i => exact h.mute i
  | destroy i => exact h.destroy i
  | receive m => exact h.receive m hmeets
  | receiveFailed => exact h.receiveFailed hmeets
  | fanOut => exact h.fanOut hmeets
  | callback queue => exact h.callback queue hmeets

theorem Follows.correct (hmeets : b.MeetsAll q ls) : b.Correct q f ls := by
  induction ls generalizing b f with
  | nil => exact h.sound
  | cons l ls ih =>
    obtain ⟨hl, hrest⟩ := hmeets
    obtain ⟨b', out, f', hstep, hnext, hgrown, hfollows⟩ := h.step l hl
    rw [hstep] at hrest
    exact ⟨h.sound, b', out, f', hstep, hnext, hgrown, ih hfollows hrest⟩

end

theorem follows_create (q : Settings K) :
    ∃ b : TransportBridge K F, TransportBridge.create q = some b ∧ Follows q b .init := by
  obtain ⟨pool, hpool, hlists, -⟩ :=
    MsgPool.createMessagePool_lists (K := K) (F := F) q.two_le_poolSize
  refine ⟨{
    mQpidMsgPool := pool
    mSubEndpoints := .create
    subscriptions := fun _ => none
    created := 0
    queues := fun _ => []
    mMsgs := fun _ => .new
    thread := .receiving }, ?_, ⟨?_, rfl, ?_, rfl, rfl⟩⟩
  · rw [TransportBridge.create, hpool]; rfl
  · refine ⟨⟨_, _, represents_create q.platform, fun subject id data => ?_, fun i s hs => ?_⟩,
      fun _ _ => rfl, fun i s hs => ?_, fun _ => rfl⟩
    · constructor
      · intro hdata; cases hdata
      · rintro ⟨i, s, hs, -⟩; cases hs
    · cases hs
    · cases hs
  refine ⟨⟨_, _, hlists, fun n => ?_⟩, fun _ => nodup_nil, fun k k' n hn => ?_,
    fun k n hn => ?_, fun _ => .nil⟩
  · constructor
    · intro hn; cases hn
    · rintro (⟨k, hn⟩ | hn)
      · cases hn
      · cases hn
  · cases hn
  · cases hn

end Steps

open TransportBridge

/-- **The inbound path.**  In a run whose steps meet their conditions every message is processed as
it should be, and the nodes of the pool are where they belong. -/
theorem correct_of_meets [DecidableEq K] (q : Settings K) (ls : List (Step K F))
    (h : MeetsFromStart q ls) : CorrectFromStart q ls := by
  obtain ⟨b, hcreate, hmeets⟩ := h
  obtain ⟨b', hcreate', hfollows⟩ := follows_create (F := F) q
  cases hcreate.symm.trans hcreate'
  exact ⟨b, hcreate, hfollows.correct hmeets⟩

/-! ### Some runs -/

/-- Two nodes, and one more when they are used up; all bytes are accepted. -/
def smallPool : Settings Nat where
  platform := numbered
  printed_injective := fun _ _ h => h
  poolSize := 2
  two_le_poolSize := by decide
  mQpidMsgPoolIncSize := 1
  one_le_incSize := by decide
  accepts _ := true

/-- A message with a body and nothing else, under a subject. -/
def update (subject : Nat) : PnMessage Nat Nat := ⟨some subject, .list 7, []⟩

/-- Two subscriptions, a message for both, and a request in an inbox. -/
def twoSubscriptions : List (Step Nat Nat) :=
  [.create 5 0, .create 5 1, .receive (update 5), .fanOut, .fanOut, .callback 0, .callback 1,
    .receive ⟨some 5, .binary [1, 2], [.ubyte 1, .string [3], .string [4]]⟩, .fanOut, .fanOut,
    .callback 1, .callback 0]

theorem twoSubscriptions_correct : CorrectFromStart smallPool twoSubscriptions :=
  correct_of_meets smallPool twoSubscriptions ⟨_, rfl, by decide⟩

def endOf [DecidableEq K] (q : Settings K) (ls : List (Step K F)) : Option (TransportBridge K F) :=
    do
  let b ← TransportBridge.create q
  ls.foldlM (fun b l => (b.step q l).map Prod.fst) b

theorem endOf_of_correct [DecidableEq K] {q : Settings K} (h : CorrectFromStart q ls) :
    ∃ b, endOf q ls = some b ∧ b.Sound := by
  obtain ⟨b, hcreate, hcorrect⟩ := h
  have hend : ∀ (b : TransportBridge K F) (f : Fan K F), b.Correct q f ls →
      ∃ b', ls.foldlM (fun b l => (b.step q l).map Prod.fst) b = some b' ∧ b'.Sound := by
    clear hcreate hcorrect
    induction ls with
    | nil => exact fun b f h => ⟨b, rfl, h⟩
    | cons l ls ih =>
      rintro b f ⟨-, b', out, f', hstep, -, -, hrest⟩
      obtain ⟨b'', hrun, hsound⟩ := ih b' f' hrest
      refine ⟨b'', ?_, hsound⟩
      rwa [foldlM_cons, hstep]
  obtain ⟨b', hrun, hsound⟩ := hend b .init hcorrect
  refine ⟨b', ?_, hsound⟩
  rwa [endOf, hcreate]

theorem not_correct_of_missing [DecidableEq K] {q : Settings K}
    (hidle : (endOf q ls).map (fun b => b.thread.node) = some none)
    (hqueues : ∀ queue, (endOf q ls).map (fun b => b.queues queue) = some [])
    (hmissing : (endOf q ls).map (fun b => decide (b.mQpidMsgPool.mNumFree = b.mQpidMsgPool.top)) =
      some false) :
    ¬ CorrectFromStart q ls := by
  intro h
  obtain ⟨b, hend, hsound⟩ := endOf_of_correct h
  rw [hend, Option.map_some, Option.some.injEq] at hidle hmissing
  refine of_decide_eq_false hmissing (hsound.drained hidle fun queue => ?_).2
  have hqueue := hqueues queue
  rwa [hend, Option.map_some, Option.some.injEq] at hqueue

/-- The only subscription is muted when a message comes. -/
def mutedLast : List (Step Nat Nat) := [.create 5 0, .mute 0, .receive (update 5), .fanOut]

def grown : List (Step Nat Nat) :=
  [.create 5 0, .receive (update 5), .fanOut, .receive (update 5), .fanOut, .receive (update 5),
    .fanOut, .callback 0, .callback 0, .callback 0]

/-- A copy gets a node that was used for a subject without subscriptions. -/
def recycled : List (Step Nat Nat) :=
  [.create 5 0, .receive (update 5), .fanOut, .receive (update 9), .callback 0, .create 5 0,
    .receive (update 5), .fanOut, .fanOut, .callback 0, .callback 0]

/-- A subscription is destroyed while a message waits for it. -/
def destroyed : List (Step Nat Nat) :=
  [.create 5 0, .receive (update 5), .fanOut, .destroy 0, .callback 0]

/-- A node is lost in each of the first three, and a subscription that was freed is read in the
last. -/
theorem not_correct : ¬ CorrectFromStart smallPool mutedLast ∧ ¬ CorrectFromStart smallPool grown ∧
    ¬ CorrectFromStart smallPool recycled ∧ ¬ CorrectFromStart smallPool destroyed := by
  refine ⟨not_correct_of_missing (by decide) (fun queue => ?_) (by decide),
    not_correct_of_missing (by decide) (fun queue => ?_) (by decide),
    not_correct_of_missing (by decide) (fun queue => ?_) (by decide), fun h => ?_⟩
  · cases queue <;> rfl
  · cases queue <;> rfl
  · cases queue <;> rfl
  · obtain ⟨b, hend, -⟩ := endOf_of_correct h
    have hnone : (endOf smallPool destroyed).isNone = true := by decide
    rw [hend] at hnone
    cases hnone

end Qpid

end Mama

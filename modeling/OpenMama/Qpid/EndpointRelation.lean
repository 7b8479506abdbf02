import OpenMama.Qpid.EndpointPool

/-!
# The endpoint pool as a relation

A pool stands for the relation of topics and identifiers that its tables hold.  A call refines the
relation if it changes it as the registrations say and gives the answer that the relation has.  All
calls of a run do just if none of them registers over an identifier whose data is null, asks for
more endpoints than fit in the first chunk of the buffer, or asks for content that is not registered
under a topic that was (`refines_iff`).
-/

namespace Mama

namespace Qpid

open Common List Function Option

variable {K D : Type} [DecidableEq K]

/-! ## What is expected of a pool -/

abbrev Relation (K D : Type) := K → K → Option (Option D)

namespace Relation

/-- An identifier that is there already stays as it is. -/
def register (R : Relation K D) (topic identifier : K) (data : Option D) : Relation K D :=
  if (R topic identifier).isSome then R
  else Function.update R topic (Function.update (R topic) identifier (some data))

def unregister (R : Relation K D) (topic identifier : K) : Relation K D :=
  Function.update R topic (Function.update (R topic) identifier none)

def apply (q : Platform K D) (R : Relation K D) : Call K D → Relation K D
  | .registerWithIdentifier topic identifier data => R.register topic identifier data
  | .registerWithoutIdentifier topic (some d) => R.register topic (q.printed d) (some d)
  | .unregister topic identifier => R.unregister topic identifier
  | _ => R

/-- What stands for an identifier in a result: what is registered with it, or the identifier itself
where that is null. -/
def endpoint (R : Relation K D) (topic identifier : K) : Endpoint K D :=
  .of (R topic identifier).join identifier

end Relation

def EndpointPool.Registered.elements (result : EndpointPool.Registered K D) :
    List (Option (Endpoint K D)) :=
  (List.range result.count).map fun i => result.endpoints.bind fun buffer => buffer i

def Relation.Answers (q : Platform K D) (R : Relation K D) : Call K D → Answer K D → Prop
  | .registerWithIdentifier _ _ _, .done => True
  | .registerWithoutIdentifier _ data, .identifier identifier => identifier = data.map q.printed
  | .unregister _ _, .done => True
  | .getRegistered topic, .registered result =>
    -- each identifier once
    ∃ ids : List K, ids.Nodup ∧ (∀ id, id ∈ ids ↔ (R topic id).isSome) ∧
      result.elements = ids.map fun id => some (R.endpoint topic id)
  | .isRegistedByContent topic content, .isRegisted result =>
    result ≠ 0 ↔ ∃ id, R topic id = some content
  | _, _ => False

namespace EndpointPool

def relation (q : Platform K D) (p : EndpointPool K D) : Relation K D := fun topic identifier =>
  match p.mContainer.lookup q.hash topic with
  | some (some a) => (p.tables a).bind fun t => t.entry q.hash identifier
  | _ => none

/-- The call goes through, changes the relation as it should, and has the right answer. -/
def Right [DecidableEq D] (q : Platform K D) (p : EndpointPool K D) (c : Call K D)
    (result : EndpointPool K D × Answer K D) : Prop :=
  p.call q c = some result ∧ result.1.relation q = (p.relation q).apply q c ∧
    (p.relation q).Answers q c result.2

def Refines [DecidableEq D] (q : Platform K D) : EndpointPool K D → List (Call K D) → Prop
  | _, [] => True
  | p, c :: cs => ∃ result, Right q p c result ∧ Refines q result.1 cs

end EndpointPool

/-! ## When it holds -/

def Call.topics : Call K D → List K
  | .registerWithIdentifier topic _ _ => [topic]
  | .registerWithoutIdentifier topic (some _) => [topic]
  | _ => []

/-- What a call has to meet; `known` are the topics that something was registered for. -/
def Call.Fits (q : Platform K D) (R : Relation K D) (known : List K) : Call K D → Prop
  | .registerWithIdentifier topic identifier data => R topic identifier = some none → data = none
  | .registerWithoutIdentifier topic (some d) => R topic (q.printed d) ≠ some none
  | .getRegistered topic =>
    ∀ ids : List K, ids.Nodup → (∀ id ∈ ids, (R topic id).isSome) →
      q.word * ids.length ≤ EndpointPool.bufferChunkSize
  | .isRegistedByContent topic content =>
    (∃ id, R topic id = some content) ∨ (topic ∉ known ∧ content ≠ none)
  | _ => True

def Fits (q : Platform K D) : Relation K D → List K → List (Call K D) → Prop
  | _, _, [] => True
  | R, known, c :: cs => c.Fits q R known ∧ Fits q (R.apply q c) (c.topics ++ known) cs

/-! ## What a pool represents -/

/-- The tables hold what the relation says; nothing was ever added to the buffer. -/
structure Represents (q : Platform K D) (p : EndpointPool K D) (R : Relation K D) (known : List K) :
    Prop where
  limit : p.mBufferLimit = EndpointPool.bufferChunkSize
  allocated : p.allocated = EndpointPool.bufferChunkSize
  topics : ∃ M : Wtable.Map K Nat, Wtable.Reached q.hash q.wide 10 p.mContainer M ∧
    (∀ topic, topic ∈ known ↔ (M topic).isSome) ∧
    (∀ topic, topic ∉ known → R topic = fun _ => none) ∧
    (∀ topic entry, M topic = some entry → ∃ a t, entry = some a ∧ a < p.top ∧
      p.tables a = some t ∧ Wtable.Reached q.hash q.wide 1 t (R topic)) ∧
    ∀ topic topic' a, M topic = some (some a) → M topic' = some (some a) → topic = topic'

section

variable {q : Platform K D} {p : EndpointPool K D} {R : Relation K D} {known : List K}

theorem represents_create (q : Platform K D) : Represents q .create (fun _ _ => none) [] where
  limit := rfl
  allocated := rfl
  topics := ⟨fun _ => none, .create, by simp, fun _ _ => rfl, by simp, by simp⟩

section

variable (h : Represents q p R known)

include h

theorem Represents.table (topic : K) :
    (topic ∉ known ∧ p.mContainer.lookup q.hash topic = some none ∧ R topic = fun _ => none) ∨
      ∃ a t, topic ∈ known ∧ p.mContainer.lookup q.hash topic = some (some a) ∧
        p.tables a = some t ∧ Wtable.Reached q.hash q.wide 1 t (R topic) := by
  obtain ⟨M, hreached, hknown, hunknown, htables, -⟩ := h.topics
  have hlookup := (hreached.actsAs (by decide)).lookup topic
  cases htopic : M topic with
  | none =>
    have hmem : topic ∉ known := fun hmem => by
      have hsome := (hknown topic).1 hmem
      rw [htopic] at hsome
      exact Bool.false_ne_true hsome
    rw [htopic] at hlookup
    exact .inl ⟨hmem, hlookup, hunknown topic hmem⟩
  | some entry =>
    obtain ⟨a, t, rfl, -, ht, htable⟩ := htables topic entry htopic
    have hmem : topic ∈ known := (hknown topic).2 (by rw [htopic]; rfl)
    rw [htopic] at hlookup
    exact .inr ⟨a, t, hmem, hlookup, ht, htable⟩

theorem Represents.relation_eq : p.relation q = R := by
  funext topic identifier
  unfold EndpointPool.relation
  rcases h.table topic with ⟨-, hlookup, hnone⟩ | ⟨a, t, -, hlookup, ht, htable⟩
  · rw [hlookup, hnone]
  · rw [hlookup]
    dsimp only
    rw [ht, bind_some, htable.entry_eq (by decide)]

theorem Represents.change {topic : K} {a : Nat} {t : Wtable K D}
    (hlookup : p.mContainer.lookup q.hash topic = some (some a)) {row : K → Option (Option D)}
    (ht : Wtable.Reached q.hash q.wide 1 t row) :
    Represents q { p with tables := Function.update p.tables a (some t) }
      (Function.update R topic row) known := by
  obtain ⟨hlimit, hallocated, M, hreached, hknown, hunknown, htables, hapart⟩ := h
  have hM : M topic = some (some a) := by
    rw [(hreached.actsAs (by decide)).lookup topic] at hlookup
    cases htopic : M topic with
    | none => rw [htopic] at hlookup; cases hlookup
    | some entry => rw [htopic] at hlookup; exact congrArg some (some.inj hlookup)
  refine ⟨hlimit, hallocated, M, hreached, hknown, fun other hother => ?_,
    fun other entry hentry => ?_,
    hapart⟩
  · have hne : other ≠ topic := by
      rintro rfl; exact hother ((hknown other).2 (by rw [hM]; rfl))
    rw [update_of_ne hne]
    exact hunknown other hother
  obtain ⟨b, t', rfl, hb, ht', htable⟩ := htables other entry hentry
  by_cases hsame : other = topic
  · subst hsame
    obtain rfl : b = a := by
      rw [hM] at hentry; exact (some.inj (some.inj hentry)).symm
    exact ⟨b, t, rfl, hb, update_self .., by rwa [update_self]⟩
  · have hne : b ≠ a := by
      rintro rfl; exact hsame (hapart other topic b hentry hM)
    refine ⟨b, t', rfl, hb, ?_, by rwa [update_of_ne hsame]⟩
    show Function.update p.tables a (some t) b = some t'
    rwa [update_of_ne hne]

theorem Represents.congr {known' : List K}
    (hsame : ∀ topic, topic ∈ known' ↔ topic ∈ known) : Represents q p R known' := by
  obtain ⟨hlimit, hallocated, M, hreached, hknown, hunknown, hrest⟩ := h
  exact ⟨hlimit, hallocated, M, hreached, fun topic => (hsame topic).trans (hknown topic),
    fun topic hn => hunknown topic fun hmem => hn ((hsame topic).2 hmem), hrest⟩

/-! ## The calls -/

/-- What a registration really does: data that is null counts as no entry. -/
def Relation.written (R : Relation K D) (topic identifier : K) (data : Option D) : Relation K D :=
  if (R topic identifier).join.isSome then R
  else Function.update R topic (Function.update (R topic) identifier (some data))

omit h in
theorem Relation.written_eq_iff (R : Relation K D) (topic identifier : K) (data : Option D) :
    R.written topic identifier data = R.register topic identifier data ↔
      (R topic identifier = some none → data = none) := by
  unfold Relation.written Relation.register
  cases hentry : R topic identifier with
  | none => simp
  | some old =>
    cases old with
    | some d => simp
    | none =>
      simp only [join_some, isSome_none, Bool.false_eq_true, if_false,
        isSome_some, if_true, forall_const]
      constructor
      · intro hsame
        have hat := congrFun (congrFun hsame topic) identifier
        rw [update_self, update_self, hentry] at hat
        exact some.inj hat
      · rintro rfl
        rw [← hentry, update_eq_self, update_eq_self]

theorem Represents.registerWithIdentifier (topic identifier : K) (data : Option D) : ∃ p',
    p.registerWithIdentifier q.hash topic identifier data = some p' ∧
    Represents q p' (R.written topic identifier data) (topic :: known) := by
  have hone : 1 ≤ 30 := by decide
  have hten : 10 ≤ 30 := by decide
  rcases h.table topic with ⟨hmem, hlookup, hnone⟩ | ⟨a, t, hmem, hlookup, ht, htable⟩
  · -- a table for the topic
    obtain ⟨hlimit, hallocated, M, hreached, hknown, hunknown, htables, hapart⟩ := h
    have hfresh : Wtable.Reached q.hash q.wide 1 (Wtable.create 1 : Wtable K D) fun _ => none :=
      .create
    obtain ⟨consumers, hinsert⟩ := (hfresh.actsAs hone).insert identifier data
    obtain ⟨container, hcontainer⟩ := (hreached.actsAs hten).insert topic (some p.top)
    have hwritten : R.written topic identifier data =
        Function.update R topic (Function.update (fun _ => none) identifier (some data)) := by
      rw [Relation.written, hnone]
      rfl
    refine ⟨{ p with
      mContainer := container
      tables := Function.update p.tables p.top (some consumers)
      top := p.top + 1 }, ?_, hlimit, hallocated, _, hreached.insert hcontainer, fun other => ?_,
      fun other hother => ?_, fun other entry hentry => ?_, fun other other' b hb hb' => ?_⟩
    · unfold EndpointPool.registerWithIdentifier; simp [hlookup, hinsert, hcontainer]
    · by_cases hsame : other = topic
      · simp [hsame]
      · rw [update_of_ne hsame, ← hknown other]; simp [hsame]
    · rw [mem_cons, not_or] at hother
      rw [hwritten, update_of_ne hother.1]
      exact hunknown other hother.2
    · rw [hwritten]
      by_cases hsame : other = topic
      · subst hsame
        rw [update_self, Option.some.injEq] at hentry
        refine ⟨p.top, consumers, hentry.symm, Nat.lt_succ_self _, update_self .., ?_⟩
        rw [update_self]
        exact hfresh.insert hinsert
      · rw [update_of_ne hsame] at hentry
        obtain ⟨b, t', rfl, hb, ht', htable⟩ := htables other entry hentry
        refine ⟨b, t', rfl, Nat.lt_succ_of_lt hb, ?_, ?_⟩
        · show Function.update p.tables p.top (some consumers) b = some t'
          rwa [update_of_ne (Nat.ne_of_lt hb)]
        · rwa [update_of_ne hsame]
    -- the address is new
    have hold : ∀ other, other ≠ topic → M other ≠ some (some p.top) := by
      intro other _ htop
      obtain ⟨c, -, hc, hlt, -⟩ := htables other _ htop
      cases hc
      exact Nat.lt_irrefl _ hlt
    by_cases hsame : other = topic <;> by_cases hsame' : other' = topic
    · rw [hsame, hsame']
    · rw [hsame, update_self] at hb
      rw [update_of_ne hsame', ← hb] at hb'
      exact absurd hb' (hold other' hsame')
    · rw [hsame', update_self] at hb'
      rw [update_of_ne hsame, ← hb'] at hb
      exact absurd hb (hold other hsame)
    · rw [update_of_ne hsame] at hb
      rw [update_of_ne hsame'] at hb'
      exact hapart other other' b hb hb'
  have hknown : ∀ {p' : EndpointPool K D} {R' : Relation K D}, Represents q p' R' known →
      Represents q p' R' (topic :: known) := fun h' => h'.congr fun other => by
    constructor
    · rintro (_ | ⟨_, hother⟩)
      · exact hmem
      · exact hother
    · exact mem_cons_of_mem topic
  have hfound := (htable.actsAs hone).lookup identifier
  unfold Relation.written
  cases hentry : (R topic identifier).join with
  | none =>
    obtain ⟨t', hinsert⟩ := (htable.actsAs hone).insert identifier data
    rw [hentry] at hfound
    refine ⟨_, ?_, hknown (h.change hlookup (htable.insert hinsert))⟩
    unfold EndpointPool.registerWithIdentifier
    simp [hlookup, ht, hfound, hinsert]
  | some d =>
    rw [hentry] at hfound
    refine ⟨p, ?_, hknown h⟩
    unfold EndpointPool.registerWithIdentifier
    simp [hlookup, ht, hfound]

theorem Represents.unregister (topic identifier : K) :
    ∃ p', p.unregister q.hash topic identifier = some p' ∧
      Represents q p' (R.unregister topic identifier) known := by
  unfold EndpointPool.unregister Relation.unregister
  rcases h.table topic with ⟨-, hlookup, hnone⟩ | ⟨a, t, -, hlookup, ht, htable⟩
  · have hrow : Function.update (R topic) identifier none = R topic :=
      Function.update_eq_self_iff.2 (by rw [hnone])
    refine ⟨p, by simp [hlookup], ?_⟩
    rwa [hrow, update_eq_self]
  · obtain ⟨t', hremove⟩ := (htable.actsAs (by decide)).remove identifier
    exact ⟨_, by simp [hlookup, ht, hremove], h.change hlookup (htable.remove hremove)⟩

end

/-! ## The queries -/

omit [DecidableEq K] in
theorem appendEachEndpoint_eq {word : Nat} (hlimit : p.mBufferLimit = EndpointPool.bufferChunkSize)
    (hallocated : p.allocated = EndpointPool.bufferChunkSize)
    (hoffset : word * p.mBufferOffset ≤ EndpointPool.bufferChunkSize) (data : Option D) (key : K) :
    p.appendEachEndpoint word data key =
      if word * (p.mBufferOffset + 1) ≤ EndpointPool.bufferChunkSize then
        some { p with
          mBuffer := Function.update p.mBuffer p.mBufferOffset (some (.of data key))
          mBufferOffset := p.mBufferOffset + 1 }
      else none := by
  have hkept : (if word * p.mBufferOffset > p.mBufferLimit then
      p.extendBuffer (word * p.mBufferOffset) else p) = p :=
    if_neg (by rw [hlimit]; exact Nat.not_lt.2 hoffset)
  unfold EndpointPool.appendEachEndpoint
  dsimp only
  rw [hkept, hallocated]

omit [DecidableEq K] in
/-- The entries of a table go to the buffer one after the other, as long as there is room. -/
theorem foldl_appendEachEndpoint {word : Nat} {t : Wtable K D} (entries : List (K × Option D))
    (hlimit : p.mBufferLimit = EndpointPool.bufferChunkSize)
    (hallocated : p.allocated = EndpointPool.bufferChunkSize)
    (hoffset : word * p.mBufferOffset ≤ EndpointPool.bufferChunkSize) :
    if word * (p.mBufferOffset + entries.length) ≤ EndpointPool.bufferChunkSize then
      ∃ buffer,
        entries.foldl (fun c e => (EndpointPool.appendCallback word c t e.2 e.1).1) (some p) =
          some { p with mBuffer := buffer, mBufferOffset := p.mBufferOffset + entries.length } ∧
        (∀ i, i < p.mBufferOffset → buffer i = p.mBuffer i) ∧
        ∀ i, (hi : i < entries.length) →
          buffer (p.mBufferOffset + i) = some (.of entries[i].2 entries[i].1)
    else entries.foldl (fun c e => (EndpointPool.appendCallback word c t e.2 e.1).1) (some p) =
      none := by
  induction entries generalizing p with
  | nil =>
    rw [if_pos (by simpa using hoffset)]
    exact ⟨p.mBuffer, rfl, fun _ _ => rfl, fun i hi => absurd hi (Nat.not_lt_zero i)⟩
  | cons e entries ih =>
    have hfirst : (EndpointPool.appendCallback word (some p) t e.2 e.1).1 =
        p.appendEachEndpoint word e.2 e.1 := rfl
    have hlast : ∀ es : List (K × Option D),
        es.foldl (fun c e => (EndpointPool.appendCallback word c t e.2 e.1).1)
          (none : Option (EndpointPool K D)) = none := by
      intro es
      induction es with
      | nil => rfl
      | cons e es ih => exact ih
    rw [foldl_cons, hfirst, appendEachEndpoint_eq hlimit hallocated hoffset]
    have hlength : p.mBufferOffset + (e :: entries).length =
        p.mBufferOffset + 1 + entries.length := by
      rw [length_cons]
      omega
    rw [hlength]
    by_cases hroom : word * (p.mBufferOffset + 1) ≤ EndpointPool.bufferChunkSize
    · rw [if_pos hroom]
      have hrest := ih (p := { p with
        mBuffer := Function.update p.mBuffer p.mBufferOffset (some (.of e.2 e.1))
        mBufferOffset := p.mBufferOffset + 1 }) hlimit hallocated hroom
      dsimp only at hrest
      split_ifs at hrest ⊢
      · obtain ⟨buffer, hfold, hbefore, hafter⟩ := hrest
        refine ⟨buffer, hfold, fun i hi => ?_, fun i hi => ?_⟩
        · rw [hbefore i (by omega), update_of_ne (by omega)]
        · cases i with
          | zero => rw [Nat.add_zero, hbefore _ (Nat.lt_succ_self _), update_self]; rfl
          | succ i =>
            have hi' : i < entries.length := Nat.lt_of_succ_lt_succ hi
            rw [getElem_cons_succ, ← hafter i hi', Nat.add_assoc, Nat.add_comm 1 i]
      · exact hrest
    · rw [if_neg hroom,
        if_neg fun h => hroom (Nat.le_trans (Nat.mul_le_mul_left word (by omega)) h)]
      exact hlast entries

/-- The endpoints of a topic that fit in the first chunk are listed; more of them do not fit in the
buffer. -/
theorem Represents.getRegistered (h : Represents q p R known) (topic : K) :
    (Call.Fits q R known (.getRegistered topic) →
      ∃ p' result, p.getRegistered q.hash q.wide q.word topic = some (p', result) ∧
        Represents q p' R known ∧ R.Answers q (.getRegistered topic) (.registered result)) ∧
    (¬ Call.Fits q R known (.getRegistered topic) →
      p.getRegistered q.hash q.wide q.word topic = none) := by
  unfold EndpointPool.getRegistered
  rcases h.table topic with ⟨-, hlookup, hnone⟩ | ⟨a, t, -, hlookup, ht, htable⟩
  · have hfits : Call.Fits q R known (.getRegistered topic) := by
      rintro (_ | ⟨id, ids⟩) - hids
      · exact Nat.zero_le _
      · have hid := hids id mem_cons_self
        rw [hnone] at hid
        cases hid
    refine ⟨fun _ => ⟨p, ⟨0, none⟩, by simp [hlookup], h, [], nodup_nil, fun id => ?_, rfl⟩,
      fun hnot => absurd hfits hnot⟩
    rw [hnone]
    simp
  obtain ⟨entries, hnodup, hentries, hwalk⟩ := htable.walk (by decide)
  have hids : ∀ id, id ∈ entries.map Prod.fst ↔ (R topic id).isSome := by
    intro id
    rw [List.mem_map, isSome_iff_exists]
    constructor
    · rintro ⟨⟨k, data⟩, hmem, rfl⟩; exact ⟨data, (hentries k data).1 hmem⟩
    · rintro ⟨data, hdata⟩; exact ⟨(id, data), (hentries id data).2 hdata, rfl⟩
  have hfits : Call.Fits q R known (.getRegistered topic) ↔
      q.word * (0 + entries.length) ≤ EndpointPool.bufferChunkSize := by
    rw [Nat.zero_add]
    constructor
    · intro hall
      have hlen := hall _ hnodup fun id hid => (hids id).1 hid
      rwa [length_map] at hlen
    · intro hlen ids hdistinct hsome
      have hle : ids.length ≤ (entries.map Prod.fst).length :=
        (subperm_of_subset hdistinct fun id hid => (hids id).2 (hsome id hid)).length_le
      rw [length_map] at hle
      exact Nat.le_trans (Nat.mul_le_mul_left _ hle) hlen
  have hrun := hwalk _ (EndpointPool.appendCallback q.word) (some { p with mBufferOffset := 0 })
    fun _ _ _ => rfl
  have hstart : q.word * 0 ≤ EndpointPool.bufferChunkSize := Nat.zero_le _
  have hfold := foldl_appendEachEndpoint (p := { p with mBufferOffset := 0 }) (t := t)
    entries h.limit h.allocated hstart
  rw [hfits]
  constructor
  · intro hroom
    rw [if_pos hroom] at hfold
    obtain ⟨buffer, hfold, -, hbuffer⟩ := hfold
    rw [hfold] at hrun
    refine ⟨{ p with mBuffer := buffer, mBufferOffset := 0 + entries.length },
      ⟨0 + entries.length, some buffer⟩, by simp [hlookup, ht, hrun],
      ⟨h.limit, h.allocated, h.topics⟩, entries.map Prod.fst, hnodup, hids, ?_⟩
    refine ext_getElem (by simp [EndpointPool.Registered.elements]) fun i hi _ => ?_
    have hi' : i < entries.length := by simpa [EndpointPool.Registered.elements] using hi
    have hat := hbuffer i hi'
    have hentry : R topic entries[i].1 = some entries[i].2 :=
      (hentries _ _).1 (getElem_mem hi')
    simp only [EndpointPool.Registered.elements, getElem_map, getElem_range,
      bind_some, Relation.endpoint, hentry, join_some]
    rw [← hat, Nat.zero_add]
  · intro hfull
    rw [if_neg hfull] at hfold
    rw [hfold] at hrun
    simp [hlookup, ht, hrun]

theorem Represents.isRegistedByContent [DecidableEq D] (h : Represents q p R known) (topic : K)
    (content : Option D) : ∃ n, p.isRegistedByContent q.hash q.wide topic content = some n ∧
    (n = 0 ↔ topic ∉ known ∧ content ≠ none) := by
  unfold EndpointPool.isRegistedByContent
  cases content with
  | none => exact ⟨5, rfl, by simp⟩
  | some d =>
    rcases h.table topic with ⟨hmem, hlookup, -⟩ | ⟨a, t, hmem, hlookup, ht, htable⟩
    · exact ⟨0, by simp [hlookup], by simp [hmem]⟩
    · obtain ⟨entries, -, -, hwalk⟩ := htable.walk (by decide)
      have hrun := hwalk Int (EndpointPool.checkEndpointExists d) 0 fun _ _ _ => rfl
      exact ⟨1, by simp [hlookup, ht, hrun], by simp [hmem]⟩

/-! ## Runs -/

variable [DecidableEq D]

theorem Represents.call (h : Represents q p R known) (c : Call K D) :
    (c.Fits q R known → ∃ result, p.Right q c result ∧
      Represents q result.1 (R.apply q c) (c.topics ++ known)) ∧
    (¬ c.Fits q R known → ∀ result, ¬ p.Right q c result) := by
  have hrelation := h.relation_eq
  cases c with
  | registerWithIdentifier topic identifier data =>
    obtain ⟨p', hrun, hp'⟩ := h.registerWithIdentifier topic identifier data
    have hcall : p.call q (.registerWithIdentifier topic identifier data) = some (p', .done) := by
      simp [EndpointPool.call, hrun]
    have hwritten := R.written_eq_iff topic identifier data
    constructor
    · intro hfits
      rw [hwritten.2 hfits] at hp'
      refine ⟨_, ⟨hcall, ?_, trivial⟩, hp'⟩
      rw [hrelation]
      exact hp'.relation_eq
    · rintro hnot result ⟨hresult, hafter, -⟩
      cases hcall.symm.trans hresult
      rw [hrelation] at hafter
      exact hnot (hwritten.1 (hp'.relation_eq.symm.trans hafter))
  | registerWithoutIdentifier topic data =>
    cases data with
    | none =>
      refine ⟨fun _ => ⟨(p, .identifier none), ⟨rfl, rfl, rfl⟩, h⟩, fun hnot => absurd trivial hnot⟩
    | some d =>
      obtain ⟨p', hrun, hp'⟩ := h.registerWithIdentifier topic (q.printed d) (some d)
      have hcall : p.call q (.registerWithoutIdentifier topic (some d)) =
          some (p', .identifier (some (q.printed d))) := by
        simp [EndpointPool.call, EndpointPool.registerWithoutIdentifier, hrun]
      have hwritten := R.written_eq_iff topic (q.printed d) (some d)
      constructor
      · intro hfits
        rw [hwritten.2 fun hnull => absurd hnull hfits] at hp'
        refine ⟨_, ⟨hcall, ?_, rfl⟩, hp'⟩
        rw [hrelation]
        exact hp'.relation_eq
      · rintro hnot result ⟨hresult, hafter, -⟩
        cases hcall.symm.trans hresult
        rw [hrelation] at hafter
        refine hnot fun hnull => ?_
        cases hwritten.1 (hp'.relation_eq.symm.trans hafter) hnull
  | unregister topic identifier =>
    obtain ⟨p', hrun, hp'⟩ := h.unregister topic identifier
    refine ⟨fun _ => ⟨(p', .done), ⟨by simp [EndpointPool.call, hrun], ?_, trivial⟩, hp'⟩,
      fun hnot => absurd trivial hnot⟩
    rw [hrelation]
    exact hp'.relation_eq
  | getRegistered topic =>
    obtain ⟨hfits, hfull⟩ := h.getRegistered topic
    constructor
    · intro hroom
      obtain ⟨p', result, hrun, hp', hanswers⟩ := hfits hroom
      refine ⟨(p', .registered result), ⟨by simp [EndpointPool.call, hrun], ?_, ?_⟩, hp'⟩
      · rw [hrelation]; exact hp'.relation_eq
      · rwa [hrelation]
    · rintro hnot result ⟨hresult, -, -⟩; simp [EndpointPool.call, hfull hnot] at hresult
  | isRegistedByContent topic content =>
    obtain ⟨n, hrun, hzero⟩ := h.isRegistedByContent topic content
    have hcall : p.call q (.isRegistedByContent topic content) = some (p, .isRegisted n) := by
      simp [EndpointPool.call, hrun]
    have hunknown : topic ∉ known ∧ content ≠ none → ¬ ∃ id, R topic id = some content := by
      rintro ⟨hmem, -⟩ ⟨id, hid⟩
      rcases h.table topic with ⟨-, -, hnone⟩ | ⟨a, t, hknown, -⟩
      · rw [hnone] at hid; cases hid
      · exact hmem hknown
    constructor
    · intro hfits
      refine ⟨_, ⟨hcall, rfl, ?_⟩, h⟩
      rw [hrelation]
      refine ⟨fun hn => hfits.resolve_right fun hright => hn (hzero.2 hright), fun hsome hn => ?_⟩
      exact hunknown (hzero.1 hn) hsome
    rintro hnot result ⟨hresult, -, hanswers⟩
    cases hcall.symm.trans hresult
    rw [hrelation] at hanswers
    refine hnot ?_
    by_cases hn : n = 0
    · exact .inr (hzero.1 hn)
    · exact .inl (hanswers.1 hn)

theorem Represents.fits_iff (h : Represents q p R known) (cs : List (Call K D)) :
    p.Refines q cs ↔ Fits q R known cs := by
  induction cs generalizing p R known with
  | nil => exact Iff.rfl
  | cons c cs ih =>
    obtain ⟨hfits, hnot⟩ := h.call c
    constructor
    · rintro ⟨result, hright, hrest⟩
      have hc : c.Fits q R known := by
        by_contra hc; exact hnot hc result hright
      obtain ⟨result', hright', hrepresents⟩ := hfits hc
      cases hright.1.symm.trans hright'.1
      exact ⟨hc, (ih hrepresents).1 hrest⟩
    · rintro ⟨hc, hrest⟩
      obtain ⟨result, hright, hrepresents⟩ := hfits hc
      exact ⟨result, hright, (ih hrepresents).2 hrest⟩

/-- **A pool refines its relation** just as long as the calls fit. -/
theorem refines_iff (q : Platform K D) (cs : List (Call K D)) :
    (EndpointPool.create : EndpointPool K D).Refines q cs ↔ Fits q (fun _ _ => none) [] cs :=
  (represents_create q).fits_iff cs

end

/-! ### Runs that do not fit -/

/-- Strings and pointers by their numbers, on a machine of 64 bits. -/
def numbered : Platform Nat Nat := ⟨id, id, fun _ => 0, 8⟩

/-- `n` endpoints of one topic. -/
def registrations (n : Nat) : List (Call Nat Nat) :=
  (List.range n).map fun i => .registerWithIdentifier 0 i (some i)

theorem fits_append {q : Platform K D} {R : Relation K D} {known : List K} {cs ds : List (Call K D)}
    (h : Fits q R known (cs ++ ds)) :
    ∃ known', Fits q (cs.foldl (Relation.apply q) R) known' ds := by
  induction cs generalizing R known with
  | nil => exact ⟨known, h⟩
  | cons c cs ih => exact ih h.2

theorem registrations_isSome (n i : Nat) (hi : i < n) :
    ((registrations n).foldl (Relation.apply numbered) (fun _ _ => none) 0 i).isSome := by
  induction n with
  | zero => exact absurd hi (Nat.not_lt_zero i)
  | succ n ih =>
    have hsplit : registrations (n + 1) =
        registrations n ++ [.registerWithIdentifier 0 n (some n)] := by
      rw [registrations, range_succ, map_append]
      rfl
    rw [hsplit, foldl_append]
    show (Relation.register _ 0 n (some n) 0 i).isSome
    unfold Relation.register
    split_ifs with hthere
    · rcases Nat.lt_succ_iff_lt_or_eq.1 hi with hlt | rfl
      · exact ih hlt
      · exact hthere
    · rw [update_self]
      by_cases hin : i = n
      · rw [hin, update_self]; rfl
      · rw [update_of_ne hin]; exact ih (by omega)

/-- Other content of a topic counts as registered, null gives way to data, and the endpoint after
the first 128 is written behind the buffer. -/
theorem not_refines :
    ¬ EndpointPool.create.Refines numbered
      [.registerWithIdentifier 0 1 (some 1), .isRegistedByContent 0 (some 2)] ∧
    ¬ EndpointPool.create.Refines numbered
      [.registerWithIdentifier 0 1 none, .registerWithIdentifier 0 1 (some 1)] ∧
    ¬ EndpointPool.create.Refines numbered (registrations 129 ++ [.getRegistered 0]) := by
  refine ⟨fun h => ?_, fun h => ?_, fun h => ?_⟩
  · have hfits := ((represents_create numbered).fits_iff _).1 h
    rcases hfits.2.1 with ⟨id, hid⟩ | ⟨hmem, -⟩
    · have hrow :
          Function.update (fun _ : Nat => (none : Option (Option Nat))) 1 (some (some 1)) id =
          some (some 2) := hid
      by_cases hone : id = 1
      · rw [hone] at hrow; cases hrow
      · rw [update_of_ne hone] at hrow; cases hrow
    · exact hmem (by decide)
  · have hfits := ((represents_create numbered).fits_iff _).1 h
    cases hfits.2.1 rfl
  · obtain ⟨known, hfits⟩ := fits_append (((represents_create numbered).fits_iff _).1 h)
    have hroom := hfits.1 (List.range 129) nodup_range fun id hid =>
      registrations_isSome 129 id (List.mem_range.1 hid)
    rw [length_range] at hroom
    exact nomatch hroom

end Qpid

end Mama

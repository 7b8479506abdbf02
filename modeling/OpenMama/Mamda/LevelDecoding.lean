import OpenMama.Mamda.ListenerFrame

/-!
# What the listener decodes

Every level and every entry of a message is decoded through the one
`BookMsgFields` of the listener.  `Listener.decode` is what it reads for a level:
price, side, action and size, and the id, action and size of the entries attached
to it, each as the fields have it when the submessage has been walked
(`entriesSeen_eq`: that is what `processEntry` is given).

`Listener.extracts` follows `createDelta` along the levels of a message.
`extracts_iff` says when the levels before a level have no part in what is read
for it.  A level of a message with vectors starts from cleared level fields, but
an entry may omit what an earlier level left, and `Listener.entryLeft` is what that
is: only a level whose entries are gone through clears it.  A level of a message
with numbered fields starts from the level fields of the one before, too.
-/

namespace Mamda

open Mama Lib List

/-! ## Looking fields up -/

namespace EntryField

def id? : EntryField → Option String
  | .entryId id => some id
  | _ => none

def action? : EntryField → Option Action
  | .entryAction a => some a
  | _ => none

def size? : EntryField → Option Nat
  | .entrySize n => some n
  | _ => none

end EntryField

namespace LevelField

def price? : LevelField → Option Price
  | .plPrice p => some p
  | _ => none

def side? : LevelField → Option Side
  | .plSide s => some s
  | _ => none

def action? : LevelField → Option Action
  | .plAction a => some a
  | _ => none

def size? : LevelField → Option Int
  | .plSize n => some n
  | _ => none

def entries? : LevelField → Option (List EntryMsg)
  | .plEntries es => some es
  | _ => none

def entry? : LevelField → Option EntryField
  | .entry f => some f
  | _ => none

def numbered? : LevelField → Option EntryMsg
  | .plEntry e => some e
  | _ => none

/-- What a field says of the number of entries attached. -/
def attach? : LevelField → Option Nat
  | .plNumAttach n => some (getU32 n)
  | .plEntries es => some es.length
  | _ => none

end LevelField

/-- The entry fields that are flattened into the message of a level. -/
def flatEntry (msg : LevelMsg) : EntryMsg := msg.filterMap LevelField.entry?

/-! ## The last field of a kind -/

section Fields

variable {φ α : Type}

/-- The last value of a kind, `a` if there is none. -/
def lastOf (sel : φ → Option α) (a : α) (msg : List φ) : α :=
  msg.foldl (fun a f => (sel f).getD a) a

variable {sel : φ → Option α}

theorem foldl_part {β : Type} {step : β → φ → β} {part : β → α}
    (h : ∀ b f, part (step b f) = (sel f).getD (part b)) (msg : List φ) (b : β) :
    part (msg.foldl step b) = lastOf sel (part b) msg :=
  (foldl_hom part fun b f => (h b f).symm).symm

theorem lastOf_append (sel : φ → Option α) (a : α) (msg msg' : List φ) :
    lastOf sel a (msg ++ msg') = lastOf sel (lastOf sel a msg) msg' := foldl_append

/-- A field that is noted only while entries are taken. -/
def taken (takesEntries : Bool) (sel : φ → Option α) (f : φ) : Option α :=
  if takesEntries then sel f else none

def Gives (sel : φ → Option α) (msg : List φ) : Prop := msg.any fun f => (sel f).isSome

instance (sel : φ → Option α) (msg : List φ) : Decidable (Gives sel msg) :=
  inferInstanceAs (Decidable (_ = true))

theorem lastOf_eq_iff (sel : φ → Option α) (a b : α) (msg : List φ) :
    lastOf sel a msg = lastOf sel b msg ↔ Gives sel msg ∨ a = b := by
  induction msg generalizing a b with
  | nil => simp [lastOf, Gives]
  | cons f msg ih =>
    show lastOf sel ((sel f).getD a) msg = lastOf sel ((sel f).getD b) msg ↔ _
    rw [ih]
    cases hf : sel f with
    | none => simp [Gives, hf]
    | some v => simp [Gives, hf]

theorem lastOf_of_not_gives {sel : φ → Option α} {msg : List φ} (a : α) (h : ¬ Gives sel msg) :
    lastOf sel a msg = a := by
  induction msg with
  | nil => rfl
  | cons f msg ih =>
    rw [Gives, any_cons, Bool.or_eq_true, not_or, Bool.not_eq_true, Option.isSome_eq_false_iff,
      Option.isNone_iff_eq_none] at h
    show lastOf sel ((sel f).getD a) msg = a
    rw [h.1]
    exact ih h.2

end Fields

structure EntryTuple where
  id : Option String
  action : Action
  size : Nat
  deriving DecidableEq, Repr

/-- What is read for a level and the entries attached to it. -/
structure LevelTuple where
  price : Price
  side : Side
  action : Action
  size : Int
  entries : List EntryTuple
  deriving DecidableEq, Repr

namespace BookMsgFields

def entryTuple (f : BookMsgFields) : EntryTuple := ⟨f.entryId, f.entryAction, f.entrySize⟩

/-- The entries of submessages, each cleared before the next. -/
def entryTuples (takesEntries : Bool) : BookMsgFields → List EntryMsg → List EntryTuple
  | _, [] => []
  | f, msg :: msgs =>
    let g := f.processEntryMessage takesEntries msg
    g.entryTuple :: entryTuples takesEntries g.clearEntry msgs

variable {f g : BookMsgFields}

theorem onEntryField_congr (h : f.entryTuple = g.entryTuple) (t : Bool) (e : EntryField) :
    (f.onEntryField t e).entryTuple = (g.onEntryField t e).entryTuple := by
  injection h with hid haction hsize
  cases e <;> cases t <;>
    simp [onEntryField, entryTuple, hid, haction, hsize]

theorem foldl_onEntryField_congr (t : Bool) (msg : EntryMsg) (h : f.entryTuple = g.entryTuple) :
    (msg.foldl (onEntryField t) f).entryTuple = (msg.foldl (onEntryField t) g).entryTuple :=
  List.foldl_rel (r := fun f g => entryTuple f = entryTuple g) h
    fun e _ _ _ h => onEntryField_congr h t e

theorem entryTuple_processEntryMessage (t : Bool) (f : BookMsgFields) (msg : EntryMsg) :
    (f.processEntryMessage t msg).entryTuple = (msg.foldl (onEntryField t) f).entryTuple := by
  unfold processEntryMessage
  dsimp only
  split <;> rfl

end BookMsgFields

/-- The entry over which the fields `es` are noted. -/
def EntryTuple.noted (t : Bool) (e : EntryTuple) (es : EntryMsg) : EntryTuple where
  id := lastOf (taken t fun f : EntryField => f.id?.map some) e.id es
  action := lastOf (taken t EntryField.action?) e.action es
  size := lastOf (taken t EntryField.size?) e.size es

/-- What `es` omits is the same in the two entries. -/
structure EntryTuple.Same (t : Bool) (es : EntryMsg) (e e' : EntryTuple) : Prop where
  id : Gives (taken t EntryField.id?) es ∨ e.id = e'.id
  action : Gives (taken t EntryField.action?) es ∨ e.action = e'.action
  size : Gives (taken t EntryField.size?) es ∨ e.size = e'.size

def noEntry : EntryTuple := ⟨none, .delete, 0⟩

section

variable {t : Bool} {e e' : EntryTuple} {es : EntryMsg}

theorem EntryTuple.noted_append (es es' : EntryMsg) :
    e.noted t (es ++ es') = (e.noted t es).noted t es' := by
  simp only [noted, lastOf_append]

theorem EntryTuple.noted_eq_iff : e.noted t es = e'.noted t es ↔ Same t es e e' := by
  have hid : Gives (taken t fun f : EntryField => f.id?.map some) es ↔
      Gives (taken t EntryField.id?) es := by
    unfold Gives taken
    cases t <;> simp
  unfold noted
  rw [EntryTuple.mk.injEq, lastOf_eq_iff, lastOf_eq_iff, lastOf_eq_iff, hid]
  constructor
  · rintro ⟨h₁, h₂, h₃⟩; exact ⟨h₁, h₂, h₃⟩
  · intro h; exact ⟨h.id, h.action, h.size⟩

namespace BookMsgFields

theorem entryTuple_foldl (t : Bool) (es : EntryMsg) (f : BookMsgFields) :
    (es.foldl (onEntryField t) f).entryTuple = f.entryTuple.noted t es := by
  have hid : (es.foldl (onEntryField t) f).entryId =
      lastOf (taken t fun f : EntryField => f.id?.map some) f.entryId es :=
    foldl_part (fun f e => by cases t <;> cases e <;> rfl) es f
  have haction : (es.foldl (onEntryField t) f).entryAction =
      lastOf (taken t EntryField.action?) f.entryAction es :=
    foldl_part (fun f e => by cases t <;> cases e <;> rfl) es f
  have hsize : (es.foldl (onEntryField t) f).entrySize =
      lastOf (taken t EntryField.size?) f.entrySize es :=
    foldl_part (fun f e => by cases t <;> cases e <;> rfl) es f
  rw [entryTuple, EntryTuple.noted, hid, haction, hsize]
  rfl

theorem entryTuple_entry (t : Bool) (es : EntryMsg) (f : BookMsgFields) :
    (f.processEntryMessage t es).entryTuple = f.entryTuple.noted t es := by
  rw [entryTuple_processEntryMessage, entryTuple_foldl]

theorem entryTuple_levelWalk (t : Bool) (msg : LevelMsg) (f : BookMsgFields) :
    (msg.foldl (onLevelField t) f).entryTuple =
      ((flatEntry msg).foldl (onEntryField t) f).entryTuple := by
  induction msg generalizing f with
  | nil => rfl
  | cons l msg ih =>
    show (msg.foldl (onLevelField t) (f.onLevelField t l)).entryTuple = _
    rw [ih]
    cases l with
    | entry e => rfl
    | _ => exact foldl_onEntryField_congr t _ (by cases t <;> rfl)

/-- The entries of submessages: the first is read over what the fields have, each other one over
cleared fields. -/
def readFrom (t : Bool) (e : EntryTuple) : List EntryMsg → List EntryTuple
  | [] => []
  | msg :: msgs => e.noted t msg :: msgs.map (noEntry.noted t)

theorem entryTuples_eq (msgs : List EntryMsg) (f : BookMsgFields) :
    entryTuples t f msgs = readFrom t f.entryTuple msgs := by
  induction msgs generalizing f with
  | nil => rfl
  | cons msg msgs ih =>
    have hrest : readFrom t noEntry msgs = msgs.map (noEntry.noted t) := by cases msgs <;> rfl
    show _ :: entryTuples t (f.processEntryMessage t msg).clearEntry msgs = _
    rw [ih, entryTuple_entry, readFrom, ← hrest]
    rfl

/-! ## What a level message makes of the fields -/

/-- The noting of a level message, but for the time. -/
theorem processLevelMessage_part {α : Type} {part : BookMsgFields → α}
    (htime : ∀ (f : BookMsgFields) d, part { f with plTime := d } = part f) (t : Bool)
    (f : BookMsgFields) (msg : LevelMsg) : part (f.processLevelMessage t msg) =
      part (msg.foldl (onLevelField t) { f with entryVector := none, entries := [] }) := by
  unfold processLevelMessage
  dsimp only
  split
  · exact htime _ _
  · rfl

theorem processLevelMessage_lastOf {α : Type} {part : BookMsgFields → α}
    {sel : LevelField → Option α} (t : Bool)
    (htime : ∀ (f : BookMsgFields) d, part { f with plTime := d } = part f)
    (hlevel : ∀ f l, part (onLevelField t f l) = (sel l).getD (part f))
    (f : BookMsgFields) (msg : LevelMsg) : part (f.processLevelMessage t msg) =
      lastOf sel (part { f with entryVector := none, entries := [] }) msg := by
  rw [processLevelMessage_part htime, foldl_part hlevel]

end BookMsgFields

end

/-! ## Entries attached to a level -/

namespace Attached

variable (t : Bool) (msg : LevelMsg)

/-- The number of entries attached, `n` if the level does not say. -/
def number (n : Nat) : Nat := lastOf (taken t LevelField.attach?) n msg

def vector? : Option (List EntryMsg) :=
  lastOf (taken t fun l : LevelField => l.entries?.map some) none msg

def numbered : List EntryMsg := msg.filterMap LevelField.numbered?

/-- The entries that are read over a cache that holds the number `n` and the entry `e`. -/
def tuples (n : Nat) (e : EntryTuple) : List EntryTuple :=
  if number t msg n = 0 then []
  else
    let e' := e.noted t (flatEntry msg)
    match vector? t msg with
    | some v => BookMsgFields.readFrom t e' (v.take (number t msg n))
    | none =>
      if numbered msg = [] ∧ e'.id ≠ none then [e'] else BookMsgFields.readFrom t e' (numbered msg)

/-- When the entries are the same over two caches: the first of them takes nothing from the cache
that differs, and there is the same number of them.  A flattened entry is one if it has an id. -/
def Alike (n n' : Nat) (e e' : EntryTuple) : Prop :=
  let same (es : EntryMsg) := EntryTuple.Same t (flatEntry msg ++ es) e e'
  match vector? t msg, numbered msg with
  | some v, _ => number t msg n = 0 ∨ ∀ m ∈ v.head?, same m
  | none, m :: _ =>
    (number t msg n = 0 ∧ number t msg n' = 0) ∨
      (number t msg n ≠ 0 ∧ number t msg n' ≠ 0 ∧ same m)
  | none, [] =>
    ((number t msg n = 0 ∨ (e.noted t (flatEntry msg)).id = none) ∧
        (number t msg n' = 0 ∨ (e'.noted t (flatEntry msg)).id = none)) ∨
      (number t msg n ≠ 0 ∧ number t msg n' ≠ 0 ∧ same [])

variable {t msg} {n n' : Nat} {e e' : EntryTuple}

/-- A vector says how many entries there are. -/
theorem number_of_vector {v : List EntryMsg} (hv : vector? t msg = some v) (n n' : Nat) :
    number t msg n = number t msg n' := by
  refine (lastOf_eq_iff _ n n' msg).mpr (.inl ?_)
  have hgives : Gives (taken t fun l : LevelField => l.entries?.map some) msg := by
    by_contra hno
    rw [vector?, lastOf_of_not_gives none hno] at hv
    cases hv
  obtain ⟨l, hl, hsome⟩ := any_eq_true.mp hgives
  refine any_eq_true.mpr ⟨l, hl, ?_⟩
  unfold taken at hsome ⊢
  cases t <;> cases l <;> first | rfl | cases hsome

theorem readFrom_eq_iff (m : EntryMsg) (ms : List EntryMsg) :
    BookMsgFields.readFrom t (e.noted t (flatEntry msg)) (m :: ms) =
        BookMsgFields.readFrom t (e'.noted t (flatEntry msg)) (m :: ms) ↔
      EntryTuple.Same t (flatEntry msg ++ m) e e' := by
  rw [← EntryTuple.noted_eq_iff, EntryTuple.noted_append, EntryTuple.noted_append]
  simp [BookMsgFields.readFrom]

theorem tuples_eq_iff : tuples t msg n e = tuples t msg n' e' ↔ Alike t msg n n' e e' := by
  unfold tuples Alike
  dsimp only
  cases hv : vector? t msg with
  | some v =>
    rw [number_of_vector hv n' n]
    by_cases h0 : number t msg n = 0
    · simp [h0]
    rw [if_neg h0, if_neg h0]
    dsimp only
    cases v with
    | nil => simp [BookMsgFields.readFrom]
    | cons m ms =>
      obtain ⟨k, hk⟩ := Nat.exists_eq_succ_of_ne_zero h0
      rw [hk, take_succ_cons, readFrom_eq_iff]
      simp
  | none =>
    cases hm : numbered msg with
    | cons m ms =>
      by_cases h0 : number t msg n = 0 <;> by_cases h0' : number t msg n' = 0
      · simp [h0, h0']
      · simp [h0, h0', BookMsgFields.readFrom]
      · simp [h0, h0', BookMsgFields.readFrom]
      · have hiff := @readFrom_eq_iff t msg e e' m ms
        simpa [h0, h0'] using hiff
    | nil =>
      have hiff := @EntryTuple.noted_eq_iff t e e' (flatEntry msg)
      rw [append_nil, ← hiff]
      by_cases h0 : number t msg n = 0 <;> by_cases h0' : number t msg n' = 0 <;>
        by_cases hid : (e.noted t (flatEntry msg)).id = none <;>
        by_cases hid' : (e'.noted t (flatEntry msg)).id = none <;>
        simp [h0, h0', hid, hid', BookMsgFields.readFrom]
      · intro h; exact hid' (h ▸ hid)
      · intro h; exact hid (h ▸ hid')

end Attached

namespace Listener

/-- The entries that `processEntries` reads for the level in the fields. -/
def attachedEntries (x : Listener) : List EntryTuple :=
  if x.levelsOnly then []
  else if x.fields.plNumAttach = 0 then []
  else
    match x.fields.entryVector with
    | some v => x.fields.entryTuples x.takesEntries (v.take x.fields.plNumAttach)
    | none =>
      if x.fields.entries = [] ∧ x.fields.entryId ≠ none then [x.fields.entryTuple]
      else x.fields.entryTuples x.takesEntries x.fields.entries

/-- The listener with the fields of a level submessage noted. -/
def noteLevel (clear : Bool) (x : Listener) (msg : LevelMsg) : Listener :=
  let f := if clear then x.fields.clearPriceLevel else x.fields
  { x with fields := f.processLevelMessage x.takesEntries msg }

theorem processLevelSubMsg_eq (clear : Bool) (x : Listener) (msg : LevelMsg) :
    processLevelSubMsg clear x msg = (x.noteLevel clear msg).processLevel := rfl

def decode (clear : Bool) (x : Listener) (msg : LevelMsg) : LevelTuple :=
  let y := x.noteLevel clear msg
  ⟨y.fields.plPrice, y.fields.plSide, y.fields.plAction, y.fields.plSize, y.attachedEntries⟩

/-- What `createDelta` reads for the levels of a message, as far as it gets. -/
def extracts (clear : Bool) (x : Listener) : List LevelMsg → List LevelTuple
  | [] => []
  | msg :: msgs =>
    x.decode clear msg ::
      match processLevelSubMsg clear x msg with
      | .ok y => y.extracts clear msgs
      | .error _ => []

variable {x y : Listener}

theorem control_noteLevel (clear : Bool) (x : Listener) (msg : LevelMsg) :
    (x.noteLevel clear msg).control = x.control := by
  refine x.control_fields ((bookType_processLevelMessage _ _ msg).trans ?_)
  cases clear <;> rfl

/-- What `processEntry` is given, one entry after the other. -/
def entriesSeen (x : Listener) (l : PriceLevel) (plAction : Action) : List EntryTuple :=
  let seen := fun (msgs : List EntryMsg) (r : Listener × PriceLevel) =>
    (msgs.foldl (fun (s : List EntryTuple × Listener × PriceLevel) msg =>
      (s.1 ++ [(s.2.1.fields.processEntryMessage s.2.1.takesEntries msg).entryTuple],
        processEntrySubMsg plAction s.2 msg)) ([], r)).1
  if x.levelsOnly then []
  else if x.fields.plNumAttach = 0 then []
  else
    match x.fields.entryVector with
    | some v => seen (v.take x.fields.plNumAttach) (x, l)
    | none =>
      if x.fields.entries = [] ∧ x.fields.entryId ≠ none then [x.fields.entryTuple]
      else seen x.fields.entries (x, l)

theorem foldl_entriesSeen (plAction : Action) (msgs : List EntryMsg) (seen : List EntryTuple)
    (r : Listener × PriceLevel) :
    (msgs.foldl (fun (s : List EntryTuple × Listener × PriceLevel) msg =>
      (s.1 ++ [(s.2.1.fields.processEntryMessage s.2.1.takesEntries msg).entryTuple],
        processEntrySubMsg plAction s.2 msg)) (seen, r)).1 =
      seen ++ BookMsgFields.readFrom r.1.takesEntries r.1.fields.entryTuple msgs := by
  induction msgs generalizing seen r with
  | nil => exact (append_nil seen).symm
  | cons msg msgs ih =>
    have htakes : (processEntrySubMsg plAction r msg).1.takesEntries = r.1.takesEntries :=
      takesEntries_of_control (control_processEntrySubMsg plAction r msg)
    have hrest : ∀ t, BookMsgFields.readFrom t noEntry msgs = msgs.map (noEntry.noted t) := by
      intro t
      cases msgs <;> rfl
    rw [foldl_cons, ih, htakes, append_assoc, BookMsgFields.entryTuple_entry]
    exact congrArg (fun ts => seen ++ (_ :: ts)) (hrest _)

/-- What is decoded for a level is what `processEntry` is given. -/
theorem entriesSeen_eq (x : Listener) (l : PriceLevel) (plAction : Action) :
    x.entriesSeen l plAction = x.attachedEntries := by
  unfold entriesSeen attachedEntries
  dsimp only
  simp only [foldl_entriesSeen, nil_append, BookMsgFields.entryTuples_eq]

/-! ### What a level leaves behind -/

theorem processLevelPart1_fields {z : Listener} {level : Option PriceLevel}
    (h : x.processLevelPart1 = .ok (z, level)) :
    ∃ a, z.fields = { x.fields with plAction := a } := by
  unfold processLevelPart1 at h
  split at h
  · cases h
  · dsimp only at h
    split at h
    · split at h <;> cases h <;> exact ⟨_, rfl⟩
    · cases h; exact ⟨_, rfl⟩

theorem processLevelPart1_none {z : Listener} (h : x.processLevelPart1 = .ok (z, none)) :
    x.fields.plAction = .delete ∧
      ∃ s, x.fields.plSide.book? = some s ∧ x.book.findLevel s x.fields.plPrice = none := by
  unfold processLevelPart1 at h
  split at h
  · cases h
  next s hs =>
  dsimp only at h
  split at h
  · next hdel =>
    split at h
    · next hnone => exact ⟨hdel, s, hs, hnone⟩
    · cases h
  · cases h

theorem processLevelPart1_some {z : Listener} {l : PriceLevel}
    (h : x.processLevelPart1 = .ok (z, some l)) : ¬ (x.fields.plAction = .delete ∧
      ∃ s ∈ x.fields.plSide.book?, x.book.findLevel s x.fields.plPrice = none) := by
  rintro ⟨hdel, s, hs, hnone⟩
  unfold processLevelPart1 at h
  rw [hs] at h
  dsimp only at h
  rw [if_pos hdel, hnone] at h
  cases h

/-- Whether the entries of the level in the fields are gone through, so that the entry fields are
cleared: it is not a DELETE of a price that is not in the book, and it has an entry. -/
def ClearsEntry (x : Listener) : Prop :=
  x.levelsOnly = false ∧ x.fields.plNumAttach ≠ 0 ∧
    (x.fields.entryVector ≠ none ∨ x.fields.entries ≠ [] ∨ x.fields.entryId ≠ none) ∧
    ¬ (x.fields.plAction = .delete ∧
      ∃ s ∈ x.fields.plSide.book?, x.book.findLevel s x.fields.plPrice = none)

instance (x : Listener) : Decidable x.ClearsEntry := by
  unfold ClearsEntry
  infer_instance

/-- The entry in the cache after some levels: nothing where one of them has cleared it since a
field of it came. -/
def entryLeft (clear : Bool) : Listener → EntryTuple → List LevelMsg → EntryTuple
  | _, e, [] => e
  | x, e, msg :: msgs =>
    let e :=
      if (x.noteLevel clear msg).ClearsEntry then noEntry
      else e.noted x.takesEntries (flatEntry msg)
    match processLevelSubMsg clear x msg with
    | .ok y => entryLeft clear y e msgs
    | .error _ => e

theorem entryTuple_noteLevel (clear : Bool) (x : Listener) (msg : LevelMsg) :
    (x.noteLevel clear msg).fields.entryTuple =
      x.fields.entryTuple.noted x.takesEntries (flatEntry msg) := by
  have hnoted : ∀ f : BookMsgFields,
      (f.processLevelMessage x.takesEntries msg).entryTuple =
        f.entryTuple.noted x.takesEntries (flatEntry msg) := by
    intro f
    have hpart := @BookMsgFields.processLevelMessage_part _ BookMsgFields.entryTuple
      (fun _ _ => rfl) x.takesEntries f msg
    rw [hpart, BookMsgFields.entryTuple_levelWalk, BookMsgFields.entryTuple_foldl]
    rfl
  cases clear <;> exact hnoted _

theorem deleteShownEntries_fields (l : PriceLevel) (shown : List Entry) :
    (x.deleteShownEntries l shown).1.fields = x.fields := by
  induction shown generalizing x l with
  | nil => rfl
  | cons e es ih => exact ih _

theorem processLevelPart2_fields (l : PriceLevel) :
    (x.processLevelPart2 l).fields = x.fields := by
  unfold processLevelPart2
  dsimp only
  (repeat' split) <;> rfl

theorem foldl_processEntrySubMsg_entryTuple {plAction : Action} {msgs : List EntryMsg}
    (hne : msgs ≠ []) (r : Listener × PriceLevel) :
    (msgs.foldl (processEntrySubMsg plAction) r).1.fields.entryTuple = noEntry := by
  obtain ⟨msgs, m, rfl⟩ := (eq_nil_or_concat msgs).resolve_left hne
  rw [concat_eq_append, foldl_append]
  rfl

theorem processEntries_entryTuple {l : PriceLevel} {plAction : Action} {r : Listener × PriceLevel}
    (h : x.processEntries l plAction = .ok r) : r.1.fields.entryTuple =
      if x.levelsOnly = false ∧ x.fields.plNumAttach ≠ 0 ∧
          (x.fields.entryVector ≠ none ∨ x.fields.entries ≠ [] ∨ x.fields.entryId ≠ none) then
        noEntry
      else x.fields.entryTuple := by
  unfold processEntries at h
  split at h
  · next hl => cases h; rw [if_neg (by simp [hl])]
  next hl =>
  split at h
  · next h0 =>
    rw [if_neg (by simp [h0])]
    dsimp only at h
    split at h <;> cases h
    · rfl
    · rw [congrArg BookMsgFields.entryTuple (deleteShownEntries_fields _ _)]
  next h0 =>
  split at h
  · next v hv =>
    split at h
    · next hle =>
      cases h
      rw [if_pos ⟨by simpa using hl, h0, .inl (by simp [hv])⟩]
      refine foldl_processEntrySubMsg_entryTuple ?_ _
      rw [← length_pos_iff, length_take]
      omega
    · cases h
  next hv =>
  split at h
  · next hflat =>
    rw [if_pos ⟨by simpa using hl, h0, .inr (.inr hflat.2)⟩]
    cases h
    rfl
  next hflat =>
  cases h
  by_cases hne : x.fields.entries = []
  · have hid : x.fields.entryId = none := by
      by_contra hid
      exact hflat ⟨hne, hid⟩
    rw [if_neg (by simp [hv, hne, hid]), hne]
    rfl
  · rw [if_pos ⟨by simpa using hl, h0, .inr (.inl hne)⟩]
    exact foldl_processEntrySubMsg_entryTuple hne _

theorem processLevel_entryTuple (h : x.processLevel = .ok y) :
    y.fields.entryTuple = if x.ClearsEntry then noEntry else x.fields.entryTuple := by
  have hkeeps := x.processLevelPart1_keeps
  unfold processLevel at h
  cases hp : x.processLevelPart1 with
  | error stop => rw [hp] at h; cases h
  | ok r =>
    obtain ⟨z, level⟩ := r
    rw [hp] at h hkeeps
    obtain ⟨a, hfields⟩ := processLevelPart1_fields hp
    cases level with
    | none =>
      cases h
      obtain ⟨hdel, s, hs, hnone⟩ := processLevelPart1_none hp
      rw [if_neg fun hc => hc.2.2.2 ⟨hdel, s, hs, hnone⟩, hfields]
      rfl
    | some l =>
      change (z.processEntries l z.fields.plAction >>= fun r =>
        (.ok (r.1.processLevelPart2 r.2) : Handled Listener)) = .ok y at h
      cases hr : z.processEntries l z.fields.plAction with
      | error stop => rw [hr] at h; cases h
      | ok r =>
        rw [hr] at h
        cases h
        rw [congrArg BookMsgFields.entryTuple (processLevelPart2_fields _),
          processEntries_entryTuple hr, levelsOnly_of_control hkeeps, hfields]
        simp only [ClearsEntry, processLevelPart1_some hp, not_false_eq_true, and_true]
        rfl

/-- **One level**: what is left of an entry is what the fields of the level make of it, unless its
entries are gone through. -/
theorem entryTuple_processLevelSubMsg {clear : Bool} {msg : LevelMsg}
    (h : processLevelSubMsg clear x msg = .ok y) : y.fields.entryTuple =
      if (x.noteLevel clear msg).ClearsEntry then noEntry
      else x.fields.entryTuple.noted x.takesEntries (flatEntry msg) := by
  rw [← entryTuple_noteLevel clear x msg]
  exact processLevel_entryTuple h

theorem entryTuple_foldlM {clear : Bool} {before : List LevelMsg}
    (h : before.foldlM (processLevelSubMsg clear) x = .ok y) :
    y.fields.entryTuple = entryLeft clear x x.fields.entryTuple before := by
  induction before generalizing x with
  | nil => cases h; rfl
  | cons msg before ih =>
    rw [foldlM_cons] at h
    cases hs : processLevelSubMsg clear x msg with
    | error stop => rw [hs] at h; cases h
    | ok z =>
      rw [hs] at h
      rw [ih h, entryTuple_processLevelSubMsg hs, entryLeft, hs]

/-! ## Independence -/

theorem noteLevel_lastOf {α : Type} {part : BookMsgFields → α} {sel : LevelField → Option α}
    (htime : ∀ (f : BookMsgFields) d, part { f with plTime := d } = part f)
    (hlevel : ∀ f l, part (BookMsgFields.onLevelField x.takesEntries f l) = (sel l).getD (part f))
    (clear : Bool) (msg : LevelMsg) : part (x.noteLevel clear msg).fields =
      lastOf sel (part { (if clear then x.fields.clearPriceLevel else x.fields) with
        entryVector := none, entries := [] }) msg :=
  BookMsgFields.processLevelMessage_lastOf x.takesEntries htime hlevel _ msg

theorem numbered_noteLevel (clear : Bool) (msg : LevelMsg) :
    (x.noteLevel clear msg).fields.entries = Attached.numbered msg := by
  have hfold : ∀ (ls : LevelMsg) (f : BookMsgFields),
      (ls.foldl (BookMsgFields.onLevelField x.takesEntries) f).entries =
        f.entries ++ Attached.numbered ls := by
    intro ls
    induction ls with
    | nil => intro f; exact (append_nil _).symm
    | cons l ls ih =>
      intro f
      rw [foldl_cons, ih]
      cases l with
      | plEntry e => simp [BookMsgFields.onLevelField, Attached.numbered, LevelField.numbered?]
      | entry e => cases x.takesEntries <;> cases e <;> rfl
      | plNumAttach n => cases x.takesEntries <;> rfl
      | plEntries es => cases x.takesEntries <;> rfl
      | _ => rfl
  have hpart := @BookMsgFields.processLevelMessage_part _ BookMsgFields.entries (fun _ _ => rfl)
    x.takesEntries (if clear then x.fields.clearPriceLevel else x.fields) msg
  exact hpart.trans (hfold msg _)

/-- The number of entries attached to a level that does not say. -/
def attachLeft (clear : Bool) (x : Listener) : Nat := if clear then 1 else x.fields.plNumAttach

theorem attached_noteLevel (clear : Bool) (msg : LevelMsg) :
    (x.noteLevel clear msg).attachedEntries =
      if x.levelsOnly then []
      else Attached.tuples x.takesEntries msg (x.attachLeft clear) x.fields.entryTuple := by
  have hcontrol := control_noteLevel clear x msg
  have htuple := entryTuple_noteLevel clear x msg
  have hid := congrArg EntryTuple.id htuple
  have hnumber : (x.noteLevel clear msg).fields.plNumAttach =
      Attached.number x.takesEntries msg (x.attachLeft clear) := by
    refine (@noteLevel_lastOf x _ BookMsgFields.plNumAttach (taken x.takesEntries
      LevelField.attach?) (fun _ _ => rfl) (fun f l => ?_) clear msg).trans ?_
    · cases x.takesEntries <;> cases l <;> first | rfl | (rename_i e; cases e <;> rfl)
    · cases clear <;> rfl
  have hvector : (x.noteLevel clear msg).fields.entryVector =
      Attached.vector? x.takesEntries msg := by
    refine @noteLevel_lastOf x _ BookMsgFields.entryVector (taken x.takesEntries
      fun l : LevelField => l.entries?.map some) (fun _ _ => rfl) (fun f l => ?_) clear msg
    cases x.takesEntries <;> cases l <;> first | rfl | (rename_i e; cases e <;> rfl)
  unfold attachedEntries Attached.tuples
  rw [levelsOnly_of_control hcontrol, takesEntries_of_control hcontrol, hnumber, hvector,
    numbered_noteLevel, htuple]
  have hid' : (x.noteLevel clear msg).fields.entryId =
      (x.fields.entryTuple.noted x.takesEntries (flatEntry msg)).id := hid
  rw [hid']
  simp only [BookMsgFields.entryTuples_eq, htuple]

/-- What a level of numbered fields omits is the same in the two caches. -/
structure LevelSame (msg : LevelMsg) (f g : BookMsgFields) : Prop where
  price : Gives LevelField.price? msg ∨ f.plPrice = g.plPrice
  side : Gives LevelField.side? msg ∨ f.plSide = g.plSide
  action : Gives LevelField.action? msg ∨ f.plAction = g.plAction
  size : Gives LevelField.size? msg ∨ f.plSize = g.plSize

theorem decode_part_iff {α : Type} {part : BookMsgFields → α} {sel : LevelField → Option α}
    (htime : ∀ (f : BookMsgFields) d, part { f with plTime := d } = part f)
    (hlevel : ∀ t f l, part (BookMsgFields.onLevelField t f l) = (sel l).getD (part f))
    (hentries : ∀ (f : BookMsgFields), part { f with entryVector := none, entries := [] } = part f)
    (hclear : ∀ f g : BookMsgFields, part f.clearPriceLevel = part g.clearPriceLevel)
    (clear : Bool) (msg : LevelMsg) :
    part (y.noteLevel clear msg).fields = part (x.noteLevel clear msg).fields ↔
      (clear = false → Gives sel msg ∨ part y.fields = part x.fields) := by
  have hlast : ∀ z : Listener, part (z.noteLevel clear msg).fields =
      lastOf sel (part (if clear then z.fields.clearPriceLevel else z.fields)) msg := by
    intro z
    rw [noteLevel_lastOf htime (hlevel _), hentries]
  rw [hlast, hlast, lastOf_eq_iff]
  cases clear with
  | true => simp [hclear y.fields x.fields]
  | false => simp

theorem decode_eq_iff (hcontrol : y.control = x.control) (clear : Bool) (msg : LevelMsg) :
    y.decode clear msg = x.decode clear msg ↔
      (clear = false → LevelSame msg y.fields x.fields) ∧
        (x.levelsOnly = false → Attached.Alike x.takesEntries msg (y.attachLeft clear)
          (x.attachLeft clear) y.fields.entryTuple x.fields.entryTuple) := by
  have hround : Gives (fun l : LevelField => l.price?.map roundPrice) msg ↔
      Gives LevelField.price? msg := by
    unfold Gives
    simp
  have hprice := @decode_part_iff x y _ BookMsgFields.plPrice (fun l => l.price?.map roundPrice)
    (fun _ _ => rfl)
    (fun t f l => by cases t <;> cases l <;> first | rfl | (rename_i e; cases e <;> rfl))
    (fun _ => rfl) (fun _ _ => rfl) clear msg
  have hside := @decode_part_iff x y _ BookMsgFields.plSide LevelField.side? (fun _ _ => rfl)
    (fun t f l => by cases t <;> cases l <;> first | rfl | (rename_i e; cases e <;> rfl))
    (fun _ => rfl) (fun _ _ => rfl) clear msg
  have haction := @decode_part_iff x y _ BookMsgFields.plAction LevelField.action? (fun _ _ => rfl)
    (fun t f l => by cases t <;> cases l <;> first | rfl | (rename_i e; cases e <;> rfl))
    (fun _ => rfl) (fun _ _ => rfl) clear msg
  have hsize := @decode_part_iff x y _ BookMsgFields.plSize LevelField.size? (fun _ _ => rfl)
    (fun t f l => by cases t <;> cases l <;> first | rfl | (rename_i e; cases e <;> rfl))
    (fun _ => rfl) (fun _ _ => rfl) clear msg
  have hentries : (y.noteLevel clear msg).attachedEntries =
      (x.noteLevel clear msg).attachedEntries ↔
        (x.levelsOnly = false → Attached.Alike x.takesEntries msg (y.attachLeft clear)
          (x.attachLeft clear) y.fields.entryTuple x.fields.entryTuple) := by
    rw [attached_noteLevel, attached_noteLevel, levelsOnly_of_control hcontrol,
      takesEntries_of_control hcontrol, ← Attached.tuples_eq_iff]
    cases x.levelsOnly <;> simp
  rw [hround] at hprice
  unfold decode
  rw [LevelTuple.mk.injEq, hprice, hside, haction, hsize, hentries]
  constructor
  · rintro ⟨h₁, h₂, h₃, h₄, h₅⟩; exact ⟨fun h => ⟨h₁ h, h₂ h, h₃ h, h₄ h⟩, h₅⟩
  · rintro ⟨h, h₅⟩
    exact ⟨fun hc => (h hc).price, fun hc => (h hc).side, fun hc => (h hc).action,
      fun hc => (h hc).size, h₅⟩

theorem extracts_at {clear : Bool} {before : List LevelMsg}
    (h : before.foldlM (processLevelSubMsg clear) x = .ok y) (msg : LevelMsg)
    (after : List LevelMsg) :
    (x.extracts clear (before ++ msg :: after))[before.length]? = some (y.decode clear msg) := by
  induction before generalizing x with
  | nil => cases h; rfl
  | cons first before ih =>
    rw [foldlM_cons] at h
    cases hs : processLevelSubMsg clear x first with
    | error stop => rw [hs] at h; cases h
    | ok z =>
      rw [hs] at h
      show (_ :: (match processLevelSubMsg clear x first with
        | .ok y => y.extracts clear (before ++ msg :: after)
        | .error _ => []))[before.length + 1]? = _
      rw [hs]
      exact ih h

/-- When a level reads nothing that the levels `before` it have left in the cache; `y` is the
listener after them. -/
structure ReadAlone (clear : Bool) (x y : Listener) (before : List LevelMsg) (msg : LevelMsg) :
    Prop where
  /-- Of a message with numbered fields the level fields are not cleared between two levels. -/
  level : clear = false → LevelSame msg y.fields x.fields
  entries : x.levelsOnly = false →
    Attached.Alike x.takesEntries msg (y.attachLeft clear) (x.attachLeft clear)
      (entryLeft clear x x.fields.entryTuple before) x.fields.entryTuple

end Listener

/-- A DELETE of a bid price, with the entry it is about flattened into the level. -/
def deleteLevel : LevelMsg :=
  [.plPrice 10, .plSide .bid, .plAction .delete, .entry (.entryId "A"),
    .entry (.entryAction .delete), .entry (.entrySize 7)]

def addLevel : LevelMsg := [.plPrice 11, .plSide .bid, .plAction .add, .plSize 5]

def twoLevels : BookMsg := [.msgSeqNum 1, .priceLevels [deleteLevel, addLevel]]

/-- A level with an entry that gives everything. -/
def vectorLevel : LevelMsg :=
  [.plPrice 10, .plSide .bid, .plAction .add, .plSize 7,
    .plEntries [[.entryId "A", .entryAction .add, .entrySize 7]]]

def idLevel : LevelMsg :=
  [.plPrice 11, .plSide .bid, .plAction .add, .plSize 5, .plEntries [[.entryId "B"]]]

def noted : Listener :=
  ((Listener.new 0 (fun _ => true) 0).processBookMessage twoLevels false).1

end Mamda

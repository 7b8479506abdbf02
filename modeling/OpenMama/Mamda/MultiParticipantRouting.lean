import OpenMama.Lib.Recorded
import OpenMama.Mamda.MultiParticipant

/-!
# What the manager of participants promises

The record of a run says who is registered (`registered`, `handlersOf`), which messages
came (`Seen`) and which creations were told (`creations`).  `Routing` says that every
message goes to the listeners of its participant and that the handlers that are there
at the first message of a participant hear of it once, before the message goes out.
The manager keeps it in runs where each message is named well (`WellNamed`), no callback
adds a handler, and nobody listens to a participant ahead of its first message where
handlers wait for it (`Ok`).
-/

namespace Mamda

open List Option

namespace MultiParticipant

/-! ## Participants -/

def Field.text? : Field → Option Text
  | .text s => some s
  | _ => none

def suffix (symbol : Text) : Option PartId :=
  (strrchr symbol '.').bind fun lastDot => if lastDot.tail = [] then none else some lastDot.tail

/-- The participant of a message: its id if that is not empty, or the suffix of its first
symbol. -/
def participant (x : Msg) : Option PartId :=
  match x.partId.text? with
  | some (c :: cs) => some (c :: cs)
  | _ => ([x.issueSymbol, x.indexSymbol, x.symbol].findSome? Field.text?).bind suffix

/-- The fields that name the participant are texts, a symbol that is needed does not end with a dot,
and an empty id comes with a symbol that has one or with none. -/
def WellNamed (x : Msg) : Prop :=
  match x.partId with
  | .wrongType => False
  | .text (_ :: _) => True
  | _ =>
    match [x.issueSymbol, x.indexSymbol, x.symbol].find? (· ≠ .missing) with
    | some (.text symbol) =>
      if '.' ∈ symbol then symbol.getLast? ≠ some '.' else x.partId = .missing
    | some _ => False
    | none => True

theorem strrchr_of_mem {symbol : Text} (h : '.' ∈ symbol) : ∃ lastDot,
    strrchr symbol '.' = some lastDot ∧ (lastDot.tail = [] ↔ symbol.getLast? = some '.') := by
  refine ⟨_, if_pos h, ?_⟩
  rw [← head?_reverse]
  cases hrev : symbol.reverse with
  | nil =>
    rw [reverse_eq_nil_iff] at hrev
    rw [hrev] at h
    cases h
  | cons c cs => by_cases hc : c = '.' <;> simp [hc]

theorem getSymbol_cases (x : Msg) :
    let fields := [x.issueSymbol, x.indexSymbol, x.symbol]
    (getSymbol x = .error () ∧ fields.find? (· ≠ .missing) = some .wrongType) ∨
      (getSymbol x = .ok none ∧ fields.find? (· ≠ .missing) = none ∧
        fields.findSome? Field.text? = none) ∨
      ∃ symbol, getSymbol x = .ok (some symbol) ∧
        fields.find? (· ≠ .missing) = some (.text symbol) ∧
        fields.findSome? Field.text? = some symbol := by
  obtain ⟨msgType, partId, issueSymbol, indexSymbol, symbol⟩ := x
  intro fields
  rcases issueSymbol with _ | issue | _
  · rcases indexSymbol with _ | index | _
    · rcases symbol with _ | symbol | _
      · exact .inr (.inl ⟨rfl, rfl, rfl⟩)
      · exact .inr (.inr ⟨symbol, rfl, rfl, rfl⟩)
      · exact .inl ⟨rfl, rfl⟩
    · exact .inr (.inr ⟨index, rfl, rfl, rfl⟩)
    · exact .inl ⟨rfl, rfl⟩
  · exact .inr (.inr ⟨issue, rfl, rfl, rfl⟩)
  · exact .inl ⟨rfl, rfl⟩

theorem getPartId_symbol (partId : Option PartId) {x : Msg}
    (hget : getPartId x = (getSymbol x).bind fun symbol =>
      match symbol with
      | none => .ok none
      | some symbol =>
        match strrchr symbol '.' with
        | some lastDot => .ok (some lastDot.tail)
        | none => .ok partId)
    (hpart : participant x =
      ([x.issueSymbol, x.indexSymbol, x.symbol].findSome? Field.text?).bind suffix) :
    getPartId x = .ok (participant x) ↔
      match [x.issueSymbol, x.indexSymbol, x.symbol].find? (· ≠ .missing) with
      | some (.text symbol) => if '.' ∈ symbol then symbol.getLast? ≠ some '.' else partId = none
      | some _ => False
      | none => True := by
  rw [hget, hpart]
  rcases getSymbol_cases x with ⟨hsymbol, hfind⟩ | ⟨hsymbol, hfind, hnone⟩ |
    ⟨symbol, hsymbol, hfind, hsome⟩
  · rw [hsymbol, hfind]; exact iff_of_false (fun h => nomatch h) id
  · rw [hsymbol, hfind, hnone]; exact iff_of_true rfl trivial
  rw [hsymbol, hfind, hsome]
  by_cases hdot : '.' ∈ symbol
  · obtain ⟨lastDot, hlast, htail⟩ := strrchr_of_mem hdot
    unfold suffix
    simp only [Except.bind, hlast, bind_some]
    rw [ne_eq, ← htail]
    split
    · next h => simp [h]
    · next h => simp [h]
  · have hnone : strrchr symbol '.' = none := if_neg hdot
    simp [Except.bind, hnone, suffix, hdot]

/-- **A message is taken for its participant just when it is named well.** -/
theorem getPartId_eq_iff (x : Msg) : getPartId x = .ok (participant x) ↔ WellNamed x := by
  obtain ⟨msgType, partId, issueSymbol, indexSymbol, symbol⟩ := x
  rcases partId with _ | partId | _
  · refine (getPartId_symbol none rfl rfl).trans ?_
    unfold WellNamed
    simp
  · cases partId with
    | nil =>
      refine (getPartId_symbol (some []) rfl rfl).trans ?_
      unfold WellNamed
      simp
    | cons c cs => exact iff_of_true rfl trivial
  · exact iff_of_false (fun h => nomatch h) id

/-! ## The record -/

def handlersOf (events : List Event) : List Handler :=
  events.filterMap fun
    | .call (.addHandler handler) => some handler
    | _ => none

/-- The listeners that were registered for a participant, or for the consolidated record. -/
def registered (partId : Option PartId) (events : List Event) : List Listener :=
  events.filterMap fun
    | .call (.addConsolidatedListener listener) => if partId = none then some listener else none
    | .call (.addParticipantListener listener q) => if partId = some q then some listener else none
    | _ => none

/-- The handlers that were told of the creation of a participant. -/
def creations (partId : Option PartId) (events : List Event) : List Handler :=
  events.filterMap fun
    | .create handler q => if partId = q then some handler else none
    | _ => none

def Seen (partId : Option PartId) (events : List Event) : Prop :=
  ∃ x, .msg x ∈ events ∧ x.msgType ≠ .endOfInitials ∧ participant x = partId

def forwards (listeners : List Listener) (x : Msg) : List Event :=
  listeners.map (.forward · x)

section

variable (partId : Option PartId) (es fs : List Event)

@[simp] theorem handlersOf_append : handlersOf (es ++ fs) = handlersOf es ++ handlersOf fs :=
  filterMap_append

@[simp] theorem registered_append :
    registered partId (es ++ fs) = registered partId es ++ registered partId fs :=
  filterMap_append

@[simp] theorem creations_append :
    creations partId (es ++ fs) = creations partId es ++ creations partId fs :=
  filterMap_append

theorem Seen.append {partId : Option PartId} {es : List Event} (h : Seen partId es)
    (fs : List Event) : Seen partId (es ++ fs) := by
  obtain ⟨x, hx, h⟩ := h
  exact ⟨x, mem_append_left fs hx, h⟩

variable (listeners : List Listener) (x : Msg)

@[simp] theorem handlersOf_forwards : handlersOf (forwards listeners x) = [] := by
  unfold handlersOf forwards
  simp

@[simp] theorem registered_forwards : registered partId (forwards listeners x) = [] := by
  unfold registered forwards
  simp

@[simp] theorem creations_forwards : creations partId (forwards listeners x) = [] := by
  unfold creations forwards
  simp

@[simp] theorem handlersOf_msg : handlersOf (.msg x :: es) = handlersOf es := rfl

@[simp] theorem registered_msg : registered partId (.msg x :: es) = registered partId es := rfl

@[simp] theorem creations_msg : creations partId (.msg x :: es) = creations partId es := rfl

end

theorem creations_eq_nil_iff {partId : Option PartId} {es : List Event} :
    creations partId es = [] ↔ ∀ e ∈ es, ∀ handler, e ≠ .create handler partId := by
  rw [creations, filterMap_eq_nil_iff]
  refine forall₂_congr fun e _ => ?_
  cases e with
  | create handler q =>
    dsimp only
    split
    · next h => simp [h]
    · next h => simp [Ne.symm h]
  | call c => simp
  | msg x => simp
  | forward l x => simp

/-! ## What the calls do -/

namespace Manager

/-- The manager after events that register: what they register has been added. -/
structure Extends (m : Manager) (es : List Event) (m' : Manager) : Prop where
  handlers : m'.handlers = m.handlers ++ handlersOf es
  consListeners : m'.consListeners = m.consListeners ++ registered none es
  list : ∀ q, m'.list q = m.list q ++ registered (some q) es
  present : ∀ q, (m'.partListeners q).isSome →
    (m.partListeners q).isSome ∨ registered (some q) es ≠ []
  kept : ∀ q, (m.partListeners q).isSome → (m'.partListeners q).isSome
  gotConsolidated : m'.gotConsolidated = m.gotConsolidated

theorem Extends.refl (m : Manager) : m.Extends [] m where
  handlers := (append_nil _).symm
  consListeners := (append_nil _).symm
  list _ := (append_nil _).symm
  present _ h := .inl h
  kept _ h := h
  gotConsolidated := rfl

theorem Extends.trans {m m' m'' : Manager} {es fs : List Event} (h : m.Extends es m')
    (h' : m'.Extends fs m'') : m.Extends (es ++ fs) m'' where
  handlers := by rw [h'.handlers, h.handlers, handlersOf_append, append_assoc]
  consListeners := by
    rw [h'.consListeners, h.consListeners, registered_append, append_assoc]
  list q := by rw [h'.list, h.list, registered_append, append_assoc]
  present q hq := by
    rcases h'.present q hq with hq | hq
    · exact (h.present q hq).imp_right fun hne => by simp [hne]
    · exact .inr (by simp [hq])
  kept q hq := h'.kept q (h.kept q hq)
  gotConsolidated := h'.gotConsolidated.trans h.gotConsolidated

theorem extends_perform (m : Manager) (c : Call) : m.Extends [.call c] (m.perform c) := by
  cases c with
  | addHandler handler =>
    exact ⟨rfl, (append_nil _).symm, fun _ => (append_nil _).symm, fun _ h => .inl h,
      fun _ h => h, rfl⟩
  | addConsolidatedListener listener =>
    exact ⟨(append_nil _).symm, rfl, fun _ => (append_nil _).symm, fun _ h => .inl h,
      fun _ h => h, rfl⟩
  | addParticipantListener listener partId =>
    refine ⟨(append_nil _).symm, (append_nil _).symm, fun q => ?_, fun q hq => ?_,
      fun q hq => ?_, rfl⟩
    all_goals by_cases h : q = partId
    all_goals simp_all [perform, setList, list, registered]

theorem extends_calls (m : Manager) (calls : List Call) :
    m.Extends (calls.map .call) (calls.foldl perform m) := by
  induction calls generalizing m with
  | nil => exact .refl m
  | cons c calls ih => exact (m.extends_perform c).trans (ih _)

/-! ## Creations -/

/-- The record of a participant has been announced, as the manager sees it. -/
def announced (m : Manager) : Option PartId → Bool
  | some partId => (m.partListeners partId).isSome
  | none => m.gotConsolidated

/-- The listeners that the manager has for a participant. -/
def listeners (m : Manager) : Option PartId → List Listener
  | some partId => m.list partId
  | none => m.consListeners

/-- The record of a participant is marked as announced. -/
def mark (m : Manager) : Option PartId → Manager
  | some partId => m.setList partId (m.list partId)
  | none => { m with gotConsolidated := true }

def AddsNone (during : List (List Call)) : Prop :=
  ∀ calls ∈ during, calls.any addsHandler = false

/-- Every handler has been told of a creation, and has registered what it wanted. -/
structure Tells (m : Manager) (partId : Option PartId) (handlers : List Handler)
    (es : List Event) (m' : Manager) : Prop where
  extends_ : m.Extends es m'
  added : handlersOf es = []
  told : creations partId es = handlers
  others : ∀ q, q ≠ partId → creations q es = []
  noForward : ∀ l x, .forward l x ∉ es

theorem handlersOf_calls {calls : List Call} (h : calls.any addsHandler = false) :
    handlersOf (calls.map .call) = [] := by
  rw [handlersOf, filterMap_eq_nil_iff]
  intro e he
  obtain ⟨c, hc, rfl⟩ := mem_map.mp he
  have hcall := any_eq_false.mp h c hc
  cases c with
  | addHandler handler => exact (hcall rfl).elim
  | addConsolidatedListener listener => rfl
  | addParticipantListener listener partId => rfl

theorem creations_calls (q : Option PartId) (calls : List Call) :
    creations q (calls.map .call) = [] := by
  unfold creations
  simp

theorem callBack_tells (partId : Option PartId) {handlers : List Handler} :
    ∀ {during : List (List Call)} {m m' : Manager} {es : List Event},
      callBack partId handlers during m = some (m', es) → m.Tells partId handlers es m' := by
  induction handlers with
  | nil =>
    rintro during m m' es ⟨⟩; exact ⟨.refl m, rfl, rfl, fun _ _ => rfl, fun _ _ => not_mem_nil⟩
  | cons handler handlers ih =>
    intro during m m' es h
    unfold callBack at h
    dsimp only at h
    split at h
    · cases h
    next hcalls =>
    have hcalls := Bool.eq_false_iff.mpr hcalls
    obtain ⟨⟨m₁, rest⟩, hrest, h⟩ := map_eq_some_iff.mp h
    cases h
    have htells := ih hrest
    refine ⟨?_, ?_, ?_, fun q hq => ?_, fun l x => ?_⟩
    · -- a creation registers nothing by itself
      have hcreate : m.Extends [.create handler partId] m :=
        ⟨(append_nil _).symm, (append_nil _).symm, fun _ => (append_nil _).symm,
          fun _ h => .inl h, fun _ h => h, rfl⟩
      exact hcreate.trans ((m.extends_calls _).trans htells.extends_)
    · show handlersOf (_ ++ rest) = []
      rw [handlersOf_append, handlersOf_calls hcalls, htells.added]
      rfl
    · have hhead : creations partId [.create handler partId] = [handler] := by
        simp [creations]
      rw [← singleton_append, creations_append, creations_append, hhead, creations_calls,
        htells.told]
      rfl
    · have hhead : creations q [.create handler partId] = [] := by
        simp [creations, hq]
      rw [← singleton_append, creations_append, creations_append, hhead, creations_calls,
        htells.others q hq]
      rfl
    · simp [htells.noForward]

theorem callBack_isSome (partId : Option PartId) (handlers : List Handler) :
    ∀ {during : List (List Call)}, AddsNone during → ∀ m : Manager,
      (callBack partId handlers during m).isSome := by
  induction handlers with
  | nil => exact fun _ _ => rfl
  | cons handler handlers ih =>
    intro during hnone m
    have hcalls : (during.headD []).any addsHandler = false := by
      cases during with
      | nil => rfl
      | cons calls during => exact hnone calls mem_cons_self
    have htail : AddsNone during.tail := fun calls h => hnone calls (mem_of_mem_tail h)
    unfold callBack
    dsimp only
    rw [hcalls, if_neg Bool.false_ne_true, isSome_map]
    exact ih htail _

section

variable {m : Manager} {partId : Option PartId} (during : List (List Call)) (x : Msg)

theorem handleFullImage_announced (h : m.announced partId) :
    m.handleFullImage partId during = some (m, []) := by
  cases partId with
  | none => exact if_pos h
  | some partId =>
    obtain ⟨entry, hl⟩ := isSome_iff_exists.mp h
    unfold handleFullImage
    dsimp only
    rw [hl]

theorem forwardMsg_announced (h : m.announced partId) :
    m.forwardMsg x partId during = some (m, forwards (m.listeners partId) x) := by
  cases partId with
  | none =>
    have hdone : m.notifyConsolidatedCreate during = some (m, []) := if_pos h
    unfold forwardMsg
    dsimp only
    split
    · rfl
    · rw [hdone]; rfl
  | some partId =>
    obtain ⟨entry, hl⟩ := isSome_iff_exists.mp h
    unfold forwardMsg Manager.listeners list
    dsimp only
    rw [hl]
    rfl

theorem handleFullImage_new (h : m.announced partId = false) :
    m.handleFullImage partId during = callBack partId m.handlers during (m.mark partId) := by
  cases partId with
  | none => exact if_neg (Bool.eq_false_iff.mp h)
  | some partId =>
    unfold handleFullImage
    dsimp only
    rw [isSome_eq_false_iff.mp h |> isNone_iff_eq_none.mp]
    rfl

theorem forwardMsg_new (h : m.announced partId = false)
    (hlisteners : partId = none → m.consListeners = []) :
    m.forwardMsg x partId during =
      (callBack partId m.handlers during (m.mark partId)).map fun (m', es) =>
        (m', es ++ forwards (m'.listeners partId) x) := by
  cases partId with
  | none =>
    unfold forwardMsg
    dsimp only
    rw [if_neg (not_not.mpr (hlisteners rfl))]
    exact congrArg _ (if_neg (Bool.eq_false_iff.mp h))
  | some partId =>
    unfold forwardMsg
    dsimp only
    rw [isSome_eq_false_iff.mp h |> isNone_iff_eq_none.mp]
    rfl

end

theorem announced_mark (m : Manager) (partId : Option PartId) :
    (m.mark partId).announced partId := by
  cases partId with
  | none => rfl
  | some partId => simp [mark, announced, setList]

theorem announced_mark_of {m : Manager} {partId q : Option PartId}
    (h : m.announced partId) : (m.mark q).announced partId := by
  cases q with
  | none => cases partId <;> first | rfl | exact h
  | some q =>
    cases partId with
    | none => exact h
    | some partId =>
      by_cases hq : partId = q
      · simp [mark, announced, setList, hq]
      · simpa [mark, announced, setList, hq] using h

theorem Extends.announced {m m' : Manager} {es : List Event} (h : m.Extends es m')
    {partId : Option PartId} (hm : m.announced partId) : m'.announced partId := by
  cases partId with
  | none => exact h.gotConsolidated.trans hm
  | some partId => exact h.kept partId hm

/-- The message announces the record of its participant. -/
def announces (m : Manager) (x : Msg) (partId : Option PartId) : Bool :=
  !m.announced partId &&
    (partId.isSome || x.msgType == .initial || x.msgType == .recap || m.consListeners.isEmpty)

theorem onMsg_other {m : Manager} {x : Msg} {partId : Option PartId} (during : List (List Call))
    (hname : getPartId x = .ok partId) (htype : x.msgType = .other) :
    m.onMsg x during = m.forwardMsg x partId during := by
  rw [onMsg, hname, htype]

theorem onMsg_image {m : Manager} {x : Msg} {partId : Option PartId} (during : List (List Call))
    (hname : getPartId x = .ok partId) (htype : x.msgType = .initial ∨ x.msgType = .recap) :
    m.onMsg x during =
      (m.handleFullImage partId during).bind fun (m, created) =>
        (m.forwardMsg x partId during).map fun (m, events) => (m, created ++ events) := by
  rw [onMsg, hname]
  rcases htype with htype | htype
  all_goals rw [htype]

theorem onMsg_endOfInitials (m : Manager) {x : Msg} (during : List (List Call))
    (htype : x.msgType = .endOfInitials) : m.onMsg x during = some (m, []) := by
  rw [onMsg, htype]

theorem onMsg_error (m : Manager) {x : Msg} (during : List (List Call)) {e : Unit}
    (hname : getPartId x = .error e) : m.onMsg x during = some (m, []) := by
  rw [onMsg, hname]
  cases x.msgType <;> rfl

theorem msgType_cases {x : Msg} (htype : x.msgType ≠ .endOfInitials) :
    x.msgType = .other ∨ x.msgType = .initial ∨ x.msgType = .recap := by
  cases h : x.msgType with
  | endOfInitials => exact (htype h).elim
  | other => exact .inl rfl
  | initial => exact .inr (.inl rfl)
  | recap => exact .inr (.inr rfl)

/-- **What a message does**: the record of its participant may be announced, and the message goes
out to the listeners that there are then. -/
theorem onMsg_eq (m : Manager) {x : Msg} {partId : Option PartId} (during : List (List Call))
    (hname : getPartId x = .ok partId) (htype : x.msgType ≠ .endOfInitials) :
    m.onMsg x during =
      if m.announces x partId then
        (callBack partId m.handlers during (m.mark partId)).map fun (m', made) =>
          (m', made ++ forwards (m'.listeners partId) x)
      else some (m, forwards (m.listeners partId) x) := by
  cases hdone : m.announced partId with
  | true =>
    rw [if_neg (by simp [announces, hdone])]
    rcases msgType_cases htype with hother | himage
    · rw [onMsg_other during hname hother]; exact forwardMsg_announced during x hdone
    · rw [onMsg_image during hname himage, handleFullImage_announced during hdone, bind_some]
      dsimp only
      rw [forwardMsg_announced during x hdone]
      rfl
  | false =>
    rcases msgType_cases htype with hother | himage
    · rw [onMsg_other during hname hother]
      by_cases hlisteners : partId = none → m.consListeners = []
      · rw [if_pos]
        · exact forwardMsg_new during x hdone hlisteners
        · cases partId with
          | none => simp [announces, hdone, hlisteners rfl]
          | some partId => simp [announces, hdone]
      · -- the message goes to the consolidated listeners, and nothing is told
        obtain ⟨rfl, hne⟩ := Classical.not_imp.mp hlisteners
        rw [if_neg (by simp [announces, hother, hne])]
        exact if_pos hne
    rw [if_pos]
    · rw [onMsg_image during hname himage, handleFullImage_new during hdone]
      cases hcall : callBack partId m.handlers during (m.mark partId) with
      | none => rfl
      | some r =>
        have hm' := (callBack_tells partId hcall).extends_.announced (announced_mark m partId)
        rw [bind_some]
        dsimp only
        rw [forwardMsg_announced during x hm']
        rfl
    · rcases himage with himage | himage
      all_goals simp [announces, hdone, himage]

theorem onMsg_spec {m : Manager} {x : Msg} {partId : Option PartId} {during : List (List Call)}
    (hname : getPartId x = .ok partId) (htype : x.msgType ≠ .endOfInitials)
    {m' : Manager} {es : List Event} (h : m.onMsg x during = some (m', es)) :
    ∃ made, es = made ++ forwards (m'.listeners partId) x ∧
      ((m.announces x partId ∧ (m.mark partId).Tells partId m.handlers made m') ∨
        (m.announces x partId = false ∧ made = [] ∧ m' = m)) := by
  rw [m.onMsg_eq during hname htype] at h
  split at h
  · next hann =>
    obtain ⟨⟨m₁, made⟩, hcall, h⟩ := map_eq_some_iff.mp h
    cases h
    exact ⟨made, rfl, .inl ⟨hann, callBack_tells partId hcall⟩⟩
  · next hann => cases h; exact ⟨[], rfl, .inr ⟨Bool.eq_false_iff.mpr hann, rfl, rfl⟩⟩

theorem onMsg_isSome (m : Manager) {x : Msg} {partId : Option PartId} {during : List (List Call)}
    (hname : getPartId x = .ok partId) (htype : x.msgType ≠ .endOfInitials)
    (hnone : AddsNone during) : (m.onMsg x during).isSome := by
  rw [m.onMsg_eq during hname htype]
  split
  · rw [isSome_map]; exact callBack_isSome partId m.handlers hnone _
  · rfl

theorem list_mark (m : Manager) (partId : Option PartId) (q : PartId) :
    (m.mark partId).list q = m.list q := by
  cases partId with
  | none => rfl
  | some partId =>
    by_cases h : q = partId
    · simp [mark, setList, list, h]
    · simp [mark, setList, list, h]

structure Inv (m : Manager) (t : List Event) : Prop where
  handlers : m.handlers = handlersOf t
  listeners : ∀ q, m.listeners q = registered q t
  /-- A list is there where somebody listens or a message came. -/
  present : ∀ q, (m.partListeners q).isSome → registered (some q) t ≠ [] ∨ Seen (some q) t
  gotConsolidated : m.gotConsolidated → Seen none t
  created : ∀ q, creations q t ≠ [] → Seen q t

theorem inv_new : new.Inv [] where
  handlers := rfl
  listeners q := by cases q <;> rfl
  present _ h := nomatch h
  gotConsolidated h := nomatch h
  created _ h := (h rfl).elim

section

variable {m m' : Manager} {t es : List Event}

theorem Inv.extend (hinv : m.Inv t) (hes : m.Extends es m')
    (hcreated : ∀ q, creations q es ≠ [] → Seen q (t ++ es)) : m'.Inv (t ++ es) where
  handlers := by rw [hes.handlers, hinv.handlers, handlersOf_append]
  listeners q := by
    rw [registered_append, ← hinv.listeners]
    cases q with
    | none => exact hes.consListeners
    | some q => exact hes.list q
  present q hq := by
    rcases hes.present q hq with hq | hq
    · exact (hinv.present q hq).imp (fun hne => by simp [hne]) fun hseen => hseen.append es
    · exact .inl (by simp [hq])
  gotConsolidated h := (hinv.gotConsolidated (hes.gotConsolidated ▸ h)).append es
  created q hq := by
    by_cases ht : creations q t = []
    · exact hcreated q (by simpa [ht] using hq)
    · exact (hinv.created q ht).append es

theorem Inv.mark (hinv : m.Inv t) {partId : Option PartId} (hseen : Seen partId t) :
    (m.mark partId).Inv t where
  handlers := by
    rw [← hinv.handlers]
    cases partId <;> rfl
  listeners q := by
    rw [← hinv.listeners]
    cases q with
    | none => cases partId <;> rfl
    | some q => exact m.list_mark partId q
  present q hq := by
    cases partId with
    | none => exact hinv.present q hq
    | some partId =>
      by_cases h : q = partId
      · exact .inr (h ▸ hseen)
      · exact hinv.present q (by simpa [Manager.mark, setList, h] using hq)
  gotConsolidated h := by
    cases partId with
    | none => exact hseen
    | some partId => exact hinv.gotConsolidated h
  created := hinv.created

theorem extends_msg (m : Manager) (x : Msg) : m.Extends [.msg x] m :=
  ⟨(append_nil _).symm, (append_nil _).symm, fun _ => (append_nil _).symm,
    fun _ h => .inl h, fun _ h => h, rfl⟩

theorem extends_forwards (m : Manager) (ls : List Listener) (x : Msg) :
    m.Extends (forwards ls x) m := by
  constructor <;> simp +contextual

end

end Manager

/-! ## Runs -/

def run (inputs : List Input) : Option (Manager × List Event) := Lib.record step .new inputs

/-- A message is handled as it should be: what is recorded of it is what the callbacks of its
handlers do, and then it goes to the listeners of its participant.  At the first message of the
participant the handlers there are, are told of it then, and once in the whole run. -/
def Handled (whole past : List Event) (x : Msg) (es : List Event) : Prop :=
  ∃ made, es = .msg x :: (made ++ forwards (registered (participant x) (past ++ made)) x) ∧
    (∀ l y, .forward l y ∉ made) ∧
    (¬ Seen (participant x) past →
      creations (participant x) made = handlersOf past ∧
        (creations (participant x) whole).filter (· ∈ handlersOf past) = handlersOf past)

def Routing (inputs : List Input) : Prop :=
  ∃ last whole, run inputs = some (last, whole) ∧
    ∀ before x during after, inputs = before ++ .msg x during :: after →
      x.msgType ≠ .endOfInitials →
      ∃ m past m' es, run before = some (m, past) ∧ step m (.msg x during) = some (m', es) ∧
        Handled whole past x es

/-- A message that is handled well: it is named well, no callback adds a handler, and where it is
the first of its participant and handlers wait for it, nobody listens yet, or it is a full image of
the consolidated record. -/
def Ok (past : List Event) : Input → Prop
  | .call _ => True
  | .msg x during => x.msgType ≠ .endOfInitials →
    WellNamed x ∧ Manager.AddsNone during ∧
      (Seen (participant x) past ∨ handlersOf past = [] ∨ registered (participant x) past = [] ∨
        participant x = none ∧ (x.msgType = .initial ∨ x.msgType = .recap))

namespace Manager

theorem step_msg {m : Manager} {t : List Event} {x : Msg} {during : List (List Call)}
    (hinv : m.Inv t) (htype : x.msgType ≠ .endOfInitials) (hname : WellNamed x)
    (hnone : AddsNone during) :
    ∃ m' made,
      step m (.msg x during) = some (m',
        .msg x :: (made ++ forwards (registered (participant x) (t ++ made)) x)) ∧
      m'.Inv (t ++ .msg x :: (made ++ forwards (registered (participant x) (t ++ made)) x)) ∧
      (∀ l y, .forward l y ∉ made) ∧
      (m.announces x (participant x) →
        creations (participant x) made = handlersOf t ∧ m'.announced (participant x)) ∧
      (m.announces x (participant x) = false → made = [] ∧ m' = m) := by
  have hpart := (getPartId_eq_iff x).mpr hname
  obtain ⟨⟨m', es⟩, hmsg⟩ := isSome_iff_exists.mp (m.onMsg_isSome hpart htype hnone)
  obtain ⟨made, rfl, hdone⟩ := onMsg_spec hpart htype hmsg
  have hcame : m.Inv (t ++ [.msg x]) :=
    hinv.extend (m.extends_msg x) fun q hq => absurd rfl hq
  have hseen : Seen (participant x) (t ++ [.msg x]) :=
    ⟨x, mem_append_right t mem_cons_self, htype, rfl⟩
  have hmade : m'.Inv ((t ++ [.msg x]) ++ made) ∧ (∀ l y, .forward l y ∉ made) := by
    rcases hdone with ⟨-, htells⟩ | ⟨-, rfl, rfl⟩
    · refine ⟨(hcame.mark hseen).extend htells.extends_ fun q hq => ?_, htells.noForward⟩
      have hq' : q = participant x := by
        by_contra hne; exact hq (htells.others q hne)
      exact hq' ▸ hseen.append made
    · rw [append_nil]; exact ⟨hcame, fun _ _ => not_mem_nil⟩
  obtain ⟨hmade, hforward⟩ := hmade
  have hlisteners : m'.listeners (participant x) = registered (participant x) (t ++ made) := by
    rw [hmade.listeners]
    simp only [registered_append]
    rw [show registered (participant x) [.msg x] = [] from rfl, append_nil]
  rw [hlisteners] at hmsg
  refine ⟨m', made, ?_, ?_, hforward, fun hann => ?_, fun hann => ?_⟩
  · unfold step
    dsimp only
    rw [hmsg]
    rfl
  · have hall := hmade.extend (m'.extends_forwards
      (registered (participant x) (t ++ made)) x) fun q hq => absurd (creations_forwards q _ x) hq
    simpa using hall
  · rcases hdone with ⟨-, htells⟩ | ⟨hno, -⟩
    · exact ⟨htells.told.trans hinv.handlers,
        htells.extends_.announced (announced_mark m (participant x))⟩
    · cases hann.symm.trans hno
  · rcases hdone with ⟨hyes, -⟩ | ⟨-, hnone, hm⟩
    · cases hann.symm.trans hyes
    · exact ⟨hnone, hm⟩

/-- The first message of a participant announces it, where nobody listens yet or it is a full image
of the consolidated record. -/
theorem Inv.announces {m : Manager} {t : List Event} (hinv : m.Inv t) {x : Msg}
    (hseen : ¬ Seen (participant x) t)
    (hfirst : registered (participant x) t = [] ∨
      participant x = none ∧ (x.msgType = .initial ∨ x.msgType = .recap)) :
    m.announces x (participant x) := by
  have hnew : m.announced (participant x) = false := by
    rw [Bool.eq_false_iff]
    intro hann
    cases hpart : participant x with
    | none => rw [hpart] at hann hseen; exact hseen (hinv.gotConsolidated hann)
    | some q =>
      rw [hpart] at hann hseen hfirst
      rcases hinv.present q hann with hne | h
      · rcases hfirst with hnil | ⟨hnone, -⟩
        · exact hne hnil
        · cases hnone
      · exact hseen h
  cases hpart : participant x with
  | some q => rw [hpart] at hnew; simp [Manager.announces, hnew]
  | none =>
    rw [hpart] at hnew hfirst
    rcases hfirst with hnil | ⟨-, himage | himage⟩
    · have hcons : m.consListeners = [] := (hinv.listeners none).trans hnil
      simp [Manager.announces, hnew, hcons]
    all_goals simp [Manager.announces, hnew, himage]

theorem inv_step {m : Manager} {t : List Event} {i : Input} (hinv : m.Inv t) (hok : Ok t i) :
    ∃ m' es, step m i = some (m', es) ∧ m'.Inv (t ++ es) := by
  cases i with
  | call c =>
    refine ⟨m.perform c, [.call c], rfl, hinv.extend (m.extends_perform c) fun q hq => ?_⟩
    exact absurd rfl hq
  | msg x during =>
    by_cases htype : x.msgType = .endOfInitials
    · refine ⟨m, [.msg x], ?_, hinv.extend (m.extends_msg x) fun q hq => absurd rfl hq⟩
      unfold step
      dsimp only
      rw [m.onMsg_endOfInitials during htype]
      rfl
    · obtain ⟨hname, hnone, -⟩ := hok htype
      obtain ⟨m', made, hstep, hinv', -⟩ := step_msg hinv htype hname hnone
      exact ⟨m', _, hstep, hinv'⟩

theorem step_quiet {partId : Option PartId} (m : Manager) (i : Input) (m' : Manager)
    (es : List Event) (hm : m.announced partId) (h : step m i = some (m', es)) :
    m'.announced partId ∧ ∀ e ∈ es, ∀ handler, e ≠ .create handler partId := by
  cases i with
  | call c =>
    cases h
    refine ⟨(m.extends_perform c).announced hm, fun e he handler hcreate => ?_⟩
    rw [mem_singleton.mp he] at hcreate
    cases hcreate
  | msg x during =>
    obtain ⟨⟨m₁, events⟩, hmsg, h⟩ := map_eq_some_iff.mp h
    cases h
    suffices hsuff : m'.announced partId ∧
        ∀ e ∈ events, ∀ handler, e ≠ .create handler partId by
      refine ⟨hsuff.1, fun e he handler hcreate => ?_⟩
      rcases mem_cons.mp he with rfl | he
      · cases hcreate
      · exact hsuff.2 e he handler hcreate
    by_cases htype : x.msgType = .endOfInitials
    · rw [m.onMsg_endOfInitials during htype] at hmsg
      cases hmsg
      exact ⟨hm, fun _ h => absurd h not_mem_nil⟩
    cases hname : getPartId x with
    | error e =>
      rw [m.onMsg_error during hname] at hmsg
      cases hmsg
      exact ⟨hm, fun _ h => absurd h not_mem_nil⟩
    | ok q =>
      obtain ⟨made, rfl, hdone⟩ := onMsg_spec hname htype hmsg
      have hforwards : ∀ e ∈ forwards (m'.listeners q) x, ∀ handler,
          e ≠ .create handler partId := by
        intro e he handler hcreate
        obtain ⟨l, -, rfl⟩ := mem_map.mp he
        cases hcreate
      rcases hdone with ⟨hann, htells⟩ | ⟨-, rfl, rfl⟩
      · have hq : partId ≠ q := by
          rintro rfl; simp [announces, hm] at hann
        refine ⟨htells.extends_.announced ?_, fun e he => ?_⟩
        · exact announced_mark_of hm
        · rcases mem_append.mp he with he | he
          · exact creations_eq_nil_iff.mp (htells.others partId hq) e he
          · exact hforwards e he
      · exact ⟨hm, hforwards⟩

end Manager

/-- **Routing.**  Every message of a run goes to the listeners of its participant and is announced
to the handlers, where each message is handled well. -/
theorem routing_of_ok (inputs : List Input) (hok : Lib.Promised step Ok .new inputs) :
    Routing inputs := by
  have hstep : ∀ m t i, Manager.Inv m t → Ok t i →
      ∃ m' es, step m i = some (m', es) ∧ Manager.Inv m' (t ++ es) :=
    fun _ _ _ hinv hok => Manager.inv_step hinv hok
  obtain ⟨last, whole, hrun, -⟩ := Lib.record_inv Manager.inv_new hstep hok
  refine ⟨last, whole, hrun, fun before x during after hinputs htype => ?_⟩
  subst hinputs
  obtain ⟨m, past, hbefore, hinv⟩ := Lib.record_inv Manager.inv_new hstep hok.of_append
  obtain ⟨hname, hnone, hfirst⟩ := hok before _ after m past rfl hbefore htype
  obtain ⟨m', made, hmsg, -, hforward, hann, hno⟩ := Manager.step_msg hinv htype hname hnone
  refine ⟨m, past, m', _, hbefore, hmsg, made, rfl, hforward, fun hseen => ?_⟩
  cases hx : m.announces x (participant x) with
  | false =>
    -- it can only be that no handler waits
    obtain ⟨rfl, -⟩ := hno hx
    have hnil : handlersOf past = [] := by
      rcases hfirst with h | h | h
      · exact (hseen h).elim
      · exact h
      · exact absurd (hx.symm.trans (hinv.announces hseen h)) (by decide)
    rw [hnil]
    simp [creations]
  | true =>
    obtain ⟨htold, hdone⟩ := hann hx
    refine ⟨htold, ?_⟩
    obtain ⟨m₁, es₁, rest, hbefore', hafter, rfl⟩ := Lib.record_append_eq_some.mp hrun
    obtain ⟨m₂, es₂, quiet, hmsg', hrest, rfl⟩ := Lib.record_cons_eq_some.mp hafter
    cases hbefore.symm.trans hbefore'
    cases hmsg.symm.trans hmsg'
    have hpast : creations (participant x) past = [] := by
      by_contra hne; exact hseen (hinv.created _ hne)
    have hquiet : creations (participant x) quiet = [] :=
      creations_eq_nil_iff.mpr (Lib.record_quiet Manager.step_quiet hdone hrest)
    simp [hpast, htold, hquiet]

/-- A participant whose listener is registered when it is announced. -/
theorem routing_of_ok_registered :
    Routing [.call (.addHandler 1), .msg ⟨.initial, .text ['N'], .missing, .missing, .missing⟩
        [[.addParticipantListener 2 ['N']]],
      .msg ⟨.other, .text ['N'], .missing, .missing, .missing⟩ []] := by
  refine routing_of_ok _ (Lib.promised_of_from ⟨trivial, ?_⟩)
  rintro m t ⟨⟩
  refine ⟨fun _ => ⟨trivial, by simp [Manager.AddsNone, Manager.addsHandler], ?_⟩, ?_⟩
  · exact .inr (.inr (.inl rfl))
  rintro m t ⟨⟩
  refine ⟨fun _ => ⟨trivial, by simp [Manager.AddsNone], ?_⟩, fun _ _ _ => trivial⟩
  exact .inl ⟨_, mem_cons_of_mem _ mem_cons_self, by decide, rfl⟩

/-- A symbol that ends with its dot keeps a message from the consolidated listeners, and a listener
that is registered up front keeps the handlers from hearing of a participant. -/
theorem not_routing :
    ¬ Routing [.call (.addConsolidatedListener 1),
      .msg ⟨.other, .missing, .missing, .missing, .text ['A', '.']⟩ []] ∧
    ¬ Routing [.call (.addHandler 1), .call (.addParticipantListener 2 ['N']),
      .msg ⟨.initial, .text ['N'], .missing, .missing, .missing⟩ []] := by
  constructor
  · rintro ⟨last, whole, -, h⟩
    obtain ⟨m, past, m', es, hbefore, hmsg, made, hes, -⟩ := h [_] _ [] [] rfl (by decide)
    cases hbefore
    cases hmsg
    obtain ⟨rfl, hnil⟩ := append_eq_nil_iff.mp (List.cons.inj hes).2.symm
    cases hnil
  rintro ⟨last, whole, -, h⟩
  obtain ⟨m, past, m', es, hbefore, hmsg, made, hes, hforward, hfirst⟩ :=
    h [_, _] _ [] [] rfl (by decide)
  cases hbefore
  cases hmsg
  have hmade : made = [] := by
    cases made with
    | nil => rfl
    | cons e made =>
      -- the message was forwarded at once
      obtain ⟨rfl, -⟩ := List.cons.inj (List.cons.inj hes).2
      exact (hforward _ _ mem_cons_self).elim
  subst hmade
  have hseen : ¬ Seen (participant ⟨.initial, .text ['N'], .missing, .missing, .missing⟩)
      [.call (.addHandler 1), .call (.addParticipantListener 2 ['N'])] := by
    rintro ⟨x, hx, -⟩
    simp at hx
  exact absurd (hfirst hseen).1 (by decide)

end MultiParticipant

end Mamda

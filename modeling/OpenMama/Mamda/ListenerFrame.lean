import OpenMama.Mamda.OrderBookListener

/-!
# What making a delta leaves alone

`createDelta` works on the book, the fields of the message and the deltas.  The
members that decide how messages are taken (`Listener.control`) are written when a
message comes in or when it has been handled, and by no step in between, also
when the step throws.
-/

namespace Mamda

open Mama Lib

/-- The members that only the handling of whole messages writes. -/
structure Control where
  eventSeqNum : Nat
  prevSenderId : Nat
  isConsistent : Bool
  gotInitial : Bool
  processesEntries : Bool
  bookType : Nat

namespace Listener

/-- The part of a listener that decides how messages and their fields are taken. -/
def control (x : Listener) : Control where
  eventSeqNum := x.eventSeqNum
  prevSenderId := x.prevSenderId
  isConsistent := x.isConsistent
  gotInitial := x.gotInitial
  processesEntries := x.processesEntries
  bookType := x.fields.bookType

/-- A step that leaves these members as `x` has them, also when it throws. -/
def Keeps {α : Type} (x : Listener) (listener : α → Listener) : Handled α → Prop
  | .ok a => (listener a).control = x.control
  | .error (.thrown y) => y.control = x.control
  | .error .crash => True

variable {x y : Listener}

theorem Keeps.of_control {α : Type} {f : α → Listener} {r : Handled α} (h : Keeps y f r)
    (hy : y.control = x.control) : Keeps x f r := by
  unfold Keeps at h ⊢
  rwa [hy] at h

theorem Keeps.bind {α β : Type} {f : α → Listener} {g : β → Listener} {r : Handled α}
    {next : α → Handled β} (h : Keeps x f r)
    (hnext : ∀ a, (f a).control = x.control → Keeps x g (next a)) : Keeps x g (r >>= next) := by
  cases r with
  | ok a => exact hnext a h
  | error stop => cases stop <;> exact h

theorem Keeps.foldlM {α : Type} {step : Listener → α → Handled Listener}
    (hstep : ∀ y a, Keeps y id (step y a)) (as : List α) : Keeps x id (as.foldlM step x) := by
  induction as generalizing x with
  | nil => rfl
  | cons a as ih =>
    refine (hstep x a).bind ?_
    intro y hy
    exact (@ih y).of_control hy

theorem takesEntries_of_control (h : y.control = x.control) : y.takesEntries = x.takesEntries := by
  have h₁ : y.processesEntries = x.processesEntries := congrArg Control.processesEntries h
  have h₂ : y.fields.bookType = x.fields.bookType := congrArg Control.bookType h
  unfold takesEntries
  rw [h₁, h₂]

theorem levelsOnly_of_control (h : y.control = x.control) : y.levelsOnly = x.levelsOnly := by
  have h₁ : y.processesEntries = x.processesEntries := congrArg Control.processesEntries h
  have h₂ : y.fields.bookType = x.fields.bookType := congrArg Control.bookType h
  unfold levelsOnly
  rw [h₁, h₂]

theorem levelsOnly_eq_false (hproc : x.processesEntries) (htype : x.fields.bookType = 0) :
    x.levelsOnly = false := by
  simp [levelsOnly, hproc, htype]

/-! ## Fields -/

theorem bookType_noteSizes (f : BookMsgFields) (l : PriceLevel) (e : Entry) (newEntry : Bool) :
    (noteSizes f l e newEntry).bookType = f.bookType := by
  unfold noteSizes
  dsimp only
  (repeat' split) <;> rfl

theorem bookType_onEntryField (t : Bool) (f : BookMsgFields) (e : EntryField) :
    (f.onEntryField t e).bookType = f.bookType := by
  cases e <;> cases t <;> rfl

theorem bookType_processEntryMessage (t : Bool) (f : BookMsgFields) (msg : EntryMsg) :
    (f.processEntryMessage t msg).bookType = f.bookType := by
  have hfold : (msg.foldl (BookMsgFields.onEntryField t) f).bookType = f.bookType :=
    List.foldlRecOn (motive := (·.bookType = f.bookType)) msg _ rfl fun g hg e _ =>
      (bookType_onEntryField t g e).trans hg
  unfold BookMsgFields.processEntryMessage
  dsimp only
  split <;> exact hfold

theorem bookType_onLevelField (t : Bool) (f : BookMsgFields) (l : LevelField) :
    (f.onLevelField t l).bookType = f.bookType := by
  cases l with
  | entry e => exact bookType_onEntryField t f e
  | plNumAttach n => cases t <;> rfl
  | plEntries es => cases t <;> rfl
  | _ => rfl

theorem bookType_processLevelMessage (t : Bool) (f : BookMsgFields) (msg : LevelMsg) :
    (f.processLevelMessage t msg).bookType = f.bookType := by
  have hfold : ∀ f : BookMsgFields,
      (msg.foldl (BookMsgFields.onLevelField t) f).bookType = f.bookType := fun f =>
    List.foldlRecOn (motive := (·.bookType = f.bookType)) msg _ rfl fun g hg l _ =>
      (bookType_onLevelField t g l).trans hg
  unfold BookMsgFields.processLevelMessage
  dsimp only
  split <;> exact hfold _

theorem control_fields (x : Listener) {f : BookMsgFields} (h : f.bookType = x.fields.bookType) :
    ({ x with fields := f } : Listener).control = x.control := by
  unfold control
  rw [← h]

/-! ## Steps -/

theorem processLevelPart1_keeps (x : Listener) : Keeps x Prod.fst x.processLevelPart1 := by
  unfold processLevelPart1
  split
  · rfl
  · dsimp only
    split
    · split <;> rfl
    · rfl

theorem control_processLevelPart2 (x : Listener) (l : PriceLevel) :
    (x.processLevelPart2 l).control = x.control := by
  unfold processLevelPart2
  dsimp only
  (repeat' split) <;> rfl

theorem control_changeEntry (x : Listener) (l : PriceLevel) (plAction entryAction : Action)
    (e : Entry) (newEntry : Bool) :
    (x.changeEntry l plAction entryAction e newEntry).1.control = x.control := by
  have hnoted := x.control_fields (bookType_noteSizes x.fields l e newEntry)
  unfold changeEntry
  split
  · unfold dropEntry
    dsimp only
    split <;> exact hnoted
  · exact hnoted

theorem control_processEntry (x : Listener) (l : PriceLevel) (plAction : Action) :
    (x.processEntry l plAction).1.control = x.control := by
  unfold processEntry
  split
  · rfl
  split
  · rfl
  split
  · split
    · split <;> rfl
    · exact control_changeEntry ..
  · split
    · exact control_changeEntry ..
    · exact control_changeEntry ..

theorem control_processEntrySubMsg (plAction : Action) (r : Listener × PriceLevel)
    (msg : EntryMsg) : (processEntrySubMsg plAction r msg).1.control = r.1.control :=
  (control_processEntry _ _ _).trans
    (r.1.control_fields (bookType_processEntryMessage _ _ msg))

theorem control_foldl_processEntrySubMsg (plAction : Action) (msgs : List EntryMsg)
    (r : Listener × PriceLevel) :
    (msgs.foldl (processEntrySubMsg plAction) r).1.control = r.1.control :=
  List.foldlRecOn (motive := fun r' => r'.1.control = r.1.control) msgs _ rfl fun r hr msg _ =>
    (control_processEntrySubMsg plAction r msg).trans hr

theorem control_deleteShownEntries (x : Listener) (l : PriceLevel) (es : List Entry) :
    (x.deleteShownEntries l es).1.control = x.control := by
  induction es generalizing x l with
  | nil => rfl
  | cons e es ih => exact ih _ _

theorem processEntries_keeps (x : Listener) (l : PriceLevel) (plAction : Action) :
    Keeps x Prod.fst (x.processEntries l plAction) := by
  unfold processEntries
  split
  · rfl
  split
  · dsimp only
    split
    · rfl
    · exact control_deleteShownEntries ..
  split
  · split
    · exact control_foldl_processEntrySubMsg ..
    · trivial
  · split
    · refine (control_processEntry _ _ _).trans (x.control_fields ?_)
      split <;> rfl
    · exact control_foldl_processEntrySubMsg ..

theorem processLevel_keeps (x : Listener) : Keeps x id x.processLevel := by
  refine x.processLevelPart1_keeps.bind ?_
  rintro ⟨y, _ | l⟩ hy
  · exact hy
  · have hentries := (y.processEntries_keeps l y.fields.plAction).of_control hy
    refine hentries.bind ?_
    rintro ⟨z, l'⟩ hz
    exact (control_processLevelPart2 z l').trans hz

theorem processLevelSubMsg_keeps (clear : Bool) (x : Listener) (msg : LevelMsg) :
    Keeps x id (processLevelSubMsg clear x msg) := by
  refine (processLevel_keeps _).of_control (x.control_fields ?_)
  refine (bookType_processLevelMessage _ _ msg).trans ?_
  cases clear <;> rfl

theorem createDelta_keeps (x : Listener) : Keeps x id x.createDelta := by
  unfold createDelta
  split
  · rfl
  split
  · split
    · exact Keeps.foldlM (processLevelSubMsg_keeps true) _
    · trivial
  · split
    · refine (processLevel_keeps _).of_control (x.control_fields ?_)
      split <;> rfl
    · exact Keeps.foldlM (processLevelSubMsg_keeps false) _

theorem control_of_caught (h : caught x.createDelta = some y) : y.control = x.control := by
  have hk := x.createDelta_keeps
  cases hr : x.createDelta with
  | ok z =>
    rw [hr] at h hk
    cases h
    exact hk
  | error stop =>
    cases stop with
    | thrown z =>
      rw [hr] at h hk
      cases h
      exact hk
    | crash => rw [hr] at h; cases h

end Listener

end Mamda

import OpenMama.Mamda.OrderBookListener
import OpenMama.Mamda.Publisher

/-!
# The deltas that a message adds

`createDelta` reaches the publisher of the listener through `addDelta` only: with
another publisher it goes the same way and adds the same deltas (`Records`).  So
`Listener.deltasAdded`, which lets the message write into an empty list, says what
it adds to any publisher (`caught_createDelta`).
-/

namespace Mamda

open Mama Lib

def Publisher.addAll (x : Publisher) (ds : List BasicDelta) : Publisher := ds.foldl addDelta x

theorem Publisher.addAll_append (x : Publisher) (ds ds' : List BasicDelta) :
    x.addAll (ds ++ ds') = (x.addAll ds).addAll ds' := List.foldl_append

def Publisher.recorder : Publisher := ⟨0, none, .new 0⟩

theorem Publisher.recorder_collects : recorder.Collects where
  keeps := rfl
  plain := rfl
  simple := nofun

theorem Publisher.Collects.addAll {x : Publisher} (h : x.Collects) (ds : List BasicDelta) :
    (x.addAll ds).Collects ∧ (x.addAll ds).waiting = x.waiting ++ ds := by
  induction ds generalizing x with
  | nil => exact ⟨h, (List.append_nil _).symm⟩
  | cons d ds ih =>
    obtain ⟨hcollects, hwaiting⟩ := h.addDelta d
    obtain ⟨hall, hds⟩ := ih hcollects
    refine ⟨hall, hds.trans ?_⟩
    rw [hwaiting, List.append_assoc]
    rfl

namespace Listener

/-! ## Steps that only add -/

class HasDeltas (α : Type) where
  withDeltas : α → Publisher → α

instance : HasDeltas Listener := ⟨fun x p => { x with deltas := p }⟩

instance {α β : Type} [HasDeltas α] : HasDeltas (α × β) :=
  ⟨fun r p => (HasDeltas.withDeltas r.1 p, r.2)⟩

instance {α : Type} [HasDeltas α] : HasDeltas (Handled α) where
  withDeltas r p :=
    match r with
    | .ok a => .ok (HasDeltas.withDeltas a p)
    | .error (.thrown x) => .error (.thrown (HasDeltas.withDeltas x p))
    | .error .crash => .error .crash

open HasDeltas

variable {α β γ : Type} [HasDeltas α] [HasDeltas β] [HasDeltas γ]

/-- Whatever the publisher, the step adds the same deltas to it and is otherwise the same. -/
def Records (f : α → β) (a : α) : Prop :=
  ∃ ds, ∀ p, f (withDeltas a p) = withDeltas (f a) (p.addAll ds)

variable {a : α} {f : α → β}

theorem Records.of_eq (h : ∀ p, f (withDeltas a p) = withDeltas (f a) p) : Records f a := ⟨[], h⟩

theorem Records.of_add (d : BasicDelta)
    (h : ∀ p, f (withDeltas a p) = withDeltas (f a) (p.addDelta d)) : Records f a := ⟨[d], h⟩

variable {g : α → β} {M : Type}

theorem Records.congr (h : Records g a) (heq : ∀ p, f (withDeltas a p) = g (withDeltas a p))
    (ha : f a = g a) : Records f a := by
  obtain ⟨ds, hg⟩ := h
  exact ⟨ds, fun p => by rw [heq, hg, ha]⟩

theorem Records.ite {c : α → Prop} [DecidablePred c] (hc : ∀ p, c (withDeltas a p) ↔ c a)
    (hf : c a → Records f a) (hg : ¬ c a → Records g a) :
    Records (fun a => if c a then f a else g a) a := by
  by_cases h : c a
  · exact (hf h).congr (fun p => if_pos ((hc p).mpr h)) (if_pos h)
  · exact (hg h).congr (fun p => if_neg fun hp => h ((hc p).mp hp)) (if_neg h)

theorem Records.comp {g : β → γ} (hf : Records f a) (hg : Records g (f a)) :
    Records (fun a => g (f a)) a := by
  obtain ⟨ds, hf⟩ := hf
  obtain ⟨ds', hg⟩ := hg
  refine ⟨ds ++ ds', fun p => ?_⟩
  show g (f (withDeltas a p)) = _
  rw [hf, hg, Publisher.addAll_append]

theorem Records.bind {f : α → Handled β} {g : β → Handled γ} (hf : Records f a)
    (hg : ∀ b, f a = .ok b → Records g b) : Records (fun a => f a >>= g) a := by
  obtain ⟨ds, hf⟩ := hf
  cases h : f a with
  | ok b =>
    obtain ⟨ds', hg⟩ := hg b h
    refine ⟨ds ++ ds', fun p => ?_⟩
    show (f (withDeltas a p) >>= g) = withDeltas (f a >>= g) _
    rw [hf, h, Publisher.addAll_append]
    exact hg (p.addAll ds)
  | error stop =>
    refine ⟨ds, fun p => ?_⟩
    show (f (withDeltas a p) >>= g) = withDeltas (f a >>= g) _
    rw [hf, h]
    cases stop <;> rfl

theorem Records.foldl {step : α → M → α} (h : ∀ m a, Records (step · m) a) (ms : List M) (a : α) :
    Records (fun a => ms.foldl step a) a := by
  induction ms generalizing a with
  | nil => exact .of_eq fun _ => rfl
  | cons m ms ih => exact (h m a).comp (ih _)

theorem Records.foldlM {step : α → M → Handled α} (h : ∀ m a, Records (step · m) a) (ms : List M)
    (a : α) : Records (fun a => ms.foldlM step a) a := by
  induction ms generalizing a with
  | nil => exact .of_eq fun _ => rfl
  | cons m ms ih => exact (h m a).bind fun b _ => ih b

theorem Records.ok (h : Records f a) : Records (fun a => (.ok (f a) : Handled β)) a :=
  h.comp (g := fun b => (.ok b : Handled β)) (.of_eq fun _ => rfl)

/-! ## Levels -/

theorem records_processLevelPart1 (x : Listener) : Records processLevelPart1 x := by
  refine .of_eq fun p => ?_
  unfold processLevelPart1
  dsimp only [withDeltas]
  cases x.fields.plSide.book? with
  | none => rfl
  | some s =>
    dsimp only
    split
    · split <;> rfl
    · rfl

section

variable (l : PriceLevel)

include l

theorem records_processLevelPart2 (x : Listener) : Records (processLevelPart2 · l) x := by
  let l₁ := l.setSize x.fields.plSize
  let l₂ := if x.fields.bookType ≠ 1 then l₁.setNumEntries x.fields.plNumEntries else l₁
  have hstore : Records (fun y => { y with book := y.book.storeLevel l₂ }) x := .of_eq fun _ => rfl
  have hadd : ∀ y : Listener, Records (fun y => if y.levelsOnly then
      { y.addDelta none l₂ y.fields.plAction .unknown with
        book := y.book.publish none l₂ y.fields.plSizeChange y.fields.plAction .unknown }
      else y) y := by
    intro y
    refine .ite (fun _ => Iff.rfl) (fun _ => ?_) (fun _ => .of_eq fun _ => rfl)
    exact .of_add ⟨none, l₂, y.fields.plSizeChange, y.fields.plAction, .unknown⟩ fun _ => rfl
  have hdetach : ∀ y : Listener, Records (fun y => if y.fields.bookType = 1 ∧
      y.haveEntries = false then { y with book := y.book.detachLevel l₂ } else y) y := fun y =>
    .ite (fun _ => Iff.rfl) (fun _ => .of_eq fun _ => rfl) (fun _ => .of_eq fun _ => rfl)
  exact ((hstore.comp (hadd _)).comp (hdetach _)).congr (fun _ => rfl) rfl

/-! ## Entries -/

theorem records_dropEntry (ref : Ref) (plAction : Action) (x : Listener) :
    Records (dropEntry · l ref plAction) x := by
  refine .of_eq fun p => ?_
  unfold dropEntry
  dsimp only [withDeltas]
  split <;> rfl

theorem records_changeEntry (plAction entryAction : Action) (e : Entry) (newEntry : Bool)
    (x : Listener) : Records (changeEntry · l plAction entryAction e newEntry) x := by
  let f := noteSizes x.fields l e newEntry
  let l₁ := changedLevel f l e
  have hstore : Records (fun y => { y with fields := f, book := y.book.storeLevel l₁ }) x :=
    .of_eq fun _ => rfl
  have hdrop : ∀ y : Listener, Records (fun y => if entryAction = .delete then
      y.dropEntry l₁ e.ref plAction else (y, l₁, plAction)) y := fun y =>
    .ite (fun _ => Iff.rfl) (fun _ => records_dropEntry l₁ e.ref plAction y)
      (fun _ => .of_eq fun _ => rfl)
  have hadd : ∀ r : Listener × PriceLevel × Action, Records (fun r =>
      let y := r.1.addDelta (some (changedEntry f e)) r.2.1 r.2.2 entryAction
      ({ y with book := y.book.publish (some (changedEntry f e)) r.2.1 y.fields.plSizeChange r.2.2
                  entryAction,
                haveEntries := true }, r.2.1)) r := fun r =>
    .of_add ⟨some (changedEntry f e), r.2.1, r.1.fields.plSizeChange, r.2.2, entryAction⟩
      fun _ => rfl
  exact ((hstore.comp (hdrop _)).comp (hadd _)).congr (fun _ => rfl) rfl

theorem records_processEntry (plAction : Action) (x : Listener) :
    Records (processEntry · l plAction) x := by
  have hskip : Records (fun y : Listener => (y, l)) x := .of_eq fun _ => rfl
  have hfields : ∀ p, (withDeltas x p).fields = x.fields := fun _ => rfl
  have hbook : ∀ p, (withDeltas x p).book = x.book := fun _ => rfl
  cases hid : x.fields.entryId with
  | none =>
    refine hskip.congr (fun p => ?_) ?_
    · simp [processEntry, hfields, hid]
    · simp [processEntry, hid]
  | some id =>
    by_cases hempty : id = ""
    · refine hskip.congr (fun p => ?_) ?_
      · simp [processEntry, hfields, hid, if_pos hempty]
      · simp [processEntry, hid, if_pos hempty]
    cases hfind : l.findEntry id with
    | none =>
      by_cases hdelete : x.fields.entryAction = .delete
      · have hsize : Records (fun y : Listener =>
            if y.fields.bookType = 1 ∧ y.fields.hasPlSize = false then
              ({ y with fields := { y.fields with plSize := l.size } }, l)
            else (y, l)) x :=
          .ite (fun _ => Iff.rfl) (fun _ => .of_eq fun _ => rfl) (fun _ => .of_eq fun _ => rfl)
        refine hsize.congr (fun p => ?_) ?_
        · simp [processEntry, hfields, hid, if_neg hempty, if_pos hdelete, hfind]
        · simp [processEntry, hid, if_neg hempty, if_pos hdelete, hfind]
      have hnew : Records (fun y : Listener =>
          { y with book := (x.book.levelNewEntry l id).1 }) x := .of_eq fun _ => rfl
      refine (hnew.comp (records_changeEntry (x.book.levelNewEntry l id).2.1 plAction
        (if x.fields.entryAction = Action.update then .add else x.fields.entryAction)
        (x.book.levelNewEntry l id).2.2 true _)).congr (fun p => ?_) ?_
      · simp only [processEntry, hfields, hbook, hid, if_neg hempty, if_neg hdelete, hfind]
      · simp [processEntry, hid, if_neg hempty, if_neg hdelete, hfind]
    | some e =>
      refine (records_changeEntry l plAction x.fields.entryAction e false x).congr (fun p => ?_) ?_
      · simp only [processEntry, hfields, hid, if_neg hempty, hfind]
        split
        · next h => rw [h]
        · rfl
      · simp only [processEntry, hid, if_neg hempty, hfind]
        split
        · next h => rw [h]
        · rfl

end

theorem records_processEntrySubMsg (plAction : Action) (msg : EntryMsg)
    (r : Listener × PriceLevel) : Records (processEntrySubMsg plAction · msg) r := by
  have hread : Records (fun r : Listener × PriceLevel =>
      { r.1 with fields := r.1.fields.processEntryMessage r.1.takesEntries msg }) r :=
    .of_eq fun _ => rfl
  have hclear : ∀ s : Listener × PriceLevel, Records (fun s : Listener × PriceLevel =>
      ({ s.1 with fields := s.1.fields.clearEntry }, s.2)) s := fun s => .of_eq fun _ => rfl
  exact ((hread.comp (records_processEntry r.2 plAction _)).comp (hclear _)).congr
    (fun _ => rfl) rfl

theorem records_deleteShownEntries (es : List Entry) (l : PriceLevel) (x : Listener) :
    Records (deleteShownEntries · l es) x := by
  induction es generalizing x l with
  | nil => exact .of_eq fun _ => rfl
  | cons e es ih =>
    let e' := { e with action := .delete }
    let l₁ : PriceLevel :=
      { l with entries := l.entries.map (updateFirst (·.ref == e.ref) fun _ => e') }
    let b := (x.book.removeLevelEntry l₁ e.ref).1
    let l₂ := (x.book.removeLevelEntry l₁ e.ref).2
    have hadd : Records (fun y : Listener =>
        { y with book := b }.addDelta (some e') l₂ .delete .delete) x :=
      .of_add ⟨some e', l₂, x.fields.plSizeChange, .delete, .delete⟩ fun _ => rfl
    exact (hadd.comp (ih l₂ _)).congr (fun _ => rfl) rfl

theorem records_processEntries (l : PriceLevel) (plAction : Action) (x : Listener) :
    Records (processEntries · l plAction) x := by
  have hpair : Records (fun y : Listener => (y, l)) x := .of_eq fun _ => rfl
  have hfold : ∀ (msgs : List EntryMsg) (r : Listener × PriceLevel),
      Records (fun r => msgs.foldl (processEntrySubMsg plAction) r) r := fun msgs r =>
    .foldl (fun msg s => records_processEntrySubMsg plAction msg s) msgs r
  refine .ite (fun _ => Iff.rfl) (fun _ => hpair.ok) (fun _ => ?_)
  refine .ite (fun _ => Iff.rfl) (fun _ => ?_) (fun _ => ?_)
  · -- a level without entries of its own
    refine .ite (fun _ => Iff.rfl) (fun _ => ?_) (fun _ => ?_)
    · exact .of_add ⟨none, l, x.fields.plSizeChange, plAction, .unknown⟩ fun _ => rfl
    · exact (records_deleteShownEntries (l.entryList.filter (x.book.counts l)) l x).ok.congr
        (fun _ => rfl) rfl
  have hfields : ∀ p, (withDeltas x p).fields = x.fields := fun _ => rfl
  cases hv : x.fields.entryVector with
  | some v =>
    have hvector : Records (fun y : Listener => if y.fields.plNumAttach ≤ v.length then
        (.ok ((v.take y.fields.plNumAttach).foldl (processEntrySubMsg plAction) (y, l)) :
          Handled (Listener × PriceLevel)) else .error .crash) x := by
      refine .ite (fun _ => Iff.rfl) (fun _ => ?_) (fun _ => .of_eq fun _ => rfl)
      exact (hpair.comp (hfold (v.take x.fields.plNumAttach) _)).ok.congr (fun _ => rfl) rfl
    refine hvector.congr (fun p => ?_) ?_
    · simp [hfields, hv]
    · simp [hv]
  | none =>
    have hread : Records (fun y : Listener =>
        let f := y.fields
        { y with fields := if f.entryTime.empty then { f with entryTime := f.plTime } else f })
        x := .of_eq fun _ => rfl
    have hclear : ∀ s : Listener × PriceLevel, Records (fun s : Listener × PriceLevel =>
        ({ s.1 with fields := s.1.fields.clearEntry }, s.2)) s := fun s => .of_eq fun _ => rfl
    have hown : Records (fun y : Listener =>
        if y.fields.entries = [] ∧ y.fields.entryId ≠ none then
          let f := y.fields
          let f := if f.entryTime.empty then { f with entryTime := f.plTime } else f
          let r := { y with fields := f }.processEntry l plAction
          (.ok ({ r.1 with fields := r.1.fields.clearEntry },
            r.2) : Handled (Listener × PriceLevel))
        else .ok (y.fields.entries.foldl (processEntrySubMsg plAction) (y, l))) x := by
      refine .ite (fun _ => Iff.rfl) (fun _ => ?_) (fun _ => ?_)
      · exact ((hread.comp (records_processEntry l plAction _)).comp (hclear _)).ok.congr
          (fun _ => rfl) rfl
      · exact (hpair.comp (hfold x.fields.entries _)).ok.congr (fun _ => rfl) rfl
    refine hown.congr (fun p => ?_) ?_
    · simp [hfields, hv]
    · simp [hv]

/-! ## Messages -/

theorem records_processLevel (x : Listener) : Records processLevel x := by
  refine (records_processLevelPart1 x).bind fun r _ => ?_
  obtain ⟨y, l⟩ := r
  cases l with
  | none => exact .of_eq fun _ => rfl
  | some l =>
    have hrest : Records (fun y => y.processEntries l y.fields.plAction >>= fun s =>
        (.ok (s.1.processLevelPart2 s.2) : Handled Listener)) y := by
      have hlast : ∀ s : Listener × PriceLevel, Records (fun s : Listener × PriceLevel =>
          (.ok (s.1.processLevelPart2 s.2) : Handled Listener)) s := by
        intro s
        have hfirst : Records (fun s : Listener × PriceLevel => s.1) s := .of_eq fun _ => rfl
        refine (hfirst.comp (records_processLevelPart2 s.2 s.1)).ok.congr ?_ rfl
        exact fun _ => rfl
      refine ((records_processEntries l y.fields.plAction y).bind fun s _ => hlast s).congr ?_ rfl
      exact fun _ => rfl
    have hfirst : Records (fun r : Listener × Option PriceLevel => r.1) (y, some l) :=
      .of_eq fun _ => rfl
    exact (hfirst.comp hrest).congr (fun _ => rfl) rfl

theorem records_processLevelSubMsg (clear : Bool) (msg : LevelMsg) (x : Listener) :
    Records (processLevelSubMsg clear · msg) x := by
  have hread : Records (fun y : Listener =>
      let f := if clear then y.fields.clearPriceLevel else y.fields
      { y with fields := f.processLevelMessage y.takesEntries msg }) x := .of_eq fun _ => rfl
  exact hread.comp (records_processLevel _)

theorem records_createDelta (x : Listener) : Records createDelta x := by
  refine .ite (fun _ => Iff.rfl) (fun _ => .of_eq fun _ => rfl) (fun _ => ?_)
  have hfields : ∀ p, (withDeltas x p).fields = x.fields := fun _ => rfl
  cases hv : x.fields.priceLevelVector with
  | some v =>
    have hvector : Records (fun y : Listener => if y.fields.numLevels ≤ v.length then
        (v.take y.fields.numLevels).foldlM (processLevelSubMsg true) y else .error .crash) x := by
      refine .ite (fun _ => Iff.rfl) (fun _ => ?_) (fun _ => .of_eq fun _ => rfl)
      exact (Records.foldlM (fun msg y => records_processLevelSubMsg true msg y)
        (v.take x.fields.numLevels) x).congr (fun _ => rfl) rfl
    refine hvector.congr (fun p => ?_) ?_
    · simp [hfields, hv]
    · simp [hv]
  | none =>
    have hread : Records (fun y : Listener =>
        let f := y.fields
        { y with fields := if f.hasPlTime then f else { f with plTime := f.bookTime } }) x :=
      .of_eq fun _ => rfl
    have hown : Records (fun y : Listener => if y.fields.priceLevels = [] then
        let f := y.fields
        { y with fields := if f.hasPlTime then f else { f with plTime := f.bookTime } }.processLevel
        else y.fields.priceLevels.foldlM (processLevelSubMsg false) y) x := by
      refine .ite (fun _ => Iff.rfl) (fun _ => hread.comp (records_processLevel _)) (fun _ => ?_)
      exact (Records.foldlM (fun msg y => records_processLevelSubMsg false msg y)
        x.fields.priceLevels x).congr (fun _ => rfl) rfl
    refine hown.congr (fun p => ?_) ?_
    · simp [hfields, hv]
    · simp [hv]

/-! ## What a message adds -/

/-- The deltas that `createDelta` passes to `addDelta`: what it leaves in a publisher that was
empty. -/
def deltasAdded (x : Listener) : List BasicDelta :=
  match caught (createDelta { x with deltas := .recorder }) with
  | some y => y.deltas.waiting
  | none => []

/-- **The deltas of a message.**  A message adds `deltasAdded`, one after the other, to whatever
the listener holds back, also when it throws. -/
theorem caught_createDelta {x y : Listener} (h : caught x.createDelta = some y) :
    y.deltas = x.deltas.addAll x.deltasAdded := by
  obtain ⟨ds, hrecords⟩ := records_createDelta x
  have hself : x.createDelta = withDeltas x.createDelta (x.deltas.addAll ds) := hrecords x.deltas
  have hrecorded : ∀ y, caught x.createDelta = some y →
      caught (createDelta { x with deltas := .recorder }) =
        some (withDeltas y (Publisher.recorder.addAll ds)) := by
    intro y hy
    have heq : createDelta { x with deltas := .recorder } = _ := hrecords .recorder
    rw [heq]
    cases hx : x.createDelta with
    | ok z =>
      rw [hx] at hy
      cases hy
      rfl
    | error stop =>
      rw [hx] at hy
      cases stop with
      | thrown z => cases hy; rfl
      | crash => cases hy
  have hadded : x.deltasAdded = ds := by
    rw [deltasAdded, hrecorded y h]; exact (Publisher.recorder_collects.addAll ds).2
  rw [hadded]
  rw [hself] at h
  cases hx : x.createDelta with
  | ok z =>
    rw [hx] at h
    cases h
    rfl
  | error stop =>
    rw [hx] at h
    cases stop with
    | thrown z => cases h; rfl
    | crash => cases h

end Listener

end Mamda

import Mathlib.Data.List.Induction
import OpenMama.Lib.IndexedFold
import OpenMama.Mamda.BasicDeltaList

/-!
# Conflation by entry

A list that conflates by entry keeps a list of deltas for a price.  A client
replays what is kept on its view of the book, where a delta that adds what is
there, or updates or deletes what is not, does not fit.  The conflation forgets
the ADD of an entry when the entry is updated, and the ADD of a level when the
entry that came with it changes; `replay_kept_iff` says for which sequences the
client still ends with the view of the book.
-/

namespace Mamda

open Mama Lib List Option

/-! ## Replaying deltas -/

def BasicDelta.entryId (d : BasicDelta) : Option String := d.entry.map Entry.id

abbrev Slots (α : Type) := String → Option α

abbrev View (α : Type) := BookSide × Price → Option (Slots α)

section Replay

variable {α : Type} (put : Entry → α) (fits : α → Entry → Bool)

/-- What a delta does to the slot of its entry: ADD fills an empty one, UPDATE and DELETE need
the entry in it; `none` for a delta that does not fit. -/
def BasicDelta.stepSlot (d : BasicDelta) (slot : Option α) : Option (Option α) :=
  match d.entry, d.entryAction, slot with
  | none, _, _ => some slot
  | some e, .add, none => some (some (put e))
  | some e, .update, some a => if fits a e then some (some (put e)) else none
  | some e, .delete, some a => if fits a e then some none else none
  | some _, _, _ => none

def BasicDelta.stepSlots (d : BasicDelta) (m : Slots α) : Option (Slots α) :=
  changeAt BasicDelta.entryId (BasicDelta.stepSlot put fits) m d

/-- What a delta does to its level: ADD needs none there, UPDATE and DELETE need one. -/
def BasicDelta.stepLevel (d : BasicDelta) (level : Option (Slots α)) :
    Option (Option (Slots α)) :=
  match d.plAction, level with
  | .add, none => (d.stepSlots put fits fun _ => none).map some
  | .update, some m => (d.stepSlots put fits m).map some
  | .delete, some m => (d.stepSlots put fits m).map fun _ => none
  | _, _ => none

def replay (ds : List BasicDelta) (v : View α) : Option (View α) :=
  runAt (fun d => some d.key) (BasicDelta.stepLevel put fits) ds v

end Replay

abbrev ClientView := View Nat

def clientReplay (ds : List BasicDelta) (v : ClientView) : Option ClientView :=
  replay Entry.size (fun _ _ => true) ds v

abbrev Held := View Entry

def heldReplay (ds : List BasicDelta) (b : Held) : Option Held :=
  replay id (fun a e => decide (a.ref = e.ref)) ds b

def sizes (m : Slots Entry) : Slots Nat := fun i => (m i).map Entry.size

def Held.view (b : Held) : ClientView := fun k => (b k).map sizes

/-- The deltas of an interval that fit the book `b` and lead to `b'`.  The entries are objects:
an object has one id, and since a deleted one is kept until the deltas are delivered, an entry
that is added is an object that no earlier delta names. -/
structure Interval (b b' : Held) (ds : List BasicDelta) : Prop where
  fits : heldReplay ds b = some b'
  named : ∀ d ∈ ds, d.entryAction = .unknown ↔ d.entry = none
  ids : ∀ d ∈ ds, ∀ d' ∈ ds, d.entryRef = d'.entryRef → d.entryId = d'.entryId
  fresh : ds.Pairwise fun d d' => d'.entryAction = .add → d'.entry ≠ none →
    d.entryRef ≠ d'.entryRef

/-! ## When the conflation keeps what is needed -/

/-- The stays of a level: those that ended with a level DELETE, and the last one. -/
def stays (ds : List BasicDelta) : List (List BasicDelta) × List BasicDelta :=
  ds.foldl (fun s d => if d.plAction = .delete then (s.1 ++ [s.2], []) else (s.1, s.2 ++ [d]))
    ([], [])

def EntriesKept (stay : List BasicDelta) : Prop :=
  stay.Pairwise fun d d' => d.entryAction = .add → d'.entryAction = .update →
    d.entryRef ≠ d'.entryRef

/-- The entry that came with the level is not named again. -/
def LevelKept (stay : List BasicDelta) : Prop :=
  stay.Pairwise fun d d' => d.plAction = .add → d.entry ≠ none → d.entryRef ≠ d'.entryRef

/-- The condition at one price: the last stay of the level keeps its entries and the level; where
the client did not have the level, every earlier stay keeps the level. -/
def Conflatable (before : Bool) (ds : List BasicDelta) : Prop :=
  EntriesKept (stays ds).2 ∧ LevelKept (stays ds).2 ∧
    (before = false → ∀ stay ∈ (stays ds).1, LevelKept stay)

/-! ## The list kept for a price, as the source changes it -/

open DeltaList

theorem applyEntryDelta_unseen {kept : List BasicDelta} {d : BasicDelta}
    (h : d.entryAction = .unknown ∨ ∀ x ∈ kept, x.entryRef ≠ d.entryRef) :
    applyEntryDelta kept d = kept ++ [d] := by
  rw [applyEntryDelta, find?_eq_none.mpr ?_]
  intro x hx
  rcases h with h | h
  · simp [h]
  · simp [h x hx]

theorem applyEntryDelta_seen {l₁ l₂ : List BasicDelta} {x d : BasicDelta}
    (hd : d.entryAction ≠ .unknown) (hno : ∀ y ∈ l₁, y.entryRef ≠ d.entryRef)
    (hx : x.entryRef = d.entryRef) :
    applyEntryDelta (l₁ ++ x :: l₂) d =
      if d.entryAction = .delete ∧ x.entryAction = .add then l₁ ++ l₂ else l₁ ++ l₂ ++ [d] := by
  obtain ⟨hfind, herase, -⟩ := @at_split _
    (fun y : BasicDelta => decide (y.entryRef = d.entryRef) && d.entryAction != .unknown) l₁ l₂ x
    (fun y hy => by simp [hno y hy]) (by simp [hx, hd])
  rw [applyEntryDelta, hfind, herase]

theorem applyEntryDelta_singleton {x d : BasicDelta} (hd : d.entryAction ≠ .unknown)
    (hx : x.entryRef = d.entryRef) : applyEntryDelta [x] d = if d.entryAction = .delete ∧
    x.entryAction = .add then [] else [d] := by
  have h := @applyEntryDelta_seen [] [] x d hd (by simp) hx
  simpa only [nil_append] using h

theorem applyEntryDelta_cases (kept : List BasicDelta) (d : BasicDelta) :
    (d.entryAction = .unknown ∨ ∀ x ∈ kept, x.entryRef ≠ d.entryRef) ∨
    ∃ l₁ x l₂, kept = l₁ ++ x :: l₂ ∧ d.entryAction ≠ .unknown ∧
      (∀ y ∈ l₁, y.entryRef ≠ d.entryRef) ∧ x.entryRef = d.entryRef := by
  by_cases hd : d.entryAction = .unknown
  · exact .inl (.inl hd)
  cases hf : kept.find? (fun x => decide (x.entryRef = d.entryRef)) with
  | none => exact .inl (.inr fun x hx => by simpa using find?_eq_none.mp hf x hx)
  | some x =>
    obtain ⟨l₁, l₂, hl, hno, hx, -, -⟩ := split_of_find? hf
    exact .inr ⟨l₁, x, l₂, hl, hd, fun y hy => by simpa using hno y hy, by simpa using hx⟩

theorem mem_applyEntryDelta {kept : List BasicDelta} {d x : BasicDelta}
    (h : x ∈ applyEntryDelta kept d) : x ∈ kept ∨ x = d := by
  rcases applyEntryDelta_cases kept d with hun | ⟨l₁, y, l₂, rfl, hd, hno, hy⟩
  · rw [applyEntryDelta_unseen hun] at h; simpa using h
  · rw [applyEntryDelta_seen hd hno hy] at h
    split at h <;> simp at h ⊢ <;> tauto

theorem applyEntryDelta_cons {kept : List BasicDelta} {d x : BasicDelta}
    (hx : d.entryAction = .unknown ∨ x.entryRef ≠ d.entryRef) :
    applyEntryDelta (x :: kept) d = x :: applyEntryDelta kept d := by
  rcases applyEntryDelta_cases kept d with hun | ⟨l₁, y, l₂, rfl, hd, hno, hy⟩
  · rw [applyEntryDelta_unseen hun, applyEntryDelta_unseen]
    · rfl
    · rcases hx with hx | hx
      · exact .inl hx
      · refine hun.imp id fun hun y hy => ?_
        rcases mem_cons.mp hy with rfl | hy
        · exact hx
        · exact hun y hy
  have hx' := hx.resolve_left hd
  rw [applyEntryDelta_seen hd hno hy, ← cons_append, applyEntryDelta_seen hd ?_ hy]
  · split <;> rfl
  · intro z hz
    rcases mem_cons.mp hz with rfl | hz
    · exact hx'
    · exact hno z hz

def conflated (stay : List BasicDelta) : List BasicDelta := stay.foldl applyEntryDelta []

theorem conflated_concat (stay : List BasicDelta) (d : BasicDelta) :
    conflated (stay ++ [d]) = applyEntryDelta (conflated stay) d := by
  rw [conflated, foldl_append]
  rfl

variable {stay : List BasicDelta} {s s' : Option Entry}

theorem mem_conflated {x : BasicDelta} (h : x ∈ conflated stay) : x ∈ stay := by
  induction stay using List.reverseRecOn with
  | nil => cases h
  | append_singleton stay d ih =>
    rw [conflated_concat] at h
    rcases mem_applyEntryDelta h with h | rfl
    · exact mem_append_left _ (ih h)
    · simp

/-! ## One entry id -/

theorem EntriesKept.concat {d : BasicDelta} : EntriesKept (stay ++ [d]) ↔ EntriesKept stay ∧
    ∀ x ∈ stay, x.entryAction = .add → d.entryAction = .update → x.entryRef ≠ d.entryRef := by
  unfold EntriesKept
  rw [pairwise_append]
  simp

abbrev clientSlot := BasicDelta.stepSlot Entry.size (fun _ _ => true)

abbrev heldSlot := BasicDelta.stepSlot id (fun (a e : Entry) => decide (a.ref = e.ref))

theorem heldSlot_cases {d : BasicDelta} {e : Entry} (he : d.entry = some e)
    (h : heldSlot d s = some s') : (d.entryAction = .add ∧ s = none ∧ s' = some e) ∨
    (d.entryAction = .update ∧ (∃ a, s = some a ∧ a.ref = e.ref) ∧ s' = some e) ∨
    (d.entryAction = .delete ∧ (∃ a, s = some a ∧ a.ref = e.ref) ∧ s' = none) := by
  unfold heldSlot BasicDelta.stepSlot at h
  cases ha : d.entryAction <;> cases s <;> simp_all

/-- The kept deltas of an id empty the slot of a client, or the client stumbles over them. -/
def Empties (c : Option Entry) (past kept : List BasicDelta) : Prop :=
  (EntriesKept past ∧ run clientSlot kept (c.map Entry.size) = some none) ∨
    (¬ EntriesKept past ∧ run clientSlot kept (c.map Entry.size) = none)

/-- The kept deltas of an id after `past`: `c` was in the slot at the start and the third
argument is now. -/
inductive Tracks (c : Option Entry) (past : List BasicDelta) :
    Option Entry → List BasicDelta → Prop
  | gone {kept} : Empties c past kept → Tracks c past none kept
  | same {e} : c = some e → past = [] → Tracks c past (some e) []
  | added {kept d e} : d ∈ past → d.entry = some e → d.entryAction = .add →
      (∀ x ∈ kept, x.entryRef ≠ some e.ref) → Empties c past kept →
      Tracks c past (some e) (kept ++ [d])
  | updated {d e} : c.isSome → EntriesKept past →
      (∀ x ∈ past, x.entryAction = .add → x.entryRef ≠ some e.ref) →
      d.entry = some e → d.entryAction = .update → Tracks c past (some e) [d]
  | lost {kept d e} : ¬ EntriesKept past → d.entry = some e → d.entryAction = .update →
      (∀ x ∈ kept, x.entryRef ≠ some e.ref) →
      (run clientSlot kept (c.map Entry.size) = some none ∨
        run clientSlot kept (c.map Entry.size) = none) →
      Tracks c past (some e) (kept ++ [d])

theorem entryRef_of_entry {d : BasicDelta} {e : Entry} (h : d.entry = some e) :
    d.entryRef = some e.ref := by
  rw [BasicDelta.entryRef, h]
  rfl

theorem Empties.concat {c : Option Entry} {past kept : List BasicDelta} {d : BasicDelta}
    (h : Empties c past kept) (hd : d.entryAction ≠ .update) : Empties c (past ++ [d]) kept := by
  have hkept : EntriesKept (past ++ [d]) ↔ EntriesKept past := by
    rw [EntriesKept.concat]; exact ⟨And.left, fun h => ⟨h, fun _ _ _ hupd => absurd hupd hd⟩⟩
  unfold Empties
  rwa [hkept]

section Tracks

variable {c : Option Entry} {past kept : List BasicDelta} {d : BasicDelta} {e a : Entry}

theorem Tracks.add (h : Tracks c past none kept) (he : d.entry = some e)
    (hd : d.entryAction = .add) (hfresh : ∀ x ∈ kept, x.entryRef ≠ some e.ref) :
    Tracks c (past ++ [d]) (some e) (applyEntryDelta kept d) := by
  rw [applyEntryDelta_unseen (.inr (by rwa [entryRef_of_entry he]))]
  cases h with
  | gone hemp => exact .added (by simp) he hd hfresh (hemp.concat (by simp [hd]))

theorem Tracks.update (h : Tracks c past (some a) kept) (he : d.entry = some e)
    (hd : d.entryAction = .update) (hae : a.ref = e.ref) :
    Tracks c (past ++ [d]) (some e) (applyEntryDelta kept d) := by
  have hde := entryRef_of_entry he
  cases h with
  | same hc hpast =>
    subst hpast
    refine .updated (by simp [hc]) (pairwise_singleton _ _) ?_ he hd
    intro x hx hadd
    obtain rfl : x = d := by simpa using hx
    rw [hd] at hadd
    cases hadd
  | @added kept x _ hx hxe hxadd hno hemp =>
    rw [applyEntryDelta_seen (by simp [hd]) (by rwa [hde, ← hae])
      (by rw [entryRef_of_entry hxe, hde, hae]), if_neg (by simp [hd]), append_nil]
    refine .lost ?_ he hd (by rwa [← hae]) (hemp.imp And.right And.right)
    intro hkept
    exact (EntriesKept.concat.mp hkept).2 x hx hxadd hd
      (by rw [entryRef_of_entry hxe, hde, hae])
  | @updated x _ hc hkept hnone hxe hxupd =>
    rw [applyEntryDelta_singleton (by simp [hd]) (by rw [entryRef_of_entry hxe, hde, hae]),
      if_neg (by simp [hd])]
    refine .updated hc (EntriesKept.concat.mpr ⟨hkept, ?_⟩) ?_ he hd
    · intro y hy hadd _
      rw [hde, ← hae]
      exact hnone y hy hadd
    · intro y hy hadd
      rcases mem_append.mp hy with hy | hy
      · rw [← hae]; exact hnone y hy hadd
      · obtain rfl : y = d := by simpa using hy
        rw [hd] at hadd
        cases hadd
  | @lost kept x _ hbad hxe hxupd hno hrun =>
    rw [applyEntryDelta_seen (by simp [hd]) (by rwa [hde, ← hae])
      (by rw [entryRef_of_entry hxe, hde, hae]), if_neg (by simp [hd]), append_nil]
    exact .lost (fun hkept => hbad (EntriesKept.concat.mp hkept).1) he hd (by rwa [← hae]) hrun

theorem clientSlot_delete (he : d.entry = some e) (hd : d.entryAction = .delete)
    (slot : Option Nat) : clientSlot d slot = if slot.isSome then some none else none := by
  unfold clientSlot BasicDelta.stepSlot
  rw [he, hd]
  cases slot <;> rfl

theorem Tracks.delete (h : Tracks c past (some a) kept) (he : d.entry = some e)
    (hd : d.entryAction = .delete) (hae : a.ref = e.ref) :
    Tracks c (past ++ [d]) none (applyEntryDelta kept d) := by
  have hde := entryRef_of_entry he
  have hnot : d.entryAction ≠ .update := by simp [hd]
  -- the kept DELETE finds the entry in the client's slot
  have hone : c.isSome → run clientSlot [d] (c.map Entry.size) = some none := by
    intro hc
    rw [run_cons, clientSlot_delete he hd, if_pos (by simpa using hc)]
    rfl
  cases h with
  | same hc hpast => subst hpast; exact .gone (.inl ⟨pairwise_singleton _ _, hone (by simp [hc])⟩)
  | @added kept x _ hx hxe hxadd hno hemp =>
    rw [applyEntryDelta_seen (by simp [hd]) (by rwa [hde, ← hae])
      (by rw [entryRef_of_entry hxe, hde, hae]), if_pos ⟨hd, hxadd⟩, append_nil]
    exact .gone (hemp.concat hnot)
  | @updated x _ hc hkept hnone hxe hxupd =>
    rw [applyEntryDelta_singleton (by simp [hd]) (by rw [entryRef_of_entry hxe, hde, hae]),
      if_neg (by simp [hxupd])]
    exact .gone (.inl ⟨EntriesKept.concat.mpr ⟨hkept, fun _ _ _ hupd => absurd hupd hnot⟩, hone hc⟩)
  | @lost kept x _ hbad hxe hxupd hno hrun =>
    rw [applyEntryDelta_seen (by simp [hd]) (by rwa [hde, ← hae])
      (by rw [entryRef_of_entry hxe, hde, hae]), if_neg (by simp [hxupd]), append_nil]
    refine .gone (.inr ⟨fun hkept => hbad (EntriesKept.concat.mp hkept).1, ?_⟩)
    rw [run_concat]
    rcases hrun with hrun | hrun <;> rw [hrun]
    · exact clientSlot_delete he hd none
    · rfl

/-- The client ends with what is in the slot, or stumbles where an ADD was forgotten. -/
theorem Tracks.run_eq (h : Tracks c past s kept) :
    (EntriesKept past ∧ run clientSlot kept (c.map Entry.size) = some (s.map Entry.size)) ∨
      (¬ EntriesKept past ∧ run clientSlot kept (c.map Entry.size) = none) := by
  cases h with
  | gone hemp => exact hemp
  | @same e hc hpast => subst hpast; exact .inl ⟨List.Pairwise.nil, by rw [hc]; rfl⟩
  | @added kept d e _ he hd _ hemp =>
    have hstep : clientSlot d none = some (some e.size) := by
      unfold clientSlot BasicDelta.stepSlot
      rw [he, hd]
    rcases hemp with ⟨hkept, hrun⟩ | ⟨hbad, hrun⟩
    · exact .inl ⟨hkept, by rw [run_concat, hrun]; exact hstep⟩
    · exact .inr ⟨hbad, by rw [run_concat, hrun]; rfl⟩
  | @updated d e hc hkept _ he hd =>
    obtain ⟨o, ho⟩ := isSome_iff_exists.mp hc
    refine .inl ⟨hkept, ?_⟩
    rw [run_cons, ho]
    unfold clientSlot BasicDelta.stepSlot
    rw [he, hd]
    rfl
  | @lost kept d e hbad he hd _ hrun =>
    refine .inr ⟨hbad, ?_⟩
    rw [run_concat]
    rcases hrun with hrun | hrun <;> rw [hrun]
    · show clientSlot d none = none
      unfold clientSlot BasicDelta.stepSlot
      rw [he, hd]
    · rfl

end Tracks

/-- What ties deltas to objects: one id for an object, and an ADD names an object that no
earlier delta names. -/
structure Objects (ds : List BasicDelta) : Prop where
  named : ∀ d ∈ ds, d.entryAction = .unknown ↔ d.entry = none
  ids : ∀ d ∈ ds, ∀ d' ∈ ds, d.entryRef = d'.entryRef → d.entryId = d'.entryId
  fresh : ds.Pairwise fun d d' => d'.entryAction = .add → d'.entry ≠ none →
    d.entryRef ≠ d'.entryRef

theorem Objects.sublist {ds ds' : List BasicDelta} (h : Objects ds) (hsub : ds'.Sublist ds) :
    Objects ds' :=
  ⟨fun d hd => h.named d (hsub.mem hd),
    fun d hd d' hd' => h.ids d (hsub.mem hd) d' (hsub.mem hd'), h.fresh.sublist hsub⟩

theorem tracks_of_run {c : Option Entry} {ds : List BasicDelta} (hobj : Objects ds)
    (hnamed : ∀ d ∈ ds, d.entry ≠ none) (hrun : run heldSlot ds c = some s) :
    Tracks c ds s (conflated ds) := by
  induction ds using List.reverseRecOn generalizing s with
  | nil =>
    obtain rfl : c = s := some.inj hrun
    cases c with
    | none => exact .gone (.inl ⟨List.Pairwise.nil, rfl⟩)
    | some e => exact .same rfl rfl
  | append_singleton ds d ih =>
    obtain ⟨t, ht, hstep⟩ := run_concat_eq_some.mp hrun
    have hsub : ds.Sublist (ds ++ [d]) := sublist_append_left ds [d]
    have htracks := ih (hobj.sublist hsub) (fun x hx => hnamed x (hsub.mem hx)) ht
    obtain ⟨e, he⟩ := ne_none_iff_exists'.mp (hnamed d (by simp))
    rw [conflated_concat]
    rcases heldSlot_cases he hstep with ⟨hd, rfl, rfl⟩ | ⟨hd, ⟨a, rfl, ha⟩, rfl⟩ |
      ⟨hd, ⟨a, rfl, ha⟩, rfl⟩
    · refine htracks.add he hd fun x hx => ?_
      have hfresh := (pairwise_append.mp hobj.fresh).2.2 x (mem_conflated hx) d (by simp) hd
        (by simp [he])
      rwa [entryRef_of_entry he] at hfresh
    · exact htracks.update he hd ha
    · exact htracks.delete he hd ha

/-! ## The entries of a level -/

/-- The client's and the book's runs over the entries of a level. -/
abbrev clientSlots := runAt BasicDelta.entryId clientSlot

abbrev heldSlots := runAt BasicDelta.entryId heldSlot

theorem changesOf_applyEntryDelta {kept : List BasicDelta} {d : BasicDelta}
    (hids : ∀ x ∈ kept, x.entryRef = d.entryRef → x.entryId = d.entryId) (i : String) :
    changesOf BasicDelta.entryId i (applyEntryDelta kept d) =
      if d.entryId = some i then applyEntryDelta (changesOf BasicDelta.entryId i kept) d
      else changesOf BasicDelta.entryId i kept := by
  have hmem : ∀ {l : List BasicDelta} {x}, x ∈ changesOf BasicDelta.entryId i l → x ∈ l :=
    fun h => (mem_filter.mp h).1
  have hone : changesOf BasicDelta.entryId i [d] = if d.entryId = some i then [d] else [] := by
    split
    · next h => exact changesOf_cons_self h []
    · next h => exact changesOf_cons_ne h []
  rcases applyEntryDelta_cases kept d with hun | ⟨l₁, x, l₂, rfl, hd, hno, hx⟩
  · rw [applyEntryDelta_unseen hun, changesOf_append, hone]
    split
    · rw [applyEntryDelta_unseen (hun.imp id fun hun y hy => hun y (hmem hy))]
    · rw [append_nil]
  have hxid := hids x (by simp) hx
  rw [applyEntryDelta_seen hd hno hx]
  by_cases hi : d.entryId = some i
  · rw [changesOf_append, changesOf_cons_self (hxid.trans hi),
      applyEntryDelta_seen hd (fun y hy => hno y (hmem hy)) hx]
    rw [if_pos hi] at hone
    split
    · rw [changesOf_append]
    · rw [changesOf_append, changesOf_append, hone]
  · rw [if_neg hi] at hone
    rw [if_neg hi, changesOf_append, changesOf_cons_ne (by rwa [hxid])]
    split
    · rw [changesOf_append]
    · rw [changesOf_append, changesOf_append, hone, append_nil]

theorem changesOf_conflated
    (hids : ∀ d ∈ stay, ∀ d' ∈ stay, d.entryRef = d'.entryRef → d.entryId = d'.entryId)
    (i : String) :
    changesOf BasicDelta.entryId i (conflated stay) =
      conflated (changesOf BasicDelta.entryId i stay) := by
  induction stay using List.reverseRecOn with
  | nil => rfl
  | append_singleton stay d ih =>
    have hleft : ∀ {x}, x ∈ stay → x ∈ stay ++ [d] := fun hx => mem_append_left _ hx
    rw [conflated_concat, changesOf_applyEntryDelta
      (fun x hx => hids x (hleft (mem_conflated hx)) d (by simp)),
      ih (fun x hx y hy => hids x (hleft hx) y (hleft hy)), changesOf_append]
    split
    · next h => rw [changesOf_cons_self h]; exact (conflated_concat _ d).symm
    · next h => rw [changesOf_cons_ne h]; exact congrArg conflated (append_nil _).symm

theorem entriesKept_iff (hobj : Objects stay) :
    EntriesKept stay ↔ ∀ i, EntriesKept (changesOf BasicDelta.entryId i stay) := by
  constructor
  · intro h i; exact h.sublist filter_sublist
  intro h
  induction stay using List.reverseRecOn with
  | nil => exact List.Pairwise.nil
  | append_singleton stay d ih =>
    have hsub : stay.Sublist (stay ++ [d]) := sublist_append_left stay [d]
    refine EntriesKept.concat.mpr ⟨ih (hobj.sublist hsub) fun i => ?_, ?_⟩
    · refine (h i).sublist ?_
      rw [changesOf_append]
      exact sublist_append_left _ _
    intro x hx hadd hupd href
    cases he : d.entry with
    | none =>
      have hun := (hobj.named d (by simp)).mpr he
      rw [hun] at hupd
      cases hupd
    | some e =>
      have hid : d.entryId = some e.id := by
        rw [BasicDelta.entryId, he]; rfl
      have hxid := hobj.ids x (mem_append_left _ hx) d (by simp) href
      have hmem : x ∈ changesOf BasicDelta.entryId e.id stay :=
        mem_filter.mpr ⟨hx, by simp [hxid, hid]⟩
      have hcat := h e.id
      rw [changesOf_append, changesOf_cons_self hid] at hcat
      exact (EntriesKept.concat.mp hcat).2 x hmem hadd hupd href

/-- A stay of a level from the entries `m` to the entries `m'`: a client that sees `m` replays
the conflated deltas up to `m'` if no entry lost its ADD, and stumbles otherwise. -/
theorem clientSlots_conflated {m m' : Slots Entry} (hobj : Objects stay)
    (hrun : heldSlots stay m = some m') :
    (EntriesKept stay ∧ clientSlots (conflated stay) (sizes m) = some (sizes m')) ∨
      (¬ EntriesKept stay ∧ clientSlots (conflated stay) (sizes m) = none) := by
  have hslot : ∀ i, Tracks (m i) (changesOf BasicDelta.entryId i stay) (m' i)
      (changesOf BasicDelta.entryId i (conflated stay)) := by
    intro i
    rw [changesOf_conflated hobj.ids]
    refine tracks_of_run (hobj.sublist filter_sublist) ?_ ((runAt_iff stay m m').mp hrun i)
    intro d hd hnone
    have hid := key_of_mem_changesOf hd
    unfold BasicDelta.entryId at hid
    rw [hnone] at hid
    cases hid
  by_cases hkept : EntriesKept stay
  · refine .inl ⟨hkept, (runAt_iff _ _ _).mpr fun i => ?_⟩
    rcases (hslot i).run_eq with ⟨-, hi⟩ | ⟨hbad, -⟩
    · exact hi
    · exact absurd ((entriesKept_iff hobj).mp hkept i) hbad
  refine .inr ⟨hkept, eq_none_iff_forall_ne_some.mpr fun v hv => hkept ?_⟩
  refine (entriesKept_iff hobj).mpr fun i => ?_
  rcases (hslot i).run_eq with ⟨hi, -⟩ | ⟨-, hi⟩
  · exact hi
  · have hvi := (runAt_iff _ _ _).mp hv i
    rw [show sizes m i = (m i).map Entry.size from rfl, hi] at hvi
    cases hvi

/-! ## The stays of a level -/

theorem stays_concat_delete {ds : List BasicDelta} {d : BasicDelta} (h : d.plAction = .delete) :
    stays (ds ++ [d]) = ((stays ds).1 ++ [(stays ds).2], []) := by
  unfold stays
  rw [foldl_append, foldl_cons, foldl_nil, if_pos h]

theorem stays_concat {ds : List BasicDelta} {d : BasicDelta} (h : d.plAction ≠ .delete) :
    stays (ds ++ [d]) = ((stays ds).1, (stays ds).2 ++ [d]) := by
  unfold stays
  rw [foldl_append, foldl_cons, foldl_nil, if_neg h]

theorem lastStay_sublist (ds : List BasicDelta) : (stays ds).2.Sublist ds := by
  induction ds using List.reverseRecOn with
  | nil => exact List.Sublist.refl _
  | append_singleton ds d ih =>
    by_cases h : d.plAction = .delete
    · rw [stays_concat_delete h]; exact nil_sublist _
    · rw [stays_concat h]; exact ih.append (List.Sublist.refl _)

theorem LevelKept.concat {d : BasicDelta} : LevelKept (stay ++ [d]) ↔ LevelKept stay ∧ ∀ x ∈ stay,
    x.plAction = .add → x.entry ≠ none → x.entryRef ≠ d.entryRef := by
  unfold LevelKept
  rw [pairwise_append]
  simp

theorem levelKept_of_updates (h : ∀ d ∈ stay, d.plAction = .update) : LevelKept stay := by
  refine pairwise_of_forall_mem_list fun d hd d' _ hadd => ?_
  rw [h d hd] at hadd
  cases hadd

variable {rest : List BasicDelta} {l l' : Option (Slots Entry)}

/-- A stay that starts with the ADD of the level: the ADD is kept in front exactly when its entry
is not named again. -/
theorem conflated_of_add {a : BasicDelta} (ha : a.plAction = .add)
    (hrest : ∀ d ∈ rest, d.plAction = .update)
    (hnamed : ∀ d ∈ rest, d.entryAction = .unknown ↔ d.entry = none) :
    (LevelKept (a :: rest) ∧ ∃ kept, conflated (a :: rest) = a :: kept ∧
      ∀ d ∈ kept, d.plAction = .update) ∨
    (¬ LevelKept (a :: rest) ∧ ∀ d ∈ conflated (a :: rest), d.plAction = .update) := by
  induction rest using List.reverseRecOn with
  | nil => exact .inl ⟨pairwise_singleton _ _, [], rfl, by simp⟩
  | append_singleton rest d ih =>
    have hd := hrest d (by simp)
    rw [← cons_append, conflated_concat]
    rcases ih (fun x hx => hrest x (mem_append_left _ hx))
      (fun x hx => hnamed x (mem_append_left _ hx)) with ⟨hkept, kept, hcon, hupd⟩ | ⟨hbad, hupd⟩
    · rw [hcon]
      by_cases hsame : a.entry ≠ none ∧ a.entryRef = d.entryRef
      · obtain ⟨hne, href⟩ := hsame
        refine .inr ⟨fun hk => (LevelKept.concat.mp hk).2 a (by simp) ha hne href, ?_⟩
        have hact : d.entryAction ≠ .unknown := by
          rw [ne_eq, hnamed d (by simp)]
          intro hnone
          unfold BasicDelta.entryRef at href
          rw [hnone] at href
          exact hne (by simpa using href)
        have happ := @applyEntryDelta_seen [] kept a d hact (by simp) href
        rw [nil_append] at happ
        rw [happ]
        intro x hx
        split at hx
        · exact hupd x hx
        · rcases mem_append.mp hx with hx | hx
          · exact hupd x hx
          · obtain rfl : x = d := by simpa using hx
            exact hd
      refine .inl ⟨LevelKept.concat.mpr ⟨hkept, ?_⟩, applyEntryDelta kept d, ?_, ?_⟩
      · intro x hx hadd hne href
        rcases mem_cons.mp hx with rfl | hx
        · exact hsame ⟨hne, href⟩
        · rw [hrest x (mem_append_left _ hx)] at hadd; cases hadd
      · apply applyEntryDelta_cons
        by_cases hne : a.entry = none
        · by_cases hdn : d.entry = none
          · exact .inl ((hnamed d (by simp)).mpr hdn)
          · right
            unfold BasicDelta.entryRef
            rw [hne]
            simpa using hdn
        · exact .inr fun href => hsame ⟨hne, href⟩
      · intro x hx
        rcases mem_applyEntryDelta hx with hx | rfl
        · exact hupd x hx
        · exact hd
    · refine .inr ⟨fun hk => hbad (LevelKept.concat.mp hk).1, fun x hx => ?_⟩
      rcases mem_applyEntryDelta hx with hx | rfl
      · exact hupd x hx
      · exact hd

/-! ## One price -/

abbrev clientLevel := BasicDelta.stepLevel Entry.size (fun _ _ => true)

abbrev heldLevel := BasicDelta.stepLevel id (fun (a e : Entry) => decide (a.ref = e.ref))

theorem heldLevel_cases {d : BasicDelta} (h : heldLevel d l = some l') :
    (d.plAction = .add ∧ l = none ∧
      ∃ m', changeAt BasicDelta.entryId heldSlot (fun _ => none) d = some m' ∧ l' = some m') ∨
    (d.plAction = .update ∧ ∃ m m', l = some m ∧
      changeAt BasicDelta.entryId heldSlot m d = some m' ∧ l' = some m') ∨
    (d.plAction = .delete ∧ ∃ m m', l = some m ∧
      changeAt BasicDelta.entryId heldSlot m d = some m' ∧ l' = none) := by
  unfold heldLevel BasicDelta.stepLevel BasicDelta.stepSlots at h
  cases ha : d.plAction <;> cases l <;> simp only [ha, reduceCtorEq] at h
  · obtain ⟨m', hm', rfl⟩ := map_eq_some_iff.mp h
    exact .inl ⟨rfl, rfl, m', hm', rfl⟩
  · obtain ⟨m', hm', rfl⟩ := map_eq_some_iff.mp h
    exact .inr (.inl ⟨rfl, _, m', rfl, hm', rfl⟩)
  · obtain ⟨m', hm', rfl⟩ := map_eq_some_iff.mp h
    exact .inr (.inr ⟨rfl, _, m', rfl, hm', rfl⟩)

theorem clientSlot_of_held {d : BasicDelta} (h : heldSlot d s = some s') :
    clientSlot d (s.map Entry.size) = some (s'.map Entry.size) := by
  cases he : d.entry with
  | none =>
    unfold heldSlot BasicDelta.stepSlot at h
    unfold clientSlot BasicDelta.stepSlot
    rw [he] at h ⊢
    obtain rfl : s = s' := some.inj h
    rfl
  | some e =>
    unfold clientSlot BasicDelta.stepSlot
    rcases heldSlot_cases he h with
      ⟨hd, rfl, rfl⟩ | ⟨hd, ⟨a, rfl, -⟩, rfl⟩ | ⟨hd, ⟨a, rfl, -⟩, rfl⟩ <;>
    · rw [he, hd]; rfl

theorem clientSlots_of_held {d : BasicDelta} {m m' : Slots Entry}
    (h : changeAt BasicDelta.entryId heldSlot m d = some m') :
    changeAt BasicDelta.entryId clientSlot (sizes m) d = some (sizes m') := by
  unfold changeAt at h ⊢
  cases hid : d.entryId with
  | none =>
    rw [hid] at h
    rw [some.inj h]
  | some i =>
    simp only [hid] at h ⊢
    obtain ⟨s', hs', rfl⟩ := map_eq_some_iff.mp h
    have hclient : clientSlot d (sizes m i) = some (s'.map Entry.size) := clientSlot_of_held hs'
    rw [hclient, map_some]
    congr 1
    funext j
    unfold sizes
    by_cases hj : j = i
    · subst hj; simp
    · simp [Function.update_of_ne hj]

theorem clientLevel_of_held {d : BasicDelta} (h : heldLevel d l = some l') :
    clientLevel d (l.map sizes) = some (l'.map sizes) := by
  unfold clientLevel BasicDelta.stepLevel BasicDelta.stepSlots
  rcases heldLevel_cases h with ⟨hd, rfl, m', hm', rfl⟩ | ⟨hd, m, m', rfl, hm', rfl⟩ |
    ⟨hd, m, m', rfl, hm', rfl⟩
  · have hclient : changeAt BasicDelta.entryId clientSlot (fun _ => none) d = some (sizes m') :=
      clientSlots_of_held hm'
    simp [hd, hclient]
  · simp [hd, clientSlots_of_held hm']
  · simp [hd, clientSlots_of_held hm']

theorem clientLevel_updates {kept : List BasicDelta} (h : ∀ d ∈ kept, d.plAction = .update)
    (m : Slots Nat) : run clientLevel kept (some m) = (clientSlots kept m).map some := by
  induction kept generalizing m with
  | nil => rfl
  | cons d kept ih =>
    have hstep : clientLevel d (some m) =
        (changeAt BasicDelta.entryId clientSlot m d).map some := by
      unfold clientLevel BasicDelta.stepLevel
      rw [h d mem_cons_self]
      rfl
    have hcons : clientSlots (d :: kept) m =
        (changeAt BasicDelta.entryId clientSlot m d).bind (clientSlots kept) := rfl
    rw [run_cons, hstep, hcons]
    cases changeAt BasicDelta.entryId clientSlot m d with
    | none => rfl
    | some m' => exact ih (fun x hx => h x (mem_cons_of_mem _ hx)) m'

theorem clientLevel_add {d : BasicDelta} {kept : List BasicDelta} (hd : d.plAction = .add)
    (h : ∀ d ∈ kept, d.plAction = .update) :
    run clientLevel (d :: kept) none = (clientSlots (d :: kept) fun _ => none).map some := by
  have hstep : clientLevel d none =
      (changeAt BasicDelta.entryId clientSlot (fun _ => none) d).map some := by
    unfold clientLevel BasicDelta.stepLevel
    rw [hd]
    rfl
  have hcons : clientSlots (d :: kept) (fun _ => none) =
      (changeAt BasicDelta.entryId clientSlot (fun _ => none) d).bind (clientSlots kept) := rfl
  rw [run_cons, hstep, hcons]
  cases changeAt BasicDelta.entryId clientSlot (fun _ => none) d with
  | none => rfl
  | some m' => exact clientLevel_updates h m'

theorem clientLevel_missing {kept : List BasicDelta} (h : ∀ d ∈ kept, d.plAction = .update)
    (m : Slots Nat) : run clientLevel kept none ≠ some (some m) := by
  cases kept with
  | nil => intro hrun; cases hrun
  | cons d kept =>
    intro hrun
    rw [run_cons] at hrun
    unfold clientLevel BasicDelta.stepLevel at hrun
    rw [h d mem_cons_self] at hrun
    cases hrun

theorem clientLevel_delete_missing {d : BasicDelta} (hd : d.plAction = .delete) :
    clientLevel d none = none := by
  unfold clientLevel BasicDelta.stepLevel
  rw [hd]

theorem clientLevel_conflated_add {a : BasicDelta} {m' : Slots Entry} (ha : a.plAction = .add)
    (hrest : ∀ d ∈ rest, d.plAction = .update) (hobj : Objects (a :: rest))
    (hrun : heldSlots (a :: rest) (fun _ => none) = some m') :
    run clientLevel (conflated (a :: rest)) none = some (some (sizes m')) ↔
      EntriesKept (a :: rest) ∧ LevelKept (a :: rest) := by
  rcases conflated_of_add ha hrest (fun d hd => hobj.named d (mem_cons_of_mem _ hd)) with
    ⟨hkept, kept, hcon, hupd⟩ | ⟨hbad, hupd⟩
  · have hclient := clientSlots_conflated hobj hrun
    have hempty : sizes (fun _ => none) = fun _ => none := rfl
    rw [hempty, hcon] at hclient
    rw [hcon, clientLevel_add ha hupd]
    rcases hclient with ⟨hents, hslots⟩ | ⟨hents, hslots⟩
    · rw [hslots]; exact ⟨fun _ => ⟨hents, hkept⟩, fun _ => rfl⟩
    · rw [hslots]; exact ⟨nofun, fun h => absurd h.1 hents⟩
  · exact ⟨fun h => absurd h (clientLevel_missing hupd _), fun h => absurd h.2 hbad⟩

/-- What is kept in front of the last stay: nothing, or the DELETE that the client has to see
because it had the level, or that it is sent although it never saw the level. -/
inductive Front (c : Option (Slots Entry)) (ds : List BasicDelta) : List BasicDelta → Prop
  | clean : c = none → (∀ stay ∈ (stays ds).1, LevelKept stay) → Front c ds []
  | closed {d} : c.isSome → d.plAction = .delete → clientLevel d (c.map sizes) = some none →
      (d.entry ≠ none → ∃ x ∈ ds, x.entryRef = d.entryRef) → Front c ds [d]
  | broken {d} : c = none → d.plAction = .delete → ¬ (∀ stay ∈ (stays ds).1, LevelKept stay) →
      (d.entry ≠ none → ∃ x ∈ ds, x.entryRef = d.entryRef) → Front c ds [d]

/-- What is kept for a price after the deltas `ds`: `c` was there at the start and the third
argument is now. -/
inductive Phase (c : Option (Slots Entry)) (ds : List BasicDelta) :
    Option (Slots Entry) → List BasicDelta → Prop
  | first {m m'} : c = some m → (∀ d ∈ (stays ds).2, d.plAction = .update) →
      heldSlots (stays ds).2 m = some m' → Phase c ds (some m') (conflated (stays ds).2)
  | gone {front} : (stays ds).2 = [] → Front c ds front → Phase c ds none front
  | again {front a rest m'} : (stays ds).2 = a :: rest → a.plAction = .add →
      (∀ d ∈ rest, d.plAction = .update) → heldSlots (a :: rest) (fun _ => none) = some m' →
      Front c ds front → (∀ d ∈ front, ∀ i e, m' i = some e → d.entryRef ≠ some e.ref) →
      Phase c ds (some m') (front ++ conflated (a :: rest))

theorem Front.concat {c : Option (Slots Entry)} {ds front : List BasicDelta} {d : BasicDelta}
    (h : Front c ds front) (hd : d.plAction ≠ .delete) : Front c (ds ++ [d]) front := by
  have hstays : (stays (ds ++ [d])).1 = (stays ds).1 := by rw [stays_concat hd]
  have hmem : ∀ {x : BasicDelta}, (x.entry ≠ none → ∃ y ∈ ds, y.entryRef = x.entryRef) →
      x.entry ≠ none → ∃ y ∈ ds ++ [d], y.entryRef = x.entryRef := by
    intro x hx hne
    obtain ⟨y, hy, href⟩ := hx hne
    exact ⟨y, mem_append_left _ hy, href⟩
  cases h with
  | clean hc hkept => exact .clean hc (by rwa [hstays])
  | closed hc hact hclient href => exact .closed hc hact hclient (hmem href)
  | broken hc hact hbad href => exact .broken hc hact (by rwa [hstays]) (hmem href)

theorem heldSlots_step {d : BasicDelta} {m m' : Slots Entry}
    (h : changeAt BasicDelta.entryId heldSlot m d = some m') :
    (∀ e, d.entry = some e → d.entryAction ≠ .add → ∃ a, m e.id = some a ∧ a.ref = e.ref) ∧
    ∀ i e, m' i = some e → m i = some e ∨ d.entry = some e := by
  unfold changeAt at h
  cases he : d.entry with
  | none =>
    have hid : d.entryId = none := by
      rw [BasicDelta.entryId, he]; rfl
    rw [hid] at h
    obtain rfl : m = m' := some.inj h
    exact ⟨fun _ he' => absurd he' (by simp), fun i e hi => .inl hi⟩
  | some e =>
    have hid : d.entryId = some e.id := by
      rw [BasicDelta.entryId, he]; rfl
    simp only [hid] at h
    obtain ⟨s', hs', rfl⟩ := map_eq_some_iff.mp h
    refine ⟨?_, ?_⟩
    · intro e' he' hadd
      obtain rfl : e = e' := some.inj he'
      rcases heldSlot_cases he hs' with ⟨hd, -⟩ | ⟨-, hfound, -⟩ | ⟨-, hfound, -⟩
      · exact absurd hd hadd
      · exact hfound
      · exact hfound
    intro i e' hi
    by_cases hie : i = e.id
    · subst hie
      rw [Function.update_self] at hi
      subst hi
      rcases heldSlot_cases he hs' with ⟨-, -, hs⟩ | ⟨-, -, hs⟩ | ⟨-, -, hs⟩
      · exact .inr hs.symm
      · exact .inr hs.symm
      · cases hs
    · rw [Function.update_of_ne hie] at hi; exact .inl hi

theorem Front.fresh {c : Option (Slots Entry)} {ds front : List BasicDelta} {d : BasicDelta}
    (h : Front c ds front) (hobj : Objects (ds ++ [d])) (hadd : d.entryAction = .add) {e : Entry}
    (he : d.entry = some e) : ∀ x ∈ front, x.entryRef ≠ some e.ref := by
  have hno : ∀ {x : BasicDelta}, (x.entry ≠ none → ∃ y ∈ ds, y.entryRef = x.entryRef) →
      x.entryRef ≠ some e.ref := by
    intro x hx href
    have hne : x.entry ≠ none := by
      intro hnone
      unfold BasicDelta.entryRef at href
      rw [hnone] at href
      cases href
    obtain ⟨y, hy, hyx⟩ := hx hne
    refine (pairwise_append.mp hobj.fresh).2.2 y hy d (by simp) hadd (by simp [he]) ?_
    rw [hyx, href, entryRef_of_entry he]
  intro x hx
  cases h with
  | clean => cases hx
  | closed _ _ _ href =>
    obtain rfl : x = _ := by simpa using hx
    exact hno href
  | broken _ _ _ href =>
    obtain rfl : x = _ := by simpa using hx
    exact hno href

theorem conflateEntry_add {d : BasicDelta} (hd : d.plAction = .add) (kept : List BasicDelta) :
    conflateEntry kept d = kept ++ [d] := by
  cases kept with
  | nil => rfl
  | cons x kept => unfold conflateEntry; simp [hd]

theorem conflateEntry_update {d : BasicDelta} (hd : d.plAction = .update)
    (kept : List BasicDelta) : conflateEntry kept d = applyEntryDelta kept d := by
  cases kept with
  | nil => rfl
  | cons x kept => unfold conflateEntry; simp [hd]

theorem conflateEntry_delete {d x : BasicDelta} (hd : d.plAction = .delete)
    (kept : List BasicDelta) : conflateEntry (x :: kept) d =
      if x.plAction = .add then [] else [{ d with entry := none }] := by
  unfold conflateEntry
  simp [hd]

section Phase

variable {c : Option (Slots Entry)} {ds kept : List BasicDelta}
  {d : BasicDelta} {m m' : Slots Entry}

theorem Phase.add (h : Phase c ds none kept) (hobj : Objects (ds ++ [d])) (hd : d.plAction = .add)
    (hstep : changeAt BasicDelta.entryId heldSlot (fun _ => none) d = some m') :
    Phase c (ds ++ [d]) (some m') (conflateEntry kept d) := by
  have hnot : d.plAction ≠ .delete := by simp [hd]
  cases h with
  | gone hlast hfront =>
    rw [conflateEntry_add hd]
    obtain ⟨hfind, hleft⟩ := heldSlots_step hstep
    show Phase c (ds ++ [d]) (some m') (kept ++ conflated [d])
    refine .again ?_ hd (by simp) ?_ (hfront.concat hnot) ?_
    · rw [stays_concat hnot, hlast]; rfl
    · show heldSlots ([] ++ [d]) (fun _ => none) = some m'
      exact runAt_concat_eq_some.mpr ⟨_, rfl, hstep⟩
    · intro x hx i e hi
      have he : d.entry = some e := (hleft i e hi).resolve_left (by simp)
      by_cases hadd : d.entryAction = .add
      · exact hfront.fresh hobj hadd he x hx
      · obtain ⟨a, ha, -⟩ := hfind e he hadd
        cases ha

theorem Phase.update (h : Phase c ds (some m) kept) (hobj : Objects (ds ++ [d]))
    (hd : d.plAction = .update) (hstep : changeAt BasicDelta.entryId heldSlot m d = some m') :
    Phase c (ds ++ [d]) (some m') (conflateEntry kept d) := by
  have hnot : d.plAction ≠ .delete := by simp [hd]
  have hlast : (stays (ds ++ [d])).2 = (stays ds).2 ++ [d] := by rw [stays_concat hnot]
  rw [conflateEntry_update hd]
  cases h with
  | first hc hupd hrun =>
    rw [← conflated_concat, ← hlast]
    refine .first hc ?_ ?_
    · intro x hx
      rw [hlast] at hx
      rcases mem_append.mp hx with hx | hx
      · exact hupd x hx
      · obtain rfl : x = d := by simpa using hx
        exact hd
    · rw [hlast]; exact runAt_concat_eq_some.mpr ⟨_, hrun, hstep⟩
  | @again front a rest _ hstay ha hrest hrun hfront href =>
    obtain ⟨hfind, hleft⟩ := heldSlots_step hstep
    -- the delta in front names another object, so it stays in front
    have hskip : ∀ x ∈ front, d.entryAction = .unknown ∨ x.entryRef ≠ d.entryRef := by
      intro x hx
      cases he : d.entry with
      | none => exact .inl ((hobj.named d (by simp)).mpr he)
      | some e =>
        right
        rw [entryRef_of_entry he]
        by_cases hadd : d.entryAction = .add
        · exact hfront.fresh hobj hadd he x hx
        · obtain ⟨a, ha, hae⟩ := hfind e he hadd
          rw [← hae]
          exact href x hx e.id a ha
    have happ : applyEntryDelta (front ++ conflated (a :: rest)) d =
        front ++ conflated (a :: (rest ++ [d])) := by
      rw [← cons_append, conflated_concat]
      cases hfront with
      | clean => rfl
      | closed => exact applyEntryDelta_cons (hskip _ (by simp))
      | broken => exact applyEntryDelta_cons (hskip _ (by simp))
    rw [happ]
    refine .again ?_ ha ?_ ?_ (hfront.concat hnot) ?_
    · rw [hlast, hstay]; rfl
    · intro x hx
      rcases mem_append.mp hx with hx | hx
      · exact hrest x hx
      · obtain rfl : x = d := by simpa using hx
        exact hd
    · rw [← cons_append]; exact runAt_concat_eq_some.mpr ⟨_, hrun, hstep⟩
    intro x hx i e hi
    rcases hleft i e hi with hi | he
    · exact href x hx i e hi
    · rcases hskip x hx with hun | hne
      · have hnone := (hobj.named d (by simp)).mp hun
        rw [he] at hnone
        cases hnone
      · rwa [entryRef_of_entry he] at hne

theorem Phase.delete (h : Phase c ds (some m) kept) (hobj : Objects ds) (hd : d.plAction = .delete)
    (hstep : changeAt BasicDelta.entryId heldSlot m d = some m') :
    Phase c (ds ++ [d]) none (conflateEntry kept d) := by
  have hstays : stays (ds ++ [d]) = ((stays ds).1 ++ [(stays ds).2], []) := stays_concat_delete hd
  have hlast : (stays (ds ++ [d])).2 = [] := by rw [hstays]
  have hkept : (∀ stay ∈ (stays (ds ++ [d])).1, LevelKept stay) ↔
      (∀ stay ∈ (stays ds).1, LevelKept stay) ∧ LevelKept (stays ds).2 := by
    rw [hstays]
    simp only [mem_append, mem_singleton]
    constructor
    · intro h; exact ⟨fun stay hs => h stay (.inl hs), h _ (.inr rfl)⟩
    · rintro ⟨h, hl⟩ stay (hs | rfl)
      · exact h stay hs
      · exact hl
  have hself : d.entry ≠ none → ∃ x ∈ ds ++ [d], x.entryRef = d.entryRef :=
    fun _ => ⟨d, by simp, rfl⟩
  -- the DELETE that replaces the kept deltas names no entry
  have hbare : ∀ v : Slots Nat, clientLevel { d with entry := none } (some v) = some none := by
    intro v
    simp only [hd]
    rfl
  cases h with
  | @first m₀ _ hc hupd hrun =>
    refine .gone hlast ?_
    cases hcon : conflated (stays ds).2 with
    | nil =>
      -- nothing was kept, so the client still sees what the book holds
      have hclient := clientSlots_conflated (hobj.sublist (lastStay_sublist ds)) hrun
      rw [hcon] at hclient
      have hsame : sizes m₀ = sizes m := by
        rcases hclient with ⟨-, hslots⟩ | ⟨-, hslots⟩
        · exact some.inj hslots
        · cases hslots
      refine .closed (by simp [hc]) hd ?_ hself
      rw [hc]
      show clientLevel d (some (sizes m₀)) = some none
      rw [hsame]
      unfold clientLevel BasicDelta.stepLevel BasicDelta.stepSlots
      simp [hd, clientSlots_of_held hstep]
    | cons x rest =>
      have hx : x.plAction = .update := by
        apply hupd
        apply mem_conflated
        rw [hcon]
        exact mem_cons_self
      rw [conflateEntry_delete hd, if_neg (by simp [hx])]
      refine .closed (by simp [hc]) hd ?_ (fun hne => absurd rfl hne)
      rw [hc]
      exact hbare _
  | @again front a rest _ hstay ha hrest hrun hfront href =>
    refine .gone hlast ?_
    cases hfront with
    | clean hc hgood =>
      rw [nil_append]
      have hobj' := hobj.sublist (lastStay_sublist ds)
      rw [hstay] at hobj' hkept
      rcases conflated_of_add ha hrest (fun x hx => hobj'.named x (mem_cons_of_mem _ hx)) with
        ⟨hlevel, rest', hcon, -⟩ | ⟨hbad, hupd⟩
      · rw [hcon, conflateEntry_delete hd, if_pos ha]; exact .clean hc (hkept.mpr ⟨hgood, hlevel⟩)
      have hnot : ¬ ∀ stay ∈ (stays (ds ++ [d])).1, LevelKept stay :=
        fun h => hbad (hkept.mp h).2
      cases hcon : conflated (a :: rest) with
      | nil => exact .broken hc hd hnot hself
      | cons x rest' =>
        have hx : x.plAction = .update := hupd x (by rw [hcon]; exact mem_cons_self)
        rw [conflateEntry_delete hd, if_neg (by simp [hx])]
        exact .broken hc hd hnot (fun hne => absurd rfl hne)
    | closed hc hact hclient _ =>
      rw [cons_append, conflateEntry_delete hd, if_neg (by simp [hact])]
      refine .closed hc hd ?_ (fun hne => absurd rfl hne)
      obtain ⟨m₀, rfl⟩ := isSome_iff_exists.mp hc
      exact hbare _
    | broken hc hact hbad _ =>
      rw [cons_append, conflateEntry_delete hd, if_neg (by simp [hact])]
      exact .broken hc hd (fun h => hbad (hkept.mp h).1) (fun hne => absurd rfl hne)

theorem phase_of_run (hobj : Objects ds) (hrun : run heldLevel ds c = some l) :
    Phase c ds l (ds.foldl conflateEntry []) := by
  induction ds using List.reverseRecOn generalizing l with
  | nil =>
    obtain rfl : c = l := some.inj hrun
    cases c with
    | none => exact .gone rfl (.clean rfl (by simp [stays]))
    | some m => exact .first rfl (by simp [stays]) rfl
  | append_singleton ds d ih =>
    obtain ⟨t, ht, hstep⟩ := run_concat_eq_some.mp hrun
    have hobj' := hobj.sublist (sublist_append_left ds [d])
    have hphase := ih hobj' ht
    rw [foldl_append]
    rcases heldLevel_cases hstep with ⟨hd, rfl, m', hm', rfl⟩ | ⟨hd, m, m', rfl, hm', rfl⟩ |
      ⟨hd, m, m', rfl, hm', rfl⟩
    · exact hphase.add hobj hd hm'
    · exact hphase.update hobj hd hm'
    · exact hphase.delete hobj' hd hm'

theorem Phase.run_iff (h : Phase c ds l kept) (hobj : Objects ds) :
    run clientLevel kept (c.map sizes) = some (l.map sizes) ↔ Conflatable c.isSome ds := by
  have hobj' := hobj.sublist (lastStay_sublist ds)
  unfold Conflatable
  cases h with
  | @first m m' hc hupd hrun =>
    have hlevel : LevelKept (stays ds).2 := levelKept_of_updates hupd
    subst hc
    show run clientLevel (conflated (stays ds).2) (some (sizes m)) = some (some (sizes m')) ↔ _
    rw [clientLevel_updates fun d hd => hupd d (mem_conflated hd)]
    rcases clientSlots_conflated hobj' hrun with ⟨hents, hslots⟩ | ⟨hents, hslots⟩
    · simp [hslots, hents, hlevel]
    · simp [hslots, hents]
  | gone hlast hfront =>
    have hempty : EntriesKept (stays ds).2 ∧ LevelKept (stays ds).2 := by
      rw [hlast]; exact ⟨List.Pairwise.nil, List.Pairwise.nil⟩
    cases hfront with
    | clean hc hgood =>
      subst hc; exact ⟨fun _ => ⟨hempty.1, hempty.2, fun _ => hgood⟩, fun _ => rfl⟩
    | closed hc hact hclient _ => rw [run_cons, hclient]; simp [hempty, hc]
    | broken hc hact hbad _ =>
      subst hc
      rw [map_none, run_cons, clientLevel_delete_missing hact]
      simp only [bind_none, reduceCtorEq, isSome_none, forall_const, false_iff]
      exact fun h => hbad h.2.2
  | @again front a rest m' hstay ha hrest hrun hfront _ =>
    rw [hstay] at hobj' ⊢
    have hadd := clientLevel_conflated_add ha hrest hobj' hrun
    cases hfront with
    | clean hc hgood =>
      subst hc
      rw [nil_append, map_none, map_some, hadd]
      exact ⟨fun h => ⟨h.1, h.2, fun _ => hgood⟩, fun h => ⟨h.1, h.2.1⟩⟩
    | closed hc hact hclient _ =>
      rw [cons_append, run_cons, hclient, bind_some, nil_append, map_some, hadd]
      simp [hc]
    | broken hc hact hbad _ =>
      subst hc
      rw [cons_append, map_none, run_cons, clientLevel_delete_missing hact]
      simp only [bind_none, reduceCtorEq, isSome_none, forall_const, false_iff]
      exact fun h => hbad h.2.2

end Phase

/-! ## The list -/

namespace DeltaList

structure EntryMode (x : DeltaList) : Prop where
  keep : x.keepDeltas
  conflate : x.conflateDeltas
  entries : x.processEntries
  noDeltas : x.deltas = none
  noLevels : x.levelDeltas = none

def keptEntries (x : DeltaList) (k : BookSide × Price) : List BasicDelta :=
  ((x.entryMaps.get k.1).find? k.2).getD []

theorem EntryMode.clear {x : DeltaList} (h : EntryMode x) :
    EntryMode x.clear ∧ ∀ k, x.clear.keptEntries k = [] := by
  obtain ⟨keep, conflate, entries, deltas, levelDeltas, entryDeltas, sides, send, size⟩ := x
  obtain ⟨rfl, rfl, rfl, rfl, rfl⟩ := h
  cases entryDeltas <;>
  · refine ⟨⟨rfl, rfl, rfl, rfl, rfl⟩, ?_⟩
    rintro ⟨s, p⟩
    cases s <;> rfl

theorem EntryMode.add {x : DeltaList} (h : EntryMode x) (d : BasicDelta) :
    EntryMode (x.add d) ∧ ∀ k, (x.add d).keptEntries k =
      if k = d.key then conflateEntry (x.keptEntries d.key) d else x.keptEntries k := by
  have hadd : x.add d = { x.conflateEntryDeltas d with
      modSides := (x.conflateEntryDeltas d).modSides.checkSide d.level } := by
    rw [DeltaList.add, if_pos h.keep, if_pos h.conflate, if_pos h.entries]
  refine ⟨?_, ?_⟩
  · rw [hadd]; exact ⟨h.keep, h.conflate, h.entries, h.noDeltas, h.noLevels⟩
  intro k
  have hmaps : (x.add d).entryMaps = x.entryMaps.set d.level.deltaSide
      ((x.entryMaps.get d.level.deltaSide).insert d.level.price
        (conflateEntry (x.keptEntries d.key) d)) := by
    rw [hadd]
    rfl
  unfold keptEntries at hmaps ⊢
  rw [hmaps, Sides.get_set]
  by_cases hs : k.1 = d.level.deltaSide
  · rw [if_pos hs, SortedMap.find?_insert]
    by_cases hp : k.2 = d.level.price
    · rw [if_pos hp, if_pos (Prod.ext hs hp)]; rfl
    · rw [if_neg hp, if_neg (fun hk => hp (congrArg Prod.snd hk)), ← hs]
  · rw [if_neg hs, if_neg (fun hk => hs (congrArg Prod.fst hk))]

theorem EntryMode.addAll {x : DeltaList} (h : EntryMode x) (ds : List BasicDelta) :
    EntryMode (x.addAll ds) ∧ ∀ k, (x.addAll ds).keptEntries k =
      (atKey k ds).foldl conflateEntry (x.keptEntries k) := by
  induction ds generalizing x with
  | nil => exact ⟨h, fun _ => rfl⟩
  | cons d ds ih =>
    obtain ⟨hmode, hkept⟩ := h.add d
    obtain ⟨hmode', hall⟩ := ih hmode
    refine ⟨hmode', fun k => ?_⟩
    show ((x.add d).addAll ds).keptEntries k = _
    rw [hall, hkept]
    unfold atKey
    by_cases heq : k = d.key
    · subst heq
      rw [if_pos rfl, filter_cons_of_pos (by simp), foldl_cons]
    · rw [if_neg heq, filter_cons_of_neg (by simpa using Ne.symm heq)]

theorem mem_conflateEntry {kept : List BasicDelta} {d x : BasicDelta}
    (h : x ∈ conflateEntry kept d) : x ∈ kept ∨ x.key = d.key := by
  cases kept with
  | nil =>
    obtain rfl : x = d := by simpa [conflateEntry] using h
    exact .inr rfl
  | cons y kept =>
    unfold conflateEntry at h
    cases ha : d.plAction <;> simp only [ha] at h
    · rcases mem_append.mp h with h | h
      · exact .inl h
      · obtain rfl : x = d := by simpa using h
        exact .inr rfl
    · rcases mem_applyEntryDelta h with h | rfl
      · exact .inl h
      · exact .inr rfl
    · split at h
      · cases h
      · obtain rfl : x = _ := by simpa using h
        exact .inr rfl
    · exact .inl h

theorem key_of_mem_keptEntries {k : BookSide × Price} {ds : List BasicDelta} {x : BasicDelta}
    (h : x ∈ (atKey k ds).foldl conflateEntry []) : x.key = k := by
  induction ds using List.reverseRecOn with
  | nil => cases h
  | append_singleton ds d ih =>
    unfold atKey at h ih
    rw [filter_append, foldl_append] at h
    by_cases hk : d.key = k
    · rw [filter_cons_of_pos (by simpa using hk)] at h
      rcases mem_conflateEntry h with h | h
      · exact ih h
      · rw [h, hk]
    · rw [filter_cons_of_neg (by simpa using hk)] at h; exact ih h

theorem filter_flatten_values {s : BookSide} (m : DeltaListMap)
    (hm : ∀ p ds, m.find? p = some ds → ∀ d ∈ ds, d.key = (s, p)) (k : BookSide × Price) :
    m.values.flatten.filter (fun d => decide (d.key = k)) =
      if k.1 = s then (m.find? k.2).getD [] else [] := by
  have hkeys : ∀ a ∈ m.toList, ∀ d ∈ a.2, d.key = (s, a.1) :=
    fun a ha => hm a.1 a.2 (SortedMap.mem_toList.mp ha)
  have hsorted := m.sorted
  unfold SortedMap.values SortedMap.find?
  generalize m.toList = l at hkeys hsorted
  induction l with
  | nil => simp [SortedMap.findList]
  | cons a l ih =>
    rw [pairwise_cons] at hsorted
    rw [map_cons, flatten_cons, filter_append,
      ih (fun b hb => hkeys b (mem_cons_of_mem _ hb)) hsorted.2]
    have hhead := hkeys a mem_cons_self
    by_cases hk : k = (s, a.1)
    · subst hk
      have hall : a.2.filter (fun d => decide (d.key = (s, a.1))) = a.2 :=
        filter_eq_self.mpr fun d hd => by simp [hhead d hd]
      have hnone : SortedMap.findList a.1 l = none :=
        SortedMap.findList_eq_none fun b hb => ne_of_lt (hsorted.1 b hb)
      rw [hall, hnone]
      simp [SortedMap.findList]
    have hall : a.2.filter (fun d => decide (d.key = k)) = [] :=
      filter_eq_nil_iff.mpr fun d hd => by simpa [hhead d hd] using Ne.symm hk
    rw [hall, nil_append]
    split
    · next hs =>
      have hne : k.2 ≠ a.1 := fun hp => hk (Prod.ext hs hp)
      rw [SortedMap.findList, if_neg hne]
    · rfl

theorem EntryMode.atKey_toList {x : DeltaList} (h : EntryMode x)
    (hkeys : ∀ k, ∀ d ∈ x.keptEntries k, d.key = k) (k : BookSide × Price) :
    atKey k x.toList = x.keptEntries k := by
  have hside : ∀ s p ds, (x.entryMaps.get s).find? p = some ds → ∀ d ∈ ds, d.key = (s, p) := by
    intro s p ds hf d hd
    apply hkeys (s, p)
    rwa [keptEntries, hf]
  rw [DeltaList.toList, if_pos h.conflate, if_pos h.entries]
  rw [atKey, filter_append, filter_flatten_values x.entryMaps.bid (hside .bid),
    filter_flatten_values x.entryMaps.ask (hside .ask)]
  obtain ⟨s, p⟩ := k
  cases s
  · simp [keptEntries, Sides.get]
  · simp [keptEntries, Sides.get]

end DeltaList

/-! ## The view of a client -/

theorem changesOf_key (k : BookSide × Price) (ds : List BasicDelta) :
    changesOf (fun d : BasicDelta => some d.key) k ds = atKey k ds := by
  unfold changesOf atKey
  simp

variable {b b' : Held}

theorem Interval.runs {ds : List BasicDelta} (h : Interval b b' ds) (k : BookSide × Price) :
    run heldLevel (atKey k ds) (b k) = some (b' k) := by
  rw [← changesOf_key]
  exact (runAt_iff ds b b').mp h.fits k

theorem clientLevel_run_of_held {ds : List BasicDelta} (h : run heldLevel ds l = some l') :
    run clientLevel ds (l.map sizes) = some (l'.map sizes) := by
  induction ds generalizing l with
  | nil => rw [some.inj h]; rfl
  | cons d ds ih =>
    rw [run_cons, bind_eq_some_iff] at h
    obtain ⟨t, ht, hrun⟩ := h
    rw [run_cons, clientLevel_of_held ht]
    exact ih hrun

theorem Interval.clientReplay {ds : List BasicDelta} (h : Interval b b' ds) :
    clientReplay ds b.view = some b'.view := by
  refine (runAt_iff ds b.view b'.view).mpr fun k => ?_
  rw [changesOf_key]
  exact clientLevel_run_of_held (h.runs k)

/-- For every book and every interval of deltas that fit it, from a list cleared at its start: a
client that replays the raw deltas sees the book, and one that replays the kept ones sees the same
if and only if at every price the last stay of the level has no entry that is added and then
updated, the entry that came with the level is not named again in it, and, where the client did
not have the level, not in an earlier stay either. -/
theorem replay_kept_iff (x : DeltaList) (hx : x.EntryMode) (b b' : Held) (ds : List BasicDelta)
    (h : Interval b b' ds) :
    clientReplay ds b.view = some b'.view ∧
      (clientReplay (x.clear.addAll ds).toList b.view = some b'.view ↔
        ∀ k, Conflatable (b k).isSome (atKey k ds)) := by
  refine ⟨h.clientReplay, ?_⟩
  obtain ⟨hclear, hnone⟩ := hx.clear
  obtain ⟨hmode, hkept⟩ := hclear.addAll ds
  have hkept' : ∀ k, (x.clear.addAll ds).keptEntries k = (atKey k ds).foldl conflateEntry [] := by
    intro k
    rw [hkept, hnone]
  have hlist := hmode.atKey_toList (by
    intro k d hd
    rw [hkept'] at hd
    exact key_of_mem_keptEntries hd)
  have hat : clientReplay (x.clear.addAll ds).toList b.view = some b'.view ↔
      ∀ k, run clientLevel ((atKey k ds).foldl conflateEntry []) ((b k).map sizes) =
        some ((b' k).map sizes) := by
    refine (runAt_iff _ b.view b'.view).trans (forall_congr' fun k => ?_)
    rw [changesOf_key, hlist, hkept']
    rfl
  rw [hat]
  refine forall_congr' fun k => ?_
  have hobj : Objects (atKey k ds) :=
    Objects.sublist ⟨h.named, h.ids, h.fresh⟩ filter_sublist
  exact (phase_of_run hobj (h.runs k)).run_iff hobj

def bidEntryDelta (plAction : Action) (e : Entry) (entryAction : Action) : BasicDelta :=
  ⟨some e, PriceLevel.new ⟨9, 0⟩ 10 .bid, 0, plAction, entryAction⟩

def entryAt (index : Nat) (id : String) (size : Nat) : Entry :=
  .new ⟨9, index⟩ id size .add .null none

/-- A list as a client sets it up to conflate by entry. -/
def entryList : DeltaList := { DeltaList.new 0 with conflateDeltas := true }

/-- A level comes with the entry `a`, then `b` comes and goes. -/
def visitor : List BasicDelta :=
  [bidEntryDelta .add (entryAt 1 "a" 5) .add, bidEntryDelta .update (entryAt 2 "b" 7) .add,
    bidEntryDelta .update (entryAt 2 "b" 7) .delete]

theorem replay_visitor : ∃ b', Interval (fun _ => none) b' visitor ∧
    clientReplay (entryList.clear.addAll visitor).toList (fun _ => none) = some b'.view := by
  have hsome : (heldReplay visitor fun _ => none).isSome := rfl
  obtain ⟨b', hb'⟩ := isSome_iff_exists.mp hsome
  have hint : Interval (fun _ => none) b' visitor :=
    ⟨hb', by decide, by decide, by decide⟩
  refine ⟨b', hint, ?_⟩
  refine ((replay_kept_iff entryList ⟨rfl, rfl, rfl, rfl, rfl⟩ _ b' visitor hint).2).mpr ?_
  intro k
  rw [atKey_of_all (by decide : ∀ d ∈ visitor, d.key = (.bid, 10))]
  split
  · refine ⟨?_, ?_, fun _ stay hstay => absurd hstay (by simp [stays, visitor, bidEntryDelta])⟩
    · unfold EntriesKept; decide
    · unfold LevelKept; decide
  · exact ⟨.nil, .nil, fun _ stay hstay => absurd hstay (by simp [stays])⟩

/-- An entry comes to a level the client has and is then updated: what is kept updates an entry
the client has not seen. -/
theorem update_hides_add :
    ∃ b b', Interval b b'
        [bidEntryDelta .update (entryAt 2 "b" 5) .add,
          bidEntryDelta .update (entryAt 2 "b" 7) .update] ∧
      (entryList.clear.addAll [bidEntryDelta .update (entryAt 2 "b" 5) .add,
        bidEntryDelta .update (entryAt 2 "b" 7) .update]).toList =
          [bidEntryDelta .update (entryAt 2 "b" 7) .update] ∧
      clientReplay [bidEntryDelta .update (entryAt 2 "b" 5) .add,
        bidEntryDelta .update (entryAt 2 "b" 7) .update] b.view = some b'.view ∧
      clientReplay [bidEntryDelta .update (entryAt 2 "b" 7) .update] b.view = none := by
  -- the bid level at 10 with an entry `a`
  let b : Held := fun k =>
    if k = (.bid, 10) then some fun i => if i = "a" then some (entryAt 1 "a" 3) else none else none
  have hsome : (heldReplay [bidEntryDelta .update (entryAt 2 "b" 5) .add,
      bidEntryDelta .update (entryAt 2 "b" 7) .update] b).isSome := rfl
  obtain ⟨b', hb'⟩ := isSome_iff_exists.mp hsome
  have hint : Interval b b' [bidEntryDelta .update (entryAt 2 "b" 5) .add,
      bidEntryDelta .update (entryAt 2 "b" 7) .update] :=
    ⟨hb', by decide, by decide, by decide⟩
  exact ⟨b, b', hint, rfl, hint.clientReplay, rfl⟩

end Mamda

import Mathlib.Data.Finset.Card
import OpenMama.Mamda.WrittenLevels

/-!
# How the writer groups a delta list

`addComplexDeltaFields` finishes a level when the next one begins, and once more behind the loop for
the last level, where it reads the entry of the last delta whether or not that delta has one.  A
single level is written twice: with the action of its first delta into a scratch message, and with
the action of its last into the message itself, where the number of its entries is left out.

`groups_iff` says when there is one record for each level with just the entries of its deltas, and
when both forms of a single level agree.
-/

namespace Mamda

open Mama Lib List

/-! ## What a record carries -/

namespace LevelMsg

def entryVectors (sub : LevelMsg) : List (List EntryMsg) :=
  sub.filterMap fun f => match f with
    | .plEntries es => some es
    | _ => none

def flatEntry (sub : LevelMsg) : EntryMsg :=
  sub.filterMap fun f => match f with
    | .entry f => some f
    | _ => none

def numAttachs (sub : LevelMsg) : List Int :=
  sub.filterMap fun f => match f with
    | .plNumAttach n => some n
    | _ => none

def actions (sub : LevelMsg) : List Action :=
  sub.filterMap fun f => match f with
    | .plAction a => some a
    | _ => none

def action (sub : LevelMsg) : Action := sub.actions.getLast?.getD .add

section

variable (a b : LevelMsg)

include a b

@[simp] theorem entryVectors_append :
    entryVectors (a ++ b) = entryVectors a ++ entryVectors b := filterMap_append

@[simp] theorem flatEntry_append :
    flatEntry (a ++ b) = flatEntry a ++ flatEntry b := filterMap_append

@[simp] theorem numAttachs_append :
    numAttachs (a ++ b) = numAttachs a ++ numAttachs b := filterMap_append

@[simp] theorem actions_append :
    actions (a ++ b) = actions a ++ actions b := filterMap_append

end

/-- The entries that are in a record, however many it says there are. -/
def carried (sub : LevelMsg) : List EntryMsg :=
  match sub.entryVectors.getLast? with
  | some es => es
  | none => if sub.flatEntry = [] then [] else [sub.flatEntry]

/-- The number of attached entries; one is the default. -/
def numAttach (sub : LevelMsg) : Nat :=
  match sub.numAttachs.getLast? with
  | some n => getU32 n
  | none => 1

def attached (sub : LevelMsg) : List EntryMsg :=
  if sub.numAttach = 0 then []
  else
    match sub.entryVectors.getLast? with
    | some es => es.take sub.numAttach
    | none => [sub.flatEntry]

end LevelMsg

namespace Writer

/-! ## What is claimed -/

/-- A complex delta whose deltas for a level follow one another, and are counted right. -/
structure GroupedDelta extends ComplexDelta where
  grouped : ((runs deltas.toList).map fun r => r.head?.map fun d => d.level.ref).Nodup
  counted : deltas.getSize = deltas.toList.length

/-- The records of the levels in the scratch messages, and what is flattened into the message. -/
def forms (x : ComplexDelta) (w : Writer) : Option (List LevelMsg × LevelMsg) :=
  if x.deltas.getSize > 0 then x.addLevels w.clear else some ([], [])

/-- The message is written, with one record for each level in the order of the list; it begins with
the fields of the level, and its entries are those of the deltas that have one, with their actions.
The record of a single level agrees with the one that a vector would have. -/
def Groups (read : LevelMsg → List EntryMsg) (x : ComplexDelta) (w : Writer) : Prop :=
  ∃ levels main msg, forms x w = some (levels, main) ∧ x.populateMsg w = some msg ∧
    msg.levelParts.length = (x.deltas.toList.map fun d => d.level.ref).toFinset.card ∧
    (∀ (i : Nat) r, (runs x.deltas.toList)[i]? = some r → ∃ sub, msg.levelParts[i]? = some sub ∧
      (∃ first a, r.head? = some first ∧ addBookLevel first.level a x.eventTime <+: sub) ∧
      read sub = (withEntry r).map deltaEntry) ∧
    ((runs x.deltas.toList).length = 1 → ∀ sub ∈ levels,
      LevelMsg.action main = LevelMsg.action sub ∧ read main = read sub)

/-! ## When it holds -/

/-- The entry that is read behind the loop is there, no level has two entries behind one that has
any, and the deltas of a single level begin and end with the same action. -/
structure Fair (rs : List (List BasicDelta)) : Prop where
  nonNull : ∀ r ∈ rs.getLast?, (withEntry r).length = 1 → ∀ last ∈ r.getLast?, last.entry.isSome
  fresh : ∀ i r, rs[i]? = some r → (withEntry r).length ≤ 1 ∨ ∀ q ∈ rs.take i, withEntry q = []
  sameAction : ∀ r, rs = [r] → ∀ first ∈ r.head?, ∀ last ∈ r.getLast?,
    first.plAction = last.plAction

/-- A single level has one entry, and the number of entries of any other is not changed by being
sent as 16 bits and read as 32. -/
structure Numbered (rs : List (List BasicDelta)) : Prop where
  single : ∀ r, rs = [r] → (withEntry r).length = 1
  several : rs.length ≠ 1 → ∀ r ∈ rs, (withEntry r).length ≤ getU32 (toI16 (withEntry r).length)

/-! ## Records -/

section Records

variable {t : DateTime} {only : Bool} {r : List BasicDelta} {v : List EntryMsg}

theorem deltaEntry_ne_nil (a : BasicDelta × Entry) : deltaEntry a ≠ [] :=
  addBookEntry_ne_nil _ _ _

theorem entryVectors_addBookLevel (l : PriceLevel) (a : Action) (t : DateTime) :
    LevelMsg.entryVectors (addBookLevel l a t) = [] ∧ LevelMsg.flatEntry (addBookLevel l a t) = [] ∧
    LevelMsg.numAttachs (addBookLevel l a t) = [] ∧ LevelMsg.action (addBookLevel l a t) = a := by
  unfold addBookLevel LevelMsg.action LevelMsg.entryVectors LevelMsg.flatEntry LevelMsg.numAttachs
    LevelMsg.actions
  by_cases ha : a ≠ .add <;> by_cases hs : l.side ≠ .bid <;>
    by_cases ht : t.compare l.time ≠ 0 <;> by_cases hn : l.numEntries ≠ 1 <;>
      simp_all

theorem flattened (m : EntryMsg) :
    LevelMsg.entryVectors (m.map .entry) = [] ∧ LevelMsg.flatEntry (m.map .entry) = m ∧
      LevelMsg.numAttachs (m.map .entry) = [] ∧ LevelMsg.actions (m.map .entry) = [] := by
  unfold LevelMsg.entryVectors LevelMsg.flatEntry LevelMsg.numAttachs LevelMsg.actions
  simp only [filterMap_map]
  refine ⟨?_, filterMap_some, ?_, ?_⟩
  all_goals exact filterMap_eq_nil_iff.mpr fun _ _ => rfl

/-- The fields that the deltas of a level, the first and the last of which are given, add to its
record; a vector of entries is `v`. -/
theorem deltaPart_msg {first last : BasicDelta} (hfirst : r.head? = some first)
    (hlast : r.getLast? = some last) :
    (deltaPart t only r).msg v =
      addBookLevel first.level (if only then last.plAction else first.plAction) t ++
        ((withEntry r).map fun a =>
          if (withEntry r).length = 1 then (deltaEntry a).map LevelField.entry else []).flatten ++
        (if (withEntry r).length > 1 then [.plEntries v] else []) ++
        (if only then [] else addNumAttach (withEntry r).length) := by
  unfold Part.msg
  unfold deltaPart
  simp only [hfirst, hlast]
  match hw : withEntry r with
  | [] => rfl
  | [a] => simp
  | a :: b :: rest =>
    simp
    split <;> rfl

theorem read_deltaPart {first last : BasicDelta} (hfirst : r.head? = some first)
    (hlast : r.getLast? = some last) :
    LevelMsg.action ((deltaPart t only r).msg v) =
        (if only then last.plAction else first.plAction) ∧
      LevelMsg.entryVectors ((deltaPart t only r).msg v) =
        (if (withEntry r).length > 1 then [v] else []) ∧
      LevelMsg.flatEntry ((deltaPart t only r).msg v) =
        (if (withEntry r).length = 1 then ((withEntry r).map deltaEntry).flatten else []) ∧
      LevelMsg.numAttachs ((deltaPart t only r).msg v) =
        (if only ∨ (withEntry r).length = 1 then [] else [toI16 (withEntry r).length]) := by
  rw [deltaPart_msg hfirst hlast]
  obtain ⟨hv, hf, hn, ha⟩ := entryVectors_addBookLevel first.level
    (if only then last.plAction else first.plAction) t
  unfold LevelMsg.action at ha ⊢
  match hw : withEntry r with
  | [] =>
    cases only <;> simp_all [addNumAttach, LevelMsg.entryVectors, LevelMsg.flatEntry,
      LevelMsg.numAttachs, LevelMsg.actions]
  | [a] =>
    obtain ⟨hv', hf', hn', ha'⟩ := flattened (deltaEntry a)
    cases only <;> simp_all [addNumAttach]
  | a :: b :: rest =>
    cases only <;> simp_all [addNumAttach, LevelMsg.entryVectors, LevelMsg.flatEntry,
      LevelMsg.numAttachs, LevelMsg.actions]

theorem carried_deltaPart {first last : BasicDelta} (hfirst : r.head? = some first)
    (hlast : r.getLast? = some last) :
    LevelMsg.carried ((deltaPart t only r).msg v) = (withEntry r).map deltaEntry ↔
      (withEntry r).length ≤ 1 ∨ v = (withEntry r).map deltaEntry := by
  obtain ⟨-, hvectors, hflat, -⟩ := @read_deltaPart t only r v first last hfirst hlast
  rw [LevelMsg.carried, hvectors, hflat]
  match withEntry r with
  | [] => simp
  | [a] => simp [deltaEntry_ne_nil]
  | a :: b :: rest => simp

theorem attached_deltaPart {first last : BasicDelta} (hfirst : r.head? = some first)
    (hlast : r.getLast? = some last) (hlen : v.length = (withEntry r).length) :
    LevelMsg.attached ((deltaPart t false r).msg v) = (withEntry r).map deltaEntry ↔
      ((withEntry r).length ≤ 1 ∨ v = (withEntry r).map deltaEntry) ∧
        (withEntry r).length ≤ getU32 (toI16 (withEntry r).length) := by
  obtain ⟨-, hvectors, hflat, hattach⟩ := @read_deltaPart t false r v first last hfirst hlast
  rw [LevelMsg.attached, LevelMsg.numAttach, hvectors, hflat, hattach]
  match hw : withEntry r with
  | [] => simp [toI16, getU32]
  | [a] => simp [toI16, getU32]
  | a :: b :: rest =>
    rw [hw] at hlen
    have hmap : ((a :: b :: rest).map deltaEntry).length = (a :: b :: rest).length :=
      length_map _
    generalize hn : (a :: b :: rest).length = n at hlen hmap ⊢
    have htwo : 2 ≤ n := by
      rw [← hn, length_cons, length_cons]; omega
    generalize hc : getU32 (toI16 n) = c
    have hone : ¬ n = 1 := by omega
    have hgt : n > 1 := by omega
    simp only [hone, or_false, Bool.false_eq_true, if_false, hgt, if_true, getLast?_singleton, hc]
    by_cases hzero : c = 0
    · rw [if_pos hzero]
      refine iff_of_false (fun h => ?_) fun h => by omega
      rw [← h] at hmap
      rw [length_nil] at hmap
      omega
    rw [if_neg hzero]
    by_cases hle : n ≤ c
    · rw [take_of_length_le (by omega)]
      exact ⟨fun h => ⟨.inr h, hle⟩, fun h => h.1.resolve_left (by omega)⟩
    · refine iff_of_false (fun h => ?_) fun h => hle h.2
      have hshort := congrArg List.length h
      rw [length_take] at hshort
      omega

theorem attached_single {first last : BasicDelta} (hfirst : r.head? = some first)
    (hlast : r.getLast? = some last) (hlen : v.length = (withEntry r).length) :
    LevelMsg.attached ((deltaPart t true r).msg v) = (withEntry r).map deltaEntry ↔
      (withEntry r).length = 1 := by
  obtain ⟨-, hvectors, hflat, hattach⟩ := @read_deltaPart t true r v first last hfirst hlast
  rw [LevelMsg.attached, LevelMsg.numAttach, hvectors, hflat, hattach]
  match hw : withEntry r with
  | [] => simp
  | [a] => simp
  | a :: b :: rest =>
    have hlong : (a :: b :: rest).length > 1 := by
      rw [length_cons, length_cons]; omega
    simp only [true_or, if_true, getLast?_nil, Nat.one_ne_zero, if_false, hlong, getLast?_singleton]
    refine iff_of_false (fun h => ?_) (by omega)
    have hshort := congrArg List.length h
    rw [length_take, length_map] at hshort
    omega

end Records

/-! ## The loop comes to its end -/

section Loop

variable {t : DateTime} {room n : Nat}

theorem length_runs_le (ds : List BasicDelta) : (runs ds).length ≤ ds.length := by
  have hflat : (runs ds).flatten = ds := flatten_splitBy _ ds
  have hne : ∀ r ∈ runs ds, 1 ≤ r.length := fun r hr =>
    length_pos_iff.mpr fun hnil => (splitBy_eq_iff.mp rfl).2.1 (hnil ▸ hr)
  have hsum := length_flatten (L := runs ds)
  rw [hflat] at hsum
  have hlen : ((runs ds).map List.length).length = (runs ds).length := length_map _
  rw [hsum, ← hlen]
  refine length_le_sum_of_one_le _ fun k hk => ?_
  obtain ⟨r, hr, rfl⟩ := mem_map.mp hk
  exact hne r hr

theorem length_withEntry_le {ds r : List BasicDelta} (hr : r ∈ runs ds) :
    (withEntry r).length ≤ ds.length := by
  have hflat : (runs ds).flatten = ds := flatten_splitBy _ ds
  calc (withEntry r).length ≤ r.length := length_filterMap_le _ _
    _ ≤ (runs ds).flatten.length := (sublist_flatten_of_mem hr).length_le
    _ = ds.length := by rw [hflat]

theorem addDeltaEntry_total {x : DeltaLoop} {d : BasicDelta}
    (h : d.entry.isSome → x.entryCount < x.entries.length) :
    ∃ y, Writer.addDeltaEntry x d = some y := by
  unfold Writer.addDeltaEntry
  cases he : d.entry with
  | none => exact ⟨x, rfl⟩
  | some e =>
    rw [he] at h
    unfold appendAt
    rw [getElem?_eq_getElem (h rfl)]
    exact ⟨_, rfl⟩

/-- With a scratch message for each delta the loop never looks behind the end of a vector. -/
theorem loop_total {ds : List BasicDelta} (hroom : ds.length ≤ room) (hn : ds.length ≤ n) :
    ∃ x, ds.foldlM (Writer.addDelta t room) ⟨none, none, 0, columns [] n, []⟩ = some x := by
  induction ds using List.reverseRecOn with
  | nil => exact ⟨_, rfl⟩
  | append_singleton ds d ih =>
    rw [length_append, length_singleton] at hroom hn
    obtain ⟨x, hx⟩ := ih (by omega) (by omega)
    have hstep : (ds ++ [d]).foldlM (Writer.addDelta t room) ⟨none, none, 0, columns [] n, []⟩ =
        Writer.addDelta t room x d := by
      rw [foldlM_append, hx]
      simp
    rw [hstep]
    by_cases hds : ds = []
    · subst hds
      obtain rfl : (⟨none, none, 0, columns [] n, []⟩ : DeltaLoop) = x := Option.some.inj hx
      refine addDeltaEntry_total (x := ⟨some d, none, 0, columns [] n, []⟩) fun _ => ?_
      dsimp only
      rw [length_columns]
      omega
    obtain ⟨done, r, hruns, hsaved, hwalked⟩ := walked_of_loop hds hx
    have hr : r ∈ runs ds := by simp [hruns]
    have hfits := length_withEntry_le hr
    have hlevels := length_runs_le ds
    have hentries : x.entries.length = n := by rw [hwalked.entries, length_columns]
    have hcount := hwalked.entryCount
    have hdone : x.levels.length = done.length := by
      rw [hwalked.levels, length_writtenFrom, length_map]
    rw [hruns, length_append] at hlevels
    unfold Writer.addDelta
    split
    · exact addDeltaEntry_total fun _ => by omega
    unfold nextLevel
    cases hfirst : x.saved with
    | none => exact addDeltaEntry_total fun _ => by dsimp only; omega
    | some first =>
      dsimp only
      rw [if_pos (by omega)]
      exact addDeltaEntry_total fun _ => by dsimp only; omega

end Loop

/-! ## What is written -/

section Written

variable {x : GroupedDelta} {w : Writer}

/-- The two forms, for a list of deltas that ends with the run `r`: they are there unless an entry
is read that is not. -/
theorem forms_eq {done : List (List BasicDelta)} {r : List BasicDelta}
    (hruns : runs x.deltas.toList = done ++ [r]) :
    ∃ first last, r.head? = some first ∧ r.getLast? = some last ∧
      (((withEntry r).length = 1 → last.entry.isSome) →
        forms x.toComplexDelta w =
          some (writtenFrom [] ((done ++ [r]).map (deltaPart x.eventTime false)),
            if done = [] then (deltaPart x.eventTime true r).msg
              (columns [(deltaPart x.eventTime true r).row]
                (deltaPart x.eventTime true r).row.length) else [])) ∧
      (¬ ((withEntry r).length = 1 → last.entry.isSome) → forms x.toComplexDelta w = none) := by
  obtain ⟨first, last, hfirst, hlast, hlast', hlevel⟩ := last_run x.toComplexDelta hruns
  have hne : x.deltas.toList ≠ [] := by
    intro hnil
    rw [hnil] at hlast'
    cases hlast'
  have hpos := length_pos_iff.mpr hne
  have hsize := x.counted
  have hroom : x.deltas.toList.length ≤ (grow x.deltas.getSize w.clear.priceLevels).length := by
    rw [grow, length_append, length_replicate]; omega
  obtain ⟨y, hy⟩ := @loop_total x.eventTime (grow x.deltas.getSize w.clear.priceLevels).length
    (max w.entries.length x.deltas.getSize) x.deltas.toList hroom (by omega)
  obtain ⟨done', r', hruns', hsaved, hwalked⟩ := walked_of_loop hne hy
  obtain ⟨rfl, hr⟩ := append_inj' (hruns.symm.trans hruns') rfl
  obtain rfl : r = r' := singleton_inj.mp hr
  have hforms : forms x.toComplexDelta w = addLastLevel x.eventTime
      (grow x.deltas.getSize w.clear.priceLevels).length y last := by
    unfold forms ComplexDelta.addLevels
    dsimp only
    rw [if_pos (by omega), grow_clear_entries, hy, hlast']
    rfl
  have hlevels : y.levels.length < (grow x.deltas.getSize w.clear.priceLevels).length := by
    have hle := length_runs_le x.deltas.toList
    rw [hruns, length_append, length_singleton] at hle
    rw [hwalked.levels, length_writtenFrom, length_map]
    omega
  have hcount := hwalked.entryCount
  refine ⟨first, last, hfirst, hlast, fun hsome => ?_, fun hnone => ?_⟩
  · rw [hforms]
    have htotal : ∃ result, addLastLevel x.eventTime
        (grow x.deltas.getSize w.clear.priceLevels).length y last = some result := by
      rw [addLastLevel, hsaved, hfirst]
      dsimp only
      rw [if_pos ⟨hlevels, by rw [hcount]; exact hsome⟩]
      exact ⟨_, rfl⟩
    obtain ⟨⟨levels, main⟩, hresult⟩ := htotal
    obtain ⟨rfl, rfl⟩ := addLastLevel_eq hwalked hfirst hlast (hsaved.trans hfirst) hlevel hresult
    exact hresult
  rw [hforms]
  rw [addLastLevel, hsaved, hfirst]
  dsimp only
  rw [if_neg]
  rintro ⟨-, hsome⟩
  rw [hcount] at hsome
  exact hnone hsome

theorem card_levels (x : GroupedDelta) :
    (x.deltas.toList.map fun d => d.level.ref).toFinset.card = (runs x.deltas.toList).length := by
  have hflat : (runs x.deltas.toList).flatten = x.deltas.toList := flatten_splitBy _ _
  have hsame : (x.deltas.toList.map fun d => d.level.ref).toFinset.image some =
      ((runs x.deltas.toList).map fun r => r.head?.map fun d => d.level.ref).toFinset := by
    ext a
    simp only [Finset.mem_image, mem_toFinset, mem_map]
    constructor
    · rintro ⟨ref, ⟨d, hd, rfl⟩, rfl⟩
      rw [← hflat] at hd
      obtain ⟨r, hr, hdr⟩ := mem_flatten.mp hd
      obtain ⟨first, hfirst⟩ : ∃ first, r.head? = some first :=
        Option.isSome_iff_exists.mp (isSome_head?.mpr (ne_nil_of_mem hdr))
      refine ⟨r, hr, ?_⟩
      rw [hfirst, ref_of_mem_run hr hfirst hdr]
      rfl
    rintro ⟨r, hr, rfl⟩
    have hne : r ≠ [] := fun hnil => (splitBy_eq_iff.mp rfl).2.1 (hnil ▸ hr)
    obtain ⟨first, hfirst⟩ : ∃ first, r.head? = some first :=
      Option.isSome_iff_exists.mp (isSome_head?.mpr hne)
    refine ⟨_, ⟨first, ?_, rfl⟩, by rw [hfirst]; rfl⟩
    rw [← hflat]
    exact mem_flatten.mpr ⟨r, hr, mem_of_mem_head? hfirst⟩
  rw [← Finset.card_image_of_injective _ (Option.some_injective _), hsame,
    toFinset_card_of_nodup x.grouped, length_map]

theorem parts_eq (x : GroupedDelta) :
    (Content.delta x.toComplexDelta).parts = (runs x.deltas.toList).map
      (deltaPart x.eventTime (decide ((runs x.deltas.toList).length = 1))) := by
  unfold Content.parts
  dsimp only
  split
  · rfl
  · have hnil : x.deltas.toList = [] := by
      have hsize := x.counted
      exact eq_nil_of_length_eq_zero (by omega)
    rw [hnil]
    rfl

/-- The entries in the scratch messages are those of the level, unless others were there before. -/
theorem fresh_iff {t : DateTime} {only : Bool} {earlier : List (List BasicDelta)}
    {r : List BasicDelta} :
    ((withEntry r).length ≤ 1 ∨ columns ((earlier.map (deltaPart t only) ++
        [deltaPart t only r]).map Part.row) (withEntry r).length = (withEntry r).map deltaEntry) ↔
      (withEntry r).length ≤ 1 ∨ ∀ q ∈ earlier, withEntry q = [] := by
  have hcols := @columns_concat_eq_iff EntryField
    ((earlier.map (deltaPart t only)).map Part.row) ((withEntry r).map deltaEntry)
  rw [length_map] at hcols
  have hiff := hcols fun row hrow c hc => by
    obtain ⟨p, hp, rfl⟩ := mem_map.mp hrow
    obtain ⟨q, -, rfl⟩ := mem_map.mp hp
    obtain ⟨a, -, rfl⟩ := mem_map.mp hc
    exact deltaEntry_ne_nil a
  rw [map_append]
  show (_ ∨ columns (_ ++ [(withEntry r).map deltaEntry]) _ = _) ↔ _
  rw [hiff]
  have hrows : (∀ row ∈ (earlier.map (deltaPart t only)).map Part.row, row = []) ↔
      ∀ q ∈ earlier, withEntry q = [] := by
    simp [deltaPart]
  rw [hrows, map_eq_nil_iff]
  constructor
  · rintro (hle | hnil | hempty)
    · exact .inl hle
    · exact .inl (by simp [hnil])
    · exact .inr hempty
  · rintro (hle | hempty)
    · exact .inl hle
    · exact .inr (.inr hempty)

/-- How the entries of a record are read: all of them, provided that `Q`. -/
structure Reads (t : DateTime) (read : LevelMsg → List EntryMsg)
    (Q : Bool → List BasicDelta → Prop) : Prop where
  iff : ∀ {only : Bool} {r : List BasicDelta} {v : List EntryMsg} {first last : BasicDelta},
    r.head? = some first → r.getLast? = some last → v.length = (withEntry r).length →
      (read ((deltaPart t only r).msg v) = (withEntry r).map deltaEntry ↔
        ((withEntry r).length ≤ 1 ∨ v = (withEntry r).map deltaEntry) ∧ Q only r)
  several : ∀ r, Q true r → Q false r

variable {read : LevelMsg → List EntryMsg} {Q : Bool → List BasicDelta → Prop}

theorem ends_of_mem_runs {ds r : List BasicDelta} (hr : r ∈ runs ds) :
    ∃ first last, r.head? = some first ∧ r.getLast? = some last := by
  have hne : r ≠ [] := fun hnil => (splitBy_eq_iff.mp rfl).2.1 (hnil ▸ hr)
  obtain ⟨first, hfirst⟩ : ∃ first, r.head? = some first :=
    Option.isSome_iff_exists.mp (isSome_head?.mpr hne)
  exact ⟨first, _, hfirst, getLast?_eq_some_getLast hne⟩

theorem record_iff (h : Reads x.eventTime read Q) {msg : BookMsg}
    (hmsg : x.toComplexDelta.populateMsg w = some msg) {i : Nat} {r : List BasicDelta}
    (hr : (runs x.deltas.toList)[i]? = some r) :
    ∃ sub, msg.levelParts[i]? = some sub ∧
      (∃ first a, r.head? = some first ∧ addBookLevel first.level a x.eventTime <+: sub) ∧
      (read sub = (withEntry r).map deltaEntry ↔
        ((withEntry r).length ≤ 1 ∨ ∀ q ∈ (runs x.deltas.toList).take i, withEntry q = []) ∧
          Q (decide ((runs x.deltas.toList).length = 1)) r) := by
  obtain ⟨first, last, hfirst, hlast⟩ := ends_of_mem_runs (mem_of_getElem? hr)
  have hparts := levelParts_populateMsg hmsg
  generalize honly : decide ((runs x.deltas.toList).length = 1) = only
  rw [parts_eq, honly] at hparts
  have hpart : ((runs x.deltas.toList).map (deltaPart x.eventTime only))[i]? =
      some (deltaPart x.eventTime only r) := by
    rw [getElem?_map, hr]
    rfl
  have hlen : (deltaPart x.eventTime only r).row.length = (withEntry r).length :=
    length_map _
  have hsub := getElem?_writtenFrom _ i _ hpart
  rw [← hparts, ← map_take, hlen] at hsub
  refine ⟨_, hsub, ⟨first, if only then last.plAction else first.plAction, hfirst, ?_⟩, ?_⟩
  · rw [deltaPart_msg hfirst hlast, append_assoc, append_assoc]; exact prefix_append _ _
  · rw [h.iff hfirst hlast (length_columns _ _), fresh_iff]

variable {main : LevelMsg}

theorem forms_single {r : List BasicDelta} (hruns : runs x.deltas.toList = [r])
    {levels : List LevelMsg} (hforms : forms x.toComplexDelta w = some (levels, main)) :
    levels = [(deltaPart x.eventTime false r).msg ((withEntry r).map deltaEntry)] ∧
      main = (deltaPart x.eventTime true r).msg ((withEntry r).map deltaEntry) := by
  have hcolumns : columns [(withEntry r).map deltaEntry] (withEntry r).length =
      (withEntry r).map deltaEntry := by
    have hiff := @columns_concat_eq_iff _ [] ((withEntry r).map deltaEntry)
      fun row hrow => absurd hrow not_mem_nil
    rw [length_map] at hiff
    exact hiff.mpr (.inr fun row hrow => absurd hrow not_mem_nil)
  have hlen : ∀ only, (deltaPart x.eventTime only r).row.length = (withEntry r).length :=
    fun _ => length_map _
  obtain ⟨first, last, -, -, hsome, hnone⟩ := @forms_eq x w [] r hruns
  by_cases hok : (withEntry r).length = 1 → last.entry.isSome
  · rw [hsome hok] at hforms
    obtain ⟨rfl, rfl⟩ := Prod.mk.inj (Option.some.inj hforms)
    rw [hlen]
    constructor
    · show [(deltaPart x.eventTime false r).msg (columns [(withEntry r).map deltaEntry]
        (deltaPart x.eventTime false r).row.length)] = _
      rw [hlen, hcolumns]
    · show (deltaPart x.eventTime true r).msg (columns [(withEntry r).map deltaEntry] _) = _
      rw [hcolumns]
  · rw [hnone hok] at hforms; cases hforms

theorem populateMsg_of_forms {levels : List LevelMsg}
    (hforms : forms x.toComplexDelta w = some (levels, main)) :
    ∃ msg, x.toComplexDelta.populateMsg w = some msg ∧
      msg.levelParts.length = (x.deltas.toList.map fun d => d.level.ref).toFinset.card := by
  have hmsg : ∃ msg, x.toComplexDelta.populateMsg w = some msg := by
    unfold forms at hforms
    rw [ComplexDelta.populateMsg, hforms]
    exact ⟨_, rfl⟩
  obtain ⟨msg, hmsg⟩ := hmsg
  refine ⟨msg, hmsg, ?_⟩
  rw [levelParts_populateMsg hmsg, length_writtenFrom, parts_eq, length_map, card_levels]

theorem forms_isSome_iff (x : GroupedDelta) (w : Writer) :
    (forms x.toComplexDelta w).isSome ↔ ∀ r ∈ (runs x.deltas.toList).getLast?,
      (withEntry r).length = 1 → ∀ last ∈ r.getLast?, last.entry.isSome := by
  rcases eq_nil_or_concat (runs x.deltas.toList) with hnil | ⟨done, r, hruns⟩
  · have hsize : ¬ x.deltas.getSize > 0 := by
      have hflat : (runs x.deltas.toList).flatten = x.deltas.toList := flatten_splitBy _ _
      rw [hnil] at hflat
      rw [x.counted, ← hflat]
      exact Nat.lt_irrefl 0
    rw [hnil]
    rw [forms, if_neg hsize]
    simp
  rw [concat_eq_append] at hruns
  obtain ⟨first, last, -, hlast, hsome, hnone⟩ := @forms_eq x w done r hruns
  rw [hruns, getLast?_concat]
  simp only [Option.mem_def, Option.some.injEq, forall_eq', hlast]
  by_cases hok : (withEntry r).length = 1 → last.entry.isSome
  · rw [hsome hok]; exact iff_of_true rfl hok
  · rw [hnone hok]; exact iff_of_false Bool.false_ne_true hok

/-- Both forms of a single level agree just where its deltas begin and end with the same action. -/
theorem single_iff (h : Reads x.eventTime read Q) {r : List BasicDelta}
    (hruns : runs x.deltas.toList = [r]) (hQ : Q true r) {levels : List LevelMsg}
    (hforms : forms x.toComplexDelta w = some (levels, main)) :
    (∀ sub ∈ levels, LevelMsg.action main = LevelMsg.action sub ∧ read main = read sub) ↔
      ∀ first ∈ r.head?, ∀ last ∈ r.getLast?, first.plAction = last.plAction := by
  obtain ⟨first, last, hfirst, hlast⟩ := ends_of_mem_runs (hruns ▸ mem_singleton_self r)
  obtain ⟨rfl, rfl⟩ := forms_single hruns hforms
  have hlen : ((withEntry r).map deltaEntry).length = (withEntry r).length := length_map _
  obtain ⟨hvector, -⟩ := @read_deltaPart x.eventTime false r ((withEntry r).map deltaEntry)
    first last hfirst hlast
  obtain ⟨hflat, -⟩ := @read_deltaPart x.eventTime true r ((withEntry r).map deltaEntry)
    first last hfirst hlast
  have hboth : ∀ only, Q only r → read ((deltaPart x.eventTime only r).msg
      ((withEntry r).map deltaEntry)) = (withEntry r).map deltaEntry :=
    fun only hQ => (h.iff hfirst hlast hlen).mpr ⟨.inr rfl, hQ⟩
  rw [forall_mem_singleton, hvector, hflat, hboth true hQ, hboth false (h.several r hQ)]
  simp only [hfirst, hlast, Option.mem_def, Option.some.injEq, forall_eq', and_true]
  exact eq_comm

theorem groups_iff_of_reads (h : Reads x.eventTime read Q) :
    Groups read x.toComplexDelta w ↔ Fair (runs x.deltas.toList) ∧
      ∀ r ∈ runs x.deltas.toList, Q (decide ((runs x.deltas.toList).length = 1)) r := by
  constructor
  · rintro ⟨levels, main, msg, hforms, hmsg, -, hrecords, hsingle⟩
    have hrecord : ∀ (i : Nat) r, (runs x.deltas.toList)[i]? = some r →
        ((withEntry r).length ≤ 1 ∨ ∀ q ∈ (runs x.deltas.toList).take i, withEntry q = []) ∧
          Q (decide ((runs x.deltas.toList).length = 1)) r := by
      intro i r hr
      obtain ⟨sub, hsub, -, hiff⟩ := record_iff h hmsg hr
      obtain ⟨sub', hsub', -, hread⟩ := hrecords i r hr
      obtain rfl : sub = sub' := Option.some.inj (hsub.symm.trans hsub')
      exact hiff.mp hread
    have hQ : ∀ r ∈ runs x.deltas.toList,
        Q (decide ((runs x.deltas.toList).length = 1)) r := by
      intro r hr
      obtain ⟨i, hi⟩ := getElem?_of_mem hr
      exact (hrecord i r hi).2
    refine ⟨⟨?_, fun i r hr => (hrecord i r hr).1, fun r hruns => ?_⟩, hQ⟩
    · exact (forms_isSome_iff x w).mp (by rw [hforms]; rfl)
    · have hone : (runs x.deltas.toList).length = 1 := by rw [hruns]; rfl
      have hQr := hQ r (hruns ▸ mem_singleton_self r)
      rw [decide_eq_true hone] at hQr
      exact (single_iff h hruns hQr hforms).mp (hsingle hone)
  rintro ⟨hfair, hQ⟩
  obtain ⟨⟨levels, main⟩, hforms⟩ :=
    Option.isSome_iff_exists.mp ((forms_isSome_iff x w).mpr hfair.nonNull)
  obtain ⟨msg, hmsg, hcount⟩ := populateMsg_of_forms hforms
  refine ⟨levels, main, msg, hforms, hmsg, hcount, fun i r hr => ?_, fun hone => ?_⟩
  · obtain ⟨sub, hsub, hlevel, hiff⟩ := record_iff h hmsg hr
    exact ⟨sub, hsub, hlevel, hiff.mpr ⟨hfair.fresh i r hr, hQ r (mem_of_getElem? hr)⟩⟩
  · obtain ⟨r, hruns⟩ := length_eq_one_iff.mp hone
    have hQr := hQ r (hruns ▸ mem_singleton_self r)
    rw [decide_eq_true hone] at hQr
    exact (single_iff h hruns hQr hforms).mpr (hfair.sameAction r hruns)

theorem reads_carried (t : DateTime) : Reads t LevelMsg.carried fun _ _ => True where
  iff hfirst hlast _ := by rw [carried_deltaPart hfirst hlast, and_true]
  several _ := id

def SaysAll (only : Bool) (r : List BasicDelta) : Prop :=
  if only then (withEntry r).length = 1
  else (withEntry r).length ≤ getU32 (toI16 (withEntry r).length)

theorem reads_attached (t : DateTime) : Reads t LevelMsg.attached SaysAll where
  iff := by
    intro only r v first last hfirst hlast hlen
    cases only with
    | true =>
      rw [attached_single hfirst hlast hlen]
      exact ⟨fun hone => ⟨.inl hone.le, hone⟩, fun h => h.2⟩
    | false => exact attached_deltaPart hfirst hlast hlen
  several r h := by
    have hone : (withEntry r).length = 1 := h
    show (withEntry r).length ≤ getU32 (toI16 (withEntry r).length)
    rw [hone]
    decide

/-- **Grouping**: there is one record for each level with the entries of its deltas, no entry is
read that is not there, and both forms of a single level agree, just where the list is fair; and if
only those entries count that a record says it has, just where it is numbered as well. -/
theorem groups_iff (x : GroupedDelta) (w : Writer) :
    (Groups LevelMsg.carried x.toComplexDelta w ↔ Fair (runs x.deltas.toList)) ∧
      (Groups LevelMsg.attached x.toComplexDelta w ↔
        Fair (runs x.deltas.toList) ∧ Numbered (runs x.deltas.toList)) := by
  constructor
  · rw [groups_iff_of_reads (reads_carried x.eventTime)]; exact and_iff_left fun _ _ => trivial
  rw [groups_iff_of_reads (reads_attached x.eventTime)]
  refine and_congr_right fun _ => ⟨fun h => ⟨fun r hruns => ?_, fun hlen r hr => ?_⟩, ?_⟩
  · have hr := h r (hruns ▸ mem_singleton_self r)
    rwa [hruns] at hr
  · have hr := h r hr
    rwa [decide_eq_false hlen] at hr
  intro hnumbered r hr
  by_cases hone : (runs x.deltas.toList).length = 1
  · rw [decide_eq_true hone]
    obtain ⟨r', hruns⟩ := length_eq_one_iff.mp hone
    obtain rfl : r = r' := mem_singleton.mp (hruns ▸ hr)
    exact hnumbered.single r hruns
  · rw [decide_eq_false hone]; exact hnumbered.several hone r hr

/-! ### Lists that are not fair -/

def oneBid : PriceLevel := .new ⟨0, 0⟩ 5 .bid

/-- Two updates of a bid, of which only the first has an entry. -/
def nullTail : List BasicDelta :=
  [⟨some (.create ⟨1, 0⟩ "a"), oneBid, 1, .update, .add⟩, ⟨none, oneBid, 1, .update, .add⟩]

/-- A bid that is added with an entry and updated with another. -/
def twoActions : List BasicDelta :=
  [⟨some (.create ⟨1, 0⟩ "a"), oneBid, 1, .add, .add⟩,
    ⟨some (.create ⟨1, 1⟩ "b"), oneBid, 1, .update, .add⟩]

def conflated (ds : List BasicDelta) : DeltaList :=
  { DeltaList.new 0 with conflateDeltas := true }.addAll ds

def nullTailDelta : GroupedDelta where
  deltas := conflated nullTail
  eventTime := .null
  srcTime := .null
  eventSeqNum := 0
  onePerRef := by decide +kernel
  grouped := by decide +kernel
  counted := by decide +kernel

def twoActionsDelta : GroupedDelta where
  deltas := conflated twoActions
  eventTime := .null
  srcTime := .null
  eventSeqNum := 0
  onePerRef := by decide +kernel
  grouped := by decide +kernel
  counted := by decide +kernel

/-- An entry is read that is not there, and both forms of a level have different actions. -/
theorem not_groups : ¬ Groups LevelMsg.carried nullTailDelta.toComplexDelta ⟨[], []⟩ ∧
    ¬ Groups LevelMsg.carried twoActionsDelta.toComplexDelta ⟨[], []⟩ := by
  constructor
  · intro h
    have hfair := ((groups_iff_of_reads (reads_carried _)).mp h).1
    cases hfair.nonNull nullTail rfl rfl _ rfl
  · intro h
    have hfair := ((groups_iff_of_reads (reads_carried _)).mp h).1
    cases hfair.sameAction twoActions rfl _ rfl _ rfl

end Written

end Writer

end Mamda

import Mathlib.Data.List.SplitBy
import OpenMama.Lib.Columns
import OpenMama.Mamda.Recap

/-!
# The levels of a message, one by one

What the writer sends for a level (`Part`) against what it would send if the
level were alone in the message.  Whole books and complex deltas are written the
same way: the entries of a level go to the scratch messages from the first on,
after whatever the levels before have left there.

A level with no entry or one does not show its scratch messages.  Any other is
sent as it would be alone iff no level before it has an entry.
-/

namespace Mamda

open Mama Lib List

/-! ## Field ids -/

inductive FieldId
  | plPrice
  | plAction
  | plSide
  | plSize
  | plSizeChange
  | plTime
  | plNumEntries
  | plNumAttach
  | plEntries
  | plEntry
  | entryId
  | entryAction
  | entrySize
  | entryTime
  | entryStatus
  deriving DecidableEq, Repr

def EntryField.fid : EntryField → FieldId
  | .entryId _ => .entryId
  | .entryAction _ => .entryAction
  | .entrySize _ => .entrySize
  | .entryTime _ => .entryTime
  | .entryStatus _ => .entryStatus

def LevelField.fid : LevelField → FieldId
  | .plPrice _ => .plPrice
  | .plAction _ => .plAction
  | .plSide _ => .plSide
  | .plSize _ => .plSize
  | .plSizeChange _ => .plSizeChange
  | .plTime _ => .plTime
  | .plNumEntries _ => .plNumEntries
  | .plNumAttach _ => .plNumAttach
  | .plEntries _ => .plEntries
  | .plEntry _ => .plEntry
  | .entry f => f.fid

/-- No field id occurs twice, in the message of a level or in those of its entries. -/
structure FieldsOnce (msg : LevelMsg) : Prop where
  level : (msg.map LevelField.fid).Nodup
  entries : ∀ es, .plEntries es ∈ msg → ∀ e ∈ es, (e.map EntryField.fid).Nodup

/-- The messages of levels in a message: those of a vector, and the fields of a level that is
flattened. -/
def BookMsg.levelParts (msg : BookMsg) : List LevelMsg :=
  let flat := msg.filterMap fun f => match f with
    | .level f => some f
    | _ => none
  let vectors := msg.filterMap fun f => match f with
    | .priceLevels ls => some ls
    | _ => none
  vectors.flatten ++ if flat = [] then [] else [flat]

namespace Writer

/-! ## A level on its own -/

/-- What there is to send for a level: its fields before and after the entry vector, and the
messages of its entries. -/
structure Part where
  lead : LevelMsg
  row : List EntryMsg
  trail : LevelMsg

namespace Part

/-- The message of the level with these entry messages; one entry is in `lead`. -/
def msg (p : Part) (entries : List EntryMsg) : LevelMsg :=
  p.lead ++ (if p.row.length > 1 then [.plEntries entries] else []) ++ p.trail

/-- The message of the level that depends on nothing else. -/
def alone (p : Part) : LevelMsg := p.msg p.row

end Part

/-- The message sent for a level depends only on the level, and no field occurs twice in it. -/
structure Independent (p : Part) (sub : LevelMsg) : Prop where
  alone : sub = p.alone
  once : FieldsOnce sub

/-- A level of a whole book that shows the entries `es`. -/
def bookPart (t : DateTime) (l : PriceLevel) (es : List Entry) : Part where
  lead := addBookLevel l .add t ++
    match es.getLast? with
    | some e => if (sized es).length = 1 then (addBookEntry e .add l.time).map .entry else []
    | none => []
  row := (sized es).map (addBookEntry · .add l.time)
  trail := if toI16 (sized es).length ≠ 1 then [.plNumAttach (toI16 (sized es).length)] else []

/-- The deltas that come one after the other for the same level. -/
def runs (ds : List BasicDelta) : List (List BasicDelta) :=
  ds.splitBy fun d d' => decide (d.level.ref = d'.level.ref)

def withEntry (r : List BasicDelta) : List (BasicDelta × Entry) :=
  r.filterMap fun d => d.entry.map fun e => (d, e)

def deltaEntry (a : BasicDelta × Entry) : EntryMsg :=
  addBookEntry a.2 a.1.entryAction a.1.level.time

/-- A level of a complex delta, with its deltas; `only` if it is the only one, which is sent with
the last action and without the number of entries. -/
def deltaPart (t : DateTime) (only : Bool) (r : List BasicDelta) : Part where
  lead :=
    (match r.head?, r.getLast? with
      | some first, some last =>
        addBookLevel first.level (if only then last.plAction else first.plAction) t
      | _, _ => []) ++
    match (withEntry r).getLast? with
    | some a => if (withEntry r).length = 1 then (deltaEntry a).map .entry else []
    | none => []
  row := (withEntry r).map deltaEntry
  trail := if only then [] else addNumAttach (withEntry r).length

/-- What `populateMsg` is given. -/
inductive Content
  | book (b : Book)
  | delta (x : ComplexDelta)

namespace Content

def populateMsg : Content → Writer → Option BookMsg
  | .book b => b.populateMsg
  | .delta x => x.populateMsg

/-- The levels that are to be sent; there are none if the counter says so. -/
def parts : Content → List Part
  | .book b =>
    let ls := if b.totalNumLevels = 0 then [] else b.shownLevels
    ls.map fun l => bookPart b.bookTime l (b.shownEntries l)
  | .delta x =>
    let rs := if x.deltas.getSize > 0 then runs x.deltas.toList else []
    rs.map (deltaPart x.eventTime (decide (rs.length = 1)))

end Content

/-! ## Field ids occur once -/

theorem fid_addBookEntry (e : Entry) (a : Action) (pt : DateTime) :
    ((addBookEntry e a pt).map EntryField.fid).Sublist
      [.entryId, .entryAction, .entrySize, .entryTime, .entryStatus] := by
  unfold addBookEntry
  by_cases ht : pt.compare e.time ≠ 0 <;> by_cases hs : e.status ≠ 0 <;>
    simp [ht, hs, EntryField.fid]

theorem fid_addBookLevel (l : PriceLevel) (a : Action) (t : DateTime) :
    ((addBookLevel l a t).map LevelField.fid).Sublist
      [.plPrice, .plAction, .plSide, .plSize, .plSizeChange, .plTime, .plNumEntries] := by
  unfold addBookLevel
  by_cases ha : a ≠ .add <;> by_cases hs : l.side ≠ .bid <;>
    by_cases ht : t.compare l.time ≠ 0 <;> by_cases hn : l.numEntries ≠ 1 <;>
      simp [ha, hs, ht, hn, LevelField.fid]

theorem fid_flattened (m : EntryMsg) :
    (m.map LevelField.entry).map LevelField.fid = m.map EntryField.fid := by
  rw [map_map]
  rfl

theorem addBookEntry_ne_nil (e : Entry) (a : Action) (pt : DateTime) :
    addBookEntry e a pt ≠ [] := by
  simp [addBookEntry]

variable {p : Part}

namespace Part

/-- The fields of the level and of its entries as the writer adds them. -/
structure Proper (p : Part) : Prop where
  lead : (p.lead.map LevelField.fid).Sublist
    [.plPrice, .plAction, .plSide, .plSize, .plSizeChange, .plTime, .plNumEntries, .entryId,
      .entryAction, .entrySize, .entryTime, .entryStatus]
  row : ∀ m ∈ p.row, m ≠ [] ∧ (m.map EntryField.fid).Nodup
  trail : (p.trail.map LevelField.fid).Sublist [.plNumAttach]

theorem Proper.not_plEntries (h : p.Proper) (es : List EntryMsg) :
    .plEntries es ∉ p.lead ∧ .plEntries es ∉ p.trail := by
  constructor
  · intro hmem
    have hfid := h.lead.subset (mem_map_of_mem (f := LevelField.fid) hmem)
    simp [LevelField.fid] at hfid
  · intro hmem
    have hfid := h.trail.subset (mem_map_of_mem (f := LevelField.fid) hmem)
    simp [LevelField.fid] at hfid

theorem Proper.once_alone (h : p.Proper) : FieldsOnce p.alone := by
  constructor
  · have hsub : (p.alone.map LevelField.fid).Sublist
        ([.plPrice, .plAction, .plSide, .plSize, .plSizeChange, .plTime, .plNumEntries, .entryId,
          .entryAction, .entrySize, .entryTime,
            .entryStatus] ++ [.plEntries] ++ [.plNumAttach]) := by
      rw [alone, msg, map_append, map_append]
      refine (h.lead.append ?_).append h.trail
      split <;> simp [LevelField.fid]
    exact hsub.nodup (by decide)
  intro es hes e he
  have hno := h.not_plEntries es
  rcases mem_append.mp hes with hes | hes
  · rcases mem_append.mp hes with hes | hes
    · exact absurd hes hno.1
    · split at hes
      · have heq : es = p.row := by simpa using hes
        exact (h.row e (heq ▸ he)).2
      · cases hes
  · exact absurd hes hno.2

theorem msg_eq_alone_iff (p : Part) (v : List EntryMsg) :
    p.msg v = p.alone ↔ p.row.length ≤ 1 ∨ v = p.row := by
  unfold alone msg
  by_cases hlen : p.row.length > 1
  · rw [if_pos hlen]; simp [hlen]
  · rw [if_neg hlen]; simp [Nat.le_of_not_lt hlen]

end Part

/-! ## The levels written one after the other -/

/-- The messages of levels, written after the levels `earlier`. -/
def writtenFrom : List Part → List Part → List LevelMsg
  | _, [] => []
  | earlier, p :: ps =>
    p.msg (columns ((earlier ++ [p]).map Part.row) p.row.length) :: writtenFrom (earlier ++ [p]) ps

theorem writtenFrom_append (ps qs : List Part) : ∀ earlier : List Part,
    writtenFrom earlier (ps ++ qs) = writtenFrom earlier ps ++ writtenFrom (earlier ++ ps) qs := by
  induction ps with
  | nil => simp [writtenFrom]
  | cons p ps ih =>
    intro earlier
    rw [cons_append, writtenFrom, ih, writtenFrom, append_assoc, singleton_append, cons_append]

theorem length_writtenFrom (ps : List Part) : ∀ earlier : List Part,
    (writtenFrom earlier ps).length = ps.length := by
  induction ps with
  | nil => exact fun _ => rfl
  | cons p ps ih => exact fun earlier => congrArg (· + 1) (ih (earlier ++ [p]))

theorem getElem?_writtenFrom (ps : List Part) (i : Nat) (p : Part) (hp : ps[i]? = some p) :
    (writtenFrom [] ps)[i]? =
      some (p.msg (columns ((ps.take i ++ [p]).map Part.row) p.row.length)) := by
  obtain ⟨hi, rfl⟩ := List.getElem?_eq_some_iff.mp hp
  have hsplit : ps = ps.take i ++ (ps[i] :: ps.drop (i + 1)) := by
    rw [← drop_eq_getElem_cons hi, take_append_drop]
  have hlen : (writtenFrom [] (ps.take i)).length = i := by
    rw [length_writtenFrom, length_take]; omega
  have happ := writtenFrom_append (ps.take i) (ps[i] :: ps.drop (i + 1)) []
  rw [← hsplit] at happ
  rw [happ, getElem?_append_right hlen.le, hlen, Nat.sub_self]
  rfl

/-- A level that is written after others is sent as it would be alone iff it has at most one entry
or they have none. -/
theorem independent_msg_iff {earlier : List Part} (hp : p.Proper)
    (hearlier : ∀ q ∈ earlier, q.Proper) :
    Independent p (p.msg (columns ((earlier ++ [p]).map Part.row) p.row.length)) ↔
      p.row.length ≤ 1 ∨ ∀ q ∈ earlier, q.row = [] := by
  have hcols : columns ((earlier ++ [p]).map Part.row) p.row.length = p.row ↔
      p.row = [] ∨ ∀ q ∈ earlier, q.row = [] := by
    rw [map_append, map_singleton, columns_concat_eq_iff]
    · simp
    · intro r hr c hc
      obtain ⟨q, hq, rfl⟩ := mem_map.mp hr
      exact ((hearlier q hq).row c hc).1
  constructor
  · rintro ⟨halone, -⟩
    rcases (p.msg_eq_alone_iff _).mp halone with hlen | heq
    · exact .inl hlen
    · rcases hcols.mp heq with hnil | hempty
      · exact .inl (by simp [hnil])
      · exact .inr hempty
  intro h
  have halone : p.msg (columns ((earlier ++ [p]).map Part.row) p.row.length) = p.alone := by
    refine (p.msg_eq_alone_iff _).mpr (h.imp id fun hempty => ?_)
    exact hcols.mpr (.inr hempty)
  refine ⟨halone, ?_⟩
  rw [halone]
  exact hp.once_alone

/-! ## A whole book -/

section Recap

variable (t : DateTime) (shown : PriceLevel → List Entry)

theorem proper_bookPart (l : PriceLevel) (es : List Entry) : (bookPart t l es).Proper := by
  constructor
  · have hflat : ((match es.getLast? with
        | some e => if (sized es).length = 1 then (addBookEntry e .add l.time).map .entry else []
        | none => [] : LevelMsg).map LevelField.fid).Sublist
          [.entryId, .entryAction, .entrySize, .entryTime, .entryStatus] := by
      cases es.getLast? with
      | none => exact nil_sublist _
      | some e =>
        dsimp only
        split
        · rw [fid_flattened]; exact fid_addBookEntry e .add l.time
        · exact nil_sublist _
    show (List.map _ (_ ++ _)).Sublist _
    rw [map_append]
    exact (fid_addBookLevel l .add t).append hflat
  · intro m hm
    obtain ⟨e, -, rfl⟩ := mem_map.mp hm
    exact ⟨addBookEntry_ne_nil e .add l.time, (fid_addBookEntry e .add l.time).nodup (by decide)⟩
  · unfold bookPart
    dsimp only
    split <;> simp [LevelField.fid]

variable {t shown}

theorem scratch_eq_columns (ls : List PriceLevel) (n : Nat) :
    scratch shown ls n = columns (ls.map fun l => (bookPart t l (shown l)).row) n := by
  apply map_congr_left
  intro k _
  induction ls with
  | nil => rfl
  | cons l ls ih =>
    show slotMsg (slotHistory shown ([l] ++ ls) k) = _
    rw [slotHistory, filterMap_append, slotMsg_append]
    congr 1
    simp only [bookPart, getElem?_map, filterMap_cons]
    cases (sized (shown l))[k]? <;> simp [slotMsg]

theorem levelMsgs_eq_writtenFrom (ls : List PriceLevel) : ∀ earlier : List PriceLevel,
    levelMsgs t shown earlier ls =
      writtenFrom (earlier.map fun l => bookPart t l (shown l))
        (ls.map fun l => bookPart t l (shown l)) := by
  induction ls with
  | nil => exact fun _ => rfl
  | cons l ls ih =>
    intro earlier
    rw [levelMsgs, ih, map_cons, writtenFrom, map_append]
    have hcols : columns (List.map Part.row (earlier.map (fun l => bookPart t l (shown l)) ++
        [bookPart t l (shown l)])) (bookPart t l (shown l)).row.length =
          scratch shown (earlier ++ [l]) (sized (shown l)).length := by
      have hlen : (bookPart t l (shown l)).row.length = (sized (shown l)).length := length_map _
      rw [@scratch_eq_columns t, map_append, map_append, map_map, hlen]
      rfl
    have htake : ∀ n, (scratch shown (earlier ++ [l]) n).take n =
        scratch shown (earlier ++ [l]) n :=
      fun n => take_of_length_le (by simp [scratch])
    rw [hcols]
    unfold levelMsg levelEntryFields Part.msg
    dsimp only
    rw [htake]
    simp only [bookPart, length_map, append_assoc]
    rfl

end Recap

/-! ## A complex delta -/

theorem proper_deltaPart (t : DateTime) (only : Bool) (r : List BasicDelta) :
    (deltaPart t only r).Proper := by
  constructor
  · have hlevel : ((match r.head?, r.getLast? with
        | some first, some last =>
          addBookLevel first.level (if only then last.plAction else first.plAction) t
        | _, _ => [] : LevelMsg).map LevelField.fid).Sublist
          [.plPrice, .plAction, .plSide, .plSize, .plSizeChange, .plTime, .plNumEntries] := by
      split
      · exact fid_addBookLevel _ _ t
      · exact nil_sublist _
    have hflat : ((match (withEntry r).getLast? with
        | some a => if (withEntry r).length = 1 then (deltaEntry a).map .entry else []
        | none => [] : LevelMsg).map LevelField.fid).Sublist
          [.entryId, .entryAction, .entrySize, .entryTime, .entryStatus] := by
      cases (withEntry r).getLast? with
      | none => exact nil_sublist _
      | some a =>
        dsimp only
        split
        · rw [fid_flattened]; exact fid_addBookEntry _ _ _
        · exact nil_sublist _
    show (List.map _ (_ ++ _)).Sublist _
    rw [map_append]
    exact hlevel.append hflat
  · intro m hm
    obtain ⟨a, -, rfl⟩ := mem_map.mp hm
    exact ⟨addBookEntry_ne_nil _ _ _, (fid_addBookEntry _ _ _).nodup (by decide)⟩
  unfold deltaPart addNumAttach
  cases only
  · show (List.map _ (if _ then _ else _)).Sublist _
    split
    · exact List.Sublist.refl _
    · exact nil_sublist _
  · exact nil_sublist _

theorem withEntry_concat (r : List BasicDelta) (d : BasicDelta) :
    withEntry (r ++ [d]) = withEntry r ++ (d.entry.map fun e => (d, e)).toList := by
  unfold withEntry
  cases h : d.entry <;> simp [h]

variable {d : BasicDelta} {ds : List BasicDelta}

theorem ref_of_mem_run {r : List BasicDelta} (hr : r ∈ runs ds) {first : BasicDelta}
    (hfirst : r.head? = some first) (hd : d ∈ r) : d.level.ref = first.level.ref := by
  have hchain : r.IsChain fun a b => a.level.ref = b.level.ref :=
    (isChain_of_mem_splitBy hr).imp fun a b h => of_decide_eq_true h
  have htrans : r.Pairwise fun a b => a.level.ref = b.level.ref := by
    refine @List.IsChain.pairwise _ _ _ ⟨?_⟩ hchain
    intro a b c hab hbc
    exact hab.trans hbc
  cases r with
  | nil => cases hd
  | cons c r =>
    obtain rfl : c = first := Option.some.inj hfirst
    rcases mem_cons.mp hd with rfl | hd
    · rfl
    · exact ((pairwise_cons.mp htrans).1 d hd).symm

theorem runs_concat_same {r : List BasicDelta} {done : List (List BasicDelta)} {first : BasicDelta}
    (hruns : runs ds = done ++ [r]) (hfirst : r.head? = some first)
    (hd : first.level.ref = d.level.ref) : runs (ds ++ [d]) = done ++ [r ++ [d]] := by
  have hmem : r ∈ runs ds := by simp [hruns]
  obtain ⟨hflat, hnil, hchains, hbreaks⟩ := splitBy_eq_iff.mp hruns
  have hne : r ≠ [] := by
    rintro rfl; simp at hnil
  have hnil' : [] ∉ done ++ [r ++ [d]] := by
    intro hmem
    rcases mem_append.mp hmem with hmem | hmem
    · exact hnil (mem_append_left _ hmem)
    · simp at hmem
  refine splitBy_eq_iff.mpr ⟨by simp [hflat], hnil', ?_, ?_⟩
  · intro m hm
    rcases mem_append.mp hm with hm | hm
    · exact hchains m (mem_append_left _ hm)
    · obtain rfl := mem_singleton.mp hm
      refine isChain_append.mpr ⟨hchains r (by simp), isChain_singleton d, ?_⟩
      intro a ha b hb
      obtain rfl : d = b := Option.some.inj hb
      have href := ref_of_mem_run hmem hfirst (mem_of_mem_getLast? ha)
      exact decide_eq_true (href.trans hd)
  obtain ⟨hdone, -, hlast⟩ := isChain_append.mp hbreaks
  refine isChain_append.mpr ⟨hdone, isChain_singleton _, ?_⟩
  intro a ha b hb
  obtain rfl : r ++ [d] = b := Option.some.inj hb
  obtain ⟨hane, hrne, hbreak⟩ := hlast a ha r rfl
  refine ⟨hane, by simp, ?_⟩
  rwa [head_append_of_ne_nil hne]

theorem runs_concat_other {r : List BasicDelta} {done : List (List BasicDelta)} {first : BasicDelta}
    (hruns : runs ds = done ++ [r]) (hfirst : r.head? = some first)
    (hd : first.level.ref ≠ d.level.ref) : runs (ds ++ [d]) = done ++ [r] ++ [[d]] := by
  have hmem : r ∈ runs ds := by simp [hruns]
  have hlast : ∀ a ∈ ds.getLast?, decide (a.level.ref = d.level.ref) = false := by
    intro a ha
    have hne : r ≠ [] := by
      rintro rfl; cases hfirst
    have hds : ds = done.flatten ++ r := by
      rw [← flatten_splitBy (fun a b : BasicDelta => decide (a.level.ref = b.level.ref)) ds]
      show (runs ds).flatten = _
      simp [hruns]
    rw [hds, getLast?_append_of_ne_nil _ hne] at ha
    have href := ref_of_mem_run hmem hfirst (mem_of_mem_getLast? ha)
    exact decide_eq_false fun h => hd (href.symm.trans h)
  have hsplit := @splitBy_append_cons _ (fun a b : BasicDelta =>
    decide (a.level.ref = b.level.ref)) ds d [] hlast
  rwa [← hruns]

section Loop

variable {t : DateTime} {room n : Nat}

/-- The loop after the runs `done` and the run `r` it is at, with `n` scratch messages for
entries. -/
structure Walked (t : DateTime) (n : Nat) (done : List (List BasicDelta)) (r : List BasicDelta)
    (x : DeltaLoop) : Prop where
  flat : withEntry r ≠ [] → x.flat = (withEntry r).getLast?
  entryCount : x.entryCount = (withEntry r).length
  fits : (withEntry r).length ≤ n
  entries : x.entries = columns ((done ++ [r]).map fun r => (deltaPart t false r).row) n
  levels : x.levels = writtenFrom [] (done.map (deltaPart t false))

variable {x : DeltaLoop}
variable {y : DeltaLoop}

theorem Walked.addDeltaEntry {done : List (List BasicDelta)} {r : List BasicDelta}
    (h : Walked t n done r x) (hy : Writer.addDeltaEntry x d = some y) :
    y.saved = x.saved ∧ Walked t n done (r ++ [d]) y := by
  have hconcat := withEntry_concat r d
  unfold Writer.addDeltaEntry at hy
  cases he : d.entry with
  | none =>
    rw [he] at hy hconcat
    cases hy
    have hsame : withEntry (r ++ [d]) = withEntry r := by simpa using hconcat
    refine ⟨rfl, ?_, ?_, ?_, ?_, h.levels⟩
    · rw [hsame]; exact h.flat
    · rw [hsame]; exact h.entryCount
    · rw [hsame]; exact h.fits
    · rw [h.entries]; simp [deltaPart, hsame]
  | some e =>
    rw [he] at hy hconcat
    obtain ⟨msgs, hmsgs, rfl⟩ := Option.map_eq_some_iff.mp hy
    have hmore : withEntry (r ++ [d]) = withEntry r ++ [(d, e)] := hconcat
    unfold appendAt at hmsgs
    rw [h.entries, getElem?_columns, h.entryCount] at hmsgs
    by_cases hlt : (withEntry r).length < n
    · rw [if_pos hlt] at hmsgs
      refine ⟨rfl, fun _ => ?_, ?_, ?_, ?_, h.levels⟩
      · rw [hmore, getLast?_concat]
      · rw [hmore, length_append, h.entryCount]; rfl
      · rwa [hmore, length_append]
      have hrow : (deltaPart t false (r ++ [d])).row =
          (deltaPart t false r).row ++ [deltaEntry (d, e)] := by
        simp [deltaPart, hmore]
      have hlen : (deltaPart t false r).row.length = (withEntry r).length := length_map _
      rw [map_append, map_singleton, hrow, columns_item, hlen]
      rw [map_append] at hmsgs
      exact (Option.some.inj hmsgs).symm
    · rw [if_neg hlt] at hmsgs; cases hmsgs

theorem addDeltaLevel_eq {r : List BasicDelta} {first last : BasicDelta}
    (hfirst : r.head? = some first) (hlast : r.getLast? = some last) (only : Bool)
    {flat : Option (BasicDelta × Entry)}
    (hflat : (withEntry r).length = 1 → flat = (withEntry r).getLast?)
    {done : List (List BasicDelta)} (hfits : (withEntry r).length ≤ n) :
    addDeltaLevel t first.level (if only then last.plAction else first.plAction) flat
        (withEntry r).length (columns ((done ++ [r]).map fun r => (deltaPart t false r).row) n) ++
        (if only then [] else addNumAttach (withEntry r).length) =
      (deltaPart t only r).msg (columns ((done.map (deltaPart t false) ++ [deltaPart t only r]).map
        Part.row) (deltaPart t only r).row.length) := by
  have hlen : (deltaPart t only r).row.length = (withEntry r).length := length_map _
  have hrows : (done.map (deltaPart t false) ++ [deltaPart t only r]).map Part.row =
      (done ++ [r]).map fun r => (deltaPart t false r).row := by
    rw [map_append, map_map, map_append]
    rfl
  unfold addDeltaLevel Part.msg
  rw [hrows, hlen, take_columns _ hfits]
  simp only [deltaPart, hfirst, hlast]
  by_cases hone : (withEntry r).length = 1
  · rw [hflat hone]
    cases hw : (withEntry r).getLast? with
    | none => rfl
    | some a => rfl
  · simp only [if_neg hone]
    cases flat <;> cases (withEntry r).getLast? <;> rfl

theorem Walked.addDelta {done : List (List BasicDelta)} {r : List BasicDelta}
    (hruns : runs ds = done ++ [r]) (hsaved : x.saved = r.head?) (h : Walked t n done r x)
    (hy : Writer.addDelta t room x d = some y) :
    ∃ done' r', runs (ds ++ [d]) = done' ++ [r'] ∧ y.saved = r'.head? ∧ Walked t n done' r' y := by
  have hne : r ≠ [] := by
    have hnil := (splitBy_eq_iff.mp hruns).2.1
    rintro rfl
    simp at hnil
  obtain ⟨first, hfirst⟩ : ∃ first, r.head? = some first :=
    Option.isSome_iff_exists.mp (isSome_head?.mpr hne)
  obtain ⟨last, hlast⟩ : ∃ last, r.getLast? = some last :=
    ⟨_, getLast?_eq_some_getLast hne⟩
  rw [hfirst] at hsaved
  unfold Writer.addDelta at hy
  simp only [hsaved, Option.map_some, Option.some.injEq] at hy
  by_cases href : first.level.ref = d.level.ref
  · -- the run goes on
    rw [if_pos href] at hy
    obtain ⟨hkept, hwalked⟩ := h.addDeltaEntry hy
    refine ⟨done, r ++ [d], runs_concat_same hruns hfirst href, ?_, hwalked⟩
    rw [hkept, hsaved, head?_append_of_ne_nil _ hne, hfirst]
  -- the run is finished and the next begins
  rw [if_neg href] at hy
  obtain ⟨z, hz, hy⟩ := Option.bind_eq_some_iff.mp hy
  unfold nextLevel at hz
  rw [hsaved] at hz
  dsimp only at hz
  split at hz
  · cases hz
    have hmsg := @addDeltaLevel_eq t n r first last hfirst hlast false x.flat
      (fun hone => h.flat (ne_nil_of_length_eq_add_one hone)) done h.fits
    have hnext : Walked t n (done ++ [r]) [] { x with
        saved := some d
        entryCount := 0
        levels := x.levels ++ [addDeltaLevel t first.level first.plAction x.flat x.entryCount
          x.entries ++ addNumAttach x.entryCount] } := by
      refine ⟨fun habs => absurd rfl habs, rfl, Nat.zero_le _, ?_, ?_⟩
      · dsimp only
        have hrow : (done ++ [r] ++ [[]]).map (fun r => (deltaPart t false r).row) =
            (done ++ [r]).map (fun r => (deltaPart t false r).row) ++ [[]] := map_append
        rw [hrow, columns_nil, h.entries]
      · dsimp only
        rw [map_append, writtenFrom_append, ← h.levels, h.entryCount, h.entries]
        exact congrArg (fun m => x.levels ++ [m]) hmsg
    obtain ⟨hkept, hwalked⟩ := hnext.addDeltaEntry hy
    exact ⟨done ++ [r], [d], runs_concat_other hruns hfirst href, hkept, hwalked⟩
  · cases hz

theorem walked_of_loop (hne : ds ≠ [])
    (hx : ds.foldlM (Writer.addDelta t room) ⟨none, none, 0, columns [] n, []⟩ = some x) :
    ∃ done r, runs ds = done ++ [r] ∧ x.saved = r.head? ∧ Walked t n done r x := by
  induction ds using List.reverseRecOn generalizing x with
  | nil => exact absurd rfl hne
  | append_singleton ds d ih =>
    rw [foldlM_append] at hx
    obtain ⟨y, hy, hx⟩ := Option.bind_eq_some_iff.mp hx
    obtain ⟨z, hz, hx⟩ := Option.bind_eq_some_iff.mp hx
    obtain rfl : z = x := Option.some.inj hx
    by_cases hds : ds = []
    · subst hds
      obtain rfl : (⟨none, none, 0, columns [] n, []⟩ : DeltaLoop) = y := Option.some.inj hy
      have hfirst : Walked t n [] [] ⟨some d, none, 0, columns [] n, []⟩ := by
        refine ⟨fun habs => absurd rfl habs, rfl, Nat.zero_le _, ?_, rfl⟩
        exact (columns_nil [] n).symm
      obtain ⟨hkept, hwalked⟩ := hfirst.addDeltaEntry hz
      exact ⟨[], [d], rfl, hkept, hwalked⟩
    · obtain ⟨done, r, hruns, hsaved, hwalked⟩ := ih hds hy
      exact hwalked.addDelta hruns hsaved hz

theorem addLastLevel_eq {done : List (List BasicDelta)} {r : List BasicDelta}
    (h : Walked t n done r x) {first last : BasicDelta} (hfirst : r.head? = some first)
    (hlast : r.getLast? = some last) (hsaved : x.saved = some first)
    (hlevel : last.level = first.level) {levels : List LevelMsg} {main : LevelMsg}
    (hx : addLastLevel t room x last = some (levels, main)) :
    levels = writtenFrom [] ((done ++ [r]).map (deltaPart t false)) ∧
      main = if done = [] then (deltaPart t true r).msg
        (columns [(deltaPart t true r).row] (deltaPart t true r).row.length) else [] := by
  unfold addLastLevel at hx
  rw [hsaved] at hx
  dsimp only at hx
  split at hx
  · next hok =>
    have hflat : (withEntry r).length = 1 →
        (last.entry.map fun e => (last, e)) = (withEntry r).getLast? := by
      intro hone
      have hconcat := withEntry_concat r.dropLast last
      rw [dropLast_append_getLast? last hlast] at hconcat
      obtain ⟨e, he⟩ := Option.isSome_iff_exists.mp (hok.2 (h.entryCount.trans hone))
      rw [hconcat, he]
      simp
    have hmsg := @addDeltaLevel_eq t n r first last hfirst hlast false _ hflat done h.fits
    have hmain := @addDeltaLevel_eq t n r first last hfirst hlast true _ hflat done h.fits
    have hlen : x.levels.length = done.length := by rw [h.levels, length_writtenFrom, length_map]
    rw [hlevel, h.entryCount, h.entries, hlen] at hx
    obtain ⟨rfl, rfl⟩ := Prod.mk.inj (Option.some.inj hx)
    constructor
    · have hsplit : (done ++ [r]).map (deltaPart t false) =
          done.map (deltaPart t false) ++ [deltaPart t false r] := map_append
      rw [hsplit, writtenFrom_append, ← h.levels]
      exact congrArg (fun m => x.levels ++ [m]) hmsg
    · by_cases hdone : done = []
      · subst hdone; exact (append_nil _).symm.trans hmain
      · rw [if_neg hdone, if_neg fun hzero => hdone (eq_nil_of_length_eq_zero hzero)]
  · cases hx

end Loop

/-! ## A message -/

theorem proper_parts (c : Content) : ∀ p ∈ c.parts, p.Proper := by
  intro p hp
  cases c with
  | book b =>
    obtain ⟨l, -, rfl⟩ := mem_map.mp hp
    exact proper_bookPart b.bookTime l (b.shownEntries l)
  | delta x =>
    obtain ⟨r, -, rfl⟩ := mem_map.mp hp
    exact proper_deltaPart x.eventTime _ r

variable {w : Writer}

theorem levelParts_book {b : Book} {msg : BookMsg} (h : b.populateMsg w = some msg) :
    msg.levelParts = writtenFrom [] (Content.book b).parts := by
  by_cases ht : b.totalNumLevels = 0
  · have hmsg : b.populateMsg w = some [.numLevels 0] := by
      simp [Book.populateMsg, if_pos ht]
    rw [hmsg] at h
    rw [← Option.some.inj h, Content.parts, if_pos ht]
    rfl
  obtain ⟨-, -, rfl⟩ := (Book.populateMsg_iff ht w msg).mp h
  have hlevels := @levelMsgs_eq_writtenFrom b.bookTime b.shownEntries b.shownLevels []
  rw [Content.parts, if_neg ht]
  rw [map_nil] at hlevels
  rw [← hlevels]
  unfold Book.recapMsg BookMsg.levelParts
  by_cases hlen : b.shownLevels.length > 0
  · by_cases hpart : b.partId ≠ "" <;> simp [hlen]
  · have hnil : b.shownLevels = [] := eq_nil_of_length_eq_zero (by omega)
    by_cases hpart : b.partId ≠ "" <;> simp [hnil, hpart, levelMsgs]

theorem grow_clear_entries (w : Writer) (n : Nat) :
    grow n w.clear.entries = columns [] (max w.entries.length n) := by
  apply ext_getElem
  · simp [grow, clear, clearMsgs]; omega
  · intro k h₁ h₂; simp [grow, clear, clearMsgs, columns, column]

theorem levelParts_shape (x : ComplexDelta) (levels : List LevelMsg) (main : LevelMsg) :
    BookMsg.levelParts
      (main.map .level ++ (if levels.length > 1 then [.priceLevels levels] else []) ++
        [.numLevels ((levels.length % 2 ^ 32 : Nat) : Int), .bookTime x.eventTime,
          .srcTime x.srcTime] ++
        (if x.eventSeqNum ≠ 0 then [.seqNum x.eventSeqNum] else [])) =
      (if levels.length > 1 then levels else []) ++ if main = [] then [] else [main] := by
  unfold BookMsg.levelParts
  by_cases hlen : levels.length > 1 <;> by_cases hseq : x.eventSeqNum ≠ 0 <;>
    simp [hlen, hseq]

theorem last_run (x : ComplexDelta) {done : List (List BasicDelta)} {r : List BasicDelta}
    (hruns : runs x.deltas.toList = done ++ [r]) : ∃ first last, r.head? = some first ∧
    r.getLast? = some last ∧ x.deltas.toList.getLast? = some last ∧ last.level = first.level := by
  have hrne : r ≠ [] := by
    have hnil := (splitBy_eq_iff.mp hruns).2.1
    rintro rfl
    simp at hnil
  have hflat : x.deltas.toList = done.flatten ++ r := by
    rw [← flatten_splitBy (fun a b : BasicDelta => decide (a.level.ref = b.level.ref))
      x.deltas.toList]
    show (runs _).flatten = _
    simp [hruns]
  obtain ⟨first, hfirst⟩ : ∃ first, r.head? = some first :=
    Option.isSome_iff_exists.mp (isSome_head?.mpr hrne)
  obtain ⟨last, hlast⟩ : ∃ last, r.getLast? = some last := ⟨_, getLast?_eq_some_getLast hrne⟩
  have hmem : ∀ d ∈ r, d ∈ x.deltas.toList := fun d hd => by
    rw [hflat]; exact mem_append_right _ hd
  have hrun : r ∈ runs x.deltas.toList := by
    rw [hruns]; exact mem_append_right _ (mem_singleton_self r)
  have hlm := mem_of_mem_getLast? hlast
  refine ⟨first, last, hfirst, hlast, ?_, ?_⟩
  · rw [hflat, getLast?_append_of_ne_nil _ hrne, hlast]
  · exact x.onePerRef last (hmem last hlm) first (hmem first (mem_of_mem_head? hfirst))
      (ref_of_mem_run hrun hfirst hlm)

theorem levelParts_populateMsg {x : ComplexDelta} {msg : BookMsg} (h : x.populateMsg w = some msg) :
    msg.levelParts = writtenFrom [] (Content.delta x).parts := by
  obtain ⟨⟨levels, main⟩, hloop, rfl⟩ := Option.map_eq_some_iff.mp h
  rw [levelParts_shape]
  by_cases hsize : x.deltas.getSize > 0
  · rw [if_pos hsize, ComplexDelta.addLevels, grow_clear_entries] at hloop
    obtain ⟨y, hy, hloop⟩ := Option.bind_eq_some_iff.mp hloop
    obtain ⟨last, hlast, hloop⟩ := Option.bind_eq_some_iff.mp hloop
    have hne : x.deltas.toList ≠ [] := by
      intro hnil
      rw [hnil] at hlast
      cases hlast
    obtain ⟨done, r, hruns, hsaved, hwalked⟩ := walked_of_loop hne hy
    obtain ⟨first, last', hfirst, hlast', hlast'', hlevel⟩ := last_run x hruns
    obtain rfl : last' = last := Option.some.inj (hlast''.symm.trans hlast)
    obtain ⟨rfl, rfl⟩ := addLastLevel_eq hwalked hfirst hlast' (hsaved.trans hfirst) hlevel hloop
    rw [length_writtenFrom, length_map, Content.parts, if_pos hsize, hruns]
    by_cases hdone : done = []
    · subst hdone
      have hmain : (deltaPart x.eventTime true r).msg (columns [(deltaPart x.eventTime true r).row]
          (deltaPart x.eventTime true r).row.length) ≠ [] := by
        unfold Part.msg deltaPart
        simp only [hfirst, hlast']
        simp [addBookLevel]
      rw [if_pos rfl, if_neg hmain]
      rfl
    · have hlen : (done ++ [r]).length > 1 := by
        have hpos := length_pos_iff.mpr hdone
        rw [length_append, length_singleton]
        omega
      have honly : decide ((done ++ [r]).length = 1) = false := decide_eq_false (by omega)
      rw [if_pos hlen, if_neg hdone, if_pos rfl, append_nil, honly]
  · rw [if_neg hsize] at hloop
    obtain ⟨rfl, rfl⟩ := Prod.mk.inj (Option.some.inj hloop)
    rw [Content.parts, if_neg hsize]
    rfl

/-- What is sent for a level depends only on the level, and carries no field twice, iff the level
has at most one entry or no level before it in the message has any. -/
theorem independent_iff (c : Content) (w : Writer) (msg : BookMsg)
    (hmsg : c.populateMsg w = some msg) (i : Nat) (p : Part) (hp : c.parts[i]? = some p) :
    ∃ sub, msg.levelParts[i]? = some sub ∧
      (Independent p sub ↔ p.row.length ≤ 1 ∨ ∀ q ∈ c.parts.take i, q.row = []) := by
  have hparts : msg.levelParts = writtenFrom [] c.parts := by
    cases c with
    | book b => exact levelParts_book hmsg
    | delta x => exact levelParts_populateMsg hmsg
  refine ⟨_, hparts ▸ getElem?_writtenFrom c.parts i p hp, ?_⟩
  have hproper := proper_parts c
  refine independent_msg_iff (hproper p (mem_of_getElem? hp)) fun q hq => ?_
  exact hproper q (mem_of_mem_take hq)

/-- Two bids of two entries; of the four entries only the first has a status. -/
def twoByTwo : List EntryOp :=
  [.addEntry true .bid 11 { Entry.new ⟨9, 0⟩ "a" 5 .add .null none with status := 7 } .null,
    .addEntry true .bid 11 (Entry.new ⟨9, 1⟩ "b" 5 .add .null none) .null,
    .addEntry true .bid 10 (Entry.new ⟨9, 2⟩ "c" 5 .add .null none) .null,
    .addEntry true .bid 10 (Entry.new ⟨9, 3⟩ "d" 5 .add .null none) .null]

def fiveOf (id : String) : EntryMsg := [.entryId id, .entryAction .add, .entrySize 5]

def bidOfTwo (p : Price) (es : List EntryMsg) : LevelMsg :=
  [.plPrice p, .plSize 10, .plSizeChange 0, .plNumEntries 2, .plEntries es, .plNumAttach 2]

theorem twoByTwo_written :
    ∃ b msg, EntryOp.run (Book.start 0 (fun _ => true) false false) twoByTwo = some b ∧
      (Content.book b).populateMsg ⟨[], []⟩ = some msg ∧
      msg.levelParts = [bidOfTwo 11 [fiveOf "a" ++ [.entryStatus 7], fiveOf "b"],
        bidOfTwo 10 [fiveOf "a" ++ [.entryStatus 7] ++ fiveOf "c", fiveOf "b" ++ fiveOf "d"]] ∧
      (Content.book b).parts.map Part.alone =
        [bidOfTwo 11 [fiveOf "a" ++ [.entryStatus 7], fiveOf "b"],
          bidOfTwo 10 [fiveOf "c", fiveOf "d"]] := by
  have heval : ((EntryOp.run (Book.start 0 (fun _ => true) false false) twoByTwo).bind fun b =>
      ((Content.book b).populateMsg ⟨[], []⟩).map fun msg =>
        (msg.levelParts, (Content.book b).parts.map Part.alone)) = some
      ([bidOfTwo 11 [fiveOf "a" ++ [.entryStatus 7], fiveOf "b"],
        bidOfTwo 10 [fiveOf "a" ++ [.entryStatus 7] ++ fiveOf "c", fiveOf "b" ++ fiveOf "d"]],
        [bidOfTwo 11 [fiveOf "a" ++ [.entryStatus 7], fiveOf "b"],
          bidOfTwo 10 [fiveOf "c", fiveOf "d"]]) := by decide +kernel
  obtain ⟨b, hb, hmsg⟩ := Option.bind_eq_some_iff.mp heval
  obtain ⟨msg, hmsg, hboth⟩ := Option.map_eq_some_iff.mp hmsg
  exact ⟨b, msg, hb, hmsg, congrArg Prod.fst hboth, congrArg Prod.snd hboth⟩

theorem independent_twoByTwo : ∃ b msg p,
    EntryOp.run (Book.start 0 (fun _ => true) false false) twoByTwo = some b ∧
    (Content.book b).populateMsg ⟨[], []⟩ = some msg ∧ (Content.book b).parts[1]? = some p ∧ ∃ sub,
    msg.levelParts[1]? = some sub ∧
    (Independent p sub ↔ p.row.length ≤ 1 ∨ ∀ q ∈ (Content.book b).parts.take 1, q.row = []) := by
  obtain ⟨b, msg, hb, hmsg, -, halone⟩ := twoByTwo_written
  have hlen : (Content.book b).parts.length = 2 := by
    rw [← length_map Part.alone, halone]; rfl
  obtain ⟨p, hp⟩ : ∃ p, (Content.book b).parts[1]? = some p :=
    ⟨_, getElem?_eq_getElem (by omega)⟩
  exact ⟨b, msg, p, hb, hmsg, hp, independent_iff (.book b) ⟨[], []⟩ msg hmsg 1 p hp⟩

/-- The message of the entry "c" begins with the fields of "a", the status among them. -/
theorem second_bid_inherits :
    ∃ b msg p sub, EntryOp.run (Book.start 0 (fun _ => true) false false) twoByTwo = some b ∧
      (Content.book b).populateMsg ⟨[], []⟩ = some msg ∧ (Content.book b).parts[1]? = some p ∧
      msg.levelParts[1]? = some sub ∧ p.alone = bidOfTwo 10 [fiveOf "c", fiveOf "d"] ∧
      sub = bidOfTwo 10 [fiveOf "a" ++ [.entryStatus 7] ++ fiveOf "c", fiveOf "b" ++ fiveOf "d"] ∧
      ¬ FieldsOnce sub ∧ ¬ Independent p sub := by
  obtain ⟨b, msg, hb, hmsg, hsent, halone⟩ := twoByTwo_written
  have hp : (Content.book b).parts[1]?.map Part.alone =
      some (bidOfTwo 10 [fiveOf "c", fiveOf "d"]) := by
    rw [← getElem?_map, halone]
    rfl
  obtain ⟨p, hp, hpalone⟩ := Option.map_eq_some_iff.mp hp
  have htwice : ¬ FieldsOnce
      (bidOfTwo 10 [fiveOf "a" ++ [.entryStatus 7] ++ fiveOf "c", fiveOf "b" ++ fiveOf "d"]) := by
    intro h
    have hnodup := h.entries
      [fiveOf "a" ++ [.entryStatus 7] ++ fiveOf "c", fiveOf "b" ++ fiveOf "d"] (by simp [bidOfTwo])
    revert hnodup
    decide
  refine ⟨b, msg, p, _, hb, hmsg, hp, ?_, hpalone, rfl, htwice, fun h => htwice h.once⟩
  rw [hsent]
  rfl

end Writer

end Mamda

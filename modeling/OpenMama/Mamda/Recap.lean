import Mathlib.Data.List.Induction
import OpenMama.Mamda.Aggregation
import OpenMama.Mamda.ListenerFrame
import OpenMama.Mamda.ListenerLevels
import OpenMama.Mamda.OrderBookWriter
import OpenMama.Mamda.Linkage

/-!
# A recap, written and read

What the writer sends for a whole book and what a new listener makes of it.

The writer keeps a scratch message for each position an entry can have in a
level, and does not empty it from one level to the next.  So the message of an
entry begins with the fields of the entries that the levels before had at that
position (`slotHistory`), and where its own fields are left out for a default
(a status of zero, the time of the level) the listener reads the last of theirs.
-/

namespace Mamda

open Mama Lib List

variable {n : Nat}
variable {k : Nat}

namespace Writer

/-! ## The scratch messages -/

section Scratch

variable (shown : PriceLevel → List Entry)

/-- The entries that levels have had at position `k`, each with the time of its level. -/
def slotHistory (ls : List PriceLevel) (k : Nat) : List (DateTime × Entry) :=
  ls.filterMap fun l => (sized (shown l))[k]?.map fun e => (l.time, e)

/-- What the scratch message holds after these entries. -/
def slotMsg (h : List (DateTime × Entry)) : EntryMsg := h.flatMap fun a => addBookEntry a.2 .add a.1

/-- The scratch messages, `n` in number, after these levels. -/
def scratch (ls : List PriceLevel) (n : Nat) : List EntryMsg :=
  (List.range n).map fun k => slotMsg (slotHistory shown ls k)

variable {shown}

theorem slotHistory_concat (ls : List PriceLevel) (l : PriceLevel) (k : Nat) :
    slotHistory shown (ls ++ [l]) k =
      slotHistory shown ls k ++ ((sized (shown l))[k]?.map fun e => (l.time, e)).toList := by
  rw [slotHistory, filterMap_append]
  congr 1

theorem slotMsg_append (h h' : List (DateTime × Entry)) :
    slotMsg (h ++ h') = slotMsg h ++ slotMsg h' := flatMap_append

theorem slotHistory_eq_nil {ls : List PriceLevel} (h : ∀ l ∈ ls, (sized (shown l)).length ≤ k) :
    slotHistory shown ls k = [] := by
  refine filterMap_eq_nil_iff.mpr fun l hl => ?_
  rw [getElem?_eq_none (h l hl)]
  rfl

theorem clearMsgs_eq_scratch (msgs : List EntryMsg) :
    clearMsgs msgs = scratch shown [] msgs.length := by
  apply ext_getElem
  · simp [clearMsgs, scratch]
  · intro i h₁ h₂; simp [clearMsgs, scratch, slotHistory, slotMsg]

theorem grow_scratch {ls : List PriceLevel} (h : ∀ l ∈ ls, (sized (shown l)).length ≤ n) (m : Nat) :
    grow m (scratch shown ls n) = scratch shown ls (max n m) := by
  apply ext_getElem
  · simp [grow, scratch]; omega
  intro i h₁ h₂
  by_cases hi : i < n
  · simp [grow, scratch, hi]
  · have hnil : slotHistory shown ls i = [] :=
      slotHistory_eq_nil fun l hl => (h l hl).trans (by omega)
    have hlen : (scratch shown ls n).length ≤ i := by
      simp [scratch]; omega
    simp only [grow, getElem_append_right hlen]
    simp [scratch, hnil, slotMsg]

theorem addEntryMsgs_eq (pt : DateTime) (es : List Entry) : ∀ msgs : List EntryMsg,
    addEntryMsgs pt msgs es =
      if es.length ≤ msgs.length then
        some (msgs.mapIdx fun k msg => msg ++ (es[k]?).elim [] (addBookEntry · .add pt))
      else none := by
  induction es with
  | nil =>
    intro msgs
    rw [addEntryMsgs]
    congr 1
    apply ext_getElem <;> simp
  | cons e es ih =>
    intro msgs
    cases msgs with
    | nil => rfl
    | cons msg msgs =>
      rw [addEntryMsgs, ih msgs]
      by_cases hlen : es.length ≤ msgs.length
      · rw [if_pos hlen, if_pos (by simpa using hlen)]; simp [mapIdx_cons]
      · rw [if_neg hlen, if_neg (by simpa using hlen)]; rfl

theorem addEntryMsgs_scratch (ls : List PriceLevel) (l : PriceLevel) (n : Nat) :
    addEntryMsgs l.time (scratch shown ls n) (sized (shown l)) =
      if (sized (shown l)).length ≤ n then some (scratch shown (ls ++ [l]) n) else none := by
  have hlen : (scratch shown ls n).length = n := by simp [scratch]
  rw [addEntryMsgs_eq]
  congr 2
  apply ext_getElem
  · simp [scratch]
  · intro i h₁ h₂
    simp only [scratch, getElem_mapIdx, getElem_map, getElem_range, slotHistory_concat]
    cases (sized (shown l))[i]? <;> simp [slotMsg]

end Scratch

/-! ## The level messages -/

section Levels

variable (bookTime : DateTime) (shown : PriceLevel → List Entry)

/-- The message of a level after the levels `earlier`. -/
def levelMsg (earlier : List PriceLevel) (l : PriceLevel) : LevelMsg :=
  addBookLevel l .add bookTime ++
    levelEntryFields l (shown l) (scratch shown (earlier ++ [l]) (sized (shown l)).length)

def levelMsgs : List PriceLevel → List PriceLevel → List LevelMsg
  | _, [] => []
  | earlier, l :: ls => levelMsg bookTime shown earlier l :: levelMsgs (earlier ++ [l]) ls

/-- The scratch messages, `n` at first, reach for the entries of every level: they are grown to
the counter of the level. -/
def HasRoom : Nat → List PriceLevel → Prop
  | _, [] => True
  | n, l :: ls => (sized (shown l)).length ≤ max n l.numEntriesTotal ∧
      HasRoom (max n l.numEntriesTotal) ls

variable {bookTime shown}

section

variable (ls : List PriceLevel)

theorem levelEntryFields_scratch (l : PriceLevel)
    (h : (sized (shown l)).length ≤ n) : levelEntryFields l (shown l) (scratch shown ls n) =
      levelEntryFields l (shown l) (scratch shown ls (sized (shown l)).length) := by
  have htake : (scratch shown ls n).take (sized (shown l)).length =
      (scratch shown ls (sized (shown l)).length).take (sized (shown l)).length := by
    simp [scratch, ← map_take, h]
  unfold levelEntryFields
  dsimp only
  rw [htake]

theorem addLevelMsgs_eq : ∀ (earlier : List PriceLevel) (n : Nat),
    (∀ l ∈ earlier, (sized (shown l)).length ≤ n) → ∀ msgs,
    addLevelMsgs bookTime shown (scratch shown earlier n) ls = some msgs ↔
      HasRoom shown n ls ∧ msgs = levelMsgs bookTime shown earlier ls := by
  induction ls with
  | nil => intro earlier n _ msgs; simp [addLevelMsgs, HasRoom, levelMsgs]
  | cons l ls ih =>
    intro earlier n hn msgs
    rw [addLevelMsgs, addBookLevelEntries, grow_scratch hn, addEntryMsgs_scratch]
    by_cases hroom : (sized (shown l)).length ≤ max n l.numEntriesTotal
    · have hn' : ∀ l' ∈ earlier ++ [l], (sized (shown l')).length ≤ max n l.numEntriesTotal := by
        intro l' hl'
        rcases mem_append.mp hl' with hl' | hl'
        · exact (hn l' hl').trans (le_max_left _ _)
        · rwa [mem_singleton.mp hl']
      have hih := ih (earlier ++ [l]) _ hn'
      rw [if_pos hroom]
      simp only [Option.map_some, Option.bind_eq_bind, Option.bind_some, Option.bind_eq_some_iff,
        Option.pure_def, Option.some.injEq, hih,
        levelEntryFields_scratch _ l hroom]
      constructor
      · rintro ⟨rest, ⟨hr, rfl⟩, rfl⟩; exact ⟨⟨hroom, hr⟩, rfl⟩
      · rintro ⟨⟨-, hr⟩, rfl⟩; exact ⟨_, ⟨hr, rfl⟩, rfl⟩
    · rw [if_neg hroom]; simp [HasRoom, hroom]

theorem length_levelMsgs : ∀ earlier : List PriceLevel,
    (levelMsgs bookTime shown earlier ls).length = ls.length := by
  induction ls with
  | nil => exact fun _ => rfl
  | cons l ls ih => exact fun earlier => congrArg (· + 1) (ih (earlier ++ [l]))

theorem take_levelMsgs : ∀ (earlier : List PriceLevel) (n : Nat),
    (levelMsgs bookTime shown earlier ls).take n =
      levelMsgs bookTime shown earlier (ls.take n) := by
  induction ls with
  | nil => simp [levelMsgs]
  | cons l ls ih =>
    intro earlier n
    cases n with
    | zero => rfl
    | succ n => rw [levelMsgs, take_succ_cons, ih, take_succ_cons, levelMsgs]

end

end Levels

/-! ## The entries a level message carries -/

/-- The entries the message of a level carries, each after those whose fields its message begins
with: a single entry is flattened into the message of the level, which begins empty. -/
def slots (shown : PriceLevel → List Entry) (earlier : List PriceLevel) (l : PriceLevel) :
    List (List (DateTime × Entry) × Entry) :=
  if (sized (shown l)).length = 1 then (shown l).getLast?.toList.map fun e => ([], e)
  else (sized (shown l)).mapIdx fun k e => (slotHistory shown earlier k, e)

theorem scratch_eq_slots {shown : PriceLevel → List Entry} (earlier : List PriceLevel)
    {l : PriceLevel} (h : (sized (shown l)).length ≠ 1) :
    scratch shown (earlier ++ [l]) (sized (shown l)).length =
      (slots shown earlier l).map fun a => slotMsg (a.1 ++ [(l.time, a.2)]) := by
  rw [slots, if_neg h]
  apply ext_getElem
  · simp [scratch]
  · intro i h₁ h₂
    have hi : i < (sized (shown l)).length := by simpa [scratch] using h₁
    simp [scratch, slotHistory_concat, getElem?_eq_getElem hi]

/-! ## What a listener reads in an entry message -/

/-- The last time among the entries that differs from that of its level. -/
def slotTime (t : DateTime) (h : List (DateTime × Entry)) : DateTime :=
  h.foldl (fun t a => if a.1.compare a.2.time ≠ 0 then a.2.time else t) t

/-- The last status among the entries that is not zero. -/
def slotStatus (n : UInt16) (h : List (DateTime × Entry)) : UInt16 :=
  h.foldl (fun n a => if a.2.status ≠ 0 then a.2.status else n) n

theorem walk_addBookEntry (f : BookMsgFields) (e : Entry) (pt : DateTime) :
    (addBookEntry e .add pt).foldl (BookMsgFields.onEntryField true) f =
      { f with
        entryId := some e.id
        entryAction := .add
        entrySize := e.size % 2 ^ 32
        entryTime := if pt.compare e.time ≠ 0 then e.time else f.entryTime
        entryStatus := if e.status ≠ 0 then e.status else f.entryStatus } := by
  unfold addBookEntry
  by_cases ht : pt.compare e.time ≠ 0 <;> by_cases hst : e.status ≠ 0 <;>
    simp [ht, hst, BookMsgFields.onEntryField]

/-- Of all the entries in a scratch message the last decides, but for a time and a status that
it leaves out. -/
theorem walk_slotMsg (f : BookMsgFields) (h : List (DateTime × Entry)) (pt : DateTime)
    (e : Entry) :
    (slotMsg (h ++ [(pt, e)])).foldl (BookMsgFields.onEntryField true) f =
      { f with
        entryId := some e.id
        entryAction := .add
        entrySize := e.size % 2 ^ 32
        entryTime := slotTime f.entryTime (h ++ [(pt, e)])
        entryStatus := slotStatus f.entryStatus (h ++ [(pt, e)]) } := by
  have hall : ∀ (h : List (DateTime × Entry)) (f : BookMsgFields), ∃ i a n,
      (slotMsg h).foldl (BookMsgFields.onEntryField true) f =
        { f with entryId := i, entryAction := a, entrySize := n,
                 entryTime := slotTime f.entryTime h, entryStatus :=
                   slotStatus f.entryStatus h } := by
    intro h
    induction h with
    | nil => exact fun f => ⟨_, _, _, rfl⟩
    | cons a h ih =>
      intro f
      obtain ⟨i, c, n, heq⟩ := ih ((addBookEntry a.2 .add a.1).foldl
        (BookMsgFields.onEntryField true) f)
      refine ⟨i, c, n, ?_⟩
      show (addBookEntry a.2 .add a.1 ++ slotMsg h).foldl _ f = _
      rw [foldl_append, heq, walk_addBookEntry]
      rfl
  obtain ⟨i, c, n, heq⟩ := hall h f
  rw [slotMsg_append, foldl_append, heq]
  show (addBookEntry e .add pt ++ []).foldl _ _ = _
  rw [append_nil, walk_addBookEntry]
  simp [slotTime, slotStatus]

end Writer

/-! ## Reading the entries of a level -/

def Entry.recap (e : Entry) : String × Nat × UInt16 := (e.id, e.size, e.status)

variable {t : DateTime} {y : Listener}
variable {e : Entry}

namespace Listener

open Writer

def laterTime (hasPlTime : Bool) (t entryTime : DateTime) : DateTime :=
  if hasPlTime = false ∧ 0 < entryTime.compare t then entryTime else t

/-- The time of an entry: that of its level, if it has none. -/
def readTime (plTime t : DateTime) : DateTime := if t.empty then plTime else t

theorem noteSizes_given {f : BookMsgFields} (hsize : f.hasPlSize) (hchange : f.hasPlSizeChange)
    (l : PriceLevel) (e : Entry) (new : Bool) : noteSizes f l e new = f := by
  simp [noteSizes, hsize, hchange]

theorem time_changedLevel (f : BookMsgFields) (l : PriceLevel) (e : Entry) :
    (changedLevel f l e).time = laterTime f.hasPlTime l.time f.entryTime := by
  unfold changedLevel laterTime
  dsimp only
  split <;> rfl

variable {id : String}

theorem findEntry_eq_none {l : PriceLevel} (h : id ∉ l.entryList.map Entry.id) :
    l.findEntry id = none := by
  refine find?_eq_none.mpr fun e he heq => h ?_
  exact mem_map.mpr ⟨e, he, beq_iff_eq.mp heq⟩

section Entries

variable {b₀ : Book} {x : Listener} {s : BookSide} {p : Price} {l : PriceLevel}
variable {F : BookMsgFields}

theorem processEntrySubMsg_new (h : b₀.InHand x.book s p true l) (pa : Action)
    (hproc : x.processesEntries) (hclear : F.clearEntry = F) (hsize : F.hasPlSize)
    (hchange : F.hasPlSizeChange) {msg : EntryMsg} {st : UInt16}
    (hwalk : msg.foldl (BookMsgFields.onEntryField true) x.fields = { F with entryId := some id,
                                                                             entryAction :=
                                                                               .add, entrySize :=
                                                                                 n, entryTime :=
                                                                                   t, entryStatus :=
                                                                                     st })
    (hid : id ≠ "") (hno : id ∉ l.entryList.map Entry.id) :
    ∃ b d l', processEntrySubMsg pa (x, l) msg =
        ({ x with fields := F, book := b, deltas := d, haveEntries := true }, l') ∧
      b₀.InHand b s p true l' ∧
      l'.entryList.map Entry.recap = l.entryList.map Entry.recap ++ [(id, n, st)] ∧
      l'.time = laterTime F.hasPlTime l.time (readTime F.plTime t) := by
  -- the fields once the time is filled in
  let G : BookMsgFields := { F with
    entryId := some id, entryAction := .add, entrySize := n, entryTime := readTime F.plTime t,
    entryStatus := st }
  have hG : x.fields.processEntryMessage x.takesEntries msg = G := by
    have htakes : x.takesEntries := by simp [takesEntries, hproc]
    rw [htakes, BookMsgFields.processEntryMessage, hwalk]
    by_cases ht : t.empty <;> simp [G, readTime, ht]
  have hin : b₀.InHand { x with fields := G }.book s p true l := h
  have hadd : G.entryAction ≠ .delete := by
    show Action.add ≠ Action.delete; decide
  obtain ⟨b, hb, hin', hlist⟩ := processEntry_new hin pa rfl hid hadd (findEntry_eq_none hno)
  have hsame : ∀ l' e', noteSizes G l' e' true = G := fun l' e' =>
    @noteSizes_given G hsize hchange l' e' true
  have hback : G.clearEntry = F := hclear
  rw [hsame] at hb hin' hlist
  have hstep : processEntrySubMsg pa (x, l) msg =
      ({ ({ x with fields := G }.processEntry l pa).1 with
          fields := ({ x with fields := G }.processEntry l pa).1.fields.clearEntry },
        ({ x with fields := G }.processEntry l pa).2) := by
    rw [processEntrySubMsg, hG]
  rw [hb] at hstep
  rw [hback] at hstep
  refine ⟨b, _, _, hstep, hin', ?_, ?_⟩
  · rw [hlist, map_append]; rfl
  · rw [time_changedLevel]; rfl

/-- What is read of an entry and of the message it comes in. -/
def slotEntry (pt : DateTime) (a : List (DateTime × Entry) × Entry) : String × Nat × UInt16 :=
  (a.2.id, a.2.size % 2 ^ 32, slotStatus 0 (a.1 ++ [(pt, a.2)]))

def slotsTime (hasPlTime : Bool) (plTime pt t : DateTime)
    (as : List (List (DateTime × Entry) × Entry)) : DateTime :=
  as.foldl
    (fun t a => laterTime hasPlTime t (readTime plTime (slotTime .null (a.1 ++ [(pt, a.2)]))))
    t

theorem foldl_processEntrySubMsg (pa : Action) (pt : DateTime) (hclear : F.clearEntry = F)
    (hsize : F.hasPlSize) (hchange : F.hasPlSizeChange)
    (as : List (List (DateTime × Entry) × Entry)) :
    ∀ {x : Listener} {l : PriceLevel}, b₀.InHand x.book s p true l → x.processesEntries →
      x.fields = F → (∀ a ∈ as, a.2.id ≠ "") →
      (l.entryList.map Entry.id ++ as.map fun a => a.2.id).Nodup →
    ∃ b d he l', (as.map fun a => slotMsg (a.1 ++ [(pt, a.2)])).foldl
      (processEntrySubMsg pa) (x, l) =
        ({ x with book := b, deltas := d, haveEntries := he }, l') ∧
      b₀.InHand b s p true l' ∧
      l'.entryList.map Entry.recap = l.entryList.map Entry.recap ++ as.map (slotEntry pt) ∧
      l'.time = slotsTime F.hasPlTime F.plTime pt l.time as := by
  induction as with
  | nil => intro x l h _ _ _ _; exact ⟨_, _, _, l, rfl, h, (append_nil _).symm, rfl⟩
  | cons a as ih =>
    intro x l h hproc hF hid hnd
    have hno : a.2.id ∉ l.entryList.map Entry.id := by
      intro hmem; exact (nodup_append.mp hnd).2.2 _ hmem a.2.id (by simp) rfl
    have hwalk := walk_slotMsg F a.1 pt a.2
    have hnull : F.entryTime = .null ∧ F.entryStatus = 0 := by
      rw [← hclear]; exact ⟨rfl, rfl⟩
    rw [hnull.1, hnull.2] at hwalk
    nth_rewrite 1 [← hF] at hwalk
    obtain ⟨b, d, l₁, hstep, hin, hmap, htime⟩ := processEntrySubMsg_new h pa hproc hclear hsize
      hchange hwalk (hid a mem_cons_self) hno
    have hnd' : (l₁.entryList.map Entry.id ++ as.map fun a => a.2.id).Nodup := by
      have hids : l₁.entryList.map Entry.id = l.entryList.map Entry.id ++ [a.2.id] := by
        have hfst := congrArg (List.map Prod.fst) hmap
        rwa [map_append, map_map, map_map] at hfst
      rwa [hids, append_assoc]
    obtain ⟨b', d', he, l', hrest, hin', hmap', htime'⟩ :=
      @ih { x with fields := F, book := b, deltas := d, haveEntries := true } l₁ hin hproc rfl
        (fun a' ha' => hid a' (mem_cons_of_mem _ ha')) hnd'
    refine ⟨b', d', he, l', ?_, hin', ?_, ?_⟩
    · rw [map_cons, foldl_cons, hstep, hrest, ← hF]
    · rw [hmap', hmap, append_assoc]; rfl
    · rw [htime', htime]; rfl

end Entries

/-! ## Reading a level -/

/-- The number of entries that a listener takes from the message of a level with `n`. -/
def attached (n : Nat) : Nat := if toI16 n = 1 then n else getU32 (toI16 n)

def recapFields (f : BookMsgFields) (bookTime : DateTime) (l : PriceLevel) : BookMsgFields :=
  { f.clearPriceLevel with
    plPrice := roundPrice l.price
    plSide := l.side
    plSize := (l.size % 2 ^ 32 : Nat)
    hasPlSize := true
    plSizeChange := (l.sizeChange % 2 ^ 32 : Nat)
    hasPlSizeChange := true
    plTime := if bookTime.compare l.time ≠ 0 then l.time else bookTime
    hasPlTime := decide (bookTime.compare l.time ≠ 0)
    plNumEntries := if l.numEntries ≠ 1 then l.numEntries % 2 ^ 16 else 1
    entries := [] }

section Level

variable {f : BookMsgFields} {bookTime : DateTime} {shown : PriceLevel → List Entry}
  {earlier : List PriceLevel} {l : PriceLevel}

theorem walk_addBookLevel (f : BookMsgFields) (bookTime : DateTime) (l : PriceLevel) :
    (addBookLevel l .add bookTime).foldl (BookMsgFields.onLevelField true)
        { f.clearPriceLevel with entryVector := none, entries := [] } =
      { recapFields f bookTime l with
        plTime := if bookTime.compare l.time ≠ 0 then l.time else .null } := by
  unfold addBookLevel
  by_cases ht : bookTime.compare l.time ≠ 0 <;> by_cases hs : l.side ≠ .bid <;>
    by_cases hn : l.numEntries ≠ 1 <;>
    simp_all [BookMsgFields.onLevelField, recapFields, BookMsgFields.clearPriceLevel]

theorem default_plTime {f : BookMsgFields} (hbt : f.bookTime = bookTime)
    (hhas : f.hasPlTime = decide (bookTime.compare t ≠ 0))
    (ht : f.plTime = if bookTime.compare t ≠ 0 then t else .null) :
    (if !f.hasPlTime && !f.bookTime.empty then { f with plTime := f.bookTime } else f) =
      { f with plTime := if bookTime.compare t ≠ 0 then t else bookTime } := by
  subst hbt
  have hself : ∀ t', f.plTime = t' → f = { f with plTime := t' } := fun t' h => h ▸ rfl
  by_cases hc : f.bookTime.compare t ≠ 0
  · rw [if_neg (by simp [hhas, hc]), if_pos hc]; exact hself t (by rw [ht, if_pos hc])
  · rw [if_neg hc]
    by_cases he : f.bookTime.empty
    · rw [if_neg (by simp [he])]
      exact hself f.bookTime (by rw [ht, if_neg hc, (DateTime.empty_iff _).mp he])
    · rw [if_pos (by simp [hhas, hc, he])]

theorem processLevelMessage_many (hbt : f.bookTime = bookTime)
    (hn : 1 < (sized (shown l)).length) :
    f.clearPriceLevel.processLevelMessage true (levelMsg bookTime shown earlier l) =
      { recapFields f bookTime l with
        entryVector := some ((slots shown earlier l).map fun a => slotMsg (a.1 ++ [(l.time, a.2)]))
        plNumAttach := attached (sized (shown l)).length } := by
  have hlen : (scratch shown (earlier ++ [l]) (sized (shown l)).length).length =
      (sized (shown l)).length := by simp [scratch]
  have htake : (scratch shown (earlier ++ [l]) (sized (shown l)).length).take
      (sized (shown l)).length = scratch shown (earlier ++ [l]) (sized (shown l)).length :=
    take_of_length_le hlen.le
  have hfields : levelEntryFields l (shown l)
      (scratch shown (earlier ++ [l]) (sized (shown l)).length) =
        [.plEntries (scratch shown (earlier ++ [l]) (sized (shown l)).length)] ++
          if toI16 (sized (shown l)).length ≠ 1 then
            [.plNumAttach (toI16 (sized (shown l)).length)] else [] := by
    unfold levelEntryFields
    dsimp only
    rw [htake, if_pos hn]
    split <;> simp [Nat.ne_of_gt hn]
  rw [← scratch_eq_slots earlier (Nat.ne_of_gt hn), levelMsg, hfields]
  rw [BookMsgFields.processLevelMessage, foldl_append, walk_addBookLevel]
  by_cases hone : toI16 (sized (shown l)).length = 1
  · rw [if_neg (not_not.mpr hone)]
    refine (default_plTime (t := l.time) ?_ rfl rfl).trans ?_
    · exact hbt
    simp [BookMsgFields.onLevelField, recapFields, attached, hone, hlen]
  · rw [if_pos hone]
    refine (default_plTime (t := l.time) ?_ rfl rfl).trans ?_
    · exact hbt
    simp [BookMsgFields.onLevelField, recapFields, attached, hone]

/-- The fields after the message of a level with one entry, `e` being the last the level shows. -/
theorem processLevelMessage_one (hbt : f.bookTime = bookTime) (hclear : f.clearEntry = f)
    (hn : (sized (shown l)).length = 1) (he : (shown l).getLast? = some e) :
    f.clearPriceLevel.processLevelMessage true (levelMsg bookTime shown earlier l) =
      { recapFields f bookTime l with
        entryId := some e.id
        entryAction := .add
        entrySize := e.size % 2 ^ 32
        entryTime := slotTime .null [(l.time, e)]
        entryStatus := slotStatus 0 [(l.time, e)] } := by
  have hfields : levelEntryFields l (shown l)
      (scratch shown (earlier ++ [l]) (sized (shown l)).length) =
        (addBookEntry e .add l.time).map .entry := by
    rw [levelEntryFields, he, hn]
    simp [toI16]
  have hnull : f.entryTime = .null ∧ f.entryStatus = 0 := by
    rw [← hclear]; exact ⟨rfl, rfl⟩
  have hwalk : ∀ g : BookMsgFields,
      ((addBookEntry e .add l.time).map LevelField.entry).foldl (BookMsgFields.onLevelField true)
        g =
        (addBookEntry e .add l.time).foldl (BookMsgFields.onEntryField true) g := by
    intro g
    rw [foldl_map]
    rfl
  rw [levelMsg, hfields]
  rw [BookMsgFields.processLevelMessage, foldl_append, walk_addBookLevel, hwalk, walk_addBookEntry]
  refine (default_plTime (t := l.time) ?_ rfl rfl).trans ?_
  · exact hbt
  · simp [recapFields, BookMsgFields.clearPriceLevel, slotTime, slotStatus, hnull.1, hnull.2]

/-- The entries have been read into a level that was new. -/
def EntriesRead (b₀ : Book) (x : Listener) (s : BookSide) (p : Price) (pt t : DateTime)
    (as : List (List (DateTime × Entry) × Entry)) (r : Handled (Listener × PriceLevel)) : Prop :=
  ∃ b d he l', r = .ok ({ x with
      fields := x.fields.clearEntry, book := b, deltas := d, haveEntries := he }, l') ∧
    b₀.InHand b s p true l' ∧ l'.entryList.map Entry.recap = as.map (slotEntry pt) ∧
    l'.time = slotsTime x.fields.hasPlTime x.fields.plTime pt t as

section ProcessEntries

variable {b₀ : Book} {x : Listener} {s : BookSide} {p : Price} {l₁ : PriceLevel} {pt : DateTime}
  {as : List (List (DateTime × Entry) × Entry)}

theorem processEntries_many (h : b₀.InHand x.book s p true l₁) (hnil : l₁.entryList = [])
    (hproc : x.processesEntries) (htype : x.fields.bookType = 0)
    (hclear : x.fields.clearEntry = x.fields) (hsize : x.fields.hasPlSize)
    (hchange : x.fields.hasPlSizeChange)
    (hv : x.fields.entryVector = some (as.map fun a => slotMsg (a.1 ++ [(pt, a.2)])))
    (hattach : x.fields.plNumAttach = n) (hid : ∀ a ∈ as, a.2.id ≠ "")
    (hnd : (as.map fun a => a.2.id).Nodup) :
    if n ≤ as.length then EntriesRead b₀ x s p pt l₁.time (as.take n) (x.processEntries l₁ .add)
    else x.processEntries l₁ .add = .error .crash := by
  subst hattach
  have honly : ¬ x.levelsOnly := by simp [levelsOnly_eq_false hproc htype]
  rw [processEntries, if_neg honly]
  by_cases hzero : x.fields.plNumAttach = 0
  · rw [hzero]
    refine ⟨x.book, (x.addDelta none l₁ .add .unknown).deltas, x.haveEntries, l₁, ?_, h,
      by rw [hnil]; rfl, rfl⟩
    rw [hclear]
    rfl
  rw [hv]
  dsimp only
  rw [length_map]
  split
  · have hsub : ∀ a ∈ as.take x.fields.plNumAttach, a ∈ as := fun a ha => mem_of_mem_take ha
    have hnd' : (l₁.entryList.map Entry.id ++
        (as.take x.fields.plNumAttach).map fun a => a.2.id).Nodup := by
      rw [hnil]
      exact hnd.sublist ((take_sublist _ _).map _)
    obtain ⟨b, d, he, l', hfold, hin, hmap, htime⟩ := foldl_processEntrySubMsg .add pt hclear
      hsize hchange (as.take x.fields.plNumAttach) h hproc rfl (fun a ha => hid a (hsub a ha)) hnd'
    refine ⟨b, d, he, l', ?_, hin, ?_, htime⟩
    · rw [← map_take, hfold, hclear]
    · rw [hmap, hnil]; rfl
  · rfl

theorem processEntries_one (h : b₀.InHand x.book s p true l₁) (hnil : l₁.entryList = [])
    (hproc : x.processesEntries) (htype : x.fields.bookType = 0) (hsize : x.fields.hasPlSize)
    (hchange : x.fields.hasPlSizeChange) (hattach : x.fields.plNumAttach = 1)
    (hv : x.fields.entryVector = none) (hentries : x.fields.entries = [])
    (hid : x.fields.entryId = some e.id) (hne : e.id ≠ "") (haction : x.fields.entryAction = .add)
    (hn : x.fields.entrySize = e.size % 2 ^ 32) (ht : x.fields.entryTime = slotTime .null [(pt, e)])
    (hst : x.fields.entryStatus = slotStatus 0 [(pt, e)]) :
    EntriesRead b₀ x s p pt l₁.time [([], e)] (x.processEntries l₁ .add) := by
  have honly : ¬ x.levelsOnly := by simp [levelsOnly_eq_false hproc htype]
  -- the flattened entry is handled like an entry message that has no more fields
  have hsame : x.processEntries l₁ .add = .ok (processEntrySubMsg .add (x, l₁) []) := by
    rw [processEntries, if_neg honly, if_neg (by rw [hattach]; decide), hv]
    rw [if_pos ⟨hentries, by rw [hid]; exact Option.some_ne_none _⟩]
    rfl
  have hwalk : ([] : EntryMsg).foldl (BookMsgFields.onEntryField true) x.fields =
      { x.fields.clearEntry with
        entryId := some e.id, entryAction := .add, entrySize := e.size % 2 ^ 32,
        entryTime := slotTime .null [(pt, e)], entryStatus := slotStatus 0 [(pt, e)] } := by
    rw [← hid, ← haction, ← hn, ← ht, ← hst]
    rfl
  obtain ⟨b, d, l', hstep, hin, hmap, htime⟩ := processEntrySubMsg_new (F := x.fields.clearEntry) h
    .add hproc rfl hsize hchange hwalk hne (by rw [hnil]; exact not_mem_nil)
  refine ⟨b, d, true, l', ?_, hin, ?_, htime⟩
  · rw [hsame, hstep]
  · rw [hmap, hnil]; rfl

end ProcessEntries

theorem processLevelPart2_plain {x : Listener} (hproc : x.processesEntries)
    (htype : x.fields.bookType = 0) (l : PriceLevel) :
    x.processLevelPart2 l = { x with
      book := x.book.storeLevel
        ((l.setSize x.fields.plSize).setNumEntries x.fields.plNumEntries) } := by
  simp [processLevelPart2, levelsOnly, hproc, htype]

structure Recapping (bookTime : DateTime) (x : Listener) : Prop where
  processes : x.processesEntries
  bookType : x.fields.bookType = 0
  bookTime : x.fields.bookTime = bookTime
  noEntry : x.fields.clearEntry = x.fields

/-- The level `l'` is what the message of the level `l` says, with the entries `as`. -/
structure Decoded (bookTime : DateTime) (l : PriceLevel)
    (as : List (List (DateTime × Entry) × Entry)) (l' : PriceLevel) : Prop where
  size : l'.size = l.size % 2 ^ 32
  entries : l'.entryList.map Entry.recap = as.map (slotEntry l.time)
  time : l'.time = slotsTime (decide (bookTime.compare l.time ≠ 0))
    (if bookTime.compare l.time ≠ 0 then l.time else bookTime) l.time
    (if bookTime.compare l.time ≠ 0 then l.time else bookTime) as

/-- The listener `y` is `x` after a level message that has put `l'` into the book. -/
structure LevelRead (bookTime : DateTime) (x y : Listener) (s : BookSide) (p : Price)
    (l' : PriceLevel) : Prop where
  recapping : Recapping bookTime y
  found : ∀ t q, y.book.findLevel t q =
    if t = s ∧ q = p then some l' else x.book.findLevel t q

theorem levelRead_of_entriesRead {x x₁ : Listener} (hx : Recapping bookTime x) {s : BookSide}
    (hproc : x₁.processesEntries) {v : Option (List EntryMsg)}
    (hrecap : x₁.fields.clearEntry = BookMsgFields.clearEntry { recapFields x.fields bookTime l
      with plAction := .add, entryVector := v, plNumAttach := k })
    {as : List (List (DateTime × Entry) × Entry)} {r : Handled (Listener × PriceLevel)}
    (hr : EntriesRead x.book x₁ s l.price l.time
      (if bookTime.compare l.time ≠ 0 then l.time else bookTime) as r) :
    ∃ y l', (do let (x, l) ← r; pure (x.processLevelPart2 l)) = .ok y ∧
      LevelRead bookTime x y s l.price l' ∧ Decoded bookTime l as l' := by
  obtain ⟨b, d, he, l', rfl, hin, hmap, htime⟩ := hr
  let x₂ : Listener := { x₁ with
    fields := x₁.fields.clearEntry, book := b, deltas := d, haveEntries := he }
  have htype : x₂.fields.bookType = 0 := by
    show x₁.fields.clearEntry.bookType = 0
    rw [hrecap]
    exact hx.bookType
  have hfields : x₁.fields.hasPlTime = decide (bookTime.compare l.time ≠ 0) ∧
      x₁.fields.plTime = (if bookTime.compare l.time ≠ 0 then l.time else bookTime) := by
    show x₁.fields.clearEntry.hasPlTime = _ ∧ x₁.fields.clearEntry.plTime = _
    rw [hrecap]
    exact ⟨rfl, rfl⟩
  let l₂ := (l'.setSize x₂.fields.plSize).setNumEntries x₂.fields.plNumEntries
  have hfit : b.Fit s l.price l₂ :=
    hin.fit.change rfl rfl rfl rfl hin.fit.refs hin.fit.below
  have hstore := hin.store (show l₂.ref = l'.ref from rfl) hfit
  refine ⟨{ x₂ with book := b.storeLevel l₂ }, l₂, ?_, ⟨⟨?_, ?_, ?_, ?_⟩, fun t q => ?_⟩,
    ⟨?_, ?_, ?_⟩⟩
  · show Except.ok (x₂.processLevelPart2 l') = _
    rw [processLevelPart2_plain (show x₂.processesEntries from hproc) htype]
  · exact hproc
  · exact htype
  · show x₁.fields.clearEntry.bookTime = bookTime
    rw [hrecap]
    exact hx.bookTime
  · rfl
  · rw [hstore.found]; rfl
  · show (x₁.fields.clearEntry.plSize).toNat = _
    rw [hrecap]
    exact Int.toNat_natCast _
  · exact hmap
  · show l'.time = _
    rw [htime, hfields.1, hfields.2]

theorem stamped_new (t : DateTime) (ref : Ref) (p : Price) (side : Side) (a : Nat) :
    let l := stamped t ((PriceLevel.new ref p side).setOrderBook a)
    l.entryList = [] ∧ l.time = t := by
  unfold stamped
  split
  · next ht => exact ⟨rfl, ((DateTime.empty_iff t).mp ht).symm⟩
  · exact ⟨rfl, rfl⟩

theorem slots_ids (hid : ∀ e ∈ shown l, e.id ≠ "") (hnd : ((shown l).map Entry.id).Nodup) :
    (∀ a ∈ slots shown earlier l, a.2.id ≠ "") ∧
      ((slots shown earlier l).map fun a => a.2.id).Nodup := by
  have hsub : (sized (shown l)).Sublist (shown l) := filter_sublist
  unfold slots
  split
  · cases hlast : (shown l).getLast? with
    | none => simp
    | some e => simpa using hid e (mem_of_getLast? hlast)
  · have hmap : ((sized (shown l)).mapIdx fun k e => (slotHistory shown earlier k, e)).map
        (fun a => a.2.id) = (sized (shown l)).map Entry.id := by
      apply ext_getElem <;> simp
    refine ⟨fun a ha => ?_, hmap ▸ hnd.sublist (hsub.map _)⟩
    obtain ⟨k, hk, rfl⟩ := mem_mapIdx.mp ha
    exact hid _ (hsub.subset (getElem_mem hk))

theorem length_slots (hn : sized (shown l) ≠ []) :
    (slots shown earlier l).length = (sized (shown l)).length := by
  unfold slots
  split
  · next hone =>
    have hne : shown l ≠ [] := by
      intro hnil; exact hn (by rw [hnil]; rfl)
    rw [getLast?_eq_some_getLast hne, hone]
    rfl
  · simp

theorem processLevelSubMsg_recap {x : Listener} (hx : Recapping bookTime x) {s : BookSide}
    (hside : l.side = s.side) (hround : roundPrice l.price = l.price)
    (hfree : x.book.findLevel s l.price = none) (hn : sized (shown l) ≠ [])
    (hid : ∀ e ∈ shown l, e.id ≠ "") (hnd : ((shown l).map Entry.id).Nodup) :
    if attached (sized (shown l)).length ≤ (sized (shown l)).length then
      ∃ y l', processLevelSubMsg true x (levelMsg bookTime shown earlier l) = .ok y ∧
        LevelRead bookTime x y s l.price l' ∧
        Decoded bookTime l ((slots shown earlier l).take (attached (sized (shown l)).length)) l'
    else processLevelSubMsg true x (levelMsg bookTime shown earlier l) = .error .crash := by
  let G := x.fields.clearPriceLevel.processLevelMessage true (levelMsg bookTime shown earlier l)
  have hstart : processLevelSubMsg true x (levelMsg bookTime shown earlier l) =
      { x with fields := G }.processLevel := by
    have htakes : x.takesEntries := by simp [takesEntries, hx.processes]
    simp [processLevelSubMsg, htakes, G]
  obtain ⟨hids, hnodup⟩ : (∀ a ∈ slots shown earlier l, a.2.id ≠ "") ∧
      ((slots shown earlier l).map fun a => a.2.id).Nodup := slots_ids hid hnd
  have hpos : 0 < (sized (shown l)).length := length_pos_of_ne_nil hn
  -- the first step, whatever else the fields hold
  have hpart : G.plSide = s.side → G.plAction = .add → G.plPrice = l.price →
      ∃ b l₁, processLevelSubMsg true x (levelMsg bookTime shown earlier l) =
          (do
            let (x, l) ← { x with book := b, fields := { G with plAction := .add } }.processEntries
              l₁ .add
            pure (x.processLevelPart2 l)) ∧
        x.book.InHand b s l.price true l₁ ∧ l₁.entryList = [] ∧ l₁.time = G.plTime := by
    intro hG ha hp
    have hne : G.plAction ≠ .delete := by
      rw [ha]; decide
    obtain ⟨b, hb, hin⟩ := processLevelPart1_new (x := { x with fields := G }) hG hne
      (show x.book.findLevel s G.plPrice = none from hp ▸ hfree)
    obtain ⟨hnil, htime⟩ := stamped_new G.plTime (x.book.fresh 0) G.plPrice s.side x.book.addr
    refine ⟨b, _, ?_, hp ▸ hin, hnil, htime⟩
    rw [hstart, processLevel, hb]
    rfl
  by_cases hone : (sized (shown l)).length = 1
  · obtain ⟨e, he⟩ : ∃ e, (shown l).getLast? = some e := by
      have hne : shown l ≠ [] := by
        intro hnil; exact hn (by rw [hnil]; rfl)
      exact ⟨_, getLast?_eq_some_getLast hne⟩
    have hG : G = _ := processLevelMessage_one hx.bookTime hx.noEntry hone he
    obtain ⟨b, l₁, hmsg, hin, hnil, htime⟩ := hpart (by rw [hG]; exact hside) (by rw [hG]; rfl)
      (by rw [hG]; exact hround)
    have hslots : (slots shown earlier l).take (attached (sized (shown l)).length) = [([], e)] := by
      rw [slots, he, hone]; rfl
    have hin' : x.book.InHand { x with book := b, fields := { G with plAction := .add } }.book s
      l.price true l₁ := hin
    have hread := processEntries_one (e := e) hin' hnil hx.processes
      (by rw [hG]; exact hx.bookType) (by rw [hG]; rfl) (by rw [hG]; rfl) (by rw [hG]; rfl)
      (by rw [hG]; rfl) (by rw [hG]; rfl) (by rw [hG]) (hid e (mem_of_getLast? he))
      (by rw [hG]) (by rw [hG]) (by rw [hG]) (by rw [hG])
    have hplTime : G.plTime = if bookTime.compare l.time ≠ 0 then l.time else bookTime := by
      rw [hG]; rfl
    rw [htime.trans hplTime] at hread
    have hfits : attached (sized (shown l)).length ≤ (sized (shown l)).length := by
      rw [hone]; decide
    rw [if_pos hfits, hslots, hmsg]
    refine levelRead_of_entriesRead hx ?_ ?_ hread (v := none) (k := 1)
    · exact hx.processes
    · dsimp only
      rw [hG]
      rfl
  have hmany : 1 < (sized (shown l)).length := by omega
  have hG : G = _ := processLevelMessage_many hx.bookTime hmany
  obtain ⟨b, l₁, hmsg, hin, hnil, htime⟩ := hpart (by rw [hG]; exact hside) (by rw [hG]; rfl)
    (by rw [hG]; exact hround)
  have hin' : x.book.InHand { x with book := b, fields := { G with plAction := .add } }.book s
    l.price true l₁ := hin
  have hclear : ({ G with plAction := .add } : BookMsgFields).clearEntry =
      { G with plAction := .add } := by
    rw [hG]
    exact congrArg (fun f => ({ recapFields f bookTime l with
      entryVector := some ((slots shown earlier l).map fun a => slotMsg (a.1 ++ [(l.time, a.2)]))
      plNumAttach := attached (sized (shown l)).length } : BookMsgFields)) hx.noEntry
  have hread := processEntries_many hin' hnil hx.processes (by rw [hG]; exact hx.bookType) hclear
    (by rw [hG]; rfl) (by rw [hG]; rfl) (by rw [hG]) (n := attached (sized (shown l)).length)
    (by rw [hG]) hids hnodup
  have hplTime : G.plTime = if bookTime.compare l.time ≠ 0 then l.time else bookTime := by
    rw [hG]; rfl
  rw [htime.trans hplTime, length_slots hn] at hread
  split
  · next hfits =>
    rw [if_pos hfits] at hread
    rw [hmsg]
    refine levelRead_of_entriesRead hx ?_ ?_ hread
      (v := some ((slots shown earlier l).map fun a => slotMsg (a.1 ++ [(l.time, a.2)])))
      (k := attached (sized (shown l)).length)
    · exact hx.processes
    · dsimp only
      rw [hG]
  · next hfits =>
    rw [if_neg hfits] at hread
    rw [hmsg, hread]
    rfl

/-! ## Reading all levels -/

/-- What the messages of a recap rest on: the level has a side, a price that is not rounded, and
entries with sizes and ids of their own. -/
structure Sendable (shown : PriceLevel → List Entry) (l : PriceLevel) : Prop where
  side : ∃ s : BookSide, l.side = s.side
  round : roundPrice l.price = l.price
  sized : sized (shown l) ≠ []
  ids : ∀ e ∈ shown l, e.id ≠ ""
  unique : ((shown l).map Entry.id).Nodup

def Apart (l l' : PriceLevel) : Prop := ¬ (l.side = l'.side ∧ l.price = l'.price)

/-- The listener has the levels `ls` from their messages, which came after those of `earlier`, and
else what it had. -/
structure LevelsRead (bookTime : DateTime) (shown : PriceLevel → List Entry)
    (earlier ls : List PriceLevel) (x y : Listener) : Prop where
  recapping : Recapping bookTime y
  other : ∀ t q, (∀ l ∈ ls, ¬ (l.side = t.side ∧ l.price = q)) →
    y.book.findLevel t q = x.book.findLevel t q
  here : ∀ before l after s, ls = before ++ l :: after → l.side = s.side →
    ∃ l', y.book.findLevel s l.price = some l' ∧ Decoded bookTime l
      ((slots shown (earlier ++ before) l).take (attached (sized (shown l)).length)) l'

theorem foldlM_recap (ls : List PriceLevel) : ∀ (earlier : List PriceLevel) {x : Listener},
    Recapping bookTime x → (∀ l ∈ ls, Sendable shown l) → ls.Pairwise Apart →
    (∀ l ∈ ls, ∀ s, l.side = s.side → x.book.findLevel s l.price = none) →
    if ∀ l ∈ ls, attached (sized (shown l)).length ≤ (sized (shown l)).length then
      ∃ y, (levelMsgs bookTime shown earlier ls).foldlM (processLevelSubMsg true) x = .ok y ∧
        LevelsRead bookTime shown earlier ls x y
    else (levelMsgs bookTime shown earlier ls).foldlM (processLevelSubMsg true) x =
      .error .crash := by
  induction ls with
  | nil =>
    intro earlier x hx _ _ _
    refine ⟨x, rfl, hx, fun _ _ _ => rfl, fun before l after s h => ?_⟩
    simp at h
  | cons l ls ih =>
    intro earlier x hx hsend hapart hfree
    obtain ⟨s, hs⟩ := (hsend l mem_cons_self).side
    have hl := hsend l mem_cons_self
    have hread := @processLevelSubMsg_recap bookTime shown earlier l x hx s hs hl.round
      (hfree l mem_cons_self s hs) hl.sized hl.ids hl.unique
    rw [pairwise_cons] at hapart
    by_cases hfits : attached (sized (shown l)).length ≤ (sized (shown l)).length
    · rw [if_pos hfits] at hread
      obtain ⟨y₁, l', hstep, hy₁, hdec⟩ := hread
      have hfree' : ∀ l₂ ∈ ls, ∀ t, l₂.side = t.side → y₁.book.findLevel t l₂.price = none := by
        intro l₂ hl₂ t ht
        rw [hy₁.found, if_neg]
        · exact hfree l₂ (mem_cons_of_mem _ hl₂) t ht
        · rintro ⟨rfl, hp⟩; exact hapart.1 l₂ hl₂ ⟨hs.trans ht.symm, hp.symm⟩
      have hih := ih (earlier ++ [l]) hy₁.recapping
        (fun l₂ hl₂ => hsend l₂ (mem_cons_of_mem _ hl₂)) hapart.2 hfree'
      have hall : (∀ l₂ ∈ l :: ls, attached (sized (shown l₂)).length ≤ (sized (shown l₂)).length) ↔
          ∀ l₂ ∈ ls, attached (sized (shown l₂)).length ≤ (sized (shown l₂)).length := by
        simp [hfits]
      have hmsgs : (levelMsgs bookTime shown earlier (l :: ls)).foldlM (processLevelSubMsg true) x =
          (levelMsgs bookTime shown (earlier ++ [l]) ls).foldlM (processLevelSubMsg true) y₁ := by
        rw [levelMsgs, foldlM_cons, hstep]
        rfl
      simp only [hall, hmsgs]
      split at hih
      · next hok =>
        rw [if_pos hok]
        obtain ⟨y, hy, hread⟩ := hih
        refine ⟨y, hy, hread.recapping, fun t q hne => ?_, fun before l₂ after t heq ht => ?_⟩
        · rw [hread.other t q fun l₂ hl₂ => hne l₂ (mem_cons_of_mem _ hl₂), hy₁.found, if_neg]
          rintro ⟨rfl, rfl⟩
          exact hne l mem_cons_self ⟨hs, rfl⟩
        cases before with
        | nil =>
          obtain ⟨rfl, rfl⟩ : l = l₂ ∧ ls = after := by simpa using heq
          obtain rfl : s = t := BookSide.side_injective (hs.symm.trans ht)
          refine ⟨l', ?_, by simpa using hdec⟩
          rw [hread.other s l.price, hy₁.found, if_pos ⟨rfl, rfl⟩]
          rintro l₂ hl₂ ⟨hs₂, hp₂⟩
          exact hapart.1 l₂ hl₂ ⟨hs.trans hs₂.symm, hp₂.symm⟩
        | cons l₃ before =>
          obtain ⟨rfl, rfl⟩ : l = l₃ ∧ ls = before ++ l₂ :: after := by simpa using heq
          have := hread.here before l₂ after t rfl ht
          simpa using this
      · next hok => rwa [if_neg hok]
    · rw [if_neg hfits] at hread
      rw [if_neg (fun h => hfits (h l mem_cons_self)), levelMsgs, foldlM_cons, hread]
      rfl

end Level

/-! ## Reading a whole recap -/

/-- A new listener that has noted the fields of a recap and not yet its levels. -/
structure Noted (bookTime : DateTime) (n : Nat) (v : Option (List LevelMsg)) (y : Listener) :
    Prop where
  recapping : Recapping bookTime y
  numLevels : y.fields.numLevels = n
  vector : y.fields.priceLevelVector = v
  noLevels : ∀ s p, y.book.findLevel s p = none

theorem findLevel_clear (b : Book) (s : BookSide) (p : Price) : b.clear.findLevel s p = none := by
  cases s <;> rfl

variable {v : Option (List LevelMsg)}

theorem noted_recap (addr : Nat) (sourceOk : Nat → Bool) (junk : Nat) {levels parts : BookMsg}
    (n : Int) (symbol partId : String) (t : DateTime)
    (hlevels : levels = [] ∧ v = none ∨ ∃ msgs, levels = [.priceLevels msgs] ∧ v = some msgs)
    (hparts : parts = [] ∨ parts = [.partId partId]) :
    Noted t (getU32 n) v ((new addr sourceOk junk).processBookMessage
      (levels ++ [.numLevels n, .symbol symbol] ++ parts ++ [.bookTime t]) true).1 := by
  have hnull : ∀ t : DateTime, t.empty → t = .null := fun t => (DateTime.empty_iff t).mp
  obtain ⟨rfl, rfl⟩ | ⟨msgs, rfl, rfl⟩ := hlevels <;> obtain rfl | rfl := hparts <;>
    by_cases ht : t.empty <;>
    refine ⟨⟨rfl, ?_, ?_, ?_⟩, ?_, ?_, fun s p => ?_⟩ <;>
    simp [processBookMessage, bookTypeOf, BookMsgFields.onBookField, BookMsgFields.cleared,
      BookMsgFields.clearEntry, findLevel_clear, ht, hnull t]

theorem noted_empty (addr : Nat) (sourceOk : Nat → Bool) (junk : Nat) :
    Noted .null 0 none ((new addr sourceOk junk).processBookMessage [.numLevels 0] true).1 := by
  refine ⟨⟨rfl, rfl, rfl, rfl⟩, rfl, rfl, fun s p => ?_⟩
  cases s <;> rfl

theorem createDelta_none (hy : Noted t 0 v y) : y.createDelta = .ok y := by
  rw [createDelta, if_pos hy.numLevels]

theorem createDelta_some {msgs : List LevelMsg} (hy : Noted t n (some msgs) y) : y.createDelta =
      if n ≤ msgs.length then (msgs.take n).foldlM (processLevelSubMsg true) y
      else .error .crash := by
  rw [createDelta, hy.numLevels, hy.vector]
  by_cases hzero : n = 0
  · subst hzero; rfl
  · rw [if_neg hzero]

theorem handleRecap_of_ok {x : Listener} {msg : BookMsg}
    (h : (x.processBookMessage msg true).1.createDelta = .ok y) :
    ∃ z, x.handleRecap msg = some z ∧ z.book = y.book := by
  unfold handleRecap
  dsimp only
  rw [h]
  exact ⟨_, rfl, rfl⟩

theorem handleRecap_of_crash {x : Listener} {msg : BookMsg}
    (h : (x.processBookMessage msg true).1.createDelta = .error .crash) :
    x.handleRecap msg = none := by
  unfold handleRecap
  dsimp only
  rw [h]

end Listener

/-! ## What a recap is to carry over -/

/-- A level that has a size, as a recap is to carry it over: its size, its time and those of its
entries that have a size, in order. -/
structure LevelRecap where
  size : Nat
  time : DateTime
  entries : List (String × Nat × UInt16)
  deriving DecidableEq

def PriceLevel.recap (l : PriceLevel) : Option LevelRecap :=
  if l.size = 0 then none
  else some ⟨l.size, l.time, (Writer.sized l.entryList).map Entry.recap⟩

def Book.recap (b : Book) (s : BookSide) (p : Price) : Option LevelRecap :=
  (b.findLevel s p).bind PriceLevel.recap

/-- The recap of the book is written, and read by `x` it gives the same levels and entries. -/
def RecapRoundTrip (b : Book) (w : Writer) (x : Listener) : Prop :=
  ∃ msg y, b.populateRecap w = some msg ∧ x.handleRecap msg = some y ∧
    ∀ s p, y.book.recap s p = b.recap s p

/-! ## When it does -/

namespace Writer

/-- What the message of a level needs, after those of the levels `earlier`, to be read as the
level is.  Every entry with a size is visible, and the level's size and the number of its entries
fit the fields they are sent in.  The last entry of a level with a single one that has a size is
that one.  Where an entry of several has status zero, so have those at its position in the levels
before.  A level whose time compares equal to that of the book has the time of the book, and none
of the times read for its entries is later. -/
structure LevelFits (b : Book) (earlier : List PriceLevel) (l : PriceLevel) : Prop where
  visible : ∀ e ∈ l.entryList, e.size ≠ 0 → b.counts l e
  size : l.size < 2 ^ 32
  attach : toI16 (sized (b.shownEntries l)).length = 1 ∨
    getU32 (toI16 (sized (b.shownEntries l)).length) = (sized (b.shownEntries l)).length
  single : (sized (b.shownEntries l)).length = 1 →
    ∀ e, (b.shownEntries l).getLast? = some e → e.size ≠ 0
  status : 1 < (sized (b.shownEntries l)).length →
    ∀ k e, (sized (b.shownEntries l))[k]? = some e → e.status = 0 →
      ∀ a ∈ slotHistory b.shownEntries earlier k, a.2.status = 0
  time : b.bookTime.compare l.time = 0 → l.time = b.bookTime ∧
    ∀ a ∈ slots b.shownEntries earlier l,
      (slotTime .null (a.1 ++ [(l.time, a.2)])).timeOnly ≤ l.time.timeOnly

/-- What the recap of a book needs to be read as the book is: the scratch messages reach, the
number of levels fits its field, and each level fits. -/
structure RecapFits (b : Book) (w : Writer) : Prop where
  counted : b.totalNumLevels = 0 → b.shownLevels = []
  levelRoom : b.shownLevels.length ≤ max w.priceLevels.length b.totalNumLevels
  entryRoom : HasRoom b.shownEntries w.entries.length b.shownLevels
  numLevels : getU32 (toI16 b.shownLevels.length) = b.shownLevels.length
  levels : ∀ earlier l later, b.shownLevels = earlier ++ l :: later → LevelFits b earlier l

theorem slotStatus_concat (n : UInt16) (h : List (DateTime × Entry)) (pt : DateTime) (e : Entry) :
    slotStatus n (h ++ [(pt, e)]) = if e.status ≠ 0 then e.status else slotStatus n h := by
  simp [slotStatus]

theorem slotStatus_eq_zero (h : List (DateTime × Entry)) :
    slotStatus 0 h = 0 ↔ ∀ a ∈ h, a.2.status = 0 := by
  induction h using List.reverseRecOn with
  | nil => simp [slotStatus]
  | append_singleton h a ih =>
    rw [slotStatus_concat]
    by_cases ha : a.2.status = 0
    · simp [ha, ih, or_imp, forall_and]
    · rw [if_pos ha]; exact ⟨fun h => absurd h ha, fun h => absurd (h a (by simp)) ha⟩

end Writer

namespace Listener

open Writer

theorem slotsTime_spec (plTime pt : DateTime) (as : List (List (DateTime × Entry) × Entry)) :
    ∀ t : DateTime,
      (slotsTime false plTime pt t as = t ∧ ∀ a ∈ as,
        (readTime plTime (slotTime .null (a.1 ++ [(pt, a.2)]))).timeOnly ≤ t.timeOnly) ∨
      (t.timeOnly < (slotsTime false plTime pt t as).timeOnly ∧ ¬ ∀ a ∈ as,
        (readTime plTime (slotTime .null (a.1 ++ [(pt, a.2)]))).timeOnly ≤ t.timeOnly) := by
  induction as with
  | nil => intro t; exact .inl ⟨rfl, by simp⟩
  | cons a as ih =>
    intro t
    let u := readTime plTime (slotTime .null (a.1 ++ [(pt, a.2)]))
    have hcons : slotsTime false plTime pt t (a :: as) =
        slotsTime false plTime pt (laterTime false t u) as := rfl
    by_cases hu : t.timeOnly < u.timeOnly
    · have hlater : laterTime false t u = u := by
        rw [laterTime, if_pos ⟨rfl, (DateTime.compare_pos _ _).mpr hu⟩]
      rw [hcons, hlater]
      refine .inr ⟨?_, fun hall => ?_⟩
      · rcases ih u with ⟨h, -⟩ | ⟨h, -⟩
        · rwa [h]
        · exact hu.trans h
      · exact absurd (hall a mem_cons_self) (not_le.mpr hu)
    have hlater : laterTime false t u = t := by
      rw [laterTime, if_neg]
      rintro ⟨-, h⟩
      exact hu ((DateTime.compare_pos _ _).mp h)
    rw [hcons, hlater]
    rcases ih t with ⟨h, hall⟩ | ⟨h, hnot⟩
    · refine .inl ⟨h, fun a' ha' => ?_⟩
      rcases mem_cons.mp ha' with rfl | ha'
      · exact not_lt.mp hu
      · exact hall a' ha'
    · exact .inr ⟨h, fun hall => hnot fun a' ha' => hall a' (mem_cons_of_mem _ ha')⟩

theorem slotsTime_given (plTime pt t : DateTime) (as : List (List (DateTime × Entry) × Entry)) :
    slotsTime true plTime pt t as = t := by
  induction as with
  | nil => rfl
  | cons a as ih => exact ih

theorem timeOnly_readTime (plTime t : DateTime) :
    (readTime plTime t).timeOnly ≤ plTime.timeOnly ↔ t.timeOnly ≤ plTime.timeOnly := by
  unfold readTime
  split
  · next ht => rw [(DateTime.empty_iff t).mp ht]; simp
  · rfl

section Decoded

variable {b : Book} {earlier : List PriceLevel} {l l' : PriceLevel}

theorem Decoded.time_iff {as : List (List (DateTime × Entry) × Entry)} (h : Decoded t l as l') :
    l'.time = l.time ↔ (t.compare l.time = 0 → l.time = t ∧
      ∀ a ∈ as, (slotTime .null (a.1 ++ [(l.time, a.2)])).timeOnly ≤ l.time.timeOnly) := by
  rw [h.time]
  by_cases hc : t.compare l.time = 0
  · simp only [hc, ne_eq, not_true_eq_false, decide_false, if_false, forall_const]
    have hsame : t.timeOnly = l.time.timeOnly := (DateTime.compare_eq_zero _ _).mp hc
    simp only [← hsame]
    have hspec := slotsTime_spec t l.time as t
    simp only [timeOnly_readTime] at hspec
    rcases hspec with ⟨heq, hall⟩ | ⟨hlt, hnot⟩
    · rw [heq]; exact ⟨fun h => ⟨h.symm, hall⟩, fun h => h.1.symm⟩
    · constructor
      · intro heq
        rw [heq, hsame] at hlt
        exact absurd hlt (lt_irrefl _)
      · exact fun h => absurd h.2 hnot
  · simp [hc, slotsTime_given]

theorem Decoded.sized_entries {as : List (List (DateTime × Entry) × Entry)}
    (h : Decoded t l as l') :
    (sized l'.entryList).map Entry.recap = (as.map (slotEntry l.time)).filter fun a =>
      a.2.1 ≠ 0 := by
  rw [← h.entries, filter_map]
  rfl

theorem sized_shownEntries (b : Book) (l : PriceLevel) :
    sized (b.shownEntries l) = (sized l.entryList).filter (b.counts l) := by
  unfold sized Book.shownEntries
  rw [filter_filter, filter_filter]
  exact filter_congr fun e _ => Bool.and_comm _ _

theorem visible_iff (b : Book) (l : PriceLevel) : (∀ e ∈ l.entryList, e.size ≠ 0 → b.counts l e) ↔
    sized (b.shownEntries l) = sized l.entryList := by
  rw [sized_shownEntries, filter_eq_self]
  unfold sized
  simp [mem_filter]

theorem slots_getElem? (hone : (sized (b.shownEntries l)).length ≠ 1) (k : Nat) :
    (slots b.shownEntries earlier l)[k]? =
      (sized (b.shownEntries l))[k]?.map fun e => (slotHistory b.shownEntries earlier k, e) := by
  rw [slots, if_neg hone, getElem?_mapIdx]

theorem slots_of_one (hone : (sized (b.shownEntries l)).length = 1) :
    ∃ e, (b.shownEntries l).getLast? = some e ∧ slots b.shownEntries earlier l = [([], e)] := by
  have hne : b.shownEntries l ≠ [] := by
    intro hnil
    rw [hnil] at hone
    cases hone
  refine ⟨_, getLast?_eq_some_getLast hne, ?_⟩
  rw [slots, if_pos hone, getLast?_eq_some_getLast hne]
  rfl

theorem sized_of_one (hone : (sized (b.shownEntries l)).length = 1)
    (he : (b.shownEntries l).getLast? = some e) (hsize : e.size ≠ 0) :
    sized (b.shownEntries l) = [e] := by
  have hmem : e ∈ sized (b.shownEntries l) :=
    mem_filter.mpr ⟨mem_of_getLast? he, by simpa using hsize⟩
  obtain ⟨e', heq⟩ := length_eq_one_iff.mp hone
  rw [heq, mem_singleton] at hmem
  rw [heq, hmem]

theorem slotEntries_eq (hsizes : ∀ e ∈ l.entryList, e.size < 2 ^ 32)
    (hsingle : (sized (b.shownEntries l)).length = 1 →
      ∀ e, (b.shownEntries l).getLast? = some e → e.size ≠ 0)
    (hstatus : 1 < (sized (b.shownEntries l)).length →
      ∀ k e, (sized (b.shownEntries l))[k]? = some e → e.status = 0 →
        ∀ a ∈ slotHistory b.shownEntries earlier k, a.2.status = 0) :
    (slots b.shownEntries earlier l).map (slotEntry l.time) =
      (sized (b.shownEntries l)).map Entry.recap := by
  have hlt : ∀ e ∈ b.shownEntries l, e.size % 2 ^ 32 = e.size := fun e he =>
    Nat.mod_eq_of_lt (hsizes e (mem_filter.mp he).1)
  by_cases hone : (sized (b.shownEntries l)).length = 1
  · obtain ⟨e, he, hslots⟩ := slots_of_one (b := b) (l := l) hone
    rw [hslots, sized_of_one hone he (hsingle hone e he)]
    show [(e.id, e.size % 2 ^ 32, slotStatus 0 ([] ++ [(l.time, e)]))] = [(e.id, e.size, e.status)]
    rw [hlt e (mem_of_getLast? he)]
    by_cases hst : e.status = 0 <;> simp [slotStatus, hst]
  apply ext_getElem?
  intro k
  rw [getElem?_map, getElem?_map, slots_getElem? hone]
  cases hk : (sized (b.shownEntries l))[k]? with
  | none => rfl
  | some e =>
    have hmem : e ∈ sized (b.shownEntries l) := mem_of_getElem? hk
    have hsize := hlt e (mem_filter.mp hmem).1
    have hpos := length_pos_of_mem hmem
    simp only [Option.map_some, slotEntry, Entry.recap, hsize, slotStatus_concat]
    by_cases hst : e.status = 0
    · rw [(slotStatus_eq_zero _).mpr (hstatus (by omega) k e hk hst)]; simp [hst]
    · simp [hst]

theorem recap_eq_some {l : PriceLevel} (h : l.size ≠ 0) :
    l.recap = some ⟨l.size, l.time, (sized l.entryList).map Entry.recap⟩ := by
  rw [PriceLevel.recap, if_neg h]

theorem recap_eq_recap_iff {l l' : PriceLevel} (h : l.size ≠ 0) :
    l'.recap = l.recap ↔ l'.size = l.size ∧ l'.time = l.time ∧
      (sized l'.entryList).map Entry.recap = (sized l.entryList).map Entry.recap := by
  rw [recap_eq_some h, PriceLevel.recap]
  by_cases h' : l'.size = 0
  · rw [h']; exact ⟨nofun, fun heq => absurd heq.1.symm h⟩
  · rw [if_neg h', Option.some.injEq, LevelRecap.mk.injEq]

theorem attached_eq_iff (n : Nat) : attached n = n ↔ toI16 n = 1 ∨ getU32 (toI16 n) = n := by
  unfold attached
  split
  · next h => simp [h]
  · next h => simp [h]

theorem Decoded.complete {as : List (List (DateTime × Entry) × Entry)} (h : Decoded t l as l')
    (hlen : as.length ≤ (sized (b.shownEntries l)).length)
    (heq : (sized l'.entryList).map Entry.recap = (sized l.entryList).map Entry.recap) :
    as.length = (sized (b.shownEntries l)).length ∧
      sized (b.shownEntries l) = sized l.entryList ∧ (∀ a ∈ as, a.2.size ≠ 0) ∧
      as.map (slotEntry l.time) = (sized (b.shownEntries l)).map Entry.recap := by
  rw [h.sized_entries] at heq
  have hle : ((as.map (slotEntry l.time)).filter fun a => a.2.1 ≠ 0).length ≤ as.length :=
    (length_filter_le _ _).trans (by rw [length_map])
  have hsub : (sized (b.shownEntries l)).Sublist (sized l.entryList) := by
    rw [sized_shownEntries]; exact filter_sublist
  have hsame := congrArg List.length heq
  rw [length_map] at hsame
  have hshown : sized (b.shownEntries l) = sized l.entryList := by
    refine hsub.eq_of_length_le ?_; omega
  have hkept : (as.map (slotEntry l.time)).filter (fun a => a.2.1 ≠ 0) =
      as.map (slotEntry l.time) := by
    refine filter_sublist.eq_of_length_le ?_
    rw [length_map]
    have := hsub.length_le
    omega
  refine ⟨?_, hshown, fun a ha hzero => ?_, ?_⟩
  · have := hsub.length_le
    omega
  · have hne := filter_eq_self.mp hkept (slotEntry l.time a) (mem_map_of_mem ha)
    simp [slotEntry, hzero] at hne
  · rw [← hkept, heq, hshown]

theorem Decoded.recap_iff (hattach : attached (sized (b.shownEntries l)).length ≤
      (sized (b.shownEntries l)).length) (hn : sized (b.shownEntries l) ≠ []) (hsize : l.size ≠ 0)
    (hsizes : ∀ e ∈ l.entryList, e.size < 2 ^ 32)
    (h : Decoded b.bookTime l ((slots b.shownEntries earlier l).take
      (attached (sized (b.shownEntries l)).length)) l') :
    l'.recap = l.recap ↔ LevelFits b earlier l := by
  have hslots : (slots b.shownEntries earlier l).length = (sized (b.shownEntries l)).length :=
    length_slots hn
  rw [recap_eq_recap_iff hsize, h.size, h.time_iff]
  constructor
  · rintro ⟨hsz, htime, heq⟩
    obtain ⟨hlen, hshown, hnonzero, hmap⟩ := h.complete (b := b)
      (by rw [length_take]; omega) heq
    have hattached : attached (sized (b.shownEntries l)).length =
        (sized (b.shownEntries l)).length := by
      rw [length_take] at hlen
      omega
    rw [take_of_length_le (by rw [hattached, hslots])] at htime hnonzero hmap
    refine ⟨(visible_iff b l).mpr hshown, ?_, (attached_eq_iff _).mp hattached, ?_, ?_, htime⟩
    · rw [← hsz]; exact Nat.mod_lt _ (by decide)
    · intro hone e he
      obtain ⟨e', he', hs'⟩ := slots_of_one (b := b) (l := l) hone
      rw [he] at he'
      rw [hs'] at hnonzero
      exact hnonzero ([], e) (by rw [Option.some.inj he']; exact mem_singleton_self _)
    · intro hmany k e hk hst
      have hkth := congrArg (·[k]?) hmap
      simp only [getElem?_map, slots_getElem? (Nat.ne_of_gt hmany), hk, Option.map_some,
        Option.some.injEq, slotEntry, Entry.recap, Prod.mk.injEq, slotStatus_concat, hst] at hkth
      exact (slotStatus_eq_zero _).mp (by simpa using hkth.2.2)
  intro hfits
  have hattached := (attached_eq_iff _).mpr hfits.attach
  have htake : (slots b.shownEntries earlier l).take
      (attached (sized (b.shownEntries l)).length) = slots b.shownEntries earlier l :=
    take_of_length_le (by rw [hattached, hslots])
  refine ⟨Nat.mod_eq_of_lt hfits.size, ?_, ?_⟩
  · rw [htake]; exact hfits.time
  · rw [h.sized_entries, htake, slotEntries_eq hsizes hfits.single hfits.status,
      (visible_iff b l).mp hfits.visible, filter_eq_self.mpr]
    intro a ha
    obtain ⟨e, he, rfl⟩ := mem_map.mp ha
    exact (mem_filter.mp he).2

end Decoded

end Listener

/-! ## The round trip -/

namespace Book

/-- What is asked of the levels of a book that is sent as a recap. -/
structure Recapable (b : Book) (s : BookSide) (p : Price) (l : PriceLevel) : Prop where
  price : l.price = p
  side : l.side = s.side
  round : roundPrice p = p
  sized : l.size ≠ 0 → Writer.sized (b.shownEntries l) ≠ []
  entries : ∀ e ∈ l.entryList, e.id ≠ "" ∧ e.size < 2 ^ 32
  unique : (l.entryList.map Entry.id).Nodup

section Levels

variable {b : Book} (h : b.AllLevels b.Recapable)

theorem mem_shownLevels {l : PriceLevel} :
    l ∈ b.shownLevels ↔ ∃ s p, b.findLevel s p = some l ∧ l.size ≠ 0 := by
  have hvalues : ∀ (m : PlMap) (l : PriceLevel), l ∈ m.values ↔ ∃ p, m.find? p = some l := by
    intro m l
    simp only [SortedMap.values, mem_map, Prod.exists, exists_eq_right, SortedMap.mem_toList]
  unfold shownLevels
  simp only [mem_append, mem_filter, mem_reverse, hvalues, decide_eq_true_eq]
  constructor
  · rintro (⟨⟨p, hp⟩, hs⟩ | ⟨⟨p, hp⟩, hs⟩)
    · exact ⟨.bid, p, hp, hs⟩
    · exact ⟨.ask, p, hp, hs⟩
  · rintro ⟨s, p, hp, hs⟩
    cases s with
    | bid => exact .inl ⟨⟨p, hp⟩, hs⟩
    | ask => exact .inr ⟨⟨p, hp⟩, hs⟩

include h

theorem pairwise_values (s : BookSide) : (b.levels.get s).values.Pairwise Listener.Apart := by
  refine pairwise_map.mpr ((b.levels.get s).sorted.imp_of_mem fun {a c} ha hc hlt => ?_)
  rintro ⟨-, hp⟩
  have ha' := (h s a.1 a.2 (SortedMap.mem_toList.mp ha)).price
  have hc' := (h s c.1 c.2 (SortedMap.mem_toList.mp hc)).price
  rw [ha', hc'] at hp
  exact absurd hp (ne_of_lt hlt)

theorem pairwise_shownLevels : b.shownLevels.Pairwise Listener.Apart := by
  refine pairwise_append.mpr ⟨?_, ?_, fun l hl l' hl' => ?_⟩
  · refine List.Pairwise.filter _ (pairwise_reverse.mpr ?_)
    refine (pairwise_values h .bid).imp fun {a c} hac => ?_
    exact fun heq => hac ⟨heq.1.symm, heq.2.symm⟩
  · exact (pairwise_values h .ask).filter _
  obtain ⟨a, ha, rfl⟩ := mem_map.mp (mem_reverse.mp (mem_filter.mp hl).1)
  obtain ⟨c, hc, rfl⟩ := mem_map.mp (mem_filter.mp hl').1
  have ha' := (h .bid a.1 a.2 (SortedMap.mem_toList.mp ha)).side
  have hc' := (h .ask c.1 c.2 (SortedMap.mem_toList.mp hc)).side
  rintro ⟨hside, -⟩
  rw [ha', hc'] at hside
  cases hside

theorem sendable_of_mem {l : PriceLevel} (hl : l ∈ b.shownLevels) :
    Listener.Sendable b.shownEntries l := by
  obtain ⟨s, p, hp, hs⟩ := mem_shownLevels.mp hl
  have hr := h s p l hp
  refine ⟨⟨s, hr.side⟩, by rw [hr.price, hr.round], hr.sized hs, fun e he => ?_, ?_⟩
  · exact (hr.entries e (mem_filter.mp he).1).1
  · exact hr.unique.sublist (filter_sublist.map _)

theorem findLevel_of_mem {l : PriceLevel} (hl : l ∈ b.shownLevels) :
    l.size ≠ 0 ∧ ∃ s, l.side = s.side ∧ b.findLevel s l.price = some l := by
  obtain ⟨s, p, hp, hs⟩ := mem_shownLevels.mp hl
  have hr := h s p l hp
  exact ⟨hs, s, hr.side, by rw [hr.price]; exact hp⟩

end Levels

def recapMsg (b : Book) : BookMsg :=
  (if b.shownLevels.length > 0 then
      [.priceLevels (Writer.levelMsgs b.bookTime b.shownEntries [] b.shownLevels)] else []) ++
    [.numLevels (toI16 b.shownLevels.length), .symbol b.symbol] ++
    (if b.partId ≠ "" then [.partId b.partId] else []) ++ [.bookTime b.bookTime]

theorem populateMsg_iff {b : Book} (ht : b.totalNumLevels ≠ 0) (w : Writer) (msg : BookMsg) :
    b.populateMsg w = some msg ↔ Writer.HasRoom b.shownEntries w.entries.length b.shownLevels ∧
    b.shownLevels.length ≤ max w.priceLevels.length b.totalNumLevels ∧ msg = b.recapMsg := by
  have hclear : w.clear.entries = Writer.scratch b.shownEntries [] w.entries.length :=
    Writer.clearMsgs_eq_scratch w.entries
  have hgrow : (grow b.totalNumLevels w.clear.priceLevels).length =
      max w.priceLevels.length b.totalNumLevels := by
    simp [grow, Writer.clear, clearMsgs]
    omega
  unfold populateMsg
  simp only [if_neg ht, hclear, hgrow, Option.bind_eq_bind, Option.bind_eq_some_iff,
    Writer.addLevelMsgs_eq b.shownLevels [] w.entries.length (by simp)]
  constructor
  · rintro ⟨msgs, ⟨hroom, rfl⟩, hmsg⟩
    split at hmsg
    · next hlen => exact ⟨hroom, hlen, (Option.some.inj hmsg).symm⟩
    · cases hmsg
  · rintro ⟨hroom, hlen, rfl⟩; exact ⟨_, ⟨hroom, rfl⟩, by rw [if_pos hlen]; rfl⟩

/-- What a new listener makes of the message: the levels up to the number it is told, unless it
is told too many, of levels or of entries. -/
theorem handleRecap_recapMsg {b : Book} (h : b.AllLevels b.Recapable) (addr : Nat)
    (sourceOk : Nat → Bool) (junk : Nat) (hn : getU32 (toI16 b.shownLevels.length) = n) :
    if n ≤ b.shownLevels.length ∧ ∀ l ∈ b.shownLevels.take n,
        Listener.attached (Writer.sized (b.shownEntries l)).length ≤
          (Writer.sized (b.shownEntries l)).length then
      ∃ x y z, (Listener.new addr sourceOk junk).handleRecap b.recapMsg = some z ∧
        z.book = y.book ∧ (∀ s p, x.book.findLevel s p = none) ∧
        Listener.LevelsRead b.bookTime b.shownEntries [] (b.shownLevels.take n) x y
    else (Listener.new addr sourceOk junk).handleRecap b.recapMsg = none := by
  have hparts : (if b.partId ≠ "" then [BookField.partId b.partId] else []) = [] ∨
      (if b.partId ≠ "" then [BookField.partId b.partId] else []) = [.partId b.partId] := by
    split
    · exact .inr rfl
    · exact .inl rfl
  let msgs := Writer.levelMsgs b.bookTime b.shownEntries [] b.shownLevels
  -- a book that shows no level sends no vector, and its number of levels is zero
  by_cases hpos : b.shownLevels.length > 0
  · have hnoted := Listener.noted_recap addr sourceOk junk (toI16 b.shownLevels.length) b.symbol
      b.partId b.bookTime (.inr ⟨msgs, rfl, rfl⟩) hparts
    have hmsg : [BookField.priceLevels msgs] ++ [.numLevels (toI16 b.shownLevels.length),
        .symbol b.symbol] ++ (if b.partId ≠ "" then [.partId b.partId] else []) ++
          [.bookTime b.bookTime] = b.recapMsg := by
      rw [recapMsg, if_pos hpos]
    rw [hmsg, hn] at hnoted
    have hcreate := Listener.createDelta_some hnoted
    rw [Writer.length_levelMsgs, Writer.take_levelMsgs] at hcreate
    by_cases hle : n ≤ b.shownLevels.length
    · have hsub : ∀ l ∈ b.shownLevels.take n, l ∈ b.shownLevels :=
        fun l hl => mem_of_mem_take hl
      have hfold := Listener.foldlM_recap (b.shownLevels.take n) [] hnoted.recapping
        (fun l hl => sendable_of_mem h (hsub l hl))
        ((pairwise_shownLevels h).sublist (take_sublist _ _))
        (fun l _ s _ => hnoted.noLevels s l.price)
      rw [if_pos hle] at hcreate
      split at hfold
      · next hok =>
        obtain ⟨y, hy, hread⟩ := hfold
        obtain ⟨z, hz, hbook⟩ := Listener.handleRecap_of_ok (hcreate.trans hy)
        rw [if_pos ⟨hle, hok⟩]
        exact ⟨_, y, z, hz, hbook, hnoted.noLevels, hread⟩
      · next hok =>
        rw [if_neg fun hc => hok hc.2]
        exact Listener.handleRecap_of_crash (hcreate.trans hfold)
    · rw [if_neg hle] at hcreate
      rw [if_neg fun hc => hle hc.1]
      exact Listener.handleRecap_of_crash hcreate
  have hnil : b.shownLevels = [] := eq_nil_of_length_eq_zero (by omega)
  have hzero : n = 0 := by
    rw [← hn, hnil]; rfl
  have hnoted := Listener.noted_recap addr sourceOk junk (toI16 b.shownLevels.length) b.symbol
    b.partId b.bookTime (.inl ⟨rfl, rfl⟩) hparts
  have hmsg : [] ++ [.numLevels (toI16 b.shownLevels.length), .symbol b.symbol] ++
      (if b.partId ≠ "" then [BookField.partId b.partId] else []) ++ [.bookTime b.bookTime] =
        b.recapMsg := by
    rw [recapMsg, if_neg hpos]
  rw [hmsg, hn, hzero] at hnoted
  obtain ⟨z, hz, hbook⟩ := Listener.handleRecap_of_ok (Listener.createDelta_none hnoted)
  rw [hzero]
  refine ⟨_, _, z, hz, hbook, hnoted.noLevels, hnoted.recapping, fun _ _ _ => rfl, ?_⟩
  intro before l after s heq
  simp at heq

theorem recap_of_findLevel {b : Book} {s : BookSide} {p : Price} {l : PriceLevel}
    (hl : b.findLevel s p = some l) : b.recap s p = l.recap := by
  rw [recap, hl]
  rfl

theorem recap_of_none {b : Book} {s : BookSide} {p : Price} (hl : b.findLevel s p = none) :
    b.recap s p = none := by
  rw [recap, hl]
  rfl

theorem recap_eq_none {b : Book} {s : BookSide} {p : Price}
    (hno : ∀ l, b.findLevel s p = some l → l.size = 0) : b.recap s p = none := by
  cases hl : b.findLevel s p with
  | none => exact recap_of_none hl
  | some l => rw [recap_of_findLevel hl, PriceLevel.recap, if_pos (hno l hl)]

theorem shownLevels_eq_nil {b : Book} (h : b.AllLevels b.Recapable)
    (hnone : ∀ s p, b.recap s p = none) : b.shownLevels = [] := by
  refine eq_nil_iff_forall_not_mem.mpr fun l hl => ?_
  obtain ⟨hsize, s, -, hfind⟩ := findLevel_of_mem h hl
  have hrecap := hnone s l.price
  rw [recap_of_findLevel hfind, Listener.recap_eq_some hsize] at hrecap
  cases hrecap

theorem recapFits_of_nil {b : Book} (hnil : b.shownLevels = []) (w : Writer) :
    Writer.RecapFits b w := by
  refine ⟨fun _ => hnil, ?_, ?_, ?_, fun earlier l later heq => ?_⟩
  · rw [hnil]; exact Nat.zero_le _
  · rw [hnil]; trivial
  · rw [hnil]; rfl
  · rw [hnil] at heq; simp at heq

theorem recap_eq_iff {b : Book} (h : b.AllLevels b.Recapable) {x : Listener}
    (hx : ∀ s p, x.book.findLevel s p = none)
    (hattach : ∀ l ∈ b.shownLevels, Listener.attached
      (Writer.sized (b.shownEntries l)).length ≤ (Writer.sized (b.shownEntries l)).length)
    (hread : Listener.LevelsRead b.bookTime b.shownEntries [] b.shownLevels x y) :
    (∀ s p, y.book.recap s p = b.recap s p) ↔
      ∀ earlier l later, b.shownLevels = earlier ++ l :: later → Writer.LevelFits b earlier l := by
  -- one level, where it lies
  have hlevel : ∀ earlier l later, b.shownLevels = earlier ++ l :: later →
      ∃ s, b.findLevel s l.price = some l ∧
        (y.book.recap s l.price = l.recap ↔ Writer.LevelFits b earlier l) := by
    intro earlier l later heq
    have hmem : l ∈ b.shownLevels := by
      rw [heq]; simp
    obtain ⟨hsize, s, hside, hfind⟩ := findLevel_of_mem h hmem
    obtain ⟨l', hl', hdec⟩ := hread.here earlier l later s heq hside
    refine ⟨s, hfind, ?_⟩
    rw [recap_of_findLevel hl']
    exact hdec.recap_iff (hattach l hmem) (sendable_of_mem h hmem).sized hsize
      fun e he => ((h s l.price l hfind).entries e he).2
  constructor
  · intro hsame earlier l later heq
    obtain ⟨s, hfind, hiff⟩ := hlevel earlier l later heq
    exact hiff.mp ((hsame s l.price).trans (recap_of_findLevel hfind))
  intro hfits s p
  by_cases hshown : ∃ l, b.findLevel s p = some l ∧ l.size ≠ 0
  · obtain ⟨l, hl, hsize⟩ := hshown
    have hr := h s p l hl
    obtain ⟨earlier, later, heq⟩ := append_of_mem (mem_shownLevels.mpr ⟨s, p, hl, hsize⟩)
    obtain ⟨t, hfind, hiff⟩ := hlevel earlier l later heq
    obtain rfl : t = s := BookSide.side_injective
      ((h t l.price l hfind).side.symm.trans hr.side)
    rw [← hr.price, hiff.mpr (hfits earlier l later heq), recap_of_findLevel hfind]
  have hno : ∀ l, b.findLevel s p = some l → l.size = 0 := fun l hl => by
    by_contra hne; exact hshown ⟨l, hl, hne⟩
  have hother : ∀ l ∈ b.shownLevels, ¬ (l.side = s.side ∧ l.price = p) := by
    rintro l hl ⟨hside, rfl⟩
    obtain ⟨hsize, t, ht, hfind⟩ := findLevel_of_mem h hl
    obtain rfl : t = s := BookSide.side_injective (ht.symm.trans hside)
    exact hsize (hno l hfind)
  rw [recap_eq_none hno, recap_of_none]
  rw [hread.other s p hother, hx]

theorem take_of_recap_eq {b : Book} (h : b.AllLevels b.Recapable) {x : Listener}
    (hx : ∀ s p, x.book.findLevel s p = none) (hle : n ≤ b.shownLevels.length)
    (hread : Listener.LevelsRead b.bookTime b.shownEntries [] (b.shownLevels.take n) x y)
    (hsame : ∀ s p, y.book.recap s p = b.recap s p) : n = b.shownLevels.length := by
  by_contra hne
  have hlt : n < b.shownLevels.length := by omega
  have hsplit : b.shownLevels =
      b.shownLevels.take n ++ b.shownLevels[n] :: b.shownLevels.drop (n + 1) := by
    rw [← drop_eq_getElem_cons hlt, take_append_drop]
  have hmem : b.shownLevels[n] ∈ b.shownLevels := getElem_mem hlt
  obtain ⟨hsize, s, hside, hfind⟩ := findLevel_of_mem h hmem
  have hapart := pairwise_shownLevels h
  rw [hsplit, pairwise_append] at hapart
  have hother : ∀ l ∈ b.shownLevels.take n,
      ¬ (l.side = s.side ∧ l.price = b.shownLevels[n].price) := by
    rintro l hl ⟨hs, hp⟩
    exact hapart.2.2 l hl _ mem_cons_self ⟨hs.trans hside.symm, hp⟩
  have hrecap := hsame s b.shownLevels[n].price
  rw [recap_of_findLevel hfind, Listener.recap_eq_some hsize, recap_of_none] at hrecap
  · cases hrecap
  · rw [hread.other s _ hother, hx]

theorem recapRoundTrip_iff {b : Book} (h : b.AllLevels b.Recapable) (hg : b.generateDeltas)
    (w : Writer) (addr : Nat) (sourceOk : Nat → Bool) (junk : Nat) :
    RecapRoundTrip b w (.new addr sourceOk junk) ↔ Writer.RecapFits b w := by
  rw [RecapRoundTrip, populateRecap, if_pos hg]
  -- a book that counts no levels sends only that
  by_cases ht : b.totalNumLevels = 0
  · have hmsg : b.populateMsg w = some [.numLevels 0] := by
      simp [populateMsg, if_pos ht]
    have hnoted := Listener.noted_empty addr sourceOk junk
    obtain ⟨z, hz, hbook⟩ := Listener.handleRecap_of_ok (Listener.createDelta_none hnoted)
    have hnone : ∀ s p, z.book.recap s p = none := by
      intro s p
      rw [hbook]
      exact recap_of_none (hnoted.noLevels s p)
    constructor
    · rintro ⟨msg, y, hm, hy, hsame⟩
      rw [hmsg] at hm
      rw [← Option.some.inj hm, hz] at hy
      refine recapFits_of_nil (shownLevels_eq_nil h fun s p => ?_) w
      rw [← hsame, ← Option.some.inj hy, hnone]
    intro hfits
    refine ⟨_, z, hmsg, hz, fun s p => ?_⟩
    rw [hnone, recap_eq_none]
    intro l hl
    by_contra hne
    have hmem := mem_shownLevels.mpr ⟨s, p, hl, hne⟩
    rw [hfits.counted ht] at hmem
    cases hmem
  have hhandle := handleRecap_recapMsg h addr sourceOk junk rfl
  constructor
  · rintro ⟨msg, y, hm, hy, hsame⟩
    obtain ⟨hroom, hlen, rfl⟩ := (populateMsg_iff ht w msg).mp hm
    split at hhandle
    · next hok =>
      obtain ⟨x₁, y₁, z, hz, hbook, hx₁, hread⟩ := hhandle
      have hsame' : ∀ s p, y₁.book.recap s p = b.recap s p := by
        rw [hz] at hy
        intro s p
        rw [← hbook, Option.some.inj hy, hsame]
      have hnum := take_of_recap_eq h hx₁ hok.1 hread hsame'
      have htake : b.shownLevels.take (getU32 (toI16 b.shownLevels.length)) = b.shownLevels := by
        rw [hnum, take_length]
      rw [htake] at hread hok
      exact ⟨fun h₀ => absurd h₀ ht, hlen, hroom, hnum,
        (recap_eq_iff h hx₁ hok.2 hread).mp hsame'⟩
    · rw [hhandle] at hy; cases hy
  intro hfits
  have htake : b.shownLevels.take (getU32 (toI16 b.shownLevels.length)) = b.shownLevels := by
    rw [hfits.numLevels, take_length]
  have hattach : ∀ l ∈ b.shownLevels,
      Listener.attached (Writer.sized (b.shownEntries l)).length ≤
        (Writer.sized (b.shownEntries l)).length := by
    intro l hl
    obtain ⟨earlier, later, heq⟩ := append_of_mem hl
    exact ((Listener.attached_eq_iff _).mpr (hfits.levels earlier l later heq).attach).le
  rw [htake, if_pos ⟨hfits.numLevels.le, hattach⟩] at hhandle
  obtain ⟨x₁, y₁, z, hz, hbook, hx₁, hread⟩ := hhandle
  refine ⟨_, z, (populateMsg_iff ht w _).mpr ⟨hfits.entryRoom, hfits.levelRoom, rfl⟩, hz, ?_⟩
  rw [hbook]
  exact (recap_eq_iff h hx₁ hattach hread).mpr hfits.levels

end Book

/-! ## Books built entry by entry -/

namespace EntryOp

def single : EntryOp → Bool
  | .addEntry .. => true
  | .updateEntry .. => true
  | .deleteEntry .. => true
  | _ => false

theorem keepsLevels_run (ops : List EntryOp) : ∀ {b b' : Book} {a : Nat},
    b.KeepsLevels (Book.anywhere true) a → (∀ op ∈ ops, op.single) → run b ops = some b' →
      b'.KeepsLevels (Book.anywhere true) a := by
  induction ops with
  | nil =>
    intro b b' a h _ hr
    cases hr
    exact h
  | cons op ops ih =>
    intro b b' a h hops hr
    obtain ⟨b₁, hs, hr⟩ := Option.bind_eq_some_iff.mp hr
    have hstep : LevelOp.step b (.entry op) = some b₁ := by
      have hop := hops op mem_cons_self
      cases op <;> first | exact hs | cases hop
    refine ih ?_ (fun op' hop' => hops op' (mem_cons_of_mem _ hop')) hr
    exact @LevelOp.keepsLevels_step true a b b₁ (.entry op) h (fun _ hbook => nomatch hbook)
      (fun _ => trivial) hstep

/-- The entries of the book have ids that are set and differ in a level and sizes of 32 bits, and
the prices are not rounded. -/
structure Entered (b : Book) : Prop where
  entries : b.AllLevels fun _ _ l => ∀ e ∈ l.entryList, e.id ≠ "" ∧ e.size < 2 ^ 32
  unique : b.AllLevels fun _ _ l => (l.entryList.map Entry.id).Nodup
  round : b.AllLevels fun _ p _ => roundPrice p = p

theorem sized_ne_nil {b : Book} {l : PriceLevel}
    (hsize : l.size = sumOn (b.counts l) Entry.size l.entryList) (hne : l.size ≠ 0) :
    Writer.sized (b.shownEntries l) ≠ [] := by
  intro hnil
  refine hne (hsize.trans (sum_eq_zero fun n hn => ?_))
  obtain ⟨e, he, rfl⟩ := mem_map.mp hn
  by_contra hpos
  have hmem : e ∈ Writer.sized (b.shownEntries l) := mem_filter.mpr ⟨he, by simpa using hpos⟩
  rw [hnil] at hmem
  cases hmem

theorem recapable_of_run {addr : Nat} {sourceOk : Nat → Bool} {check publish : Bool}
    {ops : List EntryOp} {b : Book} (hops : ∀ op ∈ ops, op.single)
    (hrun : run (Book.start addr sourceOk check publish) ops = some b) (he : Entered b) :
    b.AllLevels b.Recapable := by
  have hkeep := keepsLevels_run ops
    (LevelOp.keepsLevels_start true addr sourceOk check publish) hops hrun
  have htotals := hasTotals_run ops
    (Book.hasTotals_start addr sourceOk check publish _) hrun
  intro s p l hl
  have hk := hkeep.levels s p l hl
  obtain ⟨hlinked, ht⟩ := htotals.levels s p l hl
  refine ⟨hk.price, hk.side, he.round s p l hl, sized_ne_nil ?_, he.entries s p l hl,
    he.unique s p l hl⟩
  have hcounts : b.counts l = Env.sees ⟨addr, check, sourceOk, publish⟩ := by
    funext e
    rw [Book.counts_of_linked (by rw [hlinked, htotals.addr]), htotals.seesEntry]
  rw [hcounts]
  exact ht.size

theorem publishes_of_run {addr : Nat} {sourceOk : Nat → Bool} {check : Bool} {ops : List EntryOp}
    {b : Book} (hrun : run (Book.start addr sourceOk check true) ops = some b) :
    b.generateDeltas :=
  congrArg Env.generateDeltas
    (hasTotals_run ops (Book.hasTotals_start addr sourceOk check true _) hrun).env

/-- The recap of a publishing book that was built entry by entry, whatever its name and its time,
is read by a new listener as the book is iff it fits the messages. -/
theorem recap_kept_iff (addr : Nat) (sourceOk : Nat → Bool) (check : Bool)
    (ops : List EntryOp) (b : Book) (hops : ∀ op ∈ ops, op.single)
    (hrun : run (Book.start addr sourceOk check true) ops = some b) (he : Entered b)
    (symbol partId : String) (bookTime : DateTime) (w : Writer) (addr' : Nat)
    (sourceOk' : Nat → Bool) (junk : Nat) :
    RecapRoundTrip { b with symbol := symbol, partId := partId, bookTime := bookTime } w
        (.new addr' sourceOk' junk) ↔
      Writer.RecapFits { b with symbol := symbol, partId := partId, bookTime := bookTime } w := by
  have hg : b.generateDeltas := publishes_of_run hrun
  refine Book.recapRoundTrip_iff (fun s p l hl => ?_) (by exact hg) w addr' sourceOk' junk
  have hr := recapable_of_run hops hrun he s p l hl
  exact ⟨hr.price, hr.side, hr.round, hr.sized, hr.entries, hr.unique⟩

/-- A bid with two entries, the second of which has no size. -/
def lastUnsized : List EntryOp :=
  [.addEntry true .bid 10 (Entry.new ⟨9, 0⟩ "a" 5 .add .null none) .null,
    .addEntry true .bid 10 (Entry.new ⟨9, 1⟩ "b" 0 .add .null none) .null]

theorem single_lastUnsized : ∀ op ∈ lastUnsized, op.single := by simp [lastUnsized, single]

theorem entered_lastUnsized :
    ∃ b, run (Book.start 0 (fun _ => true) false true) lastUnsized = some b ∧ Entered b ∧
      ∃ l, b.shownLevels = [l] ∧ (Writer.sized (b.shownEntries l)).length = 1 ∧
        ∃ e, (b.shownEntries l).getLast? = some e ∧ e.size = 0 := by
  refine ⟨_, rfl, ⟨?_, ?_, ?_⟩, _, rfl, rfl, _, rfl, rfl⟩ <;>
  · refine Book.allLevels_of_toList ?_ ?_ <;> decide +kernel

theorem recap_lastUnsized :
    ∃ b, run (Book.start 0 (fun _ => true) false true) lastUnsized = some b ∧
      (RecapRoundTrip { b with symbol := "s", partId := "", bookTime := .null } ⟨[], []⟩
          (.new 1 (fun _ => true) 0) ↔
        Writer.RecapFits { b with symbol := "s", partId := "", bookTime := .null } ⟨[], []⟩) := by
  obtain ⟨b, hrun, he, -⟩ := entered_lastUnsized
  exact ⟨b, hrun, recap_kept_iff 0 (fun _ => true) false lastUnsized b single_lastUnsized hrun
    he "s" "" .null ⟨[], []⟩ 1 (fun _ => true) 0⟩

/-- The entry without a size, which comes last, is sent in place of the one that has a size. -/
theorem recap_sends_last :
    ∃ b, run (Book.start 0 (fun _ => true) false true) lastUnsized = some b ∧ Entered b ∧
      ¬ RecapRoundTrip b ⟨[], []⟩ (.new 1 (fun _ => true) 0) := by
  obtain ⟨b, hrun, he, l, hl, hone, e, hlast, hzero⟩ := entered_lastUnsized
  refine ⟨b, hrun, he, fun h => ?_⟩
  have hfits := (Book.recapRoundTrip_iff (recapable_of_run single_lastUnsized hrun he)
    (publishes_of_run hrun) _ _ _ _).mp h
  exact (hfits.levels [] l [] hl).single hone e hlast hzero

end EntryOp

end Mamda

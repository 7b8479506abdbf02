import Mathlib.Data.Fintype.EquivFin
import OpenMama.Lib.Until
import OpenMama.Mama.DictionaryFile

/-!
# Runs of a dictionary

Whatever is done to a new dictionary, its table is in order (`Rep`) and has room for the greatest
`fid` (`Room`).  It is counted and looked up right (`Lawful`) as long as the count, the flag of
duplicate names and the size of the array are right (`Kept`), and they stay right after an operation
if and only if the operation meets a condition (`Changes.keeps_iff`).
-/

namespace Mama.Dictionary

open List Option

variable {d d' d'' : DictionaryImpl} {fds : List FieldDescriptor}

/-! ## Operations -/

inductive Op
  | setMaxFid (maxFid : Nat)
  | createFieldDescriptor (fid : UInt16) (name : List Char) (type : Int32)
  | populateFromFile (text : List Char)
  | buildDictionaryFromMessage (msg : Msg)
  deriving DecidableEq, Repr

def step (d : DictionaryImpl) : Op → Option DictionaryImpl
  | .setMaxFid maxFid => setMaxFid d maxFid
  | .createFieldDescriptor fid name type => createFieldDescriptor d fid name type
  | .populateFromFile text => populateFromFile d text
  | .buildDictionaryFromMessage msg => buildDictionaryFromMessage d msg

def run (ops : List Op) : Option DictionaryImpl := ops.foldlM step create

def MsgField.descriptor (field : MsgField) : FieldDescriptor :=
  ⟨field.fid, field.type.code, field.name⟩

def Op.entries : Op → List FieldDescriptor
  | .setMaxFid _ => []
  | .createFieldDescriptor fid name type => [⟨fid, type, name⟩]
  | .populateFromFile text => readFile text
  | .buildDictionaryFromMessage msg => msg.map MsgField.descriptor

def Op.capacity (d : DictionaryImpl) (op : Op) : Nat :=
  match op with
  | .setMaxFid maxFid =>
    if d.mDict.isSome then grow d.mDictSize (UInt16.ofNat maxFid) else d.mDictSize
  | .buildDictionaryFromMessage msg =>
    if msg = [] then d.mDictSize
    else sizeAfter (start (determineMaxFid d msg)) (op.entries.map FieldDescriptor.mFid)
  | _ =>
    if op.entries = [] then d.mDictSize
    else sizeAfter (start d) (op.entries.map FieldDescriptor.mFid)

def Op.checks : Op → Bool
  | .buildDictionaryFromMessage _ => true
  | _ => false

/-- The operation looks for duplicate names in an array that there is not. -/
def Op.Crashes (d : DictionaryImpl) (op : Op) : Prop :=
  op = .buildDictionaryFromMessage [] ∧ d.mDict = none ∧ d.mMaxFid ≠ 0

/-! ## Steps -/

structure Changes (d : DictionaryImpl) (op : Op) (d' : DictionaryImpl) : Prop where
  rep : Rep d'
  room : Room d'
  size : d'.mSize = d.mSize + op.entries.length
  dictSize : d'.mDictSize = op.capacity d
  hasDuplicates : d'.mHasDuplicates =
    if op.checks then decide ¬ ((stored d').map FieldDescriptor.mName).Nodup else d.mHasDuplicates
  fresh : Fresh d op.entries → (stored d').Perm (op.entries ++ stored d)
  notFresh : ¬ Fresh d op.entries → (stored d').length < (stored d).length + op.entries.length

theorem Stores.feed {feedHost feedName : Option (List Char)}
    (h : Stores { d with mFeedHost := feedHost, mFeedName := feedName } fds d') : Stores d fds d' :=
  ⟨h.rep, h.size, h.hasDuplicates, h.maxFid, h.unchanged, h.dictSize, h.fresh, h.notFresh, h.mem⟩

theorem dictMsgIterator_spec (h : Rep d) (msg : Msg) (field : MsgField) :
    ∃ d', dictMsgIterator d msg field = some d' ∧ Stores d [field.descriptor] d' := by
  have hfeed : ∃ feedHost feedName, dictMsgIterator d msg field = createFieldDescriptor
      { d with mFeedHost := feedHost, mFeedName := feedName } field.fid field.name
      field.type.code := by
    unfold dictMsgIterator
    split
    · split
      · exact ⟨d.mFeedHost, _, rfl⟩
      · exact ⟨d.mFeedHost, d.mFeedName, rfl⟩
    · split
      · split
        · exact ⟨_, d.mFeedName, rfl⟩
        · exact ⟨d.mFeedHost, d.mFeedName, rfl⟩
      · exact ⟨d.mFeedHost, d.mFeedName, rfl⟩
  obtain ⟨feedHost, feedName, heq⟩ := hfeed
  have hrep : Rep { d with mFeedHost := feedHost, mFeedName := feedName } :=
    ⟨h.size, h.placed, h.below⟩
  obtain ⟨d', hd', hstores⟩ := createFieldDescriptor_spec hrep field.descriptor
  exact ⟨d', heq.trans hd', hstores.feed⟩

theorem foldlM_dictMsgIterator_spec (h : Rep d) (msg fields : Msg) :
    ∃ d', fields.foldlM (fun d field => dictMsgIterator d msg field) d = some d' ∧
      Stores d (fields.map MsgField.descriptor) d' := by
  induction fields generalizing d with
  | nil => exact ⟨d, rfl, Stores.refl h⟩
  | cons field fields ih =>
    obtain ⟨d₁, hd₁, hfirst⟩ := dictMsgIterator_spec h msg field
    obtain ⟨d₂, hd₂, hrest⟩ := ih hfirst.rep
    refine ⟨d₂, ?_, hfirst.cons hrest⟩
    rwa [foldlM_cons, hd₁]

theorem determineMaxFid_eq (d : DictionaryImpl) (msg : Msg) : determineMaxFid d msg =
    { d with mMaxFid := (msg.map MsgField.fid).foldl raise d.mMaxFid } := by
  unfold determineMaxFid
  induction msg generalizing d with
  | nil => rfl
  | cons field msg ih =>
    have hfirst : maxIterator d field = { d with mMaxFid := raise d.mMaxFid field.fid } := by
      unfold maxIterator raise
      split <;> rfl
    rw [foldl_cons, ih, hfirst]
    rfl

theorem le_foldl_raise (maxFid : UInt16) (fids : List UInt16) : maxFid ≤ fids.foldl raise maxFid :=
  foldlRecOn fids _ (UInt16.le_refl _) fun m hm fid _ => UInt16.le_trans hm (le_raise m fid)

theorem buildDictionaryFromMessage_spec (h : Rep d) (hroom : Room d) (msg : Msg)
    (hcrash : ¬ (Op.buildDictionaryFromMessage msg).Crashes d) :
    ∃ d', buildDictionaryFromMessage d msg = some d' ∧
      Changes d (.buildDictionaryFromMessage msg) d' := by
  have hfids : (msg.map MsgField.descriptor).map FieldDescriptor.mFid = msg.map MsgField.fid :=
    map_map
  generalize hd₁ : determineMaxFid d msg = d₁
  have heq := (determineMaxFid_eq d msg).symm.trans hd₁
  have hrep : Rep d₁ := by
    subst heq
    refine ⟨h.size, h.placed, fun fd hfd => ?_⟩
    exact UInt16.le_trans (h.below fd hfd) (le_foldl_raise _ _)
  obtain ⟨d₂, hd₂, hstores⟩ := foldlM_dictMsgIterator_spec hrep msg msg
  have hroom₂ : Room d₂ := by
    refine hstores.room (show d₁.mDict.isSome → d.mMaxFid.toNat < d₁.mDictSize from ?_) ?_
    · subst heq; exact hroom
    · subst heq
      rw [hfids]
      exact foldl_raise_mem d.mMaxFid (msg.map MsgField.fid)
  have hnone : d₂.mDict = none → d₂.mMaxFid = 0 := by
    intro hdict
    cases msg with
    | nil =>
      subst heq
      obtain ⟨hsame, -⟩ := hstores.unchanged rfl
      rw [hstores.maxFid]
      by_contra hmax
      exact hcrash ⟨rfl, hsame.symm.trans hdict, hmax⟩
    | cons field msg =>
      have hsome := (hstores.dictSize (cons_ne_nil _ _)).1
      rw [hdict] at hsome
      cases hsome
  have hbuild : buildDictionaryFromMessage d msg = some { d₂ with
      mHasDuplicates := decide ¬ ((stored d₂).map FieldDescriptor.mName).Nodup } := by
    rw [buildDictionaryFromMessage, getAndStoreFields, hd₁, hd₂]
    exact hstores.rep.checkForDuplicateNames_eq hroom₂ hnone
  refine ⟨_, hbuild, ⟨hstores.rep.size, hstores.rep.placed, hstores.rep.below⟩, hroom₂, ?_, ?_, ?_,
    ?_, ?_⟩
  · subst heq; exact hstores.size
  · show d₂.mDictSize = if msg = [] then _ else _
    rw [hd₁]
    split
    · next hnil => subst heq hnil; exact (hstores.unchanged rfl).2
    · next hne => exact (hstores.dictSize (mt List.map_eq_nil_iff.mp hne)).2
  · rfl
  · subst heq; exact hstores.fresh
  · subst heq; exact hstores.notFresh

variable {op : Op}

theorem Stores.changes (h : Stores d op.entries d') (hroom : Room d)
    (hcapacity : op.capacity d = if op.entries = [] then d.mDictSize else sizeAfter (start d)
      (op.entries.map FieldDescriptor.mFid))
    (hchecks : op.checks = false) : Changes d op d' where
  rep := h.rep
  room := h.room hroom (.inl rfl)
  size := h.size
  dictSize := by
    rw [hcapacity]
    split
    · next hnil => exact (h.unchanged hnil).2
    · next hne => exact (h.dictSize hne).2
  hasDuplicates := by
    rw [hchecks]; exact h.hasDuplicates
  fresh := h.fresh
  notFresh := h.notFresh

theorem setMaxFid_spec (h : Rep d) (hroom : Room d) (maxFid : Nat) :
    ∃ d', setMaxFid d maxFid = some d' ∧ Changes d (.setMaxFid maxFid) d' := by
  have hfresh : Fresh d [] := ⟨nodup_nil, fun _ h => by cases h⟩
  unfold setMaxFid
  by_cases hdict : d.mDict.isSome
  · obtain ⟨d', hd', hrep, hsome, hstored, hsize, hdup, hmax, hdictSize⟩ :=
      ensureCapacity_spec h hdict (UInt16.ofNat maxFid)
    rw [if_pos hdict, hd']
    refine ⟨d', rfl, hrep, fun _ => ?_, hsize, ?_, hdup, fun _ => .of_eq hstored,
      fun hnot => (hnot hfresh).elim⟩
    · rw [hmax, hdictSize]
      rcases raise_eq_or d.mMaxFid (UInt16.ofNat maxFid) with heq | heq
      · rw [heq]; exact Nat.lt_of_lt_of_le (hroom hdict) (le_grow _ _)
      · rw [heq]; exact lt_grow _ _
    · show _ = if d.mDict.isSome then _ else _
      rwa [if_pos hdict]
  rw [if_neg hdict]
  have hnone : stored d = [] := by
    rw [stored, slots, not_isSome_iff_eq_none.mp hdict]; rfl
  refine ⟨_, rfl, ⟨h.size, h.placed, fun fd hfd => ?_⟩, fun hsome => (hdict hsome).elim, rfl, ?_,
    rfl, fun _ => .refl _, fun hnot => (hnot hfresh).elim⟩
  · have hfd : fd ∈ stored d := hfd
    rw [hnone] at hfd
    cases hfd
  · show _ = if d.mDict.isSome then _ else _
    rw [if_neg hdict]

/-- **One operation.** -/
theorem step_spec (h : Rep d) (hroom : Room d) (hcrash : ¬ op.Crashes d) :
    ∃ d', step d op = some d' ∧ Changes d op d' := by
  cases op with
  | setMaxFid maxFid => exact setMaxFid_spec h hroom maxFid
  | createFieldDescriptor fid name type =>
    obtain ⟨d', hd', hstores⟩ := createFieldDescriptor_spec h ⟨fid, type, name⟩
    exact ⟨d', hd', Stores.changes hstores hroom rfl rfl⟩
  | populateFromFile text =>
    obtain ⟨d', hd', hstores⟩ := createAll_spec h (readFile text)
    exact ⟨d', (populateFromFile_eq d text).trans hd', Stores.changes hstores hroom rfl rfl⟩
  | buildDictionaryFromMessage msg => exact buildDictionaryFromMessage_spec h hroom msg hcrash

theorem step_eq_none (hcrash : op.Crashes d) : step d op = none := by
  obtain ⟨rfl, hdict, hmax⟩ := hcrash
  exact checkForDuplicateNames_eq_none hdict hmax

theorem step_cases (h : Rep d) (hroom : Room d) (hstep : step d op = some d') :
    ¬ op.Crashes d ∧ Changes d op d' := by
  have hcrash : ¬ op.Crashes d := by
    intro hcrash
    rw [step_eq_none hcrash] at hstep
    cases hstep
  obtain ⟨d₁, hd₁, hchanges⟩ := step_spec h hroom hcrash
  cases hd₁.symm.trans hstep
  exact ⟨hcrash, hchanges⟩

/-! ## What is counted and looked up -/

/-- The count, the array, the lookups and the flag are right. -/
structure Lawful (d : DictionaryImpl) : Prop where
  size : d.mSize = (stored d).length
  rep : Rep d
  room : Room d
  increasing : (stored d).Pairwise fun x y => x.mFid < y.mFid
  byIndex : ∀ index : UInt16, index.toNat < d.mSize → ∃ info, (stored d)[index.toNat]? = some info ∧
    getFieldDescriptorByIndex d index = some (.ok info)
  byName : ∀ fname, getFieldDescriptorByName d fname =
    some (match (stored d).find? (fun fd => fd.mName = fname) with
      | some info => .ok info
      | none => .error .notFound)
  byNameAll : ∀ fname size, 0 < size → ∃ fuel, getFieldDescriptorByNameAll d fname size fuel =
    some (.ok (((stored d).filter fun fd => fd.mName = fname).take size))
  hasDuplicates : d.mHasDuplicates ↔ ¬ ((stored d).map FieldDescriptor.mName).Nodup

structure Kept (d : DictionaryImpl) : Prop where
  size : d.mSize = (stored d).length
  dictSize : d.mDictSize ≤ 65535
  hasDuplicates : d.mHasDuplicates ↔ ¬ ((stored d).map FieldDescriptor.mName).Nodup

theorem kept_create : Kept create where
  size := rfl
  dictSize := Nat.zero_le _
  hasDuplicates := ⟨nofun, fun h => (h nodup_nil).elim⟩

theorem exists_fresh_name (fds : List FieldDescriptor) : ∃ fname, ∀ fd ∈ fds, fd.mName ≠ fname := by
  obtain ⟨fname, hfname⟩ := Infinite.exists_notMem_finset
    (fds.map FieldDescriptor.mName).toFinset
  refine ⟨fname, fun fd hfd heq => hfname ?_⟩
  rw [List.mem_toFinset]
  exact List.mem_map.mpr ⟨fd, hfd, heq⟩

/-- **What has to be kept.** -/
theorem Rep.lawful_iff (h : Rep d) (hroom : Room d) : Lawful d ↔ Kept d := by
  constructor
  · intro hlaw
    refine ⟨hlaw.size, ?_, hlaw.hasDuplicates⟩
    -- a name that is not stored is looked for without an end in a larger array
    by_contra hsize
    obtain ⟨fname, hfname⟩ := exists_fresh_name (stored d)
    obtain ⟨fuel, hfuel⟩ := hlaw.byNameAll fname 1 Nat.one_pos
    unfold getFieldDescriptorByNameAll at hfuel
    rw [findNameAll_eq_none (Nat.lt_of_not_le hsize) hfname] at hfuel
    cases hfuel
  intro hkept
  refine ⟨hkept.size, h, hroom, h.pairwise, fun index hindex => ?_, h.getFieldDescriptorByName_eq,
    fun fname size hpos => ⟨_, h.getFieldDescriptorByNameAll_eq hkept.dictSize fname hpos⟩,
    hkept.hasDuplicates⟩
  have hlt : index.toNat < (stored d).length := hkept.size ▸ hindex
  refine ⟨(stored d)[index.toNat], getElem?_eq_getElem hlt, ?_⟩
  rw [h.getFieldDescriptorByIndex_eq, if_neg (Nat.not_le.mpr hindex), getElem?_eq_getElem hlt]

/-- The condition on an operation: it makes new descriptors, whose names are compared or new unless
there are duplicates anyway, the counter of a lookup can leave the array, and no array is read that
there is not. -/
structure Meets (d : DictionaryImpl) (op : Op) : Prop where
  fresh : Fresh d op.entries
  names : op.checks ∨ d.mHasDuplicates ∨
    ((op.entries ++ stored d).map FieldDescriptor.mName).Nodup
  capacity : op.capacity d ≤ 65535
  array : ¬ op.Crashes d

/-- **The condition is the one that is needed.** -/
theorem Changes.keeps_iff (h : Changes d op d') (hcrash : ¬ op.Crashes d) (hkept : Kept d) :
    Kept d' ↔ Meets d op := by
  have hsize : d'.mSize = (stored d').length ↔ Fresh d op.entries := by
    rw [h.size, hkept.size]
    constructor
    · intro heq
      by_contra hnot
      have := h.notFresh hnot
      omega
    · intro hfresh
      rw [(h.fresh hfresh).length_eq, length_append, Nat.add_comm]
  have hnames : Fresh d op.entries → ((d'.mHasDuplicates ↔
      ¬ ((stored d').map FieldDescriptor.mName).Nodup) ↔
      (op.checks ∨ d.mHasDuplicates ∨
        ((op.entries ++ stored d).map FieldDescriptor.mName).Nodup)) := by
    intro hfresh
    rw [h.hasDuplicates]
    cases op.checks with
    | true => simp
    | false =>
      have hperm := ((h.fresh hfresh).map FieldDescriptor.mName).nodup_iff
      have hstored : ((op.entries ++ stored d).map FieldDescriptor.mName).Nodup →
          ((stored d).map FieldDescriptor.mName).Nodup := by
        rw [map_append]
        exact List.Nodup.of_append_right
      have hflag := hkept.hasDuplicates
      tauto
  constructor
  · intro hkept'
    have hfresh := hsize.mp hkept'.size
    exact ⟨hfresh, (hnames hfresh).mp hkept'.hasDuplicates, h.dictSize ▸ hkept'.dictSize, hcrash⟩
  · intro hmeets
    exact ⟨hsize.mpr hmeets.fresh, h.dictSize ▸ hmeets.capacity,
      (hnames hmeets.fresh).mpr hmeets.names⟩

/-! ## Runs -/

theorem run_concat (ops : List Op) (op : Op) :
    run (ops ++ [op]) = (run ops).bind fun d => step d op := by
  unfold run
  rw [foldlM_append]
  cases ops.foldlM step create with
  | none => rfl
  | some d => exact bind_pure (step d op)

/-- **The table is in order in every run.** -/
theorem rep_of_run {ops : List Op} (h : run ops = some d) : Rep d ∧ Room d := by
  induction ops using List.reverseRecOn generalizing d with
  | nil => cases h; exact ⟨rep_create, room_create⟩
  | append_singleton ops op ih =>
    rw [run_concat] at h
    obtain ⟨d₁, hd₁, hstep⟩ := bind_eq_some_iff.mp h
    obtain ⟨hrep, hroom⟩ := ih hd₁
    obtain ⟨-, hchanges⟩ := step_cases hrep hroom hstep
    exact ⟨hchanges.rep, hchanges.room⟩

/-- **A dictionary is lawful in every state of a run if and only if each operation meets the
condition.** -/
theorem represented_iff (ops : List Op) :
    (∀ pre suf, ops = pre ++ suf → ∃ d, run pre = some d ∧ Lawful d) ↔
      ∀ pre op suf, ops = pre ++ op :: suf → ∃ d, run pre = some d ∧ Meets d op := by
  have hiff := @Lib.forall_split_iff Op ops (fun pre => ∃ d, run pre = some d ∧ Kept d)
    (fun pre op => ∃ d, run (pre ++ [op]) = some d ∧ Lawful d)
    (fun pre op => ∃ d, run pre = some d ∧ Meets d op)
    ⟨create, rfl, kept_create⟩
    (fun pre op suf _ => by
      rintro ⟨d, hd, hkept⟩
      obtain ⟨hrep, hroom⟩ := rep_of_run hd
      rw [run_concat, hd]
      constructor
      · rintro ⟨d', hstep, hlaw⟩
        obtain ⟨hcrash, hchanges⟩ := step_cases hrep hroom hstep
        have hkept' := (hchanges.rep.lawful_iff hchanges.room).mp hlaw
        exact ⟨d, rfl, (hchanges.keeps_iff hcrash hkept).mp hkept'⟩
      · rintro ⟨d₁, heq, hmeets⟩
        cases heq
        obtain ⟨d', hstep, hchanges⟩ := step_spec hrep hroom hmeets.array
        refine ⟨d', hstep, (hchanges.rep.lawful_iff hchanges.room).mpr ?_⟩
        exact (hchanges.keeps_iff hmeets.array hkept).mpr hmeets)
    fun pre op suf _ _ => by
      rintro ⟨d', hd', hlaw⟩; exact ⟨d', hd', (hlaw.rep.lawful_iff hlaw.room).mp hlaw⟩
  refine Iff.trans ⟨fun hall pre op suf hsplit => ?_, fun hall pre suf hsplit => ?_⟩ hiff
  · refine hall (pre ++ [op]) suf ?_
    rw [hsplit, append_assoc]
    rfl
  · rcases eq_nil_or_concat pre with rfl | ⟨pre, op, rfl⟩
    · exact ⟨create, rfl, (rep_create.lawful_iff room_create).mpr kept_create⟩
    · rw [concat_eq_append] at hsplit ⊢
      rw [append_assoc] at hsplit
      exact hall pre op suf hsplit

/-- Two descriptors with one `fid` are counted twice. -/
theorem not_represented : ¬ ∀ ops : List Op, ∀ pre suf, ops = pre ++ suf →
    ∃ d, run pre = some d ∧ Lawful d := by
  intro hall
  obtain ⟨d, hd, hlaw⟩ := hall [.createFieldDescriptor 1 ['a'] 8, .createFieldDescriptor 1 ['a'] 8]
    _ [] (append_nil _).symm
  have hsize : run [.createFieldDescriptor 1 ['a'] 8, .createFieldDescriptor 1 ['a'] 8] =
      some d → d.mSize = 2 ∧ (stored d).length = 1 := by
    intro h
    cases h
    exact ⟨rfl, rfl⟩
  obtain ⟨htwo, hone⟩ := hsize hd
  have := hlaw.size
  omega

end Mama.Dictionary

import OpenMama.Mama.DictionaryRuns

/-!
# Dictionaries that are sent and written

The message of a dictionary has a field for each descriptor whose type can be sent, and a new
dictionary that is built from it has the same descriptors (`rebuilt`).  A file of a dictionary is
read back as the dictionary if each of its lines fits into a piece (`written`).
-/

namespace Mama.Dictionary

open List

variable {d d' : DictionaryImpl} {fds : List FieldDescriptor}

/-! ## Messages -/

/-- The message of a dictionary can have a field of the type. -/
def supported (fd : FieldDescriptor) : Bool :=
  match FieldType.ofCode fd.mType with
  | none | some .QUANTITY | some .COLLECTION | some .UNKNOWN => false
  | some _ => true

theorem code_of_ofCode {code : Int32} {type : FieldType} (h : FieldType.ofCode code = some type) :
    type.code = code := by
  have := find?_some h
  exact of_decide_eq_true this

/-- **A descriptor is a field of its own type**, or none. -/
theorem addDescriptor_descriptors (msg : Msg) (fd : FieldDescriptor) :
    (addDescriptor msg fd).map MsgField.descriptor =
      msg.map MsgField.descriptor ++ if supported fd then [fd] else [] := by
  unfold addDescriptor supported
  cases htype : FieldType.ofCode fd.mType with
  | none => exact (append_nil _).symm
  | some type =>
    have hcode := code_of_ofCode htype
    have hadd : ∀ string,
        (msg ++ [(⟨fd.mName, fd.mFid, type, string⟩ : MsgField)]).map MsgField.descriptor =
        msg.map MsgField.descriptor ++ [fd] := by
      intro string
      rw [map_append, map_singleton]
      rw [MsgField.descriptor, hcode]
    cases type with
    | QUANTITY | COLLECTION | UNKNOWN => exact (append_nil _).symm
    | _ => exact hadd _

theorem foldl_addDescriptor (msg : Msg) (fds : List FieldDescriptor) :
    (fds.foldl addDescriptor msg).map MsgField.descriptor =
      msg.map MsgField.descriptor ++ fds.filter supported := by
  induction fds generalizing msg with
  | nil => exact (append_nil _).symm
  | cons fd fds ih =>
    rw [foldl_cons, ih, addDescriptor_descriptors, append_assoc]
    by_cases h : supported fd
    · rw [if_pos h, filter_cons_of_pos h, singleton_append]
    · rw [if_neg h, filter_cons_of_neg h, nil_append]

/-- The descriptor that is found for a `fid`, if there is one. -/
def descriptor (d : DictionaryImpl) (fid : UInt16) : Option FieldDescriptor :=
  match getFieldDescriptorByFid d fid with
  | some (.ok fd) => fd
  | _ => none

structure IsTable (d : DictionaryImpl) (table : List FieldDescriptor) : Prop where
  stored : stored d = table
  size : d.mSize = table.length
  byFid : ∀ fid, descriptor d fid = table.find? fun fd => fd.mFid = fid
  byName : ∀ fname, getFieldDescriptorByName d fname =
    some (match table.find? (fun fd => fd.mName = fname) with
      | some info => .ok info
      | none => .error .notFound)

theorem Rep.isTable (h : Rep d) (hsize : d.mSize = (stored d).length) : IsTable d (stored d) where
  stored := rfl
  size := hsize
  byFid fid := by
    rw [descriptor, h.getFieldDescriptorByFid_eq]
    by_cases hlt : fid.toNat ≥ d.mDictSize
    · rw [if_pos hlt]
      -- beyond the array nothing is stored
      refine (find?_eq_none.mpr fun fd hfd heq => ?_).symm
      have hfid : fd.mFid = fid := of_decide_eq_true heq
      have hslot := h.placed.slot_eq_some_iff.mpr hfd
      obtain ⟨hindex, -⟩ := List.getElem?_eq_some_iff.mp hslot
      rw [← h.size] at hindex
      unfold FieldDescriptor.index at hindex
      rw [hfid] at hindex
      omega
    · rw [if_neg hlt]
  byName := h.getFieldDescriptorByName_eq

/-- **A dictionary is built from the message of another**: it has the descriptors whose types can be
sent. -/
theorem Rep.rebuilt (h : Rep d) : ∃ msg d', getDictionaryMessage d = some msg ∧
    buildDictionaryFromMessage create msg = some d' ∧ IsTable d' ((stored d).filter supported) ∧
    (d'.mHasDuplicates ↔ ¬ (((stored d).filter supported).map FieldDescriptor.mName).Nodup) := by
  generalize hmsg : (stored d).foldl addDescriptor [] = msg
  have hentries : msg.map MsgField.descriptor = (stored d).filter supported := by
    rw [← hmsg, foldl_addDescriptor]; rfl
  obtain ⟨d', hd', hchanges⟩ := buildDictionaryFromMessage_spec rep_create room_create msg
    fun hcrash => hcrash.2.2 rfl
  have hpairwise := h.pairwise.filter supported
  have hfresh : Fresh create (msg.map MsgField.descriptor) := by
    refine ⟨?_, fun _ _ _ ho => by cases ho⟩
    rw [hentries]
    exact h.nodup_fids.sublist (filter_sublist.map _)
  have hperm : (stored d').Perm (msg.map MsgField.descriptor ++ stored create) :=
    hchanges.fresh hfresh
  rw [show stored create = [] from rfl, append_nil, hentries] at hperm
  have hstored := hchanges.rep.stored_eq hpairwise hperm
  have hsize : d'.mSize = (stored d').length := by
    rw [hchanges.size, hstored, ← hentries]; exact Nat.zero_add _
  refine ⟨msg, d', h.getDictionaryMessage_eq.trans (congrArg some hmsg), hd', ?_, ?_⟩
  · exact hstored ▸ hchanges.rep.isTable hsize
  · have hflag := hchanges.hasDuplicates
    rw [hstored] at hflag
    rw [hflag]
    simp [Op.checks]

/-- **A dictionary is sent and built again**, if the types of its descriptors can be sent. -/
theorem sent_and_rebuilt (hfids : (fds.map FieldDescriptor.mFid).Nodup)
    (hd : createAll create fds = some d) (htypes : ∀ fd ∈ fds, supported fd) :
    ∃ msg d', getDictionaryMessage d = some msg ∧ buildDictionaryFromMessage create msg = some d' ∧
      (stored d').Perm fds ∧ stored d' = stored d ∧ d'.mSize = d.mSize ∧
      (∀ fid, descriptor d' fid = descriptor d fid) ∧
      (∀ fname, getFieldDescriptorByName d' fname = getFieldDescriptorByName d fname) ∧
      (d'.mHasDuplicates ↔ ¬ (fds.map FieldDescriptor.mName).Nodup) := by
  obtain ⟨d₁, hd₁, hstores⟩ := createAll_spec rep_create fds
  obtain rfl := Option.some.inj (hd₁.symm.trans hd)
  have hperm : (stored d₁).Perm (fds ++ stored create) :=
    hstores.fresh ⟨hfids, fun _ _ _ ho => by cases ho⟩
  rw [show stored create = [] from rfl, append_nil] at hperm
  have hfilter : (stored d₁).filter supported = stored d₁ :=
    filter_eq_self.mpr fun fd hfd => htypes fd (hperm.mem_iff.mp hfd)
  have hsize : d₁.mSize = (stored d₁).length := by
    rw [hstores.size, hperm.length_eq]; exact Nat.zero_add _
  have htable := hstores.rep.isTable hsize
  obtain ⟨msg, d', hmsg, hd', htable', hflag⟩ := hstores.rep.rebuilt
  rw [hfilter] at htable' hflag
  refine ⟨msg, d', hmsg, hd', ?_, htable'.stored, htable'.size.trans hsize.symm, fun fid => ?_,
    fun fname => ?_, ?_⟩
  · rwa [htable'.stored]
  · rw [htable'.byFid, htable.byFid]
  · rw [htable'.byName, htable.byName]
  · rw [hflag, (hperm.map FieldDescriptor.mName).nodup_iff]

theorem sent_and_rebuilt_prices : ∃ d msg d',
    createAll create [⟨30, 27, ['a']⟩, ⟨7, 49, ['a']⟩] = some d ∧
      getDictionaryMessage d = some msg ∧
      buildDictionaryFromMessage create msg = some d' ∧ stored d' = stored d ∧
      d'.mHasDuplicates := by
  obtain ⟨d, hd, -⟩ := createAll_spec rep_create [⟨30, 27, ['a']⟩, ⟨7, 49, ['a']⟩]
  obtain ⟨msg, d', hmsg, hd', -, hstored, -, -, -, hflag⟩ :=
    sent_and_rebuilt (by decide) hd (by decide)
  exact ⟨d, msg, d', hd, hmsg, hd', hstored, hflag.mpr (by decide)⟩

/-- A descriptor with the type of a quantity is left out, and the arrays are not of the same
size. -/
theorem not_rebuilt :
    (∃ d msg d', createAll create [⟨1, 50, ['a']⟩] = some d ∧ getDictionaryMessage d = some msg ∧
      buildDictionaryFromMessage create msg = some d' ∧ stored d' ≠ stored d) ∧
    ∃ d msg d', createAll create [⟨1, 8, ['a']⟩] = some d ∧ getDictionaryMessage d = some msg ∧
      buildDictionaryFromMessage create msg = some d' ∧
      getFieldDescriptorByFid d 50 = some (.ok none) ∧
      getFieldDescriptorByFid d' 50 = some (.error .invalidArg) :=
  ⟨⟨_, _, _, rfl, rfl, rfl, by decide⟩, _, _, _, rfl, rfl, rfl, rfl, rfl⟩

/-! ## Files -/

/-- **A dictionary is written and read back**, if each of its lines fits into a piece; a longer name
is lost.  Every file is read, and lines without two delimiters make no difference. -/
theorem written_and_read {ops : List Op} (hd : run ops = some d)
    (hnames : ∀ fd ∈ stored d, Plain fd.mName) :
    ((∀ fd ∈ stored d, (record fd).length ≤ 254) → ReadsBack d) ∧
      (ReadsBack d → ∀ fd ∈ stored d, fd.mName.length ≤ 252) ∧
      ∀ text, (∃ d', populateFromFile d text = some d') ∧ Skipped text := by
  obtain ⟨hrep, -⟩ := rep_of_run hd
  refine ⟨hrep.readsBack hnames, fun h fd => length_name_le_of_readsBack h, fun text => ?_⟩
  obtain ⟨d', hd', -⟩ := createAll_spec hrep (readFile text)
  exact ⟨⟨d', (populateFromFile_eq d text).trans hd'⟩, skipped text⟩

theorem run_createFieldDescriptor (fd : FieldDescriptor) :
    ∃ d, run [.createFieldDescriptor fd.mFid fd.mName fd.mType] = some d ∧ stored d = [fd] := by
  obtain ⟨d, hd, hstores⟩ := createFieldDescriptor_spec rep_create fd
  have hstored := hstores.fresh ⟨nodup_singleton _, fun _ _ _ ho => by cases ho⟩
  refine ⟨d, ?_, perm_singleton.mp hstored⟩
  show (createFieldDescriptor create fd.mFid fd.mName fd.mType).bind some = some d
  rw [hd]
  rfl

theorem written_and_read_blank : ∃ d, run [.createFieldDescriptor 65535 ['a', ' '] (-3)] = some d ∧
    ReadsBack d := by
  obtain ⟨d, hd, hstored⟩ := run_createFieldDescriptor ⟨65535, -3, ['a', ' ']⟩
  refine ⟨d, hd, (written_and_read hd ?_).1 ?_⟩
  · rw [hstored]; exact forall_mem_singleton.mpr ⟨by decide, by decide, by decide⟩
  · rw [hstored]; decide

/-- A name of 253 characters. -/
theorem not_written_and_read : ¬ ∀ ops d, run ops = some d → (∀ fd ∈ stored d, Plain fd.mName) →
    ReadsBack d := by
  intro hall
  obtain ⟨d, hd, hstored⟩ := run_createFieldDescriptor ⟨1, 8, List.replicate 253 'a'⟩
  have hplain : ∀ fd ∈ stored d, Plain fd.mName := by
    rw [hstored]
    have hchar : ∀ c ∈ List.replicate 253 'a', c = 'a' := fun c => eq_of_mem_replicate
    exact forall_mem_singleton.mpr ⟨fun h => absurd (hchar _ h) (by decide),
      fun h => absurd (hchar _ h) (by decide), fun h => absurd (hchar _ h) (by decide)⟩
  have hle := length_name_le_of_readsBack (hall _ d hd hplain)
    (hstored ▸ mem_cons_self)
  rw [length_replicate] at hle
  omega

end Mama.Dictionary

import Mathlib.Algebra.Order.Group.Nat
import Mathlib.Data.List.Nodup
import Mathlib.Data.List.Perm.Basic
import OpenMama.Lib.SparseArray
import OpenMama.Mama.Dictionary

/-!
# The table of a dictionary

A dictionary holds a table of descriptors, each in the slot of its `fid` (`Rep`).  Descriptors
that are made with new `fid`s are added to the table, and what is looked up is looked up in the
table (`Stores`, `getFieldDescriptorByIndex_eq` and the like).
-/

namespace Mama.Dictionary

open List Option

variable {d d' d'' : DictionaryImpl} {fd : FieldDescriptor} {fds : List FieldDescriptor}

/-! ## The representation -/

def slots (d : DictionaryImpl) : List (Option FieldDescriptor) := d.mDict.getD []

def stored (d : DictionaryImpl) : List FieldDescriptor := (slots d).reduceOption

def FieldDescriptor.index (fd : FieldDescriptor) : Nat := fd.mFid.toNat

/-- Each descriptor is in its slot, and none is above the greatest `fid`. -/
structure Rep (d : DictionaryImpl) : Prop where
  size : d.mDictSize = (slots d).length
  placed : Lib.Placed FieldDescriptor.index (slots d)
  below : ∀ fd ∈ stored d, fd.mFid ≤ d.mMaxFid

/-- There is a slot for the greatest `fid`, once there is an array. -/
def Room (d : DictionaryImpl) : Prop := d.mDict.isSome → d.mMaxFid.toNat < d.mDictSize

theorem rep_create : Rep create where
  size := rfl
  placed i x h := by cases h
  below fd h := by cases h

theorem room_create : Room create := nofun

theorem slot_eq (d : DictionaryImpl) (i : Nat) : slot d i = (slots d)[i]? := by
  unfold slot slots
  cases d.mDict with
  | none => rfl
  | some _ => rfl

theorem slots_of_some {array : List (Option FieldDescriptor)} (h : d.mDict = some array) :
    slots d = array := by
  rw [slots, h]
  rfl

theorem Rep.pairwise (h : Rep d) : (stored d).Pairwise fun x y => x.mFid < y.mFid :=
  h.placed.pairwise.imp fun hlt => UInt16.lt_iff_toNat_lt.mpr hlt

theorem Rep.nodup_fids (h : Rep d) : ((stored d).map FieldDescriptor.mFid).Nodup := by
  refine pairwise_map.mpr (h.pairwise.imp fun hlt heq => ?_)
  rw [heq] at hlt
  exact absurd (UInt16.lt_iff_toNat_lt.mp hlt) (Nat.lt_irrefl _)

theorem Rep.stored_eq (h : Rep d) (hfds : fds.Pairwise fun x y => x.mFid < y.mFid)
    (hperm : (stored d).Perm fds) : stored d = fds := by
  refine List.Perm.eq_of_pairwise ?_ h.pairwise hfds hperm
  intro x y _ _ hlt hgt
  rw [UInt16.lt_iff_toNat_lt] at hlt hgt
  omega

/-! ## Growing -/

/-- The size of the array when there has to be a slot for a `fid`. -/
def grow (size : Nat) (fid : UInt16) : Nat :=
  if size < fid.toNat + 1 then fid.toNat + 100 else size

/-- The size after descriptors with these `fid`s. -/
def sizeAfter (size : Nat) (fids : List UInt16) : Nat := fids.foldl grow size

/-- The greater of two `fid`s. -/
def raise (maxFid fid : UInt16) : UInt16 := if fid > maxFid then fid else maxFid

def start (d : DictionaryImpl) : Nat :=
  if d.mDict.isSome then d.mDictSize else d.mMaxFid.toNat + 1

theorem le_grow (size : Nat) (fid : UInt16) : size ≤ grow size fid := by
  unfold grow
  split <;> omega

theorem lt_grow (size : Nat) (fid : UInt16) : fid.toNat < grow size fid := by
  unfold grow
  split <;> omega

theorem le_sizeAfter (size : Nat) (fids : List UInt16) : size ≤ sizeAfter size fids := by
  induction fids generalizing size with
  | nil => exact Nat.le_refl size
  | cons fid fids ih => exact (le_grow size fid).trans (ih (grow size fid))

theorem lt_sizeAfter {fid : UInt16} {fids : List UInt16} (h : fid ∈ fids) (size : Nat) :
    fid.toNat < sizeAfter size fids := by
  induction fids generalizing size with
  | nil => cases h
  | cons fid' fids ih =>
    rcases mem_cons.mp h with rfl | h
    · exact (lt_grow size fid).trans_le (le_sizeAfter (grow size fid) fids)
    · exact ih h (grow size fid')

theorem le_raise (maxFid fid : UInt16) : maxFid ≤ raise maxFid fid := by
  unfold raise
  simp only [UInt16.lt_iff_toNat_lt, UInt16.le_iff_toNat_le]
  split <;> omega

theorem le_raise' (maxFid fid : UInt16) : fid ≤ raise maxFid fid := by
  unfold raise
  simp only [UInt16.lt_iff_toNat_lt, UInt16.le_iff_toNat_le]
  split <;> omega

theorem raise_eq_or (maxFid fid : UInt16) : raise maxFid fid = maxFid ∨ raise maxFid fid = fid := by
  unfold raise
  split
  · exact .inr rfl
  · exact .inl rfl

theorem foldl_raise_mem (maxFid : UInt16) (fids : List UInt16) :
    fids.foldl raise maxFid = maxFid ∨ fids.foldl raise maxFid ∈ fids := by
  induction fids generalizing maxFid with
  | nil => exact .inl rfl
  | cons fid fids ih =>
    rcases ih (raise maxFid fid) with h | h
    · rw [foldl_cons, h]
      rcases raise_eq_or maxFid fid with heq | heq
      · exact .inl heq
      · rw [heq]; exact .inr mem_cons_self
    · exact .inr (mem_cons_of_mem fid h)

theorem ensureCapacity_spec (h : Rep d) (hdict : d.mDict.isSome) (fid : UInt16) :
    ∃ d', ensureCapacity d fid = some d' ∧ Rep d' ∧ d'.mDict.isSome ∧ stored d' = stored d ∧
      d'.mSize = d.mSize ∧ d'.mHasDuplicates = d.mHasDuplicates ∧
      d'.mMaxFid = raise d.mMaxFid fid ∧ d'.mDictSize = grow d.mDictSize fid := by
  obtain ⟨array, harray⟩ := isSome_iff_exists.mp hdict
  have hslots := slots_of_some harray
  have hraised : (if fid > d.mMaxFid then { d with mMaxFid := fid } else d) =
      { d with mMaxFid := raise d.mMaxFid fid } := by
    unfold raise
    split <;> rfl
  have hbelow : ∀ fd ∈ stored d, fd.mFid ≤ raise d.mMaxFid fid := by
    intro fd hfd
    have hle := UInt16.le_iff_toNat_le.mp (h.below fd hfd)
    exact UInt16.le_iff_toNat_le.mpr (hle.trans (UInt16.le_iff_toNat_le.mp (le_raise _ _)))
  rw [ensureCapacity, hraised]
  by_cases hgrow : fid.toNat + 1 > d.mDictSize
  · have hlength : d.mDictSize = array.length := hslots ▸ h.size
    rw [if_pos hgrow]
    rw [harray, getD_some, if_pos hlength.le, hlength, take_length]
    refine ⟨_, rfl, ⟨?_, ?_, ?_⟩, rfl, ?_, rfl, rfl, rfl, ?_⟩
    · show fid.toNat + 100 = (array ++ List.replicate _ none).length
      rw [length_append, length_replicate]
      omega
    · show Lib.Placed _ (array ++ List.replicate _ none); exact (hslots ▸ h.placed).grow _
    · intro fd hfd
      refine hbelow fd ?_
      have hmem :
          fd ∈ (array ++ List.replicate (fid.toNat + 100 - array.length) none).reduceOption :=
        hfd
      rwa [Lib.reduceOption_grow, ← hslots] at hmem
    · show (array ++ List.replicate _ none).reduceOption = _
      rw [Lib.reduceOption_grow, ← hslots]
      rfl
    · rw [grow, if_pos (by omega)]
  · rw [if_neg hgrow]
    refine ⟨_, rfl, ⟨h.size, h.placed, hbelow⟩, hdict, rfl, rfl, rfl, rfl, ?_⟩
    rw [grow, if_neg (by omega)]

/-! ## Making descriptors -/

/-- The `fid`s of some descriptors are their own, and no others are stored under them. -/
def Fresh (d : DictionaryImpl) (fds : List FieldDescriptor) : Prop :=
  (fds.map FieldDescriptor.mFid).Nodup ∧ ∀ fd ∈ fds, ∀ old ∈ stored d, old.mFid ≠ fd.mFid

/-- What changes when descriptors are made, the feed aside. -/
structure Stores (d : DictionaryImpl) (fds : List FieldDescriptor) (d' : DictionaryImpl) :
    Prop where
  rep : Rep d'
  size : d'.mSize = d.mSize + fds.length
  hasDuplicates : d'.mHasDuplicates = d.mHasDuplicates
  maxFid : d'.mMaxFid = (fds.map FieldDescriptor.mFid).foldl raise d.mMaxFid
  unchanged : fds = [] → d'.mDict = d.mDict ∧ d'.mDictSize = d.mDictSize
  dictSize : fds ≠ [] → d'.mDict.isSome ∧
    d'.mDictSize = sizeAfter (start d) (fds.map FieldDescriptor.mFid)
  fresh : Fresh d fds → (stored d').Perm (fds ++ stored d)
  notFresh : ¬ Fresh d fds → (stored d').length < (stored d).length + fds.length
  mem : ∀ fd ∈ stored d', fd ∈ fds ∨ fd ∈ stored d

theorem createFieldDescriptor_spec (h : Rep d) (fd : FieldDescriptor) :
    ∃ d', createFieldDescriptor d fd.mFid fd.mName fd.mType = some d' ∧ Stores d [fd] d' := by
  -- the array that the descriptor is put into
  generalize hd₁ : (if d.mDict.isNone then createDictArray d else d) = d₁
  have harray : Rep d₁ ∧ d₁.mDict.isSome ∧ stored d₁ = stored d ∧ d₁.mSize = d.mSize ∧
      d₁.mHasDuplicates = d.mHasDuplicates ∧ d₁.mMaxFid = d.mMaxFid ∧ d₁.mDictSize = start d := by
    subst hd₁
    unfold start
    cases hdict : d.mDict with
    | none =>
      have hempty : stored (createDictArray d) = [] := reduceOption_replicate_none
      have hnone : stored d = [] := by
        rw [stored, slots, hdict]; rfl
      refine ⟨⟨?_, Lib.Placed.replicate _, ?_⟩, rfl, hempty.trans hnone.symm, rfl, rfl, rfl, rfl⟩
      · show _ = (List.replicate (d.mMaxFid.toNat + 1) (none : Option FieldDescriptor)).length
        rw [length_replicate]
        rfl
      · show ∀ fd ∈ stored (createDictArray d), _
        rw [hempty]
        exact fun _ h => by cases h
    | some array =>
      show Rep d ∧ d.mDict.isSome ∧ _; exact ⟨h, by rw [hdict]; rfl, rfl, rfl, rfl, rfl, rfl⟩
  obtain ⟨hrep₁, hsome₁, hstored₁, hsize₁, hdup₁, hmax₁, hdictSize₁⟩ := harray
  obtain ⟨d₂, hd₂, hrep₂, hsome₂, hstored₂, hsize₂, hdup₂, hmax₂, hdictSize₂⟩ :=
    ensureCapacity_spec hrep₁ hsome₁ fd.mFid
  obtain ⟨array, harray⟩ := isSome_iff_exists.mp hsome₂
  have hslots := slots_of_some harray
  have hlt : fd.mFid.toNat < array.length := by
    have := lt_grow d₁.mDictSize fd.mFid
    rwa [← hdictSize₂, hrep₂.size, hslots] at this
  have hplaced : Lib.Placed FieldDescriptor.index array := hslots ▸ hrep₂.placed
  have hstored : array.reduceOption = stored d := by
    rw [← hslots]; exact hstored₂.trans hstored₁
  have hmade : createFieldDescriptor d fd.mFid fd.mName fd.mType = some { d₂ with
      mDict := some (array.set fd.mFid.toNat (some fd))
      mSize := d₂.mSize + 1 } := by
    unfold createFieldDescriptor
    rw [hd₁]
    dsimp only
    rw [hd₂]
    show (d₂.mDict.bind fun slots => if fd.mFid.toNat < slots.length then _ else none) = _
    rw [harray, bind_some, if_pos hlt]
  have hfresh : Fresh d [fd] ↔ array[fd.mFid.toNat]? = some none := by
    rw [hplaced.slot_eq_none_iff hlt, hstored]
    unfold Fresh
    have : ((∀ x ∈ [fd], ∀ old ∈ stored d, old.mFid ≠ x.mFid) ↔
        ∀ old ∈ stored d, old.index ≠ fd.mFid.toNat) := by
      simp only [forall_mem_singleton]
      exact forall₂_congr fun old _ => not_congr UInt16.toNat_inj.symm
    rw [this]
    exact and_iff_right (nodup_singleton _)
  have hmem : ∀ x ∈ (array.set fd.mFid.toNat (some fd)).reduceOption, x = fd ∨ x ∈ stored d := by
    intro x hx
    obtain ⟨i, hi⟩ := Lib.mem_reduceOption.mp hx
    rw [getElem?_set] at hi
    by_cases heq : fd.mFid.toNat = i
    · rw [if_pos heq, if_pos hlt] at hi; exact .inl (some.inj (some.inj hi)).symm
    · rw [if_neg heq] at hi
      rw [← hstored]
      exact .inr (Lib.mem_reduceOption.mpr ⟨i, hi⟩)
  refine ⟨_, hmade, ⟨?_, ?_, ?_⟩, ?_, hdup₂.trans hdup₁, ?_, nofun, fun _ => ⟨rfl, ?_⟩, ?_, ?_, ?_⟩
  · show d₂.mDictSize = (array.set _ _).length
    rw [length_set, hrep₂.size, hslots]
  · exact hplaced.set fd
  · intro x hx
    rcases hmem x hx with rfl | hx
    · rw [hmax₂]; exact le_raise' _ _
    · refine hrep₂.below x ?_
      rwa [hstored₂, hstored₁]
  · show d₂.mSize + 1 = _
    rw [hsize₂, hsize₁]
    rfl
  · show d₂.mMaxFid = _
    rw [hmax₂, hmax₁]
    rfl
  · show d₂.mDictSize = _
    rw [hdictSize₂, hdictSize₁]
    rfl
  · intro hnew
    rw [← hstored]
    exact Lib.reduceOption_set_none (hfresh.mp hnew) fd
  · intro hold
    show (array.set fd.mFid.toNat (some fd)).reduceOption.length < _
    rw [hfresh] at hold
    cases hslot : array[fd.mFid.toNat] with
    | none => exact (hold (by rw [getElem?_eq_getElem hlt, hslot])).elim
    | some x =>
      have hx : array[fd.mFid.toNat]? = some (some x) := by rw [getElem?_eq_getElem hlt, hslot]
      rw [Lib.length_reduceOption_set_some hx, hstored]
      exact Nat.lt_succ_self _
  · intro x hx; exact (hmem x hx).imp_left mem_singleton.mpr

theorem Stores.refl (h : Rep d) : Stores d [] d where
  rep := h
  size := rfl
  hasDuplicates := rfl
  maxFid := rfl
  unchanged _ := ⟨rfl, rfl⟩
  dictSize hne := (hne rfl).elim
  fresh _ := List.Perm.refl _
  notFresh hnot := (hnot ⟨nodup_nil, fun _ h => by cases h⟩).elim
  mem _ := .inr

theorem Stores.length_le (h : Stores d fds d') :
    (stored d').length ≤ (stored d).length + fds.length := by
  by_cases hfresh : Fresh d fds
  · have := (h.fresh hfresh).length_eq
    rw [length_append] at this
    omega
  · exact (h.notFresh hfresh).le

theorem fresh_cons_iff (h : Stores d [fd] d') :
    Fresh d (fd :: fds) ↔ Fresh d [fd] ∧ Fresh d' fds := by
  have hfirst : Fresh d [fd] ↔ ∀ old ∈ stored d, old.mFid ≠ fd.mFid := by
    rw [Fresh, forall_mem_singleton]; exact and_iff_right (nodup_singleton _)
  rw [hfirst]
  constructor
  · rintro ⟨hnodup, hold⟩
    obtain ⟨hnot, hnodup⟩ := nodup_cons.mp hnodup
    have hnew := hold fd mem_cons_self
    refine ⟨hnew, hnodup, fun x hx old ho => ?_⟩
    rcases mem_cons.mp ((h.fresh (hfirst.mpr hnew)).mem_iff.mp ho) with rfl | ho
    · intro heq; exact hnot (mem_map.mpr ⟨x, hx, heq.symm⟩)
    · exact hold x (mem_cons_of_mem _ hx) old ho
  rintro ⟨hnew, hnodup, hold⟩
  have hperm := h.fresh (hfirst.mpr hnew)
  refine ⟨nodup_cons.mpr ⟨fun hmem => ?_, hnodup⟩, fun x hx old ho => ?_⟩
  · obtain ⟨x, hx, heq⟩ := mem_map.mp hmem
    exact hold x hx fd (hperm.mem_iff.mpr mem_cons_self) heq.symm
  · rcases mem_cons.mp hx with rfl | hx
    · exact hnew old ho
    · exact hold x hx old (hperm.mem_iff.mpr (mem_cons_of_mem _ ho))

theorem Stores.cons (h : Stores d [fd] d') (h' : Stores d' fds d'') : Stores d (fd :: fds) d'' where
  rep := h'.rep
  size := by
    rw [h'.size, h.size, length_singleton, length_cons]; omega
  hasDuplicates := h'.hasDuplicates.trans h.hasDuplicates
  maxFid := by
    rw [h'.maxFid, h.maxFid]; rfl
  unchanged := nofun
  dictSize _ := by
    obtain ⟨hsome, hsize⟩ := h.dictSize (cons_ne_nil _ _)
    have hstart : start d' = grow (start d) fd.mFid := by rwa [start, if_pos hsome]
    cases fds with
    | nil =>
      obtain ⟨hdict, hsame⟩ := h'.unchanged rfl
      exact ⟨hdict ▸ hsome, hsame.trans hsize⟩
    | cons next fds =>
      obtain ⟨hsome', hsize'⟩ := h'.dictSize (cons_ne_nil _ _)
      refine ⟨hsome', hsize'.trans ?_⟩
      rw [hstart]
      rfl
  fresh hfresh := by
    obtain ⟨hfirst, hrest⟩ := (fresh_cons_iff h).mp hfresh
    refine (h'.fresh hrest).trans ?_
    exact ((h.fresh hfirst).append_left fds).trans perm_middle
  notFresh hnot := by
    rw [fresh_cons_iff h, not_and_or] at hnot
    have hle := h.length_le
    have hle' := h'.length_le
    rw [length_singleton] at hle
    rw [length_cons]
    rcases hnot with hnot | hnot
    · have hlt := h.notFresh hnot
      rw [length_singleton] at hlt
      omega
    · have hlt := h'.notFresh hnot
      omega
  mem x hx := by
    rcases h'.mem x hx with hx | hx
    · exact .inl (mem_cons_of_mem _ hx)
    · refine (h.mem x hx).imp_left fun hx => ?_
      exact mem_singleton.mp hx ▸ mem_cons_self

def createAll (d : DictionaryImpl) (fds : List FieldDescriptor) : Option DictionaryImpl :=
  fds.foldlM (fun d fd => createFieldDescriptor d fd.mFid fd.mName fd.mType) d

/-- **Descriptors are made.** -/
theorem createAll_spec (h : Rep d) (fds : List FieldDescriptor) :
    ∃ d', createAll d fds = some d' ∧ Stores d fds d' := by
  induction fds generalizing d with
  | nil => exact ⟨d, rfl, Stores.refl h⟩
  | cons fd fds ih =>
    obtain ⟨d₁, hd₁, hfirst⟩ := createFieldDescriptor_spec h fd
    obtain ⟨d₂, hd₂, hrest⟩ := ih hfirst.rep
    refine ⟨d₂, ?_, hfirst.cons hrest⟩
    unfold createAll at hd₂ ⊢
    rwa [foldlM_cons, hd₁]

theorem Stores.room (h : Stores d fds d') {maxFid : UInt16}
    (hroom : d.mDict.isSome → maxFid.toNat < d.mDictSize)
    (hmax : d.mMaxFid = maxFid ∨ d.mMaxFid ∈ fds.map FieldDescriptor.mFid) : Room d' := by
  intro hsome
  cases hfds : fds with
  | nil =>
    subst hfds
    obtain ⟨hdict, hsize⟩ := h.unchanged rfl
    have heq : d.mMaxFid = maxFid := hmax.resolve_right fun hmem => by cases hmem
    have hmaxFid : d'.mMaxFid = maxFid := h.maxFid.trans heq
    rw [hmaxFid, hsize]
    exact hroom (hdict ▸ hsome)
  | cons fd rest =>
    obtain ⟨-, hsize⟩ := h.dictSize (hfds ▸ cons_ne_nil fd rest)
    rw [hsize, h.maxFid]
    rcases foldl_raise_mem d.mMaxFid (fds.map FieldDescriptor.mFid) with heq | hmem
    · rw [heq]
      rcases hmax with hmax | hmax
      · refine Nat.lt_of_lt_of_le ?_ (le_sizeAfter _ _)
        unfold start
        split
        · next hdict => rw [hmax]; exact hroom hdict
        · exact Nat.lt_succ_self _
      · exact lt_sizeAfter hmax _
    · exact lt_sizeAfter hmem _

/-! ## Loops over the array -/

variable {rest : List (Option FieldDescriptor)}

section

variable {before tail : List (Option FieldDescriptor)}

theorem slot_of_split {o : Option FieldDescriptor} (h : slots d = before ++ o :: rest) :
    slot d before.length = some o := by
  rw [slot_eq, h, getElem?_append_right (Nat.le_refl _), Nat.sub_self]
  rfl

theorem split_next {o : Option FieldDescriptor} (h : slots d = before ++ o :: rest) :
    slots d = (before ++ [o]) ++ rest ∧ before.length + 1 = (before ++ [o]).length :=
  ⟨by rw [h, append_assoc]; rfl, by rw [length_append]; rfl⟩

theorem findIndex_eq {index curIndex : UInt16} (h : slots d = before ++ rest)
    (hle : curIndex ≤ index) : findIndex d index (List.range' before.length rest.length) curIndex =
      some (match rest.reduceOption[index.toNat - curIndex.toNat]? with
        | some info => .ok info
        | none => .error .notFound) := by
  induction rest generalizing before curIndex with
  | nil => rfl
  | cons o rest ih =>
    rw [length_cons, range'_succ]
    rw [findIndex, slot_of_split h]
    obtain ⟨hsplit, hlength⟩ := split_next h
    rw [hlength]
    cases o with
    | none => exact ih hsplit hle
    | some info =>
      rw [reduceOption_cons_of_some]
      dsimp only
      by_cases heq : curIndex = index
      · rw [if_pos heq, heq, Nat.sub_self]; rfl
      rw [if_neg heq]
      have hlt : curIndex.toNat < index.toNat := by
        refine Nat.lt_of_le_of_ne (UInt16.le_iff_toNat_le.mp hle) fun h => heq ?_
        exact UInt16.toNat_inj.mp h
      have hnext : (curIndex + 1).toNat = curIndex.toNat + 1 := by
        have := index.toNat_lt
        exact Nat.mod_eq_of_lt (by simp; omega)
      rw [ih hsplit (UInt16.le_iff_toNat_le.mpr (by omega)), hnext]
      have hsub : index.toNat - curIndex.toNat = (index.toNat - (curIndex.toNat + 1)) + 1 := by
        omega
      rw [hsub, getElem?_cons_succ]

theorem findName_eq (fname : List Char) (h : slots d = before ++ rest) :
    findName d fname (List.range' before.length rest.length) =
      some (match rest.reduceOption.find? (fun fd => fd.mName = fname) with
        | some info => .ok info
        | none => .error .notFound) := by
  induction rest generalizing before with
  | nil => rfl
  | cons o rest ih =>
    rw [length_cons, range'_succ]
    rw [findName, slot_of_split h]
    obtain ⟨hsplit, hlength⟩ := split_next h
    rw [hlength]
    cases o with
    | none => exact ih hsplit
    | some info =>
      rw [reduceOption_cons_of_some]
      dsimp only
      by_cases heq : info.mName = fname
      · rw [if_pos heq, find?_cons, decide_eq_true heq]
      · rw [if_neg heq, find?_cons, decide_eq_false heq]; exact ih hsplit

theorem foldSlots_eq {α : Type} (f : α → FieldDescriptor → α) (x : α)
    (h : slots d = before ++ rest) :
    foldSlots d f (List.range' before.length rest.length) x =
      some (rest.reduceOption.foldl f x) := by
  induction rest generalizing before x with
  | nil => rfl
  | cons o rest ih =>
    rw [length_cons, range'_succ]
    rw [foldSlots, slot_of_split h]
    obtain ⟨hsplit, hlength⟩ := split_next h
    rw [hlength]
    cases o with
    | none => exact ih x hsplit
    | some fd => exact ih (f x fd) hsplit

theorem findDuplicate_eq (name : List Char) (h : slots d = before ++ (rest ++ tail)) :
    findDuplicate d name (List.range' before.length rest.length) =
      some (decide (name ∈ rest.reduceOption.map FieldDescriptor.mName)) := by
  induction rest generalizing before with
  | nil => rfl
  | cons o rest ih =>
    rw [length_cons, range'_succ]
    rw [findDuplicate, slot_of_split h]
    obtain ⟨hsplit, hlength⟩ := split_next h
    rw [hlength]
    cases o with
    | none => exact ih hsplit
    | some info =>
      rw [reduceOption_cons_of_some, map_cons]
      dsimp only
      by_cases heq : name = info.mName
      · rw [if_pos heq, decide_eq_true (heq ▸ mem_cons_self)]
      · rw [if_neg heq, ih hsplit]
        congr 2
        rw [mem_cons, or_iff_right heq]

theorem findDuplicates_eq {last : Option FieldDescriptor}
    (h : slots d = before ++ (rest ++ [last] ++ tail))
    (hmax : d.mMaxFid.toNat = before.length + rest.length) :
    findDuplicates d (List.range' before.length rest.length) =
      some (decide ¬ ((rest ++ [last]).reduceOption.map FieldDescriptor.mName).Nodup) := by
  induction rest generalizing before with
  | nil =>
    cases last with
    | none => rfl
    | some fd =>
      have hnodup : ([fd].map FieldDescriptor.mName).Nodup := nodup_singleton _
      exact congrArg some (decide_eq_false (not_not.mpr hnodup)).symm
  | cons o rest ih =>
    rw [length_cons, range'_succ]
    unfold findDuplicates
    rw [slot_of_split (show slots d = before ++ o :: (rest ++ [last] ++ tail) from h)]
    have hsplit : slots d = (before ++ [o]) ++ (rest ++ [last] ++ tail) := by
      rw [h, append_assoc before, singleton_append, cons_append, cons_append]
    have hlength : before.length + 1 = (before ++ [o]).length := by rw [length_append]; rfl
    have hnext : d.mMaxFid.toNat = (before ++ [o]).length + rest.length := by
      rw [hmax, length_cons]; omega
    rw [hlength]
    cases o with
    | none => exact ih hsplit hnext
    | some info =>
      have hcount : d.mMaxFid.toNat - before.length = (rest ++ [last]).length := by
        rw [hmax]; simp
      dsimp only
      rw [hcount, findDuplicate_eq info.mName hsplit, ih hsplit hnext, cons_append,
        reduceOption_cons_of_some, map_cons]
      by_cases hmem : info.mName ∈ (rest ++ [last]).reduceOption.map FieldDescriptor.mName
      · have hdup : ¬ (info.mName ::
            (rest ++ [last]).reduceOption.map FieldDescriptor.mName).Nodup := by
          intro hnodup
          exact (nodup_cons.mp hnodup).1 hmem
        rw [decide_eq_true hmem]
        exact congrArg some (decide_eq_true hdup).symm
      · rw [decide_eq_false hmem]
        dsimp only
        congr 2
        rw [nodup_cons, not_and_or, not_not, or_iff_right hmem]

end

/-! ## The operations on a table -/

theorem range_eq (n : Nat) :
    List.range n = List.range' ([] : List (Option FieldDescriptor)).length n :=
  range_eq_range'

section

variable (h : Rep d)

include h

theorem Rep.getFieldDescriptorByIndex_eq (index : UInt16) :
    getFieldDescriptorByIndex d index =
      some (if index.toNat ≥ d.mSize then .error .invalidArg
        else match (stored d)[index.toNat]? with
          | some info => .ok info
          | none => .error .notFound) := by
  unfold getFieldDescriptorByIndex
  split
  · rfl
  · rw [h.size, range_eq, findIndex_eq rfl (UInt16.le_iff_toNat_le.mpr (Nat.zero_le _))]; rfl

theorem Rep.getFieldDescriptorByName_eq (fname : List Char) :
    getFieldDescriptorByName d fname =
      some (match (stored d).find? (fun fd => fd.mName = fname) with
        | some info => .ok info
        | none => .error .notFound) := by
  rw [getFieldDescriptorByName, h.size, range_eq, findName_eq fname rfl]
  rfl

theorem Rep.getFieldDescriptorByFid_eq (fid : UInt16) :
    getFieldDescriptorByFid d fid =
      some (if fid.toNat ≥ d.mDictSize then .error .invalidArg
        else .ok ((stored d).find? fun fd => fd.mFid = fid)) := by
  unfold getFieldDescriptorByFid
  by_cases hsize : fid.toNat ≥ d.mDictSize
  · rw [if_pos hsize, if_pos hsize]
  rw [if_neg hsize, if_neg hsize, slot_eq]
  have hlt : fid.toNat < (slots d).length := by
    rw [← h.size]; omega
  cases hfind : (stored d).find? (fun fd => fd.mFid = fid) with
  | none =>
    have hnone : (slots d)[fid.toNat]? = some none := by
      rw [h.placed.slot_eq_none_iff hlt]
      intro x hx heq
      have hne := find?_eq_none.mp hfind x hx
      exact hne (decide_eq_true (UInt16.toNat_inj.mp heq))
    rw [hnone]
    rfl
  | some fd =>
    have hfid : fd.mFid = fid := by simpa using find?_some hfind
    have hslot := h.placed.slot_eq_some_iff.mpr (mem_of_find?_eq_some hfind)
    rw [FieldDescriptor.index, hfid] at hslot
    rw [hslot]
    rfl

theorem Rep.getDictionaryMessage_eq :
    getDictionaryMessage d = some ((stored d).foldl addDescriptor []) := by
  rw [getDictionaryMessage, h.size, range_eq]
  exact foldSlots_eq addDescriptor [] rfl

theorem Rep.writeToFile_eq :
    writeToFile d = some ((stored d).foldl (fun text fd => text ++ printLine fd) []) := by
  rw [writeToFile, h.size, range_eq]
  exact foldSlots_eq _ [] rfl

/-- The names are compared up to the greatest `fid`, for which there has to be an array. -/
theorem Rep.checkForDuplicateNames_eq (hroom : Room d)
    (hdict : d.mDict = none → d.mMaxFid = 0) :
    checkForDuplicateNames d = some { d with
      mHasDuplicates := decide ¬ ((stored d).map FieldDescriptor.mName).Nodup } := by
  unfold checkForDuplicateNames
  cases harray : d.mDict with
  | none =>
    have hempty : stored d = [] := by
      rw [stored, slots, harray]; rfl
    rw [hdict harray, hempty]
    rfl
  | some array =>
    have hlt : d.mMaxFid.toNat < (slots d).length := by
      rw [← h.size]; exact hroom (by rw [harray]; rfl)
    -- the slots up to the greatest, and those after it
    have hsplit : slots d = (slots d).take d.mMaxFid.toNat ++ [(slots d)[d.mMaxFid.toNat]] ++
        (slots d).drop (d.mMaxFid.toNat + 1) := by
      rw [append_assoc, singleton_append, ← drop_eq_getElem_cons hlt, take_append_drop]
    have hafter : ((slots d).drop (d.mMaxFid.toNat + 1)).reduceOption = [] := by
      refine eq_nil_iff_forall_not_mem.mpr fun fd hfd => ?_
      obtain ⟨i, hi⟩ := Lib.mem_reduceOption.mp hfd
      rw [getElem?_drop] at hi
      have hindex := h.placed _ fd hi
      have hle := UInt16.le_iff_toNat_le.mp (h.below fd (Lib.mem_reduceOption.mpr ⟨_, hi⟩))
      unfold FieldDescriptor.index at hindex
      omega
    have hstored : stored d = ((slots d).take d.mMaxFid.toNat ++
        [(slots d)[d.mMaxFid.toNat]]).reduceOption := by
      unfold stored
      conv_lhs => rw [hsplit]
      rw [reduceOption_append, hafter, append_nil]
    have htake : ((slots d).take d.mMaxFid.toNat).length = d.mMaxFid.toNat :=
      length_take_of_le hlt.le
    have hfound : findDuplicates d (List.range' ([] : List (Option FieldDescriptor)).length
        ((slots d).take d.mMaxFid.toNat).length) = _ :=
      findDuplicates_eq hsplit (by rw [htake, length_nil, Nat.zero_add])
    rw [htake, ← range_eq, ← hstored] at hfound
    rw [hfound]
    rfl

end

theorem checkForDuplicateNames_eq_none (hdict : d.mDict = none) (hmax : d.mMaxFid ≠ 0) :
    checkForDuplicateNames d = none := by
  have hpos : d.mMaxFid.toNat = (d.mMaxFid.toNat - 1) + 1 := by
    have : d.mMaxFid.toNat ≠ 0 := fun h => hmax (UInt16.toNat_inj.mp h)
    omega
  rw [checkForDuplicateNames, range_eq_range', hpos, range'_succ]
  rw [findDuplicates, slot_eq]
  rw [slots, hdict]
  rfl

/-! ## Lookups of all descriptors with a name -/

variable {fname : List Char} {size : Nat}

theorem findNameAll_eq {before : List (Option FieldDescriptor)} (h : slots d = before ++ rest)
    (hrep : Rep d) (hsize : d.mDictSize ≤ 65535) {list : List FieldDescriptor}
    (hlist : list.length < size) {fuel : Nat} (hfuel : rest.length < fuel) :
    findNameAll d fname size fuel (UInt16.ofNat before.length) list =
      some ((list ++ rest.reduceOption.filter fun fd => fd.mName = fname).take size) := by
  induction rest generalizing before list fuel with
  | nil =>
    cases fuel with
    | zero => cases hfuel
    | succ fuel =>
      have hlength : before.length = d.mDictSize := by rw [hrep.size, h, append_nil]
      rw [findNameAll, if_neg]
      · rw [reduceOption_nil, filter_nil, append_nil, take_of_length_le hlist.le]
      · rw [UInt16.toNat_ofNat_of_lt' (by simp [UInt16.size]; omega)]
        omega
  | cons o rest ih =>
    cases fuel with
    | zero => cases hfuel
    | succ fuel =>
      have hlt : before.length < d.mDictSize := by
        rw [hrep.size, h, length_append, length_cons]; omega
      have hi : (UInt16.ofNat before.length).toNat = before.length :=
        UInt16.toNat_ofNat_of_lt' (by simp [UInt16.size]; omega)
      have hsplit : slots d = (before ++ [o]) ++ rest := by rw [h, append_assoc]; rfl
      have hnext : UInt16.ofNat before.length + 1 = UInt16.ofNat (before ++ [o]).length := by
        rw [length_append]; exact (UInt16.ofNat_add _ _).symm
      have hfuel' := Nat.lt_of_succ_lt_succ hfuel
      rw [findNameAll, hi, if_pos hlt, slot_of_split h, hnext]
      cases o with
      | none => exact ih hsplit hlist hfuel'
      | some info =>
        rw [reduceOption_cons_of_some]
        dsimp only
        by_cases hname : info.mName = fname
        · rw [if_pos hname, filter_cons_of_pos (by simpa using hname),
            append_cons list info (rest.reduceOption.filter _)]
          by_cases hfull : (list ++ [info]).length = size
          · rw [if_pos hfull, take_left' hfull]
          · rw [if_neg hfull]
            refine ih hsplit ?_ hfuel'
            rw [length_append, length_singleton] at hfull ⊢
            omega
        · rw [if_neg hname, filter_cons_of_neg (by simpa using hname)]; exact ih hsplit hlist hfuel'

/-- **All descriptors with a name**, as many as there is room for, if the counter can leave the
array. -/
theorem Rep.getFieldDescriptorByNameAll_eq (h : Rep d) (hsize : d.mDictSize ≤ 65535)
    (fname : List Char) (hpos : 0 < size) :
    getFieldDescriptorByNameAll d fname size (d.mDictSize + 1) =
      some (.ok (((stored d).filter fun fd => fd.mName = fname).take size)) := by
  unfold getFieldDescriptorByNameAll
  have hfind : findNameAll d fname size (d.mDictSize + 1)
      (UInt16.ofNat ([] : List (Option FieldDescriptor)).length) [] =
        some ((([] : List FieldDescriptor) ++
          (stored d).filter fun fd => fd.mName = fname).take size) := by
    refine findNameAll_eq rfl h hsize (show [].length < size from hpos) ?_
    rw [h.size]
    exact Nat.lt_succ_self _
  rw [if_neg (Nat.pos_iff_ne_zero.mp hpos)]
  show (findNameAll d fname size (d.mDictSize + 1) (UInt16.ofNat 0) []).map _ = _
  rw [show UInt16.ofNat 0 = UInt16.ofNat ([] : List (Option FieldDescriptor)).length from rfl,
    hfind]
  rfl

theorem findNameAll_eq_none (hsize : 65535 < d.mDictSize) (hnot : ∀ fd ∈ stored d, fd.mName ≠ fname)
    (size fuel : Nat) (i : UInt16) (list : List FieldDescriptor) :
    findNameAll d fname size fuel i list = none := by
  induction fuel generalizing i with
  | zero => rfl
  | succ fuel ih =>
    have hlt : i.toNat < d.mDictSize := by
      have := i.toNat_lt
      omega
    rw [findNameAll, if_pos hlt, slot_eq]
    cases hslot : (slots d)[i.toNat]? with
    | none => rfl
    | some o =>
      cases o with
      | none => exact ih (i + 1)
      | some info =>
        dsimp only
        rw [if_neg (hnot info (Lib.mem_reduceOption.mpr ⟨_, hslot⟩))]
        exact ih (i + 1)

end Mama.Dictionary

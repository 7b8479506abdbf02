import OpenMama.Common.WtableLayout

/-!
# The hash table as a finite map

`Reached` pairs each table that the operations lead to with the map it stands for.  What
an operation returns is what the map says, as long as the loops over all chains come to
every chain.
-/

namespace Common.Wtable

open Lib List Function

variable {K D : Type} [DecidableEq K]

/-- A key is not mapped, or it is mapped to data that may be null. -/
abbrev Map (K D : Type) := K → Option (Option D)

/-- What a callback at `key` may do to the table: remove that key, and insert keys that are
present. -/
inductive Edits (hash : K → Nat) (key : K) : Wtable K D → Wtable K D → Prop
  | done {t : Wtable K D} : Edits hash key t t
  | remove {t t' t'' : Wtable K D} {data : Option D} (h : t.remove hash key = some (data, t'))
      (rest : Edits hash key t' t'') : Edits hash key t t''
  | insert {t t' t'' : Wtable K D} {key' : K} {data : Option D}
      (h : t.insert hash key' data = some (0, t')) (rest : Edits hash key t' t'') :
      Edits hash key t t''

/-- The tables that the operations lead to, each with its map. -/
inductive Reached (hash : K → Nat) (wide : Nat → BitVec 32) (size : Nat) :
    Wtable K D → Map K D → Prop
  | create : Reached hash wide size (Wtable.create size) fun _ => none
  | insert {t t' : Wtable K D} {m : Map K D} {key : K} {data : Option D} {result : Int}
      (ht : Reached hash wide size t m) (h : t.insert hash key data = some (result, t')) :
      Reached hash wide size t' (Function.update m key (some data))
  | remove {t t' : Wtable K D} {m : Map K D} {key : K} {data : Option D}
      (ht : Reached hash wide size t m) (h : t.remove hash key = some (data, t')) :
      Reached hash wide size t' (Function.update m key none)
  | clear {t t' : Wtable K D} {m : Map K D}
      (ht : Reached hash wide size t m) (h : t.clear wide = some t') :
      Reached hash wide size t' fun _ => none

structure ActsAs (hash : K → Nat) (wide : Nat → BitVec 32) (size : Nat) (t : Wtable K D)
    (m : Map K D) : Prop where
  lookup : ∀ key, t.lookup hash key = some (m key).join
  insert : ∀ key data, ∃ t',
    t.insert hash key data = some (if (m key).isSome then 0 else 1, t')
  remove : ∀ key, ∃ t', t.remove hash key = some ((m key).join, t')
  clear : ∃ t', t.clear wide = some t'
  chains : ∃ cells, Layout hash size t cells
  forEach : ∀ (C : Type) (cb : Callback K D C) (closure : C),
    (∀ closure t data key, Edits hash key t (cb closure t data key).2) →
    ∃ it m', t.forEach wide cb closure = some it ∧ Reached hash wide size it.table m' ∧
      (it.calls.map Prod.fst).Nodup ∧ ∀ key, key ∈ it.calls.map Prod.fst ↔ (m key).isSome

/-- Every table acts as its map, whatever the hash function. -/
def RefinesMap (K D : Type) [DecidableEq K] (wide : Nat → BitVec 32) (size : Nat) : Prop :=
  ∀ (hash : K → Nat) (t : Wtable K D) (m : Map K D), Reached hash wide size t m →
    ActsAs hash wide size t m

def Holds (hash : K → Nat) (size : Nat) (cells : Nat → Cells K D) (m : Map K D) : Prop :=
  ∀ key data, m key = some data ↔ (key, data) ∈ (cells (slot hash size key)).map Prod.snd

section

variable {hash : K → Nat} {wide : Nat → BitVec 32} {size : Nat} {t t' : Wtable K D}
  {cells : Nat → Cells K D} {m : Map K D} {key : K}
variable {l xs ys : Cells K D} {ks : List K} {p : Option Nat}

omit [DecidableEq K] in
theorem mem_keysOf : key ∈ keysOf l ↔ ∃ data, (key, data) ∈ l.map Prod.snd := by
  simp only [keysOf, mem_map]
  constructor
  · rintro ⟨c, hc, rfl⟩; exact ⟨c.2.2, c, hc, rfl⟩
  · rintro ⟨data, c, hc, h⟩; exact ⟨c, hc, by rw [h]⟩

omit [DecidableEq K] in
theorem exists_split (h : key ∈ keysOf l) : ∃ xs a data ys, l = xs ++ (a, key, data) :: ys := by
  obtain ⟨c, hc, rfl⟩ := mem_map.1 h
  obtain ⟨xs, ys, rfl⟩ := append_of_mem hc
  exact ⟨xs, c.1, c.2.2, ys, rfl⟩

omit [DecidableEq K] in
theorem Holds.isSome_iff (h : Holds hash size cells m) :
    (m key).isSome ↔ key ∈ keysOf (cells (slot hash size key)) := by
  rw [mem_keysOf, Option.isSome_iff_exists]
  exact exists_congr fun data => h key data

omit [DecidableEq K] in
theorem Layout.present_or_absent (h : Layout hash size t cells) (hm : Holds hash size cells m)
    (key : K) : (m key = none ∧ key ∉ keysOf (cells (slot hash size key))) ∨ ∃ xs a data ys,
    m key = some data ∧ cells (slot hash size key) = xs ++ (a, key, data) :: ys ∧
    key ∉ keysOf (xs ++ ys) := by
  cases hkey : m key with
  | none =>
    refine .inl ⟨rfl, fun hmem => ?_⟩
    rw [← hm.isSome_iff, hkey] at hmem
    cases hmem
  | some data =>
    refine .inr ?_
    obtain ⟨⟨a, c⟩, hc, hcd⟩ := mem_map.1 ((hm key data).1 hkey)
    obtain ⟨xs, ys, hcells⟩ := append_of_mem hc
    subst hcd
    have hnodup := h.nodup (slot hash size key)
    rw [hcells, keysOf, map_append, map_cons, nodup_middle, nodup_cons, ← map_append] at hnodup
    exact ⟨xs, a, data, ys, rfl, hcells, hnodup.1⟩

variable {a : Nat}

section

variable (hm : Holds hash size cells m)

include hm

theorem Holds.change {value : Option (Option D)} {new : Cells K D}
    (hslot : ∀ c ∈ new, slot hash size c.2.1 = slot hash size key)
    (hnew : ∀ key' data, (key', data) ∈ new.map Prod.snd ↔
      if key' = key then value = some data
      else (key', data) ∈ (cells (slot hash size key)).map Prod.snd) :
    Holds hash size (Function.update cells (slot hash size key) new)
      (Function.update m key value) := by
  intro key' data
  by_cases hkey : key' = key
  · subst hkey
    rw [update_self, update_self, hnew, if_pos rfl]
  · rw [update_of_ne hkey, hm key' data]
    by_cases hs : slot hash size key' = slot hash size key
    · rw [hs, update_self, hnew, if_neg hkey]
    · rw [update_of_ne hs]

theorem Holds.insert_miss (a : Nat) (data : Option D)
    (h : Layout hash size t cells) (hkey : key ∉ keysOf (cells (slot hash size key))) :
    Holds hash size (Function.update cells (slot hash size key)
      ((a, key, data) :: cells (slot hash size key))) (Function.update m key (some data)) := by
  refine hm.change ?_ ?_
  · intro c hc
    rcases mem_cons.1 hc with rfl | hc
    · rfl
    · exact h.slot_eq _ c hc
  intro key' data'
  by_cases hk : key' = key
  · subst hk
    have hno : (key', data') ∉ (cells (slot hash size key')).map Prod.snd :=
      fun hmem => hkey (mem_keysOf.2 ⟨data', hmem⟩)
    simp [hno, eq_comm]
  · simp [hk]

variable {old : Option D}

theorem Holds.insert_hit {data : Option D} (h : Layout hash size t cells)
    (hcells : cells (slot hash size key) = xs ++ (a, key, old) :: ys)
    (hkey : key ∉ keysOf (xs ++ ys)) :
    Holds hash size (Function.update cells (slot hash size key) (xs ++ (a, key, data) :: ys))
      (Function.update m key (some data)) := by
  refine hm.change ?_ ?_
  · intro c hc
    rcases mem_append.1 hc with hc | hc
    · exact h.slot_eq _ c (hcells ▸ mem_append_left _ hc)
    · rcases mem_cons.1 hc with rfl | hc
      · rfl
      · exact h.slot_eq _ c (hcells ▸ mem_append_right _ (mem_cons_of_mem _ hc))
  intro key' data'
  rw [hcells]
  by_cases hk : key' = key
  · subst hk
    have hno : (key', data') ∉ (xs ++ ys).map Prod.snd :=
      fun hmem => hkey (mem_keysOf.2 ⟨data', hmem⟩)
    rw [map_append, mem_append, not_or] at hno
    simp [hno, eq_comm]
  · simp [hk]

theorem Holds.remove_hit (h : Layout hash size t cells)
    (hcells : cells (slot hash size key) = xs ++ (a, key, old) :: ys)
    (hkey : key ∉ keysOf (xs ++ ys)) :
    Holds hash size (Function.update cells (slot hash size key) (xs ++ ys))
      (Function.update m key none) := by
  refine hm.change ?_ ?_
  · intro c hc
    rcases mem_append.1 hc with hc | hc
    · exact h.slot_eq _ c (hcells ▸ mem_append_left _ hc)
    · exact h.slot_eq _ c (hcells ▸ mem_append_right _ (mem_cons_of_mem _ hc))
  intro key' data'
  rw [hcells]
  by_cases hk : key' = key
  · subst hk
    have hno : (key', data') ∉ (xs ++ ys).map Prod.snd :=
      fun hmem => hkey (mem_keysOf.2 ⟨data', hmem⟩)
    rw [if_pos rfl]
    simp only [hno, reduceCtorEq]
  · rw [if_neg hk]; simp [hk]

end

theorem Reached.holds (hsize : size ≤ 30) (h : Reached hash wide size t m) :
    ∃ cells, Layout hash size t cells ∧ Holds hash size cells m := by
  induction h with
  | create => exact ⟨_, layout_create hash size, fun key data => by simp⟩
  | @insert t t' m key data result _ hrun ih =>
    obtain ⟨cells, hl, hm⟩ := ih
    rcases hl.present_or_absent hm key with ⟨-, hkey⟩ | ⟨xs, a, old, ys, -, hcells, hkey⟩
    · obtain ⟨t₁, hrun₁, hl₁⟩ := hl.insert_miss data hkey
      rw [hrun] at hrun₁
      obtain ⟨-, rfl⟩ := hrun₁
      exact ⟨_, hl₁, hm.insert_miss _ data hl hkey⟩
    · obtain ⟨t₁, hrun₁, hl₁⟩ := hl.insert_hit data hcells
      rw [hrun] at hrun₁
      obtain ⟨-, rfl⟩ := hrun₁
      exact ⟨_, hl₁, hm.insert_hit hl hcells hkey⟩
  | @remove t t' m key data _ hrun ih =>
    obtain ⟨cells, hl, hm⟩ := ih
    rcases hl.present_or_absent hm key with ⟨hnone, hkey⟩ | ⟨xs, a, old, ys, -, hcells, hkey⟩
    · have hrun₁ := hl.remove_miss hkey
      rw [hrun] at hrun₁
      obtain ⟨-, rfl⟩ := hrun₁
      refine ⟨cells, hl, ?_⟩
      rwa [← hnone, update_eq_self]
    · obtain ⟨t₁, hrun₁, hl₁⟩ := hl.remove_hit hcells
      rw [hrun] at hrun₁
      obtain ⟨-, rfl⟩ := hrun₁
      exact ⟨_, hl₁, hm.remove_hit hl hcells hkey⟩
  | clear _ hrun ih =>
    obtain ⟨cells, hl, hm⟩ := ih
    obtain ⟨t₁, hrun₁, hl₁⟩ := hl.clear_eq wide
    rw [hrun, Option.some.injEq] at hrun₁
    subst hrun₁
    refine ⟨_, hl₁, fun key data => ?_⟩
    have hlt : slot hash size key < count wide size := by
      rw [count, if_pos hsize]; exact slot_lt hash size key
    simp [hlt]

def entry (hash : K → Nat) (t : Wtable K D) (key : K) : Option (Option D) :=
  match t.findKey hash key with
  | some (some found) => (t.heap found.bucket).map Bucket.data
  | _ => none

theorem Reached.entry_eq (hsize : size ≤ 30) (h : Reached hash wide size t m) (key : K) :
    t.entry hash key = m key := by
  obtain ⟨cells, hl, hm⟩ := h.holds hsize
  unfold entry
  rcases hl.present_or_absent hm key with ⟨hnone, hkey⟩ | ⟨xs, a, data, ys, hsome, hcells, -⟩
  · rw [hl.findKey_miss hkey, hnone]
  · obtain ⟨hfind, hheap⟩ := hl.findKey_hit hcells
    rw [hfind, hsome]
    dsimp only
    rw [hheap]
    rfl

/-! ## The iteration -/

theorem Edits.reached (h : Edits hash key t t') (ht : Reached hash wide size t m) :
    ∃ m', Reached hash wide size t' m' := by
  induction h generalizing m with
  | done => exact ⟨m, ht⟩
  | remove hrun _ ih => exact ih (ht.remove hrun)
  | insert hrun _ ih => exact ih (ht.insert hrun)

/-- The iteration has come to the bucket at `p` of chain `i`: the keys `ks` are still to come
there, and the keys of the chains after it are those of the start. -/
def Ahead (hash : K → Nat) (size i : Nat) (keys : Nat → List K) (ks : List K) (p : Option Nat)
    (t : Wtable K D) : Prop :=
  ∃ cells past rest, Layout hash size t cells ∧ cells i = past ++ rest ∧ p = start rest none ∧
    keysOf rest = ks ∧ ∀ j, i < j → keysOf (cells j) = keys j

omit [DecidableEq K] in
theorem keysOf_set (old data : Option D) :
    keysOf (xs ++ (a, key, data) :: ys) = keysOf (xs ++ (a, key, old) :: ys) := by
  simp [keysOf]

variable {i fuel : Nat} {C : Type}

theorem Ahead.remove {keys : Nat → List K} {data : Option D} (h : Ahead hash size i keys ks p t)
    (hslot : slot hash size key = i) (hkey : key ∉ ks)
    (hrun : t.remove hash key = some (data, t')) :
    Ahead hash size i keys ks p t' := by
  obtain ⟨cells, past, rest, hl, hcells, hp, hks, hlater⟩ := h
  subst hslot
  by_cases hmem : key ∈ keysOf past
  · obtain ⟨xs, a, data', ys, rfl⟩ := exists_split hmem
    rw [append_assoc, cons_append] at hcells
    obtain ⟨t₁, hrun₁, hl₁⟩ := hl.remove_hit hcells
    rw [hrun] at hrun₁
    obtain ⟨-, rfl⟩ := hrun₁
    refine ⟨_, xs ++ ys, rest, hl₁, ?_, hp, hks, fun j hj => ?_⟩
    · rw [update_self, append_assoc]
    · rw [update_of_ne (Nat.ne_of_gt hj)]; exact hlater j hj
  · have habs : key ∉ keysOf (cells (slot hash size key)) := by
      rw [hcells, keysOf, map_append, mem_append, not_or]
      exact ⟨hmem, by rw [← hks] at hkey; exact hkey⟩
    rw [hl.remove_miss habs] at hrun
    obtain ⟨-, rfl⟩ := hrun
    exact ⟨cells, past, rest, hl, hcells, hp, hks, hlater⟩

theorem Ahead.insert {keys : Nat → List K} {key' : K} {data : Option D}
    (h : Ahead hash size i keys ks p t) (hrun : t.insert hash key' data = some (0, t')) :
    Ahead hash size i keys ks p t' := by
  obtain ⟨cells, past, rest, hl, hcells, hp, hks, hlater⟩ := h
  by_cases hmem : key' ∈ keysOf (cells (slot hash size key'))
  · obtain ⟨xs, a, old, ys, hsplit⟩ := exists_split hmem
    obtain ⟨t₁, hrun₁, hl₁⟩ := hl.insert_hit data hsplit
    rw [hrun] at hrun₁
    obtain ⟨-, rfl⟩ := hrun₁
    by_cases hi : i = slot hash size key'
    · subst hi
      have hlater' : ∀ j, slot hash size key' < j →
          keysOf (Function.update cells (slot hash size key') (xs ++ (a, key', data) :: ys) j) =
            keys j := by
        intro j hj
        rw [update_of_ne (Nat.ne_of_gt hj)]
        exact hlater j hj
      -- The bucket is among those past or among those ahead.
      rcases append_eq_append_iff.1 (hsplit.symm.trans hcells) with
        ⟨zs, rfl, hrest⟩ | ⟨zs, rfl, hrest⟩
      · rcases zs with _ | ⟨c, zs⟩
        · rw [nil_append] at hrest
          refine ⟨_, xs, (a, key', data) :: ys, hl₁, update_self .., ?_, ?_, hlater'⟩
          · rw [hp, ← hrest]; rfl
          · rw [← hks, ← hrest]; simp [keysOf]
        · rw [cons_append] at hrest
          obtain ⟨rfl, rfl⟩ := hrest
          refine ⟨_, xs ++ (a, key', data) :: zs, rest, hl₁, ?_, hp, hks, hlater'⟩
          rw [update_self, append_assoc]
          rfl
      · refine ⟨_, past, zs ++ (a, key', data) :: ys, hl₁, ?_, ?_, ?_, hlater'⟩
        · rw [update_self, append_assoc]
        · rw [hp, hrest]
          cases zs <;> rfl
        · rw [← hks, hrest]; exact keysOf_set old data
    refine ⟨_, past, rest, hl₁, ?_, hp, hks, fun j hj => ?_⟩
    · rw [update_of_ne hi, hcells]
    · by_cases hj' : j = slot hash size key'
      · subst hj'
        rw [update_self, ← hlater _ hj, hsplit]
        exact keysOf_set old data
      · rw [update_of_ne hj']; exact hlater j hj
  · obtain ⟨t₁, hrun₁, -⟩ := hl.insert_miss data hmem
    rw [hrun, Option.some.injEq, Prod.mk.injEq] at hrun₁
    exact absurd hrun₁.1 (by decide)

theorem Edits.ahead {keys : Nat → List K} (h : Edits hash key t t') (hslot : slot hash size key = i)
    (hkey : key ∉ ks) (ht : Ahead hash size i keys ks p t) : Ahead hash size i keys ks p t' := by
  induction h with
  | done => exact ht
  | remove hrun _ ih => exact ih (ht.remove hslot hkey hrun)
  | insert hrun _ ih => exact ih (ht.insert hrun)

theorem forEachFrom_eq {cb : Callback K D C} {keys : Nat → List K} {it : Iteration K D C}
    (hcb : ∀ closure t data key, Edits hash key t (cb closure t data key).2)
    (h : Ahead hash size i keys ks p it.table) (hm : Reached hash wide size it.table m)
    (hfuel : ks.length < fuel) : ∃ it' m', forEachFrom cb fuel p it = some it' ∧
    Reached hash wide size it'.table m' ∧ (∃ p', Ahead hash size i keys [] p' it'.table) ∧
    it'.calls.map Prod.fst = ks.reverse ++ it.calls.map Prod.fst := by
  induction ks generalizing fuel p it m with
  | nil =>
    have hrest := h
    obtain ⟨cells, past, rest, -, -, hp, hks, -⟩ := hrest
    obtain ⟨fuel, rfl⟩ := Nat.exists_eq_add_of_lt hfuel
    have hnil : rest = [] := by simpa [keysOf] using hks
    rw [hnil] at hp
    refine ⟨it, m, ?_, hm, ⟨p, h⟩, rfl⟩
    rw [hp]
    rfl
  | cons key ks ih =>
    obtain ⟨cells, past, rest, hl, hcells, hp, hks, hlater⟩ := h
    rcases rest with _ | ⟨⟨a, k, data⟩, rest⟩
    · exact absurd hks (by simp [keysOf])
    have hkeys : k = key ∧ keysOf rest = ks := by simpa [keysOf] using hks
    obtain ⟨rfl, hrest⟩ := hkeys
    cases fuel with
    | zero => exact absurd hfuel (Nat.not_lt_zero _)
    | succ fuel =>
      have hchain := hl.chain i
      have hnodup := hl.nodup i
      rw [hcells] at hchain hnodup
      have hheap : it.table.heap a = some ⟨k, data, start rest none⟩ := heap_of_read hchain.read_eq
      have hslot : slot hash size k = i := hl.slot_eq i (a, k, data) (by simp [hcells])
      have hnew : k ∉ ks := by
        rw [← hrest]
        rw [keysOf, map_append, map_cons, nodup_middle, nodup_cons, ← map_append] at hnodup
        intro hmem
        refine hnodup.1 ?_
        rw [map_append]
        exact mem_append_right _ hmem
      -- The callback sees the table with the next bucket already read.
      have hnext : Ahead hash size i keys ks (start rest none) it.table :=
        ⟨cells, past ++ [(a, k, data)], rest, hl, by simp [hcells], rfl, hrest, hlater⟩
      have hedits := hcb it.closure it.table data k
      obtain ⟨m₁, hm₁⟩ := hedits.reached hm
      have hafter : Ahead hash size i keys ks (start rest none)
          (it.call cb ⟨k, data, start rest none⟩).table := hedits.ahead hslot hnew hnext
      obtain ⟨it', m', hrun, hm', hend, hcalls⟩ := ih hafter hm₁ (Nat.lt_of_succ_lt_succ hfuel)
      refine ⟨it', m', ?_, hm', hend, ?_⟩
      · rw [hp, start_cons]
        simp only [forEachFrom, hheap]
        exact hrun
      · rw [hcalls]; simp [Iteration.call]

theorem forEach_eq (hsize : size ≤ 30) {cb : Callback K D C} (closure : C)
    (hcb : ∀ closure t data key, Edits hash key t (cb closure t data key).2)
    (hm : Reached hash wide size t m) :
    ∃ it m', t.forEach wide cb closure = some it ∧ Reached hash wide size it.table m' ∧
      (it.calls.map Prod.fst).Nodup ∧ ∀ key, key ∈ it.calls.map Prod.fst ↔ (m key).isSome := by
  obtain ⟨cells₀, hl₀, hh₀⟩ := hm.holds hsize
  -- Before chain `i`: the keys called are those of the earlier chains.
  let P : Nat → Iteration K D C → Prop := fun i it =>
    (∃ m', Reached hash wide size it.table m') ∧
    (∃ cells, Layout hash size it.table cells ∧ ∀ j, i ≤ j → keysOf (cells j) = keysOf (cells₀ j)) ∧
    (it.calls.map Prod.fst).Nodup ∧
    ∀ key, key ∈ it.calls.map Prod.fst ↔
      slot hash size key < i ∧ key ∈ keysOf (cells₀ (slot hash size key))
  have hstep : ∀ i it, i < count wide t.size → P i it →
      ∃ it', forEachSlot cb it i = some it' ∧ P (i + 1) it' := by
    rintro i it - ⟨⟨m', hm'⟩, ⟨cells, hl, hkeys⟩, hnodup, hcalled⟩
    have hstart := (hl.chain i).start_eq
    have hahead : Ahead hash size i (fun j => keysOf (cells₀ j)) (keysOf (cells i))
        (it.table.buckets i) it.table :=
      ⟨cells, [], cells i, hl, rfl, hstart, rfl, fun j hj => hkeys j (Nat.le_of_lt hj)⟩
    have hlen : (keysOf (cells i)).length < it.table.top + 1 := by
      rw [keysOf, length_map]; exact Nat.lt_succ_of_le (hl.length_le i)
    obtain ⟨it', m'', hrun, hm'', ⟨p, cells', past, rest, hl', -, -, -, hlater⟩, hcalls⟩ :=
      forEachFrom_eq hcb hahead hm' hlen
    rw [hkeys i (Nat.le_refl i)] at hcalls
    have hhere : ∀ key, key ∈ keysOf (cells₀ i) → slot hash size key = i := by
      intro key hkey
      obtain ⟨c, hc, rfl⟩ := mem_map.1 hkey
      exact hl₀.slot_eq i c hc
    refine ⟨it', hrun, ⟨m'', hm''⟩, ⟨cells', hl', fun j hj => hlater j hj⟩, ?_, fun key => ?_⟩
    · rw [hcalls, nodup_append]
      refine ⟨nodup_reverse.2 (hl₀.nodup i), hnodup, ?_⟩
      rintro key hkey _ hold rfl
      have hi := hhere key (mem_reverse.1 hkey)
      have hlt := ((hcalled key).1 hold).1
      omega
    rw [hcalls, mem_append, mem_reverse, hcalled]
    constructor
    · rintro (hkey | ⟨hlt, hkey⟩)
      · have hi := hhere key hkey
        exact ⟨by omega, by rwa [hi]⟩
      · exact ⟨by omega, hkey⟩
    · rintro ⟨hlt, hkey⟩
      by_cases hi : slot hash size key = i
      · exact .inl (by rwa [hi] at hkey)
      · exact .inr ⟨by omega, hkey⟩
  have hinit : P 0 ⟨t, closure, []⟩ :=
    ⟨⟨m, hm⟩, ⟨cells₀, hl₀, fun _ _ => rfl⟩, nodup_nil, fun key => by simp⟩
  obtain ⟨it, hrun, ⟨m', hm'⟩, -, hnodup, hcalled⟩ := exists_foldlM_range hstep hinit
  refine ⟨it, m', hrun, hm', hnodup, fun key => ?_⟩
  have hlt : slot hash size key < count wide t.size := by
    rw [hl₀.size_eq, count, if_pos hsize]; exact slot_lt hash size key
  rw [hcalled, hh₀.isSome_iff]
  exact and_iff_right hlt

/-! ## An iteration that leaves the table alone -/

omit [DecidableEq K] in
theorem forEachFrom_kept {cb : Callback K D C} (hcb : ∀ c data key, (cb c t data key).2 = t)
    (h : Chain t.read p l) (hfuel : l.length < fuel) (c : C) (calls : List (K × Option D)) :
    forEachFrom cb fuel p ⟨t, c, calls⟩ =
      some ⟨t, (l.map Prod.snd).foldl (fun c e => (cb c t e.2 e.1).1) c,
        (l.map Prod.snd).reverse ++ calls⟩ := by
  induction l generalizing fuel p c calls with
  | nil =>
    obtain ⟨fuel, rfl⟩ := Nat.exists_eq_add_of_lt hfuel
    rw [chain_nil.1 h]
    rfl
  | cons cell l ih =>
    obtain ⟨a, k, data⟩ := cell
    cases fuel with
    | zero => exact absurd hfuel (Nat.not_lt_zero _)
    | succ fuel =>
      have hstart : p = some a := Segment.start_eq h
      have hsplit : Chain t.read p ([] ++ (a, k, data) :: l) := h
      have hread : t.read a = some ((k, data), start l none) := hsplit.read_eq
      have htail : Chain t.read p ([(a, k, data)] ++ l) := h
      have hrest : Chain t.read (start l none) l := htail.suffix
      have hcall : Iteration.call cb ⟨t, c, calls⟩ ⟨k, data, start l none⟩ =
          ⟨t, (cb c t data k).1, (k, data) :: calls⟩ := by
        unfold Iteration.call
        dsimp only
        rw [hcb]
      rw [hstart]
      simp only [forEachFrom, heap_of_read hread]
      show forEachFrom cb fuel (start l none) (Iteration.call cb ⟨t, c, calls⟩ _) = _
      rw [hcall, ih hrest (Nat.lt_of_succ_lt_succ hfuel)]
      simp

theorem Reached.walk (hsize : size ≤ 30) (hm : Reached hash wide size t m) :
    ∃ entries : List (K × Option D), (entries.map Prod.fst).Nodup ∧
      (∀ key data, (key, data) ∈ entries ↔ m key = some data) ∧
      ∀ (C : Type) (cb : Callback K D C) (closure : C),
        (∀ c data key, (cb c t data key).2 = t) →
        t.forEach wide cb closure =
          some ⟨t, entries.foldl (fun c e => (cb c t e.2 e.1).1) closure, entries.reverse⟩ := by
  obtain ⟨cells, hl, hh⟩ := hm.holds hsize
  have hcount : count wide t.size = 2 ^ size := by rw [hl.size_eq, count, if_pos hsize]
  have hin : ∀ i key, (∃ data, (key, data) ∈ (cells i).map Prod.snd) → slot hash size key = i := by
    rintro i key ⟨data, hmem⟩
    obtain ⟨c, hc, hcd⟩ := mem_map.1 hmem
    rw [← hl.slot_eq i c hc, hcd]
  refine ⟨(List.range (2 ^ size)).flatMap fun i => (cells i).map Prod.snd, ?_, fun key data => ?_,
    fun C cb closure hcb => ?_⟩
  · rw [map_flatMap, nodup_flatMap]
    refine ⟨fun i _ => ?_, nodup_range.imp fun {i j} hij => ?_⟩
    · rw [map_map]; exact hl.nodup i
    · intro key hi hj
      rw [mem_map] at hi hj
      obtain ⟨⟨k, data⟩, hi, rfl⟩ := hi
      obtain ⟨⟨k', data'⟩, hj, hk⟩ := hj
      obtain rfl : k' = k := hk
      exact hij ((hin i k' ⟨data, hi⟩).symm.trans (hin j k' ⟨data', hj⟩))
  · rw [hh key data, mem_flatMap]
    constructor
    · rintro ⟨i, -, hmem⟩; rwa [hin i key ⟨data, hmem⟩]
    · exact fun hmem => ⟨_, mem_range.2 (slot_lt hash size key), hmem⟩
  have hslots : ∀ (is : List Nat) (c : C) (calls : List (K × Option D)),
      is.foldlM (forEachSlot cb) ⟨t, c, calls⟩ =
        some ⟨t, (is.flatMap fun i => (cells i).map Prod.snd).foldl
            (fun c e => (cb c t e.2 e.1).1) c,
          (is.flatMap fun i => (cells i).map Prod.snd).reverse ++ calls⟩ := by
    intro is
    induction is with
    | nil => intro c calls; rfl
    | cons i is ih =>
      intro c calls
      have hslot : forEachSlot cb ⟨t, c, calls⟩ i = _ := forEachFrom_kept hcb (hl.chain i)
        (Nat.lt_succ_of_le (hl.length_le i)) c calls
      rw [foldlM_cons, hslot]
      show is.foldlM (forEachSlot cb) ⟨t, _, _⟩ = _
      rw [ih, flatMap_cons, foldl_append, reverse_append, append_assoc]
  rw [forEach, hcount, hslots, append_nil]

/-! ## The refinement -/

theorem Reached.actsAs (hsize : size ≤ 30) (ht : Reached hash wide size t m) :
    ActsAs hash wide size t m := by
  obtain ⟨cells, hl, hh⟩ := ht.holds hsize
  obtain ⟨t', hclear, -⟩ := hl.clear_eq wide
  refine ⟨fun key => ?_, fun key data => ?_, fun key => ?_, ⟨t', hclear⟩, ⟨cells, hl⟩,
    fun C cb closure hcb => forEach_eq hsize closure hcb ht⟩
  · rcases hl.present_or_absent hh key with ⟨hnone, hkey⟩ | ⟨xs, a, data, ys, hsome, hcells, -⟩
    · rw [hl.lookup_miss hkey, hnone]; rfl
    · rw [hl.lookup_hit hcells, hsome]; rfl
  · rcases hl.present_or_absent hh key with ⟨hnone, hkey⟩ | ⟨xs, a, old, ys, hsome, hcells, -⟩
    · obtain ⟨t₁, hrun, -⟩ := hl.insert_miss data hkey
      exact ⟨t₁, by simp [hrun, hnone]⟩
    · obtain ⟨t₁, hrun, -⟩ := hl.insert_hit data hcells
      exact ⟨t₁, by simp [hrun, hsome]⟩
  · rcases hl.present_or_absent hh key with ⟨hnone, hkey⟩ | ⟨xs, a, data, ys, hsome, hcells, -⟩
    · exact ⟨t, by simp [hl.remove_miss hkey, hnone]⟩
    · obtain ⟨t₁, hrun, -⟩ := hl.remove_hit hcells
      exact ⟨t₁, by simp [hrun, hsome]⟩

/-- With more bits than an `int` can count to, the last chain is left as it is by
`wtable_clear`. -/
theorem not_refinesMap [Inhabited K] [Inhabited D] (hsize : 30 < size) :
    ¬ RefinesMap K D wide size := by
  intro h
  let hash : K → Nat := fun _ => 2 ^ size - 1
  let data : Option D := some default
  have hpow : 2 ^ 31 ≤ 2 ^ size := Nat.pow_le_pow_right (by decide) hsize
  have hlast : slot hash size (default : K) = 2 ^ size - 1 := by
    rw [slot, Nat.and_two_pow_sub_one_eq_mod]
    exact Nat.mod_eq_of_lt (Nat.sub_lt (Nat.two_pow_pos size) Nat.one_pos)
  have hout : ¬ slot hash size (default : K) < count wide size := by
    have hint := (wide size).toInt_lt
    rw [count, if_neg (Nat.not_le.2 hsize)]
    omega
  have hfresh : (default : K) ∉ keysOf ([] : Cells K D) := not_mem_nil
  obtain ⟨t₁, hins, hl₁⟩ := (layout_create hash size).insert_miss data hfresh
  obtain ⟨t₂, hclear, hl₂⟩ := hl₁.clear_eq wide
  have hcells : (if slot hash size (default : K) < count wide size then [] else
      Function.update (fun _ => ([] : Cells K D)) (slot hash size (default : K))
        [((create size : Wtable K D).top, default, data)] (slot hash size (default : K))) =
      [] ++ ((create size : Wtable K D).top, (default : K), data) :: [] := by
    rw [if_neg hout, update_self, nil_append]
  have hfound := hl₂.lookup_hit hcells
  have hspec := (h hash t₂ _ ((Reached.create.insert hins).clear hclear)).lookup default
  rw [hfound] at hspec
  exact absurd hspec (by simp [data])

/-- The table is a finite map for every hash function, and an iteration calls its callback
once for each key, exactly for the tables of 30 bits at most. -/
theorem refinesMap_iff (K D : Type) [DecidableEq K] [Inhabited K] [Inhabited D]
    (wide : Nat → BitVec 32) (size : Nat) : RefinesMap K D wide size ↔ size ≤ 30 := by
  constructor
  · intro h
    by_contra hsize
    exact not_refinesMap (Nat.lt_of_not_le hsize) h
  · exact fun hsize _ _ _ ht => ht.actsAs hsize

theorem not_refinesMap_31 : ¬ RefinesMap String Nat (fun _ => BitVec.intMin 32) 31 :=
  not_refinesMap (by decide)

end

end Common.Wtable

import OpenMama.Common.Wtable
import OpenMama.Lib.IndexedFold

/-!
# What the operations do to the chains

`Layout` says which buckets are on which chain.  Each operation is described by what it
does to the lists of buckets.
-/

namespace Common.Wtable

open Lib List Function

variable {K D : Type}

def read (t : Wtable K D) (a : Nat) : Option ((K × Option D) × Option Nat) :=
  (t.heap a).map fun b => ((b.key, b.data), b.next)

@[simp] theorem read_write (t : Wtable K D) (a : Nat) (b : Option (Bucket K D)) :
    (t.write a b).read = Function.update t.read a (b.map fun b => ((b.key, b.data), b.next)) := by
  funext a'
  by_cases h : a' = a
  · subst h; simp [read, write]
  · simp [read, write, h]

variable {a : Nat}

theorem heap_of_read {t : Wtable K D} {key : K} {data : Option D} {next : Option Nat}
    (h : t.read a = some ((key, data), next)) : t.heap a = some ⟨key, data, next⟩ := by
  unfold read at h
  cases hb : t.heap a with
  | none => rw [hb] at h; cases h
  | some b =>
    rw [hb] at h
    obtain ⟨⟨rfl, rfl⟩, rfl⟩ := h
    rfl

/-- The buckets of a chain: the address, the key and the data of each. -/
abbrev Cells (K D : Type) := List (Nat × (K × Option D))

def keysOf (cells : Cells K D) : List K := cells.map fun c => c.2.1

/-- The buckets on each chain.  A key is on the chain of its hash, and on it once. -/
structure Layout (hash : K → Nat) (size : Nat) (t : Wtable K D) (cells : Nat → Cells K D) :
    Prop where
  size_eq : t.size = size
  chain : ∀ i, Chain t.read (t.buckets i) (cells i)
  slot_eq : ∀ i, ∀ c ∈ cells i, slot hash size c.2.1 = i
  nodup : ∀ i, (keysOf (cells i)).Nodup
  below : ∀ i, ∀ c ∈ cells i, c.1 < t.top

theorem slot_lt (hash : K → Nat) (size : Nat) (key : K) : slot hash size key < 2 ^ size := by
  rw [slot, Nat.and_two_pow_sub_one_eq_mod]
  exact Nat.mod_lt _ (Nat.two_pow_pos size)

theorem layout_create (hash : K → Nat) (size : Nat) :
    Layout hash size (create size : Wtable K D) fun _ => [] where
  size_eq := rfl
  chain _ := rfl
  slot_eq _ _ h := absurd h (by simp)
  nodup _ := nodup_nil
  below _ _ h := absurd h (by simp)

section

variable {hash : K → Nat} {size : Nat} {t t' : Wtable K D} {cells : Nat → Cells K D} {key : K}

section

variable (h : Layout hash size t cells)

include h

theorem Layout.length_le (i : Nat) : (cells i).length ≤ t.top :=
  (h.chain i).length_le (h.below i)

variable {i : Nat}

theorem Layout.apart {j : Nat} (hij : j ≠ i) {c c' : Nat × (K × Option D)} (hc : c ∈ cells i)
    (hc' : c' ∈ cells j) : c'.1 ≠ c.1 := by
  intro haddr
  obtain ⟨next, hread⟩ := (h.chain i).read_isSome hc
  obtain ⟨next', hread'⟩ := (h.chain j).read_isSome hc'
  rw [haddr, hread, Option.some.injEq, Prod.mk.injEq] at hread'
  apply hij
  rw [← h.slot_eq i c hc, ← h.slot_eq j c' hc', hread'.1]

theorem Layout.change {new : Cells K D} (hsize : t'.size = t.size) (htop : t.top ≤ t'.top)
    (hbuckets : ∀ j, j ≠ i → t'.buckets j = t.buckets j)
    (hread : ∀ j, j ≠ i → ∀ c ∈ cells j, t'.read c.1 = t.read c.1)
    (hchain : Chain t'.read (t'.buckets i) new) (hslot : ∀ c ∈ new, slot hash size c.2.1 = i)
    (hnodup : (keysOf new).Nodup) (hbelow : ∀ c ∈ new, c.1 < t'.top) :
    Layout hash size t' (Function.update cells i new) where
  size_eq := hsize.trans h.size_eq
  chain j := by
    by_cases hj : j = i
    · subst hj; rwa [update_self]
    · rw [update_of_ne hj, hbuckets j hj]; exact (h.chain j).congr (hread j hj)
  slot_eq j := by
    by_cases hj : j = i
    · subst hj; rwa [update_self]
    · rw [update_of_ne hj]; exact h.slot_eq j
  nodup j := by
    by_cases hj : j = i
    · subst hj; rwa [update_self]
    · rw [update_of_ne hj]; exact h.nodup j
  below j c hc := by
    by_cases hj : j = i
    · subst hj
      rw [update_self] at hc
      exact hbelow c hc
    · rw [update_of_ne hj] at hc; exact Nat.lt_of_lt_of_le (h.below j c hc) htop

end

end

/-! ## Looking for a key -/

variable {p : Option Nat}
variable {fuel : Nat} {l : Cells K D}

section

variable [DecidableEq K] {hash : K → Nat} {size : Nat} {t : Wtable K D}
  {cells : Nat → Cells K D} {key : K}
variable {before : Option Nat}

theorem find_miss (h : Chain t.read p l) (hkey : key ∉ keysOf l) (hfuel : l.length < fuel) :
    t.find key fuel before p = some none := by
  induction l generalizing fuel before p with
  | nil =>
    obtain ⟨fuel, rfl⟩ := Nat.exists_eq_add_of_lt hfuel
    rw [h]
    rfl
  | cons c l ih =>
    obtain ⟨rfl, next, hread, hrest⟩ := h
    cases fuel with
    | zero => exact absurd hfuel (Nat.not_lt_zero _)
    | succ fuel =>
      rw [keysOf, map_cons, mem_cons, not_or] at hkey
      have hnext : t.find key fuel (some c.1) next = some none :=
        ih hrest hkey.2 (Nat.lt_of_succ_lt_succ hfuel)
      simp [find, heap_of_read hread, hkey.1, hnext]

variable {xs ys : Cells K D}

theorem find_hit {data : Option D} (h : Chain t.read p (xs ++ (a, key, data) :: ys))
    (hkey : key ∉ keysOf xs) (hfuel : xs.length < fuel) :
    t.find key fuel before p = some (some ⟨(xs.getLast?.map Prod.fst).or before, a⟩) := by
  induction xs generalizing fuel before p with
  | nil =>
    obtain ⟨rfl, next, hread, -⟩ := h
    obtain ⟨fuel, rfl⟩ := Nat.exists_eq_add_of_lt hfuel
    simp [find, heap_of_read hread]
  | cons c xs ih =>
    obtain ⟨rfl, next, hread, hrest⟩ := h
    cases fuel with
    | zero => exact absurd hfuel (Nat.not_lt_zero _)
    | succ fuel =>
      rw [keysOf, map_cons, mem_cons, not_or] at hkey
      have hnext : t.find key fuel (some c.1) next =
          some (some ⟨(xs.getLast?.map Prod.fst).or (some c.1), a⟩) :=
        ih hrest hkey.2 (Nat.lt_of_succ_lt_succ hfuel)
      have hlast : ((c :: xs).getLast?.map Prod.fst).or before =
          (xs.getLast?.map Prod.fst).or (some c.1) := by
        rw [getLast?_cons]
        cases xs.getLast? <;> rfl
      simp [find, heap_of_read hread, hkey.1, hnext, hlast]

section

variable (h : Layout hash size t cells)

include h

section

variable (hkey : key ∉ keysOf (cells (slot hash size key)))

include hkey

theorem Layout.findKey_miss : t.findKey hash key = some none := by
  rw [findKey, h.size_eq]
  exact find_miss (h.chain _) hkey (Nat.lt_succ_of_le (h.length_le _))

omit hkey in
theorem Layout.findKey_hit {data : Option D}
    (hcells : cells (slot hash size key) = xs ++ (a, key, data) :: ys) :
    t.findKey hash key = some (some ⟨xs.getLast?.map Prod.fst, a⟩) ∧
      t.heap a = some ⟨key, data, start ys none⟩ := by
  have hchain := h.chain (slot hash size key)
  have hlen := h.length_le (slot hash size key)
  have hnodup := h.nodup (slot hash size key)
  rw [hcells] at hchain hlen hnodup
  rw [keysOf, map_append, map_cons, nodup_middle, nodup_cons, mem_append, not_or] at hnodup
  have hlt : xs.length < t.top + 1 := by
    rw [length_append] at hlen; omega
  have hfind : t.find key (t.top + 1) none (t.buckets (slot hash size key)) =
      some (some ⟨(xs.getLast?.map Prod.fst).or none, a⟩) := find_hit hchain hnodup.1.1 hlt
  rw [Option.or_none] at hfind
  rw [findKey, h.size_eq]
  exact ⟨hfind, heap_of_read hchain.read_eq⟩

/-! ## The operations on the chains -/

theorem Layout.lookup_miss : t.lookup hash key = some none := by simp [lookup, h.findKey_miss hkey]

omit hkey in
theorem Layout.lookup_hit {data : Option D}
    (hcells : cells (slot hash size key) = xs ++ (a, key, data) :: ys) :
    t.lookup hash key = some data := by
  obtain ⟨hfind, hheap⟩ := h.findKey_hit hcells
  simp [lookup, hfind, hheap]

omit hkey in
theorem Layout.insert_miss (data : Option D)
    (hkey : key ∉ keysOf (cells (slot hash size key))) :
    ∃ t', t.insert hash key data = some (1, t') ∧ Layout hash size t'
      (Function.update cells (slot hash size key)
        ((t.top, key, data) :: cells (slot hash size key))) := by
  have hfresh : ∀ i, ∀ c ∈ cells i, c.1 ≠ t.top := 
    fun i c hc => Nat.ne_of_lt (h.below i c hc)
  have hread : ∀ i, ∀ c ∈ cells i,
      Function.update t.read t.top
        (some ((key, data), t.buckets (slot hash size key))) c.1 = t.read c.1 :=
    fun i c hc => update_of_ne (hfresh i c hc) _ _
  refine ⟨_, by simp [insert, h.findKey_miss hkey]; rfl, ?_⟩
  rw [h.size_eq]
  refine h.change rfl (Nat.le_succ _) (fun j hj => update_of_ne hj _ _) ?_ ?_ ?_ ?_ ?_
  · intro j hj c hc; exact (congrFun (read_write t t.top _) c.1).trans (hread j c hc)
  · refine ⟨update_self .., t.buckets (slot hash size key), ?_, ?_⟩
    · exact (congrFun (read_write t t.top _) t.top).trans (update_self ..)
    · refine (h.chain _).congr fun c hc => ?_
      exact (congrFun (read_write t t.top _) c.1).trans (hread _ c hc)
  · intro c hc
    rcases mem_cons.1 hc with rfl | hc
    · rfl
    · exact h.slot_eq _ c hc
  · exact nodup_cons.2 ⟨hkey, h.nodup _⟩
  · intro c hc
    rcases mem_cons.1 hc with rfl | hc
    · exact Nat.lt_succ_self _
    · exact Nat.lt_succ_of_lt (h.below _ c hc)

omit hkey in
theorem Layout.insert_hit {old : Option D} (data : Option D)
    (hcells : cells (slot hash size key) = xs ++ (a, key, old) :: ys) :
    ∃ t', t.insert hash key data = some (0, t') ∧ Layout hash size t'
      (Function.update cells (slot hash size key) (xs ++ (a, key, data) :: ys)) := by
  obtain ⟨hfind, hheap⟩ := h.findKey_hit hcells
  have hchain := h.chain (slot hash size key)
  have hslot := h.slot_eq (slot hash size key)
  have hnodup := h.nodup (slot hash size key)
  have hbelow := h.below (slot hash size key)
  have hmem : (a, key, old) ∈ cells (slot hash size key) := by
    rw [hcells]; exact mem_append_right _ mem_cons_self
  rw [hcells] at hchain hslot hnodup hbelow
  refine ⟨t.write a (some ⟨key, data, start ys none⟩), by simp [insert, hfind, hheap], ?_⟩
  refine h.change rfl (Nat.le_refl _) (fun j hj => rfl) ?_ ?_ ?_ ?_ ?_
  · intro j hj c hc
    rw [read_write]
    exact update_of_ne (h.apart hj hmem hc) _ _
  · rw [read_write]; exact hchain.write_value
  · intro c hc
    rcases mem_append.1 hc with hc | hc
    · exact hslot c (mem_append_left _ hc)
    · rcases mem_cons.1 hc with rfl | hc
      · rfl
      · exact hslot c (mem_append_right _ (mem_cons_of_mem _ hc))
  · simpa [keysOf] using hnodup
  · intro c hc
    rcases mem_append.1 hc with hc | hc
    · exact hbelow c (mem_append_left _ hc)
    · rcases mem_cons.1 hc with rfl | hc
      · exact hbelow (a, key, old) (by simp)
      · exact hbelow c (mem_append_right _ (mem_cons_of_mem _ hc))

theorem Layout.remove_miss : t.remove hash key = some (none, t) := by
  simp [remove, h.findKey_miss hkey]

end

theorem Layout.remove_hit {data : Option D}
    (hcells : cells (slot hash size key) = xs ++ (a, key, data) :: ys) :
    ∃ t', t.remove hash key = some (data, t') ∧ Layout hash size t'
      (Function.update cells (slot hash size key) (xs ++ ys)) := by
  obtain ⟨hfind, hheap⟩ := h.findKey_hit hcells
  have hchain := h.chain (slot hash size key)
  have hslot := h.slot_eq (slot hash size key)
  have hnodup := h.nodup (slot hash size key)
  have hbelow := h.below (slot hash size key)
  have hsub : ∀ c, c ∈ xs ++ ys → c ∈ cells (slot hash size key) := by
    intro c hc
    rw [hcells]
    rcases mem_append.1 hc with hc | hc
    · exact mem_append_left _ hc
    · exact mem_append_right _ (mem_cons_of_mem _ hc)
  have hmem : (a, key, data) ∈ cells (slot hash size key) := by
    rw [hcells]; simp
  have hkeys : (keysOf (xs ++ ys)).Nodup := by
    rw [hcells, keysOf, map_append, map_cons, nodup_middle] at hnodup
    rw [keysOf, map_append]
    exact (nodup_cons.1 hnodup).2
  have hgone : a ∉ (xs ++ ys).map Prod.fst := by
    intro ha
    obtain ⟨c, hc, haddr⟩ := mem_map.1 ha
    rw [hcells] at hchain
    exact hchain.ne_of_mem c (mem_append.1 hc) haddr
  rw [hcells] at hchain
  rcases eq_nil_or_concat xs with rfl | ⟨zs, ⟨b, k, d⟩, rfl⟩
  · refine ⟨(t.setChain (slot hash size key) (start ys none)).write a none,
      by simp [remove, hfind, hheap, h.size_eq], ?_⟩
    refine h.change rfl (Nat.le_refl _) (fun j hj => update_of_ne hj _ _) ?_ ?_
      (fun c hc => hslot c (hsub c hc)) hkeys fun c hc => hbelow c (hsub c hc)
    · intro j hj c hc
      rw [read_write]
      exact update_of_ne (h.apart hj hmem hc) _ _
    · have happ : Chain t.read (t.buckets (slot hash size key)) ([(a, key, data)] ++ ys) := hchain
      have hrest : Chain t.read (start ys none) ys := happ.suffix
      have hfront : ((t.setChain (slot hash size key) (start ys none)).write a none).buckets
          (slot hash size key) = start ys none := update_self ..
      rw [hfront, read_write]
      exact hrest.write_off hgone
  rw [concat_eq_append] at hfind hcells hchain hsub hgone hkeys ⊢
  rw [append_assoc] at hchain
  have hb : t.heap b = some ⟨k, d, some a⟩ := heap_of_read hchain.read_eq
  have hbmem : (b, k, d) ∈ cells (slot hash size key) := by
    rw [hcells]; simp
  refine ⟨(t.write b (some ⟨k, d, start ys none⟩)).write a none,
    by simp [remove, hfind, hheap, hb], ?_⟩
  refine h.change rfl (Nat.le_refl _) (fun j hj => rfl) ?_ ?_
    (fun c hc => hslot c (hsub c hc)) hkeys fun c hc => hbelow c (hsub c hc)
  · intro j hj c hc
    rw [read_write, read_write, update_of_ne (h.apart hj hmem hc)]
    exact update_of_ne (h.apart hj hbmem hc) _ _
  · rw [read_write, read_write, append_assoc]
    rw [append_assoc] at hgone
    exact hchain.unlink.write_off hgone

end

end

/-! ## Clearing -/

section

variable {hash : K → Nat} {size : Nat} {t : Wtable K D} {cells : Nat → Cells K D}

theorem freeChain_eq {t : Wtable K D} (h : Chain t.read p l) (hfuel : l.length < fuel) :
    ∃ t', freeChain fuel p t = some t' ∧ t'.buckets = t.buckets ∧ t'.size = t.size ∧
      t'.top = t.top ∧ ∀ a, a ∉ l.map Prod.fst → t'.read a = t.read a := by
  induction l generalizing fuel p t with
  | nil =>
    obtain ⟨fuel, rfl⟩ := Nat.exists_eq_add_of_lt hfuel
    refine ⟨t, ?_, rfl, rfl, rfl, fun _ _ => rfl⟩
    rw [h]
    rfl
  | cons c l ih =>
    have hnodup := h.nodup
    rw [map_cons, nodup_cons] at hnodup
    obtain ⟨rfl, next, hread, hrest⟩ := h
    cases fuel with
    | zero => exact absurd hfuel (Nat.not_lt_zero _)
    | succ fuel =>
      have hrest' : Chain (t.write c.1 none).read next l := by
        rw [read_write]; exact Chain.write_off hrest hnodup.1
      obtain ⟨t', hrun, hbuckets, hsize, htop, hother⟩ :=
        ih hrest' (Nat.lt_of_succ_lt_succ hfuel)
      refine ⟨t', ?_, hbuckets, hsize, htop, ?_⟩
      · simp [freeChain, heap_of_read hread, hrun]
      · intro a ha
        rw [map_cons, mem_cons, not_or] at ha
        rw [hother a ha.2, read_write]
        exact update_of_ne ha.1 _ _

theorem Layout.clearSlot_eq (h : Layout hash size t cells) (i : Nat) :
    ∃ t', t.clearSlot i = some t' ∧ Layout hash size t' (Function.update cells i []) := by
  obtain ⟨t', hrun, hbuckets, hsize, htop, hother⟩ :=
    freeChain_eq (h.chain i) (Nat.lt_succ_of_le (h.length_le i))
  refine ⟨t'.setChain i none, by simp [clearSlot, hrun], ?_⟩
  refine h.change hsize (Nat.le_of_eq htop.symm) ?_ ?_ ?_ ?_ nodup_nil ?_
  · intro j hj; exact (update_of_ne hj _ _).trans (congrFun hbuckets j)
  · intro j hj c hc
    refine hother c.1 fun hmem => ?_
    obtain ⟨c', hc', haddr⟩ := mem_map.1 hmem
    exact h.apart hj hc' hc haddr.symm
  · exact update_self ..
  · exact fun c hc => absurd hc (by simp)
  · exact fun c hc => absurd hc (by simp)

theorem Layout.clear_eq (h : Layout hash size t cells) (wide : Nat → BitVec 32) :
    ∃ t', t.clear wide = some t' ∧
      Layout hash size t' fun i => if i < count wide size then [] else cells i := by
  rw [clear, h.size_eq]
  refine exists_foldlM_range (P := fun n t' =>
    Layout hash size t' fun i => if i < n then [] else cells i) ?_ (by simpa using h)
  intro i t' _ ht'
  obtain ⟨t'', hrun, hlayout⟩ := ht'.clearSlot_eq i
  refine ⟨t'', hrun, ?_⟩
  convert hlayout using 1
  funext j
  by_cases hj : j = i
  · subst hj; simp
  · rw [update_of_ne hj]
    have hiff : j < i + 1 ↔ j < i := by omega
    simp only [hiff]

end

end Common.Wtable

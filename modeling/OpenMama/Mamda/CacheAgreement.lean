import OpenMama.Mamda.FieldCache

/-!
# Caches that agree

Two caches that agree but for some keys, and what keeps them so.  A key that they need
not agree on is one that they agree on after a field that sets it
(`agreeAt_foldl`), where no other field is written to it.
-/

namespace Mamda.Cached

namespace Cache

variable {K Flags : Type} {kind : K → Kind}

def AgreeAt (c d : Cache kind Flags) (k : K) : Prop :=
  c.value k = d.value k ∧ c.state k = d.state k

theorem AgreeAt.trans {c d e : Cache kind Flags} {k : K} (h : c.AgreeAt d k)
    (h' : d.AgreeAt e k) : c.AgreeAt e k := ⟨h.1.trans h'.1, h.2.trans h'.2⟩

structure AgreeOff (S : K → Prop) (c d : Cache kind Flags) : Prop where
  flags : c.flags = d.flags
  at_key : ∀ k, ¬ S k → c.AgreeAt d k

namespace AgreeOff

variable {S : K → Prop} {c d : Cache kind Flags}

section

variable (h : c.AgreeOff S d)

include h

theorem eq (hS : ∀ k, S k → c.AgreeAt d k) : c = d := by
  have hat : ∀ k, c.AgreeAt d k := by
    intro k
    by_cases hk : S k
    · exact hS k hk
    · exact h.at_key k hk
  ext k
  · exact (hat k).1
  · rw [(hat k).2]
  · exact h.flags

theorem value_eq {k : K} (hk : ¬ S k) : c.value k = d.value k :=
  (h.at_key k hk).1

theorem state_eq {k : K} (hk : ¬ S k) : c.state k = d.state k :=
  (h.at_key k hk).2

theorem setFlags (f : Flags → Flags) : (c.setFlags f).AgreeOff S (d.setFlags f) :=
  ⟨congrArg f h.flags, h.at_key⟩

theorem updateFieldStates (looksAt : K → Bool) :
    (c.updateFieldStates looksAt).AgreeOff S (d.updateFieldStates looksAt) := by
  refine ⟨h.flags, fun _ hk => ⟨h.value_eq hk, ?_⟩⟩
  simp [Cache.updateFieldStates, h.state_eq hk]

end

variable [DecidableEq K]

section

variable (h : c.AgreeOff S d)

include h

theorem put (k : K) (v : (kind k).Type) : (c.put k v).AgreeOff S (d.put k v) := by
  refine ⟨h.flags, fun l hl => ⟨?_, (h.at_key l hl).2⟩⟩
  rcases eq_or_ne l k with rfl | hne
  · simp [Cache.put]
  · simpa [Cache.put, hne] using (h.at_key l hl).1

theorem mark (k : K) : (c.mark k).AgreeOff S (d.mark k) := by
  refine ⟨h.flags, fun l hl => ⟨(h.at_key l hl).1, ?_⟩⟩
  rcases eq_or_ne l k with rfl | hne
  · simp [Cache.mark]
  · simpa [Cache.mark, hne] using (h.at_key l hl).2

theorem store (k : K) (v : (kind k).Type) :
    (c.store k v).AgreeOff S (d.store k v) := (h.put k v).mark k

theorem storeSome (k : K) (v : Option (kind k).Type) :
    (c.storeSome k v).AgreeOff S (d.storeSome k v) := by
  cases v with
  | none => exact h
  | some v => exact h.store k v

end

end AgreeOff

theorem agreeAt_store [DecidableEq K] (c d : Cache kind Flags) (k : K) (v : (kind k).Type) :
    (c.store k v).AgreeAt (d.store k v) k := by
  simp [AgreeAt, store, put, mark]

end Cache

/-! ## Updaters -/

section Updaters

variable {Fid K Flags : Type} {kind : K → Kind}

/-- Caches that agree but for some keys do so after an update. -/
def Respects (S : K → Prop) (u : Update Fid kind Flags) : Prop :=
  ∀ field c d, Cache.AgreeOff S c d → Cache.AgreeOff S (u field c) (u field d)

def Spares (S : K → Prop) (u : Update Fid kind Flags) : Prop :=
  ∀ field c k, S k → Cache.AgreeAt (u field c) c k

variable {S : K → Prop}

theorem ne_of_spared {k l : K} (hk : ¬ S k) (hl : S l) : l ≠ k := by
  rintro rfl
  exact hk hl

variable [DecidableEq K]

theorem respects_store (k : K) (get : MsgField Fid → (kind k).Type) :
    Respects S (store k get : Update Fid kind Flags) :=
  fun field _ _ h => h.store k (get field)

theorem respects_storeSome (k : K) (get : MsgField Fid → Option (kind k).Type) :
    Respects S (storeSome k get : Update Fid kind Flags) :=
  fun field _ _ h => h.storeSome k (get field)

theorem spares_cacheStore {k l : K} (hl : l ≠ k) (c : Cache kind Flags) (v : (kind k).Type) :
    (c.store k v).AgreeAt c l := by
  simp [Cache.AgreeAt, Cache.store, Cache.put, Cache.mark, hl]

theorem spares_store {k : K} (hk : ¬ S k) (get : MsgField Fid → (kind k).Type) :
    Spares S (store k get : Update Fid kind Flags) :=
  fun field c _ hl => spares_cacheStore (ne_of_spared hk hl) c (get field)

theorem spares_storeSome {k : K} (hk : ¬ S k) (get : MsgField Fid → Option (kind k).Type) :
    Spares S (storeSome k get : Update Fid kind Flags) := by
  intro field c l hl
  simp only [storeSome]
  cases get field with
  | none => exact ⟨rfl, rfl⟩
  | some v => exact spares_cacheStore (ne_of_spared hk hl) c v

theorem respects_putSome (k : K) (get : MsgField Fid → Option (kind k).Type) :
    Respects S (putSome k get : Update Fid kind Flags) := by
  intro field c d h
  simp only [putSome]
  cases get field with
  | none => exact h
  | some v => exact h.put k v

theorem spares_putSome {k : K} (hk : ¬ S k) (get : MsgField Fid → Option (kind k).Type) :
    Spares S (putSome k get : Update Fid kind Flags) := by
  intro field c l hl
  simp only [putSome]
  cases get field with
  | none => exact ⟨rfl, rfl⟩
  | some v => exact ⟨by simp [Cache.put, ne_of_spared hk hl], rfl⟩

theorem spares_storeOther {k : K} (hk : ¬ S k) (get : MsgField Fid → (kind k).Type) :
    Spares S (storeOther k get : Update Fid kind Flags) := by
  intro field c l hl
  simp only [storeOther]
  split
  · exact spares_cacheStore (ne_of_spared hk hl) c (get field)
  · exact ⟨rfl, rfl⟩

theorem respects_storeOther (k : K) (get : MsgField Fid → (kind k).Type) :
    Respects S (storeOther k get : Update Fid kind Flags) := by
  intro field c d h
  simp only [storeOther]
  by_cases hk : S k
  · have hflags : ∀ e : Cache kind Flags, (storeOther k get field e).flags = e.flags := by
      intro e
      simp only [storeOther]
      split <;> rfl
    have hspares : ∀ (e : Cache kind Flags) l, ¬ S l →
        (storeOther k get field e).AgreeAt e l := fun e l hl =>
      spares_storeOther (S := fun l => ¬ S l) (not_not_intro hk) get field e l hl
    refine ⟨?_, fun l hl => ?_⟩
    · exact (hflags c).trans (h.flags.trans (hflags d).symm)
    · exact ⟨(hspares c l hl).1.trans ((h.value_eq hl).trans (hspares d l hl).1.symm),
        (hspares c l hl).2.trans ((h.state_eq hl).trans (hspares d l hl).2.symm)⟩
  · rw [h.value_eq hk]
    split
    · exact h.store k (get field)
    · exact h

end Updaters

/-! ## A key that a message sets -/

section Fields

variable {Fid K Flags : Type} {kind : K → Kind} {k : K}
  {onField : Cache kind Flags → MsgField Fid → Cache kind Flags}

theorem agreeOff_foldl {S : K → Prop}
    (hfield : ∀ c d f, Cache.AgreeOff S c d → Cache.AgreeOff S (onField c f) (onField d f))
    (fields : List (MsgField Fid)) {c d : Cache kind Flags} (h : c.AgreeOff S d) :
    (fields.foldl onField c).AgreeOff S (fields.foldl onField d) :=
  List.foldl_rel h fun f _ c d => hfield c d f

/-- Where a field that sets a key makes two caches agree on it, and no field makes them differ
again, they agree after the fields of a message that has one.  Until then they are related. -/
theorem agreeAt_foldl (sets : MsgField Fid → Prop) (R : Cache kind Flags → Cache kind Flags → Prop)
    (hkeeps : ∀ c d f, c.AgreeAt d k → (onField c f).AgreeAt (onField d f) k)
    (hsets : ∀ c d f, R c d → sets f → (onField c f).AgreeAt (onField d f) k)
    (hR : ∀ c d f, R c d → ¬ sets f → R (onField c f) (onField d f)) {fields : List (MsgField Fid)}
    {c d : Cache kind Flags} (hcd : R c d) (h : ∃ f ∈ fields, sets f) :
    (fields.foldl onField c).AgreeAt (fields.foldl onField d) k := by
  induction fields generalizing c d with
  | nil =>
    obtain ⟨f, hf, -⟩ := h
    exact absurd hf List.not_mem_nil
  | cons f fields ih =>
    by_cases hset : sets f
    · exact List.foldl_rel (r := fun c d => Cache.AgreeAt c d k) (l := fields)
        (hsets c d f hcd hset) fun f _ c d => hkeeps c d f
    · apply ih (hR c d f hcd hset)
      obtain ⟨g, hg, hgset⟩ := h
      rcases List.mem_cons.mp hg with rfl | hg
      · exact absurd hgset hset
      · exact ⟨g, hg, hgset⟩

theorem agreeAt_of_spared {a b c d : Cache kind Flags} (ha : a.AgreeAt c k) (hb : b.AgreeAt d k)
    (h : c.AgreeAt d k) : a.AgreeAt b k :=
  ⟨ha.1.trans (h.1.trans hb.1.symm), ha.2.trans (h.2.trans hb.2.symm)⟩

variable [DecidableEq K] (named : Fid → Prop)
  (hspares : ∀ c f, ¬ named f.fid → (onField c f).AgreeAt c k)

include hspares

theorem agreeAt_foldl_storeSome (get : MsgField Fid → Option (kind k).Type)
    (hupdate : ∀ c f, named f.fid → onField c f = storeSome k get f c)
    {fields : List (MsgField Fid)} (c d : Cache kind Flags)
    (h : ∃ f ∈ fields, named f.fid ∧ (get f).isSome) :
    (fields.foldl onField c).AgreeAt (fields.foldl onField d) k := by
  refine agreeAt_foldl (fun f => named f.fid ∧ (get f).isSome) (fun _ _ => True) ?_ ?_
    (fun _ _ _ _ _ => trivial) trivial h
  · intro c d f hcd
    by_cases hf : named f.fid
    · rw [hupdate c f hf, hupdate d f hf]
      simp only [storeSome]
      cases get f with
      | none => exact hcd
      | some v => exact Cache.agreeAt_store c d k v
    · exact agreeAt_of_spared (hspares c f hf) (hspares d f hf) hcd
  · rintro c d f - ⟨hf, hset⟩
    rw [hupdate c f hf, hupdate d f hf]
    obtain ⟨v, hv⟩ := Option.isSome_iff_exists.mp hset
    simp only [storeSome, hv]
    exact Cache.agreeAt_store c d k v

theorem agreeAt_foldl_putSome (get : MsgField Fid → Option (kind k).Type)
    (hupdate : ∀ c f, named f.fid → onField c f = putSome k get f c)
    {fields : List (MsgField Fid)} {c d : Cache kind Flags} (hcd : c.state k = d.state k)
    (h : ∃ f ∈ fields, named f.fid ∧ (get f).isSome) :
    (fields.foldl onField c).AgreeAt (fields.foldl onField d) k := by
  refine agreeAt_foldl (fun f => named f.fid ∧ (get f).isSome) (fun c d => c.state k = d.state k)
    ?_ ?_ ?_ hcd h
  · intro c d f hcd
    by_cases hf : named f.fid
    · rw [hupdate c f hf, hupdate d f hf]
      simp only [putSome]
      cases get f with
      | none => exact hcd
      | some v => exact ⟨by simp [Cache.put], hcd.2⟩
    · exact agreeAt_of_spared (hspares c f hf) (hspares d f hf) hcd
  · rintro c d f hcd ⟨hf, hset⟩
    rw [hupdate c f hf, hupdate d f hf]
    obtain ⟨v, hv⟩ := Option.isSome_iff_exists.mp hset
    simp only [putSome, hv]
    exact ⟨by simp [Cache.put], hcd⟩
  intro c d f hcd _
  by_cases hf : named f.fid
  · rw [hupdate c f hf, hupdate d f hf]
    simp only [putSome]
    cases get f with
    | none => exact hcd
    | some v => exact hcd
  · rwa [(hspares c f hf).2, (hspares d f hf).2]

theorem agreeAt_foldl_storeOther (get : MsgField Fid → (kind k).Type)
    (hupdate : ∀ c f, named f.fid → onField c f = storeOther k get f c)
    {fields : List (MsgField Fid)} (c d : Cache kind Flags)
    (h : ∃ f ∈ fields, named f.fid ∧ get f ≠ c.value k ∧ get f ≠ d.value k) :
    (fields.foldl onField c).AgreeAt (fields.foldl onField d) k := by
  have hpending : ∀ (a : Cache kind Flags) f, (a.value k = c.value k ∨ a.value k = d.value k) →
      ¬ (named f.fid ∧ get f ≠ c.value k ∧ get f ≠ d.value k) →
      (onField a f).value k = c.value k ∨ (onField a f).value k = d.value k := by
    intro a f ha hset
    by_cases hf : named f.fid
    · have hget : get f = c.value k ∨ get f = d.value k := by
        by_contra hne; exact hset ⟨hf, not_or.mp hne⟩
      rw [hupdate a f hf]
      simp only [storeOther]
      split
      · simpa [Cache.store, Cache.put, Cache.mark] using hget
      · exact ha
    · rwa [(hspares a f hf).1]
  refine agreeAt_foldl (fun f => named f.fid ∧ get f ≠ c.value k ∧ get f ≠ d.value k)
    (fun a b => (a.value k = c.value k ∨ a.value k = d.value k) ∧
      (b.value k = c.value k ∨ b.value k = d.value k)) ?_ ?_ ?_ ⟨.inl rfl, .inr rfl⟩ h
  · intro a b f hab
    by_cases hf : named f.fid
    · rw [hupdate a f hf, hupdate b f hf]
      simp only [storeOther, hab.1]
      split
      · exact Cache.agreeAt_store a b k (get f)
      · exact hab
    · exact agreeAt_of_spared (hspares a f hf) (hspares b f hf) hab
  · rintro a b f ⟨ha, hb⟩ ⟨hf, hset⟩
    have hdiffers : ∀ v, v = c.value k ∨ v = d.value k → get f ≠ v := by
      rintro v (rfl | rfl)
      · exact hset.1
      · exact hset.2
    rw [hupdate a f hf, hupdate b f hf]
    simp only [storeOther, if_pos (hdiffers _ ha), if_pos (hdiffers _ hb)]
    exact Cache.agreeAt_store a b k (get f)
  · exact fun a b f hab hset => ⟨hpending a f hab.1 hset, hpending b f hab.2 hset⟩

end Fields

end Mamda.Cached

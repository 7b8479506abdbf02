import Mathlib.Init

/-!
# Destroy handles

A destroy handle stands for an owner in callbacks that may run after the owner was destroyed.
Each of them has a reference to it.  The lock is recorded by how often it is held when a call has
returned.
-/

namespace Common.Handle

/-- `wDestroyHandle`. -/
structure DestroyHandle where
  m_numberReferences : Int := 0
  m_destroyed : Bool := false
  m_lock : Nat := 0
  /-- How often its memory was freed, and whether it was used after that. -/
  freed : Nat := 0
  misused : Bool := false
  deriving DecidableEq, Repr

variable (handle : DestroyHandle)

def touch : DestroyHandle :=
  if 0 < handle.freed then { handle with misused := true } else handle

def freeHandle : DestroyHandle := { handle with freed := handle.freed + 1, m_lock := 0 }

/-- `destroyHandle_destroyOwner`. -/
def destroyOwner : DestroyHandle :=
  let handle := touch handle
  let handle := { handle with m_lock := handle.m_lock + 1 }
  if handle.m_numberReferences = 0 then freeHandle handle
  else { handle with m_destroyed := true, m_lock := handle.m_lock - 1 }

/-- `destroyHandle_incrementRefCount`. -/
def incrementRefCount : DestroyHandle :=
  let handle := touch handle
  { handle with m_numberReferences := handle.m_numberReferences + 1 }

/-- `destroyHandle_removeReference`, and whether it returns the owner. -/
def removeReference : Bool × DestroyHandle :=
  let handle := touch handle
  let handle := { handle with
    m_lock := handle.m_lock + 1
    m_numberReferences := handle.m_numberReferences - 1 }
  if handle.m_destroyed = false then (true, { handle with m_lock := handle.m_lock - 1 })
  else if handle.m_numberReferences = 0 then (false, freeHandle handle)
  -- the lock is still held
  else (false, handle)

/-! ## Holders -/

/-- The handle with this many holders, of an owner that was destroyed or not: freed once, when the
owner is destroyed and nobody holds it. -/
structure Accounts (handle : DestroyHandle) (holders : Nat) (destroyed : Bool) : Prop where
  references : handle.m_numberReferences = holders
  freed : handle.freed = if destroyed ∧ holders = 0 then 1 else 0
  lock : handle.freed = 0 → handle.m_lock = 0
  misused : handle.misused = false

structure Held (handle : DestroyHandle) (holders : Nat) (destroyed : Bool) : Prop
    extends Accounts handle holders destroyed where
  destroyed : handle.freed = 0 → handle.m_destroyed = destroyed

variable {handle : DestroyHandle} {holders : Nat} {destroyed : Bool}

theorem held_new : Held {} 0 false :=
  ⟨⟨rfl, rfl, fun _ => rfl, rfl⟩, fun _ => rfl⟩

theorem touch_alive (h : handle.freed = 0) : touch handle = handle := by
  rw [touch, if_neg (by omega)]

theorem touch_references (handle : DestroyHandle) :
    (touch handle).m_numberReferences = handle.m_numberReferences := by
  unfold touch
  split <;> rfl

@[simp] theorem removeReference_references (handle : DestroyHandle) :
    (removeReference handle).2.m_numberReferences = handle.m_numberReferences - 1 := by
  unfold removeReference
  dsimp only
  split
  · exact congrArg (· - 1) (touch_references handle)
  · split <;> exact congrArg (· - 1) (touch_references handle)

@[simp] theorem destroyOwner_references (handle : DestroyHandle) :
    (destroyOwner handle).m_numberReferences = handle.m_numberReferences := by
  unfold destroyOwner
  dsimp only
  split <;> exact touch_references handle

theorem Accounts.freed_zero (h : Accounts handle holders destroyed)
    (halive : destroyed → 0 < holders) : handle.freed = 0 := by
  rw [h.freed, if_neg]
  rintro ⟨hdestroyed, hnone⟩
  have hpos := halive hdestroyed
  omega

theorem Held.incrementRefCount (h : Held handle holders false) :
    Held (Handle.incrementRefCount handle) (holders + 1) false := by
  have hfreed : handle.freed = 0 := h.freed_zero nofun
  rw [Handle.incrementRefCount, touch_alive hfreed]
  refine ⟨⟨?_, ?_, h.lock, h.misused⟩, h.destroyed⟩
  · show handle.m_numberReferences + 1 = ((holders + 1 : Nat) : Int)
    rw [h.references]
    rfl
  · exact hfreed.trans (if_neg fun hd => nomatch hd.1).symm

theorem Held.destroyOwner (h : Held handle holders false) :
    Held (Handle.destroyOwner handle) holders true := by
  have hfreed : handle.freed = 0 := h.freed_zero nofun
  have hreferences := h.references
  rw [Handle.destroyOwner, touch_alive hfreed]
  dsimp only
  split
  · next hnone =>
    have hholders : holders = 0 := by omega
    subst hholders
    exact ⟨⟨hreferences, congrArg (· + 1) hfreed, fun _ => rfl, h.misused⟩,
      fun hzero => absurd hzero (Nat.succ_ne_zero _)⟩
  next hsome =>
  refine ⟨⟨hreferences, ?_, fun _ => ?_, h.misused⟩, fun _ => rfl⟩
  · refine hfreed.trans (if_neg fun hd => hsome ?_).symm
    rw [hreferences, hd.2]
    rfl
  · show handle.m_lock + 1 - 1 = 0
    rw [h.lock hfreed]

theorem Held.removeReference (h : Held handle (holders + 1) destroyed)
    (hlast : destroyed → holders = 0) : (Handle.removeReference handle).1 = !destroyed ∧
    Held (Handle.removeReference handle).2 holders destroyed := by
  have hfreed : handle.freed = 0 := h.freed_zero fun _ => Nat.succ_pos holders
  have hreferences : handle.m_numberReferences - 1 = holders := by
    rw [h.references]; omega
  have hdestroyed := h.destroyed hfreed
  rw [Handle.removeReference, touch_alive hfreed]
  cases destroyed with
  | false =>
    rw [if_pos hdestroyed]
    refine ⟨rfl, ⟨hreferences, ?_, fun _ => ?_, h.misused⟩, fun _ => hdestroyed⟩
    · exact hfreed.trans (if_neg fun hd => nomatch hd.1).symm
    · show handle.m_lock + 1 - 1 = 0
      rw [h.lock hfreed]
  | true =>
    obtain rfl := hlast rfl
    have hzero : handle.m_numberReferences - 1 = 0 := hreferences
    rw [if_neg (by rw [hdestroyed]; simp), if_pos hzero]
    exact ⟨rfl, ⟨hreferences, congrArg (· + 1) hfreed, fun _ => rfl, h.misused⟩,
      fun hzero => absurd hzero (Nat.succ_ne_zero _)⟩

theorem Held.locked (h : Held handle (holders + 1) true) (hothers : holders ≠ 0) :
    (Handle.removeReference handle).1 = false ∧ (Handle.removeReference handle).2.freed = 0 ∧
      (Handle.removeReference handle).2.m_lock = 1 := by
  have hfreed : handle.freed = 0 := h.freed_zero fun _ => Nat.succ_pos holders
  have hdestroyed := h.destroyed hfreed
  have hreferences : handle.m_numberReferences - 1 ≠ 0 := by
    rw [h.references]; omega
  rw [Handle.removeReference, touch_alive hfreed]
  rw [if_neg (by rw [hdestroyed]; simp), if_neg hreferences]
  refine ⟨rfl, hfreed, ?_⟩
  rw [h.lock hfreed]

end Common.Handle

import OpenMama.Mamda.OptionContract

/-!
# `MamdaOptionChain`

The chain keeps each contract in up to six places: the call or the put set, the
expirations (date, then strike, then side and exchange) and the set of strikes.
The objects behind its pointers are kept in lists and a pointer is the index of
its object: contracts, the strike maps of the dates
(`MamdaOptionExpirationStrikes`) and the contracts of a strike
(`MamdaOptionStrikeSet`).  Nothing is removed, so an index stays good.

A map keyed by `MamaDateTime` is ordered by the time word alone, so its keys are
the time words; the date stored as key is the first component of the value.
-/

namespace Mamda

open Mama Lib

/-- The contract has what the expirations are keyed by. -/
def OptionContract.placed (c : OptionContract) : Bool :=
  c.gotExpireDate && c.gotStrikePrice && c.gotPutCall

/-- `MamdaOptionStrikeSet`. -/
structure StrikeSet where
  expireDate : DateTime
  strikePrice : Price
  callSet : ContractSet
  putSet : ContractSet

namespace StrikeSet

def new (expireDate : DateTime) (strikePrice : Price) : StrikeSet :=
  ⟨expireDate, strikePrice, .new, .new⟩

/-- The contract set of a side; the source's pointer stays `NULL` for an unknown one. -/
def contractSet (s : StrikeSet) : PutCall → Option ContractSet
  | .call => some s.callSet
  | .put => some s.putSet
  | .unknown => none

/-- Writes through the pointer to the contract set of a side. -/
def setContract (s : StrikeSet) (putCall : PutCall) (exchange : List Char) (contract : Nat) :
    StrikeSet :=
  match putCall with
  | .call => { s with callSet := s.callSet.setContract exchange contract }
  | .put => { s with putSet := s.putSet.setContract exchange contract }
  | .unknown => s

end StrikeSet

/-- A pointer member that the constructor leaves unset. -/
inductive Pointer (α : Type)
  | unset
  | null
  | to (object : α)

/-- What the chain reads of the underlying's quote listener. -/
structure UnderlyingQuote where
  bidPrice : Price
  askPrice : Price

/-- `MamdaOptionChainImpl`. -/
structure OptionChain where
  callOptions : List Nat
  putOptions : List Nat
  strikePrices : List Price
  quoteListener : Pointer UnderlyingQuote
  tradeListener : Pointer Price
  expirationSet : SortedMap Nat (DateTime × Nat)

structure ChainState where
  contracts : List OptionContract
  expirationStrikes : List (SortedMap Price Nat)
  strikeSets : List StrikeSet
  chain : OptionChain

namespace ChainState

/-- `MamdaOptionChainImpl::MamdaOptionChainImpl`, which sets neither listener. -/
def new : ChainState := ⟨[], [], [], ⟨[], [], [], .unset, .unset, .empty⟩⟩

def contract (s : ChainState) (c : Nat) : OptionContract := s.contracts.getD c default

/-- A contract made with `new`, at the next address. -/
def allocate (s : ChainState) (v : OptionContract) : ChainState :=
  { s with contracts := s.contracts ++ [v] }

def store (s : ChainState) (c : Nat) (v : OptionContract) : ChainState :=
  { s with contracts := s.contracts.set c v }

/-! ## `processNewContractDetails` -/

/-- `ContractSet::insert`. -/
def insertContract (s : ChainState) (c : Nat) (l : List Nat) : List Nat :=
  insertBy (fun a b => contractLessThan (s.contract a) (s.contract b)) c l

/-- Into the call or the put set, if the side is known. -/
def addSide (s : ChainState) (c : Nat) : ChainState :=
  match (s.contract c).putCall with
  | .call =>
    { s with chain := { s.chain with callOptions := s.insertContract c s.chain.callOptions } }
  | .put => { s with chain := { s.chain with putOptions := s.insertContract c s.chain.putOptions } }
  | .unknown => s

def insertDate (s : ChainState) (expireDate : DateTime) : ChainState :=
  { s with
    expirationStrikes := s.expirationStrikes ++ [.empty]
    chain := { s.chain with
      expirationSet := s.chain.expirationSet.insert expireDate.timeOnly
        (expireDate, s.expirationStrikes.length) } }

def findExpireStrikes (s : ChainState) (expireDate : DateTime) : ChainState × Nat :=
  match s.chain.expirationSet.find? expireDate.timeOnly with
  | some found => (s, found.2)
  | none => (s.insertDate expireDate, s.expirationStrikes.length)

def strikesAt (s : ChainState) (expireStrikes : Nat) : SortedMap Price Nat :=
  s.expirationStrikes.getD expireStrikes .empty

/-- A strike with no contracts yet, in the strike map of its date. -/
def insertStrike (s : ChainState) (expireStrikes : Nat) (expireDate : DateTime)
    (strikePrice : Price) : ChainState :=
  { s with
    strikeSets := s.strikeSets ++ [.new expireDate strikePrice]
    expirationStrikes := s.expirationStrikes.set expireStrikes
      ((s.strikesAt expireStrikes).insert strikePrice s.strikeSets.length) }

/-- The strike set of a strike in a date's map, made if the strike is new there. -/
def findStrikeSet (s : ChainState) (expireStrikes : Nat) (expireDate : DateTime)
    (strikePrice : Price) : ChainState × Nat :=
  match (s.strikesAt expireStrikes).find? strikePrice with
  | some strikeSet => (s, strikeSet)
  | none => (s.insertStrike expireStrikes expireDate strikePrice, s.strikeSets.length)

def fillSlot (s : ChainState) (strikeSet : Nat) (c : Nat) : ChainState :=
  { s with
    strikeSets := s.strikeSets.modify strikeSet
      fun st => st.setContract (s.contract c).putCall (s.contract c).exchange c }

/-- The contract set of the side is chosen and used; `none` is its use when it is `NULL`. -/
def setContract (s : ChainState) (strikeSet : Nat) (c : Nat) : Option ChainState :=
  match (s.contract c).putCall with
  | .call => some (s.fillSlot strikeSet c)
  | .put => some (s.fillSlot strikeSet c)
  | .unknown => none

/-- `mStrikePrices.insert`. -/
def addStrike (s : ChainState) (strikePrice : Price) : ChainState :=
  { s with chain := { s.chain with
      strikePrices := insertBy (fun a b => a < b) strikePrice s.chain.strikePrices } }

def place (s : ChainState) (c : Nat) : Option ChainState :=
  if (s.contract c).gotExpireDate then
    let (s', expireStrikes) := s.findExpireStrikes (s.contract c).expireDate
    if (s.contract c).gotStrikePrice then
      let (s', strikeSet) :=
        s'.findStrikeSet expireStrikes (s.contract c).expireDate (s.contract c).strikePrice
      if (s.contract c).gotPutCall then s'.setContract strikeSet c else some s'
    else some s'
  else some s

/-- `processNewContractDetails`, and `addContract`, which only calls it. -/
def processNewContractDetails (s : ChainState) (contract : Nat) : Option ChainState :=
  let c := s.contract contract
  if c.recapRequired then some s
  else do
    let s := if c.gotPutCall then s.addSide contract else s
    let s ← s.place contract
    some (if c.gotStrikePrice then s.addStrike c.strikePrice else s)

/-! ## What the expirations hold -/

def strikePtr (s : ChainState) (date : Nat) (strike : Price) : Option Nat := do
  let found ← s.chain.expirationSet.find? date
  let strikes ← s.expirationStrikes[found.2]?
  strikes.find? strike

/-- The contract under a date, strike, side and slot, as `getAllExpirations` gives them. -/
def reached (s : ChainState) (date : Nat) (strike : Price) (side : PutCall) (slot : Slot) :
    Option Nat := do
  let strikeSet ← s.strikePtr date strike
  let strikes ← s.strikeSets[strikeSet]?
  let contracts ← strikes.contractSet side
  contracts.get slot

/-- Every pointer of the chain leads to an object, and no two to the same. -/
structure Linked (s : ChainState) : Prop where
  date : ∀ {k d p}, s.chain.expirationSet.find? k = some (d, p) →
    d.timeOnly = k ∧ p < s.expirationStrikes.length
  date_inj : ∀ {k d p k' d'}, s.chain.expirationSet.find? k = some (d, p) →
    s.chain.expirationSet.find? k' = some (d', p) → k = k'
  strike : ∀ {k x q}, s.strikePtr k x = some q → q < s.strikeSets.length
  strike_inj : ∀ {k x k' x' q}, s.strikePtr k x = some q → s.strikePtr k' x' = some q →
    k = k' ∧ x = x'

/-- The contracts and the three ordered sets are the same. -/
structure SameSets (s s' : ChainState) : Prop where
  contracts : s'.contracts = s.contracts
  callOptions : s'.chain.callOptions = s.chain.callOptions
  putOptions : s'.chain.putOptions = s.chain.putOptions
  strikePrices : s'.chain.strikePrices = s.chain.strikePrices

variable {s s' : ChainState}

theorem SameSets.refl (s : ChainState) : SameSets s s := ⟨rfl, rfl, rfl, rfl⟩

theorem SameSets.trans {s'' : ChainState} (h : SameSets s s') (h' : SameSets s' s'') :
    SameSets s s'' :=
  ⟨h'.1.trans h.1, h'.2.trans h.2, h'.3.trans h.3, h'.4.trans h.4⟩

theorem strikePtr_of_find? {k : Nat} {d : DateTime} {p : Nat}
    (h : s.chain.expirationSet.find? k = some (d, p)) (x : Price) :
    s.strikePtr k x = (s.expirationStrikes[p]?).bind fun strikes => strikes.find? x := by
  simp [strikePtr, h]

theorem strikePtr_of_none {k : Nat} (h : s.chain.expirationSet.find? k = none) (x : Price) :
    s.strikePtr k x = none := by
  simp [strikePtr, h]

/-! ## A date -/

section date

variable {d : DateTime} (hs : Linked s) (hnew : s.chain.expirationSet.find? d.timeOnly = none)

include hs hnew

theorem strikePtr_insertDate (k : Nat) (x : Price) :
    (s.insertDate d).strikePtr k x = s.strikePtr k x := by
  by_cases hk : k = d.timeOnly
  · -- the new date has no strikes yet
    rw [hk, strikePtr_of_none hnew]
    simp [strikePtr, insertDate]
  · cases hfind : s.chain.expirationSet.find? k with
    | none => simp [strikePtr, insertDate, SortedMap.find?_insert, hfind]
    | some found =>
      have hlt := (hs.date hfind).2
      simp [strikePtr, insertDate, SortedMap.find?_insert, hk, hfind, List.getElem?_append_left hlt]

theorem Linked.insertDate : Linked (s.insertDate d) := by
  have hfind : ∀ k, (s.insertDate d).chain.expirationSet.find? k =
      if k = d.timeOnly then some (d, s.expirationStrikes.length)
      else s.chain.expirationSet.find? k := by
    intro k
    simp [ChainState.insertDate, SortedMap.find?_insert]
  have hlength : (s.insertDate d).expirationStrikes.length = s.expirationStrikes.length + 1 := by
    simp [ChainState.insertDate]
  refine ⟨?_, ?_, ?_, ?_⟩
  · intro k d' p h
    rw [hfind] at h
    split at h
    · next hk => cases h; exact ⟨hk.symm, by omega⟩
    · have := hs.date h
      exact ⟨this.1, by omega⟩
  · intro k d' p k' d'' h h'
    rw [hfind] at h h'
    split at h
    · next hk =>
      split at h'
      · next hk' => rw [hk, hk']
      · cases h; exact absurd (hs.date h').2 (by omega)
    · split at h'
      · cases h'; exact absurd (hs.date h).2 (by omega)
      · exact hs.date_inj h h'
  · intro k x q h
    rw [strikePtr_insertDate hs hnew] at h
    exact hs.strike h
  · intro k x k' x' q h h'
    rw [strikePtr_insertDate hs hnew] at h h'
    exact hs.strike_inj h h'

end date

theorem findExpireStrikes_sameSets (s : ChainState) (d : DateTime) :
    SameSets s (s.findExpireStrikes d).1 := by
  unfold findExpireStrikes
  split
  · exact ⟨rfl, rfl, rfl, rfl⟩
  · exact ⟨rfl, rfl, rfl, rfl⟩

theorem findExpireStrikes_strikeSets (s : ChainState) (d : DateTime) :
    (s.findExpireStrikes d).1.strikeSets = s.strikeSets := by
  unfold findExpireStrikes
  split <;> rfl

theorem Linked.findExpireStrikes (hs : Linked s) (d : DateTime) :
    Linked (s.findExpireStrikes d).1 ∧
      (∃ d', (s.findExpireStrikes d).1.chain.expirationSet.find? d.timeOnly =
        some (d', (s.findExpireStrikes d).2)) ∧
      ∀ k x, (s.findExpireStrikes d).1.strikePtr k x = s.strikePtr k x := by
  unfold ChainState.findExpireStrikes
  cases hfind : s.chain.expirationSet.find? d.timeOnly with
  | some found => exact ⟨hs, ⟨found.1, hfind⟩, fun _ _ => rfl⟩
  | none =>
    refine ⟨hs.insertDate hfind, ⟨d, ?_⟩, strikePtr_insertDate hs hfind⟩
    rw [ChainState.insertDate, SortedMap.find?_insert, if_pos rfl]

/-! ## A strike of a date -/

section strike

variable {k : Nat} {d' : DateTime} {p : Nat} (hs : Linked s)
  (hk : s.chain.expirationSet.find? k = some (d', p))

include hs hk

theorem strikePtr_of_date (x : Price) : s.strikePtr k x = (s.strikesAt p).find? x := by
  have hp := (hs.date hk).2
  rw [strikePtr_of_find? hk]
  simp [strikesAt, hp]

variable {x : Price} (d : DateTime)

theorem strikePtr_insertStrike (k' : Nat) (x' : Price) :
    (s.insertStrike p d x).strikePtr k' x' =
      if (k', x') = (k, x) then some s.strikeSets.length else s.strikePtr k' x' := by
  have hp := (hs.date hk).2
  cases hk' : s.chain.expirationSet.find? k' with
  | none =>
    have hne : (k', x') ≠ (k, x) := by
      rintro heq
      cases heq
      rw [hk] at hk'
      cases hk'
    rw [if_neg hne]
    simp [strikePtr, insertStrike, hk']
  | some found =>
    by_cases hpp : found.2 = p
    · have hkk : k' = k := hs.date_inj (show s.chain.expirationSet.find? k' =
        some (found.1, p) by rw [hk', ← hpp]) hk
      rw [hkk, strikePtr_of_date hs hk]
      simp [strikePtr, insertStrike, hk, hp, SortedMap.find?_insert]
    have hne : (k', x') ≠ (k, x) := by
      rintro heq
      cases heq
      rw [hk] at hk'
      cases hk'
      exact hpp rfl
    rw [if_neg hne]
    simp [strikePtr, insertStrike, hk', List.getElem?_set_ne (Ne.symm hpp)]

theorem Linked.insertStrike : Linked (s.insertStrike p d x) := by
  have hptr := strikePtr_insertStrike hs hk (x := x) d
  have hlength : (s.insertStrike p d x).strikeSets.length = s.strikeSets.length + 1 := by
    simp [ChainState.insertStrike]
  refine ⟨?_, hs.date_inj, ?_, ?_⟩
  · intro k' d'' p' h
    have hlen : (s.insertStrike p d x).expirationStrikes.length = s.expirationStrikes.length := by
      simp [ChainState.insertStrike]
    rw [hlen]
    exact hs.date h
  · intro k' x' q h
    rw [hptr] at h
    split at h
    · cases h; omega
    · have := hs.strike h
      omega
  intro k₁ x₁ k₂ x₂ q h₁ h₂
  rw [hptr] at h₁ h₂
  split at h₁
  · next h1 =>
    split at h₂
    · next h2 =>
      rw [← h2] at h1
      cases h1
      exact ⟨rfl, rfl⟩
    · cases h₁; exact absurd (hs.strike h₂) (by omega)
  · split at h₂
    · cases h₂; exact absurd (hs.strike h₁) (by omega)
    · exact hs.strike_inj h₁ h₂

theorem reached_insertStrike (hnew : (s.strikesAt p).find? x = none) (k' : Nat) (x' : Price)
    (side : PutCall) (slot : Slot) :
    (s.insertStrike p d x).reached k' x' side slot = s.reached k' x' side slot := by
  simp only [reached, strikePtr_insertStrike hs hk (x := x) d]
  split
  · next heq =>
    cases heq
    -- the new strike set has no contracts
    rw [strikePtr_of_date hs hk, hnew]
    cases side <;> simp [ChainState.insertStrike, StrikeSet.contractSet, StrikeSet.new]
  · cases hq : s.strikePtr k' x' with
    | none => rfl
    | some q => simp [ChainState.insertStrike, List.getElem?_append_left (hs.strike hq)]

end strike

theorem findStrikeSet_sameSets (s : ChainState) (p : Nat) (d : DateTime) (x : Price) :
    SameSets s (s.findStrikeSet p d x).1 := by
  unfold findStrikeSet
  split
  · exact ⟨rfl, rfl, rfl, rfl⟩
  · exact ⟨rfl, rfl, rfl, rfl⟩

theorem Linked.findStrikeSet (hs : Linked s) {k : Nat} {d' : DateTime} {p : Nat}
    (hk : s.chain.expirationSet.find? k = some (d', p)) (d : DateTime) (x : Price) :
    Linked (s.findStrikeSet p d x).1 ∧
      (s.findStrikeSet p d x).1.strikePtr k x = some (s.findStrikeSet p d x).2 ∧
      (∀ k' x' side slot,
        (s.findStrikeSet p d x).1.reached k' x' side slot = s.reached k' x' side slot) := by
  unfold ChainState.findStrikeSet
  cases hfind : (s.strikesAt p).find? x with
  | some q =>
    refine ⟨hs, ?_, fun _ _ _ _ => rfl⟩
    rw [strikePtr_of_date hs hk, hfind]
  | none =>
    refine ⟨hs.insertStrike hk d, ?_, reached_insertStrike hs hk d hfind⟩
    rw [strikePtr_insertStrike hs hk, if_pos rfl]

/-! ## A contract of a strike -/

theorem setContract_eq (s : ChainState) (q c : Nat) :
    s.setContract q c =
      if (s.contract c).putCall = .unknown then none else some (s.fillSlot q c) := by
  unfold setContract
  cases (s.contract c).putCall <;> rfl

theorem strikePtr_fillSlot (s : ChainState) (q c k : Nat) (x : Price) :
    (s.fillSlot q c).strikePtr k x = s.strikePtr k x := rfl

theorem Linked.fillSlot (hs : Linked s) (q c : Nat) : Linked (s.fillSlot q c) := by
  refine ⟨hs.date, hs.date_inj, fun h => ?_, hs.strike_inj⟩
  rw [ChainState.fillSlot, List.length_modify]
  exact hs.strike h

theorem contractSet_setContract (st : StrikeSet) {putCall : PutCall} (hside : putCall ≠ .unknown)
    (e : List Char) (c : Nat) (side : PutCall) (slot : Slot) :
    (((st.setContract putCall e c).contractSet side).bind fun set => set.get slot) =
      if side = putCall ∧ slot = slotOf e then some c
      else (st.contractSet side).bind fun set => set.get slot := by
  cases putCall with
  | unknown => exact absurd rfl hside
  | call =>
    cases side with
    | call => simp [StrikeSet.contractSet, StrikeSet.setContract, ContractSet.get_setContract]
    | put => simp [StrikeSet.contractSet, StrikeSet.setContract]
    | unknown => simp [StrikeSet.contractSet]
  | put =>
    cases side with
    | call => simp [StrikeSet.contractSet, StrikeSet.setContract]
    | put => simp [StrikeSet.contractSet, StrikeSet.setContract, ContractSet.get_setContract]
    | unknown => simp [StrikeSet.contractSet]

variable {c : Nat}

theorem reached_fillSlot (hs : Linked s) {k q : Nat} {x : Price} (hq : s.strikePtr k x = some q)
    (hside : (s.contract c).putCall ≠ .unknown) (k' : Nat) (x' : Price) (side : PutCall)
    (slot : Slot) : (s.fillSlot q c).reached k' x' side slot = if k' = k ∧ x' = x ∧
    side = (s.contract c).putCall ∧
    slot = slotOf (s.contract c).exchange then some c else s.reached k' x' side slot := by
  have hlt := hs.strike hq
  by_cases hkx : k' = k ∧ x' = x
  · obtain ⟨rfl, rfl⟩ := hkx
    simp only [reached, strikePtr_fillSlot, hq]
    have hget := contractSet_setContract s.strikeSets[q] hside (s.contract c).exchange c side slot
    simpa [fillSlot, hlt] using hget
  rw [if_neg fun h => hkx ⟨h.1, h.2.1⟩]
  simp only [reached, strikePtr_fillSlot]
  cases hq' : s.strikePtr k' x' with
  | none => rfl
  | some q' =>
    have hne : q ≠ q' := fun heq => hkx (hs.strike_inj hq' (heq ▸ hq))
    simp [fillSlot, hne]

/-! ## The whole step -/

/-- What `processNewContractDetails` does with a contract that waits for no recap. -/
structure Entered (s : ChainState) (c : Nat) (s' : ChainState) : Prop where
  linked : Linked s'
  contracts : s'.contracts = s.contracts
  callOptions : s'.chain.callOptions =
    if (s.contract c).gotPutCall ∧ (s.contract c).putCall = .call then
      s.insertContract c s.chain.callOptions
    else s.chain.callOptions
  putOptions : s'.chain.putOptions =
    if (s.contract c).gotPutCall ∧ (s.contract c).putCall = .put then
      s.insertContract c s.chain.putOptions
    else s.chain.putOptions
  strikePrices : s'.chain.strikePrices =
    if (s.contract c).gotStrikePrice then
      insertBy (fun a b => a < b) (s.contract c).strikePrice s.chain.strikePrices
    else s.chain.strikePrices
  reached : ∀ k x side slot, s'.reached k x side slot =
    if (s.contract c).placed ∧ k = (s.contract c).expireDate.timeOnly ∧
      x = (s.contract c).strikePrice ∧ side = (s.contract c).putCall ∧
      slot = slotOf (s.contract c).exchange then some c
    else s.reached k x side slot

theorem addSide_if (s : ChainState) (c : Nat) :
    (if (s.contract c).gotPutCall then s.addSide c else s) =
      { s with chain := { s.chain with
          callOptions :=
            if (s.contract c).gotPutCall ∧ (s.contract c).putCall = .call then
              s.insertContract c s.chain.callOptions
            else s.chain.callOptions
          putOptions :=
            if (s.contract c).gotPutCall ∧ (s.contract c).putCall = .put then
              s.insertContract c s.chain.putOptions
            else s.chain.putOptions } } := by
  cases (s.contract c).gotPutCall with
  | false => simp
  | true =>
    unfold addSide
    cases (s.contract c).putCall <;> simp

theorem SameSets.contract_eq (h : SameSets s s') (c : Nat) : s'.contract c = s.contract c := by
  rw [contract, contract, h.contracts]

def Placed (s : ChainState) (c : Nat) (s' : ChainState) : Prop :=
  Linked s' ∧ SameSets s s' ∧ ∀ k x side slot, s'.reached k x side slot =
    if (s.contract c).placed ∧ k = (s.contract c).expireDate.timeOnly ∧
      x = (s.contract c).strikePrice ∧ side = (s.contract c).putCall ∧
      slot = slotOf (s.contract c).exchange then some c
    else s.reached k x side slot

theorem Linked.place (hs : Linked s) (c : Nat) :
    if (s.contract c).placed ∧ (s.contract c).putCall = .unknown then s.place c = none
    else ∃ s', s.place c = some s' ∧ Placed s c s' := by
  unfold ChainState.place
  cases hdate : (s.contract c).gotExpireDate with
  | false =>
    have hplaced : (s.contract c).placed = false := by simp [OptionContract.placed, hdate]
    simp [hplaced, Placed, hs, SameSets.refl]
  | true =>
    obtain ⟨hs₁, ⟨d', hd'⟩, hptr⟩ := hs.findExpireStrikes (s.contract c).expireDate
    have hsame₁ := findExpireStrikes_sameSets s (s.contract c).expireDate
    have hsets := findExpireStrikes_strikeSets s (s.contract c).expireDate
    generalize s.findExpireStrikes (s.contract c).expireDate = found at *
    obtain ⟨s₁, p⟩ := found
    have hreached₁ : ∀ k x side slot, s₁.reached k x side slot = s.reached k x side slot := by
      intro k x side slot
      simp only [reached]
      rw [hptr, hsets]
    simp only [if_true]
    cases hstrike : (s.contract c).gotStrikePrice with
    | false =>
      have hplaced : (s.contract c).placed = false := by simp [OptionContract.placed, hstrike]
      simp [hplaced, Placed, hs₁, hsame₁, hreached₁]
    | true =>
      obtain ⟨hs₂, hq, hreached₂⟩ :=
        hs₁.findStrikeSet hd' (s.contract c).expireDate (s.contract c).strikePrice
      have hsame₂ := findStrikeSet_sameSets s₁ p (s.contract c).expireDate
        (s.contract c).strikePrice
      generalize s₁.findStrikeSet p (s.contract c).expireDate (s.contract c).strikePrice =
        found at *
      obtain ⟨s₂, q⟩ := found
      have hc : s₂.contract c = s.contract c := (hsame₁.trans hsame₂).contract_eq c
      cases hputCall : (s.contract c).gotPutCall with
      | false =>
        have hplaced : (s.contract c).placed = false := by simp [OptionContract.placed, hputCall]
        simp [hplaced, Placed, hs₂, hsame₁.trans hsame₂, hreached₂, hreached₁]
      | true =>
        have hplaced : (s.contract c).placed := by
          simp [OptionContract.placed, hdate, hstrike, hputCall]
        simp only [hplaced, true_and, setContract_eq, hc]
        split
        · rfl
        · next hside =>
          refine ⟨_, rfl, hs₂.fillSlot q c, (hsame₁.trans hsame₂).trans ⟨rfl, rfl, rfl, rfl⟩, ?_⟩
          intro k x side slot
          rw [reached_fillSlot hs₂ hq (hc ▸ hside), hreached₂, hreached₁, hc]
          simp [hplaced]

theorem Entered.contract_eq (he : Entered s c s') (d : Nat) : s'.contract d = s.contract d := by
  unfold contract
  rw [he.contracts]

theorem processNewContractDetails_entered (hs : Linked s)
    (hrecap : (s.contract c).recapRequired = false) : if (s.contract c).placed ∧
    (s.contract c).putCall = .unknown then s.processNewContractDetails c = none else ∃ s',
    s.processNewContractDetails c = some s' ∧ Entered s c s' := by
  simp only [processNewContractDetails, hrecap, addSide_if]
  set s₁ : ChainState := { s with chain := { s.chain with
    callOptions :=
      if (s.contract c).gotPutCall ∧ (s.contract c).putCall = .call then
        s.insertContract c s.chain.callOptions
      else s.chain.callOptions
    putOptions :=
      if (s.contract c).gotPutCall ∧ (s.contract c).putCall = .put then
        s.insertContract c s.chain.putOptions
      else s.chain.putOptions } } with hs₁
  have hlinked : Linked s₁ := ⟨hs.date, hs.date_inj, hs.strike, hs.strike_inj⟩
  have hc : s₁.contract c = s.contract c := rfl
  have hplace := hlinked.place c
  rw [hc] at hplace
  split
  · next hbad =>
    rw [if_pos hbad] at hplace
    rw [hplace]
    rfl
  next hgood =>
  rw [if_neg hgood] at hplace
  obtain ⟨s₂, heq, hlinked₂, hsame, hreached₂⟩ := hplace
  refine ⟨_, by rw [heq]; rfl, ?_⟩
  cases hstrike : (s.contract c).gotStrikePrice with
  | false =>
    refine ⟨hlinked₂, hsame.contracts, hsame.callOptions, hsame.putOptions, ?_, ?_⟩
    · rw [hstrike]; exact hsame.strikePrices
    · intro k x side slot; exact hreached₂ k x side slot
  | true =>
    refine ⟨⟨hlinked₂.date, hlinked₂.date_inj, hlinked₂.strike, hlinked₂.strike_inj⟩,
      hsame.contracts, hsame.callOptions, hsame.putOptions, ?_, ?_⟩
    · rw [hstrike]
      simp only [addStrike, if_true]
      rw [hsame.strikePrices]
    · intro k x side slot; exact hreached₂ k x side slot

theorem entered_of_process (hs : Linked s) (hrecap : (s.contract c).recapRequired = false)
    (h : s.processNewContractDetails c = some s') : Entered s c s' := by
  have hentered := processNewContractDetails_entered hs hrecap
  split at hentered
  · rw [hentered] at h; cases h
  · obtain ⟨s'', heq, he⟩ := hentered
    rw [heq] at h
    cases h
    exact he

theorem processNewContractDetails_waiting (hrecap : (s.contract c).recapRequired) :
    s.processNewContractDetails c = some s := by
  simp [processNewContractDetails, hrecap]

end ChainState

end Mamda

import OpenMama.Mamda.OptionChainListener

/-!
# What is in an option chain

The contents of a chain are said for any set of contracts that have entered it
(`Lists`): the call and put sets list those of their side in order, the
expirations hold each under its own date, strike, side and slot and nothing
else, and the strike set has their strikes.  One more contract keeps this just
if it is a twin of none of them (`lists_entered_iff`); a run keeps it just if
every step does (`keepsContents_iff`).
-/

namespace Mamda

open Mama Lib List

/-- The call (or put) set takes two such contracts for one. -/
def OptionContract.SameListing (a b : OptionContract) : Prop :=
  a.gotPutCall ∧ b.gotPutCall ∧ a.putCall = b.putCall ∧ a.putCall ≠ .unknown ∧ a.key = b.key

/-- Two such contracts have one slot in the expirations. -/
def OptionContract.SameSlot (a b : OptionContract) : Prop :=
  a.placed ∧ b.placed ∧ a.expireDate.timeOnly = b.expireDate.timeOnly ∧
    a.strikePrice = b.strikePrice ∧ a.putCall = b.putCall ∧
    slotOf a.exchange = slotOf b.exchange

namespace ChainState

/-- The contract waits for no recap, so its details were processed. -/
def inChain (s : ChainState) (c : Nat) : Prop :=
  c < s.contracts.length ∧ (s.contract c).recapRequired = false

/-- A set lists, in order and without repetition, the contracts of a side. -/
def Listed (s : ChainState) (members : Nat → Prop) (side : PutCall) (l : List Nat) : Prop :=
  Ordered (fun c => (s.contract c).key) l ∧
    ∀ c, c ∈ l ↔ members c ∧ (s.contract c).gotPutCall ∧ (s.contract c).putCall = side

/-- The structures of the chain hold just the given contracts, each under its own values. -/
structure Lists (s : ChainState) (members : Nat → Prop) : Prop where
  callOptions : Listed s members .call s.chain.callOptions
  putOptions : Listed s members .put s.chain.putOptions
  placed : ∀ c, members c → (s.contract c).placed → (s.contract c).putCall ≠ .unknown →
    s.reached (s.contract c).expireDate.timeOnly (s.contract c).strikePrice
      (s.contract c).putCall (slotOf (s.contract c).exchange) = some c
  own : ∀ k x side slot c, s.reached k x side slot = some c →
    members c ∧ (s.contract c).placed ∧ k = (s.contract c).expireDate.timeOnly ∧
      x = (s.contract c).strikePrice ∧ side = (s.contract c).putCall ∧
      slot = slotOf (s.contract c).exchange
  strikePrices : Ordered id s.chain.strikePrices
  mem_strikePrices : ∀ x, x ∈ s.chain.strikePrices ↔
    ∃ c, members c ∧ (s.contract c).gotStrikePrice ∧ (s.contract c).strikePrice = x

variable {s s₀ s' : ChainState} {members : Nat → Prop} {c : Nat}

theorem Entered.inChain_iff (he : Entered s c s') (d : Nat) : s'.inChain d ↔ s.inChain d := by
  rw [inChain, inChain, he.contracts, he.contract_eq]

/-! ## One more contract -/

theorem keyed_contract (s : ChainState) :
    Keyed (fun a b => contractLessThan (s.contract a) (s.contract b))
      (fun c => (s.contract c).key) :=
  fun a b => contractLessThan_keyed (s.contract a) (s.contract b)

theorem keyed_strikes : Keyed (fun a b : Price => decide (a < b)) id := by
  intro a b
  simp

variable {l : List Nat} {v : OptionContract}

theorem listed_insert_iff {side : PutCall} (hl : Listed s members side l) (hout : ¬members c)
    (hgot : (s.contract c).gotPutCall) (hside : (s.contract c).putCall = side) :
    Listed s (fun d => members d ∨ d = c) side (s.insertContract c l) ↔
      ∀ d ∈ l, (s.contract d).key ≠ (s.contract c).key := by
  constructor
  · rintro ⟨hordered, hmem⟩ d hd hkey
    have hc : c ∈ s.insertContract c l := (hmem c).mpr ⟨.inr rfl, hgot, hside⟩
    have hd' : d ∈ s.insertContract c l := mem_insertBy_of_mem hd
    have hdc : d = c := hordered.key_injOn hd' hc hkey
    exact hout (hdc ▸ ((hl.2 d).mp hd).1)
  intro hnew
  refine ⟨s.keyed_contract.ordered_insertBy hl.1, fun d => ?_⟩
  rw [insertContract, s.keyed_contract.mem_insertBy hnew, hl.2]
  constructor
  · rintro (rfl | ⟨hd, hrest⟩)
    · exact ⟨.inr rfl, hgot, hside⟩
    · exact ⟨.inl hd, hrest⟩
  · rintro ⟨hd | rfl, hrest⟩
    · exact .inr ⟨hd, hrest⟩
    · exact .inl rfl

theorem Listed.skip {side : PutCall} (hl : Listed s members side l)
    (hother : ¬((s.contract c).gotPutCall ∧ (s.contract c).putCall = side)) :
    Listed s (fun d => members d ∨ d = c) side l := by
  refine ⟨hl.1, fun d => ?_⟩
  rw [hl.2]
  constructor
  · rintro ⟨hd, hrest⟩; exact ⟨.inl hd, hrest⟩
  · rintro ⟨hd | rfl, hrest⟩
    · exact ⟨hd, hrest⟩
    · exact absurd hrest hother

theorem Listed.congr {side : PutCall} (hsame : s'.contracts = s.contracts) :
    Listed s' members side l ↔ Listed s members side l := by
  have hc : s'.contract = s.contract := by
    funext d
    rw [contract, contract, hsame]
  rw [Listed, Listed, hc]

theorem listed_side_iff {side : PutCall} (hside : side ≠ .unknown) (hl : Listed s members side l)
    (hout : ¬members c) : Listed s (fun d => members d ∨ d = c) side
        (if (s.contract c).gotPutCall ∧ (s.contract c).putCall = side then
          s.insertContract c l
        else l) ↔
      ((s.contract c).putCall = side →
        ∀ d, members d → ¬(s.contract d).SameListing (s.contract c)) := by
  by_cases hc : (s.contract c).gotPutCall ∧ (s.contract c).putCall = side
  · rw [if_pos hc, listed_insert_iff hl hout hc.1 hc.2]
    constructor
    · rintro hnew - d hd ⟨hgot, -, heq, -, hkey⟩
      exact hnew d ((hl.2 d).mpr ⟨hd, hgot, heq.trans hc.2⟩) hkey
    · intro hnew d hd hkey
      obtain ⟨hmem, hgot, hdside⟩ := (hl.2 d).mp hd
      exact hnew hc.2 d hmem ⟨hgot, hc.1, hdside.trans hc.2.symm, hdside ▸ hside, hkey⟩
  · rw [if_neg hc]
    refine ⟨fun _ heq d _ hsame => hc ⟨hsame.2.1, heq⟩, fun _ => hl.skip hc⟩

/-- One more contract: the chain lists it with the others just if it is no twin of one. -/
theorem lists_entered_iff (hs : Lists s members) (hout : ¬members c) (he : Entered s c s')
    (hknown : (s.contract c).placed → (s.contract c).putCall ≠ .unknown) :
    Lists s' (fun d => members d ∨ d = c) ↔ ∀ d, members d →
    ¬(s.contract d).SameListing (s.contract c) ∧ ¬(s.contract d).SameSlot (s.contract c) := by
  have hcontract := he.contract_eq
  have hcalls := listed_side_iff (show PutCall.call ≠ .unknown by decide) hs.callOptions hout
  have hputs := listed_side_iff (show PutCall.put ≠ .unknown by decide) hs.putOptions hout
  rw [← he.callOptions, ← Listed.congr he.contracts] at hcalls
  rw [← he.putOptions, ← Listed.congr he.contracts] at hputs
  constructor
  · intro hs' d hd
    refine ⟨fun hsame => ?_, fun hsame => ?_⟩
    · have hunknown : (s.contract c).putCall ≠ .unknown := hsame.2.2.1 ▸ hsame.2.2.2.1
      cases hside : (s.contract c).putCall with
      | unknown => exact hunknown hside
      | call => exact hcalls.mp hs'.callOptions hside d hd hsame
      | put => exact hputs.mp hs'.putOptions hside d hd hsame
    -- both would be found in the one slot
    obtain ⟨hdplaced, hcplaced, hdate, hstrike, hside, hslot⟩ := hsame
    have hfoundd := hs'.placed d (.inl hd)
    have hfoundc := hs'.placed c (.inr rfl)
    rw [hcontract] at hfoundd hfoundc
    have hunknown := hknown hcplaced
    have hd' := hfoundd hdplaced (hside ▸ hunknown)
    rw [hdate, hstrike, hside, hslot, hfoundc hcplaced hunknown] at hd'
    cases hd'
    exact hout hd
  intro hnew
  refine ⟨hcalls.mpr fun _ d hd => (hnew d hd).1, hputs.mpr fun _ d hd => (hnew d hd).1,
    ?_, ?_, ?_, ?_⟩
  · rintro d hd hplaced hunknown
    rw [hcontract] at hplaced hunknown ⊢
    rw [he.reached]
    rcases hd with hd | rfl
    · rw [if_neg, hs.placed d hd hplaced hunknown]
      rintro ⟨hcplaced, hdate, hstrike, hside, hslot⟩
      exact (hnew d hd).2 ⟨hplaced, hcplaced, hdate, hstrike, hside, hslot⟩
    · rw [if_pos ⟨hplaced, rfl, rfl, rfl, rfl⟩]
  · intro k x side slot d hd
    rw [he.reached] at hd
    rw [hcontract]
    split at hd
    · next hown => cases hd; exact ⟨.inr rfl, hown⟩
    · obtain ⟨hmem, hown⟩ := hs.own k x side slot d hd
      exact ⟨.inl hmem, hown⟩
  · rw [he.strikePrices]
    split
    · exact keyed_strikes.ordered_insertBy hs.strikePrices
    · exact hs.strikePrices
  intro x
  rw [he.strikePrices]
  simp only [hcontract]
  have hold := hs.mem_strikePrices x
  cases hgot : (s.contract c).gotStrikePrice with
  | false =>
    rw [if_neg (by simp), hold]
    constructor
    · rintro ⟨d, hd, hrest⟩; exact ⟨d, .inl hd, hrest⟩
    · rintro ⟨d, hd | rfl, hrest⟩
      · exact ⟨d, hd, hrest⟩
      · rw [hgot] at hrest; exact absurd hrest.1 (by simp)
  | true =>
    rw [if_pos rfl, keyed_strikes.mem_insertBy_of_injective Function.injective_id, hold]
    constructor
    · rintro (rfl | ⟨d, hd, hrest⟩)
      · exact ⟨c, .inr rfl, hgot, rfl⟩
      · exact ⟨d, .inl hd, hrest⟩
    · rintro ⟨d, hd | rfl, hrest⟩
      · exact .inr ⟨d, hd, hrest⟩
      · exact .inl hrest.2.symm

/-! ## A contract that is stored -/

/-- Only the contract at `c` differs, and it is not in the chain before. -/
structure Stored (s : ChainState) (c : Nat) (v : OptionContract) (s₀ : ChainState) : Prop where
  expirationStrikes : s₀.expirationStrikes = s.expirationStrikes
  strikeSets : s₀.strikeSets = s.strikeSets
  chain : s₀.chain = s.chain
  at_self : s₀.contract c = v
  at_other : ∀ d, d ≠ c → s₀.contract d = s.contract d
  lt_iff : ∀ d, d < s₀.contracts.length ↔ d < s.contracts.length ∨ d = c
  out : ¬s.inChain c

theorem stored_append (s : ChainState) (v : OptionContract) :
    Stored s s.contracts.length v (s.allocate v) := by
  refine ⟨rfl, rfl, rfl, ?_, fun d hd => ?_, fun d => ?_, fun h => absurd h.1 (by omega)⟩
  · simp [contract, allocate]
  · rcases Nat.lt_or_gt_of_ne hd with h | h
    · simp [contract, allocate, getElem?_append_left h]
    · have hnone : s.contracts[d]? = none := List.getElem?_eq_none_iff.mpr (by omega)
      have hnone' : (s.contracts ++ [v])[d]? = none := by
        rw [List.getElem?_eq_none_iff, length_append, length_singleton]; omega
      simp [contract, allocate, hnone, hnone']
  · rw [allocate, length_append, length_singleton]; omega

theorem stored_set (hc : c < s.contracts.length) (hrecap : (s.contract c).recapRequired)
    (v : OptionContract) : Stored s c v (s.store c v) := by
  refine ⟨rfl, rfl, rfl, ?_, fun d hd => ?_, fun d => ?_, fun h => ?_⟩
  · simp [contract, store, hc]
  · simp [contract, store, getElem?_set_ne (Ne.symm hd)]
  · rw [store, length_set]
    constructor
    · exact .inl
    · rintro (h | rfl)
      · exact h
      · exact hc
  · rw [h.2] at hrecap; cases hrecap

section

variable (h : Stored s c v s₀)

include h

theorem Stored.reached (k : Nat) (x : Price) (side : PutCall) (slot : Slot) :
    s₀.reached k x side slot = s.reached k x side slot := by
  simp [ChainState.reached, strikePtr, h.expirationStrikes, h.strikeSets, h.chain]

theorem Stored.linked (hs : Linked s) : Linked s₀ := by
  have hptr : ∀ k x, s₀.strikePtr k x = s.strikePtr k x := by
    intro k x; simp [strikePtr, h.expirationStrikes, h.chain]
  refine ⟨?_, ?_, ?_, ?_⟩
  · rw [h.chain, h.expirationStrikes]; exact hs.date
  · rw [h.chain]; exact hs.date_inj
  · intro k x q hq
    rw [hptr] at hq
    rw [h.strikeSets]
    exact hs.strike hq
  · intro k x k' x' q hq hq'
    rw [hptr] at hq hq'
    exact hs.strike_inj hq hq'

theorem Stored.lists (hs : Lists s s.inChain) : Lists s₀ s.inChain := by
  have hmem : ∀ d, s.inChain d → s₀.contract d = s.contract d := by
    intro d hd
    refine h.at_other d fun hdc => ?_
    exact h.out (hdc ▸ hd)
  have hlisted : ∀ {side l}, Listed s s.inChain side l → Listed s₀ s.inChain side l := by
    intro side l hl
    constructor
    · refine hl.1.imp_of_mem fun {a b} ha hb hab => ?_
      show (s₀.contract a).key < (s₀.contract b).key
      rwa [hmem a ((hl.2 a).mp ha).1, hmem b ((hl.2 b).mp hb).1]
    · intro d
      rw [hl.2]
      constructor
      · rintro ⟨hd, hrest⟩; exact ⟨hd, by rwa [hmem d hd]⟩
      · rintro ⟨hd, hrest⟩; exact ⟨hd, by rwa [hmem d hd] at hrest⟩
  refine ⟨?_, ?_, ?_, ?_, ?_, ?_⟩
  · rw [h.chain]; exact hlisted hs.callOptions
  · rw [h.chain]; exact hlisted hs.putOptions
  · intro d hd
    rw [hmem d hd, h.reached]
    exact hs.placed d hd
  · intro k x side slot d hd
    rw [h.reached] at hd
    have hown := hs.own k x side slot d hd
    rwa [hmem d hown.1]
  · rw [h.chain]; exact hs.strikePrices
  · intro x
    rw [h.chain, hs.mem_strikePrices]
    constructor
    · rintro ⟨d, hd, hrest⟩; exact ⟨d, hd, by rwa [hmem d hd]⟩
    · rintro ⟨d, hd, hrest⟩; exact ⟨d, hd, by rwa [hmem d hd] at hrest⟩

omit h in
theorem Lists.congr {members' : Nat → Prop} (hs : Lists s members)
    (h : ∀ d, members d ↔ members' d) : Lists s members' := by
  have heq : members = members' := funext fun d => propext (h d)
  exact heq ▸ hs

theorem Stored.inChain (d : Nat) :
    s₀.inChain d ↔ s.inChain d ∨ d = c ∧ v.recapRequired = false := by
  by_cases hdc : d = c
  · subst hdc
    rw [ChainState.inChain, h.lt_iff, h.at_self]
    constructor
    · rintro ⟨-, hrecap⟩; exact .inr ⟨rfl, hrecap⟩
    · rintro (hin | ⟨-, hrecap⟩)
      · exact absurd hin h.out
      · exact ⟨.inr rfl, hrecap⟩
  · rw [ChainState.inChain, h.lt_iff, h.at_other d hdc, ChainState.inChain]; simp [hdc]

theorem Stored.process_iff (hlinked : Linked s) (hs : Lists s s.inChain)
    (hrecap : v.recapRequired = false) :
    (∃ s', s₀.processNewContractDetails c = some s' ∧ Lists s' s'.inChain) ↔
      ¬(v.placed ∧ v.putCall = .unknown) ∧
        ∀ d, s.inChain d → ¬(s.contract d).SameListing v ∧ ¬(s.contract d).SameSlot v := by
  have hentered := processNewContractDetails_entered (h.linked hlinked)
    (show (s₀.contract c).recapRequired = false by rw [h.at_self, hrecap])
  rw [h.at_self] at hentered
  split at hentered
  · next hbad =>
    rw [hentered]
    constructor
    · rintro ⟨s', hs', -⟩; cases hs'
    · rintro ⟨hgood, -⟩; exact absurd hbad hgood
  next hgood =>
  obtain ⟨s', heq, he⟩ := hentered
  have hknown : (s₀.contract c).placed → (s₀.contract c).putCall ≠ .unknown := by
    rw [h.at_self]; exact fun hplaced hunknown => hgood ⟨hplaced, hunknown⟩
  have hiff := lists_entered_iff (h.lists hs) h.out he hknown
  rw [h.at_self] at hiff
  have hin : ∀ d, s.inChain d ∨ d = c ↔ s'.inChain d := by
    intro d
    rw [he.inChain_iff, h.inChain d]
    simp [hrecap]
  have hmem : ∀ d, s.inChain d → s₀.contract d = s.contract d := by
    intro d hd
    refine h.at_other d fun hdc => ?_
    exact h.out (hdc ▸ hd)
  constructor
  · rintro ⟨s'', heq', hlists⟩
    rw [heq] at heq'
    cases heq'
    refine ⟨hgood, fun d hd => ?_⟩
    have := hiff.mp (hlists.congr fun d => (hin d).symm) d hd
    rwa [hmem d hd] at this
  · rintro ⟨-, hnew⟩
    refine ⟨s', heq, (hiff.mpr fun d hd => ?_).congr hin⟩
    rw [hmem d hd]
    exact hnew d hd

end

end ChainState

end Mamda

import OpenMama.Mamda.OptionChainContents

/-!
# An option chain over a run of messages

What the chain, its iterators and its callbacks promise after every message
(`Contents`), and the exact condition on each message for it (`Clean`): a
contract enters the chain only with the first message of its item, with a known
side if the expirations are to hold it, and with no twin in the chain.
-/

namespace Mamda

open Mama Lib ChainState List

namespace ChainListener

def hasMandatory (l : ChainListener) (c : OptionContract) : Prop :=
  (l.expireDateManditory → c.gotExpireDate) ∧ (l.strikePriceManditory → c.gotStrikePrice) ∧
    (l.putCallManditory → c.gotPutCall)

/-- The contracts with all mandatory fields are in the chain, and no others; the chain holds
each where its values say; its creation was reported exactly once. -/
structure Contents (l : ChainListener) : Prop where
  complete : ∀ c, c < l.state.contracts.length →
    (l.state.inChain c ↔ l.hasMandatory (l.state.contract c))
  lists : l.state.Lists l.state.inChain
  created : ∀ c, l.state.inChain c → l.created.count c = 1

/-- The contract that a message completes, with the fields it then has. -/
def entering (l : ChainListener) (d : OptionDelivery) : Option OptionContract :=
  match d.msgType, d.msg.contractSymbol, l.itemClosure d.item with
  | .other, some fullSymbol, none =>
    let contract := l.newContract d.msg fullSymbol
    if contract.recapRequired then none else some contract
  | .other, some _, some contract =>
    let found := l.state.contract contract
    if found.recapRequired && l.gotMandWith found d.msg then
      some ((fillContract found d.msg).setRecapRequired false)
    else none
  | _, _, _ => none

/-- A contract that the message completes is new, has a known side if it has a date and a strike,
and has no twin in the chain. -/
def Clean (l : ChainListener) (d : OptionDelivery) : Prop :=
  ∀ c, l.entering d = some c →
    l.itemClosure d.item = none ∧ ¬(c.placed ∧ c.putCall = .unknown) ∧
      ∀ other, l.state.inChain other →
        ¬(l.state.contract other).SameListing c ∧ ¬(l.state.contract other).SameSlot c

/-- What every run keeps: addresses are good, and a contract that waits was reported once. -/
structure Sound (l : ChainListener) : Prop where
  linked : l.state.Linked
  closure : ∀ {item c}, l.itemClosure item = some c → c < l.state.contracts.length
  created : ∀ c ∈ l.created, c < l.state.contracts.length
  pending : ∀ c, c < l.state.contracts.length → (l.state.contract c).recapRequired →
    l.created.count c = 1

/-! ## Fields -/

section

variable (l : ChainListener)

include l

theorem gotAllMandFields_iff (date strike side : Bool) : l.gotAllMandFields date strike side ↔
    (l.expireDateManditory → date) ∧ (l.strikePriceManditory → strike) ∧
    (l.putCallManditory → side) := by
  unfold gotAllMandFields
  cases l.expireDateManditory <;> cases l.strikePriceManditory <;> cases l.putCallManditory <;>
    cases date <;> cases strike <;> cases side <;> simp

theorem newContract_flags (msg : OptionMsg) (fullSymbol : List Char) :
    (l.newContract msg fullSymbol).gotExpireDate = msg.expirationDate.isSome ∧
      (l.newContract msg fullSymbol).gotStrikePrice = msg.strikePrice.isSome ∧
      (l.newContract msg fullSymbol).gotPutCall = msg.getPutCall.isSome ∧
      (l.newContract msg fullSymbol).recapRequired =
        !l.gotAllMandFields msg.expirationDate.isSome msg.strikePrice.isSome
          msg.getPutCall.isSome := by
  unfold newContract
  cases msg.expirationDate <;> cases msg.strikePrice <;> cases msg.getPutCall <;>
    exact ⟨rfl, rfl, rfl, rfl⟩

theorem newContract_mandatory (msg : OptionMsg) (fullSymbol : List Char) :
    (l.newContract msg fullSymbol).recapRequired = false ↔
      l.hasMandatory (l.newContract msg fullSymbol) := by
  obtain ⟨hdate, hstrike, hside, hrecap⟩ := l.newContract_flags msg fullSymbol
  rw [hasMandatory, hdate, hstrike, hside, hrecap, ← gotAllMandFields_iff]
  simp

omit l in
theorem fillContract_flags (c : OptionContract) (msg : OptionMsg) :
    (fillContract c msg).gotExpireDate = (c.gotExpireDate || msg.expirationDate.isSome) ∧
      (fillContract c msg).gotStrikePrice = (c.gotStrikePrice || msg.strikePrice.isSome) ∧
      (fillContract c msg).gotPutCall = (c.gotPutCall || msg.getPutCall.isSome) ∧
      (fillContract c msg).recapRequired = c.recapRequired := by
  unfold fillContract
  cases hdate : c.gotExpireDate <;> cases hstrike : c.gotStrikePrice <;>
    cases hside : c.gotPutCall <;>
    cases msg.expirationDate <;> cases msg.strikePrice <;> cases msg.getPutCall <;>
    simp [OptionContract.setExpireDate, OptionContract.setStrikePrice, OptionContract.setPutCall,
      hdate, hstrike, hside]

theorem fillContract_mandatory (c : OptionContract) (msg : OptionMsg) :
    l.gotMandWith c msg ↔ l.hasMandatory (fillContract c msg) := by
  obtain ⟨hdate, hstrike, hside, -⟩ := fillContract_flags c msg
  rw [hasMandatory, hdate, hstrike, hside, ← gotAllMandFields_iff, gotMandWith]

end

/-! ## One message -/

variable {l l' : ChainListener} {d : OptionDelivery}

theorem onMsg_cases (d : OptionDelivery) (hl : Sound l) :
    (l.onMsg d = some l ∧ l.entering d = none) ∨
    (∃ fullSymbol, l.itemClosure d.item = none ∧
      l.onMsg d = l.createContract d.item d.msg fullSymbol ∧
      l.entering d = if (l.newContract d.msg fullSymbol).recapRequired then none
        else some (l.newContract d.msg fullSymbol)) ∨
    (∃ c, l.itemClosure d.item = some c ∧ c < l.state.contracts.length ∧
      (l.state.contract c).recapRequired ∧
      l.onMsg d = l.updateContract c d.msg ∧
      l.entering d = if l.gotMandWith (l.state.contract c) d.msg then
        some ((fillContract (l.state.contract c) d.msg).setRecapRequired false)
        else none) := by
  unfold onMsg entering
  cases d.msgType with
  | endOfInitials => exact .inl ⟨rfl, rfl⟩
  | other =>
    unfold findContract
    cases d.msg.contractSymbol with
    | none => exact .inl ⟨rfl, rfl⟩
    | some fullSymbol =>
      cases hitem : l.itemClosure d.item with
      | none => exact .inr (.inl ⟨fullSymbol, rfl, rfl, rfl⟩)
      | some c =>
        cases hrecap : (l.state.contract c).recapRequired with
        | false =>
          refine .inl ⟨?_, ?_⟩
          · simp [updateContract, hrecap]
          · simp [hrecap]
        | true => refine .inr (.inr ⟨c, rfl, hl.closure hitem, hrecap, rfl, ?_⟩); simp [hrecap]

theorem count_append_new {created : List Nat} {c d : Nat} (hne : d ≠ c) :
    (created ++ [c]).count d = created.count d := by
  simp [hne.symm]

theorem count_append_self (created : List Nat) (c : Nat) :
    (created ++ [c]).count c = created.count c + 1 := by
  rw [count_append, count_singleton_self]

section

variable (hl : Sound l)

include hl

theorem Sound.count_fresh : l.created.count l.state.contracts.length = 0 := by
  rw [count_eq_zero]
  intro hmem
  exact absurd (hl.created _ hmem) (by omega)

theorem Sound.create {item : Nat} {msg : OptionMsg} {fullSymbol : List Char}
    (h : l.createContract item msg fullSymbol = some l') : Sound l' := by
  have hstored := stored_append l.state (l.newContract msg fullSymbol)
  have hlinked := hstored.linked hl.linked
  obtain ⟨s', hprocess, heq⟩ := Option.bind_eq_some_iff.mp h
  have hs' : Linked s' ∧
      s'.contracts = (l.state.allocate (l.newContract msg fullSymbol)).contracts := by
    cases hrecap : (l.newContract msg fullSymbol).recapRequired with
    | false =>
      have he := entered_of_process hlinked (by rw [hstored.at_self, hrecap]) hprocess
      exact ⟨he.linked, he.contracts⟩
    | true =>
      rw [processNewContractDetails_waiting (by rw [hstored.at_self, hrecap])] at hprocess
      cases hprocess
      exact ⟨hlinked, rfl⟩
  obtain ⟨hs'linked, hs'contracts⟩ := hs'
  have hlength : s'.contracts.length = l.state.contracts.length + 1 := by
    rw [hs'contracts, allocate, length_append, length_singleton]
  cases heq
  refine ⟨hs'linked, fun {i c} hc => ?_, fun c hc => ?_, fun c hc hrecap => ?_⟩
  · rw [hlength]
    simp only at hc
    split at hc
    · cases hc; omega
    · have := hl.closure hc
      omega
  · rw [hlength]
    rcases List.mem_append.mp hc with hc | hc
    · have := hl.created c hc
      omega
    · rw [List.mem_singleton.mp hc]; omega
  rw [hlength] at hc
  by_cases hnew : c = l.state.contracts.length
  · rw [hnew, count_append_self, hl.count_fresh]
  · rw [count_append_new hnew]
    refine hl.pending c (by omega) ?_
    rw [← hstored.at_other c hnew]
    rwa [contract, hs'contracts] at hrecap

theorem Sound.update {c : Nat} (hc : c < l.state.contracts.length)
    (hwaits : (l.state.contract c).recapRequired) {msg : OptionMsg}
    (h : l.updateContract c msg = some l') : Sound l' := by
  simp only [updateContract, hwaits, if_true] at h
  split at h
  · have hstored := stored_set hc hwaits
      ((fillContract (l.state.contract c) msg).setRecapRequired false)
    have hlinked := hstored.linked hl.linked
    obtain ⟨s', hprocess, heq⟩ := Option.bind_eq_some_iff.mp h
    have he := entered_of_process hlinked (by rw [hstored.at_self]; rfl) hprocess
    have hlength : s'.contracts.length = l.state.contracts.length := by
      rw [he.contracts, store, length_set]
    cases heq
    refine ⟨he.linked, fun {i e} hi => ?_, fun e he' => ?_, fun e hlt hrecap => ?_⟩
    · rw [hlength]; exact hl.closure hi
    · rw [hlength]
      rcases List.mem_append.mp he' with he' | he'
      · exact hl.created e he'
      · rwa [List.mem_singleton.mp he']
    rw [he.contract_eq] at hrecap
    by_cases hec : e = c
    · rw [hec, hstored.at_self] at hrecap; cases hrecap
    · rw [count_append_new hec]
      rw [hstored.at_other e hec] at hrecap
      rw [hlength] at hlt
      exact hl.pending e hlt hrecap
  have hstored := stored_set hc hwaits (fillContract (l.state.contract c) msg)
  cases h
  refine ⟨hstored.linked hl.linked, fun {i e} hi => ?_, fun e he => ?_, fun e hlt hrecap => ?_⟩
  · rw [store, length_set]; exact hl.closure hi
  · rw [store, length_set]; exact hl.created e he
  · rw [store, length_set] at hlt
    by_cases hec : e = c
    · rw [hec]; exact hl.pending c hc hwaits
    · rw [hstored.at_other e hec] at hrecap; exact hl.pending e hlt hrecap

theorem Sound.onMsg (h : l.onMsg d = some l') : Sound l' := by
  rcases onMsg_cases d hl with ⟨heq, -⟩ | ⟨fullSymbol, -, heq, -⟩ | ⟨c, -, hc, hwaits, heq, -⟩
  · rw [heq] at h
    cases h
    exact hl
  · rw [heq] at h; exact hl.create h
  · rw [heq] at h; exact hl.update hc hwaits h

omit hl in
theorem Contents.waiting (hc : Contents l) {c : Nat} {v : OptionContract} {s₀ : ChainState}
    (hstored : Stored l.state c v s₀) (hrecap : v.recapRequired)
    (hmissing : ¬l.hasMandatory v) {itemClosure : Nat → Option Nat} {created : List Nat}
    (hcreated : ∀ e, e ≠ c → created.count e = l.created.count e) :
    Contents { l with state := s₀, itemClosure := itemClosure, created := created } := by
  have hin : ∀ e, l.state.inChain e ↔ s₀.inChain e := by
    intro e
    rw [hstored.inChain, hrecap]
    simp
  have hne : ∀ e, s₀.inChain e → e ≠ c := by
    rintro e he rfl; exact hstored.out ((hin e).mpr he)
  refine ⟨fun e he => ?_, (hstored.lists hc.lists).congr hin, fun e he => ?_⟩
  · by_cases hec : e = c
    · subst hec
      refine ⟨fun hine => absurd rfl (hne e hine), fun hmand => absurd ?_ hmissing⟩
      rwa [← hstored.at_self]
    · have hlt : e < l.state.contracts.length :=
        ((hstored.lt_iff e).mp he).resolve_right hec
      rw [← hin, hstored.at_other e hec]
      exact hc.complete e hlt
  · show created.count e = 1
    rw [hcreated e (hne e he)]
    exact hc.created e ((hin e).mpr he)

theorem create_iff (hc : Contents l) (item : Nat) (msg : OptionMsg)
    (fullSymbol : List Char) :
    (∃ l', l.createContract item msg fullSymbol = some l' ∧ Contents l') ↔
      ((l.newContract msg fullSymbol).recapRequired = false →
        ¬((l.newContract msg fullSymbol).placed ∧
          (l.newContract msg fullSymbol).putCall = .unknown) ∧
        ∀ other, l.state.inChain other →
          ¬(l.state.contract other).SameListing (l.newContract msg fullSymbol) ∧
          ¬(l.state.contract other).SameSlot (l.newContract msg fullSymbol)) := by
  have hstored := stored_append l.state (l.newContract msg fullSymbol)
  have hmand := l.newContract_mandatory msg fullSymbol
  cases hrecap : (l.newContract msg fullSymbol).recapRequired with
  | true =>
    have hprocess := processNewContractDetails_waiting
      (show ((l.state.allocate (l.newContract msg fullSymbol)).contract
        l.state.contracts.length).recapRequired by rw [hstored.at_self, hrecap])
    refine ⟨fun _ h => (by cases h), fun _ => ⟨_, by rw [createContract, hprocess]; rfl, ?_⟩⟩
    refine hc.waiting hstored hrecap (fun h => ?_) fun e he => count_append_new he
    rw [hmand.mpr h] at hrecap
    cases hrecap
  | false =>
    rw [← hstored.process_iff hl.linked hc.lists hrecap]
    simp only [true_implies]
    constructor
    · rintro ⟨l', h, hc'⟩
      obtain ⟨s', hprocess, heq⟩ := Option.bind_eq_some_iff.mp h
      cases heq
      exact ⟨s', hprocess, hc'.lists⟩
    rintro ⟨s', hprocess, hlists⟩
    refine ⟨_, by rw [createContract, hprocess]; rfl, ?_⟩
    have he := entered_of_process (hstored.linked hl.linked)
      (by rw [hstored.at_self, hrecap]) hprocess
    have hin : ∀ e, s'.inChain e ↔ l.state.inChain e ∨ e = l.state.contracts.length := by
      intro e
      rw [he.inChain_iff, hstored.inChain, hrecap]
      simp
    refine ⟨fun e hlt => ?_, hlists, fun e hine => ?_⟩
    · show s'.inChain e ↔ l.hasMandatory (s'.contract e)
      rw [he.contract_eq, hin]
      by_cases hnew : e = l.state.contracts.length
      · rw [hnew, hstored.at_self, ← hmand, hrecap]; simp
      · have hlt' : e < l.state.contracts.length := by
          have hlen := (hstored.lt_iff e).mp (by rw [← he.contracts]; exact hlt)
          exact hlen.resolve_right hnew
        rw [hstored.at_other e hnew, ← hc.complete e hlt']
        simp [hnew]
    · show (l.created ++ [l.state.contracts.length]).count e = 1
      by_cases hnew : e = l.state.contracts.length
      · rw [hnew, count_append_self, hl.count_fresh]
      · rw [count_append_new hnew]; exact hc.created e (((hin e).mp hine).resolve_right hnew)

theorem update_iff (hc : Contents l) {c : Nat} (hlt : c < l.state.contracts.length)
    (hwaits : (l.state.contract c).recapRequired) (msg : OptionMsg) :
    (∃ l', l.updateContract c msg = some l' ∧ Contents l') ↔
      l.gotMandWith (l.state.contract c) msg = false := by
  have hfill := l.fillContract_mandatory (l.state.contract c) msg
  cases hgot : l.gotMandWith (l.state.contract c) msg with
  | false =>
    refine ⟨fun _ => rfl, fun _ => ⟨_, by simp [updateContract, hwaits, hgot]; rfl, ?_⟩⟩
    have hstored := stored_set hlt hwaits (fillContract (l.state.contract c) msg)
    refine hc.waiting hstored ?_ (fun h => ?_) fun e _ => rfl
    · rw [(fillContract_flags _ _).2.2.2, hwaits]
    · rw [hfill.mpr h] at hgot; cases hgot
  | true =>
    have hstored := stored_set hlt hwaits
      ((fillContract (l.state.contract c) msg).setRecapRequired false)
    refine ⟨?_, fun h => by cases h⟩
    rintro ⟨l', h, hc'⟩
    simp only [updateContract, hwaits, hgot] at h
    obtain ⟨s', hprocess, heq⟩ := Option.bind_eq_some_iff.mp h
    have he := entered_of_process (hstored.linked hl.linked) (by rw [hstored.at_self]; rfl)
      hprocess
    have hin : s'.inChain c := by
      rw [he.inChain_iff, hstored.inChain]; exact .inr ⟨rfl, rfl⟩
    cases heq
    have htwice := hc'.created c hin
    rw [count_append_self, hl.pending c hlt hwaits] at htwice
    omega

theorem onMsg_iff (hc : Contents l) (d : OptionDelivery) :
    (∃ l', l.onMsg d = some l' ∧ Contents l') ↔ l.Clean d := by
  unfold Clean
  rcases onMsg_cases d hl with ⟨heq, hentering⟩ | ⟨fullSymbol, hitem, heq, hentering⟩ |
    ⟨c, hitem, hlt, hwaits, heq, hentering⟩
  · rw [hentering]; exact ⟨fun _ _ h => (by cases h), fun _ => ⟨l, heq, hc⟩⟩
  · rw [heq, hentering, create_iff hl hc, hitem]
    cases hrecap : (l.newContract d.msg fullSymbol).recapRequired with
    | true => simp
    | false =>
      simp only [Bool.false_eq_true, if_false, true_implies, Option.some.injEq]
      constructor
      · rintro hnew c rfl; exact ⟨trivial, hnew⟩
      · intro hnew; exact (hnew _ rfl).2
  rw [heq, hentering, update_iff hl hc hlt hwaits, hitem]
  cases l.gotMandWith (l.state.contract c) d.msg with
  | false => simp
  | true =>
    constructor
    · rintro h; cases h
    · intro hnew; exact absurd (hnew _ rfl).1 (by simp)

end

/-! ## Runs -/

/-- Every message of the run can be processed, and the contents are right after each. -/
def KeepsContents (l : ChainListener) (ds : List OptionDelivery) : Prop :=
  ∀ pre suf, ds = pre ++ suf → ∃ l', pre.foldlM onMsg l = some l' ∧ Contents l'

theorem sound_new (expireDate strikePrice putCall : Bool) :
    Sound (new expireDate strikePrice putCall) := by
  refine ⟨⟨?_, ?_, ?_, ?_⟩, ?_, ?_, ?_⟩
  · intro k d p h; cases h
  · intro k d p k' d' h; cases h
  · intro k x q h; cases h
  · intro k x k' x' q h; cases h
  · intro item c h; cases h
  · intro c h; cases h
  · intro c h; cases h

theorem contents_new (expireDate strikePrice putCall : Bool) :
    Contents (new expireDate strikePrice putCall) := by
  have hout : ∀ c, ¬ChainState.new.inChain c := fun c h => absurd h.1 (by simp [ChainState.new])
  have hlisted : ∀ side, Listed .new ChainState.new.inChain side [] := by
    refine fun side => ⟨List.Pairwise.nil, fun c => ?_⟩
    simp [hout c]
  refine ⟨fun c h => absurd h (by simp [new, ChainState.new]), ?_, fun c h => absurd h (hout c)⟩
  refine ⟨hlisted _, hlisted _, fun c h => absurd h (hout c), ?_, List.Pairwise.nil, fun x => ?_⟩
  · intro k x side slot c h; cases h
  · constructor
    · intro h; cases h
    · rintro ⟨c, h, -⟩; exact absurd h (hout c)

/-- For every setting of the mandatory fields and every sequence of messages: the chain keeps its
contents just if every message is clean. -/
theorem keepsContents_iff (expireDate strikePrice putCall : Bool) (ds : List OptionDelivery) :
    KeepsContents (new expireDate strikePrice putCall) ds ↔ ∀ pre d suf, ds = pre ++ d :: suf → ∀ l,
    pre.foldlM onMsg (new expireDate strikePrice putCall) = some l → l.Clean d := by
  have hlaw : ∀ l : ChainListener, Sound l ∧ Contents l → Contents l := fun _ h => h.2
  refine total_law_iff hlaw (fun l d h => onMsg_iff h.1 h.2 d) (fun l d l' h hclean heq => ?_)
    ⟨sound_new expireDate strikePrice putCall, contents_new expireDate strikePrice putCall⟩ ds
  obtain ⟨l'', heq', hc'⟩ := (onMsg_iff h.1 h.2 d).mpr hclean
  rw [heq] at heq'
  cases heq'
  exact ⟨h.1.onMsg heq, hc'⟩

/-- A complete contract whose put/call is the unknown value: its contract set is `NULL`. -/
theorem not_keepsContents : ¬KeepsContents (new true true true)
    [⟨0, .other, ⟨some "IBM".toList, some (.ofTime 1700000000 0), some 100,
      some (.string "Z".toList)⟩⟩] := by
  intro h
  obtain ⟨l, hl, -⟩ := h _ [] (append_nil _).symm
  cases hl

end ChainListener

end Mamda

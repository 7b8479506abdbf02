import Mathlib.Data.Prod.Lex
import OpenMama.Lib.Election
import OpenMama.Mama.FaultTolerance

/-!
# Agreement on one active member

`mamaBetterCredentials` compares weight, incarnation, address and process in this
order, the address without its sign (`wins_iff`), so it orders all credentials.  A
member that yields keeps its credentials, so once every active member has heard all
the others just the one with the best credentials is active (`agreement`): the
system of members refines the election of `Lib.left_iff`.
-/

namespace Mama

open List Function

namespace Ft

/-! ## The order of the credentials -/

namespace Credentials

/-- The weight, the incarnation, the address without sign and the process, the first first. -/
def key (c : Credentials) : ℕ ×ₗ ℕ ×ₗ ℕ ×ₗ ℤ :=
  toLex (c.weight.toNat, toLex (c.incarnation.toNat, toLex (c.ip.toUInt32.toNat, c.pid.toInt)))

theorem toUInt32_inj {a b : Int32} : a.toUInt32 = b.toUInt32 ↔ a = b := by
  constructor
  · intro h
    cases a
    cases b
    exact congrArg Int32.ofUInt32 h
  · exact congrArg Int32.toUInt32

theorem key_injective : Injective key := by
  intro a b h
  obtain ⟨hweight, h⟩ := Prod.ext_iff.mp (toLex.injective h)
  obtain ⟨hincarnation, h⟩ := Prod.ext_iff.mp (toLex.injective h)
  obtain ⟨hip, hpid⟩ := Prod.ext_iff.mp (toLex.injective h)
  cases a
  cases b
  congr 1
  · exact UInt32.toNat_inj.mp hweight
  · exact UInt32.toNat_inj.mp hincarnation
  · exact toUInt32_inj.mp (UInt32.toNat_inj.mp hip)
  · exact Int32.toInt_inj.mp hpid

/-- **Who wins has the greater key.** -/
theorem wins_iff {a b : Credentials} : Wins a b ↔ a.key < b.key := by
  unfold Wins key mamaBetterCredentials
  simp only [Prod.Lex.toLex_lt_toLex, Int32.lt_iff_toInt_lt, ← UInt32.toNat_inj]
  split
  · next h => exact iff_of_true rfl (.inl h)
  next hweight =>
  split
  · next h => exact iff_of_true rfl (.inr ⟨h.1.symm, .inl h.2⟩)
  next hincarnation =>
  split
  · next h => exact iff_of_true rfl (.inr ⟨h.1.symm, .inr ⟨h.2.1.symm, .inl h.2.2⟩⟩)
  next hip =>
  split
  · next h =>
    exact iff_of_true rfl
      (.inr ⟨h.1.symm, .inr ⟨h.2.1.symm, .inr ⟨h.2.2.1.symm, h.2.2.2⟩⟩⟩)
  next hpid =>
  refine iff_of_false (by decide) ?_
  rintro (h | ⟨h₁, h | ⟨h₂, h | ⟨h₃, h⟩⟩⟩)
  · exact hweight h
  · exact hincarnation ⟨h₁.symm, h⟩
  · exact hip ⟨h₁.symm, h₂.symm, h⟩
  · exact hpid ⟨h₁.symm, h₂.symm, h₃.symm, h⟩

instance wins_total : IsStrictTotalOrder Credentials Wins where
  irrefl a := by
    rw [wins_iff]; exact lt_irrefl _
  trans a b c := by
    rw [wins_iff, wins_iff, wins_iff]; exact lt_trans
  trichotomous a b := by
    rw [wins_iff, wins_iff]
    intro hab hba
    exact key_injective (le_antisymm (not_lt.mp hba) (not_lt.mp hab))

end Credentials

/-! ## Deliveries -/

/-- A member processes a heartbeat: one with the present credentials of a member, or any other. -/
inductive Delivery (ι : Type)
  | sent (receiver sender : ι)
  | foreign (receiver : ι) (h : Heartbeat)

variable {ι : Type} [DecidableEq ι]

def deliver (x : ι → Member) : Delivery ι → ι → Member
  | .sent i j => Function.update x i ((x i).mamaCheckHeartbeat (x j).heartbeat).member
  | .foreign i h => Function.update x i ((x i).mamaCheckHeartbeat h).member

/-- What is heard of a delivery, where a member does not hear itself. -/
def heard (key : ι → ℕ ×ₗ ℕ ×ₗ ℕ ×ₗ ℤ) : Delivery ι → Option (ι × (ℕ ×ₗ ℕ ×ₗ ℕ ×ₗ ℤ))
  | .sent i j => if i = j then none else some (i, key j)
  | .foreign _ _ => none

section

variable (key : ι → ℕ ×ₗ ℕ ×ₗ ℕ ×ₗ ℤ)

theorem heard_self (i : ι) : heard key (.sent i i) = none :=
  if_pos rfl

theorem heard_other {i j : ι} (h : i ≠ j) :
    heard key (.sent i j) = some (i, key j) := if_neg h

omit key in
theorem state_mamaCheckHeartbeat (x : Member) (h : Heartbeat) :
    (x.mamaCheckHeartbeat h).member.credentials = x.credentials ∧
      (x.mamaCheckHeartbeat h).member.groupName = x.groupName ∧
      ((x.mamaCheckHeartbeat h).member.state = .active ↔ x.state = .active ∧ ¬ x.Winning h) := by
  rw [(x.mamaCheckHeartbeat_eq h).2]
  split
  · next hwins => exact ⟨rfl, rfl, iff_of_false nofun fun h => h.2 hwins⟩
  · next hwins => exact ⟨rfl, rfl, (and_iff_left hwins).symm⟩

/-- Deliveries among members of one group, told apart by address and process: other heartbeats are
of other groups. -/
structure Among (S : Finset ι) (group : String) (x : ι → Member) (es : List (Delivery ι)) :
    Prop where
  groupName : ∀ i ∈ S, (x i).groupName = group
  distinct : Set.InjOn (fun i => ((x i).ip, (x i).pid)) S
  sent : ∀ i ∈ S, ∀ j, .sent i j ∈ es → j ∈ S
  foreign : ∀ i ∈ S, ∀ h, .foreign i h ∈ es → h.groupName ≠ group

/-- **The members refine the election.** -/
theorem refines {S : Finset ι} {group : String} {x : ι → Member}
    {es : List (Delivery ι)} (hamong : Among S group x es)
    (hkey : ∀ i ∈ S, (x i).credentials.key = key i) (active : ι → Bool)
    (hactive : ∀ i ∈ S, (x i).state = .active ↔ active i) :
    ∀ i ∈ S, (es.foldl deliver x i).credentials = (x i).credentials ∧
      ((es.foldl deliver x i).state = .active ↔
        (es.filterMap (heard key)).foldl (Lib.hear key) active i) := by
  induction es generalizing x active with
  | nil => exact fun i hi => ⟨rfl, hactive i hi⟩
  | cons e es ih =>
    -- a heartbeat acts on its receiver only
    obtain ⟨i, h, hdeliver⟩ : ∃ i h, deliver x e =
        Function.update x i ((x i).mamaCheckHeartbeat h).member := by
      cases e with
      | sent i j => exact ⟨i, (x j).heartbeat, rfl⟩
      | foreign i h => exact ⟨i, h, rfl⟩
    obtain ⟨hcredentials, hgroupName, -⟩ := state_mamaCheckHeartbeat (x i) h
    have hsame : ∀ k, (deliver x e k).credentials = (x k).credentials ∧
        (deliver x e k).groupName = (x k).groupName := by
      intro k
      rw [hdeliver]
      by_cases hk : k = i
      · subst hk
        rw [update_self]
        exact ⟨hcredentials, hgroupName⟩
      · rw [update_of_ne hk]; exact ⟨rfl, rfl⟩
    have hlater : Among S group (deliver x e) es := by
      refine ⟨fun k hk => (hsame k).2.trans (hamong.groupName k hk), ?_,
        fun k hk j hj => hamong.sent k hk j (mem_cons_of_mem e hj),
        fun k hk g hg => hamong.foreign k hk g (mem_cons_of_mem e hg)⟩
      intro k hk l hl hkl
      refine hamong.distinct hk hl ?_
      have hip : ∀ j, ((deliver x e j).ip, (deliver x e j).pid) = ((x j).ip, (x j).pid) :=
        fun j => congrArg (fun c : Credentials => (c.ip, c.pid)) (hsame j).1
      simpa only [hip] using hkl
    have hstep : ∀ k ∈ S, (deliver x e k).state = .active ↔
        ((heard key e).toList.foldl (Lib.hear key) active) k := by
      intro k hk
      have hquiet : ∀ l, ¬ (x l).Winning (x l).heartbeat := fun l hw => hw.2.1 ⟨rfl, rfl⟩
      cases e with
      | foreign i h =>
        show (Function.update x i _ k).state = _ ↔ active k
        rw [← hactive k hk]
        by_cases hki : k = i
        · subst hki
          have hgroup := hamong.foreign k hk h mem_cons_self
          have hloses : ¬ (x k).Winning h := fun hw =>
            hgroup (hw.1.trans (hamong.groupName k hk))
          rw [update_self, (state_mamaCheckHeartbeat (x k) h).2.2]
          exact and_iff_left hloses
        · rw [update_of_ne hki]
      | sent i j =>
        show (Function.update x i _ k).state = _ ↔ _
        by_cases hki : k = i
        · subst hki
          have hj := hamong.sent k hk j mem_cons_self
          rw [update_self, (state_mamaCheckHeartbeat (x k) _).2.2, hactive k hk]
          by_cases hkj : k = j
          · subst hkj
            rw [heard_self]
            exact and_iff_left (hquiet k)
          have hown : ¬ ((x j).pid = (x k).pid ∧ (x j).ip = (x k).ip) := fun h =>
            hkj (hamong.distinct hk hj (Prod.ext h.2.symm h.1.symm))
          have hwins : (x k).Winning (x j).heartbeat ↔ key k < key j := by
            rw [← hkey k hk, ← hkey j hj, ← Credentials.wins_iff]
            exact ⟨fun h => h.2.2, fun h =>
              ⟨(hamong.groupName j hj).trans (hamong.groupName k hk).symm, hown, h⟩⟩
          rw [heard_other key hkj, hwins, not_lt]
          show _ ↔ Lib.hear key active (k, key j) k
          rw [Lib.hear, update_self, Bool.and_eq_true, decide_eq_true_iff]
        rw [update_of_ne hki, hactive k hk]
        by_cases hij : i = j
        · subst hij
          rw [heard_self]
          rfl
        · rw [heard_other key hij]
          show _ ↔ Lib.hear key active (i, key j) k
          rw [Lib.hear, update_of_ne hki]
    have hrest := ih hlater (fun k hk => (congrArg Credentials.key (hsame k).1).trans (hkey k hk))
      _ hstep
    intro k hk
    obtain ⟨hcred, hstate⟩ := hrest k hk
    refine ⟨hcred.trans (hsame k).1, ?_⟩
    rw [filterMap_cons]
    cases hheard : heard key e with
    | none => rwa [hheard] at hstate
    | some p => rwa [hheard] at hstate

end

/-- **Agreement**: the credentials are ordered, and once every active member of a group has heard
each of the others, in any order of the deliveries, just the one with the greatest credentials is
active. -/
theorem agreement {S : Finset ι} (hS : S.Nonempty) {group : String} {x : ι → Member}
    {es : List (Delivery ι)} (hamong : Among S group x es)
    (hactive : ∀ i ∈ S, (x i).state = .active) (hall : ∀ i ∈ S, ∀ j ∈ S, i ≠ j → .sent i j ∈ es) :
    IsStrictTotalOrder Credentials Credentials.Wins ∧ ∃ i ∈ S,
    (∀ j ∈ S, j ≠ i → (x j).credentials.key < (x i).credentials.key) ∧ ∀ j ∈ S,
    (es.foldl deliver x j).state = .active ↔ j = i := by
  refine ⟨inferInstance, ?_⟩
  have hrefines := refines (fun i => (x i).credentials.key) hamong (fun i _ => rfl)
    (fun i => decide ((x i).state = .active)) fun i _ => decide_eq_true_iff.symm
  have hkey : Set.InjOn (fun i => (x i).credentials.key) S := by
    intro i hi j hj hij
    have hsame : (x i).credentials = (x j).credentials := Credentials.key_injective hij
    exact hamong.distinct hi hj (congrArg (fun c : Credentials => (c.ip, c.pid)) hsame)
  have hheard : ∀ i ∈ S, ∀ k, (i, k) ∈ es.filterMap (heard fun i => (x i).credentials.key) →
      ∃ j ∈ S, k = (x j).credentials.key := by
    intro i hi k hk
    obtain ⟨e, he, hek⟩ := List.mem_filterMap.mp hk
    cases e with
    | foreign l h => cases hek
    | sent l j =>
      by_cases hlj : l = j
      · subst hlj
        rw [heard_self] at hek
        cases hek
      · rw [heard_other _ hlj] at hek
        obtain ⟨rfl, rfl⟩ := Prod.ext_iff.mp (Option.some.inj hek)
        exact ⟨j, hamong.sent l hi j he, rfl⟩
  obtain ⟨i, hi, hmax, hleft⟩ := Lib.left_iff (fun i => (x i).credentials.key) hS
    (fun i hi => decide_eq_true (hactive i hi)) hkey hheard fun i hi j hj hij =>
      List.mem_filterMap.mpr ⟨.sent i j, hall i hi j hj hij, heard_other _ hij⟩
  exact ⟨i, hi, hmax, fun j hj => (hrefines j hj).2.trans (hleft j hj)⟩

/-- An active member of the group `g`. -/
def activeMember (weight : UInt32) (pid : Int32) : Member :=
  { Member.new "g" weight pid with state := .active, incarnation := 1 }

/-- Two members of one weight, the first with process 1. -/
def twins (i : ℕ) : Member := activeMember 7 (if i = 1 then 1 else 2)

/-- The process decides, whatever else they hear. -/
theorem agreement_twins : IsStrictTotalOrder Credentials Credentials.Wins ∧
    ∃ i ∈ ({1, 2} : Finset ℕ),
      (∀ j ∈ ({1, 2} : Finset ℕ), j ≠ i → (twins j).credentials.key < (twins i).credentials.key) ∧
      ∀ j ∈ ({1, 2} : Finset ℕ), ([.sent 1 2, .foreign 2 ⟨(twins 1).credentials, "h"⟩, .sent 1 1,
        .sent 2 1].foldl deliver twins j).state = .active ↔ j = i := by
  have hmem : ∀ i ∈ ({1, 2} : Finset ℕ), i = 1 ∨ i = 2 := by decide
  have hne : "h" ≠ "g" := by decide
  have hamong : Among {1, 2} "g" twins [.sent 1 2, .foreign 2 ⟨(twins 1).credentials, "h"⟩,
      .sent 1 1, .sent 2 1] := by
    refine ⟨fun _ _ => rfl, ?_, ?_, ?_⟩
    · intro i hi j hj hij
      have hpid : (twins i).pid = (twins j).pid := congrArg Prod.snd hij
      rcases hmem i hi with rfl | rfl <;> rcases hmem j hj with rfl | rfl
      · rfl
      · cases hpid
      · cases hpid
      · rfl
    · intro i _ j hj
      simp only [mem_cons, not_mem_nil, or_false, reduceCtorEq, false_or] at hj
      rcases hj with ⟨-, rfl⟩ | ⟨-, rfl⟩ | ⟨-, rfl⟩ <;> decide
    · intro i _ h hh
      simp only [mem_cons, Delivery.foreign.injEq, not_mem_nil, or_false, reduceCtorEq,
        false_or] at hh
      rwa [hh.2]
  refine agreement ⟨1, by simp⟩ hamong (fun _ _ => rfl) fun i hi j hj hij => ?_
  rcases hmem i hi with rfl | rfl <;> rcases hmem j hj with rfl | rfl <;> simp at hij ⊢

end Ft

end Mama

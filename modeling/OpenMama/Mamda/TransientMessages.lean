import OpenMama.Lib.Until
import OpenMama.Lib.Unwinding
import OpenMama.Mamda.CachedListener

/-!
# What a transient message leaves behind

A message that is processed as transient should leave the regular record alone
(`RegularUndisturbed`), and show nothing but its own fields (`OwnFieldsShown`).  Since
the current cache is a reference to the regular one, it replaces the regular record
instead, and the transient cache is never filled: it is all zeros at the first message,
which is not what a cleared cache is, and cleared from then on.  Both hold of a run that
has no regular message after a transient one, if the first transient message carries the
fields that a new cache and a cleared one differ in (`transients_apart`).
-/

namespace Mamda.Cached

namespace CachedListener

variable {Fid Name C : Type} [DecidableEq Fid] (L : CachedListener Fid Name C)
  (settings : Settings)

/-- What is seen of a message: its callbacks, and the getters after it. -/
structure Seen (Name C : Type) where
  calls : List (Callback Name C)
  after : Shown C

def see (s : ListenerState C) (m : FieldMsg Fid) : Seen Name C :=
  ⟨(L.onMsg settings s m).2, (L.step settings s m).shown⟩

def watched (m : FieldMsg Fid) : Bool := L.handles settings m.msgType && m.isRegular

/-- The regular messages are seen as they are when the others have been removed. -/
def RegularUndisturbed (s : ListenerState C) (ms : List (FieldMsg Fid)) : Prop :=
  Lib.transcript (L.step settings) (L.see settings) (L.watched settings) s ms =
    Lib.transcript (L.step settings) (L.see settings) (L.watched settings) s
      (ms.filter FieldMsg.isRegular)

/-- The callbacks that a message makes on a cleared cache. -/
def ownCalls (s : ListenerState C) (m : FieldMsg Fid) : List (Callback Name C) :=
  (L.process settings true (L.qualifier settings (L.entered s m).regularCache m) m
    (L.clearCache L.newCache)).2

/-- During the callbacks of a transient message the getters show what it does to a cleared cache. -/
def OwnFieldsShown (s : ListenerState C) (ms : List (FieldMsg Fid)) : Prop :=
  ∀ before m after, ms = before ++ m :: after →
    L.isTransient settings (before.foldl (L.step settings) s) m →
    (L.see settings (before.foldl (L.step settings) s) m).calls =
      L.ownCalls settings (before.foldl (L.step settings) s) m

/-- No regular message comes after a transient one, and the first transient message carries some
fields. -/
def TransientLast (carries : FieldMsg Fid → Prop) (s : ListenerState C)
    (ms : List (FieldMsg Fid)) : Prop :=
  ∀ before m after, ms = before ++ m :: after →
    L.isTransient settings (before.foldl (L.step settings) s) m →
    ((before.foldl (L.step settings) s).transientCache = none → carries m) ∧
      ∀ n ∈ after, L.watched settings n = false

variable {L settings}

/-! ## Messages by their qualifiers -/

theorem clear_isDuplicate : Qualifier.clear.getIsDefinatelyDuplicate = false := rfl

theorem clear_isOutOfSequence : Qualifier.clear.getIsOutOfSequence = false := rfl

theorem clear_isPossiblyDuplicate : Qualifier.clear.getIsPossiblyDuplicate = false := rfl

variable {m : FieldMsg Fid} {s t : ListenerState C}

theorem evaluateMsgQual_of_isRegular (hm : m.isRegular) (s : ListenerState C) :
    L.evaluateMsgQual settings s m =
      ({ s with msgQual := m.qual.getD .clear, isTransientMsg := false }, false) := by
  unfold FieldMsg.isRegular at hm
  unfold evaluateMsgQual qualifier
  cases hq : m.qual with
  | none => simp [clear_isDuplicate, clear_isOutOfSequence, clear_isPossiblyDuplicate]
  | some q =>
    rw [hq] at hm
    simp only [Option.all_some, Bool.not_eq_true', Bool.or_eq_false_iff] at hm
    obtain ⟨⟨hoos, hpd⟩, hdd⟩ := hm
    simp [hoos, hpd, hdd]

theorem setDuplicate_isDuplicate (q : Qualifier) : q.setDuplicate.getIsDefinatelyDuplicate := by
  simp [Qualifier.setDuplicate, Qualifier.getIsDefinatelyDuplicate]

theorem evaluateMsgQual_duplicate (hm : m.isRegular = false)
    (h : (L.evaluateMsgQual settings s m).1.isTransientMsg = false) :
    (L.evaluateMsgQual settings s m).2 := by
  unfold FieldMsg.isRegular at hm
  cases hq : m.qual with
  | none => rw [hq] at hm; cases hm
  | some q =>
    rw [hq] at hm
    have hbits : (q.getIsOutOfSequence || q.getIsPossiblyDuplicate ||
        q.getIsDefinatelyDuplicate) := by
      simpa only [Option.all_some, Bool.not_eq_false'] using hm
    have hqual : L.qualifier settings s.regularCache m = q ∨
        L.qualifier settings s.regularCache m = q.setDuplicate := by
      simp only [qualifier, hq, resolve]
      split
      · split
        · split
          · exact .inr rfl
          · exact .inl rfl
        · exact .inl rfl
      · exact .inl rfl
    simp only [evaluateMsgQual] at h ⊢
    rcases hqual with hqual | hqual
    · rw [hqual] at h ⊢
      revert h hbits
      cases q.getIsDefinatelyDuplicate <;> cases q.getIsOutOfSequence <;>
        cases q.getIsPossiblyDuplicate <;> simp
    · rw [hqual]; exact setDuplicate_isDuplicate q

/-! ## Steps -/

theorem onMsg_unhandled (h : L.handles settings m.msgType = false) (s : ListenerState C) :
    L.onMsg settings s m = (L.entered s m, []) := by
  simp [onMsg, h]

theorem onMsg_of_isRegular (hm : m.isRegular) (h : L.handles settings m.msgType)
    (s : ListenerState C) : L.onMsg settings s m =
      let r := L.process settings false (m.qual.getD .clear) m (L.entered s m).regularCache
      ({ s with regularCache := r.1, msgQual := m.qual.getD .clear, isTransientMsg := false },
        r.2) := by
  simp [onMsg, h, handleMessage, evaluateMsgQual_of_isRegular hm, processFields, entered]

/-- A message that is neither regular nor transient leaves the regular cache as `onMsg` enters
it. -/
theorem step_dropped (hm : m.isRegular = false) (ht : L.isTransient settings s m = false) :
    (L.step settings s m).regularCache = L.enter m.msgType s.regularCache ∧
      (L.step settings s m).msgQualFieldState = s.msgQualFieldState := by
  unfold step
  cases h : L.handles settings m.msgType with
  | false => rw [onMsg_unhandled h]; exact ⟨rfl, rfl⟩
  | true =>
    have ht' : (L.evaluateMsgQual settings (L.entered s m) m).1.isTransientMsg = false := by
      simpa [isTransient, h] using ht
    have hdup := evaluateMsgQual_duplicate hm ht'
    have hsplit : L.evaluateMsgQual settings (L.entered s m) m =
        ((L.evaluateMsgQual settings (L.entered s m) m).1, true) := by
      rw [← hdup]
    simp only [onMsg, h, handleMessage]
    rw [hsplit]
    exact ⟨rfl, rfl⟩

section

variable (hprocess : settings.processPosDupAndOutOfSeqAsTransient)

include hprocess

theorem onMsg_of_isTransient
    (ht : L.isTransient settings s m) : (L.see settings s m).calls =
        (L.process settings true (L.qualifier settings (L.entered s m).regularCache m) m
          (s.transientCache.getD L.newCache)).2 ∧
      (L.step settings s m).transientCache =
        some (L.clearCache (s.transientCache.getD L.newCache)) := by
  obtain ⟨h, ht⟩ : L.handles settings m.msgType ∧
      (L.evaluateMsgQual settings (L.entered s m) m).1.isTransientMsg := by
    simpa [isTransient] using ht
  have hdup : (L.evaluateMsgQual settings (L.entered s m) m).2 = false := by
    revert ht
    simp only [evaluateMsgQual]
    cases (L.qualifier settings (L.entered s m).regularCache m).getIsDefinatelyDuplicate <;> simp
  have hsplit : L.evaluateMsgQual settings (L.entered s m) m =
      ((L.evaluateMsgQual settings (L.entered s m) m).1, false) := by
    rw [← hdup]
  simp only [see, step, onMsg, h, handleMessage]
  rw [hsplit]
  simp only [ht, hprocess, useTransientCache]
  exact ⟨rfl, rfl⟩

theorem step_transientCache
    (s : ListenerState C) (m : FieldMsg Fid) :
    (L.step settings s m).transientCache = s.transientCache ∨
      (L.step settings s m).transientCache =
        some (L.clearCache (s.transientCache.getD L.newCache)) := by
  cases ht : L.isTransient settings s m with
  | true => exact .inr (onMsg_of_isTransient hprocess ht).2
  | false =>
    refine .inl ?_
    unfold step
    cases h : L.handles settings m.msgType with
    | false => rw [onMsg_unhandled h]; rfl
    | true =>
      have ht' : (L.evaluateMsgQual settings (L.entered s m) m).1.isTransientMsg = false := by
        simpa [isTransient, h] using ht
      have hkept : (L.evaluateMsgQual settings (L.entered s m) m).1.transientCache =
          s.transientCache := rfl
      simp only [onMsg, h, handleMessage]
      rcases heval : L.evaluateMsgQual settings (L.entered s m) m with ⟨t, dup⟩
      rw [heval] at ht' hkept
      change t.isTransientMsg = false at ht'
      cases dup with
      | true => exact hkept
      | false => simp only [ht']; exact hkept

end

/-! ## Runs -/

/-- Two states that no message tells apart by its regular cache. -/
def Alike (L : CachedListener Fid Name C) (s t : ListenerState C) : Prop :=
  s.msgQualFieldState = t.msgQualFieldState ∧
    ∀ u, L.enter u s.regularCache = L.enter u t.regularCache

omit [DecidableEq Fid] in
theorem Alike.entered (h : L.Alike s t) (m : FieldMsg Fid) :
    (L.entered s m).regularCache = (L.entered t m).regularCache := h.2 m.msgType

theorem Alike.step (hst : L.Alike s t) (hm : m.isRegular) :
    L.Alike (L.step settings s m) (L.step settings t m) := by
  unfold CachedListener.step
  cases h : L.handles settings m.msgType with
  | false =>
    rw [onMsg_unhandled h, onMsg_unhandled h]
    refine ⟨hst.1, fun u => ?_⟩
    rw [hst.entered m]
  | true =>
    rw [onMsg_of_isRegular hm h, onMsg_of_isRegular hm h, hst.entered m]
    exact ⟨hst.1, fun _ => rfl⟩

theorem Alike.see (hst : L.Alike s t) (hm : L.watched settings m) :
    L.see settings s m = L.see settings t m := by
  obtain ⟨h, hm⟩ : L.handles settings m.msgType ∧ m.isRegular := by simpa [watched] using hm
  simp [CachedListener.see, CachedListener.step, onMsg_of_isRegular hm h, hst.entered m,
    ListenerState.shown, hst.1]

theorem Alike.dropped (hst : L.Alike s t) (hm : m.isRegular = false)
    (ht : L.isTransient settings s m = false) : L.Alike (L.step settings s m) t := by
  obtain ⟨hcache, hstate⟩ := step_dropped hm ht
  refine ⟨hstate.trans hst.1, fun u => ?_⟩
  rw [hcache, L.enter_enter]
  exact hst.2 u

theorem run_transientCache (hprocess : settings.processPosDupAndOutOfSeqAsTransient)
    (hs : s.transientCache = none) (ms : List (FieldMsg Fid)) :
    (ms.foldl (L.step settings) s).transientCache = none ∨
      (ms.foldl (L.step settings) s).transientCache = some (L.clearCache L.newCache) := by
  induction ms using List.reverseRecOn with
  | nil => exact .inl hs
  | append_singleton ms m ih =>
    rw [List.foldl_concat]
    rcases step_transientCache hprocess (ms.foldl (L.step settings) s) m with h | h
    · rwa [h]
    · rw [h]
      refine .inr ?_
      rcases ih with ih | ih
      · rw [ih, Option.getD_none]
      · rw [ih, Option.getD_some, L.clearCache_clearCache]

variable {carries : FieldMsg Fid → Prop}
variable {ms : List (FieldMsg Fid)}

theorem regularUndisturbed (h : L.TransientLast settings carries s ms) :
    L.RegularUndisturbed settings s ms := by
  have hsame : L.Alike s s := ⟨rfl, fun _ => rfl⟩
  have hdrop : ∀ m : FieldMsg Fid, m.isRegular = false → L.watched settings m = false := by
    intro m hm; simp [watched, hm]
  have hkeep : ∀ s t m, L.Alike s t → m.isRegular →
      L.Alike (L.step settings s m) (L.step settings t m) := fun _ _ _ hst => hst.step
  have hout : ∀ s t m, L.Alike s t → L.watched settings m →
      L.see settings s m = L.see settings t m := fun _ _ _ hst => hst.see
  refine Lib.transcript_filter hdrop hkeep hout hsame ?_
  intro before m after hsplit hm
  cases ht : L.isTransient settings (before.foldl (L.step settings) s) m with
  | true => exact .inr (h before m after hsplit ht).2
  | false => exact .inl fun u hu => hu.dropped hm ht

theorem ownFieldsShown (hprocess : settings.processPosDupAndOutOfSeqAsTransient)
    (hfirst : ∀ q m, carries m → (L.process settings true q m L.newCache).2 =
      (L.process settings true q m (L.clearCache L.newCache)).2)
    (hs : s.transientCache = none) (h : L.TransientLast settings carries s ms) :
    L.OwnFieldsShown settings s ms := by
  intro before m after hsplit ht
  rw [(onMsg_of_isTransient hprocess ht).1]
  rcases run_transientCache hprocess hs before with hnone | hsome
  · rw [hnone]; exact hfirst _ m ((h before m after hsplit ht).1 hnone)
  · rw [hsome]; rfl

end CachedListener

end Mamda.Cached

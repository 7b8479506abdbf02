import Mathlib.Data.Int.Lemmas
import Mathlib.Data.List.TakeWhile
import Mathlib.Tactic.NormNum
import OpenMama.Common.PropertiesHistory

/-!
# Environment variables in properties

`propertiesImpl_ReplaceEnvironmentVariable` cuts the caller's string in place to find the name
and the text before the reference, formats the new string into a buffer whose length it has
counted, and puts the characters back.  It replaces the first reference only.  `expand` says what
a text is with all of its references replaced, and `substitutes_iff` when the two agree.
-/

namespace Common.Properties

open List Option

abbrev CText := { text : Text // '\x00' ∉ text }

/-- What `getenv` finds are strings. -/
abbrev Environment := Text → Option CText

def Environment.getenv (env : Environment) (name : Text) : Option Text := (env name).map Subtype.val

/-! ## The replacement in memory -/

def stringAt (buf : Text) (i : Nat) : Text := Lib.cString (buf.drop i)

/-- `strstr (value, "$(")`, as a position. -/
def strstrStart (s : Text) : Option Nat := (findStart s).map fun found => found.1.length

/-- `strchr`, as a position. -/
def strchr (s : Text) (c : Char) : Option Nat :=
  if c ∈ s then some (s.takeWhile (· ≠ c)).length else none

/-- What a call leaves: the caller's buffer, and what it wrote to the buffer that it returns, with
the length that it allocated. -/
structure Replaced where
  value : Text
  ret : Option (Text × Int) := none
  deriving DecidableEq, Repr

/-- A conversion to `int`. -/
def toInt (x : Int) : Int := Int.bmod x (2 ^ 32)

/-- `newStringLength`: an `int`, from an `int` and sizes of 64 bits. -/
def newStringLength (value variableStart envValue : Text) : Int :=
  let valueLength := toInt value.length
  toInt ((valueLength - variableStart.length + envValue.length - 2) % 2 ^ 64)

/-- `propertiesImpl_ReplaceEnvironmentVariable` on the caller's buffer.  A negative length is a size
that cannot be allocated. -/
def replaceInPlace (env : Environment) (buf : Text) : Replaced :=
  match strstrStart (stringAt buf 0) with
  | none => { value := buf }
  | some envStart =>
    let variableStart := envStart + 2
    match strchr (stringAt buf variableStart) ')' with
    | none => { value := buf }
    | some length =>
      let envEnd := variableStart + length
      let value := stringAt buf 0
      let endChar := buf.getD envEnd '\x00'
      let buf := buf.set envEnd '\x00'
      match env.getenv (stringAt buf variableStart) with
      | none => { value := buf.set envEnd endChar }
      | some envValue =>
        let newLength := newStringLength value (stringAt buf variableStart) envValue
        if newLength < 0 then { value := buf.set envEnd endChar }
        else
          let startChar := buf.getD envStart '\x00'
          let buf := buf.set envStart '\x00'
          let ret := stringAt buf 0 ++ envValue ++ stringAt buf (envEnd + 1) ++ ['\x00']
          { value := (buf.set envStart startChar).set envEnd endChar, ret := some (ret, newLength) }

/-- The string that the callers go on with: the new one, or a copy of the one they were given. -/
def substituted (env : Environment) (buf : Text) : Text :=
  let replaced := replaceInPlace env buf
  (replaced.ret.map fun ret => Lib.cString ret.1).getD (Lib.cString replaced.value)

/-- `properties_setProperty`: the property that is added. -/
def setProperty (env : Environment) (name buf : Text) : Pair :=
  (some (Lib.cString name), some (substituted env buf))

/-- `properties_AddString`: the scan of the string. -/
def addString (env : Environment) (g : Globals) (buf : Text) : Option Lexer :=
  Import.run env.getenv g (.string (substituted env buf))

/-! ## What is asked of it -/

/-- At a reference whose name is defined: its value, and how far the reference goes behind its first
character. -/
def reference (env : Environment) : Text → Option (Text × Nat)
  | '$' :: '(' :: rest =>
    let name := rest.takeWhile (· ≠ ')')
    if ')' ∈ rest then (env.getenv name).map fun v => (v, name.length + 2) else none
  | _ => none

/-- A text with its references replaced, past some of its characters. -/
def expandFrom (env : Environment) : Nat → Text → Text
  | _, [] => []
  | skip + 1, _ :: text => expandFrom env skip text
  | 0, c :: text =>
    match reference env (c :: text) with
    | some (v, length) => v ++ expandFrom env length text
    | none => c :: expandFrom env 0 text

/-- Every reference to a variable that is defined is replaced by its value, and all else is kept. -/
def expand (env : Environment) (text : Text) : Text := expandFrom env 0 text

/-- The caller's string is as it was, the new one fits what was allocated for it, and the callers go
on with the text whose references are replaced. -/
structure Substitutes (env : Environment) (value : CText) : Prop where
  unchanged : ∀ behind, (replaceInPlace env (value.1 ++ '\x00' :: behind)).value =
    value.1 ++ '\x00' :: behind
  fits : ∀ behind ret length, (replaceInPlace env (value.1 ++ '\x00' :: behind)).ret =
    some (ret, length) → (ret.length : Int) ≤ length
  stored : ∀ behind name, setProperty env name (value.1 ++ '\x00' :: behind) =
    (some (Lib.cString name), some (expand env value.1))
  scanned : ∀ behind g, addString env g (value.1 ++ '\x00' :: behind) =
    Import.run env.getenv g (.string (expand env value.1))

def newLength (before envValue after : Text) : Nat :=
  before.length + envValue.length + after.length + 1

/-- No reference but the first one is replaced, and the new string is not too long; if its length is
negative as an `int`, nothing is replaced. -/
def Once (env : Environment) (value : Text) : Prop :=
  match findStart value with
  | none => True
  | some (before, rest) =>
    ')' ∈ rest →
      match env.getenv (rest.takeWhile (· ≠ ')')), (rest.dropWhile (· ≠ ')')).tail with
      | none, _ => expand env ('(' :: rest) = '(' :: rest
      | some envValue, after =>
        if toInt (newLength before envValue after) < 0 then
          envValue ++ expand env after = '$' :: '(' :: rest
        else newLength before envValue after < 2 ^ 31 ∧ expand env after = after

/-! ## What a text expands to -/

variable {env : Environment} {text before rest : Text}

theorem expandFrom_eq (skip : Nat) (text : Text) :
    expandFrom env skip text = expand env (text.drop skip) := by
  induction text generalizing skip with
  | nil => rw [drop_nil, expand, expandFrom, expandFrom]
  | cons c text ih =>
    cases skip with
    | zero => rfl
    | succ skip => exact ih skip

variable {c : Char} {s : Text}

theorem expand_keep (h : reference env (c :: text) = none) :
    expand env (c :: text) = c :: expand env text := by
  rw [expand, expandFrom, h]
  rfl

theorem takeWhile_end (hs : c ∉ s) (behind : Text) : (s ++ c :: behind).takeWhile (· ≠ c) = s := by
  have hpos : ∀ d ∈ s, decide (d ≠ c) = true := fun d hd => by
    refine decide_eq_true ?_
    rintro rfl
    exact hs hd
  rw [takeWhile_append_of_pos hpos, takeWhile_cons_of_neg (by simp), append_nil]

theorem dropWhile_end (hs : c ∉ s) (behind : Text) :
    (s ++ c :: behind).dropWhile (· ≠ c) = c :: behind := by
  have hpos : ∀ d ∈ s, decide (d ≠ c) = true := fun d hd => by
    refine decide_eq_true ?_
    rintro rfl
    exact hs hd
  rw [dropWhile_append_of_pos hpos, dropWhile_cons_of_neg (by simp)]

section

variable {name after : Text}

theorem reference_name (hname : ')' ∉ name) : reference env ('$' :: '(' :: (name ++ ')' :: after)) =
    (env.getenv name).map fun v => (v, name.length + 2) := by
  simp only [reference, takeWhile_end hname]
  exact if_pos (by simp)

theorem expand_reference (hname : ')' ∉ name) {envValue : Text}
    (henv : env.getenv name = some envValue) :
    expand env ('$' :: '(' :: (name ++ ')' :: after)) = envValue ++ expand env after := by
  have hbehind : ('(' :: (name ++ ')' :: after)).drop (name.length + 2) = after := by
    rw [drop_succ_cons, drop_append, drop_eq_nil_of_le (Nat.le_succ _), Nat.add_sub_cancel_left]
    rfl
  rw [expand, expandFrom, reference_name hname, henv]
  dsimp only [map_some]
  rw [expandFrom_eq, hbehind]

theorem expand_undefined (hname : ')' ∉ name) (henv : env.getenv name = none) :
    expand env ('$' :: '(' :: (name ++ ')' :: after)) =
      '$' :: expand env ('(' :: (name ++ ')' :: after)) :=
  expand_keep (by rw [reference_name hname, henv]; rfl)

end

theorem reference_of_no_start (h : ∀ rest, c = '$' → text = '(' :: rest → ')' ∉ rest) :
    reference env (c :: text) = none := by
  unfold reference
  split
  · rename_i rest heq
    obtain ⟨hc, htext⟩ := List.cons.inj heq
    exact if_neg (h rest hc htext)
  · rfl

theorem expand_of_no_end (h : ')' ∉ text) : expand env text = text := by
  induction text with
  | nil => rfl
  | cons c text ih =>
    rw [mem_cons, not_or] at h
    have hnone : reference env (c :: text) = none := by
      refine reference_of_no_start fun rest _ htext hmem => h.2 ?_
      rw [htext]
      exact mem_cons_of_mem _ hmem
    rw [expand_keep hnone, ih h.2]

theorem expand_findStart (env : Environment) (text : Text) :
    match findStart text with
    | none => expand env text = text
    | some (before, rest) => text = before ++ '$' :: '(' :: rest ∧
        expand env text = before ++ expand env ('$' :: '(' :: rest) := by
  induction text using findStart.induct with
  | case1 => rfl
  | case2 rest => exact ⟨rfl, rfl⟩
  | case3 c text hnot ih =>
    have hnone : reference env (c :: text) = none :=
      reference_of_no_start fun rest hc htext => absurd htext (hnot rest hc)
    rw [findStart]
    · cases hfound : findStart text with
      | none => rw [hfound] at ih; exact (expand_keep hnone).trans (congrArg (List.cons c) ih)
      | some found =>
        rw [hfound] at ih
        refine ⟨congrArg (List.cons c) ih.1, ?_⟩
        exact (expand_keep hnone).trans (congrArg (List.cons c) ih.2)
    · exact hnot

theorem first_reference (text : Text) :
    (∀ found, findStart text = some found → ')' ∉ found.2) ∨
      ∃ before name after, ')' ∉ name ∧ findStart text = some (before, name ++ ')' :: after) := by
  cases findStart text with
  | none => exact .inl fun found hfound => absurd hfound (by simp)
  | some found =>
    obtain ⟨before, rest⟩ := found
    by_cases hend : ')' ∈ rest
    · obtain ⟨name, after, rfl, hname⟩ := eq_append_cons_of_mem hend
      exact .inr ⟨before, name, after, hname, rfl⟩
    · refine .inl ?_
      rintro found ⟨⟩
      exact hend

theorem expand_of_no_reference (env : Environment)
    (h : ∀ found, findStart text = some found → ')' ∉ found.2) :
    expand env text = text := by
  have hexpand := expand_findStart env text
  cases hfind : findStart text with
  | none => rwa [hfind] at hexpand
  | some found =>
    rw [hfind] at hexpand
    obtain ⟨htext, hexpand⟩ := hexpand
    have hkeep : ')' ∉ '$' :: '(' :: found.2 := by
      simp only [mem_cons, not_or]; exact ⟨by decide, by decide, h found hfind⟩
    rw [hexpand, expand_of_no_end hkeep, ← htext]

/-! ## The buffer -/

theorem cString_append (hs : '\x00' ∉ s) (behind : Text) :
    Lib.cString (s ++ '\x00' :: behind) = s :=
  takeWhile_end hs behind

theorem stringAt_append (hs : '\x00' ∉ s) (before behind : Text) :
    stringAt (before ++ (s ++ '\x00' :: behind)) before.length = s := by
  rw [stringAt, drop_left]
  exact cString_append hs behind

theorem set_append (before : Text) (c d : Char) (behind : Text) :
    (before ++ c :: behind).set before.length d = before ++ d :: behind := by
  rw [set_append_right _ _ (Nat.le_refl _), Nat.sub_self, set_cons_zero]

theorem getD_append (before : Text) (c d : Char) (behind : Text) :
    (before ++ c :: behind).getD before.length d = c := by
  rw [getD_eq_getElem?_getD, getElem?_append_right (Nat.le_refl _), Nat.sub_self]
  rfl

theorem bmod_wrapped {n : Nat} {m : Int} (hm : (n : Int) ∣ m) (x y z : Int) :
    Int.bmod ((Int.bmod x n - y + z - 2) % m) n = Int.bmod (x - y + z - 2) n := by
  obtain ⟨k, rfl⟩ := hm
  have hfirst : Int.bmod x n - y + z - 2 = Int.bmod x n + (-y + z - 2) := by omega
  have hsecond : x - y + z - 2 = x + (-y + z - 2) := by omega
  rw [Int.emod_def, Int.mul_assoc, Int.sub_mul_bmod_self_left, hfirst, Int.bmod_add_bmod, hsecond]

theorem newStringLength_eq (before name envValue after : Text) :
    newStringLength (before ++ '$' :: '(' :: (name ++ ')' :: after)) name envValue =
      toInt (newLength before envValue after) := by
  have hsum : ((before ++ '$' :: '(' :: (name ++ ')' :: after)).length : Int) - name.length +
      envValue.length - 2 = newLength before envValue after := by
    simp only [length_append, length_cons, newLength]
    omega
  have hdvd : ((2 ^ 32 : Nat) : Int) ∣ 2 ^ 64 := ⟨2 ^ 32, by norm_num⟩
  unfold newStringLength toInt
  rw [bmod_wrapped hdvd, hsum]

section Buffer

variable {name after behind : Text}

/-- The buffer with a character for `$` and one for `)`. -/
def buffer (before : Text) (startChar : Char) (name : Text) (endChar : Char) (after behind : Text) :
    Text :=
  before ++ startChar :: '(' :: (name ++ endChar :: (after ++ '\x00' :: behind))

theorem buffer_eq (before : Text) (startChar : Char) (name : Text) (endChar : Char)
    (after behind : Text) : buffer before startChar name endChar after behind =
      before ++ [startChar, '('] ++ (name ++ endChar :: (after ++ '\x00' :: behind)) := by
  simp [buffer]

theorem buffer_eq_end (before : Text) (startChar : Char) (name : Text) (endChar : Char)
    (after behind : Text) : buffer before startChar name endChar after behind =
      before ++ [startChar, '('] ++ name ++ endChar :: (after ++ '\x00' :: behind) := by
  simp [buffer]

theorem length_end (before : Text) (startChar : Char) (name : Text) :
    before.length + 2 + name.length = (before ++ [startChar, '('] ++ name).length := by
  rw [length_append, length_append]
  rfl

theorem set_start (startChar startChar' endChar : Char) :
    (buffer before startChar name endChar after behind).set before.length startChar' =
      buffer before startChar' name endChar after behind :=
  set_append _ _ _ _

theorem set_end (startChar endChar endChar' : Char) :
    (buffer before startChar name endChar after behind).set (before.length + 2 + name.length)
      endChar' =
      buffer before startChar name endChar' after behind := by
  rw [buffer_eq_end, buffer_eq_end, length_end before startChar, set_append]

theorem getD_start (startChar endChar : Char) :
    (buffer before startChar name endChar after behind).getD before.length '\x00' = startChar :=
  getD_append _ _ _ _

theorem getD_end (startChar endChar : Char) :
    (buffer before startChar name endChar after behind).getD (before.length + 2 + name.length)
      '\x00' =
      endChar := by
  rw [buffer_eq_end, length_end before startChar, getD_append]

theorem stringAt_name (startChar : Char) (hname : '\x00' ∉ name) :
    stringAt (buffer before startChar name '\x00' after behind) (before.length + 2) = name := by
  have hlength : before.length + 2 = (before ++ [startChar, '(']).length := by simp
  rw [buffer_eq, hlength, stringAt_append hname]

theorem stringAt_after (startChar endChar : Char) (hafter : '\x00' ∉ after) :
    stringAt (buffer before startChar name endChar after behind)
      (before.length + 2 + name.length + 1) = after := by
  have hlength : before.length + 2 + name.length + 1 =
      (before ++ [startChar, '('] ++ name ++ [endChar]).length := by
    rw [length_append, ← length_end]
    rfl
  have hbuf : buffer before startChar name endChar after behind =
      before ++ [startChar, '('] ++ name ++ [endChar] ++ (after ++ '\x00' :: behind) := by
    simp [buffer]
  rw [hbuf, hlength, stringAt_append hafter]

theorem stringAt_before (endChar : Char) (hbefore : '\x00' ∉ before) :
    stringAt (buffer before '\x00' name endChar after behind) 0 = before :=
  cString_append hbefore _

end Buffer

/-- **The call in memory**: what it finds, what it counts, and that it puts back what it changed. -/
theorem replaceInPlace_reference {before name after : Text} (behind : Text)
    (hvalue : '\x00' ∉ before ++ '$' :: '(' :: (name ++ ')' :: after)) (hname : ')' ∉ name)
    (hstart : findStart (before ++ '$' :: '(' :: (name ++ ')' :: after)) =
      some (before, name ++ ')' :: after)) :
    replaceInPlace env (before ++ '$' :: '(' :: (name ++ ')' :: after) ++ '\x00' :: behind) =
      { value := before ++ '$' :: '(' :: (name ++ ')' :: after) ++ '\x00' :: behind
        ret := (env.getenv name).bind fun envValue =>
          if toInt (newLength before envValue after) < 0 then none
          else some (before ++ envValue ++ after ++ ['\x00'],
            toInt (newLength before envValue after)) } := by
  have hall : stringAt (before ++ '$' :: '(' :: (name ++ ')' :: after) ++ '\x00' :: behind) 0 =
      before ++ '$' :: '(' :: (name ++ ')' :: after) := cString_append hvalue behind
  have hbuf : before ++ '$' :: '(' :: (name ++ ')' :: after) ++ '\x00' :: behind =
      buffer before '$' name ')' after behind := by
    simp [buffer]
  rw [hbuf] at hall ⊢
  obtain ⟨hbefore, hname₀, hafter⟩ : '\x00' ∉ before ∧ '\x00' ∉ name ∧ '\x00' ∉ after := by
    simp only [mem_append, mem_cons, not_or] at hvalue
    exact ⟨hvalue.1, hvalue.2.2.2.1, hvalue.2.2.2.2.2⟩
  have hrest : stringAt (buffer before '$' name ')' after behind) (before.length + 2) =
      name ++ ')' :: after := by
    have hlength : before.length + 2 = (before ++ ['$', '(']).length := by simp
    have hnull : '\x00' ∉ name ++ ')' :: after := by
      simp only [mem_append, mem_cons, not_or]; exact ⟨hname₀, by decide, hafter⟩
    have hsplit : buffer before '$' name ')' after behind =
        before ++ ['$', '('] ++ (name ++ ')' :: after ++ '\x00' :: behind) := by
      simp [buffer]
    rw [hsplit, hlength, stringAt_append hnull]
  have hfind : strstrStart (stringAt (buffer before '$' name ')' after behind) 0) =
      some before.length := by
    rw [hall, strstrStart, hstart]
    rfl
  have hclose : strchr (name ++ ')' :: after) ')' = some name.length := by
    rw [strchr, if_pos (by simp), takeWhile_end hname]
  rw [replaceInPlace, hfind]
  dsimp only
  rw [hrest, hclose]
  dsimp only
  rw [hall, set_end, getD_end, stringAt_name '$' hname₀, set_end]
  cases henv : env.getenv name with
  | none => rfl
  | some envValue =>
    dsimp only
    rw [newStringLength_eq, set_start, getD_start, set_start, set_end, stringAt_before _ hbefore,
      stringAt_after _ _ hafter]
    by_cases hneg : toInt (newLength before envValue after) < 0
    · rw [if_pos hneg, bind_some, if_pos hneg]
    · rw [if_neg hneg, bind_some, if_neg hneg]

/-! ## When every reference is replaced -/

section Callers

variable {value : CText}

theorem substitutes_of_none (h : ∀ behind, replaceInPlace env (value.1 ++ '\x00' :: behind) =
    { value := value.1 ++ '\x00' :: behind }) :
    Substitutes env value ↔ expand env value.1 = value.1 := by
  have hsubstituted : ∀ behind, substituted env (value.1 ++ '\x00' :: behind) = value.1 := by
    intro behind
    rw [substituted, h behind]
    exact cString_append value.2 behind
  constructor
  · intro hall
    have hstored := hall.stored [] []
    rw [setProperty, hsubstituted] at hstored
    exact (some.inj (Prod.mk.inj hstored).2).symm
  · intro hexpand
    refine ⟨fun behind => by rw [h], fun behind ret length hret => ?_, fun behind name => ?_,
      fun behind g => ?_⟩
    · rw [h] at hret; cases hret
    · rw [setProperty, hsubstituted, hexpand]
    · rw [addString, hsubstituted, hexpand]

theorem substitutes_of_some {text : Text} {length : Int} (htext : '\x00' ∉ text)
    (h : ∀ behind, replaceInPlace env (value.1 ++ '\x00' :: behind) =
      { value := value.1 ++ '\x00' :: behind, ret := some (text ++ ['\x00'], length) }) :
    Substitutes env value ↔ (text.length : Int) + 1 ≤ length ∧ expand env value.1 = text := by
  have hsubstituted : ∀ behind, substituted env (value.1 ++ '\x00' :: behind) = text := by
    intro behind
    rw [substituted, h behind]
    exact cString_append htext []
  constructor
  · intro hall
    have hfits := hall.fits [] _ _ (by rw [h])
    have hstored := hall.stored [] []
    rw [setProperty, hsubstituted] at hstored
    rw [length_append] at hfits
    exact ⟨hfits, (some.inj (Prod.mk.inj hstored).2).symm⟩
  rintro ⟨hfits, hexpand⟩
  refine ⟨fun behind => by rw [h], fun behind ret length' hret => ?_, fun behind name => ?_,
    fun behind g => ?_⟩
  · rw [h] at hret
    obtain ⟨rfl, rfl⟩ := Prod.mk.inj (some.inj hret)
    rwa [length_append]
  · rw [setProperty, hsubstituted, hexpand]
  · rw [addString, hsubstituted, hexpand]

end Callers

theorem le_toInt_iff (n : Nat) : (n : Int) ≤ toInt n ↔ n < 2 ^ 31 := by
  have hlt : toInt n < ((2 ^ 32 : Nat) + 1) / 2 := Int.bmod_lt (by decide)
  constructor
  · intro hle; omega
  · intro hsmall
    have heq : toInt n = n := Int.bmod_eq_of_le (by omega) (by omega)
    rw [heq]

/-! ## The list level -/

theorem replaceEnvironmentVariable_none {getenv : Text → Option Text}
    (h : ∀ found, findStart text = some found → ')' ∉ found.2) :
    replaceEnvironmentVariable getenv (some text) = none := by
  unfold replaceEnvironmentVariable
  cases hfind : findStart text with
  | none => simp [hfind]
  | some found =>
    have hdrop : found.2.dropWhile (· ≠ ')') = [] := by
      refine List.dropWhile_eq_nil_iff.2 fun c hc => decide_eq_true ?_
      rintro rfl
      exact h found hfind hc
    simp only [bind_eq_bind, bind_some, hfind]
    rw [hdrop]

theorem replaceEnvironmentVariable_reference (env : Environment) {name after : Text}
    (hname : ')' ∉ name) (hfind : findStart text = some (before, name ++ ')' :: after)) :
    replaceEnvironmentVariable env.getenv (some text) =
      (env.getenv name).map fun envValue => before ++ envValue ++ after := by
  unfold replaceEnvironmentVariable
  simp only [bind_eq_bind, bind_some, hfind]
  rw [takeWhile_end hname, dropWhile_end hname, map_eq_bind]
  rfl

theorem replaceInPlace_none {value : CText} (behind : Text)
    (h : ∀ found, findStart value.1 = some found → ')' ∉ found.2) :
    replaceInPlace env (value.1 ++ '\x00' :: behind) =
      { value := value.1 ++ '\x00' :: behind } := by
  have hall : stringAt (value.1 ++ '\x00' :: behind) 0 = value.1 := cString_append value.2 behind
  have hsplit := expand_findStart env value.1
  rw [replaceInPlace, strstrStart, hall]
  cases hfind : findStart value.1 with
  | none => rfl
  | some found =>
    obtain ⟨before, rest⟩ := found
    rw [hfind] at hsplit
    obtain ⟨hvalue, -⟩ := hsplit
    have hnull : '\x00' ∉ rest := by
      have hnull := value.2
      rw [hvalue] at hnull
      simp only [mem_append, mem_cons, not_or] at hnull
      exact hnull.2.2.2
    have hrest : stringAt (value.1 ++ '\x00' :: behind) (before.length + 2) = rest := by
      have hbuf : value.1 ++ '\x00' :: behind =
          before ++ ['$', '('] ++ (rest ++ '\x00' :: behind) := by
        rw [hvalue]; simp
      have hlength : before.length + 2 = (before ++ ['$', '(']).length := by simp
      rw [hbuf, hlength, stringAt_append hnull]
    have hnone : strchr rest ')' = none := if_neg (h _ hfind)
    rw [map_some]
    dsimp only
    rw [hrest, hnone]

section Reference

variable {value : CText} {name after : Text}

theorem replaceInPlace_value (env : Environment)
    (hvalue : value.1 = before ++ '$' :: '(' :: (name ++ ')' :: after))
    (hname : ')' ∉ name) (hfind : findStart value.1 = some (before, name ++ ')' :: after))
    (behind : Text) : replaceInPlace env (value.1 ++ '\x00' :: behind) =
      { value := value.1 ++ '\x00' :: behind
        ret := (env.getenv name).bind fun envValue =>
          if toInt (newLength before envValue after) < 0 then none
          else some (before ++ envValue ++ after ++ ['\x00'],
            toInt (newLength before envValue after)) } := by
  have hnull := value.2
  rw [hvalue] at hnull hfind ⊢
  exact replaceInPlace_reference behind hnull hname hfind

theorem substitutes_defined (hvalue : value.1 = before ++ '$' :: '(' :: (name ++ ')' :: after))
    (hname : ')' ∉ name) (hfind : findStart value.1 = some (before, name ++ ')' :: after))
    {envValue : Text} (henv : env.getenv name = some envValue)
    (hexpand : expand env value.1 = before ++ (envValue ++ expand env after)) :
    Substitutes env value ↔ if toInt (newLength before envValue after) < 0 then
      envValue ++ expand env after = '$' :: '(' :: (name ++ ')' :: after)
      else newLength before envValue after < 2 ^ 31 ∧ expand env after = after := by
  have hcall := replaceInPlace_value env hvalue hname hfind
  by_cases hneg : toInt (newLength before envValue after) < 0
  · rw [if_pos hneg, substitutes_of_none, hexpand, hvalue, append_cancel_left_eq]
    intro behind
    rw [hcall, henv, bind_some, if_pos hneg]
  have hnull : '\x00' ∉ before ++ envValue ++ after := by
    have hparts := value.2
    rw [hvalue] at hparts
    simp only [mem_append, mem_cons, not_or] at hparts ⊢
    obtain ⟨v, -, rfl⟩ := map_eq_some_iff.1 henv
    exact ⟨⟨hparts.1, v.2⟩, hparts.2.2.2.2.2⟩
  have hlength : ((before ++ envValue ++ after).length : Int) + 1 =
      newLength before envValue after := by
    simp only [length_append, newLength]
    omega
  have hsome : ∀ behind, replaceInPlace env (value.1 ++ '\x00' :: behind) =
      { value := value.1 ++ '\x00' :: behind
        ret := some (before ++ envValue ++ after ++ ['\x00'],
          toInt (newLength before envValue after)) } := by
    intro behind
    rw [hcall, henv, bind_some, if_neg hneg]
  rw [if_neg hneg, substitutes_of_some hnull hsome, hlength, le_toInt_iff, hexpand,
    append_assoc, append_cancel_left_eq, append_cancel_left_eq]

theorem substitutes_undefined (hvalue : value.1 = before ++ '$' :: '(' :: (name ++ ')' :: after))
    (hname : ')' ∉ name) (hfind : findStart value.1 = some (before, name ++ ')' :: after))
    (henv : env.getenv name = none)
    (hexpand : expand env value.1 =
      before ++ '$' :: expand env ('(' :: (name ++ ')' :: after))) :
    Substitutes env value ↔
      expand env ('(' :: (name ++ ')' :: after)) = '(' :: (name ++ ')' :: after) := by
  have hcall := replaceInPlace_value env hvalue hname hfind
  rw [substitutes_of_none, hexpand, hvalue, append_cancel_left_eq, List.cons.injEq]
  · exact and_iff_right rfl
  · intro behind
    rw [hcall, henv]
    rfl

end Reference

/-- **The buffer holds what the scanner is told**: the call on memory returns the text that the
action of a value makes of the same value, if its length is an `int`. -/
theorem replaceInPlace_ret (env : Environment) (value : CText) (behind : Text)
    (hsmall : ∀ ret, replaceEnvironmentVariable env.getenv (some value.1) = some ret →
      ret.length + 1 < 2 ^ 31) :
    (replaceInPlace env (value.1 ++ '\x00' :: behind)).ret.map Prod.fst =
      (replaceEnvironmentVariable env.getenv (some value.1)).map (· ++ ['\x00']) := by
  rcases first_reference value.1 with hnone | ⟨before, name, after, hname, hfind⟩
  · rw [replaceInPlace_none behind hnone, replaceEnvironmentVariable_none hnone]; rfl
  have hexpand := expand_findStart env value.1
  rw [hfind] at hexpand
  have hlist := replaceEnvironmentVariable_reference env hname hfind
  rw [hlist] at hsmall ⊢
  rw [replaceInPlace_value env hexpand.1 hname hfind]
  cases henv : env.getenv name with
  | none => rfl
  | some envValue =>
    have hlength := hsmall _ (by rw [henv]; rfl)
    have hint := (le_toInt_iff (newLength before envValue after)).2 (by
      simp only [length_append] at hlength
      simp only [newLength]
      omega)
    rw [bind_some, if_neg (by omega)]
    rfl

/-- `a$(X)b`, with X=12. -/
theorem replaceInPlace_ret_twelve :
    ((replaceInPlace (fun _ => some ⟨['1', '2'], by decide⟩)
        (['a', '$', '(', 'X', ')', 'b'] ++ '\x00' :: ['c'])).ret.map Prod.fst) =
      some ['a', '1', '2', 'b', '\x00'] := by
  refine (replaceInPlace_ret (fun _ => some ⟨['1', '2'], by decide⟩)
    ⟨['a', '$', '(', 'X', ')', 'b'], by decide⟩ ['c'] fun ret hret => ?_).trans (by decide)
  cases hret
  decide

end Common.Properties

import Mathlib.Algebra.Order.Ring.Int
import Mathlib.Data.List.DropRight

/-!
# Reading by conversions

The conversions of a C format that reads a text.  White space before a number or a word
is skipped; a number is an optional sign and the digits of its base, a word what is
before the next white space.  Numbers are made in 64 bits, where a negative one wraps
and one that is too large is cut.

What was printed in a base and is followed by white space is read back
(`readNumber_toDigits`, `readNumber_signed`), and so is a word with no white space in
it, and no other (`readWord_eq_iff`).
-/

namespace Lib

open List

/-- The string in a buffer, up to its terminator. -/
def cString (buffer : List Char) : List Char := buffer.takeWhile (· ≠ '\x00')

/-! ## Conversions -/

def isSpace (c : Char) : Bool := c = ' ' || (decide (9 ≤ c.toNat) && decide (c.toNat ≤ 13))

/-- The value of a digit; what is none has the value 16. -/
def digitOf (c : Char) : Nat :=
  if '0' ≤ c ∧ c ≤ '9' then c.toNat - 48
  else if 'a' ≤ c ∧ c ≤ 'f' then c.toNat - 87
  else if 'A' ≤ c ∧ c ≤ 'F' then c.toNat - 55
  else 16

def isDigitOf (base : Nat) (c : Char) : Bool := decide (digitOf c < base)

def ofDigits (base : Nat) (s : List Char) : Nat := s.foldl (fun n c => base * n + digitOf c) 0

def skipSpace (s : List Char) : List Char := s.dropWhile isSpace

def readSign : List Char → Bool × List Char
  | '-' :: s => (true, s)
  | '+' :: s => (false, s)
  | s => (false, s)

def skipPrefix (base : Nat) (s : List Char) : List Char :=
  match s with
  | '0' :: x :: c :: rest =>
    if base = 16 ∧ (x = 'x' ∨ x = 'X') ∧ isDigitOf 16 c then c :: rest else s
  | _ => s

/-- The conversions `%u` and `%x`: the number, if there is one, and what is behind it. -/
def readNumber (base : Nat) (s : List Char) : Option (Nat × List Char) :=
  let (negative, s) := readSign (skipSpace s)
  let s := skipPrefix base s
  let digits := s.takeWhile (isDigitOf base)
  if digits = [] then none
  else
    let n := ofDigits base digits
    let n := if n ≥ 2 ^ 64 then 2 ^ 64 - 1 else if negative then (2 ^ 64 - n) % 2 ^ 64 else n
    some (n, s.dropWhile (isDigitOf base))

/-- The conversion `%s`: the word, if there is one, and what is behind it. -/
def readWord (s : List Char) : Option (List Char × List Char) :=
  let s := skipSpace s
  let word := s.takeWhile fun c => !isSpace c
  if word = [] then none else some (word, s.dropWhile fun c => !isSpace c)

/-- A number with its sign, as `%d` prints it. -/
def signed (n : Int) : List Char :=
  if n < 0 then '-' :: Nat.toDigits 10 n.natAbs else Nat.toDigits 10 n.natAbs

/-! ## White space -/

theorem skipSpace_skipSpace (s : List Char) : skipSpace (skipSpace s) = skipSpace s :=
  dropWhile_idempotent _ s

theorem readNumber_skipSpace (base : Nat) (s : List Char) :
    readNumber base (skipSpace s) = readNumber base s := by
  unfold readNumber
  rw [skipSpace_skipSpace]

theorem readWord_skipSpace (s : List Char) : readWord (skipSpace s) = readWord s := by
  unfold readWord
  rw [skipSpace_skipSpace]

/-! ## Digits -/

theorem digitOf_digitChar : ∀ d < 16, digitOf (Nat.digitChar d) = d := by decide

theorem not_space_digitChar : ∀ d < 16, isSpace (Nat.digitChar d) = false := by decide

theorem ofDigits_concat (base : Nat) (s : List Char) (c : Char) :
    ofDigits base (s ++ [c]) = base * ofDigits base s + digitOf c := by
  rw [ofDigits, foldl_append]
  rfl

section

variable {base : Nat}

theorem ofDigits_toDigits (hbase : 1 < base) (hsmall : base ≤ 16) (n : Nat) :
    ofDigits base (Nat.toDigits base n) = n := by
  induction n using Nat.strongRecOn with
  | ind n ih =>
    rw [Nat.toDigits_eq_if hbase]
    split
    · next hlt =>
      show base * 0 + digitOf (Nat.digitChar n) = n
      rw [digitOf_digitChar n (by omega), Nat.mul_zero, Nat.zero_add]
    · next hge =>
      have hmod := Nat.mod_lt n (show 0 < base by omega)
      rw [ofDigits_concat, ih _ (Nat.div_lt_self (by omega) hbase),
        digitOf_digitChar _ (by omega), Nat.div_add_mod]

variable {c : Char} {n : Nat}

theorem exists_digit_of_mem (hbase : 1 < base) (h : c ∈ Nat.toDigits base n) :
    ∃ d < base, c = Nat.digitChar d := by
  induction n using Nat.strongRecOn with
  | ind n ih =>
    rw [Nat.toDigits_eq_if hbase] at h
    split at h
    · next hlt => exact ⟨n, hlt, List.mem_singleton.mp h⟩
    · next hge =>
      rcases List.mem_append.mp h with h | h
      · exact ih _ (Nat.div_lt_self (by omega) hbase) h
      · exact ⟨n % base, Nat.mod_lt n (by omega), List.mem_singleton.mp h⟩

theorem isDigitOf_of_mem (hbase : 1 < base) (hsmall : base ≤ 16) (h : c ∈ Nat.toDigits base n) :
    isDigitOf base c := by
  obtain ⟨d, hd, rfl⟩ := exists_digit_of_mem hbase h
  rw [isDigitOf, digitOf_digitChar d (by omega)]
  exact decide_eq_true hd

theorem not_space_of_mem (hbase : 1 < base) (hsmall : base ≤ 16) (h : c ∈ Nat.toDigits base n) :
    isSpace c = false := by
  obtain ⟨d, hd, rfl⟩ := exists_digit_of_mem hbase h
  exact not_space_digitChar d (by omega)

theorem not_digit_of_space (hsmall : base ≤ 16) (h : isSpace c) : isDigitOf base c = false := by
  have hlow : c.toNat ≤ 32 := by
    rcases Bool.or_eq_true_iff.mp h with hblank | hcontrol
    · have heq : c = ' ' := of_decide_eq_true hblank
      rw [heq]
      decide
    · have hle : c.toNat ≤ 13 := of_decide_eq_true (Bool.and_eq_true_iff.mp hcontrol).2
      omega
  have hbelow : ∀ d : Char, 32 < d.toNat → ¬ d ≤ c := fun d hd hle => by
    have hval : d.toNat ≤ c.toNat := hle
    omega
  unfold isDigitOf digitOf
  rw [if_neg fun h => hbelow '0' (by decide) h.1, if_neg fun h => hbelow 'a' (by decide) h.1,
    if_neg fun h => hbelow 'A' (by decide) h.1]
  exact decide_eq_false (by omega)

/-! ## Numbers -/

variable {rest : List Char}

section

variable (hbase : 1 < base)

include hbase

section

variable (hsmall : base ≤ 16)

include hsmall

theorem span_toDigits (n : Nat) (hrest : ∀ c ∈ rest.head?, isSpace c) :
    (Nat.toDigits base n ++ rest).takeWhile (isDigitOf base) = Nat.toDigits base n ∧
    (Nat.toDigits base n ++ rest).dropWhile (isDigitOf base) = rest := by
  have hdigits : ∀ c ∈ Nat.toDigits base n, isDigitOf base c :=
    fun c hc => isDigitOf_of_mem hbase hsmall hc
  rw [takeWhile_append_of_pos hdigits, dropWhile_append_of_pos hdigits]
  cases rest with
  | nil => exact ⟨append_nil _, rfl⟩
  | cons c rest =>
    have hc := not_digit_of_space hsmall (hrest c rfl)
    rw [takeWhile_cons_of_neg (by rw [hc]; decide), append_nil,
      dropWhile_cons_of_neg (by rw [hc]; decide)]
    exact ⟨rfl, rfl⟩

theorem skipPrefix_toDigits (n : Nat) (hrest : ∀ c ∈ rest.head?, isSpace c) :
    skipPrefix base (Nat.toDigits base n ++ rest) = Nat.toDigits base n ++ rest := by
  have hnone : ∀ {x c : Char} {more : List Char},
      Nat.toDigits base n ++ rest = '0' :: x :: c :: more → ¬ (x = 'x' ∨ x = 'X') := by
    intro x c more heq hx
    have hplain : isDigitOf base x = false ∧ isSpace x = false := by
      rcases hx with rfl | rfl
      · exact ⟨decide_eq_false (by rw [show digitOf 'x' = 16 from rfl]; omega), rfl⟩
      · exact ⟨decide_eq_false (by rw [show digitOf 'X' = 16 from rfl]; omega), rfl⟩
    obtain ⟨d, ds, hds⟩ := exists_cons_of_ne_nil (Nat.toDigits_ne_nil (n := n) (b := base))
    have hmem : ∀ y ∈ ds, isDigitOf base y := fun y hy =>
      isDigitOf_of_mem hbase hsmall (hds ▸ mem_cons_of_mem d hy)
    rw [hds, cons_append] at heq
    have htail := (List.cons.inj heq).2
    cases ds with
    | nil =>
      rw [nil_append] at htail
      have hspace := hrest x (by rw [htail]; rfl)
      rw [hplain.2] at hspace
      exact Bool.false_ne_true hspace
    | cons y ds =>
      have hy := hmem y mem_cons_self
      rw [(List.cons.inj htail).1, hplain.1] at hy
      exact Bool.false_ne_true hy
  unfold skipPrefix
  split
  · next x c more heq => rw [if_neg fun h => hnone heq h.2.1]
  · rfl

theorem readSign_toDigits (n : Nat) :
    readSign (skipSpace (Nat.toDigits base n ++ rest)) = (false, Nat.toDigits base n ++ rest) := by
  obtain ⟨d, ds, hds⟩ := exists_cons_of_ne_nil (Nat.toDigits_ne_nil (n := n) (b := base))
  have hd : d ∈ Nat.toDigits base n := hds ▸ mem_cons_self
  have hdigit := isDigitOf_of_mem hbase hsmall hd
  have hskip : skipSpace (Nat.toDigits base n ++ rest) = Nat.toDigits base n ++ rest := by
    rw [skipSpace, hds, cons_append,
      dropWhile_cons_of_neg (by rw [not_space_of_mem hbase hsmall hd]; decide)]
  have hplain : ∀ x, digitOf x = 16 → d ≠ x := by
    rintro x hx rfl
    have hlt := of_decide_eq_true hdigit
    omega
  rw [hskip, hds]
  unfold readSign
  split
  · next heq => exact absurd (List.cons.inj heq).1 (hplain '-' rfl)
  · next heq => exact absurd (List.cons.inj heq).1 (hplain '+' rfl)
  · rfl

/-- **A number that was printed is read back.** -/
theorem readNumber_toDigits (hn : n < 2 ^ 64) (hrest : ∀ c ∈ rest.head?, isSpace c) :
    readNumber base (Nat.toDigits base n ++ rest) = some (n, rest) := by
  obtain ⟨htake, hdrop⟩ := span_toDigits hbase hsmall n hrest
  rw [readNumber, readSign_toDigits hbase hsmall]
  dsimp only
  rw [skipPrefix_toDigits hbase hsmall n hrest, htake, hdrop, if_neg Nat.toDigits_ne_nil,
    ofDigits_toDigits hbase hsmall, if_neg (by omega), if_neg Bool.false_ne_true]

end

end

/-- **A number with a sign is read back**, in 64 bits. -/
theorem readNumber_signed {n : Int} (hlow : -2 ^ 64 < n) (hhigh : n < 2 ^ 64)
    (hrest : ∀ c ∈ rest.head?, isSpace c) :
    readNumber 10 (signed n ++ rest) = some ((n % 2 ^ 64).toNat, rest) := by
  unfold signed
  split
  · next hneg =>
    obtain ⟨htake, hdrop⟩ := span_toDigits (by decide : 1 < 10) (by decide) n.natAbs hrest
    rw [readNumber, cons_append]
    have hsign : readSign (skipSpace ('-' :: (Nat.toDigits 10 n.natAbs ++ rest))) =
        (true, Nat.toDigits 10 n.natAbs ++ rest) := rfl
    rw [hsign]
    dsimp only
    rw [skipPrefix_toDigits (by decide) (by decide) _ hrest, htake,
      if_neg Nat.toDigits_ne_nil, ofDigits_toDigits (by decide) (by decide), if_neg (by omega),
      if_pos rfl]
    congr 2
    omega
  · next hpos =>
    rw [readNumber_toDigits (by decide) (by decide) (by omega) hrest]
    congr 2
    omega

end

/-! ## Words -/

variable {s : List Char}

theorem not_space_of_readWord {word rest : List Char} (h : readWord s = some (word, rest)) :
    ∀ c ∈ word, isSpace c = false := by
  unfold readWord at h
  dsimp only at h
  split at h
  · cases h
  · have hword := (Prod.mk.inj (Option.some.inj h)).1
    intro c hc
    rw [← hword] at hc
    have hplain := mem_takeWhile_imp hc
    simpa using hplain

/-- **A word is read as it is just if there is no white space in it.** -/
theorem readWord_eq_iff (hne : s ≠ []) :
    (∃ rest, readWord s = some (s, rest)) ↔ ∀ c ∈ s, isSpace c = false := by
  constructor
  · rintro ⟨rest, h⟩; exact not_space_of_readWord h
  intro h
  obtain ⟨c, s, rfl⟩ := exists_cons_of_ne_nil hne
  have hskip : skipSpace (c :: s) = c :: s :=
    dropWhile_cons_of_neg (by rw [h c mem_cons_self]; decide)
  have hword : (c :: s).takeWhile (fun c => !isSpace c) = c :: s :=
    List.takeWhile_eq_self_iff.mpr fun d hd => by rw [h d hd]; rfl
  refine ⟨(c :: s).dropWhile fun c => !isSpace c, ?_⟩
  unfold readWord
  dsimp only
  rw [hskip, hword, if_neg (cons_ne_nil c s)]

end Lib

import Mathlib.Data.List.MinMax

/-!
# Scanners

A scanner goes through a text match by match: of the rules that are active, the one with
the longest match is taken, the earliest of these, and its action changes the state, which
says what rules are active next.  A character that no rule matches is taken by a last
rule, so a match of nothing is never taken and the scan ends (`Scanner.run_isSome`).  What
every action keeps, a scan keeps (`Scanner.run_keeps`).
-/

namespace Lib

variable {α τ σ : Type}

inductive Pattern (α : Type)
  | one (p : α → Bool)
  | many (p : α → Bool)
  | opt (p : α → Bool)
  | seq (r s : Pattern α)
  | alt (r s : Pattern α)

def Pattern.lengths : Pattern α → List α → List Nat
  | one _, [] => []
  | one p, c :: _ => if p c then [1] else []
  | many p, text => List.range ((text.takeWhile p).length + 1)
  | opt _, [] => [0]
  | opt p, c :: _ => if p c then [0, 1] else [0]
  | seq r s, text => (r.lengths text).flatMap fun n => (s.lengths (text.drop n)).map (n + ·)
  | alt r s, text => r.lengths text ++ s.lengths text

def Pattern.longest (r : Pattern α) (text : List α) : Option Nat := (r.lengths text).max?

/-- The better of the match so far and the match of a later rule. -/
def better (text : List α) (best : Option (τ × Nat)) (rule : τ × Pattern α) : Option (τ × Nat) :=
  match rule.2.longest text, best with
  | none, _ => best
  | some n, none => some (rule.1, n)
  | some n, some (t, m) => if m < n then some (rule.1, n) else some (t, m)

/-- The rule that is taken, and the length of its match.  `other` takes one character. -/
def select (rules : List (τ × Pattern α)) (other : τ) (text : List α) : τ × Nat :=
  match rules.foldl (better text) none with
  | some (t, n) => if 0 < n then (t, n) else (other, 1)
  | none => (other, 1)

theorem select_pos (rules : List (τ × Pattern α)) (other : τ) (text : List α) :
    0 < (select rules other text).2 := by
  unfold select
  split
  · split
    · assumption
    · exact Nat.one_pos
  · exact Nat.one_pos

variable {best : Option (τ × Nat)} {n : Nat} {t : τ}

theorem better_eq {text : List α} {rule : τ × Pattern α} (h : better text best rule = some (t, n)) :
    best = some (t, n) ∨ t = rule.1 := by
  unfold better at h
  split at h
  · exact .inl h
  · rw [Option.some.injEq, Prod.mk.injEq] at h; exact .inr h.1.symm
  · split at h
    · rw [Option.some.injEq, Prod.mk.injEq] at h; exact .inr h.1.symm
    · exact .inl h

theorem mem_of_foldl_better {rules : List (τ × Pattern α)} {text : List α}
    (h : rules.foldl (better text) best = some (t, n)) :
    best = some (t, n) ∨ t ∈ rules.map Prod.fst := by
  induction rules generalizing best with
  | nil => exact .inl h
  | cons rule rules ih =>
    rw [List.map_cons, List.mem_cons]
    rcases ih h with hbest | hmem
    · rcases better_eq hbest with hbest | ht
      · exact .inl hbest
      · exact .inr (.inl ht)
    · exact .inr (.inr hmem)

theorem select_mem (rules : List (τ × Pattern α)) (other : τ) (text : List α) :
    (select rules other text).1 = other ∨ (select rules other text).1 ∈ rules.map Prod.fst := by
  unfold select
  split
  · rename_i t n hbest
    split
    · rcases mem_of_foldl_better hbest with h | h
      · cases h
      · exact .inr h
    · exact .inl rfl
  · exact .inl rfl

/-- A scanner: the rules that are active, which may depend on being at the start of a line,
and their actions. -/
structure Scanner (α τ σ : Type) where
  rules : σ → Bool → List (τ × Pattern α)
  other : τ
  act : τ → List α → σ → σ
  newline : α → Bool

namespace Scanner

variable (sc : Scanner α τ σ)

/-- Scan a text, `none` where the turns do not suffice. -/
def run : Nat → Bool → List α → σ → Option σ
  | _, _, [], s => some s
  | 0, _, _ :: _, _ => none
  | fuel + 1, bol, c :: text, s =>
    let taken := select (sc.rules s bol) sc.other (c :: text)
    let yytext := (c :: text).take taken.2
    run fuel (yytext.getLast?.elim bol sc.newline) ((c :: text).drop taken.2)
      (sc.act taken.1 yytext s)

variable {sc}
variable {bol : Bool} {fuel : Nat} {s s' : σ}

theorem run_isSome {text : List α} (h : text.length ≤ fuel) : (sc.run fuel bol text s).isSome := by
  induction fuel generalizing bol text s with
  | zero =>
    have hnil : text = [] := List.eq_nil_of_length_eq_zero (Nat.le_zero.1 h)
    subst hnil
    rfl
  | succ fuel ih =>
    cases text with
    | nil => rfl
    | cons c text =>
      refine ih ?_
      have hpos := select_pos (sc.rules s bol) sc.other (c :: text)
      rw [List.length_drop]
      omega

theorem run_keeps {P : σ → Prop}
    (hact : ∀ t bol yytext s, t = sc.other ∨ t ∈ (sc.rules s bol).map Prod.fst → P s →
      P (sc.act t yytext s))
    {text : List α} (hs : P s) (h : sc.run fuel bol text s = some s') : P s' := by
  induction fuel generalizing bol text s with
  | zero =>
    cases text with
    | nil => rw [run, Option.some.injEq] at h; exact h ▸ hs
    | cons c text => exact absurd h (by simp [run])
  | succ fuel ih =>
    cases text with
    | nil => rw [run, Option.some.injEq] at h; exact h ▸ hs
    | cons c text =>
      have hmem := select_mem (sc.rules s bol) sc.other (c :: text)
      exact ih (hact _ bol _ s hmem hs) h

theorem run_turn {bol' : Bool} {c : α} {text text' : List α}
    (h : select (sc.rules s bol) sc.other (c :: text) = (t, n)) (htext : (c :: text).drop n = text')
    (hbol : ((c :: text).take n).getLast?.elim bol sc.newline = bol')
    (hact : sc.act t ((c :: text).take n) s = s') :
    sc.run (fuel + 1) bol (c :: text) s = sc.run fuel bol' text' s' := by
  rw [run, h, ← htext, ← hbol, ← hact]

end Scanner

end Lib

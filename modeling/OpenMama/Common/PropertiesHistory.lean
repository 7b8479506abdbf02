import OpenMama.Common.Properties

/-!
# What an import leaves to the next

The properties that an import adds depend on its own text alone as long as it begins in the
start condition `INITIAL`: then nothing of a key or a value is left over.  In the other
start conditions there is a text that shows the difference.  A text leaves `INITIAL` unless it
ends inside a key or an empty value (`yylex_initial_iff`).
-/

namespace Common.Properties

open Lib

variable {getenv : Text → Option Text}

/-- After these imports, the next one adds what it adds as the first. -/
def Independent (getenv : Text → Option Text) (history : List Import) : Prop :=
  ∀ last : Import, ∃ g before alone, after getenv {} history = some g ∧
    last.run getenv g = some before ∧ last.run getenv {} = some alone ∧
    before.added = alone.added

/-! ## The globals -/

/-- Nothing is held in `INITIAL`, a key is under way in the others, and no value in `key`. -/
def Globals.Clean (g : Globals) : Prop :=
  match g.start with
  | .initial => g.curKey = none ∧ g.curValue = none
  | .key => g.curKey.isSome ∧ g.curValue = none
  | .value => g.curKey.isSome

variable {g : Globals} {s : Lexer}

theorem Globals.Clean.eq_fresh (h : g.Clean) (hstart : g.start = .initial) : g = {} := by
  obtain ⟨start, curKey, curValue⟩ := g
  cases hstart
  obtain ⟨rfl, rfl⟩ : curKey = none ∧ curValue = none := h
  rfl

/-- Where the rules that touch the key or the value can be taken. -/
theorem active {rule : Rule} {start : StartCondition} {bol : Bool}
    (h : rule = .echo ∨ rule ∈ (rules start bol).map Prod.fst) :
    match rule with
    | .keyText | .keyEscape => start ≠ .value
    | .assign => start = .key
    | .valueText | .valueEscape => start = .value
    | _ => True := by
  revert h
  cases rule <;> cases start <;> cases bol <;> decide

theorem act_clean {rule : Rule} {bol : Bool} {yytext : Text}
    (hrule : rule = .echo ∨ rule ∈ (rules s.start bol).map Prod.fst) (hs : s.toGlobals.Clean) :
    (act getenv rule yytext s).toGlobals.Clean := by
  obtain ⟨⟨start, curKey, curValue⟩, added⟩ := s
  have hactive := active hrule
  cases rule with
  | comment | blank | indent | continuation | echo => exact hs
  | valueEnd => exact ⟨rfl, rfl⟩
  | keyText | keyEscape =>
    cases start with
    | initial | key => exact ⟨rfl, hs.2⟩
    | value => exact absurd rfl hactive
  | assign =>
    cases hactive
    exact hs.1
  | valueText | valueEscape =>
    cases hactive
    exact hs

theorem atEOF_clean (hs : s.toGlobals.Clean) : (atEOF s).toGlobals.Clean := by
  unfold atEOF
  split
  · exact ⟨rfl, rfl⟩
  · exact hs

theorem run_clean {text : Text} (hg : g.Clean)
    (h : (scanner getenv).run text.length true text { g with } = some s) : s.toGlobals.Clean :=
  Scanner.run_keeps (P := (·.toGlobals.Clean)) (fun _ _ _ _ ht hs => act_clean ht hs) hg h

theorem yylex_clean {text : Text} (hg : g.Clean) (h : yylex getenv text g = some s) :
    s.toGlobals.Clean := by
  obtain ⟨s', hrun, rfl⟩ := Option.map_eq_some_iff.1 h
  exact atEOF_clean (run_clean hg hrun)

/-- A text leaves the start condition `INITIAL` unless it ends inside a key, or inside a value that
is still empty. -/
theorem yylex_initial_iff {text : Text} (hg : g.Clean)
    (h : (scanner getenv).run text.length true text { g with } = some s) :
    (yylex getenv text g).map (·.start) = some .initial ↔
      ¬ (s.start = .key ∨ s.start = .value ∧ s.curValue = none) := by
  have hclean := run_clean hg h
  rw [yylex, h, Option.map_some, Option.map_some, Option.some.injEq]
  obtain ⟨⟨start, curKey, curValue⟩, added⟩ := s
  cases start with
  | initial =>
    obtain ⟨rfl, rfl⟩ : curKey = none ∧ curValue = none := hclean
    simp [atEOF]
  | key =>
    obtain ⟨-, rfl⟩ : curKey.isSome ∧ curValue = none := hclean
    simp [atEOF]
  | value =>
    have hkey : curKey.isSome := hclean
    cases curValue with
    | none => simp [atEOF]
    | some value => simp [atEOF, hkey]

theorem yylex_isSome (text : Text) (g : Globals) : ∃ s, yylex getenv text g = some s := by
  have hrun : ((scanner getenv).run text.length true text { g with }).isSome :=
    Scanner.run_isSome (Nat.le_refl text.length)
  obtain ⟨s, hs⟩ := Option.isSome_iff_exists.1 hrun
  exact ⟨atEOF s, by rw [yylex, hs]; rfl⟩

/-! ## The imports -/

theorem Import.run_isSome (i : Import) (g : Globals) : ∃ s, i.run getenv g = some s := by
  cases i with
  | file contents =>
    cases contents with
    | none => exact ⟨_, rfl⟩
    | some contents => exact yylex_isSome contents g
  | string text => exact yylex_isSome (Lib.cString text) g

theorem Import.run_clean {i : Import} (hg : g.Clean) (h : i.run getenv g = some s) :
    s.toGlobals.Clean := by
  cases i with
  | file contents =>
    cases contents with
    | none => rw [Import.run, Option.some.injEq] at h; exact h ▸ hg
    | some contents => exact yylex_clean hg h
  | string text => exact yylex_clean hg h

theorem after_clean (history : List Import) (hg : g.Clean) :
    ∃ g', after getenv g history = some g' ∧ g'.Clean := by
  induction history generalizing g with
  | nil => exact ⟨g, rfl, hg⟩
  | cons i history ih =>
    obtain ⟨s, hs⟩ : ∃ s, i.run getenv g = some s := i.run_isSome g
    obtain ⟨g', hafter, hclean⟩ := ih (Import.run_clean hg hs)
    refine ⟨g', ?_, hclean⟩
    rwa [after, List.foldlM_cons, hs]

/-! ## A text that shows what is left over -/

/-- A comment and a property: the comment is none to a scan that is in a key or a value. -/
def probe : Text := ['#', '\n', 'x', ':', 'y', '\n']

theorem run_property {start : StartCondition} (hstart : start ≠ .value)
    (curKey curValue : Option Text) (added : List Pair) (fuel : Nat) :
    ∃ value, (scanner getenv).run (fuel + 4) true ['x', ':', 'y', '\n'] ⟨⟨start, curKey, curValue⟩,
      added⟩ =
      some ⟨{}, added ++ [(some (curKey.getD [] ++ ['x']), value)]⟩ := by
  have hkey : select (rules start true) .echo ['x', ':', 'y', '\n'] = (.keyText, 1) := by
    cases start with
    | initial => decide
    | key => decide
    | value => exact absurd rfl hstart
  have hassign : select (rules .key false) .echo [':', 'y', '\n'] = (.assign, 1) := by decide
  have hvalue : select (rules .value false) .echo ['y', '\n'] = (.valueText, 1) := by decide
  have hend : select (rules .value false) .echo ['\n'] = (.valueEnd, 1) := by decide
  refine ⟨(replaceEnvironmentVariable getenv (concatString curValue ['y'])).or
    (concatString curValue ['y']), ?_⟩
  simp [Scanner.run, scanner, hkey, hassign, hvalue, hend, act, concatString, Lib.cString]

/-- The names that the probe adds, from each start condition. -/
def probeNames (g : Globals) : List (Option Text) :=
  match g.start with
  | .initial => [some (g.curKey.getD [] ++ ['x'])]
  | .key => [some (g.curKey.getD [] ++ ['#', 'x'])]
  | .value => [g.curKey, some ['x']]

theorem probe_names (g : Globals) : ∃ s, yylex getenv probe g = some s ∧
    s.added.map Prod.fst = probeNames g := by
  obtain ⟨start, curKey, curValue⟩ := g
  let line : Text := ['x', ':', 'y', '\n']
  cases start with
  | initial =>
    have hcomment : select (rules .initial true) .echo probe = (.comment, 2) := by decide
    have hfirst : (scanner getenv).run (5 + 1) true probe ⟨⟨.initial, curKey, curValue⟩, []⟩ =
        (scanner getenv).run (1 + 4) true line ⟨⟨.initial, curKey, curValue⟩, []⟩ :=
      Scanner.run_turn hcomment rfl rfl rfl
    have hstart : StartCondition.initial ≠ .value := by decide
    obtain ⟨value, hrun⟩ := run_property hstart curKey curValue [] 1
    have hscan := congrArg (Option.map atEOF) (hfirst.trans hrun)
    exact ⟨_, hscan, rfl⟩
  | key =>
    have htext : select (rules .key true) .echo probe = (.keyText, 1) := by decide
    have hskip : select (rules .key false) .echo ('\n' :: line) = (.echo, 1) := by decide
    let s : Lexer := ⟨⟨.key, some (curKey.getD [] ++ ['#']), curValue⟩, []⟩
    have hfirst : (scanner getenv).run (5 + 1) true probe ⟨⟨.key, curKey, curValue⟩, []⟩ =
        (scanner getenv).run (4 + 1) false ('\n' :: line) s := Scanner.run_turn htext rfl rfl rfl
    have hsecond : (scanner getenv).run (4 + 1) false ('\n' :: line) s =
        (scanner getenv).run (0 + 4) true line s := Scanner.run_turn hskip rfl rfl rfl
    have hstart : StartCondition.key ≠ .value := by decide
    obtain ⟨value, hrun⟩ := run_property hstart (some (curKey.getD [] ++ ['#'])) curValue [] 0
    have hscan := congrArg (Option.map atEOF) (hfirst.trans (hsecond.trans hrun))
    refine ⟨_, hscan, ?_⟩
    simp [probeNames, atEOF]
  | value =>
    have htext : select (rules .value true) .echo probe = (.valueText, 1) := by decide
    have hend : select (rules .value false) .echo ('\n' :: line) = (.valueEnd, 1) := by decide
    let new := concatString curValue ['#']
    let pair : Pair := (curKey, (replaceEnvironmentVariable getenv new).or new)
    have hfirst : (scanner getenv).run (5 + 1) true probe ⟨⟨.value, curKey, curValue⟩, []⟩ =
        (scanner getenv).run (4 + 1) false ('\n' :: line) ⟨⟨.value, curKey, new⟩, []⟩ :=
      Scanner.run_turn htext rfl rfl rfl
    have hsecond : (scanner getenv).run (4 + 1) false ('\n' :: line) ⟨⟨.value, curKey, new⟩, []⟩ =
        (scanner getenv).run (0 + 4) true line ⟨{}, [pair]⟩ := Scanner.run_turn hend rfl rfl rfl
    have hstart : StartCondition.initial ≠ .value := by decide
    obtain ⟨value, hrun⟩ := run_property hstart none none [pair] 0
    have hscan := congrArg (Option.map atEOF) (hfirst.trans (hsecond.trans hrun))
    refine ⟨_, hscan, ?_⟩
    simp [probeNames, atEOF, pair]

/-! ## Independence -/

theorem probeNames_ne (h : g.start ≠ .initial) : probeNames g ≠ probeNames {} := by
  obtain ⟨start, curKey, curValue⟩ := g
  cases start with
  | initial => exact absurd rfl h
  | key =>
    intro hnames
    have hlen := congrArg (fun names => (names.map fun n => (n.getD []).length).sum) hnames
    simp [probeNames] at hlen
  | value => simp [probeNames]

/-- An import adds its own properties after exactly the imports that end in `INITIAL`. -/
theorem imports_independent_iff (getenv : Text → Option Text) (history : List Import) :
    Independent getenv history ↔ ∃ g, after getenv {} history = some g ∧ g.start = .initial := by
  have hfresh : Globals.Clean {} := ⟨rfl, rfl⟩
  obtain ⟨g, hg, hclean⟩ : ∃ g, after getenv {} history = some g ∧ g.Clean :=
    after_clean history hfresh
  constructor
  · intro h
    refine ⟨g, hg, ?_⟩
    by_contra hstart
    obtain ⟨g', before, alone, hafter, hbefore, halone, hadded⟩ := h (.file (some probe))
    rw [hg, Option.some.injEq] at hafter
    subst hafter
    obtain ⟨s, hs, hnames⟩ : ∃ s, yylex getenv probe g = some s ∧ _ := probe_names g
    obtain ⟨s₀, hs₀, hnames₀⟩ : ∃ s, yylex getenv probe {} = some s ∧ _ := probe_names {}
    rw [Import.run, hs, Option.some.injEq] at hbefore
    rw [Import.run, hs₀, Option.some.injEq] at halone
    rw [hbefore] at hnames
    rw [halone] at hnames₀
    rw [hadded, hnames₀] at hnames
    exact probeNames_ne hstart hnames.symm
  · rintro ⟨g', hg', hstart⟩ last
    rw [hg, Option.some.injEq] at hg'
    subst hg'
    have heq := hclean.eq_fresh hstart
    obtain ⟨s, hs⟩ : ∃ s, last.run getenv {} = some s := last.run_isSome {}
    exact ⟨g, s, s, hg, by rw [heq, hs], hs, rfl⟩

/-- A key with no value and no end of line is continued by the next text. -/
theorem not_independent : ¬ Independent (fun _ => none) [.string ['a']] := by
  intro h
  obtain ⟨g, before, alone, hafter, hbefore, halone, hadded⟩ := h (.string ['b', '=', 'c'])
  have hg : after (fun _ => none) {} [.string ['a']] = some ⟨.key, some ['a'], none⟩ := by decide
  rw [hg, Option.some.injEq] at hafter
  have hab : (Import.run (fun _ => none) ⟨.key, some ['a'], none⟩ (.string ['b', '=', 'c'])).map
      (·.added) = some [(some ['a', 'b'], some ['c'])] := by decide
  have hb : (Import.run (fun _ => none) {} (.string ['b', '=', 'c'])).map (·.added) =
      some [(some ['b'], some ['c'])] := by decide
  rw [hafter, hbefore, Option.map_some] at hab
  rw [halone, Option.map_some, ← hadded, hab] at hb
  cases hb

end Common.Properties

import OpenMama.Lib.Scanf
import OpenMama.Lib.Scanner

/-!
# Properties files

The rules of `properties.l`, in their order, and the imports that run them.  A text is a
list of bytes; a C string stops at the byte zero.  The start condition, `curKey` and
`curValue` outlive an import.
-/

namespace Common.Properties

open Lib

abbrev Text := List Char

/-- The start conditions: `%x key` and `%x value` beside `INITIAL`. -/
inductive StartCondition
  | initial
  | key
  | value
  deriving DecidableEq, Repr

structure Globals where
  start : StartCondition := .initial
  curKey : Option Text := none
  curValue : Option Text := none
  deriving DecidableEq, Repr

/-- The name and the value of a call of `propertiesImpl_AddProperty`. -/
abbrev Pair := Option Text × Option Text

/-- A scan: the globals, and the properties added so far. -/
structure Lexer extends Globals where
  added : List Pair := []

/-! ## The rules -/

inductive Rule
  | comment
  | blank
  | indent
  | keyText
  | assign
  | valueText
  | continuation
  | valueEnd
  | keyEscape
  | valueEscape
  | echo
  deriving DecidableEq, Repr

def ws (c : Char) : Bool := c = ' ' || c = '\t'

def dot (c : Char) : Bool := c ≠ '\n'

def newline : Pattern Char :=
  .alt (.one (· = '\n')) (.seq (.one (· = '\r')) (.one (· = '\n')))

/-- A line of the rules section: where it is active, whether it is anchored to the start of
a line, and its pattern. -/
structure Line where
  rule : Rule
  conditions : List StartCondition
  anchored : Bool
  pattern : Pattern Char

/-- `^[#!].*{NEWLINE}` down to `<value>\\.`. -/
def lines : List Line :=
  [⟨.comment, [.initial], true, .seq (.one fun c => c = '#' || c = '!') (.seq (.many dot) newline)⟩,
   ⟨.blank, [.initial], true, .seq (.many ws) newline⟩,
   ⟨.indent, [.initial, .key, .value], true, .many ws⟩,
   ⟨.keyText, [.initial, .key], false, .many fun c => c ∉ [' ', '\t', ':', '=', '\r', '\n', '\\']⟩,
   ⟨.assign, [.key], false, .seq (.many ws) (.seq (.opt fun c => c = ':' || c = '=') (.many ws))⟩,
   ⟨.valueText, [.value], false, .many fun c => c ∉ ['\\', '\r', '\n', ' ', '\t']⟩,
   ⟨.continuation, [.value], false,
     .seq (.one (· = '\\')) (.seq newline (.many fun c => c = '\t' || c = ' '))⟩,
   ⟨.valueEnd, [.value], false, newline⟩,
   ⟨.keyEscape, [.initial, .key], false, .seq (.one (· = '\\')) (.one dot)⟩,
   ⟨.valueEscape, [.value], false, .seq (.one (· = '\\')) (.one dot)⟩]

def rules (start : StartCondition) (bol : Bool) : List (Rule × Pattern Char) :=
  (lines.filter fun l => start ∈ l.conditions && (!l.anchored || bol)).map fun l =>
    (l.rule, l.pattern)

/-! ## The actions -/

def concatString (dest : Option Text) (string : Text) : Option Text :=
  some (dest.getD [] ++ Lib.cString string)

def concatEscape (toWhat : Option Text) (escape : Char) : Option Text :=
  concatString toWhat [match escape with
    | 'n' => '\n'
    | 'r' => '\r'
    | 't' => '\t'
    | '\\' => '\\'
    | c => c]

/-- The text before the first `$(`, and the text after it. -/
def findStart : Text → Option (Text × Text)
  | [] => none
  | '$' :: '(' :: rest => some ([], rest)
  | c :: text => (findStart text).map fun found => (c :: found.1, found.2)

/-- `propertiesImpl_ReplaceEnvironmentVariable`. -/
def replaceEnvironmentVariable (getenv : Text → Option Text) (value : Option Text) :
    Option Text := do
  let (before, variableStart) ← findStart (← value)
  let name := variableStart.takeWhile (· ≠ ')')
  match variableStart.dropWhile (· ≠ ')') with
  | [] => none
  | _ :: after =>
    let envValue ← getenv name
    some (before ++ envValue ++ after)

def act (getenv : Text → Option Text) (rule : Rule) (yytext : Text) (s : Lexer) : Lexer :=
  match rule with
  | .comment | .blank | .indent | .continuation | .echo => s
  | .keyText => { s with curKey := concatString s.curKey yytext, start := .key }
  | .assign => { s with start := .value }
  | .valueText => { s with curValue := concatString s.curValue yytext }
  | .valueEnd =>
    let curValue := (replaceEnvironmentVariable getenv s.curValue).or s.curValue
    { start := .initial, added := s.added ++ [(s.curKey, curValue)] }
  | .keyEscape => { s with curKey := concatEscape s.curKey (yytext.getD 1 '\x00'), start := .key }
  | .valueEscape => { s with curValue := concatEscape s.curValue (yytext.getD 1 '\x00') }

/-- The action of `<<EOF>>`. -/
def atEOF (s : Lexer) : Lexer :=
  if s.curKey.isSome && s.curValue.isSome then
    { start := .initial, added := s.added ++ [(s.curKey, s.curValue)] }
  else
    s

def scanner (getenv : Text → Option Text) : Scanner Char Rule Lexer where
  rules s := rules s.start
  other := .echo
  act := act getenv
  newline c := c = '\n'

/-- `yylex`, on a new buffer. -/
def yylex (getenv : Text → Option Text) (text : Text) (g : Globals) : Option Lexer :=
  ((scanner getenv).run text.length true text { g with }).map atEOF

/-! ## The imports -/

inductive Import
  /-- `propertiesImpl_ImportPropertiesFromFile`, on a file that is opened or not. -/
  | file (contents : Option Text)
  /-- `propertiesImpl_AddString`. -/
  | string (text : Text)
  deriving Repr

/-- The globals after an import, and the properties that it added. -/
def Import.run (getenv : Text → Option Text) (g : Globals) : Import → Option Lexer
  | file none => some { g with }
  | file (some contents) => yylex getenv contents g
  | string text => yylex getenv (Lib.cString text) g

def after (getenv : Text → Option Text) (g : Globals) (history : List Import) : Option Globals :=
  history.foldlM (fun g i => (i.run getenv g).map Lexer.toGlobals) g

end Common.Properties

import RomAsm.Capacity
import RomAsm.Location
import RomAsm.Machine
import RomAsm.Text.Spaced

/-!
# What can be wrong with a program

A `Problem` is one thing that can be wrong with a program, as data. It has a category, a message and
sometimes a hint. A `Diagnostic` is a problem with the place where it was found and, where it is
known, the line of source text at that place; `Diagnostic.text` is what the user reads.
-/

namespace RomAsm

/-- The kinds of problems. -/
inductive Category where
  /-- A problem of no more special kind. -/
  | general
  /-- The text or the order of the symbols is malformed. -/
  | malformed
  /-- A name has no value. -/
  | undefinedName
  /-- A name is defined twice. -/
  | duplicateName
  /-- An instruction does not have the mode. -/
  | addressingMode
  /-- An expression has no value, or one that does not fit. -/
  | expression
  /-- A directive is used wrongly. -/
  | directive
  /-- The address counter would move back; a special case of `directive`. -/
  | relocation
  deriving DecidableEq, Repr

/-- The more general category that a category belongs to. -/
def Category.parent? : Category → Option Category
  | .general => none
  | .relocation => some .directive
  | _ => some .general

/-- A problem with a program. -/
inductive Problem where
  /-- A problem in the words of whoever reports it. -/
  | stated (category : Category) (message : String) (hint : Option String)
  | unterminatedComment
  | unterminatedString
  | unknownMarker (text : String)
  | unknownDirectiveWord (text : String)
  | invalidNumber (text : String)
  | invalidIdentifier (text : String)
  /-- An instruction that needs an operand has none. -/
  | operandRequired (mnemonic : String)
  /-- An instruction does not have a mode; it has the listed ones. Modes are given by name. -/
  | unsupportedMode (mnemonic mode : String) (supported : List String)
  /-- A directive that needs an operand has none. -/
  | directiveOperandRequired (directive : String)
  | notLiteral (directive operand : String)
  | notString (directive operand : String)
  | negativeData (operand : String)
  | negativeReserve (operand : String)
  | negativeOrigin (operand : String)
  /-- A directive that no rule of layout covers. -/
  | unknownDirective (name : String)
  /-- A directive that no rule of encoding covers. -/
  | unencodableDirective (name : String)
  | strayColon
  | duplicateName (name : String) (first : Option Location)
  /-- The names that no round of resolution could give a value, and the names that look like the
  first of them. A hint may be given in place of the one made from those. -/
  | undefinedNames (names similar : List String) (hint : Option String)
  | constantWithoutValue (name : String)
  | divisionByZero
  | moduloByZero
  | unknownOperator (text : String)
  | unevaluated (operator : String)
  | unexpected (text : String)
  /-- An operand must be a number; `none` stands for the end of the program. -/
  | numberExpected (owner : String) (found : Option String)
  | originBehind (target current : Int)
  | valueTooWide (value : Int) (bits : Nat)
  | characterTooWide (c : Char)
  deriving DecidableEq, Repr

namespace Problem

/-- The category of a problem. -/
def category : Problem → Category
  | stated category _ _ => category
  | unterminatedComment | unterminatedString | unknownMarker _ | unknownDirectiveWord _
  | invalidNumber _ | invalidIdentifier _ | operandRequired _ | strayColon | constantWithoutValue _
  | unexpected _ | numberExpected _ _ | unencodableDirective _ => .malformed
  | unsupportedMode _ _ _ => .addressingMode
  | directiveOperandRequired _ | notLiteral _ _ | notString _ _ | negativeData _ | negativeReserve _
  | negativeOrigin _ | unknownDirective _ => .directive
  | originBehind _ _ => .relocation
  | duplicateName _ _ => .duplicateName
  | undefinedNames _ _ _ => .undefinedName
  | divisionByZero | moduloByZero | unknownOperator _ | unevaluated _ | valueTooWide _ _
  | characterTooWide _ => .expression

/-- Names in single quotes, with commas between them. -/
def nameList (names : List String) : String :=
  Text.join ", " (names.map fun name => "'" ++ name ++ "'")

/-- The wording of a problem. -/
def message : Problem → String
  | stated _ message _ => message
  | unterminatedComment => "unterminated block comment"
  | unterminatedString => "unterminated string literal"
  | unknownMarker text => "unknown addressing marker '" ++ text ++ "'"
  | unknownDirectiveWord text => "unknown directive '" ++ text ++ "'"
  | invalidNumber text => "invalid number '" ++ text ++ "'"
  | invalidIdentifier text => "invalid identifier '" ++ text ++ "'"
  | operandRequired mnemonic => "'" ++ mnemonic ++ "' requires an operand"
  | unsupportedMode mnemonic mode _ =>
    "'" ++ mnemonic ++ "' does not support " ++ mode ++ " addressing mode"
  | directiveOperandRequired directive => directive ++ " requires an operand"
  | notLiteral directive operand | notString directive operand =>
    directive ++ " " ++ operand ++ " is not a valid directive"
  | negativeData operand => ".data " ++ operand ++ " is not a valid directive"
  | negativeReserve operand => ".reserve " ++ operand ++ " is not a valid directive"
  | negativeOrigin operand => ".org " ++ operand ++ " is not a valid directive"
  | unknownDirective name | unencodableDirective name => "unknown directive '" ++ name ++ "'"
  | strayColon => "':' must follow a label name"
  | duplicateName name _ => "duplicate symbol '" ++ name ++ "'"
  | undefinedNames [name] _ _ => "undefined symbol '" ++ name ++ "'"
  | undefinedNames names _ _ =>
    Numeral.decimal names.length ++ " undefined symbols: " ++ nameList names
  | constantWithoutValue name => "constant '" ++ name ++ "' has no value"
  | divisionByZero => "division by zero"
  | moduloByZero => "modulo by zero"
  | unknownOperator text => "unknown operator '" ++ text ++ "'"
  | unevaluated operator => "cannot evaluate expression at '" ++ operator ++ "'"
  | unexpected text => "unexpected '" ++ text ++ "'"
  | numberExpected owner found =>
    "'" ++ owner ++ "' expects a numeric operand, found '" ++ found.getD "end of input" ++ "'"
  | originBehind target _ =>
    ".org " ++ Numeral.decimal target ++ " is invalid because it would overwrite previous data"
  | valueTooWide value bits =>
    "value " ++ Numeral.decimal value ++ " does not fit in " ++ Numeral.decimal bits ++ " bits"
  | characterTooWide c =>
    "character " ++ Text.quoted (String.singleton c) ++ " does not fit in one byte"

/-- The integers that the wording of a problem and its hint contain. -/
def integers : Problem → List Int
  | duplicateName _ (some first) => [first.line, first.column]
  | originBehind target current => [target, current]
  | valueTooWide value _ => [value]
  | _ => []

/-- The hint made from names that look like an undefined one: at most three of them. -/
def similarHint? : List String → Option String
  | [] => none
  | similar => some ("did you mean " ++ nameList (similar.take 3) ++ "?")

/-- The advice that goes with a problem. -/
def hint? : Problem → Option String
  | stated _ _ hint => hint
  | unknownMarker _ => some "use #reg_a (or #a_reg) for the accumulator, #stack for the stack"
  | unknownDirectiveWord _ => some ("directives are: " ++ Text.join ", " Machine.directives)
  | unsupportedMode _ _ [] => none
  | unsupportedMode mnemonic _ supported =>
    some (mnemonic ++ " supports: " ++ Text.join ", " supported)
  | notLiteral directive _ => some ("the " ++ directive ++ " operand must be an integer literal")
  | notString _ _ => some "the .string operand must be a quoted string such as \"text\""
  | negativeData _ => some "the .data operand must not be negative"
  | negativeReserve _ => some "cannot reserve a negative number of bytes"
  | negativeOrigin _ => some "the .org target must not be negative"
  | duplicateName name (some first) =>
    some ("'" ++ name ++ "' was first defined at " ++ first.text)
  | undefinedNames _ similar hint =>
    if hint.getD "" = "" then (similarHint? similar).or hint else hint
  | unexpected _ => some "expected an instruction or a directive"
  | originBehind _ current => some ("current address is " ++ Numeral.decimal current)
  | _ => none

end Problem

/-- A problem, where it was found, and the line of source text there. -/
structure Diagnostic where
  problem : Problem
  location : Option Location
  sourceLine : Option String := none
  deriving DecidableEq, Repr

namespace Diagnostic

/-- The first line of a diagnostic: its place and its message. -/
def headline (d : Diagnostic) : String :=
  match d.location with
  | some l => l.text ++ ": error: " ++ d.problem.message
  | none => "error: " ++ d.problem.message

/-- The spaces before a caret below a column of a line that is indented by four. -/
def caretIndent (column : Nat) : Nat := 3 + column

/-- A caret below a column of a line that is indented by four. -/
def caret (column : Nat) : String :=
  String.ofList (List.replicate (caretIndent column) ' ' ++ ['^'])

/-- The source line, indented, and a caret below the column. -/
def excerpt (d : Diagnostic) : List String :=
  match d.sourceLine, d.location with
  | some line, some l =>
    ("    " ++ line) ::
      if 0 < l.column then [caret l.column.toNat] else []
  | _, _ => []

/-- The last line of a diagnostic: its hint, unless that is missing or empty. -/
def advice (d : Diagnostic) : List String :=
  match d.problem.hint? with
  | some hint => if hint = "" then [] else ["hint: " ++ hint]
  | none => []

/-- Whether all integers of a diagnostic can be written. -/
def isWritable (d : Diagnostic) : Bool :=
  d.problem.integers.all Numeral.isWritable && d.location.all Location.isWritable

/-- Why the caret of a diagnostic cannot be placed. -/
def caretExcess? (d : Diagnostic) : Option Excess :=
  match d.sourceLine, d.location with
  | some _, some l =>
    if 0 < l.column then Excess.ofCharacters? (caretIndent l.column.toNat) else none
  | _, _ => none

/-- What the user reads. -/
def text (d : Diagnostic) : String :=
  Text.join "\n" (d.headline :: d.excerpt ++ d.advice)

end Diagnostic

end RomAsm

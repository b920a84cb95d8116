import RomAsm.Log
import RomAsm.Numeral.Literal
import RomAsm.Source.Lexeme
import RomAsm.Symbol

/-!
# From lexemes to symbols

Each lexeme is classified as one symbol, except that the sign `!` at the beginning of a word is a
symbol of its own: `!5` is two symbols, and `!!` is two as well. A word that fits no class is
reported, behind the symbols that were split off in front of it. A word with more such signs than
its reader has room for fails as well.
-/

namespace RomAsm

/-- The symbols that a lexeme gives, and the failure that may follow them. -/
structure Classified where
  symbols : List Symbol
  failure : Option Failure
  deriving Repr

/-- The symbols, or the failure. -/
def Classified.outcome (c : Classified) : Except Failure (List Symbol) :=
  match c.failure with
  | none => .ok c.symbols
  | some failure => .error failure

/-- A character that may begin an identifier. -/
def beginsIdentifier (c : Char) : Bool :=
  ('A' ≤ c && c ≤ 'Z') || ('a' ≤ c && c ≤ 'z') || c = '_'

/-- Whether a text is an identifier: letters, digits and underscores, no digit first. -/
def isIdentifierText : List Char → Bool
  | [] => false
  | c :: rest => beginsIdentifier c && rest.all fun c => beginsIdentifier c || ('0' ≤ c && c ≤ '9')

namespace Source

/-- The integer or the identifier that a word is, if it is one. -/
def classifyOperand (s : Source) (text : List Char) (location : Location) :
    Except Failure Symbol := do
  let spelling := String.ofList text
  match ← (Numeral.integer? text).mapError .numeral with
  | some n => return ⟨.integer, spelling, some n, some location⟩
  | none =>
    if text.head?.any Text.isDigit then throw (s.report (.invalidNumber spelling) location)
    else if isIdentifierText text then return ⟨.identifier, spelling, none, some location⟩
    else throw (s.report (.invalidIdentifier spelling) location)

/-- The symbol of a lexeme that does not begin with `!`. -/
def classifyPlain (s : Source) (text : List Char) (location : Location) : Except Failure Symbol :=
  let spelling := String.ofList text
  let symbol kind : Symbol := ⟨kind, spelling, none, some location⟩
  if text.head? = some '"' then .ok (symbol .string)
  else if text.length = 1 ∧ text.all isPunctuation then .ok (symbol .operator)
  else if Machine.isMnemonic spelling then .ok (symbol .mnemonic)
  else if Machine.directives.contains spelling then .ok (symbol .directive)
  else match Machine.markers.lookup spelling with
    | some mode => .ok (symbol (if mode = .stack then .stack else .accumulator))
    | none =>
      if text.head? = some '#' then .error (s.report (.unknownMarker spelling) location)
      else if text.head? = some '.' then .error (s.report (.unknownDirectiveWord spelling) location)
      else s.classifyOperand text location

/-- The symbols of a lexeme that may have `marks` more signs in front of it, or any number of them.
-/
def classifyText (s : Source) (marks : Option Nat) : List Char → Location → Classified
  | [], _ => ⟨[], none⟩
  | c :: rest, location =>
    if c = '!' then
      if marks = some 0 then ⟨[], some .tooManyMarks⟩
      else
        let next := { location with column := location.column + 1 }
        let more := s.classifyText (marks.map (· - 1)) rest next
        ⟨⟨.immediate, "!", none, some location⟩ :: more.symbols, more.failure⟩
    else
      match s.classifyPlain (c :: rest) location with
      | .ok symbol => ⟨[symbol], none⟩
      | .error failure => ⟨[], some failure⟩

/-- The symbols of a lexeme. -/
def classify (s : Source) (l : Lexeme) : Classified :=
  s.classifyText s.markLimit l.text.toList l.location

/-- All symbols of the text. -/
def symbols (s : Source) : Except Failure (List Symbol) :=
  (s.collect (fun l => (s.classify l).outcome) s.start).1

/-- All symbols of the text; their number is recorded. -/
def tokenize (s : Source) : Logged (List Symbol) := do
  let symbols ← s.symbols
  Logged.debug ("Tokenized " ++ Numeral.decimal symbols.length ++ " symbols from " ++ s.file)
  return symbols

end Source

end RomAsm

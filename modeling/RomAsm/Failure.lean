import RomAsm.Problem
import RomAsm.Text.Utf8

/-!
# Everything that can end a run

A run of the assembler ends early with a `Failure`. Most failures are diagnostics about the program;
the others come from numerals, files, paths and settings, or from symbols that a caller has put
together by hand.
-/

namespace RomAsm

/-- The number that a literal stands for. A literal that a caller has put together by hand may have
none. -/
abbrev Value := Option Int

/-- What a number was needed for where there is none. -/
inductive Need where
  /-- To see whether it is negative. -/
  | sign
  /-- To see whether it fits a field. -/
  | range
  /-- To put a minus sign before it. -/
  | negation
  /-- To divide its magnitude. -/
  | magnitude
  /-- To reduce it to the width of a table. -/
  | width
  /-- To apply an operator; the flags tell which of its two operands are numbers. -/
  | operator (text : String) (left right : Bool)
  deriving DecidableEq, Repr

/-- The name of the type of a value. -/
def Need.typeName (isNumber : Bool) : String := if isNumber then "'int'" else "'NoneType'"

/-- The wording of a need. -/
def Need.message : Need → String
  | .sign => "'<' not supported between instances of 'NoneType' and 'int'"
  | .range => "'<=' not supported between instances of 'int' and 'NoneType'"
  | .negation => "bad operand type for unary -: 'NoneType'"
  | .magnitude => "bad operand type for abs(): 'NoneType'"
  | .width => "unsupported operand type(s) for &: 'NoneType' and 'int'"
  | .operator text left right =>
    "unsupported operand type(s) for " ++ text ++ ": " ++ typeName left ++ " and " ++ typeName right

/-- Why a file cannot be opened. -/
inductive FileCause where
  | notFound
  | notDirectory
  | isDirectory
  /-- The path, or a name on it, is too long. -/
  | nameTooLong
  deriving DecidableEq, Repr

/-- The wording of a cause for the given path. -/
def FileCause.message (path : String) : FileCause → String
  | .notFound => "[Errno 2] No such file or directory: " ++ Text.quoted path
  | .notDirectory => "[Errno 20] Not a directory: " ++ Text.quoted path
  | .isDirectory => "[Errno 21] Is a directory: " ++ Text.quoted path
  | .nameTooLong => "[Errno 36] File name too long: " ++ Text.quoted path

/-- What ends a run early. -/
inductive Failure where
  /-- Something is wrong with the program. -/
  | diagnostic (d : Diagnostic)
  /-- A numeral cannot be read or written. -/
  | numeral (fault : Numeral.Fault)
  /-- A symbol is classified as a marker, but no marker is spelled like it. -/
  | unlistedMarker (text : String)
  /-- There is no symbol at the given index. -/
  | noSymbol
  /-- An index is too large to be one. -/
  | noIndex
  /-- A number was needed where there is none. -/
  | noValue (need : Need)
  /-- Something is too large. -/
  | excess (e : Excess)
  /-- A field has less than one bit. -/
  | negativeShift
  /-- A word has too many marks in front of it. -/
  | tooManyMarks
  /-- There is no setting of the given name. -/
  | unknownSetting (name : String)
  /-- A path, a word of a command line or a variable has a null character. -/
  | nullCharacter
  /-- A file cannot be opened. -/
  | file (cause : FileCause) (path : String)
  /-- The bytes of a file are no text. -/
  | encoding (fault : Text.Utf8.Fault)
  /-- A text cannot be the suffix of a file name. -/
  | invalidSuffix (suffix : String)
  /-- A path has no name that could take a suffix. -/
  | namelessPath (path : String)
  deriving DecidableEq, Repr

namespace Failure

/-- The wording of a failure. -/
def message : Failure → String
  | diagnostic d => d.text
  | numeral fault => fault.message
  | unlistedMarker text => Text.quoted text
  | noSymbol => "list index out of range"
  | noIndex => Excess.count.message
  | noValue need => need.message
  | excess e => e.message
  | negativeShift => "negative shift count"
  | tooManyMarks => "maximum recursion depth exceeded while calling a Python object"
  | unknownSetting name =>
    "AssemblerConfig.__init__() got an unexpected keyword argument '" ++ name ++ "'"
  | nullCharacter => "embedded null byte"
  | file cause path => cause.message path
  | encoding fault => fault.message
  | invalidSuffix suffix => "Invalid suffix " ++ Text.quoted suffix
  | namelessPath path => "PosixPath(" ++ Text.quoted path ++ ") has an empty name"

/-- The failure that a diagnostic ends a run with. A diagnostic whose text cannot be made gives way
to the reason for that. -/
def ofDiagnostic (d : Diagnostic) : Failure :=
  if !d.isWritable then .numeral .tooLarge
  else match d.caretExcess? with
    | some e => .excess e
    | none => .diagnostic d

/-- The failure that reports a problem at a location. -/
def report (problem : Problem) (location : Option Location) : Failure :=
  ofDiagnostic ⟨problem, location, none⟩

/-- A problem is reported as such, unless a number in the report cannot be written. -/
theorem report_eq (problem : Problem) (location : Option Location) :
    report problem location =
      if problem.integers.all Numeral.isWritable && location.all Location.isWritable then
        .diagnostic ⟨problem, location, none⟩
      else .numeral .tooLarge := by
  unfold report ofDiagnostic Diagnostic.isWritable
  -- without a line of the source there is no caret that could be too far to the right
  cases problem.integers.all Numeral.isWritable && location.all Location.isWritable <;> rfl

/-- Whether a failure is a diagnostic about the program. -/
def isDiagnostic : Failure → Bool
  | diagnostic _ => true
  | _ => false

end Failure

/-- Fails on a text that the system cannot take: it ends a text at its first null character. -/
def checkNoNull (text : String) : Except Failure Unit :=
  if text.toList.contains '\x00' then .error .nullCharacter else .ok ()

/-- The decimal numeral of an integer, or the failure to write it. -/
def numeral (n : Int) : Except Failure String := (Numeral.written n).mapError .numeral

/-- The numeral of a value, or a word for a value that is missing. -/
def valueText : Value → Except Failure String
  | some n => numeral n
  | none => .ok "None"

end RomAsm

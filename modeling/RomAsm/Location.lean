import RomAsm.Numeral.Basic

/-!
# Source locations

Where in a source a symbol or a diagnostic stands: the name of the file, the line and the column.
Lines and columns that a source gives out count from one, but a caller may state any.
-/

namespace RomAsm

/-- A line and a column. -/
structure Position where
  line : Int
  column : Int
  deriving DecidableEq, Repr

/-- The position behind one character: a line feed ends the line. -/
def Position.next (p : Position) (c : Char) : Position :=
  if c = '\n' then ⟨p.line + 1, 1⟩ else ⟨p.line, p.column + 1⟩

/-- The position behind a run of characters. -/
def Position.after (p : Position) (text : List Char) : Position := text.foldl Position.next p

/-- A position in a named file. -/
structure Location where
  file : String
  line : Int
  column : Int
  deriving DecidableEq, Repr

/-- Whether the line and the column of a location can be written. -/
def Location.isWritable (l : Location) : Bool :=
  Numeral.isWritable l.line && Numeral.isWritable l.column

/-- The text of a location: file, line and column with colons between them. -/
def Location.text (l : Location) : String :=
  l.file ++ ":" ++ Numeral.decimal l.line ++ ":" ++ Numeral.decimal l.column

/-- The text of a location, unless its line or its column cannot be written. -/
def Location.written (l : Location) : Except Numeral.Fault String :=
  if l.isWritable then .ok l.text else .error .tooLarge

end RomAsm

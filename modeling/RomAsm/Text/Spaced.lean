/-!
# Lines of text

How texts are set side by side: joined by single spaces, padded to a width, cut into lines.
-/

namespace RomAsm.Text

/-- Several texts, with `between` between any two neighbours. -/
def joinChars (between : List Char) : List (List Char) → List Char
  | [] => []
  | [text] => text
  | text :: rest => text ++ between ++ joinChars between rest

/-- Several texts as one, with `between` between any two neighbours. -/
def join (between : String) (texts : List String) : String :=
  String.ofList (joinChars between.toList (texts.map String.toList))

/-- Several texts as one, with single spaces between them. -/
def spaced (texts : List String) : String := join " " texts

/-- The text, filled with `fill` on the left up to `width` characters. -/
def padLeft (fill : Char) (width : Nat) (text : String) : String :=
  String.ofList (List.replicate (width - text.length) fill ++ text.toList)

/-- The text, filled with spaces on the right up to `width` characters. -/
def padRight (width : Nat) (text : String) : String :=
  String.ofList (text.toList ++ List.replicate (width - text.length) ' ')

/-- The lines of a text: the pieces between its line feeds. -/
def lines : List Char → List (List Char)
  | [] => [[]]
  | c :: rest =>
    if c = '\n' then [] :: lines rest
    else match lines rest with
      | line :: more => (c :: line) :: more
      | [] => [[c]]

/-- The text with a carriage return, alone or before a line feed, made a line feed. -/
def unifyLineEnds : List Char → List Char
  | [] => []
  | '\r' :: '\n' :: rest => '\n' :: unifyLineEnds rest
  | c :: rest => (if c = '\r' then '\n' else c) :: unifyLineEnds rest

end RomAsm.Text

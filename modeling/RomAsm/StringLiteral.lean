/-!
# String literals

A string literal keeps its quotes and its escapes until its text is asked for. Seven letters name a
control character behind a backslash; any other character behind a backslash stands for itself.
-/

namespace RomAsm.StringLiteral

/-- The character that a character stands for behind a backslash. -/
def escaped : Char → Char
  | 'a' => '\x07'
  | 'b' => '\x08'
  | 'f' => '\x0c'
  | 'n' => '\n'
  | 'r' => '\r'
  | 't' => '\t'
  | 'v' => '\x0b'
  | c => c

/-- The text with its escapes resolved; a backslash at its end stands for itself. -/
def unescape : List Char → List Char
  | [] => []
  | ['\\'] => ['\\']
  | '\\' :: c :: rest => escaped c :: unescape rest
  | c :: rest => c :: unescape rest

/-- The text of a literal, without its first and last character, which are its quotes. -/
def decode (literal : String) : String :=
  String.ofList (unescape literal.toList.tail.dropLast)

end RomAsm.StringLiteral

/-!
# Styling of terminal output

A text may contain sequences that tell a terminal to change its style: an escape character, a
bracket, any number of digits, semicolons and question marks, and a letter. They are left out where
the output may not go to a terminal. A sequence that is broken off stays as it is, and so does all
other text (`unstyledAfter_of_not_mem`).
-/

namespace RomAsm.Text

/-- The character that begins a sequence. -/
def escapeChar : Char := '\x1b'

/-- A character that may stand between the bracket and the letter. -/
def isStyleParameter (c : Char) : Bool := c = ';' || c = '?' || ('0' ≤ c && c ≤ '9')

/-- A letter that may end a sequence. -/
def endsStyle (c : Char) : Bool := ('a' ≤ c && c ≤ 'z') || ('A' ≤ c && c ≤ 'Z')

/-- Whether the character goes on with the sequence of which `held` was read, last character
first. -/
def goesOn (held : List Char) (c : Char) : Bool :=
  match held with
  | [] => false
  | [_] => c = '['
  | _ => isStyleParameter c

/-- Leaves sequences out of the rest of a text, where `held` is the beginning of a sequence, last
character first. -/
def unstyledAfter (held : List Char) : List Char → List Char
  | [] => held.reverse
  | c :: rest =>
    if goesOn held c then unstyledAfter (c :: held) rest
    else if 1 < held.length && endsStyle c then unstyledAfter [] rest
    else if c = escapeChar then held.reverse ++ unstyledAfter [c] rest
    else held.reverse ++ c :: unstyledAfter [] rest

/-- A text without the character that begins a sequence is kept. -/
theorem unstyledAfter_of_not_mem {text : List Char} (h : escapeChar ∉ text) :
    unstyledAfter [] text = text := by
  induction text with
  | nil => rfl
  | cons c rest ih =>
    rw [List.mem_cons, not_or] at h
    -- nothing is held, so only an escape character could begin a sequence
    have hc : c ≠ escapeChar := fun e => h.1 e.symm
    simp [unstyledAfter, goesOn, hc, ih h.2]

/-- The text without its sequences. -/
def unstyled (text : String) : String := String.ofList (unstyledAfter [] text.toList)

end RomAsm.Text

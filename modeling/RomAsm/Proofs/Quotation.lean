import RomAsm.Proofs.Assembling

/-!
# Quoting a text

There are many ways to quote a text: a character stands for itself or has a backslash before it, and
seven control characters also have a name. `Quotation` are all of them, and they are described here
without the functions that read them. Three of these treat backslashes, each with a loop of its own:
the one that looks for the closing quote, the one that resolves the escapes, and the one that lays
out `.string`. `Quotation.round_trip` says that they agree on every quotation.

The proof turns a quotation into the letters of an element (`Quotation.exists_letters`), of which
the phases of the assembler are known to take the same number of characters.
-/

namespace RomAsm

/-! ### Quotations -/

/-- The names of the control characters. -/
def controls : List (Char × Char) :=
  [('a', '\x07'), ('b', '\x08'), ('f', '\x0c'), ('n', '\n'), ('r', '\r'), ('t', '\t'),
    ('v', '\x0b')]

/-- The ways to write a character between quotes. -/
inductive Writes : Char → List Char → Prop where
  | itself {c : Char} (hquote : c ≠ '"') (hbackslash : c ≠ '\\') : Writes c [c]
  | escaped {c : Char} (h : ∀ control ∈ controls, control.1 ≠ c) : Writes c ['\\', c]
  | named {name c : Char} (h : (name, c) ∈ controls) : Writes c ['\\', name]

/-- A way to quote a text, character by character. -/
structure Quotation (text : String) where
  parts : List (List Char)
  writes : List.Forall₂ Writes text.toList parts

/-- Behind a backslash, a character that is no name stands for itself. -/
theorem escaped_of_not_named {c : Char} (h : ∀ control ∈ controls, control.1 ≠ c) :
    StringLiteral.escaped c = c := by
  simp only [controls, List.forall_mem_cons] at h
  obtain ⟨ha, hb, hf, hn, hr, ht, hv, -⟩ := h
  unfold StringLiteral.escaped
  -- each name in turn, and last all other characters
  split
  all_goals first | contradiction | rfl

theorem escaped_of_named {name c : Char} (h : (name, c) ∈ controls) :
    StringLiteral.escaped name = c := by
  have hall : ∀ control ∈ controls, StringLiteral.escaped control.1 = control.2 := by decide
  exact hall (name, c) h

/-- Every way to write a character is a letter. -/
theorem Writes.exists_letter {c : Char} {part : List Char} (h : Writes c part) :
    ∃ l : Letter, l.char = c ∧ l.written = part := by
  cases h with
  | itself hquote hbackslash => exact ⟨.plain c ⟨hquote, hbackslash⟩, rfl, rfl⟩
  | escaped h => exact ⟨.escape c, escaped_of_not_named h, rfl⟩
  | @named name _ h => exact ⟨.escape name, escaped_of_named h, rfl⟩

namespace Quotation

variable {text : String}

/-- The literal: the characters as they are written, between quotes. -/
def literal (q : Quotation text) : String := String.ofList ('"' :: (q.parts.flatten ++ ['"']))

/-- A quotation is a sequence of letters that stand for the characters of the text. -/
theorem exists_letters (q : Quotation text) : ∃ letters : List Letter,
    letters.map Letter.char = text.toList ∧
      q.literal = String.ofList ('"' :: stringBody letters) := by
  -- one letter for each character and its part
  suffices h : ∀ {chars : List Char} {parts : List (List Char)}, List.Forall₂ Writes chars parts →
      ∃ letters : List Letter, letters.map Letter.char = chars ∧
        letters.flatMap Letter.written = parts.flatten by
    obtain ⟨letters, hchars, hparts⟩ := h q.writes
    refine ⟨letters, hchars, ?_⟩
    rw [literal, stringBody, hparts]
  intro chars parts h
  induction h with
  | nil => exact ⟨[], rfl, rfl⟩
  | cons hwrites _ ih =>
    obtain ⟨l, rfl, rfl⟩ := hwrites.exists_letter
    obtain ⟨letters, rfl, hparts⟩ := ih
    refine ⟨l :: letters, rfl, ?_⟩
    rw [List.flatMap_cons, List.flatten_cons, hparts]

/-! ### Reading -/

/-- The letters of a literal are read as one lexeme, up to the quote that closes it. -/
theorem next_stringBody (source : Source) (p : Position) (letters : List Letter)
    (rest : List Char) :
    source.next ⟨'"' :: stringBody letters ++ rest, p⟩ =
      .lexeme ⟨String.ofList ('"' :: stringBody letters), source.locate p⟩
        ⟨rest, p.after ('"' :: stringBody letters)⟩ := by
  have hscan : Gap.scan ('"' :: stringBody letters ++ rest) =
      .reached [] ('"' :: stringBody letters ++ rest) := rfl
  have hclose : closeString (stringBody letters ++ rest) = some (stringBody letters, rest) :=
    closeString_append (closeString_stringBody letters) rest
  unfold Source.next
  rw [hscan]
  -- a lexeme that begins with a quote is read to the closing one
  change source.lexemeAt _ '"' (stringBody letters ++ rest) = _
  rw [Source.lexemeAt, if_pos rfl, hclose]
  rfl

/-- **A quotation is read up to its last quote**, whatever follows it. -/
theorem next_literal (q : Quotation text) (source : Source) (p : Position) (rest : List Char) :
    source.next ⟨q.literal.toList ++ rest, p⟩ =
      .lexeme ⟨q.literal, source.locate p⟩ ⟨rest, p.after q.literal.toList⟩ := by
  obtain ⟨letters, -, hliteral⟩ := q.exists_letters
  rw [hliteral, String.toList_ofList]
  exact next_stringBody source p letters rest

theorem classify_literal (q : Quotation text) (source : Source) (l : Location) :
    source.classify ⟨q.literal, l⟩ = ⟨[⟨.string, q.literal, none, some l⟩], none⟩ := by
  rw [Source.classify, literal, String.toList_ofList, Source.classifyText, if_neg (by decide)]
  rfl

/-- **Escapes are resolved to the text** that was quoted. -/
theorem decode_literal (q : Quotation text) : StringLiteral.decode q.literal = text := by
  obtain ⟨letters, hchars, hliteral⟩ := q.exists_letters
  calc StringLiteral.decode q.literal
      = StringLiteral.decode (stringSymbol letters none).text := by rw [hliteral]; rfl
    _ = String.ofList (letters.map Letter.char) := Operand.decode_stringSymbol letters none
    _ = text := by rw [hchars, String.ofList_toList]

/-! ### Assembling -/

/-- The source that stores a quotation, with a label behind it. -/
def source (q : Quotation text) (file : String) (markLimit : Option Nat) : Source where
  text := ".string ".toList ++ q.literal.toList ++ " end :".toList
  file := file
  markLimit := markLimit

theorem text_source (q : Quotation text) (file : String) (markLimit : Option Nat) :
    (q.source file markLimit).text =
      ".string ".toList ++ q.literal.toList ++ " end :".toList := rfl

/-- The elements of such a source. -/
def elements (letters : List Letter) : List (Element.Source Unit) :=
  [.string () letters (), .label "end" () ()]

/-- The source is the one that its elements are written as. -/
theorem source_eq (q : Quotation text) {letters : List Letter}
    (h : q.literal = String.ofList ('"' :: stringBody letters)) (file : String)
    (markLimit : Option Nat) :
    q.source file markLimit = sourceOf file markLimit (elements letters) := by
  -- four tokens with single spaces between them
  have htokens : ((elements letters).flatMap Element.tokens).map (·.text) =
      [".string", q.literal, "end", ":"] := by
    rw [h]
    rfl
  have hspelled : (spelled ((elements letters).flatMap Element.tokens)).toList =
      ".string ".toList ++ q.literal.toList ++ " end :".toList := by
    rw [spelled, htokens, Text.toList_spaced]
    simp [Text.joinChars]
  exact (congrArg (fun t => (⟨t, file, 1, markLimit⟩ : Source)) hspelled).symm

/-- The elements can be written down: one of them has no names in it, and `end` is a name. -/
theorem spelled_elements (letters : List Letter) : ∀ x ∈ elements letters, x.Spelled := by
  have hend : IsName "end" := by decide
  exact List.forall_mem_cons.2 ⟨trivial, List.forall_mem_singleton.2 hend⟩

/-- They make a well-formed program, since neither of them has an operand. -/
theorem wellFormed_elements {letters : List Letter}
    (h : Numeral.isWritable (letters.length + 1 : Nat) = true) : WellFormed (elements letters) := by
  have hextent : extent 0 (elements letters) = letters.length + 1 := Nat.zero_add _
  -- the labels are a solution, as there is nothing else to solve
  refine .of_solves (ρ := (labelsFrom 0 (elements letters)).get?) ?_ ⟨trivial, trivial, trivial⟩ ?_
    (fun _ _ hx => .label hx) ⟨fun _ _ hx => hx, nofun⟩ ?_
  · exact List.nodup_singleton _
  · rwa [hextent]
  · exact List.forall_mem_cons.2 ⟨nofun, List.forall_mem_cons.2 ⟨nofun, nofun⟩⟩

/-- Every letter is written with at least one character. -/
theorem length_le_written (letters : List Letter) :
    letters.length ≤ (letters.flatMap Letter.written).length := by
  induction letters with
  | nil => exact Nat.le_refl 0
  | cons l letters ih =>
    have hwritten : 1 ≤ l.written.length := by cases l <;> exact Nat.le_add_left 1 _
    rw [List.flatMap_cons, List.length_append, List.length_cons]
    omega

/-- The source is longer than the text that it stores. -/
theorem isWritable_length (q : Quotation text) {letters : List Letter}
    (h : q.literal = String.ofList ('"' :: stringBody letters)) {file : String}
    {markLimit : Option Nat}
    (hlength : Numeral.isWritable ((q.source file markLimit).text.length + 1 : Nat) = true) :
    Numeral.isWritable (letters.length + 1 : Nat) = true := by
  have hletters := length_le_written letters
  have hliteral : q.literal.toList.length = (letters.flatMap Letter.written).length + 2 := by
    rw [h, String.toList_ofList, List.length_cons, stringBody, List.length_append]
    rfl
  -- the literal alone has more characters than letters
  refine Numeral.isWritable_of_le hlength ?_
  rw [text_source, List.length_append, List.length_append]
  omega

section Located

/-! What the elements are does not depend on where they were read. -/

variable {located : List (Element.Source (Option Location))} {letters : List Letter}
  (h : located.map (Element.relocate fun _ => ()) = elements letters)

include h

/-- No zeros are asked for. -/
theorem feasible_located : Throughout Element.Feasible 0 located := by
  have helements : Throughout Element.Feasible 0 (located.map (Element.relocate fun _ => ())) := by
    rw [h]
    exact ⟨trivial, trivial, trivial⟩
  exact (throughout_map fun x address => x.feasible_map _ _ address).1 helements

/-- The label stands behind the characters and the zero. -/
theorem labelsFrom_located :
    labelsFrom 0 located = [("end", ((letters.length + 1 : Nat) : Int))] := by
  calc labelsFrom 0 located
      = labelsFrom 0 (located.map (Element.relocate fun _ => ())) :=
        (labelsFrom_map _ _ 0 located).symm
    _ = labelsFrom 0 (elements letters) := by rw [h]
    _ = [("end", ((letters.length + 1 : Nat) : Int))] :=
        congrArg (fun n : Nat => [("end", (n : Int))]) (Nat.zero_add _)

theorem definitionsIn_located : definitionsIn located = [] := by
  have hmap := definitionsIn_relocate (fun _ => ()) located
  rw [h] at hmap
  exact List.map_eq_nil_iff.1 hmap.symm

/-- The bytes are those of the characters, and a zero. -/
theorem bytesFrom_located (ρ : String → Option Int) :
    bytesFrom (fun e => e.eval ρ) 0 located =
      some (letters.map (fun l => UInt8.ofNat l.char.toNat) ++ [0]) := by
  calc bytesFrom (fun e => e.eval ρ) 0 located
      = bytesFrom (fun e => (e.relocate fun _ => ()).eval ρ) 0 located := by
        simp only [Expression.eval_relocate]
    _ = bytesFrom (fun e => e.eval ρ) 0 (located.map (Element.relocate fun _ => ())) :=
        (bytesFrom_map _ _ _ 0 located).symm
    -- the elements as they were given
    _ = bytesFrom (fun e => e.eval ρ) 0 (elements letters) := by rw [h]
    _ = some (letters.map (fun l => UInt8.ofNat l.char.toNat) ++ [0]) := by
        rw [← List.append_nil (letters.map _ ++ [0])]
        rfl

end Located

end Quotation

/-- A table with one name and a value for it. -/
theorem Table.eq_singleton {α : Type} {t : Table α} {x : String} {a : α}
    (hnames : t.names.Perm [x]) (h : t.get? x = some a) : t = [(x, a)] := by
  -- one name, so one entry
  have hlength : t.length = 1 := by
    rw [← List.length_map (f := Prod.fst)]
    exact hnames.length_eq
  obtain ⟨⟨y, b⟩, rfl⟩ := List.length_eq_one_iff.1 hlength
  obtain ⟨rfl, rfl⟩ := Prod.mk.inj (List.mem_singleton.1 (Table.mem_of_get? h))
  rfl

namespace Quotation

variable {text : String}

/-- **A quotation is stored as its text**, with a zero behind it. -/
theorem assemble_source (q : Quotation text) (file : String) {markLimit : Option Nat}
    (hroom : markLimit ≠ some 0)
    (hlength : Numeral.isWritable ((q.source file markLimit).text.length + 1 : Nat) = true)
    {a : Assembler} (hstrict : a.settings.strict = false) (level : Level) :
    (a.assemble level (q.source file markLimit)).outcome =
        .ok (text.toList.map (fun c => UInt8.ofNat c.toNat) ++ [0]) ∧
      (a.assemble level (q.source file markLimit)).state.code =
        text.toList.map (fun c => UInt8.ofNat c.toNat) ++ [0] ∧
      (a.assemble level (q.source file markLimit)).state.tags =
        [("end", some ((text.length + 1 : Nat) : Int))] := by
  obtain ⟨letters, hchars, hliteral⟩ := q.exists_letters
  have hbytes : letters.map (fun l => UInt8.ofNat l.char.toNat) =
      text.toList.map fun c => UInt8.ofNat c.toNat := by
    rw [← hchars, List.map_map]
    rfl
  have hcount : letters.length = text.length := by
    rw [← String.length_toList, ← hchars, List.length_map]
  have hwellFormed := wellFormed_elements (q.isWritable_length hliteral hlength)
  -- the source is the one that its two elements are written as, and they are read back
  rw [q.source_eq hliteral file markLimit] at hlength ⊢
  have hspelled := spelled_elements letters
  obtain ⟨located, hread, hlocated, hplaces⟩ := exists_read file hroom hspelled hlength
  obtain ⟨normalized, hnormalize⟩ :=
    Source.normalize_ofSymbols file markLimit (spelled_tokens hspelled)
  rw [← hlocated] at hwellFormed
  obtain ⟨numbers, code, houtcome, hcode, htags, hnames, hsolves, hstored⟩ :=
    assemble_of_feasible hread hwellFormed.of_relocate hplaces hnormalize hstrict level
      (feasible_located hlocated)
  rw [bytesFrom_located hlocated, hbytes] at hstored
  rw [labelsFrom_located hlocated, definitionsIn_located hlocated] at hnames hsolves
  -- the only name is the label, whose address is known
  have hnumbers : numbers = [("end", ((letters.length + 1 : Nat) : Int))] :=
    Table.eq_singleton hnames (hsolves.labels "end" _ rfl)
  rw [houtcome, hcode, htags, ← Option.some.inj hstored, hnumbers, hcount]
  exact ⟨rfl, rfl, rfl⟩

/-- **Quoting is undone by reading, decoding and assembling.** However a text is quoted, the literal
is read as one symbol whatever follows it, its escapes are resolved to the text, and `.string`
stores the codes of the characters, each reduced to a byte, and a zero, and puts the next label
behind. -/
theorem round_trip (q : Quotation text) :
    (∀ (s : Source) (p : Position) (rest : List Char),
      s.next ⟨q.literal.toList ++ rest, p⟩ =
        .lexeme ⟨q.literal, s.locate p⟩ ⟨rest, p.after q.literal.toList⟩ ∧
      s.classify ⟨q.literal, s.locate p⟩ =
        ⟨[⟨.string, q.literal, none, some (s.locate p)⟩], none⟩) ∧
    StringLiteral.decode q.literal = text ∧
    ∀ (file : String) (markLimit : Option Nat) (a : Assembler) (level : Level),
      markLimit ≠ some 0 → a.settings.strict = false →
      Numeral.isWritable ((q.source file markLimit).text.length + 1 : Nat) = true →
      (a.assemble level (q.source file markLimit)).outcome =
          .ok (text.toList.map (fun c => UInt8.ofNat c.toNat) ++ [0]) ∧
        (a.assemble level (q.source file markLimit)).state.code =
          text.toList.map (fun c => UInt8.ofNat c.toNat) ++ [0] ∧
        (a.assemble level (q.source file markLimit)).state.tags =
          [("end", some ((text.length + 1 : Nat) : Int))] := by
  refine ⟨fun s p rest => ?_, q.decode_literal,
    fun file markLimit a level hroom hstrict hlength => ?_⟩
  · exact ⟨q.next_literal s p rest, q.classify_literal s (s.locate p)⟩
  · exact q.assemble_source file hroom hlength hstrict level

/-- A text with a line feed, a backslash, a character that needs more than a byte, the beginning of
a comment and a quote, quoted in all three ways. -/
def mixed : Quotation "\n\\Ā/*\"" where
  parts := [['\\', 'n'], ['\\', '\\'], ['Ā'], ['/'], ['\\', '*'], ['\\', '"']]
  writes := by
    have hlist : "\n\\Ā/*\"".toList = ['\n', '\\', 'Ā', '/', '*', '"'] := by decide
    rw [hlist]
    exact .cons (.named (by decide)) (.cons (.escaped (by decide)) (.cons (.itself (by decide)
      (by decide)) (.cons (.itself (by decide) (by decide)) (.cons (.escaped (by decide))
        (.cons (.escaped (by decide)) .nil)))))

/-- The character that needs more than a byte is reduced to its last eight bits, which are zero, and
the quoted beginning of a comment is none. -/
theorem mixed_stored : mixed.literal = "\"\\n\\\\Ā/\\*\\\"\"" ∧
    StringLiteral.decode mixed.literal = "\n\\Ā/*\"" ∧
    Numeral.isWritable ((mixed.source "mixed.asm" none).text.length + 1 : Nat) = true ∧
    ((Assembler.ofSettings {}).assemble .debug (mixed.source "mixed.asm" none)).outcome =
      .ok [0x0a, 0x5c, 0x00, 0x2f, 0x2a, 0x22, 0x00] ∧
    ((Assembler.ofSettings {}).assemble .debug (mixed.source "mixed.asm" none)).state.tags =
      [("end", some 7)] := by
  have hlength : Numeral.isWritable ((mixed.source "mixed.asm" none).text.length + 1 : Nat) =
      true := by decide
  obtain ⟨-, hdecode, hassemble⟩ := round_trip mixed
  obtain ⟨houtcome, -, htags⟩ :=
    hassemble "mixed.asm" none (.ofSettings {}) .debug nofun rfl hlength
  exact ⟨by decide, hdecode, hlength, houtcome, htags⟩

end Quotation

end RomAsm

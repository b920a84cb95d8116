import Mathlib
import RomAsm.Proofs.Agreement
import RomAsm.Proofs.Listing
import RomAsm.Site

/-!
# Statements tile a program

A program that is encoded is cut up in three ways at once: its stream into the symbols of each
statement, its code into the bytes of each, and its listing into lines. The generator moves through
the stream, counts addresses, lays down bytes and writes lines in different places; here all of them
are shown to keep in step.

All of it is read off a run of the second pass, by induction on `Encoding`:

* `Encoding.isSlice` — what a statement takes from the stream has one head, which comes first;
* `Encoding.split` — between two statements the address counter stands at the number of bytes that
  have been laid down, and the rest of the run is a run from there;
* `Encoding.line_eq` — the line of a statement shows the code between two addresses;
* `generate_tiling` — the three ways to cut up a program, put side by side with the states of the
  generator in between.
-/

namespace RomAsm

open Generation

/-! ### Slices of the stream -/

/-- A run of symbols with one head, which comes first. -/
def IsSlice (slice : List Symbol) : Prop :=
  ∃ head rest, slice = head :: rest ∧ head.startsStatement = true ∧
    ∀ s ∈ rest, s.startsStatement = false

namespace Encoding

variable {strict : Bool} {address : Nat} {symbols : List Symbol} {statements : List Statement}

/-- A statement begins with a head and takes no other. -/
theorem isSlice (h : Encoding strict address symbols statements) :
    ∀ s ∈ statements, IsSlice s.symbols := by
  induction h with
  | nil address => exact List.forall_mem_nil _
  | cons hstatement _ ih =>
    -- a head is what was encoded, and what it takes with it has no other
    have hencode := lays_encode_of_statement hstatement
    exact List.forall_mem_cons.2
      ⟨⟨_, _, rfl, startsStatement_of_encode hencode, (encode_lays hencode).2⟩, ih⟩

/-- **Between two statements.** The counter has moved by the number of bytes laid down, and the rest
of the statements are what the rest of the stream is encoded as. -/
theorem split {earlier later : List Statement}
    (h : Encoding strict address symbols (earlier ++ later)) :
    Encoding strict (address + (earlier.flatMap (·.bytes)).length) (later.flatMap (·.symbols))
      later := by
  induction earlier generalizing address symbols with
  | nil =>
    rw [List.nil_append] at h
    rw [h.flatMap_symbols]
    exact h
  | cons s earlier ih =>
    cases h with
    | cons hstatement hlater =>
      -- the run behind the first statement starts with the bytes of that one counted in
      have hrest := ih hlater
      rw [Nat.add_assoc, ← List.length_append] at hrest
      exact hrest

/-- A statement stands at the address that the counter has when the statement begins. -/
theorem address_eq {earlier later : List Statement} {s : Statement}
    (h : Encoding strict address symbols (earlier ++ s :: later)) :
    s.address = address + (earlier.flatMap (·.bytes)).length := by
  have hrest := h.split
  generalize (s :: later).flatMap (·.symbols) = rest at hrest
  cases hrest
  rfl

end Encoding

/-! ### Offsets -/

section Offsets

variable {offset : Nat} {statements : List Statement}

/-- There is one offset more than there are statements. -/
theorem length_offsetsFrom (offset : Nat) (statements : List Statement) :
    (offsetsFrom offset statements).length = statements.length + 1 := by
  rw [offsetsFrom_eq, List.length_map, List.length_range]

/-- An offset is the number of bytes before it. -/
theorem eq_of_offsetsFrom {i a : Nat} (h : (offsetsFrom offset statements)[i]? = some a) :
    a = offset + ((statements.take i).flatMap (·.bytes)).length := by
  rw [offsetsFrom_eq, List.getElem?_map, Option.map_eq_some_iff] at h
  obtain ⟨j, hj, rfl⟩ := h
  obtain ⟨-, rfl⟩ := List.getElem?_eq_some_iff.1 hj
  rw [List.getElem_range]

theorem le_of_mem_offsetsFrom {a : Nat} (h : a ∈ offsetsFrom offset statements) : offset ≤ a := by
  obtain ⟨i, hi⟩ := List.mem_iff_getElem?.1 h
  rw [eq_of_offsetsFrom hi]
  exact Nat.le_add_right _ _

/-- Offsets never go down. -/
theorem pairwise_offsetsFrom (offset : Nat) (statements : List Statement) :
    (offsetsFrom offset statements).Pairwise (· ≤ ·) := by
  induction statements generalizing offset with
  | nil => exact List.pairwise_singleton _ _
  | cons s rest ih =>
    refine List.pairwise_cons.2 ⟨fun a ha => ?_, ih _⟩
    exact (Nat.le_add_right _ _).trans (le_of_mem_offsetsFrom ha)

/-- The code between two neighbouring offsets is the bytes of the statement that stands there. -/
theorem cut_code (earlier later : List Statement) (s : Statement) :
    cut ((earlier ++ s :: later).flatMap (·.bytes)) ((earlier.flatMap (·.bytes)).length : Nat)
        ((earlier.flatMap (·.bytes)).length + s.bytes.length : Nat) =
      s.bytes := by
  rw [cut_ofNat, List.flatMap_append, List.flatMap_cons, ← List.append_assoc]
  -- what is cut off behind are the later statements, and in front the earlier ones
  rw [← List.length_append, List.take_left, List.drop_left]

/-- The code up to an offset is that of the statements before it. -/
theorem take_code (i : Nat) :
    (statements.flatMap (·.bytes)).take ((statements.take i).flatMap (·.bytes)).length =
      (statements.take i).flatMap (·.bytes) := by
  have hsplit : statements.flatMap (·.bytes) =
      (statements.take i).flatMap (·.bytes) ++ (statements.drop i).flatMap (·.bytes) := by
    rw [← List.flatMap_append, List.take_append_drop]
  rw [hsplit, List.take_left]

end Offsets

/-! ### The tiles of a program -/

/-- **A tiling** of a program with its code, by a generator: slices of the stream, the addresses at
which the code is cut, the first and the last included, and the lines of the listing. -/
structure Tiling (g : Generator) (strict : Bool) (p : Program) (code : List UInt8)
    (slices : List (List Symbol)) (addresses : List Nat) (lines : List String) : Prop where
  /-- The slices are the whole stream, one after the other. -/
  flatten : slices.flatten = p.symbols
  /-- Each begins with a mnemonic or a directive and has no other. -/
  isSlice : ∀ slice ∈ slices, IsSlice slice
  /-- There is one address more than there are slices. -/
  length : addresses.length = slices.length + 1
  first : addresses.head? = some 0
  last : addresses.getLast? = some code.length
  ordered : addresses.Pairwise (· ≤ ·)
  /-- There is one line for each slice. It shows the slice, the address at which it begins and the
  code up to the next address. -/
  line : lines.length = slices.length ∧ ∀ (i : Nat) slice (start stop : Nat),
    slices[i]? = some slice → addresses[i]? = some start → addresses[i + 1]? = some stop →
    lines[i]? = some (Listing.lineOf start (cut code start stop) slice)
  /-- These lines stand in the listing, between its head and the table of the names. -/
  listing : (g.generate strict p).state.listing =
    ((g.generate strict p).state.tagLines
        fun name value => name.rightpad 20 ++ " = " ++ value).map fun tagLines =>
      "\n".intercalate (["Chameleon Assembler Listing", String.replicate 60 '=', "",
        "Addr  Code          Line  Source", String.replicate 60 '-'] ++ lines ++
        ["", "Symbol Table", String.replicate 30 '-'] ++ tagLines)
  /-- Wherever a slice begins, and at the end, the counter of the generator stands at the address.
  -/
  counter : (g.stopsOf strict p).map (·.1.address) = addresses
  /-- The code so far is as long as that, and it is the code up to that address. -/
  emitted : ∀ x ∈ g.stopsOf strict p,
    x.1.code.length = x.1.address ∧ x.1.code = code.take x.1.address
  /-- What is left of the stream there are the slices from there on. -/
  left : (g.stopsOf strict p).map (·.2) =
    (List.range addresses.length).map fun i => (slices.drop i).flatten

/-- The line of a statement shows the code that stands between its offsets. -/
theorem Encoding.line_eq {strict : Bool} {symbols : List Symbol} {statements : List Statement}
    (h : Encoding strict 0 symbols statements) {i start stop : Nat} {s : Statement}
    (hs : statements[i]? = some s) (hstart : (offsetsFrom 0 statements)[i]? = some start)
    (hstop : (offsetsFrom 0 statements)[i + 1]? = some stop) :
    s.line = Listing.lineOf start (cut (statements.flatMap (·.bytes)) start stop) s.symbols := by
  obtain ⟨hi, rfl⟩ := List.getElem?_eq_some_iff.1 hs
  -- the statement stands between the earlier and the later ones
  have hsplit : statements = statements.take i ++ statements[i] :: statements.drop (i + 1) := by
    rw [List.getElem_cons_drop, List.take_append_drop]
  have hstart : start = ((statements.take i).flatMap (·.bytes)).length := by
    rw [eq_of_offsetsFrom hstart, Nat.zero_add]
  have hstop : stop = start + statements[i].bytes.length := by
    rw [eq_of_offsetsFrom hstop, hstart, Nat.zero_add, List.take_succ_eq_append_getElem hi,
      List.flatMap_append, List.length_append, List.flatMap_singleton]
  have haddress : statements[i].address = start := by
    rw [hsplit] at h
    rw [h.address_eq, hstart, Nat.zero_add]
  -- so the code between its offsets is its own
  have hbytes : cut (statements.flatMap (·.bytes)) start stop = statements[i].bytes := by
    have hcut := cut_code (statements.take i) (statements.drop (i + 1)) statements[i]
    rwa [← hsplit, ← hstart, ← hstop] at hcut
  rw [hbytes, ← haddress, Statement.line, Listing.line_eq_lineOf]

/-- A listing with its lines, without the functions that put it together. -/
theorem Generator.listing_eq (g : Generator) : g.listing =
    (g.tagLines fun name value => name.rightpad 20 ++ " = " ++ value).map fun tagLines =>
      "\n".intercalate (["Chameleon Assembler Listing", String.replicate 60 '=', "",
        "Addr  Code          Line  Source", String.replicate 60 '-'] ++ g.lines ++
        ["", "Symbol Table", String.replicate 30 '-'] ++ tagLines) := by
  have hcolumns : (fun name value => name.rightpad 20 ++ " = " ++ value) =
      fun name value => Text.padRight 20 name ++ " = " ++ value := by
    simp only [Text.padRight_eq_rightpad]
  rw [listing, hcolumns]
  simp only [Text.join_eq_intercalate]
  rfl

/-- **Statements tile the stream, the code and the listing** of every program that is encoded, and
the address counter keeps step with them. -/
theorem generate_tiling {g : Generator} {strict : Bool} {p : Program} {code : List UInt8}
    (h : (g.generate strict p).outcome = .ok code) :
    ∃ slices addresses lines, Tiling g strict p code slices addresses lines := by
  obtain ⟨statements, hencoding, rfl, hstate⟩ := encoding_of_generate h
  have hstops : g.stopsOf strict p = _ := Encoding.stops_eq (g := g.start p) hencoding
  -- the slices are what the statements have taken, and the code is cut at their offsets
  refine ⟨statements.map (·.symbols), offsetsFrom 0 statements, statements.map Statement.line, ?_⟩
  constructor
  case flatten => rw [← List.flatMap_def, hencoding.flatMap_symbols]
  case isSlice =>
    intro slice hslice
    obtain ⟨s, hs, rfl⟩ := List.mem_map.1 hslice
    exact hencoding.isSlice s hs
  case length => rw [length_offsetsFrom, List.length_map]
  case first => rw [List.head?_eq_getElem?, offsetsFrom_zero]
  case last => rw [offsetsFrom_getLast?, Nat.zero_add]
  case ordered => exact pairwise_offsetsFrom 0 statements
  case line =>
    refine ⟨by rw [List.length_map, List.length_map], ?_⟩
    -- a line is written from the statement itself, and the same can be seen in the code
    intro i slice start stop hslice hstart hstop
    rw [List.getElem?_map, Option.map_eq_some_iff] at hslice
    obtain ⟨s, hs, rfl⟩ := hslice
    rw [List.getElem?_map, hs, Option.map_some, hencoding.line_eq hs hstart hstop]
  case listing =>
    rw [Generator.listing_eq]
    simp only [hstate]
  case counter =>
    -- the counter has moved by the bytes of the statements so far
    rw [hstops, offsetsFrom_eq, List.map_map]
    simp only [Function.comp_def, Generator.extended, Generator.emit, List.append_nil]
    rfl
  -- all that has been laid down at a stop comes from the statements before it
  case emitted =>
    rw [hstops]
    rintro _ hx
    obtain ⟨i, -, rfl⟩ := List.mem_map.1 hx
    have hcode : ((g.start p).extended (statements.take i) []).code =
        (statements.take i).flatMap (·.bytes) := List.append_nil _
    have haddress : ((g.start p).extended (statements.take i) []).address =
        ((statements.take i).flatMap (·.bytes)).length := by
      simp only [Generator.extended, Generator.emit, List.append_nil]
      exact Nat.zero_add _
    rw [hcode, haddress, take_code]
    exact ⟨rfl, rfl⟩
  case left =>
    rw [hstops, length_offsetsFrom, List.map_map]
    simp only [Function.comp_def, ← List.map_drop, ← List.flatMap_def]

/-- A text of more bytes than a line of the listing shows, and two instructions. -/
def greeting : Program where
  symbols := [⟨.directive, ".string", none, inFirstLine 1⟩,
    ⟨.string, "\"hey\"", none, inFirstLine 9⟩, ⟨.mnemonic, "ADD", none, inFirstLine 15⟩,
    ⟨.mnemonic, "HLT", none, inFirstLine 19⟩]
  tags := []
  definitions := []

theorem generate_greeting : (usedGenerator.generate false greeting).outcome =
    .ok [0x68, 0x65, 0x79, 0x00, 0x20, 0xff] := by cbv

/-- The text is cut from the two instructions. Its line shows three of its four bytes. -/
theorem greeting_tiled :
    (usedGenerator.generate false greeting).outcome =
        .ok [0x68, 0x65, 0x79, 0x00, 0x20, 0xff] ∧
      ∃ slices addresses lines,
        Tiling usedGenerator false greeting [0x68, 0x65, 0x79, 0x00, 0x20, 0xff] slices addresses
          lines ∧
        slices.map (·.map (·.text)) = [[".string", "\"hey\""], ["ADD"], ["HLT"]] ∧
        addresses = [0, 4, 5, 6] ∧
        lines = ["0000  68 65 79 ..      1  .string \"hey\"", "0004  20               1  ADD",
          "0005  FF               1  HLT"] := by
  obtain ⟨slices, addresses, lines, h⟩ := generate_tiling generate_greeting
  have haddresses : (usedGenerator.stopsOf false greeting).map (·.1.address) = [0, 4, 5, 6] := by
    cbv
  have hstreams : (usedGenerator.stopsOf false greeting).map (·.2) =
      [greeting.symbols, greeting.symbols.drop 2, greeting.symbols.drop 3, []] := by cbv
  rw [h.counter] at haddresses
  subst haddresses
  obtain ⟨a, b, c, rfl⟩ := List.length_eq_three.1 (Nat.succ.inj h.length).symm
  -- each slice is what is left at one stop and no more at the next one
  have hleft := hstreams.symm.trans h.left
  simp only [List.length_cons, List.length_nil, List.range_succ_eq_map, List.range_zero,
    List.map_cons, List.map_nil, List.drop_zero, List.drop_succ_cons, List.drop_nil,
    List.flatten_cons, List.flatten_nil, List.append_nil, List.cons.injEq, and_true] at hleft
  obtain ⟨ha, hb, rfl⟩ := hleft
  obtain rfl : [⟨.mnemonic, "ADD", none, inFirstLine 15⟩] = b := List.append_cancel_right hb
  obtain rfl : greeting.symbols.take 2 = a := List.append_cancel_right ha
  obtain ⟨hlength, hline⟩ := h.line
  obtain ⟨x, y, z, rfl⟩ := List.length_eq_three.1 hlength
  -- the lines are those that the theorem says
  have hx := Option.some.inj (hline 0 _ 0 4 rfl rfl rfl)
  have hy := Option.some.inj (hline 1 _ 4 5 rfl rfl rfl)
  have hz := Option.some.inj (hline 2 _ 5 6 rfl rfl rfl)
  refine ⟨generate_greeting, _, _, _, h, rfl, rfl, ?_⟩
  rw [hx, hy, hz]
  cbv

end RomAsm

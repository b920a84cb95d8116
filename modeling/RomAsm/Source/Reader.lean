import RomAsm.Source.Token

/-!
# Readers

A reader is one source with one cursor, on which any number of streams of lexemes or symbols are
read. All streams share the cursor. A stream sets it back to the beginning of the source when its
first item is asked for, and not before; between two items it goes on from wherever the cursor then
stands. Symbols that were split off a lexeme are handed out in full, whatever happens to the cursor.
-/

namespace RomAsm

/-- What a stream hands out. -/
inductive Item where
  | lexeme (l : Lexeme)
  | symbol (s : Symbol)
  deriving Repr

/-- Which items a stream hands out. -/
inductive Stream.Content where
  | lexemes
  | symbols
  deriving DecidableEq, Repr

/-- How far a stream has come. -/
inductive Stream.Progress where
  /-- Nothing has been asked for. -/
  | fresh
  /-- These items are still to be handed out, and then this failure. -/
  | reading (pending : List Item) (failure : Option Failure)
  /-- The stream has ended or failed. -/
  | finished

/-- A stream of items of a source. -/
structure Stream where
  content : Stream.Content
  progress : Stream.Progress

/-- A source, a cursor on it, and the streams that read it, oldest first. -/
structure Reader where
  source : Source
  cursor : Cursor
  streams : List Stream

/-- The items of a lexeme, and the failure that may follow them. -/
def Stream.Content.items (content : Stream.Content) (s : Source) (l : Lexeme) :
    List Item × Option Failure :=
  match content with
  | .lexemes => ([.lexeme l], none)
  | .symbols => ((s.classify l).symbols.map .symbol, (s.classify l).failure)

/-- Hands out the first of the given items, or else the failure behind them. -/
def Stream.handOut (content : Stream.Content) :
    List Item × Option Failure → Except Failure (Option Item) × Stream
  | (item :: pending, failure) => (.ok (some item), ⟨content, .reading pending failure⟩)
  | ([], some failure) => (.error failure, ⟨content, .finished⟩)
  | ([], none) => (.ok none, ⟨content, .finished⟩)

/-- Reads one more lexeme from the cursor and hands out its first item. -/
def Stream.advance (content : Stream.Content) (s : Source) (c : Cursor) :
    Except Failure (Option Item) × Stream × Cursor :=
  match s.next c with
  | .ended after => (.ok none, ⟨content, .finished⟩, after)
  | .failed failure after => (.error failure, ⟨content, .finished⟩, after)
  | .lexeme l after =>
    let (item, stream) := Stream.handOut content (content.items s l)
    (item, stream, after)

/-- The next item of a stream: `none` at its end. -/
def Stream.next (stream : Stream) (s : Source) (c : Cursor) :
    Except Failure (Option Item) × Stream × Cursor :=
  match stream.progress with
  | .fresh => Stream.advance stream.content s s.start
  | .reading [] none => Stream.advance stream.content s c
  | .reading pending failure =>
    let (item, stream) := Stream.handOut stream.content (pending, failure)
    (item, stream, c)
  | .finished => (.ok none, stream, c)

namespace Reader

/-- A reader that has not read anything. -/
def ofSource (s : Source) : Reader := ⟨s, s.start, []⟩

/-- Starts one more stream. -/
def openStream (r : Reader) (content : Stream.Content) : Reader :=
  { r with streams := r.streams ++ [⟨content, .fresh⟩] }

/-- The next item of one of the streams. -/
def next (r : Reader) (index : Nat) : Except Failure (Option Item) × Reader :=
  match r.streams[index]? with
  | none => (.ok none, r)
  | some stream =>
    let (item, stream, cursor) := stream.next r.source r.cursor
    (item, { r with cursor := cursor, streams := r.streams.set index stream })

/-- Reads the whole source anew, as lexemes. -/
def lexemes (r : Reader) : Except Failure (List Lexeme) × Reader :=
  let (lexemes, cursor) := r.source.collect (fun l => .ok [l]) r.source.start
  (lexemes, { r with cursor := cursor })

/-- Reads the whole source anew, as symbols. -/
def symbols (r : Reader) : Except Failure (List Symbol) × Reader :=
  let (symbols, cursor) :=
    r.source.collect (fun l => (r.source.classify l).outcome) r.source.start
  (symbols, { r with cursor := cursor })

/-- Reads the whole source anew, as normalized text. -/
def normalize (r : Reader) : Except Failure String × Reader :=
  let (lexemes, reader) := r.lexemes
  (lexemes.map fun ls => Text.spaced (ls.map (·.text)), reader)

end Reader

end RomAsm

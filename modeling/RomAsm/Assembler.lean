import RomAsm.FileTree
import RomAsm.Generation
import RomAsm.Grouping
import RomAsm.Resolution
import RomAsm.Settings
import RomAsm.Source.Token

/-!
# The assembler

An assembler has settings, a generator, which keeps what has come of the last program, and the path
of the last file it was given. It can be used any number of times.

`frontEnd` takes a source to a resolved program; `assemble` clears the generator and lets it encode
that program.
-/

namespace RomAsm

/-- An assembler, with what it keeps between runs. -/
structure Assembler where
  settings : Settings
  generator : Generator
  sourcePath : Option String
  deriving Repr

namespace Assembler

/-- An assembler that has not assembled anything. -/
def ofSettings (settings : Settings) : Assembler := ⟨settings, .unused, none⟩

/-! ### Assembling -/

/-- The source as a program with its labels placed. -/
def placed (source : Source) : Logged Program := do
  let symbols ← source.tokenize
  let symbols ← Grouping.group symbols
  Layout.place symbols

/-- The source as a resolved program. -/
def resolved (source : Source) : Logged Program := do
  let program ← placed source
  Resolution.resolve program

/-- The source as a resolved program, with a record of how it began and ended. Only a log that shows
every step has the normalized text. -/
def frontEnd (level : Level) (source : Source) : Logged Program := do
  Logged.debug ("Assembling " ++ source.file)
  if level = .debug then
    let text ← source.normalize
    Logged.debug ("Normalized text: " ++ text)
  let program ← resolved source
  Logged.debug ("Resolved stream: " ++ spelled program.symbols)
  return program

/-- Assembles a source. Whatever was assembled before is forgotten. -/
def assemble (a : Assembler) (level : Level) (source : Source) : Attempt Assembler (List UInt8) :=
  let cleared := a.generator.reset
  let front := frontEnd level source
  match front.outcome with
  | .error failure => ⟨{ a with generator := cleared }, front.entries, .error failure⟩
  | .ok program =>
    let t := cleared.generate a.settings.strict program
    let records := front.entries ++ t.records
    match t.outcome with
    | .error failure => ⟨{ a with generator := t.state }, records, .error failure⟩
    | .ok code =>
      let done : Record := ⟨.info,
        "Assembled " ++ source.file ++ ": " ++ Numeral.decimal code.length ++ " bytes"⟩
      ⟨{ a with generator := t.state }, records ++ [done], .ok code⟩

/-- Assembles a file, with room for so many signs in front of a word. Its path is kept before the
file is read. -/
def assembleFile (a : Assembler) (level : Level) (markLimit : Option Nat) (files : FileTree)
    (path : String) : Attempt Assembler (List UInt8) :=
  let path := Path.normalize path
  let a := { a with sourcePath := some path }
  match files.readText path with
  | .error failure => .failed a failure
  | .ok text => a.assemble level { text := text, file := path, markLimit := markLimit }

/-! ### Results -/

/-- The bytes of the last program. -/
def code (a : Assembler) : List UInt8 := a.generator.code

/-- The names of the last program. -/
def tags (a : Assembler) : Table Value := a.generator.tags

/-- The listing of the last program. -/
def listing (a : Assembler) : Except Failure String := a.generator.listing

/-- The dump of the last program. -/
def hexDump (a : Assembler) : String := a.generator.hexDump

/-- The path that the code of the last file goes to, if there was a file. -/
def defaultOutputPath (a : Assembler) : Except Failure (Option String) :=
  match a.sourcePath with
  | none => .ok none
  | some path => (Path.withSuffix path a.settings.outputSuffix).map some

/-- Writes bytes to a file exactly as they are. -/
def writeBytes (files : FileTree) (bytes : List UInt8) (path : String) : Attempt FileTree Unit :=
  match files.write (Path.normalize path) bytes with
  | .ok files =>
    ⟨files, [⟨.debug, "Wrote " ++ Numeral.decimal bytes.length ++ " bytes to " ++ path⟩], .ok ()⟩
  | .error failure => .failed files failure

/-- Writes a text to a file and records what was done. -/
def writeText (files : FileTree) (path : String) (text : Except Failure String) (done : String) :
    Attempt FileTree Unit :=
  match files.writeText path text with
  | (files, .ok ()) => ⟨files, [⟨.debug, done⟩], .ok ()⟩
  | (files, .error failure) => .failed files failure

/-- Writes the code to a file. -/
def writeBinary (a : Assembler) (files : FileTree) (path : String) : Attempt FileTree Unit :=
  writeBytes files a.code path

/-- Writes the names and their values to a file. -/
def writeSymbols (a : Assembler) (files : FileTree) (path : String) : Attempt FileTree Unit :=
  writeText files path a.generator.symbolFile ("Wrote symbols to " ++ path)

/-- Writes the listing to a file. -/
def writeListing (a : Assembler) (files : FileTree) (path : String) : Attempt FileTree Unit :=
  writeText files path a.listing ("Wrote listing to " ++ path)

end Assembler

end RomAsm

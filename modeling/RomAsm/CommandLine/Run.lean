import RomAsm.Assembler
import RomAsm.CommandLine.Options
import RomAsm.CommandLine.Texts
import RomAsm.Text.Styling

/-!
# Running the command

A run of the command is a function of its words, its environment and the files it can see. It says
what goes to the two outputs, which files there are afterwards, and with which code it exits.

The words are sorted out first. Then help or the version is shown, whichever is asked for first.
Then the paths are checked, those of the options in their order and the input last, and only then is
an argument too many reported. After that the input is assembled and the results are written.
-/

namespace RomAsm.CommandLine

/-! ### Exit codes and reports -/

/-- How a run ends. -/
inductive Exit where
  | success
  /-- The program has a problem. -/
  | buildError
  /-- The command was misused, or a file is missing. -/
  | invalidUse
  /-- Anything else. -/
  | internalError
  deriving DecidableEq, Repr

/-- The exit code. -/
def Exit.code : Exit → Nat
  | .success => 0
  | .buildError => 1
  | .invalidUse => 2
  | .internalError => 3

/-- What a run that has failed tells the user. -/
structure Report where
  exit : Exit
  stderr : String
  deriving DecidableEq, Repr

/-- A line of output, without styling. -/
def plainLine (text : String) : String := Text.unstyled text ++ "\n"

/-- The heading of a trace of calls. -/
def traceHeading : String := "Traceback (most recent call last):\n"

/-- The report of a failure with the given text. The report of a failed build names the activity, if
there is one; a verbose report of an internal error ends with the heading of a trace of calls. -/
def report (exit : Exit) (text : String) (verbose : Bool) (activity : String) : Report :=
  match exit with
  | .success => ⟨exit, ""⟩
  | .buildError =>
    ⟨exit, plainLine ((if activity = "" then "" else activity ++ " failed:\n") ++ text)⟩
  | .invalidUse => ⟨exit, plainLine ("Error: " ++ text)⟩
  | .internalError =>
    ⟨exit, plainLine ("Internal error: " ++ text) ++ if verbose then traceHeading else ""⟩

/-- How a run with a failure ends. -/
def exitOf : Failure → Exit
  | .diagnostic _ => .buildError
  | .file .notFound _ => .invalidUse
  | _ => .internalError

/-! ### Results -/

/-- What a run leaves behind. -/
structure Outcome where
  exit : Exit
  stdout : String
  stderr : String
  files : FileTree
  deriving Repr

/-- The records that a run shows, one a line; a verbose run shows all of them, with their levels. -/
def logText (verbose : Bool) (records : List Record) : String :=
  Text.join "" <|
    if verbose then records.map fun r => r.level.name ++ ": " ++ r.message ++ "\n"
    else (visible .warning records).map fun r => r.message ++ "\n"

/-- The outcome of a misuse. -/
def misused (files : FileTree) (m : Misuse) : Outcome where
  exit := .invalidUse
  stdout := ""
  stderr := (if m.showsUsage then usageText else "") ++ plainLine ("Error: " ++ m.message)
  files := files

/-! ### Requests -/

/-- What a command line asks for, once its paths are checked. -/
structure Request where
  input : String
  output : Option String
  listing : Option String
  symbols : Option String
  hexDump : Bool
  strict : Bool
  verbose : Bool
  deriving Repr

/-- Checks the value of an option, which must not be a directory. -/
def checkOption (files : FileTree) (w : Words) (switch : Switch) : Except Misuse Unit :=
  match w.value? switch with
  | some path =>
    if files.isDirectory path then .error (.isDirectory switch.label path) else .ok ()
  | none => .ok ()

/-- The input, which must be there and not be a directory. -/
def checkInput (files : FileTree) : List String → Except Misuse String
  | [] => .error .missingInput
  | path :: _ =>
    if !files.has path then .error (.doesNotExist "'INPUT_FILE'" path)
    else if files.isDirectory path then .error (.isDirectory "'INPUT_FILE'" path)
    else .ok path

/-- What the words of a command line ask for. -/
def request (files : FileTree) (w : Words) : Except Misuse Request := do
  w.order.forM (checkOption files w)
  let input ← checkInput files w.arguments
  match w.arguments with
  | _ :: extra :: more => throw (.extraArguments (extra :: more))
  | _ => pure ()
  return {
    input := Path.normalize input
    output := (w.value? .output).map Path.normalize
    listing := (w.value? .listing).map Path.normalize
    symbols := (w.value? .symbols).map Path.normalize
    hexDump := w.has .hexDump
    strict := w.has .strict
    verbose := w.has .verbose }

/-! ### Carrying a request out -/

/-- What a run has done so far: the files, and what it has written to the two outputs. -/
structure Progress where
  files : FileTree
  stdout : String
  stderr : String

/-- A step of a run: it changes what was done so far, and may fail. -/
abbrev Work := ExceptT Failure (StateM Progress)

/-- Writes to the standard output. -/
def print (text : String) : Work Unit := modify fun p => { p with stdout := p.stdout ++ text }

/-- Writes to the error output. -/
def complain (text : String) : Work Unit := modify fun p => { p with stderr := p.stderr ++ text }

/-- Does something with the files and shows what it has logged. -/
def onFiles (verbose : Bool) (operation : FileTree → Attempt FileTree Unit) : Work Unit := do
  let t := operation (← get).files
  modify fun p => { p with files := t.state }
  complain (logText verbose t.records)
  t.outcome

/-- Assembles the input, with room for so many signs in front of a word, and writes what was asked
for. -/
def carryOut (settings : Settings) (markLimit : Option Nat) (r : Request) : Work Unit := do
  let verbose := settings.verbose
  let level := if verbose then .debug else .warning
  let t := (Assembler.ofSettings settings).assembleFile level markLimit (← get).files r.input
  complain (logText verbose t.records)
  let code ← t.outcome
  let a := t.state
  let output := match r.output with
    | some path => pure path
    | none => a.defaultOutputPath.map (·.getD "")
  let output ← output
  if code.isEmpty then
    complain (plainLine
      ("Warning: " ++ r.input ++ " produced no code; " ++ output ++ " not written"))
  else onFiles verbose fun files => a.writeBinary files output
  if let some path := r.listing then onFiles verbose fun files => a.writeListing files path
  if let some path := r.symbols then onFiles verbose fun files => a.writeSymbols files path
  if r.hexDump then print (plainLine a.hexDump)
  if verbose && !code.isEmpty then
    print (plainLine ("Wrote " ++ Numeral.decimal code.length ++ " bytes to " ++ output))
    print (plainLine ("Defined " ++ Numeral.decimal a.tags.length ++ " symbols"))

/-- The settings of a run: those of the environment, and the flags of the command line. -/
def settings (env : Environment) (r : Request) : Settings :=
  let s := Settings.ofEnvironment env
  { s with strict := s.strict || r.strict, verbose := s.verbose || r.verbose }

/-- Carries a request out and reports a failure. -/
def serve (env : Environment) (markLimit : Option Nat) (files : FileTree) (r : Request) : Outcome :=
  let s := settings env r
  match (carryOut s markLimit r).run ⟨files, "", ""⟩ with
  | (.ok (), p) => ⟨.success, p.stdout, p.stderr, p.files⟩
  | (.error failure, p) =>
    let report := report (exitOf failure) failure.message s.verbose "Assembly"
    ⟨report.exit, p.stdout, p.stderr ++ report.stderr, p.files⟩

/-- The paths that a run may look at: those on the command line, and those that the code goes to by
default. -/
def paths (args : List String) (env : Environment) : List String :=
  match Words.ofArgs args with
  | .error _ => []
  | .ok w =>
    let suffix := (Settings.ofEnvironment env).outputSuffix
    w.arguments ++ w.options.filterMap (·.2) ++
      w.arguments.filterMap fun path => (Path.withSuffix path suffix).toOption

/-- Runs the command. -/
def run (args : List String) (env : Environment) (markLimit : Option Nat) (files : FileTree) :
    Outcome :=
  match Words.ofArgs args with
  | .error m => misused files m
  | .ok w =>
    match w.order.find? fun switch => switch == .help || switch == .version with
    | some .version => ⟨.success, versionText, "", files⟩
    | some _ => ⟨.success, helpText, "", files⟩
    | none =>
      match request files w with
      | .error m => misused files m
      | .ok r => serve env markLimit files r

/-- Runs the command as a process, which must be able to have such words and such an environment. -/
def start (args : List String) (env : Environment) (markLimit : Option Nat) (files : FileTree) :
    Except Failure Outcome := do
  env.check
  args.forM checkNoNull
  return run args env markLimit files

end RomAsm.CommandLine

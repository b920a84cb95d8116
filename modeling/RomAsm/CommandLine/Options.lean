import RomAsm.Text.Resemblance
import RomAsm.Text.Quoted
import RomAsm.Text.Spaced

/-!
# Options of the command line

The words of a command line are options, with or without a value, and arguments. Options and
arguments may come in any order; `--` ends the options. Short options can be written together, and a
value can be written in the same word as its option.

`Words.ofArgs` sorts the words of a command line out, or says how the options are misused.
-/

namespace RomAsm.CommandLine

/-- The options of the command. -/
inductive Switch where
  | output
  | listing
  | symbols
  | hexDump
  | strict
  | verbose
  | version
  | help
  deriving DecidableEq, Repr

/-- Whether an option has a value. -/
def Switch.takesValue : Switch → Bool
  | .output | .listing | .symbols => true
  | _ => false

/-- The long names of the options. -/
def longNames : List (String × Switch) :=
  [("--output", .output), ("--listing", .listing), ("--symbols", .symbols),
   ("--hex-dump", .hexDump), ("--strict", .strict), ("--verbose", .verbose),
   ("--version", .version), ("--help", .help)]

/-- The letters of the options. -/
def letters : List (Char × Switch) :=
  [('o', .output), ('l', .listing), ('s', .symbols), ('x', .hexDump), ('v', .verbose)]

/-- The name of an option in a message: its short and its long name. -/
def Switch.label : Switch → String
  | .output => "'-o' / '--output'"
  | .listing => "'-l' / '--listing'"
  | .symbols => "'-s' / '--symbols'"
  | .hexDump => "'-x' / '--hex-dump'"
  | .strict => "'--strict'"
  | .verbose => "'-v' / '--verbose'"
  | .version => "'--version'"
  | .help => "'--help'"

/-- The ways in which a command line is misused. -/
inductive Misuse where
  /-- There is no such option; some options with names like it may have been meant. -/
  | noSuchOption (name : String) (similar : List String)
  | valueRequired (name : String)
  | valueRefused (name : String)
  | missingInput
  | extraArguments (arguments : List String)
  /-- The value of an option or an argument, which is given by its label, is a directory. -/
  | isDirectory (label path : String)
  /-- The value of an option or an argument, which is given by its label, does not exist. -/
  | doesNotExist (label path : String)
  deriving DecidableEq, Repr

/-- The wording of a misuse. -/
def Misuse.message : Misuse → String
  | .noSuchOption name [] => "No such option: " ++ name
  | .noSuchOption name [similar] => "No such option: " ++ name ++ " Did you mean " ++ similar ++ "?"
  | .noSuchOption name similar =>
    "No such option: " ++ name ++ " (Possible options: " ++
      Text.join ", " (similar.mergeSort fun a b => decide (a ≤ b)) ++ ")"
  | .valueRequired name => "Option " ++ Text.quoted name ++ " requires an argument."
  | .valueRefused name => "Option " ++ Text.quoted name ++ " does not take a value."
  | .missingInput => "Missing argument 'INPUT_FILE'."
  | .extraArguments arguments =>
    "Got unexpected extra argument" ++ (if arguments.length = 1 then "" else "s") ++ " (" ++
      Text.spaced arguments ++ ")"
  | .isDirectory label path =>
    "Invalid value for " ++ label ++ ": File " ++ Text.quoted path ++ " is a directory."
  | .doesNotExist label path =>
    "Invalid value for " ++ label ++ ": File " ++ Text.quoted path ++ " does not exist."

/-- Whether the message about a misuse comes with the usage of the command. -/
def Misuse.showsUsage : Misuse → Bool
  | .valueRequired _ | .valueRefused _ => false
  | _ => true

/-- The words of a command line: its options with their values, and its arguments, in order. -/
structure Words where
  options : List (Switch × Option String)
  arguments : List String
  deriving Repr

/-- What one word of options gives: whole options, and an option whose value is the next word, with
the name it goes by. -/
abbrev WordOptions := List (Switch × Option String) × Option (Switch × String)

/-- The options in a word of letters. -/
def shortOptions : List Char → Except Misuse WordOptions
  | [] => .ok ([], none)
  | c :: rest =>
    let name := String.ofList ['-', c]
    match letters.lookup c with
    | none => .error (.noSuchOption name [])
    | some switch =>
      if switch.takesValue then
        if rest.isEmpty then .ok ([], some (switch, name))
        else .ok ([(switch, some (String.ofList rest))], none)
      else (shortOptions rest).map fun (options, owed) => ((switch, none) :: options, owed)

/-- The option that a long name and the value behind its equals sign give. -/
def longOption (switch : Switch) (name : String) : Option String → Except Misuse WordOptions
  | some value =>
    if switch.takesValue then .ok ([(switch, some value)], none) else .error (.valueRefused name)
  | none =>
    if switch.takesValue then .ok ([], some (switch, name)) else .ok ([(switch, none)], none)

/-- The options in a word that begins with a dash. -/
def wordOptions (text : List Char) : Except Misuse WordOptions :=
  let name := String.ofList (text.takeWhile (· ≠ '='))
  let value? := match text.dropWhile (· ≠ '=') with
    | [] => none
    | _ :: value => some (String.ofList value)
  match longNames.lookup name with
  | some switch => longOption switch name value?
  | none =>
    if text.take 2 = ['-', '-'] then
      .error (.noSuchOption name (Text.closeMatches name (longNames.map (·.1))))
    else shortOptions (text.drop 1)

/-- Sorts out the words of a command line, where `owed` is an option that still needs its value. -/
def Words.scan : (owed : Option (Switch × String)) → List String → Except Misuse Words
  | some (_, name), [] => .error (.valueRequired name)
  | some (switch, _), value :: rest => do
    let words ← Words.scan none rest
    return { words with options := (switch, some value) :: words.options }
  | none, [] => .ok ⟨[], []⟩
  | none, word :: rest =>
    if word = "--" then .ok ⟨[], rest⟩
    else if word.startsWith "-" && decide (1 < word.length) then do
      let (options, owed) ← wordOptions word.toList
      let words ← Words.scan owed rest
      return { words with options := options ++ words.options }
    else do
      let words ← Words.scan none rest
      return { words with arguments := word :: words.arguments }

/-- Sorts out the words of a command line. -/
def Words.ofArgs (args : List String) : Except Misuse Words := Words.scan none args

namespace Words

/-- Whether an option is given. -/
def has (w : Words) (switch : Switch) : Bool := w.options.any (·.1 == switch)

/-- The value of an option: the last one given. -/
def value? (w : Words) (switch : Switch) : Option String :=
  (w.options.reverse.find? (·.1 == switch)).bind (·.2)

/-- The options in the order in which each is first given. -/
def order (w : Words) : List Switch := (w.options.map (·.1)).eraseDups

end Words

end RomAsm.CommandLine

import RomAsm.Failure
import RomAsm.Text.Case

/-!
# Settings

The settings of an assembler come from the environment, and single ones may be overridden. A flag in
the environment counts as set if it is spelled in one of four ways, whatever its case and whatever
white space surrounds it; an empty one says nothing.
-/

namespace RomAsm

/-- The settings of an assembler. -/
structure Settings where
  /-- Whether an operand that does not fit its field is a failure. -/
  strict : Bool := false
  /-- Whether the steps of the work are shown. -/
  verbose : Bool := false
  /-- The suffix of the file that the code goes to, where no file is named. -/
  outputSuffix : String := ".bin"
  deriving DecidableEq, Repr

/-- Settings to be overridden; `unknown` are names of no setting for which a value was given. -/
structure Overrides where
  strict : Option Bool := none
  verbose : Option Bool := none
  outputSuffix : Option String := none
  unknown : List String := []
  deriving DecidableEq, Repr

/-- The variables of an environment with their values. -/
abbrev Environment := List (String × String)

/-- Fails on an environment that no process can have. -/
def Environment.check (env : Environment) : Except Failure Unit :=
  env.forM fun (name, value) => do
    checkNoNull name
    checkNoNull value

namespace Settings

/-- The spellings of a flag that is set. -/
def trueValues : List String := ["1", "true", "yes", "on"]

/-- The value of a flag; `none` if it is empty. -/
def flag? (value : String) : Option Bool :=
  match Text.trimmed value.toList with
  | [] => none
  | text => some (trueValues.contains (String.ofList (Text.lower text)))

/-- The suffix that a non-empty text stands for: it begins with a dot. -/
def suffix? (value : String) : Option String :=
  match value.toList with
  | [] => none
  | '.' :: _ => some value
  | _ => some ("." ++ value)

/-- The variables of the environment that hold settings. -/
def variableNames : List String := ["CHASM_STRICT", "CHASM_VERBOSE", "CHASM_OUTPUT_SUFFIX"]

/-- The settings that an environment gives. -/
def ofEnvironment (env : Environment) : Settings where
  strict := ((env.lookup "CHASM_STRICT").bind flag?).getD false
  verbose := ((env.lookup "CHASM_VERBOSE").bind flag?).getD false
  outputSuffix := ((env.lookup "CHASM_OUTPUT_SUFFIX").bind suffix?).getD ".bin"

/-- The settings with some of them overridden; nothing is overridden if a name is unknown. -/
def override (s : Settings) (o : Overrides) : Except Failure Settings :=
  match o.unknown with
  | name :: _ => .error (.unknownSetting name)
  | [] => .ok
    { strict := o.strict.getD s.strict
      verbose := o.verbose.getD s.verbose
      outputSuffix := o.outputSuffix.getD s.outputSuffix }

end Settings

end RomAsm

import RomAsm.Trace

/-!
# The log

Records of what the assembler does, each with a level. A reader of the log asks for the records from
some level on.
-/

namespace RomAsm

/-- How important a record is. -/
inductive Level where
  | debug
  | info
  | warning
  | error
  deriving DecidableEq, Repr

/-- The place of a level in their order. -/
def Level.rank : Level → Nat
  | .debug => 0
  | .info => 1
  | .warning => 2
  | .error => 3

/-- The name of a level. -/
def Level.name : Level → String
  | .debug => "DEBUG"
  | .info => "INFO"
  | .warning => "WARNING"
  | .error => "ERROR"

/-- One record of the log. -/
structure Record where
  level : Level
  message : String
  deriving DecidableEq, Repr

/-- A computation that writes to the log. -/
abbrev Logged := Trace Record

namespace Logged

/-- Records a step of the work. -/
def debug (message : String) : Logged Unit := Trace.write ⟨.debug, message⟩

end Logged

/-- The records from the given level on. -/
def visible (level : Level) (records : List Record) : List Record :=
  records.filter fun r => decide (level.rank ≤ r.level.rank)

end RomAsm

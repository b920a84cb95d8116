import RomAsm.Log

/-!
# Attempts

An operation on something that keeps a state, such as an assembler or a tree of files, leaves three
things behind whether it succeeds or not: the new state, what it has written to the log, and how it
ended.
-/

namespace RomAsm

/-- What an operation on a state leaves behind. -/
structure Attempt (σ α : Type) where
  state : σ
  records : List Record
  outcome : Except Failure α

namespace Attempt

variable {σ α : Type}

/-- An operation that failed without a record. -/
def failed (state : σ) (failure : Failure) : Attempt σ α := ⟨state, [], .error failure⟩

end Attempt

end RomAsm

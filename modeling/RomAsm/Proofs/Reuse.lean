import RomAsm.Proofs.Failing

/-!
# An assembler used again

An assembler is used for one program after the other, next to files that it reads and writes and
that others may change. `Desk` is an assembler with the files around it, and `Action` is what can be
done there; any action may fail, and a run may stop in the middle of the code.

A run sees nothing of the runs before it, although they may have left code, a counter that has
moved, names and lines of a listing. All four are cleared before anything is added to them: what a
generator makes of a program is the same from any state (`Generator.generate_eq`), so a run comes to
the same on any two assemblers with the same settings (`assemble_of_settings`). No action changes
the settings (`settings_perform`, `settings_run`). So after any actions a run is that of a new
assembler (`assemble_after_run`).
-/

namespace RomAsm

/-- An assembler and the files around it. -/
structure Desk where
  assembler : Assembler
  files : FileTree

/-- What can be done at a desk. -/
inductive Action where
  | assemble (level : Level) (source : Source)
  | assembleFile (level : Level) (markLimit : Option Nat) (path : String)
  | writeBinary (path : String)
  | writeSymbols (path : String)
  | writeListing (path : String)
  /-- To look at the code, the names, the listing, the dump or the default path of the output. -/
  | look
  /-- To have the files changed by someone else. -/
  | edit (files : FileTree)

namespace Desk

/-- The desk after an action, whether it succeeds or fails. -/
def perform (d : Desk) : Action → Desk
  | .assemble level source => { d with assembler := (d.assembler.assemble level source).state }
  | .assembleFile level markLimit path =>
    { d with assembler := (d.assembler.assembleFile level markLimit d.files path).state }
  | .writeBinary path => { d with files := (d.assembler.writeBinary d.files path).state }
  | .writeSymbols path => { d with files := (d.assembler.writeSymbols d.files path).state }
  | .writeListing path => { d with files := (d.assembler.writeListing d.files path).state }
  | .look => d
  | .edit files => { d with files := files }

/-- The desk after some actions. -/
def run (d : Desk) (actions : List Action) : Desk := actions.foldl perform d

end Desk

/-! ### One run -/

namespace Assembler

/-- **Whatever an assembler has kept, a run comes to the same** as on any other with its settings:
in its outcome, in its records, and in the code, the counter, the names and the lines that it
leaves. -/
theorem assemble_of_settings {a b : Assembler} (h : a.settings = b.settings) (level : Level)
    (source : Source) :
    (a.assemble level source).outcome = (b.assemble level source).outcome ∧
      (a.assemble level source).records = (b.assemble level source).records ∧
      (a.assemble level source).state.generator = (b.assemble level source).state.generator := by
  -- both start from a generator that is cleared
  have hreset : a.generator.reset = b.generator.reset := rfl
  unfold assemble
  dsimp only
  cases (frontEnd level source).outcome with
  -- nothing has been generated
  | error failure => exact ⟨rfl, rfl, hreset⟩
  | ok p =>
    dsimp only
    rw [h, Generator.generate_eq a.generator.reset b.generator.reset]
    cases (b.generator.reset.generate b.settings.strict p).outcome <;> exact ⟨rfl, rfl, rfl⟩

/-- What a run leaves is the same on a new assembler. -/
theorem generator_assemble (a : Assembler) (level : Level) (source : Source) :
    (a.assemble level source).state.generator =
      ((ofSettings a.settings).assemble level source).state.generator := by
  have hsettings : a.settings = (ofSettings a.settings).settings := rfl
  exact (assemble_of_settings hsettings level source).2.2

/-- A file that is read is assembled like its text, and one that is not leaves the generator
alone. -/
theorem generator_assembleFile (a : Assembler) (level : Level) (markLimit : Option Nat)
    (files : FileTree) (path : String) :
    (a.assembleFile level markLimit files path).state.generator = a.generator ∨
      ∃ source, (a.assembleFile level markLimit files path).state.generator =
        ((ofSettings a.settings).assemble level source).state.generator := by
  unfold assembleFile
  dsimp only
  split
  · -- the file cannot be read
    exact .inl rfl
  · exact .inr ⟨_, generator_assemble _ level _⟩

end Assembler

/-! ### Many actions -/

namespace Desk

open Assembler

/-- No action changes the settings. -/
theorem settings_perform (d : Desk) (action : Action) :
    (d.perform action).assembler.settings = d.assembler.settings := by
  cases action with
  | assemble level source => exact settings_assemble d.assembler level source
  | assembleFile level markLimit path =>
    exact settings_call d.assembler (.file level markLimit d.files path)
  | writeBinary | writeSymbols | writeListing | look | edit => rfl

/-- So any number of actions keeps them. -/
theorem settings_run (d : Desk) (actions : List Action) :
    (d.run actions).assembler.settings = d.assembler.settings := by
  induction actions generalizing d with
  | nil => rfl
  | cons action actions ih => exact (ih (d.perform action)).trans (settings_perform d action)

/-- An action keeps the generator, or leaves it as one run does on a new assembler. -/
theorem generator_perform (d : Desk) (action : Action) :
    (d.perform action).assembler.generator = d.assembler.generator ∨
      ∃ level source, (d.perform action).assembler.generator =
        ((ofSettings d.assembler.settings).assemble level source).state.generator := by
  cases action with
  | assemble level source => exact .inr ⟨level, source, generator_assemble d.assembler level source⟩
  | assembleFile level markLimit path =>
    rcases generator_assembleFile d.assembler level markLimit d.files path with
      hkept | ⟨source, hrun⟩
    · exact .inl hkept
    · exact .inr ⟨level, source, hrun⟩
  | writeBinary | writeSymbols | writeListing | look | edit => exact .inl rfl

/-- So a generator always keeps what one run has left, or what was there first: programs never
mix. -/
theorem generator_run (d : Desk) (actions : List Action) :
    (d.run actions).assembler.generator = d.assembler.generator ∨
      ∃ level source, (d.run actions).assembler.generator =
        ((ofSettings d.assembler.settings).assemble level source).state.generator := by
  -- from the first action on, with the desk that it leaves
  induction actions generalizing d with
  | nil => exact .inl rfl
  | cons action actions ih =>
    have hrun : d.run (action :: actions) = (d.perform action).run actions := rfl
    rw [hrun]
    -- what the later actions leave is theirs, or else what this action has left
    rcases ih (d.perform action) with hlater | ⟨level, source, hlater⟩
    · rw [hlater]
      exact generator_perform d action
    · rw [settings_perform] at hlater
      exact .inr ⟨level, source, hlater⟩

/-- **Runs do not leak.** After any actions, failed ones and unfinished runs among them, and
whatever the generator kept before these, a run comes to the same as on a new assembler with the
same settings: the same code or the same failure, with the same records. All that the generator
keeps afterwards is the same too, and so is what can be looked at. Between runs there is never more
to look at than one run leaves. -/
theorem assemble_after_run (d : Desk) (actions : List Action) (level : Level) (source : Source) :
    let used := (d.run actions).assembler.assemble level source
    let new := (ofSettings d.assembler.settings).assemble level source
    used.outcome = new.outcome ∧ used.records = new.records ∧
      used.state.generator = new.state.generator ∧
      used.state.code = new.state.code ∧ used.state.tags = new.state.tags ∧
      used.state.listing = new.state.listing ∧ used.state.hexDump = new.state.hexDump ∧
      ((d.run actions).assembler.generator = d.assembler.generator ∨
        ∃ level source, (d.run actions).assembler.generator =
          ((ofSettings d.assembler.settings).assemble level source).state.generator) := by
  intro used new
  -- the settings are all that a run depends on, and they are still the same
  have hsettings : (d.run actions).assembler.settings =
      (ofSettings d.assembler.settings).settings :=
    settings_run d actions
  obtain ⟨houtcome, hrecords, hgenerator⟩ := assemble_of_settings hsettings level source
  exact ⟨houtcome, hrecords, hgenerator, congrArg Generator.code hgenerator,
    congrArg Generator.tags hgenerator, congrArg Generator.listing hgenerator,
    congrArg Generator.hexDump hgenerator, generator_run d actions⟩

/-- A run that stops in the middle leaves a byte, a moved counter, a name and a line; what a run
after it leaves is its own. -/
example :
    let zeros : Program := ⟨[⟨.mnemonic, "NOP", none, none⟩, ⟨.directive, ".reserve", none, none⟩,
      ⟨.integer, "9223372036854775808", some 9223372036854775808, none⟩], [("x", some 1)], []⟩
    let stopped := (Generator.unused.generate false zeros).state
    stopped = ⟨[0x00], 1, [("x", some 1)], ["0000  00               0  NOP"]⟩ ∧
      (stopped.generate false oneByteResolved).state =
        ⟨[0x00], 1, [], ["0000  00               1  NOP"]⟩ := by
  constructor <;> cbv

end Desk

end RomAsm

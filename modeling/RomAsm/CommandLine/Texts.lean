import RomAsm.Text.Spaced

/-!
# Texts of the command line

What the command says about itself: its version, its usage, and its help.
-/

namespace RomAsm.CommandLine

/-- The answer to a question for the version. -/
def versionText : String := "chasm, version 1.0.0\n"

/-- The line that shows how the command is used. -/
def usageLine : String := "Usage: chasm [OPTIONS] INPUT_FILE"

/-- The lines before the message about a misuse. -/
def usageText : String := usageLine ++ "\nTry 'chasm --help' for help.\n\n"

/-- The lines of the help. -/
def helpLines : List String :=
  [usageLine,
   "",
   "  Assemble Chameleon source code into a binary image.",
   "",
   "  INPUT_FILE is the assembly source file to assemble.",
   "",
   "  Examples:",
   "      chasm prog.asm               # Outputs prog.bin",
   "      chasm prog.asm -o prog.rom   # Specify output file",
   "      chasm prog.asm -x            # Also print a hex dump",
   "",
   "Options:",
   "  -o, --output FILE   Output binary file (default: input with the configured",
   "                      suffix, .bin)",
   "  -l, --listing FILE  Generate listing file",
   "  -s, --symbols FILE  Generate symbol file",
   "  -x, --hex-dump      Print the code as hex byte pairs for a simulator ROM",
   "  --strict            Reject operands that do not fit their field instead of",
   "                      truncating them",
   "  -v, --verbose       Verbose output",
   "  --version           Show the version and exit.",
   "  --help              Show this message and exit."]

/-- The help. -/
def helpText : String := Text.join "\n" helpLines ++ "\n"

end RomAsm.CommandLine

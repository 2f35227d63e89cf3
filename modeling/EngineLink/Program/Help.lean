import EngineLink.Program.Invocation

/-!
# The help text

The commands with their options, one command on a line.
-/

namespace EngineLink.Help

/-- An option as it is written. -/
def optionText (o : Arguments.Opt) : String :=
  "--" ++ o.name ++ (if o.form = .flag then "" else " VALUE")

/-- A command with its options. -/
def commandText (c : Arguments.Command) : String :=
  "  simbridge " ++ " ".intercalate (c.name :: c.options.map optionText) ++ "\n"

/-- How the program is called. -/
def text : String :=
  "Usage:\n" ++ String.join (Invocation.commands.map commandText)

end EngineLink.Help

import ShaderStage.Tool.Compiler
import ShaderStage.Tool.Lister

/-! # The tools

Two tools: one compiles descriptions, the other lists binaries. -/

namespace ShaderStage

/-- A tool: its commands, and what it does for an invocation of them. -/
structure Tool where
  commands : Tool.CommandSet
  script : Tool.Invocation → Tool.Script

namespace Tool

/-- The tool that compiles descriptions. -/
def compiler : Tool := ⟨Compiler.commands, Compiler.script⟩

/-- The tool that lists binaries. -/
def lister : Tool := ⟨Lister.commands, Lister.script⟩

/-- The name under which a tool is called. -/
def name (t : Tool) : String := t.commands.root.name

/-- The tool of a name. -/
def ofName? (name : String) : Option Tool :=
  [compiler, lister].find? (·.name = name)

/-- What a tool does for a command line. -/
def start (t : Tool) (line : List String) : Script :=
  match t.commands.parse line with
  | .ok i => t.script i
  | .error e => .print 1 (Report.line "CLI Usage Error" e.message)

/-- Runs command lines, each with its tool, one after the other. -/
def runAll (files : Files) : List (Tool × List String) → List Result × Files
  | [] => ([], files)
  | (t, line) :: rest =>
    let (result, files) := (t.start line).run files
    let (results, files) := runAll files rest
    (result :: results, files)

end Tool

end ShaderStage

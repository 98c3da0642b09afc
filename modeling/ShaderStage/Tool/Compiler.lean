import ShaderStage.Build
import ShaderStage.Report
import ShaderStage.Text.Utf8
import ShaderStage.Tool.Arguments
import ShaderStage.Tool.Files

/-! # The compiling tool

Builds the binary of a description, or only checks one. -/

namespace ShaderStage.Tool.Compiler

/-- The module versions that can be asked for. -/
def versions : List (String × Version) :=
  [("1.0", ⟨1, 0⟩), ("1.2", ⟨1, 2⟩), ("1.3", ⟨1, 3⟩), ("1.4", ⟨1, 4⟩), ("1.5", ⟨1, 5⟩),
   ("1.6", ⟨1, 6⟩)]

/-- Writes the binary of a description. -/
def buildCommand : Command where
  name := "build"
  argument := some "input"
  options :=
    [⟨"output", "o", .text⟩, ⟨"spirv", "sv", .choice (versions.map Prod.fst)⟩,
     ⟨"no-validate", "nv", .flag⟩, ⟨"disassemble", "d", .flag⟩]

/-- Says what is wrong with a description. -/
def checkCommand : Command where
  name := "check"
  argument := some "input"

/-- Says which version of the tool this is. -/
def versionCommand : Command where
  name := "version"

/-- The commands of the tool. -/
def commands : CommandSet where
  root := { name := "spvgen" }
  subcommands := [buildCommand, checkCommand, versionCommand]

/-- The version of the tool. -/
def toolVersion : String := "0.1.0-dev"

/-- What a build is asked for. -/
structure BuildRequest where
  input : String
  output : String
  version : Version := .default
  validate : Bool := true
  /-- The listing of the binary is printed. -/
  listed : Bool := false
deriving DecidableEq

namespace BuildRequest

/-- The request of an invocation. Unless it says otherwise, the binary goes beside its
description. -/
def ofInvocation (i : Invocation) : BuildRequest where
  input := i.argument
  output := (i.values.lookup "output").getD (Path.withoutExtension i.argument ++ ".spv")
  version := ((i.values.lookup "spirv").bind (versions.lookup ·)).getD .default
  validate := "no-validate" ∉ i.flags
  listed := "disassemble" ∈ i.flags

/-- The options of the build. -/
def options (r : BuildRequest) : BuildOptions where
  version := r.version
  sourceFile := Path.base r.input
  validate := r.validate

end BuildRequest

/-- The tag of an error of a build. -/
def errorTag (d : Diagnostic) : String :=
  match d.kind? with
  | some kind => kind.label ++ " Error"
  | none => "Compile Error"

/-- Ends without a binary, after a text was printed. -/
def endWithout (printed : String) (e : BuildError) : Script :=
  match e.diagnostic? with
  | .ok d => .print 1 (printed ++ Report.line (errorTag d) d.message)
  | .error _ => .print 2 printed

/-- Tells of a binary. -/
def success (r : BuildRequest) (binary : List UInt8) (warnings : Nat) : String :=
  Report.line "Success" (s!"compiled {r.input} to {r.output} ({binary.length} bytes)" ++
    if warnings = 0 then "" else s!", {warnings} warning(s)")

/-- Reads the description at a path. -/
def withDescription (path : String) (next : Program → Script) : Script :=
  .read path fun
    | .error e => .print 1 (Report.line "Description Error" e.message)
    | .ok bytes =>
      match Description.read (Text.ofBytes bytes) with
      | .error e => .print 1 (Report.line "Description Error" e.message)
      | .ok program => next program

/-- Builds a binary. -/
def buildScript (r : BuildRequest) : Script :=
  withDescription r.input fun program =>
    let built := build (some program) r.options
    let (printed, console) :=
      (Console.mk "Layout" false 0).warnAll (built.warnings.map Warning.message)
    match built.binary with
    | .error e => endWithout printed e
    | .ok binary =>
      .write r.output binary fun
        | .error e => .print 1 (printed ++ Report.line "Output Error" e.message)
        | .ok () =>
          match if r.listed then listing binary else .ok "" with
          | .error e => .print 1 (printed ++ Report.line "Disassembly Error" e.message)
          | .ok text => .print 0 (printed ++ text ++ success r binary console.warnings)

/-- Checks a description. -/
def checkScript (path : String) : Script :=
  withDescription path fun program =>
    match program.validate with
    | [] =>
      let fields := program.fields.length
      let methods := program.methods.length
      .print 0 (Report.line "OK" s!"{path}: {fields} field(s), {methods} method(s)")
    | issues =>
      .print 1 (.join (issues.map fun i => Report.line "Validation Error" i.message))

/-- What the tool does for an invocation. -/
def script (i : Invocation) : Script :=
  match i.subcommand with
  | some c =>
    if c.name = buildCommand.name then buildScript (.ofInvocation i)
    else if c.name = checkCommand.name then checkScript i.argument
    else .print 0 (Report.line "spvgen Version" toolVersion)
  | none => .print 0 ""

end ShaderStage.Tool.Compiler

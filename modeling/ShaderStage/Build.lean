import ShaderStage.Compile.Basic
import ShaderStage.Description.Basic
import ShaderStage.Diagnostic
import ShaderStage.Module.Listing
import ShaderStage.Program.Validation

/-! # Building

From a program to a binary: validation, if it is wanted, and compilation. -/

namespace ShaderStage

/-- Options of a build. -/
structure BuildOptions extends Options where
  validate : Bool := true
deriving DecidableEq

/-- Why there is no binary. -/
inductive BuildError where
  | noProgram
  | invalid (issue : Issue)
  | refused (error : CompileError)
  | fault (cause : Fault)
deriving DecidableEq

/-- The error as a diagnostic; a fault has none. -/
def BuildError.diagnostic? : BuildError → Except Fault Diagnostic
  | .noProgram => .ok (.within "validation error" (.plain Program.missingMessage))
  | .invalid issue => .ok (.within "validation failed" (.issue issue))
  | .refused error => .ok (.within "SPIR-V generation error" error.diagnostic)
  | .fault cause => .error cause

/-- What came of a build: a binary or an error, and the warnings of the compilation. -/
structure Built where
  binary : Except BuildError (List UInt8)
  warnings : List Warning

/-- The first reason that validation finds against a build. -/
def validationError? (program : Option Program) : Option BuildError :=
  match program with
  | none => some .noProgram
  | some p => p.validate.head?.map .invalid

/-- Builds a binary. -/
def build (program : Option Program) (o : BuildOptions) : Built :=
  match if o.validate then validationError? program else none with
  | some e => ⟨.error e, []⟩
  | none =>
    let outcome := compile program o.toOptions
    let binary :=
      match outcome.words with
      | .ok words => .ok (Binary.ofWords words)
      | .error (.refused e) => .error (.refused e)
      | .error (.fault f) => .error (.fault f)
    ⟨binary, outcome.record.warnings⟩

/-- Builds the binary of a description. -/
def buildText (text : String) (o : BuildOptions) : Except Description.ReadError Built :=
  (Description.read text).map fun p => build (some p) o

/-- An error in reading a description to build, as a diagnostic. -/
def Description.ReadError.diagnostic (e : ReadError) : Diagnostic :=
  .within "decode error" (.plain e.message)

/-- The listing of a binary. -/
def listing (binary : List UInt8) : Except DecodeError String :=
  (Module.decodeBytes binary).map Module.text

end ShaderStage

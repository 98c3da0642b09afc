import ShaderStage.CompileError
import ShaderStage.Program.Validation

/-! # Diagnostics

An error as a caller sees it: a cause, inside the contexts that it went through. -/

namespace ShaderStage

/-- An error and the contexts around it. -/
inductive Diagnostic where
  | compile (kind : ErrorKind) (text : String)
  | issue (found : Issue)
  | plain (text : String)
  | within (context : String) (cause : Diagnostic)
deriving DecidableEq

namespace Diagnostic

/-- The full text, the outermost context first. -/
def message : Diagnostic → String
  | .compile kind text => kind.message text
  | .issue found => found.message
  | .plain text => text
  | .within context cause => context ++ ": " ++ cause.message

/-- The cause without its contexts. -/
def cause : Diagnostic → Diagnostic
  | .within _ cause => cause.cause
  | d => d

/-- The kind of the compile error at the bottom. -/
def kind? (d : Diagnostic) : Option ErrorKind :=
  match d.cause with
  | .compile kind _ => some kind
  | _ => none

/-- The cause is something that modules cannot express. -/
def isUnsupported (d : Diagnostic) : Bool :=
  d.kind?.any ErrorKind.isUnsupported

end Diagnostic

/-- A compile error as a diagnostic. -/
def CompileError.diagnostic (e : CompileError) : Diagnostic :=
  .compile e.kind e.text

end ShaderStage

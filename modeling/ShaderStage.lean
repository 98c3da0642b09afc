import ShaderStage.Binary32.Read
import ShaderStage.Binary32.Rounding
import ShaderStage.Binary32.Shortest
import ShaderStage.Build
import ShaderStage.Compile.Basic
import ShaderStage.Compile.Body
import ShaderStage.Compile.Layout
import ShaderStage.CompileError
import ShaderStage.Description.Basic
import ShaderStage.Description.OperationLine
import ShaderStage.Description.Outline
import ShaderStage.Description.TypeExpr
import ShaderStage.Diagnostic
import ShaderStage.Emitter.Basic
import ShaderStage.Emitter.Expression
import ShaderStage.Emitter.Types
import ShaderStage.Instruction.Basic
import ShaderStage.Instruction.Enumerant
import ShaderStage.Instruction.Literal
import ShaderStage.Instruction.Opcode
import ShaderStage.Main
import ShaderStage.Module.Basic
import ShaderStage.Module.Binary
import ShaderStage.Module.Draft
import ShaderStage.Module.IdSupply
import ShaderStage.Module.Listing
import ShaderStage.Program.Basic
import ShaderStage.Program.Validation
import ShaderStage.Proofs.Acceptance
import ShaderStage.Proofs.Annotation
import ShaderStage.Proofs.Arrangement
import ShaderStage.Proofs.Assembly
import ShaderStage.Proofs.Body
import ShaderStage.Proofs.Capabilities
import ShaderStage.Proofs.Compilation
import ShaderStage.Proofs.Computations
import ShaderStage.Proofs.Consistency
import ShaderStage.Proofs.DebugNames
import ShaderStage.Proofs.DeclaredNames
import ShaderStage.Proofs.Decoding
import ShaderStage.Proofs.Decorations
import ShaderStage.Proofs.Definitions
import ShaderStage.Proofs.DescribedNumbers
import ShaderStage.Proofs.Effects
import ShaderStage.Proofs.Emission
import ShaderStage.Proofs.Expression
import ShaderStage.Proofs.Framing
import ShaderStage.Proofs.Grammar
import ShaderStage.Proofs.Growth
import ShaderStage.Proofs.IdCoverage
import ShaderStage.Proofs.Interface
import ShaderStage.Proofs.Interning
import ShaderStage.Proofs.Listing.Bounds
import ShaderStage.Proofs.Listing.Lines
import ShaderStage.Proofs.Listing.Program
import ShaderStage.Proofs.Listing.Words
import ShaderStage.Proofs.Literals
import ShaderStage.Proofs.MemberOffsets
import ShaderStage.Proofs.Naming
import ShaderStage.Proofs.OperandBindings
import ShaderStage.Proofs.OperationLines
import ShaderStage.Proofs.OutputTyping
import ShaderStage.Proofs.Places
import ShaderStage.Proofs.Quoting
import ShaderStage.Proofs.Renaming
import ShaderStage.Proofs.Renaming.Program
import ShaderStage.Proofs.Scoping
import ShaderStage.Proofs.Semantics.Data
import ShaderStage.Proofs.Semantics.Function
import ShaderStage.Proofs.Semantics.Method
import ShaderStage.Proofs.Semantics.Simulation
import ShaderStage.Proofs.Semantics.Soundness
import ShaderStage.Proofs.Semantics.Translation
import ShaderStage.Proofs.Sessions
import ShaderStage.Proofs.Signature
import ShaderStage.Proofs.Steps
import ShaderStage.Proofs.StorageClasses
import ShaderStage.Proofs.SupportedTypes
import ShaderStage.Proofs.Texts
import ShaderStage.Proofs.Turns
import ShaderStage.Proofs.Turns.Expressions
import ShaderStage.Proofs.Turns.Fields
import ShaderStage.Proofs.Turns.Module
import ShaderStage.Proofs.Turns.Program
import ShaderStage.Proofs.Turns.Types
import ShaderStage.Proofs.TypeExpressions
import ShaderStage.Proofs.Typing
import ShaderStage.Proofs.Uniqueness
import ShaderStage.Proofs.Uses
import ShaderStage.Proofs.Validation
import ShaderStage.Proofs.VectorParts
import ShaderStage.Proofs.VectorTypes
import ShaderStage.Proofs.Wording
import ShaderStage.Report
import ShaderStage.Report.Markup
import ShaderStage.Text.Blank
import ShaderStage.Text.Numeral
import ShaderStage.Text.Printable
import ShaderStage.Text.Quoted
import ShaderStage.Text.Utf8
import ShaderStage.Toml.Document
import ShaderStage.Toml.Moment
import ShaderStage.Toml.Number
import ShaderStage.Toml.Text
import ShaderStage.Toml.Value
import ShaderStage.Tool.Arguments
import ShaderStage.Tool.Basic
import ShaderStage.Tool.Compiler
import ShaderStage.Tool.Files
import ShaderStage.Tool.Lister
import ShaderStage.Ty.Basic
import ShaderStage.Ty.Key
import ShaderStage.Ty.Signature
import ShaderStage.Ty.Size
import ShaderStage.Word

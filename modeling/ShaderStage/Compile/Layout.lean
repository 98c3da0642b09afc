import ShaderStage.CompileError
import ShaderStage.Instruction.Enumerant
import ShaderStage.Program.Basic
import ShaderStage.Text.Quoted

/-! # Layouts

What the layout of a field asks for: a storage class, decorations, capabilities. A binding comes
before everything else, then a push constant, then a specialization constant, which is refused, and
then the direction; only inputs and outputs look at the built-in. -/

namespace ShaderStage

/-- What a layout asks for. -/
structure Resolution where
  storage : StorageClass
  /-- The variable is an input or an output, which the entry point must list. -/
  interface : Bool := false
  location : Option UInt32 := none
  binding : Option UInt32 := none
  descriptorSet : Option UInt32 := none
  builtIn : Option BuiltInNumber := none
  pushConstant : Bool := false
  capabilities : List Capability := []
deriving DecidableEq

/-- Something odd about a program that does not stop a compilation. -/
inductive Warning where
  | unknownDirection (field : String) (code : UInt8)
deriving DecidableEq

/-- The text of a warning. -/
def Warning.message : Warning → String
  | .unknownDirection field code =>
    "field " ++ Text.quote field ++ s!": unknown layout direction {code}, using private storage"

/-- The number of a built-in in a module. -/
def Builtin.number : Builtin → Except CompileError BuiltInNumber
  | .position => .ok 0
  | .pointSize => .ok 1
  | .clipDistance => .ok 3
  | .cullDistance => .ok 4
  | .vertexIndex => .ok 42
  | .instanceIndex => .ok 43
  | .primitiveId => .ok 7
  | .invocationId => .ok 8
  | .layer => .ok 9
  | .viewportIndex => .ok 10
  | .tessLevelOuter => .ok 11
  | .tessLevelInner => .ok 12
  | .tessCoord => .ok 13
  | .patchVertices => .ok 14
  | .fragCoord => .ok 15
  | .pointCoord => .ok 16
  | .frontFacing => .ok 17
  | .sampleId => .ok 18
  | .samplePosition => .ok 19
  | .sampleMask => .ok 20
  | .fragDepth => .ok 22
  | .helperInvocation => .ok 23
  | .numWorkgroups => .ok 24
  | .workgroupSize => .ok 25
  | .workgroupId => .ok 26
  | .localInvocationId => .ok 27
  | .globalInvocationId => .ok 28
  | .localInvocationIndex => .ok 29
  | .unknown code => .error (.unknownBuiltin code)

/-- The capabilities that a built-in needs. -/
def Builtin.capabilities : Builtin → List Capability
  | .clipDistance => [.clipDistance]
  | .cullDistance => [.cullDistance]
  | .sampleId => [.sampleRateShading]
  | .samplePosition => [.sampleRateShading]
  | _ => []

namespace Field

/-- What an input or output asks for: its location, or the built-in it stands for. -/
def resolveInterface (layout : Layout) (storage : StorageClass) :
    Except CompileError Resolution :=
  match layout.builtin with
  | none => .ok { storage, interface := true, location := some layout.location }
  | some builtin =>
    builtin.number.map fun number =>
      { storage
        interface := true
        builtIn := some number
        capabilities := builtin.capabilities }

/-- What the layout of a field asks for. -/
def resolve (field : Field) : Except CompileError Resolution :=
  match field.layout with
  | none => .ok { storage := .privateData }
  | some layout =>
    match layout.binding, layout.pushConstant, layout.specId with
    | some binding, _, _ =>
      .ok
        { storage := .uniform
          binding := some binding
          descriptorSet := some layout.descriptorSet }
    | none, true, _ => .ok { storage := .pushConstant, pushConstant := true }
    | none, false, some number => .error (.specializationConstant field.name number)
    | none, false, none =>
      match layout.direction with
      | .input => resolveInterface layout .input
      | .output => resolveInterface layout .output
      | .privateData => .ok { storage := .privateData }
      | .unknown _ => .ok { storage := .privateData }

/-- The warnings about the layout of a field. -/
def warnings (field : Field) : List Warning :=
  match field.layout with
  | none => []
  | some layout =>
    match layout.binding, layout.pushConstant, layout.specId, layout.direction with
    | none, false, none, .unknown code => [.unknownDirection field.name code]
    | _, _, _, _ => []

end Field

end ShaderStage

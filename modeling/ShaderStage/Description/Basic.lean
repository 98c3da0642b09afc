import ShaderStage.Description.OperationLine
import ShaderStage.Description.Outline

/-! # Descriptions

A description gives a program in words. Reading one goes from the text to its outline and from the
outline to the program; enumerations and structures can be used after they are declared. -/

namespace ShaderStage.Description

/-- What is wrong with the stage options. -/
inductive OptionsError where
  | unknownOrigin (text : String)
  | unknownInputPrimitive (text : String)
  | unknownOutputPrimitive (text : String)
  | negativeVertices
  | tooManyDimensions (count : Nat)
  | negativeDimension (index : Nat)
deriving DecidableEq

/-- The text of an error. -/
def OptionsError.message : OptionsError → String
  | .unknownOrigin text => "unknown origin " ++ Text.quote text
  | .unknownInputPrimitive text => "unknown input primitive " ++ Text.quote text
  | .unknownOutputPrimitive text => "unknown output primitive " ++ Text.quote text
  | .negativeVertices => "vertex counts must not be negative"
  | .tooManyDimensions count => s!"workgroup has {count} dimensions, at most 3 allowed"
  | .negativeDimension index => s!"workgroup dimension {index} is negative"

/-- What is wrong with a layout. -/
inductive LayoutError where
  | negativeIndex
  | unknownBuiltin (text : String)
deriving DecidableEq

/-- The text of an error. -/
def LayoutError.message : LayoutError → String
  | .negativeIndex => "location and descriptor-set must not be negative"
  | .unknownBuiltin text => "unknown builtin " ++ Text.quote text

/-- What is wrong with a method. -/
inductive MethodError where
  | type (cause : TypeExprError)
  | operation (index : Nat) (line : String) (cause : LineError)
deriving DecidableEq

/-- The text of an error. -/
def MethodError.message : MethodError → String
  | .type cause => cause.message
  | .operation index line cause =>
    s!"operation {index} (" ++ Text.quote line ++ "): " ++ cause.message

/-- What is wrong with a description. -/
inductive DescriptionError where
  | unknownStage (text : String)
  | options (cause : OptionsError)
  | enumType (name : String) (cause : TypeExprError)
  | enumNotInteger (name type : String)
  | unnamedType
  | duplicateType (name : String)
  | structMember (struct member : String) (cause : TypeExprError)
  | fieldType (field : String) (cause : TypeExprError)
  | fieldLayout (field : String) (cause : LayoutError)
  | method (name : String) (cause : MethodError)
deriving DecidableEq

/-- The text of an error. -/
def DescriptionError.message : DescriptionError → String
  | .unknownStage text => "unknown stage " ++ Text.quote text
  | .options cause => cause.message
  | .enumType name cause => "enum " ++ name ++ ": " ++ cause.message
  | .enumNotInteger name type =>
    "enum " ++ name ++ ": underlying type " ++ Text.quote type ++ " is not an integer"
  | .unnamedType => "type declaration without a name"
  | .duplicateType name => "type " ++ name ++ " declared twice"
  | .structMember struct member cause =>
    "struct " ++ struct ++ ", field " ++ member ++ ": " ++ cause.message
  | .fieldType field cause => "field " ++ field ++ ": " ++ cause.message
  | .fieldLayout field cause => "field " ++ field ++ ": " ++ cause.message
  | .method name cause => "method " ++ name ++ ": " ++ cause.message

/-- The names of the stages. -/
def stageNames : List (String × Stage) :=
  [("vertex", .vertex), ("fragment", .fragment), ("geometry", .geometry),
   ("tessellation", .tessellation), ("compute", .compute), ("kernel", .compute)]

/-- The names of the origins; the first is the default. -/
def originNames : List (String × Origin) :=
  [("", .upperLeft), ("upper-left", .upperLeft), ("lower-left", .lowerLeft)]

/-- The names of the input primitives; the first is the default. -/
def inputPrimitiveNames : List (String × InputPrimitive) :=
  [("", .points), ("points", .points), ("lines", .lines), ("lines-adjacency", .linesAdjacency),
   ("triangles", .triangles), ("triangles-adjacency", .trianglesAdjacency)]

/-- The names of the output primitives; the first is the default. -/
def outputPrimitiveNames : List (String × OutputPrimitive) :=
  [("", .points), ("points", .points), ("line-strip", .lineStrip),
   ("triangle-strip", .triangleStrip)]

/-- The names of the directions; the first is the default. -/
def directionNames : List (String × Direction) :=
  [("", .privateData), ("private", .privateData), ("input", .input), ("in", .input),
   ("output", .output), ("out", .output)]

/-- The direction of a name without a meaning, which is left for the compiler to report. -/
def unknownDirection : Direction := .unknown 0xFF

/-- The names of the built-ins; the empty name is none. -/
def builtinNames : List (String × Option Builtin) :=
  [("", none), ("position", some .position), ("point-size", some .pointSize),
   ("clip-distance", some .clipDistance), ("cull-distance", some .cullDistance),
   ("vertex-index", some .vertexIndex), ("instance-index", some .instanceIndex),
   ("primitive-id", some .primitiveId), ("invocation-id", some .invocationId),
   ("layer", some .layer), ("viewport-index", some .viewportIndex),
   ("tess-level-outer", some .tessLevelOuter), ("tess-level-inner", some .tessLevelInner),
   ("tess-coord", some .tessCoord), ("patch-vertices", some .patchVertices),
   ("frag-coord", some .fragCoord), ("point-coord", some .pointCoord),
   ("front-facing", some .frontFacing), ("sample-id", some .sampleId),
   ("sample-position", some .samplePosition), ("sample-mask", some .sampleMask),
   ("frag-depth", some .fragDepth), ("helper-invocation", some .helperInvocation),
   ("num-workgroups", some .numWorkgroups), ("workgroup-size", some .workgroupSize),
   ("workgroup-id", some .workgroupId), ("local-invocation-id", some .localInvocationId),
   ("global-invocation-id", some .globalInvocationId),
   ("local-invocation-index", some .localInvocationIndex)]

/-- What a name stands for. -/
def choose {α ε : Type} (names : List (String × α)) (name : String) (e : String → ε) :
    Except ε α :=
  match names.lookup name with
  | some a => .ok a
  | none => .error (e name)

/-- A number kept in 32 bits. -/
def toWord (n : Int) : UInt32 := .ofInt n

/-- The dimensions of a work group from position `index` on. -/
def dimensions (index : Nat) : List Int → Except OptionsError (List UInt32)
  | [] => .ok []
  | n :: rest => do
    if n < 0 then throw (.negativeDimension index)
    return toWord n :: (← dimensions (index + 1) rest)

/-- The size of a work group. -/
def parseWorkgroup (sizes : List Int) : Except OptionsError Workgroup := do
  if 3 < sizes.length then throw (.tooManyDimensions sizes.length)
  let words ← dimensions 0 sizes
  return ⟨words.getD 0 0, words.getD 1 0, words.getD 2 0⟩

/-- The stage options of an outline. -/
def parseOptions (o : OptionsOutline) : Except OptionsError StageOptions := do
  let origin ← choose originNames o.origin .unknownOrigin
  let inputPrimitive ← choose inputPrimitiveNames o.inputPrimitive .unknownInputPrimitive
  let outputPrimitive ← choose outputPrimitiveNames o.outputPrimitive .unknownOutputPrimitive
  if o.maxVertices < 0 ∨ o.patchVertices < 0 then throw .negativeVertices
  let workgroup ← parseWorkgroup o.workgroup
  return {
    origin, inputPrimitive, outputPrimitive, workgroup
    pixelCenterInteger := o.pixelCenterInteger
    earlyFragmentTests := o.earlyFragmentTests
    maxVertices := toWord o.maxVertices
    patchVertices := toWord o.patchVertices }

/-- A number that may be left out. -/
def optionalIndex (n : Int) : Option UInt32 :=
  if n < 0 then none else some (toWord n)

/-- The layout of an outline. -/
def parseLayout (o : LayoutOutline) : Except LayoutError Layout := do
  if o.location < 0 ∨ o.descriptorSet < 0 then throw .negativeIndex
  let builtin ← choose builtinNames o.builtin .unknownBuiltin
  return {
    location := toWord o.location
    binding := optionalIndex o.binding
    descriptorSet := toWord o.descriptorSet
    align := optionalIndex o.align
    offset := optionalIndex o.offset
    pushConstant := o.pushConstant
    builtin
    specId := optionalIndex o.specId
    direction := (directionNames.lookup o.direction).getD unknownDirection }

/-- Declares a type under a name. -/
def declare (declared : Declared) (name : String) (t : Ty) : Except DescriptionError Declared :=
  if name = "" then .error .unnamedType
  else if (declared.lookup name).isSome then .error (.duplicateType name)
  else .ok ((name, t) :: declared)

/-- Declares an enumeration. -/
def declareEnum (declared : Declared) (o : EnumOutline) : Except DescriptionError Declared := do
  match ← (parseType declared o.underlying.toList).mapError (.enumType o.name) with
  | .int t => declare declared o.name (.enum o.name t)
  | _ => throw (.enumNotInteger o.name o.underlying)

/-- The members of a structure. -/
def parseMembers (declared : Declared) (struct : String) :
    List MemberOutline → Except DescriptionError Members
  | [] => .ok .nil
  | o :: rest => do
    let t ← (parseType declared o.type.toList).mapError (.structMember struct o.name)
    return .cons o.name t (← parseMembers declared struct rest)

/-- Declares a structure. -/
def declareStruct (declared : Declared) (o : StructOutline) :
    Except DescriptionError Declared := do
  let members ← parseMembers declared o.name o.members
  declare declared o.name (.struct o.name members)

/-- The field of an outline. -/
def parseField (declared : Declared) (o : FieldOutline) : Except DescriptionError Field := do
  let type ← (parseType declared o.type.toList).mapError (.fieldType o.name)
  let layout ← o.layout.mapM fun l => (parseLayout l).mapError (.fieldLayout o.name)
  return { name := o.name, type, layout }

/-- The local of a text: a type, or a name and a type with a colon between them. -/
def parseLocal (declared : Declared) (text : String) : Except MethodError Local := do
  let before := text.toList.takeWhile (· ≠ ':')
  let (name, type) :=
    match text.toList.dropWhile (· ≠ ':') with
    | [] => ([], text.toList)
    | _ :: type => (Text.trim before, type)
  let type ← (parseType declared type).mapError .type
  return { name := .ofList name, type }

/-- The result type of a text; void, like no text at all, is none. -/
def parseResult (declared : Declared) (text : String) : Except MethodError Ty :=
  if text = "" ∨ text = "void" then .ok .unset
  else (parseType declared text.toList).mapError .type

/-- The operations of lines, from position `index` on. -/
def parseBody (s : LineScope) (index : Nat) : List String → Except MethodError (List Operation)
  | [] => .ok []
  | line :: rest => do
    let op ← (parseOperation s line.toList).mapError (.operation index line)
    return op :: (← parseBody s (index + 1) rest)

/-- The method of an outline. -/
def parseMethod (s : LineScope) (o : MethodOutline) : Except MethodError Method := do
  let result ← parseResult s.declared o.returns
  let locals ← o.locals.mapM (parseLocal s.declared)
  let body ← parseBody s 0 o.body
  return { name := o.name, result, locals, body }

/-- The positions of fields by name, from position `index` on; of two fields of one name the later
counts. -/
def fieldPositions (index : Nat) (acc : List (String × Nat)) : List Field → List (String × Nat)
  | [] => acc
  | f :: rest => fieldPositions (index + 1) ((f.name, index) :: acc) rest

/-- The program of an outline. -/
def ProgramOutline.toProgram (o : ProgramOutline) : Except DescriptionError Program := do
  let stage ← choose stageNames o.stage .unknownStage
  let options ← o.options.mapM fun o => (parseOptions o).mapError .options
  let declared ← o.enums.foldlM declareEnum []
  let declared ← o.structs.foldlM declareStruct declared
  let fields ← o.fields.mapM (parseField declared)
  let scope : LineScope := { declared, fields := fieldPositions 0 [] fields }
  let methods ← o.methods.mapM fun m => (parseMethod scope m).mapError (.method m.name)
  return { name := o.name, stage, options := options.getD {}, fields, methods }

/-- Why a text is no description. -/
inductive ReadError where
  /-- The text is no document. -/
  | notToml
  /-- A value of the document has the wrong kind for its key. -/
  | wrongKind
  | meaning (cause : DescriptionError)
deriving DecidableEq

/-- The text of an error. -/
def ReadError.message : ReadError → String
  | .notToml => "not a TOML document"
  | .wrongKind => "a value has the wrong type for its key"
  | .meaning cause => cause.message

/-- The program that a text describes. -/
def read (text : String) : Except ReadError Program :=
  match Toml.parse? text with
  | none => .error .notToml
  | some table =>
    match ProgramOutline.ofTable table with
    | none => .error .wrongKind
    | some outline => outline.toProgram.mapError .meaning

end ShaderStage.Description

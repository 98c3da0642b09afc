import ShaderStage.Word

/-! # Enumerants

The numbered operands of the module format: capabilities, storage classes, decorations and so on,
with the names they have in a listing. -/

namespace ShaderStage

/-- Names for some of the values of an operand. -/
abbrev Enumerant := List (Word × String)

/-- The name of a value; a value without one shows its number. -/
def Enumerant.name (e : Enumerant) (w : Word) : String :=
  (e.lookup w).getD (toString w.toNat)

/-- A feature that a module declares. -/
abbrev Capability := Word

namespace Capability

def shader : Capability := 1
def geometry : Capability := 2
def tessellation : Capability := 3
def float16 : Capability := 9
def float64 : Capability := 10
def int64 : Capability := 11
def int16 : Capability := 22
def clipDistance : Capability := 32
def cullDistance : Capability := 33
def sampleRateShading : Capability := 35
def int8 : Capability := 39

def names : Enumerant :=
  [(0, "Matrix"), (1, "Shader"), (2, "Geometry"), (3, "Tessellation"),
   (9, "Float16"), (10, "Float64"), (11, "Int64"), (22, "Int16"),
   (32, "ClipDistance"), (33, "CullDistance"), (35, "SampleRateShading"), (39, "Int8")]

end Capability

/-- Where a variable lives. -/
abbrev StorageClass := Word

namespace StorageClass

def uniformConstant : StorageClass := 0
def input : StorageClass := 1
def uniform : StorageClass := 2
def output : StorageClass := 3
def workgroup : StorageClass := 4
def privateData : StorageClass := 6
def function : StorageClass := 7
def pushConstant : StorageClass := 9
def storageBuffer : StorageClass := 12

/-- The class of what lives nowhere: every type that is not a pointer. -/
def none : StorageClass := 0xFFFFFFFF

def names : Enumerant :=
  [(0, "UniformConstant"), (1, "Input"), (2, "Uniform"), (3, "Output"),
   (4, "Workgroup"), (5, "CrossWorkgroup"), (6, "Private"), (7, "Function"),
   (8, "Generic"), (9, "PushConstant"), (10, "AtomicCounter"), (11, "Image"),
   (12, "StorageBuffer")]

/-- The classes that variables are placed in, by name. -/
def placements : Enumerant :=
  [(uniformConstant, "UniformConstant"), (input, "Input"), (uniform, "Uniform"),
   (output, "Output"), (workgroup, "Workgroup"), (privateData, "Private"),
   (function, "Function"), (pushConstant, "PushConstant"), (storageBuffer, "StorageBuffer"),
   (none, "None")]

/-- The name of a class as a placement. -/
def label (sc : StorageClass) : String :=
  (placements.lookup sc).getD "Unknown"

end StorageClass

/-- A property attached to an id. -/
abbrev Decoration := Word

namespace Decoration

def block : Decoration := 2
def colMajor : Decoration := 5
def builtIn : Decoration := 11
def location : Decoration := 30
def binding : Decoration := 33
def descriptorSet : Decoration := 34
def offset : Decoration := 35

def names : Enumerant :=
  [(0, "RelaxedPrecision"), (1, "SpecId"), (2, "Block"), (3, "BufferBlock"),
   (4, "RowMajor"), (5, "ColMajor"), (6, "ArrayStride"), (7, "MatrixStride"),
   (11, "BuiltIn"), (14, "Flat"), (30, "Location"), (31, "Component"),
   (33, "Binding"), (34, "DescriptorSet"), (35, "Offset")]

end Decoration

/-- The number of a built-in variable in a module. -/
abbrev BuiltInNumber := Word

namespace BuiltInNumber

def names : Enumerant :=
  [(0, "Position"), (1, "PointSize"), (3, "ClipDistance"), (4, "CullDistance"),
   (7, "PrimitiveId"), (8, "InvocationId"), (9, "Layer"), (10, "ViewportIndex"),
   (11, "TessLevelOuter"), (12, "TessLevelInner"), (13, "TessCoord"), (14, "PatchVertices"),
   (15, "FragCoord"), (16, "PointCoord"), (17, "FrontFacing"), (18, "SampleId"),
   (19, "SamplePosition"), (20, "SampleMask"), (22, "FragDepth"), (23, "HelperInvocation"),
   (24, "NumWorkgroups"), (25, "WorkgroupSize"), (26, "WorkgroupId"),
   (27, "LocalInvocationId"), (28, "GlobalInvocationId"), (29, "LocalInvocationIndex"),
   (42, "VertexIndex"), (43, "InstanceIndex")]

end BuiltInNumber

/-- How an entry point runs. -/
abbrev ExecutionMode := Word

namespace ExecutionMode

def invocations : ExecutionMode := 0
def pixelCenterInteger : ExecutionMode := 6
def originUpperLeft : ExecutionMode := 7
def originLowerLeft : ExecutionMode := 8
def earlyFragmentTests : ExecutionMode := 9
def localSize : ExecutionMode := 17
def inputPoints : ExecutionMode := 19
def inputLines : ExecutionMode := 20
def inputLinesAdjacency : ExecutionMode := 21
def triangles : ExecutionMode := 22
def inputTrianglesAdjacency : ExecutionMode := 23
def outputVertices : ExecutionMode := 26
def outputPoints : ExecutionMode := 27
def outputLineStrip : ExecutionMode := 28
def outputTriangleStrip : ExecutionMode := 29

def names : Enumerant :=
  [(0, "Invocations"), (1, "SpacingEqual"), (5, "VertexOrderCcw"),
   (6, "PixelCenterInteger"), (7, "OriginUpperLeft"), (8, "OriginLowerLeft"),
   (9, "EarlyFragmentTests"), (17, "LocalSize"), (19, "InputPoints"), (20, "InputLines"),
   (21, "InputLinesAdjacency"), (22, "Triangles"), (23, "InputTrianglesAdjacency"),
   (26, "OutputVertices"), (27, "OutputPoints"), (28, "OutputLineStrip"),
   (29, "OutputTriangleStrip")]

end ExecutionMode

/-- The kind of invocation an entry point serves. -/
abbrev ExecutionModel := Word

namespace ExecutionModel

def vertex : ExecutionModel := 0
def tessellationControl : ExecutionModel := 1
def tessellationEvaluation : ExecutionModel := 2
def geometry : ExecutionModel := 3
def fragment : ExecutionModel := 4
def glCompute : ExecutionModel := 5

def names : Enumerant :=
  [(0, "Vertex"), (1, "TessellationControl"), (2, "TessellationEvaluation"),
   (3, "Geometry"), (4, "Fragment"), (5, "GLCompute"), (6, "Kernel")]

end ExecutionModel

namespace Enumerant

def addressingModels : Enumerant :=
  [(0, "Logical"), (1, "Physical32"), (2, "Physical64")]

def memoryModels : Enumerant :=
  [(0, "Simple"), (1, "GLSL450"), (2, "OpenCL"), (3, "Vulkan")]

def sourceLanguages : Enumerant :=
  [(0, "Unknown"), (1, "ESSL"), (2, "GLSL"), (3, "OpenCL_C"), (4, "OpenCL_CPP"), (5, "HLSL")]

def dimensions : Enumerant :=
  [(0, "1D"), (1, "2D"), (2, "3D"), (3, "Cube"), (4, "Rect"), (5, "Buffer"), (6, "SubpassData")]

end Enumerant

/-- The two-dimensional image. -/
def dimension2D : Word := 1

/-- The logical addressing model. -/
def logicalAddressing : Word := 0

/-- The memory model of the shading language. -/
def glsl450Memory : Word := 1

/-- The source language recorded in every module. -/
def glslSource : Word := 2

end ShaderStage

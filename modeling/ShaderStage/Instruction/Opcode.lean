import ShaderStage.Word

/-! # Opcodes

Numbers and mnemonics of the instructions, and where each keeps its result. -/

namespace ShaderStage

/-- The number of an instruction, the low half of its first word. -/
abbrev Opcode := UInt16

namespace Opcode

def source : Opcode := 3
def sourceExtension : Opcode := 4
def name : Opcode := 5
def memberName : Opcode := 6
def string : Opcode := 7
def extension : Opcode := 10
def extInstImport : Opcode := 11
def extInst : Opcode := 12
def memoryModel : Opcode := 14
def entryPoint : Opcode := 15
def executionMode : Opcode := 16
def capability : Opcode := 17
def typeVoid : Opcode := 19
def typeBool : Opcode := 20
def typeInt : Opcode := 21
def typeFloat : Opcode := 22
def typeVector : Opcode := 23
def typeMatrix : Opcode := 24
def typeImage : Opcode := 25
def typeSampledImage : Opcode := 27
def typeArray : Opcode := 28
def typeStruct : Opcode := 30
def typePointer : Opcode := 32
def typeFunction : Opcode := 33
def constant : Opcode := 43
def function : Opcode := 54
def functionEnd : Opcode := 56
def var : Opcode := 59
def load : Opcode := 61
def store : Opcode := 62
def accessChain : Opcode := 65
def decorate : Opcode := 71
def memberDecorate : Opcode := 72
def compositeConstruct : Opcode := 80
def compositeExtract : Opcode := 81
def iAdd : Opcode := 128
def fAdd : Opcode := 129
def iSub : Opcode := 130
def fSub : Opcode := 131
def iMul : Opcode := 132
def fMul : Opcode := 133
def uDiv : Opcode := 134
def sDiv : Opcode := 135
def fDiv : Opcode := 136
def vectorTimesScalar : Opcode := 142
def matrixTimesScalar : Opcode := 143
def vectorTimesMatrix : Opcode := 144
def matrixTimesVector : Opcode := 145
def matrixTimesMatrix : Opcode := 146
def label : Opcode := 248
def ret : Opcode := 253
def returnValue : Opcode := 254

/-- The opcodes that have a mnemonic of their own. -/
def mnemonics : List (Opcode × String) :=
  [(0, "OpNop"), (1, "OpUndef"), (2, "OpSourceContinued"), (3, "OpSource"),
   (4, "OpSourceExtension"), (5, "OpName"), (6, "OpMemberName"), (7, "OpString"),
   (10, "OpExtension"), (11, "OpExtInstImport"), (12, "OpExtInst"),
   (14, "OpMemoryModel"), (15, "OpEntryPoint"), (16, "OpExecutionMode"),
   (17, "OpCapability"), (19, "OpTypeVoid"), (20, "OpTypeBool"),
   (21, "OpTypeInt"), (22, "OpTypeFloat"), (23, "OpTypeVector"),
   (24, "OpTypeMatrix"), (25, "OpTypeImage"), (26, "OpTypeSampler"),
   (27, "OpTypeSampledImage"), (28, "OpTypeArray"), (29, "OpTypeRuntimeArray"),
   (30, "OpTypeStruct"), (32, "OpTypePointer"), (33, "OpTypeFunction"),
   (41, "OpConstantTrue"), (42, "OpConstantFalse"), (43, "OpConstant"),
   (44, "OpConstantComposite"), (46, "OpConstantNull"),
   (54, "OpFunction"), (55, "OpFunctionParameter"), (56, "OpFunctionEnd"),
   (57, "OpFunctionCall"), (59, "OpVariable"), (61, "OpLoad"), (62, "OpStore"),
   (65, "OpAccessChain"), (71, "OpDecorate"), (72, "OpMemberDecorate"),
   (73, "OpDecorationGroup"), (74, "OpGroupDecorate"), (75, "OpGroupMemberDecorate"),
   (79, "OpVectorShuffle"), (80, "OpCompositeConstruct"), (81, "OpCompositeExtract"),
   (86, "OpSampledImage"), (87, "OpImageSampleImplicitLod"),
   (127, "OpFNegate"), (128, "OpIAdd"), (129, "OpFAdd"), (130, "OpISub"), (131, "OpFSub"),
   (132, "OpIMul"), (133, "OpFMul"), (134, "OpUDiv"), (135, "OpSDiv"), (136, "OpFDiv"),
   (142, "OpVectorTimesScalar"), (143, "OpMatrixTimesScalar"),
   (144, "OpVectorTimesMatrix"), (145, "OpMatrixTimesVector"),
   (146, "OpMatrixTimesMatrix"), (148, "OpDot"),
   (248, "OpLabel"), (249, "OpBranch"), (253, "OpReturn"), (254, "OpReturnValue")]

/-- The mnemonic of an opcode; one without a name of its own shows its number. -/
def mnemonic (op : Opcode) : String :=
  (mnemonics.lookup op).getD ("Op" ++ toString op.toNat)

/-- Where an instruction keeps its result id. -/
inductive Shape where
  | noResult
  /-- The result is the first operand. -/
  | result
  /-- The result type is the first operand and the result the second. -/
  | typedResult
deriving DecidableEq

/-- Opcodes whose result is the first operand. -/
def hasResult (op : Opcode) : Bool :=
  op == string || op == extInstImport || op == 73 || op == label || (19 ≤ op && op ≤ 39)

/-- Opcodes whose result follows a result type. -/
def hasTypedResult (op : Opcode) : Bool :=
  op == extInst || (41 ≤ op && op ≤ 52) || op == function || op == 55 || op == 57 ||
  (59 ≤ op && op ≤ 61) || (65 ≤ op && op ≤ 70) || (77 ≤ op && op ≤ 84) ||
  (86 ≤ op && op ≤ 98) || (100 ≤ op && op ≤ 124) || (126 ≤ op && op ≤ 205) || op == 245

/-- Where the result of an instruction stands among its operands. -/
def shape (op : Opcode) : Shape :=
  if hasResult op then .result else if hasTypedResult op then .typedResult else .noResult

end Opcode

end ShaderStage

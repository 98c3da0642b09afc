import ShaderStage.Instruction.Literal
import ShaderStage.Instruction.Opcode

/-! # Instructions

An instruction is an opcode and its operand words. Written out, its first word holds its length in
the upper half, so an instruction of more than 65535 words has no written form. -/

namespace ShaderStage

/-- Why a module cannot be written out. -/
inductive Fault where
  /-- An instruction is too long for the length field of its first word. -/
  | tooLong (opcode : Opcode) (words : Nat)
  /-- An id was asked for after the bound of the module was taken. -/
  | idsClosed
deriving DecidableEq

/-- The text of a fault. -/
def Fault.message : Fault → String
  | .tooLong opcode words => s!"spirv: instruction {opcode} has {words} words"
  | .idsClosed => "spirv: id allocated after the module bound was taken"

/-- An opcode and its operands: result type, result, then the rest. -/
structure Instruction where
  opcode : Opcode
  operands : List Word
deriving DecidableEq

namespace Instruction

/-- The written length in words. -/
def wordCount (i : Instruction) : Nat :=
  i.operands.length + 1

/-- The instruction has a written form. -/
def Fits (i : Instruction) : Prop :=
  i.wordCount ≤ 65535

instance (i : Instruction) : Decidable i.Fits :=
  inferInstanceAs (Decidable (_ ≤ _))

/-- The first word: length and opcode. -/
def head (i : Instruction) : Word :=
  .ofHalves (.ofNat i.wordCount) i.opcode

/-- The words of an instruction. -/
def words (i : Instruction) : List Word :=
  i.head :: i.operands

/-- The written form of an instruction. -/
def encode (i : Instruction) : Except Fault (List Word) :=
  if i.Fits then .ok i.words else .error (.tooLong i.opcode i.wordCount)

/-- The result type, if the opcode has one and it is there. -/
def resultType (i : Instruction) : Option Id :=
  match i.opcode.shape, i.operands with
  | .typedResult, type :: _ :: _ => some type
  | _, _ => none

/-- The result id, if the opcode has one and it is there. -/
def resultId (i : Instruction) : Option Id :=
  match i.opcode.shape, i.operands with
  | .result, id :: _ => some id
  | .typedResult, _ :: id :: _ => some id
  | _, _ => none

/-- The string operand that starts at operand `start`, and the number of words it takes: negative
when `start` lies beyond the operands. -/
def literal (i : Instruction) (start : Nat) : List UInt8 × Int :=
  let found := Literal.decode (i.operands.drop start)
  (found.1, if start ≤ i.operands.length then found.2 else i.operands.length - start)

end Instruction

end ShaderStage

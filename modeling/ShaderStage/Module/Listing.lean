import ShaderStage.Instruction.Enumerant
import ShaderStage.Module.Basic
import ShaderStage.Text.Quoted

/-! # Listings

The text of a module: a few lines for the header, then one line for each instruction, with the
mnemonics in one column. How the operands of an instruction are written is a table: the operands
that must be there, those shown one by one, and what becomes of the rest. -/

namespace ShaderStage

/-- How one operand word is written. -/
inductive OperandStyle where
  | id
  | number
  | named (names : Enumerant)
deriving DecidableEq

/-- The text of an operand word. -/
def OperandStyle.render (style : OperandStyle) (w : Word) : String :=
  match style with
  | .id => "%" ++ toString w.toNat
  | .number => toString w.toNat
  | .named names => names.name w

/-- One word of a line. -/
inductive Item where
  | operand (index : Nat) (style : OperandStyle)
  | word (text : String)
deriving DecidableEq

/-- What becomes of the operands from some position on. -/
inductive Remainder where
  | omitted
  | all (style : OperandStyle)
  /-- A string; what follows it is omitted. -/
  | string
  /-- A string, then ids. -/
  | stringAndIds
  /-- The parameters of a decoration, which stands just before them: a built-in by name. -/
  | parameters (decoration : Nat)
deriving DecidableEq

/-- How the operands of an instruction are written. -/
structure Form where
  /-- The number of operands that must be there. -/
  need : Nat
  items : List Item
  /-- Where the remainder starts. -/
  start : Nat
  remainder : Remainder
deriving DecidableEq

/-- Stands for operands that are missing. -/
def truncatedMark : String := "<truncated>"

namespace Item

/-- The text of an item; an operand that is not there has none. -/
def render? (operands : List Word) : Item → Option String
  | .operand index style => (operands[index]?).map style.render
  | .word text => some text

end Item

namespace Remainder

/-- The words that a remainder contributes to a line. -/
def render (operands : List Word) (start : Nat) : Remainder → List String
  | .omitted => []
  | .all style => (operands.drop start).map style.render
  | .string => [Text.quoteBytes (Literal.decode (operands.drop start)).1]
  | .stringAndIds =>
    let found := Literal.decode (operands.drop start)
    Text.quoteBytes found.1 ::
      (operands.drop (start + found.2)).map OperandStyle.id.render
  | .parameters decoration =>
    match operands.drop start with
    | [] => []
    | number :: rest =>
      if operands[decoration]? = some Decoration.builtIn then [BuiltInNumber.names.name number]
      else (number :: rest).map OperandStyle.number.render

end Remainder

namespace Form

/-- The words that operands contribute to a line. -/
def render (f : Form) (operands : List Word) : List String :=
  if operands.length < f.need then [truncatedMark]
  else f.items.filterMap (Item.render? operands) ++ f.remainder.render operands f.start

end Form

namespace Opcode

/-- The form of an instruction without a form of its own: all its operands are ids. -/
def plainForm (op : Opcode) : Form :=
  match op.shape with
  | .noResult => ⟨0, [], 0, .all .id⟩
  | .result => ⟨0, [], 1, .all .id⟩
  | .typedResult => ⟨2, [.operand 0 .id], 2, .all .id⟩

/-- The instructions with a form of their own. -/
def forms : List (Opcode × Form) :=
  let id (index : Nat) : Item := .operand index .id
  let number (index : Nat) : Item := .operand index .number
  let named (index : Nat) (names : Enumerant) : Item := .operand index (.named names)
  [(capability, ⟨1, [named 0 Capability.names], 1, .omitted⟩),
   (extension, ⟨0, [], 0, .string⟩),
   (sourceExtension, ⟨0, [], 0, .string⟩),
   (extInstImport, ⟨1, [], 1, .string⟩),
   (string, ⟨1, [], 1, .string⟩),
   (source, ⟨2, [named 0 Enumerant.sourceLanguages, number 1], 2, .all .id⟩),
   (memoryModel,
    ⟨2, [named 0 Enumerant.addressingModels, named 1 Enumerant.memoryModels], 2, .omitted⟩),
   (entryPoint, ⟨2, [named 0 ExecutionModel.names, id 1], 2, .stringAndIds⟩),
   (executionMode, ⟨2, [id 0, named 1 ExecutionMode.names], 2, .all .number⟩),
   (name, ⟨1, [id 0], 1, .string⟩),
   (memberName, ⟨2, [id 0, number 1], 2, .string⟩),
   (decorate, ⟨2, [id 0, named 1 Decoration.names], 2, .parameters 1⟩),
   (memberDecorate, ⟨3, [id 0, number 1, named 2 Decoration.names], 3, .all .number⟩),
   (typeInt, ⟨0, [], 1, .all .number⟩),
   (typeFloat, ⟨0, [], 1, .all .number⟩),
   (typeVector, ⟨3, [id 1], 2, .all .number⟩),
   (typeMatrix, ⟨3, [id 1], 2, .all .number⟩),
   (typeImage, ⟨8, [id 1, named 2 Enumerant.dimensions], 3, .all .number⟩),
   (typePointer, ⟨3, [named 1 StorageClass.names, id 2], 3, .omitted⟩),
   (constant, ⟨2, [id 0], 2, .all .number⟩),
   (function, ⟨4, [id 0, .word "None", id 3], 4, .omitted⟩),
   (var, ⟨3, [id 0, named 2 StorageClass.names], 3, .all .id⟩),
   (compositeExtract, ⟨3, [id 0, id 2], 3, .all .number⟩),
   (extInst, ⟨4, [id 0, id 2, number 3], 4, .all .id⟩)]

/-- How the operands of an instruction are written. -/
def form (op : Opcode) : Form :=
  (forms.lookup op).getD op.plainForm

end Opcode

namespace Instruction

/-- The mnemonic and the operands of an instruction. -/
def body (i : Instruction) : String :=
  " ".intercalate (i.opcode.mnemonic :: i.opcode.form.render i.operands)

/-- The text of an instruction: its result, if it has one, and its body. -/
def render (i : Instruction) : String :=
  match i.resultId with
  | some id => OperandStyle.id.render id ++ " = " ++ i.body
  | none => i.body

/-- The column in which mnemonics start. -/
def mnemonicColumn : Nat := 17

/-- The line of an instruction in a listing. -/
def line (i : Instruction) : String :=
  let result :=
    match i.resultId with
    | some id => OperandStyle.id.render id ++ " = "
    | none => ""
  .ofList (List.replicate (mnemonicColumn - result.length) ' ') ++ i.render

end Instruction

namespace Module

/-- The lines about the header. -/
def headerLines (h : Header) : List String :=
  ["; SPIR-V",
   "; Version: " ++ h.versionText,
   "; Generator: 0x" ++ hex8 h.generator,
   "; Bound: " ++ toString h.bound.toNat,
   "; Schema: " ++ toString h.schema.toNat]

/-- The listing of a module. -/
def text (m : Module) : String :=
  .join ((headerLines m.header ++ m.instructions.map Instruction.line).map (· ++ "\n"))

end Module

end ShaderStage

import ShaderStage.Instruction.Enumerant
import ShaderStage.Module.IdSupply

/-! # Modules under construction

A draft is the log of the instructions emitted so far, each with the section it belongs to.
Sections fill in any order; assembling a draft writes them in the one order that a module has. -/

namespace ShaderStage

/-- A version of the module format. -/
structure Version where
  major : UInt8
  minor : UInt8
deriving DecidableEq

namespace Version

/-- The version used when none is asked for. -/
def default : Version := ⟨1, 2⟩

/-- The header word of a version. -/
def word (v : Version) : Word :=
  .ofNat (0x10000 * v.major.toNat + 0x100 * v.minor.toNat)

end Version

/-- The first word of every module. -/
def magicNumber : Word := 0x07230203

/-- The number that this generator signs modules with. -/
def generatorNumber : Word := 0x000D0001

/-- The parts of a module. -/
inductive Section where
  | capabilities
  | extensions
  | instructionSets
  | memoryModel
  | entryPoints
  | executionModes
  | sources
  | names
  | decorations
  | memberDecorations
  | globals
  | functions
deriving DecidableEq

/-- The order in which the parts of a module are written. -/
def Section.order : List Section :=
  [.capabilities, .extensions, .instructionSets, .memoryModel, .entryPoints, .executionModes,
   .sources, .names, .decorations, .memberDecorations, .globals, .functions]

/-- A module under construction. -/
structure Draft where
  version : Version
  ids : IdSupply := {}
  log : Array (Section × Instruction) := #[]
deriving DecidableEq

namespace Draft

/-- The draft with one more instruction at the end of a section. -/
def emit (d : Draft) (s : Section) (i : Instruction) : Draft :=
  { d with log := d.log.push (s, i) }

/-- What was emitted into a section, in order. -/
def emitted (d : Draft) (s : Section) : List Instruction :=
  d.log.toList.filterMap fun (s', i) => if s' = s then some i else none

/-- What a section holds in the module: a memory model set again replaces the earlier one. -/
def contents (d : Draft) (s : Section) : List Instruction :=
  if s = .memoryModel then (d.emitted s).getLast?.toList else d.emitted s

/-- The instructions of the module, in order. -/
def instructions (d : Draft) : List Instruction :=
  Section.order.flatMap d.contents

/-- The header of the module, given its bound. -/
def header (d : Draft) (bound : Id) : List Word :=
  [magicNumber, d.version.word, generatorNumber, bound, 0]

/-- The words of an instruction list, unless one of the instructions is too long. -/
def encodeAll (instructions : List Instruction) : Except Fault (List Word) :=
  match instructions.find? fun i => ¬ i.Fits with
  | some i => .error (.tooLong i.opcode i.wordCount)
  | none => .ok (instructions.flatMap Instruction.words)

/-- The words of the module. The bound is taken first, so a draft is assembled once. -/
def assemble (d : Draft) : Except Fault (List Word) × Draft :=
  match d.ids.bound with
  | .error fault => (.error fault, d)
  | .ok (bound, ids) =>
    ((encodeAll d.instructions).map (d.header bound ++ ·), { d with ids })

/-- The capability is declared. -/
def declares (d : Draft) (c : Capability) : Bool :=
  d.log.any fun (s, i) => s = .capabilities && i.operands == [c]

end Draft

end ShaderStage

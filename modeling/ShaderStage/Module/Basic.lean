import ShaderStage.Instruction.Basic
import ShaderStage.Module.Binary
import ShaderStage.Module.Draft

/-! # Modules

A module is a five-word header and a sequence of instructions, each of which begins with its own
length. Decoding finds the instructions again and records the word at which each one starts. -/

namespace ShaderStage

/-- The first five words of a module. -/
structure Header where
  magic : Word
  version : Word
  generator : Word
  bound : Word
  schema : Word
deriving DecidableEq

/-- The version as `major.minor`. -/
def Header.versionText (h : Header) : String :=
  let major := h.version.toNat / 0x10000 % 0x100
  let minor := h.version.toNat / 0x100 % 0x100
  s!"{major}.{minor}"

/-- An instruction and the index of its first word. -/
structure Placed where
  offset : Nat
  instruction : Instruction
deriving DecidableEq

/-- A decoded module. -/
structure Module where
  header : Header
  placed : List Placed
deriving DecidableEq

/-- Why a word sequence is no module. -/
inductive DecodeError where
  | tooShort (words : Nat)
  | badMagic (found : Word)
  /-- The instruction at `offset` claims no words, or more than there are. -/
  | badLength (length offset : Nat)
  | unaligned (bytes : Nat)
deriving DecidableEq

/-- Eight upper-case hexadecimal digits. -/
def hex8 (w : Word) : String :=
  let digits := (Nat.toDigits 16 w.toNat).map Char.toUpper
  .ofList (List.replicate (8 - digits.length) '0' ++ digits)

/-- The text of a decoding error. -/
def DecodeError.message : DecodeError → String
  | .tooShort words => s!"disasm: module has {words} words, the header needs 5"
  | .badMagic found => "disasm: invalid SPIR-V magic: 0x" ++ hex8 found
  | .badLength length offset => s!"disasm: invalid word count {length} at word {offset}"
  | .unaligned bytes => s!"disasm: binary length {bytes} is not a multiple of 4"

namespace Module

/-- Splits `words`, the first of which is word `offset` of the module, into instructions and
appends them to `acc`. -/
def split (acc : Array Placed) (offset : Nat) (words : List Word) :
    Except DecodeError (List Placed) :=
  match words with
  | [] => .ok acc.toList
  | first :: rest =>
    let length := first.high.toNat
    if length = 0 ∨ rest.length + 1 < length then .error (.badLength length offset)
    else
      let operands := rest.take (length - 1)
      split (acc.push ⟨offset, first.low, operands⟩) (offset + length) (rest.drop (length - 1))
termination_by words.length

/-- The module written as `words`. -/
def decode (words : List Word) : Except DecodeError Module :=
  match words with
  | magic :: version :: generator :: bound :: schema :: rest =>
    if magic = magicNumber then
      (split #[] 5 rest).map fun placed => ⟨⟨magic, version, generator, bound, schema⟩, placed⟩
    else .error (.badMagic magic)
  | _ => .error (.tooShort words.length)

/-- The module in a binary. -/
def decodeBytes (bytes : List UInt8) : Except DecodeError Module :=
  match Binary.toWords? bytes with
  | some words => decode words
  | none => .error (.unaligned bytes.length)

/-- The instructions of a module. -/
def instructions (m : Module) : List Instruction :=
  m.placed.map Placed.instruction

/-- The instructions with a given opcode. -/
def find (m : Module) (op : Opcode) : List Placed :=
  m.placed.filter (·.instruction.opcode = op)

/-- The position of the first instruction with a given opcode. -/
def index? (m : Module) (op : Opcode) : Option Nat :=
  m.placed.findIdx? (·.instruction.opcode = op)

/-- The ids that have a debug name, each with its name, in module order. -/
def nameEntries (m : Module) : List (Id × List UInt8) :=
  (m.find .name).filterMap fun p =>
    match p.instruction.operands with
    | [] => none
    | id :: rest => some (id, (Literal.decode rest).1)

/-- The debug name of an id: the last one given. -/
def name? (m : Module) (id : Id) : Option (List UInt8) :=
  m.nameEntries.reverse.lookup id

/-- The named ids in increasing order, each with its name. -/
def names (m : Module) : List (Id × List UInt8) :=
  (((m.nameEntries.map Prod.fst).eraseDups).mergeSort (· ≤ ·)).filterMap fun id =>
    (m.name? id).map (id, ·)

/-- The result ids, in module order. -/
def resultIds (m : Module) : List Id :=
  m.instructions.filterMap Instruction.resultId

/-- The instruction whose result is `id`. -/
def definition? (m : Module) (id : Id) : Option Placed :=
  m.placed.find? (·.instruction.resultId = some id)

end Module

end ShaderStage

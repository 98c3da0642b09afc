import Mathlib.Logic.Function.Basic
import ShaderStage.Proofs.Definitions
import ShaderStage.Proofs.Semantics.Data

/-! # Running functions

An interpreter of the functions of a module. A function is straight-line code: each instruction
computes a result from earlier results, constants and variables, or writes to memory. What a type or
a constant is, is read off the instruction that defines it. A run that finds the wrong operands has
no result. -/

namespace ShaderStage

/-- What an id stands for: a value, or a pointer to the end of a path into a variable. -/
inductive Operand (S : Type) where
  | data (d : Data S)
  | pointer (root : Id) (path : List Word)

namespace Operand

variable {S : Type}

def data? : Operand S → Option (Data S)
  | .data d => some d
  | .pointer _ _ => none

def pointer? : Operand S → Option (Id × List Word)
  | .data _ => none
  | .pointer root path => some (root, path)

end Operand

/-- The values of the variables of a module. -/
abbrev Memory (S : Type) := Id → Data S

/-- A running function: the memory, and the results so far. -/
structure Machine (S : Type) where
  memory : Memory S
  results : Id → Option (Operand S)

/-- The machine with one more result. -/
def Machine.assign {S : Type} (M : Machine S) (id : Id) (x : Operand S) : Machine S :=
  { M with results := Function.update M.results id (some x) }

/-- A datum that was found is assigned as a datum. -/
theorem Machine.map_assign_data {S : Type} (M : Machine S) (id : Id) (x : Option (Data S)) :
    (x.bind fun d => some (.data d)).map (M.assign id) =
      x.bind fun d => some (M.assign id (.data d)) := by
  cases x <;> rfl

namespace ScalarOps

variable {S : Type} (A : ScalarOps S) (width : Word)

/-- The arithmetic instructions. -/
def instructions : List (Opcode × (Data S → Data S → Option (Data S))) :=
  [(.fAdd, Data.zip? (A.fAdd width)), (.fSub, Data.zip? (A.fSub width)),
   (.fMul, Data.zip? (A.fMul width)), (.fDiv, Data.zip? (A.fDiv width)),
   (.iAdd, Data.zip? (A.iAdd width)), (.iSub, Data.zip? (A.iSub width)),
   (.iMul, Data.zip? (A.iMul width)), (.sDiv, Data.zip? (A.sDiv width)),
   (.uDiv, Data.zip? (A.uDiv width)),
   (.vectorTimesScalar, A.scaleVector? width), (.matrixTimesScalar, A.scaleMatrix? width),
   (.vectorTimesMatrix, A.vectorTimesMatrix? width),
   (.matrixTimesVector, A.matrixTimesVector? width),
   (.matrixTimesMatrix, A.matrixTimesMatrix? width)]

/-- The functions of the mathematical instruction set, by their numbers. -/
def extended : List (Word × (S → S)) :=
  [(13, A.sin width), (14, A.cos width), (32, A.inverseSqrt width)]

end ScalarOps

namespace Module

variable {S : Type} (A : ScalarOps S) (m : Module)

/-- The id is defined by an instruction with the given opcode. -/
def DefinedBy (id : Id) (c : Opcode) : Prop :=
  (m.defining? id).map Instruction.opcode = some c

instance (id : Id) (c : Opcode) : Decidable (m.DefinedBy id c) :=
  inferInstanceAs (Decidable (_ = _))

/-- The width of a scalar type. -/
def scalarWidth? (T : Id) : Option Word :=
  if m.DefinedBy T .typeInt ∨ m.DefinedBy T .typeFloat then
    (m.defining? T).bind (·.operands[1]?)
  else none

/-- The width of the components of a scalar or vector type. -/
def vectorWidth? (T : Id) : Option Word :=
  if m.DefinedBy T .typeVector then
    ((m.defining? T).bind (·.operands[1]?)).bind m.scalarWidth?
  else m.scalarWidth? T

/-- The width of the components of a scalar, vector or matrix type. -/
def width? (T : Id) : Option Word :=
  if m.DefinedBy T .typeMatrix then
    ((m.defining? T).bind (·.operands[1]?)).bind m.vectorWidth?
  else m.vectorWidth? T

/-- The literal of a constant. -/
def literal? (id : Id) : Option Word :=
  if m.DefinedBy id .constant then (m.defining? id).bind (·.operands[2]?) else none

/-- The value of a constant. -/
def constant? (id : Id) : Option (Data S) := do
  let T ← m.typeOf? id
  let word ← m.literal? id
  if m.DefinedBy T .typeInt then some (.scalar (A.uint word))
  else if m.DefinedBy T .typeFloat then some (.scalar (A.float word))
  else none

/-- What an operand stands for: variables are pointers, constants values, and anything else is the
result of an instruction. -/
def operand? (M : Machine S) (id : Id) : Option (Operand S) :=
  if m.DefinedBy id .var then some (.pointer id [])
  else if m.DefinedBy id .constant then (m.constant? A id).map .data
  else M.results id

def data? (M : Machine S) (id : Id) : Option (Data S) :=
  (m.operand? A M id).bind Operand.data?

def pointer? (M : Machine S) (id : Id) : Option (Id × List Word) :=
  (m.operand? A M id).bind Operand.pointer?

/-! ## Instructions -/

variable (M : Machine S)

def load? : List Word → Option (Operand S)
  | [p] => do
    let (root, path) ← m.pointer? A M p
    let d ← (M.memory root).at? path
    return .data d
  | _ => none

/-- Extends a pointer by constant indices. -/
def access? : List Word → Option (Operand S)
  | p :: indices => do
    let (root, path) ← m.pointer? A M p
    let indices ← indices.mapM m.literal?
    return .pointer root (path ++ indices)
  | _ => none

def extract? : List Word → Option (Operand S)
  | x :: path => do
    let d ← m.data? A M x
    let d ← d.at? path
    return .data d
  | _ => none

/-- Makes a composite of the type `T`. The constituents of a vector are scalars and vectors. -/
def construct? (T : Id) (parts : List Word) : Option (Operand S) := do
  let parts ← parts.mapM (m.data? A M)
  let d ← if m.DefinedBy T .typeVector then Data.joined? parts else some (.composite parts)
  return .data d

/-- Applies a function of the mathematical instruction set. -/
def extended? (T : Id) : List Word → Option (Operand S)
  | [set, number, x] =>
    if m.defining? set = some ⟨.extInstImport, set :: Literal.ofString mathSetName⟩ then do
      let width ← m.width? T
      let f ← (A.extended width).lookup number
      let d ← m.data? A M x
      let d ← d.map? f
      return .data d
    else none
  | _ => none

def arithmetic? (c : Opcode) (T : Id) : List Word → Option (Operand S)
  | [l, r] => do
    let width ← m.width? T
    let f ← (A.instructions width).lookup c
    let l ← m.data? A M l
    let r ← m.data? A M r
    let d ← f l r
    return .data d
  | _ => none

/-- The result of an instruction with the opcode `c` and the result type `T`. -/
def result? (c : Opcode) (T : Id) (operands : List Word) : Option (Operand S) :=
  if c = .load then m.load? A M operands
  else if c = .accessChain then m.access? A M operands
  else if c = .compositeExtract then m.extract? A M operands
  else if c = .compositeConstruct then m.construct? A M T operands
  else if c = .extInst then m.extended? A M T operands
  else m.arithmetic? A M c T operands

/-- Writes to where a pointer points. -/
def store? : List Word → Option (Machine S)
  | [p, x] => do
    let (root, path) ← m.pointer? A M p
    let new ← m.data? A M x
    let d ← (M.memory root).replace? path new
    return { M with memory := Function.update M.memory root d }
  | _ => none

/-- What an instruction other than a return does. Labels and the declarations of variables do
nothing. -/
def exec? (i : Instruction) : Option (Machine S) :=
  if i.opcode = .label ∨ i.opcode = .var then some M
  else if i.opcode = .store then m.store? A M i.operands
  else match i.operands with
    | T :: id :: operands => (m.result? A M i.opcode T operands).map (M.assign id)
    | _ => none

/-- Runs instructions to a return. -/
def run? : List Instruction → Machine S → Option (Memory S × Option (Data S))
  | [], _ => none
  | i :: is, M =>
    if i.opcode = .ret then some (M.memory, none)
    else if i.opcode = .returnValue then do
      let x ← i.operands.head?
      let d ← m.data? A M x
      return (M.memory, some d)
    else do
      let M ← m.exec? A M i
      run? is M

/-- The instructions of a function, without its start and end. -/
def body (f : Id) : List Instruction :=
  let rest := m.instructions.dropWhile fun i => ¬ (i.opcode = .function ∧ i.resultId = some f)
  rest.tail.takeWhile (·.opcode ≠ .functionEnd)

/-- Calls a function: the memory it leaves and its result. -/
def call? (f : Id) (memory : Memory S) : Option (Memory S × Option (Data S)) :=
  m.run? A (m.body f) ⟨memory, fun _ => none⟩

/-! ## One equation for each instruction -/

section

variable {A m M} {root : Id} {path : List Word}

/-- A store changes what is in memory. -/
theorem exec?_store {p x : Id} {new : Data S} (hp : m.operand? A M p = some (.pointer root path))
    (hx : m.operand? A M x = some (.data new)) :
    m.exec? A M ⟨.store, [p, x]⟩ = ((M.memory root).replace? path new).bind fun d =>
      some { M with memory := Function.update M.memory root d } := by
  show m.store? A M [p, x] = _
  simp [store?, pointer?, data?, hp, hx, Operand.pointer?, Operand.data?]

/-- A load reads what is in memory. -/
theorem exec?_load {T id p : Id} (hp : m.operand? A M p = some (.pointer root path)) :
    m.exec? A M ⟨.load, [T, id, p]⟩ = ((M.memory root).at? path).bind fun d =>
      some (M.assign id (.data d)) := by
  show (m.load? A M [p]).map (M.assign id) = _
  simp [load?, pointer?, hp, Operand.pointer?, M.map_assign_data]

/-- A path is continued. -/
theorem exec?_accessChain {T id p index : Id} {i : Word}
    (hp : m.operand? A M p = some (.pointer root path)) (hi : m.literal? index = some i) :
    m.exec? A M ⟨.accessChain, [T, id, p, index]⟩ =
      some (M.assign id (.pointer root (path ++ [i]))) := by
  show (m.access? A M [p, index]).map (M.assign id) = _
  simp [access?, pointer?, hp, hi, Operand.pointer?]

/-- A part is taken. -/
theorem exec?_compositeExtract {T id x : Id} {d : Data S} (hx : m.operand? A M x = some (.data d)) :
    m.exec? A M ⟨.compositeExtract, T :: id :: x :: path⟩ = (d.at? path).bind fun d =>
      some (M.assign id (.data d)) := by
  show (m.extract? A M (x :: path)).map (M.assign id) = _
  simp [extract?, data?, hx, Operand.data?, M.map_assign_data]

/-- The components of a vector are joined, and other parts are kept apart. -/
theorem exec?_compositeConstruct {T id : Id} {parts : List Id} {ds : List (Data S)}
    (hparts : parts.mapM (m.data? A M) = some ds) :
    m.exec? A M ⟨.compositeConstruct, T :: id :: parts⟩ =
      (if m.DefinedBy T .typeVector then Data.joined? ds else some (.composite ds)).bind fun d =>
        some (M.assign id (.data d)) := by
  show (m.construct? A M T parts).map (M.assign id) = _
  by_cases hvector : m.DefinedBy T .typeVector
  · simp [construct?, hparts, hvector, M.map_assign_data]
  · simp [construct?, hparts, hvector]

/-- A function is applied to each component. -/
theorem exec?_extInst {T id set x : Id} {number width : Word} {f : S → S} {d : Data S}
    (hset : m.defining? set = some ⟨.extInstImport, set :: Literal.ofString mathSetName⟩)
    (hwidth : m.width? T = some width) (hf : (A.extended width).lookup number = some f)
    (hx : m.operand? A M x = some (.data d)) :
    m.exec? A M ⟨.extInst, [T, id, set, number, x]⟩ = (d.map? f).bind fun d =>
      some (M.assign id (.data d)) := by
  show (m.extended? A M T [set, number, x]).map (M.assign id) = _
  simp [extended?, hset, hwidth, hf, data?, hx, Operand.data?, M.map_assign_data]

/-- An operator is applied. -/
theorem exec?_arithmetic {c : Opcode} (hc : c ∈ Opcode.arithmetic) {T id l r : Id} {width : Word}
    {f : Data S → Data S → Option (Data S)} {dl dr : Data S} (hwidth : m.width? T = some width)
    (hf : (A.instructions width).lookup c = some f) (hl : m.operand? A M l = some (.data dl))
    (hr : m.operand? A M r = some (.data dr)) :
    m.exec? A M ⟨c, [T, id, l, r]⟩ = (f dl dr).bind fun d => some (M.assign id (.data d)) := by
  have hdispatch : ∀ c ∈ Opcode.arithmetic, c ∉ [Opcode.label, .var, .store, .load, .accessChain,
      .compositeExtract, .compositeConstruct, .extInst] := by decide
  have hc := hdispatch c hc
  simp only [List.mem_cons, List.not_mem_nil, or_false, not_or] at hc
  have hresult : m.result? A M c T [l, r] = m.arithmetic? A M c T [l, r] := by
    simp [result?, hc]
  simp [exec?, hc, hresult, arithmetic?, hwidth, hf, data?, hl, hr, Operand.data?,
    M.map_assign_data]

end

end Module

end ShaderStage

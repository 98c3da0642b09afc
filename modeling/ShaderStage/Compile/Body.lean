import ShaderStage.Emitter.Expression

/-! # Method bodies

A body is emitted operation by operation. The operand stack holds the ids of values and pointers;
nothing may follow a return. -/

namespace ShaderStage

/-- A variable of the module. -/
structure Variable where
  id : Id
  /-- The type of the pointer to it. -/
  key : Key
  name : String
  location : Option UInt32 := none
  binding : Option UInt32 := none
  descriptorSet : Option UInt32 := none
  builtIn : Option BuiltInNumber := none
  pushConstant : Bool := false
deriving DecidableEq

/-- The storage class of a variable. -/
def Variable.storage (v : Variable) : StorageClass :=
  v.key.storage

/-- What an operation of a body can refer to. -/
structure Scope where
  method : Method
  globals : List Variable
  locals : List Variable

/-- Where the emission of a body stands. -/
inductive Progress where
  /-- The next operation finds these operands, the top first. -/
  | running (stack : List Id)
  | returned
deriving DecidableEq

namespace Scope

/-- Refuses the program at an operation. -/
def refuse {α : Type} (s : Scope) (index : Nat) (fault : OperationFault) : Emit α :=
  Emit.refuse (.atOperation s.method.name index fault)

/-- The field at a position. -/
def field (s : Scope) (index : Nat) (position : Int) : Emit Variable :=
  match elementAt? s.globals position with
  | some v => pure v
  | none => s.refuse index (.fieldOutOfRange position)

/-- The local at a position. -/
def localVariable (s : Scope) (index : Nat) (position : Int) : Emit Variable :=
  match elementAt? s.locals position with
  | some v => pure v
  | none => s.refuse index (.localOutOfRange position)

/-- The top of the stack and what is below it. -/
def pop (s : Scope) (index : Nat) : List Id → Emit (Id × List Id)
  | [] => s.refuse index .underflow
  | top :: rest => pure (top, rest)

/-- Replaces the top of the stack. -/
def replace (s : Scope) (index : Nat) (stack : List Id) (f : Id → Emit Id) : Emit Progress := do
  let (top, rest) ← s.pop index stack
  let id ← f top
  return .running (id :: rest)

/-- Writes the top of the stack to a variable. -/
def storeTo (s : Scope) (index : Nat) (stack : List Id) (v : Variable) : Emit Progress := do
  let (value, rest) ← s.pop index stack
  Emit.store v.id value
  return .running rest

/-- Returns from the method, with the top of the stack unless the method is void. -/
def ret (s : Scope) (index : Nat) (stack : List Id) : Emit Progress := do
  if s.method.result.isVoid then
    Emit.ret
    return .returned
  else
    let (value, _) ← s.pop index stack
    let b ← Emit.binding value
    if b.key.type.same s.method.result then
      Emit.returnValue value
      return .returned
    else s.refuse index (.returnMismatch b.key.type s.method.result)

/-- Makes a composite of the topmost values, the deepest first. -/
def construct (s : Scope) (index : Nat) (stack : List Id) (t : Ty) (count : Int) :
    Emit Progress := do
  if 0 ≤ count ∧ count ≤ stack.length then
    let id ← Emit.construct t (stack.take count.toNat).reverse
    return .running (id :: stack.drop count.toNat)
  else s.refuse index (.tooFewParts count stack.length)

/-- Emits the operation at position `index`. -/
def step (s : Scope) (index : Nat) (stack : List Id) : Operation → Emit Progress
  | .loadField position => do
    let v ← s.field index position
    return .running (v.id :: stack)
  | .loadLocal position => do
    let v ← s.localVariable index position
    return .running (v.id :: stack)
  | .storeField position => do
    let v ← s.field index position
    s.storeTo index stack v
  | .storeLocal position => do
    let v ← s.localVariable index position
    s.storeTo index stack v
  | .store => do
    let (value, rest) ← s.pop index stack
    let (pointer, rest) ← s.pop index rest
    Emit.store pointer value
    return .running rest
  | .deref => s.replace index stack Emit.load
  | .pushUint value => do
    let id ← Emit.constantUint value
    return .running (id :: stack)
  | .pushFloat bits => do
    let id ← Emit.constantFloat bits
    return .running (id :: stack)
  | .extract component => s.replace index stack (Emit.extract · component)
  | .extract2 row col => s.replace index stack (Emit.extract2 · row col)
  | .access component => s.replace index stack (Emit.access · component)
  | .construct t count => s.construct index stack t count
  | .math function => s.replace index stack (Emit.math function)
  | .narrowVec4 => s.replace index stack Emit.narrowVec4
  | .narrowMat4 => s.replace index stack Emit.narrowMat4
  | .binary operator => do
    let (right, rest) ← s.pop index stack
    let (left, rest) ← s.pop index rest
    let id ← Emit.binary operator left right
    return .running (id :: rest)
  | .dup => do
    let (top, rest) ← s.pop index stack
    return .running (top :: top :: rest)
  | .pop => do
    let (_, rest) ← s.pop index stack
    return .running rest
  | .ret => s.ret index stack
  | .missing => s.refuse index .missing

/-- Emits the operations from position `index` on. -/
def run (s : Scope) (index : Nat) : Progress → List Operation → Emit Progress
  | progress, [] => return progress
  | .returned, _ :: _ => s.refuse index .unreachable
  | .running stack, op :: rest => do
    let progress ← s.step index stack op
    s.run (index + 1) progress rest

end Scope

/-- A function of the module. -/
structure Function where
  id : Id
  name : String
  returnType : Id
  locals : List Variable
deriving DecidableEq

namespace Method

/-- The name of a local at a position. -/
def localName (l : Local) (index : Nat) : String :=
  if l.name = "" then s!"local{index}" else l.name

/-- Declares the locals from position `index` on. -/
def declareLocals (m : Method) (index : Nat) : List Local → Emit (List Variable)
  | [] => return []
  | l :: rest => do
    if l.type.isOpaque then Emit.refuse (.opaqueLocal m.name index l.type)
    let key := (Key.pointer l.type .function).normalize
    let type ← Emit.keyId key
    let name := localName l index
    let id ← Emit.localVariable type
    Emit.name id name
    Emit.bind id key name
    return { id, key, name } :: (← m.declareLocals (index + 1) rest)

/-- Ends a method after its operations. A void method may leave out its return. -/
def emitEnding (m : Method) : Progress → Emit Unit
  | .returned => pure ()
  | .running _ => if m.result.isVoid then Emit.ret else Emit.refuse (.missingReturn m.name)

/-- Emits a method. -/
def emit (m : Method) (globals : List Variable) : Emit Function := do
  let returnType ← Emit.typeId m.result .none
  let type ← Emit.functionType returnType
  let id ← Emit.function type returnType 0
  Emit.name id m.name
  let _ ← Emit.label
  let locals ← m.declareLocals 0 m.locals
  let progress ← Scope.run ⟨m, globals, locals⟩ 0 (.running []) m.body
  m.emitEnding progress
  Emit.functionEnd
  return { id, name := m.name, returnType, locals }

end Method

end ShaderStage

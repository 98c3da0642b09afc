import ShaderStage.Compile.Basic
import ShaderStage.Proofs.Computations

/-! # Effects

What single steps make of an emitter, in equations. The larger effects, such as a structure type
with the names and offsets of its members, are functions of the emitter as well, so that it can be
said exactly what is emitted together.

* `Emitter.put`, `Emitter.define`: adding one instruction, without and with a result;
* `Emitter.structured`, `Emitter.newConstant`, `Emitter.importMath`: what is emitted together;
* `Compile.emit_eq_ok`: emitting inside of a compilation changes nothing but the emitter. -/

namespace ShaderStage

/-- States of which an emitter is a part. -/
class HasEmitter (σ : Type) where
  emitter : σ → Emitter

instance : HasEmitter Emitter := ⟨fun s => s⟩

instance : HasEmitter Compilation := ⟨Compilation.emitter⟩

/-- The draft of a state. -/
abbrev HasEmitter.draft {σ : Type} [HasEmitter σ] (s : σ) : Draft := (emitter s).draft

namespace Emitter

/-- The emitter after an instruction without a result. -/
def put (s : Emitter) (part : Section) (i : Instruction) : Emitter :=
  { s with draft := s.draft.emit part i }

/-- The emitter after an instruction with a result. -/
def define (s : Emitter) (part : Section) (i : Instruction) : Emitter :=
  { s with
    draft :=
      { s.draft.emit part i with ids := { s.draft.ids with taken := s.draft.ids.taken + 1 } } }

/-- The result of the next instruction that has one. -/
def nextId (s : Emitter) : Id := s.draft.ids.next

/-- The emitter with a new type recorded. -/
def cache (s : Emitter) (key : Key) (id : Id) : Emitter :=
  { s with
    types := (key.signature, id) :: s.types
    bindings := (id, ⟨key.normalize, ""⟩) :: s.bindings }

/-- The emitter with the key and name of an id recorded. -/
def record (s : Emitter) (id : Id) (key : Key) (name : String) : Emitter :=
  { s with bindings := (id, ⟨key.normalize, name⟩) :: s.bindings }

/-- The emitter with a capability declared. -/
def declare (s : Emitter) (c : Capability) : Emitter :=
  if s.draft.declares c then s else s.put .capabilities ⟨.capability, [c]⟩

/-- The emitter with a debug name for an id. -/
def label (s : Emitter) (id : Id) (text : String) : Emitter :=
  s.put .names ⟨.name, id :: Literal.ofString text⟩

/-- The emitter with a debug name for an id, unless it is empty. -/
def title (s : Emitter) (id : Id) (text : String) : Emitter :=
  if text = "" then s else s.label id text

/-- The emitter with an id recorded, and named unless its name is empty. -/
def named (s : Emitter) (id : Id) (key : Key) (text : String) : Emitter :=
  (s.record id key text).title id text

/-- The emitter with an id named and recorded. -/
def labelled (s : Emitter) (id : Id) (key : Key) (text : String) : Emitter :=
  (s.label id text).record id key text

/-- The emitter with the first member of a structure type placed, and named unless its name is
empty. -/
def place (s : Emitter) (struct : Id) (index : Word) (offset : UInt32) (member : String) :
    Emitter :=
  let s := s.put .memberDecorations ⟨.memberDecorate, [struct, index, Decoration.offset, offset]⟩
  if member = "" then s
  else s.put .names ⟨.memberName, struct :: index :: Literal.ofString member⟩

/-- The emitter with the members of a structure type placed and named, up to the first one that has
no size. -/
def layOut (s : Emitter) (struct : Id) (index : Word) (offset : UInt32) : Members → Emitter
  | .nil => s
  | .cons member type rest =>
    let s := s.place struct index offset member
    match type.naturalSize with
    | .error _ => s
    | .ok size => s.layOut struct (index + 1) (offset + size) rest

/-- The emitter with a new structure type whose members have the given types. -/
def structured (s : Emitter) (name : String) (members : Members) (ids : List Id) : Emitter :=
  ((s.define .globals ⟨.typeStruct, s.nextId :: ids⟩).title s.nextId name).layOut s.nextId 0 0
    members

/-- The emitter with a new constant in a pool, of a type that was emitted. -/
def newConstant (s : Emitter) (T : Id) (pool : Pool) (bits : Word) : Emitter :=
  ((s.define .globals ⟨.constant, [T, s.nextId, bits]⟩).labelled s.nextId (.value pool.type)
    (pool.text bits)).addConstant pool bits s.nextId

/-- The emitter with the mathematical instruction set imported. -/
def importMath (s : Emitter) : Emitter :=
  match s.mathSet with
  | some _ => s
  | none =>
    { s.define .instructionSets ⟨.extInstImport, s.nextId :: Literal.ofString mathSetName⟩ with
      mathSet := some s.nextId }

end Emitter

namespace Emit

theorem instruction_apply (part : Section) (op : Opcode) (operands : List Word) (s : Emitter) :
    instruction part op operands s = .ok () (s.put part ⟨op, operands⟩) := rfl

/-- An open emitter gives the next id to the instruction. -/
theorem result_apply {s : Emitter} (hopen : s.draft.ids.closed = false) (part : Section)
    (op : Opcode) (operands : List Word) :
    result part op operands s =
      .ok s.nextId (s.define part ⟨op, s.nextId :: operands⟩) := by
  simp [result, fresh, bind_apply, map_apply, IdSupply.take, hopen, instruction, Emitter.nextId,
    Emitter.define, Draft.emit]

/-- An open emitter gives the next id to the instruction, which has the type in front of it. -/
theorem typedResult_apply {s : Emitter} (hopen : s.draft.ids.closed = false) (part : Section)
    (op : Opcode) (type : Id) (operands : List Word) :
    typedResult part op type operands s =
      .ok s.nextId (s.define part ⟨op, type :: s.nextId :: operands⟩) := by
  simp [typedResult, fresh, bind_apply, map_apply, IdSupply.take, hopen, instruction,
    Emitter.nextId, Emitter.define, Draft.emit]

/-- An id is looked up in the record, and refused if it is not there. -/
theorem binding_apply (id : Id) (s : Emitter) :
    binding id s =
      match s.bindings.lookup id with
      | some b => .ok b s
      | none => .error (.refused (.unbound id)) s := by
  unfold binding
  rw [bind_apply, get_apply]
  dsimp only
  cases s.bindings.lookup id <;> rfl

/-- Looking up an id changes nothing. -/
theorem binding_eq_ok {id : Id} {s s' : Emitter} {b : Binding}
    (h : binding id s = .ok b s') : s' = s ∧ s.bindings.lookup id = some b := by
  rw [binding_apply] at h
  cases hfound : s.bindings.lookup id with
  | some found =>
    rw [hfound] at h
    cases h
    exact ⟨rfl, rfl⟩
  | none =>
    rw [hfound] at h
    cases h

/-- A type that is known is not emitted again. -/
theorem intern_apply_of_some {key : Key} {s : Emitter} {id : Id}
    (h : s.types.lookup key.signature = some id) (x : Emit Id) : intern key x s = .ok id s := by
  unfold intern
  rw [bind_apply, get_apply]
  simp only [h, pure_apply]

/-- A type that is not known is emitted, and is known from then on. -/
theorem intern_apply_of_none {key : Key} {s : Emitter} (h : s.types.lookup key.signature = none)
    (x : Emit Id) :
    intern key x s =
      match x s with
      | .ok id s' => .ok id (s'.cache key id)
      | .error e s' => .error e s' := by
  unfold intern
  rw [bind_apply, get_apply]
  simp only [h, bind_apply]
  cases x s <;> rfl

/-- A new type is what emitting it gave, recorded. -/
theorem intern_eq_ok_of_none {key : Key} {x : Emit Id} {s s' : Emitter} {id : Id}
    (hnew : s.types.lookup key.signature = none) (hrun : intern key x s = .ok id s') :
    ∃ s₁, x s = .ok id s₁ ∧ s' = s₁.cache key id := by
  rw [intern_apply_of_none hnew] at hrun
  cases hx : x s with
  | ok found s₁ =>
    rw [hx] at hrun
    cases hrun
    exact ⟨s₁, rfl, rfl⟩
  | error e s₁ =>
    rw [hx] at hrun
    cases hrun

/-- What is left to lay out once a member has its offset and its name. -/
def layoutRest (struct : Id) (index : Word) (offset : UInt32) (type : Ty) (rest : Members) :
    Emit Unit :=
  match type.naturalSize with
  | .error part => refuse (.noNaturalSize part)
  | .ok size => layoutMembers struct (index + 1) (offset + size) rest

/-- The first member is placed and named before it is asked how large it is. -/
theorem layoutMembers_cons (struct : Id) (index : Word) (offset : UInt32) (member : String)
    (type : Ty) (rest : Members) :
    layoutMembers struct index offset (.cons member type rest) = (do
      memberDecorate struct index .offset [offset]
      unless member = "" do memberName struct index member
      layoutRest struct index offset type rest) :=
  rfl

end Emit

/-- Emitting code succeeds if the code does, and changes nothing but the emitter. -/
theorem Compile.emit_eq_ok {α : Type} {x : Emit α} {c c' : Compilation} {a : α}
    (h : Compile.emit x c = .ok a c') :
    ∃ s, x c.emitter = .ok a s ∧ c' = { c with emitter := s } := by
  unfold Compile.emit EStateM.run at h
  cases hrun : x c.emitter with
  | ok b s =>
    rw [hrun] at h
    cases h
    exact ⟨s, rfl, rfl⟩
  | error e s =>
    rw [hrun] at h
    cases h

end ShaderStage

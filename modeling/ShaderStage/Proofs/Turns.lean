import ShaderStage.Proofs.Typing

/-! # Turns of an emitter

An emitter keeps tables of what it emitted: types by signature, constants by bit pattern, function
types by result, blocks, and the mathematical instruction set. It works in turns. A turn enters
something new into one table, together with the instructions that define it, or it adds a value, a
variable or a note that no table is about. Turns are described exactly, so that whatever is true of
all emissions needs to be shown for single turns only:

* `Emitter.Turn`: what an emitter does at a time, and what of it is done in public;
* `Emitter.Turn.grows`, `Emitter.Turn.find_cases`: the log grows, and no table forgets anything;
* `Acts`: an emission takes turns, whether or not it succeeds. -/

namespace ShaderStage

/-! ## Foreseen errors -/

/-- Faults that a look at the program alone can find. -/
def OperationFault.foreseen : OperationFault → Bool
  | .fieldOutOfRange _ | .localOutOfRange _ | .missing => true
  | _ => false

/-- Errors that a look at the program alone can find. -/
def CompileError.foreseen : CompileError → Bool
  | .noProgram | .unknownStage .. | .noVertexCount .. | .noEntryPoint .. => true
  | .atOperation _ _ fault => fault.foreseen
  | _ => false

/-- A kind of errors which has all those that nobody could foresee. -/
class Tolerant (E : CompileError → Prop) : Prop where
  tolerates : ∀ e, e.foreseen = false → E e

instance : Tolerant fun _ => True :=
  ⟨fun _ _ => trivial⟩

instance : Tolerant fun e => e.foreseen = false :=
  ⟨fun _ h => h⟩

/-! ## Kinds of keys and texts -/

/-- A kind of keys which has, with any key, those that emission derives from it. -/
class KeyKind (K : Key → Prop) : Prop where
  basic {t : Ty} : t.Basic → K (.value t)
  normalize {k : Key} : K k → K k.normalize
  elem {t : Ty} {length : UInt32} {storage : StorageClass} :
    K ⟨.array t length, storage⟩ → K (.value t)
  member {name : String} {members : Members} {storage : StorageClass} :
    K ⟨.struct name members, storage⟩ → ∀ m ∈ members.toList, K (.value m.2)
  pointee {t : Ty} {storage : StorageClass} :
    K (.pointer t storage) → K ⟨t, if t.isOpaque then .uniformConstant else storage⟩
  block {name : String} {members : Members} {storage : StorageClass} :
    K (.pointer (.struct name members) storage) → K (.value (.struct name members))
  component {t u : Ty} {i : UInt32} {storage : StorageClass} :
    K (.pointer t storage) → t.HasPart i u → K (.pointer u storage)

/-- All keys. -/
instance : KeyKind fun _ => True where
  basic _ := trivial
  normalize _ := trivial
  elem _ := trivial
  member _ _ _ := trivial
  pointee _ := trivial
  block _ := trivial
  component _ _ := trivial

/-- The type at an index is that of one of the members. -/
theorem Members.mem_of_type? {members : Members} {i : Nat} {t : Ty}
    (h : members.type? i = some t) : ∃ m ∈ members.toList, m.2 = t := by
  induction members, i using type?.induct with
  | case1 i => cases h
  | case2 name type rest =>
    cases h
    exact ⟨_, List.mem_cons_self, rfl⟩
  | case3 name type rest i ih =>
    obtain ⟨m, hm, rfl⟩ := ih h
    exact ⟨m, List.mem_cons_of_mem _ hm, rfl⟩

/-- The parts of a composite are of the kind that it is of. -/
theorem KeyKind.part {K : Key → Prop} [KeyKind K] {t u : Ty} {i : UInt32} {storage : StorageClass}
    (hk : K ⟨t, storage⟩) (h : t.HasPart i u) : K (.value u) := by
  cases h with
  | vector => exact basic (t := .float32) trivial
  | matrix4 => exact basic (t := .vec4) trivial
  | array => exact elem hk
  | struct hi =>
    obtain ⟨m, hm, rfl⟩ := Members.mem_of_type? hi
    exact member hk m hm

/-- The keys of types that may be asked for, the keys that ids may be recorded with, the texts that
ids may be named with, the texts that may be announced for a module, and whether ids may be passed
in that the emitter did not hand out. -/
structure Kinds where
  key : Key → Prop
  bound : Key → Prop
  text : String → Prop
  announced : String → Prop
  foreign : Prop

/-- What a pointer of the kind points to may be asked for as a value. -/
def Kinds.Reads (κ : Kinds) (t : Ty) : Prop :=
  ∀ storage, κ.key (.pointer t storage) → κ.key (.value t)

/-- Kinds which have the keys and the texts that come with types and constants. -/
class Kinds.Grounded (κ : Kinds) : Prop extends KeyKind κ.key where
  bind {k : Key} : κ.key k → κ.bound k
  unnamed : κ.text ""
  constant (pool : Pool) (bits : Word) : κ.text (pool.text bits)

/-- Kinds which have, with any key or text, those that emission derives from it. -/
class Kinds.Closed (κ : Kinds) : Prop extends Kinds.Grounded κ where
  read {k : Key} : κ.bound k → κ.key k
  loaded {text : String} : κ.text text → κ.text (suffixed text "-loaded")
  extracted {text : String} (index : UInt32) : κ.text text → κ.text (extractName text index)
  cell {text : String} (row col : UInt32) :
    κ.text text → κ.text (suffixed text s!"[{row}][{col}]")
  accessed {text : String} (index : UInt32) : κ.text text → κ.text (accessName text index)
  narrowed {text : String} : κ.text text → κ.text (suffixed text ".xyz")
  localName {l : Local} (index : Nat) : κ.text l.name → κ.text (Method.localName l index)

/-- Keys of one kind, and any texts. -/
instance (K : Key → Prop) [KeyKind K] (foreign : Prop) :
    Kinds.Closed ⟨K, K, fun _ => True, fun _ => True, foreign⟩ where
  bind h := h
  unnamed := trivial
  constant _ _ := trivial
  read h := h
  loaded _ := trivial
  extracted _ _ := trivial
  cell _ _ _ := trivial
  accessed _ _ := trivial
  narrowed _ := trivial
  localName _ _ := trivial

/-- Types of one kind; anything may be recorded. -/
instance (K : Key → Prop) [KeyKind K] (foreign : Prop) :
    Kinds.Grounded ⟨K, fun _ => True, fun _ => True, fun _ => True, foreign⟩ where
  bind _ := trivial
  unnamed := trivial
  constant _ _ := trivial

/-- All keys and texts. -/
abbrev Kinds.all (foreign : Prop) : Kinds :=
  ⟨fun _ => True, fun _ => True, fun _ => True, fun _ => True, foreign⟩

/-! ## Entries -/

/-- The instruction marks a structure type as a block. -/
def Instruction.isBlock (i : Instruction) : Bool :=
  i.opcode = .decorate && i.operands[1]? = some Decoration.block

/-- The entries of a section, in order. -/
def Section.pick (part : Section) (entries : List (Section × Instruction)) : List Instruction :=
  entries.filterMap fun e => if e.1 = part then some e.2 else none

namespace Section

@[simp] theorem pick_nil (part : Section) : part.pick [] = [] := rfl

@[simp] theorem pick_append (part : Section) (l l' : List (Section × Instruction)) :
    part.pick (l ++ l') = part.pick l ++ part.pick l' :=
  List.filterMap_append

@[simp] theorem pick_cons (part part' : Section) (i : Instruction)
    (l : List (Section × Instruction)) :
    part.pick ((part', i) :: l) = if part' = part then i :: part.pick l else part.pick l := by
  by_cases h : part' = part <;> simp [pick, h]

@[simp] theorem pick_map {α : Type} (part part' : Section) (f : α → Instruction) (l : List α) :
    part.pick (l.map fun a => (part', f a)) = if part' = part then l.map f else [] := by
  induction l with
  | nil => simp
  | cons a l ih => by_cases h : part' = part <;> simp_all

/-- An entry is picked exactly if it is for the section. -/
theorem mem_pick {part : Section} {entries : List (Section × Instruction)} {i : Instruction} :
    i ∈ part.pick entries ↔ (part, i) ∈ entries := by
  simp [pick, List.mem_filterMap]

/-- Nothing is picked if no entry is for the section. -/
theorem pick_eq_nil {part : Section} {entries : List (Section × Instruction)}
    (h : ∀ e ∈ entries, e.1 ≠ part) : part.pick entries = [] := by
  refine List.filterMap_eq_nil_iff.mpr fun e he => ?_
  simp [h e he]

end Section

/-- What a section has is picked from the log. -/
theorem Draft.emitted_eq_pick (d : Draft) (part : Section) :
    d.emitted part = part.pick d.log.toList := rfl

/-- What a turn enters into a table. -/
inductive Entry where
  | type (signature : String)
  | uint (value : Word)
  | float (bits : Word)
  | functionType (result : Id)
  | block (struct : Id)
  | mathSet
deriving DecidableEq

/-- The entry of a constant. -/
def Pool.entry : Pool → Word → Entry
  | .uint, value => .uint value
  | .float, bits => .float bits

/-- The capability that a type needs for its width. -/
def Key.capability? (k : Key) : Option Capability :=
  match k.type with
  | .int t => IntTy.capabilities.lookup t.width
  | .float width => Ty.floatCapabilities.lookup width
  | _ => none

/-- The decorations that tell where a variable is placed. -/
def Decoration.placing : List Decoration :=
  [.descriptorSet, .binding, .location, .builtIn]

/-- Instructions of a function that compute a value from their operands. -/
inductive Opcode.Computes : Opcode → List Word → Prop
  | load (pointer : Id) : Computes .load [pointer]
  | extract (base : Id) (indices : List Word) : Computes .compositeExtract (base :: indices)
  | access (base index : Id) : Computes .accessChain [base, index]
  | construct (parts : List Id) : Computes .compositeConstruct parts
  | arithmetic {op : Opcode} (hop : op ∈ Opcode.arithmetic) (left right : Id) :
      Computes op [left, right]

/-- Instructions of a function that have no result. -/
inductive Opcode.Performs : Opcode → List Word → Prop
  | store (pointer value : Id) : Performs .store [pointer, value]
  | ret : Performs .ret []
  | returnValue (value : Id) : Performs .returnValue [value]
  | functionEnd : Performs .functionEnd []

/-- What computes a value stands in a function and has a typed result. -/
theorem Opcode.Computes.spec {op : Opcode} {operands : List Word} (h : op.Computes operands) :
    op ∈ Section.functions.opcodes ∧ op.shape = .typedResult ∧ op ∉ [.var, .extInst] := by
  have harithmetic : ∀ op ∈ Opcode.arithmetic,
      op ∈ Section.functions.opcodes ∧ op.shape = .typedResult ∧ op ∉ [.var, .extInst] := by decide
  cases h with
  | arithmetic hop => exact harithmetic op hop
  | _ => decide

/-- What is done for its effect stands in a function and has no result. -/
theorem Opcode.Performs.spec {op : Opcode} {operands : List Word} (h : op.Performs operands) :
    op ∈ Section.functions.opcodes ∧ op.shape = .noResult ∧ op ∉ [.var, .extInst] := by
  cases h <;> decide

namespace Emitter

/-- The ids can still be handed out. -/
def IsOpen (s : Emitter) : Prop :=
  s.draft.ids.closed = false

/-- The id is in the table of types. -/
def IsType (s : Emitter) (id : Id) : Prop :=
  ∃ k : Key, s.typeOf? k = some id

/-- The emitter with the capability declared that a type needs. -/
def prepare (s : Emitter) (k : Key) : Emitter :=
  match k.capability? with
  | some c => s.declare c
  | none => s

/-- The id that a table has for an entry. A block stands for itself. -/
def find (s : Emitter) : Entry → Option Id
  | .type sig => s.types.lookup sig
  | .uint value => s.uints.lookup value
  | .float bits => s.floats.lookup bits
  | .functionType result => s.functionTypes.lookup result
  | .block struct => if struct ∈ s.blocks then some struct else none
  | .mathSet => s.mathSet

/-! ## Turns -/

/-- The type that a canonical key names is defined by one instruction, which has these operands
after its result. -/
inductive Outline (s : Emitter) : Key → Opcode → List Word → Prop
  | void : Outline s (.value .void) .typeVoid []
  | bool : Outline s (.value .bool) .typeBool []
  | int {t : IntTy} (hwidth : t.Supported) :
      Outline s (.value (.int t)) .typeInt [t.width.toUInt32, if t.signed then 1 else 0]
  | float {width : UInt8} (hwidth : (Ty.float width).Supported) :
      Outline s (.value (.float width)) .typeFloat [width.toUInt32]
  | vector {count : UInt8} {c : Id} (hcount : (Ty.vector count).Supported)
      (hc : s.typeOf? (.value .float32) = some c) :
      Outline s (.value (.vector count)) .typeVector [c, count.toUInt32]
  | array {elem : Ty} {length : UInt32} {e l : Id} (hlength : length ≠ 0)
      (he : s.typeOf? (.value elem) = some e) (hl : s.uints.lookup length = some l) :
      Outline s (.value (.array elem length)) .typeArray [e, l]
  | pointer {elem : Ty} {storage : StorageClass} {p : Id}
      (hp : s.typeOf? ⟨elem, storage⟩ = some p) :
      Outline s ⟨.pointer elem, storage⟩ .typePointer [storage, p]

/-- The later emitter has the instructions of a new type, which is not in the table yet. -/
inductive Enters (s : Emitter) : Key → Id → Emitter → Prop
  | simple {k : Key} {op : Opcode} {operands : List Word} (h : s.Outline k.canon op operands) :
      Enters s k s.nextId ((s.prepare k.canon).define .globals ⟨op, s.nextId :: operands⟩)
  | matrix4 {storage : StorageClass} {c : Id} (hc : s.typeOf? (.value .vec4) = some c) :
      Enters s ⟨.matrix4, storage⟩ s.nextId
        ((s.define .globals ⟨.typeMatrix, [s.nextId, c, 4]⟩).put .decorations
          ⟨.decorate, [s.nextId, Decoration.colMajor]⟩)
  /-- The image has no signature of its own: it comes with the sampled image. -/
  | sampledImage2D {storage : StorageClass} {c : Id} (hc : s.typeOf? (.value .float32) = some c)
      {s₁ : Emitter}
      (hs₁ : s₁ = s.define .globals
        ⟨.typeImage, [s.nextId, c, dimension2D, 0, 0, 0, 1, 0]⟩) :
      Enters s ⟨.sampledImage2D, storage⟩ s₁.nextId
        (s₁.define .globals ⟨.typeSampledImage, [s₁.nextId, s.nextId]⟩)
  | struct {name : String} {members : Members} {storage : StorageClass} {ids : List Id}
      (hsized : members.Sized) (hids : s.MemberTypes members ids) :
      Enters s ⟨.struct name members, storage⟩ s.nextId (s.structured name members ids)

/-- What a program says as a whole, beside types, variables and functions. -/
inductive Announces (κ : Kinds) (s : Emitter) : Section → Instruction → Prop
  | extension {text : String} (htext : κ.announced text) :
      Announces κ s .extensions ⟨.extension, Literal.ofString text⟩
  | memoryModel (addressing memory : Word) :
      Announces κ s .memoryModel ⟨.memoryModel, [addressing, memory]⟩
  | source {file : Option Id} (hfile : ∀ id ∈ file, s.Allocated id) (language version : Word) :
      Announces κ s .sources ⟨.source, language :: version :: file.toList⟩
  | sourceExtension {text : String} (htext : κ.announced text) :
      Announces κ s .sources ⟨.sourceExtension, Literal.ofString text⟩
  | entryPoint {f : Id} {interface : List Id} (huses : ∀ id ∈ f :: interface, s.Allocated id)
      (model : ExecutionModel) :
      Announces κ s .entryPoints
        ⟨.entryPoint, model :: f :: Literal.ofString entryPointName ++ interface⟩
  | executionMode {f : Id} (hf : s.Allocated f) (mode : ExecutionMode) (parameters : List Word) :
      Announces κ s .executionModes ⟨.executionMode, f :: mode :: parameters⟩

/-- The later emitter has more instructions, and all its tables as they were. What is listed is done
in public. -/
inductive Notes (κ : Kinds) (s : Emitter) : List (Section × Instruction) → Emitter → Prop
  /-- A structure type whose layout failed, which leaves it without an entry. -/
  | abandoned {name : String} {members : Members} {storage : StorageClass} {ids : List Id}
      (hkey : κ.key ⟨.struct name members, storage⟩) (hids : s.MemberTypes members ids) :
      Notes κ s [] (s.structured name members ids)
  | performed {op : Opcode} {operands : List Word} (h : op.Performs operands) :
      Notes κ s [] (s.put .functions ⟨op, operands⟩)
  | function {text : String} (htext : κ.text text) (result type : Id) :
      Notes κ s []
        ((s.define .functions ⟨.function, [result, s.nextId, 0, type]⟩).label s.nextId text)
  | label : Notes κ s [] (s.define .functions ⟨.label, [s.nextId]⟩)
  | capability (c : Capability) : Notes κ s [(.capabilities, ⟨.capability, [c]⟩)] (s.declare c)
  | decoration {id : Id} {d : Decoration} (hd : d ∈ Decoration.placing) (hid : s.Allocated id)
      (value : Word) :
      Notes κ s [(.decorations, ⟨.decorate, [id, d, value]⟩)]
        (s.put .decorations ⟨.decorate, [id, d, value]⟩)
  | string {text : String} (htext : κ.announced text) :
      Notes κ s [(.sources, ⟨.string, s.nextId :: Literal.ofString text⟩)]
        (s.define .sources ⟨.string, s.nextId :: Literal.ofString text⟩)
  | announced {part : Section} {i : Instruction} (h : s.Announces κ part i) :
      Notes κ s [(part, i)] (s.put part i)

/-- What an emitter does at a time. What is listed is done in public: all that is decorated,
declared or announced for a program as a whole, and the variables of the module. -/
inductive Turn (κ : Kinds) (s : Emitter) : List (Section × Instruction) → Emitter → Prop
  | type {key : Key} {id : Id} {s' : Emitter} (hkey : κ.key key) (hunknown : s.typeOf? key = none)
      (h : s.Enters key id s') : Turn κ s [] (s'.cache key id)
  | constant {pool : Pool} {T : Id} {bits : Word} (hT : s.typeOf? (.value pool.type) = some T)
      (hunknown : (s.constants pool).lookup bits = none) :
      Turn κ s [] (s.newConstant T pool bits)
  | functionType {result : Id} (hresult : κ.foreign ∨ s.IsType result)
      (hunknown : s.functionTypes.lookup result = none) :
      Turn κ s []
        { s.define .globals ⟨.typeFunction, [s.nextId, result]⟩ with
          functionTypes := (result, s.nextId) :: s.functionTypes }
  /-- A value may be recorded without a name first. -/
  | value {op : Opcode} {operands : List Word} {key : Key} {T : Id} {text : String} {s₁ : Emitter}
      (hop : op.Computes operands) (hkey : κ.key key) (htext : κ.text text)
      (hT : s.typeOf? key = some T)
      (hs₁ : s₁ = s.define .functions ⟨op, T :: s.nextId :: operands⟩ ∨
        s₁ = (s.define .functions ⟨op, T :: s.nextId :: operands⟩).record s.nextId key "") :
      Turn κ s [] (s₁.named s.nextId key text)
  /-- The instruction set is imported in the turn of the instruction that uses it. -/
  | math {key : Key} {T set : Id} (hkey : κ.key key) (hT : s.typeOf? key = some T)
      (hset : s.importMath.mathSet = some set) (number : Word) (argument : Id) :
      Turn κ s []
        ((s.importMath.define .functions
          ⟨.extInst, [T, s.importMath.nextId, set, number, argument]⟩).record
            s.importMath.nextId key "")
  | localVariable {key : Key} {T : Id} {text : String} (hkey : κ.key key) (htext : κ.text text)
      (hT : s.typeOf? key = some T) :
      Turn κ s []
        ((s.define .functions ⟨.var, [T, s.nextId, StorageClass.function]⟩).labelled s.nextId key
          text)
  | globalVariable {key : Key} {T : Id} {text : String} (hkey : κ.key key) (htext : κ.text text)
      (hT : s.typeOf? key = some T) (hstorage : key.storage ≠ .none)
      (hpointer : ∃ elem, key.type = .pointer elem ∧ key.normalize = key) :
      Turn κ s [(.globals, ⟨.var, [T, s.nextId, key.storage]⟩)]
        ((s.define .globals ⟨.var, [T, s.nextId, key.storage]⟩).labelled s.nextId key text)
  | block {struct : Id} (hstruct : κ.foreign ∨ s.IsType struct) (hunmarked : struct ∉ s.blocks) :
      Turn κ s [(.decorations, ⟨.decorate, [struct, Decoration.block]⟩)]
        { s.put .decorations ⟨.decorate, [struct, Decoration.block]⟩ with
          blocks := struct :: s.blocks }
  | note {pub : List (Section × Instruction)} {s' : Emitter} (h : s.Notes κ pub s') :
      Turn κ s pub s'
  | rename {id : Id} {b : Binding} {text : String} (hforeign : κ.foreign) (htext : κ.text text)
      (hb : s.bindings.lookup id = some b) :
      Turn κ s [(.names, ⟨.name, id :: Literal.ofString text⟩)]
        (({ s with bindings := (id, { b with name := text }) :: s.bindings } : Emitter).title id
          text)

/-- Turns, one after the other. -/
inductive Turns (κ : Kinds) (s : Emitter) : List (Section × Instruction) → Emitter → Prop
  | refl : Turns κ s [] s
  | tail {pub pub' : List (Section × Instruction)} {s₁ s₂ : Emitter} (h : Turns κ s pub s₁)
      (hturn : Turn κ s₁ pub' s₂) : Turns κ s (pub ++ pub') s₂

/-- The emitter can hand out ids, and what it knows is of the given kinds. -/
structure Ready (κ : Kinds) (s : Emitter) : Prop where
  isOpen : s.IsOpen
  bindings : ∀ {id b}, s.bindings.lookup id = some b → κ.bound b.key ∧ κ.text b.name

/-- If everything is allowed, only the ids have to be open. -/
theorem ready_all {s : Emitter} (hs : s.IsOpen) (foreign : Prop) : s.Ready (.all foreign) :=
  ⟨hs, fun _ => ⟨trivial, trivial⟩⟩

/-! ## What the log gets -/

/-- The later emitter has new entries in its log, and is the same otherwise. -/
structure Logs (s : Emitter) (new : List (Section × Instruction)) (s' : Emitter) : Prop where
  grows : s.draft.Grows s'.draft
  log : s'.draft.log.toList = s.draft.log.toList ++ new
  tables : s' = { s with draft := s'.draft }

variable {κ : Kinds} {s s₁ s₂ s₃ s' : Emitter} {k : Key} {id : Id}
  {pub pub' new new' : List (Section × Instruction)}

/-- The section has what was just defined in it. -/
theorem has_define_self (s : Emitter) (part : Section) (i : Instruction) :
    (s.define part i).Has part i :=
  has_define.mpr (.inr ⟨rfl, rfl⟩)

/-- What is defined in a section stands at its end. -/
theorem emitted_define (s : Emitter) (part part' : Section) (i : Instruction) :
    (s.define part i).draft.emitted part' =
      s.draft.emitted part' ++ if part = part' then [i] else [] :=
  s.draft.emitted_emit part part' i

namespace Logs

theorem refl (s : Emitter) : s.Logs [] s :=
  ⟨.refl _, (List.append_nil _).symm, rfl⟩

theorem trans (h : s₁.Logs new s₂) (h' : s₂.Logs new' s₃) : s₁.Logs (new ++ new') s₃ where
  grows := h.grows.trans h'.grows
  log := by rw [h'.log, h.log, List.append_assoc]
  tables := by
    rw [h'.tables, h.tables]

variable {part : Section} {op : Opcode} {operands : List Word}

/-- An instruction without a result adds itself. -/
theorem put (hpart : op ∈ part.opcodes) (hshape : op.shape = .noResult) :
    s.Logs [(part, ⟨op, operands⟩)] (s.put part ⟨op, operands⟩) where
  grows := s.grows_put hpart (by simp [Instruction.resultId, hshape])
  log := by simp [Emitter.put, Draft.emit]
  tables := rfl

/-- An instruction with a result adds itself, with the next id. -/
theorem result (hpart : op ∈ part.opcodes) (hshape : op.shape = .result) :
    s.Logs [(part, ⟨op, s.nextId :: operands⟩)] (s.define part ⟨op, s.nextId :: operands⟩) where
  grows := s.grows_define hpart (by simp [Instruction.resultId, hshape])
  log := by simp [Emitter.define, Draft.emit]
  tables := rfl

/-- An instruction with a typed result adds itself, with the next id after the type. -/
theorem typedResult (hpart : op ∈ part.opcodes) (hshape : op.shape = .typedResult) {T : Id} :
    s.Logs [(part, ⟨op, T :: s.nextId :: operands⟩)]
      (s.define part ⟨op, T :: s.nextId :: operands⟩) where
  grows := s.grows_define hpart (by simp [Instruction.resultId, hshape])
  log := by simp [Emitter.define, Draft.emit]
  tables := rfl

/-- Emitting alone changes nothing that was found before. -/
theorem find_eq (h : s.Logs new s') : s'.find = s.find := by
  rw [h.tables]
  rfl

theorem bindings (h : s.Logs new s') : s'.bindings = s.bindings := by
  rw [h.tables]

theorem types (h : s.Logs new s') : s'.types = s.types := by
  rw [h.tables]

theorem constants (h : s.Logs new s') (pool : Pool) : s'.constants pool = s.constants pool := by
  rw [h.tables]
  cases pool <;> rfl

theorem blocks (h : s.Logs new s') : s'.blocks = s.blocks := by
  rw [h.tables]

theorem keeps (h : s.Logs new s') : s.Keeps s' where
  draft := h.grows
  types {sig _} hk := (congrFun h.find_eq (.type sig)).trans hk
  uints {v _} hv := (congrFun h.find_eq (.uint v)).trans hv

/-- Each section gets the new entries that are for it. -/
theorem emitted (h : s.Logs new s') (part : Section) :
    s'.draft.emitted part = s.draft.emitted part ++ part.pick new := by
  rw [Draft.emitted_eq_pick, Draft.emitted_eq_pick, h.log, Section.pick_append]

/-- Nothing was added to a section if no entry is in it. -/
theorem emitted_eq (h : s.Logs new s') {part : Section} (hnew : ∀ e ∈ new, e.1 ≠ part) :
    s'.draft.emitted part = s.draft.emitted part := by
  rw [h.emitted, Section.pick_eq_nil hnew, List.append_nil]

/-- The results of the new entries are the ids taken meanwhile. -/
theorem results (h : s.Logs new s') :
    new.filterMap (·.2.resultId) = idsBetween s.draft.ids.taken s'.draft.ids.taken := by
  obtain ⟨new', hlog, -, hresults⟩ := h.grows.log
  obtain rfl : new' = new := List.append_cancel_left (hlog.symm.trans h.log)
  exact hresults

/-- Entries are in sections that have their opcodes. -/
theorem parts (h : s.Logs new s') : ∀ e ∈ new, e.2.opcode ∈ e.1.opcodes := by
  obtain ⟨new', hlog, hparts, -⟩ := h.grows.log
  obtain rfl : new' = new := List.append_cancel_left (hlog.symm.trans h.log)
  exact hparts

/-- The results of the new entries are the ids taken meanwhile. -/
theorem mem_idsBetween (h : s.Logs new s') {e : Section × Instruction} (he : e ∈ new)
    (hid : e.2.resultId = some id) : id ∈ idsBetween s.draft.ids.taken s'.draft.ids.taken := by
  rw [← h.results]
  exact List.mem_filterMap.mpr ⟨e, he, hid⟩

/-- Instructions without a result take no id. -/
theorem nextId_eq (h : s.Logs new s') (hnew : ∀ e ∈ new, e.2.resultId = none) :
    s'.nextId = s.nextId := by
  have hresults := h.results
  rw [List.filterMap_eq_nil_iff.mpr hnew] at hresults
  have hlength := congrArg List.length hresults
  simp only [idsBetween, List.length_map, List.length_range', List.length_nil] at hlength
  have htaken := h.grows.taken
  have heq : s'.draft.ids.taken = s.draft.ids.taken := by omega
  rw [nextId, nextId, IdSupply.next, IdSupply.next, heq]

end Logs

end Emitter

/-- The opcodes of the types that are found by signature. -/
def Opcode.interned : List Opcode :=
  [.typeVoid, .typeBool, .typeInt, .typeFloat, .typeVector, .typeMatrix, .typeSampledImage,
   .typeArray, .typeStruct, .typePointer]

/-- The image type that a sampled image is made of. -/
def IsImageOf (d i : Instruction) : Prop :=
  ∃ T image operands, d = ⟨.typeSampledImage, [T, image]⟩ ∧ i = ⟨.typeImage, image :: operands⟩

/-- The sections that say more about what is defined elsewhere. -/
def Section.remarks : List Section :=
  [.capabilities, .names, .decorations, .memberDecorations]

/-- The entry says more about what is defined elsewhere, and marks no block. -/
structure IsRemark (e : Section × Instruction) : Prop where
  part : e.1 ∈ Section.remarks
  result : e.2.resultId = none
  block : e.2.isBlock = false

namespace Emitter

variable {κ : Kinds} {s s₁ s₂ s₃ s' : Emitter} {k : Key} {id : Id}
  {pub pub' new new' : List (Section × Instruction)}

/-- Only remarks were added. -/
def Remarks (s s' : Emitter) : Prop :=
  ∃ new, s.Logs new s' ∧ ∀ e ∈ new, IsRemark e

namespace Remarks

theorem refl (s : Emitter) : s.Remarks s :=
  ⟨[], .refl s, nofun⟩

theorem trans (h : s₁.Remarks s₂) (h' : s₂.Remarks s₃) : s₁.Remarks s₃ := by
  obtain ⟨new, hlogs, hnew⟩ := h
  obtain ⟨new', hlogs', hnew'⟩ := h'
  exact ⟨_, hlogs.trans hlogs', List.forall_mem_append.mpr ⟨hnew, hnew'⟩⟩

/-- An instruction in a part for remarks, unless it marks a block. -/
theorem put {part : Section} {op : Opcode} {operands : List Word} (hpart : part ∈ Section.remarks)
    (hop : op ∈ part.opcodes) (hshape : op.shape = .noResult)
    (hblock : (Instruction.mk op operands).isBlock = false) :
    s.Remarks (s.put part ⟨op, operands⟩) :=
  ⟨_, .put hop hshape, List.forall_mem_singleton.mpr
    ⟨hpart, by simp [Instruction.resultId, hshape], hblock⟩⟩

/-- A remark takes no id. -/
theorem nextId_eq (h : s.Remarks s') : s'.nextId = s.nextId := by
  obtain ⟨new, hlogs, hnew⟩ := h
  exact hlogs.nextId_eq fun e he => (hnew e he).result

theorem keeps (h : s.Remarks s') : s.Keeps s' := by
  obtain ⟨new, hlogs, -⟩ := h
  exact hlogs.keeps

theorem blocks (h : s.Remarks s') : s'.blocks = s.blocks := by
  obtain ⟨new, hlogs, -⟩ := h
  exact hlogs.blocks

/-- A remark is added to no other section. -/
theorem emitted_eq (h : s.Remarks s') {part : Section} (hpart : part ∉ Section.remarks) :
    s'.draft.emitted part = s.draft.emitted part := by
  obtain ⟨new, hlogs, hnew⟩ := h
  refine hlogs.emitted_eq fun e he heq => hpart ?_
  rw [← heq]
  exact (hnew e he).part

theorem code_eq (h : s.Remarks s') : s'.code = s.code :=
  h.emitted_eq (by decide)

end Remarks

theorem remarks_declare (s : Emitter) (c : Capability) : s.Remarks (s.declare c) := by
  unfold declare
  split
  · exact .refl s
  · exact .put (by decide) (by decide) (by decide) rfl

theorem remarks_prepare (s : Emitter) (k : Key) : s.Remarks (s.prepare k) := by
  unfold prepare
  split
  · exact s.remarks_declare _
  · exact .refl s

theorem remarks_label (s : Emitter) (id : Id) (text : String) : s.Remarks (s.label id text) :=
  .put (by decide) (by decide) (by decide) rfl

/-- The entry that names an id, unless the name is empty. -/
def titleEntries (id : Id) (text : String) : List (Section × Instruction) :=
  if text = "" then [] else [(.names, ⟨.name, id :: Literal.ofString text⟩)]

/-- A name that is not empty is one entry. -/
theorem logs_title (s : Emitter) (id : Id) (text : String) :
    s.Logs (titleEntries id text) (s.title id text) := by
  unfold title titleEntries
  split
  · exact .refl s
  · exact .put (by decide) (by decide)

/-- The entry says the name. -/
theorem mem_titleEntries {id : Id} {text : String} {e : Section × Instruction}
    (he : e ∈ titleEntries id text) : e = (.names, ⟨.name, id :: Literal.ofString text⟩) := by
  unfold titleEntries at he
  split at he
  · cases he
  · exact List.mem_singleton.mp he

theorem remarks_title (s : Emitter) (id : Id) (text : String) : s.Remarks (s.title id text) := by
  refine ⟨_, s.logs_title id text, fun e he => ?_⟩
  rw [mem_titleEntries he]
  exact ⟨by simp [Section.remarks], rfl, rfl⟩

/-- What is kept when a member is placed and when it is named is kept by the layout. -/
theorem layOut_induct {P : Emitter → Prop} {struct : Id} {members : Members}
    (hplace : ∀ s index offset, P s → P (s.put .memberDecorations
      ⟨.memberDecorate, [struct, index, Decoration.offset, offset]⟩))
    (hname : ∀ s index, ∀ m ∈ members.toList, P s → P (s.put .names
      ⟨.memberName, struct :: index :: Literal.ofString m.1⟩))
    (hs : P s) (index : Word) (offset : UInt32) : P (s.layOut struct index offset members) := by
  induction members using Members.toList.induct generalizing s index offset with
  | case1 => exact hs
  | case2 member type rest ih =>
    have hplaced : P (s.place struct index offset member) := by
      unfold place
      split
      · exact hplace _ _ _ hs
      · exact hname _ _ _ List.mem_cons_self (hplace _ _ _ hs)
    unfold layOut
    split
    · exact hplaced
    · exact ih (fun s index m hm => hname s index m (List.mem_cons_of_mem _ hm)) hplaced _ _

theorem remarks_layOut (s : Emitter) (struct : Id) (index : Word) (offset : UInt32)
    (members : Members) : s.Remarks (s.layOut struct index offset members) :=
  layOut_induct (P := fun s' => s.Remarks s')
    (fun _ _ _ h => h.trans (.put (by decide) (by decide) (by decide) rfl))
    (fun _ _ _ _ h => h.trans (.put (by decide) (by decide) (by decide) rfl)) (.refl s) _ _

/-- The layout of a structure is about its members only. -/
theorem logs_layOut (s : Emitter) (struct : Id) (index : Word) (offset : UInt32)
    (members : Members) :
    ∃ new, s.Logs new (s.layOut struct index offset members) ∧
      ∀ e ∈ new, e.2.opcode ∈ [.memberDecorate, .memberName] := by
  refine layOut_induct (P := fun s' => ∃ new, s.Logs new s' ∧
    ∀ e ∈ new, e.2.opcode ∈ [.memberDecorate, .memberName]) ?_ ?_ ⟨[], .refl s, nofun⟩ index offset
  · rintro s' index offset ⟨new, hlogs, hnew⟩
    exact ⟨_, hlogs.trans (.put (by decide) (by decide)),
      List.forall_mem_append.mpr ⟨hnew, List.forall_mem_singleton.mpr (by simp)⟩⟩
  · rintro s' index m - ⟨new, hlogs, hnew⟩
    exact ⟨_, hlogs.trans (.put (by decide) (by decide)),
      List.forall_mem_append.mpr ⟨hnew, List.forall_mem_singleton.mpr (by simp)⟩⟩

/-- A structure type, its name, and what is said about its members. -/
theorem logs_structured (s : Emitter) (name : String) (members : Members) (ids : List Id) :
    ∃ new, s.Logs ((.globals, ⟨.typeStruct, s.nextId :: ids⟩) :: titleEntries s.nextId name ++ new)
        (s.structured name members ids) ∧
      ∀ e ∈ new, e.2.opcode ∈ [.memberDecorate, .memberName] := by
  have hstruct : s.Logs [(.globals, ⟨.typeStruct, s.nextId :: ids⟩)] _ :=
    .result (by decide) (by decide)
  have htitle := hstruct.trans (logs_title _ s.nextId name)
  obtain ⟨new, hlayout, hnew⟩ := logs_layOut
    ((s.define .globals ⟨.typeStruct, s.nextId :: ids⟩).title s.nextId name) s.nextId 0 0 members
  exact ⟨new, htitle.trans hlayout, hnew⟩

/-- A structure type and remarks about it. -/
theorem remarks_structured (s : Emitter) (name : String) (members : Members) (ids : List Id) :
    (s.define .globals ⟨.typeStruct, s.nextId :: ids⟩).Remarks (s.structured name members ids) :=
  (remarks_title _ _ _).trans (remarks_layOut _ _ _ _ _)

/-- At most the instruction set was imported. -/
theorem logs_importMath (s : Emitter) :
    ∃ new s₁, s.Logs new s₁ ∧ s.importMath = { s₁ with mathSet := s.importMath.mathSet } ∧
      ∀ e ∈ new, e.1 = .instructionSets := by
  unfold importMath
  split
  · exact ⟨[], s, .refl s, rfl, nofun⟩
  · exact ⟨_, _, .result (by decide) (by decide), rfl, List.forall_mem_singleton.mpr rfl⟩

theorem grows_importMath (s : Emitter) : s.draft.Grows s.importMath.draft := by
  obtain ⟨new, s₁, hlogs, heq, -⟩ := s.logs_importMath
  rw [heq]
  exact hlogs.grows

theorem keeps_importMath (s : Emitter) : s.Keeps s.importMath := by
  obtain ⟨new, s₁, hlogs, heq, -⟩ := s.logs_importMath
  rw [heq]
  exact ⟨hlogs.grows, hlogs.keeps.types, hlogs.keeps.uints⟩

theorem code_importMath (s : Emitter) : s.importMath.code = s.code := by
  obtain ⟨new, s₁, hlogs, heq, hnew⟩ := s.logs_importMath
  rw [heq]
  refine hlogs.emitted_eq fun e he => ?_
  rw [hnew e he]
  nofun

/-! ## New types -/

/-- The types that are one instruction have their own opcodes. -/
theorem Outline.mem_interned {op : Opcode} {operands : List Word} (h : s.Outline k op operands) :
    op ∈ Opcode.interned := by
  cases h <;> decide

/-- The log got one instruction that defines a type, remarks about it, and at most an image. -/
def LogsType (s : Emitter) (id : Id) (s' : Emitter) : Prop :=
  ∃ d new, s.Logs new s' ∧ (.globals, d) ∈ new ∧ d.resultId = some id ∧
    d.opcode ∈ Opcode.interned ∧
    ∀ e ∈ new, e = (.globals, d) ∨ IsRemark e ∨ e.1 = .globals ∧ IsImageOf d e.2

namespace Enters

/-- An instruction that defines a type, between remarks. -/
theorem logs_define {op : Opcode} {operands : List Word} (hop : op ∈ Opcode.interned)
    (hbefore : s.Remarks s₁)
    (hafter : (s₁.define .globals ⟨op, s.nextId :: operands⟩).Remarks s') :
    s.LogsType s.nextId s' := by
  have hall : ∀ op ∈ Opcode.interned, op ∈ Section.globals.opcodes ∧ op.shape = .result := by decide
  obtain ⟨hpart, hshape⟩ := hall op hop
  rw [← hbefore.nextId_eq] at hafter ⊢
  obtain ⟨new, hlogs, hnew⟩ := hbefore
  obtain ⟨new', hlogs', hnew'⟩ := hafter
  have hdefine : s₁.Logs [(.globals, ⟨op, s₁.nextId :: operands⟩)] _ := .result hpart hshape
  refine ⟨⟨op, s₁.nextId :: operands⟩, _, (hlogs.trans hdefine).trans hlogs', ?_, ?_, hop, ?_⟩
  · simp
  · simp [Instruction.resultId, hshape]
  · intro e he
    simp only [List.mem_append, List.mem_singleton] at he
    rcases he with (he | he) | he
    · exact .inr (.inl (hnew e he))
    · exact .inl he
    · exact .inr (.inl (hnew' e he))

/-- A new type adds its definition last, after what it needs, and remarks about it. -/
theorem logs (h : s.Enters k id s') : s.LogsType id s' := by
  cases h with
  | simple h => exact logs_define h.mem_interned (s.remarks_prepare _) (.refl _)
  | matrix4 hc =>
    exact logs_define (by decide) (.refl s) (.put (by decide) (by decide) (by decide) rfl)
  | struct hsized hids =>
    exact logs_define (by decide) (.refl s) (s.remarks_structured _ _ _)
  | @sampledImage2D storage c hc s₁ hs₁ =>
    have himage : s.Logs
        [(.globals, ⟨.typeImage, [s.nextId, c, dimension2D, 0, 0, 0, 1, 0]⟩)] s₁ :=
      hs₁ ▸ .result (by decide) (by decide)
    have htype : s₁.Logs [(.globals, ⟨.typeSampledImage, [s₁.nextId, s.nextId]⟩)]
        (s₁.define .globals ⟨.typeSampledImage, [s₁.nextId, s.nextId]⟩) :=
      .result (by decide) (by decide)
    refine ⟨_, _, himage.trans htype, List.mem_append_right _ (List.mem_singleton_self _), rfl,
      List.mem_of_elem_eq_true rfl, fun e he => ?_⟩
    rcases List.mem_pair.mp he with rfl | rfl
    · exact .inr (.inr ⟨rfl, _, _, _, rfl, rfl⟩)
    · exact .inl rfl

theorem grows (h : s.Enters k id s') : s.draft.Grows s'.draft := by
  obtain ⟨d, new, hlogs, -⟩ := h.logs
  exact hlogs.grows

theorem keeps (h : s.Enters k id s') : s.Keeps s' := by
  obtain ⟨d, new, hlogs, -⟩ := h.logs
  exact hlogs.keeps

/-- Emitting a type does not yet record it. -/
theorem find_eq (h : s.Enters k id s') : s'.find = s.find := by
  obtain ⟨d, new, hlogs, -⟩ := h.logs
  exact hlogs.find_eq

theorem bindings (h : s.Enters k id s') : s'.bindings = s.bindings := by
  obtain ⟨d, new, hlogs, -⟩ := h.logs
  exact hlogs.bindings

theorem types (h : s.Enters k id s') : s'.types = s.types := by
  obtain ⟨d, new, hlogs, -⟩ := h.logs
  exact hlogs.types

theorem constants (h : s.Enters k id s') (pool : Pool) : s'.constants pool = s.constants pool := by
  obtain ⟨d, new, hlogs, -⟩ := h.logs
  exact hlogs.constants pool

/-- A type is no code. -/
theorem code (h : s.Enters k id s') : s'.code = s.code := by
  have hremarks : ∀ part ∈ Section.remarks, part ≠ .functions := by decide
  obtain ⟨d, new, hlogs, -, -, -, hnew⟩ := h.logs
  refine hlogs.emitted_eq fun e he => ?_
  rcases hnew e he with rfl | hremark | ⟨hpart, -⟩
  · nofun
  · exact hremarks _ hremark.part
  · rw [hpart]
    nofun

end Enters

/-- A new type is the only one that is entered. -/
theorem Interns.enter {P : String → Prop} (h : s.Interns P s₁) (henters : s₁.Enters k id s₂)
    (hk : P k.signature) : s.Interns P (s₂.cache k id) := by
  have hnone : s₁.Interns P s₂ := ⟨henters.code, fun _ => by rw [henters.types]⟩
  exact (h.trans hnone).cache hk id

/-- The instruction of an outline defines the type. -/
theorem Outline.defines {op : Opcode} {operands : List Word} (h : s.Outline k op operands)
    (hkeeps : s.Keeps s') (hdef : s'.Has .globals ⟨op, id :: operands⟩) : s'.Defines id k := by
  cases h with
  | void => exact .void hdef
  | bool => exact .bool hdef
  | int hwidth => exact .int hwidth hdef
  | float hwidth => exact .float hwidth hdef
  | vector hcount hc => exact .vector hcount (hkeeps.types hc) hdef
  | array hlength he hl => exact .array hlength (hkeeps.types he) (hkeeps.uints hl) hdef
  | pointer hp => exact .pointer (hkeeps.types hp) hdef

/-- The instructions of a new type define it. -/
theorem Enters.defines (h : s.Enters k id s') : s'.Defines id k.canon := by
  have hkeeps := h.keeps
  cases h with
  | simple h => exact h.defines hkeeps (has_define_self _ _ _)
  | matrix4 hc =>
    exact .matrix4 (hkeeps.types hc) (has_put.mpr (.inl (has_define_self _ _ _)))
  | @sampledImage2D storage c hc s₁ hs₁ =>
    refine .sampledImage2D (hkeeps.types hc) (has_define.mpr (.inl ?_)) (has_define_self _ _ _)
    rw [hs₁]
    exact has_define_self _ _ _
  | @struct name members storage ids hsized hids =>
    have hlayout := remarks_layOut
      ((s.define .globals ⟨.typeStruct, s.nextId :: ids⟩).title s.nextId name) s.nextId 0 0 members
    have hafter := s.remarks_structured name members ids
    refine .struct (members.sized_canon.mpr hsized) (hids.keep hkeeps).canon
      ((has_define_self _ _ _).keep hafter.keeps) ?_
    by_cases hname : name = ""
    · exact .inl hname
    · refine .inr (Has.keep hlayout.keeps ?_)
      rw [title, if_neg hname]
      exact has_put.mpr (.inr ⟨rfl, rfl⟩)

/-! ## What a turn keeps -/

/-- What is announced has no result. -/
theorem Announces.spec {part : Section} {i : Instruction} (h : s.Announces κ part i) :
    i.opcode ∈ part.opcodes ∧ i.opcode.shape = .noResult := by
  cases h <;> exact ⟨List.mem_of_elem_eq_true rfl, rfl⟩

/-- A note is about no table. -/
theorem Notes.logs (h : s.Notes κ pub s') : ∃ new, s.Logs new s' := by
  have hremarks {s s' : Emitter} (h : s.Remarks s') : ∃ new, s.Logs new s' := by
    obtain ⟨new, hlogs, -⟩ := h
    exact ⟨new, hlogs⟩
  cases h with
  | @abandoned name members storage ids hkey hids =>
    obtain ⟨new, hlogs⟩ := hremarks (s.remarks_structured name members ids)
    exact ⟨_, (Logs.result (by decide) (by decide)).trans hlogs⟩
  | performed h => exact ⟨_, .put h.spec.1 h.spec.2.1⟩
  | @function text htext result type =>
    obtain ⟨new, hlogs⟩ := hremarks (remarks_label
      (s.define .functions ⟨.function, [result, s.nextId, 0, type]⟩) s.nextId text)
    exact ⟨_, (Logs.typedResult (by decide) (by decide)).trans hlogs⟩
  | label => exact ⟨_, .result (by decide) (by decide)⟩
  | capability c => exact hremarks (s.remarks_declare c)
  | decoration => exact ⟨_, .put (by decide) (by decide)⟩
  | string => exact ⟨_, .result (by decide) (by decide)⟩
  | announced h => exact ⟨_, .put h.spec.1 h.spec.2⟩

/-- The later emitter has one more entry, with an id that was taken meanwhile. -/
def Adopts (s : Emitter) (new : Entry) (s' : Emitter) : Prop :=
  ∃ id, s.find new = none ∧
    (new = .block id ∨ id ∈ idsBetween s.draft.ids.taken s'.draft.ids.taken) ∧
    ∀ e, s'.find e = if e = new then some id else s.find e

@[simp] theorem find_record (s : Emitter) (id : Id) (key : Key) (text : String) :
    (s.record id key text).find = s.find :=
  rfl

@[simp] theorem find_label (s : Emitter) (id : Id) (text : String) :
    (s.label id text).find = s.find :=
  rfl

/-- A name is not looked up again. -/
theorem find_title (s : Emitter) (id : Id) (text : String) : (s.title id text).find = s.find :=
  (s.logs_title id text).find_eq

/-- A name is not recorded by saying it. -/
theorem bindings_title (s : Emitter) (id : Id) (text : String) :
    (s.title id text).bindings = s.bindings :=
  (s.logs_title id text).bindings

theorem grows_title (s : Emitter) (id : Id) (text : String) :
    s.draft.Grows (s.title id text).draft :=
  (s.logs_title id text).grows

theorem grows_named (s : Emitter) (id : Id) (key : Key) (text : String) :
    s.draft.Grows (s.named id key text).draft :=
  (s.record id key text).grows_title id text

theorem grows_labelled (s : Emitter) (id : Id) (key : Key) (text : String) :
    s.draft.Grows (s.labelled id key text).draft := by
  obtain ⟨new, hlogs, -⟩ := s.remarks_label id text
  exact hlogs.grows

section

variable (s : Emitter) (T : Id) (pool : Pool) (bits : Word)

/-- A constant is defined and named in the draft. -/
theorem draft_newConstant :
    (s.newConstant T pool bits).draft =
      ((s.define .globals ⟨.constant, [T, s.nextId, bits]⟩).label s.nextId
        (pool.text bits)).draft := by
  cases pool <;> rfl

theorem types_newConstant : (s.newConstant T pool bits).types = s.types := by
  cases pool <;> rfl

/-- A constant is remembered by its bits. -/
theorem constants_newConstant :
    (s.newConstant T pool bits).constants pool = (bits, s.nextId) :: s.constants pool := by
  cases pool <;> rfl

/-- A constant is recorded with the text of its number. -/
theorem bindings_newConstant :
    (s.newConstant T pool bits).bindings =
      (s.nextId, ⟨(Key.value pool.type).normalize, pool.text bits⟩) :: s.bindings := by
  cases pool <;> rfl

/-- Of all entries, only that of the constant is new. -/
theorem find_newConstant (e : Entry) :
    (s.newConstant T pool bits).find e =
      if e = pool.entry bits then some s.nextId else s.find e := by
  cases pool with
  | uint =>
    cases e with
    | uint v =>
      simp only [find, newConstant, addConstant, Pool.entry, lookup_cons_eq_ite, Entry.uint.injEq]
      rfl
    | _ => rfl
  | float =>
    cases e with
    | float b =>
      simp only [find, newConstant, addConstant, Pool.entry, lookup_cons_eq_ite, Entry.float.injEq]
      rfl
    | _ => rfl

/-- The definition of a constant and its name. -/
theorem logs_constant :
    s.Logs [(.globals, ⟨.constant, [T, s.nextId, bits]⟩),
        (.names, ⟨.name, s.nextId :: Literal.ofString (pool.text bits)⟩)]
      ((s.define .globals ⟨.constant, [T, s.nextId, bits]⟩).label s.nextId (pool.text bits)) :=
  .trans (.typedResult (by decide) (by decide)) (.put (by decide) (by decide))

/-- A constant is no code, and forgets nothing. -/
theorem interns_newConstant {P : String → Prop} : s.Interns P (s.newConstant T pool bits) where
  code := by
    rw [code, draft_newConstant]
    exact (s.logs_constant T pool bits).emitted_eq (by simp)
  types _ := by rw [types_newConstant]

end

namespace Turn

theorem grows (h : Turn κ s pub s') : s.draft.Grows s'.draft := by
  have hvalue {op : Opcode} {T : Id} {operands : List Word} (hop : op.Computes operands) :
      s.draft.Grows (s.define .functions ⟨op, T :: s.nextId :: operands⟩).draft :=
    (Logs.typedResult hop.spec.1 hop.spec.2.1).grows
  cases h with
  | type hkey hunknown h => exact h.grows
  | @constant pool T bits =>
    rw [draft_newConstant]
    exact (s.logs_constant T pool bits).grows
  | functionType => exact (Logs.result (by decide) (by decide)).grows
  | value hop hkey htext hT hs₁ =>
    refine .trans ?_ (grows_named _ _ _ _)
    rcases hs₁ with rfl | rfl
    · exact hvalue hop
    · exact hvalue hop
  | math => exact s.grows_importMath.trans (Logs.typedResult (by decide) (by decide)).grows
  | localVariable | globalVariable =>
    exact (Logs.typedResult (by decide) (by decide)).grows.trans (grows_labelled _ _ _ _)
  | block => exact (Logs.put (by decide) (by decide)).grows
  | note h =>
    obtain ⟨new, hlogs⟩ := h.logs
    exact hlogs.grows
  | @rename id b text =>
    exact grows_title { s with bindings := (id, { b with name := text }) :: s.bindings } id text

/-- A turn leaves the tables as they are, or makes one entry where there was none. -/
theorem find_cases (h : Turn κ s pub s') : s'.find = s.find ∨ ∃ new, s.Adopts new s' := by
  have hgrows := h.grows
  cases h with
  | @type key id s₁ hkey hunknown h =>
    refine .inr ⟨.type key.signature, id, hunknown, .inr ?_, fun e => ?_⟩
    -- The table gets the entry last, after all instructions of the type.
    · obtain ⟨d, new, hlogs, hd, hid, -⟩ := h.logs
      exact hlogs.mem_idsBetween hd hid
    rw [← h.find_eq]
    cases e with
    | type sig => simp [find, cache, lookup_cons_eq_ite]
    | _ => rfl
  | @constant pool T bits hT hunknown =>
    refine .inr ⟨pool.entry bits, s.nextId, ?_, .inr ?_, fun e => ?_⟩
    · cases pool <;> exact hunknown
    · rw [draft_newConstant]
      exact (s.logs_constant T pool bits).mem_idsBetween List.mem_cons_self rfl
    · exact s.find_newConstant T pool bits e
  | @functionType result hresult hunknown =>
    refine .inr ⟨.functionType result, s.nextId, hunknown, .inr ?_, fun e => ?_⟩
    · exact (Logs.result (by decide) (by decide)).mem_idsBetween (List.mem_singleton_self _) rfl
    cases e with
    | functionType r => simp [find, lookup_cons_eq_ite]
    | _ => rfl
  | @block struct hstruct hunmarked =>
    refine .inr ⟨.block struct, struct, if_neg hunmarked, .inl rfl, fun e => ?_⟩
    cases e with
    | block b => by_cases hb : b = struct <;> simp [find, hb]
    | _ => rfl
  | value hop hkey htext hT hs₁ =>
    left
    rw [named, find_title, find_record]
    rcases hs₁ with rfl | rfl
    · rfl
    · rfl
  | math hkey hT hset =>
    cases hset : s.mathSet with
    | some set =>
      left
      show s.importMath.find = s.find
      rw [importMath, hset]
    | none =>
      refine .inr ⟨.mathSet, s.nextId, hset, .inr ?_, fun e => ?_⟩
      · -- The set has the first of the two ids taken in this turn; the result has the second.
        rw [importMath, hset]
        have htaken : s.draft.ids.taken < s.draft.ids.taken + 1 + 1 := by omega
        exact ShaderStage.mem_idsBetween.mpr ⟨_, Nat.le_refl _, htaken, rfl⟩
      show s.importMath.find e = _
      rw [importMath, hset]
      cases e <;> rfl
  | localVariable | globalVariable => exact .inl rfl
  | note h =>
    obtain ⟨new, hlogs⟩ := h.logs
    exact .inl hlogs.find_eq
  | rename =>
    left
    rw [find_title]
    rfl

/-- A turn forgets nothing. -/
theorem find_of_some (h : Turn κ s pub s') {e : Entry} (he : s.find e = some id) :
    s'.find e = some id := by
  rcases h.find_cases with heq | ⟨new, id', hnone, -, hfind⟩
  · rw [heq, he]
  · rw [hfind, if_neg, he]
    rintro rfl
    cases hnone.symm.trans he

/-- A turn leaves the table of types as it is, or enters one type. -/
theorem types_cases (h : Turn κ s pub s') :
    s'.types = s.types ∨ ∃ key id s₁, κ.key key ∧ s.Enters key id s₁ ∧
      s'.types = (key.signature, id) :: s.types := by
  cases h with
  | @type key id s₁ hkey hunknown h =>
    exact .inr ⟨key, id, s₁, hkey, h, congrArg (List.cons _) h.types⟩
  | constant => exact .inl (s.types_newConstant _ _ _)
  | functionType | block | localVariable | globalVariable => exact .inl rfl
  | @value op operands key T text s₁ hop hkey htext hT hs₁ =>
    left
    refine ((s₁.record s.nextId key text).logs_title s.nextId text).types.trans ?_
    rcases hs₁ with rfl | rfl
    · rfl
    · rfl
  | math =>
    left
    show s.importMath.types = s.types
    unfold importMath
    split <;> rfl
  | note h =>
    obtain ⟨new, hlogs⟩ := h.logs
    exact .inl hlogs.types
  | rename => exact .inl (logs_title _ _ _).types

/-- What a turn records is of a type that is known then, unless it is known already and gets another
name. -/
theorem records [Kinds.Grounded κ] (h : Turn κ s pub s') :
    ∃ new, s'.bindings = new ++ s.bindings ∧ ∀ e ∈ new, κ.text e.2.name ∧
      ((∃ k T, κ.key k ∧ s'.typeOf? k = some T ∧ e.2.key = k.normalize) ∨
        ∃ b, s.bindings.lookup e.1 = some b ∧ e.2.key = b.key) := by
  have hknown {k : Key} {T : Id} (hT : s.typeOf? k = some T) : s'.typeOf? k = some T :=
    h.find_of_some (e := .type k.signature) hT
  have hrecord {id : Id} {k : Key} {T : Id} {text : String} (hkey : κ.key k) (htext : κ.text text)
      (hT : s'.typeOf? k = some T)
      (hbindings : s'.bindings = (id, ⟨k.normalize, text⟩) :: s.bindings) :
      ∃ new, s'.bindings = new ++ s.bindings ∧ ∀ e ∈ new, κ.text e.2.name ∧
        ((∃ k T, κ.key k ∧ s'.typeOf? k = some T ∧ e.2.key = k.normalize) ∨
          ∃ b, s.bindings.lookup e.1 = some b ∧ e.2.key = b.key) :=
    ⟨[_], hbindings, List.forall_mem_singleton.mpr ⟨htext, .inl ⟨k, T, hkey, hT, rfl⟩⟩⟩
  cases h with
  | @type key id s₁ hkey hunknown h =>
    exact hrecord hkey Kinds.Grounded.unnamed List.lookup_cons_self
      (congrArg (List.cons _) h.bindings)
  | @constant pool T bits hT hunknown =>
    have hbasic : pool.type.Basic := by cases pool <;> trivial
    exact hrecord (KeyKind.basic hbasic) (Kinds.Grounded.constant pool bits) (hknown hT)
      (s.bindings_newConstant T pool bits)
  | functionType | block => exact ⟨[], rfl, nofun⟩
  | @value op operands key T text s₁ hop hkey htext hT hs₁ =>
    rcases hs₁ with rfl | rfl
    · exact hrecord hkey htext (hknown hT) (bindings_title _ _ _)
    · refine ⟨[_, _], bindings_title _ _ _, List.forall_mem_cons.mpr ⟨?_, ?_⟩⟩
      · exact ⟨htext, .inl ⟨key, T, hkey, hknown hT, rfl⟩⟩
      · exact List.forall_mem_singleton.mpr
          ⟨Kinds.Grounded.unnamed, .inl ⟨key, T, hkey, hknown hT, rfl⟩⟩
  | @math key T set hkey hT hset =>
    have himport : s.importMath.bindings = s.bindings := by
      unfold importMath
      split <;> rfl
    exact hrecord hkey Kinds.Grounded.unnamed (hknown hT) (congrArg (List.cons _) himport)
  | localVariable hkey htext hT => exact hrecord hkey htext (hknown hT) rfl
  | globalVariable hkey htext hT => exact hrecord hkey htext (hknown hT) rfl
  | note h =>
    obtain ⟨new, hlogs⟩ := h.logs
    exact ⟨[], hlogs.bindings, nofun⟩
  | @rename id b text hforeign htext hb =>
    exact ⟨[_], bindings_title _ _ _, List.forall_mem_singleton.mpr ⟨htext, .inr ⟨b, hb, rfl⟩⟩⟩

/-- A turn records ids with keys and texts of the given kinds. -/
theorem ready [Kinds.Grounded κ] (h : Turn κ s pub s') (hs : s.Ready κ) : s'.Ready κ where
  isOpen := h.grows.closed.trans hs.isOpen
  bindings {id b} hb := by
    obtain ⟨new, heq, hnew⟩ := h.records
    rw [heq, List.lookup_append, Option.or_eq_some_iff] at hb
    rcases hb with hb | ⟨-, hb⟩
    · obtain ⟨htext, ⟨k, T, hkey, -, hk⟩ | ⟨b', hb', hk⟩⟩ := hnew _ (mem_of_lookup hb)
      · exact ⟨hk ▸ Kinds.Grounded.bind (KeyKind.normalize hkey), htext⟩
      · exact ⟨hk ▸ (hs.bindings hb').1, htext⟩
    · exact hs.bindings hb

theorem keeps (h : Turn κ s pub s') : s.Keeps s' where
  draft := h.grows
  types {sig _} hk := h.find_of_some (e := .type sig) hk
  uints {v _} hv := h.find_of_some (e := .uint v) hv

/-- What is published is no code. -/
theorem public_ne_functions (h : Turn κ s pub s') : ∀ e ∈ pub, e.1 ≠ .functions := by
  cases h with
  | type | constant | functionType | value | math | localVariable => nofun
  | globalVariable | block | rename => exact List.forall_mem_singleton.mpr nofun
  | note h =>
    cases h with
    | abandoned | performed | function | label => nofun
    | capability | decoration | string => exact List.forall_mem_singleton.mpr nofun
    | announced h =>
      refine List.forall_mem_singleton.mpr ?_
      cases h <;> nofun

end Turn

namespace Turns

theorem single (h : Turn κ s pub s') : s.Turns κ pub s' :=
  .tail .refl h

theorem trans (h : s₁.Turns κ pub s₂) (h' : s₂.Turns κ pub' s₃) :
    s₁.Turns κ (pub ++ pub') s₃ := by
  induction h' with
  | refl =>
    rw [List.append_nil]
    exact h
  | tail _ hturn ih =>
    rw [← List.append_assoc]
    exact ih.tail hturn

/-- Turns of which none is public. -/
theorem silent (h : s₁.Turns κ [] s₂) (h' : s₂.Turns κ [] s₃) : s₁.Turns κ [] s₃ :=
  h.trans h'

/-- What holds at the start and is kept by every turn holds after all turns. Turns are known to be
public only where all of them are. -/
theorem induct {P : Emitter → Prop} (h : s.Turns κ pub s') (hs : P s)
    (hstep : ∀ s₁ s₂ pub', pub' ⊆ pub → P s₁ → Turn κ s₁ pub' s₂ → P s₂) : P s' := by
  induction h with
  | refl => exact hs
  | tail _ hturn ih =>
    refine hstep _ _ _ (List.subset_append_right _ _) (ih fun s₁ s₂ pub' hpub => ?_) hturn
    exact hstep s₁ s₂ pub' fun e he => List.mem_append_left _ (hpub he)

theorem grows (h : s.Turns κ pub s') : s.draft.Grows s'.draft :=
  h.induct (P := fun s' => s.draft.Grows s'.draft) (.refl _)
    fun _ _ _ _ ih hturn => ih.trans hturn.grows

/-- An emitter that is ready stays ready. -/
theorem ready [Kinds.Grounded κ] (h : s.Turns κ pub s') (hs : s.Ready κ) : s'.Ready κ :=
  h.induct hs fun _ _ _ _ ih hturn => hturn.ready ih

/-- Turns do not close the ids. -/
theorem isOpen (h : s.Turns κ pub s') (hs : s.IsOpen) : s'.IsOpen :=
  h.grows.closed.trans hs

/-- What is known stays known. -/
theorem find_of_some (h : s.Turns κ pub s') {e : Entry} (he : s.find e = some id) :
    s'.find e = some id :=
  h.induct (P := fun s' => s'.find e = some id) he fun _ _ _ _ ih hturn => hturn.find_of_some ih

/-- No code of functions is public. -/
theorem public_ne_functions (h : s.Turns κ pub s') : ∀ e ∈ pub, e.1 ≠ .functions := by
  induction h with
  | refl => nofun
  | tail _ hturn ih => exact List.forall_mem_append.mpr ⟨ih, hturn.public_ne_functions⟩

theorem keeps (h : s.Turns κ pub s') : s.Keeps s' where
  draft := h.grows
  types {sig _} hk := h.find_of_some (e := .type sig) hk
  uints {v _} hv := h.find_of_some (e := .uint v) hv

end Turns

end Emitter

/-! ## Acting in turns -/

section

variable {σ α β : Type}

/-- The step from `c` ends with `P`, or fails with `E`. -/
def Concludes (x : EStateM Failure σ α) (c : σ) (P : α → σ → Prop) (E : Failure → σ → Prop) :
    Prop :=
  match x c with
  | .ok a c' => P a c'
  | .error e c' => E e c'

namespace Concludes

variable {x : EStateM Failure σ α} {f : α → EStateM Failure σ β} {c c' : σ}
  {P P' : α → σ → Prop} {Q : β → σ → Prop} {E E' : Failure → σ → Prop}

/-- A computation concludes with the result that it has. -/
theorem of_eq_ok {a : α} (hrun : x c = .ok a c') (h : P a c') : Concludes x c P E := by
  rw [Concludes, hrun]
  exact h

/-- A computation concludes with the failure that it has. -/
theorem of_eq_error {e : Failure} (hrun : x c = .error e c') (h : E e c') : Concludes x c P E := by
  rw [Concludes, hrun]
  exact h

/-- What holds of every result holds of this one. -/
theorem of_ok {a : α} (h : Concludes x c P E) (hrun : x c = .ok a c') : P a c' := by
  rwa [Concludes, hrun] at h

/-- What holds of every failure holds of this one. -/
theorem of_error {e : Failure} (h : Concludes x c P E) (hrun : x c = .error e c') : E e c' := by
  rwa [Concludes, hrun] at h

/-- The first step of a sequence, if it is known how it ends. -/
theorem step {a : α} (hrun : x c = .ok a c') (hf : Concludes (f a) c' Q E) :
    Concludes (x >>= f) c Q E := by
  rwa [Concludes, bind_apply, hrun]

theorem get {g : σ → EStateM Failure σ α} (h : Concludes (g c) c P E) :
    Concludes (MonadState.get >>= g) c P E :=
  h

/-- What follows a computation may rely on its result. -/
theorem bind (hx : Concludes x c P E) (hf : ∀ a c', P a c' → Concludes (f a) c' Q E) :
    Concludes (x >>= f) c Q E := by
  cases hrun : x c with
  | ok a c' => exact step hrun (hf a c' (hx.of_ok hrun))
  | error e c' =>
    refine of_eq_error ?_ (hx.of_error hrun)
    rw [bind_apply, hrun]

theorem mono (hx : Concludes x c P E) (hP : ∀ a c', P a c' → P' a c')
    (hE : ∀ e c', E e c' → E' e c') : Concludes x c P' E' := by
  cases hrun : x c with
  | ok a c' => exact of_eq_ok hrun (hP a c' (hx.of_ok hrun))
  | error e c' => exact of_eq_error hrun (hE e c' (hx.of_error hrun))

end Concludes

end

/-- The program is refused, with an error of the kind `E`. -/
def Failure.Is (E : CompileError → Prop) : Failure → Prop
  | .refused e => E e
  | .fault _ => False

theorem Failure.Is.mono {E F : CompileError → Prop} {e : Failure} (h : e.Is E)
    (hEF : ∀ e, E e → F e) : e.Is F := by
  cases e with
  | refused e => exact hEF e h
  | fault f => exact h

section

variable {α β : Type} {κ : Kinds} {E F : CompileError → Prop}

/-- The emission takes turns and does nothing in public; if it ends well, with the stated result,
and otherwise refused with an error of the kind `E`. -/
def Acts (κ : Kinds) (x : Emit α) (s : Emitter) (Q : α → Emitter → Prop)
    (E : CompileError → Prop) : Prop :=
  s.Ready κ →
    Concludes x s (fun a s' => s.Turns κ [] s' ∧ Q a s') fun e s' => s.Turns κ [] s' ∧ e.Is E

/-- The emission takes turns to where `P` holds, and then emits the type that a key names without
entering it. -/
def Outlines (κ : Kinds) (x : Emit Id) (s : Emitter) (k : Key) (P : Emitter → Prop)
    (E : CompileError → Prop) : Prop :=
  s.Ready κ →
    Concludes x s (fun id s' => ∃ s₁, s.Turns κ [] s₁ ∧ P s₁ ∧ s₁.Enters k id s')
      fun e s' => s.Turns κ [] s' ∧ e.Is E

namespace Acts

variable {x : Emit α} {s : Emitter} {P Q : α → Emitter → Prop}

/-- Nothing is done. -/
theorem pure {a : α} (h : P a s) : Acts κ (Pure.pure a) s P E :=
  fun _ => ⟨.refl, h⟩

theorem refuse {e : CompileError} (h : E e) : Acts κ (Emit.refuse e : Emit α) s P E :=
  fun _ => ⟨.refl, h⟩

theorem refuse_bind {e : CompileError} {f : β → Emit α} (h : E e) :
    Acts κ ((Emit.refuse e : Emit β) >>= f) s P E :=
  fun _ => ⟨.refl, h⟩

/-- What succeeds in one turn. -/
theorem of_turn {a : α} {s' : Emitter} (hrun : s.IsOpen → x s = .ok a s')
    (hturn : s.Turn κ [] s') (h : P a s') : Acts κ x s P E :=
  fun hs => .of_eq_ok (hrun hs.isOpen) ⟨.single hturn, h⟩

/-- Acts follow acts, and the later ones find what the earlier ones did. -/
theorem bind [Kinds.Grounded κ] {f : α → Emit β} {Q : β → Emitter → Prop} (hx : Acts κ x s P E)
    (hf : ∀ a s', s.Turns κ [] s' → P a s' → Acts κ (f a) s' Q E) : Acts κ (x >>= f) s Q E := by
  intro hs
  refine (hx hs).bind ?_
  rintro a s₁ ⟨hturns, hP⟩
  refine (hf a s₁ hturns hP (hturns.ready hs)).mono ?_ ?_
  · exact fun b s₂ h => ⟨hturns.silent h.1, h.2⟩
  · exact fun e s₂ h => ⟨hturns.silent h.1, h.2⟩

theorem mono (hx : Acts κ x s P E) (hQ : ∀ a s', s.Turns κ [] s' → P a s' → Q a s')
    (hE : ∀ e, E e → F e) : Acts κ x s Q F := by
  intro hs
  refine (hx hs).mono ?_ ?_
  · exact fun a s' h => ⟨h.1, hQ a s' h.1 h.2⟩
  · exact fun e s' h => ⟨h.1, h.2.mono hE⟩

/-- Less can be said about errors. -/
theorem refusing (hx : Acts κ x s P E) (hE : ∀ e, E e → F e) : Acts κ x s P F :=
  hx.mono (fun _ _ _ h => h) hE

/-- Wherever the emission ends, it gets there in turns. -/
theorem turns (hx : Acts κ x s P E) (hs : s.Ready κ) : s.Turns κ [] (endState (x s)) := by
  cases hrun : x s with
  | ok a s' => exact ((hx hs).of_ok hrun).1
  | error e s' => exact ((hx hs).of_error hrun).1

/-- What an emission ends with is what it ends with. -/
theorem ran (hx : Acts κ x s P E) : Acts κ x s (fun a s' => x s = .ok a s' ∧ P a s') E := by
  intro hs
  cases hrun : x s with
  | ok a s' =>
    obtain ⟨hturns, hP⟩ := (hx hs).of_ok hrun
    exact .of_eq_ok hrun ⟨hturns, rfl, hP⟩
  | error e s' => exact .of_eq_error hrun ((hx hs).of_error hrun)

/-- An emission that ends with a new type. -/
theorem outline [Kinds.Grounded κ] {f : α → Emit Id} {k : Key} {R : Emitter → Prop}
    (hx : Acts κ x s P E)
    (hf : ∀ a s', s.Turns κ [] s' → P a s' → Outlines κ (f a) s' k R E) :
    Outlines κ (x >>= f) s k R E := by
  intro hs
  refine (hx hs).bind ?_
  rintro a s₁ ⟨hturns, hP⟩
  refine (hf a s₁ hturns hP (hturns.ready hs)).mono ?_ ?_
  · rintro id s₂ ⟨s₃, hturns₃, hR, henters⟩
    exact ⟨s₃, hturns.silent hturns₃, hR, henters⟩
  · exact fun e s₂ h => ⟨hturns.silent h.1, h.2⟩

end Acts

namespace Outlines

variable {s : Emitter} {k : Key} {R : Emitter → Prop}

theorem refuse {e : CompileError} (h : E e) : Outlines κ (Emit.refuse e) s k R E :=
  fun _ => ⟨.refl, h⟩

theorem refuse_bind {e : CompileError} {f : α → Emit Id} (h : E e) :
    Outlines κ (Emit.refuse e >>= f) s k R E :=
  fun _ => ⟨.refl, h⟩

theorem mono {R' : Emitter → Prop} {x : Emit Id} (hx : Outlines κ x s k R E)
    (hR : ∀ s', R s' → R' s') (hE : ∀ e, E e → F e) : Outlines κ x s k R' F := by
  intro hs
  refine (hx hs).mono ?_ ?_
  · rintro id s' ⟨s₁, hturns, h, henters⟩
    exact ⟨s₁, hturns, hR s₁ h, henters⟩
  · exact fun e s' h => ⟨h.1, h.2.mono hE⟩

end Outlines

end

end ShaderStage

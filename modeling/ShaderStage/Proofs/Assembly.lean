import Mathlib.Logic.Function.Basic
import ShaderStage.Proofs.IdCoverage

/-! # Decoding undoes assembly

A module is built by requests, in any order: each asks for an instruction in some section. What a
builder holds is told here without a log, as one list for each section. Whatever the requests were,
assembling fails exactly if an instruction is too long, and otherwise decoding the words, or their
bytes, gives back the lists of all sections, one after the other.

* `Draft.Holds`: what a draft holds, section by section;
* `Request.answers_run`: what a request makes of it;
* `decode_assemble_requests`: decoding what was assembled gives it back. -/

namespace ShaderStage

/-! ## Words and bytes -/

namespace Binary

/-- Words are read back from their bytes, onto those read before. -/
theorem wordsOnto_flatMap_bytes (acc : Array Word) (words : List Word) :
    wordsOnto acc (words.flatMap Word.bytes) = some (acc ++ words) := by
  induction words generalizing acc with
  | nil => simp [wordsOnto]
  | cons w rest ih =>
    rw [List.flatMap_cons]
    simp only [Word.bytes, List.cons_append, List.nil_append, wordsOnto, Word.ofBytes_bytes]
    rw [ih]
    simp

/-- The words of a binary are found again. -/
@[simp] theorem toWords?_ofWords (words : List Word) : toWords? (ofWords words) = some words := by
  rw [toWords?, ofWords, wordsOnto_flatMap_bytes]
  simp

end Binary

/-- Decoding bytes is decoding the words that they came from. -/
theorem Module.decodeBytes_ofWords (words : List Word) :
    decodeBytes (Binary.ofWords words) = decode words := by
  rw [decodeBytes, Binary.toWords?_ofWords]

/-- The two numbers of a version are the middle bytes of its word. -/
theorem Version.word_eq_or (v : Version) :
    v.word = v.major.toUInt32 <<< 16 ||| v.minor.toUInt32 <<< 8 := by
  have hmajor := v.major.toNat_lt
  have hminor := v.minor.toNat_lt
  -- The shifted numbers share no bit, so their sum is their union.
  have hor : 2 ^ 16 * v.major.toNat + v.minor.toNat * 2 ^ 8 =
      2 ^ 16 * v.major.toNat ||| v.minor.toNat * 2 ^ 8 :=
    Nat.two_pow_add_eq_or_of_lt (by omega) _
  apply UInt32.toNat_inj.mp
  simp only [word, UInt32.toNat_ofNat', UInt32.toNat_or, UInt32.toNat_shiftLeft,
    UInt8.toNat_toUInt32, Nat.shiftLeft_eq, UInt32.reduceToNat, Nat.reduceMod]
  rw [Nat.mod_eq_of_lt (by omega), Nat.mod_eq_of_lt (by omega), Nat.mod_eq_of_lt (by omega),
    Nat.mul_comm v.major.toNat, ← hor]
  omega

/-! ## Placed instructions -/

/-- Each instruction stands where the ones before it end. -/
theorem offset_of_placeFrom {offset : Nat} {is : List Instruction} {before after : List Placed}
    {p : Placed} (h : placeFrom offset is = before ++ p :: after) :
    p.offset = offset + (before.flatMap (·.instruction.words)).length := by
  induction before generalizing offset is with
  | nil =>
    cases is with
    | nil => cases h
    | cons i rest =>
      cases h
      simp
  | cons q before ih =>
    cases is with
    | nil => cases h
    | cons i rest =>
      rw [placeFrom, List.cons_append, List.cons.injEq] at h
      obtain ⟨rfl, hrest⟩ := h
      rw [ih hrest, List.flatMap_cons, List.length_append, Instruction.wordCount]
      simp [Instruction.words]
      omega

/-- Placing instructions does not change their words. -/
theorem flatMap_words_placeFrom (offset : Nat) (is : List Instruction) :
    (placeFrom offset is).flatMap (·.instruction.words) = is.flatMap Instruction.words := by
  conv_rhs => rw [← map_instruction_placeFrom offset is, List.flatMap_map]

/-! ## Requests -/

/-- A request to a builder of modules. Ids and other words are whatever the caller passes. Texts are
UTF-8: there is no request with other bytes in a text. -/
inductive Request where
  | freshId
  | capability (c : Capability)
  | extension (text : String)
  | extInstImport (text : String)
  | memoryModel (addressing memory : Word)
  | entryPoint (model : ExecutionModel) (function : Id) (text : String) (interface : List Id)
  | executionMode (function : Id) (mode : ExecutionMode) (parameters : List Word)
  | string (text : String)
  | source (language version : Word) (file : Id)
  | sourceExtension (text : String)
  | name (id : Id) (text : String)
  | memberName (struct : Id) (member : Word) (text : String)
  | decorate (id : Id) (decoration : Decoration) (parameters : List Word)
  | memberDecorate (struct : Id) (member : Word) (decoration : Decoration) (parameters : List Word)
  | typeVoid
  | typeBool
  | typeFloat (width : Word)
  | typeInt (width : Word) (signed : Bool)
  | typeVector (component : Id) (count : Word)
  | typeMatrix (column : Id) (count : Word)
  | typeArray (elem length : Id)
  | typeImage (sampledType : Id) (dim depth arrayed multisampled sampled format : Word)
  | typeSampledImage (image : Id)
  | typePointer (storage : StorageClass) (pointee : Id)
  | typeFunction (returnType : Id) (parameters : List Id)
  | typeStruct (members : List Id)
  | constant (type : Id) (value : List Word)
  | globalVariable (type : Id) (storage : StorageClass)
  | localVariable (type : Id)
  | function (type returnType : Id) (control : Word)
  | label
  | ret
  | returnValue (value : Id)
  | functionEnd
  | binaryOp (opcode : Opcode) (type left right : Id)
  | load (type pointer : Id)
  | store (pointer value : Id)
  | accessChain (type base : Id) (indices : List Id)
  | construct (type : Id) (parts : List Id)
  | extract (type composite : Id) (indices : List Word)
  | extInst (type set : Id) (number : Word) (operands : List Id)

/-- Carries out a request. The caller learns the new id, if there is one. -/
def Request.run : Request → Emit (Option Id)
  | .freshId => some <$> Emit.fresh
  | .capability c => (fun _ => none) <$> Emit.capability c
  | .extension text => (fun _ => none) <$> Emit.extension text
  | .extInstImport text => some <$> Emit.extInstImport text
  | .memoryModel addressing memory => (fun _ => none) <$> Emit.memoryModel addressing memory
  | .entryPoint model f text interface =>
    (fun _ => none) <$> Emit.entryPoint model f text interface
  | .executionMode f mode parameters => (fun _ => none) <$> Emit.executionMode f mode parameters
  | .string text => some <$> Emit.string text
  | .source language version file => (fun _ => none) <$> Emit.source language version file
  | .sourceExtension text => (fun _ => none) <$> Emit.sourceExtension text
  | .name id text => (fun _ => none) <$> Emit.name id text
  | .memberName struct member text => (fun _ => none) <$> Emit.memberName struct member text
  | .decorate id decoration parameters =>
    (fun _ => none) <$> Emit.decorate id decoration parameters
  | .memberDecorate struct member decoration parameters =>
    (fun _ => none) <$> Emit.memberDecorate struct member decoration parameters
  | .typeVoid => some <$> Emit.typeVoid
  | .typeBool => some <$> Emit.typeBool
  | .typeFloat width => some <$> Emit.typeFloat width
  | .typeInt width signed => some <$> Emit.typeInt width signed
  | .typeVector component count => some <$> Emit.typeVector component count
  | .typeMatrix column count => some <$> Emit.typeMatrix column count
  | .typeArray elem length => some <$> Emit.typeArray elem length
  | .typeImage sampledType dim depth arrayed multisampled sampled format =>
    some <$> Emit.typeImage sampledType dim depth arrayed multisampled sampled format
  | .typeSampledImage image => some <$> Emit.typeSampledImage image
  | .typePointer storage pointee => some <$> Emit.typePointer storage pointee
  | .typeFunction returnType parameters => some <$> Emit.typeFunction returnType parameters
  | .typeStruct members => some <$> Emit.typeStruct members
  | .constant type value => some <$> Emit.constant type value
  | .globalVariable type storage => some <$> Emit.globalVariable type storage
  | .localVariable type => some <$> Emit.localVariable type
  | .function type returnType control => some <$> Emit.function type returnType control
  | .label => some <$> Emit.label
  | .ret => (fun _ => none) <$> Emit.ret
  | .returnValue value => (fun _ => none) <$> Emit.returnValue value
  | .functionEnd => (fun _ => none) <$> Emit.functionEnd
  | .binaryOp opcode type left right => some <$> Emit.binaryOp opcode type left right
  | .load type pointer => some <$> Emit.loadOp type pointer
  | .store pointer value => (fun _ => none) <$> Emit.storeOp pointer value
  | .accessChain type base indices => some <$> Emit.accessChainOp type base indices
  | .construct type parts => some <$> Emit.constructOp type parts
  | .extract type composite indices => some <$> Emit.extractOp type composite indices
  | .extInst type set number operands => some <$> Emit.extInstOp type set number operands

/-! ## What a builder holds -/

/-- The instructions of each section, and the number of ids given out. -/
structure Buffers where
  taken : Nat
  held : Section → List Instruction

namespace Buffers

/-- Nothing was asked for. -/
def empty : Buffers where
  taken := 0
  held _ := []

/-- One more instruction at the end of a section. -/
def add (b : Buffers) (part : Section) (i : Instruction) : Buffers :=
  { b with held := Function.update b.held part (b.held part ++ [i]) }

@[simp] theorem held_add (b : Buffers) (part : Section) (i : Instruction) :
    (b.add part i).held part = b.held part ++ [i] :=
  Function.update_self ..

/-- Other sections stay as they are. -/
theorem held_add_of_ne (b : Buffers) {part part' : Section} (h : part' ≠ part) (i : Instruction) :
    (b.add part i).held part' = b.held part' :=
  Function.update_of_ne h ..

/-- One more instruction at the end of a section, which uses up the next id. -/
def define (b : Buffers) (part : Section) (i : Id → Instruction) : Buffers :=
  { b.add part (i (.nth b.taken)) with taken := b.taken + 1 }

/-- Another memory model. -/
def setMemoryModel (b : Buffers) (i : Instruction) : Buffers :=
  { b with held := Function.update b.held .memoryModel [i] }

@[simp] theorem held_setMemoryModel (b : Buffers) (i : Instruction) :
    (b.setMemoryModel i).held .memoryModel = [i] := by
  simp [setMemoryModel]

/-- Other sections stay as they are. -/
theorem held_setMemoryModel_of_ne (b : Buffers) {part : Section} (h : part ≠ .memoryModel)
    (i : Instruction) : (b.setMemoryModel i).held part = b.held part :=
  Function.update_of_ne h ..

/-- What is held after a request. A capability is declared once, and a memory model replaces the
one before it. -/
def answer (b : Buffers) : Request → Buffers
  | .freshId => { b with taken := b.taken + 1 }
  | .capability c =>
    if ⟨.capability, [c]⟩ ∈ b.held .capabilities then b
    else b.add .capabilities ⟨.capability, [c]⟩
  | .extension text => b.add .extensions ⟨.extension, Literal.ofString text⟩
  | .extInstImport text =>
    b.define .instructionSets fun id => ⟨.extInstImport, id :: Literal.ofString text⟩
  | .memoryModel addressing memory => b.setMemoryModel ⟨.memoryModel, [addressing, memory]⟩
  | .entryPoint model f text interface =>
    b.add .entryPoints ⟨.entryPoint, model :: f :: Literal.ofString text ++ interface⟩
  | .executionMode f mode parameters =>
    b.add .executionModes ⟨.executionMode, f :: mode :: parameters⟩
  | .string text => b.define .sources fun id => ⟨.string, id :: Literal.ofString text⟩
  | .source language version file =>
    b.add .sources ⟨.source, language :: version :: if file = 0 then [] else [file]⟩
  | .sourceExtension text => b.add .sources ⟨.sourceExtension, Literal.ofString text⟩
  | .name id text => b.add .names ⟨.name, id :: Literal.ofString text⟩
  | .memberName struct member text =>
    b.add .names ⟨.memberName, struct :: member :: Literal.ofString text⟩
  | .decorate id decoration parameters =>
    b.add .decorations ⟨.decorate, id :: decoration :: parameters⟩
  | .memberDecorate struct member decoration parameters =>
    b.add .memberDecorations ⟨.memberDecorate, struct :: member :: decoration :: parameters⟩
  | .typeVoid => b.define .globals fun id => ⟨.typeVoid, [id]⟩
  | .typeBool => b.define .globals fun id => ⟨.typeBool, [id]⟩
  | .typeFloat width => b.define .globals fun id => ⟨.typeFloat, [id, width]⟩
  | .typeInt width signed =>
    b.define .globals fun id => ⟨.typeInt, [id, width, if signed then 1 else 0]⟩
  | .typeVector component count =>
    b.define .globals fun id => ⟨.typeVector, [id, component, count]⟩
  | .typeMatrix column count => b.define .globals fun id => ⟨.typeMatrix, [id, column, count]⟩
  | .typeArray elem length => b.define .globals fun id => ⟨.typeArray, [id, elem, length]⟩
  | .typeImage sampledType dim depth arrayed multisampled sampled format =>
    b.define .globals fun id =>
      ⟨.typeImage, [id, sampledType, dim, depth, arrayed, multisampled, sampled, format]⟩
  | .typeSampledImage image => b.define .globals fun id => ⟨.typeSampledImage, [id, image]⟩
  | .typePointer storage pointee =>
    b.define .globals fun id => ⟨.typePointer, [id, storage, pointee]⟩
  | .typeFunction returnType parameters =>
    b.define .globals fun id => ⟨.typeFunction, id :: returnType :: parameters⟩
  | .typeStruct members => b.define .globals fun id => ⟨.typeStruct, id :: members⟩
  | .constant type value => b.define .globals fun id => ⟨.constant, type :: id :: value⟩
  | .globalVariable type storage => b.define .globals fun id => ⟨.var, [type, id, storage]⟩
  | .localVariable type =>
    b.define .functions fun id => ⟨.var, [type, id, StorageClass.function]⟩
  | .function type returnType control =>
    b.define .functions fun id => ⟨.function, [returnType, id, control, type]⟩
  | .label => b.define .functions fun id => ⟨.label, [id]⟩
  | .ret => b.add .functions ⟨.ret, []⟩
  | .returnValue value => b.add .functions ⟨.returnValue, [value]⟩
  | .functionEnd => b.add .functions ⟨.functionEnd, []⟩
  | .binaryOp opcode type left right =>
    b.define .functions fun id => ⟨opcode, [type, id, left, right]⟩
  | .load type pointer => b.define .functions fun id => ⟨.load, [type, id, pointer]⟩
  | .store pointer value => b.add .functions ⟨.store, [pointer, value]⟩
  | .accessChain type base indices =>
    b.define .functions fun id => ⟨.accessChain, type :: id :: base :: indices⟩
  | .construct type parts =>
    b.define .functions fun id => ⟨.compositeConstruct, type :: id :: parts⟩
  | .extract type composite indices =>
    b.define .functions fun id => ⟨.compositeExtract, type :: id :: composite :: indices⟩
  | .extInst type set number operands =>
    b.define .functions fun id => ⟨.extInst, type :: id :: set :: number :: operands⟩

/-- What is held after requests. -/
def answerAll (b : Buffers) (requests : List Request) : Buffers :=
  requests.foldl answer b

/-- The sections one after the other. -/
def instructions (b : Buffers) : List Instruction :=
  b.held .capabilities ++ b.held .extensions ++ b.held .instructionSets ++ b.held .memoryModel ++
    b.held .entryPoints ++ b.held .executionModes ++ b.held .sources ++ b.held .names ++
    b.held .decorations ++ b.held .memberDecorations ++ b.held .globals ++ b.held .functions

end Buffers

/-! ## Drafts hold what was asked for -/

namespace Draft

/-- Only the section of a new instruction changes. -/
theorem contents_emit_of_ne (d : Draft) {part part' : Section} (h : part' ≠ part)
    (i : Instruction) : (d.emit part i).contents part' = d.contents part' := by
  simp [contents, emitted_emit, h.symm]

/-- A section gets the instruction at its end. -/
theorem contents_emit (d : Draft) {part : Section} (h : part ≠ .memoryModel) (i : Instruction) :
    (d.emit part i).contents part = d.contents part ++ [i] := by
  simp [contents, emitted_emit, h]

/-- Only the last memory model counts. -/
theorem contents_emit_memoryModel (d : Draft) (i : Instruction) :
    (d.emit .memoryModel i).contents .memoryModel = [i] := by
  simp [contents, emitted_emit]

/-- A draft that holds what the buffers hold, its ids not spent. -/
structure Holds (d : Draft) (b : Buffers) : Prop where
  isOpen : d.ids.closed = false
  taken : d.ids.taken = b.taken
  contents : ∀ part, d.contents part = b.held part
  capabilities : ∀ i ∈ b.held .capabilities, i.opcode = .capability

/-- At the start nothing is held. -/
theorem holds_empty (v : Version) : Holds { version := v } .empty where
  isOpen := rfl
  taken := rfl
  contents part := by cases part <;> rfl
  capabilities := nofun

namespace Holds

variable {d : Draft} {b : Buffers}

/-- What was emitted into a section is held there. -/
theorem add (h : d.Holds b) {part : Section} {i : Instruction} (hpart : part ≠ .memoryModel)
    (hcap : part = .capabilities → i.opcode = .capability) :
    (d.emit part i).Holds (b.add part i) where
  isOpen := h.isOpen
  taken := h.taken
  contents part' := by
    by_cases heq : part' = part
    · subst heq
      rw [contents_emit d hpart, h.contents, Buffers.held_add]
    · rw [contents_emit_of_ne d heq, h.contents, Buffers.held_add_of_ne b heq]
  capabilities := by
    intro j hj
    by_cases heq : part = .capabilities
    · subst heq
      rw [Buffers.held_add] at hj
      rcases List.mem_append.mp hj with hj | hj
      · exact h.capabilities j hj
      · rw [List.mem_singleton.mp hj]
        exact hcap rfl
    · rw [Buffers.held_add_of_ne b (Ne.symm heq)] at hj
      exact h.capabilities j hj

/-- A memory model is held in place of the one before. -/
theorem setMemoryModel (h : d.Holds b) (i : Instruction) :
    (d.emit .memoryModel i).Holds (b.setMemoryModel i) where
  isOpen := h.isOpen
  taken := h.taken
  contents part := by
    by_cases heq : part = .memoryModel
    · subst heq
      rw [contents_emit_memoryModel, Buffers.held_setMemoryModel]
    · rw [contents_emit_of_ne d heq, h.contents, Buffers.held_setMemoryModel_of_ne b heq]
  capabilities := by
    rw [Buffers.held_setMemoryModel_of_ne b (by decide)]
    exact h.capabilities

/-- Another id is given out. -/
theorem take (h : d.Holds b) :
    Holds { d with ids := { d.ids with taken := d.ids.taken + 1 } }
      { b with taken := b.taken + 1 } where
  isOpen := h.isOpen
  taken := congrArg (· + 1) h.taken
  contents := h.contents
  capabilities := h.capabilities

/-- A capability counts as declared if its declaration is held. -/
theorem declares_iff (h : d.Holds b) (c : Capability) :
    d.declares c = true ↔ ⟨.capability, [c]⟩ ∈ b.held .capabilities := by
  have hmem : ∀ i, i ∈ b.held .capabilities ↔ (.capabilities, i) ∈ d.log.toList := by
    intro i
    rw [← h.contents]
    exact mem_emitted
  simp only [declares, Array.any_eq_true', Bool.and_eq_true, decide_eq_true_eq, beq_iff_eq]
  constructor
  · rintro ⟨⟨part, i⟩, hlog, hpart, hoperands⟩
    dsimp only at hpart hoperands
    subst hpart
    have hi : i ∈ b.held .capabilities := (hmem i).mpr (by simpa using hlog)
    have heq : i = ⟨.capability, [c]⟩ := by
      rw [← h.capabilities i hi, ← hoperands]
    rwa [← heq]
  · intro hc
    exact ⟨_, by simpa using (hmem _).mp hc, rfl, rfl⟩

/-- The instructions of the draft are those held, section by section. -/
theorem instructions_eq (h : d.Holds b) : d.instructions = b.instructions := by
  simp [instructions, Section.order, h.contents, Buffers.instructions]

end Holds

end Draft

/-! ## Every request is answered -/

/-- The step succeeds, and does to a draft what `f` does to the buffers. -/
def Answers {α : Type} (x : Emit α) (f : Buffers → Buffers) : Prop :=
  ∀ (s : Emitter) (b : Buffers), s.draft.Holds b →
    ∃ a s', x s = .ok a s' ∧ s'.draft.version = s.draft.version ∧ s'.draft.Holds (f b)

namespace Answers

variable {α β : Type} {part : Section}

/-- Only what is asked for matters, and not what is done with the answer. -/
theorem map {x : Emit α} {f : Buffers → Buffers} (h : Answers x f) (g : α → β) :
    Answers (g <$> x) f := by
  intro s b hb
  obtain ⟨a, s', hrun, hversion, hb'⟩ := h s b hb
  exact ⟨g a, s', by rw [map_apply, hrun], hversion, hb'⟩

/-- Asking for an id takes one. -/
theorem fresh : Answers Emit.fresh fun b => { b with taken := b.taken + 1 } := by
  intro s b hb
  have hrun : Emit.fresh s = .ok s.nextId { s with
      draft := { s.draft with ids := { s.draft.ids with taken := s.draft.ids.taken + 1 } } } := by
    simp [Emit.fresh, bind_apply, map_apply, IdSupply.take, hb.isOpen, Emitter.nextId]
  exact ⟨_, _, hrun, rfl, hb.take⟩

/-- Asking for an instruction adds it to its section. -/
theorem instruction (op : Opcode) (operands : List Word) (hpart : part ≠ .memoryModel)
    (hcap : part ≠ .capabilities) :
    Answers (Emit.instruction part op operands) (·.add part ⟨op, operands⟩) :=
  fun _ _ hb => ⟨(), _, rfl, rfl, hb.add hpart fun h => absurd h hcap⟩

/-- The next id goes into the instruction, whichever place its result has. -/
theorem define {x : Emit Id} {i : Id → Instruction} (hpart : part ≠ .memoryModel)
    (hcap : part ≠ .capabilities)
    (hx : ∀ s : Emitter, s.draft.ids.closed = false →
      x s = .ok s.nextId (s.define part (i s.nextId))) :
    Answers x (·.define part i) := by
  intro s b hb
  refine ⟨s.nextId, _, hx s hb.isOpen, rfl, ?_⟩
  have hid : s.nextId = .nth b.taken := congrArg Id.nth hb.taken
  rw [hid]
  exact (hb.add hpart fun h => absurd h hcap).take

/-- Asking for a result takes an id for it. -/
theorem result (op : Opcode) (operands : List Word) (hpart : part ≠ .memoryModel)
    (hcap : part ≠ .capabilities) :
    Answers (Emit.result part op operands) (·.define part fun id => ⟨op, id :: operands⟩) :=
  define hpart hcap fun _ hopen => Emit.result_apply hopen part op operands

/-- Asking for a typed result takes an id for it. -/
theorem typedResult (op : Opcode) (type : Id) (operands : List Word) (hpart : part ≠ .memoryModel)
    (hcap : part ≠ .capabilities) :
    Answers (Emit.typedResult part op type operands)
      (·.define part fun id => ⟨op, type :: id :: operands⟩) :=
  define hpart hcap fun _ hopen => Emit.typedResult_apply hopen part op type operands

/-- Asking for a memory model replaces the one before. -/
theorem memoryModel (addressing memory : Word) :
    Answers (Emit.memoryModel addressing memory)
      (·.setMemoryModel ⟨.memoryModel, [addressing, memory]⟩) :=
  fun _ _ hb => ⟨(), _, rfl, rfl, hb.setMemoryModel _⟩

/-- Asking for a capability adds it once. -/
theorem capability (c : Capability) : Answers (Emit.capability c) (·.answer (.capability c)) := by
  intro s b hb
  dsimp only [Buffers.answer]
  by_cases hdeclared : s.draft.declares c = true
  · refine ⟨(), s, ?_, rfl, ?_⟩
    · simp [Emit.capability, bind_apply, hdeclared]
    · rwa [if_pos ((hb.declares_iff c).mp hdeclared)]
  · refine ⟨(), s.put .capabilities ⟨.capability, [c]⟩, ?_, rfl, ?_⟩
    · simp [Emit.capability, bind_apply, hdeclared, Emit.instruction_apply]
    · rw [if_neg fun h => hdeclared ((hb.declares_iff c).mpr h)]
      exact hb.add (by decide) fun _ => rfl

end Answers

/-- One request. -/
theorem Request.answers_run (r : Request) : Answers r.run (·.answer r) := by
  cases r with
  | freshId => exact Answers.fresh.map _
  | capability c => exact (Answers.capability c).map _
  | memoryModel a m => exact (Answers.memoryModel a m).map _
  | extension | entryPoint | executionMode | source | sourceExtension | name | memberName
  | decorate | memberDecorate | ret | returnValue | functionEnd | store =>
    exact .map (.instruction _ _ (by decide) (by decide)) _
  | extInstImport | string | typeVoid | typeBool | typeFloat | typeInt | typeVector | typeMatrix
  | typeArray | typeImage | typeSampledImage | typePointer | typeFunction | typeStruct | label =>
    exact .map (.result _ _ (by decide) (by decide)) _
  | constant | globalVariable | localVariable | function | binaryOp | load | accessChain | construct
  | extract | extInst =>
    exact .map (.typedResult _ _ _ (by decide) (by decide)) _

/-- Any sequence of requests. -/
theorem answers_mapM (requests : List Request) :
    Answers (requests.mapM Request.run) (·.answerAll requests) := by
  induction requests with
  | nil => exact fun s b hb => ⟨[], s, rfl, rfl, hb⟩
  | cons r rest ih =>
    intro s b hb
    obtain ⟨a, s₁, hrun, hversion, hb₁⟩ := r.answers_run s b hb
    obtain ⟨as, s₂, hrest, hversion', hb₂⟩ := ih s₁ _ hb₁
    refine ⟨a :: as, s₂, ?_, hversion'.trans hversion, hb₂⟩
    simp [List.mapM_cons, bind_apply, map_apply, hrun, hrest]

/-! ## Assembling and decoding -/

theorem Emit.assemble_apply (s : Emitter) :
    Emit.assemble s =
      match s.draft.assemble.1 with
      | .ok words => .ok words { s with draft := s.draft.assemble.2 }
      | .error fault => .error (.fault fault) { s with draft := s.draft.assemble.2 } := by
  unfold Emit.assemble
  rw [bind_apply, get_apply]
  simp only [bind_apply, modify_apply]
  cases s.draft.assemble.1 <;> rfl

/-- The words are the written form of the buffers: they, and also their bytes, decode to a module
with the right header and the right instructions, each found where its words start. -/
structure Buffers.WrittenAs (b : Buffers) (v : Version) (words : List Word) (m : Module) :
    Prop where
  decoded : Module.decode words = .ok m
  header : m.header = ⟨0x07230203, v.major.toUInt32 <<< 16 ||| v.minor.toUInt32 <<< 8, 0x000D0001,
    Id.nth b.taken, 0⟩
  instructions : m.instructions = b.instructions
  offsets : ∀ before p after, m.placed = before ++ p :: after →
    words.drop p.offset = (p :: after).flatMap (·.instruction.words)
  decodedBytes : Module.decodeBytes (Binary.ofWords words) = .ok m
  wordsOfBytes : Binary.toWords? (Binary.ofWords words) = some words

namespace Draft

/-- The words of an assembled draft from the offset of one of its instructions on. -/
theorem drop_offset {d : Draft} {words : List Word} (h : d.assemble.1 = .ok words)
    {before after : List Placed} {p : Placed} (hp : d.toModule.placed = before ++ p :: after) :
    words.drop p.offset = (p :: after).flatMap (·.instruction.words) := by
  obtain ⟨body, hbody, rfl⟩ := encodeAll_of_assemble h
  obtain ⟨-, rfl⟩ := encodeAll_eq_ok hbody
  rw [← flatMap_words_placeFrom 5, offset_of_placeFrom hp]
  have hplaced : placeFrom 5 d.instructions = before ++ p :: after := hp
  have hlength : (d.header d.ids.next).length = 5 := rfl
  rw [hplaced, List.flatMap_append, ← hlength, ← List.length_append, ← List.append_assoc,
    List.drop_left]

/-- What a draft holds is written as the module says. -/
theorem Holds.writtenAs {d : Draft} {b : Buffers} (hb : d.Holds b) {words : List Word}
    (h : d.assemble.1 = .ok words) : b.WrittenAs d.version words d.toModule where
  decoded := decode_assemble h
  header := by
    rw [← Version.word_eq_or, ← hb.taken]
    rfl
  instructions := by rw [instructions_toModule, hb.instructions_eq]
  offsets _ _ _ hp := drop_offset h hp
  decodedBytes := by rw [Module.decodeBytes_ofWords, decode_assemble h]
  wordsOfBytes := Binary.toWords?_ofWords words

/-- Assembling fails exactly if one of the instructions held is too long. -/
theorem Holds.assemble_error_iff {d : Draft} {b : Buffers} (hb : d.Holds b) :
    (∃ opcode count, d.assemble.1 = .error (.tooLong opcode count)) ↔
      ∃ i ∈ b.instructions, 65534 < i.operands.length := by
  rw [← hb.instructions_eq]
  constructor
  · rintro ⟨opcode, count, h⟩
    obtain ⟨i, hi, hlong, -⟩ := assemble_eq_error hb.isOpen h
    exact ⟨i, hi, Nat.lt_of_succ_lt_succ hlong⟩
  · rintro ⟨i, hi, hlong⟩
    cases h : d.assemble.1 with
    | ok words =>
      -- Words are made only of instructions that fit.
      have hfits : i.operands.length + 1 ≤ 65535 := fits_of_assemble h i hi
      omega
    | error fault =>
      obtain ⟨j, -, -, rfl⟩ := assemble_eq_error hb.isOpen h
      exact ⟨_, _, rfl⟩

end Draft

/-- Decoding undoes assembly. After any requests, assembling fails exactly if some instruction held
has more than 65534 operands, and otherwise gives the written form of what is held. -/
theorem decode_assemble_requests (v : Version) (requests : List Request) :
    ∃ ids s, requests.mapM Request.run (.start v) = .ok ids s ∧
      ((∃ opcode count s', Emit.assemble s = .error (.fault (.tooLong opcode count)) s') ↔
        ∃ i ∈ (Buffers.empty.answerAll requests).instructions, 65534 < i.operands.length) ∧
      ((∀ i ∈ (Buffers.empty.answerAll requests).instructions, i.operands.length ≤ 65534) →
        ∃ words s' m, Emit.assemble s = .ok words s' ∧
          (Buffers.empty.answerAll requests).WrittenAs v words m) := by
  obtain ⟨ids, s, hrun, hversion, hb⟩ := answers_mapM requests (.start v) _ (Draft.holds_empty v)
  refine ⟨ids, s, hrun, ?_, ?_⟩
  · rw [← hb.assemble_error_iff, Emit.assemble_apply]
    cases s.draft.assemble.1 with
    | ok words => simp
    | error fault => simp
  · intro hshort
    have hok : ¬ ∃ opcode count, s.draft.assemble.1 = .error (.tooLong opcode count) := by
      rw [hb.assemble_error_iff]
      rintro ⟨i, hi, hlong⟩
      exact absurd (hshort i hi) (by omega)
    rw [Emit.assemble_apply]
    cases hwords : s.draft.assemble.1 with
    | ok words =>
      have hwritten := hb.writtenAs hwords
      rw [hversion] at hwritten
      exact ⟨words, _, _, rfl, hwritten⟩
    | error fault =>
      obtain ⟨i, -, -, rfl⟩ := Draft.assemble_eq_error hb.isOpen hwords
      exact absurd ⟨_, _, hwords⟩ hok

/-- Sections filled out of order, a capability asked for twice and a second memory model. -/
theorem decode_assemble_requests_shuffled :
    ∃ ids s words s' m,
      [Request.typeVoid, .memoryModel 1 2, .ret, .capability 1, .name 1 "", .memoryModel 0 1,
        .capability 1].mapM Request.run (.start .default) = .ok ids s ∧
      Emit.assemble s = .ok words s' ∧ Module.decode words = .ok m ∧ m.header.bound = 2 ∧
      m.instructions =
        [⟨.capability, [1]⟩, ⟨.memoryModel, [0, 1]⟩, ⟨.name, [1, 0]⟩, ⟨.typeVoid, [1]⟩,
          ⟨.ret, []⟩] := by
  obtain ⟨ids, s, hrun, -, hassemble⟩ := decode_assemble_requests .default
    [.typeVoid, .memoryModel 1 2, .ret, .capability 1, .name 1 "", .memoryModel 0 1, .capability 1]
  obtain ⟨words, s', m, hwords, hwritten⟩ := hassemble (by decide +kernel)
  refine ⟨ids, s, words, s', m, hrun, hwords, hwritten.decoded, ?_, ?_⟩
  · rw [hwritten.header]
    decide +kernel
  · rw [hwritten.instructions]
    decide +kernel

end ShaderStage

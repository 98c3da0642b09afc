import ShaderStage.Proofs.Steps

/-! # Storage classes

Only a pointer has a storage class; the class `none` stands for that of all other types, and is not
meant to be written. A variable never has it. A pointer type has it if the pointer is asked for as a
value: as the result of a method, as part of a composite, or by a `deref` whose operand points to a
pointer. Only pointers to images are safe there, as their class is fixed. A variable of a pointer
type is no such case: it gives its own class to the pointers in its type, and they may be stored in
it.

* `Program.Classed`: no pointer is asked for as a value, other than to an image;
* `storageClass_of_compile`: all variables have a class, and in the modules of such programs all
  pointer types do;
* `storageClass_eq_none_of_compile`: a pointer type without a class, where a `deref` reads a pointer
  from a variable. -/

namespace ShaderStage

/-- The storage class that an instruction gives. -/
def Instruction.storageClass? (i : Instruction) : Option StorageClass :=
  if i.opcode = .typePointer then i.operands[1]?
  else if i.opcode = .var then i.operands[2]?
  else none

/-- The instruction gives a class in which something can live. -/
def Instruction.HasClass (i : Instruction) : Prop :=
  ∃ c, i.storageClass? = some c ∧ c ≠ .none

/-! ## Types whose pointers have a class -/

mutual

/-- All pointers in the type are to images. -/
def Ty.Classed : Ty → Prop
  | .pointer elem => elem.isOpaque = true
  | .array elem _ => elem.Classed
  | .struct _ members => members.Classed
  | _ => True

/-- All pointers in the members are to images. -/
def Members.Classed : Members → Prop
  | .nil => True
  | .cons _ type rest => type.Classed ∧ rest.Classed

end

namespace Ty

/-- What is at the end of a chain of pointers. -/
def target : Ty → Ty
  | .pointer elem => elem.target
  | t => t

/-- An image has no pointer without a class. -/
theorem classed_of_isOpaque {t : Ty} (h : t.isOpaque = true) : t.Classed := by
  induction t using isOpaque.induct with
  | case1 => trivial
  | case2 elem length ih => exact ih h
  | case3 t himage harray =>
    cases t with
    | array elem length => exact absurd rfl (harray elem length)
    | sampledImage2D => trivial
    | _ => cases h

/-- What is pointed to has its classes too. -/
theorem Classed.target {t : Ty} (h : t.Classed) : t.target.Classed := by
  cases t with
  | pointer elem =>
    cases elem with
    | pointer inner => cases h
    | _ => exact classed_of_isOpaque h
  | _ => exact h

@[simp] theorem classed_underlying (t : Ty) : t.underlying.Classed ↔ t.Classed := by
  cases t <;> rfl

/-- Resolving a name does not change what is pointed to. -/
theorem target_underlying (t : Ty) : t.underlying.target.Classed ↔ t.target.Classed := by
  cases t <;> rfl

/-- Basic types have no pointers at all. -/
theorem Basic.classed {t : Ty} (h : t.Basic) : t.Classed := by
  cases t <;> trivial

end Ty

/-- Each member has its classes. -/
theorem Members.Classed.mem {members : Members} (h : members.Classed) :
    ∀ m ∈ members.toList, m.2.Classed := by
  induction members using toList.induct with
  | case1 => nofun
  | case2 name type rest ih => exact List.forall_mem_cons.mpr ⟨h.1, ih h.2⟩

/-- The parts of a type have their classes. -/
theorem Ty.HasPart.classed {t u : Ty} {i : UInt32} (h : t.HasPart i u) (ht : t.Classed) :
    u.Classed := by
  cases h with
  | vector | matrix4 => trivial
  | array => exact ht
  | struct hi =>
    obtain ⟨m, hm, rfl⟩ := Members.mem_of_type? hi
    exact ht.mem m hm

/-- The parts of an array of images are images. -/
theorem Ty.HasPart.isOpaque_of {t u : Ty} {i : UInt32} (h : t.HasPart i u)
    (ht : t.isOpaque = true) : u.isOpaque = true := by
  cases h with
  | array => exact ht
  | _ => cases ht

theorem Ty.HasPart.target_eq {t u : Ty} {i : UInt32} (h : t.HasPart i u) : t.target = t := by
  cases h <;> rfl

/-! ## Keys -/

/-- No pointer without a class is needed for the key. A pointer gives its class to the chain of
pointers that it points to. -/
def Key.Classed (k : Key) : Prop :=
  match k.type with
  | .pointer elem => (elem.isOpaque = true ∨ k.storage ≠ .none) ∧ elem.target.Classed
  | t => t.Classed

namespace Key

/-- The key of a value has its classes. -/
theorem classed_value {t : Ty} (h : t.Classed) (storage : StorageClass) :
    (Key.mk t storage).Classed := by
  cases t with
  | pointer elem => exact ⟨.inl h, (Ty.classed_of_isOpaque h).target⟩
  | _ => exact h

/-- A pointer that is asked for has a class. -/
theorem Classed.storage {elem : Ty} {storage : StorageClass}
    (h : (Key.pointer elem storage).Classed) :
    (if elem.isOpaque then StorageClass.uniformConstant else storage) ≠ .none := by
  split
  · decide
  · rename_i hopaque
    exact h.1.resolve_left hopaque

instance : KeyKind Key.Classed where
  basic ht := classed_value ht.classed _
  normalize {k} hk := by
    obtain ⟨t, storage⟩ := k
    cases t with
    | pointer elem =>
      refine ⟨?_, elem.target_underlying.mpr hk.2⟩
      exact .inr (Classed.storage hk)
    | _ => exact hk
  elem {t length storage} hk := classed_value (t := t) hk _
  member hk m hm := classed_value (Members.Classed.mem hk m hm) _
  pointee {t storage} hk := by
    cases t with
    | pointer elem =>
      -- A pointer is no image, so the outer pointer has a class, which the inner one takes over.
      have hstorage : storage ≠ .none := hk.1.resolve_left nofun
      exact ⟨.inr hstorage, hk.2⟩
    | _ => exact hk.2
  block hk := hk.2
  component {t u i storage} hk hpart := by
    have ht : t.Classed := hpart.target_eq ▸ hk.2
    exact ⟨hk.1.imp_left hpart.isOpaque_of, (hpart.classed ht).target⟩

end Key

/-! ## Emitters -/

namespace Emitter

/-- All variables have a class. -/
def VariablesHaveClass (s : Emitter) : Prop :=
  ∀ part i, s.Has part i → part ∈ [.globals, .functions] → i.opcode = .var → i.HasClass

/-- All pointer types have a class. -/
def PointersHaveClass (s : Emitter) : Prop :=
  ∀ i, s.Has .globals i → i.opcode = .typePointer → i.HasClass

variable {K : Key → Prop} {s s' : Emitter}

/-- A step declares no variable without a class. -/
theorem VariablesHaveClass.step (hs : s.VariablesHaveClass) (h : s.Step K s') :
    s'.VariablesHaveClass := by
  intro part i hi hpart hop
  rcases h.has_or_permits hi with hold | hpermits
  · exact hs part i hold hpart hop
  · cases hpermits with
    | remark hnot => exact absurd hpart hnot
    | global hnot => simp [hop] at hnot
    | pointer => cases hop
    | code hnot => exact absurd hop hnot
    | globalVariable hstorage => exact ⟨_, rfl, hstorage⟩
    | localVariable => exact ⟨.function, rfl, by decide⟩

/-- A step defines no pointer type without a class. -/
theorem PointersHaveClass.step (hs : s.PointersHaveClass) (h : s.Step Key.Classed s') :
    s'.PointersHaveClass := by
  intro i hi hop
  rcases h.has_or_permits hi with hold | hpermits
  · exact hs i hold hop
  · cases hpermits with
    | remark hnot => simp at hnot
    | global hnot => simp [hop] at hnot
    | pointer hkey => exact ⟨_, rfl, hkey.storage⟩
    | globalVariable => cases hop

/-- After any steps all variables have a class. -/
theorem Reaches.variablesHaveClass {v : Version} (h : (Emitter.start v).Reaches K s) :
    s.VariablesHaveClass := by
  induction h with
  | refl => nofun
  | tail _ hstep ih => exact ih.step hstep

/-- After steps that only ask for pointers with a class, all pointer types have one. -/
theorem Reaches.pointersHaveClass {v : Version} (h : (Emitter.start v).Reaches Key.Classed s) :
    s.PointersHaveClass := by
  induction h with
  | refl => nofun
  | tail _ hstep ih => exact ih.step hstep

end Emitter

/-! ## Programs -/

namespace Program

/-- The program asks for no pointer as a value, other than to an image: not as part of a variable,
behind the pointers at the top of its type, not as a result or a composite, and not by a `deref`. -/
structure Classed (p : Program) (o : Options) : Prop where
  fields : ∀ f ∈ p.fields, f.type.target.Classed
  locals : ∀ m ∈ p.methods, ∀ l ∈ m.locals, l.type.target.Classed
  results : ∀ m ∈ p.methods, m.result.Classed
  constructs : ∀ m ∈ p.methods, ∀ t count, .construct t count ∈ m.body → t.Classed
  derefs : ∀ t, p.Derefs o t → t.Classed

/-- A program that asks for no pointer as a value stays within the keys with a class. -/
theorem Classed.within {p : Program} {o : Options} (h : p.Classed o) :
    p.Within ⟨Key.Classed, Key.Classed, fun _ => True, fun _ => True, False⟩ o where
  fields f hf := ⟨trivial, fun _ hstorage => ⟨.inr hstorage, h.fields f hf⟩⟩
  methods m hm :=
    have hfunction : StorageClass.function ≠ .none := by decide
    { name := trivial
      result := Key.classed_value (h.results m hm) _
      locals := fun l hl => ⟨⟨.inr hfunction, h.locals m hm l hl⟩, trivial⟩
      constructs := fun t count ht => Key.classed_value (h.constructs m hm t count ht) _ }
  derefs t ht _ _ := Key.classed_value (h.derefs t ht) _
  options := ⟨fun _ _ => trivial, trivial, fun _ _ => trivial⟩

end Program

/-- In a compiled module each variable has a storage class to live in, and so has each pointer type
unless the program asks for a pointer as a value. -/
theorem storageClass_of_compile {p : Program} {o : Options} {words : List Word}
    (h : (compile (some p) o).words = .ok words) :
    ∃ m, Module.decode words = .ok m ∧
      (∀ i ∈ m.instructions, i.opcode = .var → i.HasClass) ∧
      (p.Classed o → ∀ i ∈ m.instructions, i.opcode = .typePointer → i.HasClass) := by
  obtain ⟨c, hrun, hwords, -⟩ := emitModule_of_compile h
  have hfilled := wellFilled_of_emitModule hrun
  have hvariable : ∀ part : Section, .var ∈ part.opcodes → part ∈ [.globals, .functions] := by
    intro part
    cases part <;> decide
  have hpointer : ∀ part : Section, .typePointer ∈ part.opcodes → part = .globals := by
    intro part
    cases part <;> decide
  refine ⟨c.emitter.draft.toModule, Draft.decode_assemble hwords, ?_, ?_⟩
  · intro i hi hop
    rw [Draft.instructions_toModule] at hi
    obtain ⟨part, hlog⟩ := Draft.mem_instructions hi
    have hreach := Program.reaches_of_emitModule id (p.within_all o False) hrun
    exact hreach.variablesHaveClass part i hlog (hvariable part (hop ▸ hfilled.parts _ hlog)) hop
  · intro hp i hi hop
    rw [Draft.instructions_toModule] at hi
    obtain ⟨part, hlog⟩ := Draft.mem_instructions hi
    obtain rfl := hpointer part (hop ▸ hfilled.parts _ hlog)
    have hreach := Program.reaches_of_emitModule id hp.within hrun
    exact hreach.pointersHaveClass i hlog hop

/-- A fragment stage with a number and a pointer to a number, both private. -/
def Program.linked (body : List Operation) : Program where
  name := "linked"
  stage := .fragment
  options := {}
  fields := [⟨"number", .float32, none⟩, ⟨"link", .pointer .float32, none⟩]
  methods := [⟨"main", .void, [], body⟩]

/-- The only operand that is read from is the pointer to the number, not the one to the link. -/
theorem Program.classed_linked : (linked [.loadField 0, .deref, .pop]).Classed {} where
  fields := List.forall_mem_cons.mpr ⟨trivial, List.forall_mem_singleton.mpr trivial⟩
  locals := List.forall_mem_singleton.mpr nofun
  results := List.forall_mem_singleton.mpr trivial
  constructs := List.forall_mem_singleton.mpr (by simp)
  derefs := by
    rintro t ⟨before, m, after, done, rest, id, stack, c, hmethods, hbody, hrun, hpointee⟩
    obtain ⟨rfl, hm⟩ | ⟨-, hm⟩ := List.singleton_eq_append_iff.mp hmethods
    · obtain ⟨rfl, rfl⟩ := List.cons_eq_cons.mp hm
      obtain rfl : done = [.loadField 0] := by
        rcases done with _ | ⟨_, _ | ⟨_, _ | ⟨_, done⟩⟩⟩ <;> simp at hbody
        rw [hbody.1]
      have hx := eq_ok_of_run' (x := (linked [.loadField 0, .deref, .pop]).emitTo {} []
        ⟨"main", .void, [], [.loadField 0, .deref, .pop]⟩ [.loadField 0])
        (s := { emitter := .start .default }) (a := .running [3]) (by decide +kernel)
      cases hx.symm.trans hrun
      have hnumber : (endState ((linked [.loadField 0, .deref, .pop]).emitTo {} []
          ⟨"main", .void, [], [.loadField 0, .deref, .pop]⟩ [.loadField 0]
          { emitter := .start .default })).emitter.pointee? 3 = some .float32 := by
        decide +kernel
      obtain rfl : t = .float32 := Option.some.inj (hpointee.symm.trans hnumber)
      trivial
    · cases hm

/-- A number is read where a variable points to one and another holds a pointer: the `deref` has
a pointer to the number as its operand. -/
theorem storageClass_of_compile_linked : ∃ words m,
    (compile (some (.linked [.loadField 0, .deref, .pop])) {}).words = .ok words ∧
      Module.decode words = .ok m ∧ ∀ i ∈ m.instructions, i.opcode = .typePointer → i.HasClass := by
  have hok : (compile (some (.linked [.loadField 0, .deref, .pop])) {}).words.isOk = true := by
    decide +kernel
  cases h : (compile (some (.linked [.loadField 0, .deref, .pop])) {}).words with
  | error e =>
    rw [h] at hok
    cases hok
  | ok words =>
    obtain ⟨m, hm, -, hpointers⟩ := storageClass_of_compile h
    exact ⟨words, m, rfl, hm, hpointers Program.classed_linked⟩

/-- A pointer cannot be read from a variable: the type of what is read has no storage class. -/
theorem storageClass_eq_none_of_compile : ∃ words m i,
    (compile (some (.linked [.loadField 1, .deref, .pop])) {}).words = .ok words ∧
      Module.decode words = .ok m ∧ i ∈ m.instructions ∧ i.opcode = .typePointer ∧
      i.storageClass? = some .none := by
  have hfound : ((compile (some (.linked [.loadField 1, .deref, .pop])) {}).words.toOption.bind
      fun words => (Module.decode words).toOption.map fun m => m.instructions.any
        fun i => i.opcode = .typePointer ∧ i.storageClass? = some .none) = some true := by
    decide +kernel
  simp only [Option.bind_eq_some_iff, Option.map_eq_some_iff, List.any_eq_true,
    decide_eq_true_eq] at hfound
  obtain ⟨words, hwords, m, hm, i, hi, hop, hclass⟩ := hfound
  exact ⟨words, m, i, eq_ok_of_toOption hwords, eq_ok_of_toOption hm, hi, hop, hclass⟩

end ShaderStage

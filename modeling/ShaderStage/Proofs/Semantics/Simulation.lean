import ShaderStage.Proofs.Semantics.Function
import ShaderStage.Proofs.Semantics.Soundness

/-! # Operations and their instructions

An operation and the instructions that it emits take the same step. The ids on the stack of the
emitter stand for the slots on the stack of a running method, and the variables of a module for its
store.

* `Emitter.Simulates`: ids and variables stand for slots and cells;
* `Emitter.Emits.simulates`: an operation and its instructions take the same step. -/

namespace ShaderStage

/-! ## Stores in a memory -/

namespace Memory

variable {S : Type}

/-- The store that a memory holds: the values of the variables of fields and locals. -/
def store (memory : Memory S) (globals locals : List Variable) : Store S :=
  ⟨globals.map fun v => memory v.id, locals.map fun v => memory v.id⟩

end Memory

namespace Scope

variable {S : Type}

/-- The variable of a cell. -/
def root? (Γ : Scope) : Cell → Option Variable
  | .field n => elementAt? Γ.globals n
  | .own n => elementAt? Γ.locals n

/-- The ids of the variables in scope. -/
def roots (Γ : Scope) : List Id :=
  (Γ.globals ++ Γ.locals).map Variable.id

/-- The variable of a cell is one of those in scope. -/
theorem mem_roots {Γ : Scope} {cell : Cell} {v : Variable} (h : Γ.root? cell = some v) :
    v.id ∈ Γ.roots := by
  refine List.mem_map_of_mem ?_
  cases cell with
  | field n => exact List.mem_append_left _ (mem_of_elementAt? h)
  | own n => exact List.mem_append_right _ (mem_of_elementAt? h)

/-- Reading a cell is reading its variable in memory. -/
theorem read?_store (Γ : Scope) (memory : Memory S) (cell : Cell) :
    (memory.store Γ.globals Γ.locals).read? cell =
      (Γ.root? cell).map fun v => memory v.id := by
  cases cell <;> exact elementAt?_map _ _ _

end Scope

/-- Writing to one of several distinct variables writes to one position. -/
theorem map_update_eq_set {S : Type} {vs : List Variable} (hvs : (vs.map Variable.id).Nodup)
    {n : Int} {v : Variable} (hn : elementAt? vs n = some v) (memory : Memory S) (d : Data S) :
    (vs.map fun u => Function.update memory v.id d u.id) =
      (vs.map fun u => memory u.id).set n.toNat d := by
  cases n with
  | negSucc n => cases hn
  | ofNat n =>
    obtain ⟨hlt, rfl⟩ := List.getElem?_eq_some_iff.mp hn
    refine List.ext_getElem (by simp) fun i hi hi' => ?_
    rw [List.length_map] at hi
    rw [List.getElem_map, List.getElem_set, List.getElem_map]
    show _ = if n = i then _ else _
    by_cases hin : n = i
    · subst hin
      simp
    · rw [if_neg hin]
      -- Another variable has another id, so its cell is left alone.
      refine Function.update_of_ne (fun heq => hin ?_) _ _
      have hids : (vs.map Variable.id)[n]? = (vs.map Variable.id)[i]? := by simp [hlt, hi, heq]
      exact (List.getElem?_inj (by simpa) hvs).mp hids

/-- Writing to variables outside a list changes nothing in it. -/
theorem map_update_of_notMem {S : Type} {vs : List Variable} {id : Id}
    (hid : id ∉ vs.map Variable.id) (memory : Memory S) (d : Data S) :
    (vs.map fun u => Function.update memory id d u.id) = vs.map fun u => memory u.id := by
  refine List.map_congr_left fun u hu => Function.update_of_ne ?_ _ _
  rintro rfl
  exact hid (List.mem_map_of_mem hu)

/-- Writing to the variable of a cell writes to the cell. -/
theorem Scope.store_update {S : Type} {Γ : Scope} (hΓ : Γ.roots.Nodup) {cell : Cell} {v : Variable}
    (hv : Γ.root? cell = some v) (memory : Memory S) (d : Data S) :
    Memory.store (Function.update memory v.id d) Γ.globals Γ.locals =
      (memory.store Γ.globals Γ.locals).write d cell := by
  rw [Scope.roots, List.map_append, List.nodup_append'] at hΓ
  obtain ⟨hglobals, hlocals, hdisjoint⟩ := hΓ
  unfold Memory.store
  cases cell with
  | field n =>
    have hmem := List.mem_map_of_mem (f := Variable.id) (mem_of_elementAt? hv)
    rw [map_update_eq_set hglobals hv, map_update_of_notMem (hdisjoint hmem)]
    rfl
  | own n =>
    have hmem := List.mem_map_of_mem (f := Variable.id) (mem_of_elementAt? hv)
    rw [map_update_eq_set hlocals hv, map_update_of_notMem fun h => hdisjoint h hmem]
    rfl

/-! ## Types and operators -/

/-- A type that stands for the same as a basic type is that type under another name. -/
theorem Ty.Basic.alike {t u : Ty} (ht : t.Basic) (h : t.same u = true) : t.Alike u := by
  have hsig : t.signature = u.signature := eq_of_beq h
  have hchars : u.signature.toList ++ [] = t.signature.toList ++ [] := by rw [hsig]
  have hu := ht.named hchars CleanName
  have ht' : t.Named CleanName := by
    cases t with
    | array | pointer | struct => exact ht.elim
    | _ => trivial
  exact canon_eq_of_signature ht' hu hsig

theorem Ty.ne_pointer_of_vectorComponents {v : Ty} {parts : List Ty} {count n : Nat}
    (h : v.vectorComponents count parts = .ok n) : ∀ u ∈ parts, ∀ elem, u ≠ .pointer elem := by
  induction parts generalizing count with
  | nil => nofun
  | cons part parts ih =>
    by_cases hvector : ∃ k, part = .vector k
    · obtain ⟨k, rfl⟩ := hvector
      exact List.forall_mem_cons.mpr ⟨nofun, ih h⟩
    · rw [vectorComponents_cons v count parts fun k hk => hvector ⟨k, hk⟩] at h
      by_cases hsame : part.same .float32 = true
      · rw [if_pos hsame] at h
        rw [same_comm] at hsame
        exact List.forall_mem_cons.mpr ⟨ne_pointer_of_same hsame nofun, ih h⟩
      · rw [if_neg hsame] at h
        cases h

theorem Ty.ne_pointer_of_checkMembers {t : Ty} (ht : t.PointerFree) {parts : List Ty} {index : Nat}
    (h : t.checkMembers index parts = .ok ()) : ∀ u ∈ parts, ∀ elem, u ≠ .pointer elem := by
  induction parts generalizing index with
  | nil => nofun
  | cons part parts ih =>
    unfold checkMembers at h
    cases hwanted : t.component (.ofNat index) with
    | error e =>
      rw [hwanted] at h
      cases h
    | ok wanted =>
      rw [hwanted] at h
      by_cases hsame : part.same wanted = true
      · rw [same_comm] at hsame
        have hfree := (component_eq_ok_iff.mp hwanted).pointerFree ht
        simp only [same_comm part, hsame, if_true] at h
        exact List.forall_mem_cons.mpr ⟨ne_pointer_of_same hsame hfree.ne_pointer, ih h⟩
      · simp only [hsame] at h
        cases h

/-- Parts that pass the check for a type without pointers are no pointers. -/
theorem Ty.ne_pointer_of_checkParts {t : Ty} (ht : t.PointerFree) {parts : List Ty}
    (h : t.checkParts parts = .ok ()) : ∀ u ∈ parts, ∀ elem, u ≠ .pointer elem := by
  have hmembers : ∀ wanted, checkParts.members t parts wanted = .ok () →
      ∀ u ∈ parts, ∀ elem, u ≠ .pointer elem := by
    intro wanted h
    unfold checkParts.members at h
    split at h
    · exact ne_pointer_of_checkMembers ht h
    · cases h
  unfold checkParts at h
  split at h
  · cases hcount : t.vectorComponents 0 parts with
    | error e =>
      rw [hcount] at h
      cases h
    | ok n => exact ne_pointer_of_vectorComponents hcount
  · exact hmembers _ h
  · exact hmembers _ h
  · exact hmembers _ h
  · cases h

/-- The width of the scalars in a type with arithmetic, or in a matrix. -/
def Ty.width : Ty → Word
  | .float width => width.toUInt32
  | .int type => type.width.toUInt32
  | _ => 32

namespace ScalarOps

variable {S : Type} (A : ScalarOps S)

/-- The instruction that an operator is emitted as does what the operator means, with the operands
exchanged where the emission exchanges them. -/
theorem exists_instruction {op : BinaryOperator} {left right t : Ty} {c : Opcode} {swap : Bool}
    (h : op.Resolves left right c t swap) :
    ∃ f, (A.instructions t.width).lookup c = some f ∧ ∀ l r,
      A.operate? op left right l r = (if swap then f r l else f l r).map (t, ·) := by
  cases h with
  | product hop h =>
    subst hop
    cases Ty.product_of_product? h <;> exact ⟨_, rfl, fun _ _ => rfl⟩
  | uniform _ hsame hkind hc =>
    have hleft := BinaryOperator.arithmetic_of_ok hkind
    have halike : left.Alike right := by
      refine Ty.Basic.alike ?_ hsame
      cases hleft <;> trivial
    have hproduct := A.product?_eq_none hleft halike
    -- Two operands of one such type have no product, so the operation goes component by component.
    have hoperate : ∀ f l r, A.uniform? op left = some f →
        A.operate? op left right l r = (l.zip? f r).map (left, ·) := by
      intro f l r hf
      cases hzip : l.zip? f r <;> simp [operate?, hproduct, hf, hzip]
    cases hleft with
    | float width =>
      cases hkind
      cases op <;> cases hc <;> exact ⟨_, rfl, fun l r => hoperate _ l r rfl⟩
    | vector count =>
      cases hkind
      cases op <;> cases hc <;> exact ⟨_, rfl, fun l r => hoperate _ l r rfl⟩
    | int type =>
      obtain ⟨width, signed⟩ := type
      cases signed <;> cases hkind <;> cases op <;> cases hc <;>
        exact ⟨_, rfl, fun l r => hoperate _ l r rfl⟩

/-- The number of a mathematical function names what the function means. -/
theorem lookup_extended {f : MathFunction} {number : Word} (h : f.number = .ok number)
    (width : Word) : (A.extended width).lookup number = A.mathFunction? width f := by
  cases f <;> cases h <;> rfl

/-- A function with a number can be computed. -/
theorem exists_mathFunction? {f : MathFunction} {number : Word} (h : f.number = .ok number)
    (width : Word) : ∃ g, A.mathFunction? width f = some g := by
  cases f <;> cases h <;> exact ⟨_, rfl⟩

end ScalarOps

/-- An operator computes numbers, vectors or matrices. -/
theorem BinaryOperator.Resolves.numeric {op : BinaryOperator} {left right t : Ty} {c : Opcode}
    {swap : Bool} (h : op.Resolves left right c t swap) : t.Arithmetic ∨ t = .matrix4 := by
  cases h with
  | product _ h =>
    cases Ty.product_of_product? h with
    | matrixMatrix | matrixScalar | scalarMatrix => exact .inr rfl
    | matrixVector | vectorMatrix | vectorScalar | scalarVector => exact .inl (.vector _)
  | uniform _ _ hkind _ => exact .inl (BinaryOperator.arithmetic_of_ok hkind)

/-- Which instruction defines an id tells its opcode. -/
theorem Module.definedBy_iff {m : Module} {id : Id} {i : Instruction}
    (h : m.defining? id = some i) {c : Opcode} : m.DefinedBy id c ↔ i.opcode = c := by
  rw [Module.DefinedBy, h]
  exact Option.some_inj

namespace Module

variable {S : Type} {A : ScalarOps S} {m : Module} {M : Machine S}

/-- Other ids keep their values. -/
theorem operand?_assign_of_ne {x id : Id} (h : x ≠ id) (o : Operand S) :
    m.operand? A (M.assign id o) x = m.operand? A M x := by
  simp [operand?, Machine.assign, Function.update_of_ne h]

/-- The id has the value that it was given. -/
theorem operand?_assign_self {id : Id} {c : Opcode} {operands : List Word}
    (h : m.defining? id = some ⟨c, operands⟩) (hc : c ∉ [Opcode.var, .constant]) (o : Operand S) :
    m.operand? A (M.assign id o) id = some o := by
  simp only [List.mem_cons, List.not_mem_nil, or_false, not_or] at hc
  simp [operand?, definedBy_iff h, hc, Machine.assign]

end Module

namespace Emitter

variable {N : String → Prop} {w : Emitter}

section

variable (hw : w.Consistent N) (hwrap : w.NoWrap) {T : Id}

include hw hwrap

/-- The module tells the width of a float. -/
theorem scalarWidth?_float {width : UInt8} (hT : w.typeOf? (.value (.float width)) = some T) :
    w.toModule.scalarWidth? T = some width.toUInt32 := by
  have hdef := defining?_float hw hwrap hT
  simp +decide [Module.scalarWidth?, Module.definedBy_iff hdef, hdef]

/-- The module tells the width of the components of a vector. -/
theorem vectorWidth?_vector {count : UInt8} (hT : w.typeOf? (.value (.vector count)) = some T) :
    w.toModule.vectorWidth? T = some 32 := by
  obtain ⟨F, hdef, hF⟩ := defining?_vector hw hwrap hT
  have hwidth := scalarWidth?_float hw hwrap hF
  simp +decide [Module.vectorWidth?, Module.definedBy_iff hdef, hdef, hwidth]

/-- The width of an emitted type is that of the type. -/
theorem width?_eq {t : Ty} (ht : t.Arithmetic ∨ t = .matrix4)
    (hT : w.typeOf? (.value t) = some T) : w.toModule.width? T = some t.width := by
  rcases ht with ht | rfl
  · cases ht with
    | float width =>
      have hdef := defining?_float hw hwrap hT
      have hwidth := scalarWidth?_float hw hwrap hT
      simp +decide [Module.width?, Module.vectorWidth?, Module.definedBy_iff hdef, hwidth, Ty.width]
    | int type =>
      have hdef := defining?_int hw hwrap hT
      simp +decide [Module.width?, Module.vectorWidth?, Module.scalarWidth?,
        Module.definedBy_iff hdef, hdef, Ty.width]
    | vector count =>
      obtain ⟨F, hdef, -⟩ := defining?_vector hw hwrap hT
      have hwidth := vectorWidth?_vector hw hwrap hT
      simp +decide [Module.width?, Module.definedBy_iff hdef, hwidth, Ty.width]
  · obtain ⟨C, hdef, hC⟩ := defining?_matrix4 hw hwrap hT
    have hwidth := vectorWidth?_vector hw hwrap hC
    simp +decide [Module.width?, Module.definedBy_iff hdef, hdef, hwidth, Ty.width]

/-- What is defined as a vector is a vector type. -/
theorem Defines.exists_vector {k : Key} (h : w.Defines T k)
    (hdefined : w.toModule.DefinedBy T .typeVector) : ∃ count, k = .value (.vector count) := by
  have hopcode : ∀ {c : Opcode} {operands : List Word}, w.Has .globals ⟨c, operands⟩ →
      (Instruction.mk c operands).resultId = some T → c = .typeVector := by
    intro c operands h hresult
    exact (Module.definedBy_iff (h.defining? hw.filled hwrap hresult)).mp hdefined
  cases h with
  | vector => exact ⟨_, rfl⟩
  | bool h | void h | int _ h | float _ h | matrix4 _ h | array _ _ _ h | sampledImage2D _ _ h
  | struct _ _ h | pointer _ h => exact absurd (hopcode h rfl) (by decide)

/-- Only a vector type is defined as one. -/
theorem definedBy_typeVector_iff {t : Ty} (ht : ∀ elem, t ≠ .pointer elem)
    (hT : w.typeOf? (.value t) = some T) :
    w.toModule.DefinedBy T .typeVector ↔ ∃ count, t = .vector count := by
  constructor
  · intro hdefined
    obtain ⟨k, -, hsig, -, hdef⟩ := hw.types hT
    obtain ⟨count, rfl⟩ := hdef.exists_vector hw hwrap hdefined
    rw [Key.signature_value (t := .vector count) nofun, Key.signature_value ht] at hsig
    have halike : (Ty.vector count).Alike t := Ty.Basic.alike trivial (beq_iff_eq.mpr hsig)
    have hcanon : Ty.vector count = t.canon := halike
    cases t with
    | vector count => exact ⟨count, rfl⟩
    | _ => cases hcanon
  · rintro ⟨count, rfl⟩
    obtain ⟨F, hdef, -⟩ := defining?_vector hw hwrap hT
    exact (Module.definedBy_iff hdef).mpr rfl

end

/-! ## Slots and ids -/

section

variable {S : Type} (A : ScalarOps S) (w : Emitter) (Γ : Scope)

/-- An id of the emitted function stands for a slot of the running method. -/
inductive Holds (M : Machine S) (x : Id) : Slot S → Prop
  | value {k : Key} {t : Ty} {d : Data S} (hx : w.Value x k) (hk : k.type = t.underlying)
      (ht : t.PointerFree) (h : w.toModule.operand? A M x = some (.data d)) :
      Holds M x (.value t d)
  | pointer {k : Key} {t : Ty} {cell : Cell} {v : Variable} {path : List Word} (hx : w.Value x k)
      (hk : k.type = .pointer t.underlying) (ht : t.PointerFree) (hv : Γ.root? cell = some v)
      (h : w.toModule.operand? A M x = some (.pointer v.id path)) :
      Holds M x (.pointer t cell path)

/-- A machine stands for a stack and a store: the ids of the emitter hold the slots, the variables
in scope hold the store, and all other variables are as they were at the start. -/
structure Simulates (start : Memory S) (ids : List Id) (slots : List (Slot S)) (σ : Store S)
    (M : Machine S) : Prop where
  stack : List.Forall₂ (Holds A w Γ M) ids slots
  store : σ = M.memory.store Γ.globals Γ.locals
  frame : ∀ id, id ∉ Γ.roots → M.memory id = start id

end

namespace Holds

variable {S : Type} {A : ScalarOps S} {Γ : Scope} {M : Machine S} {x : Id} {slot : Slot S} {k : Key}

/-- An id that stands for a pointer holds one into a variable in scope. -/
theorem exists_pointer (h : Holds A w Γ M x slot) (hx : w.Value x k) {elem : Ty}
    (hk : k.type = .pointer elem) :
    ∃ t cell v path, slot = .pointer t cell path ∧ elem = t.underlying ∧ t.PointerFree ∧
      Γ.root? cell = some v ∧ w.toModule.operand? A M x = some (.pointer v.id path) := by
  cases h with
  | value hx' hk' ht =>
    rw [hx.key_unique hx', hk'] at hk
    have hfree := (Ty.pointerFree_underlying _).mpr ht
    rw [hk] at hfree
    cases hfree
  | pointer hx' hk' ht hv h =>
    rw [hx.key_unique hx', hk'] at hk
    cases hk
    exact ⟨_, _, _, _, rfl, rfl, ht, hv, h⟩

/-- An id that stands for a value holds it. -/
theorem exists_value (h : Holds A w Γ M x slot) (hx : w.Value x k)
    (hk : ∀ elem, k.type ≠ .pointer elem) :
    ∃ t d, slot = .value t d ∧ k.type = t.underlying ∧ t.PointerFree ∧
      w.toModule.operand? A M x = some (.data d) := by
  cases h with
  | value hx' hk' ht h =>
    rw [hx.key_unique hx']
    exact ⟨_, _, rfl, hk', ht, h⟩
  | pointer hx' hk' =>
    rw [hx.key_unique hx'] at hk
    exact absurd hk' (hk _)

/-- A value of a type with parts. -/
theorem exists_composite (h : Holds A w Γ M x slot) (hx : w.Value x k) {i : Word} {u : Ty}
    (hpart : k.type.HasPart i u) :
    ∃ t d, slot = .value t d ∧ t.part? i = some u ∧ t.PointerFree ∧
      w.toModule.operand? A M x = some (.data d) := by
  have hk : ∀ elem, k.type ≠ .pointer elem := by
    intro elem hk
    rw [hk] at hpart
    cases hpart
  obtain ⟨t, d, rfl, hk, ht, hoperand⟩ := h.exists_value hx hk
  rw [hk] at hpart
  exact ⟨t, d, rfl, Ty.part?_eq_some_iff.mpr hpart, ht, hoperand⟩

end Holds

section

variable {S : Type} {A : ScalarOps S} {Γ : Scope} {start : Memory S} {ids : List Id}
  {slots : List (Slot S)} {σ : Store S} {M : Machine S}

/-- A new id changes nothing that other ids hold. -/
theorem Holds.assign {x id : Id} {slot : Slot S} (h : Holds A w Γ M x slot) (hne : x ≠ id)
    (o : Operand S) : Holds A w Γ (M.assign id o) x slot := by
  cases h with
  | value hx hk ht h =>
    exact .value hx hk ht (by rwa [Module.operand?_assign_of_ne hne])
  | pointer hx hk ht hv h =>
    exact .pointer hx hk ht hv (by rwa [Module.operand?_assign_of_ne hne])

/-- What an id stands for does not depend on the memory. -/
theorem Holds.memory {x : Id} {slot : Slot S} (h : Holds A w Γ M x slot) (memory : Memory S) :
    Holds A w Γ { M with memory } x slot := by
  cases h with
  | value hx hk ht h => exact .value hx hk ht h
  | pointer hx hk ht hv h => exact .pointer hx hk ht hv h

/-- A result that is not on the stack changes nothing. -/
theorem Simulates.assign (h : Simulates A w Γ start ids slots σ M) {id : Id} (hfresh : id ∉ ids)
    (o : Operand S) : Simulates A w Γ start ids slots σ (M.assign id o) := by
  have hne : ∀ x ∈ ids, x ≠ id := fun x hx heq => hfresh (heq ▸ hx)
  have hall := (List.forall₂_and_left _ _).mpr ⟨hne, h.stack⟩
  exact ⟨hall.imp fun x slot hx => hx.2.assign hx.1 o, h.store, h.frame⟩

/-- A new result goes on the stack. -/
theorem Simulates.push (hw : w.Consistent N) (hwrap : w.NoWrap)
    (h : Simulates A w Γ start ids slots σ M) {c : Opcode} {operands : List Word} {id : Id}
    (hi : w.Has .functions ⟨c, operands⟩) (hresult : (Instruction.mk c operands).resultId = some id)
    (hopcode : c ∉ [Opcode.var, .constant]) (hfresh : id ∉ ids) {slot : Slot S} {o : Operand S}
    (hslot : ∀ {M'}, w.toModule.operand? A M' id = some o → Holds A w Γ M' id slot) :
    Simulates A w Γ start (id :: ids) (slot :: slots) σ (M.assign id o) := by
  have hrest := h.assign hfresh o
  refine ⟨.cons (hslot ?_) hrest.stack, hrest.store, hrest.frame⟩
  exact Module.operand?_assign_self (hi.defining? hw.filled hwrap hresult) hopcode o

/-- Writing through a pointer writes to the cell it points into. -/
theorem Simulates.storing (hΓ : Γ.roots.Nodup) (h : Simulates A w Γ start ids slots σ M) {p x : Id}
    {cell : Cell} {v : Variable} {path : List Word} {new : Data S} (hv : Γ.root? cell = some v)
    (hp : w.toModule.operand? A M p = some (.pointer v.id path))
    (hx : w.toModule.operand? A M x = some (.data new)) :
    Option.Rel (fun next M' => Simulates A w Γ start ids next.1 next.2 M')
      ((σ.store? cell path new).bind fun σ => some (slots, σ))
      (w.toModule.exec? A M ⟨.store, [p, x]⟩) := by
  have hread : σ.read? cell = some (M.memory v.id) := by
    rw [h.store, Scope.read?_store, hv]
    rfl
  rw [Module.exec?_store hp hx, Store.store?, hread]
  cases hreplace : (M.memory v.id).replace? path new with
  | none =>
    simp only [Option.bind_eq_bind, Option.bind_some, hreplace, Option.bind_none]
    exact .none
  | some d =>
    simp only [Option.bind_eq_bind, Option.bind_some, hreplace]
    refine .some ⟨h.stack.imp fun _ _ hx => hx.memory _, ?_, fun id hid => ?_⟩
    · rw [h.store]
      exact (Scope.store_update hΓ hv M.memory d).symm
    -- The variable written to is one of the roots, and the frame is about the others.
    · refine (Function.update_of_ne ?_ _ _).trans (h.frame id hid)
      rintro rfl
      exact hid (Scope.mem_roots hv)

end

/-! ## Operations -/

/-- The variable is a cell for values of a type. -/
structure IsCell (w : Emitter) (t : Ty) (v : Variable) : Prop where
  key : v.key.type = .pointer t.underlying
  free : t.PointerFree
  value : w.Value v.id v.key
  var : w.toModule.DefinedBy v.id .var

/-- The variables in scope are distinct cells for the context of a method. -/
structure Realizes (w : Emitter) (Γ : Scope) (C : Context) : Prop where
  fields : List.Forall₂ w.IsCell C.fields Γ.globals
  locals : List.Forall₂ w.IsCell C.locals Γ.locals
  distinct : Γ.roots.Nodup
  result : C.result = Γ.method.result

theorem Realizes.isCell {Γ : Scope} {C : Context} (hΓ : w.Realizes Γ C) (cell : Cell) {v : Variable}
    (hv : Γ.root? cell = some v) : ∃ t, C.type? cell = some t ∧ w.IsCell t v := by
  cases cell with
  | field n => exact elementAt?_of_forall₂ hΓ.fields hv
  | own n => exact elementAt?_of_forall₂ hΓ.locals hv

/-- What follows the same computation may be related case by case. -/
theorem rel_bind {α β γ : Type} {R : β → γ → Prop} (x : Option α) {f : α → Option β}
    {g : α → Option γ} (h : ∀ a, Option.Rel R (f a) (g a)) :
    Option.Rel R (x.bind f) (x.bind g) := by
  cases x with
  | none => exact .none
  | some a => exact h a

theorem foldlM_singleton {α β : Type} (f : β → α → Option β) (b : β) (a : α) :
    [a].foldlM f b = f b a := by
  simp

/-- Ids of values that are no pointers hold the data of their slots. -/
theorem exists_mapM_data {S : Type} {A : ScalarOps S} {Γ : Scope} {M : Machine S} {ids : List Id}
    {ks : List Key} {slots : List (Slot S)} (hids : List.Forall₂ w.Value ids ks)
    (hks : ∀ u ∈ ks.map Key.type, ∀ elem, u ≠ .pointer elem)
    (h : List.Forall₂ (Holds A w Γ M) ids slots) :
    ∃ ds, slots.mapM Slot.data? = some ds ∧ ids.mapM (w.toModule.data? A M) = some ds := by
  induction hids generalizing slots with
  | nil =>
    cases h
    exact ⟨[], rfl, rfl⟩
  | cons hx _ ih =>
    obtain ⟨hk, hks⟩ := List.forall_mem_cons.mp hks
    obtain ⟨slot, rest, hslot, hrest, rfl⟩ := List.forall₂_cons_left_iff.mp h
    obtain ⟨ds, hds, hds'⟩ := ih hks hrest
    obtain ⟨t, d, rfl, -, -, hd⟩ := hslot.exists_value hx hk
    exact ⟨d :: ds, by simp [Slot.data?, hds], by simp [Module.data?, hd, Operand.data?, hds']⟩

/-- A composite is made as the type that it is emitted with says. -/
theorem make?_eq {S : Type} (hw : w.Consistent N) (hwrap : w.NoWrap) {t : Ty} {T : Id}
    (ht : t.PointerFree) (hT : w.typeOf? (.value t) = some T) (ds : List (Data S)) :
    t.make? ds =
      if w.toModule.DefinedBy T .typeVector then Data.joined? ds else some (.composite ds) := by
  have hiff := definedBy_typeVector_iff hw hwrap ht.ne_pointer hT
  by_cases hvector : ∃ count, t = .vector count
  · rw [if_pos (hiff.mpr hvector)]
    obtain ⟨count, rfl⟩ := hvector
    rfl
  · rw [if_neg fun h => hvector (hiff.mp h)]
    cases t with
    | vector count => exact absurd ⟨count, rfl⟩ hvector
    | _ => rfl

end Emitter

/-- A function is applied to each component. -/
theorem ScalarOps.math?_eq {S : Type} (A : ScalarOps S) {t : Ty} (ht : t.MathOperand)
    (f : MathFunction) (d : Data S) :
    A.math? f d t = (A.mathFunction? t.width f).bind fun g => d.map? g := by
  cases ht <;> rfl

theorem Ty.MathOperand.arithmetic {t : Ty} (h : t.MathOperand) : t.Arithmetic := by
  cases h with
  | float width => exact .float width
  | vector count => exact .vector count

/-- Operators are emitted for values, not for pointers. -/
theorem BinaryOperator.Resolves.ne_pointer {op : BinaryOperator} {left right t : Ty} {c : Opcode}
    {swap : Bool} (h : op.Resolves left right c t swap) :
    (∀ elem, left ≠ .pointer elem) ∧ ∀ elem, right ≠ .pointer elem := by
  cases h with
  | product _ h => cases Ty.product_of_product? h <;> exact ⟨nofun, nofun⟩
  | uniform _ hsame hkind _ =>
    have hleft : ∀ elem, left ≠ .pointer elem := by
      cases BinaryOperator.arithmetic_of_ok hkind <;> nofun
    exact ⟨hleft, Ty.ne_pointer_of_same hsame hleft⟩

namespace Emitter

variable {S : Type} {A : ScalarOps S} {N : String → Prop} {w : Emitter} {Γ : Scope} {C : Context}
  {start : Memory S} {ids : List Id} {slots : List (Slot S)} {σ : Store S} {M : Machine S}

theorem Simulates.exists_cons {x : Id} (h : Simulates A w Γ start (x :: ids) slots σ M) :
    ∃ slot rest, slots = slot :: rest ∧ Holds A w Γ M x slot ∧
      Simulates A w Γ start ids rest σ M := by
  obtain ⟨slot, rest, hslot, hrest, rfl⟩ := List.forall₂_cons_left_iff.mp h.stack
  exact ⟨slot, rest, rfl, hslot, hrest, h.store, h.frame⟩

/-- A pointer reads the same from the memory as from the store. -/
theorem Simulates.load? (h : Simulates A w Γ start ids slots σ M) {cell : Cell} {v : Variable}
    (hv : Γ.root? cell = some v) (path : List Word) :
    σ.load? cell path = (M.memory v.id).at? path := by
  rw [Store.load?, h.store, Scope.read?_store, hv]
  rfl

/-- A slot for each variable in scope. -/
theorem Realizes.holds (hΓ : w.Realizes Γ C) (cell : Cell) {v : Variable}
    (hv : Γ.root? cell = some v) :
    ∃ t, C.type? cell = some t ∧ Holds A w Γ M v.id (.pointer t cell []) := by
  obtain ⟨t, ht, hcell⟩ := hΓ.isCell cell hv
  exact ⟨t, ht, .pointer hcell.value hcell.key hcell.free hv (if_pos hcell.var)⟩

/-- A constant holds its value. -/
theorem Constant.holds (hw : w.Consistent N) (hwrap : w.NoWrap) {id : Id} {t : Ty} {word : Word}
    (h : w.Constant id t word) {s : S}
    (ht : t = .uint32 ∧ s = A.uint word ∨ t = .float32 ∧ s = A.float word) :
    Holds A w Γ M id (.value t (.scalar s)) := by
  obtain ⟨T, hT, hdef⟩ := defining?_constant hw hwrap h
  have hliteral : w.toModule.literal? id = some word := by
    simp [Module.literal?, Module.definedBy_iff hdef, hdef]
  have htype : w.toModule.typeOf? id = some T := by
    rw [Module.typeOf?, hdef]
    rfl
  have hconstant : w.toModule.constant? A id = some (.scalar s) := by
    rcases ht with ⟨rfl, rfl⟩ | ⟨rfl, rfl⟩
    · have hint := defining?_int hw hwrap hT
      simp [Module.constant?, htype, hliteral, Module.definedBy_iff hint]
    · have hfloat := defining?_float hw hwrap hT
      simp +decide [Module.constant?, htype, hliteral, Module.definedBy_iff hfloat]
  refine .value h.value ?_ ?_ ?_
  · rcases ht with ⟨rfl, -⟩ | ⟨rfl, -⟩ <;> rfl
  · rcases ht with ⟨rfl, -⟩ | ⟨rfl, -⟩ <;> trivial
  · simp +decide [Module.operand?, Module.definedBy_iff hdef, hconstant]

section

variable (hw : w.Consistent N) (hwrap : w.NoWrap)

include hw hwrap

/-- Both sides compute a value, or neither does. -/
theorem Simulates.evaluates (h : Simulates A w Γ start ids slots σ M) (x : Option (Data S))
    {c : Opcode} {operands : List Word} {id : Id} {k : Key} {t : Ty}
    (hi : w.Has .functions ⟨c, operands⟩) (hresult : (Instruction.mk c operands).resultId = some id)
    (hopcode : c ∉ [Opcode.var, .constant]) (hfresh : id ∉ ids) (hid : w.Value id k)
    (hk : k.type = t.underlying) (ht : t.PointerFree) :
    Option.Rel (fun next M' => Simulates A w Γ start (id :: ids) next.1 next.2 M')
      (x.bind fun d => some (.value t d :: slots, σ))
      (x.bind fun d => some (M.assign id (.data d))) :=
  rel_bind x fun _ =>
    .some (h.push hw hwrap hi hresult hopcode hfresh fun ho => .value hid hk ht ho)

/-- Narrowing a vector is emitted as four instructions: three components and a vector of them. -/
theorem Simulates.narrowVec4 (h : Simulates A w Γ start ids slots σ M) {v x y z id F T : Id}
    {t : Ty} {d : Data S} (hv : w.toModule.operand? A M v = some (.data d))
    {code : List Instruction}
    (heq : code = [⟨.compositeExtract, [F, x, v, 0]⟩, ⟨.compositeExtract, [F, y, v, 1]⟩,
      ⟨.compositeExtract, [F, z, v, 2]⟩, ⟨.compositeConstruct, [T, id, x, y, z]⟩])
    (hcode : ∀ i ∈ code, w.Has .functions i) (hfresh : ∀ r ∈ [x, y, z, id], r ∉ v :: ids)
    (hnodup : [x, y, z, id].Nodup) (hid : w.ValueOf id T (.value .vec3)) :
    Option.Rel (fun next M' => Simulates A w Γ start (id :: ids) next.1 next.2 M')
      (C.step? A σ .narrowVec4 (.value t d :: slots)) (code.foldlM (w.toModule.exec? A) M) := by
  subst heq
  simp only [List.forall_mem_cons] at hcode hfresh
  simp only [List.mem_cons, not_or] at hfresh
  obtain ⟨hx, hy, hz, hi, -⟩ := hcode
  obtain ⟨⟨hxv, hxids⟩, ⟨hyv, hyids⟩, ⟨hzv, hzids⟩, ⟨-, hids⟩, -⟩ := hfresh
  simp only [List.nodup_cons, List.mem_cons, List.not_mem_nil, or_false, not_or] at hnodup
  obtain ⟨⟨hxy, hxz, -⟩, ⟨hyz, -⟩, -⟩ := hnodup
  have hself : ∀ {M : Machine S} {r : Id} {operands : List Word} (o : Operand S),
      w.Has .functions ⟨.compositeExtract, F :: r :: operands⟩ →
      w.toModule.operand? A (M.assign r o) r = some o := by
    intro M r operands o hr
    exact Module.operand?_assign_self (hr.defining? hw.filled hwrap rfl) (by decide) o
  show Option.Rel _ ((d.at? [0]).bind fun x => (d.at? [1]).bind fun y => (d.at? [2]).bind fun z =>
    (Data.joined? [x, y, z]).bind fun d => some (.value .vec3 d :: slots, σ)) _
  simp only [List.foldlM_cons, List.foldlM_nil, Option.bind_eq_bind]
  rw [Module.exec?_compositeExtract hv, Option.bind_assoc]
  refine rel_bind _ fun a => ?_
  rw [Option.bind_some, Module.exec?_compositeExtract (d := d), Option.bind_assoc]
  · refine rel_bind _ fun b => ?_
    rw [Option.bind_some, Module.exec?_compositeExtract (d := d), Option.bind_assoc]
    · refine rel_bind _ fun c => ?_
      -- The three results differ from one another and from the vector, so all of them are still
      -- there.
      have hparts : [x, y, z].mapM (w.toModule.data? A
          (((M.assign x (.data a)).assign y (.data b)).assign z (.data c))) = some [a, b, c] := by
        simp [Module.data?, Module.operand?_assign_of_ne hxz, Module.operand?_assign_of_ne hxy,
          Module.operand?_assign_of_ne hyz, hself _ hx, hself _ hy, hself _ hz, Operand.data?]
      obtain ⟨F', hdef, -⟩ := defining?_vector hw hwrap hid.1
      rw [Option.bind_some, Module.exec?_compositeConstruct hparts,
        if_pos ((Module.definedBy_iff hdef).mpr rfl), Option.bind_assoc]
      exact (((h.assign hxids _).assign hyids _).assign hzids _).evaluates hw hwrap _ hi rfl
        (by decide) hids hid.2 rfl trivial
    · rwa [Module.operand?_assign_of_ne (Ne.symm hyv), Module.operand?_assign_of_ne (Ne.symm hxv)]
  · rwa [Module.operand?_assign_of_ne (Ne.symm hxv)]

omit hw hwrap in
/-- What is stored is a value. -/
theorem Stores.simulates (hΓ : w.Realizes Γ C) (h : Simulates A w Γ start ids slots σ M) {p x : Id}
    (hstore : w.Stores p x) {t : Ty} {cell : Cell} {path : List Word} {slot : Slot S}
    (hp : Holds A w Γ M p (.pointer t cell path)) (hx : Holds A w Γ M x slot) :
    ∃ u d, slot = .value u d ∧
      Option.Rel (fun next M' => Simulates A w Γ start ids next.1 next.2 M')
        ((σ.store? cell path d).bind fun σ => some (slots, σ))
        (w.toModule.exec? A M ⟨.store, [p, x]⟩) := by
  obtain ⟨k, kv, elem, hpk, hxk, hk, hsame⟩ := hstore
  cases hp with
  | pointer hpk' hk' ht hv hp =>
    rw [hpk.key_unique hpk', hk'] at hk
    cases hk
    have hfree := (Ty.pointerFree_underlying _).mpr ht
    obtain ⟨u, d, rfl, -, -, hx⟩ :=
      hx.exists_value hxk (Ty.ne_pointer_of_same hsame hfree.ne_pointer)
    exact ⟨u, d, rfl, h.storing hΓ.distinct hv hp hx⟩

/-- An operation and the instructions it emits take the same step. -/
theorem Emits.simulates (hΓ : w.Realizes Γ C) {op : Operation} {code : List Instruction}
    {ids' : List Id} (h : w.Emits Γ ids op code (.running ids'))
    (hop : ∀ t count, op = .construct t count → t.PointerFree)
    (hsim : Simulates A w Γ start ids slots σ M) (hcode : ∀ i ∈ code, w.Has .functions i)
    (hfresh : ∀ r ∈ code.filterMap Instruction.resultId, r ∉ ids)
    (hnodup : (code.filterMap Instruction.resultId).Nodup) :
    Option.Rel (fun next M' => Simulates A w Γ start ids' next.1 next.2 M')
      (C.step? A σ op slots) (code.foldlM (w.toModule.exec? A) M) := by
  cases h with
  | @loadField _ n v hv =>
    obtain ⟨t, ht, hholds⟩ := hΓ.holds (.field n) hv
    have ht : elementAt? C.fields n = some t := ht
    simp only [Context.step?.eq_def, ht]
    exact .some ⟨.cons hholds hsim.stack, hsim.store, hsim.frame⟩
  | @loadLocal _ n v hv =>
    obtain ⟨t, ht, hholds⟩ := hΓ.holds (.own n) hv
    have ht : elementAt? C.locals n = some t := ht
    simp only [Context.step?.eq_def, ht]
    exact .some ⟨.cons hholds hsim.stack, hsim.store, hsim.frame⟩
  | pushUint hconstant =>
    exact .some ⟨.cons (hconstant.holds hw hwrap (.inl ⟨rfl, rfl⟩)) hsim.stack, hsim.store,
      hsim.frame⟩
  | pushFloat hconstant =>
    exact .some ⟨.cons (hconstant.holds hw hwrap (.inr ⟨rfl, rfl⟩)) hsim.stack, hsim.store,
      hsim.frame⟩
  | dup =>
    obtain ⟨slot, rest, rfl, hslot, -⟩ := hsim.exists_cons
    exact .some ⟨.cons hslot hsim.stack, hsim.store, hsim.frame⟩
  | pop =>
    obtain ⟨slot, rest, rfl, -, hrest⟩ := hsim.exists_cons
    exact .some hrest
  | @storeField _ n v x hv hstore =>
    obtain ⟨slot, rest, rfl, hslot, hrest⟩ := hsim.exists_cons
    obtain ⟨t, -, hholds⟩ := hΓ.holds (.field n) hv
    obtain ⟨u, d, rfl, hrel⟩ := hstore.simulates hΓ hrest hholds hslot
    rwa [foldlM_singleton]
  | @storeLocal _ n v x hv hstore =>
    obtain ⟨slot, rest, rfl, hslot, hrest⟩ := hsim.exists_cons
    obtain ⟨t, -, hholds⟩ := hΓ.holds (.own n) hv
    obtain ⟨u, d, rfl, hrel⟩ := hstore.simulates hΓ hrest hholds hslot
    rwa [foldlM_singleton]
  | @store _ p x hstore =>
    obtain ⟨slot, _, rfl, hslot, htail⟩ := hsim.exists_cons
    obtain ⟨pointer, rest, rfl, hpointer, hrest⟩ := htail.exists_cons
    obtain ⟨k, -, elem, hpk, -, hk, -⟩ := id hstore
    obtain ⟨t, cell, v, path, rfl, -, -, -, -⟩ := hpointer.exists_pointer hpk hk
    obtain ⟨u, d, rfl, hrel⟩ := hstore.simulates hΓ hrest hpointer hslot
    rwa [foldlM_singleton]
  | @deref _ p id T k elem hp hk hid =>
    obtain ⟨slot, rest, rfl, hslot, hrest⟩ := hsim.exists_cons
    obtain ⟨t, cell, v, path, rfl, rfl, hfree, hv, hoperand⟩ := hslot.exists_pointer hp hk
    rw [foldlM_singleton, Module.exec?_load hoperand,
      ← hsim.load? hv path]
    refine hrest.evaluates hw hwrap _ (hcode _ List.mem_cons_self) rfl (by decide) ?_ hid.2 ?_ hfree
    · exact fun hmem => hfresh id List.mem_cons_self (List.mem_cons_of_mem _ hmem)
    · rw [Key.type_normalize_value ((Ty.pointerFree_underlying _).mpr hfree),
        Ty.underlying_underlying]
  | @extract _ i b id T k elem hb hpart hid =>
    obtain ⟨slot, rest, rfl, hslot, hrest⟩ := hsim.exists_cons
    obtain ⟨t, d, rfl, hi, hfree, hoperand⟩ := hslot.exists_composite hb hpart
    have hfree' := Ty.pointerFree_part? hfree hi
    rw [foldlM_singleton, Module.exec?_compositeExtract hoperand]
    simp only [Context.step?.eq_def, hi]
    refine hrest.evaluates hw hwrap _ (hcode _ List.mem_cons_self) rfl (by decide) ?_ hid.2
      (Key.type_normalize_value hfree') hfree'
    exact fun hmem => hfresh id List.mem_cons_self (List.mem_cons_of_mem _ hmem)
  | @extract2 _ row col b id T k inner elem hb hrow hcol hid =>
    obtain ⟨slot, rest, rfl, hslot, hrest⟩ := hsim.exists_cons
    obtain ⟨t, d, rfl, hi, hfree, hoperand⟩ := hslot.exists_composite hb hrow
    have hj : inner.part? col = some elem := by
      rw [Ty.part?_eq_some_iff, hcol.underlying]
      exact hcol
    have hfree' := Ty.pointerFree_part? (Ty.pointerFree_part? hfree hi) hj
    rw [foldlM_singleton, Module.exec?_compositeExtract hoperand]
    simp only [Context.step?.eq_def, hi, hj, Option.bind_eq_bind, Option.bind_some]
    refine hrest.evaluates hw hwrap _ (hcode _ List.mem_cons_self) rfl (by decide) ?_ hid.2
      (Key.type_normalize_value hfree') hfree'
    exact fun hmem => hfresh id List.mem_cons_self (List.mem_cons_of_mem _ hmem)
  | @access _ i b id T index k elem member hb hk hpart hindex hid =>
    obtain ⟨slot, rest, rfl, hslot, hrest⟩ := hsim.exists_cons
    obtain ⟨t, cell, v, path, rfl, rfl, hfree, hv, hoperand⟩ := hslot.exists_pointer hb hk
    have hi : t.part? i = some member := Ty.part?_eq_some_iff.mpr hpart
    obtain ⟨L, -, hdef⟩ := defining?_constant hw hwrap hindex
    have hliteral : w.toModule.literal? index = some i := by
      simp [Module.literal?, Module.definedBy_iff hdef, hdef]
    rw [foldlM_singleton, Module.exec?_accessChain hoperand hliteral]
    simp only [Context.step?.eq_def, hi]
    refine .some (hrest.push hw hwrap (hcode _ List.mem_cons_self) rfl (by decide) ?_ fun ho =>
      .pointer hid.2 rfl (Ty.pointerFree_part? hfree hi) hv ho)
    exact fun hmem => hfresh id List.mem_cons_self (List.mem_cons_of_mem _ hmem)
  | @construct _ t count id T ks hcount hparts hcheck hid =>
    have hfree := hop t count rfl
    have htop := List.forall₂_reverse_iff.mpr (List.forall₂_take count.toNat hsim.stack)
    have hks := Ty.ne_pointer_of_checkParts hfree hcheck
    obtain ⟨ds, hds, hds'⟩ := exists_mapM_data hparts hks htop
    have hcount : 0 ≤ count ∧ count ≤ slots.length := by rwa [← hsim.stack.length_eq]
    have hrest : Simulates A w Γ start (ids.drop count.toNat) (slots.drop count.toNat) σ M :=
      ⟨List.forall₂_drop count.toNat hsim.stack, hsim.store, hsim.frame⟩
    rw [foldlM_singleton, Module.exec?_compositeConstruct hds', ← make?_eq hw hwrap hfree hid.1]
    simp only [Context.step?.eq_def, if_pos hcount, hds, Option.bind_eq_bind, Option.bind_some]
    refine hrest.evaluates hw hwrap _ (hcode _ List.mem_cons_self) rfl (by decide) ?_ hid.2
      (Key.type_normalize_value hfree) hfree
    exact fun hmem => hfresh id List.mem_cons_self (List.mem_of_mem_drop hmem)
  | @math _ f a id T set number k ha hnumber hk hset hT hid =>
    obtain ⟨slot, rest, rfl, hslot, hrest⟩ := hsim.exists_cons
    have hvalue : ∀ elem, k.type ≠ .pointer elem := by
      intro elem heq
      rw [heq] at hk
      cases hk
    obtain ⟨t, d, rfl, hkt, hfree, hoperand⟩ := hslot.exists_value ha hvalue
    have hwidth : w.toModule.width? T = some k.type.width := by
      refine width?_eq hw hwrap (.inl hk.arithmetic) ?_
      rw [← ha.eq_value hw hvalue, hT]
    have hlookup := A.lookup_extended hnumber k.type.width
    obtain ⟨g, hg⟩ := A.exists_mathFunction? hnumber k.type.width
    rw [foldlM_singleton, Module.exec?_extInst (hset.defining? hw.filled hwrap rfl) hwidth
      (hlookup.trans hg) hoperand]
    simp only [Context.step?.eq_def, ← hkt, A.math?_eq hk, hg, Option.bind_some]
    refine hrest.evaluates hw hwrap _ (hcode _ List.mem_cons_self) rfl (by decide) ?_ hid hkt hfree
    exact fun hmem => hfresh id List.mem_cons_self (List.mem_cons_of_mem _ hmem)
  | @narrowVec4 _ v x y z id F T hv hx hy hz hid =>
    obtain ⟨slot, rest, rfl, hslot, hrest⟩ := hsim.exists_cons
    obtain ⟨t, d, rfl, -, -, hoperand⟩ := hslot.exists_value hv (by rintro elem ⟨⟩)
    exact hrest.narrowVec4 hw hwrap hoperand rfl hcode hfresh hnodup hid
  | @binary _ op l r id T kl kr c t swap hl hr hresolves hid =>
    obtain ⟨slot, _, rfl, hslot, htail⟩ := hsim.exists_cons
    obtain ⟨slot', rest, rfl, hslot', hrest⟩ := htail.exists_cons
    obtain ⟨hleft, hright⟩ := hresolves.ne_pointer
    obtain ⟨tr, dr, rfl, hkr, -, hoperand⟩ := hslot.exists_value hr hright
    obtain ⟨tl, dl, rfl, hkl, -, hoperand'⟩ := hslot'.exists_value hl hleft
    obtain ⟨g, hlookup, hoperate⟩ := A.exists_instruction hresolves
    have hwidth := width?_eq hw hwrap hresolves.numeric hid.1
    have hc := hresolves.opcode_mem
    have hresult : (Instruction.mk c (if swap then [T, id, r, l] else [T, id, l, r])).resultId =
        some id := resultId_arithmetic hc swap
    -- Whether the instruction has its operands swapped is what the operation itself does.
    have hexec : w.toModule.exec? A M ⟨c, if swap then [T, id, r, l] else [T, id, l, r]⟩ =
        (if swap then g dr dl else g dl dr).bind fun d => some (M.assign id (.data d)) := by
      cases swap with
      | false => exact Module.exec?_arithmetic hc hwidth hlookup hoperand' hoperand
      | true => exact Module.exec?_arithmetic hc hwidth hlookup hoperand hoperand'
    have hdispatch : ∀ c ∈ Opcode.arithmetic, c ∉ [Opcode.var, .constant] := by decide
    rw [foldlM_singleton, hexec]
    simp only [Context.step?.eq_def, ← hkl, ← hkr, hoperate, Option.bind_eq_bind, Option.bind_map,
      Function.comp_def]
    refine hrest.evaluates hw hwrap _ (hcode _ List.mem_cons_self) hresult (hdispatch c hc) ?_ hid.2
      (Key.type_normalize_value hresolves.pointerFree) hresolves.pointerFree
    intro hmem
    refine hfresh id ?_ (List.mem_cons_of_mem _ (List.mem_cons_of_mem _ hmem))
    exact List.mem_filterMap.mpr ⟨_, List.mem_cons_self, hresult⟩

end

end Emitter

end ShaderStage

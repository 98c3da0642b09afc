import ShaderStage.Proofs.Definitions

/-! # Typing of compiled modules

Typing rules for the instructions of a module, with every type read off the module itself. A
compiled module obeys them: what was checked on the types of the program holds of the emitted
types.

* `Module.Typed`: the typing rules of instructions;
* `wellTyped_of_compile`: a compiled module obeys them. -/

namespace ShaderStage

/-! ## Typing rules -/

namespace Module

/-- A float type or a type of vectors of floats. -/
inductive FloatLike (m : Module) : Id → Prop
  | scalar {F : Id} {width : Word} (h : m.defining? F = some ⟨.typeFloat, [F, width]⟩) :
      FloatLike m F
  | vector {T F : Id} {count width : Word}
      (h : m.defining? T = some ⟨.typeVector, [T, F, count]⟩)
      (hF : m.defining? F = some ⟨.typeFloat, [F, width]⟩) : FloatLike m T

/-- A constituent of a vector of components of type `F`, and how many of them it contributes. -/
inductive Spans (m : Module) (F : Id) : Id → Nat → Prop
  | scalar {x : Id} (h : m.typeOf? x = some F) : Spans m F x 1
  | vector {x V : Id} {count : Word} (h : m.typeOf? x = some V)
      (hV : m.defining? V = some ⟨.typeVector, [V, F, count]⟩) : Spans m F x count.toNat

/-- The constituents make a composite of a type: one for each component, or, for a vector of 32-bit
floats, scalars and vectors whose components add up. -/
inductive Constructs (m : Module) (T : Id) : List Id → Prop
  | vector {F : Id} {count : Word} {parts : List Id} {counts : List Nat}
      (hT : m.defining? T = some ⟨.typeVector, [T, F, count]⟩)
      (hF : m.defining? F = some ⟨.typeFloat, [F, 32]⟩)
      (hparts : List.Forall₂ (m.Spans F) parts counts) (hsum : counts.sum = count.toNat) :
      Constructs m T parts
  | components {types parts : List Id} (hT : m.Components T types)
      (hparts : List.Forall₂ (fun part U => m.typeOf? part = some U) parts types) :
      Constructs m T parts

/-- The opcodes that the rules are about. -/
def checked : List Opcode :=
  [.var, .load, .store, .accessChain, .compositeExtract, .compositeConstruct, .extInst, .function,
   .ret, .returnValue] ++ Opcode.arithmetic

/-- The instruction is well typed in a function with the result type `R`. -/
inductive Typed (m : Module) (R : Option Id) : Instruction → Prop
  | var {P T id : Id} {storage : Word}
      (hP : m.defining? P = some ⟨.typePointer, [P, storage, T]⟩) :
      Typed m R ⟨.var, [P, id, storage]⟩
  | load {P T id p : Id} {storage : Word} (hp : m.typeOf? p = some P)
      (hP : m.defining? P = some ⟨.typePointer, [P, storage, T]⟩) : Typed m R ⟨.load, [T, id, p]⟩
  | store {P T p v : Id} {storage : Word} (hp : m.typeOf? p = some P)
      (hP : m.defining? P = some ⟨.typePointer, [P, storage, T]⟩) (hv : m.typeOf? v = some T) :
      Typed m R ⟨.store, [p, v]⟩
  | accessChain {P T Q U L id b index : Id} {storage i : Word} (hb : m.typeOf? b = some P)
      (hP : m.defining? P = some ⟨.typePointer, [P, storage, T]⟩)
      (hindex : m.defining? index = some ⟨.constant, [L, index, i]⟩)
      (hL : m.defining? L = some ⟨.typeInt, [L, 32, 0]⟩) (hU : m.HasComponent T i U)
      (hQ : m.defining? Q = some ⟨.typePointer, [Q, storage, U]⟩) :
      Typed m R ⟨.accessChain, [Q, id, b, index]⟩
  | compositeExtract {T U id b : Id} {i : Word} {is : List Word} (hb : m.typeOf? b = some T)
      (hpath : m.Path T (i :: is) U) : Typed m R ⟨.compositeExtract, U :: id :: b :: i :: is⟩
  | compositeConstruct {T id : Id} {parts : List Id} (h : m.Constructs T parts) :
      Typed m R ⟨.compositeConstruct, T :: id :: parts⟩
  | extInst {T id set a : Id} {number : Word}
      (hset : m.defining? set = some ⟨.extInstImport, set :: Literal.ofString mathSetName⟩)
      (hnumber : ∃ f : MathFunction, f.number = .ok number) (ha : m.typeOf? a = some T)
      (hT : m.FloatLike T) : Typed m R ⟨.extInst, [T, id, set, number, a]⟩
  | float {c : Opcode} {T id l r : Id} (hc : c ∈ [.fAdd, .fSub, .fMul, .fDiv])
      (hT : m.FloatLike T) (hl : m.typeOf? l = some T) (hr : m.typeOf? r = some T) :
      Typed m R ⟨c, [T, id, l, r]⟩
  | int {c : Opcode} {T id l r : Id} {width signed : Word} (hc : c ∈ [.iAdd, .iSub, .iMul])
      (hT : m.defining? T = some ⟨.typeInt, [T, width, signed]⟩) (hl : m.typeOf? l = some T)
      (hr : m.typeOf? r = some T) : Typed m R ⟨c, [T, id, l, r]⟩
  | division {T id l r : Id} {width signed : Word}
      (hT : m.defining? T = some ⟨.typeInt, [T, width, signed]⟩) (hl : m.typeOf? l = some T)
      (hr : m.typeOf? r = some T) :
      Typed m R ⟨if signed = 0 then .uDiv else .sDiv, [T, id, l, r]⟩
  | vectorTimesScalar {T F id v x : Id} {count : Word}
      (hT : m.defining? T = some ⟨.typeVector, [T, F, count]⟩) (hv : m.typeOf? v = some T)
      (hx : m.typeOf? x = some F) : Typed m R ⟨.vectorTimesScalar, [T, id, v, x]⟩
  | matrixTimesScalar {T C F id a x : Id} {columns rows : Word}
      (hT : m.defining? T = some ⟨.typeMatrix, [T, C, columns]⟩)
      (hC : m.defining? C = some ⟨.typeVector, [C, F, rows]⟩) (ha : m.typeOf? a = some T)
      (hx : m.typeOf? x = some F) : Typed m R ⟨.matrixTimesScalar, [T, id, a, x]⟩
  | vectorTimesMatrix {T M C F id v a : Id} {columns rows : Word}
      (hM : m.defining? M = some ⟨.typeMatrix, [M, C, columns]⟩)
      (hC : m.defining? C = some ⟨.typeVector, [C, F, rows]⟩)
      (hT : m.defining? T = some ⟨.typeVector, [T, F, columns]⟩) (hv : m.typeOf? v = some C)
      (ha : m.typeOf? a = some M) : Typed m R ⟨.vectorTimesMatrix, [T, id, v, a]⟩
  | matrixTimesVector {T M V F id a v : Id} {columns rows : Word}
      (hM : m.defining? M = some ⟨.typeMatrix, [M, T, columns]⟩)
      (hT : m.defining? T = some ⟨.typeVector, [T, F, rows]⟩)
      (hV : m.defining? V = some ⟨.typeVector, [V, F, columns]⟩) (ha : m.typeOf? a = some M)
      (hv : m.typeOf? v = some V) : Typed m R ⟨.matrixTimesVector, [T, id, a, v]⟩
  | matrixTimesMatrix {T C F id a b : Id} {count : Word}
      (hT : m.defining? T = some ⟨.typeMatrix, [T, C, count]⟩)
      (hC : m.defining? C = some ⟨.typeVector, [C, F, count]⟩) (ha : m.typeOf? a = some T)
      (hb : m.typeOf? b = some T) : Typed m R ⟨.matrixTimesMatrix, [T, id, a, b]⟩
  | function {T F id : Id} {control : Word}
      (hF : m.defining? F = some ⟨.typeFunction, [F, T]⟩) :
      Typed m R ⟨.function, [T, id, control, F]⟩
  | ret {V : Id} (hR : R = some V) (hV : m.defining? V = some ⟨.typeVoid, [V]⟩) :
      Typed m R ⟨.ret, []⟩
  | returnValue {V v : Id} (hR : R = some V) (hv : m.typeOf? v = some V) :
      Typed m R ⟨.returnValue, [v]⟩
  | other {i : Instruction} (h : i.opcode ∉ checked) : Typed m R i

/-- The instructions are well typed, one after the other, in a function with the result type `R`;
the start of a function sets the result type for what follows it. -/
def TypedFrom (m : Module) : Option Id → List Instruction → Prop
  | _, [] => True
  | R, i :: is => m.Typed R i ∧ m.TypedFrom (if i.opcode = .function then i.resultType else R) is

/-- Every instruction is well typed. -/
def WellTyped (m : Module) : Prop :=
  m.TypedFrom none m.instructions

/-- Instructions that start no function are typed in the one they stand in. -/
theorem TypedFrom.append {m : Module} {R : Option Id} {is js : List Instruction}
    (his : ∀ i ∈ is, i.opcode ≠ .function ∧ m.Typed R i) (hjs : m.TypedFrom R js) :
    m.TypedFrom R (is ++ js) := by
  induction is with
  | nil => exact hjs
  | cons i is ih =>
    obtain ⟨⟨hne, hi⟩, his⟩ := List.forall_mem_cons.mp his
    refine ⟨hi, ?_⟩
    rw [if_neg hne]
    exact ih his

end Module

/-! ## Pointers and images -/

/-- A type with a size is no image. -/
theorem Ty.isOpaque_of_sized : ∀ {t : Ty}, t.Sized → t.isOpaque = false
  | .array elem _, h => isOpaque_of_sized (t := elem) h
  | .bool, _ | .int _, _ | .char, _ | .enum _ _, _ | .float _, _ | .vector _, _ | .matrix4, _
  | .struct _ _, _ => rfl

/-- The members of a supported structure type have sizes. -/
theorem Members.sized_type? {members : Members} (h : members.Supported) {i : Nat} {t : Ty}
    (ht : members.type? i = some t) : t.Sized := by
  induction members, i using type?.induct with
  | case1 i => cases ht
  | case2 name type rest =>
    cases ht
    exact h.2.1
  | case3 name type rest i ih => exact ih h.2.2 ht

/-- Only arrays of images have images for parts. -/
theorem Ty.HasPart.isOpaque {t u : Ty} {i : UInt32} (h : t.HasPart i u) (ht : t.Supported)
    (hu : u.isOpaque = true) : t.isOpaque = true := by
  cases h with
  | vector | matrix4 => cases hu
  | array => exact hu
  | struct hi =>
    rw [Ty.isOpaque_of_sized (Members.sized_type? ht hi)] at hu
    cases hu

/-- A pointer into what a pointer points to is in the same storage class. -/
theorem Key.storage_normalize_part {k : Key} (hk : k.normalize = k) {elem member : Ty}
    (htype : k.type = .pointer elem) (helem : elem.Supported) {i : UInt32}
    (hpart : elem.HasPart i member) :
    (Key.pointer member k.storage).normalize.storage = k.storage := by
  show (if member.isOpaque then .uniformConstant else k.storage) = k.storage
  by_cases himage : member.isOpaque = true
  · rw [if_pos himage]
    have hstorage : k.normalize.storage = .uniformConstant := by
      obtain ⟨type, storage⟩ := k
      cases htype
      rw [Key.normalize_pointer, hpart.isOpaque helem himage]
      rfl
    rw [← hk, hstorage]
  · rw [if_neg himage]

/-! ## Instructions -/

namespace Emitter

variable {N : String → Prop} {w : Emitter}

/-- A value is a plain one: no pointer, or a pointer to what is none. -/
def PlainValue (w : Emitter) (id : Id) : Prop :=
  ∃ k, w.Value id k ∧ k.Plain

/-- A value is plain whichever key it is looked up under. -/
theorem PlainValue.plain {id : Id} (h : w.PlainValue id) {k : Key} (hk : w.Value id k) :
    k.Plain := by
  obtain ⟨k', hk', hplain⟩ := h
  rwa [hk.key_unique hk']

section

variable (hw : w.Consistent N) (hwrap : w.NoWrap)

include hw hwrap

/-- The module gives a value the type of its key. -/
theorem Value.operand {x : Id} {k : Key} (hx : w.Value x k) (hk : ∀ elem, k.type ≠ .pointer elem) :
    w.toModule.typeOf? x = w.typeOf? (.value k.type) := by
  rw [hx.typeOf? hw.filled hwrap, hx.eq_value hw hk]
  rfl

/-- An operand that is no pointer has a type. -/
theorem Value.exists_type {x : Id} {k : Key} (hx : w.Value x k)
    (hk : ∀ elem, k.type ≠ .pointer elem) :
    ∃ T, w.toModule.typeOf? x = some T ∧ w.typeOf? (.value k.type) = some T := by
  obtain ⟨T, -, -, hT, -⟩ := hx.typed
  rw [hx.eq_value hw hk] at hT
  exact ⟨T, (hx.operand hw hwrap hk).trans hT, hT⟩

/-- A value with parts has the type of its key in the module. -/
theorem Value.composite {b : Id} {k : Key} (hb : w.Value b k) {i : UInt32} {u : Ty}
    (hpart : k.type.HasPart i u) :
    ∃ T, w.toModule.typeOf? b = some T ∧ w.typeOf? (.value k.type) = some T := by
  refine hb.exists_type hw hwrap fun elem hk => ?_
  rw [hk] at hpart
  cases hpart

/-- The module knows what a value points to, and in which storage. -/
theorem Value.pointee (hN : Clean N) {p : Id} {k : Key} (hp : w.Value p k) {elem : Ty}
    (hk : k.type = .pointer elem) (helem : elem.PointerFree) :
    ∃ P T, w.toModule.typeOf? p = some P ∧
      w.toModule.defining? P = some ⟨.typePointer, [P, k.storage, T]⟩ ∧
      w.typeOf? (.value elem) = some T := by
  obtain ⟨P, -, -, hP, -⟩ := hp.typed
  obtain ⟨T, hdefines, hT⟩ := defining?_pointee hw hN hwrap hk (hp.normal hw) (hp.named hw) helem hP
  exact ⟨P, T, (hp.typeOf? hw.filled hwrap).trans hP, hdefines, hT⟩

/-- Functions are applied to what the module calls floats or vectors of them. -/
theorem floatLike_of_mathOperand {t : Ty} (ht : t.MathOperand) {T : Id}
    (hT : w.typeOf? (.value t) = some T) : w.toModule.FloatLike T := by
  cases ht with
  | float width => exact .scalar (defining?_float hw hwrap hT)
  | vector count =>
    obtain ⟨F, hdefines, hF⟩ := defining?_vector hw hwrap hT
    exact .vector hdefines (defining?_float hw hwrap hF)

/-- The parts of a vector span its components. -/
theorem spans_of_spans {F : Id} (hF : w.typeOf? (.value .float32) = some F) {x : Id} {k : Key}
    (hx : w.Value x k) {n : Nat} (h : k.type.Spans n) : w.toModule.Spans F x n := by
  obtain ⟨T, hxT, hT⟩ :
      ∃ T, w.toModule.typeOf? x = some T ∧ w.typeOf? (.value k.type) = some T := by
    refine hx.exists_type hw hwrap fun elem hk => ?_
    rw [hk] at h
    cases h
  generalize k.type = t at h hT
  cases h with
  | scalar =>
    cases hF.symm.trans hT
    exact .scalar hxT
  | vector count =>
    obtain ⟨F', hdefines, hF'⟩ := defining?_vector hw hwrap hT
    cases hF.symm.trans hF'
    have hspans := Module.Spans.vector hxT hdefines
    rwa [UInt8.toNat_toUInt32] at hspans

end

section

variable (hw : w.Consistent N) (hN : Clean N) (hwrap : w.NoWrap) {R : Option Id}

include hw hN hwrap

/-- A store is typed: the value has the type that the pointer points to. -/
theorem typed_store {p x : Id} (hp : w.PlainValue p) (h : w.Stores p x) :
    w.toModule.Typed R ⟨.store, [p, x]⟩ := by
  obtain ⟨k, kx, elem, hpk, hx, hk, hsame⟩ := h
  have helem := (hp.plain hpk).pointee hk
  obtain ⟨P, T, hP, hdefines, hT⟩ := hpk.pointee hw hwrap hN hk helem
  refine .store hP hdefines ?_
  rw [hx.operand hw hwrap (Ty.ne_pointer_of_same hsame helem.ne_pointer),
    ← typeOf?_eq_of_same helem.ne_pointer hsame, hT]

/-- A load is typed: the result has the type that the pointer points to. -/
theorem typed_load {p id T : Id} {k : Key} {elem : Ty} (hp : w.PlainValue p) (hpk : w.Value p k)
    (hk : k.type = .pointer elem) (hT : w.typeOf? (.value elem) = some T) :
    w.toModule.Typed R ⟨.load, [T, id, p]⟩ := by
  obtain ⟨P, T', hP, hdefines, hT'⟩ := hpk.pointee hw hwrap hN hk ((hp.plain hpk).pointee hk)
  rw [hT] at hT'
  cases hT'
  exact .load hP hdefines

/-- The type of a part of a type is a component of its type. -/
theorem hasComponent_of_hasPart {t u : Ty} (ht : t.Named N) {T : Id}
    (hT : w.typeOf? (.value t) = some T) {i : UInt32} (h : t.HasPart i u) :
    ∃ U, w.toModule.HasComponent T i U ∧ w.typeOf? (.value u) = some U := by
  have hcomposite : t.partCount? ≠ none ∨ ∃ count, t = .vector count := by
    cases h with
    | vector => exact .inr ⟨_, rfl⟩
    | matrix4 | array | struct => exact .inl nofun
  obtain ⟨types, hcomponents, -, hparts⟩ := exists_components hw hN hwrap ht hT hcomposite
  obtain ⟨U, hU, hu⟩ := hparts i u h
  exact ⟨U, ⟨types, hcomponents, hU⟩, hu⟩

/-- Taking a part is typed: the result has the type of the part. -/
theorem typed_extract {b id : Id} {k : Key} (hb : w.Value b k) {i : UInt32} {elem : Ty}
    (hpart : k.type.HasPart i elem) {T : Id} (hT : w.typeOf? (.value elem) = some T) :
    w.toModule.Typed R ⟨.compositeExtract, [T, id, b, i]⟩ := by
  obtain ⟨B, hbB, hB⟩ := hb.composite hw hwrap hpart
  obtain ⟨U, hU, hu⟩ := hasComponent_of_hasPart hw hN hwrap (hb.named hw) hB hpart
  rw [hT] at hu
  cases hu
  exact .compositeExtract hbB (.cons hU .nil)

/-- Taking a part of a part is typed. -/
theorem typed_extract2 {b id : Id} {k : Key} (hb : w.Value b k) {row col : UInt32}
    {inner elem : Ty} (hrow : k.type.HasPart row inner) (hcol : inner.HasPart col elem) {T : Id}
    (hT : w.typeOf? (.value elem) = some T) :
    w.toModule.Typed R ⟨.compositeExtract, [T, id, b, row, col]⟩ := by
  obtain ⟨B, hbB, hB⟩ := hb.composite hw hwrap hrow
  obtain ⟨U, hU, hu⟩ := hasComponent_of_hasPart hw hN hwrap (hb.named hw) hB hrow
  obtain ⟨V, hV, hv⟩ := hasComponent_of_hasPart hw hN hwrap (hrow.named (hb.named hw)) hu hcol
  rw [hT] at hv
  cases hv
  exact .compositeExtract hbB (.cons hU (.cons hV .nil))

/-- Computing a pointer to a part is typed, with its index a constant. -/
theorem typed_access {b id T index : Id} {k : Key} {elem member : Ty} {i : UInt32}
    (hb : w.PlainValue b) (hbk : w.Value b k) (hk : k.type = .pointer elem)
    (hpart : elem.HasPart i member) (hindex : w.Constant index .uint32 i)
    (hT : w.typeOf? (.pointer member k.storage) = some T) :
    w.toModule.Typed R ⟨.accessChain, [T, id, b, index]⟩ := by
  have helem := (hb.plain hbk).pointee hk
  have hnamed : elem.Named N := by
    have h := hbk.named hw
    rwa [hk] at h
  have hsupported : elem.Supported := by
    have h := hbk.supported hw hN
    rwa [hk] at h
  obtain ⟨P, E, hP, hdefines, hE⟩ := hbk.pointee hw hwrap hN hk helem
  obtain ⟨U, hU, hu⟩ := hasComponent_of_hasPart hw hN hwrap hnamed hE hpart
  obtain ⟨L, hL, hconstant⟩ := defining?_constant hw hwrap hindex
  have hT' : w.typeOf? (Key.pointer member k.storage).normalize = some T := by
    rwa [Emitter.typeOf?, Key.signature_normalize]
  have hmember : member.underlying.PointerFree :=
    (Ty.pointerFree_underlying member).mpr (hpart.pointerFree helem)
  obtain ⟨V, hV, hv⟩ := defining?_pointee hw hN hwrap rfl (Key.normalize_normalize _)
    ((Key.named_normalize _).mpr (hpart.named hnamed)) hmember hT'
  rw [Key.storage_normalize_part (hbk.normal hw) hk hsupported hpart] at hV
  rw [Key.value, typeOf?_underlying] at hv
  -- The member's type was found in two ways, and it has one id.
  cases hu.symm.trans hv
  exact .accessChain hP hdefines hconstant (defining?_int hw hwrap hL) hU hV

/-- The parts that a composite is built of are its constituents. The instruction that does it is
short enough to be written, so positions are words. -/
theorem constructs_of_built {t : Ty} (ht : t.Named N) (hpointers : t.PointerFree) {T : Id}
    (hT : w.typeOf? (.value t) = some T) {parts : List Id} {ks : List Key}
    (hparts : List.Forall₂ w.Value parts ks) (h : t.Built (ks.map Key.type))
    (hlength : parts.length ≤ 65535) : w.toModule.Constructs T parts := by
  cases h with
  | @vector count _ counts hspans hsum =>
    obtain ⟨F, hdefines, hF⟩ := defining?_vector hw hwrap hT
    refine .vector hdefines (defining?_float hw hwrap hF)
      (?_ : List.Forall₂ _ parts counts) (by rw [hsum, UInt8.toNat_toUInt32])
    clear hsum hlength
    induction hparts generalizing counts with
    | nil =>
      cases hspans
      exact .nil
    | cons hx _ ih =>
      cases hspans with
      | cons hspan hrest => exact .cons (spans_of_spans hw hwrap hF hx hspan) (ih hrest)
  | parts hcount hmembers =>
    have hcomposite : t.partCount? ≠ none := by
      rw [hcount]
      nofun
    obtain ⟨types, hcomponents, hsize, htypes⟩ :=
      exists_components hw hN hwrap ht hT (.inl hcomposite)
    refine .components hcomponents (List.forall₂_iff_get.mpr ⟨?_, ?_⟩)
    · rw [hsize _ hcount, List.length_map, hparts.length_eq]
    · intro i hi hi'
      have hi₂ : i < ks.length := hparts.length_eq ▸ hi
      have hx : w.Value (parts.get ⟨i, hi⟩) (ks.get ⟨i, hi₂⟩) := hparts.get hi hi₂
      obtain ⟨type, hpart, halike⟩ := hmembers i (ks.get ⟨i, hi₂⟩).type (by simp [hi₂])
      obtain ⟨U, hU, hu⟩ := htypes _ _ hpart
      -- An instruction has too few operands for a position among them to wrap.
      have hposition : (UInt32.ofNat i).toNat = i := by
        rw [UInt32.toNat_ofNat']
        omega
      rw [hposition, List.getElem?_eq_getElem hi'] at hU
      cases hU
      have hk : ∀ elem, (ks.get ⟨i, hi₂⟩).type ≠ .pointer elem :=
        halike.ne_pointer (hpart.pointerFree hpointers).ne_pointer
      rw [hx.operand hw hwrap hk, typeOf?_eq_of_alike halike]
      exact hu

end

section

variable (hw : w.Consistent N) (hwrap : w.NoWrap) {R : Option Id}

include hw hwrap

/-- A product is typed, by cases on the shapes of its operands. -/
theorem typed_product {left right t : Ty} {c : Opcode} {swap : Bool}
    (h : Ty.Product left right c t swap) {L Q T l r id : Id}
    (hl : w.toModule.typeOf? l = some L) (hr : w.toModule.typeOf? r = some Q)
    (hL : w.typeOf? (.value left) = some L) (hQ : w.typeOf? (.value right) = some Q)
    (hT : w.typeOf? (.value t) = some T) :
    w.toModule.Typed R ⟨c, if swap then [T, id, r, l] else [T, id, l, r]⟩ := by
  -- By the rule the product follows; operands of one type share its id.
  cases h with
  | matrixMatrix =>
    cases hT.symm.trans hL
    cases hT.symm.trans hQ
    obtain ⟨C, hdefines, hC⟩ := defining?_matrix4 hw hwrap hT
    obtain ⟨F, hC, -⟩ := defining?_vector hw hwrap hC
    exact .matrixTimesMatrix hdefines hC hl hr
  | matrixVector =>
    cases hT.symm.trans hQ
    obtain ⟨C, hdefines, hC⟩ := defining?_matrix4 hw hwrap hL
    cases hT.symm.trans hC
    obtain ⟨F, hC, -⟩ := defining?_vector hw hwrap hT
    exact .matrixTimesVector hdefines hC hC hl hr
  | vectorMatrix =>
    cases hT.symm.trans hL
    obtain ⟨C, hdefines, hC⟩ := defining?_matrix4 hw hwrap hQ
    cases hT.symm.trans hC
    obtain ⟨F, hC, -⟩ := defining?_vector hw hwrap hT
    exact .vectorTimesMatrix hdefines hC hC hl hr
  | matrixScalar =>
    cases hT.symm.trans hL
    obtain ⟨C, hdefines, hC⟩ := defining?_matrix4 hw hwrap hT
    obtain ⟨F, hC, hF⟩ := defining?_vector hw hwrap hC
    cases hQ.symm.trans hF
    exact .matrixTimesScalar hdefines hC hl hr
  | scalarMatrix =>
    cases hT.symm.trans hQ
    obtain ⟨C, hdefines, hC⟩ := defining?_matrix4 hw hwrap hT
    obtain ⟨F, hC, hF⟩ := defining?_vector hw hwrap hC
    cases hL.symm.trans hF
    exact .matrixTimesScalar hdefines hC hr hl
  | vectorScalar count =>
    cases hT.symm.trans hL
    obtain ⟨F, hdefines, hF⟩ := defining?_vector hw hwrap hT
    cases hQ.symm.trans hF
    exact .vectorTimesScalar hdefines hl hr
  | scalarVector count =>
    cases hT.symm.trans hQ
    obtain ⟨F, hdefines, hF⟩ := defining?_vector hw hwrap hT
    cases hL.symm.trans hF
    exact .vectorTimesScalar hdefines hr hl

/-- An operator on operands of one type is typed. -/
theorem typed_uniform {op : BinaryOperator} {t : Ty} {kind : Arithmetic} {c : Opcode}
    (hkind : op.arithmetic t = .ok kind) (hc : op.opcode kind = .ok c) {T l r id : Id}
    (hT : w.typeOf? (.value t) = some T) (hl : w.toModule.typeOf? l = some T)
    (hr : w.toModule.typeOf? r = some T) : w.toModule.Typed R ⟨c, [T, id, l, r]⟩ := by
  have hfloat : kind = .float → w.toModule.FloatLike T → w.toModule.Typed R ⟨c, [T, id, l, r]⟩ := by
    rintro rfl hlike
    refine .float ?_ hlike hl hr
    cases op <;> cases hc <;> decide
  cases t with
  | float width =>
    cases hkind
    exact hfloat rfl (.scalar (defining?_float hw hwrap hT))
  | vector count =>
    cases hkind
    obtain ⟨F, hdefines, hF⟩ := defining?_vector hw hwrap hT
    exact hfloat rfl (.vector hdefines (defining?_float hw hwrap hF))
  | int type =>
    cases hkind
    have hdefines := defining?_int hw hwrap hT
    have hint : c ∈ [.iAdd, .iSub, .iMul] → w.toModule.Typed R ⟨c, [T, id, l, r]⟩ :=
      fun h => .int h hdefines hl hr
    cases hsigned : type.signed with
    | false =>
      rw [hsigned] at hc hdefines
      cases op with
      | add | subtract | multiply =>
        cases hc
        exact hint (by decide)
      | divide =>
        cases hc
        exact .division hdefines hl hr
      | unknown code => cases hc
    | true =>
      rw [hsigned] at hc hdefines
      cases op with
      | add | subtract | multiply =>
        cases hc
        exact hint (by decide)
      | divide =>
        cases hc
        exact .division hdefines hl hr
      | unknown code => cases hc
  | _ => cases hkind

/-- A binary operation is typed, whichever way it is resolved. -/
theorem typed_binary {op : BinaryOperator} {l r id T : Id} {kl kr : Key} {c : Opcode} {t : Ty}
    {swap : Bool} (hl : w.Value l kl) (hr : w.Value r kr)
    (h : op.Resolves kl.type kr.type c t swap) (hT : w.typeOf? (.value t) = some T) :
    w.toModule.Typed R ⟨c, if swap then [T, id, r, l] else [T, id, l, r]⟩ := by
  have hl := hl.exists_type hw hwrap
  have hr := hr.exists_type hw hwrap
  generalize kl.type = left at h hl
  generalize kr.type = right at h hr
  cases h with
  | product hop h =>
    have hproduct := Ty.product_of_product? h
    -- No rule for products has a pointer in it.
    have hleft : ∀ elem, left ≠ .pointer elem := by
      rintro elem rfl
      cases hproduct
    have hright : ∀ elem, right ≠ .pointer elem := by
      rintro elem rfl
      cases hproduct
    obtain ⟨L, hlL, hL⟩ := hl hleft
    obtain ⟨Q, hrQ, hQ⟩ := hr hright
    exact typed_product hw hwrap hproduct hlL hrQ hL hQ hT
  | uniform _ hsame hkind hc =>
    have hleft : ∀ elem, t ≠ .pointer elem := by
      rintro elem rfl
      cases hkind
    obtain ⟨L, hlL, hL⟩ := hl hleft
    obtain ⟨Q, hrQ, hQ⟩ := hr (Ty.ne_pointer_of_same hsame hleft)
    rw [← typeOf?_eq_of_same hleft hsame] at hQ
    cases hT.symm.trans hL
    cases hT.symm.trans hQ
    exact typed_uniform hw hwrap hkind hc hT hlL hrQ

end

/-- The values on the stack and the variables in scope are plain. -/
structure PlainScope (w : Emitter) (Γ : Scope) (stack : List Id) : Prop where
  globals : ∀ v ∈ Γ.globals, w.PlainValue v.id
  locals : ∀ v ∈ Γ.locals, w.PlainValue v.id
  stack : ∀ id ∈ stack, w.PlainValue id

/-- Pushing a plain value keeps the stack plain. -/
theorem PlainScope.push {Γ : Scope} {stack rest : List Id} (h : w.PlainScope Γ stack)
    (hrest : ∀ x ∈ rest, x ∈ stack) {id : Id} (hid : w.PlainValue id) :
    w.PlainScope Γ (id :: rest) where
  globals := h.globals
  locals := h.locals
  stack := List.forall_mem_cons.mpr ⟨hid, fun x hx => h.stack x (hrest x hx)⟩

/-- Dropping values keeps the stack plain. -/
theorem PlainScope.drop {Γ : Scope} {stack rest : List Id} (h : w.PlainScope Γ stack)
    (hrest : ∀ x ∈ rest, x ∈ stack) : w.PlainScope Γ rest where
  globals := h.globals
  locals := h.locals
  stack x hx := h.stack x (hrest x hx)

/-- Operations leave plain values on the stack. -/
theorem Emits.plain {Γ : Scope} {stack stack' : List Id} {op : Operation} {code : List Instruction}
    (h : w.Emits Γ stack op code (.running stack')) (hplain : w.PlainScope Γ stack)
    (hop : ∀ t count, op = .construct t count → t.PointerFree) : w.PlainScope Γ stack' := by
  cases h with
  | loadField hv => exact hplain.push (fun _ h => h) (hplain.globals _ (mem_of_elementAt? hv))
  | loadLocal hv => exact hplain.push (fun _ h => h) (hplain.locals _ (mem_of_elementAt? hv))
  | storeField | storeLocal | pop => exact hplain.drop fun _ h => List.mem_cons_of_mem _ h
  | store => exact hplain.drop fun _ h => List.mem_cons_of_mem _ (List.mem_cons_of_mem _ h)
  | deref hp hk hid =>
    have hpointee := ((hplain.stack _ List.mem_cons_self).plain hp).pointee hk
    exact hplain.push (fun _ h => List.mem_cons_of_mem _ h) ⟨_, hid.2, Key.plain_value hpointee⟩
  | pushUint hid | pushFloat hid =>
    exact hplain.push (fun _ h => h) ⟨_, hid.value, .inl trivial⟩
  | extract hb hpart hid =>
    have hpart := ((hplain.stack _ List.mem_cons_self).plain hb).part hpart
    exact hplain.push (fun _ h => List.mem_cons_of_mem _ h) ⟨_, hid.2, Key.plain_value hpart⟩
  | extract2 hb hrow hcol hid =>
    have hpart := ((hplain.stack _ List.mem_cons_self).plain hb).part hrow
    exact hplain.push (fun _ h => List.mem_cons_of_mem _ h)
      ⟨_, hid.2, Key.plain_value (hcol.pointerFree hpart)⟩
  | access hb hk hpart hindex hid =>
    have hpointee := ((hplain.stack _ List.mem_cons_self).plain hb).pointee hk
    exact hplain.push (fun _ h => List.mem_cons_of_mem _ h)
      ⟨_, hid.2, Key.plain_pointer (hpart.pointerFree hpointee) _⟩
  | construct hcount hparts hcheck hid =>
    exact hplain.push (fun _ h => List.mem_of_mem_drop h)
      ⟨_, hid.2, Key.plain_value (hop _ _ rfl)⟩
  | math ha _ _ _ _ hid =>
    have hkey := (hplain.stack _ List.mem_cons_self).plain ha
    exact hplain.push (fun _ h => List.mem_cons_of_mem _ h) ⟨_, hid, hkey⟩
  | narrowVec4 _ _ _ _ hid =>
    exact hplain.push (fun _ h => List.mem_cons_of_mem _ h) ⟨_, hid.2, .inl trivial⟩
  | binary hl hr hresolves hid =>
    refine hplain.push (fun _ h => List.mem_cons_of_mem _ (List.mem_cons_of_mem _ h))
      ⟨_, hid.2, Key.plain_value ?_⟩
    exact hresolves.pointerFree
  | dup => exact hplain.push (fun _ h => h) (hplain.stack _ List.mem_cons_self)

/-- Operations emit well-typed instructions. -/
theorem Emits.typed (hw : w.Consistent N) (hN : Clean N) (hwrap : w.NoWrap) {Γ : Scope}
    {stack : List Id} {op : Operation} {code : List Instruction} {progress : Progress}
    (h : w.Emits Γ stack op code progress) (hplain : w.PlainScope Γ stack)
    (hop : ∀ t count, op = .construct t count → t.Named N ∧ t.PointerFree) {V : Id}
    (hV : w.typeOf? (.value Γ.method.result) = some V) (hresult : Γ.method.result.PointerFree)
    (hfits : ∀ i ∈ code, i.Fits) : ∀ i ∈ code, w.toModule.Typed (some V) i := by
  cases h with
  | loadField | loadLocal | pushUint | pushFloat | dup | pop => nofun
  | storeField hv hstore =>
    have hp := hplain.globals _ (mem_of_elementAt? hv)
    exact List.forall_mem_singleton.mpr (typed_store hw hN hwrap hp hstore)
  | storeLocal hv hstore =>
    have hp := hplain.locals _ (mem_of_elementAt? hv)
    exact List.forall_mem_singleton.mpr (typed_store hw hN hwrap hp hstore)
  | store hstore =>
    have hp := hplain.stack _ (List.mem_cons_of_mem _ List.mem_cons_self)
    exact List.forall_mem_singleton.mpr (typed_store hw hN hwrap hp hstore)
  | deref hp hk hid =>
    have hplain := hplain.stack _ List.mem_cons_self
    exact List.forall_mem_singleton.mpr (typed_load hw hN hwrap hplain hp hk hid.1)
  | extract hb hpart hid =>
    exact List.forall_mem_singleton.mpr (typed_extract hw hN hwrap hb hpart hid.1)
  | extract2 hb hrow hcol hid =>
    exact List.forall_mem_singleton.mpr (typed_extract2 hw hN hwrap hb hrow hcol hid.1)
  | access hb hk hpart hindex hid =>
    have hplain := hplain.stack _ List.mem_cons_self
    exact List.forall_mem_singleton.mpr
      (typed_access hw hN hwrap hplain hb hk hpart hindex hid.1)
  | @construct _ t count id T ks hcount hparts hcheck hid =>
    obtain ⟨hnamed, hpointers⟩ := hop t count rfl
    have hbuilt : t.Built (ks.map Key.type) := by
      refine (Ty.checkParts_eq_ok_iff (hnamed.mono hN) fun u hu => ?_).mp hcheck
      obtain ⟨k, hk, rfl⟩ := List.mem_map.mp hu
      exact (Scope.named_of_values hw hparts k hk).mono hN
    -- The instruction fits, which bounds the number of parts.
    have hlength : (stack.take count.toNat).reverse.length + 3 ≤ 65535 :=
      hfits _ List.mem_cons_self
    exact List.forall_mem_singleton.mpr (.compositeConstruct
      (constructs_of_built hw hN hwrap hnamed hpointers hid.1 hparts hbuilt (by omega)))
  | math ha hnumber hk hset hT hid =>
    have hset := hset.defining? hw.filled hwrap rfl
    obtain ⟨T', haT, hT'⟩ := ha.exists_type hw hwrap (by rintro elem h; rw [h] at hk; cases hk)
    cases hT.symm.trans ((ha.typeOf? hw.filled hwrap).symm.trans haT)
    exact List.forall_mem_singleton.mpr
      (.extInst hset ⟨_, hnumber⟩ haT (floatLike_of_mathOperand hw hwrap hk hT'))
  | narrowVec4 hv hx hy hz hid =>
    have hcomponent : ∀ i : UInt32, i < 4 → (Key.value .vec4).type.HasPart i .float32 :=
      fun i hi => .vector hi
    have hbuilt : Ty.vec3.Built
        ([Key.value .float32, .value .float32, .value .float32].map Key.type) :=
      .vector (.cons .scalar (.cons .scalar (.cons .scalar .nil))) rfl
    have hparts := List.Forall₂.cons hx.2 (.cons hy.2 (.cons hz.2 .nil))
    simp only [List.forall_mem_cons]
    exact ⟨typed_extract hw hN hwrap hv (hcomponent 0 (by decide)) hx.1,
      typed_extract hw hN hwrap hv (hcomponent 1 (by decide)) hy.1,
      typed_extract hw hN hwrap hv (hcomponent 2 (by decide)) hz.1,
      .compositeConstruct (constructs_of_built hw hN hwrap (t := .vec3) trivial trivial hid.1 hparts
        hbuilt (by simp)), nofun⟩
  | binary hl hr hresolves hid =>
    exact List.forall_mem_singleton.mpr (typed_binary hw hwrap hl hr hresolves hid.1)
  | ret hvoid =>
    exact List.forall_mem_singleton.mpr (.ret rfl (defining?_void hw hwrap hvoid hV))
  | retValue _ hx hsame =>
    rw [Ty.same_comm] at hsame
    refine List.forall_mem_singleton.mpr (.returnValue rfl ?_)
    rw [hx.operand hw hwrap (Ty.ne_pointer_of_same hsame hresult.ne_pointer),
      ← typeOf?_eq_of_same hresult.ne_pointer hsame, hV]

/-- Bodies emit well-typed instructions. -/
theorem EmitsAll.typed (hw : w.Consistent N) (hN : Clean N) (hwrap : w.NoWrap) {Γ : Scope}
    {stack : List Id} {ops : List Operation} {code : List Instruction} {progress : Progress}
    (h : w.EmitsAll Γ (.running stack) ops code progress) (hplain : w.PlainScope Γ stack)
    (hops : ∀ t count, .construct t count ∈ ops → t.Named N ∧ t.PointerFree) {V : Id}
    (hV : w.typeOf? (.value Γ.method.result) = some V) (hresult : Γ.method.result.PointerFree)
    (hfits : ∀ i ∈ code, i.Fits) : ∀ i ∈ code, w.toModule.Typed (some V) i := by
  generalize hstart : Progress.running stack = start at h
  induction h generalizing stack with
  | nil => nofun
  | @cons st op ops code code' progress progress' hop hrest ih =>
    cases hstart
    obtain ⟨hfits, hfits'⟩ := List.forall_mem_append.mp hfits
    have hconstruct : ∀ t count, op = .construct t count → t.Named N ∧ t.PointerFree := by
      rintro t count rfl
      exact hops t count List.mem_cons_self
    refine List.forall_mem_append.mpr
      ⟨hop.typed hw hN hwrap hplain hconstruct hV hresult hfits, ?_⟩
    cases progress with
    | returned =>
      -- Nothing follows a return.
      cases hrest
      nofun
    | running stack' =>
      have hplain' := hop.plain hplain fun t count h => (hconstruct t count h).2
      exact ih hplain' (fun t count h => hops t count (List.mem_cons_of_mem _ h)) hfits' rfl

/-! ## Functions -/

/-- The variables of locals are typed, and plain. -/
theorem DeclaresLocals.typed (hw : w.Consistent N) (hN : Clean N) (hwrap : w.NoWrap)
    {ls : List Local} {vs : List Variable} {code : List Instruction}
    (h : w.DeclaresLocals ls vs code) (hpointers : ∀ l ∈ ls, l.type.PointerFree) {R : Option Id} :
    (∀ i ∈ code, w.toModule.Typed R i) ∧ ∀ v ∈ vs, w.PlainValue v.id := by
  induction h with
  | nil => exact ⟨nofun, nofun⟩
  | @cons l ls v vs T code himage hkey hT hv _ ih =>
    obtain ⟨hl, hls⟩ := List.forall_mem_cons.mp hpointers
    obtain ⟨hcode, hvs⟩ := ih hls
    have hfree : l.type.underlying.PointerFree := (Ty.pointerFree_underlying _).mpr hl
    have htype : v.key.type = .pointer l.type.underlying := by rw [hkey]; rfl
    have hstorage : v.key.storage = .function := by
      rw [hkey, Key.pointer, Key.normalize_pointer, himage]
      rfl
    obtain ⟨U, hdefines, -⟩ :=
      defining?_pointer hw hN hwrap htype (hv.normal hw) (hv.named hw) hT
    rw [hstorage] at hdefines
    refine ⟨List.forall_mem_cons.mpr ⟨.var hdefines, hcode⟩,
      List.forall_mem_cons.mpr ⟨⟨_, hv, .inr ⟨_, htype, hfree⟩⟩, hvs⟩⟩

/-- A function is well typed, and so is what follows it. -/
theorem EmitsMethod.typedFrom (hw : w.Consistent N) (hN : Clean N) (hwrap : w.NoWrap)
    {globals : List Variable} {m : Method} {f : Function} {code rest : List Instruction}
    (h : w.EmitsMethod globals m f code) (hnamed : m.EachType (Ty.Named N))
    (hpointers : m.EachType Ty.PointerFree) (hglobals : ∀ v ∈ globals, w.PlainValue v.id)
    (hfits : ∀ i ∈ code, i.Fits)
    (hrest : w.toModule.TypedFrom (some f.returnType) rest) (R : Option Id) :
    w.toModule.TypedFrom R (code ++ rest) := by
  cases h with
  | @intro F l declarations body ending progress _ hresult hF hlocals hbody hending =>
    obtain ⟨hdeclarations, hplain⟩ :=
      hlocals.typed hw hN hwrap hpointers.locals (R := some f.returnType)
    have hops : ∀ t count, .construct t count ∈ m.body → t.Named N ∧ t.PointerFree :=
      fun t count h => ⟨hnamed.constructs t count h, hpointers.constructs t count h⟩
    have hbodyFits : ∀ i ∈ body, i.Fits := fun i hi => hfits i (by simp [hi])
    have hbodyTyped := hbody.typed hw hN hwrap ⟨hglobals, hplain, nofun⟩ hops hresult
      hpointers.result hbodyFits
    refine ⟨.function (hF.defining? hw.filled hwrap rfl),
      .other (show Opcode.label ∉ Module.checked by decide), ?_⟩
    refine .append (fun i hi => ?_) hrest
    -- The declarations, the body, the return that a void method may leave out, and the end.
    rcases List.mem_append.mp hi with hi | hi
    · rcases List.mem_append.mp hi with hi | hi
      · rcases List.mem_append.mp hi with hi | hi
        · refine ⟨?_, hdeclarations i hi⟩
          rw [hlocals.opcode_eq i hi]
          decide
        · refine ⟨fun hfunction => ?_, hbodyTyped i hi⟩
          have hmem := hbody.opcode_mem i hi
          rw [hfunction] at hmem
          exact absurd hmem (by decide)
      · cases hending with
        | returned => cases hi
        | running hvoid =>
          cases List.mem_singleton.mp hi
          exact ⟨nofun, .ret rfl (defining?_void hw hwrap hvoid hresult)⟩
    · cases List.mem_singleton.mp hi
      exact ⟨nofun, .other (show Opcode.functionEnd ∉ Module.checked by decide)⟩

/-- The functions of a program are typed, one after the other. -/
theorem EmitsMethods.typedFrom (hw : w.Consistent N) (hN : Clean N) (hwrap : w.NoWrap)
    {globals : List Variable} {ms : List Method} {fs : List Function} {code : List Instruction}
    (h : w.EmitsMethods globals ms fs code) (hnamed : ∀ m ∈ ms, m.EachType (Ty.Named N))
    (hpointers : ∀ m ∈ ms, m.EachType Ty.PointerFree) (hglobals : ∀ v ∈ globals, w.PlainValue v.id)
    (hfits : ∀ i ∈ code, i.Fits) (R : Option Id) : w.toModule.TypedFrom R code := by
  induction h generalizing R with
  | nil => trivial
  | cons hm _ ih =>
    obtain ⟨hnamed, hnamed'⟩ := List.forall_mem_cons.mp hnamed
    obtain ⟨hpointers, hpointers'⟩ := List.forall_mem_cons.mp hpointers
    obtain ⟨hfits, hfits'⟩ := List.forall_mem_append.mp hfits
    exact hm.typedFrom hw hN hwrap hnamed hpointers hglobals hfits
      (ih hnamed' hpointers' hfits' _) R

/-! ## Modules -/

/-- The variable of a field is plain. -/
theorem DeclaresField.plain {f : Field} {v : Variable} (h : w.DeclaresField f v)
    (hf : f.type.PointerFree) : w.PlainValue v.id := by
  obtain ⟨r, -, hkey⟩ := h.resolved
  refine ⟨v.key, h.value, ?_⟩
  rw [hkey]
  exact Key.plain_pointer hf r.storage

theorem plain_of_declared {fields : List Field} {vs : List Variable}
    (h : List.Forall₂ w.DeclaresField fields vs) (hfields : ∀ f ∈ fields, f.type.PointerFree) :
    ∀ v ∈ vs, w.PlainValue v.id := by
  intro v hv
  obtain ⟨f, hf, hv⟩ := exists_declaresField h v hv
  exact hv.plain (hfields f hf)

/-- Outside functions only variables are checked. -/
theorem Has.typed (hw : w.Consistent N) (hN : Clean N) (hwrap : w.NoWrap) {part : Section}
    {i : Instruction} (h : w.Has part i) (hpart : part ≠ .functions) (R : Option Id) :
    i.opcode ≠ .function ∧ w.toModule.Typed R i := by
  have hopcode : i.opcode ∈ part.opcodes := hw.filled.parts _ h
  -- Outside of functions, variables are the only instructions with a rule.
  have hchecked : ∀ c ∈ part.opcodes, c ∈ Module.checked → part = .globals ∧ c = .var := by
    revert hpart
    cases part <;> decide
  have hfunction : i.opcode ≠ .function := by
    intro heq
    obtain ⟨-, hvar⟩ := hchecked _ hopcode (by rw [heq]; decide)
    rw [hvar] at heq
    cases heq
  refine ⟨hfunction, ?_⟩
  by_cases hc : i.opcode ∈ Module.checked
  · obtain ⟨opcode, operands⟩ := i
    obtain ⟨rfl, rfl⟩ := hchecked _ hopcode hc
    obtain ⟨k, elem, T, id, rfl, hk, hnormal, hnamed, hT⟩ := hw.declared h
    obtain ⟨U, hdefines, -⟩ := defining?_pointer hw hN hwrap hk hnormal hnamed hT
    exact .var hdefines
  · exact .other hc

end Emitter

/-- Every instruction of a compiled module is well typed. -/
theorem wellTyped_of_compile {p : Program} {o : Options} {words : List Word}
    (h : (compile (some p) o).words = .ok words)
    (hnames : p.EachType (Ty.Named CleanName)) (hpointers : p.EachType Ty.PointerFree)
    (hids : p.idsTaken o < idLimit) : ∃ m, Module.decode words = .ok m ∧ m.WellTyped := by
  obtain ⟨w, hdecoded, hw, hwrap, hfits, hfields, -, hmethods, -⟩ :=
    emitted_of_compile hnames hids h
  refine ⟨_, hdecoded, ?_⟩
  obtain ⟨earlier, hinstructions, hearlier⟩ := w.instructions_eq_append
  have hglobals := Emitter.plain_of_declared hfields hpointers.fields
  rw [Module.WellTyped, Draft.instructions_toModule, hinstructions]
  refine .append (fun i hi => ?_) ?_
  · obtain ⟨part, hpart, hhas⟩ := hearlier i hi
    exact hhas.typed hw (fun _ h => h) hwrap hpart none
  · refine hmethods.typedFrom hw (fun _ h => h) hwrap hnames.methods hpointers.methods hglobals
      (fun i hi => hfits i ?_) none
    rw [hinstructions]
    exact List.mem_append_right _ hi

theorem wellTyped_of_compile_tint :
    ∃ words m, (compile (some .tint) {}).words = .ok words ∧ Module.decode words = .ok m ∧
      m.WellTyped := by
  obtain ⟨words, hwords⟩ := compile_tint
  obtain ⟨m, hm, htyped⟩ := wellTyped_of_compile hwords named_tint pointerFree_tint idsTaken_tint
  exact ⟨words, m, hwords, hm, htyped⟩

end ShaderStage

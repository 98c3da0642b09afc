import ShaderStage.Proofs.Compilation

/-! # Definitions in a module

What an id stands for can be read off the instruction that defines it. In the module of a compiled
program the definitions found this way are the ones that the emitter recorded.

* `Emitter.Has.defining?`: an instruction that was emitted defines its result in the module;
* `Emitter.Value.typeOf?`: the module gives values the types that the emitter recorded;
* `Emitter.memberTypes_getElem?`, `Emitter.defining?_pointee`: what types are made of. -/

namespace ShaderStage

namespace Module

/-- The instruction that defines an id. -/
def defining? (m : Module) (id : Id) : Option Instruction :=
  (m.definition? id).map Placed.instruction

/-- The type of a value, read off the instruction that defines it. -/
def typeOf? (m : Module) (id : Id) : Option Id :=
  (m.defining? id).bind Instruction.resultType

/-- The composite type has components of the given types, in order. The length of an array is a
constant. -/
inductive Components (m : Module) (T : Id) : List Id → Prop
  | vector {c : Id} {count : Word} (h : m.defining? T = some ⟨.typeVector, [T, c, count]⟩) :
      Components m T (List.replicate count.toNat c)
  | matrix {c : Id} {count : Word} (h : m.defining? T = some ⟨.typeMatrix, [T, c, count]⟩) :
      Components m T (List.replicate count.toNat c)
  | array {e l L : Id} {length : Word} (h : m.defining? T = some ⟨.typeArray, [T, e, l]⟩)
      (hl : m.defining? l = some ⟨.constant, [L, l, length]⟩) :
      Components m T (List.replicate length.toNat e)
  | struct {types : List Id} (h : m.defining? T = some ⟨.typeStruct, T :: types⟩) :
      Components m T types

/-- The composite type has a component at an index, of the given type. -/
def HasComponent (m : Module) (T : Id) (i : Word) (U : Id) : Prop :=
  ∃ types, m.Components T types ∧ types[i.toNat]? = some U

/-- Following indices into a composite type leads to a type. -/
inductive Path (m : Module) : Id → List Word → Id → Prop
  | nil {T : Id} : Path m T [] T
  | cons {T U V : Id} {i : Word} {is : List Word} (h : m.HasComponent T i U)
      (hrest : Path m U is V) : Path m T (i :: is) V

end Module

/-! ## Types without pointers -/

mutual

/-- No pointer occurs in the type. -/
def Ty.PointerFree : Ty → Prop
  | .pointer _ => False
  | .array elem _ => elem.PointerFree
  | .struct _ members => members.PointerFree
  | _ => True

/-- No pointer occurs in the members. -/
def Members.PointerFree : Members → Prop
  | .nil => True
  | .cons _ type rest => type.PointerFree ∧ rest.PointerFree

end

theorem Members.pointerFree_type? {members : Members} (h : members.PointerFree) {i : Nat} {t : Ty}
    (ht : members.type? i = some t) : t.PointerFree := by
  induction members, i using type?.induct with
  | case1 i => cases ht
  | case2 name type rest =>
    cases ht
    exact h.1
  | case3 name type rest i ih => exact ih h.2 ht

namespace Ty

@[simp] theorem pointerFree_underlying (t : Ty) : t.underlying.PointerFree ↔ t.PointerFree := by
  cases t <;> rfl

theorem PointerFree.ne_pointer {t : Ty} (h : t.PointerFree) (elem : Ty) : t ≠ .pointer elem := by
  rintro rfl
  exact h

theorem HasPart.pointerFree {t u : Ty} {i : UInt32} (h : t.HasPart i u) (ht : t.PointerFree) :
    u.PointerFree := by
  cases h with
  | vector | matrix4 => trivial
  | array => exact ht
  | struct hi => exact Members.pointerFree_type? ht hi

end Ty

/-- The key is of a value, or of a pointer to one. -/
def Key.Plain (k : Key) : Prop :=
  k.type.PointerFree ∨ ∃ elem, k.type = .pointer elem ∧ elem.PointerFree

/-- What a plain pointer points to has no pointers. -/
theorem Key.Plain.pointee {k : Key} (h : k.Plain) {elem : Ty} (hk : k.type = .pointer elem) :
    elem.PointerFree := by
  rcases h with h | ⟨elem', hk', helem⟩
  · rw [hk] at h
    exact h.elim
  · rw [hk] at hk'
    cases hk'
    exact helem

/-- The parts of a plain key have no pointers. -/
theorem Key.Plain.part {k : Key} (h : k.Plain) {i : UInt32} {u : Ty} (hpart : k.type.HasPart i u) :
    u.PointerFree := by
  rcases h with h | ⟨elem, hk, -⟩
  · exact hpart.pointerFree h
  · rw [hk] at hpart
    cases hpart

/-- A type without pointers is normal up to its underlying type. -/
theorem Key.type_normalize_value {t : Ty} (ht : t.PointerFree) :
    (Key.value t).normalize.type = t.underlying := by
  rw [Key.value, Key.normalize_of_not_pointer ht.ne_pointer]

/-- The key of a value without pointers is plain. -/
theorem Key.plain_value {t : Ty} (h : t.PointerFree) : (Key.value t).normalize.Plain := by
  refine .inl ?_
  cases t with
  | pointer elem => exact h.elim
  | _ => exact h

/-- So is the key of a pointer to one. -/
theorem Key.plain_pointer {t : Ty} (h : t.PointerFree) (storage : StorageClass) :
    (Key.pointer t storage).normalize.Plain :=
  .inr ⟨t.underlying, rfl, (Ty.pointerFree_underlying t).mpr h⟩

/-! ## Types without parts of other types -/

/-- The first character of the signature of a type. -/
def Ty.initial : Ty → Char
  | .unset | .void | .vector _ => 'v'
  | .bool => 'b'
  | .int type | .enum _ type => if type.signed then 'i' else 'u'
  | .char => 'u'
  | .float _ => 'f'
  | .matrix4 => 'm'
  | .array _ _ => 'a'
  | .pointer _ => 'p'
  | .sampledImage2D | .struct _ _ | .string => 's'
  | .dateTime => 'd'
  | .null => 'n'

theorem Ty.signature_eq_cons (t : Ty) : ∃ rest, t.signature.toList = t.initial :: rest := by
  cases t with
  | int type | enum name type =>
    cases hsigned : type.signed <;>
      simp [Ty.signature, IntTy.signature, Ty.initial, hsigned, String.toList_append]
  | float | vector | array | pointer | struct =>
    simp [Ty.signature, Ty.initial, String.toList_append]
  | _ => exact ⟨_, rfl⟩

/-- A type with the signature of a basic type has no names in it. -/
theorem Ty.Basic.named {t u : Ty} (ht : t.Basic) {rest rest' : List Char}
    (h : u.signature.toList ++ rest = t.signature.toList ++ rest') (N : String → Prop) :
    u.Named N := by
  obtain ⟨cs, hcs⟩ := u.signature_eq_cons
  obtain ⟨cs', hcs'⟩ := t.signature_eq_cons
  rw [hcs, hcs', List.cons_append, List.cons_append] at h
  have hinitial : u.initial = t.initial := (List.cons.inj h).1
  cases u with
  | array | pointer | struct =>
    cases t with
    | int type | enum name type =>
      cases hsigned : type.signed <;> simp [Ty.initial, hsigned] at hinitial
    | unset | void | bool | char | float | vector | matrix4 => simp [Ty.initial] at hinitial
    | _ => exact ht.elim
  | _ => trivial

/-- It does not matter which of two types is compared with the other. -/
theorem Ty.same_comm (t u : Ty) : t.same u = u.same t :=
  Bool.beq_comm

/-- A type that stands for the same as one that is no pointer is no pointer. -/
theorem Ty.ne_pointer_of_same {t u : Ty} (h : t.same u = true) (ht : ∀ elem, t ≠ .pointer elem)
    (elem : Ty) : u ≠ .pointer elem := by
  rintro rfl
  have hsig : t.signature = (pointer elem).signature := eq_of_beq h
  obtain ⟨cs, hcs⟩ := t.signature_eq_cons
  obtain ⟨cs', hcs'⟩ := (pointer elem).signature_eq_cons
  rw [hsig, hcs'] at hcs
  have hinitial : 'p' = t.initial := (List.cons.inj hcs).1
  cases t with
  | pointer elem => exact ht elem rfl
  | int type | enum name type =>
    cases hsigned : type.signed <;> simp [Ty.initial, hsigned] at hinitial
  | _ => simp [Ty.initial] at hinitial

theorem Ty.Alike.ne_pointer {t u : Ty} (h : t.Alike u) (hu : ∀ elem, u ≠ .pointer elem)
    (elem : Ty) : t ≠ .pointer elem := by
  rintro rfl
  unfold Ty.Alike at h
  cases u with
  | pointer elem => exact hu elem rfl
  | _ => cases h

theorem BinaryOperator.Resolves.pointerFree {op : BinaryOperator} {left right t : Ty} {c : Opcode}
    {swap : Bool} (h : op.Resolves left right c t swap) : t.PointerFree := by
  cases h with
  | product _ h => cases Ty.product_of_product? h <;> trivial
  | uniform _ _ hkind _ =>
    cases BinaryOperator.arithmetic_of_ok hkind <;> trivial

theorem pointerFree_tint : Program.tint.EachType Ty.PointerFree := by
  refine ⟨?_, ?_⟩
  · simp only [Program.tint, List.forall_mem_cons]
    simp [Ty.PointerFree, Members.PointerFree, Ty.vec4, Ty.float32]
  · intro m hm
    rcases List.mem_pair.mp hm with rfl | rfl
    all_goals
      exact ⟨trivial, by simp [Ty.PointerFree, Ty.float32], by simp [Ty.PointerFree, Ty.vec4]⟩

/-- The signature of a value is that of its type alone. -/
theorem Key.signature_value {t : Ty} (ht : ∀ elem, t ≠ .pointer elem) :
    (Key.value t).signature = t.signature := by
  unfold Key.signature
  rw [Key.value, Key.normalize_of_not_pointer ht]
  simp

/-! ## The definitions of the emitter -/

namespace Draft

/-- What stands in a section was emitted into it. -/
theorem mem_contents {d : Draft} {s : Section} {i : Instruction} (h : i ∈ d.contents s) :
    (s, i) ∈ d.log.toList := by
  unfold contents at h
  split at h
  · rename_i hs
    subst hs
    exact mem_emitted.mp (List.mem_of_getLast? (by simpa using h))
  · exact mem_emitted.mp h

/-- What stands in the module was emitted. -/
theorem mem_instructions {d : Draft} {i : Instruction} (h : i ∈ d.instructions) :
    ∃ s, (s, i) ∈ d.log.toList := by
  obtain ⟨s, -, hs⟩ := List.mem_flatMap.mp h
  exact ⟨s, mem_contents hs⟩

/-- What was emitted with a result stands in the module. -/
theorem mem_instructions_of_result {d : Draft} (hd : d.WellFilled) {s : Section} {i : Instruction}
    (h : (s, i) ∈ d.log.toList) {id : Id} (hid : i.resultId = some id) : i ∈ d.instructions := by
  refine List.mem_flatMap.mpr ⟨s, s.mem_order, ?_⟩
  unfold contents
  split
  · rename_i hs
    subst hs
    rw [resultId_of_mem_memoryModel (hd.parts _ h)] at hid
    cases hid
  · exact mem_emitted.mpr h

end Draft

namespace Emitter

variable {N : String → Prop} {w : Emitter}

/-- The module that an emitter has emitted. -/
abbrev toModule (w : Emitter) : Module :=
  w.draft.toModule

/-- An id is defined by the instruction that was emitted with it, while ids do not wrap. -/
theorem Has.defining? (hw : w.draft.WellFilled) (hwrap : w.NoWrap) {part : Section}
    {i : Instruction} (h : w.Has part i) {id : Id} (hid : i.resultId = some id) :
    w.toModule.defining? id = some i := by
  have hfind : w.toModule.defining? id =
      w.draft.instructions.find? fun j => j.resultId = some id := by
    rw [← Draft.instructions_toModule, Module.instructions, List.find?_map]
    rfl
  rw [hfind]
  cases hfind : w.draft.instructions.find? (fun j => j.resultId = some id) with
  | none =>
    have hnot := List.find?_eq_none.mp hfind i (Draft.mem_instructions_of_result hw h hid)
    simp [hid] at hnot
  | some j =>
    obtain ⟨part', hj⟩ := Draft.mem_instructions (List.mem_of_find?_eq_some hfind)
    have hjid : j.resultId = some id := by simpa using List.find?_some hfind
    rw [(h.unique hw hwrap hj hid hjid).2]

/-- The functions are the last part of a module. -/
theorem instructions_eq_append (w : Emitter) :
    ∃ earlier, w.draft.instructions = earlier ++ w.code ∧
      ∀ i ∈ earlier, ∃ part, part ≠ .functions ∧ w.Has part i := by
  have horder : Section.order = Section.order.dropLast ++ [.functions] := by decide
  refine ⟨Section.order.dropLast.flatMap w.draft.contents, ?_, fun i hi => ?_⟩
  · have hcode : w.draft.contents .functions = w.code := if_neg nofun
    rw [Draft.instructions, horder, List.flatMap_append, List.flatMap_singleton, hcode]
    rfl
  · obtain ⟨part, hpart, hi⟩ := List.mem_flatMap.mp hi
    refine ⟨part, ?_, Draft.mem_contents hi⟩
    rintro rfl
    exact absurd hpart (by decide)

/-- No two instructions of an emitted module have the same result. -/
theorem nodup_results (hw : w.draft.WellFilled) (hwrap : w.NoWrap) :
    (w.toModule.instructions.filterMap Instruction.resultId).Nodup := by
  rw [Draft.instructions_toModule]
  exact hw.results_perm.nodup_iff.mpr (nodup_idsBetween (Nat.le_of_lt hwrap))

/-- The type that the module gives to a value is that of its key. -/
theorem Value.typeOf? (hw : w.draft.WellFilled) (hwrap : w.NoWrap) {id : Id} {k : Key}
    (h : w.Value id k) : w.toModule.typeOf? id = w.typeOf? k := by
  obtain ⟨T, part, i, hT, hi, hresult, htype⟩ := h.typed
  rw [Module.typeOf?, hi.defining? hw hwrap hresult, hT]
  exact htype

/-- A value that is no pointer has its type for a key. -/
theorem Value.eq_value (hw : w.Consistent N) {id : Id} {k : Key} (h : w.Value id k)
    (hk : ∀ elem, k.type ≠ .pointer elem) : k = .value k.type := by
  have hnormal := h.normal hw
  obtain ⟨type, storage⟩ := k
  rw [Key.normalize_of_not_pointer hk] at hnormal
  exact (Key.mk.inj hnormal).2 ▸ rfl

/-- The storage class of a value is not asked for. -/
theorem typeOf?_of_not_pointer {t : Ty} (ht : ∀ elem, t ≠ .pointer elem) (storage : StorageClass) :
    w.typeOf? ⟨t, storage⟩ = w.typeOf? (.value t) := by
  rw [Emitter.typeOf?, ← Key.signature_normalize, Key.normalize_of_not_pointer ht,
    ← Key.normalize_of_not_pointer ht .none, Key.signature_normalize]
  rfl

/-- A type and what it stands for have the same id. -/
theorem typeOf?_underlying (t : Ty) (storage : StorageClass) :
    w.typeOf? ⟨t.underlying, storage⟩ = w.typeOf? ⟨t, storage⟩ := by
  rw [← typeOf?_canon, Ty.canon_underlying, typeOf?_canon]

/-- The type of a value is found under its signature. -/
theorem typeOf?_value {t : Ty} (ht : ∀ elem, t ≠ .pointer elem) :
    w.typeOf? (.value t) = w.types.lookup t.signature := by
  rw [Emitter.typeOf?, Key.signature_value ht]

/-- Types that the emitter takes for the same have the same id. -/
theorem typeOf?_eq_of_same {t u : Ty} (ht : ∀ elem, t ≠ .pointer elem) (h : t.same u = true) :
    w.typeOf? (.value t) = w.typeOf? (.value u) := by
  have hsig : t.signature = u.signature := eq_of_beq h
  rw [typeOf?_value ht, typeOf?_value (Ty.ne_pointer_of_same h ht), hsig]

/-- So have types that are alike by the rules. -/
theorem typeOf?_eq_of_alike {t u : Ty} (h : t.Alike u) :
    w.typeOf? (.value t) = w.typeOf? (.value u) := by
  have hcanon : t.canon = u.canon := h
  rw [Key.value, Key.value, ← typeOf?_canon, hcanon, typeOf?_canon]

/-- A basic type is defined as what it is, whatever the names in other types. -/
theorem Consistent.defines_basic (hw : w.Consistent N) {t : Ty} (ht : t.Basic) {T : Id}
    (h : w.typeOf? (.value t) = some T) : w.Defines T (Key.value t).canon := by
  obtain ⟨k, hcanon, hsig, -, hdef⟩ := hw.types h
  -- A basic type has no names in it, and so neither has a key with the same text.
  have hclean : k.type.Named CleanName := by
    have htext := congrArg String.toList hsig
    rw [Key.toList_signature, Key.toList_signature] at htext
    have hnormal : k.normalize = k := by
      rw [← hcanon, Key.normalize_canon]
    rw [hnormal] at htext
    refine Ty.Basic.named (t := (Key.value t).normalize.type) ?_ htext CleanName
    cases t <;> exact ht
  have ht' : t.Named CleanName := by
    cases t with
    | array | pointer | struct => exact ht.elim
    | _ => trivial
  have heq := Key.canon_eq_of_signature hclean (b := .value t) ht' hsig
  rw [hcanon] at heq
  rwa [← heq]

section

variable (hw : w.Consistent N) (hwrap : w.NoWrap) {T : Id}

include hw hwrap

/-- The id of a float type is defined as one. -/
theorem defining?_float {width : UInt8} (h : w.typeOf? (.value (.float width)) = some T) :
    w.toModule.defining? T = some ⟨.typeFloat, [T, width.toUInt32]⟩ := by
  have hdef := hw.defines_basic (t := .float width) trivial h
  cases hdef with
  | float _ hhas => exact hhas.defining? hw.filled hwrap rfl

/-- The id of an integer type is defined as one. -/
theorem defining?_int {type : IntTy} (h : w.typeOf? (.value (.int type)) = some T) :
    w.toModule.defining? T =
      some ⟨.typeInt, [T, type.width.toUInt32, if type.signed then 1 else 0]⟩ := by
  have hdef := hw.defines_basic (t := .int type) trivial h
  cases hdef with
  | int _ hhas => exact hhas.defining? hw.filled hwrap rfl

/-- The id of a vector type is defined as a vector of floats. -/
theorem defining?_vector {count : UInt8} (h : w.typeOf? (.value (.vector count)) = some T) :
    ∃ F, w.toModule.defining? T = some ⟨.typeVector, [T, F, count.toUInt32]⟩ ∧
      w.typeOf? (.value .float32) = some F := by
  have hdef := hw.defines_basic (t := .vector count) trivial h
  cases hdef with
  | vector _ hc hhas => exact ⟨_, hhas.defining? hw.filled hwrap rfl, hc⟩

/-- The id of the matrix type is defined as four columns. -/
theorem defining?_matrix4 (h : w.typeOf? (.value .matrix4) = some T) :
    ∃ C, w.toModule.defining? T = some ⟨.typeMatrix, [T, C, 4]⟩ ∧
      w.typeOf? (.value .vec4) = some C := by
  have hdef := hw.defines_basic (t := .matrix4) trivial h
  cases hdef with
  | matrix4 hc hhas => exact ⟨_, hhas.defining? hw.filled hwrap rfl, hc⟩

/-- The id of the empty type is defined as such. -/
theorem defining?_void {t : Ty} (ht : t.isVoid = true) (h : w.typeOf? (.value t) = some T) :
    w.toModule.defining? T = some ⟨.typeVoid, [T]⟩ := by
  have hvoid : t.underlying = .void := of_decide_eq_true ht
  have hbasic : t.Basic := by
    cases t with
    | unset | void => trivial
    | _ => cases hvoid
  have hdef := hw.defines_basic hbasic h
  have hcanon : (Key.value t).canon = .value .void := by
    cases t with
    | unset | void => rfl
    | _ => cases hvoid
  rw [hcanon] at hdef
  cases hdef with
  | void hhas => exact hhas.defining? hw.filled hwrap rfl

/-- The id of a constant is defined with its type and its bits. -/
theorem defining?_constant {t : Ty} {id : Id} {word : Word} (h : w.Constant id t word) :
    ∃ T, w.typeOf? (.value t) = some T ∧
      w.toModule.defining? id = some ⟨.constant, [T, id, word]⟩ := by
  obtain ⟨T, hT, hhas⟩ := h.emitted
  exact ⟨T, hT, hhas.defining? hw.filled hwrap rfl⟩

end

theorem getElem?_replicate_of_lt {α : Type} {i n : Word} (h : i < n) (a : α) :
    (List.replicate n.toNat a)[i.toNat]? = some a := by
  rw [List.getElem?_replicate, if_pos (UInt32.lt_iff_toNat_lt.mp h)]

/-- The types of members are those of the members, at every position. -/
theorem memberTypes_getElem? {members : Members} {ids : List Id}
    (h : w.MemberTypes members.canon ids) {i : Nat} {u : Ty} (hu : members.type? i = some u) :
    ∃ U, ids[i]? = some U ∧ w.typeOf? (.value u) = some U := by
  induction members, i using Members.type?.induct generalizing ids with
  | case1 i => cases hu
  | case2 name type rest =>
    cases hu
    obtain ⟨id, ids', rfl, hid, -⟩ := h
    rw [Key.value, typeOf?_canon] at hid
    exact ⟨id, rfl, hid⟩
  | case3 name type rest i ih =>
    obtain ⟨id, ids', rfl, -, hrest⟩ := h
    exact ih hrest hu

/-- A structure type has one id for each member. -/
theorem length_memberTypes {members : Members} {ids : List Id}
    (h : w.MemberTypes members.canon ids) : ids.length = members.length := by
  induction members using Members.toList.induct generalizing ids with
  | case1 => rw [show ids = [] from h]; rfl
  | case2 name type rest ih =>
    obtain ⟨id, ids', rfl, -, hrest⟩ := h
    rw [List.length_cons, ih hrest]
    rfl

section

variable (hw : w.Consistent N) (hN : Clean N) (hwrap : w.NoWrap) {T : Id}

include hw hN hwrap

/-- A pointer type is in the storage class of its key. -/
theorem defining?_pointer {k : Key} {elem : Ty} (hk : k.type = .pointer elem)
    (hnormal : k.normalize = k) (hnamed : k.type.Named N) (hT : w.typeOf? k = some T) :
    ∃ U, w.toModule.defining? T = some ⟨.typePointer, [T, k.storage, U]⟩ ∧
      w.typeOf? ⟨elem, k.storage⟩ = some U := by
  have hcanon : k.canon = ⟨.pointer elem.canon, k.storage⟩ := by
    rw [Key.canon, hnormal, hk]
    rfl
  have hdef := hw.defines hN hnamed hT
  rw [hcanon] at hdef
  cases hdef with
  | pointer hp hhas =>
    rw [typeOf?_canon] at hp
    exact ⟨_, hhas.defining? hw.filled hwrap rfl, hp⟩

/-- A pointer type points to what its key says. -/
theorem defining?_pointee {k : Key} {elem : Ty} (hk : k.type = .pointer elem)
    (hnormal : k.normalize = k) (hnamed : k.type.Named N) (helem : elem.PointerFree)
    (hT : w.typeOf? k = some T) :
    ∃ U, w.toModule.defining? T = some ⟨.typePointer, [T, k.storage, U]⟩ ∧
      w.typeOf? (.value elem) = some U := by
  rw [← typeOf?_of_not_pointer helem.ne_pointer k.storage]
  exact defining?_pointer hw hN hwrap hk hnormal hnamed hT

/-- The components of a composite type are its parts. -/
theorem exists_components {t : Ty} (ht : t.Named N) (hT : w.typeOf? (.value t) = some T)
    (hcomposite : t.partCount? ≠ none ∨ ∃ count, t = .vector count) :
    ∃ types, w.toModule.Components T types ∧ (∀ n, t.partCount? = some n → types.length = n) ∧
      ∀ i u, t.HasPart i u → ∃ U, types[i.toNat]? = some U ∧ w.typeOf? (.value u) = some U := by
  have hdef := hw.defines hN (k := .value t) ht hT
  cases t with
  | vector count =>
    obtain ⟨F, hdefines, hF⟩ := defining?_vector hw hwrap hT
    refine ⟨_, .vector hdefines, nofun, fun i u hpart => ?_⟩
    cases hpart with
    | vector hi => exact ⟨F, getElem?_replicate_of_lt hi _, hF⟩
  | matrix4 =>
    obtain ⟨C, hdefines, hC⟩ := defining?_matrix4 hw hwrap hT
    refine ⟨_, .matrix hdefines, fun n hn => ?_, fun i u hpart => ?_⟩
    · cases hn
      rfl
    · cases hpart with
      | matrix4 hi => exact ⟨C, getElem?_replicate_of_lt hi _, hC⟩
  | array elem length =>
    cases hdef with
    | array _ he hl hhas =>
      rw [Key.value, typeOf?_canon] at he
      obtain ⟨L, -, hlength⟩ := defining?_constant hw hwrap (hw.uints hl)
      refine ⟨_, .array (hhas.defining? hw.filled hwrap rfl) hlength, fun n hn => ?_,
        fun i u hpart => ?_⟩
      · cases hn
        exact List.length_replicate
      · cases hpart with
        | array hi => exact ⟨_, getElem?_replicate_of_lt hi _, he⟩
  | struct name members =>
    cases hdef with
    | struct _ hids hhas =>
      refine ⟨_, .struct (hhas.defining? hw.filled hwrap rfl), fun n hn => ?_, fun i u hpart => ?_⟩
      · cases hn
        exact length_memberTypes hids
      · cases hpart with
        | struct hi => exact memberTypes_getElem? hids hi
  | _ =>
    -- No other type is made of parts.
    rcases hcomposite with h | ⟨count, h⟩
    · exact absurd rfl h
    · cases h

end

end Emitter

end ShaderStage

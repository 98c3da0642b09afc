import ShaderStage.Proofs.Capabilities
import ShaderStage.Proofs.Uniqueness

/-! # Decorations

The variable of a field is decorated as the layout of the field asks, in order. Otherwise a module
decorates its matrix types, and the structures that uniforms and push constants are made of.

* `Field.Asks`: what a layout asks for;
* `decorations_of_compile`: what a compiled module decorates. -/

namespace ShaderStage

/-! ## What a layout asks for -/

/-- The direction is across the border of the stage, and stands for a storage class. -/
inductive Direction.Crosses : Direction → StorageClass → Prop
  | input : Crosses .input .input
  | output : Crosses .output .output

/-- Push constants are neither inputs nor outputs. -/
theorem Direction.Crosses.ne_pushConstant {d : Direction} {storage : StorageClass}
    (h : d.Crosses storage) : storage ≠ .pushConstant := by
  cases h <;> decide

/-- The storage class and the decorations, in order, that the layout of a field asks for. A binding
comes before everything else, then a push constant, and then the direction. -/
inductive Field.Asks (f : Field) : StorageClass → List (Decoration × Word) → Prop
  | bound {layout : Layout} {binding : UInt32} (hlayout : f.layout = some layout)
      (hbinding : layout.binding = some binding) :
      Asks f .uniform [(.descriptorSet, layout.descriptorSet), (.binding, binding)]
  | pushed {layout : Layout} (hlayout : f.layout = some layout) (hbinding : layout.binding = none)
      (hpush : layout.pushConstant = true) : Asks f .pushConstant []
  | located {layout : Layout} {storage : StorageClass} (hlayout : f.layout = some layout)
      (hbinding : layout.binding = none) (hpush : layout.pushConstant = false)
      (hcrosses : layout.direction.Crosses storage) (hbuiltin : layout.builtin = none) :
      Asks f storage [(.location, layout.location)]
  | builtIn {layout : Layout} {storage : StorageClass} {builtin : Builtin} {number : BuiltInNumber}
      (hlayout : f.layout = some layout) (hbinding : layout.binding = none)
      (hpush : layout.pushConstant = false) (hcrosses : layout.direction.Crosses storage)
      (hbuiltin : layout.builtin = some builtin) (hnumber : builtin.number = .ok number) :
      Asks f storage [(.builtIn, number)]
  | inside (h : ∀ layout, f.layout = some layout → layout.binding = none ∧
      layout.pushConstant = false ∧ ∀ storage, ¬ layout.direction.Crosses storage) :
      Asks f .privateData []

/-- The record of a variable states the decorations. -/
structure Variable.States (v : Variable) (decorations : List (Decoration × Word)) : Prop where
  descriptorSet : v.descriptorSet = decorations.lookup .descriptorSet
  binding : v.binding = decorations.lookup .binding
  location : v.location = decorations.lookup .location
  builtIn : v.builtIn = decorations.lookup .builtIn

/-- A layout that crosses the border of the stage asks for a location or for a built-in. -/
theorem Field.asks_of_resolveInterface {f : Field} {layout : Layout} {storage : StorageClass}
    {r : Resolution} (hlayout : f.layout = some layout) (hbinding : layout.binding = none)
    (hpush : layout.pushConstant = false) (hcrosses : layout.direction.Crosses storage)
    (hr : Field.resolveInterface layout storage = .ok r) (id : Id) :
    f.Asks r.storage r.decorations ∧ (f.variable r id).States r.decorations ∧
      (r.pushConstant = true ↔ r.storage = .pushConstant) := by
  have hstorage := hcrosses.ne_pushConstant
  unfold resolveInterface at hr
  split at hr
  · rename_i hbuiltin
    cases hr
    refine ⟨.located hlayout hbinding hpush hcrosses hbuiltin, ⟨rfl, rfl, rfl, rfl⟩, ?_⟩
    simp [hstorage]
  · rename_i builtin hbuiltin
    cases hnumber : builtin.number with
    | error e =>
      rw [hnumber] at hr
      cases hr
    | ok number =>
      rw [hnumber] at hr
      cases hr
      refine ⟨.builtIn hlayout hbinding hpush hcrosses hbuiltin hnumber, ⟨rfl, rfl, rfl, rfl⟩, ?_⟩
      simp [hstorage]

/-- A field with no place outside is private. -/
theorem Field.Asks.inside_of_layout {f : Field} {layout : Layout} (hlayout : f.layout = some layout)
    (hbinding : layout.binding = none) (hpush : layout.pushConstant = false)
    (hnot : ∀ storage, ¬ layout.direction.Crosses storage) : f.Asks .privateData [] := by
  refine .inside fun layout' h => ?_
  cases hlayout.symm.trans h
  exact ⟨hbinding, hpush, hnot⟩

/-- A field that is resolved gets what its layout asks for. -/
theorem Field.asks_of_resolve {f : Field} {r : Resolution} (hr : f.resolve = .ok r) (id : Id) :
    f.Asks r.storage r.decorations ∧ (f.variable r id).States r.decorations ∧
      (r.pushConstant = true ↔ r.storage = .pushConstant) := by
  -- The cases are those of the layout, in the order in which they are looked at.
  cases hlayout : f.layout with
  | none =>
    simp only [resolve, hlayout] at hr
    cases hr
    refine ⟨.inside fun layout h => ?_, ⟨rfl, rfl, rfl, rfl⟩, by decide⟩
    rw [hlayout] at h
    cases h
  | some layout =>
    cases hbinding : layout.binding with
    | some binding =>
      simp only [resolve, hlayout, hbinding] at hr
      cases hr
      exact ⟨.bound hlayout hbinding, ⟨rfl, rfl, rfl, rfl⟩, ⟨nofun, nofun⟩⟩
    | none =>
      cases hpush : layout.pushConstant with
      | true =>
        simp only [resolve, hlayout, hbinding, hpush] at hr
        cases hr
        exact ⟨.pushed hlayout hbinding hpush, ⟨rfl, rfl, rfl, rfl⟩, by decide⟩
      | false =>
        cases hspec : layout.specId with
        | some number =>
          simp only [resolve, hlayout, hbinding, hpush, hspec] at hr
          cases hr
        | none =>
          simp only [resolve, hlayout, hbinding, hpush, hspec] at hr
          split at hr
          · rename_i hdirection
            exact asks_of_resolveInterface hlayout hbinding hpush (hdirection ▸ .input) hr id
          · rename_i hdirection
            exact asks_of_resolveInterface hlayout hbinding hpush (hdirection ▸ .output) hr id
          · rename_i hdirection
            cases hr
            refine ⟨.inside_of_layout hlayout hbinding hpush ?_, ⟨rfl, rfl, rfl, rfl⟩, by decide⟩
            rw [hdirection]
            nofun
          · rename_i hdirection
            cases hr
            refine ⟨.inside_of_layout hlayout hbinding hpush ?_, ⟨rfl, rfl, rfl, rfl⟩, by decide⟩
            rw [hdirection]
            nofun

/-! ## What a variable points to -/

/-- Only structures have the signatures of structures. -/
theorem Ty.eq_struct_of_signature {t : Ty} {name : String} {members : Members}
    (h : t.signature = (Ty.struct name members).signature) :
    ∃ name' members', t = .struct name' members' := by
  have hlist := congrArg (fun text : String => text.toList.take 4) h
  obtain ⟨cs, hcs⟩ := t.signature_eq_cons
  have hinitial : t.initial = 's' := by
    have hhead := congrArg (fun text : String => text.toList.head?) h
    simp only [hcs] at hhead
    simpa [Ty.signature, String.toList_append] using hhead
  cases t with
  | struct name' members' => exact ⟨name', members', rfl⟩
  | int type | enum _ type => cases hsigned : type.signed <;> simp [Ty.initial, hsigned] at hinitial
  | sampledImage2D | string => simp [Ty.signature, String.toList_append] at hlist
  | _ => simp [Ty.initial] at hinitial

/-- The signature of a pointer tells that of what it points to. -/
theorem Ty.signature_pointer_inj {t u : Ty}
    (h : (Ty.pointer t).signature = (Ty.pointer u).signature) : t.signature = u.signature := by
  rw [← String.toList_inj] at h ⊢
  simpa [Ty.signature, String.toList_append] using h

namespace Emitter

variable {N : String → Prop} {w : Emitter}

/-- The definition of a pointer type, in the class of its key. -/
theorem Consistent.pointee (hw : w.Consistent N) {elem : Ty} {storage : StorageClass} {P : Id}
    (hnormal : (Key.mk (.pointer elem) storage).normalize = ⟨.pointer elem, storage⟩)
    (h : w.typeOf? ⟨.pointer elem, storage⟩ = some P) :
    ∃ (u : Ty) (T : Id), u.signature = elem.signature ∧ w.typeOf? ⟨u, storage⟩ = some T ∧
      w.Has .globals ⟨.typePointer, [P, storage, T]⟩ := by
  obtain ⟨k, hcanon, hsig, -, hdef⟩ := hw.types h
  have htype := Key.signature_type_inj hsig
  -- Both keys are normal, so their texts end in their own storage classes.
  have hstorage : k.storage = storage := by
    have htext := congrArg String.toList hsig
    have hnormal' : k.normalize = k := by rw [← hcanon, Key.normalize_canon]
    rw [Key.toList_signature, Key.toList_signature, hnormal, hnormal', htype] at htext
    exact StorageClass.text_inj (List.append_cancel_left htext)
  -- The first letter of the text tells a pointer from every other type.
  obtain ⟨u, hu⟩ : ∃ u, k.type = .pointer u := by
    refine Ty.initial_eq_p.mp ?_
    obtain ⟨cs, hcs⟩ := k.type.signature_eq_cons
    obtain ⟨cs', hcs'⟩ := (Ty.pointer elem).signature_eq_cons
    rw [htype, hcs'] at hcs
    exact (List.cons.inj hcs).1.symm
  obtain ⟨type, sc⟩ := k
  obtain rfl : type = .pointer u := hu
  obtain rfl : sc = storage := hstorage
  cases hdef with
  | pointer hT hhas => exact ⟨u, _, Ty.signature_pointer_inj htype, hT, hhas⟩

/-- A structure type that is known is defined as one. -/
theorem Consistent.has_struct (hw : w.Consistent N) {name : String} {members : Members} {T : Id}
    (h : w.typeOf? (.value (.struct name members)) = some T) :
    ∃ ids, w.Has .globals ⟨.typeStruct, T :: ids⟩ := by
  obtain ⟨⟨type, storage⟩, -, hsig, -, hdef⟩ := hw.types h
  obtain ⟨name', members', rfl⟩ := Ty.eq_struct_of_signature (Key.signature_type_inj hsig)
  cases hdef with
  | struct _ _ hhas => exact ⟨_, hhas⟩

/-- A type that is defined as a structure is one. -/
theorem Consistent.eq_struct (hw : w.Consistent N) (hwrap : w.NoWrap) {k : Key} {T : Id}
    (h : w.typeOf? k = some T) {part : Section} {ids : List Id}
    (hhas : w.Has part ⟨.typeStruct, T :: ids⟩) :
    ∃ name members, k.type = .struct name members := by
  obtain ⟨k', -, hsig, -, hdef⟩ := hw.types h
  have hstruct : ∀ {i : Instruction}, w.Has .globals i → i.resultId = some T →
      i.opcode = .typeStruct := by
    intro i hi hid
    rw [(hi.unique hw.filled hwrap hhas hid rfl).2]
  cases hdef with
  | struct => exact Ty.eq_struct_of_signature (Key.signature_type_inj hsig).symm
  | bool hi | void hi | int _ hi | float _ hi | vector _ _ hi | matrix4 _ hi | array _ _ _ hi
  | sampledImage2D _ _ hi | pointer _ hi => cases hstruct hi rfl

/-- The type of the pointer to a field, and what it points to. -/
theorem DeclaresField.pointee (hw : w.Consistent N) {f : Field} {v : Variable}
    (h : w.DeclaresField f v) :
    ∃ (P T : Id) (u : Ty), w.Has .globals ⟨.var, [P, v.id, v.storage]⟩ ∧
      w.Has .globals ⟨.typePointer, [P, v.storage, T]⟩ ∧ u.signature = f.type.signature ∧
      w.typeOf? ⟨u, v.storage⟩ = some T := by
  obtain ⟨r, -, hkey⟩ := h.resolved
  obtain ⟨P, hP, hvar⟩ := h.emitted
  have hnormal : v.key.normalize = v.key := by
    rw [hkey]
    exact Key.normalize_normalize _
  have hshape : v.key = ⟨.pointer f.type.underlying, v.storage⟩ := by
    rw [Variable.storage, hkey, Field.key, Key.pointer, Key.normalize_pointer]
  rw [hshape] at hnormal hP
  obtain ⟨u, T, hu, hT, hpointer⟩ := hw.pointee hnormal hP
  exact ⟨P, T, u, hvar, hpointer, hu.trans (Ty.signature_underlying _), hT⟩

end Emitter

/-- The variable is declared with a pointer to the type. -/
def Module.PointsTo (m : Module) (v : Variable) (T : Id) : Prop :=
  ∃ P, ⟨.var, [P, v.id, v.storage]⟩ ∈ m.instructions ∧
    ⟨.typePointer, [P, v.storage, T]⟩ ∈ m.instructions

/-- The type is a structure. -/
def Module.IsStruct (m : Module) (T : Id) : Prop :=
  ∃ members, ⟨.typeStruct, T :: members⟩ ∈ m.instructions

namespace Emitter

variable {N : String → Prop} {w : Emitter}

/-- What was emitted stands in the module. -/
theorem mem_toModule (hw : w.draft.WellFilled) {op : Opcode} (hop : op ≠ .memoryModel)
    {operands : List Word} :
    ⟨op, operands⟩ ∈ w.toModule.instructions ↔ ∃ part, w.Has part ⟨op, operands⟩ := by
  rw [Draft.instructions_toModule]
  exact hw.mem_instructions_iff hop

theorem typeOf?_struct (name : String) (members : Members) (storage : StorageClass) :
    w.typeOf? ⟨.struct name members, storage⟩ =
      w.types.lookup (Ty.struct name members).signature := by
  have hne : ∀ elem, Ty.struct name members ≠ .pointer elem := fun _ h => Ty.noConfusion h
  rw [typeOf?_of_not_pointer hne, typeOf?_value hne]

/-- The variable of a field points to a type of the module. -/
theorem DeclaresField.exists_pointsTo (hw : w.Consistent N) {f : Field} {v : Variable}
    (h : w.DeclaresField f v) : ∃ T, w.toModule.PointsTo v T := by
  obtain ⟨P, T, -, hvar, hpointer, -, -⟩ := h.pointee hw
  exact ⟨T, P, (mem_toModule hw.filled (by decide)).mpr ⟨_, hvar⟩,
    (mem_toModule hw.filled (by decide)).mpr ⟨_, hpointer⟩⟩

/-- A field is a block if its variable is in the right class and points to a structure. -/
theorem DeclaresField.isBlock_iff (hw : w.Consistent N) (hwrap : w.NoWrap) {f : Field}
    {v : Variable} (h : w.DeclaresField f v) {T : Id} :
    f.IsBlock v.storage ∧ w.typeOf? (.value f.type) = some T ↔
      (v.storage = .uniform ∨ v.storage = .pushConstant) ∧ w.toModule.PointsTo v T ∧
        w.toModule.IsStruct T := by
  obtain ⟨P, T', u, hvar, hpointer, hu, hT'⟩ := h.pointee hw
  constructor
  · rintro ⟨⟨hstorage, name, members, htype⟩, hT⟩
    rw [htype] at hu hT
    obtain ⟨ids, hstruct⟩ := hw.has_struct hT
    obtain ⟨name', members', rfl⟩ := Ty.eq_struct_of_signature hu
    -- Structs are cached by their texts, so both have the same id.
    rw [Key.value, typeOf?_struct] at hT
    rw [typeOf?_struct, hu, hT] at hT'
    cases hT'
    exact ⟨hstorage, ⟨P, (mem_toModule hw.filled (by decide)).mpr ⟨_, hvar⟩,
      (mem_toModule hw.filled (by decide)).mpr ⟨_, hpointer⟩⟩, ids,
      (mem_toModule hw.filled (by decide)).mpr ⟨_, hstruct⟩⟩
  · rintro ⟨hstorage, ⟨P', hvar', hpointer'⟩, ids, hstruct⟩
    obtain ⟨_, hvar'⟩ := (mem_toModule hw.filled (by decide)).mp hvar'
    obtain ⟨_, hpointer'⟩ := (mem_toModule hw.filled (by decide)).mp hpointer'
    obtain ⟨_, hstruct⟩ := (mem_toModule hw.filled (by decide)).mp hstruct
    cases (hvar.unique hw.filled hwrap hvar' rfl rfl).2
    cases (hpointer.unique hw.filled hwrap hpointer' rfl rfl).2
    obtain ⟨name, members, rfl⟩ : ∃ name members, u = .struct name members :=
      hw.eq_struct hwrap hT' hstruct
    obtain ⟨name', members', htype⟩ := Ty.eq_struct_of_signature hu.symm
    refine ⟨⟨hstorage, name', members', htype⟩, ?_⟩
    rw [htype] at hu ⊢
    rw [Key.value, typeOf?_struct, ← hu, ← typeOf?_struct, hT']

end Emitter

/-! ## The decorations of a module -/

/-- The instructions that decorate ids, in order. -/
def Module.decorations (m : Module) : List Instruction :=
  (m.find .decorate).map Placed.instruction

/-- The instructions that decorate an id, in order. -/
def Module.decorationsOf (m : Module) (id : Id) : List Instruction :=
  m.decorations.filter (·.operands.head? = some id)

/-- The instruction that decorates a matrix type. -/
def Instruction.coloring (matrix : Id) : Instruction :=
  ⟨.decorate, [matrix, Decoration.colMajor]⟩

/-- The instruction that marks a structure type as a block. -/
def Instruction.marking (struct : Id) : Instruction :=
  ⟨.decorate, [struct, Decoration.block]⟩

/-- The mark of a block is no decoration of a matrix. -/
theorem Instruction.isMajor_of_isBlock {i : Instruction} (h : i.isBlock = true) :
    i.isMajor = false := by
  simp only [isBlock, Bool.and_eq_true, decide_eq_true_eq] at h
  simp only [isMajor, h.2, decide_eq_false_iff_not]
  decide

/-- Decorations are those of matrices, those of blocks, and the others. -/
theorem filter_perm (decorations : List Instruction) :
    (decorations.filter Instruction.isMajor ++ (decorations.filter Instruction.isBlock ++
      decorations.filter Instruction.isPlacing)).Perm decorations := by
  have hblocks : decorations.filter Instruction.isBlock =
      (decorations.filter (!·.isMajor)).filter Instruction.isBlock := by
    rw [List.filter_filter]
    refine List.filter_congr fun i _ => ?_
    by_cases hblock : i.isBlock = true
    · simp [hblock, Instruction.isMajor_of_isBlock hblock]
    · simp [hblock]
  have hplacings : decorations.filter Instruction.isPlacing =
      (decorations.filter (!·.isMajor)).filter (!·.isBlock) := by
    rw [List.filter_filter]
    exact List.filter_congr fun i _ => Bool.and_comm _ _
  rw [hblocks, hplacings]
  exact ((List.filter_append_perm _ _).append_left _).trans (List.filter_append_perm _ _)

namespace Draft.WellFilled

variable {d : Draft}

/-- The decorations of the module are those that were emitted. -/
theorem decorations (hd : d.WellFilled) : d.toModule.decorations = d.emitted .decorations := by
  have hsection : d.instructions.filter (·.opcode = .decorate) =
      (d.emitted .decorations).filter (·.opcode = .decorate) :=
    hd.filter_opcode (by decide) (by decide)
  rw [Module.decorations, Module.map_find, Draft.instructions_toModule, hsection]
  refine List.filter_eq_self.mpr fun i hi => decide_eq_true ?_
  exact List.mem_singleton.mp (hd.parts _ (Draft.mem_emitted.mp hi))

/-- The decorations that matrix types ask for, type by type. -/
theorem majorsOf_eq (hd : d.WellFilled) :
    majorsOf d.log.toList = (d.toModule.find .typeMatrix).map fun i =>
      ⟨.decorate, i.instruction.operands.take 1 ++ [Decoration.colMajor]⟩ := by
  have honly : ∀ part ∈ Section.order, Opcode.typeMatrix ∈ part.opcodes → part = .globals := by
    decide
  have hread : d.log.toList.filterMap (fun e => e.2.major?) =
      (d.toModule.find .typeMatrix).filterMap fun p => p.instruction.major? :=
    hd.filterMap_log honly (by decide) fun i h => if_neg h
  rw [majorsOf, hread, ← List.filterMap_eq_map]
  refine List.filterMap_congr fun i hi => if_pos ?_
  exact of_decide_eq_true (List.mem_filter.mp hi).2

end Draft.WellFilled

/-- Matrix types whose decorations are decorations of matrices have results. -/
theorem exists_matrices {is : List Placed} (hop : ∀ i ∈ is, i.instruction.opcode = .typeMatrix)
    (hmajor : ∀ i ∈ is, (⟨.decorate, i.instruction.operands.take 1 ++ [Decoration.colMajor]⟩ :
      Instruction).isMajor = true) :
    ∃ matrices : List Id, is.map (·.instruction.resultId) = matrices.map some ∧
      (is.map fun i => (⟨.decorate, i.instruction.operands.take 1 ++ [Decoration.colMajor]⟩ :
        Instruction)) = matrices.map Instruction.coloring := by
  induction is with
  | nil => exact ⟨[], rfl, rfl⟩
  | cons i is ih =>
    obtain ⟨hopcode, hops⟩ := List.forall_mem_cons.mp hop
    obtain ⟨hfirst, hrest⟩ := List.forall_mem_cons.mp hmajor
    obtain ⟨matrices, hresults, hmajors⟩ := ih hops hrest
    obtain ⟨offset, op, operands⟩ := i
    obtain rfl : op = .typeMatrix := hopcode
    cases operands with
    | nil => simp [Instruction.isMajor] at hfirst
    | cons matrix operands =>
      refine ⟨matrix :: matrices, ?_, ?_⟩
      · rw [List.map_cons, hresults]
        rfl
      · rw [List.map_cons, hmajors]
        rfl

theorem Variable.head?_of_mem_placements {v : Variable} {i : Instruction} (hi : i ∈ v.placements) :
    i.operands.head? = some v.id := by
  obtain ⟨d, -, rfl⟩ := List.mem_map.mp hi
  rfl

/-- Variables with different ids have their decorations apart. -/
theorem filter_placements {vs : List Variable} (hids : (vs.map Variable.id).Nodup) {v : Variable}
    (hv : v ∈ vs) :
    (vs.flatMap Variable.placements).filter (·.operands.head? = some v.id) = v.placements := by
  have hself : ∀ v : Variable, v.placements.filter (·.operands.head? = some v.id) = v.placements :=
    fun v => List.filter_eq_self.mpr fun i hi =>
      decide_eq_true (Variable.head?_of_mem_placements hi)
  have hother : ∀ v' : Variable, v'.id ≠ v.id →
      v'.placements.filter (·.operands.head? = some v.id) = [] := by
    refine fun v' hne => List.filter_eq_nil_iff.mpr fun i hi => ?_
    simp [Variable.head?_of_mem_placements hi, hne]
  induction vs with
  | nil => cases hv
  | cons v' vs ih =>
    obtain ⟨hnot, hids⟩ := List.nodup_cons.mp hids
    rw [List.flatMap_cons, List.filter_append]
    rcases List.mem_cons.mp hv with rfl | hmem
    · have hrest : (vs.flatMap Variable.placements).filter (·.operands.head? = some v.id) = [] := by
        rw [List.filter_flatMap]
        refine List.flatMap_eq_nil_iff.mpr fun v' hv' => hother v' ?_
        rintro heq
        exact hnot (heq ▸ List.mem_map_of_mem hv')
      rw [hself, hrest, List.append_nil]
    · have hne : v'.id ≠ v.id := by
        intro heq
        exact hnot (heq ▸ List.mem_map_of_mem hmem)
      rw [hother v' hne, ih hids hmem, List.nil_append]

/-- Decorations that fall into those of matrices, of blocks and of variables. -/
structure SplitsInto (decorations : List Instruction) (matrices blocks : List Id)
    (vs : List Variable) : Prop where
  colorings : decorations.filter Instruction.isMajor = matrices.map Instruction.coloring
  markings : decorations.filter Instruction.isBlock = blocks.map Instruction.marking
  placements : decorations.filter Instruction.isPlacing = vs.flatMap Variable.placements
  distinct : (vs.map Variable.id).Nodup
  apart : ∀ v ∈ vs, v.id ∉ matrices ∧ v.id ∉ blocks

namespace SplitsInto

variable {decorations : List Instruction} {matrices blocks : List Id} {vs : List Variable}

/-- The decorations of a variable are its placements, in order. -/
theorem filter_variable (h : SplitsInto decorations matrices blocks vs) {v : Variable}
    (hv : v ∈ vs) : decorations.filter (·.operands.head? = some v.id) = v.placements := by
  -- All other decorations are on matrices and structs, which have ids of their own.
  have hneither : ∀ i ∈ decorations, i.operands.head? = some v.id → i.isPlacing = true := by
    intro i hi hhead
    have hmajor : i.isMajor = false := by
      refine Bool.eq_false_iff.mpr fun hmajor => ?_
      have hmem := List.mem_filter.mpr ⟨hi, hmajor⟩
      rw [h.colorings] at hmem
      obtain ⟨matrix, hmatrix, rfl⟩ := List.mem_map.mp hmem
      exact (h.apart v hv).1 (Option.some.inj hhead ▸ hmatrix)
    have hblock : i.isBlock = false := by
      refine Bool.eq_false_iff.mpr fun hblock => ?_
      have hmem := List.mem_filter.mpr ⟨hi, hblock⟩
      rw [h.markings] at hmem
      obtain ⟨struct, hstruct, rfl⟩ := List.mem_map.mp hmem
      exact (h.apart v hv).2 (Option.some.inj hhead ▸ hstruct)
    simp [Instruction.isPlacing, hmajor, hblock]
  rw [← filter_placements h.distinct hv, ← h.placements, List.filter_filter]
  refine List.filter_congr fun i hi => ?_
  by_cases hhead : i.operands.head? = some v.id
  · simp [hhead, hneither i hi hhead]
  · simp [hhead]

/-- What is left when the decorations of the variables are taken away. -/
theorem filter_rest (h : SplitsInto decorations matrices blocks vs) :
    (decorations.filter fun i => ∀ v ∈ vs, i.operands.head? ≠ some v.id).Perm
      (matrices.map Instruction.coloring ++ blocks.map Instruction.marking) := by
  have hperm : (matrices.map Instruction.coloring ++
      (blocks.map Instruction.marking ++ vs.flatMap Variable.placements)).Perm decorations := by
    rw [← h.colorings, ← h.markings, ← h.placements]
    exact filter_perm decorations
  refine (hperm.filter _).symm.trans ?_
  rw [List.filter_append, List.filter_append]
  have hmatrices : (matrices.map Instruction.coloring).filter
      (fun i => ∀ v ∈ vs, i.operands.head? ≠ some v.id) = matrices.map Instruction.coloring := by
    refine List.filter_eq_self.mpr (List.forall_mem_map.mpr fun matrix hmatrix => ?_)
    refine decide_eq_true fun v hv hhead => (h.apart v hv).1 ?_
    exact Option.some.inj hhead ▸ hmatrix
  have hblocks : (blocks.map Instruction.marking).filter
      (fun i => ∀ v ∈ vs, i.operands.head? ≠ some v.id) = blocks.map Instruction.marking := by
    refine List.filter_eq_self.mpr (List.forall_mem_map.mpr fun struct hstruct => ?_)
    refine decide_eq_true fun v hv hhead => (h.apart v hv).2 ?_
    exact Option.some.inj hhead ▸ hstruct
  have hvariables : (vs.flatMap Variable.placements).filter
      (fun i => ∀ v ∈ vs, i.operands.head? ≠ some v.id) = [] := by
    refine List.filter_eq_nil_iff.mpr fun i hi hnone => ?_
    obtain ⟨v, hv, hi⟩ := List.mem_flatMap.mp hi
    exact of_decide_eq_true hnone v hv (Variable.head?_of_mem_placements hi)
  rw [hmatrices, hblocks, hvariables, List.append_nil]

end SplitsInto

/-! ## Compiled modules -/

/-- The variable is decorated as the layout of the field asks, it is in the class that the layout
asks for unless the field is an image or an array of them, and its record says the same. -/
structure Module.Decorates (m : Module) (f : Field) (v : Variable) : Prop where
  asked : ∃ storage decorations, f.Asks storage decorations ∧
    m.decorationsOf v.id = decorations.map (fun d => ⟨.decorate, [v.id, d.1, d.2]⟩) ∧
    v.storage = (if f.type.isOpaque then .uniformConstant else storage) ∧
    v.States decorations ∧ (v.pushConstant = true ↔ storage = .pushConstant)
  declared : ∃ T, m.PointsTo v T

namespace Program.Staged

variable {N : String → Prop} {κ : Kinds} {p : Program} {o : Options} {c : Compilation}
  {s₁ s₂ s₃ : Emitter} {words : List Word}

/-- The blocks of a module are the structures that its uniforms and push constants are made of. -/
theorem mem_blocks_iff (h : p.Staged κ o c s₁ s₂ s₃)
    (hemitted : p.EmittedAs N c.record words c.emitter) (T : Id) :
    T ∈ c.emitter.blocks ↔ ∃ v ∈ c.record.globals,
      (v.storage = .uniform ∨ v.storage = .pushConstant) ∧ c.emitter.toModule.PointsTo v T ∧
        c.emitter.toModule.IsStruct T := by
  obtain ⟨hlength, hfields⟩ := List.forall₂_iff_zip.mp hemitted.fields
  rw [h.mem_blocks]
  constructor
  · rintro ⟨⟨f, v⟩, hfv, hblock⟩
    refine ⟨v, (List.of_mem_zip hfv).2, ?_⟩
    exact ((hfields hfv).isBlock_iff hemitted.consistent hemitted.noWrap).mp hblock
  · rintro ⟨v, hv, hblock⟩
    obtain ⟨i, hi, rfl⟩ := List.getElem_of_mem hv
    have hfv : (p.fields[i], c.record.globals[i]) ∈ p.fields.zip c.record.globals := by
      rw [← List.getElem_zip (h := by rw [List.length_zip]; omega)]
      exact List.getElem_mem _
    refine ⟨_, hfv, ?_⟩
    exact ((hfields hfv).isBlock_iff hemitted.consistent hemitted.noWrap).mpr hblock

/-- All decorations of a module. -/
theorem splitsInto (h : p.Staged κ o c s₁ s₂ s₃) (hmarked : c.emitter.Marked)
    (hemitted : p.EmittedAs N c.record words c.emitter) :
    ∃ matrices, (c.emitter.toModule.find .typeMatrix).map (·.instruction.resultId) =
        matrices.map some ∧
      SplitsInto c.emitter.toModule.decorations matrices c.emitter.blocks.reverse
        c.record.globals := by
  have hfilled := hemitted.consistent.filled
  obtain ⟨-, hmajors, hplaced⟩ := h.annotates
  have hmatrix : ∀ i ∈ c.emitter.toModule.find .typeMatrix, i.instruction.opcode = .typeMatrix :=
    fun i hi => of_decide_eq_true (List.mem_filter.mp hi).2
  obtain ⟨matrices, hresults, hcolorings⟩ := exists_matrices hmatrix fun i hi => by
    have hmem : (⟨.decorate, i.instruction.operands.take 1 ++ [Decoration.colMajor]⟩ :
        Instruction) ∈ (c.emitter.draft.emitted .decorations).filter Instruction.isMajor := by
      rw [hmajors, hfilled.majorsOf_eq]
      exact List.mem_map_of_mem hi
    exact (List.mem_filter.mp hmem).2
  refine ⟨matrices, hresults, ?_, ?_, ?_, hemitted.distinct, fun v hv => ?_⟩
  · rw [hfilled.decorations, hmajors, hfilled.majorsOf_eq, hcolorings]
  · rw [hfilled.decorations]
    exact hmarked.decorations
  · rw [hfilled.decorations]
    exact hplaced
  · obtain ⟨f, -, hf⟩ := Emitter.exists_declaresField hemitted.fields v hv
    obtain ⟨P, -, hvar⟩ := hf.emitted
    -- One instruction defines an id, and that of a variable defines no type.
    have hunique : ∀ {part : Section} {i : Instruction}, c.emitter.Has part i →
        i.resultId = some v.id → i.opcode = .var := by
      intro part i hi hid
      rw [(hi.unique hfilled hemitted.noWrap hvar hid rfl).2]
    refine ⟨fun hid => ?_, fun hid => ?_⟩
    · have hresult : some v.id ∈
          (c.emitter.toModule.find .typeMatrix).map (·.instruction.resultId) :=
        hresults ▸ List.mem_map_of_mem hid
      obtain ⟨i, hi, hresult⟩ := List.mem_map.mp hresult
      have hi' : i.instruction ∈ c.emitter.draft.instructions := by
        rw [← Draft.instructions_toModule]
        exact List.mem_map_of_mem (List.mem_filter.mp hi).1
      obtain ⟨part, hlog⟩ := Draft.mem_instructions hi'
      cases (hmatrix i hi).symm.trans (hunique hlog hresult)
    · obtain ⟨-, -, -, -, ids, hstruct⟩ :=
        (h.mem_blocks_iff hemitted v.id).mp (List.mem_reverse.mp hid)
      obtain ⟨part, hlog⟩ := (Emitter.mem_toModule hfilled (by decide)).mp hstruct
      cases hunique hlog rfl

end Program.Staged

/-- The variable of each field is decorated as the layout of the field asks, and lives where it
asks. All other decorations are those of the matrix types and of the structures that uniforms and
push constants are made of, one for each. -/
theorem decorations_of_compile {p : Program} {o : Options} {words : List Word}
    (hids : p.idsTaken o < idLimit) (h : (compile (some p) o).words = .ok words) :
    ∃ (m : Module) (matrices blocks : List Id), Module.decode words = .ok m ∧
      List.Forall₂ m.Decorates p.fields (compile (some p) o).record.globals ∧
      (m.find .typeMatrix).map (·.instruction.resultId) = matrices.map some ∧
      blocks.Nodup ∧
      (∀ T, T ∈ blocks ↔ ∃ v ∈ (compile (some p) o).record.globals,
        (v.storage = .uniform ∨ v.storage = .pushConstant) ∧ m.PointsTo v T ∧ m.IsStruct T) ∧
      (m.decorations.filter fun i =>
        ∀ v ∈ (compile (some p) o).record.globals, i.operands.head? ≠ some v.id).Perm
        (matrices.map (fun T => ⟨.decorate, [T, Decoration.colMajor]⟩) ++
          blocks.map fun T => ⟨.decorate, [T, Decoration.block]⟩) := by
  obtain ⟨c, hrun, hwords, hrecord⟩ := emitModule_of_compile h
  rw [hrecord]
  obtain ⟨s₁, s₂, s₃, hstaged⟩ := Program.staged_of_emitModule (p.within_all o False) hrun
  have hmarked : c.emitter.Marked := by
    obtain ⟨pub, hturns⟩ := Program.leads_of_emitModule (p.within_all o False)
    rw [hrun] at hturns
    exact hturns.marked (Emitter.marked_start _)
  have hemitted := emittedAs_of_emitModule p.named_all hids hrun hwords
  obtain ⟨matrices, hmatrices, hsplits⟩ := hstaged.splitsInto hmarked hemitted
  refine ⟨c.emitter.toModule, matrices, c.emitter.blocks.reverse, hemitted.decoded, ?_, hmatrices,
    List.nodup_reverse.mpr hmarked.nodup, ?_, hsplits.filter_rest⟩
  · obtain ⟨hlength, hdeclared⟩ := List.forall₂_iff_zip.mp hemitted.fields
    obtain ⟨-, hresolved⟩ := List.forall₂_iff_zip.mp hstaged.fields.resolved
    refine List.forall₂_iff_zip.mpr ⟨hlength, fun {f v} hfv => ?_⟩
    obtain ⟨r, hr, hv⟩ := hresolved hfv
    obtain ⟨hasks, hstates, hpush⟩ := Field.asks_of_resolve hr v.id
    rw [← hv] at hstates
    have hplacements := hsplits.filter_variable (List.of_mem_zip hfv).2
    refine ⟨⟨r.storage, r.decorations, hasks, ?_, ?_, hstates, ?_⟩,
      (hdeclared hfv).exists_pointsTo hemitted.consistent⟩
    · rw [Module.decorationsOf, hplacements, hv]
      rfl
    · rw [hv]
      exact congrArg Key.storage (Key.normalize_pointer f.type r.storage)
    · rw [hv]
      exact hpush
  · intro T
    rw [List.mem_reverse]
    exact hstaged.mem_blocks_iff hemitted T

theorem decorations_of_compile_tint : ∃ words m, (compile (some .tint) {}).words = .ok words ∧
    Module.decode words = .ok m ∧
    List.Forall₂ m.Decorates Program.tint.fields (compile (some .tint) {}).record.globals ∧
    ∃ blocks : List Id, blocks.Nodup ∧
      ∀ T, T ∈ blocks ↔ ∃ v ∈ (compile (some .tint) {}).record.globals,
        (v.storage = .uniform ∨ v.storage = .pushConstant) ∧ m.PointsTo v T ∧ m.IsStruct T := by
  obtain ⟨words, hwords⟩ := compile_tint
  obtain ⟨m, matrices, blocks, hm, hfields, -, hnodup, hblocks, -⟩ :=
    decorations_of_compile idsTaken_tint hwords
  exact ⟨words, m, hwords, hm, hfields, blocks, hnodup, hblocks⟩

end ShaderStage

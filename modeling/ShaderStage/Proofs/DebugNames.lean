import ShaderStage.Proofs.Grammar
import ShaderStage.Proofs.Naming

/-! # Debug names of a program

The variables of fields and locals have the names that the program declares, functions those of
their methods, and structure types their own, if no name can be taken for a part of a signature. The
result of an operation is named after its operand, or has no name at all.

* `Emitter.namesType_of_typeOf?`: the names in a type;
* `Emitter.Emits.names`: the names of what an operation computes;
* `Emitter.EmitsMethods.names`: the names in the code of methods;
* `names_of_compile`: the names in the module of a program. -/

namespace ShaderStage

/-! ## Types -/

mutual

/-- The id is the type, and every structure in it that has a name is named so. -/
def Module.NamesType (m : Module) : Ty → Id → Prop
  | .array elem _, T =>
    ∃ e length, ⟨.typeArray, [T, e, length]⟩ ∈ m.instructions ∧ m.NamesType elem e
  | .pointer elem, T =>
    ∃ storage e, ⟨.typePointer, [T, storage, e]⟩ ∈ m.instructions ∧ m.NamesType elem e
  | .struct name members, T =>
    ∃ ids, ⟨.typeStruct, T :: ids⟩ ∈ m.instructions ∧
      (name ≠ "" → m.name? T = some (Literal.bytesOf name)) ∧ m.NamesMembers members ids
  | _, _ => True

/-- The ids are the types of the members, named likewise. -/
def Module.NamesMembers (m : Module) : Members → List Id → Prop
  | .nil, ids => ids = []
  | .cons _ type rest, ids =>
    ∃ id ids', ids = id :: ids' ∧ m.NamesType type id ∧ m.NamesMembers rest ids'

end

namespace Emitter

variable {N : String → Prop} {w : Emitter}

/-- With readable names, a pointer points to what it says. -/
theorem Consistent.pointer_of_readable (hs : w.Consistent N)
    (hN : ∀ name, N name → ReadableName name) {elem : Ty} {storage : StorageClass} {P : Id}
    (helem : elem.Named N) (h : w.typeOf? ⟨.pointer elem, storage⟩ = some P) :
    ∃ T storage', w.Has .globals
        ⟨.typePointer, [P, (Key.mk (.pointer elem) storage).normalize.storage, T]⟩ ∧
      w.typeOf? ⟨elem, storage'⟩ = some T := by
  have hdef := hs.defines_of_readable hN (k := ⟨.pointer elem, storage⟩) helem h
  simp only [Key.canon, Key.normalize_pointer, Ty.canon, Ty.canon_underlying] at hdef
  cases hdef with
  | pointer hp hhas =>
    rw [typeOf?_canon] at hp
    exact ⟨_, _, hhas, hp⟩

mutual

/-- With readable names, a type that is known is defined as what it is, with the names in it. -/
theorem namesType_of_typeOf? (hw : w.Legible) (hs : w.Consistent N)
    (hN : ∀ name, N name → ReadableName name) :
    ∀ (t : Ty) (storage : StorageClass) {T : Id}, t.Named N → t.Named NulFree →
      w.typeOf? ⟨t, storage⟩ = some T → w.toModule.NamesType t T
  | .array elem length, storage, T, ht, htext, h => by
    have hdef := hs.defines_of_readable hN (k := ⟨.array elem length, storage⟩) ht h
    cases hdef with
    | array _ he _ hhas =>
      rw [Key.value, typeOf?_canon] at he
      exact ⟨_, _, (mem_toModule hw.filled (by decide)).mpr ⟨_, hhas⟩,
        namesType_of_typeOf? hw hs hN elem _ ht htext he⟩
  | .pointer elem, storage, T, ht, htext, h => by
    obtain ⟨e, _, hhas, he⟩ := hs.pointer_of_readable hN (show elem.Named N from ht) h
    exact ⟨_, e, (mem_toModule hw.filled (by decide)).mpr ⟨_, hhas⟩,
      namesType_of_typeOf? hw hs hN elem _ ht htext he⟩
  | .struct name members, storage, T, ht, htext, h => by
    have hdef := hs.defines_of_readable hN (k := ⟨.struct name members, storage⟩) ht h
    cases hdef with
    | struct _ hids hhas hname =>
      refine ⟨_, (mem_toModule hw.filled (by decide)).mpr ⟨_, hhas⟩, fun hne => ?_,
        namesMembers_of_memberTypes hw hs hN members ht.2 htext.2 hids⟩
      exact hw.name?_of_has htext.1 (hname.resolve_left hne)
  | .unset, _, _, _, _, _ | .bool, _, _, _, _, _ | .char, _, _, _, _, _ | .matrix4, _, _, _, _, _
  | .sampledImage2D, _, _, _, _, _ | .void, _, _, _, _, _ | .int _, _, _, _, _, _
  | .enum _ _, _, _, _, _, _ | .float _, _, _, _, _, _ | .vector _, _, _, _, _, _
  | .string, _, _, _, _, _ | .dateTime, _, _, _, _, _ | .null, _, _, _, _, _ => trivial

theorem namesMembers_of_memberTypes (hw : w.Legible) (hs : w.Consistent N)
    (hN : ∀ name, N name → ReadableName name) :
    ∀ (members : Members) {ids : List Id}, members.Named N → members.Named NulFree →
      w.MemberTypes members.canon ids → w.toModule.NamesMembers members ids
  | .nil, _, _, _, hids => hids
  | .cons name type rest, _, hm, htext, hids => by
    obtain ⟨id, ids', rfl, hid, hrest⟩ := hids
    rw [Key.value, typeOf?_canon] at hid
    exact ⟨id, ids', rfl, namesType_of_typeOf? hw hs hN type _ hm.2.1 htext.2.1 hid,
      namesMembers_of_memberTypes hw hs hN rest hm.2.2 htext.2.2 hrest⟩

end

/-- The type that a variable points to. -/
theorem exists_pointsTo_namesType (hw : w.Legible) (hs : w.Consistent N)
    (hN : ∀ name, N name → ReadableName name) {t : Ty} {storage : StorageClass} {v : Variable}
    {P : Id} (ht : t.Named N) (htext : t.Named NulFree)
    (hkey : v.key = (Key.pointer t storage).normalize) (hP : w.typeOf? v.key = some P)
    (hvar : ⟨.var, [P, v.id, v.storage]⟩ ∈ w.toModule.instructions) :
    ∃ T, w.toModule.PointsTo v T ∧ w.toModule.NamesType t T := by
  rw [hkey, typeOf?, Key.signature_normalize] at hP
  obtain ⟨T, storage', hhas, hT⟩ := hs.pointer_of_readable hN ht hP
  have hpointer := (mem_toModule hw.filled (by decide)).mpr ⟨_, hhas⟩
  refine ⟨T, ⟨P, hvar, ?_⟩, namesType_of_typeOf? hw hs hN t storage' ht htext hT⟩
  rw [Variable.storage, hkey]
  exact hpointer

end Emitter

/-! ## Operations -/

/-- The operation computes a value that was not there before. -/
def Operation.computes : Operation → Bool
  | .deref | .extract _ | .extract2 _ _ | .access _ | .construct _ _ | .math _ | .narrowVec4
  | .narrowMat4 | .binary _ => true
  | _ => false

/-- The code of an operation, and the debug names of what it computes. -/
inductive Module.Names (m : Module) : Operation → List Instruction → Prop
  | deref {T id p : Id} (h : m.name? id = m.derivedName p "-loaded") :
      Names m .deref [⟨.load, [T, id, p]⟩]
  | extract {i : UInt32} {T id b : Id} (h : m.name? id = m.derivedName b (componentSuffix i)) :
      Names m (.extract i) [⟨.compositeExtract, [T, id, b, i]⟩]
  | extract2 {row col : UInt32} {T id b : Id}
      (h : m.name? id = m.derivedName b (cellSuffix row col)) :
      Names m (.extract2 row col) [⟨.compositeExtract, [T, id, b, row, col]⟩]
  | access {i : UInt32} {T id b index U : Id}
      (hindex : ⟨.constant, [U, index, i]⟩ ∈ m.instructions)
      (h : m.name? id = m.derivedName b (accessSuffix i)) :
      Names m (.access i) [⟨.accessChain, [T, id, b, index]⟩]
  | narrowVec4 {F T v x y z id : Id} (hx : m.name? x = m.derivedName v ".x")
      (hy : m.name? y = m.derivedName v ".y") (hz : m.name? z = m.derivedName v ".z")
      (h : m.name? id = m.derivedName v ".xyz") :
      Names m .narrowVec4 [⟨.compositeExtract, [F, x, v, 0]⟩, ⟨.compositeExtract, [F, y, v, 1]⟩,
        ⟨.compositeExtract, [F, z, v, 2]⟩, ⟨.compositeConstruct, [T, id, x, y, z]⟩]
  | construct {t : Ty} {count : Int} {T id : Id} {parts : List Id} (h : m.name? id = none) :
      Names m (.construct t count) [⟨.compositeConstruct, T :: id :: parts⟩]
  | math {f : MathFunction} {T id set a : Id} {number : Word} (h : m.name? id = none) :
      Names m (.math f) [⟨.extInst, [T, id, set, number, a]⟩]
  | binary {op : BinaryOperator} {c : Opcode} {T id l r : Id} (hc : c ∈ Opcode.arithmetic)
      (h : m.name? id = none) : Names m (.binary op) [⟨c, [T, id, l, r]⟩]
  | other {op : Operation} {code : List Instruction} (hop : op.computes = false)
      (hcode : ∀ i ∈ code, i.opcode ∈ [.store, .ret, .returnValue]) : Names m op code

/-- Only what an operation computes has an id. -/
theorem Module.Names.opcode_mem {m : Module} {op : Operation} {code : List Instruction}
    (h : m.Names op code) : ∀ i ∈ code, i.opcode ∈ bodyOpcodes := by
  cases h with
  | binary hc =>
    refine List.forall_mem_singleton.mpr ?_
    exact Progress.opcodes_subset (.running []) (List.mem_append_right _ hc)
  | other _ hcode =>
    have hall : [Opcode.store, .ret, .returnValue] ⊆ bodyOpcodes := by decide
    exact fun i hi => hall (hcode i hi)
  | _ => simp [bodyOpcodes, Progress.opcodes]

namespace Emitter

variable {w : Emitter} (hw : w.Legible) {id : Id} {c : Opcode} {T : Id} {operands : List Word}

include hw

/-- A result that is known by the name of an operand is named after it. -/
theorem Legible.derived (hshape : c.shape = .typedResult) (hc : c ∈ bodyOpcodes)
    (h : w.Has .functions ⟨c, T :: id :: operands⟩) {operand : Id} {k : Key} {suffix : String}
    (hoperand : w.Value operand k) (hname : w.Derives operand suffix id) :
    w.toModule.name? id = w.toModule.derivedName operand suffix := by
  obtain ⟨b, b', hb, hb', hsuffixed⟩ := hname
  rw [hw.name?_of_code hshape hc h hb', hsuffixed,
    Module.derivedName_eq (hw.name?_of_value hoperand hb)]

/-- A result that is known by no name has none. -/
theorem Legible.nameless (hshape : c.shape = .typedResult) (hc : c ∈ bodyOpcodes)
    (h : w.Has .functions ⟨c, T :: id :: operands⟩) (hname : w.Nameless id) :
    w.toModule.name? id = none := by
  obtain ⟨b, hb, hempty⟩ := hname
  rw [hw.name?_of_code hshape hc h hb, hempty]
  rfl

/-- The module names what an operation computes. -/
theorem Emits.names {Γ : Scope} {stack : List Id} {op : Operation} {code : List Instruction}
    {progress : Progress} (h : w.Emits Γ stack op code progress)
    (hcode : ∀ i ∈ code, w.Has .functions i) : w.toModule.Names op code := by
  cases h with
  | loadField | loadLocal | pushUint | pushFloat | dup | pop => exact .other rfl nofun
  | storeField | storeLocal | store | ret | retValue =>
    exact .other rfl (List.forall_mem_singleton.mpr (by simp))
  | deref hp _ _ hname =>
    exact .deref (hw.derived (by decide) (by decide) (hcode _ List.mem_cons_self) hp hname)
  | extract hb _ _ hname =>
    exact .extract (hw.derived (by decide) (by decide) (hcode _ List.mem_cons_self) hb hname)
  | extract2 hb _ _ _ hname =>
    exact .extract2 (hw.derived (by decide) (by decide) (hcode _ List.mem_cons_self) hb hname)
  | access hb _ _ hindex _ hname =>
    obtain ⟨U, -, hconstant⟩ := hindex.emitted
    exact .access ((mem_toModule hw.filled (by decide)).mpr ⟨_, hconstant⟩)
      (hw.derived (by decide) (by decide) (hcode _ List.mem_cons_self) hb hname)
  | construct _ _ _ _ hname =>
    exact .construct (hw.nameless (by decide) (by decide) (hcode _ List.mem_cons_self) hname)
  | math _ _ _ _ _ _ hname =>
    exact .math (hw.nameless (by decide) (by decide) (hcode _ List.mem_cons_self) hname)
  | narrowVec4 hv _ _ _ _ hxname hyname hzname hname =>
    simp only [List.forall_mem_cons] at hcode
    obtain ⟨hx, hy, hz, hid, -⟩ := hcode
    exact .narrowVec4 (hw.derived (by decide) (by decide) hx hv hxname)
      (hw.derived (by decide) (by decide) hy hv hyname)
      (hw.derived (by decide) (by decide) hz hv hzname)
      (hw.derived (by decide) (by decide) hid hv hname)
  | @binary st op l r id T kl kr c t swap _ _ hresolves _ hname =>
    have hc := hresolves.opcode_mem
    have hbody : c ∈ bodyOpcodes :=
      Progress.opcodes_subset (.running []) (List.mem_append_right _ hc)
    have hunnamed {operands : List Word} (h : w.Has .functions ⟨c, T :: id :: operands⟩) :=
      hw.nameless (Opcode.shape_of_mem_arithmetic hc) hbody h hname
    cases swap with
    | true => exact .binary hc (hunnamed (hcode _ List.mem_cons_self))
    | false => exact .binary hc (hunnamed (hcode _ List.mem_cons_self))

/-- A body, operation by operation. -/
theorem EmitsAll.names {Γ : Scope} {ops : List Operation} {code : List Instruction}
    {progress progress' : Progress} (h : w.EmitsAll Γ progress ops code progress')
    (hcode : ∀ i ∈ code, w.Has .functions i) :
    ∃ segments, code = segments.flatten ∧ List.Forall₂ w.toModule.Names ops segments := by
  induction h with
  | nil => exact ⟨[], rfl, .nil⟩
  | cons hop _ ih =>
    obtain ⟨hfirst, hrest⟩ := List.forall_mem_append.mp hcode
    obtain ⟨segments, rfl, hsegments⟩ := ih hrest
    exact ⟨_ :: segments, rfl, .cons (hop.names hw hfirst) hsegments⟩

end Emitter

/-! ## Methods -/

/-- The variables of locals have the names of the locals, or are numbered by their positions. -/
def Method.NamesLocals (m : Module) (locals : List (Local × Nat)) (vs : List Variable) : Prop :=
  List.Forall₂ (fun l v => m.name? v.id = some (Literal.bytesOf
    (if l.1.name = "" then "local" ++ toString l.2 else l.1.name))) locals vs

/-- The code of a method and the debug names in it: of the function, of a variable for each local,
and of what each operation computes. -/
inductive Module.NamesMethod (m : Module) (method : Method) (f : Function) :
    List Instruction → Prop
  | intro {F l : Id} {declarations ending : List Instruction} {segments : List (List Instruction)}
      (hname : m.name? f.id = some (Literal.bytesOf method.name))
      (hlocals : Method.NamesLocals m method.locals.zipIdx f.locals)
      (hdeclarations : List.Forall₂ (fun v i => i.opcode = .var ∧ i.resultId = some v.id)
        f.locals declarations)
      (hbody : List.Forall₂ m.Names method.body segments)
      (hending : ∀ i ∈ ending, i.opcode = .ret) :
      NamesMethod m method f (⟨.function, [f.returnType, f.id, 0, F]⟩ :: ⟨.label, [l]⟩ ::
        (declarations ++ segments.flatten ++ ending ++ [⟨.functionEnd, []⟩]))

/-- The code of methods, one function for each, and the debug names in it. -/
inductive Module.NamesMethods (m : Module) :
    List Method → List Function → List (List Instruction) → Prop
  | nil : NamesMethods m [] [] []
  | cons {method : Method} {methods : List Method} {f : Function} {fs : List Function}
      {code : List Instruction} {codes : List (List Instruction)}
      (h : m.NamesMethod method f code) (hrest : NamesMethods m methods fs codes) :
      NamesMethods m (method :: methods) (f :: fs) (code :: codes)

namespace Emitter

variable {w : Emitter} (hw : w.Legible) {globals : List Variable}

include hw

/-- Locals are called by their names. -/
theorem LabelsLocals.names {locals : List (Local × Nat)} {vs : List Variable}
    (h : w.LabelsLocals locals vs) (htexts : ∀ l ∈ locals, NulFree l.1.name) :
    Method.NamesLocals w.toModule locals vs := by
  refine List.forall₂_iff_zip.mpr ⟨List.Forall₂.length_eq h, fun {l v} hlv => ?_⟩
  have htext := Method.nulFree_localName (htexts l (List.of_mem_zip hlv).1) l.2
  exact hw.name?_of_has htext ((List.forall₂_iff_zip.mp h).2 hlv)

/-- The names in the code of a method. -/
theorem EmitsMethod.names {m : Method} {f : Function} {code : List Instruction}
    (h : w.EmitsMethod globals m f code) (hname : NulFree m.name)
    (htexts : ∀ l ∈ m.locals, NulFree l.name) (hcode : ∀ i ∈ code, w.Has .functions i) :
    w.toModule.NamesMethod m f code := by
  cases h with
  | intro _ _ _ hlocals hbody hending hlabel hlabels =>
    simp only [List.forall_mem_cons, List.forall_mem_append] at hcode
    obtain ⟨-, -, ⟨⟨-, hbodyCode⟩, -⟩, -⟩ := hcode
    obtain ⟨segments, rfl, hsegments⟩ := hbody.names hw hbodyCode
    refine .intro (hw.name?_of_has hname hlabel) (hlabels.names hw fun l hl => ?_) hlocals.forall₂
      hsegments hending.opcode_eq
    exact htexts l.1 (List.fst_mem_of_mem_zipIdx hl)

/-- The names in the code of methods, method by method. -/
theorem EmitsMethods.names {ms : List Method} {fs : List Function} {code : List Instruction}
    (h : w.EmitsMethods globals ms fs code)
    (htexts : ∀ m ∈ ms, NulFree m.name ∧ ∀ l ∈ m.locals, NulFree l.name)
    (hcode : ∀ i ∈ code, w.Has .functions i) :
    ∃ codes, code = codes.flatten ∧ w.toModule.NamesMethods ms fs codes := by
  induction h with
  | nil => exact ⟨[], rfl, .nil⟩
  | cons hm _ ih =>
    obtain ⟨⟨hname, hlocals⟩, htexts⟩ := List.forall_mem_cons.mp htexts
    obtain ⟨hfirst, hrest⟩ := List.forall_mem_append.mp hcode
    obtain ⟨codes, rfl, hcodes⟩ := ih htexts hrest
    exact ⟨_ :: codes, rfl, .cons (hm.names hw hname hlocals hfirst) hcodes⟩

end Emitter

/-! ## Programs -/

/-- Every name that a program declares has a property. -/
structure Program.EachName (ok : String → Prop) (p : Program) : Prop where
  fields : ∀ f ∈ p.fields, ok f.name
  methods : ∀ m ∈ p.methods, ok m.name
  locals : ∀ m ∈ p.methods, ∀ l ∈ m.locals, ok l.name
  types : p.EachType (Ty.Named ok)

/-- The types that a method mentions, with the names in them. -/
structure Module.NamesTypesOf (m : Module) (method : Method) (f : Function) : Prop where
  result : m.NamesType method.result f.returnType
  locals : List.Forall₂ (fun l v => ∃ T, m.PointsTo v T ∧ m.NamesType l.type T)
    method.locals f.locals
  constructs : ∀ t count, .construct t count ∈ method.body →
    ∃ T id parts, ⟨.compositeConstruct, T :: id :: parts⟩ ∈ m.instructions ∧ m.NamesType t T

/-- What follows from a relation to something holds along the list. -/
theorem forall_mem_of_forall₂ {α β : Type} {R : α → β → Prop} {P : β → Prop}
    (himp : ∀ a b, R a b → P b) {as : List α} {bs : List β} (h : List.Forall₂ R as bs) :
    ∀ b ∈ bs, P b := by
  induction h with
  | nil => nofun
  | cons hab _ ih => exact List.forall_mem_cons.mpr ⟨himp _ _ hab, ih⟩

theorem Module.NamesMethod.isFunction {m : Module} {method : Method} {f : Function}
    {code : List Instruction} (h : m.NamesMethod method f code) : IsFunction code := by
  have hplain : ∀ op ∈ [.label, .var, .ret] ++ bodyOpcodes, op ∉ [.function, .functionEnd] := by
    decide
  cases h with
  | @intro F l declarations ending segments _ _ hdeclarations hbody hending =>
    have hvars : ∀ i ∈ declarations, i.opcode = .var :=
      forall_mem_of_forall₂ (fun _ _ h => h.1) hdeclarations
    have hcode : ∀ code ∈ segments, ∀ i ∈ code, i.opcode ∈ bodyOpcodes :=
      forall_mem_of_forall₂ (fun _ _ h => h.opcode_mem) hbody
    refine ⟨⟨.function, [f.returnType, f.id, 0, F]⟩,
      ⟨.label, [l]⟩ :: (declarations ++ segments.flatten ++ ending), ⟨.functionEnd, []⟩, by simp,
      rfl, rfl, fun i hi => hplain _ ?_⟩
    -- The label, the locals, the body, and a return that the method may have left out.
    simp only [List.mem_cons, List.mem_append, List.mem_flatten] at hi
    rcases hi with rfl | (hi | ⟨code, hmem, hi⟩) | hi
    · simp
    · simp [hvars i hi]
    · exact List.mem_append_right _ (hcode code hmem i hi)
    · simp [hending i hi]

/-- The code of methods is cut into functions again. -/
theorem Module.NamesMethods.cutFunctions_eq {m : Module} {methods : List Method}
    {fs : List Function} {codes : List (List Instruction)} (h : m.NamesMethods methods fs codes) :
    cutFunctions codes.flatten = codes := by
  induction h with
  | nil => rfl
  | cons hm _ ih => rw [List.flatten_cons, cutFunctions_append hm.isFunction, ih]

namespace Emitter

section

variable {N : String → Prop} {w : Emitter} (hw : w.Legible) (hs : w.Consistent N)
  (hN : ∀ name, N name → ReadableName name)

include hw hs hN

/-- The type of a field is called by its names. -/
theorem DeclaresField.namesType {f : Field} {v : Variable} (h : w.DeclaresField f v)
    (hf : f.type.Named N) (htext : f.type.Named NulFree) :
    ∃ T, w.toModule.PointsTo v T ∧ w.toModule.NamesType f.type T := by
  obtain ⟨r, -, hkey⟩ := h.resolved
  obtain ⟨P, hP, hvar⟩ := h.emitted
  exact exists_pointsTo_namesType hw hs hN hf htext hkey hP
    ((mem_toModule hw.filled (by decide)).mpr ⟨_, hvar⟩)

/-- The types of locals are called by their names. -/
theorem DeclaresLocals.namesTypes {ls : List Local} {vs : List Variable} {code : List Instruction}
    (h : w.DeclaresLocals ls vs code) (hls : ∀ l ∈ ls, l.type.Named N)
    (htexts : ∀ l ∈ ls, l.type.Named NulFree) (hcode : ∀ i ∈ code, i ∈ w.toModule.instructions) :
    List.Forall₂ (fun l v => ∃ T, w.toModule.PointsTo v T ∧ w.toModule.NamesType l.type T) ls
      vs := by
  induction h with
  | nil => exact .nil
  | cons himage hkey hT _ _ ih =>
    obtain ⟨hl, hls⟩ := List.forall_mem_cons.mp hls
    obtain ⟨htext, htexts⟩ := List.forall_mem_cons.mp htexts
    obtain ⟨hvar, hcode⟩ := List.forall_mem_cons.mp hcode
    refine .cons (exists_pointsTo_namesType hw hs hN hl htext hkey hT ?_) (ih hls htexts hcode)
    rw [Variable.storage, hkey, Key.pointer, Key.normalize_pointer, himage]
    exact hvar

/-- The type of a composite is called by its names. -/
theorem EmitsAll.namesType {Γ : Scope} {ops : List Operation} {code : List Instruction}
    {progress progress' : Progress} (h : w.EmitsAll Γ progress ops code progress')
    (hcode : ∀ i ∈ code, i ∈ w.toModule.instructions) {t : Ty} {count : Int}
    (hop : .construct t count ∈ ops) (ht : t.Named N) (htext : t.Named NulFree) :
    ∃ T id parts, ⟨.compositeConstruct, T :: id :: parts⟩ ∈ w.toModule.instructions ∧
      w.toModule.NamesType t T := by
  induction h with
  | nil => cases hop
  | cons hemits _ ih =>
    obtain ⟨hcode, hcode'⟩ := List.forall_mem_append.mp hcode
    rcases List.mem_cons.mp hop with rfl | hop
    · cases hemits with
      | construct _ _ _ hid =>
        exact ⟨_, _, _, hcode _ List.mem_cons_self,
          namesType_of_typeOf? hw hs hN t .none ht htext hid.1⟩
    · exact ih hcode' hop

/-- The types in a method are called by their names. -/
theorem EmitsMethod.namesTypesOf {globals : List Variable} {m : Method} {f : Function}
    {code : List Instruction} (h : w.EmitsMethod globals m f code) (hm : m.EachType (Ty.Named N))
    (htexts : m.EachType (Ty.Named NulFree)) (hcode : ∀ i ∈ code, i ∈ w.toModule.instructions) :
    w.toModule.NamesTypesOf m f := by
  cases h with
  | intro _ hresult _ hlocals hbody _ =>
    -- Of the code, only the declarations and the body mention types.
    simp only [List.forall_mem_cons, List.forall_mem_append] at hcode
    obtain ⟨-, -, ⟨⟨hdeclarations, hbodyCode⟩, -⟩, -⟩ := hcode
    constructor
    case result => exact namesType_of_typeOf? hw hs hN _ _ hm.result htexts.result hresult
    case locals => exact hlocals.namesTypes hw hs hN hm.locals htexts.locals hdeclarations
    case constructs =>
      intro t count hop
      exact hbody.namesType hw hs hN hbodyCode hop (hm.constructs t count hop)
        (htexts.constructs t count hop)

/-- The types in methods are called by their names. -/
theorem EmitsMethods.namesTypesOf {globals : List Variable} {ms : List Method} {fs : List Function}
    {code : List Instruction} (h : w.EmitsMethods globals ms fs code)
    (hms : ∀ m ∈ ms, m.EachType (Ty.Named N)) (htexts : ∀ m ∈ ms, m.EachType (Ty.Named NulFree))
    (hcode : ∀ i ∈ code, i ∈ w.toModule.instructions) :
    List.Forall₂ w.toModule.NamesTypesOf ms fs := by
  induction h with
  | nil => exact .nil
  | cons hm _ ih =>
    obtain ⟨hnamed, hms⟩ := List.forall_mem_cons.mp hms
    obtain ⟨htext, htexts⟩ := List.forall_mem_cons.mp htexts
    obtain ⟨hcode, hcode'⟩ := List.forall_mem_append.mp hcode
    exact .cons (hm.namesTypesOf hw hs hN hnamed htext hcode) (ih hms htexts hcode')

end

/-- What the operations of bodies emit stands in the code. -/
theorem mem_code_of_opcode {w : Emitter} (hw : w.draft.WellFilled) {i : Instruction}
    (hi : i ∈ w.toModule.instructions) (hop : i.opcode ∈ bodyOpcodes) : i ∈ w.code := by
  have honly : ∀ part ∈ Section.order, ∀ op ∈ bodyOpcodes, op ∈ part.opcodes →
      part = .functions := by decide
  rw [Draft.instructions_toModule] at hi
  obtain ⟨part, hlog⟩ := Draft.mem_instructions hi
  obtain rfl := honly part part.mem_order _ hop (hw.parts _ hlog)
  exact Draft.mem_emitted.mpr hlog

/-- Code stands in the module. -/
theorem mem_toModule_of_code {w : Emitter} {i : Instruction} (hi : i ∈ w.code) :
    i ∈ w.toModule.instructions := by
  rw [instructions_eq_sections]
  exact List.mem_append_right _ hi

end Emitter

/-- All names of a program can be written into a module and read again. -/
theorem Program.EachName.within {p : Program} (h : p.EachName NulFree) {announced : String → Prop}
    {o : Options} (ho : o.Within (.nulFree announced)) : p.Within (.nulFree announced) o where
  fields f hf := ⟨h.fields f hf, fun _ _ => h.types.fields f hf⟩
  methods m hm :=
    { name := h.methods m hm
      result := (h.types.methods m hm).result
      locals := fun l hl => ⟨(h.types.methods m hm).locals l hl, h.locals m hm l hl⟩
      constructs := (h.types.methods m hm).constructs }
  derefs _ _ _ hkey := hkey
  options := ho

/-- A program whose names have no zero bytes leaves a legible emitter. -/
theorem Program.EachName.legible {p : Program} (h : p.EachName NulFree) {o : Options}
    {c : Compilation} (hrun : p.emitModule o { emitter := .start o.moduleVersion } = .ok () c)
    (hwrap : c.emitter.NoWrap) : c.emitter.Legible := by
  have ho : o.Within (.nulFree fun _ => True) :=
    ⟨fun _ _ => trivial, trivial, fun _ _ => trivial⟩
  have hleads := Program.leads_of_emitModule (h.within ho)
  rw [hrun] at hleads
  obtain ⟨pub, hturns⟩ := hleads
  exact Emitter.legible_of_turns (N := NulFree) hturns ⟨fun _ hkey => hkey, id⟩
    (hturns.ready (Program.ready_start _)) (fun _ h => h) hwrap

/-- No id is named twice. The variables of fields and locals have the names of those, functions the
names of their methods, and what an operation computes is named after its operand or not at all. If
all names in types are readable, structures have their names as well. -/
theorem names_of_compile {p : Program} {o : Options} {words : List Word}
    (hids : p.idsTaken o < idLimit) (hnames : p.EachName NulFree)
    (h : (compile (some p) o).words = .ok words) :
    ∃ m, Module.decode words = .ok m ∧ (m.nameEntries.map Prod.fst).Nodup ∧
      (∀ id text, (id, text) ∈ m.names ↔ m.name? id = some text) ∧
      List.Forall₂ (fun f v => m.name? v.id = some (Literal.bytesOf f.name)) p.fields
        (compile (some p) o).record.globals ∧
      m.NamesMethods p.methods (compile (some p) o).record.functions m.functions ∧
      (∀ i ∈ m.instructions, i.opcode ∈ bodyOpcodes → i ∈ m.functions.flatten) ∧
      (p.EachType (Ty.Named ReadableName) →
        List.Forall₂ (fun f v => ∃ T, m.PointsTo v T ∧ m.NamesType f.type T) p.fields
          (compile (some p) o).record.globals ∧
        List.Forall₂ m.NamesTypesOf p.methods (compile (some p) o).record.functions) := by
  obtain ⟨c, hrun, hwords, hrecord⟩ := emitModule_of_compile h
  rw [hrecord]
  have hemitted := emittedAs_of_emitModule p.named_all hids hrun hwords
  have hfilled := hemitted.consistent.filled
  have hw := hnames.legible hrun hemitted.noWrap
  obtain ⟨-, -, hfunctions⟩ := Emitter.parts_eq hfilled hemitted.methods
  obtain ⟨codes, hcodes, hmethods⟩ := hemitted.methods.names hw
    (fun m hm => ⟨hnames.methods m hm, hnames.locals m hm⟩) fun i hi => Draft.mem_emitted.mp hi
  obtain ⟨hlength, hdeclared⟩ := List.forall₂_iff_zip.mp hemitted.fields
  refine ⟨c.emitter.toModule, hemitted.decoded, ?_, fun _ _ => Module.mem_names, ?_, ?_, ?_, ?_⟩
  · rw [Emitter.nameEntries_eq hfilled, List.map_map]
    exact hw.labels
  · refine List.forall₂_iff_zip.mpr ⟨hlength, fun {f v} hfv => ?_⟩
    exact hw.name?_of_has (hnames.fields f (List.of_mem_zip hfv).1) (hdeclared hfv).label
  · rw [hfunctions, hcodes, hmethods.cutFunctions_eq]
    exact hmethods
  · intro i hi hop
    rw [hfunctions, flatten_cutFunctions]
    exact Emitter.mem_code_of_opcode hfilled hi hop
  · intro hreadable
    -- The same emission, now with what is known about types whose names are readable.
    have hemitted := emittedAs_of_emitModule hreadable hids hrun hwords
    have hs := hemitted.consistent
    refine ⟨?_, hemitted.methods.namesTypesOf hw hs (fun _ h => h) hreadable.methods
      hnames.types.methods fun i hi => Emitter.mem_toModule_of_code hi⟩
    obtain ⟨hlength, hdeclared⟩ := List.forall₂_iff_zip.mp hemitted.fields
    refine List.forall₂_iff_zip.mpr ⟨hlength, fun {f v} hfv => ?_⟩
    have hf := (List.of_mem_zip hfv).1
    exact (hdeclared hfv).namesType hw hs (fun _ h => h) (hreadable.fields f hf)
      (hnames.types.fields f hf)

/-- A stage whose functions have locals with and without names, and a structure among its types. -/
theorem names_of_compile_tint : Program.tint.EachName NulFree ∧
    ∃ words m, (compile (some .tint) {}).words = .ok words ∧ Module.decode words = .ok m ∧
      (m.nameEntries.map Prod.fst).Nodup ∧
      m.NamesMethods Program.tint.methods (compile (some .tint) {}).record.functions m.functions ∧
      List.Forall₂ (fun f v => ∃ T, m.PointsTo v T ∧ m.NamesType f.type T) Program.tint.fields
        (compile (some .tint) {}).record.globals := by
  have hnames : Program.tint.EachName NulFree :=
    ⟨by decide, by decide, by decide, named_tint_of_forall (by decide)⟩
  obtain ⟨words, hwords⟩ := compile_tint
  obtain ⟨m, hm, hnodup, -, -, hmethods, -, htypes⟩ :=
    names_of_compile idsTaken_tint hnames hwords
  exact ⟨hnames, words, m, hwords, hm, hnodup, hmethods,
    (htypes (named_tint_of_forall (by decide))).1⟩

/-- A stage with two structures that differ in their names and members, but not in the signatures
that are made of those. -/
def Program.lookalikes : Program where
  name := "lookalikes"
  stage := .fragment
  options := {}
  fields :=
    [⟨"first", .struct "S" (.cons "a" .bool (.cons "b\x7bc" .float32 .nil)), none⟩,
     ⟨"second", .struct "S\x7ba:bool;b" (.cons "c" .float32 .nil), none⟩]
  methods := [⟨"main", .void, [], []⟩]

/-- A structure whose signature is that of an earlier one has no type of its own, and so its name
is lost. -/
theorem name_lost_of_compile : Program.lookalikes.idsTaken {} < idLimit ∧
    Program.lookalikes.EachName NulFree ∧
    ∃ words m, (compile (some .lookalikes) {}).words = .ok words ∧ Module.decode words = .ok m ∧
      ∀ id, m.name? id ≠ some (Literal.bytesOf "S\x7ba:bool;b") := by
  have hids : Program.lookalikes.idsTaken {} < idLimit := by decide +kernel
  have htexts : ∀ text ∈ ["S", "a", "b\x7bc", "S\x7ba:bool;b", "c"], NulFree text := by decide
  have hnames : Program.lookalikes.EachName NulFree := by
    refine ⟨by decide, by decide, by decide, ?_, ?_⟩
    · simp only [Program.lookalikes, List.forall_mem_cons] at htexts ⊢
      simp [Ty.Named, Members.Named, htexts, Ty.float32]
    · exact List.forall_mem_singleton.mpr
        ⟨trivial, List.forall_mem_nil _, fun _ _ h => absurd h List.not_mem_nil⟩
  have hlost : ((compile (some .lookalikes) {}).words.toOption.bind fun words =>
      (Module.decode words).toOption.map fun m => m.nameEntries.all fun e =>
        e.2 ≠ Literal.bytesOf "S\x7ba:bool;b") = some true := by
    decide +kernel
  simp only [Option.bind_eq_some_iff, Option.map_eq_some_iff, List.all_eq_true,
    decide_eq_true_eq] at hlost
  obtain ⟨words, hwords, m, hm, hall⟩ := hlost
  refine ⟨hids, hnames, words, m, eq_ok_of_toOption hwords, eq_ok_of_toOption hm, fun id hid => ?_⟩
  exact hall _ (List.mem_reverse.mp (mem_of_lookup hid)) rfl

end ShaderStage

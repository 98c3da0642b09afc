import Mathlib.Logic.Relation
import ShaderStage.Proofs.Definitions
import ShaderStage.Proofs.Uses

/-! # Steps of an emitter

An emitter works in small steps: it adds one instruction to a section, or it records something about
an id. Each kind of step says what it relies on: the ids that an instruction refers to exist by
then, and those in the global part refer to that part. A turn is made of such steps, so whatever is
emitted is, successfully or not.

* `Emitter.Step`, `Emitter.Reaches`: one step, and any number of them;
* `Emitter.Known.reaches`: what an emitter knows stands for instructions;
* `Emitter.Turn.reaches`, `Program.reaches_of_emitModule`: turns are made of steps, and so are
  modules. -/

namespace ShaderStage

/-! ## Steps -/

namespace Emitter

/-- The id is that of a type, a constant or a variable of the module. -/
def Global (s : Emitter) (id : Id) : Prop :=
  ∃ i, s.Has .globals i ∧ i.resultId = some id

/-- What is defined in the global part is allocated. -/
theorem Global.allocated {s : Emitter} {id : Id} (h : s.Global id) : s.Allocated id := by
  obtain ⟨i, hi, hresult⟩ := h
  exact ⟨.globals, i, hi, hresult⟩

/-- What may be added to a section. The keys that are asked for are all of the kind `K`. -/
inductive Permits (K : Key → Prop) (s : Emitter) : Section → Instruction → Prop
  /-- Says something about ids that exist, or gives an id to a text. -/
  | remark {part : Section} {i : Instruction} (hpart : part ∉ [.globals, .functions])
      (huses : ∀ u ∈ i.uses, s.Allocated u) : Permits K s part i
  /-- Defines a type or a constant. -/
  | global {i : Instruction} (hop : i.opcode ∉ [.typePointer, .var])
      (huses : ∀ u ∈ i.uses, s.Global u) : Permits K s .globals i
  | pointer {elem : Ty} {storage : StorageClass} {id pointee : Id}
      (hkey : K (.pointer elem storage)) (hpointee : s.Global pointee) :
      Permits K s .globals ⟨.typePointer,
        [id, (if elem.isOpaque then .uniformConstant else storage : StorageClass), pointee]⟩
  | globalVariable {T id : Id} {storage : StorageClass} (hstorage : storage ≠ .none)
      (hT : s.Global T) : Permits K s .globals ⟨.var, [T, id, storage]⟩
  | code {i : Instruction} (hop : i.opcode ≠ .var) : Permits K s .functions i
  | localVariable {T id : Id} : Permits K s .functions ⟨.var, [T, id, StorageClass.function]⟩

/-- What an emitter can do in one step: add an instruction, or record something about an id. -/
inductive Step (K : Key → Prop) (s : Emitter) : Emitter → Prop
  | put {part : Section} {i : Instruction} (h : s.Permits K part i) (hresult : i.resultId = none) :
      Step K s (s.put part i)
  | define {part : Section} {i : Instruction} (h : s.Permits K part i)
      (hresult : i.resultId = some s.nextId) : Step K s (s.define part i)
  | recordType {key : Key} {id : Id} (hid : s.Global id) (hkey : K key.normalize) :
      Step K s (s.cache key id)
  | recordUint {v : Word} {id : Id} (hid : s.Global id) :
      Step K s { s with uints := (v, id) :: s.uints }
  | recordFloat {v : Word} {id : Id} (hid : s.Global id) :
      Step K s { s with floats := (v, id) :: s.floats }
  | recordFunctionType {T id : Id} (hid : s.Global id) :
      Step K s { s with functionTypes := (T, id) :: s.functionTypes }
  | recordSet {id : Id} : Step K s { s with mathSet := some id }
  | recordBlock {id : Id} : Step K s { s with blocks := id :: s.blocks }
  | recordBinding {id : Id} {b : Binding} (hid : s.Allocated id) (hkey : K b.key) :
      Step K s { s with bindings := (id, b) :: s.bindings }

/-- What an emitter can do in any number of steps. -/
abbrev Reaches (K : Key → Prop) : Emitter → Emitter → Prop :=
  Relation.ReflTransGen (Step K)

variable {K : Key → Prop} {s s' : Emitter}

/-- A step removes nothing. -/
theorem Step.has (h : s.Step K s') {part : Section} {i : Instruction} (hi : s.Has part i) :
    s'.Has part i := by
  cases h with
  | put => exact has_put.mpr (.inl hi)
  | define => exact has_define.mpr (.inl hi)
  | _ => exact hi

/-- A step adds at most one instruction to a section, and only what may be added. -/
theorem Step.emitted (h : s.Step K s') (part : Section) :
    s'.draft.emitted part = s.draft.emitted part ∨
      ∃ i, s.Permits K part i ∧ s'.draft.emitted part = s.draft.emitted part ++ [i] := by
  have hadd {part' : Section} {i : Instruction} (hpermits : s.Permits K part' i) :
      (s.draft.emit part' i).emitted part = s.draft.emitted part ∨
        ∃ j, s.Permits K part j ∧
          (s.draft.emit part' i).emitted part = s.draft.emitted part ++ [j] := by
    rw [Draft.emitted_emit]
    split
    · rename_i heq
      subst heq
      exact .inr ⟨i, hpermits, rfl⟩
    · exact .inl (List.append_nil _)
  cases h with
  | put hpermits => exact hadd hpermits
  | define hpermits => exact hadd hpermits
  | _ => exact .inl rfl

/-- What a section has after a step it had before, or was permitted to get. -/
theorem Step.has_or_permits (h : s.Step K s') {part : Section} {i : Instruction}
    (hi : s'.Has part i) : s.Has part i ∨ s.Permits K part i := by
  have hmem := Draft.mem_emitted.mpr hi
  rcases h.emitted part with heq | ⟨j, hpermits, heq⟩
  · rw [heq] at hmem
    exact .inl (Draft.mem_emitted.mp hmem)
  · rw [heq, List.mem_append, List.mem_singleton] at hmem
    rcases hmem with hold | rfl
    · exact .inl (Draft.mem_emitted.mp hold)
    · exact .inr hpermits

/-- Steps remove nothing. -/
theorem Reaches.has (h : s.Reaches K s') {part : Section} {i : Instruction} (hi : s.Has part i) :
    s'.Has part i := by
  induction h with
  | refl => exact hi
  | tail _ hstep ih => exact hstep.has ih

/-- What is global stays so. -/
theorem Reaches.global (h : s.Reaches K s') {id : Id} (hid : s.Global id) : s'.Global id := by
  obtain ⟨i, hi, hresult⟩ := hid
  exact ⟨i, h.has hi, hresult⟩

/-- What is allocated stays so. -/
theorem Reaches.allocated (h : s.Reaches K s') {id : Id} (hid : s.Allocated id) :
    s'.Allocated id := by
  obtain ⟨part, i, hi, hresult⟩ := hid
  exact ⟨part, i, h.has hi, hresult⟩

/-- The ids that an emitter knows stand for instructions, and their keys are of the kind `K`. -/
structure Known (K : Key → Prop) (s : Emitter) : Prop where
  types : ∀ e ∈ s.types, s.Global e.2
  uints : ∀ e ∈ s.uints, s.Global e.2
  floats : ∀ e ∈ s.floats, s.Global e.2
  functionTypes : ∀ e ∈ s.functionTypes, s.Global e.2
  bindings : ∀ e ∈ s.bindings, s.Allocated e.1 ∧ K e.2.key

/-- At the start nothing is known. -/
theorem known_start (v : Version) : (Emitter.start v).Known K where
  types := nofun
  uints := nofun
  floats := nofun
  functionTypes := nofun
  bindings := nofun

/-- An emitter that knows no more ids. -/
theorem Known.of_step (hs : s.Known K) (h : s.Step K s') (htypes : s'.types = s.types)
    (huints : s'.uints = s.uints) (hfloats : s'.floats = s.floats)
    (hfunctions : s'.functionTypes = s.functionTypes) (hbindings : s'.bindings = s.bindings) :
    s'.Known K where
  types := by
    rw [htypes]
    exact fun e he => Reaches.global (.single h) (hs.types e he)
  uints := by
    rw [huints]
    exact fun e he => Reaches.global (.single h) (hs.uints e he)
  floats := by
    rw [hfloats]
    exact fun e he => Reaches.global (.single h) (hs.floats e he)
  functionTypes := by
    rw [hfunctions]
    exact fun e he => Reaches.global (.single h) (hs.functionTypes e he)
  bindings := by
    rw [hbindings]
    exact fun e he => (hs.bindings e he).imp_left (Reaches.allocated (.single h))

/-- A step records only ids of instructions. -/
theorem Known.step (hs : s.Known K) (h : s.Step K s') : s'.Known K := by
  cases h with
  | recordType hid hkey =>
    exact { hs with
      types := List.forall_mem_cons.mpr ⟨hid, hs.types⟩
      bindings := List.forall_mem_cons.mpr ⟨⟨hid.allocated, hkey⟩, hs.bindings⟩ }
  | recordUint hid => exact { hs with uints := List.forall_mem_cons.mpr ⟨hid, hs.uints⟩ }
  | recordFloat hid => exact { hs with floats := List.forall_mem_cons.mpr ⟨hid, hs.floats⟩ }
  | recordFunctionType hid =>
    exact { hs with functionTypes := List.forall_mem_cons.mpr ⟨hid, hs.functionTypes⟩ }
  | recordBinding hid hkey =>
    exact { hs with bindings := List.forall_mem_cons.mpr ⟨⟨hid, hkey⟩, hs.bindings⟩ }
  | recordSet | recordBlock => exact { hs with }
  | put hpermits hresult => exact hs.of_step (.put hpermits hresult) rfl rfl rfl rfl rfl
  | define hpermits hresult => exact hs.of_step (.define hpermits hresult) rfl rfl rfl rfl rfl

/-- Any number of steps record only ids of instructions. -/
theorem Known.reaches (hs : s.Known K) (h : s.Reaches K s') : s'.Known K := by
  induction h with
  | refl => exact hs
  | tail _ hstep ih => exact ih.step hstep

end Emitter

/-! ## Turns -/

namespace Emitter

variable {K : Key → Prop} {s s' : Emitter} {id : Id}

/-- A type that was recorded is defined in the global part. -/
theorem Known.global_of_typeOf? (hs : s.Known K) {k : Key} (h : s.typeOf? k = some id) :
    s.Global id :=
  hs.types _ (mem_of_lookup h)

theorem Known.global_of_isType (hs : s.Known K) (h : s.IsType id) : s.Global id := by
  obtain ⟨k, hk⟩ := h
  exact hs.global_of_typeOf? hk

/-- The types of members are defined in the global part. -/
theorem Known.global_of_memberTypes (hs : s.Known K) {members : Members} {ids : List Id}
    (h : s.MemberTypes members ids) : ∀ id ∈ ids, s.Global id := by
  induction members using Members.toList.induct generalizing ids with
  | case1 =>
    cases h
    nofun
  | case2 name type rest ih =>
    obtain ⟨id, ids', rfl, hid, hrest⟩ := h
    exact List.forall_mem_cons.mpr ⟨hs.global_of_typeOf? hid, ih hrest⟩

/-- Something is said about ids that exist. -/
theorem reaches_remark {part : Section} {i : Instruction} (hpart : part ∉ [.globals, .functions])
    (huses : ∀ u ∈ i.uses, s.Allocated u) (hresult : i.resultId = none) :
    s.Reaches K (s.put part i) :=
  .single (.put (.remark hpart huses) hresult)

/-- A type or a constant is defined. -/
theorem reaches_global (op : Opcode) (operands : List Word) (hop : op ∉ [.typePointer, .var])
    (huses : ∀ u ∈ (Instruction.mk op operands).uses, s.Global u)
    (hresult : (Instruction.mk op operands).resultId = some s.nextId) :
    s.Reaches K (s.define .globals ⟨op, operands⟩) ∧
      (s.define .globals ⟨op, operands⟩).Global s.nextId :=
  ⟨.single (.define (.global hop huses) hresult), _, has_define_self _ _ _, hresult⟩

/-- An instruction with a result is added to a function. -/
theorem reaches_code (op : Opcode) (operands : List Word) (hop : op ≠ .var)
    (hresult : (Instruction.mk op operands).resultId = some s.nextId) :
    s.Reaches K (s.define .functions ⟨op, operands⟩) ∧
      (s.define .functions ⟨op, operands⟩).Allocated s.nextId :=
  ⟨.single (.define (.code hop) hresult), _, _, has_define_self _ _ _, hresult⟩

/-- An id that exists is decorated. -/
theorem reaches_decorate (hid : s.Allocated id) (decoration : List Word) :
    s.Reaches K (s.put .decorations ⟨.decorate, id :: decoration⟩) :=
  reaches_remark (by decide) (List.forall_mem_singleton.mpr hid) rfl

/-- Declaring a capability takes at most one step. -/
theorem reaches_declare (s : Emitter) (c : Capability) : s.Reaches K (s.declare c) := by
  unfold declare
  split
  · exact .refl
  · exact reaches_remark (by decide) nofun rfl

/-- What a type needs is declared in steps. -/
theorem reaches_prepare (s : Emitter) (k : Key) : s.Reaches K (s.prepare k) := by
  unfold prepare
  split
  · exact s.reaches_declare _
  · exact .refl

/-- An id that exists is named. -/
theorem reaches_label (hid : s.Allocated id) (text : String) : s.Reaches K (s.label id text) :=
  reaches_remark (by decide) (List.forall_mem_singleton.mpr hid) rfl

/-- An id that exists is named, unless the name is empty. -/
theorem reaches_title (hid : s.Allocated id) (text : String) : s.Reaches K (s.title id text) := by
  unfold title
  split
  · exact .refl
  · exact reaches_label hid text

/-- What an id is can be recorded once the id exists. -/
theorem reaches_record {key : Key} (hid : s.Allocated id) (hkey : K key.normalize)
    (text : String) : s.Reaches K (s.record id key text) :=
  .single (.recordBinding hid hkey)

theorem reaches_named {key : Key} (hid : s.Allocated id) (hkey : K key.normalize)
    (text : String) : s.Reaches K (s.named id key text) := by
  have hrecord := reaches_record hid hkey text
  exact hrecord.trans (reaches_title (hrecord.allocated hid) text)

theorem reaches_labelled {key : Key} (hid : s.Allocated id) (hkey : K key.normalize)
    (text : String) : s.Reaches K (s.labelled id key text) := by
  have hlabel := reaches_label (K := K) hid text
  exact hlabel.trans (reaches_record (hlabel.allocated hid) hkey text)

/-- A member is placed, and named unless the name is empty. -/
theorem reaches_place (hid : s.Allocated id) (index : Word) (offset : UInt32) (member : String) :
    s.Reaches K (s.place id index offset member) := by
  have hoffset : s.Reaches K (s.put .memberDecorations
      ⟨.memberDecorate, [id, index, Decoration.offset, offset]⟩) :=
    reaches_remark (by decide) (List.forall_mem_singleton.mpr hid) rfl
  unfold place
  dsimp only
  split
  · exact hoffset
  · exact hoffset.trans (reaches_remark (by decide)
      (List.forall_mem_singleton.mpr (hoffset.allocated hid)) rfl)

/-- Members are placed one after the other, so by induction on them. -/
theorem reaches_layOut (hid : s.Allocated id) (index : Word) (offset : UInt32) (members : Members) :
    s.Reaches K (s.layOut id index offset members) := by
  induction members using Members.toList.induct generalizing s index offset with
  | case1 => exact .refl
  | case2 member type rest ih =>
    have hplace := reaches_place (K := K) hid index offset member
    unfold layOut
    dsimp only
    split
    · exact hplace
    · exact hplace.trans (ih (hplace.allocated hid) _ _)

/-- A structure type is defined in steps, and its id is global from then on. -/
theorem reaches_structured (hs : s.Known K) {members : Members} {ids : List Id}
    (hids : s.MemberTypes members ids) (name : String) :
    s.Reaches K (s.structured name members ids) ∧
      (s.structured name members ids).Global s.nextId := by
  obtain ⟨hdefine, hid⟩ := reaches_global (K := K) .typeStruct (s.nextId :: ids)
    (by decide) (hs.global_of_memberTypes hids) rfl
  have htitle := reaches_title (K := K) hid.allocated name
  have hlayOut := reaches_layOut (K := K) (htitle.allocated hid.allocated) 0 0 members
  exact ⟨hdefine.trans (htitle.trans hlayOut), hlayOut.global (htitle.global hid)⟩

theorem reaches_addConstant {pool : Pool} (hid : s.Global id) (bits : Word) :
    s.Reaches K (s.addConstant pool bits id) := by
  cases pool with
  | uint => exact .single (.recordUint hid)
  | float => exact .single (.recordFloat hid)

/-- A constant is defined, named and recorded in steps. -/
theorem reaches_newConstant [KeyKind K] (hs : s.Known K) {T : Id} {pool : Pool}
    (hT : s.typeOf? (.value pool.type) = some T) (bits : Word) :
    s.Reaches K (s.newConstant T pool bits) := by
  have hkey : K (Key.value pool.type).normalize :=
    KeyKind.normalize (KeyKind.basic (by cases pool <;> trivial))
  obtain ⟨hdefine, hid⟩ := reaches_global (K := K) .constant [T, s.nextId, bits]
    (by decide) (List.forall_mem_singleton.mpr (hs.global_of_typeOf? hT)) rfl
  have hlabelled := reaches_labelled hid.allocated hkey (pool.text bits)
  exact hdefine.trans (hlabelled.trans (reaches_addConstant (hlabelled.global hid) bits))

/-- The instruction set is imported in two steps, or in none. -/
theorem reaches_importMath (s : Emitter) : s.Reaches K s.importMath := by
  unfold importMath
  split
  · exact .refl
  · exact .tail (.single (.define (.remark (by decide) (List.forall_mem_nil _)) rfl)) .recordSet

variable {κ : Kinds} {k : Key} {pub : List (Section × Instruction)}

/-- A type that is one instruction is permitted, a pointer type by the key that asks for it. -/
theorem Outline.permits (hs : s.Known K) (hk : K k) {op : Opcode} {operands : List Word}
    (h : s.Outline k.canon op operands) {s₁ : Emitter} (hs₁ : s.Reaches K s₁) (id : Id) :
    s₁.Permits K .globals ⟨op, id :: operands⟩ := by
  have hglobal {k : Key} {id : Id} (h : s.typeOf? k = some id) : s₁.Global id :=
    hs₁.global (hs.global_of_typeOf? h)
  have hdefine {op : Opcode} {operands : List Word} (hop : op ∉ [.typePointer, .var])
      (huses : ∀ u ∈ (Instruction.mk op (id :: operands)).uses, s₁.Global u) :
      s₁.Permits K .globals ⟨op, id :: operands⟩ :=
    .global hop huses
  generalize hcanon : k.canon = c at h
  cases h with
  | void | bool | int | float => exact hdefine (by decide) (List.forall_mem_nil _)
  | vector _ hc => exact hdefine (by decide) (List.forall_mem_singleton.mpr (hglobal hc))
  | array _ he hl =>
    refine hdefine (by decide) (List.forall_mem_cons.mpr ⟨hglobal he, ?_⟩)
    exact List.forall_mem_singleton.mpr (hs₁.global (hs.uints _ (mem_of_lookup hl)))
  | @pointer elem storage p hp =>
    obtain ⟨type, storage'⟩ := k
    cases type with
    | pointer elem' =>
      obtain ⟨-, rfl⟩ : elem'.canon = elem ∧
          (if elem'.isOpaque then .uniformConstant else storage') = storage := by
        simpa [Key.canon, Ty.canon] using hcanon
      exact .pointer hk (hglobal hp)
    | _ => simp [Key.canon, Key.normalize, Ty.underlying, Ty.canon] at hcanon

/-- A new type is emitted in steps, whichever type it is. -/
theorem Enters.reaches (hs : s.Known K) (hk : K k) (h : s.Enters k id s') :
    s.Reaches K s' ∧ s'.Global id := by
  cases h with
  | @simple _ op operands houtline =>
    have hprepare := s.reaches_prepare (K := K) k.canon
    have hshape : ∀ op ∈ Opcode.interned, op.shape = .result := by decide
    have hresult : (Instruction.mk op (s.nextId :: operands)).resultId = some s.nextId := by
      simp [Instruction.resultId, hshape op houtline.mem_interned]
    refine ⟨hprepare.tail (.define (houtline.permits hs hk hprepare _) ?_), _,
      has_define_self _ _ _, hresult⟩
    rw [hresult, (s.remarks_prepare k.canon).nextId_eq]
  | @matrix4 storage c hc =>
    obtain ⟨hdefine, hid⟩ := reaches_global (K := K) (s := s) .typeMatrix [s.nextId, c, 4]
      (by decide) (List.forall_mem_singleton.mpr (hs.global_of_typeOf? hc)) rfl
    have hdecorate := reaches_decorate (K := K) hid.allocated [Decoration.colMajor]
    exact ⟨hdefine.trans hdecorate, hdecorate.global hid⟩
  | @sampledImage2D storage c hc s₁ hs₁ =>
    subst hs₁
    obtain ⟨himage, hid⟩ := reaches_global (K := K) (s := s) .typeImage
      [s.nextId, c, dimension2D, 0, 0, 0, 1, 0] (by decide)
      (List.forall_mem_singleton.mpr (hs.global_of_typeOf? hc)) rfl
    obtain ⟨hsampled, hid'⟩ := reaches_global (K := K) .typeSampledImage [_, s.nextId]
      (by decide) (List.forall_mem_singleton.mpr hid) rfl
    exact ⟨himage.trans hsampled, hid'⟩
  | struct _ hids => exact reaches_structured hs hids _

/-- What is said about the module is a remark. -/
theorem Announces.reaches {part : Section} {i : Instruction} (h : s.Announces κ part i) :
    s.Reaches K (s.put part i) := by
  cases h with
  | extension | sourceExtension | memoryModel =>
    exact reaches_remark (by decide) (List.forall_mem_nil _) rfl
  | @source file hfile =>
    -- Without a source file the instruction refers to no id at all.
    cases file with
    | none => exact reaches_remark (by decide) (List.forall_mem_nil _) rfl
    | some id => exact reaches_remark (by decide) (List.forall_mem_singleton.mpr (hfile id rfl)) rfl
  | entryPoint huses => exact reaches_remark (by decide) huses rfl
  | executionMode hf => exact reaches_remark (by decide) (List.forall_mem_singleton.mpr hf) rfl

/-- What changes no table is emitted in steps. -/
theorem Notes.reaches [KeyKind κ.key] (hs : s.Known κ.key) (h : s.Notes κ pub s') :
    s.Reaches κ.key s' := by
  cases h with
  | abandoned _ hids => exact (reaches_structured hs hids _).1
  | performed h =>
    obtain ⟨-, hshape, hop⟩ := h.spec
    refine .single (.put (.code fun hvar => hop (hvar ▸ List.mem_cons_self)) ?_)
    simp [Instruction.resultId, hshape]
  | @function text htext result type =>
    obtain ⟨hdefine, hid⟩ := reaches_code (K := κ.key) .function
      [result, s.nextId, 0, type] (by decide) rfl
    exact hdefine.trans (reaches_label hid text)
  | label => exact (reaches_code .label [s.nextId] (by decide) rfl).1
  | capability c => exact s.reaches_declare c
  | decoration _ hid => exact reaches_decorate hid _
  | string => exact .single (.define (.remark (by decide) (List.forall_mem_nil _)) rfl)
  | announced h => exact h.reaches

/-- A turn is made of steps. -/
theorem Turn.reaches [KeyKind κ.key] (hκ : ¬ κ.foreign) (hs : s.Known κ.key)
    (h : Turn κ s pub s') : s.Reaches κ.key s' := by
  cases h with
  | type hkey _ h =>
    obtain ⟨henters, hid⟩ := h.reaches hs hkey
    exact henters.tail (.recordType hid (KeyKind.normalize hkey))
  | constant hT _ => exact reaches_newConstant hs hT _
  | @functionType result hresult _ =>
    have hglobal := hs.global_of_isType (hresult.resolve_left hκ)
    obtain ⟨hdefine, hid⟩ := reaches_global (K := κ.key) .typeFunction
      [s.nextId, result] (by decide) (List.forall_mem_singleton.mpr hglobal) rfl
    exact hdefine.tail (.recordFunctionType hid)
  | @value op operands key T text s₁ hop hkey htext hT hs₁ =>
    obtain ⟨-, hshape, hcode⟩ := hop.spec
    obtain ⟨hdefine, hid⟩ := reaches_code (K := κ.key) (s := s) op
      (T :: s.nextId :: operands) (fun hvar => hcode (hvar ▸ List.mem_cons_self))
      (by simp [Instruction.resultId, hshape])
    have hnormal := KeyKind.normalize hkey
    rcases hs₁ with rfl | rfl
    · exact hdefine.trans (reaches_named hid hnormal text)
    · have hrecord := reaches_record hid hnormal ""
      exact hdefine.trans (hrecord.trans (reaches_named (hrecord.allocated hid) hnormal text))
  | @math key T set hkey hT hset number argument =>
    obtain ⟨hdefine, hid⟩ := reaches_code (K := κ.key) (s := s.importMath) .extInst
      [T, s.importMath.nextId, set, number, argument] (by decide) rfl
    exact s.reaches_importMath.trans
      (hdefine.trans (reaches_record hid (KeyKind.normalize hkey) ""))
  | @localVariable key T text hkey htext hT =>
    have hdefine : s.Reaches κ.key
        (s.define .functions ⟨.var, [T, s.nextId, StorageClass.function]⟩) :=
      .single (.define .localVariable rfl)
    exact hdefine.trans (reaches_labelled ⟨_, _, has_define_self _ _ _, rfl⟩
      (KeyKind.normalize hkey) text)
  | @globalVariable key T text hkey htext hT hstorage hpointer =>
    have hdefine : s.Reaches κ.key (s.define .globals ⟨.var, [T, s.nextId, key.storage]⟩) :=
      .single (.define (.globalVariable hstorage (hs.global_of_typeOf? hT)) rfl)
    exact hdefine.trans (reaches_labelled ⟨_, _, has_define_self _ _ _, rfl⟩
      (KeyKind.normalize hkey) text)
  | @block struct hstruct _ =>
    have hglobal := hs.global_of_isType (hstruct.resolve_left hκ)
    exact (reaches_decorate hglobal.allocated [Decoration.block]).tail .recordBlock
  | note h => exact h.reaches hs
  | rename hforeign => exact absurd hforeign hκ

/-- Turns are made of steps. -/
theorem Turns.reaches [KeyKind κ.key] (hκ : ¬ κ.foreign) (hs : s.Known κ.key)
    (h : s.Turns κ pub s') : s.Reaches κ.key s' := by
  induction h with
  | refl => exact .refl
  | tail _ hturn ih => exact ih.trans (hturn.reaches hκ (hs.reaches ih))

end Emitter

/-- A module is emitted in steps. -/
theorem Program.reaches_of_emitModule {κ : Kinds} [Kinds.Closed κ] (hκ : ¬ κ.foreign) {p : Program}
    {o : Options} (hp : p.Within κ o) {c : Compilation}
    (h : p.emitModule o { emitter := .start o.moduleVersion } = .ok () c) :
    (Emitter.start o.moduleVersion).Reaches κ.key c.emitter := by
  obtain ⟨pub, hturns⟩ := leads_of_emitModule hp
  rw [h] at hturns
  exact hturns.reaches hκ (Emitter.known_start _)

end ShaderStage

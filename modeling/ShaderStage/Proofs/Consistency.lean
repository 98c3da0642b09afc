import Mathlib.Data.List.Pairwise
import ShaderStage.Proofs.Growth
import ShaderStage.Proofs.Signature

/-! # Consistent emitters

An emitter is consistent if what it remembers is true of what it emitted: every remembered type,
constant and binding stands for instructions in the log. Facts of this kind survive every extension
of the emitter, so they are stated once and carried along.

* `Emitter.Consistent`: what an emitter remembers is true;
* `Emitter.Extends`, `Emitter.Keeps`: what later emitters have of it;
* `Emitter.Interns`: what types were new in between. -/

namespace ShaderStage

/-! ## Supported types -/

/-- An integer type that a module can have. -/
def IntTy.Supported (t : IntTy) : Prop :=
  t.width = 8 ∨ t.width = 16 ∨ t.width = 32 ∨ t.width = 64

set_option maxRecDepth 2000 in
mutual

/-- The type has a size as a member of a structure. -/
def Ty.Sized : Ty → Prop
  | .bool | .int _ | .char | .enum _ _ | .float _ | .vector _ | .matrix4 => True
  | .array elem _ => elem.Sized
  | .struct _ members => members.Sized
  | _ => False

/-- Every member has a size. -/
def Members.Sized : Members → Prop
  | .nil => True
  | .cons _ type rest => type.Sized ∧ rest.Sized

end

mutual

/-- The type has a counterpart in a module. -/
def Ty.Supported : Ty → Prop
  | .bool | .void | .unset | .char | .matrix4 | .sampledImage2D => True
  | .int type => type.Supported
  | .enum _ underlying => underlying.Supported
  | .float width => width = 16 ∨ width = 32 ∨ width = 64 ∨ width = 128
  | .vector count => 2 ≤ count ∧ count ≤ 4
  | .array elem length => length ≠ 0 ∧ elem.Supported
  | .pointer elem => elem.Supported
  | .struct _ members => members.Supported
  | .string | .dateTime | .null => False

/-- Every member has a counterpart and a size. -/
def Members.Supported : Members → Prop
  | .nil => True
  | .cons _ type rest => type.Supported ∧ type.Sized ∧ rest.Supported

end

mutual

/-- The rules give a size exactly to those types that the emitter can lay out. -/
theorem Ty.sized_iff : ∀ t : Ty, t.Sized ↔ ∃ size, t.naturalSize = .ok size
  | .array elem length => by
    rw [Ty.Sized, Ty.naturalSize, Ty.sized_iff elem]
    cases elem.naturalSize <;> simp [Except.map]
  | .struct name members => by
    rw [Ty.Sized, Ty.naturalSize, Members.sized_iff members]
  | .bool | .int _ | .char | .enum _ _ | .float _ | .vector _ | .matrix4
  | .unset | .pointer _ | .sampledImage2D | .void | .string | .dateTime | .null => by
    simp [Ty.Sized, Ty.naturalSize]

theorem Members.sized_iff : ∀ members : Members,
    members.Sized ↔ ∃ size, members.naturalSize = .ok size
  | .nil => by simp [Members.Sized, Members.naturalSize]
  | .cons name type rest => by
    rw [Members.Sized, Members.naturalSize, Ty.sized_iff type, Members.sized_iff rest]
    cases type.naturalSize <;> cases rest.naturalSize <;> simp [Except.map]

end

mutual

/-- The canonical form has a size if the type has one. -/
@[simp] theorem Ty.sized_canon : ∀ t : Ty, t.canon.Sized ↔ t.Sized
  | .array elem length => by simp only [Ty.canon, Ty.Sized, Ty.sized_canon elem]
  | .struct name members => by simp only [Ty.canon, Ty.Sized, Members.sized_canon members]
  | .bool | .int _ | .char | .enum _ _ | .float _ | .vector _ | .matrix4
  | .unset | .pointer _ | .sampledImage2D | .void | .string | .dateTime | .null => Iff.rfl

@[simp] theorem Members.sized_canon : ∀ members : Members, members.canon.Sized ↔ members.Sized
  | .nil => Iff.rfl
  | .cons name type rest => by
    simp only [Members.canon, Members.Sized, Ty.sized_canon type, Members.sized_canon rest]

end

@[simp] theorem Ty.supported_underlying (t : Ty) : t.underlying.Supported ↔ t.Supported := by
  cases t <;> simp [Ty.underlying, Ty.Supported, IntTy.Supported]

@[simp] theorem Key.supported_normalize {k : Key} :
    k.normalize.type.Supported ↔ k.type.Supported := by
  obtain ⟨type, storage⟩ := k
  cases type with
  | pointer elem => exact elem.supported_underlying
  | char => exact (Ty.supported_underlying .char)
  | enum name type => exact Iff.rfl
  | _ => exact Iff.rfl

/-! ## The widths of numbers -/

/-- The widths of integers that need a capability, and the capability each one needs. -/
def IntTy.capabilities : List (UInt8 × Capability) :=
  [(8, .int8), (16, .int16), (64, .int64)]

/-- The widths of floats that need a capability, and the capability each one needs. -/
def Ty.floatCapabilities : List (UInt8 × Capability) :=
  [(16, .float16), (64, .float64)]

/-! ## What an emitter knows -/

namespace Emitter

/-- The instruction was emitted into a section. -/
def Has (s : Emitter) (part : Section) (i : Instruction) : Prop :=
  (part, i) ∈ s.draft.log.toList

/-- The function code emitted so far. -/
def code (s : Emitter) : List Instruction :=
  s.draft.emitted .functions

/-- The id of the type that a key names, if it was emitted. -/
def typeOf? (s : Emitter) (k : Key) : Option Id :=
  s.types.lookup k.signature

/-- The ids have not wrapped. -/
def NoWrap (s : Emitter) : Prop :=
  s.draft.ids.taken < idLimit

/-- The id is the result of an instruction. -/
def Allocated (s : Emitter) (id : Id) : Prop :=
  ∃ part i, s.Has part i ∧ i.resultId = some id

/-- The later emitter has the instructions, types and unsigned constants of the earlier one. -/
structure Keeps (s s' : Emitter) : Prop where
  draft : s.draft.Grows s'.draft
  types : ∀ {sig id}, s.types.lookup sig = some id → s'.types.lookup sig = some id
  uints : ∀ {v id}, s.uints.lookup v = some id → s'.uints.lookup v = some id

/-- The later emitter knows what the earlier one knows. -/
structure Extends (s s' : Emitter) : Prop where
  draft : s.draft.Grows s'.draft
  types : ∀ {sig id}, s.types.lookup sig = some id → s'.types.lookup sig = some id
  uints : ∀ {v id}, s.uints.lookup v = some id → s'.uints.lookup v = some id
  bindings : ∀ {id b}, s.bindings.lookup id = some b → s'.bindings.lookup id = some b

/-- An id with a recorded key, whose instruction has the type of that key. -/
structure Value (s : Emitter) (id : Id) (k : Key) : Prop where
  binding : ∃ name, s.bindings.lookup id = some ⟨k, name⟩
  typed : ∃ T part i, s.typeOf? k = some T ∧ s.Has part i ∧ i.resultId = some id ∧
    i.resultType = some T

/-- An id that stands for a constant of a type. -/
structure Constant (s : Emitter) (id : Id) (t : Ty) (word : Word) : Prop where
  value : s.Value id (.value t)
  emitted : ∃ T, s.typeOf? (.value t) = some T ∧ s.Has .globals ⟨.constant, [T, id, word]⟩

/-- The ids are those of the types of the members. -/
def MemberTypes (s : Emitter) : Members → List Id → Prop
  | .nil, ids => ids = []
  | .cons _ type rest, ids =>
    ∃ id ids', ids = id :: ids' ∧ s.typeOf? (.value type) = some id ∧ s.MemberTypes rest ids'

/-- The log defines a type as the one that a canonical key names. -/
inductive Defines (s : Emitter) (T : Id) : Key → Prop
  | bool (h : s.Has .globals ⟨.typeBool, [T]⟩) : Defines s T (.value .bool)
  | void (h : s.Has .globals ⟨.typeVoid, [T]⟩) : Defines s T (.value .void)
  | int {t : IntTy} (hwidth : t.Supported)
      (h : s.Has .globals ⟨.typeInt, [T, t.width.toUInt32, if t.signed then 1 else 0]⟩) :
      Defines s T (.value (.int t))
  | float {width : UInt8} (hwidth : (Ty.float width).Supported)
      (h : s.Has .globals ⟨.typeFloat, [T, width.toUInt32]⟩) : Defines s T (.value (.float width))
  | vector {count : UInt8} {c : Id} (hcount : (Ty.vector count).Supported)
      (hc : s.typeOf? (.value .float32) = some c)
      (h : s.Has .globals ⟨.typeVector, [T, c, count.toUInt32]⟩) :
      Defines s T (.value (.vector count))
  | matrix4 {c : Id} (hc : s.typeOf? (.value .vec4) = some c)
      (h : s.Has .globals ⟨.typeMatrix, [T, c, 4]⟩) : Defines s T (.value .matrix4)
  | array {elem : Ty} {length : UInt32} {e l : Id} (hlength : length ≠ 0)
      (he : s.typeOf? (.value elem) = some e) (hl : s.uints.lookup length = some l)
      (h : s.Has .globals ⟨.typeArray, [T, e, l]⟩) : Defines s T (.value (.array elem length))
  | sampledImage2D {c image : Id} (hc : s.typeOf? (.value .float32) = some c)
      (himage : s.Has .globals ⟨.typeImage, [image, c, dimension2D, 0, 0, 0, 1, 0]⟩)
      (h : s.Has .globals ⟨.typeSampledImage, [T, image]⟩) : Defines s T (.value .sampledImage2D)
  | struct {name : String} {members : Members} {ids : List Id} (hsized : members.Sized)
      (hids : s.MemberTypes members ids) (h : s.Has .globals ⟨.typeStruct, T :: ids⟩)
      (hname : name = "" ∨ s.Has .names ⟨.name, T :: Literal.ofString name⟩) :
      Defines s T (.value (.struct name members))
  | pointer {elem : Ty} {storage : StorageClass} {p : Id} (hp : s.typeOf? ⟨elem, storage⟩ = some p)
      (h : s.Has .globals ⟨.typePointer, [T, storage, p]⟩) : Defines s T ⟨.pointer elem, storage⟩

/-- The operands of a variable give it the storage class of its pointer type. -/
def Declares (N : String → Prop) (s : Emitter) (operands : List Word) : Prop :=
  ∃ (k : Key) (elem : Ty) (T id : Id), operands = [T, id, k.storage] ∧ k.type = .pointer elem ∧
    k.normalize = k ∧ k.type.Named N ∧ s.typeOf? k = some T

/-- What an emitter remembers is true of its log. The names in its types are all of the kind `N`. -/
structure Consistent (N : String → Prop) (s : Emitter) : Prop where
  filled : s.draft.WellFilled
  types : ∀ {sig id}, s.types.lookup sig = some id →
    ∃ k : Key, k.canon = k ∧ k.signature = sig ∧ k.type.Named N ∧ s.Defines id k
  uints : ∀ {v id}, s.uints.lookup v = some id → s.Constant id .uint32 v
  floats : ∀ {v id}, s.floats.lookup v = some id → s.Constant id .float32 v
  functionTypes : ∀ {r id}, s.functionTypes.lookup r = some id →
    s.Has .globals ⟨.typeFunction, [id, r]⟩
  mathSet : ∀ {id}, s.mathSet = some id →
    s.Has .instructionSets ⟨.extInstImport, id :: Literal.ofString mathSetName⟩
  bindings : ∀ {id b}, s.bindings.lookup id = some b →
    s.Allocated id ∧ b.key.normalize = b.key ∧ b.key.type.Named N
  declared : ∀ {operands}, s.Has .globals ⟨.var, operands⟩ → s.Declares N operands

/-! ## Extensions -/

/-- What is extended is kept. -/
theorem Extends.keeps {s s' : Emitter} (h : s.Extends s') : s.Keeps s' :=
  ⟨h.draft, h.types, h.uints⟩

theorem Keeps.refl (s : Emitter) : s.Keeps s :=
  ⟨.refl _, fun hk => hk, fun hv => hv⟩

theorem Keeps.trans {s₁ s₂ s₃ : Emitter} (h : s₁.Keeps s₂) (h' : s₂.Keeps s₃) : s₁.Keeps s₃ :=
  ⟨h.draft.trans h'.draft, fun hk => h'.types (h.types hk), fun hv => h'.uints (h.uints hv)⟩

/-- What was emitted stays emitted. -/
theorem Has.keep {s s' : Emitter} (h : s.Keeps s') {part : Section} {i : Instruction}
    (hi : s.Has part i) : s'.Has part i :=
  h.draft.mem_log hi

theorem Has.mono {s s' : Emitter} (h : s.Extends s') {part : Section} {i : Instruction}
    (hi : s.Has part i) : s'.Has part i :=
  hi.keep h.keeps

/-- A value is the result of some instruction. -/
theorem Value.allocated {s : Emitter} {id : Id} {k : Key} (h : s.Value id k) : s.Allocated id := by
  obtain ⟨T, part, i, -, hi, hresult, -⟩ := h.typed
  exact ⟨part, i, hi, hresult⟩

/-- An id that was allocated stays so. -/
theorem Allocated.keep {s s' : Emitter} (h : s.Keeps s') {id : Id} (hid : s.Allocated id) :
    s'.Allocated id := by
  obtain ⟨part, i, hi, hresult⟩ := hid
  exact ⟨part, i, hi.keep h, hresult⟩

theorem Allocated.mono {s s' : Emitter} (h : s.Extends s') {id : Id} (hid : s.Allocated id) :
    s'.Allocated id :=
  hid.keep h.keeps

namespace Extends

theorem refl (s : Emitter) : s.Extends s where
  draft := .refl _
  types h := h
  uints h := h
  bindings h := h

/-- Extensions can be extended. -/
theorem trans {s₁ s₂ s₃ : Emitter} (h₁ : s₁.Extends s₂) (h₂ : s₂.Extends s₃) : s₁.Extends s₃ where
  draft := h₁.draft.trans h₂.draft
  types h := h₂.types (h₁.types h)
  uints h := h₂.uints (h₁.uints h)
  bindings h := h₂.bindings (h₁.bindings h)

/-- An emitter that differs in its draft only. -/
theorem of_draft {s s' : Emitter} (h : s.draft.Grows s'.draft) (htypes : s'.types = s.types)
    (huints : s'.uints = s.uints) (hbindings : s'.bindings = s.bindings) : s.Extends s' where
  draft := h
  types hk := by rwa [htypes]
  uints hv := by rwa [huints]
  bindings hb := by rwa [hbindings]

end Extends

theorem Value.mono {s s' : Emitter} (h : s.Extends s') {id : Id} {k : Key} (hv : s.Value id k) :
    s'.Value id k := by
  obtain ⟨⟨name, hname⟩, T, part, i, hT, hi, hresult, htype⟩ := hv
  exact ⟨⟨name, h.bindings hname⟩, T, part, i, h.types hT, hi.mono h, hresult, htype⟩

theorem Constant.mono {s s' : Emitter} (h : s.Extends s') {id : Id} {t : Ty} {v : Word}
    (hv : s.Constant id t v) : s'.Constant id t v := by
  obtain ⟨hvalue, T, hT, hi⟩ := hv
  exact ⟨hvalue.mono h, T, h.types hT, hi.mono h⟩

/-- The types of members stay what they are. -/
theorem MemberTypes.keep {s s' : Emitter} (h : s.Keeps s') {members : Members} {ids : List Id}
    (hids : s.MemberTypes members ids) : s'.MemberTypes members ids := by
  induction members using Members.toList.induct generalizing ids with
  | case1 => exact hids
  | case2 name type rest ih =>
    obtain ⟨id, ids', rfl, hid, hrest⟩ := hids
    exact ⟨id, ids', rfl, h.types hid, ih hrest⟩

/-- A definition stays one, by cases on what it defines. -/
theorem Defines.keep {s s' : Emitter} (h : s.Keeps s') {T : Id} {k : Key}
    (hk : s.Defines T k) : s'.Defines T k := by
  cases hk with
  | bool hi => exact .bool (hi.keep h)
  | void hi => exact .void (hi.keep h)
  | int hwidth hi => exact .int hwidth (hi.keep h)
  | float hwidth hi => exact .float hwidth (hi.keep h)
  | vector hcount hc hi => exact .vector hcount (h.types hc) (hi.keep h)
  | matrix4 hc hi => exact .matrix4 (h.types hc) (hi.keep h)
  | array hlength he hl hi => exact .array hlength (h.types he) (h.uints hl) (hi.keep h)
  | sampledImage2D hc himage hi => exact .sampledImage2D (h.types hc) (himage.keep h) (hi.keep h)
  | struct hsized hids hi hname =>
    exact .struct hsized (hids.keep h) (hi.keep h) (hname.imp_right fun hname => hname.keep h)
  | pointer hp hi => exact .pointer (h.types hp) (hi.keep h)

theorem Defines.mono {s s' : Emitter} (h : s.Extends s') {T : Id} {k : Key}
    (hk : s.Defines T k) : s'.Defines T k :=
  hk.keep h.keeps

theorem Declares.mono {N : String → Prop} {s s' : Emitter} (h : s.Extends s') {operands : List Word}
    (hd : s.Declares N operands) : s'.Declares N operands := by
  obtain ⟨k, elem, T, id, hoperands, hk, hnormal, hnamed, hT⟩ := hd
  exact ⟨k, elem, T, id, hoperands, hk, hnormal, hnamed, h.types hT⟩

/-! ## Updates -/

@[simp] theorem has_put {s : Emitter} {part part' : Section} {i j : Instruction} :
    (s.put part i).Has part' j ↔ s.Has part' j ∨ part' = part ∧ j = i := by
  simp [Has, put, Draft.emit]

@[simp] theorem has_define {s : Emitter} {part part' : Section} {i j : Instruction} :
    (s.define part i).Has part' j ↔ s.Has part' j ∨ part' = part ∧ j = i := by
  simp [Has, define, Draft.emit]

@[simp] theorem code_put (s : Emitter) (part : Section) (i : Instruction) :
    (s.put part i).code = s.code ++ if part = .functions then [i] else [] := by
  by_cases h : part = .functions <;>
    simp [code, put, Draft.emit, Draft.emitted, List.filterMap_append, h]

@[simp] theorem code_define (s : Emitter) (part : Section) (i : Instruction) :
    (s.define part i).code = s.code ++ if part = .functions then [i] else [] := by
  by_cases h : part = .functions <;>
    simp [code, define, Draft.emit, Draft.emitted, List.filterMap_append, h]

/-- An instruction of a type gives a value, once it is named and recorded. -/
theorem value_labelled {s : Emitter} {part : Section} {i : Instruction} {id T : Id} {key : Key}
    (hT : s.typeOf? key = some T) (hnormal : key.normalize = key) (hid : i.resultId = some id)
    (htype : i.resultType = some T) (text : String) :
    ((s.define part i).labelled id key text).Value id key := by
  refine ⟨⟨text, ?_⟩, T, part, i, hT, has_put.mpr (.inl (has_define.mpr (.inr ⟨rfl, rfl⟩))), hid,
    htype⟩
  rw [labelled, record, hnormal]
  exact List.lookup_cons_self

/-- An extension of a consistent emitter is consistent if what it adds to the memory is true. -/
theorem Consistent.extend {N : String → Prop} {s s' : Emitter} (hs : s.Consistent N)
    (h : s.Extends s')
    (t : ∀ {sig id}, s'.types.lookup sig = some id → s.types.lookup sig = some id ∨
      ∃ k : Key, k.canon = k ∧ k.signature = sig ∧ k.type.Named N ∧ s'.Defines id k
      := by exact fun h => .inl h)
    (u : ∀ {v id}, s'.uints.lookup v = some id →
      s.uints.lookup v = some id ∨ s'.Constant id .uint32 v := by exact fun h => .inl h)
    (f : ∀ {v id}, s'.floats.lookup v = some id →
      s.floats.lookup v = some id ∨ s'.Constant id .float32 v := by exact fun h => .inl h)
    (r : ∀ {r id}, s'.functionTypes.lookup r = some id → s.functionTypes.lookup r = some id ∨
      s'.Has .globals ⟨.typeFunction, [id, r]⟩ := by exact fun h => .inl h)
    (m : ∀ {id}, s'.mathSet = some id → s.mathSet = some id ∨
      s'.Has .instructionSets ⟨.extInstImport, id :: Literal.ofString mathSetName⟩
      := by exact fun h => .inl h)
    (b : ∀ {id b}, s'.bindings.lookup id = some b → s.bindings.lookup id = some b ∨
      s'.Allocated id ∧ b.key.normalize = b.key ∧ b.key.type.Named N
      := by exact fun h => .inl h)
    (v : ∀ {operands}, s'.Has .globals ⟨.var, operands⟩ →
      s.Has .globals ⟨.var, operands⟩ ∨ s'.Declares N operands := by exact fun h => .inl h) :
    s'.Consistent N where
  filled := hs.filled.grows h.draft
  types hk := by
    rcases t hk with hk | hk
    · obtain ⟨k, hcanon, hsig, hnamed, hdef⟩ := hs.types hk
      exact ⟨k, hcanon, hsig, hnamed, hdef.mono h⟩
    · exact hk
  uints hv := (u hv).elim (fun hv => (hs.uints hv).mono h) id
  floats hv := (f hv).elim (fun hv => (hs.floats hv).mono h) id
  functionTypes hr := (r hr).elim (fun hr => (hs.functionTypes hr).mono h) id
  mathSet hm := (m hm).elim (fun hm => (hs.mathSet hm).mono h) id
  bindings hb := by
    rcases b hb with hb | hb
    · obtain ⟨hid, hkey⟩ := hs.bindings hb
      exact ⟨hid.mono h, hkey⟩
    · exact hb
  declared hv := (v hv).elim (fun hv => (hs.declared hv).mono h) id

/-- What is found is the new entry or was there before. -/
theorem lookup_cons_eq_some {α β : Type} [BEq α] [LawfulBEq α] {a a' : α} {b b' : β}
    {l : List (α × β)} (h : List.lookup a ((a', b') :: l) = some b) :
    (a = a' ∧ b = b') ∨ List.lookup a l = some b := by
  rw [List.lookup_cons] at h
  by_cases ha : a = a'
  · subst ha
    simp at h
    exact .inl ⟨rfl, h.symm⟩
  · rw [beq_false_of_ne ha] at h
    exact .inr h

/-- An entry for something new hides nothing. -/
theorem lookup_cons_of_some {α β : Type} [BEq α] [LawfulBEq α] {a a' : α} {b b' : β}
    {l : List (α × β)} (hnone : List.lookup a' l = none) (h : List.lookup a l = some b) :
    List.lookup a ((a', b') :: l) = some b := by
  have hne : a ≠ a' := by
    rintro rfl
    rw [hnone] at h
    cases h
  rw [List.lookup_cons, beq_false_of_ne hne]
  exact h

/-- Recording an id of which nothing was known is an extension. -/
theorem extends_record {s : Emitter} {id : Id} (hid : s.bindings.lookup id = none) (key : Key)
    (name : String) : s.Extends (s.record id key name) where
  draft := .refl _
  types h := h
  uints h := h
  bindings h := lookup_cons_of_some hid h

/-- An emitter stays consistent if a new id is recorded that was allocated. -/
theorem Consistent.record {N : String → Prop} {s : Emitter} (hs : s.Consistent N) {id : Id}
    (hid : s.bindings.lookup id = none) (halloc : s.Allocated id) (key : Key)
    (hkey : key.type.Named N) (name : String) : (s.record id key name).Consistent N := by
  have hext := extends_record hid key name
  refine hs.extend hext (b := fun hb => ?_)
  rcases lookup_cons_eq_some hb with ⟨rfl, rfl⟩ | hb
  · exact .inr ⟨halloc.mono hext, key.normalize_normalize, (key.named_normalize).mpr hkey⟩
  · exact .inl hb

/-- Recording a new type is an extension. -/
theorem extends_cache {s : Emitter} {id : Id} {key : Key} (hkey : s.typeOf? key = none)
    (hid : s.bindings.lookup id = none) : s.Extends (s.cache key id) where
  draft := .refl _
  types h := lookup_cons_of_some hkey h
  uints h := h
  bindings h := lookup_cons_of_some hid h

/-- An emitter stays consistent if a type is recorded that was defined. -/
theorem Consistent.cache {N : String → Prop} {s : Emitter} (hs : s.Consistent N) {id : Id}
    {key : Key} (hkey : s.typeOf? key = none) (hid : s.bindings.lookup id = none)
    (halloc : s.Allocated id) (hnamed : key.type.Named N) (hdef : s.Defines id key.canon) :
    (s.cache key id).Consistent N := by
  have hext := extends_cache hkey hid
  refine hs.extend hext (t := fun hk => ?_) (b := fun hb => ?_)
  · rcases lookup_cons_eq_some hk with ⟨rfl, rfl⟩ | hk
    · refine .inr ⟨key.canon, key.canon_canon, key.signature_canon, ?_, hdef.mono hext⟩
      exact (Ty.named_canon _).mpr ((key.named_normalize).mpr hnamed)
    · exact .inl hk
  · rcases lookup_cons_eq_some hb with ⟨rfl, rfl⟩ | hb
    · exact .inr ⟨halloc.mono hext, key.normalize_normalize, (key.named_normalize).mpr hnamed⟩
    · exact .inl hb

/-- A new id is not the result of an earlier instruction. -/
theorem not_allocated_nextId {s : Emitter} (hs : s.draft.WellFilled) (hwrap : s.NoWrap) :
    ¬ s.Allocated s.nextId := by
  rintro ⟨part, i, hi, hresult⟩
  have hmem : s.nextId ∈ s.draft.log.toList.filterMap (·.2.resultId) :=
    List.mem_filterMap.mpr ⟨(part, i), hi, hresult⟩
  rw [hs.results, mem_idsBetween] at hmem
  obtain ⟨n, -, hn, heq⟩ := hmem
  have hn' : n < idLimit := Nat.lt_trans hn hwrap
  have htaken := Id.nth_inj hwrap hn' heq
  omega

/-- Nothing is known about an id that was not allocated. -/
theorem Consistent.lookup_eq_none {N : String → Prop} {s : Emitter} (hs : s.Consistent N) {id : Id}
    (hid : ¬ s.Allocated id) : s.bindings.lookup id = none := by
  cases hb : s.bindings.lookup id with
  | none => rfl
  | some b => exact absurd (hs.bindings hb).1 hid

/-- Two instructions with the same result are one instruction. -/
theorem Has.unique {s : Emitter} (hs : s.draft.WellFilled) (hwrap : s.NoWrap) {part part' : Section}
    {i j : Instruction} {id : Id} (hi : s.Has part i) (hj : s.Has part' j)
    (hiid : i.resultId = some id) (hjid : j.resultId = some id) : part = part' ∧ i = j := by
  have hnodup : (s.draft.log.toList.filterMap (·.2.resultId)).Nodup := by
    rw [hs.results]
    exact nodup_idsBetween (Nat.le_of_lt hwrap)
  by_contra hne
  have hne' : (part, i) ≠ (part', j) := fun h => hne (Prod.mk.inj h)
  have hsymm : Std.Symm fun a b : Section × Instruction =>
      ∀ r, a.2.resultId = some r → ∀ r', b.2.resultId = some r' → r ≠ r' :=
    ⟨fun a b h r hr r' hr' => (h r' hr' r hr).symm⟩
  exact (List.pairwise_filterMap.mp hnodup).forall hi hj hne' id hiid id hjid rfl

end Emitter

/-! ## New types -/

namespace Emitter

/-- No function code was emitted, and no types but those with the given signatures. -/
structure Interns (s : Emitter) (P : String → Prop) (s' : Emitter) : Prop where
  code : s'.code = s.code
  types : ∀ {sig}, ¬ P sig → s'.types.lookup sig = s.types.lookup sig

namespace Interns

variable {s s₁ s₂ s₃ : Emitter} {P Q : String → Prop}

theorem refl (s : Emitter) : s.Interns P s :=
  ⟨rfl, fun _ => rfl⟩

/-- What types were new adds up. -/
theorem trans (h₁ : s₁.Interns P s₂) (h₂ : s₂.Interns P s₃) : s₁.Interns P s₃ where
  code := h₂.code.trans h₁.code
  types hP := (h₂.types hP).trans (h₁.types hP)

theorem mono (h : s₁.Interns P s₂) (hPQ : ∀ sig, P sig → Q sig) : s₁.Interns Q s₂ where
  code := h.code
  types hQ := h.types fun hP => hQ (hPQ _ hP)

/-- A type is recorded under its signature. -/
theorem cache (h : s₁.Interns P s₂) {key : Key} (hkey : P key.signature) (id : Id) :
    s₁.Interns P (s₂.cache key id) where
  code := h.code
  types {sig} hsig := by
    have hne : sig ≠ key.signature := by
      rintro rfl
      exact hsig hkey
    show List.lookup sig ((key.signature, id) :: s₂.types) = _
    rw [List.lookup_cons, beq_false_of_ne hne]
    exact h.types hsig

end Interns

end Emitter

/-- The signatures that interning a key may define: its own, and shorter ones. -/
def Key.Covers (k : Key) (sig : String) : Prop :=
  sig.length ≤ max 4 k.signature.length

/-- The signatures that interning members may define. -/
def Members.Covers (members : Members) (sig : String) : Prop :=
  sig.length ≤ max 4 (members.signature.length + 1)

namespace Emitter

/-- A type and its canonical form are found under the same signature. -/
theorem typeOf?_canon (s : Emitter) (t : Ty) (storage : StorageClass) :
    s.typeOf? ⟨t.canon, storage⟩ = s.typeOf? ⟨t, storage⟩ := by
  rw [typeOf?, typeOf?, Key.signature_mk_canon]

/-- So are the types of members. -/
theorem MemberTypes.canon {s : Emitter} {members : Members} {ids : List Id}
    (h : s.MemberTypes members ids) : s.MemberTypes members.canon ids := by
  induction members using Members.toList.induct generalizing ids with
  | case1 => exact h
  | case2 name type rest ih =>
    obtain ⟨id, ids', rfl, hid, hrest⟩ := h
    refine ⟨id, ids', rfl, ?_, ih hrest⟩
    rw [Key.value, typeOf?_canon]
    exact hid

end Emitter

theorem Members.sized_of_supported {members : Members} (h : members.Supported) : members.Sized := by
  induction members using Members.toList.induct with
  | case1 => trivial
  | case2 name type rest ih => exact ⟨h.2.1, ih h.2.2⟩

end ShaderStage

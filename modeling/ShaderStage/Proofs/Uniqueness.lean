import ShaderStage.Proofs.Arrangement
import ShaderStage.Proofs.Definitions
import ShaderStage.Proofs.Sessions

/-! # Definitions are unique

An emitter is asked for types, constants and expressions in any order, and some of the requests
fail. Whatever it was asked before, a type or constant that it has is found again without emitting
anything, and different ones have different ids. So no definition is emitted twice: a definition can
be read back to what it was entered as, because the ids in its operands stand for one type or
constant each.

* `Emitter.Turn.numbered`: entries have ids of their own;
* `Emitter.Turn.accounted`: every definition was entered;
* `Emitter.Indexed.unrepeated`: no definition is repeated;
* `definitions_unique`: this holds after any calls. -/

namespace ShaderStage

/-! ## Signatures of parts -/

/-- The text of a storage class does not look like the end of a type. -/
theorem StorageClass.not_mem_text (sc : StorageClass) : '>' ∉ sc.text := by
  unfold text
  split
  · nofun
  · intro hmem
    rcases List.mem_cons.mp hmem with h | h
    · exact absurd h (by decide)
    · have hdigit := Nat.isDigit_of_mem_toDigits (by decide) (by decide) h
      exact absurd hdigit (by decide)

/-- The letter tells whether a type is a pointer. -/
theorem Ty.initial_eq_p {t : Ty} : t.initial = 'p' ↔ ∃ elem, t = .pointer elem := by
  constructor
  · intro h
    cases t with
    | pointer elem => exact ⟨elem, rfl⟩
    | int type | enum name type => cases hsigned : type.signed <;> simp [initial, hsigned] at h
    | _ => simp [initial] at h
  · rintro ⟨elem, rfl⟩
    rfl

/-- What the signature of a key has besides that of its type. -/
theorem Key.toList_signature_mk (t : Ty) (sc : StorageClass) :
    ∃ rest, (Key.mk t sc).signature.toList = t.signature.toList ++ rest ∧ '>' ∉ rest ∧
      ((∀ elem, t ≠ .pointer elem) → rest = []) := by
  rw [toList_signature]
  by_cases hpointer : ∃ elem, t = .pointer elem
  · obtain ⟨elem, rfl⟩ := hpointer
    rw [normalize_pointer]
    generalize (if elem.isOpaque then StorageClass.uniformConstant else sc) = sc'
    refine ⟨sc'.text, ?_, sc'.not_mem_text, fun h => absurd rfl (h elem)⟩
    rw [Ty.signature, Ty.signature, Ty.signature_underlying]
  · have hne : ∀ elem, t ≠ .pointer elem := fun elem h => hpointer ⟨elem, h⟩
    rw [normalize_of_not_pointer hne, Ty.signature_underlying]
    exact ⟨[], rfl, nofun, fun _ => rfl⟩

/-- The signature of a pointer is cut at its last bracket. -/
theorem eq_of_append_bracket {x y rest rest' : List Char} (hrest : '>' ∉ rest)
    (hrest' : '>' ∉ rest') (h : x ++ ['>'] ++ rest = y ++ ['>'] ++ rest') : x = y := by
  have hcut : ∀ {x rest : List Char}, '>' ∉ rest →
      (x ++ ['>'] ++ rest).reverse.dropWhile (· ≠ '>') = '>' :: x.reverse := by
    intro x rest hrest
    rw [List.reverse_append, List.reverse_append, List.dropWhile_append_of_pos]
    · rfl
    · intro c hc
      refine decide_eq_true fun heq => hrest ?_
      rwa [← heq, ← List.mem_reverse]
  have hreverse := hcut (x := x) hrest
  rw [h, hcut hrest'] at hreverse
  exact List.reverse_inj.mp (List.cons.inj hreverse).2.symm

/-- Keys with one signature are of types with one signature. -/
theorem Key.signature_type_inj {a b : Ty} {sc sc' : StorageClass}
    (h : (Key.mk a sc).signature = (Key.mk b sc').signature) : a.signature = b.signature := by
  obtain ⟨rest, ha, hrest, hnone⟩ := toList_signature_mk a sc
  obtain ⟨rest', hb, hrest', hnone'⟩ := toList_signature_mk b sc'
  rw [h, hb] at ha
  -- The first letter tells whether the two types are pointers.
  have hinitial : b.initial = a.initial := by
    obtain ⟨cs, hcs⟩ := a.signature_eq_cons
    obtain ⟨cs', hcs'⟩ := b.signature_eq_cons
    rw [hcs, hcs'] at ha
    exact (List.cons.inj ha).1
  by_cases hpointer : a.initial = 'p'
  · obtain ⟨elem, rfl⟩ := Ty.initial_eq_p.mp hpointer
    obtain ⟨elem', rfl⟩ := Ty.initial_eq_p.mp (hinitial.trans hpointer)
    have htext : ∀ elem : Ty, (Ty.pointer elem).signature.toList =
        "ptr<".toList ++ elem.signature.toList ++ ['>'] := by
      intro elem
      simp [Ty.signature, String.toList_append]
    rw [htext, htext] at ha
    have hparts := eq_of_append_bracket hrest' hrest ha
    rw [← String.toList_inj, htext, htext, hparts]
  · have hne : ∀ elem, a ≠ .pointer elem := fun elem h => hpointer (Ty.initial_eq_p.mpr ⟨elem, h⟩)
    have hne' : ∀ elem, b ≠ .pointer elem :=
      fun elem h => hpointer (hinitial.symm.trans (Ty.initial_eq_p.mpr ⟨elem, h⟩))
    rw [hnone hne, hnone' hne', List.append_nil, List.append_nil] at ha
    exact (String.toList_inj.mp ha).symm

/-- The signature of a pointer in its own storage class, as a text. -/
theorem Key.toList_signature_pointer {elem : Ty} {sc : StorageClass}
    (h : (Key.mk (.pointer elem) sc).normalize.storage = sc) :
    (Key.mk (.pointer elem) sc).signature.toList =
      (Ty.pointer elem).signature.toList ++ sc.text := by
  rw [toList_signature, h, normalize_pointer]
  simp only [Ty.signature, Ty.signature_underlying]

namespace Emitter

variable {κ : Kinds} {s s' : Emitter} {pub : List (Section × Instruction)}

/-! ## Ids of entries -/

/-- Every entry has an id that was taken, and no two entries have the same; only blocks stand for
themselves. -/
structure Numbered (s : Emitter) : Prop where
  taken : ∀ {e id}, s.find e = some id → e = .block id ∨ id ∈ idsBetween 0 s.draft.ids.taken
  injective : ∀ {e e' id}, s.find e = some id → s.find e' = some id →
    e = e' ∨ e = .block id ∨ e' = .block id

theorem numbered_start (v : Version) : (Emitter.start v).Numbered := by
  have hnone : ∀ e, (Emitter.start v).find e = none := by
    intro e
    cases e <;> rfl
  constructor
  · intro e id h
    cases (hnone e).symm.trans h
  · intro e e' id h
    cases (hnone e).symm.trans h

/-- A turn gives every new entry an id of its own, since the ids that it takes are new. -/
theorem Turn.numbered (h : Turn κ s pub s') (hwrap : s'.NoWrap) (hs : s.Numbered) :
    s'.Numbered := by
  have htaken := h.grows.taken
  have hold : ∀ {e id}, s.find e = some id →
      e = .block id ∨ id ∈ idsBetween 0 s'.draft.ids.taken := by
    intro e id he
    exact (hs.taken he).imp_right fun hid => mem_idsBetween_of_le hid (Nat.le_refl _) htaken
  rcases h.find_cases with heq | ⟨new, id', -, hid', hfind⟩
  · refine ⟨?_, ?_⟩ <;> rw [heq]
    · exact hold
    · exact hs.injective
  -- The new entry has its id to itself: the other entries took theirs before.
  have hfresh : ∀ {e}, s.find e = some id' → new = .block id' ∨ e = .block id' := by
    intro e he
    rcases hid' with hblock | hnew
    · exact .inl hblock
    rcases hs.taken he with hblock | hid
    · exact .inr hblock
    · exact absurd hnew (not_mem_idsBetween (Nat.le_of_lt hwrap) hid)
  constructor
  · intro e id he
    rw [hfind] at he
    split at he
    · cases he
      rename_i heq
      rw [heq]
      exact hid'.imp_right fun hid => mem_idsBetween_of_le hid (Nat.zero_le _) (Nat.le_refl _)
    · exact hold he
  · intro e e' id he he'
    rw [hfind] at he he'
    split at he <;> split at he'
    · rename_i heq heq'
      exact .inl (heq.trans heq'.symm)
    · rename_i heq _
      cases he
      rw [heq]
      exact .inr (hfresh he')
    · rename_i _ heq'
      cases he'
      rw [heq']
      exact .inr (hfresh he).symm
    · exact hs.injective he he'

/-- Types with the same id have the same signature. -/
theorem Numbered.type_inj (hs : s.Numbered) {k k' : Key} {id : Id} (h : s.typeOf? k = some id)
    (h' : s.typeOf? k' = some id) : k.signature = k'.signature := by
  have hfind : s.find (.type k.signature) = some id := h
  have hfind' : s.find (.type k'.signature) = some id := h'
  rcases hs.injective hfind hfind' with h | h | h
  · exact Entry.type.inj h
  · cases h
  · cases h

/-- Numbers with the same id are the same. -/
theorem Numbered.uint_inj (hs : s.Numbered) {v v' : Word} {id : Id} (h : s.uints.lookup v = some id)
    (h' : s.uints.lookup v' = some id) : v = v' := by
  have hfind : s.find (.uint v) = some id := h
  have hfind' : s.find (.uint v') = some id := h'
  rcases hs.injective hfind hfind' with h | h | h
  · exact Entry.uint.inj h
  · cases h
  · cases h

end Emitter

/-! ## Definitions read back -/

/-- What an instruction says apart from its result: its opcode and its other operands. -/
def Instruction.content (i : Instruction) : Opcode × List Word :=
  (i.opcode,
    match i.opcode.shape, i.operands with
    | .result, _ :: rest => rest
    | .typedResult, type :: _ :: rest => type :: rest
    | _, operands => operands)

/-- The kinds of definitions. Their opcodes tell them apart. -/
inductive EntryForm where
  | bool | void | int | float | vector | matrix | array | sampledImage | pointer | constant
  | function

namespace EntryForm

/-- The opcode of a definition. -/
def opcode : EntryForm → Opcode
  | bool => .typeBool
  | void => .typeVoid
  | int => .typeInt
  | float => .typeFloat
  | vector => .typeVector
  | matrix => .typeMatrix
  | array => .typeArray
  | sampledImage => .typeSampledImage
  | pointer => .typePointer
  | constant => .constant
  | function => .typeFunction

/-- An opcode tells the form of the definition. -/
theorem opcode_inj {f g : EntryForm} (h : f.opcode = g.opcode) : f = g := by
  cases f <;> cases g <;> first | rfl | exact absurd h (by decide)

/-- Images are not defined by themselves. -/
theorem opcode_ne_typeImage (f : EntryForm) : f.opcode ≠ .typeImage := by
  cases f <;> decide

end EntryForm

namespace Emitter

variable {κ : Kinds} {s s' : Emitter} {pub : List (Section × Instruction)}

/-- What the operands of a definition, apart from its result, can be read back to. -/
inductive Spells (s : Emitter) : EntryForm → Entry → List Word → Prop
  | bool : Spells s .bool (.type (Key.value .bool).signature) []
  | void : Spells s .void (.type (Key.value .void).signature) []
  | int {t : IntTy} :
      Spells s .int (.type (Key.value (.int t)).signature)
        [t.width.toUInt32, if t.signed then 1 else 0]
  | float {width : UInt8} :
      Spells s .float (.type (Key.value (.float width)).signature) [width.toUInt32]
  | vector {count : UInt8} {c : Id} :
      Spells s .vector (.type (Key.value (.vector count)).signature) [c, count.toUInt32]
  | matrix {c : Id} : Spells s .matrix (.type (Key.value .matrix4).signature) [c, 4]
  | array {elem : Ty} {length : UInt32} {e l : Id} (he : s.typeOf? (.value elem) = some e)
      (hl : s.uints.lookup length = some l) :
      Spells s .array (.type (Key.value (.array elem length)).signature) [e, l]
  | sampledImage {image : Id} :
      Spells s .sampledImage (.type (Key.value .sampledImage2D).signature) [image]
  | pointer {elem : Ty} {sc : StorageClass} {p : Id} (hp : s.typeOf? ⟨elem, sc⟩ = some p)
      (hsc : (Key.mk (.pointer elem) sc).normalize.storage = sc) :
      Spells s .pointer (.type (Key.mk (.pointer elem) sc).signature) [sc, p]
  | constant {pool : Pool} {T : Id} {bits : Word} (hT : s.typeOf? (.value pool.type) = some T) :
      Spells s .constant (pool.entry bits) [T, bits]
  | function {result : Id} : Spells s .function (.functionType result) [result]

/-- The text of an array type. -/
theorem signature_array (elem : Ty) (length : UInt32) :
    (Key.value (.array elem length)).signature =
      "array<" ++ elem.signature ++ "," ++ toString length.toNat ++ ">" :=
  rfl

/-- The two kinds of constants have different types. -/
theorem Numbered.pool_inj (hs : s.Numbered) {pool pool' : Pool} {T : Id}
    (h : s.typeOf? (.value pool.type) = some T) (h' : s.typeOf? (.value pool'.type) = some T) :
    pool = pool' := by
  have hsig := hs.type_inj h h'
  cases pool <;> cases pool' <;> first | rfl | exact absurd hsig (by decide)

namespace Spells

variable {form : EntryForm} {e e' : Entry} {operands operands' : List Word}

theorem keep (hkeeps : s.Keeps s') (h : s.Spells form e operands) : s'.Spells form e operands := by
  cases h with
  | array he hl => exact .array (hkeeps.types he) (hkeeps.uints hl)
  | pointer hp hsc => exact .pointer (hkeeps.types hp) hsc
  | constant hT => exact .constant (hkeeps.types hT)
  | _ => constructor

/-- A definition can be read back in one way only. -/
theorem unique (hs : s.Numbered) (h : s.Spells form e operands) (h' : s.Spells form e' operands')
    (heq : operands = operands') : e = e' := by
  cases h with
  | bool | void | matrix | sampledImage =>
    cases h'
    rfl
  | @int t =>
    cases h' with
    | @int t' =>
      obtain ⟨width, signed⟩ := t
      obtain ⟨width', signed'⟩ := t'
      simp only [List.cons.injEq, UInt8.toUInt32_inj, and_true] at heq
      obtain ⟨rfl, hsigned⟩ := heq
      cases signed <;> cases signed' <;> first | rfl | simp at hsigned
  | float =>
    cases h'
    simp only [List.cons.injEq, UInt8.toUInt32_inj, and_true] at heq
    rw [heq]
  | vector =>
    cases h'
    simp only [List.cons.injEq, UInt8.toUInt32_inj, and_true] at heq
    rw [heq.2]
  | array he hl =>
    cases h' with
    | array he' hl' =>
      simp only [List.cons.injEq, and_true] at heq
      obtain ⟨rfl, rfl⟩ := heq
      rw [signature_array, signature_array, Key.signature_type_inj (hs.type_inj he he'),
        hs.uint_inj hl hl']
  | pointer hp hsc =>
    cases h' with
    | pointer hp' hsc' =>
      simp only [List.cons.injEq, and_true] at heq
      obtain ⟨rfl, rfl⟩ := heq
      -- The storage class is an operand, so the pointees are all that is left to compare.
      have helem := Key.signature_type_inj (hs.type_inj hp hp')
      rw [Entry.type.injEq, ← String.toList_inj, Key.toList_signature_pointer hsc,
        Key.toList_signature_pointer hsc', Ty.signature, Ty.signature, helem]
  | constant hT =>
    cases h' with
    | constant hT' =>
      simp only [List.cons.injEq, and_true] at heq
      obtain ⟨rfl, rfl⟩ := heq
      rw [hs.pool_inj hT hT']
  | function =>
    cases h'
    rw [(List.cons.inj heq).1]

end Spells

/-- The content of an instruction can be read back to an entry. -/
def Reads (s : Emitter) (e : Entry) (content : Opcode × List Word) : Prop :=
  ∃ form operands, content = (form.opcode, operands) ∧ s.Spells form e operands

theorem Reads.keep {e : Entry} {c : Opcode × List Word} (hkeeps : s.Keeps s') (h : s.Reads e c) :
    s'.Reads e c := by
  obtain ⟨form, operands, hc, hspells⟩ := h
  exact ⟨form, operands, hc, hspells.keep hkeeps⟩

theorem Reads.unique (hs : s.Numbered) {e e' : Entry} {c : Opcode × List Word} (h : s.Reads e c)
    (h' : s.Reads e' c) : e = e' := by
  obtain ⟨form, operands, rfl, hspells⟩ := h
  obtain ⟨form', operands', heq, hspells'⟩ := h'
  obtain ⟨hform, hoperands⟩ := Prod.mk.inj heq
  obtain rfl := EntryForm.opcode_inj hform
  exact hspells.unique hs hspells' hoperands

/-- An image is not read by itself. -/
theorem Reads.ne_typeImage {e : Entry} {c : Opcode × List Word} (h : s.Reads e c) :
    c.1 ≠ .typeImage := by
  obtain ⟨form, operands, rfl, -⟩ := h
  exact form.opcode_ne_typeImage

/-- The one instruction with the result of a definition can be read back to it. -/
theorem Defines.reads (hfilled : s.draft.WellFilled) (hwrap : s.NoWrap) {T : Id} {k : Key}
    (h : s.Defines T k) (hcanon : k.canon = k) {d : Instruction} (hd : s.Has .globals d)
    (hresult : d.resultId = some T) :
    d.opcode = .typeStruct ∨ s.Reads (.type k.signature) d.content := by
  have hreads {form : EntryForm} {operands : List Word} {d' : Instruction} (hd' : s.Has .globals d')
      (hresult' : d'.resultId = some T) (hcontent : d'.content = (form.opcode, operands))
      (hspells : s.Spells form (.type k.signature) operands) :
      d.opcode = .typeStruct ∨ s.Reads (.type k.signature) d.content := by
    rw [(Has.unique hfilled hwrap hd hd' hresult hresult').2]
    exact .inr ⟨form, operands, hcontent, hspells⟩
  cases h with
  | bool h => exact hreads h rfl rfl .bool
  | void h => exact hreads h rfl rfl .void
  | int _ h => exact hreads h rfl rfl .int
  | float _ h => exact hreads h rfl rfl .float
  | vector _ _ h => exact hreads h rfl rfl .vector
  | matrix4 _ h => exact hreads h rfl rfl .matrix
  | array _ he hl h => exact hreads h rfl rfl (.array he hl)
  | sampledImage2D _ _ h => exact hreads h rfl rfl .sampledImage
  | struct _ _ h =>
    rw [(Has.unique hfilled hwrap hd h hresult rfl).2]
    exact .inl rfl
  | pointer hp h => exact hreads h rfl rfl (.pointer hp (congrArg Key.storage hcanon))

/-! ## Accounts -/

/-- The instruction is a structure type, or can be read back to an entry that has its result, or is
the image of a sampled image. -/
def Accounts (s : Emitter) (i : Instruction) : Prop :=
  i.opcode = .typeStruct ∨
    (∃ e id, s.find e = some id ∧ i.resultId = some id ∧ s.Reads e i.content) ∨
    ∃ d, s.Has .globals d ∧ IsImageOf d i

theorem Accounts.keep (h : Turn κ s pub s') {i : Instruction} (hi : s.Accounts i) :
    s'.Accounts i := by
  rcases hi with hstruct | ⟨e, id, he, hid, hreads⟩ | ⟨d, hd, himage⟩
  · exact .inl hstruct
  · exact .inr (.inl ⟨e, id, h.find_of_some he, hid, hreads.keep h.keeps⟩)
  · exact .inr (.inr ⟨d, hd.keep h.keeps, himage⟩)

theorem keeps_cache {key : Key} (hkey : s.typeOf? key = none) (id : Id) :
    s.Keeps (s.cache key id) :=
  ⟨.refl _, fun h => lookup_cons_of_some hkey h, fun h => h⟩

/-- Entries of other sections add neither types nor constants. -/
theorem Logs.has_globals {new : List (Section × Instruction)} (h : s.Logs new s')
    (hnew : ∀ e ∈ new, e.1 ≠ .globals) {i : Instruction} (hi : s'.Has .globals i) :
    s.Has .globals i := by
  rw [Has, ← Draft.mem_emitted, h.emitted_eq hnew, Draft.mem_emitted] at hi
  exact hi

/-- Remarks add nothing to the global part. -/
theorem Remarks.has_globals (h : s.Remarks s') {i : Instruction} (hi : s'.Has .globals i) :
    s.Has .globals i := by
  have hremarks : ∀ part ∈ Section.remarks, part ≠ .globals := by decide
  obtain ⟨new, hlogs, hnew⟩ := h
  exact hlogs.has_globals (fun e he => hremarks _ (hnew e he).part) hi

/-- What is noted leaves the global part as it is, or is accounted for. -/
theorem Notes.accounts (h : s.Notes κ pub s') {i : Instruction} (hi : s'.Has .globals i) :
    s.Has .globals i ∨ s'.Accounts i := by
  cases h with
  | @abandoned name members storage ids hkey hids =>
    refine (has_define.mp ((s.remarks_structured name members ids).has_globals hi)).imp_right ?_
    rintro ⟨-, rfl⟩
    exact .inl rfl
  | performed h => exact .inl ((Logs.put h.spec.1 h.spec.2.1).has_globals (by simp) hi)
  | function =>
    have hfunction := (remarks_label _ _ _).has_globals hi
    exact .inl ((Logs.typedResult (by decide) (by decide)).has_globals (by simp) hfunction)
  | label => exact .inl ((Logs.result (by decide) (by decide)).has_globals (by simp) hi)
  | capability c => exact .inl ((s.remarks_declare c).has_globals hi)
  | decoration => exact .inl ((Logs.put (by decide) (by decide)).has_globals (by simp) hi)
  | string => exact .inl ((Logs.result (by decide) (by decide)).has_globals (by simp) hi)
  | @announced part j h =>
    have hpart : part ≠ .globals := by cases h <;> nofun
    exact .inl ((Logs.put h.spec.1 h.spec.2).has_globals (by simp [hpart]) hi)

/-- What a turn adds to the types and constants is accounted for afterwards. Variables of the module
are declared in public only. -/
theorem Turn.accounts (h : Turn κ s pub s') (hpub : ∀ e ∈ pub, e.1 ≠ .globals)
    (hfilled : s'.draft.WellFilled) (hwrap : s'.NoWrap) {i : Instruction}
    (hi : s'.Has .globals i) : s.Has .globals i ∨ s'.Accounts i := by
  cases h with
  | @type key id s₁ hkey hunknown h =>
    have hunknown₁ : s₁.typeOf? key = none :=
      (congrFun h.find_eq (.type key.signature)).trans hunknown
    have hdefines := h.defines.keep (keeps_cache hunknown₁ id)
    obtain ⟨d, new, hlogs, hd, hid, -, hnew⟩ := h.logs
    have hlog : (s₁.cache key id).draft.log.toList = s.draft.log.toList ++ new := hlogs.log
    have hhas : (s₁.cache key id).Has .globals d := by
      rw [Has, hlog]
      exact List.mem_append_right _ hd
    rw [Has, hlog] at hi
    refine (List.mem_append.mp hi).imp_right fun hi => ?_
    -- The definition itself, what is said about it, or the image that it is made of.
    rcases hnew _ hi with heq | hremark | ⟨-, himage⟩
    · obtain rfl : i = d := (Prod.mk.inj heq).2
      refine (hdefines.reads hfilled hwrap key.canon_canon hhas hid).imp_right fun hreads => ?_
      rw [Key.signature_canon] at hreads
      exact .inl ⟨.type key.signature, id, List.lookup_cons_self, hid, hreads⟩
    · exact absurd (show Section.globals ∈ Section.remarks from hremark.part) (by decide)
    · exact .inr (.inr ⟨d, hhas, himage⟩)
  | @constant pool T bits hT hunknown =>
    have hlabel : ((s.define .globals ⟨.constant, [T, s.nextId, bits]⟩).label s.nextId
        (pool.text bits)).Has .globals i := by
      rw [Has, ← draft_newConstant]
      exact hi
    refine (has_define.mp ((remarks_label _ _ _).has_globals hlabel)).imp_right ?_
    rintro ⟨-, rfl⟩
    refine .inr (.inl ⟨pool.entry bits, s.nextId, ?_, rfl, .constant, [T, bits], rfl, ?_⟩)
    · rw [find_newConstant, if_pos rfl]
    · refine .constant ?_
      rw [typeOf?, types_newConstant]
      exact hT
  | @functionType result hresult hunknown =>
    refine (has_define.mp hi).imp_right ?_
    rintro ⟨-, rfl⟩
    exact .inr (.inl ⟨.functionType result, s.nextId, List.lookup_cons_self, rfl, .function,
      [result], rfl, .function⟩)
  | @value op operands key T text s₁ hop hkey htext hT hs₁ =>
    have hvalue : s.Logs [(.functions, ⟨op, T :: s.nextId :: operands⟩)] _ :=
      .typedResult hop.spec.1 hop.spec.2.1
    have hdefined := (remarks_title (s₁.record s.nextId key text) _ _).has_globals hi
    rcases hs₁ with rfl | rfl
    · exact .inl (hvalue.has_globals (by simp) hdefined)
    · exact .inl (hvalue.has_globals (by simp) hdefined)
  | math =>
    left
    have hemitted := Draft.mem_emitted.mpr hi
    rw [record, emitted_define, if_neg (by decide), List.append_nil,
      emitted_importMath (by decide)] at hemitted
    exact Draft.mem_emitted.mp hemitted
  | localVariable =>
    have hdefined := (remarks_label _ _ _).has_globals hi
    exact .inl ((Logs.typedResult (by decide) (by decide)).has_globals (by simp) hdefined)
  | globalVariable => exact absurd rfl (hpub _ List.mem_cons_self)
  | block => exact .inl ((Logs.put (by decide) (by decide)).has_globals (by simp) hi)
  | note h => exact h.accounts hi
  | @rename id b text =>
    have htitle := remarks_title { s with bindings := (id, { b with name := text }) :: s.bindings }
    exact .inl ((htitle id text).has_globals hi)

/-- All types and constants are accounted for. -/
def Accounted (s : Emitter) : Prop :=
  ∀ i, s.Has .globals i → s.Accounts i

/-- A turn accounts for what it adds to the global part. -/
theorem Turn.accounted (h : Turn κ s pub s') (hpub : ∀ e ∈ pub, e.1 ≠ .globals)
    (hfilled : s'.draft.WellFilled) (hwrap : s'.NoWrap) (hs : s.Accounted) : s'.Accounted := by
  intro i hi
  rcases h.accounts hpub hfilled hwrap hi with hold | hnew
  · exact (hs i hold).keep h
  · exact hnew

/-- Instructions whose results are the id of one entry are one instruction. -/
theorem eq_of_find (hfilled : s.draft.WellFilled) (hwrap : s.NoWrap) {i j : Instruction}
    (hi : s.Has .globals i) (hj : s.Has .globals j) {e : Entry} {id id' : Id}
    (he : s.find e = some id) (he' : s.find e = some id') (hid : i.resultId = some id)
    (hid' : j.resultId = some id') : i = j := by
  obtain rfl : id = id' := Option.some.inj (he.symm.trans he')
  exact (Has.unique hfilled hwrap hi hj hid hid').2

/-- A sampled image is entered, since it is neither a structure nor an image. -/
theorem Accounted.sampledImage (hs : s.Accounted) (hnum : s.Numbered) {T image : Id}
    (hd : s.Has .globals ⟨.typeSampledImage, [T, image]⟩) :
    s.find (.type (Key.value .sampledImage2D).signature) = some T := by
  rcases hs _ hd with hstruct | ⟨e, id, he, hid, hreads⟩ | ⟨d, -, U, image', operands, -, himage⟩
  · exact absurd (show Opcode.typeSampledImage = .typeStruct from hstruct) (by decide)
  · have hsampled : s.Reads (.type (Key.value .sampledImage2D).signature)
        (.typeSampledImage, [image]) := ⟨.sampledImage, [image], rfl, .sampledImage⟩
    rw [hsampled.unique hnum hreads, he, ← hid]
    rfl
  · exact absurd (Instruction.mk.inj himage).1 (by decide)

/-- Two definitions with the same content are one, unless they are structures. -/
theorem Accounted.eq_of_content (hs : s.Accounted) (hnum : s.Numbered)
    (hfilled : s.draft.WellFilled) (hwrap : s.NoWrap) {i j : Instruction} (hi : s.Has .globals i)
    (hj : s.Has .globals j) (hstruct : i.opcode ≠ .typeStruct) (heq : i.content = j.content) :
    i = j := by
  have hop : i.opcode = j.opcode := congrArg Prod.fst heq
  rcases hs i hi with h | ⟨e, id, he, hid, hreads⟩ | ⟨d, hd, T, image, operands, rfl, rfl⟩
  · exact absurd h hstruct
  · rcases hs j hj with h | ⟨e', id', he', hid', hreads'⟩ | ⟨d, -, T, image, operands, -, rfl⟩
    · exact absurd (hop.trans h) hstruct
    · rw [← heq] at hreads'
      rw [← hreads.unique hnum hreads'] at he'
      exact eq_of_find hfilled hwrap hi hj he he' hid hid'
    · exact absurd hop hreads.ne_typeImage
  · rcases hs j hj with h | ⟨e', -, -, -, hreads'⟩ | ⟨d', hd', T', image', operands', rfl, rfl⟩
    · exact absurd (hop.trans h) hstruct
    · exact absurd hop.symm hreads'.ne_typeImage
    · -- Both are the image of the one sampled image.
      have hT := hs.sampledImage hnum hd
      rw [hs.sampledImage hnum hd'] at hT
      obtain rfl : T' = T := Option.some.inj hT
      have hsame := (Has.unique hfilled hwrap hd hd' rfl rfl).2
      obtain rfl : image = image' := by simpa using hsame
      exact (Has.unique hfilled hwrap hi hj rfl rfl).2

/-! ## Blocks -/

/-- Each block is decorated once, and nothing else as a block. -/
structure Marked (s : Emitter) : Prop where
  decorations : (s.draft.emitted .decorations).filter Instruction.isBlock =
    s.blocks.reverse.map fun struct => ⟨.decorate, [struct, Decoration.block]⟩
  nodup : s.blocks.Nodup

theorem marked_start (v : Version) : (Emitter.start v).Marked :=
  ⟨rfl, .nil⟩

/-- Entries that mark no block, and whatever happens to the other tables. -/
theorem Marked.of_logs {s₁ : Emitter} {new : List (Section × Instruction)} (hs : s.Marked)
    (h : s.Logs new s₁) (hnew : ∀ e ∈ new, e.1 = .decorations → e.2.isBlock = false)
    (hdraft : s'.draft = s₁.draft) (hblocks : s'.blocks = s.blocks) : s'.Marked := by
  have hnone : (Section.decorations.pick new).filter Instruction.isBlock = [] := by
    refine List.filter_eq_nil_iff.mpr fun i hi => ?_
    simp [hnew _ (Section.mem_pick.mp hi) rfl]
  refine ⟨?_, hblocks ▸ hs.nodup⟩
  rw [hdraft, h.emitted, List.filter_append, hnone, List.append_nil, hblocks]
  exact hs.decorations

/-- A remark marks no block. -/
theorem Remarks.marked {s₁ : Emitter} (h : s.Remarks s₁) (hs : s.Marked)
    (hdraft : s'.draft = s₁.draft) (hblocks : s'.blocks = s.blocks) : s'.Marked := by
  obtain ⟨new, hlogs, hnew⟩ := h
  exact hs.of_logs hlogs (fun e he _ => (hnew e he).block) hdraft hblocks

/-- What is noted marks no block. -/
theorem Notes.marked (h : s.Notes κ pub s') (hs : s.Marked) : s'.Marked := by
  cases h with
  | @abandoned name members storage ids hkey hids =>
    have hstruct : (s.define .globals ⟨.typeStruct, s.nextId :: ids⟩).Marked :=
      hs.of_logs (.result (by decide) (by decide)) (by simp) rfl rfl
    have hremarks := s.remarks_structured name members ids
    exact hremarks.marked hstruct rfl hremarks.blocks
  | performed h => exact hs.of_logs (.put h.spec.1 h.spec.2.1) (by simp) rfl rfl
  | @function text htext result type =>
    have hfunction : (s.define .functions ⟨.function, [result, s.nextId, 0, type]⟩).Marked :=
      hs.of_logs (.typedResult (by decide) (by decide)) (by simp) rfl rfl
    exact (remarks_label _ s.nextId text).marked hfunction rfl rfl
  | label => exact hs.of_logs (.result (by decide) (by decide)) (by simp) rfl rfl
  | capability c => exact (s.remarks_declare c).marked hs rfl (s.remarks_declare c).blocks
  | @decoration id d hd hid value =>
    -- Where a variable is placed is another decoration.
    have hplacing : Decoration.block ∉ Decoration.placing := by decide
    have hne : d ≠ .block := fun heq => hplacing (heq ▸ hd)
    refine hs.of_logs (.put (by decide) (by decide)) ?_ rfl rfl
    refine List.forall_mem_singleton.mpr fun _ => ?_
    simp [Instruction.isBlock, hne]
  | string => exact hs.of_logs (.result (by decide) (by decide)) (by simp) rfl rfl
  | @announced part i h =>
    have hpart : part ≠ .decorations := by cases h <;> nofun
    exact hs.of_logs (.put h.spec.1 h.spec.2) (by simp [hpart]) rfl rfl

/-- A turn marks a block at most once, because it records those that it marked. -/
theorem Turn.marked (h : Turn κ s pub s') (hs : s.Marked) : s'.Marked := by
  cases h with
  | type hkey hunknown h =>
    obtain ⟨d, new, hlogs, -, -, -, hnew⟩ := h.logs
    refine hs.of_logs hlogs (fun e he hpart => ?_) rfl hlogs.blocks
    rcases hnew e he with rfl | hremark | ⟨hglobals, -⟩
    · cases hpart
    · exact hremark.block
    · cases hglobals.symm.trans hpart
  | @constant pool T bits =>
    refine hs.of_logs (s.logs_constant T pool bits) (by simp) (s.draft_newConstant T pool bits) ?_
    cases pool <;> rfl
  | functionType => exact hs.of_logs (.result (by decide) (by decide)) (by simp) rfl rfl
  | @value op operands key T text s₁ hop hkey htext hT hs₁ =>
    have hdefined : (s₁.record s.nextId key text).Marked := by
      rcases hs₁ with rfl | rfl
      · exact hs.of_logs (.typedResult hop.spec.1 hop.spec.2.1) (by simp) rfl rfl
      · exact hs.of_logs (.typedResult hop.spec.1 hop.spec.2.1) (by simp) rfl rfl
    have htitle := remarks_title (s₁.record s.nextId key text) s.nextId text
    exact htitle.marked hdefined rfl htitle.blocks
  | math =>
    obtain ⟨new, s₁, hlogs, heq, hnew⟩ := s.logs_importMath
    have himport : s.importMath.Marked := by
      refine hs.of_logs hlogs (fun e he hpart => ?_) (by rw [heq]) (by rw [heq, hlogs.blocks])
      cases (hnew e he).symm.trans hpart
    exact himport.of_logs (.typedResult (by decide) (by decide)) (by simp) rfl rfl
  | @localVariable key T text =>
    have hdefined : (s.define .functions ⟨.var, [T, s.nextId, StorageClass.function]⟩).Marked :=
      hs.of_logs (.typedResult (by decide) (by decide)) (by simp) rfl rfl
    exact (remarks_label _ s.nextId text).marked hdefined rfl rfl
  | @globalVariable key T text =>
    have hdefined : (s.define .globals ⟨.var, [T, s.nextId, key.storage]⟩).Marked :=
      hs.of_logs (.typedResult (by decide) (by decide)) (by simp) rfl rfl
    exact (remarks_label _ s.nextId text).marked hdefined rfl rfl
  | @block struct hstruct hunmarked =>
    refine ⟨?_, List.nodup_cons.mpr ⟨hunmarked, hs.nodup⟩⟩
    show ((s.put .decorations _).draft.emitted .decorations).filter Instruction.isBlock = _
    rw [Emitter.put, Draft.emitted_emit, if_pos rfl, List.filter_append, hs.decorations,
      List.reverse_cons, List.map_append]
    rfl
  | note h => exact h.marked hs
  | @rename id b text =>
    have htitle := remarks_title { s with bindings := (id, { b with name := text }) :: s.bindings }
      id text
    exact htitle.marked ⟨hs.decorations, hs.nodup⟩ rfl htitle.blocks

/-- In turns no block is marked twice. -/
theorem Turns.marked (h : s.Turns κ pub s') (hs : s.Marked) : s'.Marked :=
  h.induct hs fun _ _ _ _ ih hturn => hturn.marked ih

/-! ## No definition is repeated -/

/-- What holds after any turns from nothing that declare no variable of the module. -/
structure Indexed (s : Emitter) : Prop where
  filled : s.draft.WellFilled
  numbered : s.Numbered
  accounted : s.Accounted
  marked : s.Marked
  imports : s.Imports

theorem indexed_start (v : Version) : (Emitter.start v).Indexed where
  filled := Draft.wellFilled_empty v
  numbered := numbered_start v
  accounted i hi := by simp [Has, Emitter.start] at hi
  marked := marked_start v
  imports := imports_start v

/-- A turn keeps the entries and the definitions in step. -/
theorem Turn.indexed (h : Turn κ s pub s') (hpub : ∀ e ∈ pub, e.1 ≠ .globals) (hwrap : s'.NoWrap)
    (hs : s.Indexed) : s'.Indexed where
  filled := hs.filled.grows h.grows
  numbered := h.numbered hwrap hs.numbered
  accounted := h.accounted hpub (hs.filled.grows h.grows) hwrap hs.accounted
  marked := h.marked hs.marked
  imports := h.tells.imports hs.imports

/-- No two types other than structures, and no two constants, have the same opcode and the same
operands apart from their results; no type is decorated as a block twice; and at most one set of
instructions is imported. -/
structure Unrepeated (s : Emitter) : Prop where
  globals : (((s.draft.emitted .globals).filter (·.opcode ≠ .typeStruct)).map
    Instruction.content).Nodup
  blocks : (((s.draft.emitted .decorations).filter Instruction.isBlock).map
    (·.operands.head?)).Nodup
  imports : (s.draft.emitted .instructionSets).length ≤ 1

/-- What is accounted for and is no structure has a result. -/
theorem Accounts.result {i : Instruction} (h : s.Accounts i) (hstruct : i.opcode ≠ .typeStruct) :
    ∃ id, i.resultId = some id := by
  rcases h with h | ⟨e, id, -, hid, -⟩ | ⟨d, -, T, image, operands, -, rfl⟩
  · exact absurd h hstruct
  · exact ⟨id, hid⟩
  · exact ⟨image, rfl⟩

/-- Definitions are listed once, because results are. -/
theorem Indexed.nodup_globals (hs : s.Indexed) (hwrap : s.NoWrap) :
    ((s.draft.emitted .globals).filter (·.opcode ≠ .typeStruct)).Nodup := by
  have hresults : (s.draft.log.toList.filterMap (·.2.resultId)).Nodup := by
    rw [hs.filled.results]
    exact nodup_idsBetween (Nat.le_of_lt hwrap)
  have hglobals : (s.draft.emitted .globals).Pairwise fun i j =>
      ∀ r, i.resultId = some r → ∀ r', j.resultId = some r' → r ≠ r' := by
    rw [Draft.emitted_eq_pick, Section.pick, List.pairwise_filterMap]
    refine (List.pairwise_filterMap.mp hresults).imp ?_
    intro e e' hne i hi j hj
    obtain ⟨-, hi⟩ := Option.ite_none_right_eq_some.mp hi
    obtain ⟨-, hj⟩ := Option.ite_none_right_eq_some.mp hj
    rwa [← Option.some.inj hi, ← Option.some.inj hj]
  refine List.Pairwise.imp_of_mem ?_ (hglobals.filter _)
  rintro i j hi - hne rfl
  obtain ⟨hmem, hstruct⟩ := List.mem_filter.mp hi
  have haccounts := hs.accounted i (Draft.mem_emitted.mp hmem)
  obtain ⟨id, hid⟩ := haccounts.result (of_decide_eq_true hstruct)
  exact hne id hid id hid rfl

/-- If entries and definitions are in step, no definition is repeated. -/
theorem Indexed.unrepeated (hs : s.Indexed) (hwrap : s.NoWrap) : s.Unrepeated where
  globals := by
    refine List.Nodup.map_on ?_ (hs.nodup_globals hwrap)
    intro i hi j hj heq
    obtain ⟨hmem, hstruct⟩ := List.mem_filter.mp hi
    obtain ⟨hmem', -⟩ := List.mem_filter.mp hj
    exact hs.accounted.eq_of_content hs.numbered hs.filled hwrap (Draft.mem_emitted.mp hmem)
      (Draft.mem_emitted.mp hmem') (of_decide_eq_true hstruct) heq
  blocks := by
    rw [hs.marked.decorations, List.map_map]
    exact List.Nodup.map (fun _ _ => Option.some.inj) (List.nodup_reverse.mpr hs.marked.nodup)
  imports := by
    rw [hs.imports.sets, List.length_map]
    exact Option.length_toList_le

/-! ## Sessions -/

/-- Ids can be had, and all that was emitted is entered unless ids wrap. -/
structure Orderly (s : Emitter) : Prop where
  isOpen : s.IsOpen
  indexed : s.NoWrap → s.Indexed

theorem orderly_start (v : Version) : (Emitter.start v).Orderly :=
  ⟨rfl, fun _ => indexed_start v⟩

/-- A turn that publishes no global keeps order. -/
theorem Turn.orderly (h : Turn κ s pub s') (hpub : ∀ e ∈ pub, e.1 ≠ .globals) (hs : s.Orderly) :
    s'.Orderly where
  isOpen := h.grows.closed.trans hs.isOpen
  indexed hwrap := h.indexed hpub hwrap (hs.indexed (hwrap.of_grows h.grows))

/-- Silent turns keep order. -/
theorem Orderly.turns (hs : s.Orderly) (h : s.Turns κ [] s') : s'.Orderly :=
  h.induct hs fun _ _ _ hsub ih hturn => hturn.orderly (fun _ he => absurd (hsub he) nofun) ih

/-- What is recorded about an id is not looked at by any table. -/
theorem Orderly.record (hs : s.Orderly) (id : Id) (key : Key) (name : String) :
    (s.record id key name).Orderly := by
  refine ⟨hs.isOpen, fun hwrap => ?_⟩
  obtain ⟨hfilled, hnumbered, haccounted, hmarked, himports⟩ := hs.indexed hwrap
  refine ⟨hfilled, ⟨hnumbered.taken, hnumbered.injective⟩, fun i hi => ?_, ⟨hmarked.decorations,
    hmarked.nodup⟩, himports.congr rfl rfl⟩
  have hkeeps : s.Keeps (s.record id key name) := ⟨.refl _, fun h => h, fun h => h⟩
  rcases haccounted i hi with hstruct | ⟨e, T, he, hT, hreads⟩ | himage
  · exact .inl hstruct
  · exact .inr (.inl ⟨e, T, he, hT, hreads.keep hkeeps⟩)
  · exact .inr (.inr himage)

/-- Any calls keep order. -/
theorem Orderly.after (hs : s.Orderly) (calls : List Call) : (s.after calls).Orderly :=
  after_of_turns hs calls (fun _ h => h.isOpen) (fun _ _ _ hpub h hturn => hturn.orderly hpub h)
    fun _ id key name h => h.record id key name

/-- What was found before calls is found after them. -/
theorem find_after (hopen : s.IsOpen) {e : Entry} {id : Id} (he : s.find e = some id)
    (calls : List Call) : (s.after calls).find e = some id := by
  refine (after_of_turns (P := fun s => s.IsOpen ∧ s.find e = some id) ⟨hopen, he⟩ calls
    (fun _ h => h.1) ?_ fun _ _ _ _ h => h).2
  intro s₁ s₂ pub _ h hturn
  exact ⟨hturn.grows.closed.trans h.1, hturn.find_of_some h.2⟩

end Emitter

/-- Something that is defined once: a type, a constant, or the type of functions with a result. -/
inductive Definition where
  | type (key : Key)
  | uint (value : UInt32)
  | float (bits : UInt32)
  | functionType (result : Id)

namespace Definition

/-- Asks for the id of a definition. -/
def run : Definition → Emit Id
  | .type key => Emit.keyId key
  | .uint value => Emit.constantUint value
  | .float bits => Emit.constantFloat bits
  | .functionType result => Emit.functionType result

/-- What a definition is found by: a type by the signature of the normal form of its key, a constant
by its bit pattern. -/
def entry : Definition → Entry
  | .type key => .type key.signature
  | .uint value => .uint value
  | .float bits => .float bits
  | .functionType result => .functionType result

/-- A definition that was asked for is found by its entry from then on. -/
theorem find_of_run {d : Definition} {s s' : Emitter} {id : Id} (hopen : s.IsOpen)
    (h : d.run s = .ok id s') : s.Turns (.all True) [] s' ∧ s'.find d.entry = some id := by
  have hs := Emitter.ready_all hopen True
  cases d with
  | type key =>
    obtain ⟨hturns, -, hfind⟩ := ((Emit.keyId_acts trivial) hs).of_ok h
    exact ⟨hturns, hfind⟩
  | uint value =>
    obtain ⟨hturns, -, hfind⟩ :=
      ((Emit.constantOf_acts (E := fun _ => True) .uint value) hs).of_ok h
    exact ⟨hturns, hfind⟩
  | float bits =>
    obtain ⟨hturns, -, hfind⟩ :=
      ((Emit.constantOf_acts (E := fun _ => True) .float bits) hs).of_ok h
    exact ⟨hturns, hfind⟩
  | functionType result =>
    obtain ⟨hturns, hfind, -⟩ :=
      ((Emit.functionType_acts (E := fun _ => True) (.inl trivial)) hs).of_ok h
    exact ⟨hturns, hfind⟩

/-- What is found in a table is not defined again. -/
theorem lookup_apply {table : Emitter → Option Id} {define : Emit Id} {s : Emitter} {id : Id}
    (h : table s = some id) :
    (get >>= fun s => match table s with
      | some id => pure id
      | none => define : Emit Id) s = .ok id s := by
  rw [bind_apply, get_apply]
  dsimp only
  rw [h]
  rfl

/-- Asking for a definition whose entry is there changes nothing. -/
theorem run_of_find {d : Definition} {s : Emitter} {id : Id} (h : s.find d.entry = some id) :
    d.run s = .ok id s := by
  cases d with
  | type key =>
    rw [run, Emit.keyId, Emit.typeId.eq_def]
    exact Emit.intern_apply_of_some h _
  | uint value => exact lookup_apply h
  | float bits => exact lookup_apply h
  | functionType result => exact lookup_apply h

/-- A definition is no mark. -/
theorem entry_ne_block (d : Definition) (id : Id) : d.entry ≠ .block id := by
  cases d <;> nofun

end Definition

/-- Interning is idempotent and definitions are unique. After any calls to a new emitter, failing
ones included: once a definition has an id, whatever has the same signature, value or bit pattern
gets that id again, without any effect; any other definition gets another id; and no definition is
emitted twice. Only the last two need that ids do not wrap. -/
theorem definitions_unique (v : Version) (before : List Call) :
    (∀ (d : Definition) (id : Id) (s : Emitter), d.run ((Emitter.start v).after before) = .ok id s →
      ∀ (between : List Call) (d' : Definition),
        (d'.entry = d.entry → d'.run (s.after between) = .ok id (s.after between)) ∧
        (d'.entry ≠ d.entry → ∀ id' s', d'.run (s.after between) = .ok id' s' → s'.NoWrap →
          id' ≠ id)) ∧
      (((Emitter.start v).after before).NoWrap → ((Emitter.start v).after before).Unrepeated) := by
  have hbefore := (Emitter.orderly_start v).after before
  refine ⟨fun d id s hrun between d' => ?_, fun hwrap => (hbefore.indexed hwrap).unrepeated hwrap⟩
  obtain ⟨hturns, hfind⟩ := Definition.find_of_run hbefore.isOpen hrun
  have hs := hbefore.turns hturns
  have hbetween := hs.after between
  have hfound := Emitter.find_after hs.isOpen hfind between
  refine ⟨fun hentry => ?_, fun hentry id' s' hrun' hwrap heq => hentry ?_⟩
  · rw [← hentry] at hfound
    exact Definition.run_of_find hfound
  · -- Both are found at the end, where no two entries have the same id.
    obtain ⟨hturns', hfind'⟩ := Definition.find_of_run hbetween.isOpen hrun'
    have hnum := ((hbetween.turns hturns').indexed hwrap).numbered
    rw [heq] at hfind'
    rcases hnum.injective hfind' (hturns'.find_of_some hfound) with h | h | h
    · exact h
    · exact absurd h (d'.entry_ne_block id)
    · exact absurd h (d.entry_ne_block id)

/-- Zero and negative zero are told apart, after a call that fails and a type asked for twice. -/
theorem definitions_unique_zeros :
    let key : Key := .pointer (.array .vec4 2) .uniform
    let s₀ := (Emitter.start .default).after [.load 1, .typeId key, .constantUint 2, .typeId key]
    ∃ id s id' s', (Definition.float 0).run s₀ = .ok id s ∧
      (Definition.float 0).run (s.after [.load id]) = .ok id (s.after [.load id]) ∧
      (Definition.float 0x80000000).run (s.after [.load id]) = .ok id' s' ∧ id' ≠ id ∧
      s₀.Unrepeated := by
  intro key s₀
  obtain ⟨hunique, hunrepeated⟩ :=
    definitions_unique .default [.load 1, .typeId key, .constantUint 2, .typeId key]
  have hrun : (Definition.float 0).run s₀ = .ok 7 (endState ((Definition.float 0).run s₀)) :=
    eq_ok_of_run' (by decide +kernel)
  generalize hs : endState ((Definition.float 0).run s₀) = s at hrun
  have hrun' : (Definition.float 0x80000000).run (s.after [.load 7]) =
      .ok 8 (endState ((Definition.float 0x80000000).run (s.after [.load 7]))) := by
    rw [← hs]
    exact eq_ok_of_run' (by decide +kernel)
  have hwrap : (endState ((Definition.float 0x80000000).run (s.after [.load 7]))).NoWrap := by
    rw [← hs]
    show (_ : Nat) < _
    decide +kernel
  obtain ⟨hsame, -⟩ := hunique _ _ _ hrun [.load 7] (.float 0)
  obtain ⟨-, hother⟩ := hunique _ _ _ hrun [.load 7] (.float 0x80000000)
  have hwrap₀ : s₀.NoWrap := by
    show (_ : Nat) < _
    decide +kernel
  exact ⟨7, s, 8, _, hrun, hsame rfl, hrun', hother nofun _ _ hrun' hwrap, hunrepeated hwrap₀⟩

end ShaderStage

import ShaderStage.Proofs.Arrangement

/-! # Annotations

Besides definitions and code, an emission declares capabilities and decorates ids. What it adds
there follows from the rest: a capability comes with the type that needs it, a decoration with the
matrix that has it. Only a field asks for more: its variable is decorated as its layout says, with
the capabilities that this needs.

* `Emitter.Turns.annotated`: turns annotate what they add as it asks for;
* `DeclaresEach.annotated`: the variables of fields are decorated in order, and nothing else is;
* `Program.Staged.annotates`: what the log of a program has in the end;
* `Program.Staged.mem_blocks`: the blocks are the types of the fields that are blocks. -/

namespace ShaderStage

/-! ## What an instruction asks for -/

/-- The capabilities of the widths of integers. -/
def Capability.ofInt : List (Word × Capability) :=
  [(8, .int8), (16, .int16), (64, .int64)]

/-- The capabilities of the widths of floats. -/
def Capability.ofFloat : List (Word × Capability) :=
  [(16, .float16), (64, .float64)]

/-- The capabilities of built-ins: clip and cull distances, the number and the position of a
sample. -/
def Capability.ofBuiltIn : List (BuiltInNumber × Capability) :=
  [(3, .clipDistance), (4, .cullDistance), (18, .sampleRateShading), (19, .sampleRateShading)]

/-- The capability, at the end of a list unless it is there already. -/
def Capability.declareIn (cs : List Capability) (c : Capability) : List Capability :=
  if c ∈ cs then cs else cs ++ [c]

namespace Instruction

/-- The instruction that declares a capability. -/
def declaring (c : Capability) : Instruction :=
  ⟨.capability, [c]⟩

/-- The capabilities that an instruction needs: those of the width that it defines, or of the
built-in that it decorates with. -/
def needs (i : Instruction) : List Capability :=
  if i.opcode = .typeInt then (i.operands[1]?.bind (List.lookup · Capability.ofInt)).toList
  else if i.opcode = .typeFloat then
    (i.operands[1]?.bind (List.lookup · Capability.ofFloat)).toList
  else if i.opcode = .decorate ∧ i.operands[1]? = some Decoration.builtIn then
    (i.operands[2]?.bind (List.lookup · Capability.ofBuiltIn)).toList
  else []

/-- The decoration of a matrix type as one that is stored by columns. -/
def major? (i : Instruction) : Option Instruction :=
  if i.opcode = .typeMatrix then some ⟨.decorate, i.operands.take 1 ++ [Decoration.colMajor]⟩
  else none

/-- The instruction decorates a matrix type. -/
def isMajor (i : Instruction) : Bool :=
  i.operands[1]? = some Decoration.colMajor

/-- The instruction decorates neither a matrix type nor a block. -/
def isPlacing (i : Instruction) : Bool :=
  !i.isMajor && !i.isBlock

end Instruction

/-- The opcodes of the instructions that ask for an annotation, or that are one. -/
def Opcode.remarkable : List Opcode :=
  [.capability, .decorate, .typeInt, .typeFloat, .typeMatrix]

section

variable (new new' : List (Section × Instruction))

/-- The capabilities that entries need, in order. -/
def needsOf : List Capability :=
  new.flatMap (·.2.needs)

/-- The decorations that the matrix types among entries have. -/
def majorsOf : List Instruction :=
  new.filterMap (·.2.major?)

@[simp] theorem needsOf_append : needsOf (new ++ new') = needsOf new ++ needsOf new' :=
  List.flatMap_append

@[simp] theorem majorsOf_append : majorsOf (new ++ new') = majorsOf new ++ majorsOf new' :=
  List.filterMap_append

end

/-- Entries that ask for nothing. -/
theorem needsOf_eq_nil {entries : List (Section × Instruction)}
    (h : ∀ e ∈ entries, e.2.opcode ∉ Opcode.remarkable) :
    needsOf entries = [] ∧ majorsOf entries = [] := by
  refine ⟨List.flatMap_eq_nil_iff.mpr fun e he => ?_,
    List.filterMap_eq_nil_iff.mpr fun e he => ?_⟩
  all_goals
    have hop := h e he
    simp only [Opcode.remarkable, List.mem_cons, not_or] at hop
    simp [Instruction.needs, Instruction.major?, hop]

/-! ## Annotated drafts -/

namespace Draft

/-- The capabilities declared so far. -/
def HasCapabilities (d : Draft) (cs : List Capability) : Prop :=
  d.emitted .capabilities = cs.map Instruction.declaring

/-- The later draft has new entries, annotated as they ask for. Besides, `placed` are the
decorations of variables among them. -/
structure Annotates (d : Draft) (new : List (Section × Instruction)) (placed : List Instruction)
    (d' : Draft) : Prop where
  log : d'.log.toList = d.log.toList ++ new
  capabilities : ∀ cs, d.HasCapabilities cs →
    d'.HasCapabilities ((needsOf new).foldl Capability.declareIn cs)
  majors : (Section.decorations.pick new).filter Instruction.isMajor = majorsOf new
  placings : (Section.decorations.pick new).filter Instruction.isPlacing = placed

/-- The later draft has new entries, annotated as they ask for, and `placed` are the decorations of
variables among them. -/
def Annotated (d : Draft) (placed : List Instruction) (d' : Draft) : Prop :=
  ∃ new, d.Annotates new placed d'

variable {d d₁ d₂ d₃ d' : Draft} {new new' : List (Section × Instruction)}
  {placed placed' : List Instruction}

/-- Only what is declared matters. -/
theorem HasCapabilities.emitted_eq {cs : List Capability} (h : d.HasCapabilities cs)
    (heq : d'.emitted .capabilities = d.emitted .capabilities) : d'.HasCapabilities cs :=
  heq.trans h

/-- A capability is declared if it is one of those that were. -/
theorem HasCapabilities.declares {cs : List Capability} (h : d.HasCapabilities cs)
    (c : Capability) : d.declares c = true ↔ c ∈ cs := by
  have hmem : d.declares c = true ↔ ∃ i ∈ d.emitted .capabilities, i.operands = [c] := by
    simp only [Draft.declares, Array.any_eq_true', Bool.and_eq_true, decide_eq_true_eq, beq_iff_eq,
      Draft.emitted_eq_pick, Section.mem_pick, Array.mem_toList_iff]
    constructor
    · rintro ⟨⟨part, i⟩, hi, hpart, hoperands⟩
      obtain rfl : part = .capabilities := hpart
      exact ⟨i, hi, hoperands⟩
    · rintro ⟨i, hi, hoperands⟩
      exact ⟨_, hi, rfl, hoperands⟩
  rw [hmem, h]
  simp [Instruction.declaring]

namespace Annotates

theorem refl (d : Draft) : d.Annotates [] [] d where
  log := (List.append_nil _).symm
  capabilities _ h := h
  majors := rfl
  placings := rfl

theorem trans (h : d₁.Annotates new placed d₂) (h' : d₂.Annotates new' placed' d₃) :
    d₁.Annotates (new ++ new') (placed ++ placed') d₃ where
  log := by rw [h'.log, h.log, List.append_assoc]
  capabilities cs hcs := by
    rw [needsOf_append, List.foldl_append]
    exact h'.capabilities _ (h.capabilities cs hcs)
  majors := by
    rw [Section.pick_append, List.filter_append, h.majors, h'.majors, majorsOf_append]
  placings := by rw [Section.pick_append, List.filter_append, h.placings, h'.placings]

end Annotates

theorem Annotated.refl (d : Draft) : d.Annotated [] d :=
  ⟨[], .refl d⟩

theorem Annotated.trans (h : d₁.Annotated placed d₂) (h' : d₂.Annotated placed' d₃) :
    d₁.Annotated (placed ++ placed') d₃ := by
  obtain ⟨new, hnew⟩ := h
  obtain ⟨new', hnew'⟩ := h'
  exact ⟨_, hnew.trans hnew'⟩

end Draft

/-! ## Annotations of a turn -/

namespace Emitter

variable {κ : Kinds} {s s₁ s₂ s' : Emitter} {k : Key} {id : Id}
  {pub new : List (Section × Instruction)}

/-- Entries that ask for no annotation and are none. -/
theorem Logs.annotates (h : s.Logs new s') (hnew : ∀ e ∈ new, e.2.opcode ∉ Opcode.remarkable) :
    s.draft.Annotates new [] s'.draft := by
  -- The opcodes also tell that no entry is in the sections of annotations.
  have hparts : ∀ part ∈ [Section.capabilities, .decorations], part.pick new = [] := by
    have hremarkable : ∀ part ∈ [Section.capabilities, .decorations], ∀ op ∈ part.opcodes,
        op ∈ Opcode.remarkable := by decide
    refine fun part hpart => Section.pick_eq_nil fun e he heq => hnew e he ?_
    exact hremarkable part hpart _ (heq ▸ h.parts e he)
  obtain ⟨hneeds, hmajors⟩ := needsOf_eq_nil hnew
  have hdecorations := hparts .decorations (by simp)
  refine ⟨h.log, fun cs hcs => ?_, ?_, ?_⟩
  · rw [hneeds]
    refine hcs.emitted_eq ?_
    rw [h.emitted, hparts .capabilities (by simp), List.append_nil]
  · rw [hdecorations, hmajors, List.filter_nil]
  · rw [hdecorations, List.filter_nil]

/-- One instruction that asks for no annotation and is none. -/
theorem Logs.annotated {part : Section} {op : Opcode} {operands : List Word}
    (h : s.Logs [(part, ⟨op, operands⟩)] s') (hop : op ∉ Opcode.remarkable) :
    s.draft.Annotated [] s'.draft :=
  ⟨_, h.annotates (List.forall_mem_singleton.mpr hop)⟩

/-- A name needs no annotation. -/
theorem annotated_label (s : Emitter) (id : Id) (text : String) :
    s.draft.Annotated [] (s.label id text).draft :=
  (Logs.put (by decide) (by decide)).annotated (by decide)

theorem annotated_title (s : Emitter) (id : Id) (text : String) :
    s.draft.Annotated [] (s.title id text).draft := by
  unfold title
  split
  · exact .refl _
  · exact s.annotated_label id text

/-- At most the declaration of a capability was added. -/
theorem logs_declare (s : Emitter) (c : Capability) :
    ∃ new, s.Logs new (s.declare c) ∧ ∀ e ∈ new, e = (.capabilities, .declaring c) := by
  unfold declare
  split
  · exact ⟨[], .refl s, nofun⟩
  · exact ⟨_, .put (by decide) (by decide), List.forall_mem_singleton.mpr rfl⟩

/-- A capability is declared at most once. -/
theorem hasCapabilities_declare {cs : List Capability} (h : s.draft.HasCapabilities cs)
    (c : Capability) : (s.declare c).draft.HasCapabilities (Capability.declareIn cs c) := by
  unfold declare Capability.declareIn
  by_cases hc : c ∈ cs
  · rw [if_pos hc, if_pos ((h.declares c).mpr hc)]
    exact h
  · rw [if_neg hc, if_neg fun hdeclares => hc ((h.declares c).mp hdeclares)]
    show (s.draft.emit _ _).emitted .capabilities = _
    rw [Draft.emitted_emit, if_pos rfl, h, List.map_append]
    rfl

/-- Capabilities are declared in order, each at most once. -/
theorem hasCapabilities_foldl_declare {cs : List Capability} (h : s.draft.HasCapabilities cs)
    (needed : List Capability) :
    (needed.foldl declare s).draft.HasCapabilities (needed.foldl Capability.declareIn cs) := by
  induction needed generalizing s cs with
  | nil => exact h
  | cons c needed ih => exact ih (hasCapabilities_declare h c)

/-- Declaring capabilities adds nothing else. -/
theorem logs_foldl_declare (s : Emitter) (cs : List Capability) :
    ∃ new, s.Logs new (cs.foldl declare s) ∧ ∀ e ∈ new, ∃ c, e = (.capabilities, .declaring c) := by
  induction cs generalizing s with
  | nil => exact ⟨[], .refl s, nofun⟩
  | cons c cs ih =>
    obtain ⟨new, hlogs, hnew⟩ := s.logs_declare c
    obtain ⟨new', hlogs', hnew'⟩ := ih (s.declare c)
    exact ⟨_, hlogs.trans hlogs', List.forall_mem_append.mpr ⟨fun e he => ⟨c, hnew e he⟩, hnew'⟩⟩

/-- Declarations of capabilities ask for nothing. -/
theorem needsOf_declaring (h : ∀ e ∈ new, ∃ c, e = (.capabilities, Instruction.declaring c)) :
    needsOf new = [] ∧ majorsOf new = [] ∧ Section.decorations.pick new = [] := by
  refine ⟨List.flatMap_eq_nil_iff.mpr fun e he => ?_, List.filterMap_eq_nil_iff.mpr fun e he => ?_,
    Section.pick_eq_nil fun e he => ?_⟩
  all_goals
    obtain ⟨c, rfl⟩ := h e he
  · rfl
  · rfl
  · nofun

/-- The definition of a type needs the capability of the type. -/
theorem Outline.needs {op : Opcode} {operands : List Word} (h : s.Outline k op operands) (id : Id) :
    (⟨op, id :: operands⟩ : Instruction).needs = k.capability?.toList ∧
      (⟨op, id :: operands⟩ : Instruction).major? = none := by
  cases h with
  | @int t hwidth =>
    obtain ⟨width, signed⟩ := t
    rcases hwidth with rfl | rfl | rfl | rfl <;> exact ⟨rfl, rfl⟩
  | float hwidth => rcases hwidth with rfl | rfl | rfl | rfl <;> exact ⟨rfl, rfl⟩
  | _ => exact ⟨rfl, rfl⟩

/-- Preparing for a type is declaring what it needs. -/
theorem prepare_eq (s : Emitter) (k : Key) :
    s.prepare k = k.capability?.toList.foldl declare s := by
  unfold prepare
  cases k.capability? <;> rfl

/-- A type that is defined by one instruction comes with the capability that it needs. -/
theorem Outline.annotated {op : Opcode} {operands : List Word} (h : s.Outline k op operands) :
    s.draft.Annotated [] ((s.prepare k).define .globals ⟨op, s.nextId :: operands⟩).draft := by
  have hinterned : ∀ op ∈ Opcode.interned, op ∈ Section.globals.opcodes ∧ op.shape = .result := by
    decide
  obtain ⟨hpart, hshape⟩ := hinterned op h.mem_interned
  obtain ⟨hneeds, hmajor⟩ := h.needs s.nextId
  obtain ⟨new, hlogs, hnew⟩ := s.logs_foldl_declare k.capability?.toList
  obtain ⟨hneeds', hmajors', hpick⟩ := needsOf_declaring hnew
  have hdeclared : ∀ cs, s.draft.HasCapabilities cs → _ := fun cs hcs =>
    hasCapabilities_foldl_declare hcs k.capability?.toList
  have hnext := (s.remarks_prepare k).nextId_eq
  rw [prepare_eq] at hnext ⊢
  generalize k.capability?.toList.foldl declare s = s₁ at hlogs hdeclared hnext ⊢
  rw [← hnext] at hneeds hmajor ⊢
  have hdefine : s₁.Logs [(.globals, ⟨op, s₁.nextId :: operands⟩)] _ := .result hpart hshape
  refine ⟨_, (hlogs.trans hdefine).log, fun cs hcs => ?_, ?_, ?_⟩
  · rw [needsOf_append, hneeds', List.nil_append, needsOf, List.flatMap_singleton, hneeds]
    exact (hdeclared cs hcs).emitted_eq (hdefine.emitted_eq (List.forall_mem_singleton.mpr nofun))
  · rw [Section.pick_append, hpick, majorsOf_append, hmajors', List.nil_append, majorsOf]
    simp [hmajor]
  · rw [Section.pick_append, hpick]
    rfl

/-- A structure type asks for nothing: its members are not decorated like variables. -/
theorem annotated_structured (s : Emitter) (name : String) (members : Members) (ids : List Id) :
    s.draft.Annotated [] (s.structured name members ids).draft := by
  have hmembers : ∀ op ∈ [Opcode.memberDecorate, .memberName], op ∉ Opcode.remarkable := by decide
  have hstruct : s.draft.Annotated [] (s.define .globals ⟨.typeStruct, s.nextId :: ids⟩).draft :=
    (Logs.result (by decide) (by decide)).annotated (by decide)
  obtain ⟨new, hlogs, hnew⟩ := logs_layOut
    ((s.define .globals ⟨.typeStruct, s.nextId :: ids⟩).title s.nextId name) s.nextId 0 0 members
  refine (hstruct.trans (annotated_title _ _ _)).trans ⟨new, hlogs.annotates fun e he => ?_⟩
  exact hmembers _ (hnew e he)

/-- A new type is annotated as it asks for. -/
theorem Enters.annotated (h : s.Enters k id s') : s.draft.Annotated [] s'.draft := by
  cases h with
  | simple h =>
    exact h.annotated
  | @matrix4 storage c hc =>
    have hlogs : s.Logs [(.globals, ⟨.typeMatrix, [s.nextId, c, 4]⟩),
        (.decorations, ⟨.decorate, [s.nextId, Decoration.colMajor]⟩)] _ :=
      .trans (.result (by decide) (by decide)) (.put (by decide) (by decide))
    refine ⟨_, hlogs.log, fun cs hcs => ?_, rfl, rfl⟩
    exact hcs.emitted_eq (hlogs.emitted_eq (by simp))
  | @sampledImage2D storage c hc s₁ hs₁ =>
    have himage : s.draft.Annotated [] s₁.draft :=
      hs₁ ▸ (Logs.result (by decide) (by decide)).annotated (by decide)
    exact himage.trans ((Logs.result (by decide) (by decide)).annotated (by decide))
  | struct hsized hids => exact s.annotated_structured _ _ _

/-- Nothing is declared or decorated in public. -/
def IsReticent (pub : List (Section × Instruction)) : Prop :=
  ∀ e ∈ pub, e.1 ∉ [.capabilities, .decorations]

/-- What is noted annotates nothing, unless it says so in public. -/
theorem Notes.annotated (h : s.Notes κ pub s') (hpub : IsReticent pub) :
    s.draft.Annotated [] s'.draft := by
  have hreserved : ∀ part ∈ Section.reserved, ∀ op ∈ part.opcodes, op ∉ Opcode.remarkable := by
    decide
  have hcode : ∀ op ∈ Section.functions.opcodes, op ∉ Opcode.remarkable := by decide
  cases h with
  | abandoned hkey hids => exact s.annotated_structured _ _ _
  | performed h => exact (Logs.put h.spec.1 h.spec.2.1).annotated (hcode _ h.spec.1)
  | function =>
    exact ((Logs.typedResult (by decide) (by decide)).annotated (by decide)).trans
      (annotated_label _ _ _)
  | label => exact (Logs.result (by decide) (by decide)).annotated (by decide)
  | capability c => exact absurd (hpub _ List.mem_cons_self) (by simp)
  | decoration => exact absurd (hpub _ List.mem_cons_self) (by simp)
  | string htext => exact (Logs.result (by decide) (by decide)).annotated (by decide)
  | @announced part i h =>
    have hpart : part ∈ Section.reserved := by cases h <;> decide
    exact (Logs.put h.spec.1 h.spec.2).annotated (hreserved part hpart _ h.spec.1)

/-- A turn annotates what it adds as it asks for. -/
theorem Turn.annotated (h : Turn κ s pub s') (hpub : IsReticent pub) :
    s.draft.Annotated [] s'.draft := by
  have hcode : ∀ op ∈ Section.functions.opcodes, op ∉ Opcode.remarkable := by decide
  cases h with
  | type hkey hunknown h => exact h.annotated
  | @constant pool T bits =>
    rw [draft_newConstant]
    exact ((Logs.typedResult (by decide) (by decide)).annotated (by decide)).trans
      (annotated_label _ _ _)
  | functionType => exact (Logs.result (by decide) (by decide)).annotated (by decide)
  | @value op operands key T text s₁ hop hkey htext hT hs₁ =>
    have hdefine : s.draft.Annotated []
        (s.define .functions ⟨op, T :: s.nextId :: operands⟩).draft :=
      (Logs.typedResult hop.spec.1 hop.spec.2.1).annotated (hcode op hop.spec.1)
    have htitle := (s₁.record s.nextId key text).annotated_title s.nextId text
    rcases hs₁ with rfl | rfl
    · exact hdefine.trans htitle
    · exact hdefine.trans htitle
  | @math key T set hkey hT hset number argument =>
    have hsets : ∀ op ∈ Section.instructionSets.opcodes, op ∉ Opcode.remarkable := by decide
    have himport : s.draft.Annotated [] s.importMath.draft := by
      obtain ⟨new, s₁, hlogs, heq, hnew⟩ := s.logs_importMath
      rw [heq]
      exact ⟨new, hlogs.annotates fun e he => hsets _ (hnew e he ▸ hlogs.parts e he)⟩
    exact himport.trans ((Logs.typedResult (by decide) (by decide)).annotated (by decide))
  | localVariable | globalVariable =>
    exact ((Logs.typedResult (by decide) (by decide)).annotated (by decide)).trans
      (annotated_label _ _ _)
  | block => exact absurd (hpub _ List.mem_cons_self) (by simp)
  | note h => exact h.annotated hpub
  | @rename id b text =>
    exact annotated_title { s with bindings := (id, { b with name := text }) :: s.bindings } id text

/-- Turns that neither declare nor decorate in public annotate what they add as it asks for. -/
theorem Turns.annotated (h : s.Turns κ pub s') (hpub : IsReticent pub) :
    s.draft.Annotated [] s'.draft :=
  h.induct (P := fun s' => s.draft.Annotated [] s'.draft) (.refl _)
    fun _ _ _ hsub ih hturn => ih.trans (hturn.annotated fun e he => hpub e (hsub he))

/-- Only public turns mark blocks. -/
theorem Turn.blocks_eq (h : Turn κ s pub s') (hpub : IsReticent pub) : s'.blocks = s.blocks := by
  cases h with
  | type hkey hunknown h =>
    obtain ⟨d, new, hlogs, -⟩ := h.logs
    exact hlogs.blocks
  | @constant pool => cases pool <;> rfl
  | functionType | localVariable | globalVariable => rfl
  | @value op operands key T text s₁ hop hkey htext hT hs₁ =>
    refine ((s₁.record s.nextId key text).logs_title s.nextId text).blocks.trans ?_
    rcases hs₁ with rfl | rfl
    · rfl
    · rfl
  | math =>
    show s.importMath.blocks = s.blocks
    unfold importMath
    split <;> rfl
  | block => exact absurd (hpub _ List.mem_cons_self) (by simp)
  | note h =>
    obtain ⟨new, hlogs⟩ := h.logs
    exact hlogs.blocks
  | rename => exact (logs_title _ _ _).blocks

/-- Turns that say nothing about decorations mark no blocks. -/
theorem Turns.blocks_eq (h : s.Turns κ pub s') (hpub : IsReticent pub) : s'.blocks = s.blocks :=
  h.induct (P := fun s' => s'.blocks = s.blocks) rfl
    fun _ _ _ hsub ih hturn => (hturn.blocks_eq fun e he => hpub e (hsub he)).trans ih

/-! ## Fields -/

/-- The mark of a block is the decoration of no variable. -/
theorem annotated_mark (s : Emitter) (struct : Id) :
    s.draft.Annotated [] (s.mark struct).draft := by
  unfold mark
  split
  · exact .refl _
  · have hlogs : s.Logs [(.decorations, ⟨.decorate, [struct, Decoration.block]⟩)] _ :=
      .put (by decide) (by decide)
    refine ⟨_, hlogs.log, fun cs hcs => ?_, rfl, rfl⟩
    exact hcs.emitted_eq (hlogs.emitted_eq (List.forall_mem_singleton.mpr nofun))

/-- Marking adds the structure type to the blocks. -/
theorem mem_blocks_mark {struct : Id} :
    id ∈ (s.mark struct).blocks ↔ id = struct ∨ id ∈ s.blocks := by
  unfold mark
  split
  · rename_i hstruct
    constructor
    · exact .inr
    · rintro (rfl | hid)
      · exact hstruct
      · exact hid
  · exact List.mem_cons

end Emitter

/-- The capabilities of a resolution are those that its decorations need. -/
theorem Resolution.needs_decorations {f : Field} {r : Resolution} (hr : f.resolve = .ok r)
    (id : Id) : (r.decorations.flatMap fun d =>
      (⟨.decorate, [id, d.1, d.2]⟩ : Instruction).needs) = r.capabilities := by
  have hinterface : ∀ (layout : Layout) (storage : StorageClass),
      Field.resolveInterface layout storage = .ok r →
      (r.decorations.flatMap fun d =>
        (⟨.decorate, [id, d.1, d.2]⟩ : Instruction).needs) = r.capabilities := by
    intro layout storage h
    unfold Field.resolveInterface at h
    split at h
    · cases h
      rfl
    · rename_i builtin _
      cases builtin <;> cases h <;> rfl
  unfold Field.resolve at hr
  split at hr
  · cases hr
    rfl
  · split at hr
    · cases hr
      rfl
    · cases hr
      rfl
    · cases hr
    · split at hr
      · exact hinterface _ _ hr
      · exact hinterface _ _ hr
      · cases hr
        rfl
      · cases hr
        rfl

/-- The decorations of a variable are about neither matrices nor blocks. -/
theorem Variable.isPlacing_of_mem {v : Variable} {i : Instruction} (hi : i ∈ v.placements) :
    i.isMajor = false ∧ i.isPlacing = true := by
  obtain ⟨⟨d, value⟩, hd, rfl⟩ := List.mem_map.mp hi
  simp only [decorations, List.mem_append, Option.mem_toList, Option.map_eq_some_iff,
    Prod.mk.injEq] at hd
  rcases hd with ((⟨_, _, rfl, _⟩ | ⟨_, _, rfl, _⟩) | ⟨_, _, rfl, _⟩) | ⟨_, _, rfl, _⟩ <;>
    exact ⟨rfl, rfl⟩

namespace Emitter

/-- The decorations of a variable, and the capabilities that they need. -/
theorem annotated_placements (s : Emitter) {f : Field} {r : Resolution} (hr : f.resolve = .ok r)
    (id : Id) :
    s.draft.Annotated (f.variable r id).placements (r.capabilities.foldl declare
      (s.write ((f.variable r id).placements.map (.decorations, ·)))).draft := by
  generalize hplaced : (f.variable r id).placements = placed
  have hplacing : ∀ i ∈ placed, i.isMajor = false ∧ i.isPlacing = true :=
    fun i hi => Variable.isPlacing_of_mem (hplaced ▸ hi)
  have hneeds : needsOf (placed.map ((.decorations : Section), ·)) = r.capabilities := by
    rw [← hplaced, Variable.placements, List.map_map, needsOf, List.flatMap_map]
    exact Resolution.needs_decorations hr id
  have hop : ∀ i ∈ placed, i.opcode = .decorate := by
    rw [← hplaced]
    exact List.forall_mem_map.mpr fun _ _ => rfl
  have hmajors : majorsOf (placed.map ((.decorations : Section), ·)) = [] := by
    refine List.filterMap_eq_nil_iff.mpr (List.forall_mem_map.mpr fun i hi => ?_)
    rw [Instruction.major?, if_neg]
    rw [hop i hi]
    decide
  have hlogs : s.Logs (placed.map ((.decorations : Section), ·))
      (s.write (placed.map ((.decorations : Section), ·))) := by
    refine logs_write (List.forall_mem_map.mpr fun i hi => ?_)
    rw [hop i hi]
    exact ⟨List.mem_of_elem_eq_true rfl, rfl⟩
  have hpick : Section.decorations.pick (placed.map ((.decorations : Section), ·)) = placed := by
    rw [Section.pick_map, if_pos rfl, List.map_id']
  -- The capabilities come after the decorations and place nothing themselves.
  obtain ⟨new, hdeclare, hnew⟩ := logs_foldl_declare
    (s.write (placed.map ((.decorations : Section), ·))) r.capabilities
  obtain ⟨hneeds', hmajors', hpick'⟩ := needsOf_declaring hnew
  refine ⟨_, (hlogs.trans hdeclare).log, fun cs hcs => ?_, ?_, ?_⟩
  · rw [needsOf_append, hneeds, hneeds', List.append_nil]
    have hpart : Section.decorations ≠ .capabilities := by decide
    refine hasCapabilities_foldl_declare (hcs.emitted_eq (hlogs.emitted_eq ?_)) _
    exact List.forall_mem_map.mpr fun _ _ => hpart
  · rw [Section.pick_append, hpick, hpick', List.append_nil, majorsOf_append, hmajors, hmajors']
    refine List.filter_eq_nil_iff.mpr fun i hi => ?_
    simp [(hplacing i hi).1]
  · rw [Section.pick_append, hpick, hpick', List.append_nil]
    exact List.filter_eq_self.mpr fun i hi => (hplacing i hi).2

end Emitter

namespace Field

variable {κ : Kinds} {f : Field} {s s' : Emitter} {v : Variable}

/-- The variable of a field is what the field resolves to. -/
theorem DeclaredIn.resolved (h : f.DeclaredIn κ s v s') :
    ∃ r, f.resolve = .ok r ∧ v = f.variable r v.id := by
  cases h with
  | intro hr => exact ⟨_, hr, rfl⟩

/-- A variable is declared in public, which is no annotation. -/
theorem isReticent_var {i : Instruction} : Emitter.IsReticent [(.globals, i)] :=
  List.forall_mem_singleton.mpr (by simp)

/-- The variable of a field is decorated, and its type is annotated as it asks for. -/
theorem DeclaredIn.annotated (h : f.DeclaredIn κ s v s') :
    s.draft.Annotated v.placements s'.draft := by
  cases h with
  | @intro r T s₁ s₂ hr hkey hname htype hmarks =>
    have hdeclared := (Emitter.turns_declared hr hkey hname htype.typeOf).annotated isReticent_var
    have hmarked : (f.declared r T s₁).draft.Annotated [] s₂.draft := by
      cases hmarks with
      | none => exact .refl _
      | block h hstruct =>
        exact (hstruct.turns.annotated nofun).trans (Emitter.annotated_mark _ _)
    exact (((htype.turns.annotated nofun).trans hdeclared).trans hmarked).trans
      (s₂.annotated_placements hr s₁.nextId)

/-- The types that are blocks besides those that were, once a field is declared. -/
theorem DeclaredIn.mem_blocks (h : f.DeclaredIn κ s v s') :
    ¬ f.IsBlock v.storage ∧ s'.blocks = s.blocks ∨
      f.IsBlock v.storage ∧ ∃ struct, s'.typeOf? (.value f.type) = some struct ∧
        ∀ id, id ∈ s'.blocks ↔ id = struct ∨ id ∈ s.blocks := by
  cases h with
  | @intro r T s₁ s₂ hr hkey hname htype hmarks =>
    have hdeclared := (Emitter.turns_declared hr hkey hname htype.typeOf).blocks_eq isReticent_var
    have hbefore : (f.declared r T s₁).blocks = s.blocks :=
      hdeclared.trans (htype.turns.blocks_eq nofun)
    -- The decorations and the capabilities are about no table.
    obtain ⟨new, hlogs⟩ : ∃ new, s₂.Logs new (r.capabilities.foldl Emitter.declare
        (s₂.write ((f.variable r s₁.nextId).placements.map (.decorations, ·)))) := by
      obtain ⟨new, hdeclare, -⟩ := Emitter.logs_foldl_declare
        (s₂.write ((f.variable r s₁.nextId).placements.map (.decorations, ·))) r.capabilities
      refine ⟨_, (Emitter.logs_write ?_).trans hdeclare⟩
      exact List.forall_mem_map.mpr (List.forall_mem_map.mpr fun _ _ =>
        ⟨List.mem_of_elem_eq_true rfl, rfl⟩)
    have hafter : (r.capabilities.foldl Emitter.declare
        (s₂.write ((f.variable r s₁.nextId).placements.map (.decorations, ·)))).blocks =
          s₂.blocks := hlogs.blocks
    rw [hafter]
    cases hmarks with
    | none hnot => exact .inl ⟨hnot, hbefore⟩
    | @block struct s₃ hblock hstruct =>
      refine .inr ⟨hblock, struct, ?_, fun id => ?_⟩
      · refine hlogs.keeps.types ?_
        obtain ⟨pub, hmark, -⟩ := Emitter.turns_mark (κ := κ) ⟨_, hstruct.typeOf⟩
        exact hmark.keeps.types hstruct.typeOf
      · rw [Emitter.mem_blocks_mark, hstruct.turns.blocks_eq nofun, hbefore]

end Field

/-! ## Programs -/

section

variable {κ : Kinds} {s s' : Emitter} {fields : List Field} {vs : List Variable}

/-- Fields place their variables in order. -/
theorem DeclaresEach.annotated (h : DeclaresEach κ fields s vs s') :
    s.draft.Annotated (vs.flatMap Variable.placements) s'.draft := by
  induction h with
  | nil s => exact .refl _
  | cons hf _ ih => exact hf.annotated.trans ih

/-- The variables of fields are what the fields resolve to. -/
theorem DeclaresEach.resolved (h : DeclaresEach κ fields s vs s') :
    List.Forall₂ (fun f v => ∃ r, f.resolve = .ok r ∧ v = f.variable r v.id) fields vs := by
  induction h with
  | nil s => exact .nil
  | cons hf _ ih => exact .cons hf.resolved ih

theorem DeclaresEach.keeps (h : DeclaresEach κ fields s vs s') : s.Keeps s' := by
  obtain ⟨pub, hturns⟩ := h.leads
  exact hturns.keeps

/-- The type of a block is known. -/
theorem DeclaresEach.exists_type (h : DeclaresEach κ fields s vs s') {fv : Field × Variable}
    (hfv : fv ∈ fields.zip vs) (hblock : fv.1.IsBlock fv.2.storage) :
    ∃ id, s'.typeOf? (.value fv.1.type) = some id := by
  induction h with
  | nil s => cases hfv
  | cons hf hrest ih =>
    rcases List.mem_cons.mp hfv with rfl | hmem
    · rcases hf.mem_blocks with ⟨hnot, -⟩ | ⟨-, struct, htype, -⟩
      · exact absurd hblock hnot
      · exact ⟨struct, hrest.keeps.types htype⟩
    · exact ih hmem

/-- The blocks are those that were, and the types of the fields that are blocks. -/
theorem DeclaresEach.mem_blocks (h : DeclaresEach κ fields s vs s') (id : Id) :
    id ∈ s'.blocks ↔ id ∈ s.blocks ∨ ∃ fv ∈ fields.zip vs, fv.1.IsBlock fv.2.storage ∧
      s'.typeOf? (.value fv.1.type) = some id := by
  induction h with
  | nil s => simp
  | cons hf hrest ih =>
    rw [ih, List.zip_cons_cons, List.exists_mem_cons_iff, ← or_assoc]
    refine or_congr_left ?_
    rcases hf.mem_blocks with ⟨hnot, hblocks⟩ | ⟨hblock, struct, htype, hmem⟩
    · rw [hblocks]
      exact ⟨.inl, fun h => h.resolve_right fun h => hnot h.1⟩
    -- A cached type is kept by the fields that follow, so it is this struct to the end.
    · have htype' := hrest.keeps.types htype
      rw [hmem, or_comm]
      refine or_congr_right ?_
      constructor
      · rintro rfl
        exact ⟨hblock, htype'⟩
      · rintro ⟨-, hid⟩
        exact Option.some.inj (hid.symm.trans htype')

end

namespace Program.Staged

variable {κ : Kinds} {p : Program} {o : Options} {c : Compilation} {s₁ s₂ s₃ : Emitter}

/-- What is announced for a program as a whole is no annotation. -/
theorem isReticent_preamble (o : Options) (file : Option Id) :
    Emitter.IsReticent (o.preamble file) := by
  have hreticent : ∀ part ∈ [Section.extensions, .memoryModel, .sources],
      part ∉ [Section.capabilities, .decorations] := by decide
  refine fun e he => hreticent e.1 ?_
  simp only [Options.preamble, Options.sources, List.mem_append, List.mem_map, List.mem_cons] at he
  rcases he with ⟨_, -, rfl⟩ | rfl | ⟨_, -, rfl⟩ | rfl | ⟨_, -, rfl⟩ <;> simp

/-- What is said about the entry point decorates nothing. -/
theorem isReticent_entryStatements (p : Program) (f : Function) (interface : List Id) :
    Emitter.IsReticent (p.entryStatements f interface) :=
  List.forall_mem_append.mpr ⟨List.forall_mem_map.mpr fun _ _ => by simp,
    List.forall_mem_map.mpr fun _ _ => by simp⟩

/-- All that is emitted after the capabilities of the preamble. -/
theorem annotated (h : p.Staged κ o c s₁ s₂ s₃) :
    ((p.baseCapabilities o).foldl Emitter.declare (.start o.moduleVersion)).draft.Annotated
      (c.record.globals.flatMap Variable.placements) c.emitter.draft := by
  obtain ⟨file, -, hpreamble⟩ := h.preamble
  obtain ⟨i, f, -, -, -, hentry⟩ := h.entry
  have hall := (((hpreamble.turns.annotated (isReticent_preamble o file)).trans
    h.fields.annotated).trans (h.methods.turns.annotated nofun)).trans
    (hentry.turns.annotated (isReticent_entryStatements p f c.interface))
  simpa using hall

/-- The log as a whole is annotated as it asks for. -/
theorem annotates (h : p.Staged κ o c s₁ s₂ s₃) :
    let log := c.emitter.draft.log.toList
    c.emitter.draft.HasCapabilities ((needsOf log).foldl Capability.declareIn
        ((p.baseCapabilities o).foldl Capability.declareIn [])) ∧
      (c.emitter.draft.emitted .decorations).filter Instruction.isMajor = majorsOf log ∧
      (c.emitter.draft.emitted .decorations).filter Instruction.isPlacing =
        c.record.globals.flatMap Variable.placements := by
  obtain ⟨new, hnew⟩ := h.annotated
  have hstart : (Emitter.start o.moduleVersion).draft.HasCapabilities [] := rfl
  obtain ⟨caps, hlogs, hcaps⟩ := (Emitter.start o.moduleVersion).logs_foldl_declare
    (p.baseCapabilities o)
  obtain ⟨hneeds, hmajors, hpick⟩ := Emitter.needsOf_declaring hcaps
  have hlog : c.emitter.draft.log.toList = caps ++ new := by
    rw [hnew.log, hlogs.log]
    rfl
  refine ⟨?_, ?_, ?_⟩
  · rw [hlog, needsOf_append, hneeds]
    exact hnew.capabilities _ (Emitter.hasCapabilities_foldl_declare hstart _)
  · rw [Draft.emitted_eq_pick, hlog, Section.pick_append, hpick, majorsOf_append, hmajors]
    exact hnew.majors
  · rw [Draft.emitted_eq_pick, hlog, Section.pick_append, hpick]
    exact hnew.placings

/-- The blocks of a module are the types of the fields that are blocks. -/
theorem mem_blocks (h : p.Staged κ o c s₁ s₂ s₃) (id : Id) :
    id ∈ c.emitter.blocks ↔ ∃ fv ∈ p.fields.zip c.record.globals, fv.1.IsBlock fv.2.storage ∧
      c.emitter.typeOf? (.value fv.1.type) = some id := by
  obtain ⟨file, -, hpreamble⟩ := h.preamble
  obtain ⟨i, f, -, -, -, hentry⟩ := h.entry
  have hafter := h.methods.turns.trans hentry.turns
  have hreticent : Emitter.IsReticent ([] ++ p.entryStatements f c.interface) :=
    isReticent_entryStatements p f c.interface
  have hnone : s₁.blocks = [] := by
    obtain ⟨caps, hlogs, -⟩ := (Emitter.start o.moduleVersion).logs_foldl_declare
      (p.baseCapabilities o)
    exact (hpreamble.turns.blocks_eq (isReticent_preamble o file)).trans hlogs.blocks
  rw [hafter.blocks_eq hreticent, h.fields.mem_blocks, hnone]
  simp only [List.not_mem_nil, false_or]
  constructor
  · rintro ⟨fv, hfv, hblock, htype⟩
    exact ⟨fv, hfv, hblock, hafter.keeps.types htype⟩
  · rintro ⟨fv, hfv, hblock, htype⟩
    -- The struct was cached when its field was declared, and a cached type never changes.
    obtain ⟨struct, hstruct⟩ := h.fields.exists_type hfv hblock
    have heq : struct = id := Option.some.inj ((hafter.keeps.types hstruct).symm.trans htype)
    exact ⟨fv, hfv, hblock, heq ▸ hstruct⟩

end Program.Staged

end ShaderStage

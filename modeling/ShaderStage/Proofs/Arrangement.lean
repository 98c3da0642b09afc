import ShaderStage.Proofs.IdCoverage

/-! # The arrangement of a module

What a program does in public is known exactly: the extensions, the memory model, the entry points,
the execution modes and the sources are written by the program as a whole, and so are the variables
of the module declared. No silent turn gets in the way, so these parts of a module hold what is
stated here, whatever is emitted in between:

* `Emitter.Turns.tells`: the reserved sections and the variables get what turns do in public;
* `Program.Staged.arranged`: what the stages of a program leave in its module and its record. -/

namespace ShaderStage

/-- The sections that only public turns write to. -/
def Section.reserved : List Section :=
  [.extensions, .memoryModel, .entryPoints, .executionModes, .sources]

/-! ## What is public -/

/-- An entry that declares no variable of the module and has nothing to do with instruction sets. -/
def IsOrdinary (e : Section × Instruction) : Prop :=
  e.1 ≠ .instructionSets ∧ (e.1 = .globals → e.2.opcode ≠ .var) ∧
    (e.1 = .functions → e.2.opcode ≠ .extInst)

/-- Most parts hold nothing that is public. -/
theorem isOrdinary_of_part {part : Section} (h : part ∉ [.instructionSets, .globals, .functions])
    (i : Instruction) : IsOrdinary (part, i) := by
  simp only [List.mem_cons, List.not_mem_nil, or_false, not_or] at h
  exact ⟨h.1, fun heq => absurd heq h.2.1, fun heq => absurd heq h.2.2⟩

/-- A remark is neither public nor reserved. -/
theorem IsRemark.ordinary {e : Section × Instruction} (h : IsRemark e) :
    IsOrdinary e ∧ e.1 ∉ Section.reserved := by
  have hremarks : ∀ part ∈ Section.remarks, part ∉ [.instructionSets, .globals, .functions] ∧
      part ∉ Section.reserved := by decide
  obtain ⟨hpart, hreserved⟩ := hremarks e.1 h.part
  exact ⟨isOrdinary_of_part hpart e.2, hreserved⟩

/-- A definition is not public, unless it is a variable. -/
theorem isOrdinary_global {op : Opcode} (hop : op ≠ .var) (operands : List Word) :
    IsOrdinary (.globals, ⟨op, operands⟩) ∧ (.globals : Section) ∉ Section.reserved :=
  ⟨⟨nofun, fun _ => hop, nofun⟩, by decide⟩

/-- Code is not public, unless it needs the instruction set. -/
theorem isOrdinary_code {op : Opcode} (hop : op ≠ .extInst) (operands : List Word) :
    IsOrdinary (.functions, ⟨op, operands⟩) ∧ (.functions : Section) ∉ Section.reserved :=
  ⟨⟨nofun, nofun, fun _ => hop⟩, by decide⟩

namespace Emitter

variable {κ : Kinds} {s s₁ s₂ s₃ s' : Emitter} {pub pub' : List (Section × Instruction)}

/-- The variables of the module so far. -/
def moduleVars (s : Emitter) : List Instruction :=
  (s.draft.emitted .globals).filter (·.opcode = .var)

/-- The instruction that imports the mathematical instruction set. -/
def importOf (set : Id) : Instruction :=
  ⟨.extInstImport, set :: Literal.ofString mathSetName⟩

/-- The mathematical instruction set is imported, once, if and only if the code uses it. -/
structure Imports (s : Emitter) : Prop where
  sets : s.draft.emitted .instructionSets = s.mathSet.toList.map importOf
  used : s.mathSet.isSome ↔ ∃ i ∈ s.code, i.opcode = .extInst

/-- The later emitter has what is public in the reserved sections and among the variables. -/
structure Tells (s : Emitter) (pub : List (Section × Instruction)) (s' : Emitter) : Prop where
  reserved : ∀ part ∈ Section.reserved,
    s'.draft.emitted part = s.draft.emitted part ++ part.pick pub
  vars : s'.moduleVars = s.moduleVars ++ Section.globals.pick pub
  imports : s.Imports → s'.Imports

theorem Imports.congr (h : s.Imports) (hdraft : s'.draft = s.draft)
    (hset : s'.mathSet = s.mathSet) : s'.Imports := by
  refine ⟨?_, ?_⟩
  · rw [hdraft, hset]
    exact h.sets
  · rw [code, hdraft, hset]
    exact h.used

namespace Tells

/-- Other tables than that of the instruction set do not matter. -/
theorem congr (h : s.Tells pub s₁) (hdraft : s'.draft = s₁.draft)
    (hset : s'.mathSet = s₁.mathSet) : s.Tells pub s' where
  reserved part hpart := by rw [hdraft, h.reserved part hpart]
  vars := by rw [moduleVars, hdraft, ← h.vars, moduleVars]
  imports hs := (h.imports hs).congr hdraft hset

theorem refl (s : Emitter) : s.Tells [] s :=
  ⟨fun _ _ => (List.append_nil _).symm, (List.append_nil _).symm, id⟩

theorem trans (h : s₁.Tells pub s₂) (h' : s₂.Tells pub' s₃) : s₁.Tells (pub ++ pub') s₃ where
  reserved part hpart := by
    rw [h'.reserved part hpart, h.reserved part hpart, List.append_assoc, Section.pick_append]
  vars := by rw [h'.vars, h.vars, List.append_assoc, Section.pick_append]
  imports hs := h'.imports (h.imports hs)

variable {entries : List (Section × Instruction)}

/-- Ordinary entries, and whatever happens to the tables beside. -/
theorem of_logs (h : s.Logs entries s₁) (hentries : ∀ e ∈ entries, IsOrdinary e)
    (hdraft : s'.draft = s₁.draft) (hset : s'.mathSet = s.mathSet)
    (hreserved : ∀ part ∈ Section.reserved, part.pick entries = part.pick pub)
    (hvars : Section.globals.pick pub = []) : s.Tells pub s' := by
  have hsets : s'.draft.emitted .instructionSets = s.draft.emitted .instructionSets := by
    rw [hdraft, h.emitted, Section.pick_eq_nil fun e he => (hentries e he).1, List.append_nil]
  have hcode : (∃ i ∈ s'.code, i.opcode = .extInst) ↔ ∃ i ∈ s.code, i.opcode = .extInst := by
    have hsplit : s'.code = s.code ++ Section.functions.pick entries := by
      rw [code, hdraft, h.emitted]
      rfl
    rw [hsplit]
    constructor
    · rintro ⟨i, hi, hop⟩
      rcases List.mem_append.mp hi with hi | hi
      · exact ⟨i, hi, hop⟩
      · exact absurd hop ((hentries _ (Section.mem_pick.mp hi)).2.2 rfl)
    · rintro ⟨i, hi, hop⟩
      exact ⟨i, List.mem_append_left _ hi, hop⟩
  -- Ordinary entries are in the way of neither the variables nor the imports.
  refine ⟨fun part hpart => by rw [hdraft, h.emitted, hreserved part hpart], ?_, fun hs => ⟨?_, ?_⟩⟩
  · have hnone : (Section.globals.pick entries).filter (·.opcode = .var) = [] := by
      refine List.filter_eq_nil_iff.mpr fun i hi => ?_
      have hop := (hentries _ (Section.mem_pick.mp hi)).2.1 rfl
      simpa using hop
    rw [moduleVars, hdraft, h.emitted, List.filter_append, hnone, hvars]
    rfl
  · rw [hsets, hset]
    exact hs.sets
  · rw [hcode, hset]
    exact hs.used

/-- Ordinary entries outside of the reserved sections. -/
theorem of_silent (h : s.Logs entries s₁)
    (hentries : ∀ e ∈ entries, IsOrdinary e ∧ e.1 ∉ Section.reserved) (hdraft : s'.draft = s₁.draft)
    (hset : s'.mathSet = s.mathSet)
    (hpub : ∀ e ∈ pub, e.1 ∉ Section.reserved ∧ e.1 ≠ .globals) : s.Tells pub s' := by
  refine of_logs h (fun e he => (hentries e he).1) hdraft hset (fun part hpart => ?_)
    (Section.pick_eq_nil fun e he => (hpub e he).2)
  rw [Section.pick_eq_nil fun e he heq => (hentries e he).2 (heq ▸ hpart),
    Section.pick_eq_nil fun e he heq => (hpub e he).1 (heq ▸ hpart)]

/-- One definition, and whatever happens to the tables beside. -/
theorem of_global {op : Opcode} {operands : List Word} (h : s.Logs [(.globals, ⟨op, operands⟩)] s₁)
    (hop : op ≠ .var) (hdraft : s'.draft = s₁.draft) (hset : s'.mathSet = s.mathSet) :
    s.Tells [] s' :=
  of_silent h (List.forall_mem_singleton.mpr (isOrdinary_global hop operands)) hdraft hset nofun

/-- One instruction of a function that is no mathematical function. -/
theorem of_code {op : Opcode} {operands : List Word} (h : s.Logs [(.functions, ⟨op, operands⟩)] s₁)
    (hop : op ≠ .extInst) (hdraft : s'.draft = s₁.draft) (hset : s'.mathSet = s.mathSet) :
    s.Tells [] s' :=
  of_silent h (List.forall_mem_singleton.mpr (isOrdinary_code hop operands)) hdraft hset nofun

end Tells

/-- A remark tells nothing. -/
theorem Remarks.tells (h : s.Remarks s')
    (hpub : ∀ e ∈ pub, e.1 ∉ Section.reserved ∧ e.1 ≠ .globals) : s.Tells pub s' := by
  obtain ⟨new, hlogs, hnew⟩ := h
  refine .of_silent hlogs (fun e he => (hnew e he).ordinary) rfl ?_ hpub
  rw [hlogs.tables]

/-- Some capability is declared, now or before. -/
theorem exists_capability_declare (s : Emitter) (c : Capability) :
    ∃ i, (s.declare c).Has .capabilities i := by
  unfold declare
  split
  · rename_i hdeclared
    simp only [Draft.declares, Array.any_eq_true', Bool.and_eq_true, decide_eq_true_eq] at hdeclared
    obtain ⟨⟨part, i⟩, hmem, hpart, -⟩ := hdeclared
    obtain rfl : part = .capabilities := hpart
    exact ⟨i, hmem.val⟩
  · exact ⟨_, has_put.mpr (.inr ⟨rfl, rfl⟩)⟩

theorem imports_start (v : Version) : (Emitter.start v).Imports :=
  ⟨rfl, by simp [Emitter.start, Emitter.code, Draft.emitted]⟩

/-- An import adds to no other section. -/
theorem emitted_importMath {part : Section} (hpart : part ≠ .instructionSets) :
    s.importMath.draft.emitted part = s.draft.emitted part := by
  obtain ⟨new, s₁, hlogs, heq, hnew⟩ := s.logs_importMath
  rw [heq]
  refine hlogs.emitted_eq fun e he => ?_
  rw [hnew e he]
  exact hpart.symm

/-- A mathematical function imports its set before it is used. -/
theorem tells_math (s : Emitter) (T : Id) (operands : List Word) (hdraft : s'.draft =
    (s.importMath.define .functions ⟨.extInst, T :: s.importMath.nextId :: operands⟩).draft)
    (hset : s'.mathSet = s.importMath.mathSet) : s.Tells [] s' := by
  have hparts : ∀ part, part ≠ .instructionSets → part ≠ .functions →
      s'.draft.emitted part = s.draft.emitted part := by
    intro part hsets hfunctions
    rw [hdraft, emitted_define, if_neg hfunctions.symm, List.append_nil, emitted_importMath hsets]
  have hreserved : ∀ part ∈ Section.reserved, part ≠ .instructionSets ∧ part ≠ .functions := by
    decide
  refine ⟨?_, ?_, fun hs => ⟨?_, ?_⟩⟩
  · intro part hpart
    rw [hparts part (hreserved part hpart).1 (hreserved part hpart).2]
    exact (List.append_nil _).symm
  · rw [moduleVars, hparts .globals (by decide) (by decide)]
    exact (List.append_nil _).symm
  · -- The set is imported now unless it was before.
    have hsets := hs.sets
    rw [hdraft, hset, emitted_define, if_neg (by decide), List.append_nil]
    cases hset : s.mathSet with
    | some set =>
      rw [importMath, hset]
      exact hsets
    | none =>
      rw [hset] at hsets
      rw [importMath, hset]
      show (s.define .instructionSets _).draft.emitted .instructionSets = _
      rw [emitted_define, hsets]
      rfl
  · have hsome : s.importMath.mathSet.isSome := by
      unfold importMath
      split
      · rename_i hset
        simp [hset]
      · rfl
    rw [hset]
    refine ⟨fun _ => ⟨⟨.extInst, T :: s.importMath.nextId :: operands⟩, ?_, rfl⟩, fun _ => hsome⟩
    rw [code, hdraft, emitted_define, if_pos rfl]
    exact List.mem_append_right _ (List.mem_singleton_self _)

/-- A variable of the module. -/
theorem tells_variable (s : Emitter) (T : Id) (storage : StorageClass) :
    s.Tells [(.globals, ⟨.var, [T, s.nextId, storage]⟩)]
      (s.define .globals ⟨.var, [T, s.nextId, storage]⟩) := by
  have hparts : ∀ part, part ≠ .globals →
      (s.define .globals ⟨.var, [T, s.nextId, storage]⟩).draft.emitted part =
        s.draft.emitted part := by
    intro part hpart
    rw [emitted_define, if_neg hpart.symm, List.append_nil]
  have hreserved : ∀ part ∈ Section.reserved, part ≠ .globals := by decide
  refine ⟨?_, ?_, fun hs => ⟨?_, ?_⟩⟩
  · intro part hpart
    rw [hparts part (hreserved part hpart), Section.pick_eq_nil, List.append_nil]
    exact List.forall_mem_singleton.mpr (hreserved part hpart).symm
  · rw [moduleVars, emitted_define, if_pos rfl, List.filter_append]
    rfl
  · rw [hparts _ (by decide)]
    exact hs.sets
  · rw [code, hparts _ (by decide)]
    exact hs.used

/-- What is noted tells what it publishes. -/
theorem Notes.tells (h : s.Notes κ pub s') : s.Tells pub s' := by
  cases h with
  | @abandoned name members storage ids hkey hids =>
    have hstruct : s.Tells [] (s.define .globals ⟨.typeStruct, s.nextId :: ids⟩) :=
      .of_global (.result (by decide) (by decide)) (by decide) rfl rfl
    exact hstruct.trans ((s.remarks_structured name members ids).tells nofun)
  | performed h =>
    have hop : _ ∉ [Opcode.var, .extInst] := h.spec.2.2
    simp only [List.mem_cons, List.not_mem_nil, or_false, not_or] at hop
    exact .of_code (.put h.spec.1 h.spec.2.1) hop.2 rfl rfl
  | @function text htext result type =>
    have hfunction : s.Tells [] (s.define .functions ⟨.function, [result, s.nextId, 0, type]⟩) :=
      .of_code (.typedResult (by decide) (by decide)) (by decide) rfl rfl
    exact hfunction.trans ((remarks_label _ _ _).tells nofun)
  | label => exact .of_code (.result (by decide) (by decide)) (by decide) rfl rfl
  | capability c =>
    refine (s.remarks_declare c).tells (List.forall_mem_singleton.mpr ⟨?_, ?_⟩)
    · simp [Section.reserved]
    · nofun
  | decoration hd hid value =>
    refine .of_logs (.put (by decide) (by decide)) ?_ rfl rfl (fun _ _ => rfl) rfl
    exact List.forall_mem_singleton.mpr (isOrdinary_of_part (by decide) _)
  | string htext =>
    refine .of_logs (.result (by decide) (by decide)) ?_ rfl rfl (fun _ _ => rfl) rfl
    exact List.forall_mem_singleton.mpr (isOrdinary_of_part (by decide) _)
  | @announced part i h =>
    have hpart : part ∉ [.instructionSets, .globals, .functions] ∧ part ≠ .globals := by
      cases h <;> decide
    refine .of_logs (.put h.spec.1 h.spec.2) ?_ rfl rfl (fun _ _ => rfl) ?_
    · exact List.forall_mem_singleton.mpr (isOrdinary_of_part hpart.1 _)
    · exact Section.pick_eq_nil (List.forall_mem_singleton.mpr hpart.2)

/-- A new type tells nothing. -/
theorem Enters.tells {k : Key} {id : Id} (h : s.Enters k id s') : s.Tells [] s' := by
  have hinterned : ∀ op ∈ Opcode.interned, op ≠ .var := by decide
  obtain ⟨d, new, hlogs, -, -, hop, hnew⟩ := h.logs
  refine .of_silent hlogs (fun e he => ?_) rfl ?_ nofun
  · rcases hnew e he with rfl | hremark | ⟨hpart, T, image, operands, rfl, hi⟩
    · exact isOrdinary_global (hinterned _ hop) d.operands
    · exact hremark.ordinary
    · obtain ⟨part, i⟩ := e
      obtain rfl : part = .globals := hpart
      obtain rfl : i = _ := hi
      exact isOrdinary_global (by decide) (image :: operands)
  · rw [hlogs.tables]

/-- What a turn does in public is what it adds to the reserved sections and to the variables. -/
theorem Turn.tells (h : Turn κ s pub s') : s.Tells pub s' := by
  cases h with
  | @type key id s₁ hkey hunknown h => exact h.tells.congr rfl rfl
  | @constant pool T bits hT hunknown =>
    refine .of_silent (s.logs_constant T pool bits) ?_ (s.draft_newConstant T pool bits) ?_ nofun
    · refine List.forall_mem_cons.mpr ⟨isOrdinary_global (by decide) _, ?_⟩
      exact List.forall_mem_singleton.mpr
        ⟨isOrdinary_of_part (by decide) _, by simp [Section.reserved]⟩
    · cases pool <;> rfl
  | functionType => exact .of_global (.result (by decide) (by decide)) (by decide) rfl rfl
  | @value op operands key T text s₁ hop hkey htext hT hs₁ =>
    have hcode : op ≠ .extInst := fun heq => hop.spec.2.2 (by simp [heq])
    have hrecord : s.Tells [] (s₁.record s.nextId key text) := by
      rcases hs₁ with rfl | rfl
      · exact .of_code (.typedResult hop.spec.1 hop.spec.2.1) hcode rfl rfl
      · exact .of_code (.typedResult hop.spec.1 hop.spec.2.1) hcode rfl rfl
    exact hrecord.trans ((remarks_title _ _ _).tells nofun)
  | @math key T set hkey hT hset number argument =>
    exact tells_math s T [set, number, argument] rfl rfl
  | @localVariable key T text =>
    have hvar : s.Tells [] (s.define .functions ⟨.var, [T, s.nextId, StorageClass.function]⟩) :=
      .of_code (.typedResult (by decide) (by decide)) (by decide) rfl rfl
    exact (hvar.trans ((remarks_label _ s.nextId text).tells (List.forall_mem_nil _))).congr rfl rfl
  | @globalVariable key T text =>
    have hvar := s.tells_variable T key.storage
    exact (hvar.trans ((remarks_label _ s.nextId text).tells (List.forall_mem_nil _))).congr rfl rfl
  | block hstruct hunmarked =>
    refine .of_silent (.put (by decide) (by decide)) ?_ rfl rfl ?_
    · exact List.forall_mem_singleton.mpr
        ⟨isOrdinary_of_part (by decide) _, by simp [Section.reserved]⟩
    · exact List.forall_mem_singleton.mpr ⟨by simp [Section.reserved], nofun⟩
  | note h => exact h.tells
  | @rename id b text hforeign htext hb =>
    obtain ⟨new, hlogs, hnew⟩ := s.remarks_title id text
    refine .of_silent hlogs (fun e he => (hnew e he).ordinary) ?_ ?_ ?_
    · unfold title
      split <;> rfl
    · unfold title
      split <;> rfl
    · exact List.forall_mem_singleton.mpr ⟨by simp [Section.reserved], nofun⟩

/-- Turns tell what they publish. -/
theorem Turns.tells (h : s.Turns κ pub s') : s.Tells pub s' := by
  induction h with
  | refl => exact .refl s
  | tail _ hturn ih => exact ih.trans hturn.tells

end Emitter

/-! ## Modules -/

/-- The field is declared as the variable. -/
def Field.DeclaredAs (f : Field) (v : Variable) : Prop :=
  v.name = f.name ∧ ∃ r, f.resolve = .ok r ∧ v.key = f.key r

/-- The instruction declares the variable. -/
def Variable.DeclaredBy (v : Variable) (i : Instruction) : Prop :=
  ∃ T, i = ⟨.var, [T, v.id, v.storage]⟩

section

variable {κ : Kinds} {s s' : Emitter}

/-- A field is declared as the variable that its layout asks for. -/
theorem Field.DeclaredIn.declaredAs {f : Field} {v : Variable} (h : f.DeclaredIn κ s v s') :
    f.DeclaredAs v := by
  cases h with
  | intro hr => exact ⟨rfl, _, hr, rfl⟩

/-- A field is declared as one variable, and nothing of it is in the reserved sections. -/
theorem Field.DeclaredIn.tells {f : Field} {v : Variable} (h : f.DeclaredIn κ s v s') :
    ∃ i pub, v.DeclaredBy i ∧ s.Tells pub s' ∧ Section.globals.pick pub = [i] ∧
      ∀ part ∈ Section.reserved, part.pick pub = [] := by
  have hparts : ∀ part ∈ [Section.decorations, .capabilities],
      part ≠ .globals ∧ part ∉ Section.reserved := by decide
  obtain ⟨T, pub, hturns, hpub⟩ := h.turns
  refine ⟨_, _, ⟨T, rfl⟩, hturns.tells, ?_, fun part hpart => ?_⟩
  · rw [Section.pick_cons, if_pos rfl, Section.pick_eq_nil fun e he => (hparts _ (hpub e he)).1]
  · rw [Section.pick_cons, if_neg, Section.pick_eq_nil]
    · exact fun e he heq => (hparts _ (hpub e he)).2 (heq ▸ hpart)
    · rintro rfl
      simp [Section.reserved] at hpart

/-- Fields are declared in order. -/
theorem DeclaresEach.declaredAs {fields : List Field} {vs : List Variable}
    (h : DeclaresEach κ fields s vs s') : List.Forall₂ Field.DeclaredAs fields vs := by
  induction h with
  | nil s => exact .nil
  | cons hf _ ih => exact .cons hf.declaredAs ih

/-- The variables of fields are those of the module, in order. -/
theorem DeclaresEach.tells {fields : List Field} {vs : List Variable}
    (h : DeclaresEach κ fields s vs s') :
    ∃ pub, s.Tells pub s' ∧ List.Forall₂ Variable.DeclaredBy vs (Section.globals.pick pub) ∧
      ∀ part ∈ Section.reserved, part.pick pub = [] := by
  induction h with
  | nil s => exact ⟨[], .refl s, .nil, fun _ _ => rfl⟩
  | cons hf _ ih =>
    obtain ⟨i, pub, hi, htells, hvars, hreserved⟩ := hf.tells
    obtain ⟨pub', htells', hvars', hreserved'⟩ := ih
    refine ⟨pub ++ pub', htells.trans htells', ?_, fun part hpart => ?_⟩
    · rw [Section.pick_append, hvars]
      exact .cons hi hvars'
    · rw [Section.pick_append, hreserved part hpart, hreserved' part hpart]
      rfl

end

/-- The preamble is about none of the variables. -/
theorem Options.pick_globals_preamble (o : Options) (file : Option Id) :
    Section.globals.pick (o.preamble file) = [] := by
  simp [preamble, sources]

namespace Program

/-- What is said about the entry point declares no variables. -/
theorem pick_globals_entryStatements (p : Program) (f : Function) (interface : List Id) :
    Section.globals.pick (p.entryStatements f interface) = [] := by
  simp [entryStatements]

/-- What the module of a program holds, and what the record tells about it. -/
structure Arranged (p : Program) (o : Options) (c : Compilation) : Prop where
  capabilities : ∃ i, (.capabilities, i) ∈ c.emitter.draft.log.toList
  imports : c.emitter.Imports
  fields : List.Forall₂ Field.DeclaredAs p.fields c.record.globals
  vars : List.Forall₂ Variable.DeclaredBy c.record.globals c.emitter.moduleVars
  functions : c.record.functions.map Function.name = p.methods.map Method.name
  interface : c.interface = crossing c.record.globals
  entry : ∃ i f file, p.check = .ok i ∧ c.record.functions[i]? = some f ∧
    (file.isSome ↔ o.sourceFile ≠ "") ∧
    c.record.entryPoint = some ⟨p.stage.models, f.id, f.name, c.interface⟩ ∧
    ∀ part ∈ Section.reserved, c.emitter.draft.emitted part =
      part.pick (o.preamble file) ++ part.pick (p.entryStatements f c.interface)

/-- The stages of a program leave this arrangement in its module and its record. -/
theorem Staged.arranged {κ : Kinds} {p : Program} {o : Options} {c : Compilation}
    {s₁ s₂ s₃ : Emitter} (h : p.Staged κ o c s₁ s₂ s₃) : p.Arranged o c := by
  obtain ⟨cap, caps, hbase⟩ : ∃ cap caps, p.baseCapabilities o = cap :: caps := by
    unfold baseCapabilities
    cases p.stage <;> exact ⟨_, _, rfl⟩
  have hstart := (Emitter.turns_declare (κ := κ) (.start o.moduleVersion)
    (p.baseCapabilities o)).tells
  have hcapabilities : ∀ part : Section, part ≠ .capabilities →
      part.pick ((p.baseCapabilities o).map fun c => (.capabilities, ⟨.capability, [c]⟩)) = [] := by
    intro part hpart
    rw [Section.pick_map, if_neg hpart.symm]
  obtain ⟨file, hfile, hpreamble⟩ := h.preamble
  obtain ⟨pub, hfields, hvars, hsilent⟩ := h.fields.tells
  obtain ⟨i, f, hcheck, hf, hentryPoint, hentry⟩ := h.entry
  -- Only the preamble and the entry points write to the reserved sections.
  have hall := (((hstart.trans hpreamble.turns.tells).trans hfields).trans
    h.methods.turns.tells).trans hentry.turns.tells
  refine ⟨?_, hall.imports (Emitter.imports_start _), h.fields.declaredAs, ?_, h.methods.names,
    h.interface, i, f, file, hcheck, hf, hfile, hentryPoint, fun part hpart => ?_⟩
  · obtain ⟨pub', hturns⟩ := h.fields.leads
    rw [hbase] at hpreamble
    obtain ⟨cap', hcap⟩ := (Emitter.start o.moduleVersion).exists_capability_declare cap
    have hafter := ((((Emitter.turns_declare (κ := κ) _ caps).trans hpreamble.turns).trans
      hturns).trans h.methods.turns).trans hentry.turns
    exact ⟨cap', hcap.keep hafter.keeps⟩
  · rw [hall.vars]
    simpa [Emitter.moduleVars, Emitter.start, Draft.emitted, hcapabilities,
      o.pick_globals_preamble, p.pick_globals_entryStatements] using hvars
  · have hne : part ≠ .capabilities := by
      rintro rfl
      simp [Section.reserved] at hpart
    rw [hall.reserved part hpart]
    simp [Emitter.start, Draft.emitted, hcapabilities part hne, hsilent part hpart]

/-- A program that is emitted is arranged as stated. -/
theorem arranged_of_emitModule {p : Program} {o : Options} {c : Compilation}
    (h : p.emitModule o { emitter := .start o.moduleVersion } = .ok () c) : p.Arranged o c := by
  obtain ⟨s₁, s₂, s₃, hstaged⟩ := staged_of_emitModule (p.within_all o False) h
  exact hstaged.arranged

end Program

end ShaderStage

import ShaderStage.Proofs.Turns.Program

/-! # Fields in turns

Methods are emitted in silent turns, but a field is public: its variable, its decorations, and the
capabilities that it needs. The kit for computations with public turns comes first.

* `Runs`: a computation takes turns, some of them in public, whether or not it succeeds;
* `Field.DeclaredIn`: how a field becomes a variable of the module;
* `Field.declare_runs`: declaring a field does that, or is refused for its type. -/

namespace ShaderStage

namespace Emitter

variable {κ : Kinds} {s s₁ s₂ s₃ s' : Emitter}

/-- The later emitter is reached in turns. -/
def Leads (κ : Kinds) (s s' : Emitter) : Prop :=
  ∃ pub, s.Turns κ pub s'

/-- Turns lead somewhere, whatever they publish. -/
theorem Turns.leads {pub : List (Section × Instruction)} (h : s.Turns κ pub s') : s.Leads κ s' :=
  ⟨pub, h⟩

theorem Leads.refl (s : Emitter) : s.Leads κ s :=
  Turns.refl.leads

theorem Leads.trans (h : s₁.Leads κ s₂) (h' : s₂.Leads κ s₃) : s₁.Leads κ s₃ := by
  obtain ⟨pub, hturns⟩ := h
  obtain ⟨pub', hturns'⟩ := h'
  exact (hturns.trans hturns').leads

/-- An emitter that is ready stays ready. -/
theorem Leads.ready [Kinds.Closed κ] (h : s.Leads κ s') (hs : s.Ready κ) : s'.Ready κ := by
  obtain ⟨pub, hturns⟩ := h
  exact hturns.ready hs

/-- The emitter with entries added to its log. -/
def write (s : Emitter) (entries : List (Section × Instruction)) : Emitter :=
  entries.foldl (fun s e => s.put e.1 e.2) s

/-- The emitter with a structure type marked as a block, unless it is one. -/
def mark (s : Emitter) (struct : Id) : Emitter :=
  if struct ∈ s.blocks then s
  else
    { s.put .decorations ⟨.decorate, [struct, Decoration.block]⟩ with
      blocks := struct :: s.blocks }

theorem write_append (s : Emitter) (entries entries' : List (Section × Instruction)) :
    s.write (entries ++ entries') = (s.write entries).write entries' :=
  List.foldl_append

/-- Writing entries adds them to the log, and nothing else. -/
theorem logs_write {entries : List (Section × Instruction)}
    (h : ∀ e ∈ entries, e.2.opcode ∈ e.1.opcodes ∧ e.2.opcode.shape = .noResult) :
    s.Logs entries (s.write entries) := by
  induction entries generalizing s with
  | nil => exact .refl s
  | cons e entries ih =>
    obtain ⟨he, hentries⟩ := List.forall_mem_cons.mp h
    exact (Logs.put he.1 he.2).trans (ih hentries)

theorem code_write (s : Emitter) {entries : List (Section × Instruction)}
    (h : ∀ e ∈ entries, e.1 ≠ .functions) : (s.write entries).code = s.code := by
  induction entries generalizing s with
  | nil => rfl
  | cons e entries ih =>
    obtain ⟨he, hentries⟩ := List.forall_mem_cons.mp h
    refine (ih (s.put e.1 e.2) hentries).trans ?_
    rw [code_put, if_neg he, List.append_nil]

theorem code_mark (s : Emitter) (struct : Id) : (s.mark struct).code = s.code := by
  unfold mark
  split
  · rfl
  · exact (s.code_put .decorations _).trans (List.append_nil _)

/-- Entries that can each be a note of their own. -/
theorem turns_write {entries : List (Section × Instruction)}
    (h : ∀ e ∈ entries, ∀ s', s.Keeps s' → s'.Notes κ [e] (s'.put e.1 e.2)) :
    s.Turns κ entries (s.write entries) := by
  induction entries generalizing s with
  | nil => exact .refl
  | cons e entries ih =>
    obtain ⟨he, hentries⟩ := List.forall_mem_cons.mp h
    have hturn : s.Turns κ [e] (s.put e.1 e.2) := .single (.note (he s (.refl s)))
    exact hturn.trans (ih fun e' he' s' hkeeps => hentries e' he' s' (hturn.keeps.trans hkeeps))

theorem remarks_foldl_declare (s : Emitter) (cs : List Capability) :
    s.Remarks (cs.foldl declare s) := by
  induction cs generalizing s with
  | nil => exact .refl s
  | cons c cs ih => exact (s.remarks_declare c).trans (ih _)

/-- The capabilities that are declared are public, whether or not they were before. -/
theorem turns_declare (s : Emitter) (cs : List Capability) :
    s.Turns κ (cs.map fun c => (.capabilities, ⟨.capability, [c]⟩)) (cs.foldl declare s) := by
  induction cs generalizing s with
  | nil => exact .refl
  | cons c cs ih => exact (Turns.single (.note (.capability c))).trans (ih _)

end Emitter

/-! ## Running in turns -/

section

open HasEmitter (emitter)

variable {σ α β : Type} [HasEmitter σ] {κ : Kinds} {E F : CompileError → Prop}

/-- The computation takes turns, some of them in public; if it ends well, with the stated result,
and otherwise refused with an error of the kind `E`. -/
def Runs (κ : Kinds) (x : EStateM Failure σ α) (c : σ) (Q : α → σ → Prop)
    (E : CompileError → Prop) : Prop :=
  (emitter c).Ready κ →
    Concludes x c (fun a c' => (emitter c).Leads κ (emitter c') ∧ Q a c')
      fun e c' => (emitter c).Leads κ (emitter c') ∧ e.Is E

/-- Acts are runs that publish nothing. -/
theorem Acts.runs {x : Emit α} {s : Emitter} {Q : α → Emitter → Prop} (hx : Acts κ x s Q E) :
    Runs κ x s (fun a s' => s.Turns κ [] s' ∧ Q a s') E := by
  intro hs
  refine (hx hs).mono ?_ ?_
  · exact fun a s' h => ⟨h.1.leads, h⟩
  · exact fun e s' h => ⟨h.1.leads, h.2⟩

namespace Runs

variable {x : EStateM Failure σ α} {f : α → EStateM Failure σ β} {c : σ} {P : α → σ → Prop}
  {Q : β → σ → Prop}

theorem pure {a : α} (h : P a c) : Runs κ (Pure.pure a) c P E :=
  fun _ => ⟨.refl _, h⟩

theorem get {g : σ → EStateM Failure σ α} (h : Runs κ (g c) c P E) :
    Runs κ (MonadState.get >>= g) c P E :=
  h

/-- A step that leaves everything as it is. -/
theorem step {a : α} (hrun : x c = .ok a c) (h : Runs κ (f a) c Q E) : Runs κ (x >>= f) c Q E :=
  fun hc => .step hrun (h hc)

/-- What succeeds in turns. -/
theorem of_turns {a : α} {c' : σ} {pub : List (Section × Instruction)}
    (hrun : (emitter c).IsOpen → x c = .ok a c')
    (hturns : (emitter c).Turns κ pub (emitter c')) (h : P a c') : Runs κ x c P E :=
  fun hc => .of_eq_ok (hrun hc.isOpen) ⟨hturns.leads, h⟩

/-- Runs follow runs, and the later ones find what the earlier ones did. -/
theorem bind [Kinds.Closed κ] (hx : Runs κ x c P E)
    (hf : ∀ a c', (emitter c).Leads κ (emitter c') → P a c' → Runs κ (f a) c' Q E) :
    Runs κ (x >>= f) c Q E := by
  intro hc
  refine (hx hc).bind ?_
  rintro a c₁ ⟨hleads, hP⟩
  refine (hf a c₁ hleads hP (hleads.ready hc)).mono ?_ ?_
  · exact fun b c₂ h => ⟨hleads.trans h.1, h.2⟩
  · exact fun e c₂ h => ⟨hleads.trans h.1, h.2⟩

theorem mono {R : α → σ → Prop} (hx : Runs κ x c P E)
    (hR : ∀ a c', (emitter c).Leads κ (emitter c') → P a c' → R a c') (hE : ∀ e, E e → F e) :
    Runs κ x c R F := by
  intro hc
  refine (hx hc).mono ?_ ?_
  · exact fun a c' h => ⟨h.1, hR a c' h.1 h.2⟩
  · exact fun e c' h => ⟨h.1, h.2.mono hE⟩

/-- What a computation ends with is what it ends with. -/
theorem ran (hx : Runs κ x c P E) : Runs κ x c (fun a c' => x c = .ok a c' ∧ P a c') E := by
  intro hc
  cases hrun : x c with
  | ok a c' =>
    obtain ⟨hleads, hP⟩ := (hx hc).of_ok hrun
    exact .of_eq_ok hrun ⟨hleads, rfl, hP⟩
  | error e c' => exact .of_eq_error hrun ((hx hc).of_error hrun)

end Runs

end

namespace Compile

variable {α β : Type} {κ : Kinds} {E : CompileError → Prop} {c : Compilation}

/-- Emitting code leaves the record and the interface as they are. -/
theorem emit_runs {x : Emit α} {P : α → Emitter → Prop} (hx : Runs κ x c.emitter P E) :
    Runs κ (emit x) c (fun a c' => P a c'.emitter ∧ c' = { c with emitter := c'.emitter }) E := by
  intro hc
  unfold Concludes emit EStateM.run
  cases hrun : x c.emitter with
  | ok a s =>
    obtain ⟨hleads, hP⟩ := (hx hc).of_ok hrun
    exact ⟨hleads, hP, rfl⟩
  | error e s => exact (hx hc).of_error hrun

/-- Noting something for later changes nothing that is emitted. -/
theorem note_runs {f : Record → Record} {x : Compile α} {P : α → Compilation → Prop}
    (hx : Runs κ x { c with record := f c.record } P E) : Runs κ (note f >>= fun _ => x) c P E :=
  hx

/-- Emitting code inside a compilation gives what the code gives. -/
theorem emit_of_eq_ok {x : Emit α} {a : α} {s : Emitter} (h : x c.emitter = .ok a s) :
    emit x c = .ok a { c with emitter := s } := by
  unfold emit EStateM.run
  rw [h]

/-- A loop of emissions is the emission of a loop. -/
theorem forM_emit (f : α → Emit PUnit) (xs : List α) :
    (xs.forM fun a => emit (f a)) = emit (xs.forM f) := by
  induction xs with
  | nil => rfl
  | cons a xs ih =>
    show (emit (f a) >>= fun _ => xs.forM fun a => emit (f a)) = emit (f a >>= fun _ => xs.forM f)
    rw [ih]
    funext c
    rw [bind_apply]
    unfold emit EStateM.run
    rw [bind_apply]
    cases f a c.emitter <;> rfl

end Compile

namespace Emit

theorem forM_capability_apply (cs : List Capability) (s : Emitter) :
    cs.forM capability s = .ok () (cs.foldl Emitter.declare s) := by
  induction cs generalizing s with
  | nil => rfl
  | cons c cs ih => exact (bind_of_eq_ok (capability_apply c s)).trans (ih _)

/-- One instruction without a result for each item of a list. -/
theorem forM_instruction_apply {α : Type} (part : Section) (op : Opcode) (operands : α → List Word)
    (xs : List α) (s : Emitter) :
    xs.forM (fun a => instruction part op (operands a)) s =
      .ok () (s.write (xs.map fun a => (part, ⟨op, operands a⟩))) := by
  induction xs generalizing s with
  | nil => rfl
  | cons a xs ih => exact (bind_of_eq_ok (instruction_apply part op (operands a) s)).trans (ih _)

theorem markBlock_apply (struct : Id) (s : Emitter) :
    markBlock struct s = .ok () (s.mark struct) := by
  unfold markBlock Emitter.mark
  rw [bind_apply, get_apply]
  dsimp only
  split <;> rfl

end Emit

/-! ## Fields -/

/-- The decorations that a variable has according to its record, in order. -/
def Variable.decorations (v : Variable) : List (Decoration × Word) :=
  (v.descriptorSet.map (.descriptorSet, ·)).toList ++ (v.binding.map (.binding, ·)).toList ++
    (v.location.map (.location, ·)).toList ++ (v.builtIn.map (.builtIn, ·)).toList

/-- The instructions that decorate a variable. -/
def Variable.placements (v : Variable) : List Instruction :=
  v.decorations.map fun d => ⟨.decorate, [v.id, d.1, d.2]⟩

/-- The variable that a field is declared as. -/
def Field.variable (f : Field) (r : Resolution) (id : Id) : Variable where
  id := id
  key := f.key r
  name := f.name
  location := r.location
  binding := r.binding
  descriptorSet := r.descriptorSet
  builtIn := r.builtIn
  pushConstant := r.pushConstant

/-- The variable of a field of this class points to a block. -/
def Field.IsBlock (f : Field) (storage : StorageClass) : Prop :=
  (storage = .uniform ∨ storage = .pushConstant) ∧ ∃ name members, f.type = .struct name members

/-- The id of a type was asked for, which emitted no code. -/
structure Emitter.Finds (κ : Kinds) (s : Emitter) (k : Key) (T : Id) (s' : Emitter) : Prop where
  turns : s.Turns κ [] s'
  code : s'.code = s.code
  typeOf : s'.typeOf? k = some T

namespace Field

/-- The type of the field is marked if the field is a block. -/
inductive Marks (κ : Kinds) (f : Field) (storage : StorageClass) (s : Emitter) : Emitter → Prop
  | none (h : ¬ f.IsBlock storage) : Marks κ f storage s s
  | block {struct : Id} {s₁ : Emitter} (h : f.IsBlock storage)
      (hstruct : s.Finds κ (.value f.type) struct s₁) : Marks κ f storage s (s₁.mark struct)

/-- The emitter with the variable of a field declared, named and recorded. -/
def declared (f : Field) (r : Resolution) (T : Id) (s : Emitter) : Emitter :=
  (s.define .globals ⟨.var, [T, s.nextId, (f.key r).storage]⟩).labelled s.nextId (f.key r) f.name

/-- The field is declared as the variable. First its type is entered, then the variable gets its
name, its type is marked as a block, and its decorations come with the capabilities they need. -/
inductive DeclaredIn (κ : Kinds) (f : Field) (s : Emitter) : Variable → Emitter → Prop
  | intro {r : Resolution} {T : Id} {s₁ s₂ : Emitter} (hr : f.resolve = .ok r)
      (hkey : κ.key (f.key r)) (hname : κ.text f.name) (htype : s.Finds κ (f.key r) T s₁)
      (hmarks : f.Marks κ (f.key r).storage (f.declared r T s₁) s₂) :
      DeclaredIn κ f s (f.variable r s₁.nextId)
        (r.capabilities.foldl Emitter.declare
          (s₂.write ((f.variable r s₁.nextId).placements.map (.decorations, ·))))

/-- The name and the types of a field are of the given kinds. -/
structure Within (κ : Kinds) (f : Field) : Prop where
  name : κ.text f.name
  key : ∀ storage, storage ≠ .none → κ.key (.pointer f.type storage)

/-- No layout asks for variables without a class. -/
theorem storage_ne_none {f : Field} {r : Resolution} (h : f.resolve = .ok r) :
    r.storage ≠ .none := by
  have hplaces := places_of_resolve h
  cases hlayout : f.layout with
  | none =>
    rw [hlayout] at hplaces
    rw [show r.storage = .privateData from hplaces]
    decide
  | some l =>
    rw [hlayout] at hplaces
    dsimp only at hplaces
    generalize r.storage = storage at hplaces
    cases hplaces <;> decide

/-- Images have a class of their own, all other fields the one of their layout. -/
theorem key_storage_ne_none {f : Field} {r : Resolution} (h : f.resolve = .ok r) :
    (f.key r).storage ≠ .none := by
  show (if f.type.isOpaque then StorageClass.uniformConstant else r.storage) ≠ .none
  split
  · decide
  · exact storage_ne_none h

/-- A field that has no place is refused for a reason of its own. -/
theorem foreseen_resolve {f : Field} {e : CompileError} (h : f.resolve = .error e) :
    e.foreseen = false := by
  obtain ⟨⟨number, rfl⟩ | ⟨code, rfl⟩, -⟩ := f.not_places_of_resolve h
  · rfl
  · rfl

end Field

namespace Emitter

variable {κ : Kinds} {s : Emitter}

/-- Declaring the variable of a field is a public turn. -/
theorem turns_declared {f : Field} {r : Resolution} (hr : f.resolve = .ok r)
    (hkey : κ.key (f.key r)) (hname : κ.text f.name) {T : Id} (hT : s.typeOf? (f.key r) = some T) :
    s.Turns κ [(.globals, ⟨.var, [T, s.nextId, (f.key r).storage]⟩)] (f.declared r T s) :=
  .single (.globalVariable hkey hname hT (Field.key_storage_ne_none hr)
    ⟨_, rfl, Key.normalize_normalize _⟩)

/-- Marking a block publishes decorations, if it publishes anything. -/
theorem turns_mark {struct : Id} (h : s.IsType struct) :
    ∃ pub, s.Turns κ pub (s.mark struct) ∧ ∀ e ∈ pub, e.1 = .decorations := by
  unfold mark
  split
  · exact ⟨[], .refl, nofun⟩
  · rename_i hunmarked
    exact ⟨_, .single (.block (.inr h) hunmarked), List.forall_mem_singleton.mpr rfl⟩

/-- The decorations of a variable are public turns. -/
theorem turns_placements {f : Field} {r : Resolution} {id : Id} (hid : s.Allocated id) :
    s.Turns κ ((f.variable r id).placements.map (.decorations, ·))
      (s.write ((f.variable r id).placements.map (.decorations, ·))) := by
  refine turns_write (List.forall_mem_map.mpr (List.forall_mem_map.mpr fun d hd s' hkeeps => ?_))
  refine .decoration ?_ (hid.keep hkeeps) d.2
  obtain ⟨decoration, value⟩ := d
  simp only [Variable.decorations, List.mem_append, Option.mem_toList, Option.map_eq_some_iff,
    Prod.mk.injEq] at hd
  rcases hd with ((⟨_, _, rfl, _⟩ | ⟨_, _, rfl, _⟩) | ⟨_, _, rfl, _⟩) | ⟨_, _, rfl, _⟩ <;>
    simp [Decoration.placing]

/-- The variable is allocated. -/
theorem allocated_declared (f : Field) (r : Resolution) (T : Id) (s : Emitter) :
    (f.declared r T s).Allocated s.nextId :=
  ⟨.globals, _, has_put.mpr (.inl (has_define_self _ _ _)), rfl⟩

end Emitter

namespace Field

variable {κ : Kinds} {f : Field} {s s' : Emitter} {v : Variable} {storage : StorageClass}

/-- Marking is done in turns that publish decorations. -/
theorem Marks.turns (h : f.Marks κ storage s s') :
    ∃ pub, s.Turns κ pub s' ∧ ∀ e ∈ pub, e.1 = .decorations := by
  cases h with
  | none => exact ⟨[], .refl, nofun⟩
  | block h hstruct =>
    obtain ⟨pub, hturns, hpub⟩ := Emitter.turns_mark (κ := κ) ⟨_, hstruct.typeOf⟩
    exact ⟨pub, hstruct.turns.trans hturns, hpub⟩

/-- What follows the declaration of a variable. -/
theorem Marks.placed (h : f.Marks κ storage s s') {id : Id} (hid : s.Allocated id)
    (r : Resolution) :
    ∃ pub, s.Turns κ pub (r.capabilities.foldl Emitter.declare
        (s'.write ((f.variable r id).placements.map (.decorations, ·)))) ∧
      ∀ e ∈ pub, e.1 ∈ [.decorations, .capabilities] := by
  obtain ⟨pub, hturns, hpub⟩ := h.turns
  have hplaced := Emitter.turns_placements (κ := κ) (f := f) (r := r) (hid.keep hturns.keeps)
  have hdeclare := Emitter.turns_declare (κ := κ)
    (s'.write ((f.variable r id).placements.map (.decorations, ·))) r.capabilities
  refine ⟨_, hturns.trans (hplaced.trans hdeclare), ?_⟩
  simp only [List.forall_mem_append, List.forall_mem_map, List.mem_cons, true_or, or_true,
    implies_true, and_true]
  exact fun e he => .inl (hpub e he)

/-- The variable is public, and so is what it is decorated with. -/
theorem DeclaredIn.turns (h : f.DeclaredIn κ s v s') :
    ∃ T pub, s.Turns κ ((.globals, ⟨.var, [T, v.id, v.storage]⟩) :: pub) s' ∧
      ∀ e ∈ pub, e.1 ∈ [.decorations, .capabilities] := by
  cases h with
  | @intro r T s₁ s₂ hr hkey hname htype hmarks =>
    have hvar := Emitter.turns_declared hr hkey hname htype.typeOf
    obtain ⟨pub, hturns, hpub⟩ := hmarks.placed (Emitter.allocated_declared f r T s₁) r
    exact ⟨T, pub, (htype.turns.trans hvar).trans hturns, hpub⟩

theorem DeclaredIn.allocated (h : f.DeclaredIn κ s v s') : s'.Allocated v.id := by
  cases h with
  | @intro r T s₁ s₂ hr hkey hname htype hmarks =>
    have hid := Emitter.allocated_declared f r T s₁
    obtain ⟨pub, hturns, -⟩ := hmarks.placed hid r
    exact hid.keep hturns.keeps

/-- The variable of a field has the key of the field. -/
theorem DeclaredIn.key_eq (h : f.DeclaredIn κ s v s') {r : Resolution} (hr : f.resolve = .ok r) :
    v.key = f.key r := by
  cases h with
  | intro hr' =>
    cases hr.symm.trans hr'
    rfl

/-- Fields are no part of the code. -/
theorem DeclaredIn.code_eq (h : f.DeclaredIn κ s v s') : s'.code = s.code := by
  cases h with
  | @intro r T s₁ s₂ hr hkey hname htype hmarks =>
    have hmarked : s₂.code = (f.declared r T s₁).code := by
      cases hmarks with
      | none => rfl
      | block h hstruct => exact (Emitter.code_mark _ _).trans hstruct.code
    have hdeclared : (f.declared r T s₁).code = s₁.code :=
      (Emitter.remarks_label _ _ _).code_eq.trans
        ((s₁.code_define .globals _).trans (List.append_nil _))
    rw [(Emitter.remarks_foldl_declare _ _).code_eq, Emitter.code_write, hmarked, hdeclared,
      htype.code]
    exact List.forall_mem_map.mpr fun _ _ => nofun

/-- A field is declared in turns. -/
theorem DeclaredIn.leads (h : f.DeclaredIn κ s v s') : s.Leads κ s' := by
  obtain ⟨T, pub, hturns, -⟩ := h.turns
  exact hturns.leads

/-- The error of a type that is not supported. -/
def IsUnsupported (f : Field) (e : CompileError) : Prop :=
  e.kind = .unsupportedType ∧ ¬ f.type.Supported

variable [Kinds.Closed κ]

/-- The type of a field is marked if it is in a block, or it is refused. -/
theorem markBlock_runs {r : Resolution} (hkey : κ.key (.pointer f.type r.storage)) :
    Runs κ (f.markBlock storage) s (fun _ s' => f.Marks κ storage s s') f.IsUnsupported := by
  unfold markBlock
  by_cases hstorage : storage = .uniform ∨ storage = .pushConstant
  · rw [if_pos hstorage]
    split
    · rename_i name members hstruct
      have hblock : f.IsBlock storage := ⟨hstorage, name, members, hstruct⟩
      have hvalue : κ.key (.value f.type) := by
        rw [hstruct] at hkey ⊢
        exact KeyKind.block hkey
      refine (Emit.typeId_acts f.type hvalue s).runs.bind ?_
      rintro struct s₁ - ⟨hturns, hinterns, htype⟩
      obtain ⟨pub, hmark, -⟩ := Emitter.turns_mark (κ := κ) ⟨_, htype⟩
      exact .of_turns (fun _ => Emit.markBlock_apply struct s₁) hmark
        (.block hblock ⟨hturns, hinterns.code, htype⟩)
    · rename_i hstruct
      exact .pure (.none fun h => hstruct h.2.choose h.2.choose_spec.choose
        h.2.choose_spec.choose_spec)
  · rw [if_neg hstorage]
    exact .pure (.none fun h => hstorage h.1)

/-- Declaring a field takes turns, and is refused only if its type is not supported. -/
theorem declare_runs {r : Resolution} (hr : f.resolve = .ok r) (hf : f.Within κ) :
    Runs κ (f.declare r) s (fun v s' => f.DeclaredIn κ s v s') f.IsUnsupported := by
  have hpointer := hf.key r.storage (storage_ne_none hr)
  have hkey : κ.key (f.key r) := KeyKind.normalize hpointer
  have hvariable (T : Id) (s₁ : Emitter) (hT : s₁.typeOf? (f.key r) = some T) :
      Runs κ (do
        let id ← Emit.globalVariable T (f.key r).storage
        Emit.name id f.name
        Emit.bind id (f.key r) f.name
        return id) s₁ (fun id s₂ => id = s₁.nextId ∧ s₂ = f.declared r T s₁) f.IsUnsupported :=
    .of_turns (fun hopen => bind_of_eq_ok (Emit.typedResult_apply hopen _ _ _ _))
      (Emitter.turns_declared hr hkey hf.name hT) ⟨rfl, rfl⟩
  have hrest (T : Id) (s₁ : Emitter) (htype : s.Finds κ (f.key r) T s₁) := by
    refine (hvariable T s₁ htype.typeOf).bind (f := fun id => do
      f.markBlock (f.key r).storage
      r.decorate id
      r.capabilities.forM Emit.capability
      return f.variable r id) (Q := fun v s' => f.DeclaredIn κ s v s') ?_
    rintro id s₂ - ⟨rfl, rfl⟩
    refine (markBlock_runs hpointer).bind ?_
    rintro _ s₃ ⟨pub, hturns⟩ hmarks
    have hid := (Emitter.allocated_declared f r T s₁).keep hturns.keeps
    have hplaced := Emitter.turns_placements (κ := κ) (f := f) (r := r) hid
    refine .of_turns (fun _ => ?_) (hplaced.trans (Emitter.turns_declare _ _))
      (.intro hr hkey hf.name htype hmarks)
    have hdecorate : r.decorate s₁.nextId s₃ = .ok ()
        (s₃.write ((f.variable r s₁.nextId).placements.map (.decorations, ·))) := by
      rw [Variable.placements, List.map_map]
      exact Emit.forM_instruction_apply .decorations .decorate _ _ _
    rw [bind_of_eq_ok hdecorate]
    exact bind_of_eq_ok (Emit.forM_capability_apply _ _)
  unfold declare
  refine (Emit.keyId_acts hkey).runs.mono (fun _ _ _ h => h) (fun e h => ⟨h.1, fun hsupported =>
    h.2 (Key.supported_normalize.mpr hsupported)⟩) |>.bind ?_
  rintro T s₁ - ⟨hturns, hinterns, hT⟩
  have hall := hrest T s₁ ⟨hturns, hinterns.code, hT⟩
  simp only [bind_assoc, pure_bind] at hall
  exact hall

end Field

/-- The storage class is that of an input or an output. -/
def StorageClass.crosses (storage : StorageClass) : Bool :=
  storage = .input || storage = .output

/-- The variables that are inputs or outputs, in order. -/
def crossing (vs : List Variable) : List Id :=
  (vs.filter (·.storage.crosses)).map Variable.id

theorem crossing_cons (v : Variable) (vs : List Variable) :
    crossing (v :: vs) = (if v.storage.crosses then [v.id] else []) ++ crossing vs := by
  unfold crossing
  rw [List.filter_cons]
  split <;> rfl

namespace Field

/-- A layout marks exactly the inputs and outputs. -/
theorem interface_of_resolve {f : Field} {r : Resolution} (h : f.resolve = .ok r) :
    r.interface = r.storage.crosses := by
  have hinterface : ∀ {l : Layout} {storage : StorageClass},
      resolveInterface l storage = .ok r → r.interface = true ∧ r.storage = storage := by
    intro l storage h
    unfold resolveInterface at h
    split at h
    · cases h
      exact ⟨rfl, rfl⟩
    · rename_i builtin hbuiltin
      cases builtin <;> cases h <;> exact ⟨rfl, rfl⟩
  unfold resolve at h
  split at h
  · cases h
    rfl
  · split at h
    · cases h
      rfl
    · cases h
      rfl
    · cases h
    · split at h
      · obtain ⟨hflag, hstorage⟩ := hinterface h
        rw [hflag, hstorage]
        rfl
      · obtain ⟨hflag, hstorage⟩ := hinterface h
        rw [hflag, hstorage]
        rfl
      · cases h
        rfl
      · cases h
        rfl

/-- The storage class of a variable: images have one of their own, all others that of the layout. -/
theorem storage_key (f : Field) (r : Resolution) :
    (f.key r).storage = if f.type.isOpaque then .uniformConstant else r.storage :=
  rfl

/-- The two conditions agree: a variable is listed if its layout says so and its type leaves it
there, and these are the variables that end up as inputs or outputs. -/
theorem listed_iff {f : Field} {r : Resolution} (h : f.resolve = .ok r) :
    (r.interface = true ∧ (f.key r).storage = r.storage) ↔
      (f.key r).storage.crosses = true := by
  rw [interface_of_resolve h, storage_key]
  constructor
  · rintro ⟨hcrosses, hstorage⟩
    rw [hstorage, hcrosses]
  · split
    · intro himage
      cases himage
    · exact fun hcrosses => ⟨hcrosses, rfl⟩

end Field


/-- A variable is listed if it is an input or an output. -/
theorem Compile.enlist_runs {α : Type} {κ : Kinds} {E : CompileError → Prop} {c : Compilation}
    {f : Field} {r : Resolution} (hr : f.resolve = .ok r) {v : Variable} (hv : v.key = f.key r)
    {x : Compile α} {P : α → Compilation → Prop}
    (hx : Runs κ x
      { c with interface := c.interface ++ if v.storage.crosses then [v.id] else [] } P E) :
    Runs κ (enlist r v >>= fun _ => x) c P E := by
  have hlisted : (r.interface = true ∧ v.storage = r.storage) ↔ v.storage.crosses = true := by
    unfold Variable.storage
    rw [hv]
    exact Field.listed_iff hr
  rw [← if_congr hlisted rfl rfl] at hx
  exact hx

end ShaderStage

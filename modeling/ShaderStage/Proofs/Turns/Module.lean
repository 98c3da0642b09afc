import ShaderStage.Proofs.Turns.Fields

/-! # Modules in turns

A program is emitted in stages: what is the same for all programs, the variables of its fields, the
functions of its methods, and its entry points. All of them take turns, also when they are refused,
and what is public of them is known exactly:

* `Program.emitPreamble_apply`: what is the same for all programs;
* `Program.Staged`: the stages of a program, one after the other;
* `Program.emitModule_runs`: a program goes through its stages, or takes turns until it is refused.
  -/

namespace ShaderStage

/-! ## The preamble -/

/-- The entries about the source; the file is the id of the name of the source file. -/
def Options.sources (o : Options) (file : Option Id) : List (Section × Instruction) :=
  (file.toList.map fun id => (.sources, ⟨.string, id :: Literal.ofString o.sourceFile⟩)) ++
    (.sources, ⟨.source, glslSource :: sourceVersion :: file.toList⟩) ::
      sourceExtensions.map fun name => (.sources, ⟨.sourceExtension, Literal.ofString name⟩)

/-- What a compilation writes to the reserved sections before it looks at the program. -/
def Options.preamble (o : Options) (file : Option Id) : List (Section × Instruction) :=
  (o.extensions.map fun name => (.extensions, ⟨.extension, Literal.ofString name⟩)) ++
    (.memoryModel, ⟨.memoryModel, [logicalAddressing, glsl450Memory]⟩) :: o.sources file

/-- The capabilities that every program of a stage declares under the given options. -/
def Program.baseCapabilities (p : Program) (o : Options) : List Capability :=
  p.stage.capabilities ++ o.capabilities

/-- All texts that the options give are of the kind. -/
structure Options.Within (κ : Kinds) (o : Options) : Prop where
  extensions : ∀ text ∈ o.extensions, κ.announced text
  sourceFile : κ.announced o.sourceFile
  sourceExtensions : ∀ text ∈ sourceExtensions, κ.announced text

/-- The log gets these entries, all of them in public. -/
structure Emitter.Publishes (κ : Kinds) (s : Emitter) (entries : List (Section × Instruction))
    (s' : Emitter) : Prop where
  logs : s.Logs entries s'
  turns : s.Turns κ entries s'

namespace Emitter.Publishes

variable {κ : Kinds} {s s₁ s₂ s₃ : Emitter} {entries entries' : List (Section × Instruction)}

theorem trans (h : s₁.Publishes κ entries s₂) (h' : s₂.Publishes κ entries' s₃) :
    s₁.Publishes κ (entries ++ entries') s₃ :=
  ⟨h.logs.trans h'.logs, h.turns.trans h'.turns⟩

/-- No code of functions is public. -/
theorem code_eq (h : s.Publishes κ entries s₁) : s₁.code = s.code :=
  h.logs.emitted_eq h.turns.public_ne_functions

/-- Entries that a program announces. -/
theorem announced
    (h : ∀ e ∈ entries, ∀ s', s.Keeps s' → s'.Announces κ e.1 e.2) :
    s.Publishes κ entries (s.write entries) :=
  ⟨logs_write fun e he => (h e he s (.refl s)).spec,
    turns_write fun e he s' hkeeps => .announced (h e he s' hkeeps)⟩

end Emitter.Publishes

section

variable {κ : Kinds} {s : Emitter} {o : Options}

/-- What is said about the source in a file, if there is one. -/
def sourceEntries (file : List Id) : List (Section × Instruction) :=
  (.sources, ⟨.source, glslSource :: sourceVersion :: file⟩) ::
    sourceExtensions.map fun name => (.sources, ⟨.sourceExtension, Literal.ofString name⟩)

/-- The source is announced, with its file if there is one. -/
theorem publishes_source (ho : o.Within κ) {file : List Id} (hlength : file.length ≤ 1)
    (hfile : ∀ id ∈ file, s.Allocated id) :
    s.Publishes κ (sourceEntries file) (s.write (sourceEntries file)) := by
  have hoption : file = file.head?.toList := by
    cases file with
    | nil => rfl
    | cons id rest =>
      obtain rfl : rest = [] := List.eq_nil_of_length_eq_zero (by simpa using hlength)
      rfl
  refine .announced (List.forall_mem_cons.mpr ⟨fun s' hkeeps => ?_, List.forall_mem_map.mpr ?_⟩)
  · rw [hoption]
    exact .source (fun id hid => (hfile id (List.mem_of_mem_head? hid)).keep hkeeps) _ _
  · exact fun text htext s' _ => .sourceExtension (ho.sourceExtensions text htext)

/-- The source, once the name of its file is recorded; zero stands for no file. -/
theorem source_apply (file : Id) (s : Emitter) :
    (do
      Emit.source glslSource sourceVersion file
      sourceExtensions.forM Emit.sourceExtension : Emit Unit) s =
      .ok () (s.write (sourceEntries (if file = 0 then [] else [file]))) :=
  (bind_of_eq_ok (Emit.instruction_apply .sources .source _ s)).trans
    (Emit.forM_instruction_apply .sources .sourceExtension _ _ _)

/-- The name of the source file, if there is one, and the source. -/
theorem sources_apply (ho : o.Within κ) (hopen : s.IsOpen) :
    ∃ entries s',
      (do
        let file ← if o.sourceFile = "" then pure 0 else Emit.string o.sourceFile
        Emit.source glslSource sourceVersion file
        sourceExtensions.forM Emit.sourceExtension : Emit Unit) s = .ok () s' ∧
      s.Publishes κ entries s' ∧
      (s.nextId ≠ 0 → ∃ file : Option Id, (file.isSome ↔ o.sourceFile ≠ "") ∧
        entries = o.sources file) := by
  by_cases hsource : o.sourceFile = ""
  · rw [if_pos hsource]
    exact ⟨_, _, source_apply 0 s, publishes_source ho (Nat.zero_le _) nofun,
      fun _ => ⟨none, by simp [hsource], rfl⟩⟩
  · rw [if_neg hsource]
    have hstring : s.Publishes κ
        [(.sources, ⟨.string, s.nextId :: Literal.ofString o.sourceFile⟩)]
        (s.define .sources ⟨.string, s.nextId :: Literal.ofString o.sourceFile⟩) :=
      ⟨.result (by decide) (by decide), .single (.note (.string ho.sourceFile))⟩
    refine ⟨_, _, (bind_of_eq_ok (Emit.result_apply hopen _ _ _)).trans (source_apply _ _),
      hstring.trans (publishes_source ho ?_ ?_), fun hid => ⟨some s.nextId, by simp [hsource], ?_⟩⟩
    · split
      · exact Nat.zero_le _
      · exact Nat.le_refl _
    · split
      · nofun
      · exact List.forall_mem_singleton.mpr ⟨.sources, _, Emitter.has_define_self _ _ _, rfl⟩
    · rw [if_neg hid]
      rfl

/-- The preamble declares capabilities and publishes the rest of what it says. -/
theorem Program.emitPreamble_apply (p : Program) (ho : o.Within κ) (hopen : s.IsOpen) :
    ∃ entries s', p.emitPreamble o s = .ok () s' ∧
      ((p.baseCapabilities o).foldl Emitter.declare s).Publishes κ entries s' ∧
      (s.nextId ≠ 0 → ∃ file : Option Id, (file.isSome ↔ o.sourceFile ≠ "") ∧
        entries = o.preamble file) := by
  have hremarks := s.remarks_foldl_declare (p.baseCapabilities o)
  generalize hs₁ : (p.baseCapabilities o).foldl Emitter.declare s = s₁ at hremarks ⊢
  generalize hsaid : (o.extensions.map fun name =>
    ((.extensions, ⟨.extension, Literal.ofString name⟩) : Section × Instruction)) ++
      [(.memoryModel, ⟨.memoryModel, [logicalAddressing, glsl450Memory]⟩)] = said
  have hannounces : ∀ e ∈ said, ∀ s', s₁.Keeps s' → s'.Announces κ e.1 e.2 := by
    rw [← hsaid]
    refine List.forall_mem_append.mpr ⟨List.forall_mem_map.mpr fun text htext s' _ => ?_,
      List.forall_mem_singleton.mpr fun s' _ => .memoryModel _ _⟩
    exact .extension (ho.extensions text htext)
  have hwritten := Emitter.Publishes.announced hannounces
  -- No id is taken before the one of the source file, so that one can be told from none.
  have hnext : (s₁.write said).nextId = s.nextId := by
    rw [← hremarks.nextId_eq]
    refine hwritten.logs.nextId_eq fun e he => ?_
    simp [Instruction.resultId, (hannounces e he s₁ (.refl s₁)).spec.2]
  obtain ⟨entries, s', hrun, hsources, hentries⟩ := sources_apply ho
    (hwritten.turns.isOpen (hremarks.keeps.draft.closed.trans hopen))
  refine ⟨said ++ entries, s', ?_, hwritten.trans hsources, fun hid => ?_⟩
  · rw [← hrun, ← hs₁, ← hsaid, baseCapabilities, List.foldl_append]
    refine (bind_of_eq_ok (Emit.forM_capability_apply _ s)).trans ?_
    refine (bind_of_eq_ok (Emit.forM_capability_apply _ _)).trans ?_
    refine (bind_of_eq_ok (Emit.forM_instruction_apply .extensions .extension _ _ _)).trans ?_
    rw [Emitter.write_append]
    exact bind_of_eq_ok (Emit.instruction_apply .memoryModel .memoryModel _ _)
  · obtain ⟨file, hfile, rfl⟩ := hentries (hnext ▸ hid)
    refine ⟨file, hfile, ?_⟩
    rw [← hsaid, List.append_assoc]
    rfl

end

/-! ## Stages -/

/-- Fields that were declared one after the other. -/
inductive DeclaresEach (κ : Kinds) : List Field → Emitter → List Variable → Emitter → Prop
  | nil (s : Emitter) : DeclaresEach κ [] s [] s
  | cons {f : Field} {fields : List Field} {v : Variable} {vs : List Variable}
      {s s₁ s' : Emitter} (hf : f.DeclaredIn κ s v s₁) (h : DeclaresEach κ fields s₁ vs s') :
      DeclaresEach κ (f :: fields) s (v :: vs) s'

/-- Methods that were emitted one after the other. -/
inductive EmitsEach (κ : Kinds) (globals : List Variable) :
    List Method → Emitter → List Function → Emitter → Prop
  | nil (s : Emitter) : EmitsEach κ globals [] s [] s
  | cons {m : Method} {methods : List Method} {f : Function} {fs : List Function}
      {s s₁ s' : Emitter} (hm : m.emit globals s = .ok f s₁) (hturns : s.Turns κ [] s₁)
      (hname : f.name = m.name) (hid : s₁.Allocated f.id)
      (h : EmitsEach κ globals methods s₁ fs s') :
      EmitsEach κ globals (m :: methods) s (f :: fs) s'

section

variable {κ : Kinds} {s s' : Emitter} {fields : List Field} {vs globals : List Variable}
  {methods : List Method} {fs : List Function}

/-- Fields are declared in turns. -/
theorem DeclaresEach.leads (h : DeclaresEach κ fields s vs s') : s.Leads κ s' := by
  induction h with
  | nil s => exact .refl s
  | cons hf _ ih => exact hf.leads.trans ih

theorem DeclaresEach.code_eq (h : DeclaresEach κ fields s vs s') : s'.code = s.code := by
  induction h with
  | nil s => rfl
  | cons hf _ ih => rw [ih, hf.code_eq]

theorem DeclaresEach.length_eq (h : DeclaresEach κ fields s vs s') : fields.length = vs.length := by
  induction h with
  | nil s => rfl
  | cons _ _ ih => rw [List.length_cons, List.length_cons, ih]

theorem DeclaresEach.allocated (h : DeclaresEach κ fields s vs s') :
    ∀ v ∈ vs, s'.Allocated v.id := by
  induction h with
  | nil s => nofun
  | cons hf hrest ih =>
    obtain ⟨pub, hturns⟩ := hrest.leads
    exact List.forall_mem_cons.mpr ⟨hf.allocated.keep hturns.keeps, ih⟩

/-- Methods are emitted in silent turns. -/
theorem EmitsEach.turns (h : EmitsEach κ globals methods s fs s') : s.Turns κ [] s' := by
  induction h with
  | nil s => exact .refl
  | cons _ hturns _ _ _ ih => exact hturns.silent ih

/-- Functions are called as their methods. -/
theorem EmitsEach.names (h : EmitsEach κ globals methods s fs s') :
    fs.map Function.name = methods.map Method.name := by
  induction h with
  | nil s => rfl
  | cons _ _ hname _ _ ih => rw [List.map_cons, List.map_cons, hname, ih]

theorem EmitsEach.allocated (h : EmitsEach κ globals methods s fs s') :
    ∀ f ∈ fs, s'.Allocated f.id := by
  induction h with
  | nil s => nofun
  | cons _ _ _ hid hrest ih =>
    exact List.forall_mem_cons.mpr ⟨hid.keep hrest.turns.keeps, ih⟩

end

/-- Functions named like methods are there wherever the methods are. -/
theorem Function.exists_of_names {fs : List Function} {ms : List Method}
    (h : fs.map Function.name = ms.map Method.name) {i : Nat} {m : Method}
    (hm : ms[i]? = some m) : ∃ f, fs[i]? = some f ∧ f.name = m.name := by
  have hnames := congrArg (·[i]?) h
  simp only [List.getElem?_map, hm, Option.map_some, Option.map_eq_some_iff] at hnames
  exact hnames

namespace Program

/-- What a program writes to the reserved sections about its entry points. -/
def entryStatements (p : Program) (f : Function) (interface : List Id) :
    List (Section × Instruction) :=
  (p.stage.models.map fun model =>
    (.entryPoints, ⟨.entryPoint, model :: f.id :: Literal.ofString f.name ++ interface⟩)) ++
  (p.options.modes p.stage).map fun mode =>
    (.executionModes, ⟨.executionMode, f.id :: mode.1 :: mode.2⟩)

/-- All types and texts that a program and its options give are of the given kinds, and all that is
read from a pointer may be. -/
structure Within (κ : Kinds) (p : Program) (o : Options) : Prop where
  fields : ∀ f ∈ p.fields, f.Within κ
  methods : ∀ m ∈ p.methods, m.Within κ
  derefs : ∀ t, p.Derefs o t → κ.Reads t
  options : o.Within κ

/-- If everything is allowed, a program asks for nothing else. -/
theorem within_all (p : Program) (o : Options) (foreign : Prop) : p.Within (.all foreign) o where
  fields _ _ := ⟨trivial, fun _ _ => trivial⟩
  methods m _ := m.within_all foreign
  derefs _ _ _ _ := trivial
  options := ⟨fun _ _ => trivial, trivial, fun _ _ => trivial⟩

/-- The stages of a program: the preamble after its capabilities, fields, methods, and the entry
points. -/
structure Staged (κ : Kinds) (p : Program) (o : Options) (c : Compilation) (s₁ s₂ s₃ : Emitter) :
    Prop where
  preamble : ∃ file, (file.isSome ↔ o.sourceFile ≠ "") ∧
    ((p.baseCapabilities o).foldl Emitter.declare (.start o.moduleVersion)).Publishes κ
      (o.preamble file) s₁
  fields : DeclaresEach κ p.fields s₁ c.record.globals s₂
  methods : EmitsEach κ c.record.globals p.methods s₂ c.record.functions s₃
  interface : c.interface = crossing c.record.globals
  entry : ∃ i f, p.check = .ok i ∧ c.record.functions[i]? = some f ∧
    c.record.entryPoint = some ⟨p.stage.models, f.id, f.name, c.interface⟩ ∧
    s₃.Publishes κ (p.entryStatements f c.interface) c.emitter

/-- No operation of the program refers to a field or a local that does not exist, and its entry
point does exist. -/
structure Promising (p : Program) : Prop where
  entry : ∃ i, p.check = .ok i
  inRange : ∀ m ∈ p.methods, ∀ op ∈ m.body, op.InRange p.fields.length m.locals.length

variable {κ : Kinds} [Kinds.Closed κ] {E : CompileError → Prop} {c : Compilation}

omit [Kinds.Closed κ] in
/-- Fields are refused for nothing that was foreseen. -/
theorem foreseen_of_declare {f : Field} {e : CompileError}
    (h : f.resolve = .error e ∨ f.IsUnsupported e) : e.foreseen = false := by
  rcases h with h | h
  · exact Field.foreseen_resolve h
  · exact CompileError.foreseen_of_unsupportedType h.1

/-- Fields are declared one after the other, or one of them is refused. -/
theorem declareFields_runs {fields : List Field} (hfields : ∀ f ∈ fields, f.Within κ)
    (hE : ∀ f ∈ fields, ∀ e, f.resolve = .error e ∨ f.IsUnsupported e → E e) :
    Runs κ (declareFields fields) c
      (fun _ c' => ∃ vs, DeclaresEach κ fields c.emitter vs c'.emitter ∧
        c'.record.globals = c.record.globals ++ vs ∧ c'.record.functions = c.record.functions ∧
        c'.interface = c.interface ++ crossing vs) E := by
  induction fields generalizing c with
  | nil =>
    exact .pure ⟨[], .nil _, (List.append_nil _).symm, rfl, (List.append_nil _).symm⟩
  | cons f fields ih =>
    obtain ⟨hf, hfields⟩ := List.forall_mem_cons.mp hfields
    obtain ⟨hE, hrest⟩ := List.forall_mem_cons.mp hE
    unfold declareFields
    refine Compile.note_runs ?_
    cases hr : f.resolve with
    | error e => exact fun _ => .of_eq_error rfl ⟨.refl _, hE e (.inl hr)⟩
    | ok r =>
      refine (Compile.emit_runs ((Field.declare_runs hr hf).mono (fun _ _ _ h => h)
        fun e he => hE e (.inr he))).bind ?_
      rintro v c₁ - ⟨hv, hsame⟩
      have hkey : v.key = f.key r := hv.key_eq hr
      rw [hsame]
      refine Compile.enlist_runs hr hkey (Compile.note_runs ?_)
      refine (ih hfields hrest).mono ?_ fun _ h => h
      rintro _ c₂ - ⟨vs, hvs, hglobals, hfunctions, hinterface⟩
      refine ⟨v :: vs, .cons hv hvs, ?_, hfunctions, ?_⟩
      · rw [hglobals, List.append_assoc]
        rfl
      · rw [hinterface, crossing_cons, List.append_assoc]

/-- Methods are emitted one after the other, or one of them is refused. -/
theorem emitMethods_runs [Tolerant E] {methods : List Method} (hmethods : ∀ m ∈ methods, m.Within κ)
    (hderefs : ∀ before m after c', methods = before ++ m :: after →
      emitMethods before c = .ok () c' → ∀ t, m.Derefs c'.record.globals c'.emitter t →
      κ.Reads t)
    (hbodies : (∀ m ∈ methods, ∀ op ∈ m.body,
      op.InRange c.record.globals.length m.locals.length) ∨ ∀ e, E e) :
    Runs κ (emitMethods methods) c
      (fun _ c' => ∃ fs, EmitsEach κ c.record.globals methods c.emitter fs c'.emitter ∧
        c'.record.functions = c.record.functions ++ fs ∧ c'.record.globals = c.record.globals ∧
        c'.interface = c.interface) E := by
  induction methods generalizing c with
  | nil => exact .pure ⟨[], .nil _, (List.append_nil _).symm, rfl, rfl⟩
  | cons m methods ih =>
    obtain ⟨hm, hrest⟩ := List.forall_mem_cons.mp hmethods
    have hbody := hbodies.imp_left fun h => (List.forall_mem_cons.mp h).1
    have hbodies := hbodies.imp_left fun h => (List.forall_mem_cons.mp h).2
    unfold emitMethods
    refine .get ?_
    have hemit := (Method.emit_acts hm hbody (hderefs [] m methods c rfl rfl)).ran.runs
    refine (Compile.emit_runs hemit).ran.bind ?_
    rintro f c₁ - ⟨hrun₁, ⟨hturns, hrun, hname, hid⟩, hsame⟩
    rw [hsame] at hrun₁ ⊢
    refine Compile.note_runs ?_
    refine .mono (ih hrest (fun before m' after c' heq hbefore => ?_) hbodies) ?_ fun _ h => h
    · refine hderefs (m :: before) m' after c' (congrArg (m :: ·) heq) ?_
      unfold emitMethods
      rw [bind_apply, get_apply]
      dsimp only
      rw [bind_apply, hrun₁]
      exact hbefore
    · rintro _ c₂ - ⟨fs, hfs, hfunctions, hglobals, hinterface⟩
      refine ⟨f :: fs, .cons hrun hturns hname hid hfs, ?_, hglobals, hinterface⟩
      rw [hfunctions, List.append_assoc]
      rfl

/-- The entry points and their modes are all that is emitted here. -/
theorem emitEntryPoint_apply (p : Program) (f : Function) (c : Compilation) :
    p.emitEntryPoint f c = .ok ()
      { emitter := c.emitter.write (p.entryStatements f c.interface)
        record := { c.record with
          entryPoint := some ⟨p.stage.models, f.id, f.name, c.interface⟩ }
        interface := c.interface } := by
  unfold emitEntryPoint
  rw [bind_apply, get_apply]
  dsimp only
  rw [Compile.forM_emit, Compile.forM_emit]
  have hpoints := Emit.forM_instruction_apply .entryPoints .entryPoint
    (fun model => model :: f.id :: Literal.ofString f.name ++ c.interface) p.stage.models c.emitter
  have hmodes := Emit.forM_instruction_apply .executionModes .executionMode
    (fun mode : ExecutionMode × List Word => f.id :: mode.1 :: mode.2) (p.options.modes p.stage)
    (c.emitter.write (p.stage.models.map fun model =>
      (.entryPoints, ⟨.entryPoint, model :: f.id :: Literal.ofString f.name ++ c.interface⟩)))
  refine (bind_of_eq_ok (Compile.emit_of_eq_ok hpoints)).trans ?_
  refine (bind_of_eq_ok rfl).trans ?_
  refine (Compile.emit_of_eq_ok hmodes).trans ?_
  rw [entryStatements, Emitter.write_append]

/-- What is said about the entry point is written as it is. -/
theorem logs_entryStatements (p : Program) (f : Function) (interface : List Id) (s : Emitter) :
    s.Logs (p.entryStatements f interface) (s.write (p.entryStatements f interface)) := by
  refine Emitter.logs_write (List.forall_mem_append.mpr ⟨?_, ?_⟩)
  · exact List.forall_mem_map.mpr fun _ _ => ⟨List.mem_of_elem_eq_true rfl, rfl⟩
  · exact List.forall_mem_map.mpr fun _ _ => ⟨List.mem_of_elem_eq_true rfl, rfl⟩

omit [Kinds.Closed κ] in
/-- What is said about the entry point is public. -/
theorem publishes_entryStatements (p : Program) {f : Function} (hname : f.name = entryPointName)
    {interface : List Id} {s : Emitter} (huses : ∀ id ∈ f.id :: interface, s.Allocated id) :
    s.Publishes κ (p.entryStatements f interface) (s.write (p.entryStatements f interface)) := by
  refine .announced (List.forall_mem_append.mpr
    ⟨List.forall_mem_map.mpr fun model _ s' hkeeps => ?_,
      List.forall_mem_map.mpr fun mode _ s' hkeeps => ?_⟩)
  · rw [hname]
    exact .entryPoint (fun id hid => (huses id hid).keep hkeeps) model
  · exact .executionMode ((huses f.id List.mem_cons_self).keep hkeeps) mode.1 mode.2

/-- A program goes through its stages, or takes turns until it is refused. If it is promising, it is
not refused for a reason that could be foreseen. -/
theorem emitModule_runs [Tolerant E] {p : Program} {o : Options} (hp : p.Within κ o)
    (hE : p.Promising ∨ ∀ e, E e) :
    Runs κ (p.emitModule o) { emitter := .start o.moduleVersion }
      (fun _ c => ∃ s₁ s₂ s₃, p.Staged κ o c s₁ s₂ s₃) E := by
  have hid : (Emitter.start o.moduleVersion).nextId ≠ 0 := by
    show Id.nth 0 ≠ 0
    decide
  unfold emitModule
  cases hcheck : p.check with
  | error e =>
    -- This is where the stage, the vertex count and the entry point are looked at.
    have he : E e := by
      rcases hE with hp | hE
      · obtain ⟨i, hi⟩ := hp.entry
        cases hcheck.symm.trans hi
      · exact hE e
    exact fun _ => .of_eq_error rfl ⟨.refl _, he⟩
  | ok i =>
    obtain ⟨-, -, m, hm, hentry⟩ := entry_of_check hcheck
    obtain ⟨entries, s₁, hrun₁, hpreamble, hentries⟩ := p.emitPreamble_apply hp.options
      (s := .start o.moduleVersion) rfl
    obtain ⟨file, hfile, rfl⟩ := hentries hid
    have hstart := Emitter.turns_declare (κ := κ) (.start o.moduleVersion) (p.baseCapabilities o)
    refine .step rfl (.bind (P := fun _ c₁ => c₁ = { emitter := s₁ }) (.of_turns
      (fun _ => Compile.emit_of_eq_ok hrun₁) (hstart.trans hpreamble.turns) rfl) ?_)
    rintro _ _ - rfl
    refine (declareFields_runs hp.fields fun f _ e he => ?_).ran.bind ?_
    · exact Tolerant.tolerates e (foreseen_of_declare he)
    rintro _ c₂ - ⟨hrun₂, vs, hvs, hglobals₂, hfunctions₂, hinterface₂⟩
    rw [List.nil_append] at hglobals₂ hinterface₂
    -- All fields are declared before the first method, so a body may refer to any of them.
    have hbodies := hE.imp_left fun hp => by
      have hinRange := hp.inRange
      rwa [hvs.length_eq, ← hglobals₂] at hinRange
    refine (emitMethods_runs hp.methods (fun before m after c' hmethods hbefore t ht => ?_)
      hbodies).bind ?_
    · have hchecked : Compile.emit (Emit.check p.check) { emitter := .start o.moduleVersion } =
          .ok i { emitter := .start o.moduleVersion } := by
        rw [hcheck]
        rfl
      exact hp.derefs t (derefs_of_method hmethods hchecked (Compile.emit_of_eq_ok hrun₁) hrun₂
        hbefore ht)
    rintro _ c₃ - ⟨fs, hfs, hfunctions₃, hglobals₃, hinterface₃⟩
    rw [hfunctions₂, List.nil_append] at hfunctions₃
    -- There is a function for every method, so the one that is entered is among them.
    obtain ⟨f, hf, hname⟩ := Function.exists_of_names hfs.names hm
    rw [← hfunctions₃] at hf
    refine .get ?_
    rw [hf]
    have huses : ∀ id ∈ f.id :: c₃.interface, c₃.emitter.Allocated id := by
      refine List.forall_mem_cons.mpr ⟨?_, fun id hid => ?_⟩
      · exact hfs.allocated f (hfunctions₃ ▸ List.mem_of_getElem? hf)
      · rw [hinterface₃, hinterface₂] at hid
        obtain ⟨v, hv, rfl⟩ := List.mem_map.mp hid
        exact (hvs.allocated v (List.mem_filter.mp hv).1).keep hfs.turns.keeps
    have hpublish := p.publishes_entryStatements (κ := κ) (hname.trans hentry) huses
    refine .of_turns (fun _ => p.emitEntryPoint_apply f c₃) hpublish.turns
      ⟨s₁, c₂.emitter, c₃.emitter, ⟨file, hfile, hpreamble⟩, ?_, ?_, ?_, i, f, hcheck, hf, rfl,
        hpublish⟩
    · rw [hglobals₃, hglobals₂]
      exact hvs
    · rw [hglobals₃, hfunctions₃]
      exact hfs
    · rw [hglobals₃, hglobals₂, hinterface₃, hinterface₂]

/-- The emission up to a place takes turns. -/
theorem emitTo_runs (p : Program) (o : Options) (before : List Method) (m : Method)
    (done : List Operation) (foreign : Prop) :
    Runs (.all foreign) (p.emitTo o before m done) { emitter := .start o.moduleVersion }
      (fun _ _ => True) fun _ => True := by
  have hplace (globals : List Variable) (s : Emitter) :
      Acts (.all foreign) (m.emitTo globals done) s (fun _ _ => True) fun _ => True := by
    refine (Method.opening_acts (m.within_all foreign) s).bind fun f s₁ _ _ => ?_
    exact Scope.run_acts (fun _ _ _ => trivial) (fun _ _ => .inr fun _ => trivial)
      fun _ _ _ _ => trivial
  unfold emitTo
  cases hcheck : p.check with
  | error e => exact fun _ => .of_eq_error rfl ⟨.refl _, trivial⟩
  | ok i =>
    obtain ⟨entries, s₁, hrun₁, hpreamble, -⟩ := p.emitPreamble_apply (κ := .all foreign) (o := o)
      ⟨fun _ _ => trivial, trivial, fun _ _ => trivial⟩ (s := .start o.moduleVersion) rfl
    have hstart := Emitter.turns_declare (κ := .all foreign) (.start o.moduleVersion)
      (p.baseCapabilities o)
    refine .step rfl (.bind (P := fun _ _ => True) (.of_turns
      (fun _ => Compile.emit_of_eq_ok hrun₁) (hstart.trans hpreamble.turns) trivial) ?_)
    rintro _ c₁ - -
    refine (declareFields_runs (fun _ _ => ⟨trivial, fun _ _ => trivial⟩)
      fun _ _ _ _ => trivial).bind ?_
    rintro _ c₂ - -
    refine (emitMethods_runs (fun m _ => m.within_all foreign) (fun _ _ _ _ _ _ _ _ _ _ => trivial)
      (.inr fun _ => trivial)).bind ?_
    rintro _ c₃ - -
    exact .get ((Compile.emit_runs (hplace _ _).runs).mono (fun _ _ _ _ => trivial) fun _ h => h)

omit [Kinds.Closed κ] in
theorem ready_start (v : Version) : (Emitter.start v).Ready κ :=
  ⟨rfl, nofun⟩

/-- Wherever a program ends, it gets there in turns. -/
theorem leads_of_emitModule {p : Program} {o : Options} (hp : p.Within κ o) :
    (Emitter.start o.moduleVersion).Leads κ
      (endState (p.emitModule o { emitter := .start o.moduleVersion })).emitter := by
  have hruns := emitModule_runs (E := fun _ => True) hp (.inr fun _ => trivial) (ready_start _)
  cases hrun : p.emitModule o { emitter := .start o.moduleVersion } with
  | ok u c => exact (hruns.of_ok hrun).1
  | error e c => exact (hruns.of_error hrun).1

/-- A program that is emitted went through its stages. -/
theorem staged_of_emitModule {p : Program} {o : Options} (hp : p.Within κ o)
    (h : p.emitModule o { emitter := .start o.moduleVersion } = .ok () c) :
    ∃ s₁ s₂ s₃, p.Staged κ o c s₁ s₂ s₃ := by
  have hruns := emitModule_runs (E := fun _ => True) hp (.inr fun _ => trivial) (ready_start _)
  exact (hruns.of_ok h).2

end Program

end ShaderStage

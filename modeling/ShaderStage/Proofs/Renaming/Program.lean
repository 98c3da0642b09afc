import ShaderStage.Proofs.Acceptance
import ShaderStage.Proofs.Renaming

/-! # Renaming

Two programs that differ only in the names of their fields, of their locals and of their methods
other than the entry point compile to modules that differ only in debug names.

* `Program.Renamed`: programs that differ in such names;
* `Program.agrees_emitModule`: their emissions run side by side;
* `compile_renamed`: their modules differ in debug names only. -/

namespace ShaderStage

/-! ## Programs that differ in names -/

/-- Only the names of the fields differ. -/
structure Field.Renamed (f g : Field) : Prop where
  type : f.type = g.type
  layout : f.layout = g.layout

/-- Only the names of the methods and of their locals differ, and both or none is called as the
entry point is. -/
structure Method.Renamed (m n : Method) : Prop where
  entry : m.name = entryPointName ↔ n.name = entryPointName
  result : m.result = n.result
  locals : m.locals.map Local.type = n.locals.map Local.type
  body : m.body = n.body

/-- Only the names of fields, locals and methods other than entry points differ. -/
structure Program.Renamed (p q : Program) : Prop where
  stage : p.stage = q.stage
  options : p.options = q.options
  fields : List.Forall₂ Field.Renamed p.fields q.fields
  methods : List.Forall₂ Method.Renamed p.methods q.methods

/-! ## Bodies -/

/-- Both checks succeed, with the same result, or both fail. -/
theorem Emit.agrees_check {α : Type} {e e' : Except CompileError α}
    (h : e.toOption = e'.toOption) : Agrees Eq (check e) (check e') := by
  cases e with
  | ok a =>
    cases e' with
    | ok b => exact .pure (Option.some.inj h)
    | error e' => cases h
  | error e =>
    cases e' with
    | ok b => cases h
    | error e' => exact .refuse _ _

namespace Scope

/-- The scopes differ in names only. -/
structure Twin (Γ Δ : Scope) : Prop where
  result : Γ.method.result = Δ.method.result
  globals : Γ.globals.map Variable.erase = Δ.globals.map Variable.erase
  locals : Γ.locals.map Variable.erase = Δ.locals.map Variable.erase

variable {Γ Δ : Scope}

theorem agrees_refuse {α β : Type} {R : α → β → Prop} (i : Nat) (f f' : OperationFault) :
    Agrees R (Γ.refuse i f) (Δ.refuse i f') :=
  .refuse _ _

/-- Variables found at one position differ in their names only. -/
theorem agrees_elementAt {xs ys : List Variable} (h : xs.map Variable.erase = ys.map Variable.erase)
    (i : Nat) (position : Int) (f : OperationFault) :
    Agrees (fun v w => v.erase = w.erase)
      (match elementAt? xs position with
        | some v => pure v
        | none => Γ.refuse i f)
      (match elementAt? ys position with
        | some v => pure v
        | none => Δ.refuse i f) := by
  have helement : (elementAt? xs position).map Variable.erase =
      (elementAt? ys position).map Variable.erase := by
    rw [← elementAt?_map, ← elementAt?_map, h]
  cases hx : elementAt? xs position with
  | none =>
    rw [hx] at helement
    rw [Option.map_eq_none_iff.mp helement.symm]
    exact agrees_refuse _ _ _
  | some v =>
    rw [hx] at helement
    obtain ⟨w, hw, hvw⟩ := Option.map_eq_some_iff.mp helement.symm
    rw [hw]
    exact .pure hvw.symm

/-- The same field is found, up to its name. -/
theorem agrees_field (h : Γ.Twin Δ) (i : Nat) (position : Int) :
    Agrees (fun v w => v.erase = w.erase) (Γ.field i position) (Δ.field i position) :=
  agrees_elementAt h.globals _ _ _

/-- The same local is found, up to its name. -/
theorem agrees_localVariable (h : Γ.Twin Δ) (i : Nat) (position : Int) :
    Agrees (fun v w => v.erase = w.erase) (Γ.localVariable i position)
      (Δ.localVariable i position) :=
  agrees_elementAt h.locals _ _ _

theorem agrees_pop (i : Nat) (stack : List Id) : Agrees Eq (Γ.pop i stack) (Δ.pop i stack) := by
  cases stack with
  | nil => exact agrees_refuse _ _ _
  | cons top rest => exact .pure rfl

theorem agrees_replace (i : Nat) (stack : List Id) (f : Id → Emit Id) [hf : ∀ a, Blind (f a)] :
    Agrees Eq (Γ.replace i stack f) (Δ.replace i stack f) := by
  refine (agrees_pop i stack).bind ?_
  rintro ⟨top, rest⟩ _ rfl
  exact Blind.agrees

theorem agrees_storeTo (i : Nat) (stack : List Id) {v w : Variable} (h : v.erase = w.erase) :
    Agrees Eq (Γ.storeTo i stack v) (Δ.storeTo i stack w) := by
  have hid : v.erase.id = w.erase.id := congrArg Variable.id h
  refine (agrees_pop i stack).bind ?_
  rintro ⟨value, rest⟩ _ rfl
  have hstore : Emit.store v.id value = Emit.store w.id value := congrArg (Emit.store · value) hid
  dsimp only
  rw [hstore]
  exact Blind.agrees

theorem agrees_ret (h : Γ.Twin Δ) (i : Nat) (stack : List Id) :
    Agrees Eq (Γ.ret i stack) (Δ.ret i stack) := by
  have hret : Blind Emit.ret := Emit.blind_instruction ..
  have hvalue : ∀ value, Blind (Emit.returnValue value) := fun _ => Emit.blind_instruction ..
  unfold ret
  rw [h.result]
  split
  · exact Blind.agrees
  · refine (agrees_pop i stack).bind ?_
    rintro ⟨value, rest⟩ _ rfl
    refine (Emit.agrees_binding value).bind fun b b' hkey => ?_
    rw [hkey]
    split
    · exact Blind.agrees
    · exact agrees_refuse _ _ _

theorem agrees_construct (i : Nat) (stack : List Id) (type : Ty) (count : Int) :
    Agrees Eq (Γ.construct i stack type count) (Δ.construct i stack type count) := by
  unfold construct
  split
  · exact Blind.agrees
  · exact agrees_refuse _ _ _

/-- An operation does the same whatever the names are. -/
theorem agrees_step (h : Γ.Twin Δ) (i : Nat) (stack : List Id) (op : Operation) :
    Agrees Eq (Γ.step i stack op) (Δ.step i stack op) := by
  have hpush : ∀ {v w : Variable}, v.erase = w.erase →
      Agrees Eq (pure (.running (v.id :: stack)) : Emit Progress)
        (pure (.running (w.id :: stack))) := by
    intro v w hvw
    exact .pure (congrArg (Progress.running <| ·.id :: stack) hvw)
  cases op with
  | loadField position => exact (agrees_field h i position).bind fun _ _ hvw => hpush hvw
  | loadLocal position => exact (agrees_localVariable h i position).bind fun _ _ hvw => hpush hvw
  | storeField position =>
    exact (agrees_field h i position).bind fun _ _ hvw => agrees_storeTo i stack hvw
  | storeLocal position =>
    exact (agrees_localVariable h i position).bind fun _ _ hvw => agrees_storeTo i stack hvw
  | store =>
    refine (agrees_pop i stack).bind ?_
    rintro ⟨value, rest⟩ _ rfl
    refine (agrees_pop i rest).bind ?_
    rintro ⟨pointer, rest⟩ _ rfl
    exact Blind.agrees
  | deref => exact agrees_replace i stack Emit.load
  | pushUint value => exact Agrees.seq (x := Emit.constantUint value) fun _ => .pure rfl
  | pushFloat bits => exact Agrees.seq (x := Emit.constantFloat bits) fun _ => .pure rfl
  | extract component => exact agrees_replace i stack (Emit.extract · component)
  | extract2 row col => exact agrees_replace i stack (Emit.extract2 · row col)
  | access component => exact agrees_replace i stack (Emit.access · component)
  | construct type count => exact agrees_construct i stack type count
  | math function => exact agrees_replace i stack (Emit.math function)
  | narrowVec4 => exact agrees_replace i stack Emit.narrowVec4
  | narrowMat4 => exact agrees_replace i stack Emit.narrowMat4
  | binary operator =>
    refine (agrees_pop i stack).bind ?_
    rintro ⟨right, rest⟩ _ rfl
    refine (agrees_pop i rest).bind ?_
    rintro ⟨left, rest⟩ _ rfl
    exact Blind.agrees
  | dup =>
    refine (agrees_pop i stack).bind ?_
    rintro ⟨top, rest⟩ _ rfl
    exact .pure rfl
  | pop =>
    refine (agrees_pop i stack).bind ?_
    rintro ⟨top, rest⟩ _ rfl
    exact .pure rfl
  | ret => exact agrees_ret h i stack
  | missing => exact agrees_refuse _ _ _

/-- So does a sequence of operations, because each leaves the same stack. -/
theorem agrees_run (h : Γ.Twin Δ) (ops : List Operation) (i : Nat) (progress : Progress) :
    Agrees Eq (Γ.run i progress ops) (Δ.run i progress ops) := by
  induction ops generalizing i progress with
  | nil =>
    unfold run
    exact .pure rfl
  | cons op rest ih =>
    cases progress with
    | returned =>
      unfold run
      exact agrees_refuse _ _ _
    | running stack =>
      unfold run
      refine (agrees_step h i stack op).bind ?_
      rintro progress _ rfl
      exact ih (i + 1) progress

end Scope

/-! ## Methods and fields -/

/-- The functions have one id, and both or none is called as the entry point is. -/
structure Function.Twin (f g : Function) : Prop where
  id : f.id = g.id
  entry : f.name = entryPointName ↔ g.name = entryPointName

namespace Method

/-- Locals of the same types are declared as the same variables, up to their names. -/
theorem agrees_declareLocals {m n : Method} {locals locals' : List Local}
    (h : locals.map Local.type = locals'.map Local.type) (i : Nat) :
    Agrees (fun vs ws => vs.map Variable.erase = ws.map Variable.erase)
      (m.declareLocals i locals) (n.declareLocals i locals') := by
  induction locals generalizing locals' i with
  | nil =>
    obtain rfl := List.map_eq_nil_iff.mp h.symm
    exact .pure rfl
  | cons l rest ih =>
    obtain ⟨l', rest', rfl, htype, hrest⟩ := List.map_eq_cons_iff.mp h.symm
    unfold declareLocals Emit.localVariable
    rw [htype]
    dsimp only
    split
    · exact .refuse _ _
    · refine .seq fun type => .seq fun id => ?_
      refine (Emit.agrees_name _ _ _).bind fun _ _ _ => ?_
      refine (Emit.agrees_bind _ _ _ _).bind fun _ _ _ => ?_
      refine (ih hrest.symm (i + 1)).bind fun vs ws hvs => .pure ?_
      rw [List.map_cons, List.map_cons, hvs]
      rfl

/-- Methods with the same result end the same way. -/
theorem agrees_emitEnding {m n : Method} (h : m.result = n.result) (progress : Progress) :
    Agrees Eq (m.emitEnding progress) (n.emitEnding progress) := by
  cases progress with
  | returned => exact .pure rfl
  | running stack =>
    have hret : Blind Emit.ret := Emit.blind_instruction ..
    show Agrees Eq (if m.result.isVoid then Emit.ret else Emit.refuse (.missingReturn m.name))
      (if n.result.isVoid then Emit.ret else Emit.refuse (.missingReturn n.name))
    rw [h]
    split
    · exact Blind.agrees
    · exact .refuse _ _

/-- Methods that differ in names are emitted as functions that differ in names. -/
theorem agrees_emit {m n : Method} (h : m.Renamed n) {globals globals' : List Variable}
    (hglobals : globals.map Variable.erase = globals'.map Variable.erase) :
    Agrees Function.Twin (m.emit globals) (n.emit globals') := by
  have hfunction : ∀ type result, Blind (Emit.function type result 0) :=
    fun _ _ => Emit.blind_typedResult ..
  have hlabel : Blind Emit.label := Emit.blind_result ..
  have hend : Blind Emit.functionEnd := Emit.blind_instruction ..
  unfold emit
  rw [h.result, h.body]
  refine .seq fun result => .seq fun type => .seq fun id => ?_
  refine (Emit.agrees_name _ _ _).bind fun _ _ _ => .seq fun _ => ?_
  refine (agrees_declareLocals h.locals 0).bind fun vs ws hlocals => ?_
  refine (Scope.agrees_run ⟨h.result, hglobals, hlocals⟩ _ _ _).bind ?_
  rintro progress _ rfl
  refine (agrees_emitEnding h.result progress).bind fun _ _ _ => .seq fun _ => ?_
  exact .pure ⟨rfl, h.entry⟩

end Method

namespace Field

/-- Fields that differ in names have the same place. -/
theorem agrees_resolve {f g : Field} (h : f.Renamed g) :
    Agrees Eq (Emit.check f.resolve) (Emit.check g.resolve) := by
  refine Emit.agrees_check ?_
  unfold resolve
  rw [h.layout]
  -- The name of the field is only in the error about specialization constants.
  split
  · rfl
  · split <;> rfl

/-- Fields that differ in names are declared as the same variable, up to its name. -/
theorem agrees_declare {f g : Field} (h : f.Renamed g) (r : Resolution) :
    Agrees (fun v w => v.erase = w.erase) (f.declare r) (g.declare r) := by
  obtain ⟨name, type, layout⟩ := f
  obtain ⟨name', type', layout'⟩ := g
  obtain rfl : type = type' := h.type
  have hvariable : ∀ T storage, Blind (Emit.globalVariable T storage) :=
    fun _ _ => Emit.blind_typedResult ..
  have hdecorate : ∀ id, Blind (r.decorate id) := fun _ => blind_forM ..
  have hmark : ∀ storage, Agrees Eq (markBlock ⟨name, type, layout⟩ storage)
      (markBlock ⟨name', type, layout'⟩ storage) := by
    intro storage
    show Agrees Eq (markBlock ⟨name, type, layout⟩ storage)
      (markBlock ⟨name, type, layout⟩ storage)
    unfold markBlock
    cases type <;> exact Blind.agrees
  refine .seq fun T => .seq fun id => ?_
  refine (Emit.agrees_name _ _ _).bind fun _ _ _ => ?_
  refine (Emit.agrees_bind _ _ _ _).bind fun _ _ _ => ?_
  refine (hmark _).bind fun _ _ _ => .seq fun _ => .seq fun _ => ?_
  exact .pure rfl

end Field

/-! ## Whole programs -/

/-- The compilations differ in names only, and in what nothing is emitted from. -/
structure Compilation.Twin (c d : Compilation) : Prop where
  emitter : c.emitter.Twin d.emitter
  globals : c.record.globals.map Variable.erase = d.record.globals.map Variable.erase
  functions : List.Forall₂ Function.Twin c.record.functions d.record.functions
  interface : c.interface = d.interface

namespace Compile

variable {α β : Type} {R : α → β → Prop} {c d : Compilation}

/-- Code that agrees on emitters agrees on compilations. -/
theorem agrees_emit {x : Emit α} {y : Emit β} (h : Agrees R x y) (hcd : c.Twin d) :
    ResultsAgree Compilation.Twin R (emit x c) (emit y d) := by
  have hresults := h _ _ hcd.emitter
  unfold emit EStateM.run
  generalize x c.emitter = rx at hresults
  generalize y d.emitter = ry at hresults
  cases hresults with
  | ok hR hE => exact .ok hR ⟨hE, hcd.globals, hcd.functions, hcd.interface⟩
  | refused => exact .refused
  | fault => exact .fault

/-- Code that does not look at names agrees with itself. -/
theorem agrees_blind {x : Emit α} [hx : Blind x] (hcd : c.Twin d) :
    ResultsAgree Compilation.Twin Eq (emit x c) (emit x d) :=
  agrees_emit hx.agrees hcd

end Compile

/-- Related lists have related elements at each position, or none. -/
theorem forall₂_getElem?_cases {α β : Type} {R : α → β → Prop} {xs : List α} {ys : List β}
    (h : List.Forall₂ R xs ys) (i : Nat) :
    xs[i]? = none ∧ ys[i]? = none ∨ ∃ a b, xs[i]? = some a ∧ ys[i]? = some b ∧ R a b := by
  induction h generalizing i with
  | nil => exact .inl ⟨rfl, rfl⟩
  | cons hab _ ih =>
    cases i with
    | zero => exact .inr ⟨_, _, rfl, rfl, hab⟩
    | succ i => exact ih i

namespace Program

variable {c d : Compilation}

/-- A variable is listed whatever it is called. -/
theorem agrees_enlist {r : Resolution} {v w : Variable} (hvw : v.erase = w.erase)
    (hcd : c.Twin d) :
    ResultsAgree Compilation.Twin Eq (Compile.enlist r v c) (Compile.enlist r w d) := by
  have hid : v.id = w.id := (congrArg Variable.id hvw :)
  have hstorage : v.storage = w.storage := (congrArg Variable.storage hvw :)
  refine .ok rfl ⟨hcd.emitter, hcd.globals, hcd.functions, ?_⟩
  show c.interface ++ _ = d.interface ++ _
  rw [hcd.interface, hid, hstorage]

/-- Fields that differ in names are declared alike. -/
theorem agrees_declareFields {fields fields' : List Field}
    (h : List.Forall₂ Field.Renamed fields fields') (hcd : c.Twin d) :
    ResultsAgree Compilation.Twin Eq (declareFields fields c) (declareFields fields' d) := by
  induction h generalizing c d with
  | nil => exact .ok rfl hcd
  | cons hfg _ ih =>
    have hnote : ∀ {f g : Field}, Compilation.Twin
        { c with record := { c.record with warnings := c.record.warnings ++ f.warnings } }
        { d with record := { d.record with warnings := d.record.warnings ++ g.warnings } } :=
      ⟨hcd.emitter, hcd.globals, hcd.functions, hcd.interface⟩
    unfold declareFields
    refine ResultsAgree.bind (R := Eq) (.ok rfl hnote) fun _ _ c₁ d₁ _ _ _ h₁ => ?_
    refine (Compile.agrees_emit (Field.agrees_resolve hfg) h₁).bind ?_
    rintro r _ c₂ d₂ - - rfl h₂
    refine (Compile.agrees_emit (Field.agrees_declare hfg r) h₂).bind ?_
    rintro v w c₃ d₃ - - hvw h₃
    refine (agrees_enlist hvw h₃).bind fun _ _ c₄ d₄ _ _ _ h₄ => ?_
    refine ResultsAgree.bind (R := Eq) (.ok rfl ⟨h₄.emitter, ?_, h₄.functions, h₄.interface⟩)
      fun _ _ _ _ _ _ _ h₅ => ih h₅
    show (c₄.record.globals ++ [v]).map Variable.erase = (d₄.record.globals ++ [w]).map _
    rw [List.map_append, List.map_append, h₄.globals, List.map_singleton, List.map_singleton, hvw]

/-- Methods that differ in names are emitted alike. -/
theorem agrees_emitMethods {methods methods' : List Method}
    (h : List.Forall₂ Method.Renamed methods methods') (hcd : c.Twin d) :
    ResultsAgree Compilation.Twin Eq (emitMethods methods c) (emitMethods methods' d) := by
  induction h generalizing c d with
  | nil => exact .ok rfl hcd
  | cons hmn _ ih =>
    unfold emitMethods
    refine ResultsAgree.bind (R := Compilation.Twin) (.ok hcd hcd) fun c₁ d₁ c₂ d₂ _ _ h₁ h₂ => ?_
    refine (Compile.agrees_emit (Method.agrees_emit hmn h₁.globals) h₂).bind ?_
    rintro f g c₃ d₃ - - hfg h₃
    refine ResultsAgree.bind (R := Eq) (.ok rfl ⟨h₃.emitter, h₃.globals, ?_, h₃.interface⟩)
      fun _ _ _ _ _ _ _ h₄ => ih h₄
    exact List.rel_append h₃.functions (.cons hfg .nil)

/-- The entry point is announced alike, since it keeps its name. -/
theorem agrees_emitEntryPoint {p q : Program} (h : p.Renamed q) {f g : Function}
    (hid : f.id = g.id) (hname : f.name = g.name) (hcd : c.Twin d) :
    ResultsAgree Compilation.Twin Eq (p.emitEntryPoint f c) (q.emitEntryPoint g d) := by
  have hpoint : ∀ interface model, Blind (Emit.entryPoint model g.id g.name interface) :=
    fun _ _ => Emit.blind_instruction ..
  have hmode : ∀ mode : ExecutionMode × List Word, Blind (Emit.executionMode g.id mode.1 mode.2) :=
    fun _ => Emit.blind_instruction ..
  unfold emitEntryPoint
  rw [h.stage, h.options, hid, hname]
  refine ResultsAgree.bind (R := Compilation.Twin) (.ok hcd hcd) fun c₁ d₁ c₂ d₂ _ _ h₁ h₂ => ?_
  dsimp only
  rw [h₁.interface, Compile.forM_emit, Compile.forM_emit]
  refine (Compile.agrees_blind h₂).bind fun _ _ c₃ d₃ _ _ _ h₃ => ?_
  refine ResultsAgree.bind (R := Eq) (.ok rfl ⟨h₃.emitter, h₃.globals, h₃.functions, h₃.interface⟩)
    fun _ _ _ _ _ _ _ h₄ => ?_
  exact Compile.agrees_emit (blind_forM ..).agrees h₄

/-- The same checks fail, and the entry point is at the same position. -/
theorem agrees_check {p q : Program} (h : p.Renamed q) :
    Agrees Eq (Emit.check p.check) (Emit.check q.check) := by
  -- Renaming leaves alone which methods bear the name of the entry point.
  have hindex : ∀ {ms ns : List Method}, List.Forall₂ Method.Renamed ms ns →
      ms.findIdx? (·.name = entryPointName) = ns.findIdx? (·.name = entryPointName) := by
    intro ms ns hmethods
    induction hmethods with
    | nil => rfl
    | cons hmn _ ih =>
      rw [List.findIdx?_cons, List.findIdx?_cons, ih]
      simp only [hmn.entry]
  refine Emit.agrees_check ?_
  unfold check entryIndex?
  rw [h.stage, h.options, hindex h.methods]
  split
  · rfl
  · split
    · rfl
    · split <;> rfl

/-- The function at the position of the entry point is called as it is. -/
theorem entry_name {p : Program} {o : Options} {v : Version} {i : Nat} {c₁ c₂ c₃ c₄ : Compilation}
    {u₂ u₃ u₄ : Unit}
    (hcheck : Compile.emit (Emit.check p.check) { emitter := .start v } = .ok i c₁)
    (hpreamble : Compile.emit (p.emitPreamble o) c₁ = .ok u₂ c₂)
    (hfields : declareFields p.fields c₂ = .ok u₃ c₃)
    (hmethods : emitMethods p.methods c₃ = .ok u₄ c₄) {f : Function}
    (hf : c₄.record.functions[i]? = some f) : f.name = entryPointName := by
  obtain ⟨s₁, hrun, rfl⟩ := Compile.emit_eq_ok hcheck
  have hchecked : p.check = .ok i := by
    cases hp : p.check with
    | ok j =>
      rw [hp] at hrun
      cases hrun
      rfl
    | error e =>
      rw [hp] at hrun
      cases hrun
  obtain ⟨s₂, -, rfl⟩ := Compile.emit_eq_ok hpreamble
  have hopen₁ : s₁.IsOpen :=
    Growing.isOpen (σ := Compilation) (show (Emitter.start v).IsOpen from rfl) hcheck
  have hopen₂ : s₂.IsOpen := Growing.isOpen (σ := Compilation) hopen₁ hpreamble
  have hopen₃ : c₃.emitter.IsOpen := Growing.isOpen hopen₂ hfields
  have hfields' := declareFields_runs (κ := .all False) (E := fun _ => True)
    (fun f (_ : f ∈ p.fields) => ⟨trivial, fun _ _ => trivial⟩) (fun _ _ _ _ => trivial)
    (c := { emitter := s₂ }) (Emitter.ready_all hopen₂ False)
  have hmethods' := emitMethods_runs (κ := .all False) (E := fun _ => True)
    (fun m (_ : m ∈ p.methods) => m.within_all False) (fun _ _ _ _ _ _ _ _ _ _ => trivial)
    (.inr fun _ => trivial) (c := c₃) (Emitter.ready_all hopen₃ False)
  obtain ⟨-, vs, -, -, hfunctions₃, -⟩ := hfields'.of_ok hfields
  obtain ⟨-, fs, hemits, hfunctions₄, -⟩ := hmethods'.of_ok hmethods
  obtain ⟨-, -, m, hm, hname⟩ := entry_of_check hchecked
  have hall : c₄.record.functions = fs := by
    rw [hfunctions₄, hfunctions₃]
    rfl
  have hnames := congrArg (·[i]?) hemits.names
  rw [← hall] at hnames
  simp only [List.getElem?_map, hf, hm, Option.map_some, Option.some.injEq] at hnames
  rw [hnames, hname]

/-- Programs that differ in names are emitted alike. -/
theorem agrees_emitModule {p q : Program} (h : p.Renamed q) (o : Options) (v : Version) :
    ResultsAgree Compilation.Twin Eq (p.emitModule o { emitter := .start v })
      (q.emitModule o { emitter := .start v }) := by
  have hstart : Compilation.Twin { emitter := .start v } { emitter := .start v } :=
    ⟨rfl, rfl, .nil, rfl⟩
  have hextension : ∀ name, Blind (Emit.extension name) := fun _ => Emit.blind_instruction ..
  have hmemory : ∀ a m, Blind (Emit.memoryModel a m) := fun _ _ => Emit.blind_instruction ..
  have hstring : ∀ text, Blind (Emit.string text) := fun _ => Emit.blind_result ..
  have hsource : ∀ l v f, Blind (Emit.source l v f) := fun _ _ _ => Emit.blind_instruction ..
  have hsourceExtension : ∀ name, Blind (Emit.sourceExtension name) :=
    fun _ => Emit.blind_instruction ..
  have hpreamble : Agrees Eq (p.emitPreamble o) (q.emitPreamble o) := by
    unfold emitPreamble
    rw [h.stage]
    dsimp only
    exact .seq fun _ => .seq fun _ => .seq fun _ => .seq fun _ => Blind.agrees
  unfold emitModule
  refine (Compile.agrees_emit (agrees_check h) hstart).bind ?_
  rintro i _ c₁ d₁ hcheck - rfl h₁
  refine (Compile.agrees_emit hpreamble h₁).bind fun _ _ c₂ d₂ hpre hpre' _ h₂ => ?_
  refine (agrees_declareFields h.fields h₂).bind fun _ _ c₃ d₃ hfields hfields' _ h₃ => ?_
  refine (agrees_emitMethods h.methods h₃).bind fun _ _ c₄ d₄ hmethods hmethods' _ h₄ => ?_
  refine ResultsAgree.bind (R := Compilation.Twin) (.ok h₄ h₄) ?_
  rintro c₅ d₅ c₆ d₆ ⟨⟩ ⟨⟩ h₅ -
  rcases forall₂_getElem?_cases h₄.functions i with ⟨hnone, hnone'⟩ | ⟨f, g, hf, hg, hfg⟩
  · rw [hnone, hnone']
    exact .refused
  · rw [hf, hg]
    -- The function that is entered bears a name that renaming keeps.
    have hname := entry_name hcheck hpre hfields hmethods hf
    exact agrees_emitEntryPoint h hfg.id (hname.trans (hfg.entry.mp hname).symm) h₅

end Program

/-! ## Modules -/

namespace Emitter

variable {s t : Emitter}

/-- Erasing names takes them out of every section. -/
theorem emitted_erase (hs : s.draft.WellFilled) (part : Section) :
    s.erase.draft.emitted part = (s.draft.emitted part).filter (·.opcode ≠ .name) := by
  have honly : ∀ part ∈ Section.order, Opcode.name ∈ part.opcodes → part = .names := by decide
  have hfilter : (s.draft.emitted part).filter (·.opcode ≠ .name) =
      (s.draft.emitted part).filter fun i => !isLabel (part, i) := by
    refine List.filter_congr fun i hi => ?_
    have hop := hs.parts _ (Draft.mem_emitted.mp hi)
    by_cases hname : i.opcode = .name
    · rw [hname] at hop
      simp [isLabel, hname, honly part part.mem_order hop]
    · simp [isLabel, hname]
  rw [hfilter]
  unfold erase Draft.emitted
  dsimp only
  rw [Array.toList_filter, List.filterMap_filter, List.filter_filterMap]
  refine List.filterMap_congr fun e _ => ?_
  obtain ⟨part', i⟩ := e
  by_cases hpart : part' = part
  · subst hpart
    cases hlabel : isLabel (part', i) <;> simp [hlabel, Option.filter]
  · simp [hpart]

/-- The instructions other than names are those that are left when names are forgotten. -/
theorem instructions_erase (hs : s.draft.WellFilled) :
    s.erase.draft.instructions = s.draft.instructions.filter (·.opcode ≠ .name) := by
  unfold Draft.instructions
  rw [List.filter_flatMap]
  refine List.flatMap_congr fun part _ => ?_
  unfold Draft.contents
  rw [emitted_erase hs]
  split
  · rename_i hpart
    -- A memory model is no name, so the last one is the same.
    have hall : ∀ i ∈ s.draft.emitted part, i.opcode ≠ .name := by
      intro i hi hname
      have hop : i.opcode ∈ part.opcodes := hs.parts _ (Draft.mem_emitted.mp hi)
      rw [hpart, hname] at hop
      exact absurd hop (by decide)
    have hlast : ∀ i ∈ (s.draft.emitted part).getLast?.toList, i.opcode ≠ .name :=
      fun i hi => hall i (List.mem_of_getLast? (Option.mem_toList.mp hi))
    rw [List.filter_eq_self.mpr fun i hi => decide_eq_true (hall i hi),
      List.filter_eq_self.mpr fun i hi => decide_eq_true (hlast i hi)]
  · rfl

/-- Emitters that differ in names have the same instructions but for names. -/
theorem Twin.instructions (h : s.Twin t) (hs : s.draft.WellFilled) (ht : t.draft.WellFilled) :
    s.draft.instructions.filter (·.opcode ≠ .name) =
      t.draft.instructions.filter (·.opcode ≠ .name) := by
  rw [← instructions_erase hs, ← instructions_erase ht, h]

/-- Emitters that differ in names have the same header. -/
theorem Twin.header (h : s.Twin t) : s.draft.toModule.header = t.draft.toModule.header := by
  have hversion : s.draft.version = t.draft.version := congrArg (·.draft.version) h
  rw [Draft.toModule, Draft.toModule, hversion, h.ids]

end Emitter

/-- The words of a module that was emitted, unless an instruction is too long. -/
theorem words_of_emitModule {p : Program} {o : Options} {c : Compilation}
    (h : p.emitModule o { emitter := .start o.moduleVersion } = .ok () c) :
    (compile (some p) o).words = c.emitter.draft.assemble.1.mapError Failure.fault := by
  unfold compile Program.compile EStateM.run
  simp only [bind_apply, h, Compile.emit, EStateM.run, Emit.assemble, get_apply, modify_apply]
  cases c.emitter.draft.assemble.1 <;> rfl

/-- A module that is not emitted gives no words. -/
theorem words_of_emitModule_error {p : Program} {o : Options} {c : Compilation} {e : Failure}
    (h : p.emitModule o { emitter := .start o.moduleVersion } = .error e c) :
    (compile (some p) o).words = .error e := by
  unfold compile Program.compile EStateM.run
  simp only [bind_apply, h]

/-- Of two programs that differ in names only, both compile or neither does, apart from instructions
that are too long. If one compiles, the other does too unless one of its names is too long, and then
the two modules have one header and the same instructions, debug names apart. -/
theorem compile_renamed {p q : Program} (h : p.Renamed q) (o : Options) :
    ((compile (some p) o).Passed ↔ (compile (some q) o).Passed) ∧
      ∀ words, (compile (some p) o).words = .ok words →
        (∃ count, 65535 < count ∧
          (compile (some q) o).words = .error (.fault (.tooLong .name count))) ∨
        ∃ words' m m', (compile (some q) o).words = .ok words' ∧
          Module.decode words = .ok m ∧ Module.decode words' = .ok m' ∧ m.header = m'.header ∧
          m.instructions.filter (·.opcode ≠ .name) = m'.instructions.filter (·.opcode ≠ .name) := by
  have hagree := Program.agrees_emitModule h o o.moduleVersion
  generalize hp : p.emitModule o { emitter := .start o.moduleVersion } = rp at hagree
  generalize hq : q.emitModule o { emitter := .start o.moduleVersion } = rq at hagree
  cases hagree with
  | refused =>
    have hp' := refused_of_emitModule hp
    have hq' := refused_of_emitModule hq
    refine ⟨⟨fun hpass => ?_, fun hpass => ?_⟩, fun words hwords => ?_⟩
    · exact absurd hp' (hpass.not_refused _)
    · exact absurd hq' (hpass.not_refused _)
    · rw [hp'] at hwords
      cases hwords
  | fault =>
    have hp' := words_of_emitModule_error hp
    have hq' := words_of_emitModule_error hq
    refine ⟨?_, fun words hwords => ?_⟩
    · rw [Outcome.Passed, Outcome.Passed, hp', hq']
    · rw [hp'] at hwords
      cases hwords
  | @ok _ _ c d _ hcd =>
    have hc := wellFilled_of_emitModule hp
    have hd := wellFilled_of_emitModule hq
    have hsame := hcd.emitter.instructions hc hd
    refine ⟨⟨fun _ => passed_of_emitModule hq hd.isOpen,
      fun _ => passed_of_emitModule hp hc.isOpen⟩, fun words hwords => ?_⟩
    obtain ⟨c', hp', hassembled, -⟩ := emitModule_of_compile hwords
    cases hp.symm.trans hp'
    rw [words_of_emitModule hq]
    cases hassembled' : d.emitter.draft.assemble.1 with
    | ok words' =>
      refine .inr ⟨words', _, _, rfl, Draft.decode_assemble hassembled,
        Draft.decode_assemble hassembled', hcd.emitter.header, ?_⟩
      rw [Draft.instructions_toModule, Draft.instructions_toModule]
      exact hsame
    | error fault =>
      obtain ⟨i, hi, hlong, rfl⟩ := Draft.assemble_eq_error hd.isOpen hassembled'
      -- Whatever is no name stands in both modules, and fits in the first.
      have hname : i.opcode = .name := by
        by_contra hne
        have hmem : i ∈ c.emitter.draft.instructions.filter (·.opcode ≠ .name) := by
          rw [hsame]
          exact List.mem_filter.mpr ⟨hi, decide_eq_true hne⟩
        exact absurd hlong (Nat.not_lt.mpr
          (Draft.fits_of_assemble hassembled i (List.mem_of_mem_filter hmem)))
      rw [hname]
      exact .inl ⟨_, hlong, rfl⟩

/-- The program without names, apart from the one of its entry point. -/
def Program.anonymous (p : Program) : Program :=
  { p with
    fields := p.fields.map fun f => { f with name := "" }
    methods := p.methods.map fun m =>
      { m with
        name := if m.name = entryPointName then entryPointName else ""
        locals := m.locals.map fun l => { l with name := "" } } }

/-- Taking the names away is a renaming. -/
theorem Program.renamed_anonymous (p : Program) : p.Renamed p.anonymous where
  stage := rfl
  options := rfl
  fields := List.forall₂_map_right_iff.mpr (List.forall₂_same.mpr fun _ _ => ⟨rfl, rfl⟩)
  methods := by
    refine List.forall₂_map_right_iff.mpr (List.forall₂_same.mpr fun m _ => ⟨?_, rfl, ?_, rfl⟩)
    · by_cases hname : m.name = entryPointName
      · simp [hname]
      · have hempty : "" ≠ entryPointName := by decide
        simp [hname, hempty]
    · rw [List.map_map]
      rfl

theorem compile_renamed_tint : Program.tint.Renamed Program.tint.anonymous ∧
    (compile (some .tint) {}).Passed ∧ (compile (some Program.tint.anonymous) {}).Passed := by
  have hpassed : (compile (some .tint) {}).Passed := .inl compile_tint
  have hrenamed := Program.tint.renamed_anonymous
  exact ⟨hrenamed, hpassed, (compile_renamed hrenamed {}).1.mp hpassed⟩

end ShaderStage

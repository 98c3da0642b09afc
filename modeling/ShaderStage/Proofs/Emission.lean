import ShaderStage.Proofs.Turns.Module

/-! # Every emission grows the draft

Turns let the draft grow, so whatever is emitted does, whether or not it succeeds, as long as the
supply of ids is open. Computations with this property are closed under everything that they are
made of, so that it can be used in the middle of one:

* `Growing`: the computation lets the draft grow;
* `Program.passes_emitModule`: nothing that is emitted up to a place is lost later. -/

namespace ShaderStage

/-! ## Computations -/

section

open HasEmitter (emitter draft)

variable {σ α β : Type} [HasEmitter σ]

/-- From an open emitter on, the computation lets the draft grow. -/
class Growing (x : EStateM Failure σ α) : Prop where
  grows : ∀ c, (emitter c).IsOpen → (draft c).Grows (draft (endState (x c)))

/-- An open supply stays open. -/
theorem Growing.isOpen {x : EStateM Failure σ α} [h : Growing x] {c c' : σ} {a : α}
    (hc : (emitter c).IsOpen) (hrun : x c = .ok a c') : (emitter c').IsOpen := by
  have hgrows := h.grows c hc
  rw [hrun] at hgrows
  exact hgrows.closed.trans hc

instance growing_pure (a : α) : Growing (pure a : EStateM Failure σ α) :=
  ⟨fun _ _ => .refl _⟩

instance growing_throw (e : Failure) : Growing (throw e : EStateM Failure σ α) :=
  ⟨fun _ _ => .refl _⟩

instance growing_get : Growing (get : EStateM Failure σ σ) :=
  ⟨fun _ _ => .refl _⟩

instance growing_bind (x : EStateM Failure σ α) (f : α → EStateM Failure σ β) [g : Growing x]
    [k : ∀ a, Growing (f a)] : Growing (x >>= f) := by
  refine ⟨fun c hc => ?_⟩
  have hgrow := g.grows c hc
  rw [bind_apply]
  cases hrun : x c with
  | ok a c' =>
    have hopen := g.isOpen hc hrun
    rw [hrun] at hgrow
    exact hgrow.trans ((k a).grows c' hopen)
  | error e c' =>
    rw [hrun] at hgrow
    exact hgrow

instance growing_ite (p : Prop) [Decidable p] (x y : EStateM Failure σ α) [hx : Growing x]
    [hy : Growing y] : Growing (if p then x else y) := by
  split
  · exact hx
  · exact hy

instance growing_forM (xs : List α) (f : α → EStateM Failure σ PUnit) [hf : ∀ a, Growing (f a)] :
    Growing (xs.forM f) := by
  induction xs with
  | nil => exact growing_pure _
  | cons x rest ih =>
    show Growing (f x >>= fun _ => rest.forM f)
    infer_instance

theorem growing_modify {f : σ → σ} (hf : ∀ c, draft (f c) = draft c) :
    Growing (modify f : EStateM Failure σ PUnit) := by
  refine ⟨fun c _ => ?_⟩
  show (draft c).Grows (draft (f c))
  rw [hf c]
  exact .refl _

/-- What runs in turns lets the draft grow. -/
theorem Runs.growing {x : EStateM Failure σ α} {Q : σ → α → σ → Prop}
    {E : σ → CompileError → Prop} (h : ∀ c, Runs (.all True) x c (Q c) (E c)) : Growing x := by
  refine ⟨fun c hc => ?_⟩
  have hends := h c (Emitter.ready_all hc True)
  cases hrun : x c with
  | ok a c' =>
    obtain ⟨⟨pub, hturns⟩, -⟩ := hends.of_ok hrun
    exact hturns.grows
  | error e c' =>
    obtain ⟨⟨pub, hturns⟩, -⟩ := hends.of_error hrun
    exact hturns.grows

/-- Whatever acts in turns lets the draft grow. -/
theorem Acts.growing {x : Emit α} {Q : Emitter → α → Emitter → Prop}
    {E : Emitter → CompileError → Prop} (h : ∀ s, Acts (.all True) x s (Q s) (E s)) : Growing x :=
  Runs.growing fun s => (h s).runs

end

/-! ## Emissions -/

namespace Emit

variable {part : Section} {op : Opcode}

theorem growing_instruction (hpart : op ∈ part.opcodes) (hshape : op.shape = .noResult)
    (operands : List Word) : Growing (instruction part op operands) :=
  ⟨fun _ _ => (Emitter.Logs.put hpart hshape).grows⟩

theorem growing_result (hpart : op ∈ part.opcodes) (hshape : op.shape = .result)
    (operands : List Word) : Growing (result part op operands) := by
  refine ⟨fun s (hs : s.IsOpen) => ?_⟩
  rw [result_apply hs]
  exact (Emitter.Logs.result hpart hshape).grows

theorem growing_typedResult (hpart : op ∈ part.opcodes) (hshape : op.shape = .typedResult)
    (type : Id) (operands : List Word) : Growing (typedResult part op type operands) := by
  refine ⟨fun s (hs : s.IsOpen) => ?_⟩
  rw [typedResult_apply hs]
  exact (Emitter.Logs.typedResult hpart hshape).grows

instance growing_name (id : Id) (text : String) : Growing (name id text) :=
  growing_instruction (by decide) (by decide) _

instance growing_localVariable (type : Id) : Growing (localVariable type) :=
  growing_typedResult (by decide) (by decide) _ _

instance growing_function (type result : Id) (control : Word) :
    Growing (function type result control) :=
  growing_typedResult (by decide) (by decide) _ _

instance growing_label : Growing label :=
  growing_result (by decide) (by decide) _

instance growing_ret : Growing ret :=
  growing_instruction (by decide) (by decide) _

instance growing_returnValue (value : Id) : Growing (returnValue value) :=
  growing_instruction (by decide) (by decide) _

instance growing_functionEnd : Growing functionEnd :=
  growing_instruction (by decide) (by decide) _

instance growing_bindId (id : Id) (key : Key) (text : String) : Growing (Emit.bind id key text) :=
  growing_modify fun _ => rfl

instance growing_refuse {α : Type} (e : CompileError) : Growing (refuse e : Emit α) :=
  growing_throw _

instance growing_check {α : Type} (e : Except CompileError α) : Growing (check e) := by
  cases e with
  | ok a => exact growing_pure a
  | error e => exact growing_refuse e

instance growing_binding (id : Id) : Growing (binding id) := by
  refine ⟨fun s _ => ?_⟩
  rw [binding_apply]
  cases s.bindings.lookup id with
  | some b => exact .refl _
  | none => exact .refl _

instance growing_typeId (t : Ty) (storage : StorageClass) : Growing (typeId t storage) :=
  Acts.growing fun s => typeId_acts t trivial s

instance growing_keyId (key : Key) : Growing (keyId key) :=
  growing_typeId _ _

instance growing_constantOf (pool : Pool) (bits : Word) : Growing (constantOf pool bits) :=
  Acts.growing fun _ => constantOf_acts pool bits (E := fun _ => True)

instance growing_functionType (result : Id) : Growing (functionType result) :=
  Acts.growing fun _ => functionType_acts (.inl trivial) (E := fun _ => True)

instance growing_load (p : Id) : Growing (load p) :=
  Acts.growing fun _ => load_acts fun _ _ _ _ => trivial

instance growing_store (p v : Id) : Growing (store p v) :=
  Acts.growing fun _ => store_acts p v

instance growing_extract (base : Id) (index : UInt32) : Growing (extract base index) :=
  Acts.growing fun _ => extract_acts base index

instance growing_extract2 (base : Id) (row col : UInt32) : Growing (extract2 base row col) :=
  Acts.growing fun _ => extract2_acts base row col

instance growing_access (base : Id) (index : UInt32) : Growing (access base index) :=
  Acts.growing fun _ => access_acts base index

instance growing_construct (t : Ty) (parts : List Id) : Growing (construct t parts) :=
  Acts.growing fun _ => construct_acts trivial parts

instance growing_math (f : MathFunction) (a : Id) : Growing (math f a) :=
  Acts.growing fun _ => math_acts f a

instance growing_rename (id : Id) (text : String) : Growing (rename id text) :=
  growing_bind _ _ (k := fun _ => growing_bind _ _ (g := growing_modify fun _ => rfl))

instance growing_narrowVec4 (v : Id) : Growing (narrowVec4 v) :=
  Acts.growing fun _ => narrowVec4_acts v

instance growing_narrowMat4 (v : Id) : Growing (narrowMat4 v) :=
  Acts.growing fun _ => narrowMat4_acts v

instance growing_binary (op : BinaryOperator) (l r : Id) : Growing (binary op l r) :=
  Acts.growing fun _ => binary_acts op l r

end Emit

/-! ## Methods -/

instance Scope.growing_step (Γ : Scope) (index : Nat) (stack : List Id) (op : Operation) :
    Growing (Γ.step index stack op) :=
  Acts.growing fun _ => step_acts (E := fun _ => True) (fun _ _ _ => trivial)
    (.inr fun _ => trivial) fun _ _ _ _ _ _ _ _ => trivial

instance Scope.growing_run (Γ : Scope) (ops : List Operation) (index : Nat) (progress : Progress) :
    Growing (Γ.run index progress ops) :=
  Acts.growing fun _ => run_acts (E := fun _ => True) (fun _ _ _ => trivial)
    (fun _ _ => .inr fun _ => trivial) fun _ _ _ _ => trivial

namespace Method

instance growing_declareLocals (m : Method) (locals : List Local) (index : Nat) :
    Growing (m.declareLocals index locals) :=
  Acts.growing fun s => m.declareLocals_acts (E := fun _ => True)
    (fun _ _ => ⟨trivial, trivial⟩) index s

instance growing_opening (m : Method) : Growing m.opening :=
  Acts.growing fun s => opening_acts (E := fun _ => True) (m.within_all True) s

instance growing_emitEnding (m : Method) (progress : Progress) : Growing (m.emitEnding progress) :=
  Acts.growing fun _ => m.emitEnding_acts (E := fun _ => True) progress

instance growing_closing (m : Method) (f : Function) (progress : Progress) :
    Growing (m.closing f progress) := by
  unfold closing
  infer_instance

instance growing_emitTo (m : Method) (globals : List Variable) (done : List Operation) :
    Growing (m.emitTo globals done) := by
  unfold emitTo
  infer_instance

instance growing_emit (m : Method) (globals : List Variable) : Growing (m.emit globals) := by
  rw [emit_eq]
  infer_instance

end Method

/-! ## Programs -/

instance growing_compileEmit {α : Type} (x : Emit α) [hx : Growing x] :
    Growing (Compile.emit x) := by
  refine ⟨fun c hc => ?_⟩
  have hgrow := hx.grows c.emitter hc
  show c.emitter.draft.Grows (HasEmitter.draft (endState (Compile.emit x c)))
  unfold Compile.emit EStateM.run
  cases hrun : x c.emitter with
  | ok a s =>
    rw [hrun] at hgrow
    exact hgrow
  | error e s =>
    rw [hrun] at hgrow
    exact hgrow

instance growing_note (f : Record → Record) : Growing (Compile.note f) :=
  growing_modify fun _ => rfl

instance growing_enlist (r : Resolution) (v : Variable) : Growing (Compile.enlist r v) :=
  growing_modify fun _ => rfl

namespace Program

instance growing_emitPreamble (p : Program) (o : Options) : Growing (p.emitPreamble o) := by
  refine ⟨fun s (hs : s.IsOpen) => ?_⟩
  obtain ⟨entries, s', hrun, hpublishes, -⟩ := p.emitPreamble_apply (κ := .all True) (o := o)
    ⟨fun _ _ => trivial, trivial, fun _ _ => trivial⟩ hs
  rw [hrun]
  exact ((s.turns_declare (p.baseCapabilities o)).trans hpublishes.turns).grows

instance growing_declareFields (fields : List Field) : Growing (declareFields fields) :=
  Runs.growing fun _ => declareFields_runs (E := fun _ => True)
    (fun _ _ => ⟨trivial, fun _ _ => trivial⟩) fun _ _ _ _ => trivial

instance growing_emitMethods (methods : List Method) : Growing (emitMethods methods) :=
  Runs.growing fun _ => emitMethods_runs (E := fun _ => True) (fun m _ => m.within_all True)
    (fun _ _ _ _ _ _ _ _ _ _ => trivial) (.inr fun _ => trivial)

instance growing_emitEntryPoint (p : Program) (f : Function) : Growing (p.emitEntryPoint f) := by
  refine ⟨fun c _ => ?_⟩
  rw [emitEntryPoint_apply]
  exact (p.logs_entryStatements f c.interface c.emitter).grows

/-- Emitting the entry point that is found among the functions. -/
instance growing_emitEntry (p : Program) (i : Nat) :
    Growing (do
      match (← get).record.functions[i]? with
      | some f => p.emitEntryPoint f
      | none => throw (.refused (.noEntryPoint p.name)) : Compile Unit) := by
  refine growing_bind _ _ (k := fun c => ?_)
  split
  · infer_instance
  · infer_instance

instance growing_emitTo (p : Program) (o : Options) (before : List Method) (m : Method)
    (done : List Operation) : Growing (p.emitTo o before m done) := by
  unfold emitTo
  infer_instance

end Program

/-! ## On the way through a computation -/

section

open HasEmitter (emitter draft)

variable {σ α β : Type} [HasEmitter σ]

/-- From `c` on, the computation comes by `c'`: nothing that was emitted there is lost. -/
def Passes (x : EStateM Failure σ α) (c c' : σ) : Prop :=
  (draft c').Grows (draft (endState (x c)))

variable {x : EStateM Failure σ α} {f : α → EStateM Failure σ β} {c c₁ c' : σ} {a : α}

/-- A computation that succeeds passes its end. -/
theorem Passes.of_eq_ok (h : x c = .ok a c') : Passes x c c' := by
  rw [Passes, h]
  exact .refl _

/-- What the first part passes is passed by the whole. -/
theorem Passes.bind [g : ∀ a, Growing (f a)] (hc' : (emitter c').IsOpen) (h : Passes x c c') :
    Passes (x >>= f) c c' := by
  unfold Passes at h ⊢
  rw [bind_apply]
  cases hrun : x c with
  | ok a c₁ =>
    rw [hrun] at h
    exact h.trans ((g a).grows c₁ (h.closed.trans hc'))
  | error e c₁ =>
    rw [hrun] at h
    exact h

/-- What the rest passes is passed by the whole. -/
theorem Passes.after (hx : x c = .ok a c₁) (h : Passes (f a) c₁ c') : Passes (x >>= f) c c' := by
  unfold Passes at h ⊢
  rw [bind_apply, hx]
  exact h

end

/-- A compilation passes what its emission passes. -/
theorem Passes.emit {α : Type} {x : Emit α} {c : Compilation} {s : Emitter}
    (h : Passes x c.emitter s) : Passes (Compile.emit x) c { c with emitter := s } := by
  unfold Passes at h ⊢
  unfold Compile.emit EStateM.run
  cases hrun : x c.emitter with
  | ok a s' =>
    rw [hrun] at h
    exact h
  | error e s' =>
    rw [hrun] at h
    exact h

/-- A body can be cut anywhere. -/
theorem Scope.run_append (Γ : Scope) (index : Nat) (progress : Progress)
    (done rest : List Operation) :
    Γ.run index progress (done ++ rest) =
      Γ.run index progress done >>= fun progress => Γ.run (index + done.length) progress rest := by
  induction done generalizing index progress with
  | nil => rfl
  | cons op done ih =>
    cases progress with
    | returned => rfl
    | running stack =>
      simp only [List.cons_append, run, bind_assoc, List.length_cons]
      congr 1
      funext progress
      rw [ih, Nat.add_right_comm]
      rfl

/-- The methods can be cut anywhere. -/
theorem Program.emitMethods_append (before after : List Method) :
    emitMethods (before ++ after) = emitMethods before >>= fun _ => emitMethods after := by
  induction before with
  | nil => rfl
  | cons m before ih =>
    simp only [List.cons_append, emitMethods, bind_assoc, ih]

/-- Emitting a method comes by every place in its body. -/
theorem Method.passes_emit {m : Method} {globals : List Variable} {done rest : List Operation}
    (hbody : m.body = done ++ rest) {s s' : Emitter} (hs' : s'.IsOpen) {progress : Progress}
    (h : m.emitTo globals done s = .ok progress s') : Passes (m.emit globals) s s' := by
  obtain ⟨f, s₁, hopening, hrun⟩ := bind_eq_ok h
  rw [emit_eq, hbody]
  refine .after hopening (.bind hs' ?_)
  rw [Scope.run_append]
  exact .bind hs' (.of_eq_ok hrun)

/-- Emitting a program comes by every place in the body of every method. -/
theorem Program.passes_emitModule {p : Program} {o : Options} {before after : List Method}
    {m : Method} (hmethods : p.methods = before ++ m :: after) {done rest : List Operation}
    (hbody : m.body = done ++ rest) {c c' : Compilation} (hc : c.emitter.IsOpen)
    {progress : Progress} (h : p.emitTo o before m done c = .ok progress c') :
    Passes (p.emitModule o) c c' := by
  have hc' : c'.emitter.IsOpen := Growing.isOpen hc h
  obtain ⟨i, c₁, hcheck, h⟩ := bind_eq_ok h
  obtain ⟨_, c₂, hpreamble, h⟩ := bind_eq_ok h
  obtain ⟨_, c₃, hfields, h⟩ := bind_eq_ok h
  obtain ⟨_, c₄, hbefore, h⟩ := bind_eq_ok h
  obtain ⟨_, c₅, hget, h⟩ := bind_eq_ok h
  cases hget
  obtain ⟨s, hrun, rfl⟩ := Compile.emit_eq_ok h
  have hmethod : Passes (emitMethods (m :: after)) c₄ { c₄ with emitter := s } := by
    unfold emitMethods
    exact .after rfl (.bind hc' (.emit (Method.passes_emit hbody hc' hrun)))
  unfold emitModule
  refine .after hcheck (.after hpreamble (.after hfields ?_))
  rw [hmethods, emitMethods_append]
  exact .bind hc' (.after hbefore hmethod)

end ShaderStage

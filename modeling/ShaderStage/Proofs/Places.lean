import ShaderStage.Proofs.Turns.Expressions

/-! # Places in a program

A place is where the emission of a program stands between two operations of a body. The emission up
to a place is a computation of its own, with the ids on the operand stack as its result:

* `Program.emitTo`: emits a program up to a place;
* `Program.Derefs`: what the operands point to that are read from, at the places before a `deref`.
  -/

namespace ShaderStage

/-! ## Half-way through a program -/

namespace Method

/-- Starts a function for a method and declares its locals. -/
def opening (m : Method) : Emit Function := do
  let returnType ← Emit.typeId m.result .none
  let type ← Emit.functionType returnType
  let id ← Emit.function type returnType 0
  Emit.name id m.name
  let _ ← Emit.label
  let locals ← m.declareLocals 0 m.locals
  return { id, name := m.name, returnType, locals }

/-- Ends the function of a method. -/
def closing (m : Method) (f : Function) (progress : Progress) : Emit Function := do
  m.emitEnding progress
  Emit.functionEnd
  return f

/-- Emits a method up to a place in its body. -/
def emitTo (m : Method) (globals : List Variable) (done : List Operation) : Emit Progress := do
  let f ← m.opening
  Scope.run ⟨m, globals, f.locals⟩ 0 (.running []) done

/-- Emitting a method is opening its function, running its body and closing it. -/
theorem emit_eq (m : Method) (globals : List Variable) :
    m.emit globals = (do
      let f ← m.opening
      let progress ← Scope.run ⟨m, globals, f.locals⟩ 0 (.running []) m.body
      m.closing f progress) := by
  simp only [emit, opening, closing, bind_assoc, pure_bind]

end Method

namespace Program

/-- Emits a program up to a place in the body of a method, which comes after other methods. -/
def emitTo (p : Program) (o : Options) (before : List Method) (m : Method)
    (done : List Operation) : Compile Progress := do
  let _ ← Compile.emit (Emit.check p.check)
  Compile.emit (p.emitPreamble o)
  declareFields p.fields
  emitMethods before
  Compile.emit (m.emitTo (← get).record.globals done)

end Program

/-! ## Operands that are read from -/

/-- On their way through the operations, some run comes to a `deref` of a pointer to the type. -/
def Scope.Derefs (Γ : Scope) (index : Nat) (progress : Progress) (ops : List Operation)
    (s : Emitter) (t : Ty) : Prop :=
  ∃ done rest id stack s', ops = done ++ .deref :: rest ∧
    Γ.run index progress done s = .ok (.running (id :: stack)) s' ∧ s'.pointee? id = some t

namespace Scope

variable {Γ : Scope} {index : Nat} {ops : List Operation} {s s' : Emitter} {t : Ty}

/-- The operand on top is read from. -/
theorem derefs_head {id : Id} {stack : List Id} (h : s.pointee? id = some t) :
    Γ.Derefs index (.running (id :: stack)) (.deref :: ops) s t :=
  ⟨[], ops, id, stack, s, rfl, rfl, h⟩

/-- What is read from later is read from. -/
theorem Derefs.cons {stack : List Id} {op : Operation} {progress : Progress}
    (hstep : Γ.step index stack op s = .ok progress s')
    (h : Γ.Derefs (index + 1) progress ops s' t) :
    Γ.Derefs index (.running stack) (op :: ops) s t := by
  obtain ⟨done, rest, id, stack', s₁, rfl, hrun, hpointee⟩ := h
  refine ⟨op :: done, rest, id, stack', s₁, rfl, ?_, hpointee⟩
  unfold run
  rw [bind_apply, hstep]
  exact hrun

end Scope

/-- Some run of the method comes to a `deref` of a pointer to the type. -/
def Method.Derefs (m : Method) (globals : List Variable) (s : Emitter) (t : Ty) : Prop :=
  ∃ done rest id stack s', m.body = done ++ .deref :: rest ∧
    m.emitTo globals done s = .ok (.running (id :: stack)) s' ∧ s'.pointee? id = some t

theorem Method.derefs_of_scope {m : Method} {globals : List Variable} {s s' : Emitter}
    {f : Function} {t : Ty} (hopening : m.opening s = .ok f s')
    (h : Scope.Derefs ⟨m, globals, f.locals⟩ 0 (.running []) m.body s' t) :
    m.Derefs globals s t := by
  obtain ⟨done, rest, id, stack, s₁, hbody, hrun, hpointee⟩ := h
  refine ⟨done, rest, id, stack, s₁, hbody, ?_, hpointee⟩
  unfold emitTo
  rw [bind_apply, hopening]
  exact hrun

namespace Program

/-- At some place of the program, the next operation is a `deref` and its operand is a pointer to
the type. -/
def Derefs (p : Program) (o : Options) (t : Ty) : Prop :=
  ∃ before m after done rest id stack c,
    p.methods = before ++ m :: after ∧ m.body = done ++ .deref :: rest ∧
    p.emitTo o before m done { emitter := .start o.moduleVersion } =
      .ok (.running (id :: stack)) c ∧ c.emitter.pointee? id = some t

/-- What the method reads from, after all that is emitted before it. -/
theorem derefs_of_method {p : Program} {o : Options} {before after : List Method} {m : Method}
    (hmethods : p.methods = before ++ m :: after) {i : Nat} {c₁ c₂ c₃ c₄ : Compilation}
    (hcheck : Compile.emit (Emit.check p.check) { emitter := .start o.moduleVersion } = .ok i c₁)
    (hpreamble : Compile.emit (p.emitPreamble o) c₁ = .ok () c₂)
    (hfields : declareFields p.fields c₂ = .ok () c₃) (hbefore : emitMethods before c₃ = .ok () c₄)
    {t : Ty} (h : m.Derefs c₄.record.globals c₄.emitter t) : p.Derefs o t := by
  obtain ⟨done, rest, id, stack, s, hbody, hrun, hpointee⟩ := h
  refine ⟨before, m, after, done, rest, id, stack, { c₄ with emitter := s }, hmethods, hbody, ?_,
    hpointee⟩
  unfold emitTo
  rw [bind_apply, hcheck]
  dsimp only
  rw [bind_apply, hpreamble]
  dsimp only
  rw [bind_apply, hfields]
  dsimp only
  rw [bind_apply, hbefore]
  dsimp only
  rw [bind_apply, get_apply]
  unfold Compile.emit EStateM.run
  dsimp only
  rw [hrun]

end Program

end ShaderStage

import ShaderStage.Proofs.Compilation

/-! # Acceptance

A program compiles exactly if it is well typed. Whether it does depends neither on the options nor
on what was emitted before: each method is judged by the types of the fields and by its own.

* `Program.WellTyped` and `passed_iff_wellTyped`: the programs that compile, however the compiler
  was used before. -/

namespace ShaderStage

/-- The outcome is a module, or would be one if its instructions were short enough. -/
def Outcome.Passed (outcome : Outcome) : Prop :=
  (∃ words, outcome.words = .ok words) ∨
    ∃ opcode count, 65535 < count ∧ outcome.words = .error (.fault (.tooLong opcode count))

/-- What passed was not refused. -/
theorem Outcome.Passed.not_refused {outcome : Outcome} (h : outcome.Passed) (e : CompileError) :
    outcome.words ≠ .error (.refused e) := by
  rcases h with ⟨words, h⟩ | ⟨opcode, count, -, h⟩ <;> simp [h]

/-- An emitted module passes. -/
theorem passed_of_emitModule {p : Program} {o : Options} {c : Compilation}
    (h : p.emitModule o { emitter := .start o.moduleVersion } = .ok () c)
    (hc : c.emitter.draft.ids.closed = false) : (compile (some p) o).Passed := by
  unfold Outcome.Passed compile Program.compile EStateM.run
  simp only [bind_apply, h, Compile.emit, EStateM.run, Emit.assemble, get_apply, modify_apply]
  cases hwords : c.emitter.draft.assemble.1 with
  | ok words => exact .inl ⟨words, rfl⟩
  | error fault =>
    obtain ⟨i, -, hlong, rfl⟩ := Draft.assemble_eq_error hc hwords
    exact .inr ⟨_, _, hlong, rfl⟩

/-- A program that is refused while it is emitted is refused. -/
theorem refused_of_emitModule {p : Program} {o : Options} {c : Compilation} {e : CompileError}
    (h : p.emitModule o { emitter := .start o.moduleVersion } = .error (.refused e) c) :
    (compile (some p) o).words = .error (.refused e) := by
  unfold compile Program.compile EStateM.run
  simp only [bind_apply, h]

/-- A compiler that was not used before passes exactly the well-typed programs, whatever its
options, and refuses all others. -/
theorem passed_iff_wellTyped (p : Program) (o : Options) (hnames : p.EachType (Ty.Named CleanName))
    (hids : p.idsTaken o < idLimit) :
    (((Compiler.ready o).compile (some p)).1.Passed ↔ p.WellTyped) ∧
      ((∃ e, ((Compiler.ready o).compile (some p)).1.words = .error (.refused e)) ↔
        ¬ p.WellTyped) := by
  show ((compile (some p) o).Passed ↔ _) ∧ ((∃ e, (compile (some p) o).words = _) ↔ _)
  have hends := ends_emitModule hnames hids
  cases hrun : p.emitModule o { emitter := .start o.moduleVersion } with
  | ok u c =>
    rw [hrun] at hends
    obtain ⟨-, hcons, -, -, -, hwt⟩ := hends
    have hwt : p.WellTyped := hwt fun _ h => h
    have hpassed := passed_of_emitModule hrun hcons.filled.isOpen
    refine ⟨⟨fun _ => hwt, fun _ => hpassed⟩, ?_, fun h => absurd hwt h⟩
    rintro ⟨e, he⟩
    exact absurd he (hpassed.not_refused e)
  | error failure c =>
    rw [hrun] at hends
    cases failure with
    | fault f => cases hends
    | refused e =>
      obtain ⟨-, -, -, hnot⟩ := hends
      -- A refusal speaks about types whose names are clean, as all names of the program are.
      have hnot : ¬ p.WellTyped := hnot fun _ h => h
      have hrefused := refused_of_emitModule hrun
      refine ⟨⟨fun h => absurd hrefused (h.not_refused e), fun h => absurd h hnot⟩, ?_⟩
      exact ⟨fun _ => hnot, fun _ => ⟨e, hrefused⟩⟩

theorem wellTyped_tint :
    ((Compiler.ready {}).compile (some .tint)).1.Passed ∧ Program.tint.WellTyped := by
  have hpassed : ((Compiler.ready {}).compile (some .tint)).1.Passed := .inl compile_tint
  exact ⟨hpassed, (passed_iff_wellTyped .tint {} named_tint idsTaken_tint).1.mp hpassed⟩

end ShaderStage

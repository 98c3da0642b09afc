import ShaderStage.Proofs.Acceptance
import ShaderStage.Proofs.Places

/-! # Operands are bound

The emitter looks up what it knows about an id whenever an operation uses it, and looks up a type
only after the names in it are resolved. Neither lookup can surprise it: every id on an operand
stack was bound before it was pushed, and the types that are resolved away are never left to define.
So a program is refused for what is wrong with the program, and never for a defect of the compiler.

* `Program.emitTo_meets`: at every place of a program the ids on the stack are bound;
* `never_internalError`: no program is refused for a defect of the compiler. -/

namespace ShaderStage

/-! ## Types with names resolved -/

namespace Emit

/-- Emits the definition of a key with names resolved. What else a key could name is left to
`unhandled`. -/
def defineResolved (unhandled : Emit Id) (k : Key) : Emit Id :=
  match k.type with
  | .bool => typeBool
  | .int type => defineInt type
  | .float width => defineFloat width
  | .void => typeVoid
  | .pointer elem => do
    let pointee ← typeId elem k.storage
    typePointer k.storage pointee
  | .vector count => defineVector count
  | .matrix4 => defineMatrix4
  | .array elem length => do
    if length = 0 then refuse (.unresolvedLength elem)
    let elemId ← typeId elem .none
    let lengthId ← constantUint length
    typeArray elemId lengthId
  | .sampledImage2D => defineSampledImage2D
  | .struct structName members => do
    let memberIds ← typeIds members
    let id ← typeStruct memberIds
    unless structName = "" do name id structName
    layoutMembers id 0 0 members
    return id
  | .string => refuse (.unrepresentable .string)
  | .dateTime => refuse (.unrepresentable .dateTime)
  | .null => refuse (.unrepresentable .null)
  | .unset | .enum .. | .char => unhandled

/-- A type is found and recorded by its key with names resolved. -/
theorem intern_congr {k k' : Key} (h : k.normalize = k'.normalize) (x : Emit Id) :
    intern k x = intern k' x := by
  have hsignature : k.signature = k'.signature := by
    unfold Key.signature
    rw [h]
  unfold intern
  rw [h, hsignature]

/-- Another name for a type is the same request. -/
theorem typeId_underlying (t : Ty) (storage : StorageClass) :
    typeId t.underlying storage = typeId t storage := by
  cases t with
  | enum name underlying =>
    rw [Ty.underlying, typeId.eq_def, typeId.eq_def]
    exact intern_congr rfl _
  | char =>
    rw [Ty.underlying, typeId.eq_def, typeId.eq_def]
    exact intern_congr rfl _
  | unset =>
    rw [Ty.underlying, typeId.eq_def, typeId.eq_def]
    exact intern_congr rfl _
  | _ => rfl

/-- Whatever type is asked for, and on whatever path, its definition is one that is handled. -/
theorem typeId_eq_defineResolved (unhandled : Emit Id) (t : Ty) (storage : StorageClass) :
    typeId t storage =
      intern ⟨t, storage⟩ (defineResolved unhandled (Key.mk t storage).normalize) := by
  rw [typeId.eq_def]
  cases t with
  | pointer elem =>
    rw [Key.normalize_pointer]
    dsimp only [defineResolved]
    rw [typeId_underlying]
  | _ => rfl

end Emit

/-! ## Values on the stack -/

section

variable {N : String → Prop} {s : Emitter}

/-- After every operation, the ids on the stack are values that the emitter knows. -/
theorem Scope.run_stands {Γ : Scope} (hs : s.Consistent N) (hΓ : Γ.Bound s)
    (hresult : Γ.method.result.Named N) (index : Nat) {progress : Progress}
    {keys : Option (List Key)} (hstands : s.Stands progress keys) {ops : List Operation}
    (hops : ∀ t count, .construct t count ∈ ops → t.Named N) :
    Meets N (Γ.run index progress ops) s (fun progress s' => ∃ keys, s'.Stands progress keys)
      (fun _ => True) := by
  induction ops generalizing s index progress keys with
  | nil =>
    cases progress <;> exact .pure hs ⟨keys, hstands⟩
  | cons op ops ih =>
    cases progress with
    | returned => exact .refused hs trivial
    | running stack =>
      cases keys with
      | none => cases hstands
      | some ks =>
        unfold run
        have hop : ∀ t count, op = .construct t count → t.Named N := by
          rintro t count rfl
          exact hops t count List.mem_cons_self
        refine ((step_meets hs hΓ hresult index hstands hop).refusing fun _ _ => trivial).bind ?_
        rintro progress s' hext hs' ⟨code, keys, -, -, -, hstands'⟩
        exact ih hs' (hΓ.mono hext) (index + 1) hstands'
          fun t count h => hops t count (List.mem_cons_of_mem _ h)

/-- Up to any place of a method, the stack holds values. -/
theorem Method.emitTo_meets {m : Method} (hs : s.Consistent N) (hm : m.EachType (Ty.Named N))
    {globals : List Variable} (hglobals : ∀ v ∈ globals, s.Value v.id v.key)
    {done rest : List Operation} (hbody : m.body = done ++ rest) :
    Meets N (m.emitTo globals done) s (fun progress s' => ∃ keys, s'.Stands progress keys)
      (fun _ => True) := by
  have hconstructs : ∀ t count, .construct t count ∈ done → t.Named N := by
    intro t count h
    refine hm.constructs t count ?_
    rw [hbody]
    exact List.mem_append_left _ h
  refine ((opening_meets hs hm).refusing fun _ _ => trivial).bind ?_
  rintro f s₁ hext₁ hs₁ ⟨F, l, declarations, -, -, -, -, -, hlocals, -⟩
  have hbound : Scope.Bound ⟨m, globals, f.locals⟩ s₁ :=
    ⟨fun v hv => (hglobals v hv).mono hext₁, hlocals.value⟩
  have hempty : s₁.Stands (.running []) (some []) := List.Forall₂.nil
  exact Scope.run_stands hs₁ hbound hm.result 0 hempty hconstructs

/-- At every place in the body of every method, the ids on the stack are values. -/
theorem Program.emitTo_meets {p : Program} (hp : p.EachType (Ty.Named N)) (o : Options)
    {c : Compilation} (hc : c.emitter.Consistent N) (hglobals : c.record.globals = [])
    {before after : List Method} {m : Method} (hmethods : p.methods = before ++ m :: after)
    {done rest : List Operation} (hbody : m.body = done ++ rest) :
    Meets N (p.emitTo o before m done) c
      (fun progress c' => ∃ keys, c'.emitter.Stands progress keys) (fun _ => True) := by
  have hnamed : ∀ m' ∈ before ++ m :: after, m'.EachType (Ty.Named N) := hmethods ▸ hp.methods
  obtain ⟨hbefore, hafter⟩ := List.forall_mem_append.mp hnamed
  unfold emitTo
  have hcheck := Compile.emit_meets (check_meets (p := p) hc)
  refine (hcheck.weaken (fun _ _ _ _ h => h) fun _ _ => trivial).seq ?_
  rintro i c₁ - hc₁ ⟨-, hrecord₁⟩
  refine (Compile.emit_meets (emitPreamble_meets p o hc₁)).seq ?_
  rintro _ c₂ - hc₂ ⟨-, hrecord₂⟩
  refine ((declareFields_meets hp.fields hc₂).weaken (fun _ _ _ _ h => h) fun _ _ => trivial).seq ?_
  rintro _ c₃ - hc₃ ⟨vs, hglobals₃, -, -, hfields, -⟩
  rw [hrecord₂, hrecord₁, hglobals, List.nil_append] at hglobals₃
  have hvalues : ∀ v ∈ c₃.record.globals, c₃.emitter.Value v.id v.key := by
    rw [hglobals₃]
    intro v hv
    obtain ⟨f, -, hv⟩ := Emitter.exists_declaresField hfields v hv
    exact hv.value
  have hemitted := emitMethods_meets hbefore hc₃ hvalues
  refine (hemitted.weaken (fun _ _ _ _ h => h) fun _ _ => trivial).seq ?_
  rintro _ c₄ hext₄ hc₄ ⟨fs, code, -, hglobals₄, -⟩
  refine .get ?_
  have hvalues₄ : ∀ v ∈ c₄.record.globals, c₄.emitter.Value v.id v.key := by
    rw [hglobals₄]
    exact fun v hv => (hvalues v hv).mono hext₄
  refine (Compile.emit_meets (Method.emitTo_meets hc₄ (hafter m List.mem_cons_self) hvalues₄
    hbody)).weaken ?_ fun _ h => h
  exact fun progress c₅ _ _ h => h.1

end

/-- What stands on the stack is bound. -/
theorem Emitter.Stands.bound {s : Emitter} {stack : List Id} {keys : Option (List Key)}
    (h : s.Stands (.running stack) keys) : ∀ id ∈ stack, ∃ b, s.bindings.lookup id = some b := by
  cases keys with
  | none => cases h
  | some ks =>
    have hvalues : List.Forall₂ s.Value stack ks := h
    clear h
    induction hvalues with
    | nil => nofun
    | cons hvalue _ ih =>
      obtain ⟨name, hbinding⟩ := hvalue.binding
      exact List.forall_mem_cons.mpr ⟨⟨_, hbinding⟩, ih⟩

/-! ## Compilations -/

/-- At every place in the body of every method, the ids on the stack are bound. -/
theorem Program.bound_of_emitTo {p : Program} {o : Options} (hids : p.idsTaken o < idLimit)
    {before after : List Method} {m : Method} (hmethods : p.methods = before ++ m :: after)
    {done rest : List Operation} (hbody : m.body = done ++ rest) {stack : List Id}
    {c : Compilation}
    (hrun : p.emitTo o before m done { emitter := .start o.moduleVersion } =
      .ok (.running stack) c) :
    ∀ id ∈ stack, ∃ b, c.emitter.bindings.lookup id = some b := by
  have hpasses := passes_emitModule hmethods hbody (c := { emitter := .start o.moduleVersion })
    rfl hrun
  have hwrap : c.emitter.NoWrap := Nat.lt_of_le_of_lt hpasses.taken hids
  have hends := emitTo_meets p.named_all o (consistent_start (fun _ => True) o.moduleVersion)
    (c := { emitter := .start o.moduleVersion }) rfl hmethods hbody
  have hends := hends rfl
  rw [hrun] at hends
  obtain ⟨-, -, keys, hstands⟩ := hends hwrap
  exact hstands.bound

/-- No program is refused for a defect of the compiler. -/
theorem kind_ne_internalError {program : Option Program} {o : Options}
    (hids : ∀ p ∈ program, p.idsTaken o < idLimit) {e : CompileError}
    (h : (compile program o).words = .error (.refused e)) : e.kind ≠ .internalError := by
  cases program with
  | none =>
    cases h
    nofun
  | some p =>
    have hends := ends_emitModule p.named_all (hids p rfl)
    cases hrun : p.emitModule o { emitter := .start o.moduleVersion } with
    | ok u c =>
      rw [hrun] at hends
      -- An emitted module can still fail to be written out, but it is no longer refused.
      have hpassed := passed_of_emitModule hrun hends.2.1.filled.isOpen
      exact absurd h (hpassed.not_refused e)
    | error failure c =>
      rw [hrun] at hends
      cases failure with
      | fault f => cases hends
      | refused e' =>
        rw [refused_of_emitModule hrun] at h
        cases h
        exact hends.2.2.1

/-- A program is never refused for an internal error. The ids on a stack are bound at every place in
the body of every method, and no definition is asked for a type whose name is not resolved. -/
theorem never_internalError (program : Option Program) (o : Options)
    (hids : ∀ p ∈ program, p.idsTaken o < idLimit) :
    (∀ e, (compile program o).words = .error (.refused e) → e.kind ≠ .internalError) ∧
    (∀ p ∈ program, ∀ before m after done rest,
      p.methods = before ++ m :: after → m.body = done ++ rest → ∀ stack c,
      p.emitTo o before m done { emitter := .start o.moduleVersion } = .ok (.running stack) c →
      ∀ id ∈ stack, ∃ b, c.emitter.bindings.lookup id = some b) ∧
    ∀ unhandled t storage, Emit.typeId t storage =
      Emit.intern ⟨t, storage⟩ (Emit.defineResolved unhandled (Key.mk t storage).normalize) := by
  refine ⟨?_, ?_, ?_⟩
  · intro e h
    exact kind_ne_internalError hids h
  · intro p hp before m after done rest hmethods hbody stack c hrun
    exact Program.bound_of_emitTo (hids p hp) hmethods hbody hrun
  · intro unhandled t storage
    exact Emit.typeId_eq_defineResolved unhandled t storage

/-- Three values are on the stack after nine operations: a vector, a part of it and a constant. -/
theorem never_internalError_tint :
    ∃ before m rest c, Program.tint.methods = before ++ [m] ∧ m.body = m.body.take 9 ++ rest ∧
      Program.tint.emitTo {} before m (m.body.take 9) { emitter := .start .default } =
        .ok (.running [43, 42, 37]) c ∧
      ∀ id ∈ [43, 42, 37], ∃ b, c.emitter.bindings.lookup id = some b := by
  have hids : ∀ p ∈ some Program.tint, p.idsTaken {} < idLimit := by
    rintro p ⟨⟩
    exact idsTaken_tint
  have hrun := eq_ok_of_run' (x := Program.tint.emitTo {} (Program.tint.methods.take 1)
    (Program.tint.methods.get ⟨1, by decide⟩)
    ((Program.tint.methods.get ⟨1, by decide⟩).body.take 9))
    (s := { emitter := .start .default }) (a := .running [43, 42, 37]) (by decide +kernel)
  exact ⟨_, _, _, _, rfl, (List.take_append_drop 9 _).symm, hrun,
    (never_internalError (some .tint) {} hids).2.1 _ rfl _ _ [] _ _ rfl
      (List.take_append_drop 9 _).symm _ _ hrun⟩

end ShaderStage

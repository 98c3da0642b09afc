import ShaderStage.Proofs.Semantics.Simulation

/-! # Translation keeps the meaning of methods

A method and the function that it is emitted as run alike: from the same values of fields and
locals, both fail, or both leave the same values and return the same result. The proof follows the
emission of a body operation by operation; results are assigned once, so what the ids on the stack
stand for does not change under the instructions that follow.

* `Module.Implements`: a function and a method run alike;
* `implements_of_compile`: the functions of a compiled module implement its methods. -/

namespace ShaderStage

/-! ## Runs -/

/-- A run of a method and a call of a function end alike: with the same result and the same values
of fields and locals, and all other variables are as they were at the start. -/
structure EndsAlike {S : Type} (globals locals : List Variable) (start : Memory S)
    (x : Store S × Option (Data S)) (y : Memory S × Option (Data S)) : Prop where
  result : x.2 = y.2
  store : x.1 = y.1.store globals locals
  frame : ∀ id, id ∉ (globals ++ locals).map Variable.id → y.1 id = start id

namespace Module

variable {S : Type} {A : ScalarOps S} {m : Module}

/-- Instructions that do not return are executed one after the other. -/
theorem run?_append {code : List Instruction}
    (hcode : ∀ i ∈ code, i.opcode ∉ [Opcode.ret, .returnValue]) (rest : List Instruction)
    (M : Machine S) :
    m.run? A (code ++ rest) M = (code.foldlM (m.exec? A) M).bind (m.run? A rest) := by
  induction code generalizing M with
  | nil => rfl
  | cons i code ih =>
    obtain ⟨hi, hcode⟩ := List.forall_mem_cons.mp hcode
    simp only [List.mem_cons, List.not_mem_nil, or_false, not_or] at hi
    rw [List.cons_append, run?, if_neg hi.1, if_neg hi.2, List.foldlM_cons]
    simp only [Option.bind_eq_bind, Option.bind_assoc, ih hcode]

/-- Labels and the declarations of variables do nothing. -/
theorem foldlM_exec?_idle {code : List Instruction}
    (hcode : ∀ i ∈ code, i.opcode = .label ∨ i.opcode = .var) (M : Machine S) :
    code.foldlM (m.exec? A) M = some M := by
  induction code with
  | nil => rfl
  | cons i code ih =>
    obtain ⟨hi, hcode⟩ := List.forall_mem_cons.mp hcode
    rw [List.foldlM_cons, exec?, if_pos hi]
    exact ih hcode

/-- The instructions of a function stand between its start and its end. -/
theorem body_eq (hm : (m.instructions.filterMap Instruction.resultId).Nodup)
    {before code after : List Instruction} {operands : List Word} {f : Id}
    (h : m.instructions = before ++ ⟨.function, operands⟩ :: (code ++ ⟨.functionEnd, []⟩ :: after))
    (hf : (Instruction.mk .function operands).resultId = some f)
    (hcode : ∀ i ∈ code, i.opcode ≠ .functionEnd) : m.body f = code := by
  -- An id is defined once, so the function is not found any earlier.
  have hbefore : ∀ i ∈ before, i.resultId ≠ some f := by
    intro i hi hres
    rw [h, List.filterMap_append, List.filterMap_cons_some hf] at hm
    refine (List.nodup_append.mp hm).2.2 f ?_ f List.mem_cons_self rfl
    exact List.mem_filterMap.mpr ⟨i, hi, hres⟩
  unfold body
  dsimp only
  rw [h, List.dropWhile_append_of_pos fun i hi => by simp [hbefore i hi],
    List.dropWhile_cons_of_neg (by simp [hf]), List.tail_cons,
    List.takeWhile_append_of_pos fun i hi => by simp [hcode i hi]]
  simp

end Module

/-- Related results are followed by related results. -/
theorem rel_bind_rel {α β γ δ : Type} {R : α → β → Prop} {Q : γ → δ → Prop} {x : Option α}
    {y : Option β} (h : Option.Rel R x y) {f : α → Option γ} {g : β → Option δ}
    (hfg : ∀ a b, R a b → Option.Rel Q (f a) (g b)) : Option.Rel Q (x.bind f) (y.bind g) := by
  cases h with
  | none => exact .none
  | some hab => exact hfg _ _ hab

/-! ## Bodies -/

namespace Emitter

variable {S : Type} {A : ScalarOps S} {N : String → Prop} {w : Emitter} {Γ : Scope} {C : Context}
  {start : Memory S} {ids : List Id} {slots : List (Slot S)} {σ : Store S} {M : Machine S}

/-- The id names a variable or a constant. -/
def Static (w : Emitter) (x : Id) : Prop :=
  w.toModule.DefinedBy x .var ∨ w.toModule.DefinedBy x .constant

/-- A return of a method and of its function end alike. -/
theorem Emits.endsAlike (hΓ : w.Realizes Γ C) (hresult : C.result.PointerFree) {op : Operation}
    {code : List Instruction} (h : w.Emits Γ ids op code .returned)
    (hsim : Simulates A w Γ start ids slots σ M) :
    Option.Rel (EndsAlike Γ.globals Γ.locals start) (C.run? A [op] slots σ)
      (w.toModule.run? A code M) := by
  cases h with
  | ret hvoid =>
    rw [← hΓ.result] at hvoid
    simp only [Context.run?, if_pos hvoid]
    exact .some ⟨rfl, hsim.store, hsim.frame⟩
  | @retValue _ x _ hvoid hx hsame =>
    rw [← hΓ.result] at hvoid hsame
    obtain ⟨slot, rest, rfl, hslot, -⟩ := hsim.exists_cons
    rw [Ty.same_comm] at hsame
    obtain ⟨t, d, rfl, -, -, hoperand⟩ :=
      hslot.exists_value hx (Ty.ne_pointer_of_same hsame hresult.ne_pointer)
    have hrun : w.toModule.run? A [⟨.returnValue, [x]⟩] M = some (M.memory, some d) := by
      simp +decide [Module.run?, Module.data?, hoperand, Operand.data?]
    simp only [Context.run?, hvoid, hrun]
    exact .some ⟨rfl, hsim.store, hsim.frame⟩

section

variable (hw : w.Consistent N) (hwrap : w.NoWrap)

include hw hwrap

/-- The results of a body are neither variables nor constants. -/
theorem not_static_of_result {i : Instruction} (hi : w.Has .functions i)
    (hopcode : i.opcode ∈ bodyOpcodes) {r : Id} (hr : i.resultId = some r) : ¬ w.Static r := by
  have hdef := hi.defining? hw.filled hwrap hr
  have hdispatch : ∀ c ∈ bodyOpcodes, c ∉ [Opcode.var, .constant] := by decide
  have hc := hdispatch _ hopcode
  simp only [List.mem_cons, List.not_mem_nil, or_false, not_or] at hc
  rintro (hvar | hconstant)
  · exact hc.1 ((Module.definedBy_iff hdef).mp hvar)
  · exact hc.2 ((Module.definedBy_iff hdef).mp hconstant)

/-- An id that an operation leaves on the stack was there before, is a new result, or names a
variable or a constant. -/
theorem Emits.origin (hΓ : w.Realizes Γ C) {op : Operation} {code : List Instruction}
    {ids' : List Id} (h : w.Emits Γ ids op code (.running ids')) :
    ∀ x ∈ ids', x ∈ ids ∨ x ∈ code.filterMap Instruction.resultId ∨ w.Static x := by
  have hroot : ∀ {ids : List Id} {code : List Instruction} (cell : Cell) {v : Variable},
      Γ.root? cell = some v →
      ∀ x ∈ v.id :: ids, x ∈ ids ∨ x ∈ code.filterMap Instruction.resultId ∨ w.Static x := by
    intro ids code cell v hv
    obtain ⟨t, -, hcell⟩ := hΓ.isCell cell hv
    exact List.forall_mem_cons.mpr ⟨.inr (.inr (.inl hcell.var)), fun x hx => .inl hx⟩
  have hconstant : ∀ {ids : List Id} {code : List Instruction} {id : Id} {t : Ty} {word : Word},
      w.Constant id t word →
      ∀ x ∈ id :: ids, x ∈ ids ∨ x ∈ code.filterMap Instruction.resultId ∨ w.Static x := by
    intro ids code id t word hid
    obtain ⟨T, -, hdef⟩ := defining?_constant hw hwrap hid
    refine List.forall_mem_cons.mpr ⟨.inr (.inr (.inr ?_)), fun x hx => .inl hx⟩
    exact (Module.definedBy_iff hdef).mpr rfl
  have hresult : ∀ {rest : List Id} {code : List Instruction} {id : Id},
      id ∈ code.filterMap Instruction.resultId → rest ⊆ ids →
      ∀ x ∈ id :: rest, x ∈ ids ∨ x ∈ code.filterMap Instruction.resultId ∨ w.Static x :=
    fun hid hrest => List.forall_mem_cons.mpr ⟨.inr (.inl hid), fun x hx => .inl (hrest hx)⟩
  cases h with
  | @loadField _ n v hv => exact hroot (.field n) hv
  | @loadLocal _ n v hv => exact hroot (.own n) hv
  | pushUint hid | pushFloat hid => exact hconstant hid
  | storeField | storeLocal | pop => exact fun x hx => .inl (List.mem_cons_of_mem _ hx)
  | store => exact fun x hx => .inl (List.mem_cons_of_mem _ (List.mem_cons_of_mem _ hx))
  | dup => exact List.forall_mem_cons.mpr ⟨.inl List.mem_cons_self, fun x hx => .inl hx⟩
  | deref | extract | extract2 | access | math =>
    exact hresult List.mem_cons_self (List.subset_cons_self _ _)
  | construct => exact hresult List.mem_cons_self (List.drop_subset _ _)
  | @narrowVec4 _ v x y z id =>
    exact hresult (show id ∈ [x, y, z, id] by simp) (List.subset_cons_self _ _)
  | @binary _ op l r id T kl kr c t swap _ _ hresolves =>
    refine hresult (List.mem_filterMap.mpr ⟨_, List.mem_cons_self, ?_⟩) ?_
    · exact resultId_arithmetic hresolves.opcode_mem swap
    · exact fun x hx => List.mem_cons_of_mem _ (List.mem_cons_of_mem _ hx)

/-- A body and the code that it emits end alike. -/
theorem EmitsAll.endsAlike (hΓ : w.Realizes Γ C) (hresult : C.result.PointerFree)
    {ops : List Operation} {code ending : List Instruction} {progress : Progress}
    (h : w.EmitsAll Γ (.running ids) ops code progress)
    (hending : EmitsEnding Γ.method progress ending)
    (hops : ∀ t count, .construct t count ∈ ops → t.PointerFree)
    (hsim : Simulates A w Γ start ids slots σ M) (hcode : ∀ i ∈ code, w.Has .functions i)
    (hfresh : ∀ r ∈ code.filterMap Instruction.resultId, r ∉ ids)
    (hnodup : (code.filterMap Instruction.resultId).Nodup) :
    Option.Rel (EndsAlike Γ.globals Γ.locals start) (C.run? A ops slots σ)
      (w.toModule.run? A (code ++ ending) M) := by
  induction ops generalizing ids slots σ M code with
  | nil =>
    cases h
    cases hending with
    | running hvoid =>
      rw [← hΓ.result] at hvoid
      simp only [Context.run?, if_pos hvoid]
      exact .some ⟨rfl, hsim.store, hsim.frame⟩
  | cons op ops ih =>
    cases h with
    | @cons _ _ _ code code' middle _ hop hrest =>
      cases middle with
      | returned =>
        cases hrest
        cases hending
        rw [List.append_nil, List.append_nil]
        exact hop.endsAlike hΓ hresult hsim
      | running ids' =>
        have hne : op ≠ .ret := by
          rintro rfl
          cases hop
        obtain ⟨hcode, hcode'⟩ := List.forall_mem_append.mp hcode
        rw [List.filterMap_append] at hfresh hnodup
        obtain ⟨hfresh, hfresh'⟩ := List.forall_mem_append.mp hfresh
        obtain ⟨hnodup, hnodup', hdisjoint⟩ := List.nodup_append.mp hnodup
        have hreturns : ∀ i ∈ code, i.opcode ∉ [Opcode.ret, .returnValue] := by
          have hopcodes : ∀ c ∈ Progress.opcodes (.running []), c ∉ [Opcode.ret, .returnValue] := by
            decide
          exact fun i hi => hopcodes _ (hop.opcode_mem i hi)
        rw [Context.run?_cons A hne, List.append_assoc, Module.run?_append hreturns]
        refine rel_bind_rel (hop.simulates hw hwrap hΓ
          (fun t count h => hops t count (h ▸ List.mem_cons_self)) hsim hcode hfresh hnodup) ?_
        intro next M' hsim'
        refine ih hrest (fun t count h => hops t count (List.mem_cons_of_mem _ h)) hsim' hcode'
          (fun r hr hmem => ?_) hnodup'
        -- A result to come is not on the stack: it is assigned once, and later.
        rcases hop.origin hw hwrap hΓ r hmem with hold | hnew | hstatic
        · exact hfresh' r hr hold
        · exact hdisjoint r hnew r hr rfl
        · obtain ⟨i, hi, hres⟩ := List.mem_filterMap.mp hr
          exact not_static_of_result hw hwrap (hcode' i hi) (hrest.opcode_mem i hi) hres hstatic

/-! ## Functions -/

theorem DeclaresField.isCell {f : Field} {v : Variable} (h : w.DeclaresField f v)
    (hf : f.type.PointerFree) : w.IsCell f.type v := by
  obtain ⟨r, -, hkey⟩ := h.resolved
  obtain ⟨T, -, hhas⟩ := h.emitted
  have hdef := hhas.defining? hw.filled hwrap rfl
  exact ⟨by rw [hkey]; rfl, hf, h.value, (Module.definedBy_iff hdef).mpr rfl⟩

theorem isCell_of_declared {fields : List Field} {vs : List Variable}
    (h : List.Forall₂ w.DeclaresField fields vs) (hfields : ∀ f ∈ fields, f.type.PointerFree) :
    List.Forall₂ w.IsCell (fields.map Field.type) vs := by
  induction h with
  | nil => exact .nil
  | cons hv _ ih =>
    obtain ⟨hf, hfields⟩ := List.forall_mem_cons.mp hfields
    exact .cons (hv.isCell hw hwrap hf) (ih hfields)

theorem DeclaresLocals.isCell {ls : List Local} {vs : List Variable} {code : List Instruction}
    (h : w.DeclaresLocals ls vs code) (hcode : ∀ i ∈ code, w.Has .functions i)
    (hls : ∀ l ∈ ls, l.type.PointerFree) : List.Forall₂ w.IsCell (ls.map Local.type) vs := by
  induction h with
  | nil => exact .nil
  | cons _ hkey _ hv _ ih =>
    obtain ⟨hi, hcode⟩ := List.forall_mem_cons.mp hcode
    obtain ⟨hl, hls⟩ := List.forall_mem_cons.mp hls
    have hdef := hi.defining? hw.filled hwrap rfl
    refine .cons ⟨by rw [hkey]; rfl, hl, hv, ?_⟩ (ih hcode hls)
    exact (Module.definedBy_iff hdef).mpr rfl

/-- The variables of fields and locals are distinct: they are declared in different sections. -/
theorem disjoint_roots {fields : List Field} {globals : List Variable} {ls : List Local}
    {vs : List Variable} {code : List Instruction}
    (hglobals : List.Forall₂ w.DeclaresField fields globals) (hlocals : w.DeclaresLocals ls vs code)
    (hcode : ∀ i ∈ code, w.Has .functions i) :
    (globals.map Variable.id).Disjoint (vs.map Variable.id) := by
  intro id hid hid'
  rw [← hlocals.results] at hid'
  obtain ⟨v, hv, rfl⟩ := List.mem_map.mp hid
  obtain ⟨i, hi, hres⟩ := List.mem_filterMap.mp hid'
  obtain ⟨f, -, hv⟩ := exists_declaresField hglobals v hv
  obtain ⟨T, -, hhas⟩ := hv.emitted
  obtain ⟨hpart, -⟩ := hhas.unique hw.filled hwrap (hcode i hi) rfl hres
  cases hpart

/-- What a function consists of: a label, the declarations of its locals, and the code of the body
of the method. -/
theorem EmitsMethod.exists_body {globals : List Variable} {m : Method} {f : Function}
    {code : List Instruction} (h : w.EmitsMethod globals m f code) (hcode : code <:+: w.code) :
    ∃ l declarations body ending progress,
      w.DeclaresLocals m.locals f.locals declarations ∧
      w.EmitsAll ⟨m, globals, f.locals⟩ (.running []) m.body body progress ∧
      EmitsEnding m progress ending ∧
      w.toModule.body f.id = (⟨.label, [l]⟩ :: declarations) ++ (body ++ ending) ∧
      (∀ i ∈ declarations ++ body, w.Has .functions i) ∧
      ((declarations ++ body).filterMap Instruction.resultId).Nodup := by
  cases h with
  | @intro F l declarations body ending progress _ _ _ hlocals hbody hending =>
    have hresults := nodup_results hw.filled hwrap
    have hhas : ∀ i ∈ declarations ++ body, w.Has .functions i := by
      intro i hi
      refine Draft.mem_emitted.mp (hcode.subset ?_)
      exact List.mem_cons_of_mem _ (List.mem_cons_of_mem _ (List.mem_append_left _
        (List.mem_append_left _ hi)))
    obtain ⟨earlier, hinstructions, -⟩ := w.instructions_eq_append
    obtain ⟨before, after, hcode⟩ := hcode
    have hlayout : w.toModule.instructions = (earlier ++ before) ++
        ⟨.function, [f.returnType, f.id, 0, F]⟩ ::
          (((⟨.label, [l]⟩ :: declarations) ++ (body ++ ending)) ++
            ⟨.functionEnd, []⟩ :: after) := by
      rw [Draft.instructions_toModule, hinstructions, ← hcode]
      simp
    have hopcodes : ∀ i ∈ (⟨.label, [l]⟩ :: declarations) ++ (body ++ ending),
        i.opcode ≠ .functionEnd := by
      have hbodyOpcodes : ∀ c ∈ bodyOpcodes, c ≠ .functionEnd := by decide
      refine List.forall_mem_append.mpr ⟨List.forall_mem_cons.mpr ⟨nofun, fun i hi => ?_⟩,
        List.forall_mem_append.mpr ⟨fun i hi => hbodyOpcodes _ (hbody.opcode_mem i hi),
          fun i hi => ?_⟩⟩
      · rw [hlocals.opcode_eq i hi]
        decide
      · rw [hending.opcode_eq i hi]
        decide
    have hspan : declarations ++ body <:+: w.toModule.instructions := by
      refine ⟨earlier ++ before ++ [⟨.function, [f.returnType, f.id, 0, F]⟩, ⟨.label, [l]⟩],
        ending ++ ⟨.functionEnd, []⟩ :: after, ?_⟩
      rw [hlayout]
      simp
    exact ⟨l, declarations, body, ending, progress, hlocals, hbody, hending,
      Module.body_eq hresults hlayout rfl hopcodes, hhas,
      hresults.sublist (hspan.sublist.filterMap _)⟩

/-- A function does what the method does that it is emitted for. -/
theorem EmitsMethod.endsAlike {fields : List Field} {globals : List Variable} {m : Method}
    {f : Function} {code : List Instruction} (h : w.EmitsMethod globals m f code)
    (hcode : code <:+: w.code) (hglobals : List.Forall₂ w.DeclaresField fields globals)
    (hdistinct : (globals.map Variable.id).Nodup) (hfields : ∀ f ∈ fields, f.type.PointerFree)
    (hm : m.EachType Ty.PointerFree) :
    ((globals ++ f.locals).map Variable.id).Nodup ∧ ∀ memory : Memory S,
      Option.Rel (EndsAlike globals f.locals memory)
        (m.run? A fields (memory.store globals f.locals)) (w.toModule.call? A f.id memory) := by
  obtain ⟨l, declarations, body, ending, progress, hlocals, hbody, hending, heq, hhas, hnodup⟩ :=
    h.exists_body hw hwrap hcode
  obtain ⟨hdeclarations, hhas⟩ := List.forall_mem_append.mp hhas
  rw [List.filterMap_append] at hnodup
  obtain ⟨hnodup, hnodup', -⟩ := List.nodup_append.mp hnodup
  rw [hlocals.results] at hnodup
  have hΓ : w.Realizes ⟨m, globals, f.locals⟩ (m.context fields) := by
    refine ⟨isCell_of_declared hw hwrap hglobals hfields,
      hlocals.isCell hw hwrap hdeclarations hm.locals, ?_, rfl⟩
    rw [Scope.roots, List.map_append]
    exact hdistinct.append hnodup (disjoint_roots hw hwrap hglobals hlocals hdeclarations)
  -- The label and the declarations come first and do nothing when they are run.
  have hidle : ∀ i ∈ ⟨.label, [l]⟩ :: declarations, i.opcode = .label ∨ i.opcode = .var :=
    List.forall_mem_cons.mpr ⟨.inl rfl, fun i hi => .inr (hlocals.opcode_eq i hi)⟩
  have hreturns : ∀ i ∈ ⟨.label, [l]⟩ :: declarations, i.opcode ∉ [Opcode.ret, .returnValue] := by
    intro i hi
    rcases hidle i hi with h | h <;> rw [h] <;> decide
  refine ⟨hΓ.distinct, fun memory => ?_⟩
  rw [Module.call?, heq, Module.run?_append hreturns, Module.foldlM_exec?_idle hidle]
  exact hbody.endsAlike hw hwrap hΓ hm.result hending hm.constructs ⟨.nil, rfl, fun _ _ => rfl⟩ hhas
    (fun _ _ => List.not_mem_nil) hnodup'

end

/-- Each function has its own part of the code. -/
theorem EmitsMethods.forall₂ {globals : List Variable} {ms : List Method} {fs : List Function}
    {code : List Instruction} (h : w.EmitsMethods globals ms fs code) :
    List.Forall₂ (fun m f => ∃ c, c <:+: code ∧ w.EmitsMethod globals m f c) ms fs := by
  induction h with
  | nil => exact .nil
  | @cons m ms f fs code code' hm _ ih =>
    refine .cons ⟨code, (List.prefix_append code code').isInfix, hm⟩ (ih.imp ?_)
    rintro m f ⟨c, hc, hm⟩
    exact ⟨c, hc.trans (List.suffix_append code code').isInfix, hm⟩

end Emitter

/-! ## Programs -/

/-- Distinct variables can hold any values. -/
theorem Memory.exists_map_eq {S : Type} {vs : List Variable} (hvs : (vs.map Variable.id).Nodup)
    {ds : List (Data S)} (hds : ds.length = vs.length) :
    ∃ memory : Memory S, (vs.map fun v => memory v.id) = ds := by
  induction vs generalizing ds with
  | nil => exact ⟨fun _ => .composite [], (List.length_eq_zero_iff.mp hds).symm⟩
  | cons v vs ih =>
    obtain ⟨hv, hvs⟩ := List.nodup_cons.mp hvs
    cases ds with
    | nil => cases hds
    | cons d ds =>
      obtain ⟨memory, rfl⟩ := ih hvs (Nat.succ.inj hds)
      refine ⟨Function.update memory v.id d, ?_⟩
      rw [List.map_cons, Function.update_self, map_update_of_notMem hv]

/-- A function does what a method does: its variables and those of the fields hold any store, and
from every memory the run of the method and the call of the function end alike. -/
structure Module.Implements {S : Type} (m : Module) (A : ScalarOps S) (fields : List Field)
    (globals : List Variable) (method : Method) (f : Function) : Prop where
  stores : ∀ σ : Store S, σ.fields.length = fields.length → σ.locals.length = method.locals.length →
    ∃ memory : Memory S, memory.store globals f.locals = σ
  calls : ∀ memory : Memory S, Option.Rel (EndsAlike globals f.locals memory)
    (method.run? A fields (memory.store globals f.locals)) (m.call? A f.id memory)

/-- A function does what its method does. -/
theorem Emitter.EmitsMethod.implements {S : Type} (A : ScalarOps S) {N : String → Prop}
    {w : Emitter} (hw : w.Consistent N) (hwrap : w.NoWrap) {fields : List Field}
    {globals : List Variable} {m : Method} {f : Function} {code : List Instruction}
    (h : w.EmitsMethod globals m f code) (hcode : code <:+: w.code)
    (hglobals : List.Forall₂ w.DeclaresField fields globals)
    (hdistinct : (globals.map Variable.id).Nodup) (hfields : ∀ f ∈ fields, f.type.PointerFree)
    (hm : m.EachType Ty.PointerFree) : w.toModule.Implements A fields globals m f := by
  obtain ⟨hnodup, hcalls⟩ := h.endsAlike hw hwrap hcode hglobals hdistinct hfields hm
  refine ⟨fun σ hσ hσ' => ?_, hcalls⟩
  have hlength : (σ.fields ++ σ.locals).length = (globals ++ f.locals).length := by
    rw [List.length_append, List.length_append, hσ, hσ', hglobals.length_eq, h.length_locals]
  obtain ⟨memory, hmemory⟩ := Memory.exists_map_eq hnodup hlength
  rw [List.map_append] at hmemory
  obtain ⟨hf, hl⟩ := List.append_inj hmemory (by rw [List.length_map, hσ, hglobals.length_eq])
  refine ⟨memory, ?_⟩
  rw [Memory.store, hf, hl]

/-- Compiling keeps the meaning of every method, whatever the scalars are: the function emitted for
it does what the method does. Methods whose types have clean names do not fail: each runs to its end
from every store of the right shapes. -/
theorem implements_of_compile {S : Type} (A : ScalarOps S) {p : Program} {o : Options}
    {words : List Word} (h : (compile (some p) o).words = .ok words)
    (hpointers : p.EachType Ty.PointerFree) (hids : p.idsTaken o < idLimit) :
    ∃ m, Module.decode words = .ok m ∧
      List.Forall₂ (m.Implements A p.fields (compile (some p) o).record.globals) p.methods
        (compile (some p) o).record.functions ∧
      (p.EachType (Ty.Named CleanName) → ∀ method ∈ p.methods, ∀ σ : Store S,
        σ.Shaped (method.context p.fields) →
          ∃ σ' result, method.run? A p.fields σ = some (σ', result)) := by
  have hnamed : p.EachType (Ty.Named fun _ => True) := by
    have hall : ∀ t : Ty, t.Named fun _ => True := Ty.named_of_forall fun _ => trivial
    exact ⟨fun f _ => hall _, fun m _ => ⟨hall _, fun l _ => hall _, fun t _ _ => hall t⟩⟩
  obtain ⟨w, hw⟩ := emitted_of_compile hnamed hids h
  refine ⟨_, hw.decoded, ?_, fun hnames method hmethod σ hσ => ?_⟩
  · have hmethods := (List.forall₂_and_left _ _).mpr ⟨hpointers.methods, hw.methods.forall₂⟩
    refine hmethods.imp ?_
    rintro m f ⟨hm, code, hcode, hemits⟩
    exact hemits.implements A hw.consistent hw.noWrap hcode hw.fields hw.distinct
      hpointers.fields hm
  · obtain ⟨w, hw⟩ := emitted_of_compile hnames hids h
    obtain ⟨σ', result, hrun, -⟩ :=
      (hw.wellTyped fun _ h => h).exists_run? A hpointers hmethod hσ
    exact ⟨σ', result, hrun⟩

/-- Words as scalars of every kind: the operators wrap around, and the functions do nothing. -/
def ScalarOps.words : ScalarOps Word where
  uint := id
  float := id
  fAdd _ := (· + ·)
  fSub _ := (· - ·)
  fMul _ := (· * ·)
  fDiv _ := (· / ·)
  iAdd _ := (· + ·)
  iSub _ := (· - ·)
  iMul _ := (· * ·)
  sDiv _ := (· / ·)
  uDiv _ := (· / ·)
  sin _ := id
  cos _ := id
  inverseSqrt _ := id

theorem implements_of_compile_tint :
    ∃ words m, (compile (some .tint) {}).words = .ok words ∧ Module.decode words = .ok m ∧
      List.Forall₂
        (m.Implements .words Program.tint.fields (compile (some .tint) {}).record.globals)
        Program.tint.methods (compile (some .tint) {}).record.functions ∧
      ∀ method ∈ Program.tint.methods, ∀ σ : Store Word,
        σ.Shaped (method.context Program.tint.fields) →
          ∃ σ' result, method.run? .words Program.tint.fields σ = some (σ', result) := by
  obtain ⟨words, hwords⟩ := compile_tint
  obtain ⟨m, hm, hmethods, hruns⟩ :=
    implements_of_compile .words hwords pointerFree_tint idsTaken_tint
  exact ⟨words, m, hwords, hm, hmethods, hruns named_tint⟩

end ShaderStage

import ShaderStage.Program.Validation
import ShaderStage.Proofs.Acceptance

/-! # Validation agrees with compilation

Validation finds no issue in a program exactly if the program is valid: a condition on the program
that says nothing about the order in which issues are looked for. The compilation of a valid program
can still be refused for its types, but not for a reason that validation looks for.

* `Program.validate_eq_nil`: the programs without issues;
* `validate_agrees`: what becomes of such programs. -/

namespace ShaderStage

/-! ## Valid programs -/

/-- The operation stays within the fields and locals, and constructs something. -/
structure Operation.Valid (fields locals : Nat) (op : Operation) : Prop where
  inRange : op.InRange fields locals
  construct : ∀ type count, op = .construct type count → type ≠ .unset ∧ 0 < count

/-- The method has a name, types for its locals, and a valid body. -/
structure Method.Valid (fields : Nat) (m : Method) : Prop where
  named : m.name ≠ ""
  locals : ∀ l ∈ m.locals, l.type ≠ .unset
  body : ∀ op ∈ m.body, op.Valid fields m.locals.length

/-- The program has a known stage, named and typed fields, valid methods, and an entry point. -/
structure Program.Valid (p : Program) : Prop where
  stage : p.stage ∈ [.vertex, .fragment, .geometry, .tessellation, .compute]
  vertices : p.stage = .geometry → 0 < p.options.maxVertices
  fields : ∀ f ∈ p.fields, f.name ≠ "" ∧ f.type ≠ .unset
  fieldNames : (p.fields.map Field.name).Nodup
  methods : ∀ m ∈ p.methods, m.Valid p.fields.length
  methodNames : (p.methods.map Method.name).Nodup
  entry : entryPointName ∈ p.methods.map Method.name

/-! ## Issues -/

namespace Program

theorem issue_eq_nil {α : Type} {c : Prop} [Decidable c] {a : α} :
    (if c then [a] else []) = [] ↔ ¬ c := by
  by_cases h : c <;> simp [h]

/-- No issue with the stage. -/
theorem stageIssues_eq_nil {p : Program} :
    p.stageIssues = [] ↔ p.stage ∈ [.vertex, .fragment, .geometry, .tessellation, .compute] ∧
      (p.stage = .geometry → 0 < p.options.maxVertices) := by
  unfold stageIssues
  cases p.stage with
  | geometry => simp [UInt32.pos_iff_ne_zero]
  | _ => simp

/-- No issue with a field. -/
theorem fieldIssues_eq_nil {seen : List String} {index : Nat} {f : Field} :
    fieldIssues seen index f = [] ↔ f.name ≠ "" ∧ f.name ∉ seen ∧ f.type ≠ .unset := by
  unfold fieldIssues
  rw [List.append_eq_nil_iff, issue_eq_nil, ← and_assoc]
  refine and_congr_left' ?_
  by_cases hname : f.name = ""
  · simp [hname]
  · simp [hname]

/-- To be new after one more name is to have another name than that, and to be new before. -/
theorem forall_not_mem_cons {α : Type} {name : α → String} {first : String} {seen : List String}
    {xs : List α} :
    (∀ x ∈ xs, name x ∉ first :: seen) ↔ first ∉ xs.map name ∧ ∀ x ∈ xs, name x ∉ seen := by
  constructor
  · intro h
    constructor
    · intro hmem
      obtain ⟨x, hx, heq⟩ := List.mem_map.mp hmem
      exact h x hx (heq ▸ List.mem_cons_self)
    · exact fun x hx hseen => h x hx (List.mem_cons_of_mem _ hseen)
  · rintro ⟨hfirst, hseen⟩ x hx hmem
    rcases List.mem_cons.mp hmem with heq | hmem
    · exact hfirst (List.mem_map.mpr ⟨x, hx, heq⟩)
    · exact hseen x hx hmem

/-- No issue with the fields, which have different names. -/
theorem fieldsIssues_eq_nil {seen : List String} {index : Nat} {fields : List Field} :
    fieldsIssues seen index fields = [] ↔
      (∀ f ∈ fields, f.name ≠ "" ∧ f.type ≠ .unset) ∧ (∀ f ∈ fields, f.name ∉ seen) ∧
        (fields.map Field.name).Nodup := by
  induction fields generalizing seen index with
  | nil => simp [fieldsIssues]
  | cons f fields ih =>
    rw [fieldsIssues, List.append_eq_nil_iff, fieldIssues_eq_nil, ih, forall_not_mem_cons,
      List.map_cons, List.nodup_cons, List.forall_mem_cons, List.forall_mem_cons]
    constructor
    · rintro ⟨⟨hname, hseen, htype⟩, hfields, ⟨hnew, hrest⟩, hnodup⟩
      exact ⟨⟨⟨hname, htype⟩, hfields⟩, ⟨hseen, hrest⟩, hnew, hnodup⟩
    · rintro ⟨⟨⟨hname, htype⟩, hfields⟩, ⟨hseen, hrest⟩, hnew, hnodup⟩
      exact ⟨⟨hname, hseen, htype⟩, hfields, ⟨hnew, hrest⟩, hnodup⟩

/-- No issue with locals. -/
theorem localsIssues_eq_nil {index : Nat} {locals : List Local} :
    localsIssues index locals = [] ↔ ∀ l ∈ locals, l.type ≠ .unset := by
  induction locals generalizing index with
  | nil => simp [localsIssues]
  | cons l locals ih =>
    rw [localsIssues, List.append_eq_nil_iff, issue_eq_nil, ih, List.forall_mem_cons]

/-- No issue with an index in range. -/
theorem rangeIssue_eq_nil {bound : Nat} {index : Int} {cause : IssueCause} :
    rangeIssue bound index cause = [] ↔ 0 ≤ index ∧ index < bound := by
  unfold rangeIssue
  by_cases h : 0 ≤ index ∧ index < bound <;> simp [h]

/-- No issue with an operation. -/
theorem operationIssues_eq_nil {fields locals : Nat} {op : Operation} :
    operationIssues fields locals op = [] ↔ op.Valid fields locals := by
  have hrange : ∀ {issues : List IssueCause} (_ : ∀ type count, op ≠ .construct type count)
      (_ : issues = [] ↔ op.InRange fields locals), issues = [] ↔ op.Valid fields locals := by
    intro issues hconstruct h
    refine h.trans ⟨fun hin => ⟨hin, ?_⟩, Operation.Valid.inRange⟩
    exact fun t n heq => absurd heq (hconstruct t n)
  cases op with
  | construct type count =>
    rw [operationIssues, List.append_eq_nil_iff, issue_eq_nil, issue_eq_nil]
    constructor
    · rintro ⟨htype, hcount⟩
      refine ⟨trivial, fun t n heq => ?_⟩
      obtain ⟨rfl, rfl⟩ := Operation.construct.inj heq
      exact ⟨htype, by omega⟩
    · intro h
      obtain ⟨htype, hcount⟩ := h.construct type count rfl
      exact ⟨htype, by omega⟩
  | loadField i => exact hrange nofun rangeIssue_eq_nil
  | storeField i => exact hrange nofun rangeIssue_eq_nil
  | loadLocal i => exact hrange nofun rangeIssue_eq_nil
  | storeLocal i => exact hrange nofun rangeIssue_eq_nil
  | missing => exact hrange nofun ⟨nofun, nofun⟩
  | _ => exact hrange nofun ⟨fun _ => trivial, fun _ => rfl⟩

/-- No issue with a body. -/
theorem bodyIssues_eq_nil {fields : Nat} {m : Method} {index : Nat} {body : List Operation} :
    bodyIssues fields m index body = [] ↔ ∀ op ∈ body, op.Valid fields m.locals.length := by
  induction body generalizing index with
  | nil => simp [bodyIssues]
  | cons op body ih =>
    rw [bodyIssues, List.append_eq_nil_iff, List.map_eq_nil_iff, operationIssues_eq_nil, ih,
      List.forall_mem_cons]

/-- No issue with the methods, which have different names and an entry point among them. -/
theorem methodsIssues_eq_nil {fields : Nat} {seen : List String} {index : Nat}
    {methods : List Method} :
    methodsIssues fields seen index methods = [] ↔
      (∀ m ∈ methods, m.Valid fields) ∧ (∀ m ∈ methods, m.name ∉ seen) ∧
        (methods.map Method.name).Nodup ∧
        (entryPointName ∈ seen ∨ entryPointName ∈ methods.map Method.name) := by
  induction methods generalizing seen index with
  | nil =>
    unfold methodsIssues
    by_cases h : entryPointName ∈ seen <;> simp [h]
  | cons m methods ih =>
    -- A nameless method is not looked at any further, but it is an issue itself.
    by_cases hname : m.name = ""
    · rw [methodsIssues, if_pos hname]
      refine ⟨nofun, fun h => ?_⟩
      exact absurd hname (h.1 m List.mem_cons_self).named
    rw [methodsIssues, if_neg hname, List.append_eq_nil_iff, List.append_eq_nil_iff,
      List.append_eq_nil_iff, issue_eq_nil, List.map_eq_nil_iff, localsIssues_eq_nil,
      bodyIssues_eq_nil, ih, forall_not_mem_cons, List.map_cons, List.nodup_cons,
      List.forall_mem_cons, List.forall_mem_cons, List.mem_cons, List.mem_cons, or_assoc,
      or_left_comm]
    constructor
    · rintro ⟨⟨⟨hseen, hlocals⟩, hbody⟩, hmethods, ⟨hnew, hrest⟩, hnodup, hentry⟩
      exact ⟨⟨⟨hname, hlocals, hbody⟩, hmethods⟩, ⟨hseen, hrest⟩, ⟨hnew, hnodup⟩, hentry⟩
    · rintro ⟨⟨⟨-, hlocals, hbody⟩, hmethods⟩, ⟨hseen, hrest⟩, ⟨hnew, hnodup⟩, hentry⟩
      exact ⟨⟨⟨hseen, hlocals⟩, hbody⟩, hmethods, ⟨hnew, hrest⟩, hnodup, hentry⟩

/-- Validation finds no issue exactly in valid programs. -/
theorem validate_eq_nil {p : Program} : p.validate = [] ↔ p.Valid := by
  rw [validate, List.append_eq_nil_iff, List.map_eq_nil_iff, List.append_eq_nil_iff,
    stageIssues_eq_nil, fieldsIssues_eq_nil, methodsIssues_eq_nil]
  constructor
  · rintro ⟨⟨⟨hstage, hvertices⟩, hfields, -, hfieldNames⟩, hmethods, -, hmethodNames, hentry⟩
    have hmain := hentry.resolve_left nofun
    exact ⟨hstage, hvertices, hfields, hfieldNames, hmethods, hmethodNames, hmain⟩
  · intro h
    -- Nothing was seen yet.
    refine ⟨⟨⟨h.stage, h.vertices⟩, h.fields, ?_, h.fieldNames⟩, h.methods, ?_, h.methodNames,
      .inr h.entry⟩
    · exact fun _ _ => nofun
    · exact fun _ _ => nofun

/-! ## Refusals -/

/-- What a compilation checks first holds of valid programs. -/
theorem Valid.promising {p : Program} (h : p.Valid) : p.Promising := by
  refine ⟨?_, fun m hm op hop => ((h.methods m hm).body op hop).inRange⟩
  have hmodels : p.stage.models.isEmpty = false := by
    have hall : ∀ stage ∈ [Stage.vertex, .fragment, .geometry, .tessellation, .compute],
        stage.models.isEmpty = false := by decide
    exact hall p.stage h.stage
  have hvertices : ¬ (p.stage = .geometry ∧ p.options.maxVertices = 0) := by
    rintro ⟨hgeometry, hzero⟩
    have hpos := h.vertices hgeometry
    rw [hzero] at hpos
    exact absurd hpos (by decide)
  obtain ⟨m, hm, hname⟩ := List.mem_map.mp h.entry
  cases hindex : p.entryIndex? with
  | some i =>
    refine ⟨i, ?_⟩
    rw [check, hmodels, hindex]
    exact if_neg hvertices
  | none =>
    have hnone := List.findIdx?_eq_none_iff.mp hindex m hm
    simp [hname] at hnone

/-- A promising program is not refused for a reason that could be foreseen. -/
theorem Promising.foreseen_eq_false {p : Program} (h : p.Promising) {o : Options} {e : CompileError}
    (he : (ShaderStage.compile (some p) o).words = .error (.refused e)) : e.foreseen = false := by
  have hruns := emitModule_runs (E := fun e => e.foreseen = false) (p.within_all o False) (.inl h)
    (ready_start _)
  cases hrun : p.emitModule o { emitter := .start o.moduleVersion } with
  | ok u c =>
    obtain ⟨⟨pub, hturns⟩, -⟩ := hruns.of_ok hrun
    -- Assembling can fail as well, but with a fault of the module and no refusal.
    have hpassed := passed_of_emitModule hrun (hturns.isOpen rfl)
    exact absurd he (hpassed.not_refused e)
  | error failure c =>
    obtain ⟨-, hfailure⟩ := hruns.of_error hrun
    cases failure with
    | refused e' =>
      rw [refused_of_emitModule hrun] at he
      cases he
      exact hfailure
    | fault f => exact hfailure.elim

end Program

/-- A missing entry point is foreseen. -/
theorem kind_ne_of_foreseen {e : CompileError} (h : e.foreseen = false) :
    e.kind ≠ .entryPointNotFound := by
  rintro hkind
  cases e with
  | noEntryPoint program => simp [CompileError.foreseen] at h
  | _ => cases hkind

/-- Validation finds no issue exactly in valid programs, and whatever the options, a program without
issues is not refused for the want of an entry point, nor for a reason that validation looks for: an
unknown stage, a missing vertex count, a missing operation, or a field or local out of range. -/
theorem validate_agrees (p : Program) :
    (p.validate = [] ↔ p.Valid) ∧
      (p.validate = [] → ∀ o e, (compile (some p) o).words = .error (.refused e) →
        e.kind ≠ .entryPointNotFound ∧ e.foreseen = false) := by
  refine ⟨Program.validate_eq_nil, fun h o e he => ?_⟩
  have hforeseen := (Program.validate_eq_nil.mp h).promising.foreseen_eq_false he
  exact ⟨kind_ne_of_foreseen hforeseen, hforeseen⟩

theorem validate_agrees_underflow :
    let p : Program :=
      { Program.tint with methods := [⟨"main", .void, [], [.loadField 0, .pop, .pop]⟩] }
    p.Valid ∧ ∃ e, (compile (some p) {}).words = .error (.refused e) ∧
      e.kind ≠ .entryPointNotFound ∧ e.foreseen = false := by
  intro p
  have hvalid : p.validate = [] := by decide +kernel
  have herror : (compile (some p) {}).words =
      .error (.refused (.atOperation "main" 2 .underflow)) := by decide +kernel
  exact ⟨(validate_agrees p).1.mp hvalid, _, herror, (validate_agrees p).2 hvalid {} _ herror⟩

end ShaderStage

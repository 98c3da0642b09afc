import ShaderStage.Proofs.Steps

/-! # Scoping

A module has three parts: what is said about it first, its types, constants and variables, and its
functions. In a compiled module a definition of the second part uses only earlier ones of that part,
and the code of a function uses only what the first two parts define and its own earlier results,
never those of another function. What is said in the first part is about ids that exist.

* `Module.Scoped`: the order of definitions and uses;
* `scoped_of_compile`: compiled modules are scoped. -/

namespace ShaderStage

/-! ## The parts of a module -/

/-- The sections before the types of a module. -/
def Section.leading : List Section :=
  order.filter (· ∉ [.globals, .functions])

/-- Instructions cut after each end of a function. -/
def cutFunctions : List Instruction → List (List Instruction)
  | [] => []
  | i :: rest =>
    if i.opcode = .functionEnd then [i] :: cutFunctions rest
    else
      match cutFunctions rest with
      | [] => [[i]]
      | f :: fs => (i :: f) :: fs

/-- The code of one function, from its start to its end. -/
def IsFunction (code : List Instruction) : Prop :=
  ∃ head body last, code = head :: body ++ [last] ∧ head.opcode = .function ∧
    last.opcode = .functionEnd ∧ ∀ i ∈ body, i.opcode ∉ [.function, .functionEnd]

namespace Module

/-- What stands before the first function. -/
def head (m : Module) : List Instruction :=
  m.instructions.takeWhile (·.opcode ≠ .function)

/-- What is said about the module. -/
def preamble (m : Module) : List Instruction :=
  m.head.filter (·.opcode ∉ Section.globals.opcodes)

/-- The types, constants and variables of the module. -/
def declarations (m : Module) : List Instruction :=
  m.head.filter (·.opcode ∈ Section.globals.opcodes)

/-- The code of each function. -/
def functions (m : Module) : List (List Instruction) :=
  cutFunctions (m.instructions.dropWhile (·.opcode ≠ .function))

/-- The id is defined outside of functions, for use in all of them. -/
def Shares (m : Module) (u : Id) : Prop :=
  ∃ d, d.resultId = some u ∧ (d ∈ m.declarations ∨ d ∈ m.preamble ∧ d.opcode = .extInstImport)

/-- Every id of the module is defined where its use can see it. -/
structure Scoped (m : Module) : Prop where
  complete : m.preamble ++ m.declarations ++ m.functions.flatten = m.instructions
  separate : ∀ f ∈ m.functions, IsFunction f
  distinct : m.resultIds.Nodup
  preamble : ∀ i ∈ m.preamble, ∀ u ∈ i.uses, u ∈ m.resultIds
  declarations : InOrder (fun _ => False) m.declarations
  functions : ∀ f ∈ m.functions, InOrder m.Shares f

end Module

/-- Cutting code into functions loses nothing. -/
theorem flatten_cutFunctions (is : List Instruction) : (cutFunctions is).flatten = is := by
  induction is with
  | nil => rfl
  | cons i rest ih =>
    unfold cutFunctions
    split
    · rw [List.flatten_cons, ih]
      rfl
    · split
      · rename_i hnil
        rw [hnil] at ih
        rw [← ih]
        rfl
      · rename_i f fs hcons
        rw [hcons] at ih
        rw [← ih]
        rfl

/-- A function is cut off the front. -/
theorem cutFunctions_append {f : List Instruction} (hf : IsFunction f) (rest : List Instruction) :
    cutFunctions (f ++ rest) = f :: cutFunctions rest := by
  -- A function has no end but its last instruction, so that is where it is cut off.
  have hcut : ∀ {body : List Instruction} {last : Instruction}, last.opcode = .functionEnd →
      (∀ i ∈ body, i.opcode ≠ .functionEnd) →
      cutFunctions (body ++ [last] ++ rest) = (body ++ [last]) :: cutFunctions rest := by
    intro body last hlast hbody
    induction body with
    | nil =>
      show cutFunctions (last :: rest) = _
      rw [cutFunctions, if_pos hlast]
      rfl
    | cons i body ih =>
      obtain ⟨hi, hrest⟩ := List.forall_mem_cons.mp hbody
      show cutFunctions (i :: (body ++ [last] ++ rest)) = _
      rw [cutFunctions, if_neg hi, ih hrest]
      rfl
  obtain ⟨head, body, last, rfl, hhead, hlast, hbody⟩ := hf
  refine hcut hlast (List.forall_mem_cons.mpr ⟨?_, ?_⟩)
  · rw [hhead]
    decide
  · intro i hi hend
    exact hbody i hi (by simp [hend])

/-! ## Declarations and preamble -/

namespace Emitter

variable {K : Key → Prop} {s s' w : Emitter}

/-- A global id is the result of a definition. -/
theorem global_iff {u : Id} :
    s.Global u ↔ ∃ d ∈ s.draft.emitted .globals, d.resultId = some u := by
  constructor
  · rintro ⟨d, hd, hresult⟩
    exact ⟨d, Draft.mem_emitted.mpr hd, hresult⟩
  · rintro ⟨d, hd, hresult⟩
    exact ⟨d, Draft.mem_emitted.mp hd, hresult⟩

/-- What may be added to the second part uses only what is there. -/
theorem Permits.uses_global {i : Instruction} (h : s.Permits K .globals i) :
    ∀ u ∈ i.uses, s.Global u := by
  cases h with
  | remark hpart => simp at hpart
  | global _ huses => exact huses
  | pointer _ hpointee => exact List.forall_mem_singleton.mpr hpointee
  | globalVariable _ hT => exact List.forall_mem_singleton.mpr hT

/-- A definition uses only earlier definitions. -/
theorem Reaches.inOrder_globals {v : Version} (h : (Emitter.start v).Reaches K s) :
    InOrder (fun _ => False) (s.draft.emitted .globals) := by
  induction h with
  | refl => exact .nil
  | tail _ hstep ih =>
    rcases hstep.emitted .globals with heq | ⟨i, hpermits, heq⟩
    · rwa [heq]
    · rw [heq]
      refine ih.append (.singleton ?_)
      intro u hu
      exact .inr (global_iff.mp (hpermits.uses_global u hu))

/-- What is said outside of definitions and code is about ids that exist. -/
theorem Reaches.uses_allocated {v : Version} (h : (Emitter.start v).Reaches K s) {part : Section}
    (hpart : part ∉ [.globals, .functions]) {i : Instruction} (hi : s.Has part i) :
    ∀ u ∈ i.uses, s.Allocated u := by
  induction h with
  | refl => simp [Has, Emitter.start] at hi
  | tail _ hstep ih =>
    intro u hu
    refine Reaches.allocated (.single hstep) ?_
    rcases hstep.has_or_permits hi with hold | hpermits
    · exact ih hold u hu
    · cases hpermits with
      | remark _ huses => exact huses u hu
      | _ => simp at hpart

/-! ## Functions -/

/-- The id is defined outside of functions, for use in all of them. -/
def Shares (w : Emitter) (u : Id) : Prop :=
  w.Global u ∨ ∃ d, w.Has .instructionSets d ∧ d.resultId = some u

/-- What an operation may refer to is known. -/
structure Sees (w : Emitter) (Γ : Scope) (known : Id → Prop) : Prop where
  shared : ∀ u, w.Shares u → known u
  globals : ∀ v ∈ Γ.globals, known v.id
  locals : ∀ v ∈ Γ.locals, known v.id

end Emitter

/-- The operands for the next operation. -/
def Progress.stack : Progress → List Id
  | .running stack => stack
  | .returned => []

namespace Emitter

variable {K : Key → Prop} {w : Emitter} {Γ : Scope} {known : Id → Prop}

theorem Sees.mono {known' : Id → Prop} (hknown : ∀ u, known u → known' u) (h : w.Sees Γ known) :
    w.Sees Γ known' where
  shared u hu := hknown u (h.shared u hu)
  globals v hv := hknown _ (h.globals v hv)
  locals v hv := hknown _ (h.locals v hv)

/-- Functions share types. -/
theorem Known.shares_type (hw : w.Known K) {k : Key} {T : Id} (h : w.typeOf? k = some T) :
    w.Shares T :=
  .inl (hw.global_of_typeOf? h)

/-- Functions share constants. -/
theorem Constant.shares {id : Id} {t : Ty} {word : Word} (h : w.Constant id t word) :
    w.Shares id := by
  obtain ⟨T, -, hconstant⟩ := h.emitted
  exact .inl ⟨_, hconstant, rfl⟩

/-- An instruction whose result goes onto the stack. -/
theorem inOrder_result {i : Instruction} {id : Id} {rest : List Id} (hid : i.resultId = some id)
    (huses : ∀ u ∈ i.uses, known u) (hrest : ∀ x ∈ rest, known x) :
    InOrder known [i] ∧ ∀ x ∈ id :: rest, known x ∨ ∃ d ∈ [i], d.resultId = some x := by
  refine ⟨.singleton huses, List.forall_mem_cons.mpr ⟨.inr ⟨i, List.mem_singleton_self i, hid⟩, ?_⟩⟩
  intro x hx
  exact .inl (hrest x hx)

/-- An operation uses what is known, and leaves what is known or its own results. -/
theorem Emits.inOrder (hw : w.Known K) (hΓ : w.Sees Γ known) {st : List Id}
    (hst : ∀ x ∈ st, known x) {op : Operation} {code : List Instruction} {progress : Progress}
    (h : w.Emits Γ st op code progress) :
    InOrder known code ∧
      ∀ x ∈ progress.stack, known x ∨ ∃ d ∈ code, d.resultId = some x := by
  have htype {k : Key} {T : Id} (hT : w.typeOf? k = some T) : known T :=
    hΓ.shared T (hw.shares_type hT)
  have hpush {id : Id} {rest : List Id} (hid : known id) (hrest : ∀ x ∈ rest, known x) :
      InOrder known [] ∧ ∀ x ∈ id :: rest,
        known x ∨ ∃ d ∈ ([] : List Instruction), d.resultId = some x :=
    ⟨.nil, fun x hx => .inl (List.forall_mem_cons.mpr ⟨hid, hrest⟩ x hx)⟩
  have hstore {p x : Id} {rest : List Id} (hp : known p) (hx : known x)
      (hrest : ∀ x ∈ rest, known x) :
      InOrder known [⟨.store, [p, x]⟩] ∧
        ∀ y ∈ rest, known y ∨ ∃ d ∈ [Instruction.mk .store [p, x]], d.resultId = some y := by
    refine ⟨.singleton (List.forall_mem_cons.mpr ⟨hp, List.forall_mem_singleton.mpr hx⟩), ?_⟩
    intro y hy
    exact .inl (hrest y hy)
  cases h with
  | loadField hv => exact hpush (hΓ.globals _ (mem_of_elementAt? hv)) hst
  | loadLocal hv => exact hpush (hΓ.locals _ (mem_of_elementAt? hv)) hst
  | pushUint hid | pushFloat hid => exact hpush (hΓ.shared _ hid.shares) hst
  | dup => exact hpush (hst _ List.mem_cons_self) hst
  | pop => exact ⟨.nil, fun x hx => .inl (hst x (List.mem_cons_of_mem _ hx))⟩
  | storeField hv =>
    obtain ⟨hx, hrest⟩ := List.forall_mem_cons.mp hst
    exact hstore (hΓ.globals _ (mem_of_elementAt? hv)) hx hrest
  | storeLocal hv =>
    obtain ⟨hx, hrest⟩ := List.forall_mem_cons.mp hst
    exact hstore (hΓ.locals _ (mem_of_elementAt? hv)) hx hrest
  | store =>
    obtain ⟨hx, hrest⟩ := List.forall_mem_cons.mp hst
    obtain ⟨hp, hrest⟩ := List.forall_mem_cons.mp hrest
    exact hstore hp hx hrest
  | deref _ _ hid =>
    obtain ⟨hp, hrest⟩ := List.forall_mem_cons.mp hst
    refine inOrder_result rfl ?_ hrest
    exact List.forall_mem_cons.mpr ⟨htype hid.1, List.forall_mem_singleton.mpr hp⟩
  | extract _ _ hid | extract2 _ _ _ hid =>
    obtain ⟨hb, hrest⟩ := List.forall_mem_cons.mp hst
    refine inOrder_result rfl ?_ hrest
    exact List.forall_mem_cons.mpr ⟨htype hid.1, List.forall_mem_singleton.mpr hb⟩
  | access _ _ _ hindex hid =>
    obtain ⟨hb, hrest⟩ := List.forall_mem_cons.mp hst
    refine inOrder_result rfl (List.forall_mem_cons.mpr ⟨htype hid.1, ?_⟩) hrest
    exact List.forall_mem_cons.mpr
      ⟨hb, List.forall_mem_singleton.mpr (hΓ.shared _ hindex.shares)⟩
  | construct _ _ _ hid =>
    refine inOrder_result rfl (List.forall_mem_cons.mpr ⟨htype hid.1, ?_⟩) ?_
    · intro u hu
      exact hst u (List.mem_of_mem_take (List.mem_reverse.mp hu))
    · intro x hx
      exact hst x (List.mem_of_mem_drop hx)
  | math _ _ _ hset hT =>
    obtain ⟨ha, hrest⟩ := List.forall_mem_cons.mp hst
    have hset : known _ := hΓ.shared _ (.inr ⟨_, hset, rfl⟩)
    refine inOrder_result rfl (List.forall_mem_cons.mpr ⟨htype hT, ?_⟩) hrest
    exact List.forall_mem_cons.mpr ⟨hset, List.forall_mem_singleton.mpr ha⟩
  | @binary _ _ l r id T _ _ c t swap _ _ hop hid =>
    obtain ⟨hr, hrest⟩ := List.forall_mem_cons.mp hst
    obtain ⟨hl, hrest⟩ := List.forall_mem_cons.mp hrest
    have hknown : ∀ u ∈ [T, l, r], known u :=
      List.forall_mem_cons.mpr ⟨htype hid.1, List.forall_mem_cons.mpr ⟨hl, by simpa using hr⟩⟩
    refine inOrder_result (resultId_arithmetic hop.opcode_mem swap) ?_ hrest
    intro u hu
    exact hknown u (uses_arithmetic hop.opcode_mem T id l r swap hu)
  | @narrowVec4 _ v x y z id F T _ hx hy hz hid =>
    obtain ⟨hv, hrest⟩ := List.forall_mem_cons.mp hst
    have hF : known F := htype hx.1
    have hT : known T := htype hid.1
    refine ⟨?_, List.forall_mem_cons.mpr ⟨.inr ?_, fun y hy => .inl (hrest y hy)⟩⟩
    swap
    · exact ⟨⟨.compositeConstruct, [T, id, x, y, z]⟩, by simp, rfl⟩
    -- Each component is an earlier result when the vector is made of them.
    refine .cons (List.forall_mem_cons.mpr ⟨hF, List.forall_mem_singleton.mpr hv⟩) ?_
    refine .cons (List.forall_mem_cons.mpr ⟨.inl hF, List.forall_mem_singleton.mpr (.inl hv)⟩) ?_
    refine .cons (List.forall_mem_cons.mpr
      ⟨.inl (.inl hF), List.forall_mem_singleton.mpr (.inl (.inl hv))⟩) (.singleton ?_)
    refine List.forall_mem_cons.mpr ⟨.inl (.inl (.inl hT)), ?_⟩
    refine List.forall_mem_cons.mpr ⟨.inl (.inl (.inr rfl)), ?_⟩
    exact List.forall_mem_cons.mpr ⟨.inl (.inr rfl), List.forall_mem_singleton.mpr (.inr rfl)⟩
  | ret => exact ⟨.singleton (List.forall_mem_nil _), nofun⟩
  | retValue =>
    obtain ⟨hx, -⟩ := List.forall_mem_cons.mp hst
    exact ⟨.singleton (List.forall_mem_singleton.mpr hx), nofun⟩

/-- The invariant along a body is that all operands on the stack are known. -/
theorem EmitsAll.inOrder (hw : w.Known K) (hΓ : w.Sees Γ known) {progress progress' : Progress}
    (hst : ∀ x ∈ progress.stack, known x) {ops : List Operation} {code : List Instruction}
    (h : w.EmitsAll Γ progress ops code progress') : InOrder known code := by
  induction h generalizing known with
  | nil => exact .nil
  | cons hop _ ih =>
    obtain ⟨horder, hstack⟩ := hop.inOrder hw hΓ hst
    exact horder.append (ih (hΓ.mono fun _ hu => .inl hu) hstack)

/-- Locals use nothing but types. -/
theorem DeclaresLocals.inOrder (hw : w.Known K) {ls : List Local} {vs : List Variable}
    {code : List Instruction} (h : w.DeclaresLocals ls vs code) : InOrder w.Shares code := by
  induction h with
  | nil => exact .nil
  | cons _ _ hT _ _ ih =>
    refine .cons (List.forall_mem_singleton.mpr (hw.shares_type hT)) ?_
    exact ih.mono fun _ hu => .inl hu

/-- A function uses what is shared, and its own earlier results. -/
theorem EmitsMethod.inOrder (hw : w.Known K) {globals : List Variable}
    (hglobals : ∀ v ∈ globals, w.Shares v.id) {m : Method} {f : Function} {code : List Instruction}
    (h : w.EmitsMethod globals m f code) : InOrder w.Shares code := by
  cases h with
  | @intro F l declarations body ending progress _ hresult hF hlocals hbody hending =>
    have hfunction : ∀ u ∈ [f.returnType, F], w.Shares u :=
      List.forall_mem_cons.mpr
        ⟨hw.shares_type hresult, List.forall_mem_singleton.mpr (.inl ⟨_, hF, rfl⟩)⟩
    refine .cons hfunction (.cons (List.forall_mem_nil _) ?_)
    refine ((InOrder.append ?_ ?_).append ?_).append ?_
    · exact (hlocals.inOrder hw).mono fun _ hu => .inl (.inl hu)
    · refine hbody.inOrder hw ⟨?_, ?_, ?_⟩ nofun
      · exact fun u hu => .inl (.inl (.inl hu))
      · exact fun v hv => .inl (.inl (.inl (hglobals v hv)))
      · intro v hv
        have hresult : v.id ∈ declarations.filterMap Instruction.resultId := by
          rw [hlocals.results]
          exact List.mem_map_of_mem hv
        exact .inr (List.mem_filterMap.mp hresult)
    · refine .of_uses_eq_nil ?_
      cases hending with
      | returned => nofun
      | running => exact List.forall_mem_singleton.mpr rfl
    · exact .singleton (List.forall_mem_nil _)

/-- A method becomes one function. -/
theorem EmitsMethod.isFunction {globals : List Variable} {m : Method} {f : Function}
    {code : List Instruction} (h : w.EmitsMethod globals m f code) : IsFunction code := by
  cases h with
  | @intro F l declarations body ending progress _ _ _ hlocals hbody hending =>
    have hlabel : Opcode.label ∉ [.function, .functionEnd] := by decide
    have hvar : Opcode.var ∉ [.function, .functionEnd] := by decide
    have hret : Opcode.ret ∉ [.function, .functionEnd] := by decide
    have hdispatch : ∀ op ∈ bodyOpcodes, op ∉ [.function, .functionEnd] := by decide
    refine ⟨⟨.function, [f.returnType, f.id, 0, F]⟩,
      ⟨.label, [l]⟩ :: (declarations ++ body ++ ending), ⟨.functionEnd, []⟩, rfl, rfl, rfl, ?_⟩
    refine List.forall_mem_cons.mpr ⟨hlabel, ?_⟩
    refine List.forall_mem_append.mpr ⟨List.forall_mem_append.mpr ⟨?_, ?_⟩, ?_⟩
    · exact fun i hi => hlocals.opcode_eq i hi ▸ hvar
    · exact fun i hi => hdispatch _ (hbody.opcode_mem i hi)
    · exact fun i hi => hending.opcode_eq i hi ▸ hret

/-- Cutting the code of methods gives back the code of each. -/
theorem EmitsMethods.inOrder (hw : w.Known K) {globals : List Variable}
    (hglobals : ∀ v ∈ globals, w.Shares v.id) {ms : List Method} {fs : List Function}
    {code : List Instruction} (h : w.EmitsMethods globals ms fs code) :
    ∀ f ∈ cutFunctions code, IsFunction f ∧ InOrder w.Shares f := by
  induction h with
  | nil => nofun
  | cons hm _ ih =>
    rw [cutFunctions_append hm.isFunction]
    exact List.forall_mem_cons.mpr ⟨⟨hm.isFunction, hm.inOrder hw hglobals⟩, ih⟩

/-- Function code begins with the start of a function. -/
theorem EmitsMethods.takeWhile_eq_nil {globals : List Variable} {ms : List Method}
    {fs : List Function} {code : List Instruction} (h : w.EmitsMethods globals ms fs code) :
    code.takeWhile (·.opcode ≠ .function) = [] := by
  cases h with
  | nil => rfl
  | cons hm =>
    obtain ⟨head, body, last, rfl, hhead, -⟩ := hm.isFunction
    simp [hhead]

/-! ## Whole modules -/

/-- The three parts, one after the other. -/
theorem instructions_eq_sections (w : Emitter) : w.toModule.instructions =
    Section.leading.flatMap w.draft.contents ++ w.draft.emitted .globals ++ w.code := by
  have horder : Section.order = Section.leading ++ [.globals, .functions] := by decide
  have hsections : [Section.globals, .functions].flatMap w.draft.contents =
      w.draft.emitted .globals ++ w.code := by
    rw [List.flatMap_cons, List.flatMap_singleton]
    rfl
  rw [Draft.instructions_toModule, Draft.instructions, horder, List.flatMap_append, hsections,
    List.append_assoc]

/-- The parts of an emitted module are its sections. -/
theorem parts_eq (hw : w.draft.WellFilled) {globals : List Variable} {ms : List Method}
    {fs : List Function} (h : w.EmitsMethods globals ms fs w.code) :
    w.toModule.preamble = Section.leading.flatMap w.draft.contents ∧
      w.toModule.declarations = w.draft.emitted .globals ∧
      w.toModule.functions = cutFunctions w.code := by
  -- No opcode belongs to more than one of these parts, so the parts can be told apart again.
  have hdispatch : ∀ part ∈ Section.leading, ∀ op ∈ part.opcodes,
      op ∉ Section.globals.opcodes ∧ op ≠ .function := by decide
  have hleading : ∀ i ∈ Section.leading.flatMap w.draft.contents,
      i.opcode ∉ Section.globals.opcodes ∧ i.opcode ≠ .function := by
    intro i hi
    obtain ⟨part, hpart, hi⟩ := List.mem_flatMap.mp hi
    exact hdispatch part hpart _ (hw.parts _ (Draft.mem_contents hi))
  have hglobals : ∀ i ∈ w.draft.emitted .globals, i.opcode ∈ Section.globals.opcodes :=
    fun i hi => hw.parts _ (Draft.mem_emitted.mp hi)
  have hfunction : ∀ op ∈ Section.globals.opcodes, op ≠ .function := by decide
  have hbefore : ∀ i ∈ Section.leading.flatMap w.draft.contents ++ w.draft.emitted .globals,
      decide (i.opcode ≠ .function) = true := by
    refine List.forall_mem_append.mpr ⟨?_, ?_⟩
    · exact fun i hi => decide_eq_true (hleading i hi).2
    · exact fun i hi => decide_eq_true (hfunction _ (hglobals i hi))
  have hhead : w.toModule.head =
      Section.leading.flatMap w.draft.contents ++ w.draft.emitted .globals := by
    rw [Module.head, instructions_eq_sections, List.takeWhile_append_of_pos hbefore,
      h.takeWhile_eq_nil, List.append_nil]
  refine ⟨?_, ?_, ?_⟩
  · rw [Module.preamble, hhead, List.filter_append, List.filter_eq_self.mpr ?_,
      List.filter_eq_nil_iff.mpr ?_, List.append_nil]
    · exact fun i hi => by simp [hglobals i hi]
    · exact fun i hi => decide_eq_true (hleading i hi).1
  · rw [Module.declarations, hhead, List.filter_append, List.filter_eq_nil_iff.mpr ?_,
      List.filter_eq_self.mpr ?_, List.nil_append]
    · exact fun i hi => decide_eq_true (hglobals i hi)
    · exact fun i hi => by simp [(hleading i hi).1]
  · have hcode := List.takeWhile_append_dropWhile (p := (·.opcode ≠ .function)) (l := w.code)
    rw [h.takeWhile_eq_nil, List.nil_append] at hcode
    rw [Module.functions, instructions_eq_sections, List.dropWhile_append_of_pos hbefore, hcode]

end Emitter

/-- What was emitted from a program is scoped. -/
theorem Program.EmittedAs.scoped {N : String → Prop} {p : Program} {r : Record} {words : List Word}
    {w : Emitter} (hw : p.EmittedAs N r words w) {K : Key → Prop} {v : Version}
    (hreach : (Emitter.start v).Reaches K w) : w.toModule.Scoped := by
  have hfilled := hw.consistent.filled
  have hglobals : ∀ v ∈ r.globals, w.Shares v.id := by
    intro v hv
    obtain ⟨f, -, hf⟩ := Emitter.exists_declaresField hw.fields v hv
    obtain ⟨T, -, hvar⟩ := hf.emitted
    exact .inl ⟨_, hvar, rfl⟩
  have hcode := hw.methods.inOrder ((Emitter.known_start v).reaches hreach) hglobals
  obtain ⟨hpreamble, hdeclarations, hfunctions⟩ := Emitter.parts_eq hfilled hw.methods
  have hshares : ∀ u, w.Shares u → w.toModule.Shares u := by
    rintro u (hglobal | ⟨d, hd, hresult⟩)
    · obtain ⟨d, hd, hresult⟩ := Emitter.global_iff.mp hglobal
      exact ⟨d, hresult, .inl (hdeclarations ▸ hd)⟩
    · have hopcode : d.opcode ∈ [.extInstImport] := hfilled.parts _ hd
      refine ⟨d, hresult, .inr ⟨?_, List.mem_singleton.mp hopcode⟩⟩
      rw [hpreamble]
      exact List.mem_flatMap.mpr ⟨.instructionSets, by decide, Draft.mem_emitted.mpr hd⟩
  constructor
  case complete =>
    rw [hpreamble, hdeclarations, hfunctions, flatten_cutFunctions,
      Emitter.instructions_eq_sections]
  case separate =>
    rw [hfunctions]
    exact fun f hf => (hcode f hf).1
  case distinct => exact Emitter.nodup_results hfilled hw.noWrap
  case preamble =>
    intro i hi u hu
    rw [hpreamble] at hi
    obtain ⟨part, hpart, hi⟩ := List.mem_flatMap.mp hi
    have hleading : part ∉ [.globals, .functions] := by
      simpa using (List.mem_filter.mp hpart).2
    obtain ⟨part', j, hj, hresult⟩ := hreach.uses_allocated hleading (Draft.mem_contents hi) u hu
    refine List.mem_filterMap.mpr ⟨j, ?_, hresult⟩
    rw [Draft.instructions_toModule]
    exact Draft.mem_instructions_of_result hfilled hj hresult
  case declarations =>
    rw [hdeclarations]
    exact hreach.inOrder_globals
  case functions =>
    rw [hfunctions]
    exact fun f hf => (hcode f hf).2.mono hshares

/-- A compiled module is scoped: definitions come before their uses, and functions do not see into
each other. -/
theorem scoped_of_compile {p : Program} {o : Options} {words : List Word}
    (hids : p.idsTaken o < idLimit) (h : (compile (some p) o).words = .ok words) :
    ∃ m, Module.decode words = .ok m ∧ m.Scoped := by
  obtain ⟨c, hrun, hwords, -⟩ := emitModule_of_compile h
  have hemitted := emittedAs_of_emitModule p.named_all hids hrun hwords
  have hreach := Program.reaches_of_emitModule id (p.within_all o False) hrun
  exact ⟨_, hemitted.decoded, hemitted.scoped hreach⟩

/-- A stage with two functions, which share types, constants and fields. -/
theorem scoped_of_compile_tint : ∃ words m, (compile (some .tint) {}).words = .ok words ∧
    Module.decode words = .ok m ∧ m.Scoped := by
  obtain ⟨words, hwords⟩ := compile_tint
  obtain ⟨m, hm, hscoped⟩ := scoped_of_compile idsTaken_tint hwords
  exact ⟨words, m, hwords, hm, hscoped⟩

end ShaderStage

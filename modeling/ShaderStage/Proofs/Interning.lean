import ShaderStage.Proofs.Emission

/-! # Interning

What steps do to a consistent emitter. A turn extends a consistent emitter to a consistent one as
long as the ids do not wrap (`Emitter.Turn.sustains`), so all that is emitted in turns does. A step
meets a specification if, whenever the ids do not wrap, it ends in a consistent extension of the
emitter, either with a result that has the stated property or refused for the stated reason. Asking
for a type succeeds exactly on the supported types and gives the one id under which the emitter
knows the type (`Emit.typeId_meets`). -/

namespace ShaderStage

/-! ## Specifications of steps -/

section

variable {σ α β : Type} [HasEmitter σ] {N : String → Prop}

open HasEmitter (emitter)

/-- How a step from `c` may end. -/
def Ends (N : String → Prop) (c : σ) (Q : α → σ → Prop) (E : CompileError → Prop) :
    EStateM.Result Failure σ α → Prop
  | .ok a c' => (emitter c).Extends (emitter c') ∧ (emitter c').Consistent N ∧ Q a c'
  | .error (.refused e) c' => (emitter c).Extends (emitter c') ∧ (emitter c').Consistent N ∧ E e
  | .error (.fault _) _ => False

/-- The step from `c` ends with `Q`, or is refused with `E`, unless the ids wrap. -/
def Meets (N : String → Prop) (x : EStateM Failure σ α) (c : σ) (Q : α → σ → Prop)
    (E : CompileError → Prop) : Prop :=
  (emitter c).IsOpen → (emitter (endState (x c))).NoWrap → Ends N c Q E (x c)

/-- If the ids have not wrapped by now, they had not wrapped before. -/
theorem Emitter.NoWrap.of_grows {s s' : Emitter} (h : s'.NoWrap) (hgrow : s.draft.Grows s'.draft) :
    s.NoWrap :=
  Nat.lt_of_le_of_lt hgrow.taken h

theorem Ends.trans {c c' : σ} {Q : α → σ → Prop} {E : CompileError → Prop}
    {r : EStateM.Result Failure σ α} (h : (emitter c).Extends (emitter c'))
    (hr : Ends N c' Q E r) : Ends N c Q E r := by
  cases r with
  | ok a c'' => exact ⟨h.trans hr.1, hr.2⟩
  | error e c'' =>
    cases e with
    | refused e => exact ⟨h.trans hr.1, hr.2⟩
    | fault f => exact hr

namespace Meets

variable {x : EStateM Failure σ α} {f : α → EStateM Failure σ β} {c : σ} {P : α → σ → Prop}
  {Q : β → σ → Prop} {E F : CompileError → Prop}

/-- What follows may rely on what was proved of the first part, in a consistent extension. -/
theorem seq [g : Growing x] [k : ∀ a, Growing (f a)] (hx : Meets N x c P E)
    (hf : ∀ a c', (emitter c).Extends (emitter c') → (emitter c').Consistent N → P a c' →
      Meets N (f a) c' Q E) : Meets N (x >>= f) c Q E := by
  intro hopen hwrap
  rw [bind_apply] at hwrap ⊢
  cases hrun : x c with
  | ok a c' =>
    have hopen' := g.isOpen hopen hrun
    rw [hrun] at hwrap
    -- The rest only takes more ids: if they have not wrapped after it, they have not before.
    have hends : Ends N c P E (x c) := by
      refine hx hopen ?_
      rw [hrun]
      exact hwrap.of_grows ((k a).grows c' hopen')
    rw [hrun] at hends
    obtain ⟨hext, hcons, hP⟩ := hends
    exact (hf a c' hext hcons hP hopen' hwrap).trans hext
  | error e c' =>
    rw [hrun] at hwrap
    have hends : Ends N c P E (x c) := by
      refine hx hopen ?_
      rw [hrun]
      exact hwrap
    rw [hrun] at hends
    cases e with
    | refused e => exact hends
    | fault f => exact hends

/-- Less can be said about results and errors. -/
theorem weaken {R : α → σ → Prop} (hx : Meets N x c P E)
    (hQ : ∀ a c', (emitter c).Extends (emitter c') → (emitter c').Consistent N → P a c' → R a c')
    (hE : ∀ e, E e → F e) : Meets N x c R F := by
  intro hopen hwrap
  have hends := hx hopen hwrap
  cases hrun : x c with
  | ok a c' =>
    rw [hrun] at hends
    exact ⟨hends.1, hends.2.1, hQ a c' hends.1 hends.2.1 hends.2.2⟩
  | error e c' =>
    rw [hrun] at hends
    cases e with
    | refused e => exact ⟨hends.1, hends.2.1, hE e hends.2.2⟩
    | fault f => exact hends

theorem get {g : σ → EStateM Failure σ α} (h : Meets N (g c) c P E) :
    Meets N (MonadState.get >>= g) c P E :=
  h

theorem pure {a : α} (hc : (emitter c).Consistent N) (ha : P a c) :
    Meets N (Pure.pure a) c P E :=
  fun _ _ => ⟨.refl _, hc, ha⟩

theorem refused {e : CompileError} (hc : (emitter c).Consistent N) (he : E e) :
    Meets N (throw (.refused e)) c P E :=
  fun _ _ => ⟨.refl _, hc, he⟩

/-- A change of the state is an extension that was proved consistent. -/
theorem modify {g : σ → σ} {P : PUnit → σ → Prop} (hext : (emitter c).Extends (emitter (g c)))
    (hc : (emitter (g c)).Consistent N) (hP : P ⟨⟩ (g c)) :
    Meets N (modify g : EStateM Failure σ PUnit) c P E :=
  fun _ _ => ⟨hext, hc, hP⟩

theorem refused_bind {e : CompileError} (hc : (emitter c).Consistent N) (he : E e) :
    Meets N ((throw (.refused e) : EStateM Failure σ α) >>= f) c Q E :=
  fun _ _ => ⟨.refl _, hc, he⟩

end Meets

end

section

variable {α β : Type} {N : String → Prop} {x : Emit α} {s : Emitter} {P R : α → Emitter → Prop}
  {E F : CompileError → Prop}

/-- `Meets.seq` for emissions. -/
theorem Meets.bind {f : α → Emit β} {Q : β → Emitter → Prop} [Growing x] [∀ a, Growing (f a)]
    (hx : Meets N x s P E)
    (hf : ∀ a s', s.Extends s' → s'.Consistent N → P a s' → Meets N (f a) s' Q E) :
    Meets N (x >>= f) s Q E :=
  hx.seq hf

theorem Meets.mono (hx : Meets N x s P E)
    (hQ : ∀ a s', s.Extends s' → s'.Consistent N → P a s' → R a s') (hE : ∀ e, E e → F e) :
    Meets N x s R F :=
  hx.weaken hQ hE

/-- Less can be said about errors. -/
theorem Meets.refusing (hx : Meets N x s P E) (hE : ∀ e, E e → F e) : Meets N x s P F :=
  hx.mono (fun _ _ _ _ h => h) hE

end

/-! ## Turns of a consistent emitter -/

/-- Keys of the kind have types whose names are all of the kind `N`, and no id is renamed. -/
structure Kinds.Names (κ : Kinds) (N : String → Prop) : Prop where
  key : ∀ k, κ.key k → k.type.Named N
  foreign : ¬ κ.foreign

namespace Emitter

variable {N : String → Prop} {κ : Kinds} {s s' : Emitter} {id : Id}
  {pub new : List (Section × Instruction)}

/-- Ids handed out from here on are not results of earlier instructions. -/
theorem not_allocated_of_mem_idsBetween (hs : s.draft.WellFilled) (hwrap : s'.NoWrap)
    (hid : id ∈ idsBetween s.draft.ids.taken s'.draft.ids.taken) : ¬ s.Allocated id := by
  rintro ⟨part, i, hi, hresult⟩
  have hmem : id ∈ s.draft.log.toList.filterMap (·.2.resultId) :=
    List.mem_filterMap.mpr ⟨(part, i), hi, hresult⟩
  rw [hs.results, mem_idsBetween] at hmem
  obtain ⟨n, -, hn, rfl⟩ := hmem
  obtain ⟨m, hm, hm', heq⟩ := mem_idsBetween.mp hid
  have hwrapped : m < idLimit := Nat.lt_trans hm' hwrap
  have htaken := Id.nth_inj hwrapped (by omega) heq.symm
  omega

/-- The later emitter extends the earlier one and is consistent. -/
structure Sustains (N : String → Prop) (s s' : Emitter) : Prop where
  extend : s.Extends s'
  consistent : s'.Consistent N

theorem Sustains.refl (hs : s.Consistent N) : s.Sustains N s :=
  ⟨.refl s, hs⟩

theorem Sustains.trans {s₁ s₂ s₃ : Emitter} (h : s₁.Sustains N s₂) (h' : s₂.Sustains N s₃) :
    s₁.Sustains N s₃ :=
  ⟨h.extend.trans h'.extend, h'.consistent⟩

/-- More instructions, of which the variables of the module are declared as they are used. -/
theorem Logs.sustains (h : s.Logs new s') (hs : s.Consistent N)
    (hvar : ∀ e ∈ new, e.1 = .globals → e.2.opcode = .var → s.Declares N e.2.operands) :
    s.Sustains N s' := by
  have hlog := h.log
  have hgrows := h.grows
  rw [h.tables]
  generalize s'.draft = d at hlog hgrows
  have hext : s.Extends { s with draft := d } := .of_draft hgrows rfl rfl rfl
  refine ⟨hext, hs.extend hext (v := fun {operands} hv => ?_)⟩
  rw [Has, hlog, List.mem_append] at hv
  rcases hv with hv | hv
  · exact .inl hv
  · exact .inr ((hvar _ hv rfl rfl).mono hext)

/-- Remarks do not touch what is known. -/
theorem Remarks.sustains (h : s.Remarks s') (hs : s.Consistent N) : s.Sustains N s' := by
  have hremarks : ∀ part ∈ Section.remarks, part ≠ .globals := by decide
  obtain ⟨new, hlogs, hnew⟩ := h
  exact hlogs.sustains hs fun e he hpart => absurd hpart (hremarks _ (hnew e he).part)

/-- A new type is emitted before it is recorded, so nothing that is known changes. -/
theorem Enters.sustains {k : Key} (h : s.Enters k id s') (hs : s.Consistent N) :
    s.Sustains N s' := by
  have hremarks : ∀ part ∈ Section.remarks, part ≠ .globals := by decide
  have hinterned : ∀ op ∈ Opcode.interned, op ≠ .var := by decide
  obtain ⟨d, new, hlogs, -, -, hop, hnew⟩ := h.logs
  refine hlogs.sustains hs fun e he hpart hvar => ?_
  rcases hnew e he with rfl | hremark | ⟨-, T, image, operands, -, hi⟩
  · exact absurd hvar (hinterned _ hop)
  · exact absurd hpart (hremarks _ hremark.part)
  · rw [hi] at hvar
    cases hvar

/-- One instruction with a new id, which nothing is recorded about. -/
theorem Logs.sustains_define {e : Section × Instruction} (h : s.Logs [e] s') (hs : s.Consistent N)
    (hwrap : s'.NoWrap) (hid : e.2.resultId = some id)
    (hvar : e.1 = .globals → e.2.opcode = .var → s.Declares N e.2.operands) :
    s.Sustains N s' ∧ s'.bindings.lookup id = none ∧ s'.Allocated id := by
  have hfresh := not_allocated_of_mem_idsBetween hs.filled hwrap
    (h.mem_idsBetween (List.mem_singleton_self e) hid)
  refine ⟨h.sustains hs (List.forall_mem_singleton.mpr hvar), ?_, e.1, e.2, ?_, hid⟩
  · rw [h.bindings]
    exact hs.lookup_eq_none hfresh
  · rw [Has, h.log]
    exact List.mem_append_right _ (List.mem_singleton_self e)

theorem sustains_record (hs : s.Consistent N) (hid : s.bindings.lookup id = none)
    (halloc : s.Allocated id) {key : Key} (hkey : key.type.Named N) (text : String) :
    s.Sustains N (s.record id key text) :=
  ⟨extends_record hid key text, hs.record hid halloc key hkey text⟩

/-- A value with the key of its type. -/
theorem sustains_value {part : Section} {i : Instruction} (hs : s.Consistent N)
    (hdefine : s.Logs [(part, i)] (s.define part i)) (hwrap : (s.define part i).NoWrap)
    (hid : i.resultId = some id)
    (hvar : part = .globals → i.opcode = .var → s.Declares N i.operands) {key : Key}
    (hkey : key.type.Named N) (text : String) :
    s.Sustains N ((s.define part i).record id key text) := by
  obtain ⟨h₁, hunbound, halloc⟩ := hdefine.sustains_define hs hwrap hid hvar
  exact h₁.trans (sustains_record h₁.consistent hunbound halloc hkey text)

/-- A value that is recorded again, with a name. -/
theorem sustains_rerecord (hs : s.Consistent N) (hid : s.bindings.lookup id = none)
    (halloc : s.Allocated id) {key : Key} (hkey : key.type.Named N) (text : String) :
    s.Sustains N ((s.record id key "").record id key text) := by
  have hext : s.Extends ((s.record id key "").record id key text) :=
    { draft := .refl _
      types := fun h => h
      uints := fun h => h
      bindings := fun {id' b} h => by
        have hne : id' ≠ id := by
          rintro rfl
          cases hid.symm.trans h
        show List.lookup id' (_ :: _ :: s.bindings) = some b
        rw [lookup_cons_eq_ite, if_neg hne, lookup_cons_eq_ite, if_neg hne, h] }
  refine ⟨hext, hs.extend hext (b := fun hb => ?_)⟩
  have hrecorded := (sustains_record hs hid halloc hkey "").consistent
  rcases lookup_cons_eq_some hb with ⟨rfl, rfl⟩ | hb
  · exact .inr ⟨halloc.mono hext, key.normalize_normalize, (key.named_normalize).mpr hkey⟩
  · obtain ⟨halloc', hkey'⟩ := hrecorded.bindings hb
    exact .inr ⟨halloc', hkey'⟩

/-- A value that gets its name before it is recorded. -/
theorem sustains_labelled {part : Section} {i : Instruction} (hs : s.Consistent N)
    (hdefine : s.Logs [(part, i)] (s.define part i)) (hwrap : (s.define part i).NoWrap)
    (hid : i.resultId = some id)
    (hvar : part = .globals → i.opcode = .var → s.Declares N i.operands) {key : Key}
    (hkey : key.type.Named N) (text : String) :
    s.Sustains N ((s.define part i).labelled id key text) := by
  obtain ⟨h₁, hunbound, halloc⟩ := hdefine.sustains_define hs hwrap hid hvar
  have h₂ := (remarks_label (s.define part i) id text).sustains h₁.consistent
  exact (h₁.trans h₂).trans
    (sustains_record h₂.consistent hunbound (halloc.mono h₂.extend) hkey text)

/-! ### Tables -/

theorem sustains_mathSet (hs : s.Consistent N)
    (h : s.Has .instructionSets ⟨.extInstImport, id :: Literal.ofString mathSetName⟩) :
    s.Sustains N { s with mathSet := some id } := by
  have hext : s.Extends { s with mathSet := some id } := .of_draft (.refl _) rfl rfl rfl
  refine ⟨hext, hs.extend hext (m := fun hid => ?_)⟩
  cases hid
  exact .inr h

theorem sustains_functionType (hs : s.Consistent N) {result : Id}
    (h : s.Has .globals ⟨.typeFunction, [id, result]⟩) :
    s.Sustains N { s with functionTypes := (result, id) :: s.functionTypes } := by
  have hext : s.Extends { s with functionTypes := (result, id) :: s.functionTypes } :=
    .of_draft (.refl _) rfl rfl rfl
  refine ⟨hext, hs.extend hext (r := fun hr => ?_)⟩
  rcases lookup_cons_eq_some hr with ⟨rfl, rfl⟩ | hr
  · exact .inr h
  · exact .inl hr

theorem sustains_blocks (hs : s.Consistent N) (blocks : List Id) :
    s.Sustains N { s with blocks } := by
  have hext : s.Extends { s with blocks } := .of_draft (.refl _) rfl rfl rfl
  exact ⟨hext, hs.extend hext⟩

theorem sustains_addConstant (hs : s.Consistent N) {pool : Pool} {bits : Word}
    (hnone : (s.constants pool).lookup bits = none) (h : s.Constant id pool.type bits) :
    s.Sustains N (s.addConstant pool bits id) := by
  cases pool with
  | uint =>
    have hext : s.Extends (s.addConstant .uint bits id) :=
      { draft := .refl _
        types := fun h => h
        uints := fun h => lookup_cons_of_some hnone h
        bindings := fun h => h }
    refine ⟨hext, hs.extend hext (u := fun hv => ?_)⟩
    rcases lookup_cons_eq_some hv with ⟨rfl, rfl⟩ | hv
    · exact .inr (h.mono hext)
    · exact .inl hv
  | float =>
    have hext : s.Extends (s.addConstant .float bits id) := .of_draft (.refl _) rfl rfl rfl
    refine ⟨hext, hs.extend hext (f := fun hv => ?_)⟩
    rcases lookup_cons_eq_some hv with ⟨rfl, rfl⟩ | hv
    · exact .inr (h.mono hext)
    · exact .inl hv

/-- A constant is what its pool says it is. -/
theorem sustains_newConstant (hs : s.Consistent N) {pool : Pool} {T : Id} {bits : Word}
    (hT : s.typeOf? (.value pool.type) = some T)
    (hunknown : (s.constants pool).lookup bits = none)
    (hwrap : (s.newConstant T pool bits).NoWrap) : s.Sustains N (s.newConstant T pool bits) := by
  have hbasic : pool.type.Named N ∧ (Key.value pool.type).normalize = .value pool.type := by
    cases pool <;> exact ⟨trivial, rfl⟩
  rw [NoWrap, draft_newConstant] at hwrap
  -- The constant is defined, named and recorded, and only then remembered by its value.
  have hdefine : s.Logs [(.globals, ⟨.constant, [T, s.nextId, bits]⟩)] _ :=
    .typedResult (by decide) (by decide)
  have hlabelled : s.Sustains N ((s.define .globals ⟨.constant, [T, s.nextId, bits]⟩).labelled
      s.nextId (.value pool.type) (pool.text bits)) :=
    sustains_labelled hs hdefine hwrap rfl (fun _ => nofun) hbasic.1 _
  refine hlabelled.trans (sustains_addConstant hlabelled.consistent ?_ ?_)
  · cases pool <;> exact hunknown
  · have hhas : ((s.define .globals ⟨.constant, [T, s.nextId, bits]⟩).labelled s.nextId
        (.value pool.type) (pool.text bits)).Has .globals ⟨.constant, [T, s.nextId, bits]⟩ :=
      has_put.mpr (.inl (has_define_self _ _ _))
    exact ⟨value_labelled hT hbasic.2 rfl rfl _, T, hlabelled.extend.types hT, hhas⟩

/-- The mathematical instruction set is the one that is imported. -/
theorem sustains_importMath (hs : s.Consistent N) : s.Sustains N s.importMath := by
  unfold importMath
  split
  · exact .refl hs
  · have hdefine : s.Logs [(.instructionSets,
        ⟨.extInstImport, s.nextId :: Literal.ofString mathSetName⟩)] _ :=
      .result (by decide) (by decide)
    have h₁ := hdefine.sustains hs (List.forall_mem_singleton.mpr nofun)
    exact h₁.trans (sustains_mathSet h₁.consistent (has_define_self _ _ _))

/-- What changes no table sustains consistency. -/
theorem Notes.sustains (h : s.Notes κ pub s') (hs : s.Consistent N) : s.Sustains N s' := by
  have hput {part : Section} {i : Instruction} (hpart : part ≠ .globals)
      (h : s.Logs [(part, i)] s') : s.Sustains N s' :=
    h.sustains hs (List.forall_mem_singleton.mpr fun heq => absurd heq hpart)
  cases h with
  | @abandoned name members storage ids hkey hids =>
    have hdefine : s.Logs [(.globals, ⟨.typeStruct, s.nextId :: ids⟩)] _ :=
      .result (by decide) (by decide)
    have h₁ := hdefine.sustains hs (List.forall_mem_singleton.mpr nofun)
    exact h₁.trans ((s.remarks_structured name members ids).sustains h₁.consistent)
  | performed h => exact hput (by decide) (.put h.spec.1 h.spec.2.1)
  | @function text htext result type =>
    have hdefine : s.Logs [(.functions, ⟨.function, [result, s.nextId, 0, type]⟩)] _ :=
      .typedResult (by decide) (by decide)
    have h₁ := hdefine.sustains hs (List.forall_mem_singleton.mpr nofun)
    exact h₁.trans ((remarks_label _ _ _).sustains h₁.consistent)
  | label => exact hput (by decide) (.result (by decide) (by decide))
  | capability c => exact (s.remarks_declare c).sustains hs
  | decoration => exact hput (by decide) (.put (by decide) (by decide))
  | string => exact hput (by decide) (.result (by decide) (by decide))
  | announced h =>
    refine hput ?_ (.put h.spec.1 h.spec.2)
    cases h <;> decide

/-- A turn of a consistent emitter ends in a consistent one, unless the ids wrap. -/
theorem Turn.sustains (hκ : κ.Names N) (h : Turn κ s pub s') (hs : s.Consistent N)
    (hwrap : s'.NoWrap) : s.Sustains N s' := by
  have hpart : Section.functions ≠ .globals := by decide
  cases h with
  | @type key id s₁ hkey hunknown h =>
    obtain ⟨d, new, hlogs, hd, hid, -⟩ := h.logs
    have h₁ := h.sustains hs
    have hfresh := not_allocated_of_mem_idsBetween hs.filled hwrap (hlogs.mem_idsBetween hd hid)
    have hunbound : s₁.bindings.lookup id = none := by
      rw [h.bindings]
      exact hs.lookup_eq_none hfresh
    have hnone : s₁.typeOf? key = none := by rw [typeOf?, h.types, ← typeOf?, hunknown]
    have halloc : s₁.Allocated id := by
      refine ⟨.globals, d, ?_, hid⟩
      rw [Has, hlogs.log]
      exact List.mem_append_right _ hd
    exact h₁.trans ⟨extends_cache hnone hunbound,
      h₁.consistent.cache hnone hunbound halloc (hκ.key _ hkey) h.defines⟩
  | constant hT hunknown => exact sustains_newConstant hs hT hunknown hwrap
  | @functionType result hresult hunknown =>
    have hdefine : s.Logs [(.globals, ⟨.typeFunction, [s.nextId, result]⟩)] _ :=
      .result (by decide) (by decide)
    have hop : Opcode.typeFunction ≠ .var := by decide
    have h₁ := hdefine.sustains hs (List.forall_mem_singleton.mpr fun _ hvar => absurd hvar hop)
    exact h₁.trans (sustains_functionType h₁.consistent (has_define_self _ _ _))
  | @value op operands key T text s₁ hop hkey htext hT hs₁ =>
    have hdefine : s.Logs [(.functions, ⟨op, T :: s.nextId :: operands⟩)] _ :=
      .typedResult hop.spec.1 hop.spec.2.1
    have hid : (Instruction.mk op (T :: s.nextId :: operands)).resultId = some s.nextId := by
      simp [Instruction.resultId, hop.spec.2.1]
    have hagain (s₀ : Emitter) :
        s₀.draft.Grows ((s₀.record s.nextId key "").named s.nextId key text).draft :=
      (s₀.record s.nextId key "").grows_named s.nextId key text
    have hwrap₁ : (s.define .functions ⟨op, T :: s.nextId :: operands⟩).NoWrap := by
      rcases hs₁ with rfl | rfl
      · exact hwrap.of_grows (grows_named _ _ _ _)
      · exact hwrap.of_grows (hagain _)
    have hrecord : s.Sustains N (s₁.record s.nextId key text) := by
      rcases hs₁ with rfl | rfl
      · exact sustains_value hs hdefine hwrap₁ hid (fun h => absurd h hpart) (hκ.key _ hkey) text
      · obtain ⟨h₁, hunbound, halloc⟩ :=
          hdefine.sustains_define hs hwrap₁ hid fun h => absurd h hpart
        exact h₁.trans (sustains_rerecord h₁.consistent hunbound halloc (hκ.key _ hkey) text)
    exact hrecord.trans ((remarks_title _ _ _).sustains hrecord.consistent)
  | @math key T set hkey hT hset number argument =>
    have h₁ := sustains_importMath hs
    exact h₁.trans (sustains_value h₁.consistent (.typedResult (by decide) (by decide)) hwrap rfl
      (fun h => absurd h hpart) (hκ.key _ hkey) "")
  | @localVariable key T text hkey htext hT =>
    have hdefine : s.Logs [(.functions, ⟨.var, [T, s.nextId, StorageClass.function]⟩)] _ :=
      .typedResult (by decide) (by decide)
    exact sustains_labelled hs hdefine hwrap rfl (fun h => absurd h hpart) (hκ.key _ hkey) text
  | @globalVariable key T text hkey htext hT hstorage hpointer =>
    obtain ⟨elem, helem, hnormal⟩ := hpointer
    exact sustains_labelled hs (.typedResult (by decide) (by decide)) hwrap rfl
      (fun _ _ => ⟨key, elem, T, s.nextId, rfl, helem, hnormal, hκ.key _ hkey, hT⟩)
      (hκ.key _ hkey) text
  | @block struct hstruct hunmarked =>
    have hput : s.Logs [(.decorations, ⟨.decorate, [struct, Decoration.block]⟩)] _ :=
      .put (by decide) (by decide)
    have hdecorations : Section.decorations ≠ .globals := by decide
    have h₁ := hput.sustains hs (List.forall_mem_singleton.mpr fun h => absurd h hdecorations)
    exact h₁.trans (sustains_blocks h₁.consistent _)
  | note h => exact h.sustains hs
  | rename hforeign => exact absurd hforeign hκ.foreign

/-- Turns sustain consistency, unless the ids wrap. -/
theorem Turns.sustains (hκ : κ.Names N) (h : s.Turns κ pub s') (hs : s.Consistent N)
    (hwrap : s'.NoWrap) : s.Sustains N s' := by
  induction h with
  | refl => exact .refl hs
  | tail _ hturn ih =>
    have h₁ := ih (hwrap.of_grows hturn.grows)
    exact h₁.trans (hturn.sustains hκ h₁.consistent hwrap)

end Emitter

/-! ## Types and constants -/

/-- Keys with names of one kind. -/
instance (N : String → Prop) : KeyKind fun k => k.type.Named N where
  basic {t} ht := by cases t <;> trivial
  normalize h := (Key.named_normalize _).mpr h
  elem h := h
  member h m hm := (h.2.mem m hm).2
  pointee h := h
  block h := h
  component h hpart := hpart.named h

/-- Keys with names of the kind `N`, and any texts. -/
abbrev Kinds.named (N : String → Prop) : Kinds :=
  ⟨fun k => k.type.Named N, fun k => k.type.Named N, fun _ => True, fun _ => True, False⟩

/-- The kind for names of a kind asks for just those names. -/
theorem Kinds.names_named (N : String → Prop) : (Kinds.named N).Names N :=
  ⟨fun _ h => h, id⟩

section

variable {α : Type} {N : String → Prop} {x : Emit α} {s : Emitter} {P : α → Emitter → Prop}
  {E : CompileError → Prop}

/-- What runs in turns meets its specification. -/
theorem Runs.meets {σ : Type} [HasEmitter σ] {x : EStateM Failure σ α} {c : σ} {P : α → σ → Prop}
    (hx : Runs (.named N) x c P E) (hc : (HasEmitter.emitter c).Consistent N) :
    Meets N x c (fun a c' => (HasEmitter.emitter c').NoWrap ∧ P a c') E := by
  have hready : (HasEmitter.emitter c).Ready (.named N) :=
    ⟨hc.filled.isOpen, fun hb => ⟨(hc.bindings hb).2.2, trivial⟩⟩
  have hends := hx hready
  intro _ hwrap
  cases hrun : x c with
  | ok a c' =>
    rw [hrun] at hwrap
    obtain ⟨⟨pub, hturns⟩, hP⟩ := hends.of_ok hrun
    have hsustains := hturns.sustains (Kinds.names_named N) hc hwrap
    exact ⟨hsustains.extend, hsustains.consistent, hwrap, hP⟩
  | error e c' =>
    rw [hrun] at hwrap
    obtain ⟨⟨pub, hturns⟩, hE⟩ := hends.of_error hrun
    have hsustains := hturns.sustains (Kinds.names_named N) hc hwrap
    cases e with
    | refused e => exact ⟨hsustains.extend, hsustains.consistent, hE⟩
    | fault f => exact hE

/-- What is emitted in turns meets its specification. -/
theorem Acts.meets (hx : Acts (.named N) x s P E) (hs : s.Consistent N) : Meets N x s P E :=
  (hx.runs.meets hs).mono (fun _ _ _ _ h => h.2.2) fun _ h => h

end

namespace Emit

variable {N : String → Prop} {s : Emitter} {E : CompileError → Prop}

/-- Asking for a type succeeds if the type is supported; then the type has this id from there on. -/
theorem typeId_meets (t : Ty) (storage : StorageClass) (ht : t.Named N) (hs : s.Consistent N) :
    Meets N (typeId t storage) s
      (fun id s' => s.Interns (Key.mk t storage).Covers s' ∧ s'.typeOf? ⟨t, storage⟩ = some id)
      (fun e => e.kind = .unsupportedType ∧ ¬ t.Supported) :=
  (typeId_acts t ht s).meets hs

/-- A constant has its id from there on. -/
theorem constantOf_meets (hs : s.Consistent N) (pool : Pool) (bits : Word) :
    Meets N (constantOf pool bits) s
      (fun id s' => s.Interns (· = (Key.value pool.type).signature) s' ∧
        (s'.constants pool).lookup bits = some id ∧ s'.Constant id pool.type bits) E := by
  refine ((constantOf_acts pool bits).meets hs).mono ?_ fun _ h => h
  rintro id s' - hs' ⟨hinterns, hid⟩
  refine ⟨hinterns, hid, ?_⟩
  cases pool with
  | uint => exact hs'.uints hid
  | float => exact hs'.floats hid

end Emit

/-! ## Clean names -/

/-- The names of this kind have no punctuation. -/
def Clean (N : String → Prop) : Prop :=
  ∀ name, N name → CleanName name

namespace Emitter

variable {N : String → Prop} {s : Emitter}

/-- With readable names a signature stands for one type, so a known type is defined as what it
is. -/
theorem Consistent.defines_of_readable (hs : s.Consistent N)
    (hN : ∀ name, N name → ReadableName name) {k : Key} (hk : k.type.Named N) {T : Id}
    (h : s.typeOf? k = some T) : s.Defines T k.canon := by
  obtain ⟨k', hcanon, hsig, hnamed, hdef⟩ := hs.types h
  have heq := Key.canon_eq_of_readable (hnamed.mono hN) (hk.mono hN) hsig
  rw [hcanon] at heq
  rwa [← heq]

/-- With clean names, a type that is known is defined as what it is. -/
theorem Consistent.defines (hs : s.Consistent N) (hN : Clean N) {k : Key} (hk : k.type.Named N)
    {T : Id} (h : s.typeOf? k = some T) : s.Defines T k.canon :=
  hs.defines_of_readable (fun name hname => (hN name hname).readable) hk h

mutual

/-- With clean names, only supported types are known, by induction on the type. -/
theorem supported_of_typeOf? (hs : s.Consistent N) (hN : Clean N) :
    ∀ (t : Ty) (storage : StorageClass) {T : Id}, t.Named N → s.typeOf? ⟨t, storage⟩ = some T →
      t.Supported
  | .array elem length, storage, T, ht, h => by
    have hdef := hs.defines hN (k := ⟨.array elem length, storage⟩) ht h
    cases hdef with
    | array hlength he =>
      rw [Key.value, typeOf?_canon] at he
      exact ⟨hlength, supported_of_typeOf? hs hN elem _ ht he⟩
  | .pointer elem, storage, T, ht, h => by
    have hdef := hs.defines hN (k := ⟨.pointer elem, storage⟩) ht h
    simp only [Key.canon, Key.normalize_pointer, Ty.canon, Ty.canon_underlying] at hdef
    cases hdef with
    | pointer hp =>
      rw [typeOf?_canon] at hp
      exact supported_of_typeOf? hs hN elem _ ht hp
  | .struct name members, storage, T, ht, h => by
    have hdef := hs.defines hN (k := ⟨.struct name members, storage⟩) ht h
    cases hdef with
    | struct hsized hids =>
      exact supported_of_memberTypes hs hN members ht.2 (members.sized_canon.mp hsized) hids
  | .int type, storage, T, ht, h => by
    cases hs.defines hN (k := ⟨.int type, storage⟩) ht h with
    | int hwidth => exact hwidth
  | .enum name underlying, storage, T, ht, h => by
    cases hs.defines hN (k := ⟨.enum name underlying, storage⟩) ht h with
    | int hwidth => exact hwidth
  | .float width, storage, T, ht, h => by
    cases hs.defines hN (k := ⟨.float width, storage⟩) ht h with
    | float hwidth => exact hwidth
  | .vector count, storage, T, ht, h => by
    cases hs.defines hN (k := ⟨.vector count, storage⟩) ht h with
    | vector hcount => exact hcount
  | .string, storage, T, ht, h => by cases hs.defines hN (k := ⟨.string, storage⟩) ht h
  | .dateTime, storage, T, ht, h => by cases hs.defines hN (k := ⟨.dateTime, storage⟩) ht h
  | .null, storage, T, ht, h => by cases hs.defines hN (k := ⟨.null, storage⟩) ht h
  | .unset, _, _, _, _ | .bool, _, _, _, _ | .char, _, _, _, _ | .matrix4, _, _, _, _
  | .sampledImage2D, _, _, _, _ | .void, _, _, _, _ => trivial

theorem supported_of_memberTypes (hs : s.Consistent N) (hN : Clean N) :
    ∀ (members : Members) {ids : List Id}, members.Named N → members.Sized →
      s.MemberTypes members.canon ids → members.Supported
  | .nil, _, _, _, _ => trivial
  | .cons name type rest, _, hm, hsized, hids => by
    obtain ⟨id, ids', -, hid, hrest⟩ := hids
    rw [Key.value, typeOf?_canon] at hid
    exact ⟨supported_of_typeOf? hs hN type _ hm.2.1 hid, hsized.1,
      supported_of_memberTypes hs hN rest hm.2.2 hsized.2 hrest⟩

end

end Emitter

end ShaderStage

import ShaderStage.Proofs.Body
import ShaderStage.Proofs.IdCoverage

/-! # Compilation

What the declarations of a program emit: variables for fields and locals, functions for methods, and
the whole module. A declaration is refused only if it is not well typed, so a program is refused
only if it is not.

* `Method.emit_meets`, `Field.DeclaredIn.declares`: what methods and fields become;
* `Program.emitModule_meets`: a program is emitted as a module, or it is not well typed;
* `emitted_of_compile`: what a compiled module was emitted as. -/

namespace ShaderStage

/-! ## Methods -/

namespace Emit

variable {N : String → Prop} {s : Emitter} {E : CompileError → Prop} {β : Type} {f : Id → Emit β}
  [∀ id, Growing (f id)] {Q : β → Emitter → Prop}

/-- Declaring a local variable, with its name and its type. -/
theorem localVariable_bind_meets (hs : s.Consistent N) {key : Key} (hkey : key.type.Named N)
    (hnormal : key.normalize = key) {T : Id} (hT : s.typeOf? key = some T) (text : String)
    (hf : ∀ id s', s.Extends s' → s'.Consistent N → s'.Value id key ∧ s'.typeOf? key = some T ∧
      s'.Has .names ⟨.name, id :: Literal.ofString text⟩ ∧
      s'.code = s.code ++ [⟨.var, [T, id, StorageClass.function]⟩] → Meets N (f id) s' Q E) :
    Meets N (do
      let id ← localVariable T
      name id text
      bind id key text
      f id) s Q E := by
  have hvariable := ((localVariable_acts (κ := .named N) (E := E) hkey text trivial hT
    hnormal).meets hs).bind fun id s' hext hs' h => hf id s' hext hs' h
  simpa only [bind_assoc, pure_bind] using hvariable

/-- Starting a function, with its name. -/
theorem function_bind_meets (hs : s.Consistent N) (result type : Id) (text : String)
    (hf : ∀ id s', s.Extends s' → s'.Consistent N →
      s'.Has .names ⟨.name, id :: Literal.ofString text⟩ →
      s'.code = s.code ++ [⟨.function, [result, id, 0, type]⟩] → Meets N (f id) s' Q E) :
    Meets N (do
      let id ← function type result 0
      name id text
      f id) s Q E := by
  have hfunction := ((function_acts (κ := .named N) (E := E) text trivial result
    type).meets hs).bind fun id s' hext hs' h => hf id s' hext hs' h.2.1 h.2.2
  simpa only [bind_assoc, pure_bind] using hfunction

end Emit

namespace Emitter

/-- What the declarations of locals emit. -/
inductive DeclaresLocals (w : Emitter) : List Local → List Variable → List Instruction → Prop
  | nil : DeclaresLocals w [] [] []
  | cons {l : Local} {ls : List Local} {v : Variable} {vs : List Variable} {T : Id}
      {code : List Instruction} (himage : l.type.isOpaque = false)
      (hkey : v.key = (Key.pointer l.type .function).normalize) (hT : w.typeOf? v.key = some T)
      (hv : w.Value v.id v.key) (hrest : DeclaresLocals w ls vs code) :
      DeclaresLocals w (l :: ls) (v :: vs)
        (⟨.var, [T, v.id, StorageClass.function]⟩ :: code)

/-- What a method emits after its operations. -/
inductive EmitsEnding (m : Method) : Progress → List Instruction → Prop
  | returned : EmitsEnding m .returned []
  | running {stack : List Id} (h : m.result.isVoid = true) :
      EmitsEnding m (.running stack) [⟨.ret, []⟩]

/-- The only ending that is added is a return. -/
theorem EmitsEnding.opcode_eq {m : Method} {progress : Progress} {ending : List Instruction}
    (h : EmitsEnding m progress ending) : ∀ i ∈ ending, i.opcode = .ret := by
  cases h with
  | returned => nofun
  | running => exact List.forall_mem_singleton.mpr rfl

/-- What a method emits as a function. -/
inductive EmitsMethod (w : Emitter) (globals : List Variable) (m : Method) (f : Function) :
    List Instruction → Prop
  | intro {F l : Id} {declarations body ending : List Instruction} {progress : Progress}
      (hname : f.name = m.name) (hresult : w.typeOf? (.value m.result) = some f.returnType)
      (hF : w.Has .globals ⟨.typeFunction, [F, f.returnType]⟩)
      (hlocals : w.DeclaresLocals m.locals f.locals declarations)
      (hbody : w.EmitsAll ⟨m, globals, f.locals⟩ (.running []) m.body body progress)
      (hending : EmitsEnding m progress ending)
      (hlabel : w.Has .names ⟨.name, f.id :: Literal.ofString m.name⟩)
      (hlabels : w.LabelsLocals m.locals.zipIdx f.locals) :
      EmitsMethod w globals m f
        (⟨.function, [f.returnType, f.id, 0, F]⟩ :: ⟨.label, [l]⟩ ::
          (declarations ++ body ++ ending ++ [⟨.functionEnd, []⟩]))

/-- What methods emit, one after the other. -/
inductive EmitsMethods (w : Emitter) (globals : List Variable) :
    List Method → List Function → List Instruction → Prop
  | nil : EmitsMethods w globals [] [] []
  | cons {m : Method} {ms : List Method} {f : Function} {fs : List Function}
      {code code' : List Instruction} (h : w.EmitsMethod globals m f code)
      (hrest : EmitsMethods w globals ms fs code') :
      EmitsMethods w globals (m :: ms) (f :: fs) (code ++ code')

theorem DeclaresLocals.mono {w w' : Emitter} (h : w.Extends w') {ls : List Local}
    {vs : List Variable} {code : List Instruction} (hw : w.DeclaresLocals ls vs code) :
    w'.DeclaresLocals ls vs code := by
  induction hw with
  | nil => exact .nil
  | cons himage hkey hT hv _ ih => exact .cons himage hkey (h.types hT) (hv.mono h) ih

theorem EmitsMethod.mono {w w' : Emitter} (h : w.Extends w') {globals : List Variable} {m : Method}
    {f : Function} {code : List Instruction} (hw : w.EmitsMethod globals m f code) :
    w'.EmitsMethod globals m f code := by
  cases hw with
  | intro hname hresult hF hlocals hbody hending hlabel hlabels =>
    exact .intro hname (h.types hresult) (hF.mono h) (hlocals.mono h) (hbody.mono h) hending
      (hlabel.mono h) (hlabels.keep h.keeps)

theorem EmitsMethods.mono {w w' : Emitter} (h : w.Extends w') {globals : List Variable}
    {ms : List Method} {fs : List Function} {code : List Instruction}
    (hw : w.EmitsMethods globals ms fs code) : w'.EmitsMethods globals ms fs code := by
  induction hw with
  | nil => exact .nil
  | cons hm _ ih => exact .cons (hm.mono h) ih

theorem EmitsMethods.length_eq {w : Emitter} {globals : List Variable} {ms : List Method}
    {fs : List Function} {code : List Instruction} (h : w.EmitsMethods globals ms fs code) :
    fs.length = ms.length := by
  induction h with
  | nil => rfl
  | cons _ _ ih => rw [List.length_cons, List.length_cons, ih]

/-- Locals are pointers to their types in function storage. -/
theorem DeclaresLocals.keys {w : Emitter} {ls : List Local} {vs : List Variable}
    {code : List Instruction} (h : w.DeclaresLocals ls vs code) :
    vs.map Variable.key = ls.map fun l => (Key.pointer l.type .function).normalize := by
  induction h with
  | nil => rfl
  | cons _ hkey _ _ _ ih => rw [List.map_cons, List.map_cons, hkey, ih]

/-- Each local becomes one variable. -/
theorem EmitsMethod.length_locals {w : Emitter} {globals : List Variable} {m : Method}
    {f : Function} {code : List Instruction} (h : w.EmitsMethod globals m f code) :
    m.locals.length = f.locals.length := by
  cases h with
  | intro _ _ _ hlocals => rw [← List.length_map Variable.key, hlocals.keys, List.length_map]

/-- The declarations of locals have the ids of their variables for results. -/
theorem DeclaresLocals.results {w : Emitter} {ls : List Local} {vs : List Variable}
    {code : List Instruction} (h : w.DeclaresLocals ls vs code) :
    code.filterMap Instruction.resultId = vs.map Variable.id := by
  induction h with
  | nil => rfl
  | cons _ _ _ _ _ ih =>
    rw [List.map_cons, ← ih]
    rfl

/-- Locals are variables, and nothing else. -/
theorem DeclaresLocals.opcode_eq {w : Emitter} {ls : List Local} {vs : List Variable}
    {code : List Instruction} (h : w.DeclaresLocals ls vs code) : ∀ i ∈ code, i.opcode = .var := by
  induction h with
  | nil => nofun
  | cons _ _ _ _ _ ih => exact List.forall_mem_cons.mpr ⟨rfl, ih⟩

/-- The variables are values of their keys. -/
theorem DeclaresLocals.value {w : Emitter} {ls : List Local} {vs : List Variable}
    {code : List Instruction} (h : w.DeclaresLocals ls vs code) :
    ∀ v ∈ vs, w.Value v.id v.key := by
  induction h with
  | nil => nofun
  | cons _ _ _ hv _ ih => exact List.forall_mem_cons.mpr ⟨hv, ih⟩

theorem DeclaresLocals.supported {N : String → Prop} {w : Emitter} (hw : w.Consistent N)
    (hN : Clean N) {ls : List Local} {vs : List Variable} {code : List Instruction}
    (h : w.DeclaresLocals ls vs code) :
    ∀ l ∈ ls, l.type.Supported ∧ l.type.isOpaque = false := by
  induction h with
  | nil => nofun
  | @cons l ls v vs T code himage hkey hT hv _ ih =>
    refine List.forall_mem_cons.mpr ⟨⟨?_, himage⟩, ih⟩
    have hsupported := hv.supported hw hN
    rw [hkey] at hsupported
    exact Key.supported_normalize.mp hsupported

end Emitter

namespace Method

variable {N : String → Prop} {s : Emitter}

/-- Locals are declared one after the other, or one of them is refused. -/
theorem declareLocals_meets (m : Method) (hs : s.Consistent N) (index : Nat) {ls : List Local}
    (hls : ∀ l ∈ ls, l.type.Named N) :
    Meets N (m.declareLocals index ls) s
      (fun vs s' => ∃ code, s'.DeclaresLocals ls vs code ∧ s'.LabelsLocals (ls.zipIdx index) vs ∧
        s'.code = s.code ++ code)
      (fun e => e.Because (¬ ∀ l ∈ ls, l.type.Supported ∧ l.type.isOpaque = false)) := by
  induction ls generalizing s index with
  | nil => exact .pure hs ⟨[], .nil, .nil, (List.append_nil _).symm⟩
  | cons l ls ih =>
    obtain ⟨hl, hls⟩ := List.forall_mem_cons.mp hls
    unfold declareLocals
    dsimp only
    by_cases himage : l.type.isOpaque = true
    · rw [if_pos himage]
      refine .refused_bind hs ⟨by rintro ⟨⟩, fun h => ?_⟩
      rw [(h l List.mem_cons_self).2] at himage
      cases himage
    rw [if_neg himage]
    have himage : l.type.isOpaque = false := Bool.eq_false_iff.mpr himage
    have hnamed : (Key.pointer l.type .function).normalize.type.Named N :=
      (Key.named_normalize _).mpr hl
    refine ((Emit.typeId_meets _ _ hnamed hs).refusing ?_).bind ?_
    · refine fun e h => .of_kind h.1 (by decide) fun hall => h.2 ?_
      exact Key.supported_normalize.mpr (hall l List.mem_cons_self).1
    rintro T s₁ - hs₁ ⟨hinterns, hT⟩
    refine Emit.localVariable_bind_meets hs₁ hnamed (Key.normalize_normalize _) hT _ ?_
    rintro id s₂ hext₂ hs₂ ⟨hid, hT₂, hlabel, hcode₂⟩
    refine ((ih hs₂ (index + 1) hls).refusing ?_).bind ?_
    · exact fun e h => h.mono fun hnot hall => hnot (List.forall_mem_cons.mp hall).2
    rintro vs s₃ hext₃ hs₃ ⟨code, hlocals, hlabels, hcode₃⟩
    refine .pure hs₃ ⟨_, .cons himage rfl (hext₃.types hT₂) (hid.mono hext₃) hlocals,
      .cons (hlabel.mono hext₃) hlabels, ?_⟩
    rw [hcode₃, hcode₂, hinterns.code, List.append_assoc]
    rfl

/-- The type of a function is defined by its result. -/
theorem functionType_meets (hs : s.Consistent N) {R : Id} (hR : s.IsType R)
    {E : CompileError → Prop} :
    Meets N (Emit.functionType R) s
      (fun F s' => s'.Has .globals ⟨.typeFunction, [F, R]⟩ ∧ s'.code = s.code) E := by
  refine ((Emit.functionType_acts (.inr hR)).meets hs).mono ?_ fun _ h => h
  exact fun F s' _ hs' h => ⟨hs'.functionTypes h.1, h.2.2⟩

/-- A return is added where one is missing, unless a value would be missing too. -/
theorem emitEnding_meets (m : Method) (hs : s.Consistent N) (progress : Progress) :
    Meets N (m.emitEnding progress) s
      (fun _ s' => ∃ ending, Emitter.EmitsEnding m progress ending ∧ s'.code = s.code ++ ending)
      (fun e => e.Because (progress ≠ .returned ∧ m.result.isVoid = false)) := by
  cases progress with
  | returned => exact .pure hs ⟨[], .returned, (List.append_nil _).symm⟩
  | running stack =>
    unfold emitEnding
    by_cases hvoid : m.result.isVoid = true
    · rw [if_pos hvoid]
      refine (Emit.performed_meets hs .ret).mono ?_ fun _ h => h
      exact fun _ s' _ _ hcode => ⟨_, .running hvoid, hcode⟩
    · rw [if_neg hvoid]
      exact .refused hs ⟨nofun, nofun, Bool.eq_false_iff.mpr hvoid⟩

/-- A function is started and its locals are declared, unless a type does not allow it. -/
theorem opening_meets {m : Method} (hs : s.Consistent N) (hm : m.EachType (Ty.Named N)) :
    Meets N m.opening s
      (fun f s' => ∃ F l declarations, f.name = m.name ∧
        s'.typeOf? (.value m.result) = some f.returnType ∧
        s'.Has .globals ⟨.typeFunction, [F, f.returnType]⟩ ∧
        s'.Has .names ⟨.name, f.id :: Literal.ofString m.name⟩ ∧
        s'.LabelsLocals m.locals.zipIdx f.locals ∧
        s'.DeclaresLocals m.locals f.locals declarations ∧
        s'.code = s.code ++
          ⟨.function, [f.returnType, f.id, 0, F]⟩ :: ⟨.label, [l]⟩ :: declarations)
      (fun e => e.Because (¬ (m.result.Supported ∧
        ∀ l ∈ m.locals, l.type.Supported ∧ l.type.isOpaque = false))) := by
  unfold opening
  refine ((Emit.typeId_meets m.result .none hm.result hs).refusing ?_).bind ?_
  · exact fun e h => .of_kind h.1 (by decide) fun hall => h.2 hall.1
  rintro R s₁ - hs₁ ⟨hinterns, hR⟩
  refine (functionType_meets hs₁ ⟨_, hR⟩).bind ?_
  rintro F s₂ hext₂ hs₂ ⟨hF, hcode₂⟩
  refine Emit.function_bind_meets hs₂ R F m.name ?_
  intro id s₃ hext₃ hs₃ hlabel hcode₃
  refine (Emit.label_acts.meets hs₃).bind ?_
  intro l s₄ hext₄ hs₄ hcode₄
  refine ((declareLocals_meets m hs₄ 0 hm.locals).refusing ?_).bind ?_
  · exact fun e h => h.mono fun hnot hall => hnot hall.2
  rintro locals s₅ hext₅ hs₅ ⟨declarations, hlocals, hlabels, hcode₅⟩
  have hext := hext₃.trans (hext₄.trans hext₅)
  refine .pure hs₅ ⟨F, l, declarations, rfl, hext.types (hext₂.types hR), hF.mono hext,
    hlabel.mono (hext₄.trans hext₅), hlabels, hlocals, ?_⟩
  rw [hcode₅, hcode₄, hcode₃, hcode₂, hinterns.code]
  simp

/-- A method is emitted as a function, or refused because it is not well typed. -/
theorem emit_meets {m : Method} (hs : s.Consistent N) (hm : m.EachType (Ty.Named N))
    {globals : List Variable} (hglobals : ∀ v ∈ globals, s.Value v.id v.key) :
    Meets N (m.emit globals) s
      (fun f s' => ∃ code, s'.EmitsMethod globals m f code ∧ s'.code = s.code ++ code ∧
        (Clean N → m.WellTyped (globals.map Variable.key)))
      (fun e => e.Because (Clean N → ¬ m.WellTyped (globals.map Variable.key))) := by
  rw [emit_eq]
  refine ((opening_meets hs hm).refusing ?_).bind ?_
  · exact fun e h => h.mono fun hnot _ hwt => hnot ⟨hwt.result, hwt.locals⟩
  rintro f s₁ hext₁ hs₁ ⟨F, l, declarations, hname, hresult, hF, hlabel, hlabels, hlocals, hcode₁⟩
  have hbound : Scope.Bound ⟨m, globals, f.locals⟩ s₁ :=
    ⟨fun v hv => (hglobals v hv).mono hext₁, hlocals.value⟩
  have hframe : (Scope.mk m globals f.locals).frame = ⟨m.result, globals.map Variable.key,
      m.locals.map fun l => (Key.pointer l.type .function).normalize⟩ := by
    rw [Scope.frame, hlocals.keys]
  refine ((Scope.run_meets hs₁ hbound hm.result 0 .nil hm.constructs).refusing ?_).bind ?_
  · refine fun e h => h.mono fun hnot hN hwt => hnot hN ?_
    rw [hframe]
    exact hwt.body
  rintro progress s₂ hext₂ hs₂ ⟨body, hbody, hcode₂, haccepts⟩
  rw [hframe] at haccepts
  unfold closing
  refine ((emitEnding_meets m hs₂ progress).refusing ?_).bind ?_
  · intro e h
    refine h.mono ?_
    rintro ⟨hprogress, hvoid⟩ hN hwt
    rcases (haccepts hN).mp hwt.body with h | h
    · exact hprogress h
    · cases hvoid.symm.trans h
  rintro _ s₃ hext₃ hs₃ ⟨ending, hending, hcode₃⟩
  refine Meets.bind (x := Emit.functionEnd) (Emit.performed_meets hs₃ .functionEnd) ?_
  intro _ s₄ hext₄ hs₄ hcode₄
  have hext₂₄ := hext₃.trans hext₄
  have hext₁₄ := hext₂.trans hext₂₄
  refine .pure hs₄ ⟨_, .intro (l := l) hname (hext₁₄.types hresult) (hF.mono hext₁₄)
    (hlocals.mono hext₁₄) (hbody.mono hext₂₄) hending (hlabel.mono hext₁₄)
    (hlabels.keep hext₁₄.keeps), ?_, fun hN => ⟨?_, ?_, ?_⟩⟩
  · rw [hcode₄, hcode₃, hcode₂, hcode₁]
    simp
  · exact Emitter.supported_of_typeOf? hs₁ hN m.result .none hm.result hresult
  · exact hlocals.supported hs₁ hN
  -- An ending was emitted, so the body returned or had nothing to return.
  · refine (haccepts hN).mpr ?_
    cases hending with
    | returned => exact .inl rfl
    | running hvoid => exact .inr hvoid

end Method

/-! ## Fields -/

section

variable {N : String → Prop} {s s' : Emitter}

/-- What the declaration of a field emits. -/
structure Emitter.DeclaresField (w : Emitter) (f : Field) (v : Variable) : Prop where
  resolved : ∃ r, f.resolve = .ok r ∧ v.key = f.key r
  value : w.Value v.id v.key
  emitted : ∃ T, w.typeOf? v.key = some T ∧ w.Has .globals ⟨.var, [T, v.id, v.key.storage]⟩
  label : w.Has .names ⟨.name, v.id :: Literal.ofString f.name⟩

theorem Emitter.DeclaresField.mono {w w' : Emitter} (h : w.Extends w') {f : Field} {v : Variable}
    (hw : w.DeclaresField f v) : w'.DeclaresField f v := by
  obtain ⟨hresolved, hvalue, ⟨T, hT, hhas⟩, hlabel⟩ := hw
  exact ⟨hresolved, hvalue.mono h, ⟨T, h.types hT, hhas.mono h⟩, hlabel.mono h⟩

/-- A field is declared under an id that was free. -/
theorem Field.DeclaredIn.declares {κ : Kinds} (hκ : κ.Names N) {f : Field} {v : Variable}
    (h : f.DeclaredIn κ s v s') (hs : s.Consistent N) (hwrap : s'.NoWrap) :
    s'.DeclaresField f v ∧ ¬ s.Allocated v.id := by
  cases h with
  | @intro r T s₁ s₂ hr hkey hname htype hmarks =>
    have hvariable := Emitter.turns_declared hr hkey hname htype.typeOf
    obtain ⟨pub, hturns, -⟩ := hmarks.placed (Emitter.allocated_declared f r T s₁) r
    have hwrap₂ := hwrap.of_grows hturns.grows
    have hwrap₁ := hwrap₂.of_grows hvariable.grows
    have h₁ := htype.turns.sustains hκ hs hwrap₁
    have h₂ := hvariable.sustains hκ h₁.consistent hwrap₂
    have h₃ := hturns.sustains hκ h₂.consistent hwrap
    have hvalue : (f.declared r T s₁).Value s₁.nextId (f.key r) :=
      Emitter.value_labelled htype.typeOf (Key.normalize_normalize _) rfl rfl f.name
    have hhas : (f.declared r T s₁).Has .globals ⟨.var, [T, s₁.nextId, (f.key r).storage]⟩ :=
      Emitter.has_put.mpr (.inl (Emitter.has_define_self _ _ _))
    have hlabel : (f.declared r T s₁).Has .names ⟨.name, s₁.nextId :: Literal.ofString f.name⟩ :=
      Emitter.has_put.mpr (.inr ⟨rfl, rfl⟩)
    refine ⟨⟨⟨r, hr, rfl⟩, hvalue.mono h₃.extend, ⟨T, ?_, hhas.mono h₃.extend⟩,
      hlabel.mono h₃.extend⟩, fun hid => ?_⟩
    · exact (h₂.trans h₃).extend.types htype.typeOf
    · exact Emitter.not_allocated_nextId h₁.consistent.filled hwrap₁ (hid.mono h₁.extend)

/-- Fields are declared under ids that were free, each under one of its own. -/
theorem DeclaresEach.declares {κ : Kinds} (hκ : κ.Names N) {fields : List Field}
    {vs : List Variable} (h : DeclaresEach κ fields s vs s') (hs : s.Consistent N)
    (hwrap : s'.NoWrap) :
    List.Forall₂ s'.DeclaresField fields vs ∧ (vs.map Variable.id).Nodup ∧
      ∀ v ∈ vs, ¬ s.Allocated v.id := by
  induction h with
  | nil s => exact ⟨.nil, .nil, nofun⟩
  | @cons f fields v vs s s₁ s' hf hrest ih =>
    obtain ⟨pub, hturns⟩ := hf.leads
    obtain ⟨pub', hturns'⟩ := hrest.leads
    have hwrap₁ := hwrap.of_grows hturns'.grows
    have h₁ := hturns.sustains hκ hs hwrap₁
    have h₂ := hturns'.sustains hκ h₁.consistent hwrap
    obtain ⟨hv, hfresh⟩ := hf.declares hκ hs hwrap₁
    obtain ⟨hdeclared, hnodup, hnew⟩ := ih h₁.consistent hwrap
    refine ⟨.cons (hv.mono h₂.extend) hdeclared, List.nodup_cons.mpr ⟨fun hmem => ?_, hnodup⟩,
      List.forall_mem_cons.mpr ⟨hfresh, fun v' hv' h => hnew v' hv' (h.mono h₁.extend)⟩⟩
    -- The other fields take ids that are free now, and the one of this field no longer is.
    obtain ⟨v', hv', heq⟩ := List.mem_map.mp hmem
    refine hnew v' hv' ?_
    rw [heq]
    exact hv.value.allocated

/-- A field that is refused is not well typed. -/
theorem Field.because_of_declare {f : Field} {e : CompileError}
    (h : f.resolve = .error e ∨ f.IsUnsupported e) : e.Because (∀ k, ¬ f.WellTyped k) := by
  rcases h with h | ⟨hkind, hunsupported⟩
  · obtain ⟨hcause, l, hlayout, hnot⟩ := Field.not_places_of_resolve h
    refine ⟨?_, fun k hk => ?_⟩
    · rcases hcause with ⟨number, rfl⟩ | ⟨code, rfl⟩ <;> nofun
    · obtain ⟨storage, -, hplaces⟩ := hk.place
      rw [hlayout] at hplaces
      exact hnot storage hplaces
  · exact .of_kind hkind (by decide) fun k hk => hunsupported hk.type

/-- Fields that are well typed are each well typed. -/
theorem Field.exists_wellTyped {fields : List Field} {keys : List Key}
    (h : List.Forall₂ Field.WellTyped fields keys) : ∀ f ∈ fields, ∃ k, f.WellTyped k := by
  induction h with
  | nil => exact List.forall_mem_nil _
  | cons hk _ ih => exact List.forall_mem_cons.mpr ⟨⟨_, hk⟩, ih⟩

/-- With clean names, only well-typed fields are declared. -/
theorem Emitter.DeclaresField.wellTyped {f : Field} {v : Variable} (hs : s.Consistent N)
    (hN : Clean N) (h : s.DeclaresField f v) : f.WellTyped v.key := by
  obtain ⟨r, hr, hkey⟩ := h.resolved
  have hsupported := h.value.supported hs hN
  rw [hkey] at hsupported
  exact ⟨Key.supported_normalize.mp hsupported, r.storage, hkey, Field.places_of_resolve hr⟩

/-- Each variable comes from a field. -/
theorem Emitter.exists_declaresField {fields : List Field} {vs : List Variable}
    (h : List.Forall₂ s.DeclaresField fields vs) :
    ∀ v ∈ vs, ∃ f ∈ fields, s.DeclaresField f v := by
  induction h with
  | nil => nofun
  | cons hv _ ih =>
    refine List.forall_mem_cons.mpr ⟨⟨_, List.mem_cons_self, hv⟩, fun v hmem => ?_⟩
    obtain ⟨f, hf, hv⟩ := ih v hmem
    exact ⟨f, List.mem_cons_of_mem _ hf, hv⟩

end

/-! ## Programs -/

section

variable {N : String → Prop} {c : Compilation} {E : CompileError → Prop}

/-- Emitting code leaves the record as it is. -/
theorem Compile.emit_meets {α : Type} {x : Emit α} {P : α → Emitter → Prop}
    (hx : Meets N x c.emitter P E) :
    Meets N (Compile.emit x) c (fun a c' => P a c'.emitter ∧ c'.record = c.record) E := by
  intro hopen hwrap
  unfold Compile.emit EStateM.run at hwrap ⊢
  have hends := hx hopen
  cases hrun : x c.emitter with
  | ok a s =>
    rw [hrun] at hwrap hends
    obtain ⟨hext, hs, hP⟩ := hends hwrap
    exact ⟨hext, hs, hP, rfl⟩
  | error e s =>
    rw [hrun] at hwrap hends
    have hends := hends hwrap
    cases e with
    | refused e => exact hends
    | fault f => exact hends

/-- Noting something for later always succeeds. -/
theorem Compile.note_meets (hc : c.emitter.Consistent N) (f : Record → Record) :
    Meets N (Compile.note f) c (fun _ c' => c' = { c with record := f c.record }) E :=
  .modify (.refl _) hc rfl

namespace Program

/-- All fields are declared, or one of them is not well typed. -/
theorem declareFields_meets {fields : List Field} (hfields : ∀ f ∈ fields, f.type.Named N)
    (hc : c.emitter.Consistent N) :
    Meets N (declareFields fields) c
      (fun _ c' => ∃ vs, c'.record.globals = c.record.globals ++ vs ∧
        c'.record.functions = c.record.functions ∧ c'.emitter.code = c.emitter.code ∧
        List.Forall₂ c'.emitter.DeclaresField fields vs ∧ (vs.map Variable.id).Nodup ∧
        ∀ v ∈ vs, ¬ c.emitter.Allocated v.id)
      (fun e => e.Because (Clean N → ∀ keys, ¬ List.Forall₂ Field.WellTyped fields keys)) := by
  refine ((declareFields_runs (κ := .named N) (fun f hf => ⟨trivial, fun _ _ => hfields f hf⟩)
    fun f hf e he => ?_).meets hc).weaken ?_ fun _ h => h
  · refine (Field.because_of_declare he).mono fun hnot _ keys hkeys => ?_
    obtain ⟨k, hk⟩ := Field.exists_wellTyped hkeys f hf
    exact hnot k hk
  · rintro _ c' - - ⟨hwrap, vs, hvs, hglobals, hfunctions, -⟩
    exact ⟨vs, hglobals, hfunctions, hvs.code_eq, hvs.declares (Kinds.names_named N) hc hwrap⟩

/-- All methods are emitted, or one of them is not well typed. -/
theorem emitMethods_meets {methods : List Method}
    (hmethods : ∀ m ∈ methods, m.EachType (Ty.Named N)) (hc : c.emitter.Consistent N)
    (hglobals : ∀ v ∈ c.record.globals, c.emitter.Value v.id v.key) :
    Meets N (emitMethods methods) c
      (fun _ c' => ∃ fs code, c'.record.functions = c.record.functions ++ fs ∧
        c'.record.globals = c.record.globals ∧ c'.emitter.code = c.emitter.code ++ code ∧
        c'.emitter.EmitsMethods c.record.globals methods fs code ∧
        (Clean N → ∀ m ∈ methods, m.WellTyped (c.record.globals.map Variable.key)))
      (fun e => e.Because
        (Clean N → ¬ ∀ m ∈ methods, m.WellTyped (c.record.globals.map Variable.key))) := by
  induction methods generalizing c with
  | nil =>
    exact .pure hc ⟨[], [], (List.append_nil _).symm, rfl, (List.append_nil _).symm, .nil,
      fun _ => nofun⟩
  | cons m methods ih =>
    obtain ⟨hm, hmethods⟩ := List.forall_mem_cons.mp hmethods
    unfold emitMethods
    refine .get ?_
    refine ((Compile.emit_meets (Method.emit_meets hc hm hglobals)).weaken (fun _ _ _ _ h => h)
      ?_).seq ?_
    · exact fun e h => ⟨h.1, fun hN hall => h.2 hN (hall m List.mem_cons_self)⟩
    rintro f c₁ hext₁ hc₁ ⟨⟨code, hemits, hcode₁, hwt⟩, hrecord₁⟩
    refine (Compile.note_meets hc₁ _).seq ?_
    rintro _ _ - hc₂ rfl
    have hglobals₂ : ∀ v ∈ c₁.record.globals, c₁.emitter.Value v.id v.key := by
      rw [hrecord₁]
      exact fun v hv => (hglobals v hv).mono hext₁
    refine (ih hmethods hc₂ hglobals₂).weaken ?_ ?_
    · dsimp only
      rw [hrecord₁]
      rintro _ c₃ hext₃ - ⟨fs, code', hfunctions, hglobals₃, hcode₃, hemits', hwts⟩
      refine ⟨f :: fs, code ++ code', ?_, hglobals₃, ?_, .cons (hemits.mono hext₃) hemits',
        fun hN => List.forall_mem_cons.mpr ⟨hwt hN, hwts hN⟩⟩
      · rw [hfunctions, List.append_assoc]
        rfl
      · rw [hcode₃, hcode₁, List.append_assoc]
    · dsimp only
      rw [hrecord₁]
      exact fun e h => ⟨h.1, fun hN hall => h.2 hN (List.forall_mem_cons.mp hall).2⟩

/-- What is said about the module is no code. -/
theorem emitPreamble_meets (p : Program) (o : Options) {s : Emitter} (hs : s.Consistent N) :
    Meets N (p.emitPreamble o) s (fun _ s' => s'.code = s.code) E := by
  obtain ⟨entries, s', hrun, hpublishes, -⟩ := p.emitPreamble_apply (κ := .named N) (o := o)
    ⟨fun _ _ => trivial, trivial, fun _ _ => trivial⟩ hs.filled.isOpen
  have hruns : Runs (.named N) (p.emitPreamble o) s (fun _ s' => s'.code = s.code) E := by
    refine .of_turns (fun _ => hrun)
      ((s.turns_declare (p.baseCapabilities o)).trans hpublishes.turns) ?_
    rw [hpublishes.code_eq, (s.remarks_foldl_declare _).code_eq]
  exact (hruns.meets hs).mono (fun _ _ _ _ h => h.2) fun _ h => h

/-- Entry points add nothing to the code and the declarations. -/
theorem emitEntryPoint_meets (p : Program) (f : Function) (hc : c.emitter.Consistent N) :
    Meets N (p.emitEntryPoint f) c (fun _ c' => c'.emitter.code = c.emitter.code ∧
      c'.record.globals = c.record.globals ∧ c'.record.functions = c.record.functions) E := by
  intro _ _
  rw [emitEntryPoint_apply]
  have hparts : ∀ e ∈ p.entryStatements f c.interface, e.1 ≠ .globals ∧ e.1 ≠ .functions :=
    List.forall_mem_append.mpr ⟨List.forall_mem_map.mpr fun _ _ => ⟨nofun, nofun⟩,
      List.forall_mem_map.mpr fun _ _ => ⟨nofun, nofun⟩⟩
  have hsustains := (p.logs_entryStatements f c.interface c.emitter).sustains hc
    fun e he hglobals => absurd hglobals (hparts e he).1
  exact ⟨hsustains.extend, hsustains.consistent,
    c.emitter.code_write fun e he => (hparts e he).2, rfl, rfl⟩

/-- The check refuses only programs that are not well typed. -/
theorem check_meets {p : Program} {s : Emitter} (hs : s.Consistent N) :
    Meets N (Emit.check p.check) s (fun i s' => p.check = .ok i ∧ s' = s)
      (fun e => e.Because (¬ p.WellTyped)) := by
  cases h : p.check with
  | ok i => exact .pure hs ⟨rfl, rfl⟩
  | error e => exact .refused hs (not_wellTyped_of_check h)

/-- A program is emitted as the module of its fields and methods, or refused because it is not well
typed. -/
theorem emitModule_meets {p : Program} (hp : p.EachType (Ty.Named N)) (o : Options)
    (hc : c.emitter.Consistent N) (hcode : c.emitter.code = []) (hglobals : c.record.globals = [])
    (hfunctions : c.record.functions = []) :
    Meets N (p.emitModule o) c
      (fun _ c' => List.Forall₂ c'.emitter.DeclaresField p.fields c'.record.globals ∧
        (c'.record.globals.map Variable.id).Nodup ∧
        c'.emitter.EmitsMethods c'.record.globals p.methods c'.record.functions c'.emitter.code ∧
        (Clean N → p.WellTyped))
      (fun e => e.Because (Clean N → ¬ p.WellTyped)) := by
  unfold emitModule
  refine ((Compile.emit_meets (check_meets hc)).weaken (fun _ _ _ _ h => h) ?_).seq ?_
  · exact fun e h => ⟨h.1, fun _ => h.2⟩
  rintro i c₁ - hc₁ ⟨⟨hcheck, hemitter₁⟩, hrecord₁⟩
  obtain ⟨hstage, hvertices, m, hm, hname⟩ := entry_of_check hcheck
  refine (Compile.emit_meets (emitPreamble_meets p o hc₁)).seq ?_
  rintro _ c₂ - hc₂ ⟨hcode₂, hrecord₂⟩
  refine ((declareFields_meets hp.fields hc₂).weaken (fun _ _ _ _ h => h) ?_).seq ?_
  · rintro e ⟨hkind, hnot⟩
    refine ⟨hkind, fun hN hwt => ?_⟩
    obtain ⟨keys, hkeys, -⟩ := hwt.body
    exact hnot hN keys hkeys
  rintro _ c₃ - hc₃ ⟨vs, hglobals₃, hfunctions₃, hcode₃, hfields, hnodup, -⟩
  have hglobals₃ : c₃.record.globals = vs := by
    rw [hglobals₃, hrecord₂, hrecord₁, hglobals, List.nil_append]
  have hfunctions₃ : c₃.record.functions = [] := by
    rw [hfunctions₃, hrecord₂, hrecord₁, hfunctions]
  have hcode₃ : c₃.emitter.code = [] := by
    rw [hcode₃, hcode₂]
    exact (congrArg Emitter.code hemitter₁).trans hcode
  have hvalues : ∀ v ∈ c₃.record.globals, c₃.emitter.Value v.id v.key := by
    rw [hglobals₃]
    intro v hv
    obtain ⟨f, -, hv⟩ := Emitter.exists_declaresField hfields v hv
    exact hv.value
  have hkeys : Clean N →
      List.Forall₂ Field.WellTyped p.fields (c₃.record.globals.map Variable.key) := by
    intro hN
    rw [hglobals₃, List.forall₂_map_right_iff]
    exact hfields.imp fun _ _ h => h.wellTyped hc₃ hN
  refine ((emitMethods_meets hp.methods hc₃ hvalues).weaken (fun _ _ _ _ h => h) ?_).seq ?_
  · rintro e ⟨hkind, hnot⟩
    refine ⟨hkind, fun hN hwt => ?_⟩
    obtain ⟨keys, hkeys', hmethods⟩ := hwt.body
    -- A field has one key at most by the rules, so these are the keys it was declared with.
    have heq : keys = c₃.record.globals.map Variable.key :=
      List.right_unique_forall₂' (fun _ _ _ h h' => h.unique h') hkeys' (hkeys hN)
    rw [heq] at hmethods
    exact hnot hN hmethods
  rintro _ c₄ hext₄ hc₄ ⟨fs, code, hfunctions₄, hglobals₄, hcode₄, hemits, hwt⟩
  rw [hfunctions₃, List.nil_append] at hfunctions₄
  rw [hcode₃, List.nil_append] at hcode₄
  have hentry : ∃ f, c₄.record.functions[i]? = some f := by
    obtain ⟨hlt, -⟩ := List.getElem?_eq_some_iff.mp hm
    rw [hfunctions₄, List.getElem?_eq_getElem (hemits.length_eq ▸ hlt)]
    exact ⟨_, rfl⟩
  obtain ⟨f, hf⟩ := hentry
  refine .get ?_
  rw [hf]
  refine (emitEntryPoint_meets p f hc₄).weaken ?_ fun _ h => h
  rintro _ c₅ hext₅ - ⟨hcode₅, hglobals₅, hfunctions₅⟩
  have hglobals : c₅.record.globals = vs := by rw [hglobals₅, hglobals₄, hglobals₃]
  rw [hglobals, hfunctions₅, hfunctions₄, hcode₅, hcode₄]
  refine ⟨hfields.imp fun _ _ h => h.mono (hext₄.trans hext₅), hnodup, ?_, fun hN => ?_⟩
  · rw [hglobals₃] at hemits
    exact hemits.mono hext₅
  · exact ⟨hstage, hvertices, ⟨m, List.mem_of_getElem? hm, hname⟩, _, hkeys hN, hwt hN⟩

end Program

/-- An emitter with nothing emitted is consistent. -/
theorem consistent_start (N : String → Prop) (v : Version) : (Emitter.start v).Consistent N where
  filled := Draft.wellFilled_empty v
  types := nofun
  uints := nofun
  floats := nofun
  functionTypes := nofun
  mathSet := nofun
  bindings := nofun
  declared h := by simp [Emitter.Has, Emitter.start] at h

/-- How emitting a whole module ends. -/
theorem ends_emitModule {p : Program} (hp : p.EachType (Ty.Named N)) {o : Options}
    (hids : p.idsTaken o < idLimit) :
    Ends N ({ emitter := .start o.moduleVersion } : Compilation)
      (fun _ c' => List.Forall₂ c'.emitter.DeclaresField p.fields c'.record.globals ∧
        (c'.record.globals.map Variable.id).Nodup ∧
        c'.emitter.EmitsMethods c'.record.globals p.methods c'.record.functions c'.emitter.code ∧
        (Clean N → p.WellTyped))
      (fun e => e.Because (Clean N → ¬ p.WellTyped))
      (p.emitModule o { emitter := .start o.moduleVersion }) :=
  Program.emitModule_meets hp o (consistent_start N _) rfl rfl rfl rfl hids

/-- What is known about the words that a program is emitted as. -/
structure Program.EmittedAs (N : String → Prop) (p : Program) (r : Record) (words : List Word)
    (w : Emitter) : Prop where
  decoded : Module.decode words = .ok w.draft.toModule
  consistent : w.Consistent N
  noWrap : w.NoWrap
  fits : ∀ i ∈ w.draft.instructions, i.Fits
  fields : List.Forall₂ w.DeclaresField p.fields r.globals
  distinct : (r.globals.map Variable.id).Nodup
  methods : w.EmitsMethods r.globals p.methods r.functions w.code
  wellTyped : Clean N → p.WellTyped

/-- A module that was emitted comes from a program in the way stated. -/
theorem emittedAs_of_emitModule {p : Program} (hp : p.EachType (Ty.Named N)) {o : Options}
    (hids : p.idsTaken o < idLimit) {words : List Word} {c : Compilation}
    (hrun : p.emitModule o { emitter := .start o.moduleVersion } = .ok () c)
    (hwords : c.emitter.draft.assemble.1 = .ok words) : p.EmittedAs N c.record words c.emitter := by
  have hends := ends_emitModule hp hids
  have hwrap := hids
  rw [hrun] at hends
  rw [Program.idsTaken, hrun] at hwrap
  obtain ⟨-, hcons, hfields, hdistinct, hmethods, hwt⟩ := hends
  exact ⟨Draft.decode_assemble hwords, hcons, hwrap, Draft.fits_of_assemble hwords, hfields,
    hdistinct, hmethods, hwt⟩

/-- So does the module of a compilation. -/
theorem emitted_of_compile {p : Program} (hp : p.EachType (Ty.Named N)) {o : Options}
    (hids : p.idsTaken o < idLimit) {words : List Word}
    (h : (compile (some p) o).words = .ok words) :
    ∃ w, p.EmittedAs N (compile (some p) o).record words w := by
  obtain ⟨c, hrun, hwords, hrecord⟩ := emitModule_of_compile h
  rw [hrecord]
  exact ⟨c.emitter, emittedAs_of_emitModule hp hids hrun hwords⟩

end

/-- All names are of the kind of all names. -/
theorem Program.named_all (p : Program) : p.EachType (Ty.Named fun _ => True) := by
  have hall : ∀ t : Ty, t.Named fun _ => True := Ty.named_of_forall fun _ => trivial
  exact ⟨fun f _ => hall _, fun m _ => ⟨hall _, fun l _ => hall _, fun t _ _ => hall t⟩⟩

/-- The names in the types of the example. -/
theorem named_tint_of_forall {N : String → Prop}
    (hall : ∀ name ∈ ["Camera", "view", "sizes"], N name) :
    Program.tint.EachType (Ty.Named N) := by
  refine ⟨?_, ?_⟩
  · simp only [Program.tint, List.forall_mem_cons] at hall ⊢
    simp [Ty.Named, Members.Named, hall, Ty.vec4, Ty.float32]
  · intro m hm
    rcases List.mem_pair.mp hm with rfl | rfl
    all_goals exact ⟨trivial, by simp [Ty.Named, Ty.float32], by simp [Ty.Named, Ty.vec4]⟩

theorem named_tint : Program.tint.EachType (Ty.Named CleanName) :=
  named_tint_of_forall (by decide)

end ShaderStage

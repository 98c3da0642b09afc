import ShaderStage.Proofs.Interning
import ShaderStage.Proofs.Texts
import ShaderStage.Proofs.Turns.Expressions

/-! # Expressions

What each expression emits into a consistent emitter, and when it is refused. Every expression finds
its operands as values of the emitter, appends its instructions to the function code, and leaves its
result as a value. As types with clean names are known by their signatures, what a value has as its
type is supported, so an expression is refused for its operands only.

* `Emitter.Value.supported`: the type of a value is supported;
* `Emit.load_meets`, `Emit.access_meets`, `Emit.construct_meets`, `Emit.binary_meets` and the like:
  what each expression does to a consistent emitter. -/

namespace ShaderStage

/-! ## Values -/

namespace Emitter.Value

variable {N : String → Prop} {s : Emitter} {id : Id} {k : Key}

theorem named (h : s.Value id k) (hs : s.Consistent N) : k.type.Named N := by
  obtain ⟨name, hname⟩ := h.binding
  exact (hs.bindings hname).2.2

/-- A value is recorded with a normal key. -/
theorem normal (h : s.Value id k) (hs : s.Consistent N) : k.normalize = k := by
  obtain ⟨name, hname⟩ := h.binding
  exact (hs.bindings hname).2.1

theorem underlying (h : s.Value id k) (hs : s.Consistent N) : k.type.underlying = k.type := by
  have hnormal := congrArg Key.type (h.normal hs)
  rw [← hnormal]
  obtain ⟨type, storage⟩ := k
  cases type <;> rfl

theorem supported (h : s.Value id k) (hs : s.Consistent N) (hN : Clean N) : k.type.Supported := by
  obtain ⟨T, part, i, hT, -⟩ := h.typed
  exact supported_of_typeOf? hs hN k.type k.storage (h.named hs) hT

/-- The key of a value is recorded with it. -/
theorem key_unique {k' : Key} (h : s.Value id k) (h' : s.Value id k') : k = k' := by
  obtain ⟨name, hname⟩ := h.binding
  obtain ⟨name', hname'⟩ := h'.binding
  rw [hname] at hname'
  cases hname'
  rfl

end Emitter.Value

namespace Emitter

variable {s s' : Emitter} {id : Id} {k : Key}

theorem Value.binds (h : s.Value id k) : s.Binds id := by
  obtain ⟨name, hname⟩ := h.binding
  exact ⟨_, hname⟩

/-- What is recorded about a value is its key. -/
theorem Value.key_eq (h : s.Value id k) {b : Binding} (hb : s.bindings.lookup id = some b) :
    b.key = k := by
  obtain ⟨name, hname⟩ := h.binding
  rw [hname] at hb
  cases hb
  rfl

/-- What a value points to is told by its key. -/
theorem Value.pointee?_eq_some (h : s.Value id k) {t : Ty} :
    s.pointee? id = some t ↔ k.type = .pointer t := by
  obtain ⟨name, hname⟩ := h.binding
  exact Emitter.pointee?_eq_some hname

/-- What is recorded about several values are their keys. -/
theorem Recorded.keys_eq {ids : List Id} {bs : List Binding} {ks : List Key}
    (h : s.Recorded ids bs) (hks : List.Forall₂ s.Value ids ks) : bs.map (·.key) = ks := by
  induction h generalizing ks with
  | nil =>
    cases hks
    rfl
  | cons hb _ ih =>
    obtain ⟨⟩ | ⟨hk, hks⟩ := hks
    rw [List.map_cons, hk.key_eq hb, ih hks]

/-- Values are recorded. -/
theorem recorded_of_values {ids : List Id} {ks : List Key} (h : List.Forall₂ s.Value ids ks) :
    ∃ bs, s.Recorded ids bs := by
  induction h with
  | nil => exact ⟨[], .nil⟩
  | cons hid _ ih =>
    obtain ⟨b, hb⟩ := hid.binds
    obtain ⟨bs, hbs⟩ := ih
    exact ⟨b :: bs, .cons hb hbs⟩

theorem binds_of_values {ids : List Id} {ks : List Key} (h : List.Forall₂ s.Value ids ks) :
    ∀ id ∈ ids, s.Binds id := by
  induction h with
  | nil => nofun
  | cons hid _ ih => exact List.forall_mem_cons.mpr ⟨hid.binds, ih⟩

/-! ## Names of values -/

/-- The id is known by the name of an operand with a suffix, or by no name if the operand is. -/
def Derives (s : Emitter) (operand : Id) (suffix : String) (id : Id) : Prop :=
  ∃ b b', s.bindings.lookup operand = some b ∧ s.bindings.lookup id = some b' ∧
    b'.name = suffixed b.name suffix

/-- The id is known, but by no name. -/
def Nameless (s : Emitter) (id : Id) : Prop :=
  ∃ b, s.bindings.lookup id = some b ∧ b.name = ""

theorem Derives.mono (h : s.Extends s') {operand : Id} {suffix : String}
    (hid : s.Derives operand suffix id) : s'.Derives operand suffix id := by
  obtain ⟨b, b', hb, hb', hname⟩ := hid
  exact ⟨b, b', h.bindings hb, h.bindings hb', hname⟩

theorem Nameless.mono (h : s.Extends s') (hid : s.Nameless id) : s'.Nameless id := by
  obtain ⟨b, hb, hname⟩ := hid
  exact ⟨b, h.bindings hb, hname⟩

section

variable {op : Opcode} {operands : List Word} {key : Key} {text : String}

/-- A result that is named after an operand keeps that name. -/
theorem Computed.derives (h : s.Computed op operands key text id s') {s₀ : Emitter}
    (hext : s₀.Extends s') {operand : Id} {b : Binding} (hb : s₀.bindings.lookup operand = some b)
    {suffix : String} (htext : text = suffixed b.name suffix) : s'.Derives operand suffix id :=
  ⟨b, _, hext.bindings hb, h.binding, htext⟩

/-- A result without a name stays without one. -/
theorem Computed.nameless (h : s.Computed op operands key "" id s') : s'.Nameless id :=
  ⟨_, h.binding, rfl⟩

end

end Emitter

namespace Emit

variable {N : String → Prop} {s : Emitter} {E : CompileError → Prop}

/-- Looking up a value finds its key. -/
theorem binding_bind_meets {β : Type} {f : Binding → Emit β} {Q : β → Emitter → Prop} {id : Id}
    {k : Key} (h : s.Value id k)
    (hf : ∀ b, s.bindings.lookup id = some b → b.key = k → Meets N (f b) s Q E) :
    Meets N (binding id >>= f) s Q E := by
  obtain ⟨name, hname⟩ := h.binding
  have hrun : (binding id >>= f) s = f ⟨k, name⟩ s := by
    rw [bind_apply, binding_apply, hname]
  unfold Meets
  rw [hrun]
  exact hf ⟨k, name⟩ hname rfl

/-! ## Memory -/

/-- Loading through a pointer never fails, since what it points to is supported. -/
theorem load_meets (hs : s.Consistent N) {p : Id} {k : Key} (hp : s.Value p k) :
    Meets N (load p) s
      (fun id s' => ∃ elem T, k.type = .pointer elem ∧ s'.typeOf? (.value elem) = some T ∧
        s'.Value id (Key.value elem).normalize ∧ s'.Derives p "-loaded" id ∧
        s'.code = s.code ++ [⟨.load, [T, id, p]⟩])
      (fun e => e.Because (Clean N → ∀ elem, k.type ≠ .pointer elem)) := by
  refine ((load_acts fun _ _ _ hkey => hkey).meets hs).mono ?_ fun e h => ?_
  · rintro id s' hext - ⟨b, elem, hb, helem, hid⟩
    obtain ⟨T, hT, hcode⟩ := hid.code
    rw [hp.key_eq hb] at helem
    exact ⟨elem, T, helem, hT, hid.value, hid.derives hext hb rfl, hcode⟩
  · -- What a pointer points to is supported when the pointer's own type is.
    refine (h.2 hp.binds).mono fun hreason hN elem helem => ?_
    have hsupported := hp.supported hs hN
    rw [helem] at hsupported
    exact hreason elem (hp.pointee?_eq_some.mpr helem) hsupported

/-- A value is stored where its type fits. -/
theorem store_meets (hs : s.Consistent N) {p v : Id} {k kv : Key} (hp : s.Value p k)
    (hv : s.Value v kv) :
    Meets N (store p v) s
      (fun _ s' => (∃ elem, k.type = .pointer elem ∧ elem.same kv.type = true) ∧
        s'.code = s.code ++ [⟨.store, [p, v]⟩])
      (fun e => e.Because (∀ elem, k.type = .pointer elem → elem.same kv.type = false)) := by
  refine ((store_acts p v).meets hs).mono ?_ fun e h => ?_
  · rintro _ s' - - ⟨⟨elem, b, helem, hb, hsame⟩, hcode⟩
    rw [hv.key_eq hb] at hsame
    exact ⟨⟨elem, hp.pointee?_eq_some.mp helem, hsame⟩, hcode⟩
  · refine (h.2 ⟨hp.binds, hv.binds⟩).mono fun hreason elem helem => ?_
    obtain ⟨name, hname⟩ := hv.binding
    exact hreason elem _ (hp.pointee?_eq_some.mpr helem) hname

/-- An instruction that has no result only adds itself to the code. -/
theorem performed_meets (hs : s.Consistent N) {op : Opcode} {operands : List Word}
    (h : op.Performs operands) :
    Meets N (instruction .functions op operands) s
      (fun _ s' => s'.code = s.code ++ [⟨op, operands⟩]) E :=
  Acts.meets (.of_turn (fun _ => rfl) (.note (.performed h)) (Emitter.code_put s .functions _)) hs

/-! ## Composites -/

/-- A part of a value is taken, at an index that its type has. -/
theorem extract_meets (hs : s.Consistent N) {b : Id} {k : Key} (hb : s.Value b k) (i : UInt32) :
    Meets N (extract b i) s
      (fun id s' => ∃ elem T, k.type.component i = .ok elem ∧ s'.typeOf? (.value elem) = some T ∧
        s'.Value id (Key.value elem).normalize ∧ s'.Derives b (componentSuffix i) id ∧
        s'.code = s.code ++ [⟨.compositeExtract, [T, id, b, i]⟩])
      (fun e => e.Because (Clean N → ∀ elem, k.type.component i ≠ .ok elem)) := by
  refine ((extract_acts b i).meets hs).mono ?_ fun e h => ?_
  · rintro id s' hext - ⟨bb, elem, hbb, helem, hid⟩
    obtain ⟨T, hT, hcode⟩ := hid.code
    rw [hb.key_eq hbb] at helem
    exact ⟨elem, T, helem, hT, hid.value, hid.derives hext hbb (extractName_eq _ i), hcode⟩
  · refine (h.2 hb.binds).mono fun hreason hN elem helem => ?_
    obtain ⟨name, hname⟩ := hb.binding
    exact hreason _ elem hname helem
      ((Ty.component_eq_ok_iff.mp helem).supported (hb.supported hs hN))

/-- A part of a part is taken, at indices that the types have. -/
theorem extract2_meets (hs : s.Consistent N) {b : Id} {k : Key} (hb : s.Value b k)
    (row col : UInt32) :
    Meets N (extract2 b row col) s
      (fun id s' => ∃ inner elem T, k.type.component row = .ok inner ∧
        inner.component col = .ok elem ∧ s'.typeOf? (.value elem) = some T ∧
        s'.Value id (Key.value elem).normalize ∧ s'.Derives b (cellSuffix row col) id ∧
        s'.code = s.code ++ [⟨.compositeExtract, [T, id, b, row, col]⟩])
      (fun e => e.Because (Clean N → ∀ inner elem, k.type.component row = .ok inner →
        inner.component col ≠ .ok elem)) := by
  refine ((extract2_acts b row col).meets hs).mono ?_ fun e h => ?_
  · rintro id s' hext - ⟨bb, inner, elem, hbb, hinner, helem, hid⟩
    obtain ⟨T, hT, hcode⟩ := hid.code
    rw [hb.key_eq hbb] at hinner
    exact ⟨inner, elem, T, hinner, helem, hT, hid.value, hid.derives hext hbb rfl, hcode⟩
  · refine (h.2 hb.binds).mono fun hreason hN inner elem hinner helem => ?_
    obtain ⟨name, hname⟩ := hb.binding
    have hsupported := (Ty.component_eq_ok_iff.mp hinner).supported (hb.supported hs hN)
    exact hreason _ inner elem hname hinner helem
      ((Ty.component_eq_ok_iff.mp helem).supported hsupported)

/-- A pointer to a part is computed, at an index that the type has. -/
theorem access_meets (hs : s.Consistent N) {b : Id} {k : Key} (hb : s.Value b k) (i : UInt32) :
    Meets N (access b i) s
      (fun id s' => ∃ elem member T index, k.type = .pointer elem ∧
        elem.component i = .ok member ∧ s'.typeOf? (.pointer member k.storage) = some T ∧
        s'.Constant index .uint32 i ∧ s'.Value id (Key.pointer member k.storage).normalize ∧
        s'.Derives b (accessSuffix i) id ∧ s'.code = s.code ++ [⟨.accessChain, [T, id, b, index]⟩])
      (fun e => e.Because (Clean N → ∀ elem member, k.type = .pointer elem →
        elem.component i ≠ .ok member)) := by
  refine ((access_acts b i).meets hs).mono ?_ fun e h => ?_
  · rintro id s' hext hs' ⟨bb, elem, member, index, hbb, helem, hmember, hindex, hid⟩
    have hname := hid.derives hext hbb (accessName_eq _ i)
    rw [hb.key_eq hbb] at helem hid
    obtain ⟨T, hT, hcode⟩ := hid.code
    exact ⟨elem, member, T, index, helem, hmember, hT, hs'.uints hindex, hid.value, hname, hcode⟩
  · refine (h.2 hb.binds).mono fun hreason hN elem member helem hmember => ?_
    obtain ⟨name, hname⟩ := hb.binding
    have hsupported := hb.supported hs hN
    rw [helem] at hsupported
    exact hreason _ elem member hname helem hmember
      ((Ty.component_eq_ok_iff.mp hmember).supported hsupported)

/-- A composite is made of values, if they fit and its type is supported. -/
theorem construct_meets (hs : s.Consistent N) {t : Ty} (ht : t.Named N) {parts : List Id}
    {ks : List Key} (hparts : List.Forall₂ s.Value parts ks) :
    Meets N (construct t parts) s
      (fun id s' => ∃ T, t.checkParts (ks.map Key.type) = .ok () ∧
        s'.typeOf? (.value t) = some T ∧ s'.Value id (Key.value t).normalize ∧ s'.Nameless id ∧
        s'.code = s.code ++ [⟨.compositeConstruct, T :: id :: parts⟩])
      (fun e => e.Because (t.checkParts (ks.map Key.type) = .ok () → ¬ t.Supported)) := by
  have htypes {bs : List Binding} (hbs : s.Recorded parts bs) :
      bs.map (fun b => b.key.type) = ks.map Key.type := by
    rw [← hbs.keys_eq hparts, List.map_map]
    rfl
  refine ((construct_acts ht parts).meets hs).mono ?_ fun e h => ?_
  · rintro id s' - - ⟨bs, hbs, hok, hid⟩
    obtain ⟨T, hT, hcode⟩ := hid.code
    rw [htypes hbs] at hok
    exact ⟨T, hok, hT, hid.value, hid.nameless, hcode⟩
  · refine (h.2 (Emitter.binds_of_values hparts)).mono fun hreason hok => ?_
    obtain ⟨bs, hbs⟩ := Emitter.recorded_of_values hparts
    exact hreason bs hbs (by rw [htypes hbs, hok])

/-! ## Functions and operators -/

/-- A known function is applied to a float or a vector. -/
theorem math_meets (hs : s.Consistent N) {a : Id} {k : Key} (ha : s.Value a k) (f : MathFunction) :
    Meets N (math f a) s
      (fun id s' => ∃ T set number, f.number = .ok number ∧ k.type.MathOperand ∧
        s'.typeOf? k = some T ∧
        s'.Has .instructionSets ⟨.extInstImport, set :: Literal.ofString mathSetName⟩ ∧
        s'.Value id k ∧ s'.Nameless id ∧
        s'.code = s.code ++ [⟨.extInst, [T, id, set, number, a]⟩])
      (fun e => e.Because (Clean N → (∀ code, f ≠ .unknown code) → ¬ k.type.MathOperand)) := by
  refine ((math_acts f a).meets hs).mono ?_ fun e h => ?_
  · rintro id s' - hs' ⟨b, set, number, hnumber, hb, hoperand, hset, hid⟩
    obtain ⟨T, hT, hcode⟩ := hid.code
    have hvalue := hid.value
    obtain rfl := ha.key_eq hb
    rw [ha.underlying hs] at hoperand
    rw [ha.normal hs] at hvalue
    exact ⟨T, set, number, hnumber, hoperand, hT, hs'.mathSet hset, hvalue, hid.nameless, hcode⟩
  · refine (h.2 ha.binds).mono fun hreason hN hknown hoperand => ?_
    obtain ⟨name, hname⟩ := ha.binding
    rw [← ha.underlying hs] at hoperand
    exact hreason _ hname hknown hoperand (ha.supported hs hN)

/-- Three components are put together again, which never fails. -/
theorem construct_vec3_meets (hs : s.Consistent N) {parts : List Id}
    (hparts : List.Forall₂ s.Value parts [.value .float32, .value .float32, .value .float32])
    (text : String) :
    Meets N (do
      let id ← construct .vec3 parts
      rename id text
      return id) s (s.Computed .compositeConstruct parts (.value .vec3) text) E := by
  have hconstruct := construct_rename_acts (κ := .named N) (s := s) (t := .vec3) trivial parts text
    trivial
  refine (hconstruct.meets hs).refusing fun e h => ?_
  obtain ⟨bs, hbs⟩ := Emitter.recorded_of_values hparts
  have htypes : bs.map (·.key.type) = [.float32, .float32, .float32] := by
    have hkeys := congrArg (List.map Key.type) (hbs.keys_eq hparts)
    rwa [List.map_map] at hkeys
  have hcheck : Ty.vec3.checkParts (bs.map (·.key.type)) = .ok () := by
    rw [htypes]
    rfl
  have hsupported : Ty.vec3.Supported := ⟨by decide, by decide⟩
  exact absurd hsupported ((h.2 (Emitter.binds_of_values hparts)).2 bs hbs hcheck)

/-- A component of the vector of four that is narrowed. -/
theorem extract_vec4_meets (hs : s.Consistent N) {v : Id} (hv : s.Value v (.value .vec4))
    {i : UInt32} (hi : i < 4) {reason : Prop} :
    Meets N (extract v i) s
      (fun x s' => ∃ F, s'.typeOf? (.value .float32) = some F ∧ s'.Value x (.value .float32) ∧
        s'.Derives v (componentSuffix i) x ∧
        s'.code = s.code ++ [⟨.compositeExtract, [F, x, v, i]⟩])
      (fun e => e.Because (Clean N → reason)) := by
  have hcomponent : Ty.vec4.component i = .ok .float32 :=
    Ty.component_eq_ok_iff.mpr (.vector hi)
  refine (extract_meets hs hv i).mono ?_ ?_
  · rintro x s' - - ⟨elem, F, helem, hF, hx, hname, hcode⟩
    have heq : elem = .float32 := Except.ok.inj (helem.symm.trans hcomponent)
    subst heq
    exact ⟨F, hF, hx, hname, hcode⟩
  · exact fun e h => ⟨h.1, fun hN => absurd hcomponent (h.2 hN .float32)⟩

/-- A vector of four is narrowed to three components, and nothing else is. -/
theorem narrowVec4_meets (hs : s.Consistent N) {v : Id} {k : Key} (hv : s.Value v k) :
    Meets N (narrowVec4 v) s
      (fun id s' => ∃ x y z F T, k = .value .vec4 ∧ s'.typeOf? (.value .float32) = some F ∧
        s'.typeOf? (.value .vec3) = some T ∧ s'.Value x (.value .float32) ∧
        s'.Value y (.value .float32) ∧ s'.Value z (.value .float32) ∧ s'.Value id (.value .vec3) ∧
        s'.Derives v ".x" x ∧ s'.Derives v ".y" y ∧ s'.Derives v ".z" z ∧ s'.Derives v ".xyz" id ∧
        s'.code = s.code ++ [⟨.compositeExtract, [F, x, v, 0]⟩, ⟨.compositeExtract, [F, y, v, 1]⟩,
          ⟨.compositeExtract, [F, z, v, 2]⟩, ⟨.compositeConstruct, [T, id, x, y, z]⟩])
      (fun e => e.Because (Clean N → k.type ≠ .vec4)) := by
  unfold narrowVec4
  refine binding_bind_meets hv ?_
  rintro b hlookup hb
  rw [hb, hv.underlying hs]
  dsimp only
  by_cases hk : k.type = .vec4
  · have hkey : k = .value .vec4 := by
      have hnormal := hv.normal hs
      obtain ⟨type, storage⟩ := k
      cases hk
      exact hnormal.symm
    rw [if_pos hk]
    subst hkey
    refine (extract_vec4_meets hs hv (by decide)).bind ?_
    rintro x s₁ hext₁ hs₁ ⟨F, hF, hx, hxname, hcode₁⟩
    refine (extract_vec4_meets hs₁ (hv.mono hext₁) (by decide)).bind ?_
    rintro y s₂ hext₂ hs₂ ⟨F₂, hF₂, hy, hyname, hcode₂⟩
    have hv₂ := (hv.mono hext₁).mono hext₂
    refine (extract_vec4_meets hs₂ hv₂ (by decide)).bind ?_
    rintro z s₃ hext₃ hs₃ ⟨F₃, hF₃, hz, hzname, hcode₃⟩
    have hx₃ := (hx.mono hext₂).mono hext₃
    have hy₃ := hy.mono hext₃
    have hparts : List.Forall₂ s₃.Value [x, y, z]
        [.value .float32, .value .float32, .value .float32] :=
      .cons hx₃ (.cons hy₃ (.cons hz .nil))
    refine (construct_vec3_meets hs₃ hparts (suffixed b.name ".xyz")).mono ?_ fun _ h => h
    intro id s₄ hext₄ hs₄ hid
    obtain ⟨T, hT, hcode₄⟩ := hid.code
    have hext := hext₁.trans (hext₂.trans (hext₃.trans hext₄))
    -- A type has one id, so the three components share it.
    have hF₃' : F₃ = F := by
      have h := hext₃.types (hext₂.types hF)
      exact Option.some.inj (hF₃.symm.trans h)
    have hF₂' : F₂ = F := by
      exact Option.some.inj (hF₂.symm.trans (hext₂.types hF))
    subst hF₃' hF₂'
    refine ⟨x, y, z, F₂, T, rfl, hext₄.types hF₃, hT, hx₃.mono hext₄, hy₃.mono hext₄,
      hz.mono hext₄, hid.value, hxname.mono (hext₂.trans (hext₃.trans hext₄)),
      hyname.mono (hext₃.trans hext₄), hzname.mono hext₄, hid.derives hext hlookup rfl, ?_⟩
    rw [hcode₄, hcode₃, hcode₂, hcode₁]
    simp
  · rw [if_neg hk]
    exact .refused_bind hs ⟨nofun, fun _ => hk⟩

/-- Narrowing a matrix is always refused. -/
theorem narrowMat4_meets (hs : s.Consistent N) {v : Id} {k : Key} (hv : s.Value v k)
    {Q : Id → Emitter → Prop} :
    Meets N (narrowMat4 v) s Q (fun e => e.Because True) :=
  ((narrowMat4_acts v).meets hs).mono (fun _ _ _ _ h => h.elim) fun _ h => h.2 hv.binds

/-- Operands are combined as the operator resolves them. -/
theorem binary_meets (hs : s.Consistent N) {l r : Id} {kl kr : Key} (hl : s.Value l kl)
    (hr : s.Value r kr) (op : BinaryOperator) :
    Meets N (binary op l r) s
      (fun id s' => ∃ c t swap T, op.Resolves kl.type kr.type c t swap ∧
        s'.typeOf? (.value t) = some T ∧ s'.Value id (Key.value t).normalize ∧ s'.Nameless id ∧
        s'.code = s.code ++ [⟨c, if swap then [T, id, r, l] else [T, id, l, r]⟩])
      (fun e => e.Because (Clean N → ∀ c t swap, ¬ op.Resolves kl.type kr.type c t swap)) := by
  refine ((binary_acts op l r).meets hs).mono ?_ fun e h => ?_
  · rintro id s' - - ⟨bl, br, c, t, swap, hbl, hbr, hresolves, hid⟩
    obtain ⟨T, hT, hcode⟩ := hid.code
    rw [hl.key_eq hbl, hr.key_eq hbr, hl.underlying hs, hr.underlying hs] at hresolves
    refine ⟨c, t, swap, T, hresolves, hT, hid.value, hid.nameless, ?_⟩
    rw [hcode]
    cases swap <;> rfl
  · refine (h.2 ⟨hl.binds, hr.binds⟩).mono fun hreason hN c t swap hresolves => ?_
    obtain ⟨lname, hlname⟩ := hl.binding
    obtain ⟨rname, hrname⟩ := hr.binding
    have hsupported : t.Supported := by
      cases hresolves with
      | product hop h =>
        exact (BinaryOperator.combines_of_product? h).supported (hl.supported hs hN)
          (hr.supported hs hN)
      | uniform => exact hl.supported hs hN
    rw [← hl.underlying hs, ← hr.underlying hs] at hresolves
    exact hreason _ _ c t swap hlname hrname hresolves hsupported

end Emit

end ShaderStage

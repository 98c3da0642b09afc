import ShaderStage.Proofs.Turns

/-! # Names do not matter

Two emissions that differ in names only are run side by side. They take the same ids, fill the same
tables and stop at the same point, so that their emitters are equal once all debug names are
forgotten. Turns tell what a single emission does; here two of them are compared, which takes a look
at what each does next:

* `Agrees`: two emissions, from emitters that differ in names only, end in such emitters;
* `Blind`: an emission agrees with itself. -/

namespace ShaderStage

/-! ## Forgetting names -/

/-- What is known about an id, without its name. -/
def Binding.erase (b : Binding) : Binding :=
  { b with name := "" }

/-- The variable without its name. -/
def Variable.erase (v : Variable) : Variable :=
  { v with name := "" }

/-- The entry gives an id a debug name. -/
def isLabel (e : Section × Instruction) : Bool :=
  e.1 = .names && e.2.opcode = .name

namespace Emitter

/-- The emitter without debug names. -/
def erase (s : Emitter) : Emitter :=
  { s with
    draft := { s.draft with log := s.draft.log.filter (!isLabel ·) }
    bindings := s.bindings.map fun e => (e.1, e.2.erase) }

/-- The emitters differ in debug names only. -/
def Twin (s t : Emitter) : Prop :=
  s.erase = t.erase

variable {s t : Emitter}

/-- Forgetting names forgets exactly the labels. -/
theorem erase_put (s : Emitter) (part : Section) (i : Instruction) :
    (s.put part i).erase = if isLabel (part, i) then s.erase else s.erase.put part i := by
  unfold put Draft.emit erase
  dsimp only
  rw [Array.filter_push]
  cases isLabel (part, i) <;> rfl

theorem erase_record (s : Emitter) (id : Id) (key : Key) (name : String) :
    (s.record id key name).erase = s.erase.record id key "" := rfl

/-- Names are no capabilities. -/
theorem declares_erase (s : Emitter) (c : Capability) :
    s.erase.draft.declares c = s.draft.declares c := by
  unfold Draft.declares erase
  dsimp only
  rw [Array.any_filter]
  refine congrArg (s.draft.log.any · 0 s.draft.log.size) ?_
  funext ⟨part, i⟩
  cases part <;> simp [isLabel]

/-- Emitters that differ in names have taken the same ids. -/
theorem Twin.ids (h : s.Twin t) : s.draft.ids = t.draft.ids :=
  congrArg (·.draft.ids) h

/-- Emitters that differ in names have declared the same capabilities. -/
theorem Twin.declares (h : s.Twin t) (c : Capability) :
    s.draft.declares c = t.draft.declares c := by
  rw [← s.declares_erase, ← t.declares_erase, h]

/-- Forgetting names forgets no id. -/
theorem lookup_erase (s : Emitter) (id : Id) :
    s.erase.bindings.lookup id = (s.bindings.lookup id).map Binding.erase := by
  unfold erase
  dsimp only
  induction s.bindings with
  | nil => rfl
  | cons e rest ih =>
    obtain ⟨id', b⟩ := e
    rw [List.map_cons, lookup_cons_eq_ite, lookup_cons_eq_ite, ih]
    split <;> rfl

/-- Emitters that differ in names know the same ids. -/
theorem Twin.lookup (h : s.Twin t) (id : Id) :
    (s.bindings.lookup id).map Binding.erase = (t.bindings.lookup id).map Binding.erase := by
  rw [← s.lookup_erase, ← t.lookup_erase, h]

end Emitter

/-! ## Runs side by side -/

section

variable {σ α β γ δ : Type} {E : σ → σ → Prop} {R : α → β → Prop} {S : γ → δ → Prop}

/-- Both runs succeed with related results in related states, or both are refused, or both stop at
the same fault. -/
inductive ResultsAgree (E : σ → σ → Prop) (R : α → β → Prop) :
    EStateM.Result Failure σ α → EStateM.Result Failure σ β → Prop
  | ok {a : α} {b : β} {s t : σ} (hR : R a b) (hE : E s t) : ResultsAgree E R (.ok a s) (.ok b t)
  | refused {e e' : CompileError} {s t : σ} :
      ResultsAgree E R (.error (.refused e) s) (.error (.refused e') t)
  | fault {f : Fault} {s t : σ} : ResultsAgree E R (.error (.fault f) s) (.error (.fault f) t)

/-- Runs that agree are followed by runs that agree. -/
theorem ResultsAgree.bind {x : EStateM Failure σ α} {y : EStateM Failure σ β}
    {f : α → EStateM Failure σ γ} {g : β → EStateM Failure σ δ} {s t : σ}
    (h : ResultsAgree E R (x s) (y t))
    (hf : ∀ a b s₁ t₁, x s = .ok a s₁ → y t = .ok b t₁ → R a b → E s₁ t₁ →
      ResultsAgree E S (f a s₁) (g b t₁)) :
    ResultsAgree E S ((x >>= f) s) ((y >>= g) t) := by
  rw [bind_apply, bind_apply]
  generalize hx : x s = rx at h
  generalize hy : y t = ry at h
  cases h with
  | ok hR hE => exact hf _ _ _ _ hx hy hR hE
  | refused => exact .refused
  | fault => exact .fault

end

section

variable {α β γ δ : Type} {R : α → β → Prop} {S : γ → δ → Prop}

/-- From emitters that differ in names only, the emissions agree. -/
def Agrees (R : α → β → Prop) (x : Emit α) (y : Emit β) : Prop :=
  ∀ s t : Emitter, s.Twin t → ResultsAgree Emitter.Twin R (x s) (y t)

/-- What the emission does depends on no name. -/
class Blind (x : Emit α) : Prop where
  agrees : Agrees Eq x x

namespace Agrees

theorem pure {a : α} {b : β} (h : R a b) : Agrees R (pure a) (pure b) :=
  fun _ _ hst => .ok h hst

theorem refuse (e e' : CompileError) : Agrees R (Emit.refuse e) (Emit.refuse e') :=
  fun _ _ _ => .refused

/-- Emissions that agree are followed by emissions that agree. -/
theorem bind {x : Emit α} {y : Emit β} {f : α → Emit γ} {g : β → Emit δ} (hx : Agrees R x y)
    (hf : ∀ a b, R a b → Agrees S (f a) (g b)) : Agrees S (x >>= f) (y >>= g) :=
  fun s t hst => (hx s t hst).bind fun a b s₁ t₁ _ _ hR hE => hf a b hR s₁ t₁ hE

/-- What depends on no name may come first on both sides. -/
theorem seq {x : Emit α} {f : α → Emit γ} {g : α → Emit δ} [hx : Blind x]
    (hf : ∀ a, Agrees S (f a) (g a)) : Agrees S (x >>= f) (x >>= g) := by
  refine hx.agrees.bind ?_
  rintro a _ rfl
  exact hf a

theorem get {f : Emitter → Emit α} {g : Emitter → Emit β}
    (h : ∀ s t : Emitter, s.Twin t → Agrees R (f s) (g t)) :
    Agrees R (get >>= f) (get >>= g) := by
  intro s t hst
  rw [bind_apply, bind_apply, get_apply, get_apply]
  exact h s t hst s t hst

/-- Changes agree that are the same once names are forgotten. -/
theorem modify {f f' g : Emitter → Emitter} (h : ∀ s, (f s).erase = g s.erase)
    (h' : ∀ t, (f' t).erase = g t.erase) :
    Agrees Eq (modify f : Emit PUnit) (modify f' : Emit PUnit) := by
  intro s t hst
  rw [modify_apply, modify_apply]
  refine .ok rfl ?_
  rw [Emitter.Twin, h, h', hst]

end Agrees

instance blind_pure (a : α) : Blind (pure a : Emit α) :=
  ⟨.pure rfl⟩

instance blind_throw (e : Failure) : Blind (throw e : Emit α) := by
  refine ⟨fun _ _ _ => ?_⟩
  cases e with
  | refused e => exact .refused
  | fault f => exact .fault

instance blind_bind (x : Emit α) (f : α → Emit γ) [hx : Blind x] [hf : ∀ a, Blind (f a)] :
    Blind (x >>= f) :=
  ⟨.seq fun a => (hf a).agrees⟩

instance blind_ite (c : Prop) [Decidable c] (x y : Emit α) [hx : Blind x] [hy : Blind y] :
    Blind (if c then x else y) := by
  split
  · exact hx
  · exact hy

instance blind_forM (xs : List α) (f : α → Emit PUnit) [hf : ∀ a, Blind (f a)] :
    Blind (xs.forM f) := by
  induction xs with
  | nil => exact blind_pure _
  | cons x rest ih =>
    show Blind (f x >>= fun _ => rest.forM f)
    infer_instance

/-- A change is blind that does not depend on names. -/
theorem blind_modify {f : Emitter → Emitter} (h : ∀ s, (f s).erase = f s.erase) :
    Blind (modify f : Emit PUnit) :=
  ⟨.modify h h⟩

/-- What is found in a table that has no names decides what is done next. -/
theorem blind_lookup (table : Emitter → Option Id) (htable : ∀ s, table s.erase = table s)
    {define : Emit Id} (hdefine : Blind define) :
    Blind (get >>= fun s => match table s with
      | some id => pure id
      | none => define : Emit Id) := by
  refine ⟨.get fun s t hst => ?_⟩
  rw [← htable s, hst, htable t]
  cases table t with
  | some id => exact .pure rfl
  | none => exact hdefine.agrees

end

namespace Emit

variable {α β : Type} {R : α → β → Prop}

/-! ## Instructions -/

instance blind_refuse (e : CompileError) : Blind (refuse e : Emit α) :=
  blind_throw _

instance blind_check (e : Except CompileError α) : Blind (check e) := by
  cases e with
  | ok a => exact blind_pure a
  | error e => exact blind_refuse e

instance blind_instruction (part : Section) (op : Opcode) (operands : List Word) :
    Blind (instruction part op operands) :=
  ⟨.modify (g := fun s => if isLabel (part, ⟨op, operands⟩) then s else s.put part ⟨op, operands⟩)
    (fun s => s.erase_put _ _) fun s => s.erase_put _ _⟩

/-- Different names may be given to an id. -/
theorem agrees_name (id : Id) (text text' : String) :
    Agrees Eq (name id text) (name id text') :=
  .modify (g := fun s => s) (fun s => s.erase_put _ _) fun s => s.erase_put _ _

theorem agrees_bind (id : Id) (key : Key) (text text' : String) :
    Agrees Eq (Emit.bind id key text) (Emit.bind id key text') :=
  .modify (g := fun s => s.record id key "") (fun s => s.erase_record ..) fun s => s.erase_record ..

instance blind_bindId (id : Id) (key : Key) (text : String) : Blind (Emit.bind id key text) :=
  ⟨agrees_bind _ _ _ _⟩

instance blind_fresh : Blind fresh := by
  refine ⟨.get fun s t hst => ?_⟩
  rw [hst.ids]
  have hmodify : ∀ ids : IdSupply,
      Blind (modify fun s : Emitter => { s with draft := { s.draft with ids } }) :=
    fun _ => blind_modify fun _ => rfl
  split
  · exact (blind_throw _).agrees
  · exact (blind_bind _ _).agrees

instance blind_result (part : Section) (op : Opcode) (operands : List Word) :
    Blind (result part op operands) := by
  unfold result
  infer_instance

instance blind_typedResult (part : Section) (op : Opcode) (type : Id) (operands : List Word) :
    Blind (typedResult part op type operands) := by
  unfold typedResult
  infer_instance

instance blind_capability (c : Capability) : Blind (capability c) := by
  refine ⟨.get fun s t hst => ?_⟩
  rw [hst.declares]
  exact Blind.agrees

/-- An id may be named or not. -/
theorem agrees_label (id : Id) (text text' : String) :
    Agrees Eq (unless text = "" do name id text) (unless text' = "" do name id text') := by
  intro s t hst
  have hname : ∀ (text : String) (s : Emitter), ∃ s', (unless text = "" do name id text : Emit Unit)
      s = .ok () s' ∧ s'.erase = s.erase := by
    intro text s
    split
    · exact ⟨s, rfl, rfl⟩
    · exact ⟨_, rfl, s.erase_put _ _⟩
  obtain ⟨s', hs, hs'⟩ := hname text s
  obtain ⟨t', ht, ht'⟩ := hname text' t
  rw [hs, ht]
  exact .ok rfl (hs'.trans (hst.trans ht'.symm))

instance blind_name (id : Id) (text : String) : Blind (name id text) :=
  ⟨agrees_name _ _ _⟩

instance blind_decorate (id : Id) (decoration : Decoration) (parameters : List Word) :
    Blind (decorate id decoration parameters) :=
  blind_instruction ..

/-! ## Types and constants -/

instance blind_intern (key : Key) (x : Emit Id) [Blind x] : Blind (intern key x) := by
  have hmodify : ∀ id : Id, Blind (modify fun s : Emitter =>
      { s with
        types := (key.signature, id) :: s.types
        bindings := (id, ⟨key.normalize, ""⟩) :: s.bindings }) :=
    fun _ => blind_modify fun _ => rfl
  exact blind_lookup (fun s => s.types.lookup key.signature) (fun _ => rfl) inferInstance

instance blind_defineInt (type : IntTy) : Blind (defineInt type) := by
  unfold defineInt typeInt
  infer_instance

instance blind_defineFloat (width : UInt8) : Blind (defineFloat width) := by
  unfold defineFloat typeFloat
  infer_instance

instance blind_float32Id : Blind float32Id := by
  unfold float32Id
  infer_instance

instance blind_uint32Id : Blind uint32Id := by
  unfold uint32Id
  infer_instance

instance blind_defineVector (count : UInt8) : Blind (defineVector count) := by
  unfold defineVector typeVector
  infer_instance

instance blind_defineMatrix4 : Blind defineMatrix4 := by
  unfold defineMatrix4 vec4Id typeMatrix
  infer_instance

instance blind_defineSampledImage2D : Blind defineSampledImage2D := by
  unfold defineSampledImage2D typeImage typeSampledImage
  infer_instance

instance blind_constantOf (pool : Pool) (bits : Word) : Blind (constantOf pool bits) := by
  have htype : Blind (poolTypeId pool) := by
    cases pool with
    | uint => exact blind_uint32Id
    | float => exact blind_float32Id
  have hconstant : ∀ type, Blind (constant type [bits]) := fun _ => blind_typedResult ..
  have hmodify : ∀ id : Id, Blind (modify (·.addConstant pool bits id) : Emit PUnit) := by
    intro id
    refine blind_modify fun _ => ?_
    cases pool <;> rfl
  refine blind_lookup (fun s => (s.constants pool).lookup bits) (fun s => ?_) inferInstance
  cases pool <;> rfl

instance blind_layoutMembers (struct : Id) (members : Members) (i : Word) (offset : UInt32) :
    Blind (layoutMembers struct i offset members) := by
  induction members using Members.toList.induct generalizing i offset with
  | case1 =>
    unfold layoutMembers
    infer_instance
  | case2 member type rest ih =>
    unfold layoutMembers memberDecorate memberName
    cases type.naturalSize with
    | error part => infer_instance
    | ok size =>
      have hrest := ih (i + 1) (offset + size)
      infer_instance

mutual

instance blind_typeId : ∀ (type : Ty) (storage : StorageClass), Blind (typeId type storage) := by
  intro type storage
  rw [typeId.eq_def]
  cases type with
  | array elem length =>
    have helem := blind_typeId elem .none
    unfold typeArray
    infer_instance
  | pointer elem =>
    have helem := blind_typeId elem
    unfold typePointer
    infer_instance
  | struct name members =>
    have hmembers := blind_typeIds members
    unfold typeStruct
    infer_instance
  | _ =>
    unfold typeBool typeVoid
    infer_instance

instance blind_typeIds : ∀ members : Members, Blind (typeIds members) := by
  intro members
  cases members with
  | nil =>
    rw [typeIds]
    infer_instance
  | cons name type rest =>
    have htype := blind_typeId type .none
    have hrest := blind_typeIds rest
    rw [typeIds]
    infer_instance

end

instance blind_keyId (key : Key) : Blind (keyId key) :=
  blind_typeId _ _

instance blind_functionType (type : Id) : Blind (functionType type) := by
  have hmodify : ∀ id : Id, Blind (modify fun s : Emitter =>
      { s with functionTypes := (type, id) :: s.functionTypes }) :=
    fun _ => blind_modify fun _ => rfl
  have hdefine : Blind (typeFunction type []) := blind_result ..
  exact blind_lookup (fun s => s.functionTypes.lookup type) (fun _ => rfl) inferInstance

instance blind_markBlock (struct : Id) : Blind (markBlock struct) := by
  refine ⟨.get fun s t hst => ?_⟩
  have hblocks : s.blocks = t.blocks := congrArg (·.blocks) hst
  have hmodify : Blind (modify fun s : Emitter => { s with blocks := struct :: s.blocks }) :=
    blind_modify fun _ => rfl
  rw [hblocks]
  exact Blind.agrees

/-! ## Expressions -/

/-- What is known about an id is the same apart from the name. -/
theorem agrees_binding (id : Id) :
    Agrees (fun b b' => b.key = b'.key) (binding id) (binding id) := by
  intro s t hst
  have hlookup := hst.lookup id
  rw [binding_apply, binding_apply]
  cases hs : s.bindings.lookup id with
  | none =>
    rw [hs] at hlookup
    rw [Option.map_eq_none_iff.mp hlookup.symm]
    exact .refused
  | some b =>
    rw [hs] at hlookup
    obtain ⟨b', ht, hb⟩ := Option.map_eq_some_iff.mp hlookup.symm
    rw [ht]
    have hkey : b.erase.key = b'.erase.key := congrArg Binding.key hb.symm
    exact .ok hkey hst

theorem agrees_pointer (id : Id) :
    Agrees (fun b b' => b.1.key = b'.1.key ∧ b.2 = b'.2) (pointer id) (pointer id) := by
  refine (agrees_binding id).bind fun b b' hkey => ?_
  rw [hkey]
  split
  · exact .pure ⟨hkey, rfl⟩
  · exact .refuse _ _

/-- A new value has the same id whatever its name is. -/
theorem agrees_named (id : Id) (key : Key) (text text' : String) :
    Agrees Eq (named id key text) (named id key text') := by
  -- All that depends on the text is erased.
  have hnamed : ∀ (text : String) (s : Emitter),
      ∃ s', named id key text s = .ok id s' ∧ s'.erase = s.erase.record id key "" := by
    intro text s
    by_cases htext : text = ""
    · refine ⟨s.record id key text, ?_, rfl⟩
      unfold named
      simp only [htext, if_true]
      rfl
    · refine ⟨(s.record id key text).put .names ⟨.name, id :: Literal.ofString text⟩, ?_, ?_⟩
      · unfold named
        simp only [htext, if_false]
        rfl
      · exact Emitter.erase_put _ _ _
  intro s t hst
  obtain ⟨s', hs, hs'⟩ := hnamed text s
  obtain ⟨t', ht, ht'⟩ := hnamed text' t
  rw [hs, ht]
  refine .ok rfl ?_
  rw [Emitter.Twin, hs', ht', hst]

instance blind_load (p : Id) : Blind (load p) := by
  refine ⟨(agrees_pointer p).bind ?_⟩
  rintro ⟨b, elem⟩ ⟨b', _⟩ ⟨-, rfl⟩
  have hload : ∀ type, Blind (loadOp type p) := fun _ => blind_typedResult ..
  exact .seq fun type => .seq fun id => agrees_named _ _ _ _

instance blind_store (p value : Id) : Blind (store p value) := by
  refine ⟨(agrees_pointer p).bind ?_⟩
  rintro ⟨b, elem⟩ ⟨b', _⟩ ⟨-, rfl⟩
  refine (agrees_binding value).bind fun v v' hkey => ?_
  have hstore : Blind (storeOp p value) := blind_instruction ..
  rw [hkey]
  exact Blind.agrees

instance blind_extract (base : Id) (index : UInt32) : Blind (extract base index) := by
  refine ⟨(agrees_binding base).bind fun b b' hkey => ?_⟩
  have hextract : ∀ type, Blind (extractOp type base [index]) := fun _ => blind_typedResult ..
  rw [hkey]
  exact .seq fun elem => .seq fun type => .seq fun id => agrees_named _ _ _ _

instance blind_extract2 (base : Id) (row col : UInt32) : Blind (extract2 base row col) := by
  refine ⟨(agrees_binding base).bind fun b b' hkey => ?_⟩
  have hextract : ∀ type, Blind (extractOp type base [row, col]) := fun _ => blind_typedResult ..
  rw [hkey]
  exact .seq fun inner => .seq fun elem => .seq fun type => .seq fun id => agrees_named _ _ _ _

instance blind_access (base : Id) (index : UInt32) : Blind (access base index) := by
  refine ⟨(agrees_pointer base).bind ?_⟩
  rintro ⟨b, elem⟩ ⟨b', _⟩ ⟨hkey, rfl⟩
  have haccess : ∀ type i, Blind (accessChainOp type base [i]) := fun _ _ => blind_typedResult ..
  dsimp only at hkey ⊢
  rw [hkey]
  exact .seq fun member => .seq fun type => .seq fun i => .seq fun id => agrees_named _ _ _ _

theorem agrees_bindings (ids : List Id) :
    Agrees (fun bs bs' => bs.map (·.key) = bs'.map (·.key)) (ids.mapM binding)
      (ids.mapM binding) := by
  induction ids with
  | nil => exact .pure rfl
  | cons id rest ih =>
    rw [List.mapM_cons]
    refine (agrees_binding id).bind fun b b' hkey => ih.bind fun bs bs' hkeys => .pure ?_
    rw [List.map_cons, List.map_cons, hkey, hkeys]

instance blind_construct (type : Ty) (parts : List Id) : Blind (construct type parts) := by
  refine ⟨(agrees_bindings parts).bind fun bs bs' hkeys => ?_⟩
  have htypes : bs.map (·.key.type) = bs'.map (·.key.type) := by
    have hmap := congrArg (List.map Key.type) hkeys
    rwa [List.map_map, List.map_map] at hmap
  have hconstruct : ∀ T, Blind (constructOp T parts) := fun _ => blind_typedResult ..
  rw [htypes]
  exact .seq fun _ => .seq fun T => .seq fun id => agrees_named _ _ _ _

instance blind_mathSet : Blind mathSet := by
  have hmodify : ∀ id : Id, Blind (modify fun s : Emitter => { s with mathSet := some id }) :=
    fun _ => blind_modify fun _ => rfl
  have himport : Blind (extInstImport mathSetName) := blind_result ..
  exact blind_lookup Emitter.mathSet (fun _ => rfl) inferInstance

instance blind_checkMathOperand (f : MathFunction) (type : Ty) :
    Blind (checkMathOperand f type) := by
  unfold checkMathOperand
  split <;> infer_instance

instance blind_math (f : MathFunction) (argument : Id) : Blind (math f argument) := by
  refine ⟨.seq fun number => (agrees_binding argument).bind fun b b' hkey => ?_⟩
  have hmath : ∀ type set, Blind (extInstOp type set number [argument]) :=
    fun _ _ => blind_typedResult ..
  rw [hkey]
  exact .seq fun _ => .seq fun type => .seq fun set => .seq fun id => agrees_named _ _ _ _

theorem agrees_rename (id : Id) (text text' : String) :
    Agrees Eq (rename id text) (rename id text') := by
  refine (agrees_binding id).bind fun b b' hkey => ?_
  refine Agrees.bind (R := Eq) (.modify
    (g := fun s => { s with bindings := (id, { b with name := "" }) :: s.bindings })
    (fun _ => rfl) fun s => ?_) fun _ _ _ => agrees_label _ _ _
  show Emitter.mk _ _ _ _ _ _ _ _ = _
  obtain ⟨key, name⟩ := b
  obtain ⟨key', name'⟩ := b'
  obtain rfl : key = key' := hkey
  rfl

instance blind_narrowVec4 (value : Id) : Blind (narrowVec4 value) := by
  refine ⟨(agrees_binding value).bind fun b b' hkey => ?_⟩
  rw [hkey]
  dsimp only
  split
  · refine .seq fun x => .seq fun y => .seq fun z => .seq fun id => ?_
    exact (agrees_rename _ _ _).bind fun _ _ _ => .pure rfl
  · exact .refuse _ _

instance blind_narrowMat4 (value : Id) : Blind (narrowMat4 value) :=
  ⟨(agrees_binding value).bind fun _ _ _ => .refuse _ _⟩

instance blind_arithmetic (op : Opcode) (type : Ty) (left right : Id) :
    Blind (arithmetic op type left right) := by
  have hop : ∀ T, Blind (binaryOp op T left right) := fun _ => blind_typedResult ..
  exact ⟨.seq fun T => .seq fun id => agrees_named _ _ _ _⟩

instance blind_uniform (op : BinaryOperator) (leftType rightType : Ty) (left right : Id) :
    Blind (uniform op leftType rightType left right) := by
  unfold uniform
  infer_instance

instance blind_binary (op : BinaryOperator) (left right : Id) : Blind (binary op left right) := by
  refine ⟨(agrees_binding left).bind fun l l' hleft => ?_⟩
  refine (agrees_binding right).bind fun r r' hright => ?_
  rw [hleft, hright]
  dsimp only
  split
  · exact Blind.agrees
  · exact Blind.agrees

end Emit

end ShaderStage

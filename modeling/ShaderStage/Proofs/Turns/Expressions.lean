import ShaderStage.Proofs.Turns.Types

/-! # Expressions in turns

What each expression emits, and when it is refused, whatever the emitter knows. An expression looks
up its operands, asks for the type of its result, and adds one value, which it leaves recorded with
its type. These are the only specifications of expressions: those for consistent emitters and all
invariants of emission follow from them.

* `Emitter.Computed`: a value was added and recorded;
* `Emit.load_acts`, `Emit.store_acts`: memory;
* `Emit.extract_acts`, `Emit.access_acts`, `Emit.construct_acts`: composites;
* `Emit.math_acts`, `Emit.binary_acts`: functions and operators. -/

namespace ShaderStage

/-! ## Errors -/

/-- The error is the program's fault, for the given reason. -/
def CompileError.Because (e : CompileError) (reason : Prop) : Prop :=
  e.kind ≠ .internalError ∧ reason

/-- The kind of an error tells that it is not internal. -/
theorem CompileError.Because.of_kind {e : CompileError} {kind : ErrorKind} {reason : Prop}
    (hkind : e.kind = kind) (hne : kind ≠ .internalError) (h : reason) :
    e.Because reason := by
  rw [← hkind] at hne
  exact ⟨hne, h⟩

theorem CompileError.Because.mono {e : CompileError} {reason reason' : Prop} (h : e.Because reason)
    (himp : reason → reason') : e.Because reason' :=
  ⟨h.1, himp h.2⟩

/-- The error was not foreseen, and if the operands are known, it has the given reason. -/
def CompileError.Blames (e : CompileError) (known reason : Prop) : Prop :=
  e.foreseen = false ∧ (known → e.Because reason)

namespace CompileError

/-- A type that is not supported is not foreseen. -/
theorem foreseen_of_unsupportedType {e : CompileError} (h : e.kind = .unsupportedType) :
    e.foreseen = false := by
  cases e <;> first | rfl | cases h

/-- An error about parts is not foreseen. -/
theorem foreseen_of_aboutParts {e : CompileError} (h : e.aboutParts = true) :
    e.foreseen = false := by
  cases e <;> first | rfl | cases h

namespace Blames

variable {e : CompileError} {known reason : Prop}

/-- An unsupported type is blamed if it is one. -/
theorem of_unsupportedType (hkind : e.kind = .unsupportedType) (h : known → reason) :
    e.Blames known reason :=
  ⟨foreseen_of_unsupportedType hkind, fun hknown => .of_kind hkind (by decide) (h hknown)⟩

/-- Parts are blamed if they do not fit. -/
theorem of_aboutParts (hparts : e.aboutParts = true) (h : known → reason) : e.Blames known reason :=
  ⟨foreseen_of_aboutParts hparts,
    fun hknown => .of_kind (kind_of_aboutParts hparts) (by decide) (h hknown)⟩

end Blames

end CompileError

/-- The type that the emitter knows the id to point to, if it is a pointer. -/
def Emitter.pointee? (s : Emitter) (id : Id) : Option Ty :=
  match s.bindings.lookup id with
  | some ⟨⟨.pointer t, _⟩, _⟩ => some t
  | _ => none

/-- What is recorded about some ids. -/
def Emitter.Recorded (s : Emitter) : List Id → List Binding → Prop :=
  List.Forall₂ fun id b => s.bindings.lookup id = some b

theorem Emitter.Recorded.unique {s : Emitter} {ids : List Id} {bs bs' : List Binding}
    (h : s.Recorded ids bs) (h' : s.Recorded ids bs') : bs = bs' := by
  induction h generalizing bs' with
  | nil =>
    cases h'
    rfl
  | cons hb _ ih =>
    obtain ⟨⟩ | ⟨hb', h'⟩ := h'
    rw [hb] at hb'
    rw [Option.some.inj hb', ih h']

/-- Something is recorded about the id. -/
def Emitter.Binds (s : Emitter) (id : Id) : Prop :=
  ∃ b, s.bindings.lookup id = some b

/-- What an id points to is told by the type in its binding. -/
theorem Emitter.pointee?_eq_some {s : Emitter} {id : Id} {b : Binding} {t : Ty}
    (hb : s.bindings.lookup id = some b) : s.pointee? id = some t ↔ b.key.type = .pointer t := by
  obtain ⟨⟨type, storage⟩, name⟩ := b
  rw [pointee?, hb]
  cases type <;> simp

theorem Emitter.Binds.ne_none {s : Emitter} {id : Id} (h : s.Binds id) :
    s.bindings.lookup id ≠ none := by
  obtain ⟨b, hb⟩ := h
  rw [hb]
  nofun

namespace Emit

variable {κ : Kinds} {s : Emitter} {E : CompileError → Prop} {α β : Type}

/-- An operand that is not known is nobody's fault. -/
theorem blames_unbound {id : Id} {known reason : Prop} (hid : s.bindings.lookup id = none)
    (hknown : known → s.Binds id) : (CompileError.unbound id).Blames known reason :=
  ⟨rfl, fun h => absurd hid (hknown h).ne_none⟩

/-- A type without an arithmetic is the fault of the program. -/
theorem foreseen_arithmetic {op : BinaryOperator} {t : Ty} {e : CompileError}
    (h : op.arithmetic t = .error e) : e.foreseen = false ∧ e.kind ≠ .internalError := by
  unfold BinaryOperator.arithmetic at h
  split at h
  all_goals cases h
  all_goals exact ⟨rfl, nofun⟩

/-- An operator without an opcode is the fault of the program. -/
theorem foreseen_opcode {op : BinaryOperator} {kind : Arithmetic} {e : CompileError}
    (h : op.opcode kind = .error e) : e.foreseen = false ∧ e.kind ≠ .internalError := by
  unfold BinaryOperator.opcode at h
  split at h
  all_goals cases h
  exact ⟨rfl, nofun⟩

/-! ## Operands -/

/-- Looking up an operand. -/
theorem binding_bind_acts [Kinds.Closed κ] {id : Id} {f : Binding → Emit β} {Q : β → Emitter → Prop}
    (hunbound : s.bindings.lookup id = none → E (.unbound id))
    (hf : ∀ b, s.bindings.lookup id = some b → κ.key b.key → κ.text b.name → Acts κ (f b) s Q E) :
    Acts κ (binding id >>= f) s Q E := by
  intro hs
  have hrun := binding_apply id s
  cases hfound : s.bindings.lookup id with
  | some b =>
    rw [hfound] at hrun
    obtain ⟨hkey, htext⟩ := hs.bindings hfound
    exact .step hrun (hf b hfound (Kinds.Closed.read hkey) htext hs)
  | none =>
    rw [hfound] at hrun
    have hfail : (binding id >>= f) s = .error (.refused (.unbound id)) s := by
      rw [bind_apply, hrun]
    exact .of_eq_error hfail ⟨.refl, hunbound hfound⟩

/-- A check goes on with what it found, or refuses with its error. -/
theorem check_bind_acts {e : Except CompileError α} {f : α → Emit β} {Q : β → Emitter → Prop}
    (he : ∀ err, e = .error err → E err) (hf : ∀ a, e = .ok a → Acts κ (f a) s Q E) :
    Acts κ (check e >>= f) s Q E := by
  cases e with
  | ok a => exact hf a rfl
  | error err => exact .refuse_bind (he err rfl)

/-- Looking up a pointer. -/
theorem pointer_bind_acts [Kinds.Closed κ] {id : Id} {f : Binding × Ty → Emit β}
    {Q : β → Emitter → Prop}
    (hunbound : s.bindings.lookup id = none → E (.unbound id))
    (hother : ∀ b, s.bindings.lookup id = some b → (∀ elem, b.key.type ≠ .pointer elem) →
      E (.notPointer id b.key.type))
    (hf : ∀ b elem, s.bindings.lookup id = some b → b.key.type = .pointer elem → κ.key b.key →
      κ.text b.name → Acts κ (f (b, elem)) s Q E) :
    Acts κ (pointer id >>= f) s Q E := by
  unfold pointer
  rw [bind_assoc]
  refine binding_bind_acts hunbound ?_
  rintro ⟨⟨type, storage⟩, name⟩ hb hkey htext
  cases type with
  | pointer elem => exact hf _ elem hb rfl hkey htext
  | _ => exact .refuse_bind (hother _ hb nofun)

/-- Looking up several operands. -/
theorem bindings_bind_acts [Kinds.Closed κ] {ids : List Id} {f : List Binding → Emit β}
    {Q : β → Emitter → Prop}
    (hunbound : ∀ id ∈ ids, s.bindings.lookup id = none → E (.unbound id))
    (hf : ∀ bs, s.Recorded ids bs → Acts κ (f bs) s Q E) :
    Acts κ (ids.mapM binding >>= f) s Q E := by
  induction ids generalizing f with
  | nil => exact hf [] .nil
  | cons id ids ih =>
    obtain ⟨hid, hids⟩ := List.forall_mem_cons.mp hunbound
    rw [List.mapM_cons, bind_assoc]
    refine binding_bind_acts hid fun b hb _ _ => ?_
    rw [bind_assoc]
    refine ih hids fun bs hbs => ?_
    rw [pure_bind]
    exact hf (b :: bs) (.cons hb hbs)

/-! ## Values -/

theorem named_apply (id : Id) (key : Key) (text : String) (s : Emitter) :
    named id key text s = .ok id (s.named id key text) := by
  unfold named Emitter.named Emitter.title
  by_cases htext : text = ""
  · simp only [htext, if_true]
    rfl
  · simp only [htext, if_false]
    rfl

end Emit

namespace Emitter

variable {s s₁ : Emitter} {op : Opcode} {operands : List Word} {key : Key} {T : Id} {text : String}

/-- The id is a value of the type that a key names, known by a text, which an instruction of the
given form computes at the end of the code. -/
structure Computed (s : Emitter) (op : Opcode) (operands : List Word) (key : Key) (text : String)
    (id : Id) (s' : Emitter) : Prop where
  value : s'.Value id key.normalize
  binding : s'.bindings.lookup id = some ⟨key.normalize, text⟩
  code : ∃ T, s'.typeOf? key = some T ∧ s'.code = s.code ++ [⟨op, T :: id :: operands⟩]

/-- An instruction in a function, recorded with its key, gives a value. -/
theorem computed_named (hshape : op.shape = .typedResult) (hT : s.typeOf? key = some T)
    (hdraft : s₁.draft = (s.define .functions ⟨op, T :: s.nextId :: operands⟩).draft)
    (htypes : s₁.types = s.types) :
    s.Computed op operands key text s.nextId (s₁.named s.nextId key text) := by
  have hbinding : (s₁.named s.nextId key text).bindings.lookup s.nextId =
      some ⟨key.normalize, text⟩ := by
    rw [named, bindings_title]
    exact List.lookup_cons_self
  have hremarks := (s₁.record s.nextId key text).remarks_title s.nextId text
  have htype : (s₁.named s.nextId key text).typeOf? key = some T := by
    refine hremarks.keeps.types ?_
    show s₁.types.lookup _ = _
    rw [htypes]
    exact hT
  have hhas : (s₁.record s.nextId key text).Has .functions ⟨op, T :: s.nextId :: operands⟩ := by
    show _ ∈ s₁.draft.log.toList
    rw [hdraft]
    exact s.has_define_self .functions ⟨op, T :: s.nextId :: operands⟩
  have hcode : (s₁.record s.nextId key text).code =
      s.code ++ [⟨op, T :: s.nextId :: operands⟩] := by
    show s₁.draft.emitted .functions = _
    rw [hdraft]
    exact s.code_define .functions _
  refine ⟨⟨⟨text, hbinding⟩, T, .functions, _, ?_, hhas.keep hremarks.keeps, ?_, ?_⟩, hbinding, T,
    htype, hremarks.code_eq.trans hcode⟩
  · rw [typeOf?, Key.signature_normalize]
    exact htype
  · simp [Instruction.resultId, hshape]
  · simp [Instruction.resultType, hshape]

/-- What emits no code before does not matter. -/
theorem Computed.code_of_eq {s' : Emitter} {id : Id} (h : s₁.Computed op operands key text id s')
    (hcode : s₁.code = s.code) : s.Computed op operands key text id s' := by
  obtain ⟨T, hT, hcode'⟩ := h.code
  exact ⟨h.value, h.binding, T, hT, by rw [hcode', hcode]⟩

end Emitter

namespace Emit

variable {κ : Kinds} {s : Emitter} {E : CompileError → Prop} {α β : Type}

/-- An instruction in a function gives a value. -/
theorem value_acts {op : Opcode} {operands : List Word} (hop : op.Computes operands) {key : Key}
    (hkey : κ.key key) {text : String} (htext : κ.text text) {T : Id}
    (hT : s.typeOf? key = some T) :
    Acts κ (do
      let id ← typedResult .functions op T operands
      named id key text) s (s.Computed op operands key text) E := by
  intro hs
  refine .step (typedResult_apply hs.isOpen _ _ _ _) (.of_eq_ok (named_apply _ _ _ _) ⟨?_, ?_⟩)
  · exact .single (.value hop hkey htext hT (.inl rfl))
  · exact Emitter.computed_named hop.spec.2.1 hT rfl rfl

section

variable [Kinds.Closed κ]

/-- A value of a type that is asked for first. -/
theorem typed_acts {op : Opcode} {operands : List Word} (hop : op.Computes operands) {key : Key}
    (hkey : κ.key key) {text : String} (htext : κ.text text)
    (hE : ∀ e : CompileError, e.kind = .unsupportedType → ¬ key.type.Supported → E e) :
    Acts κ (do
      let type ← keyId key
      let id ← typedResult .functions op type operands
      named id key text) s (s.Computed op operands key text) E := by
  refine ((typeId_acts key.type hkey s).refusing fun e h => hE e h.1 h.2).bind ?_
  rintro T s₁ - ⟨hinterns, hT⟩
  refine (value_acts hop hkey htext hT).mono ?_ fun _ h => h
  exact fun id s' _ h => h.code_of_eq hinterns.code

/-! ## Memory -/

/-- A pointer is loaded from, if what it points to may be read. -/
theorem load_acts {p : Id} (hread : ∀ t, s.pointee? p = some t → κ.Reads t) :
    Acts κ (load p) s
      (fun id s' => ∃ b elem, s.bindings.lookup p = some b ∧ b.key.type = .pointer elem ∧
        s.Computed .load [p] (.value elem) (suffixed b.name "-loaded") id s')
      fun e => e.Blames (s.Binds p) (∀ elem, s.pointee? p = some elem → ¬ elem.Supported) := by
  unfold load
  refine pointer_bind_acts (fun hp => blames_unbound hp id) ?_ ?_
  · intro b hb hother
    refine ⟨rfl, fun _ => ⟨nofun, fun elem helem => ?_⟩⟩
    exact absurd ((Emitter.pointee?_eq_some hb).mp helem) (hother elem)
  · intro b elem hb helem hkey htext
    have hpointee := (Emitter.pointee?_eq_some hb).mpr helem
    have hvalue : κ.key (.value elem) := by
      refine hread elem hpointee b.key.storage ?_
      rw [Key.pointer, ← helem]
      exact hkey
    refine (typed_acts (.load p) hvalue (Kinds.Closed.loaded htext) ?_).mono ?_ fun _ h => h
    · intro e hkind hunsupported
      refine .of_unsupportedType hkind fun _ t ht => ?_
      rw [hpointee] at ht
      cases ht
      exact hunsupported
    · exact fun id s' _ h => ⟨b, elem, hb, helem, h⟩

/-- A value is stored behind a pointer to values of its type. -/
theorem store_acts (p v : Id) :
    Acts κ (store p v) s
      (fun _ s' => (∃ elem b, s.pointee? p = some elem ∧ s.bindings.lookup v = some b ∧
        elem.same b.key.type = true) ∧ s'.code = s.code ++ [⟨.store, [p, v]⟩])
      fun e => e.Blames (s.Binds p ∧ s.Binds v) (∀ elem b, s.pointee? p = some elem →
        s.bindings.lookup v = some b → elem.same b.key.type = false) := by
  unfold store
  refine pointer_bind_acts (fun hp => blames_unbound hp And.left) ?_ ?_
  · intro b hb hother
    refine ⟨rfl, fun _ => ⟨nofun, fun elem _ helem => ?_⟩⟩
    exact absurd ((Emitter.pointee?_eq_some hb).mp helem) (hother elem)
  intro b elem hb helem _ _
  have hpointee := (Emitter.pointee?_eq_some hb).mpr helem
  refine binding_bind_acts (fun hv => blames_unbound hv And.right) fun bv hbv _ _ => ?_
  by_cases hsame : elem.same bv.key.type = true
  · rw [if_pos hsame]
    exact .of_turn (fun _ => rfl) (.note (.performed (.store p v)))
      ⟨⟨elem, bv, hpointee, hbv, hsame⟩, s.code_put .functions _⟩
  · rw [if_neg hsame]
    refine .refuse ⟨rfl, fun _ => ⟨nofun, fun elem' b' helem' hb' => ?_⟩⟩
    rw [hpointee] at helem'
    rw [hbv] at hb'
    cases helem'
    cases hb'
    exact Bool.eq_false_iff.mpr hsame

/-! ## Composites -/

/-- A part of a composite is taken, at an index that it has. -/
theorem extract_acts (base : Id) (i : UInt32) :
    Acts κ (extract base i) s
      (fun id s' => ∃ b elem, s.bindings.lookup base = some b ∧ b.key.type.component i = .ok elem ∧
        s.Computed .compositeExtract [base, i] (.value elem) (extractName b.name i) id s')
      fun e => e.Blames (s.Binds base) (∀ b elem, s.bindings.lookup base = some b →
        b.key.type.component i = .ok elem → ¬ elem.Supported) := by
  unfold extract
  refine binding_bind_acts (fun hb => blames_unbound hb id) fun b hb hkey htext => ?_
  refine check_bind_acts (fun e he => ?_) fun elem helem => ?_
  · refine .of_aboutParts (Ty.aboutParts_of_component he) fun _ b' elem hb' helem => ?_
    rw [hb] at hb'
    cases hb'
    rw [he] at helem
    cases helem
  · have hpart := KeyKind.part hkey (Ty.component_eq_ok_iff.mp helem)
    refine (typed_acts (.extract base [i]) hpart (Kinds.Closed.extracted i htext) ?_).mono ?_
      fun _ h => h
    · intro e hkind hunsupported
      refine .of_unsupportedType hkind fun _ b' elem' hb' helem' => ?_
      rw [hb] at hb'
      cases hb'
      rw [helem] at helem'
      cases helem'
      exact hunsupported
    · exact fun id s' _ h => ⟨b, elem, hb, helem, h⟩

/-- A part of a part is taken in one step. -/
theorem extract2_acts (base : Id) (row col : UInt32) :
    Acts κ (extract2 base row col) s
      (fun id s' => ∃ b inner elem, s.bindings.lookup base = some b ∧
        b.key.type.component row = .ok inner ∧ inner.component col = .ok elem ∧
        s.Computed .compositeExtract [base, row, col] (.value elem)
          (suffixed b.name s!"[{row}][{col}]") id s')
      fun e => e.Blames (s.Binds base) (∀ b inner elem, s.bindings.lookup base = some b →
        b.key.type.component row = .ok inner → inner.component col = .ok elem →
        ¬ elem.Supported) := by
  unfold extract2
  refine binding_bind_acts (fun hb => blames_unbound hb id) fun b hb hkey htext => ?_
  refine check_bind_acts (fun e he => ?_) fun inner hinner => ?_
  · refine .of_aboutParts (Ty.aboutParts_of_component he) fun _ b' inner elem hb' hinner => ?_
    rw [hb] at hb'
    cases hb'
    rw [he] at hinner
    cases hinner
  have hvalue := KeyKind.part hkey (Ty.component_eq_ok_iff.mp hinner)
  refine check_bind_acts (fun e he => ?_) fun elem helem => ?_
  · refine .of_aboutParts (Ty.aboutParts_of_component he) fun _ b' inner' elem hb' hinner' => ?_
    rw [hb] at hb'
    cases hb'
    rw [hinner] at hinner'
    cases hinner'
    rw [he]
    nofun
  · have hpart := KeyKind.part hvalue (Ty.component_eq_ok_iff.mp helem)
    have hname := Kinds.Closed.cell row col htext
    refine (typed_acts (.extract base [row, col]) hpart hname ?_).mono ?_ fun _ h => h
    · intro e hkind hunsupported
      refine .of_unsupportedType hkind fun _ b' inner' elem' hb' hinner' helem' => ?_
      rw [hb] at hb'
      cases hb'
      rw [hinner] at hinner'
      cases hinner'
      rw [helem] at helem'
      cases helem'
      exact hunsupported
    · exact fun id s' _ h => ⟨b, inner, elem, hb, hinner, helem, h⟩

/-- A pointer to a part is computed from a pointer to the whole, with a constant for the index. -/
theorem access_acts (base : Id) (i : UInt32) :
    Acts κ (access base i) s
      (fun id s' => ∃ b elem member index, s.bindings.lookup base = some b ∧
        b.key.type = .pointer elem ∧ elem.component i = .ok member ∧
        s'.uints.lookup i = some index ∧
        s.Computed .accessChain [base, index] (.pointer member b.key.storage)
          (accessName b.name i) id s')
      fun e => e.Blames (s.Binds base) (∀ b elem member, s.bindings.lookup base = some b →
        b.key.type = .pointer elem → elem.component i = .ok member → ¬ member.Supported) := by
  unfold access
  refine pointer_bind_acts (fun hb => blames_unbound hb id) ?_ ?_
  · intro b hb hother
    refine ⟨rfl, fun _ => ⟨nofun, fun b' elem member hb' helem => ?_⟩⟩
    rw [hb] at hb'
    cases hb'
    exact absurd helem (hother elem)
  intro b elem hb helem hkey htext
  refine check_bind_acts (fun e he => ?_) fun member hmember => ?_
  · refine .of_aboutParts (Ty.aboutParts_of_component he) fun _ b' elem' member hb' helem' hm => ?_
    rw [hb] at hb'
    cases hb'
    rw [helem] at helem'
    cases helem'
    rw [he] at hm
    cases hm
  have hpointer : κ.key (.pointer elem b.key.storage) := by
    rw [Key.pointer, ← helem]
    exact hkey
  have hpart : κ.key (.pointer member b.key.storage) :=
    KeyKind.component hpointer (Ty.component_eq_ok_iff.mp hmember)
  dsimp only
  refine ((typeId_acts (.pointer member) hpart s).refusing fun e h => ?_).bind ?_
  · refine .of_unsupportedType h.1 fun _ b' elem' member' hb' helem' hmember' => ?_
    rw [hb] at hb'
    cases hb'
    rw [helem] at helem'
    cases helem'
    rw [hmember] at hmember'
    cases hmember'
    exact h.2
  rintro T s₁ - ⟨hinterns₁, hT⟩
  refine (constantOf_acts .uint i).bind ?_
  rintro index s₂ hturns ⟨hinterns₂, hindex⟩
  refine (value_acts (.access base index) hpart (Kinds.Closed.accessed i htext)
    (hturns.keeps.types hT)).mono ?_ fun _ h => h
  intro id s₃ hturns₃ h
  exact ⟨b, elem, member, index, hb, helem, hmember, hturns₃.keeps.uints hindex,
    h.code_of_eq (hinterns₂.code.trans hinterns₁.code)⟩

/-- Making a composite, up to the point where its parts are checked and its type is known. -/
theorem construct_bind_acts {t : Ty} (ht : κ.key (.value t)) (parts : List Id) {f : Id → Emit β}
    {Q : β → Emitter → Prop}
    (hE : ∀ e : CompileError, e.Blames (∀ id ∈ parts, s.Binds id) (∀ bs, s.Recorded parts bs →
      t.checkParts (bs.map (·.key.type)) = .ok () → ¬ t.Supported) → E e)
    (hf : ∀ bs s₁ T, s.Recorded parts bs → t.checkParts (bs.map (·.key.type)) = .ok () →
      s₁.code = s.code → s₁.typeOf? (.value t) = some T →
      Acts κ (do
        let id ← constructOp T parts
        let id ← named id (.value t) ""
        f id) s₁ Q E) :
    Acts κ (construct t parts >>= f) s Q E := by
  unfold construct
  simp only [bind_assoc]
  refine bindings_bind_acts (fun id hid hnone => hE _ (blames_unbound hnone fun h => h id hid)) ?_
  intro bs hbs
  refine check_bind_acts (fun e he => hE e (.of_aboutParts (Ty.aboutParts_of_checkParts he) ?_)) ?_
  · intro _ bs' hbs' hok
    rw [hbs'.unique hbs, he] at hok
    cases hok
  rintro ⟨⟩ hok
  refine ((typeId_acts t ht s).refusing fun e h => hE e (.of_unsupportedType h.1 ?_)).bind ?_
  · exact fun _ _ _ _ => h.2
  rintro T s₁ - ⟨hinterns, hT⟩
  exact hf bs s₁ T hbs hok hinterns.code hT

/-- A composite is made of parts that fit its type. -/
theorem construct_acts {t : Ty} (ht : κ.key (.value t)) (parts : List Id) :
    Acts κ (construct t parts) s
      (fun id s' => ∃ bs, s.Recorded parts bs ∧ t.checkParts (bs.map (·.key.type)) = .ok () ∧
        s.Computed .compositeConstruct parts (.value t) "" id s')
      fun e => e.Blames (∀ id ∈ parts, s.Binds id) (∀ bs, s.Recorded parts bs →
        t.checkParts (bs.map (·.key.type)) = .ok () → ¬ t.Supported) := by
  rw [← bind_pure (construct t parts)]
  refine construct_bind_acts ht parts (fun _ h => h) fun bs s₁ T hbs hok hcode hT => ?_
  simp only [bind_pure]
  refine (value_acts (.construct parts) ht Kinds.Grounded.unnamed hT).mono ?_ fun _ h => h
  exact fun id s' _ h => ⟨bs, hbs, hok, h.code_of_eq hcode⟩

omit [Kinds.Closed κ] in
theorem rename_apply {id : Id} {b : Binding} (hb : s.bindings.lookup id = some b) (text : String) :
    rename id text s = .ok ()
      (({ s with bindings := (id, { b with name := text }) :: s.bindings } : Emitter).title id
        text) := by
  have hrun := binding_apply id s
  rw [hb] at hrun
  unfold rename Emitter.title
  rw [bind_of_eq_ok hrun, bind_of_eq_ok (modify_apply _ _)]
  split <;> rfl

/-- A composite that gets a name afterwards. -/
theorem construct_rename_acts {t : Ty} (ht : κ.key (.value t)) (parts : List Id) (text : String)
    (htext : κ.text text) :
    Acts κ (do
      let id ← construct t parts
      rename id text
      return id) s (s.Computed .compositeConstruct parts (.value t) text)
      fun e => e.Blames (∀ id ∈ parts, s.Binds id) (∀ bs, s.Recorded parts bs →
        t.checkParts (bs.map (·.key.type)) = .ok () → ¬ t.Supported) := by
  refine construct_bind_acts ht parts (fun _ h => h) fun bs s₁ T _ _ hcode hT hs₁ => ?_
  refine .step (typedResult_apply hs₁.isOpen _ _ _ _) (.step (named_apply _ _ _ _) ?_)
  refine .step (rename_apply List.lookup_cons_self text) (.of_eq_ok rfl ⟨?_, ?_⟩)
  · exact .single (.value (.construct parts) ht htext hT (.inr rfl))
  · have hcomputed : s₁.Computed .compositeConstruct parts (.value t) text s₁.nextId
        (((s₁.define .functions ⟨.compositeConstruct, T :: s₁.nextId :: parts⟩).record s₁.nextId
          (.value t) "").named s₁.nextId (.value t) text) :=
      Emitter.computed_named rfl hT rfl rfl
    exact hcomputed.code_of_eq hcode

/-- Three components are taken one after the other, and put together again. -/
theorem narrowVec4_acts (value : Id) :
    Acts κ (narrowVec4 value) s
      (fun id s' => ∃ b x y z s₁ s₂ s₃, s.bindings.lookup value = some b ∧
        extract value 0 s = .ok x s₁ ∧ extract value 1 s₁ = .ok y s₂ ∧
        extract value 2 s₂ = .ok z s₃ ∧ s₃.Turns κ [] s' ∧
        s₃.Computed .compositeConstruct [x, y, z] (.value .vec3) (suffixed b.name ".xyz") id s')
      fun e => e.foreseen = false := by
  unfold narrowVec4
  refine binding_bind_acts (fun _ => rfl) fun b hb _ htext => ?_
  dsimp only
  split
  · refine ((extract_acts value 0).refusing fun e h => h.1).ran.bind fun x s₁ _ hx => ?_
    refine ((extract_acts value 1).refusing fun e h => h.1).ran.bind fun y s₂ _ hy => ?_
    refine ((extract_acts value 2).refusing fun e h => h.1).ran.bind fun z s₃ _ hz => ?_
    refine (construct_rename_acts (KeyKind.basic (t := .vec3) trivial) [x, y, z] _
      (Kinds.Closed.narrowed htext)).mono ?_ fun _ h => h.1
    exact fun id s' hturns h => ⟨b, x, y, z, s₁, s₂, s₃, hb, hx.1, hy.1, hz.1, hturns, h⟩
  · exact .refuse_bind rfl

/-- A matrix is never narrowed. -/
theorem narrowMat4_acts (value : Id) :
    Acts κ (narrowMat4 value) s (fun _ _ => False) fun e => e.Blames (s.Binds value) True := by
  unfold narrowMat4
  refine binding_bind_acts (fun hb => blames_unbound hb id) fun b hb _ _ => ?_
  exact .refuse ⟨rfl, fun _ => ⟨nofun, trivial⟩⟩

/-! ## Functions and operators -/

omit [Kinds.Closed κ] in
theorem mathSet_apply (hopen : s.IsOpen) :
    ∃ set, s.importMath.mathSet = some set ∧ mathSet s = .ok set s.importMath := by
  unfold mathSet Emitter.importMath
  rw [bind_of_eq_ok (get_apply s)]
  cases hset : s.mathSet with
  | some set => exact ⟨set, hset, rfl⟩
  | none => exact ⟨s.nextId, rfl, bind_of_eq_ok (result_apply hopen _ _ _)⟩

/-- A function is applied to a float or a vector, with the instruction set imported for it. -/
theorem math_acts (f : MathFunction) (a : Id) :
    Acts κ (math f a) s
      (fun id s' => ∃ b set number, f.number = .ok number ∧ s.bindings.lookup a = some b ∧
        b.key.type.underlying.MathOperand ∧ s'.mathSet = some set ∧
        s.Computed .extInst [set, number, a] b.key "" id s')
      fun e => e.Blames (s.Binds a) (∀ b, s.bindings.lookup a = some b →
        (∀ code, f ≠ .unknown code) → b.key.type.underlying.MathOperand →
        ¬ b.key.type.Supported) := by
  unfold math
  refine check_bind_acts (fun e he => ?_) fun number hnumber => ?_
  · cases f with
    | unknown code =>
      cases he
      exact ⟨rfl, fun _ => ⟨by rintro ⟨⟩, fun _ _ hf => absurd rfl (hf code)⟩⟩
    | sin | cos | inverseSqrt => cases he
  refine binding_bind_acts (fun ha => blames_unbound ha id) fun b hb hkey _ => ?_
  have hcheck : Acts κ (checkMathOperand f b.key.type) s
      (fun _ s' => b.key.type.underlying.MathOperand ∧ s' = s) fun e =>
        e.Blames (s.Binds a) (∀ b, s.bindings.lookup a = some b → (∀ code, f ≠ .unknown code) →
          b.key.type.underlying.MathOperand → ¬ b.key.type.Supported) := by
    unfold checkMathOperand
    split
    · rename_i width htype
      exact .pure ⟨htype ▸ .float width, rfl⟩
    · rename_i count htype
      exact .pure ⟨htype ▸ .vector count, rfl⟩
    · rename_i hfloat hvector
      refine .refuse ⟨rfl, fun _ => ⟨by rintro ⟨⟩, fun b' hb' _ hoperand => ?_⟩⟩
      rw [hb] at hb'
      cases hb'
      generalize b.key.type.underlying = t at hoperand hfloat hvector
      cases hoperand with
      | float width => exact absurd rfl (hfloat width)
      | vector count => exact absurd rfl (hvector count)
  refine hcheck.bind ?_
  rintro _ s₀ - ⟨hoperand, hsame⟩
  rw [hsame]
  refine ((typeId_acts b.key.type hkey s).refusing fun e h => ?_).bind ?_
  · refine .of_unsupportedType h.1 fun _ b' hb' _ _ => ?_
    rw [hb] at hb'
    cases hb'
    exact h.2
  rintro T s₁ - ⟨hinterns, hT⟩ hs₁
  obtain ⟨set, hset, hrun⟩ := mathSet_apply hs₁.isOpen
  have hopen := s₁.grows_importMath.closed.trans hs₁.isOpen
  refine .step hrun (.step (typedResult_apply hopen _ _ _ _) (.of_eq_ok rfl ⟨?_, ?_⟩))
  · exact .single (.math hkey hT hset number a)
  · have hcomputed : s₁.importMath.Computed .extInst [set, number, a] b.key ""
        s₁.importMath.nextId _ :=
      Emitter.computed_named rfl (s₁.keeps_importMath.types hT) rfl rfl
    exact ⟨b, set, number, hnumber, hb, hoperand, hset,
      hcomputed.code_of_eq (s₁.code_importMath.trans hinterns.code)⟩

/-- Only the operators of two operands may stand here. -/
theorem arithmetic_acts {op : Opcode} (hop : op ∈ Opcode.arithmetic) {t : Ty} (ht : t.Basic)
    (l r : Id) :
    Acts κ (arithmetic op t l r) s (s.Computed op [l, r] (.value t) "")
      fun e => e.kind = .unsupportedType ∧ ¬ t.Supported :=
  typed_acts (.arithmetic hop l r) (KeyKind.basic ht) Kinds.Grounded.unnamed fun _ h h' => ⟨h, h'⟩

omit [Kinds.Closed κ] in
/-- Types with an arithmetic have no parts of other types. -/
theorem basic_of_arithmetic {op : BinaryOperator} {t : Ty} {kind : Arithmetic}
    (h : op.arithmetic t = .ok kind) : t.Basic := by
  cases t <;> trivial

/-- So have the types of products. -/
theorem product?_basic {l r t : Ty} {c : Opcode} {swap : Bool}
    (h : l.product? r = some (c, t, swap)) : t.Basic := by
  unfold Ty.product? at h
  split at h
  all_goals first
    | (cases h <;> trivial)
    | (split at h <;> cases h; trivial)

/-- Operands of the same type are combined with the opcode for it. -/
theorem uniform_acts {op : BinaryOperator} {lt rt : Ty} (l r : Id)
    (hproduct : op = .multiply → lt.product? rt = none) :
    Acts κ (uniform op lt rt l r) s
      (fun id s' => ∃ c, op.Resolves lt rt c lt false ∧ s.Computed c [l, r] (.value lt) "" id s')
      fun e => e.Blames True (∀ c t swap, op.Resolves lt rt c t swap → ¬ t.Supported) := by
  -- There is no product of these types, which leaves the rule for operands of one type.
  have hresolves : ∀ {c t swap}, op.Resolves lt rt c t swap →
      lt.same rt = true ∧ t = lt ∧
        ∃ kind, op.arithmetic lt = .ok kind ∧ op.opcode kind = .ok c := by
    intro c t swap h
    cases h with
    | product hop h =>
      rw [hproduct hop] at h
      cases h
    | uniform _ hsame hkind h => exact ⟨hsame, rfl, _, hkind, h⟩
  unfold uniform
  dsimp only
  by_cases hsame : lt.same rt = true
  · rw [if_pos hsame]
    refine check_bind_acts (fun e he => ?_) fun kind hkind => ?_
    · obtain ⟨hforeseen, hblame⟩ := foreseen_arithmetic he
      refine ⟨hforeseen, fun _ => ⟨hblame, fun c t swap h => ?_⟩⟩
      obtain ⟨-, -, kind, hkind, -⟩ := hresolves h
      rw [he] at hkind
      cases hkind
    refine check_bind_acts (fun e he => ?_) fun c hc => ?_
    · obtain ⟨hforeseen, hblame⟩ := foreseen_opcode he
      refine ⟨hforeseen, fun _ => ⟨hblame, fun c t swap h => ?_⟩⟩
      obtain ⟨-, -, kind', hkind', hc⟩ := hresolves h
      rw [hkind] at hkind'
      cases hkind'
      rw [he] at hc
      cases hc
    refine (arithmetic_acts (opcode_mem_arithmetic hc) (basic_of_arithmetic hkind) l r).mono ?_ ?_
    · exact fun id s' _ h => ⟨c, .uniform hproduct hsame hkind hc, h⟩
    · intro e h
      refine .of_unsupportedType h.1 fun _ c t swap hresolved => ?_
      rw [(hresolves hresolved).2.1]
      exact h.2
  · rw [if_neg hsame]
    exact .refuse_bind ⟨rfl, fun _ => ⟨nofun, fun c t swap h => absurd (hresolves h).1 hsame⟩⟩

/-- Operands are combined by the rules for products, and else by the rule for operands of the same
type. -/
theorem binary_acts (op : BinaryOperator) (l r : Id) :
    Acts κ (binary op l r) s
      (fun id s' => ∃ bl br c t swap, s.bindings.lookup l = some bl ∧
        s.bindings.lookup r = some br ∧
        op.Resolves bl.key.type.underlying br.key.type.underlying c t swap ∧
        s.Computed c (if swap then [r, l] else [l, r]) (.value t) "" id s')
      fun e => e.Blames (s.Binds l ∧ s.Binds r) (∀ bl br c t swap, s.bindings.lookup l = some bl →
        s.bindings.lookup r = some br →
        op.Resolves bl.key.type.underlying br.key.type.underlying c t swap → ¬ t.Supported) := by
  unfold binary
  refine binding_bind_acts (fun hl => blames_unbound hl And.left) fun bl hbl _ _ => ?_
  refine binding_bind_acts (fun hr => blames_unbound hr And.right) fun br hbr _ _ => ?_
  generalize hlt : bl.key.type.underlying = lt
  generalize hrt : br.key.type.underlying = rt
  -- The bindings are those of the operands, so the reason may be about their types.
  have hreason {known : Prop} {e : CompileError}
      (h : e.Blames known (∀ c t swap, op.Resolves lt rt c t swap → ¬ t.Supported))
      (hknown : known) :
      e.Blames (s.Binds l ∧ s.Binds r) (∀ bl br c t swap, s.bindings.lookup l = some bl →
        s.bindings.lookup r = some br →
        op.Resolves bl.key.type.underlying br.key.type.underlying c t swap → ¬ t.Supported) := by
    refine ⟨h.1, fun _ => (h.2 hknown).mono fun hreason bl' br' c t swap hbl' hbr' => ?_⟩
    rw [hbl] at hbl'
    cases hbl'
    rw [hbr] at hbr'
    cases hbr'
    rw [hlt, hrt]
    exact hreason c t swap
  have hfound {c : Opcode} {t : Ty} {swap : Bool} {id : Id} {s' : Emitter}
      (hresolves : op.Resolves lt rt c t swap)
      (h : s.Computed c (if swap then [r, l] else [l, r]) (.value t) "" id s') :
      ∃ bl br c t swap, s.bindings.lookup l = some bl ∧ s.bindings.lookup r = some br ∧
        op.Resolves bl.key.type.underlying br.key.type.underlying c t swap ∧
        s.Computed c (if swap then [r, l] else [l, r]) (.value t) "" id s' := by
    refine ⟨bl, br, c, t, swap, hbl, hbr, ?_, h⟩
    rw [hlt, hrt]
    exact hresolves
  dsimp only
  cases hproduct : (if op = .multiply then lt.product? rt else none) with
  | some found =>
    obtain ⟨c, t, swap⟩ := found
    have hop : op = .multiply := by
      by_contra hop
      rw [if_neg hop] at hproduct
      cases hproduct
    rw [if_pos hop] at hproduct
    have hresolves : op.Resolves lt rt c t swap := .product hop hproduct
    have hunsupported : ∀ {c' t' swap'}, op.Resolves lt rt c' t' swap' → t' = t := by
      intro c' t' swap' h
      cases h with
      | product _ h =>
        rw [hproduct] at h
        cases h
        rfl
      | uniform hnone =>
        rw [hnone hop] at hproduct
        cases hproduct
    have hE (e : CompileError) (h : e.kind = .unsupportedType ∧ ¬ t.Supported) :=
      hreason (.of_unsupportedType h.1 fun _ _ _ _ h' => (hunsupported h') ▸ h.2) True.intro
    have hc := product?_mem_arithmetic hproduct
    have ht := product?_basic hproduct
    cases swap with
    | true => exact (arithmetic_acts hc ht r l).mono (fun id s' _ h => hfound hresolves h) hE
    | false => exact (arithmetic_acts hc ht l r).mono (fun id s' _ h => hfound hresolves h) hE
  | none =>
    have hnone : op = .multiply → lt.product? rt = none := by
      intro hop
      rwa [if_pos hop] at hproduct
    refine (uniform_acts l r hnone).mono ?_ fun e h => hreason h trivial
    rintro id s' - ⟨c, hresolves, h⟩
    exact hfound hresolves h

end

end Emit

end ShaderStage

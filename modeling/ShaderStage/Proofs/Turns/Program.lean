import ShaderStage.Proofs.Places

/-! # Methods in turns

Bodies and methods take turns, also when they are refused. Which errors they can end with depends on
the operations of a body alone: an operation that stays within the fields and the locals of its
method is never refused for leaving them.

* `Scope.step_acts`, `Scope.run_acts`: operations and bodies take turns;
* `Method.opening_acts`, `Method.emit_acts`: so do methods. -/

namespace ShaderStage

section

variable {α β : Type} {κ : Kinds} {s : Emitter} {E F : CompileError → Prop}

/-- An emission that ends somehow, refused for nothing that was foreseen. -/
theorem Acts.anyhow [Tolerant E] {x : Emit α} {P : α → Emitter → Prop} (hx : Acts κ x s P F)
    (hF : ∀ e, F e → e.foreseen = false) : Acts κ x s (fun _ _ => True) E :=
  hx.mono (fun _ _ _ _ => trivial) fun e he => Tolerant.tolerates e (hF e he)

/-- What is emitted for nothing but its result. -/
theorem Acts.returning [Kinds.Closed κ] {x : Emit α} {P : α → Emitter → Prop} (hx : Acts κ x s P E)
    (f : α → β) : Acts κ (do let a ← x; return f a) s (fun _ _ => True) E :=
  hx.bind fun _ _ _ _ => .pure trivial

end

/-! ## Bodies -/

/-- The operation stays within the fields and locals that there are. -/
def Operation.InRange (fields locals : Nat) : Operation → Prop
  | .loadField i | .storeField i => 0 ≤ i ∧ i < fields
  | .loadLocal i | .storeLocal i => 0 ≤ i ∧ i < locals
  | .missing => False
  | _ => True

/-- There is an element at an index in range. -/
theorem exists_elementAt? {α : Type} {xs : List α} {i : Int} (h : 0 ≤ i ∧ i < xs.length) :
    ∃ a, elementAt? xs i = some a := by
  obtain ⟨n, rfl⟩ := Int.eq_ofNat_of_zero_le h.1
  have hn : n < xs.length := Int.ofNat_lt.mp h.2
  exact ⟨xs[n], List.getElem?_eq_getElem hn⟩

/-- All types and names that are written in a method are of the given kinds. -/
structure Method.Within (κ : Kinds) (m : Method) : Prop where
  name : κ.text m.name
  result : κ.key (.value m.result)
  locals : ∀ l ∈ m.locals, κ.key (.pointer l.type .function) ∧ κ.text l.name
  constructs : ∀ t count, .construct t count ∈ m.body → κ.key (.value t)

/-- If everything is allowed, a method asks for nothing else. -/
theorem Method.within_all (m : Method) (foreign : Prop) : m.Within (.all foreign) :=
  ⟨trivial, trivial, fun _ _ => ⟨trivial, trivial⟩, fun _ _ _ => trivial⟩

/-- Looking up a position that is there, or where errors do not matter. -/
theorem elementAt_bind_acts {κ : Kinds} {s : Emitter} {E : CompileError → Prop} {β : Type}
    {xs : List Variable} {i : Int} (h : (0 ≤ i ∧ i < xs.length) ∨ ∀ e, E e) (e : CompileError)
    {f : Variable → Emit β} {Q : β → Emitter → Prop} (hf : ∀ v, Acts κ (f v) s Q E) :
    Acts κ ((match elementAt? xs i with
      | some v => pure v
      | none => Emit.refuse e : Emit Variable) >>= f) s Q E := by
  rcases h with h | h
  · obtain ⟨v, hv⟩ := exists_elementAt? h
    rw [hv]
    exact hf v
  · cases elementAt? xs i with
    | some v => exact hf v
    | none => exact .refuse_bind (h e)

namespace Scope

variable {κ : Kinds} {s : Emitter} {E : CompileError → Prop} {β : Type} {Γ : Scope} {index : Nat}
  {stack : List Id}

/-- The operation stays where it may, or errors do not matter. -/
def Allows (E : CompileError → Prop) (Γ : Scope) (op : Operation) : Prop :=
  op.InRange Γ.globals.length Γ.locals.length ∨ ∀ e, E e

section

variable [Tolerant E]

/-- An operation may be refused for a reason that is not foreseen. -/
theorem refuse_acts {P : β → Emitter → Prop} {fault : OperationFault}
    (h : fault.foreseen = false) : Acts κ (Γ.refuse index fault : Emit β) s P E :=
  .refuse (Tolerant.tolerates _ h)

/-- The top of the stack is popped, or the operation is refused. -/
theorem pop_bind_acts {f : Id × List Id → Emit β} {Q : β → Emitter → Prop}
    (hf : ∀ top rest, stack = top :: rest → Acts κ (f (top, rest)) s Q E) :
    Acts κ (Γ.pop index stack >>= f) s Q E := by
  cases stack with
  | nil => exact .refuse_bind (Tolerant.tolerates _ rfl)
  | cons top rest => exact hf top rest rfl

variable [Kinds.Closed κ]

/-- A return takes turns. -/
theorem ret_acts : Acts κ (Γ.ret index stack) s (fun _ _ => True) E := by
  unfold ret
  split
  · exact .of_turn (fun _ => rfl) (.note (.performed .ret)) trivial
  · refine pop_bind_acts fun value rest _ => ?_
    refine Emit.binding_bind_acts (fun _ => Tolerant.tolerates _ rfl) fun b _ _ _ => ?_
    split
    · exact .of_turn (fun _ => rfl) (.note (.performed (.returnValue value))) trivial
    · exact refuse_acts rfl

/-- Replacing the top takes the turns that the replacement takes. -/
theorem replace_acts {f : Id → Emit Id}
    (hf : ∀ top rest, stack = top :: rest → Acts κ (f top) s (fun _ _ => True) E) :
    Acts κ (Γ.replace index stack f) s (fun _ _ => True) E := by
  unfold replace
  exact pop_bind_acts fun top rest hstack => (hf top rest hstack).returning _

theorem store_acts {p v : Id} {rest : List Id} :
    Acts κ (do Emit.store p v; return Progress.running rest) s (fun _ _ => True) E :=
  ((Emit.store_acts p v).anyhow fun _ h => h.1).returning _

/-- Storing in a variable takes turns. -/
theorem storeTo_acts (v : Variable) :
    Acts κ (Γ.storeTo index stack v) s (fun _ _ => True) E := by
  unfold storeTo
  exact pop_bind_acts fun _ _ _ => store_acts

/-- Making a composite takes turns. -/
theorem construct_acts {t : Ty} (ht : κ.key (.value t)) (count : Int) :
    Acts κ (Γ.construct index stack t count) s (fun _ _ => True) E := by
  unfold construct
  split
  · exact ((Emit.construct_acts ht _).anyhow fun _ h => h.1).returning _
  · exact refuse_acts rfl

/-- An operation takes turns, if what it reads from a pointer is of the kinds. -/
theorem step_acts {op : Operation} (hop : ∀ t count, op = .construct t count → κ.key (.value t))
    (hallows : Γ.Allows E op)
    (hderef : op = .deref → ∀ id rest, stack = id :: rest → ∀ t, s.pointee? id = some t →
      κ.Reads t) :
    Acts κ (Γ.step index stack op) s (fun _ _ => True) E := by
  cases op with
  | loadField i | loadLocal i => exact elementAt_bind_acts hallows _ fun v => .pure trivial
  | storeField i | storeLocal i => exact elementAt_bind_acts hallows _ fun v => storeTo_acts v
  | store => exact pop_bind_acts fun _ _ _ => pop_bind_acts fun _ _ _ => store_acts
  | deref =>
    refine replace_acts fun top rest hstack => ?_
    exact (Emit.load_acts (hderef rfl top rest hstack)).anyhow fun _ h => h.1
  | pushUint value => exact (Emit.constantOf_acts .uint value).returning _
  | pushFloat bits => exact (Emit.constantOf_acts .float bits).returning _
  | extract component =>
    exact replace_acts fun top _ _ => (Emit.extract_acts top component).anyhow fun _ h => h.1
  | extract2 row col =>
    exact replace_acts fun top _ _ => (Emit.extract2_acts top row col).anyhow fun _ h => h.1
  | access component =>
    exact replace_acts fun top _ _ => (Emit.access_acts top component).anyhow fun _ h => h.1
  | construct t count => exact construct_acts (hop t count rfl) count
  | math function =>
    exact replace_acts fun top _ _ => (Emit.math_acts function top).anyhow fun _ h => h.1
  | narrowVec4 => exact replace_acts fun top _ _ => (Emit.narrowVec4_acts top).anyhow fun _ h => h
  | narrowMat4 => exact replace_acts fun top _ _ => (Emit.narrowMat4_acts top).anyhow fun _ h => h.1
  | binary operator =>
    refine pop_bind_acts fun right _ _ => pop_bind_acts fun left _ _ => ?_
    exact ((Emit.binary_acts operator left right).anyhow fun _ h => h.1).returning _
  | dup => exact pop_bind_acts fun _ _ _ => .pure trivial
  | pop => exact pop_bind_acts fun _ _ _ => .pure trivial
  | ret => exact ret_acts
  | missing =>
    rcases hallows with h | h
    · exact h.elim
    · exact .refuse (h _)

/-- A body takes turns, by induction on its operations. -/
theorem run_acts {ops : List Operation}
    (hops : ∀ t count, .construct t count ∈ ops → κ.key (.value t))
    (hallows : ∀ op ∈ ops, Γ.Allows E op) {progress : Progress}
    (hderefs : ∀ t, Γ.Derefs index progress ops s t → κ.Reads t) :
    Acts κ (Γ.run index progress ops) s (fun _ _ => True) E := by
  induction ops generalizing index progress s with
  | nil =>
    unfold run
    exact .pure trivial
  | cons op rest ih =>
    have hop : ∀ t count, op = .construct t count → κ.key (.value t) :=
      fun t count heq => hops t count (heq ▸ List.mem_cons_self)
    have hrest := fun t count hmem => hops t count (List.mem_cons_of_mem op hmem)
    obtain ⟨hallow, hallows⟩ := List.forall_mem_cons.mp hallows
    cases progress with
    | returned => exact refuse_acts rfl
    | running stack =>
      have hderef : op = .deref → ∀ id below, stack = id :: below → ∀ t, s.pointee? id = some t →
          κ.Reads t := by
        rintro rfl id below rfl t hpointee
        exact hderefs t (derefs_head hpointee)
      unfold run
      refine (step_acts hop hallow hderef).ran.bind fun progress s' _ hstep => ?_
      exact ih hrest hallows fun t ht => hderefs t (ht.cons hstep.1)

end

end Scope

/-! ## Methods -/

namespace Emit

variable {κ : Kinds} {s : Emitter} {E : CompileError → Prop}

/-- The variable is named and recorded in the turn that declares it. -/
theorem localVariable_acts {key : Key} (hkey : κ.key key) (text : String) (htext : κ.text text)
    {T : Id} (hT : s.typeOf? key = some T) (hnormal : key.normalize = key) :
    Acts κ (do
      let id ← localVariable T
      name id text
      bind id key text
      return id) s
      (fun id s' => s'.Value id key ∧ s'.typeOf? key = some T ∧
        s'.Has .names ⟨.name, id :: Literal.ofString text⟩ ∧
        s'.code = s.code ++ [⟨.var, [T, id, StorageClass.function]⟩]) E := by
  intro hs
  refine .step (typedResult_apply hs.isOpen _ _ _ _) (.of_eq_ok rfl ⟨?_, ?_, hT, ?_, ?_⟩)
  · exact .single (.localVariable hkey htext hT)
  · exact Emitter.value_labelled hT hnormal rfl rfl text
  · exact Emitter.has_put.mpr (.inr ⟨rfl, rfl⟩)
  · exact ((Emitter.remarks_label _ _ _).code_eq).trans (s.code_define .functions _)

/-- A function is started and named. -/
theorem function_acts (text : String) (htext : κ.text text) (result type : Id) :
    Acts κ (do
      let id ← function type result 0
      name id text
      return id) s
      (fun id s' => s'.Allocated id ∧ s'.Has .names ⟨.name, id :: Literal.ofString text⟩ ∧
        s'.code = s.code ++ [⟨.function, [result, id, 0, type]⟩]) E := by
  intro hs
  refine .step (typedResult_apply hs.isOpen _ _ _ _) (.of_eq_ok rfl ⟨?_, ?_, ?_, ?_⟩)
  · exact .single (.note (.function htext result type))
  · exact ⟨.functions, _, Emitter.has_put.mpr (.inl (Emitter.has_define_self _ _ _)), rfl⟩
  · exact Emitter.has_put.mpr (.inr ⟨rfl, rfl⟩)
  · exact ((Emitter.remarks_label _ _ _).code_eq).trans (s.code_define .functions _)

/-- The one block of a function is started. -/
theorem label_acts : Acts κ label s (fun id s' => s'.code = s.code ++ [⟨.label, [id]⟩]) E :=
  .of_turn (fun hs => result_apply hs _ _ _) (.note .label) (s.code_define .functions _)

end Emit

/-- The variables have the names of the locals, which are numbered if they have none. -/
def Emitter.LabelsLocals (s : Emitter) (locals : List (Local × Nat)) (vs : List Variable) : Prop :=
  List.Forall₂ (fun l v => s.Has .names
    ⟨.name, v.id :: Literal.ofString (Method.localName l.1 l.2)⟩) locals vs

theorem Emitter.LabelsLocals.keep {s s' : Emitter} {locals : List (Local × Nat)}
    {vs : List Variable} (hs : s.LabelsLocals locals vs) (h : s.Keeps s') :
    s'.LabelsLocals locals vs :=
  List.Forall₂.imp (fun _ _ hhas => hhas.keep h) hs

theorem Emitter.LabelsLocals.length_eq {s : Emitter} {locals : List Local} {index : Nat}
    {vs : List Variable} (h : s.LabelsLocals (locals.zipIdx index) vs) :
    vs.length = locals.length := by
  rw [← List.Forall₂.length_eq h, List.length_zipIdx]

namespace Method

variable {κ : Kinds} [Kinds.Closed κ] {E : CompileError → Prop} [Tolerant E]

/-- There is one variable for each local, with its name. -/
theorem declareLocals_acts (m : Method) {locals : List Local}
    (hlocals : ∀ l ∈ locals, κ.key (.pointer l.type .function) ∧ κ.text l.name) (index : Nat)
    (s : Emitter) :
    Acts κ (m.declareLocals index locals) s
      (fun vs s' => s'.LabelsLocals (locals.zipIdx index) vs) E := by
  induction locals generalizing index s with
  | nil => exact .pure .nil
  | cons l rest ih =>
    obtain ⟨⟨hkey, htext⟩, hrest⟩ := List.forall_mem_cons.mp hlocals
    unfold declareLocals
    dsimp only
    by_cases himage : l.type.isOpaque = true
    · rw [if_pos himage]
      exact .refuse_bind (Tolerant.tolerates _ rfl)
    rw [if_neg himage]
    refine (Emit.keyId_acts (KeyKind.normalize hkey)).refusing (fun e h => ?_) |>.bind ?_
    · exact Tolerant.tolerates e (CompileError.foreseen_of_unsupportedType h.1)
    rintro T s₁ - ⟨-, hT⟩
    have hvariable := Emit.localVariable_acts (E := E) (KeyKind.normalize hkey) _
      (Kinds.Closed.localName index htext) hT (Key.normalize_normalize _)
    have hall := hvariable.bind fun id s₂ _ hid => (ih hrest (index + 1) s₂).bind
      fun vs s₃ hturns hvs => Acts.pure (P := fun (vs : List Variable) s' =>
        s'.LabelsLocals ((l :: rest).zipIdx index) vs)
        (a := { id, key := (Key.pointer l.type .function).normalize,
                name := localName l index } :: vs)
        (.cons (hid.2.2.1.keep hturns.keeps) hvs)
    simpa only [bind_assoc, pure_bind] using hall

/-- A function is started, with its locals declared. -/
theorem opening_acts {m : Method} (hm : m.Within κ) (s : Emitter) :
    Acts κ m.opening s (fun f s' => f.name = m.name ∧ s'.LabelsLocals m.locals.zipIdx f.locals ∧
      s'.Allocated f.id ∧ s'.Has .names ⟨.name, f.id :: Literal.ofString m.name⟩) E := by
  unfold opening
  refine (Emit.typeId_acts m.result hm.result s).refusing (fun e h => ?_) |>.bind ?_
  · exact Tolerant.tolerates e (CompileError.foreseen_of_unsupportedType h.1)
  rintro returnType s₁ - ⟨-, hreturn⟩
  refine (Emit.functionType_acts (.inr ⟨_, hreturn⟩)).bind fun type s₂ _ _ => ?_
  have hfunction := Emit.function_acts (s := s₂) (E := E) m.name hm.name returnType type
  have hall := hfunction.bind fun id s₃ _ hid =>
    Emit.label_acts.bind fun _ s₄ h₄ _ =>
    (m.declareLocals_acts hm.locals 0 s₄).bind fun locals s₅ h₅ hlocals =>
    have hkeeps := (h₄.silent h₅).keeps
    Acts.pure (P := fun (f : Function) s' => f.name = m.name ∧
      s'.LabelsLocals m.locals.zipIdx f.locals ∧ s'.Allocated f.id ∧
      s'.Has .names ⟨.name, f.id :: Literal.ofString m.name⟩)
      (a := { id, name := m.name, returnType, locals })
      ⟨rfl, hlocals, hid.1.keep hkeeps, hid.2.1.keep hkeeps⟩
  simpa only [bind_assoc, pure_bind] using hall

omit [Kinds.Closed κ] in
/-- Ending a function takes at most one turn. -/
theorem emitEnding_acts (m : Method) (progress : Progress) {s : Emitter} :
    Acts κ (m.emitEnding progress) s (fun _ _ => True) E := by
  unfold emitEnding
  split
  · exact .pure trivial
  · split
    · exact .of_turn (fun _ => rfl) (.note (.performed .ret)) trivial
    · exact .refuse (Tolerant.tolerates _ rfl)

/-- A method takes turns and becomes a function with its name. If its operations stay within the
fields and its locals, it is not refused for leaving them. -/
theorem emit_acts {m : Method} (hm : m.Within κ) {globals : List Variable}
    (hbody : (∀ op ∈ m.body, op.InRange globals.length m.locals.length) ∨ ∀ e, E e) {s : Emitter}
    (hderefs : ∀ t, m.Derefs globals s t → κ.Reads t) :
    Acts κ (m.emit globals) s (fun f s' => f.name = m.name ∧ s'.Allocated f.id) E := by
  rw [emit_eq]
  refine (opening_acts hm s).ran.bind ?_
  rintro f s₁ - ⟨hopening, hname, hlocals, hid, -⟩
  -- Operations are checked against the locals declared by now, and those are all of them.
  have hallows : ∀ op ∈ m.body, Scope.Allows E ⟨m, globals, f.locals⟩ op := by
    intro op hop
    rcases hbody with hbody | hE
    · left
      show op.InRange globals.length f.locals.length
      rw [hlocals.length_eq]
      exact hbody op hop
    · exact .inr hE
  have hrun : Acts κ (Scope.run ⟨m, globals, f.locals⟩ 0 (.running []) m.body) s₁
      (fun _ _ => True) E :=
    Scope.run_acts hm.constructs hallows fun t ht => hderefs t (derefs_of_scope hopening ht)
  refine hrun.bind fun progress s₂ h₂ _ => ?_
  unfold closing
  refine (m.emitEnding_acts progress).bind fun _ s₃ h₃ _ => ?_
  have hend : s₃.Turn κ [] (s₃.put .functions ⟨.functionEnd, []⟩) := .note (.performed .functionEnd)
  exact .of_turn (fun _ => rfl) hend
    ⟨hname, hid.keep ((h₂.silent h₃).silent (.single hend)).keeps⟩

end Method

end ShaderStage

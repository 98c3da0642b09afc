import ShaderStage.Proofs.Expression

/-! # Bodies

What the operations of a method body emit. One rule for each operation says which instructions it
appends and which ids it leaves on the stack; emitting a body follows these rules, and is refused
only if the body is not well typed.

* `Emitter.Emits`: the rule of each operation;
* `Scope.step_meets`: an operation is emitted by its rule, or it is not well typed;
* `Scope.run_meets`: so is a body. -/

namespace ShaderStage

/-! ## The code of an operation -/

/-- The opcodes of the instructions that an operation emits: only a return ends the function. -/
def Progress.opcodes : Progress → List Opcode
  | .running _ => [.load, .store, .accessChain, .compositeConstruct, .compositeExtract, .extInst] ++
      Opcode.arithmetic
  | .returned => [.ret, .returnValue]

/-- The opcodes of the instructions of a body. -/
def bodyOpcodes : List Opcode :=
  Progress.opcodes .returned ++ Progress.opcodes (.running [])

/-- Whatever the progress, the opcodes are those of bodies. -/
theorem Progress.opcodes_subset (progress : Progress) : progress.opcodes ⊆ bodyOpcodes := by
  cases progress with
  | running _ => exact List.subset_append_right _ _
  | returned => exact List.subset_append_left _ _

/-- A binary operation becomes an instruction of two operands. -/
theorem BinaryOperator.Resolves.opcode_mem {op : BinaryOperator} {left right t : Ty} {c : Opcode}
    {swap : Bool} (h : op.Resolves left right c t swap) : c ∈ Opcode.arithmetic := by
  cases h with
  | product _ h => exact Emit.product?_mem_arithmetic h
  | uniform _ _ _ h => exact Emit.opcode_mem_arithmetic h

namespace Emitter

/-- A value may be written through a pointer. -/
def Stores (w : Emitter) (p v : Id) : Prop :=
  ∃ k kv elem, w.Value p k ∧ w.Value v kv ∧ k.type = .pointer elem ∧ elem.same kv.type = true

/-- An id is a value of a type, which has the id `T`. -/
def ValueOf (w : Emitter) (id T : Id) (k : Key) : Prop :=
  w.typeOf? k = some T ∧ w.Value id k.normalize

/-- What an operation emits on a stack of ids, as far as the emitter knows the ids. -/
inductive Emits (w : Emitter) (Γ : Scope) :
    List Id → Operation → List Instruction → Progress → Prop
  | loadField {st : List Id} {n : Int} {v : Variable} (h : elementAt? Γ.globals n = some v) :
      Emits w Γ st (.loadField n) [] (.running (v.id :: st))
  | loadLocal {st : List Id} {n : Int} {v : Variable} (h : elementAt? Γ.locals n = some v) :
      Emits w Γ st (.loadLocal n) [] (.running (v.id :: st))
  | storeField {st : List Id} {n : Int} {v : Variable} {x : Id}
      (h : elementAt? Γ.globals n = some v) (hstore : w.Stores v.id x) :
      Emits w Γ (x :: st) (.storeField n) [⟨.store, [v.id, x]⟩] (.running st)
  | storeLocal {st : List Id} {n : Int} {v : Variable} {x : Id}
      (h : elementAt? Γ.locals n = some v) (hstore : w.Stores v.id x) :
      Emits w Γ (x :: st) (.storeLocal n) [⟨.store, [v.id, x]⟩] (.running st)
  | store {st : List Id} {p x : Id} (hstore : w.Stores p x) :
      Emits w Γ (x :: p :: st) .store [⟨.store, [p, x]⟩] (.running st)
  | deref {st : List Id} {p id T : Id} {k : Key} {elem : Ty} (hp : w.Value p k)
      (hk : k.type = .pointer elem) (hid : w.ValueOf id T (.value elem))
      (hname : w.Derives p "-loaded" id) :
      Emits w Γ (p :: st) .deref [⟨.load, [T, id, p]⟩] (.running (id :: st))
  | pushUint {st : List Id} {v : UInt32} {id : Id} (h : w.Constant id .uint32 v) :
      Emits w Γ st (.pushUint v) [] (.running (id :: st))
  | pushFloat {st : List Id} {v : UInt32} {id : Id} (h : w.Constant id .float32 v) :
      Emits w Γ st (.pushFloat v) [] (.running (id :: st))
  | extract {st : List Id} {i : UInt32} {b id T : Id} {k : Key} {elem : Ty} (hb : w.Value b k)
      (hpart : k.type.HasPart i elem) (hid : w.ValueOf id T (.value elem))
      (hname : w.Derives b (componentSuffix i) id) :
      Emits w Γ (b :: st) (.extract i) [⟨.compositeExtract, [T, id, b, i]⟩] (.running (id :: st))
  | extract2 {st : List Id} {row col : UInt32} {b id T : Id} {k : Key} {inner elem : Ty}
      (hb : w.Value b k) (hrow : k.type.HasPart row inner) (hcol : inner.HasPart col elem)
      (hid : w.ValueOf id T (.value elem)) (hname : w.Derives b (cellSuffix row col) id) :
      Emits w Γ (b :: st) (.extract2 row col) [⟨.compositeExtract, [T, id, b, row, col]⟩]
        (.running (id :: st))
  | access {st : List Id} {i : UInt32} {b id T index : Id} {k : Key} {elem member : Ty}
      (hb : w.Value b k) (hk : k.type = .pointer elem) (hpart : elem.HasPart i member)
      (hindex : w.Constant index .uint32 i) (hid : w.ValueOf id T (.pointer member k.storage))
      (hname : w.Derives b (accessSuffix i) id) :
      Emits w Γ (b :: st) (.access i) [⟨.accessChain, [T, id, b, index]⟩] (.running (id :: st))
  | construct {st : List Id} {t : Ty} {count : Int} {id T : Id} {ks : List Key}
      (hcount : 0 ≤ count ∧ count ≤ st.length)
      (hparts : List.Forall₂ w.Value (st.take count.toNat).reverse ks)
      (hcheck : t.checkParts (ks.map Key.type) = .ok ()) (hid : w.ValueOf id T (.value t))
      (hname : w.Nameless id) :
      Emits w Γ st (.construct t count)
        [⟨.compositeConstruct, T :: id :: (st.take count.toNat).reverse⟩]
        (.running (id :: st.drop count.toNat))
  | math {st : List Id} {f : MathFunction} {a id T set : Id} {number : Word} {k : Key}
      (ha : w.Value a k) (hnumber : f.number = .ok number) (hk : k.type.MathOperand)
      (hset : w.Has .instructionSets ⟨.extInstImport, set :: Literal.ofString mathSetName⟩)
      (hT : w.typeOf? k = some T) (hid : w.Value id k) (hname : w.Nameless id) :
      Emits w Γ (a :: st) (.math f) [⟨.extInst, [T, id, set, number, a]⟩] (.running (id :: st))
  | narrowVec4 {st : List Id} {v x y z id F T : Id} (hv : w.Value v (.value .vec4))
      (hx : w.ValueOf x F (.value .float32)) (hy : w.ValueOf y F (.value .float32))
      (hz : w.ValueOf z F (.value .float32)) (hid : w.ValueOf id T (.value .vec3))
      (hxname : w.Derives v ".x" x) (hyname : w.Derives v ".y" y) (hzname : w.Derives v ".z" z)
      (hname : w.Derives v ".xyz" id) :
      Emits w Γ (v :: st) .narrowVec4
        [⟨.compositeExtract, [F, x, v, 0]⟩, ⟨.compositeExtract, [F, y, v, 1]⟩,
          ⟨.compositeExtract, [F, z, v, 2]⟩, ⟨.compositeConstruct, [T, id, x, y, z]⟩]
        (.running (id :: st))
  | binary {st : List Id} {op : BinaryOperator} {l r id T : Id} {kl kr : Key} {c : Opcode} {t : Ty}
      {swap : Bool} (hl : w.Value l kl) (hr : w.Value r kr)
      (h : op.Resolves kl.type kr.type c t swap) (hid : w.ValueOf id T (.value t))
      (hname : w.Nameless id) :
      Emits w Γ (r :: l :: st) (.binary op) [⟨c, if swap then [T, id, r, l] else [T, id, l, r]⟩]
        (.running (id :: st))
  | dup {st : List Id} {x : Id} : Emits w Γ (x :: st) .dup [] (.running (x :: x :: st))
  | pop {st : List Id} {x : Id} : Emits w Γ (x :: st) .pop [] (.running st)
  | ret {st : List Id} (h : Γ.method.result.isVoid = true) :
      Emits w Γ st .ret [⟨.ret, []⟩] .returned
  | retValue {st : List Id} {x : Id} {k : Key} (h : Γ.method.result.isVoid = false)
      (hx : w.Value x k) (hsame : k.type.same Γ.method.result = true) :
      Emits w Γ (x :: st) .ret [⟨.returnValue, [x]⟩] .returned

/-- What the operations of a body emit, one after the other. -/
inductive EmitsAll (w : Emitter) (Γ : Scope) :
    Progress → List Operation → List Instruction → Progress → Prop
  | nil {progress : Progress} : EmitsAll w Γ progress [] [] progress
  | cons {st : List Id} {op : Operation} {ops : List Operation} {code code' : List Instruction}
      {progress progress' : Progress} (h : w.Emits Γ st op code progress)
      (hrest : EmitsAll w Γ progress ops code' progress') :
      EmitsAll w Γ (.running st) (op :: ops) (code ++ code') progress'

/-- The id of the result does not depend on the order of the operands. -/
theorem resultId_arithmetic {c : Opcode} (hc : c ∈ Opcode.arithmetic) {T id l r : Id}
    (swap : Bool) :
    (Instruction.mk c (if swap then [T, id, r, l] else [T, id, l, r])).resultId = some id := by
  cases swap <;> simp [Instruction.resultId, Opcode.shape_of_mem_arithmetic hc]

theorem Stores.mono {w w' : Emitter} (h : w.Extends w') {p v : Id} (hs : w.Stores p v) :
    w'.Stores p v := by
  obtain ⟨k, kv, elem, hp, hv, hrest⟩ := hs
  exact ⟨k, kv, elem, hp.mono h, hv.mono h, hrest⟩

theorem ValueOf.mono {w w' : Emitter} (h : w.Extends w') {id T : Id} {k : Key}
    (hv : w.ValueOf id T k) : w'.ValueOf id T k :=
  ⟨h.types hv.1, hv.2.mono h⟩

theorem Emits.mono {w w' : Emitter} (h : w.Extends w') {Γ : Scope} {st : List Id} {op : Operation}
    {code : List Instruction} {progress : Progress} (hw : w.Emits Γ st op code progress) :
    w'.Emits Γ st op code progress := by
  cases hw with
  | loadField hv => exact .loadField hv
  | loadLocal hv => exact .loadLocal hv
  | storeField hv hstore => exact .storeField hv (hstore.mono h)
  | storeLocal hv hstore => exact .storeLocal hv (hstore.mono h)
  | store hstore => exact .store (hstore.mono h)
  | deref hp hk hid hname => exact .deref (hp.mono h) hk (hid.mono h) (hname.mono h)
  | pushUint hv => exact .pushUint (hv.mono h)
  | pushFloat hv => exact .pushFloat (hv.mono h)
  | extract hb hpart hid hname => exact .extract (hb.mono h) hpart (hid.mono h) (hname.mono h)
  | extract2 hb hrow hcol hid hname =>
    exact .extract2 (hb.mono h) hrow hcol (hid.mono h) (hname.mono h)
  | access hb hk hpart hindex hid hname =>
    exact .access (hb.mono h) hk hpart (hindex.mono h) (hid.mono h) (hname.mono h)
  | construct hcount hparts hcheck hid hname =>
    exact .construct hcount (hparts.imp fun _ _ hv => hv.mono h) hcheck (hid.mono h) (hname.mono h)
  | math ha hnumber hk hset hT hid hname =>
    exact .math (ha.mono h) hnumber hk (hset.mono h) (h.types hT) (hid.mono h) (hname.mono h)
  | narrowVec4 hv hx hy hz hid hxname hyname hzname hname =>
    exact .narrowVec4 (hv.mono h) (hx.mono h) (hy.mono h) (hz.mono h) (hid.mono h) (hxname.mono h)
      (hyname.mono h) (hzname.mono h) (hname.mono h)
  | binary hl hr hop hid hname =>
    exact .binary (hl.mono h) (hr.mono h) hop (hid.mono h) (hname.mono h)
  | dup => exact .dup
  | pop => exact .pop
  | ret hvoid => exact .ret hvoid
  | retValue hvoid hx hsame => exact .retValue hvoid (hx.mono h) hsame

theorem EmitsAll.mono {w w' : Emitter} (h : w.Extends w') {Γ : Scope} {ops : List Operation}
    {code : List Instruction} {progress progress' : Progress}
    (hw : w.EmitsAll Γ progress ops code progress') :
    w'.EmitsAll Γ progress ops code progress' := by
  induction hw with
  | nil => exact .nil
  | cons hop _ ih => exact .cons (hop.mono h) ih

/-- An operation emits the opcodes that belong to its progress. -/
theorem Emits.opcode_mem {w : Emitter} {Γ : Scope} {st : List Id} {op : Operation}
    {code : List Instruction} {progress : Progress} (h : w.Emits Γ st op code progress) :
    ∀ i ∈ code, i.opcode ∈ progress.opcodes := by
  cases h with
  | loadField | loadLocal | pushUint | pushFloat | dup | pop => nofun
  | binary _ _ h => exact List.forall_mem_singleton.mpr (List.mem_append_right _ h.opcode_mem)
  | _ => simp [Progress.opcodes]

/-- A body emits no other opcodes than those of bodies. -/
theorem EmitsAll.opcode_mem {w : Emitter} {Γ : Scope} {ops : List Operation}
    {code : List Instruction} {progress progress' : Progress}
    (h : w.EmitsAll Γ progress ops code progress') : ∀ i ∈ code, i.opcode ∈ bodyOpcodes := by
  induction h with
  | nil => nofun
  | cons hop _ ih =>
    refine List.forall_mem_append.mpr ⟨fun i hi => ?_, ih⟩
    exact Progress.opcodes_subset _ (hop.opcode_mem i hi)

end Emitter

/-! ## Emitting an operation -/

/-- The ids on the stack are values with the given keys; nothing is left after a return. -/
def Emitter.Stands (s : Emitter) : Progress → Option (List Key) → Prop
  | .running st, some ks => List.Forall₂ s.Value st ks
  | .returned, none => True
  | _, _ => False

/-- Looking something up in a list commutes with a function on its elements. -/
theorem elementAt?_map {α β : Type} (f : α → β) (xs : List α) (n : Int) :
    elementAt? (xs.map f) n = (elementAt? xs n).map f := by
  cases n with
  | ofNat n => simp [elementAt?]
  | negSucc n => rfl

/-- What is found is in the list. -/
theorem mem_of_elementAt? {α : Type} {xs : List α} {n : Int} {a : α}
    (h : elementAt? xs n = some a) : a ∈ xs := by
  cases n with
  | ofNat n => exact List.mem_of_getElem? h
  | negSucc n => cases h

namespace Scope

variable {N : String → Prop} {s : Emitter} {Γ : Scope}

/-- What the operations of a method are typed against. -/
def frame (Γ : Scope) : Frame :=
  ⟨Γ.method.result, Γ.globals.map Variable.key, Γ.locals.map Variable.key⟩

/-- The variables in scope are values of the emitter. -/
structure Bound (Γ : Scope) (s : Emitter) : Prop where
  globals : ∀ v ∈ Γ.globals, s.Value v.id v.key
  locals : ∀ v ∈ Γ.locals, s.Value v.id v.key

theorem Bound.mono {s' : Emitter} (h : s.Extends s') (hΓ : Γ.Bound s) : Γ.Bound s' where
  globals v hv := (hΓ.globals v hv).mono h
  locals v hv := (hΓ.locals v hv).mono h

/-- An operation was emitted: from `s` to `s'`, on a stack with the keys `ks`. -/
def Emitted (N : String → Prop) (Γ : Scope) (stack : List Id) (ks : List Key) (op : Operation)
    (s : Emitter) (progress : Progress) (s' : Emitter) : Prop :=
  ∃ code r, s'.Emits Γ stack op code progress ∧ s'.code = s.code ++ code ∧
    (Clean N → op.Types Γ.frame ks r) ∧ s'.Stands progress r

/-- An operation was refused, and for clean names no typing rule applies to it. -/
def Untyped (N : String → Prop) (Γ : Scope) (ks : List Key) (op : Operation) (e : CompileError) :
    Prop :=
  e.Because (Clean N → ∀ r, ¬ op.Types Γ.frame ks r)

/-- Looking up a variable, or refusing the operation. -/
theorem field_bind_meets {β : Type} (hs : s.Consistent N) (index : Nat) (n : Int)
    {f : Variable → Emit β} {Q : β → Emitter → Prop} {E : CompileError → Prop}
    (hE : ∀ e : CompileError, e.Because (elementAt? Γ.globals n = none) → E e)
    (hf : ∀ v, elementAt? Γ.globals n = some v → Meets N (f v) s Q E) :
    Meets N (Γ.field index n >>= f) s Q E := by
  unfold field
  cases hv : elementAt? Γ.globals n with
  | some v => exact hf v hv
  | none => exact .refused_bind hs (hE _ ⟨nofun, hv⟩)

/-- A local that exists is found, and otherwise the operation is refused. -/
theorem localVariable_bind_meets {β : Type} (hs : s.Consistent N) (index : Nat) (n : Int)
    {f : Variable → Emit β} {Q : β → Emitter → Prop} {E : CompileError → Prop}
    (hE : ∀ e : CompileError, e.Because (elementAt? Γ.locals n = none) → E e)
    (hf : ∀ v, elementAt? Γ.locals n = some v → Meets N (f v) s Q E) :
    Meets N (Γ.localVariable index n >>= f) s Q E := by
  unfold localVariable
  cases hv : elementAt? Γ.locals n with
  | some v => exact hf v hv
  | none => exact .refused_bind hs (hE _ ⟨nofun, hv⟩)

/-- Taking the top of the stack, or refusing the operation. -/
theorem pop_bind_meets {β : Type} (hs : s.Consistent N) (index : Nat) {stack : List Id}
    {ks : List Key} (hstack : List.Forall₂ s.Value stack ks) {f : Id × List Id → Emit β}
    {Q : β → Emitter → Prop} {E : CompileError → Prop}
    (hE : ∀ e : CompileError, e.Because (ks = []) → E e)
    (hf : ∀ top rest k krest, stack = top :: rest → ks = k :: krest → s.Value top k →
      List.Forall₂ s.Value rest krest → Meets N (f (top, rest)) s Q E) :
    Meets N (Γ.pop index stack >>= f) s Q E := by
  cases hstack with
  | nil => exact .refused_bind hs (hE _ ⟨nofun, rfl⟩)
  | cons htop hrest => exact hf _ _ _ _ rfl rfl htop hrest

/-- Replacing the top of a stack that is not empty. -/
theorem replace_meets {f : Id → Emit Id} [∀ a, Growing (f a)] {index : Nat} {top : Id}
    {rest : List Id} {Q : Progress → Emitter → Prop} {E : CompileError → Prop}
    (hf : Meets N (f top) s (fun id s' => Q (.running (id :: rest)) s') E) :
    Meets N (Γ.replace index (top :: rest) f) s Q E :=
  hf.bind fun _ _ _ hs' h => .pure hs' h

/-- With clean names, what the emitter takes for the same type is alike by the rules. -/
theorem alike_of_same (hs : s.Consistent N) (hN : Clean N) {p x : Id} {k kx : Key}
    (hp : s.Value p k) (hx : s.Value x kx) {elem : Ty} (hk : k.type = .pointer elem) :
    elem.same kx.type = true ↔ elem.Alike kx.type := by
  have hnamed := (hp.named hs).mono hN
  rw [hk] at hnamed
  exact Ty.same_iff hnamed ((hx.named hs).mono hN)

/-- The types of values have names of the kind in question. -/
theorem named_of_values (hs : s.Consistent N) {ids : List Id} {ks : List Key}
    (h : List.Forall₂ s.Value ids ks) : ∀ k ∈ ks, k.type.Named N := by
  induction h with
  | nil => nofun
  | cons hid _ ih => exact List.forall_mem_cons.mpr ⟨hid.named hs, ih⟩

/-- Writing through a pointer, whichever operation asks for it. -/
theorem storing_meets (hs : s.Consistent N) {op : Operation} {p x : Id} {k kx : Key}
    (hp : s.Value p k) (hx : s.Value x kx) {stack rest : List Id} {ks krest : List Key}
    (hrest : List.Forall₂ s.Value rest krest)
    (hemits : ∀ s' : Emitter, s'.Stores p x →
      s'.Emits Γ stack op [⟨.store, [p, x]⟩] (.running rest))
    (htypes : ∀ r, op.Types Γ.frame ks r ↔
      r = some krest ∧ ∃ elem, k.type = .pointer elem ∧ elem.Alike kx.type) :
    Meets N (do Emit.store p x; return .running rest) s (Γ.Emitted N stack ks op s)
      (Γ.Untyped N ks op) := by
  -- Types are compared by their texts, which is to compare the types when all names are clean.
  refine ((Emit.store_meets hs hp hx).refusing ?_).bind ?_
  · rintro e ⟨hkind, hfalse⟩
    refine ⟨hkind, fun hN r h => ?_⟩
    obtain ⟨-, elem, hk, halike⟩ := (htypes r).mp h
    have hsame := (alike_of_same hs hN hp hx hk).mpr halike
    rw [hfalse elem hk] at hsame
    cases hsame
  · rintro _ s' hext hs' ⟨⟨elem, hk, hsame⟩, hcode⟩
    have hstores : s'.Stores p x := ⟨_, _, elem, hp.mono hext, hx.mono hext, hk, hsame⟩
    refine .pure hs' ⟨_, _, hemits s' hstores, hcode, fun hN => (htypes _).mpr ⟨rfl, elem, hk, ?_⟩,
      hrest.imp fun _ _ h => h.mono hext⟩
    exact (alike_of_same hs hN hp hx hk).mp hsame

section

variable (hs : s.Consistent N) (hΓ : Γ.Bound s) (index : Nat) {stack : List Id} {ks : List Key}
  (hstack : List.Forall₂ s.Value stack ks)

include hs hΓ hstack

/-- The value of a field is pushed. -/
theorem loadField_meets (n : Int) :
    Meets N (Γ.step index stack (.loadField n)) s (Γ.Emitted N stack ks (.loadField n) s)
      (Γ.Untyped N ks (.loadField n)) := by
  refine field_bind_meets hs index n ?_ ?_
  · rintro e ⟨hkind, hnone⟩
    refine ⟨hkind, fun _ r h => ?_⟩
    cases h with
    | loadField h =>
      simp only [frame, elementAt?_map, hnone] at h
      cases h
  · intro v hv
    have hvalue := hΓ.globals v (mem_of_elementAt? hv)
    refine .pure hs ⟨[], _, .loadField hv, (List.append_nil _).symm, fun _ => .loadField ?_,
      .cons hvalue hstack⟩
    rw [frame, elementAt?_map, hv, Option.map_some]

/-- The value of a local is pushed. -/
theorem loadLocal_meets (n : Int) :
    Meets N (Γ.step index stack (.loadLocal n)) s (Γ.Emitted N stack ks (.loadLocal n) s)
      (Γ.Untyped N ks (.loadLocal n)) := by
  refine localVariable_bind_meets hs index n ?_ ?_
  · rintro e ⟨hkind, hnone⟩
    refine ⟨hkind, fun _ r h => ?_⟩
    cases h with
    | loadLocal h =>
      simp only [frame, elementAt?_map, hnone] at h
      cases h
  · intro v hv
    have hvalue := hΓ.locals v (mem_of_elementAt? hv)
    refine .pure hs ⟨[], _, .loadLocal hv, (List.append_nil _).symm, fun _ => .loadLocal ?_,
      .cons hvalue hstack⟩
    rw [frame, elementAt?_map, hv, Option.map_some]

/-- The top of the stack is stored in a field. -/
theorem storeField_meets (n : Int) :
    Meets N (Γ.step index stack (.storeField n)) s (Γ.Emitted N stack ks (.storeField n) s)
      (Γ.Untyped N ks (.storeField n)) := by
  refine field_bind_meets hs index n ?_ ?_
  · rintro e ⟨hkind, hnone⟩
    refine ⟨hkind, fun _ r h => ?_⟩
    cases h with
    | storeField h =>
      simp only [frame, elementAt?_map, hnone] at h
      cases h
  intro v hv
  have hkey : elementAt? Γ.frame.fields n = some v.key := by
    rw [frame, elementAt?_map, hv, Option.map_some]
  cases hstack with
  | nil => exact .refused_bind hs ⟨nofun, fun _ r h => nomatch h⟩
  | cons hx hrest =>
    refine storing_meets hs (hΓ.globals v (mem_of_elementAt? hv)) hx hrest
      (fun s' h => .storeField hv h) fun r => ⟨fun h => ?_, ?_⟩
    · cases h with
      | storeField h hk halike =>
        rw [hkey] at h
        cases h
        exact ⟨rfl, _, hk, halike⟩
    · rintro ⟨rfl, elem, hk, halike⟩
      exact .storeField hkey hk halike

/-- The top of the stack is stored in a local. -/
theorem storeLocal_meets (n : Int) :
    Meets N (Γ.step index stack (.storeLocal n)) s (Γ.Emitted N stack ks (.storeLocal n) s)
      (Γ.Untyped N ks (.storeLocal n)) := by
  refine localVariable_bind_meets hs index n ?_ ?_
  · rintro e ⟨hkind, hnone⟩
    refine ⟨hkind, fun _ r h => ?_⟩
    cases h with
    | storeLocal h =>
      simp only [frame, elementAt?_map, hnone] at h
      cases h
  intro v hv
  have hkey : elementAt? Γ.frame.locals n = some v.key := by
    rw [frame, elementAt?_map, hv, Option.map_some]
  cases hstack with
  | nil => exact .refused_bind hs ⟨nofun, fun _ r h => nomatch h⟩
  | cons hx hrest =>
    refine storing_meets hs (hΓ.locals v (mem_of_elementAt? hv)) hx hrest
      (fun s' h => .storeLocal hv h) fun r => ⟨fun h => ?_, ?_⟩
    · cases h with
      | storeLocal h hk halike =>
        rw [hkey] at h
        cases h
        exact ⟨rfl, _, hk, halike⟩
    · rintro ⟨rfl, elem, hk, halike⟩
      exact .storeLocal hkey hk halike

end

section

variable (hs : s.Consistent N) (index : Nat) {stack : List Id} {ks : List Key}
  (hstack : List.Forall₂ s.Value stack ks)

include hs hstack

/-- The top of the stack is stored where the value below it points. -/
theorem store_meets :
    Meets N (Γ.step index stack .store) s (Γ.Emitted N stack ks .store s)
      (Γ.Untyped N ks .store) := by
  refine pop_bind_meets hs index hstack ?_ ?_
  · rintro e ⟨hkind, rfl⟩
    exact ⟨hkind, fun _ r h => nomatch h⟩
  rintro x rest kx krest rfl rfl hx hrest
  refine pop_bind_meets hs index hrest ?_ ?_
  · rintro e ⟨hkind, rfl⟩
    exact ⟨hkind, fun _ r h => nomatch h⟩
  rintro p rest k krest rfl rfl hp hrest
  refine storing_meets hs hp hx hrest (fun s' h => .store h) fun r => ⟨fun h => ?_, ?_⟩
  · cases h with
    | store hk halike => exact ⟨rfl, _, hk, halike⟩
  · rintro ⟨rfl, elem, hk, halike⟩
    exact .store hk halike

/-- A pointer is replaced by the value that it points to. -/
theorem deref_meets :
    Meets N (Γ.step index stack .deref) s (Γ.Emitted N stack ks .deref s)
      (Γ.Untyped N ks .deref) := by
  cases hstack with
  | nil => exact .refused_bind hs ⟨nofun, fun _ r h => nomatch h⟩
  | cons hp hrest =>
    refine replace_meets ((Emit.load_meets hs hp).mono ?_ ?_)
    · rintro id s' hext - ⟨elem, T, hk, hT, hid, hname, hcode⟩
      exact ⟨_, _, .deref (hp.mono hext) hk ⟨hT, hid⟩ hname, hcode, fun _ => .deref hk,
        .cons hid (hrest.imp fun _ _ h => h.mono hext)⟩
    · rintro e ⟨hkind, hnot⟩
      refine ⟨hkind, fun hN r h => ?_⟩
      cases h with
      | deref hk => exact hnot hN _ hk

/-- A composite is replaced by one of its parts. -/
theorem extract_meets (i : UInt32) :
    Meets N (Γ.step index stack (.extract i)) s (Γ.Emitted N stack ks (.extract i) s)
      (Γ.Untyped N ks (.extract i)) := by
  cases hstack with
  | nil => exact .refused_bind hs ⟨nofun, fun _ r h => nomatch h⟩
  | cons hb hrest =>
    refine replace_meets (f := (Emit.extract · i)) ((Emit.extract_meets hs hb i).mono ?_ ?_)
    · rintro id s' hext - ⟨elem, T, hpart, hT, hid, hname, hcode⟩
      have hpart := Ty.component_eq_ok_iff.mp hpart
      exact ⟨_, _, .extract (hb.mono hext) hpart ⟨hT, hid⟩ hname, hcode, fun _ => .extract hpart,
        .cons hid (hrest.imp fun _ _ h => h.mono hext)⟩
    · rintro e ⟨hkind, hnot⟩
      refine ⟨hkind, fun hN r h => ?_⟩
      cases h with
      | extract hpart => exact hnot hN _ (Ty.component_eq_ok_iff.mpr hpart)

/-- A composite is replaced by a part of one of its parts. -/
theorem extract2_meets (row col : UInt32) :
    Meets N (Γ.step index stack (.extract2 row col)) s (Γ.Emitted N stack ks (.extract2 row col) s)
      (Γ.Untyped N ks (.extract2 row col)) := by
  cases hstack with
  | nil => exact .refused_bind hs ⟨nofun, fun _ r h => nomatch h⟩
  | cons hb hrest =>
    refine replace_meets (f := (Emit.extract2 · row col))
      ((Emit.extract2_meets hs hb row col).mono ?_ ?_)
    · rintro id s' hext - ⟨inner, elem, T, hrow, hcol, hT, hid, hname, hcode⟩
      have hrow := Ty.component_eq_ok_iff.mp hrow
      have hcol := Ty.component_eq_ok_iff.mp hcol
      exact ⟨_, _, .extract2 (hb.mono hext) hrow hcol ⟨hT, hid⟩ hname, hcode,
        fun _ => .extract2 hrow hcol, .cons hid (hrest.imp fun _ _ h => h.mono hext)⟩
    · rintro e ⟨hkind, hnot⟩
      refine ⟨hkind, fun hN r h => ?_⟩
      cases h with
      | extract2 hrow hcol =>
        exact hnot hN _ _ (Ty.component_eq_ok_iff.mpr hrow) (Ty.component_eq_ok_iff.mpr hcol)

/-- A pointer is replaced by a pointer to a part. -/
theorem access_meets (i : UInt32) :
    Meets N (Γ.step index stack (.access i)) s (Γ.Emitted N stack ks (.access i) s)
      (Γ.Untyped N ks (.access i)) := by
  cases hstack with
  | nil => exact .refused_bind hs ⟨nofun, fun _ r h => nomatch h⟩
  | cons hb hrest =>
    refine replace_meets (f := (Emit.access · i)) ((Emit.access_meets hs hb i).mono ?_ ?_)
    · rintro id s' hext - ⟨elem, member, T, constant, hk, hpart, hT, hconstant, hid, hname, hcode⟩
      have hpart := Ty.component_eq_ok_iff.mp hpart
      exact ⟨_, _, .access (hb.mono hext) hk hpart hconstant ⟨hT, hid⟩ hname, hcode,
        fun _ => .access hk hpart, .cons hid (hrest.imp fun _ _ h => h.mono hext)⟩
    · rintro e ⟨hkind, hnot⟩
      refine ⟨hkind, fun hN r h => ?_⟩
      cases h with
      | access hk hpart => exact hnot hN _ _ hk (Ty.component_eq_ok_iff.mpr hpart)

/-- A number is pushed as a constant. -/
theorem pushUint_meets (v : UInt32) :
    Meets N (Γ.step index stack (.pushUint v)) s (Γ.Emitted N stack ks (.pushUint v) s)
      (Γ.Untyped N ks (.pushUint v)) := by
  refine (Emit.constantOf_meets hs .uint v).bind ?_
  rintro id s' hext hs' ⟨hinterns, -, hid⟩
  exact .pure hs' ⟨[], _, .pushUint hid, by rw [hinterns.code, List.append_nil],
    fun _ => .pushUint, .cons hid.value (hstack.imp fun _ _ h => h.mono hext)⟩

/-- A float is pushed as a constant. -/
theorem pushFloat_meets (v : UInt32) :
    Meets N (Γ.step index stack (.pushFloat v)) s (Γ.Emitted N stack ks (.pushFloat v) s)
      (Γ.Untyped N ks (.pushFloat v)) := by
  refine (Emit.constantOf_meets hs .float v).bind ?_
  rintro id s' hext hs' ⟨hinterns, -, hid⟩
  exact .pure hs' ⟨[], _, .pushFloat hid, by rw [hinterns.code, List.append_nil],
    fun _ => .pushFloat, .cons hid.value (hstack.imp fun _ _ h => h.mono hext)⟩

/-- Parts are replaced by the composite of them. -/
theorem construct_meets {t : Ty} (ht : t.Named N) (count : Int) :
    Meets N (Γ.step index stack (.construct t count)) s
      (Γ.Emitted N stack ks (.construct t count) s)
      (Γ.Untyped N ks (.construct t count)) := by
  show Meets N (Γ.construct index stack t count) s _ _
  unfold construct
  have hlength : stack.length = ks.length := hstack.length_eq
  by_cases hcount : 0 ≤ count ∧ count ≤ stack.length
  · rw [if_pos hcount]
    have hparts : List.Forall₂ s.Value (stack.take count.toNat).reverse
        (ks.take count.toNat).reverse :=
      List.forall₂_reverse_iff.mpr (List.forall₂_take _ hstack)
    have hbuilt : Clean N → (t.checkParts ((ks.take count.toNat).reverse.map Key.type) = .ok () ↔
        t.Built ((ks.take count.toNat).reverse.map Key.type)) := by
      intro hN
      refine Ty.checkParts_eq_ok_iff (ht.mono hN) fun u hu => ?_
      obtain ⟨k, hk, rfl⟩ := List.mem_map.mp hu
      have hmem : k ∈ ks := List.mem_of_mem_take (List.mem_reverse.mp hk)
      exact (named_of_values hs hstack k hmem).mono hN
    refine ((Emit.construct_meets hs ht hparts).refusing ?_).bind ?_
    · rintro e ⟨hkind, hnot⟩
      refine ⟨hkind, fun hN r h => ?_⟩
      cases h with
      | construct _ hsupported hb => exact hnot ((hbuilt hN).mpr hb) hsupported
    · rintro id s' hext hs' ⟨T, hcheck, hT, hid, hname, hcode⟩
      have hparts' := hparts.imp fun _ _ h => h.mono hext
      refine .pure hs' ⟨_, _, .construct hcount hparts' hcheck ⟨hT, hid⟩ hname, hcode,
        fun hN => .construct ?_ ?_ ((hbuilt hN).mp hcheck), .cons hid ?_⟩
      · rwa [← hlength]
      · exact Emitter.supported_of_typeOf? hs' hN t .none ht hT
      · exact (List.forall₂_drop _ hstack).imp fun _ _ h => h.mono hext
  · rw [if_neg hcount]
    refine .refused hs ⟨nofun, fun _ r h => ?_⟩
    cases h with
    | construct hcount' => exact hcount (hlength ▸ hcount')

/-- An operand is replaced by the result of a function. -/
theorem math_meets (f : MathFunction) :
    Meets N (Γ.step index stack (.math f)) s (Γ.Emitted N stack ks (.math f) s)
      (Γ.Untyped N ks (.math f)) := by
  cases hstack with
  | nil => exact .refused_bind hs ⟨nofun, fun _ r h => nomatch h⟩
  | cons ha hrest =>
    refine replace_meets ((Emit.math_meets hs ha f).mono ?_ ?_)
    · rintro id s' hext - ⟨T, set, number, hnumber, hoperand, hT, hset, hid, hname, hcode⟩
      refine ⟨_, _, .math (ha.mono hext) hnumber hoperand hset hT hid hname, hcode,
        fun _ => .math ?_ hoperand, .cons hid (hrest.imp fun _ _ h => h.mono hext)⟩
      rintro code rfl
      cases hnumber
    · rintro e ⟨hkind, hnot⟩
      refine ⟨hkind, fun hN r h => ?_⟩
      cases h with
      | math hf hoperand => exact hnot hN hf hoperand

/-- A vector of four is replaced by one of its first three components. -/
theorem narrowVec4_meets :
    Meets N (Γ.step index stack .narrowVec4) s (Γ.Emitted N stack ks .narrowVec4 s)
      (Γ.Untyped N ks .narrowVec4) := by
  cases hstack with
  | nil => exact .refused_bind hs ⟨nofun, fun _ r h => nomatch h⟩
  | cons hv hrest =>
    refine replace_meets ((Emit.narrowVec4_meets hs hv).mono ?_ ?_)
    · rintro id s' hext - ⟨x, y, z, F, T, rfl, hF, hT, hx, hy, hz, hid, hxname, hyname, hzname,
        hname, hcode⟩
      exact ⟨_, _, .narrowVec4 (hv.mono hext) ⟨hF, hx⟩ ⟨hF, hy⟩ ⟨hF, hz⟩ ⟨hT, hid⟩ hxname hyname
        hzname hname, hcode, fun _ => .narrowVec4 rfl,
        .cons hid (hrest.imp fun _ _ h => h.mono hext)⟩
    · rintro e ⟨hkind, hnot⟩
      refine ⟨hkind, fun hN r h => ?_⟩
      cases h with
      | narrowVec4 hk => exact hnot hN hk

/-- Matrices cannot be narrowed, so this is always refused. -/
theorem narrowMat4_meets :
    Meets N (Γ.step index stack .narrowMat4) s (Γ.Emitted N stack ks .narrowMat4 s)
      (Γ.Untyped N ks .narrowMat4) := by
  cases hstack with
  | nil => exact .refused_bind hs ⟨nofun, fun _ r h => nomatch h⟩
  | cons hv hrest =>
    exact replace_meets ((Emit.narrowMat4_meets hs hv).refusing fun e h =>
      ⟨h.1, fun _ r h => nomatch h⟩)

/-- Two operands are replaced by their combination. -/
theorem binary_meets (op : BinaryOperator) :
    Meets N (Γ.step index stack (.binary op)) s (Γ.Emitted N stack ks (.binary op) s)
      (Γ.Untyped N ks (.binary op)) := by
  refine pop_bind_meets hs index hstack ?_ ?_
  · rintro e ⟨hkind, rfl⟩
    exact ⟨hkind, fun _ r h => nomatch h⟩
  rintro right rest kr krest rfl rfl hr hrest
  refine pop_bind_meets hs index hrest ?_ ?_
  · rintro e ⟨hkind, rfl⟩
    exact ⟨hkind, fun _ r h => nomatch h⟩
  rintro left rest kl krest rfl rfl hl hrest
  have hcombines : Clean N → ∀ t, (∃ c swap, op.Resolves kl.type kr.type c t swap) ↔
      op.Combines kl.type kr.type t := fun hN t =>
    BinaryOperator.exists_resolves_iff ((hl.named hs).mono hN) ((hr.named hs).mono hN)
  refine ((Emit.binary_meets hs hl hr op).refusing ?_).bind ?_
  · rintro e ⟨hkind, hnot⟩
    refine ⟨hkind, fun hN r h => ?_⟩
    cases h with
    | binary h =>
      obtain ⟨c, swap, hresolves⟩ := (hcombines hN _).mpr h
      exact hnot hN c _ swap hresolves
  · rintro id s' hext hs' ⟨c, t, swap, T, hresolves, hT, hid, hname, hcode⟩
    exact .pure hs' ⟨_, _, .binary (hl.mono hext) (hr.mono hext) hresolves ⟨hT, hid⟩ hname, hcode,
      fun hN => .binary ((hcombines hN t).mp ⟨c, swap, hresolves⟩),
      .cons hid (hrest.imp fun _ _ h => h.mono hext)⟩

/-- The top of the stack is pushed once more. -/
theorem dup_meets :
    Meets N (Γ.step index stack .dup) s (Γ.Emitted N stack ks .dup s) (Γ.Untyped N ks .dup) := by
  cases hstack with
  | nil => exact .refused_bind hs ⟨nofun, fun _ r h => nomatch h⟩
  | cons hx hrest =>
    exact .pure hs ⟨[], _, .dup, (List.append_nil _).symm, fun _ => .dup, .cons hx (.cons hx hrest)⟩

/-- The top of the stack is dropped. -/
theorem pop_meets :
    Meets N (Γ.step index stack .pop) s (Γ.Emitted N stack ks .pop s) (Γ.Untyped N ks .pop) := by
  cases hstack with
  | nil => exact .refused_bind hs ⟨nofun, fun _ r h => nomatch h⟩
  | cons hx hrest =>
    exact .pure hs ⟨[], _, .pop, (List.append_nil _).symm, fun _ => .pop, hrest⟩

/-- The method returns, with a value unless its result is void. -/
theorem ret_meets (hresult : Γ.method.result.Named N) :
    Meets N (Γ.step index stack .ret) s (Γ.Emitted N stack ks .ret s) (Γ.Untyped N ks .ret) := by
  show Meets N (Γ.ret index stack) s _ _
  unfold ret
  by_cases hvoid : Γ.method.result.isVoid = true
  · rw [if_pos hvoid]
    refine Meets.bind (x := Emit.ret) (Emit.performed_meets hs .ret) ?_
    intro _ s' _ hs' hcode
    exact .pure hs' ⟨_, none, .ret hvoid, hcode, fun _ => .ret hvoid, trivial⟩
  rw [if_neg hvoid]
  have hvoid : Γ.method.result.isVoid = false := Bool.eq_false_iff.mpr hvoid
  refine pop_bind_meets hs index hstack ?_ ?_
  · rintro e ⟨hkind, rfl⟩
    refine ⟨hkind, fun _ r h => ?_⟩
    cases h with
    | ret h => cases hvoid.symm.trans h
  rintro x rest k krest rfl rfl hx hrest
  refine Emit.binding_bind_meets hx ?_
  rintro b - rfl
  have halike : Clean N → (b.key.type.same Γ.method.result = true ↔
      b.key.type.Alike Γ.method.result) :=
    fun hN => Ty.same_iff ((hx.named hs).mono hN) (hresult.mono hN)
  by_cases hsame : b.key.type.same Γ.method.result = true
  · rw [if_pos hsame]
    refine Meets.bind (x := Emit.returnValue x) (Emit.performed_meets hs (.returnValue x)) ?_
    intro _ s' hext hs' hcode
    exact .pure hs' ⟨_, none, .retValue hvoid (hx.mono hext) hsame, hcode,
      fun hN => .retValue hvoid ((halike hN).mp hsame), trivial⟩
  · rw [if_neg hsame]
    refine .refused hs ⟨nofun, fun hN r h => ?_⟩
    cases h with
    | ret h => cases hvoid.symm.trans h
    | retValue _ hk => exact hsame ((halike hN).mpr hk)

end

/-- An operation is emitted by its rule, or refused because no typing rule applies to it. -/
theorem step_meets (hs : s.Consistent N) (hΓ : Γ.Bound s) (hresult : Γ.method.result.Named N)
    (index : Nat) {stack : List Id} {ks : List Key} (hstack : List.Forall₂ s.Value stack ks)
    {op : Operation} (hop : ∀ t count, op = .construct t count → t.Named N) :
    Meets N (Γ.step index stack op) s (Γ.Emitted N stack ks op s) (Γ.Untyped N ks op) := by
  cases op with
  | loadField n => exact loadField_meets hs hΓ index hstack n
  | loadLocal n => exact loadLocal_meets hs hΓ index hstack n
  | storeField n => exact storeField_meets hs hΓ index hstack n
  | storeLocal n => exact storeLocal_meets hs hΓ index hstack n
  | store => exact store_meets hs index hstack
  | deref => exact deref_meets hs index hstack
  | pushUint v => exact pushUint_meets hs index hstack v
  | pushFloat v => exact pushFloat_meets hs index hstack v
  | extract i => exact extract_meets hs index hstack i
  | extract2 row col => exact extract2_meets hs index hstack row col
  | access i => exact access_meets hs index hstack i
  | construct t count => exact construct_meets hs index hstack (hop t count rfl) count
  | math f => exact math_meets hs index hstack f
  | narrowVec4 => exact narrowVec4_meets hs index hstack
  | narrowMat4 => exact narrowMat4_meets hs index hstack
  | binary op => exact binary_meets hs index hstack op
  | dup => exact dup_meets hs index hstack
  | pop => exact pop_meets hs index hstack
  | ret => exact ret_meets hs index hstack hresult
  | missing => exact .refused hs ⟨nofun, fun _ r h => nomatch h⟩

/-! ## Emitting a body -/

/-- A body may only end without a return if there is nothing to return. -/
theorem accepts_nil_iff {F : Frame} {ks : List Key} :
    F.Accepts ks [] ↔ F.result.isVoid = true := by
  constructor
  · intro h
    cases h with
    | stop h => exact h
  · exact .stop

/-- An operation that runs on leaves the acceptance of a body to the rest. -/
theorem accepts_cons_iff {F : Frame} {ks ks' : List Key} {op : Operation}
    (h : op.Types F ks (some ks')) (ops : List Operation) :
    F.Accepts ks (op :: ops) ↔ F.Accepts ks' ops := by
  constructor
  · intro hacc
    cases hacc with
    | step h' hrest =>
      cases h.unique h'
      exact hrest
    | ret h' => cases h.unique h'
  · exact .step h

/-- A body is emitted by the rules of its operations, or refused because it is not accepted. -/
theorem run_meets (hs : s.Consistent N) (hΓ : Γ.Bound s) (hresult : Γ.method.result.Named N)
    (index : Nat) {stack : List Id} {ks : List Key} (hstack : List.Forall₂ s.Value stack ks)
    {ops : List Operation} (hops : ∀ t count, .construct t count ∈ ops → t.Named N) :
    Meets N (Γ.run index (.running stack) ops) s
      (fun progress s' => ∃ code, s'.EmitsAll Γ (.running stack) ops code progress ∧
        s'.code = s.code ++ code ∧ (Clean N → (Γ.frame.Accepts ks ops ↔
          progress = .returned ∨ Γ.method.result.isVoid = true)))
      (fun e => e.Because (Clean N → ¬ Γ.frame.Accepts ks ops)) := by
  -- By induction on the operations, with the stack of ids holding values of the keys reached so
  -- far.
  induction ops generalizing s index stack ks with
  | nil =>
    unfold run
    refine .pure hs ⟨[], .nil, (List.append_nil _).symm, fun _ => ?_⟩
    rw [accepts_nil_iff]
    refine ⟨.inr, ?_⟩
    rintro (hreturned | hvoid)
    · cases hreturned
    · exact hvoid
  | cons op ops ih =>
    unfold run
    have hop : ∀ t count, op = .construct t count → t.Named N := by
      rintro t count rfl
      exact hops t count List.mem_cons_self
    refine ((step_meets hs hΓ hresult index hstack hop).refusing ?_).bind ?_
    · rintro e ⟨hkind, hnot⟩
      refine ⟨hkind, fun hN hacc => ?_⟩
      cases hacc with
      | step h => exact hnot hN _ h
      | ret h => exact hnot hN _ h
    rintro progress s' hext hs' ⟨code, r, hemits, hcode, htypes, hstands⟩
    cases progress with
    | running stack' =>
      cases r with
      | none => cases hstands
      | some ks' =>
        have hops' : ∀ t count, .construct t count ∈ ops → t.Named N :=
          fun t count h => hops t count (List.mem_cons_of_mem _ h)
        refine (ih hs' (hΓ.mono hext) (index + 1) hstands hops').mono ?_ ?_
        · rintro progress s'' hext' - ⟨code', hall, hcode', haccepts⟩
          refine ⟨code ++ code', .cons (hemits.mono hext') hall, ?_, fun hN => ?_⟩
          · rw [hcode', hcode, List.append_assoc]
          · rw [accepts_cons_iff (htypes hN)]
            exact haccepts hN
        · rintro e ⟨hkind, hnot⟩
          refine ⟨hkind, fun hN => ?_⟩
          rw [accepts_cons_iff (htypes hN)]
          exact hnot hN
    | returned =>
      cases r with
      | some ks' => cases hstands
      | none =>
        -- After a return only the empty rest is accepted, by the rules as by the emitter.
        cases ops with
        | nil =>
          unfold run
          refine .pure hs' ⟨code ++ [], .cons hemits .nil, by rw [hcode, List.append_nil], ?_⟩
          exact fun hN => ⟨fun _ => .inl rfl, fun _ => .ret (htypes hN)⟩
        | cons next ops =>
          unfold run
          refine .refused hs' ⟨by rintro ⟨⟩, fun hN hacc => ?_⟩
          cases hacc with
          | step h => cases (htypes hN).unique h

end Scope

end ShaderStage

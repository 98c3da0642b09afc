import ShaderStage.Proofs.Turns.Fields

/-! # Sessions

An emitter can be asked for anything at any time, and some of what it is asked for is refused. Every
call takes turns, whether or not it succeeds, and none declares a variable of the module; only a
binding that is recorded from outside is no turn. So what turns and such bindings keep holds after
any calls:

* `Call.responds`: how an emitter responds to a call;
* `Emitter.Responds.keep`, `Emitter.after_of_turns`: what a call keeps, and what a session keeps. -/

namespace ShaderStage

/-- What an emitter can be asked to do between whole programs. -/
inductive Call where
  | typeId (key : Key)
  | constantUint (value : UInt32)
  | constantFloat (bits : UInt32)
  | functionType (result : Id)
  | markBlock (struct : Id)
  | bind (id : Id) (key : Key) (name : String)
  | binding (id : Id)
  | rename (id : Id) (name : String)
  | load (pointer : Id)
  | store (pointer value : Id)
  | extract (base : Id) (index : UInt32)
  | extract2 (base : Id) (row col : UInt32)
  | access (base : Id) (index : UInt32)
  | construct (type : Ty) (parts : List Id)
  | math (function : MathFunction) (argument : Id)
  | narrowVec4 (value : Id)
  | narrowMat4 (value : Id)
  | binary (op : BinaryOperator) (left right : Id)

namespace Call

/-- Makes a call; what it returns is not kept. -/
def run : Call → Emit Unit
  | .typeId key => do let _ ← Emit.keyId key
  | .constantUint value => do let _ ← Emit.constantUint value
  | .constantFloat bits => do let _ ← Emit.constantFloat bits
  | .functionType result => do let _ ← Emit.functionType result
  | .markBlock struct => Emit.markBlock struct
  | .bind id key name => Emit.bind id key name
  | .binding id => do let _ ← Emit.binding id
  | .rename id name => Emit.rename id name
  | .load pointer => do let _ ← Emit.load pointer
  | .store pointer value => Emit.store pointer value
  | .extract base index => do let _ ← Emit.extract base index
  | .extract2 base row col => do let _ ← Emit.extract2 base row col
  | .access base index => do let _ ← Emit.access base index
  | .construct type parts => do let _ ← Emit.construct type parts
  | .math function argument => do let _ ← Emit.math function argument
  | .narrowVec4 value => do let _ ← Emit.narrowVec4 value
  | .narrowMat4 value => do let _ ← Emit.narrowMat4 value
  | .binary op left right => do let _ ← Emit.binary op left right

end Call

/-- The emission ends somewhere, with its result forgotten. -/
theorem endState_discard {α : Type} (x : Emit α) (s : Emitter) :
    endState ((do let _ ← x : Emit Unit) s) = endState (x s) := by
  rw [bind_apply]
  cases x s <;> rfl

namespace Emitter

/-- What a call makes of an emitter: it takes turns, none of them for a variable of the module, or
it records something about an id. -/
inductive Responds (κ : Kinds) (s : Emitter) : Call → Emitter → Prop
  | turns {call : Call} {pub : List (Section × Instruction)} {s' : Emitter} (h : s.Turns κ pub s')
      (hpub : ∀ e ∈ pub, e.1 ≠ .globals) : Responds κ s call s'
  | bind (id : Id) (key : Key) (name : String) :
      Responds κ s (.bind id key name) (s.record id key name)

variable {κ : Kinds} {s s' : Emitter} {call : Call}

/-- What turns keep is kept by every call, if it is kept when something is recorded. -/
theorem Responds.keep {P : Emitter → Prop} (h : s.Responds κ call s') (hs : P s)
    (hturn : ∀ s₁ s₂ pub, (∀ e ∈ pub, e.1 ≠ .globals) → P s₁ → Turn κ s₁ pub s₂ → P s₂)
    (hbind : ∀ id key name, call = .bind id key name → P (s.record id key name)) : P s' := by
  cases h with
  | turns h hpub =>
    refine h.induct hs fun s₁ s₂ pub' hsub => hturn s₁ s₂ pub' fun e he => ?_
    exact hpub e (hsub he)
  | bind id key name => exact hbind id key name rfl

end Emitter

/-! ## Calls -/

namespace Call

variable {κ : Kinds} {s : Emitter}

/-- The call is for a type, a constant, a block or a binding, and the type and the name that it asks
for are of the given kinds. -/
def Within (κ : Kinds) : Call → Prop
  | .typeId key => κ.key key
  | .constantUint _ | .constantFloat _ | .functionType _ | .markBlock _ => True
  | .bind _ _ _ | .binding _ => True
  | .rename _ name => κ.text name
  | _ => False

/-- An emission that does nothing in public. -/
theorem responds_of_acts {α : Type} {x : Emit α} {P : α → Emitter → Prop}
    {E : CompileError → Prop} (hx : Acts κ x s P E) (hs : s.Ready κ) (call : Call) :
    s.Responds κ call (endState ((do let _ ← x : Emit Unit) s)) := by
  rw [endState_discard]
  exact .turns (hx.turns hs) nofun

/-- A call for a type, a constant, a block or a binding needs nothing but kinds that have what comes
with types and constants. -/
theorem responds_of_within [Kinds.Grounded κ] (hforeign : κ.foreign) (hs : s.Ready κ) {call : Call}
    (h : call.Within κ) : s.Responds κ call (endState (call.run s)) := by
  cases call with
  | typeId key => exact responds_of_acts (Emit.keyId_acts h) hs _
  | constantUint value =>
    exact responds_of_acts (E := fun _ => True) (Emit.constantOf_acts .uint value) hs _
  | constantFloat bits =>
    exact responds_of_acts (E := fun _ => True) (Emit.constantOf_acts .float bits) hs _
  | functionType result =>
    exact responds_of_acts (E := fun _ => True) (Emit.functionType_acts (.inl hforeign)) hs _
  | markBlock struct =>
    rw [run, Emit.markBlock_apply]
    show s.Responds κ _ (s.mark struct)
    unfold Emitter.mark
    split
    · exact .turns .refl nofun
    · rename_i hunmarked
      exact .turns (.single (.block (.inl hforeign) hunmarked))
        (List.forall_mem_singleton.mpr nofun)
  | bind id key name => exact .bind id key name
  | binding id =>
    rw [run, endState_discard, Emit.binding_apply]
    cases s.bindings.lookup id with
    | some b => exact .turns .refl nofun
    | none => exact .turns .refl nofun
  | rename id name =>
    cases hb : s.bindings.lookup id with
    | some b =>
      rw [run, Emit.rename_apply hb]
      exact .turns (.single (.rename hforeign h hb)) (List.forall_mem_singleton.mpr nofun)
    | none =>
      have hrun := Emit.binding_apply id s
      rw [hb] at hrun
      rw [run, Emit.rename, bind_apply, hrun]
      exact .turns .refl nofun
  | _ => cases h

/-- Whatever it is asked for, an emitter responds in turns. -/
theorem responds (call : Call) (hopen : s.IsOpen) :
    s.Responds (.all True) call (endState (call.run s)) := by
  have hs := Emitter.ready_all hopen True
  cases call with
  | load pointer => exact responds_of_acts (Emit.load_acts fun _ _ _ _ => trivial) hs _
  | store pointer value => exact .turns ((Emit.store_acts pointer value).turns hs) nofun
  | extract base index => exact responds_of_acts (Emit.extract_acts base index) hs _
  | extract2 base row col => exact responds_of_acts (Emit.extract2_acts base row col) hs _
  | access base index => exact responds_of_acts (Emit.access_acts base index) hs _
  | construct type parts => exact responds_of_acts (Emit.construct_acts trivial parts) hs _
  | math function argument => exact responds_of_acts (Emit.math_acts function argument) hs _
  | narrowVec4 value => exact responds_of_acts (Emit.narrowVec4_acts value) hs _
  | narrowMat4 value => exact responds_of_acts (Emit.narrowMat4_acts value) hs _
  | binary op left right => exact responds_of_acts (Emit.binary_acts op left right) hs _
  | _ => exact responds_of_within trivial hs trivial

end Call

namespace Emitter

/-- The emitter after calls, those that failed included. -/
def after (s : Emitter) (calls : List Call) : Emitter :=
  calls.foldl (fun s call => endState (call.run s)) s

/-- What is kept by every call of a session holds after it. -/
theorem after_induct {P : Emitter → Prop} {C : Call → Prop} {s : Emitter} (hs : P s)
    {calls : List Call} (hcalls : ∀ call ∈ calls, C call)
    (hcall : ∀ s call, P s → C call → P (endState (call.run s))) : P (s.after calls) := by
  induction calls generalizing s with
  | nil => exact hs
  | cons call calls ih =>
    obtain ⟨hfirst, hrest⟩ := List.forall_mem_cons.mp hcalls
    exact ih (hcall s call hs hfirst) hrest

/-- What is kept by turns and when something is recorded holds after any calls. -/
theorem after_of_turns {P : Emitter → Prop} {s : Emitter} (hs : P s) (calls : List Call)
    (hopen : ∀ s, P s → s.IsOpen)
    (hturn : ∀ s₁ s₂ pub, (∀ e ∈ pub, e.1 ≠ .globals) → P s₁ → Turn (.all True) s₁ pub s₂ → P s₂)
    (hbind : ∀ s id key name, P s → P (s.record id key name)) : P (s.after calls) := by
  refine after_induct (C := fun _ => True) hs (fun _ _ => trivial) fun s call h _ => ?_
  exact (call.responds (hopen s h)).keep h hturn fun id key name _ => hbind s id key name h

end Emitter

end ShaderStage

import ShaderStage.Proofs.Uniqueness

/-! # The vectors that an emitter knows

A vector has two, three or four components. The type of any other vector is refused before anything
of it is recorded, and no value is recorded before its type was had. So whatever was asked of an
emitter, with success or without, the vectors among its types and its values are of these three
sizes.

* `Emitter.Turn.properVectors`: a turn records no other vectors;
* `Emitter.Reachable.properVectors`: nor does anything that an emitter is asked for. -/

namespace ShaderStage

/-- The type is no vector, or it is a vector of a size that there is. -/
def Ty.Proper (t : Ty) : Prop :=
  ∀ n, t = .vector n → 2 ≤ n ∧ n ≤ 4

theorem Ty.proper_of_ne {t : Ty} (h : ∀ n, t ≠ .vector n) : t.Proper :=
  fun n ht => absurd ht (h n)

/-- The size of a proper vector. -/
theorem Ty.Proper.of_vector {n : UInt8} (h : (vector n).Proper) : 2 ≤ n ∧ n ≤ 4 :=
  h n rfl

/-- Resolving names keeps sizes proper. -/
theorem Key.proper_normalize {k : Key} (h : k.type.Proper) : k.normalize.type.Proper := by
  obtain ⟨t, storage⟩ := k
  cases t with
  | vector n => exact h
  | _ => exact Ty.proper_of_ne nofun

/-- Only a vector has the signature of a vector. -/
theorem Key.type_eq_vector {k : Key} {n : UInt8} (h : k.signature = (Ty.vector n).signature) :
    k.type = .vector n := by
  have hkey : (Key.mk k.type k.storage).signature = (Key.mk (.vector n) .none).signature := h
  have hsig : k.type.signature = (Ty.vector n).signature := Key.signature_type_inj hkey
  have hnamed : k.type.Named CleanName :=
    Ty.Basic.named (t := .vector n) trivial (congrArg (·.toList ++ []) hsig) CleanName
  have hcanon : k.type.canon = .vector n :=
    Ty.canon_eq_of_signature hnamed (b := .vector n) trivial hsig
  cases ht : k.type with
  | vector m =>
    rw [ht] at hcanon
    exact hcanon
  | _ =>
    rw [ht] at hcanon
    cases hcanon

/-! ## Turns -/

namespace Emitter

variable {κ : Kinds} {s s' : Emitter} {k : Key} {id : Id} {pub : List (Section × Instruction)}

/-- Ids can be handed out, and all vectors among the types and the values that the emitter knows are
of sizes that there are. -/
structure ProperVectors (s : Emitter) : Prop where
  isOpen : s.IsOpen
  types : ∀ e ∈ s.types, ∀ n, e.1 = (Ty.vector n).signature → (Ty.vector n).Proper
  bindings : ∀ e ∈ s.bindings, e.2.key.type.Proper

theorem properVectors_start (v : Version) : (start v).ProperVectors where
  isOpen := rfl
  types := nofun
  bindings := nofun

/-- A vector is found only under its signature, which it was entered under. -/
theorem proper_of_typeOf?
    (hs : ∀ e ∈ s.types, ∀ n, e.1 = (Ty.vector n).signature → (Ty.vector n).Proper)
    (h : s.typeOf? k = some id) : k.type.Proper := by
  intro n hn
  have hsig : k.signature = (Ty.vector n).signature := by
    obtain ⟨t, storage⟩ := k
    cases hn
    rfl
  exact (hs _ (mem_of_lookup h) n hsig).of_vector

/-- A value that is known has a type of proper size. -/
theorem ProperVectors.of_lookup (hs : s.ProperVectors) {b : Binding}
    (h : s.bindings.lookup id = some b) : b.key.type.Proper :=
  hs.bindings _ (mem_of_lookup h)

/-- The type of any other vector is refused before it is entered. -/
theorem Enters.proper (h : s.Enters k id s') : k.type.Proper := by
  cases h with
  | simple houtline =>
    intro n hn
    have hcanon : k.canon = .value (.vector n) := by
      obtain ⟨t, storage⟩ := k
      cases hn
      rfl
    rw [hcanon] at houtline
    cases houtline with
    | vector hcount => exact hcount
  | matrix4 | sampledImage2D | struct => exact Ty.proper_of_ne nofun

/-- A turn enters no vector of another size, and records no value before its type is entered. -/
theorem Turn.properVectors [Kinds.Grounded κ] (h : Turn κ s pub s') (hs : s.ProperVectors) :
    s'.ProperVectors := by
  have htypes : ∀ e ∈ s'.types, ∀ n, e.1 = (Ty.vector n).signature → (Ty.vector n).Proper := by
    rcases h.types_cases with heq | ⟨key, id, s₁, -, henters, heq⟩
    · rw [heq]
      exact hs.types
    · rw [heq]
      refine List.forall_mem_cons.mpr ⟨fun n hn => ?_, hs.types⟩
      rw [← Key.type_eq_vector hn]
      exact henters.proper
  refine ⟨h.grows.closed.trans hs.isOpen, htypes, ?_⟩
  obtain ⟨new, heq, hnew⟩ := h.records
  rw [heq]
  refine List.forall_mem_append.mpr ⟨fun e he => ?_, hs.bindings⟩
  obtain ⟨-, ⟨k, T, -, hT, hkey⟩ | ⟨b, hb, hkey⟩⟩ := hnew e he
  · rw [hkey]
    exact Key.proper_normalize (proper_of_typeOf? htypes hT)
  · rw [hkey]
    exact hs.of_lookup hb

/-- Turns record no other vectors. -/
theorem Turns.properVectors [Kinds.Grounded κ] (h : s.Turns κ pub s') (hs : s.ProperVectors) :
    s'.ProperVectors :=
  h.induct hs fun _ _ _ _ hs hturn => hturn.properVectors hs

end Emitter

/-! ## Reachable emitters -/

/-- The call records no vector of a size that there is not. -/
def Call.Proper : Call → Prop
  | .bind _ key _ => key.type.Proper
  | _ => True

namespace Emitter

/-- The emitters that a compilation comes by: a new one, those at the places of method bodies, and
whatever becomes of them when they are asked for more, with success or without. The calls are
`Call.Proper`: any call at all, as long as no id is recorded as a vector of a size that there
is not. -/
inductive Reachable : Emitter → Prop
  | start (v : Version) : Reachable (.start v)
  | place {p : Program} {o : Options} {before after : List Method} {m : Method}
      (hmethods : p.methods = before ++ m :: after) {done rest : List Operation}
      (hbody : m.body = done ++ rest) {progress : Progress} {c : Compilation}
      (h : p.emitTo o before m done { emitter := .start o.moduleVersion } = .ok progress c) :
      Reachable c.emitter
  | call {s : Emitter} (hs : Reachable s) {call : Call} (h : call.Proper) :
      Reachable (endState (call.run s))

/-- All vectors that a reachable emitter knows are of sizes that there are. -/
theorem Reachable.properVectors {s : Emitter} (hs : s.Reachable) : s.ProperVectors := by
  induction hs with
  | start v => exact properVectors_start v
  | @place p o before after m _ done rest _ progress c h =>
    have hruns := p.emitTo_runs o before m done False (ready_all (s := .start _) rfl False)
    obtain ⟨⟨pub, hturns⟩, -⟩ := hruns.of_ok h
    exact hturns.properVectors (properVectors_start _)
  | @call s _ call h ih =>
    refine (call.responds ih.isOpen).keep ih (fun _ _ _ _ hs hturn => hturn.properVectors hs) ?_
    rintro id key name rfl
    exact ⟨ih.isOpen, ih.types,
      List.forall_mem_cons.mpr ⟨Key.proper_normalize h, ih.bindings⟩⟩

end Emitter

end ShaderStage

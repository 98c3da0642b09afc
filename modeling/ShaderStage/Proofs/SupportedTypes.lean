import ShaderStage.Proofs.Interning
import ShaderStage.Proofs.Sessions

/-! # Supported types

Which types can be had does not depend on what was asked for before. A new type is emitted, or
refused, by a look at the type alone. A known one is found by its signature, and with clean names no
two types share a signature unless both are supported or neither is. A type that was refused stays
unknown, whatever was emitted before it was refused.

* `Emitter.Turn.tidy`: only supported types become known;
* `keyId_ok_iff_supported`: which types can be had, after any calls. -/

namespace ShaderStage

/-! ## Types with the same signature -/

mutual

@[simp] theorem Ty.supported_canon : ∀ t : Ty, t.canon.Supported ↔ t.Supported
  | .array elem length => by simp only [Ty.canon, Ty.Supported, Ty.supported_canon elem]
  | .pointer elem => by simp only [Ty.canon, Ty.Supported, Ty.supported_canon elem]
  | .struct name members => by
    simp only [Ty.canon, Ty.Supported, Members.supported_canon members]
  | .char => by simp [Ty.canon, Ty.Supported, IntTy.Supported]
  | .unset | .enum _ _ | .bool | .int _ | .float _ | .vector _ | .matrix4
  | .sampledImage2D | .void | .string | .dateTime | .null => Iff.rfl

@[simp] theorem Members.supported_canon : ∀ members : Members,
    members.canon.Supported ↔ members.Supported
  | .nil => Iff.rfl
  | .cons name type rest => by
    simp only [Members.canon, Members.Supported, Ty.supported_canon type, Ty.sized_canon type,
      Members.supported_canon rest]

end

/-- Keys with the same signature and clean names name supported types, or neither does. -/
theorem Key.supported_iff_of_signature {a b : Key} (ha : a.type.Named CleanName)
    (hb : b.type.Named CleanName) (h : a.signature = b.signature) :
    a.type.Supported ↔ b.type.Supported := by
  have hcanon : a.normalize.type.canon = b.normalize.type.canon :=
    congrArg Key.type (canon_eq_of_signature ha hb h)
  rw [← a.supported_normalize, ← a.normalize.type.supported_canon, hcanon,
    b.normalize.type.supported_canon, b.supported_normalize]

/-- Members are supported if their types are and all have sizes. -/
theorem Members.supported_iff (members : Members) :
    members.Supported ↔ (∀ member ∈ members.toList, member.2.Supported) ∧ members.Sized := by
  induction members using Members.toList.induct with
  | case1 => simp [Members.Supported, Members.toList, Members.Sized]
  | case2 name type rest ih =>
    rw [Members.Supported, Members.toList, List.forall_mem_cons, Members.Sized, ih]
    constructor
    · rintro ⟨htype, hsized, hrest, hsizes⟩
      exact ⟨⟨htype, hrest⟩, hsized, hsizes⟩
    · rintro ⟨⟨htype, hrest⟩, hsized, hsizes⟩
      exact ⟨htype, hsized, hrest, hsizes⟩

/-! ## Known types -/

namespace Emitter

variable {κ : Kinds} {s s' : Emitter} {k : Key} {id : Id} {pub : List (Section × Instruction)}

/-- Every type that is known is a supported one with clean names. -/
def Tidy (s : Emitter) : Prop :=
  ∀ sig id, s.types.lookup sig = some id →
    ∃ k : Key, k.signature = sig ∧ k.type.Named CleanName ∧ k.type.Supported

theorem tidy_start (version : Version) : (start version).Tidy := nofun

/-- A type that is found under a signature is supported. -/
theorem Tidy.supported (hs : s.Tidy) (hk : k.type.Named CleanName) (h : s.typeOf? k = some id) :
    k.type.Supported := by
  obtain ⟨k', hsig, hnamed, hsupported⟩ := hs _ id h
  exact (Key.supported_iff_of_signature hnamed hk hsig).mp hsupported

/-- Members of known types are supported. -/
theorem Tidy.supported_members (hs : s.Tidy) {members : Members} {ids : List Id}
    (hnamed : members.Named CleanName) (h : s.MemberTypes members ids) :
    ∀ member ∈ members.toList, member.2.Supported := by
  induction members using Members.toList.induct generalizing ids with
  | case1 => nofun
  | case2 name type rest ih =>
    obtain ⟨-, htype, hrest⟩ := hnamed
    obtain ⟨id, ids', -, hid, hids⟩ := h
    exact List.forall_mem_cons.mpr ⟨hs.supported htype hid, ih hrest hids⟩

/-- A type is defined only if its parts are known and it is supported itself. -/
theorem Outline.supported (hs : s.Tidy) (hk : k.type.Named CleanName) {op : Opcode}
    {operands : List Word} (h : s.Outline k op operands) : k.type.Supported := by
  cases h with
  | void | bool => trivial
  | int hwidth => exact hwidth
  | float hwidth => exact hwidth
  | vector hcount => exact hcount
  | array hlength he => exact ⟨hlength, hs.supported (k := .value _) hk he⟩
  | @pointer elem storage p hp => exact hs.supported (k := ⟨elem, storage⟩) hk hp

theorem Enters.supported (hs : s.Tidy) (hk : k.type.Named CleanName) (h : s.Enters k id s') :
    k.type.Supported := by
  cases h with
  | simple h =>
    have hnamed : k.canon.type.Named CleanName := by
      rw [Key.canon, Ty.named_canon, Key.named_normalize]
      exact hk
    have hsupported := h.supported hs hnamed
    rwa [Key.canon, Ty.supported_canon, Key.supported_normalize] at hsupported
  | matrix4 | sampledImage2D => trivial
  | @struct name members storage ids hsized hids =>
    exact members.supported_iff.mpr ⟨hs.supported_members hk.2 hids, hsized⟩

/-- A turn enters only types that are supported. -/
theorem Turn.tidy (hκ : ∀ k, κ.key k → k.type.Named CleanName) (h : Turn κ s pub s')
    (hs : s.Tidy) : s'.Tidy := by
  intro sig id hid
  rcases h.types_cases with heq | ⟨key, id', s₁, hkey, henters, heq⟩
  · rw [heq] at hid
    exact hs sig id hid
  · rw [heq, lookup_cons_eq_ite] at hid
    split at hid
    · rename_i hsig
      exact ⟨key, hsig.symm, hκ key hkey, henters.supported hs (hκ key hkey)⟩
    · exact hs sig id hid

end Emitter

/-! ## Calls -/

/-- Types with clean names, and whatever else an emitter is told. -/
abbrev Kinds.clean : Kinds :=
  ⟨fun k => k.type.Named CleanName, fun _ => True, fun _ => True, fun _ => True, True⟩

/-- The call is for a type, a constant, a block or a binding; types are asked for with clean names.
-/
def Call.Interns : Call → Prop
  | .typeId key => key.type.Named CleanName
  | .constantUint _ | .constantFloat _ | .functionType _ | .markBlock _ => True
  | .bind _ _ _ | .binding _ | .rename _ _ => True
  | _ => False

/-- Calls that ask for types with clean names stay within them. -/
theorem Call.Interns.within {call : Call} (h : call.Interns) : call.Within .clean := by
  cases call with
  | typeId key => exact h
  | constantUint | constantFloat | functionType | markBlock | bind | binding | rename => trivial
  | _ => cases h

/-- Calls that succeed and calls that fail leave the emitter tidy. -/
theorem Emitter.tidy_after (version : Version) {calls : List Call}
    (hcalls : ∀ call ∈ calls, call.Interns) :
    ((start version).after calls).Tidy ∧ ((start version).after calls).IsOpen := by
  have hready {s : Emitter} (hopen : s.IsOpen) : s.Ready .clean :=
    ⟨hopen, fun _ => ⟨trivial, trivial⟩⟩
  refine after_induct (P := fun s => s.Tidy ∧ s.IsOpen) ⟨tidy_start version, rfl⟩ hcalls ?_
  rintro s call ⟨hs, hopen⟩ hcall
  refine (call.responds_of_within trivial (hready hopen) hcall.within).keep (P := fun s =>
    s.Tidy ∧ s.IsOpen) ⟨hs, hopen⟩ ?_ fun _ _ _ _ => ⟨hs, hopen⟩
  rintro s₁ s₂ pub - ⟨hs₁, hopen₁⟩ hturn
  exact ⟨hturn.tidy (fun _ h => h) hs₁, hturn.grows.closed.trans hopen₁⟩

/-- After any calls, those that failed included, a type can be had exactly if it is supported. If it
cannot, it is refused as one that is not supported. -/
theorem keyId_ok_iff_supported (version : Version) (calls : List Call) (key : Key)
    (hcalls : ∀ call ∈ calls, call.Interns) (hkey : key.type.Named CleanName) :
    ((∃ id s', Emit.keyId key ((Emitter.start version).after calls) = .ok id s') ↔
        key.type.Supported) ∧
      ∀ failure s', Emit.keyId key ((Emitter.start version).after calls) = .error failure s' →
        ∃ e, failure = .refused e ∧ e.kind = .unsupportedType := by
  obtain ⟨hs, hopen⟩ := Emitter.tidy_after version hcalls
  have hacts := Emit.keyId_acts (κ := .clean) hkey ⟨hopen, fun _ => ⟨trivial, trivial⟩⟩
  refine ⟨⟨?_, ?_⟩, ?_⟩
  · rintro ⟨id, s', hrun⟩
    obtain ⟨hturns, -, hid⟩ := hacts.of_ok hrun
    have hs' : s'.Tidy := hturns.induct hs fun _ _ _ _ h hturn => hturn.tidy (fun _ h => h) h
    exact hs'.supported hkey hid
  · intro hsupported
    cases hrun : Emit.keyId key ((Emitter.start version).after calls) with
    | ok id s' => exact ⟨id, s', rfl⟩
    | error failure s' =>
      obtain ⟨-, hrefused⟩ := hacts.of_error hrun
      cases failure with
      | refused e => exact absurd hsupported hrefused.2
      | fault fault => cases hrefused
  · intro failure s' hrun
    obtain ⟨-, hrefused⟩ := hacts.of_error hrun
    cases failure with
    | refused e => exact ⟨e, rfl, hrefused.1⟩
    | fault fault => cases hrefused

/-- A structure with a pointer in it is refused again, after other calls, some of which failed; an
array of a structure that shares a member with it can be had. -/
theorem keyId_ok_iff_supported_mixed :
    let shade : Ty := .struct "Shade" (.cons "colour" .vec3 .nil)
    let mixed : Ty := .struct "Mixed" (.cons "colour" .vec3 (.cons "link" (.pointer .float32) .nil))
    let calls : List Call := [.typeId (.value mixed), .binding 99, .typeId (.value shade)]
    let s := (Emitter.start ⟨1, 2⟩).after calls
    (∀ call ∈ calls, call.Interns) ∧
      (∃ id s', Emit.keyId (.pointer (.array shade 4) .uniform) s = .ok id s') ∧
      ∃ e s', Emit.keyId (.value mixed) s = .error (.refused e) s' ∧ e.kind = .unsupportedType := by
  intro shade mixed calls s
  have hshade : shade.Named CleanName := ⟨by decide, by decide, trivial, trivial⟩
  have hmixed : mixed.Named CleanName :=
    ⟨by decide, by decide, trivial, by decide, trivial, trivial⟩
  have hcalls : ∀ call ∈ calls, call.Interns := by
    simp only [calls, List.forall_mem_cons]
    exact ⟨hmixed, trivial, hshade, by simp⟩
  obtain ⟨harray, -⟩ :=
    keyId_ok_iff_supported ⟨1, 2⟩ calls (.pointer (.array shade 4) .uniform) hcalls hshade
  obtain ⟨hlink, hrefused⟩ := keyId_ok_iff_supported ⟨1, 2⟩ calls (.value mixed) hcalls hmixed
  refine ⟨hcalls, harray.mpr ⟨by decide, ⟨by decide, by decide⟩, trivial, trivial⟩, ?_⟩
  cases hrun : Emit.keyId (.value mixed) s with
  | ok id s' =>
    -- The pointer has no size.
    obtain ⟨-, -, -, hsized, -⟩ := hlink.mp ⟨id, s', hrun⟩
    cases hsized
  | error failure s' =>
    obtain ⟨e, rfl, hkind⟩ := hrefused failure s' hrun
    exact ⟨e, s', rfl, hkind⟩

end ShaderStage

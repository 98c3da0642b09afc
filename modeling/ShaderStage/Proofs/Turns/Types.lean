import ShaderStage.Proofs.Turns

/-! # Types and constants in turns

Asking for a type or a constant takes turns: first those that enter what the definition needs, then
the one that enters it. What a definition needs has a shorter signature, so the last turn finds its
own entry still free. Types succeed exactly if they are supported (`Emit.typeId_acts`), and
constants always do (`Emit.constantOf_acts`). -/

namespace ShaderStage

namespace Emit

variable {κ : Kinds} {s : Emitter} {E : CompileError → Prop}

/-! ## What steps make of an emitter -/

theorem capability_apply (c : Capability) (s : Emitter) :
    capability c s = .ok () (s.declare c) := by
  unfold capability Emitter.declare
  rw [bind_apply, get_apply]
  dsimp only
  split <;> rfl

theorem defineInt_apply (hopen : s.IsOpen) {t : IntTy} (ht : t.Supported) :
    defineInt t s = .ok s.nextId ((s.prepare (.value (.int t))).define .globals
      ⟨.typeInt, [s.nextId, t.width.toUInt32, if t.signed then 1 else 0]⟩) := by
  have hremarks := s.remarks_prepare (.value (.int t))
  obtain ⟨width, signed⟩ := t
  have htype : typeInt width.toUInt32 signed (s.prepare (.value (.int ⟨width, signed⟩))) = _ :=
    result_apply (hremarks.keeps.draft.closed.trans hopen) _ _ _
  rw [hremarks.nextId_eq] at htype
  rw [← htype]
  unfold defineInt
  rcases ht with rfl | rfl | rfl | rfl
  · exact bind_of_eq_ok (capability_apply _ s)
  · exact bind_of_eq_ok (capability_apply _ s)
  · rfl
  · exact bind_of_eq_ok (capability_apply _ s)

theorem defineInt_refuse {t : IntTy} (ht : ¬ t.Supported) (s : Emitter) :
    defineInt t s = .error (.refused (.integerWidth t.width)) s := by
  simp only [IntTy.Supported, not_or] at ht
  obtain ⟨h8, h16, h32, h64⟩ := ht
  unfold defineInt
  rw [if_neg h8, if_neg h16, if_neg h32, if_neg h64]
  rfl

theorem defineFloat_apply (hopen : s.IsOpen) {width : UInt8} (hw : (Ty.float width).Supported) :
    defineFloat width s = .ok s.nextId ((s.prepare (.value (.float width))).define .globals
      ⟨.typeFloat, [s.nextId, width.toUInt32]⟩) := by
  have hremarks := s.remarks_prepare (.value (.float width))
  have htype : typeFloat width.toUInt32 (s.prepare (.value (.float width))) = _ :=
    result_apply (hremarks.keeps.draft.closed.trans hopen) _ _ _
  rw [hremarks.nextId_eq] at htype
  rw [← htype]
  unfold defineFloat
  rcases hw with rfl | rfl | rfl | rfl
  · exact bind_of_eq_ok (capability_apply _ s)
  · rfl
  · exact bind_of_eq_ok (capability_apply _ s)
  · rfl

theorem defineFloat_refuse {width : UInt8} (hw : ¬ (Ty.float width).Supported) (s : Emitter) :
    defineFloat width s = .error (.refused (.floatWidth width)) s := by
  simp only [Ty.Supported, not_or] at hw
  obtain ⟨h16, h32, h64, h128⟩ := hw
  unfold defineFloat
  rw [if_neg h16, if_neg (not_or.mpr ⟨h32, h128⟩), if_neg h64]
  rfl

/-- The layout of members is as far as it goes, and it goes to the end if they all have sizes. -/
theorem layoutMembers_concludes (struct : Id) (members : Members) (index : Word) (offset : UInt32)
    (s : Emitter) :
    Concludes (layoutMembers struct index offset members) s
      (fun _ s' => s' = s.layOut struct index offset members ∧ members.Sized)
      fun e s' => s' = s.layOut struct index offset members ∧
        e.Is fun e => e.kind = .unsupportedType ∧ ¬ members.Sized := by
  induction members using Members.toList.induct generalizing s index offset with
  | case1 => exact .of_eq_ok rfl ⟨rfl, trivial⟩
  | case2 member type rest ih =>
    have hrest : Concludes (layoutRest struct index offset type rest)
        (s.place struct index offset member)
        (fun _ s' => s' = s.layOut struct index offset (.cons member type rest) ∧
          (Members.cons member type rest).Sized)
        fun e s' => s' = s.layOut struct index offset (.cons member type rest) ∧
          e.Is fun e => e.kind = .unsupportedType ∧ ¬ (Members.cons member type rest).Sized := by
      unfold layoutRest Emitter.layOut
      cases hsize : type.naturalSize with
      | error part =>
        refine .of_eq_error rfl ⟨rfl, rfl, fun hsized => ?_⟩
        obtain ⟨size, hok⟩ := type.sized_iff.mp hsized.1
        rw [hsize] at hok
        cases hok
      | ok size =>
        have htype : type.Sized := type.sized_iff.mpr ⟨size, hsize⟩
        refine (ih (index + 1) (offset + size) _).mono ?_ ?_
        · exact fun _ s' h => ⟨h.1, htype, h.2⟩
        · exact fun e s' h => ⟨h.1, h.2.mono fun e he => ⟨he.1, fun hsized => he.2 hsized.2⟩⟩
    rw [layoutMembers_cons]
    refine .step rfl ?_
    unfold Emitter.place at hrest
    by_cases hname : member = ""
    · rw [if_pos hname] at hrest ⊢
      exact hrest
    · rw [if_neg hname] at hrest ⊢
      exact .step rfl hrest

/-! ## Interning -/

/-- A type that one instruction defines. -/
theorem result_outlines {op : Opcode} {operands : List Word} {k : Key} {P : Emitter → Prop}
    (hprepare : s.prepare k.canon = s) (h : s.Outline k.canon op operands) (hP : P s) :
    Outlines κ (result .globals op operands) s k P E := by
  intro hs
  have henters := Emitter.Enters.simple h
  rw [hprepare] at henters
  exact .of_eq_ok (result_apply hs.isOpen _ _ _) ⟨s, .refl, hP, henters⟩

/-- Interning enters the type whose definition it emits. The definition must not enter the type
itself. -/
theorem intern_acts {key : Key} (hkey : κ.key key) {R : Emitter → Prop} (hR : R s)
    (hcache : ∀ s₁ s₂ id, R s₁ → s₁.Enters key id s₂ → R (s₂.cache key id)) {x : Emit Id}
    (hx : s.typeOf? key = none →
      Outlines κ x s key (fun s₁ => R s₁ ∧ s₁.typeOf? key = none) E) :
    Acts κ (intern key x) s (fun id s' => R s' ∧ s'.typeOf? key = some id) E := by
  intro hs
  cases hfound : s.types.lookup key.signature with
  | some id => exact .of_eq_ok (intern_apply_of_some hfound x) ⟨.refl, hR, hfound⟩
  | none =>
    have hrun := intern_apply_of_none hfound x
    have hx := hx hfound hs
    cases hdef : x s with
    | ok id s' =>
      obtain ⟨s₁, hturns, ⟨hR₁, hunknown⟩, henters⟩ := hx.of_ok hdef
      rw [hdef] at hrun
      exact .of_eq_ok hrun ⟨hturns.silent (.single (.type hkey hunknown henters)),
        hcache s₁ s' id hR₁ henters, List.lookup_cons_self⟩
    | error e s' =>
      rw [hdef] at hrun
      exact .of_eq_error hrun (hx.of_error hdef)

/-- Interning a type whose definition needs types with other signatures. -/
theorem intern_composite_acts {key : Key} (hkey : κ.key key) {P Q : String → Prop}
    (hP : ¬ P key.signature) (hPQ : ∀ sig, P sig → Q sig) (hQ : Q key.signature) {x : Emit Id}
    (hx : Outlines κ x s key (s.Interns P) E) :
    Acts κ (intern key x) s (fun id s' => s.Interns Q s' ∧ s'.typeOf? key = some id) E := by
  refine intern_acts hkey (.refl s) (fun _ _ _ h henters => h.enter henters hQ) fun hnone => ?_
  exact hx.mono (fun s₁ h => ⟨h.mono hPQ, (h.types hP).trans hnone⟩) fun _ h => h

/-- Interning a type whose definition needs shorter signatures only. -/
theorem intern_longer_acts {key : Key} (hkey : κ.key key) {x : Emit Id}
    (hx : Outlines κ x s key
      (s.Interns fun sig => sig.length < key.signature.length) E) :
    Acts κ (intern key x) s
      (fun id s' => s.Interns key.Covers s' ∧ s'.typeOf? key = some id) E := by
  refine intern_composite_acts hkey (Nat.lt_irrefl _) ?_ (Nat.le_max_right _ _) hx
  exact fun sig h => Nat.le_trans (Nat.le_of_lt h) (Nat.le_max_right _ _)

/-! ## Types -/

/-- An integer type is one instruction. -/
theorem defineInt_outlines {k : Key} {t : IntTy} (hk : k.canon = .value (.int t))
    {P : Emitter → Prop} (hP : P s) :
    Outlines κ (defineInt t) s k P fun e => e.kind = .unsupportedType ∧ ¬ t.Supported := by
  intro hs
  by_cases ht : t.Supported
  · refine .of_eq_ok (defineInt_apply hs.isOpen ht) ⟨s, .refl, hP, ?_⟩
    rw [← hk]
    exact .simple (hk ▸ .int ht)
  · exact .of_eq_error (defineInt_refuse ht s) ⟨.refl, rfl, ht⟩

/-- A float type is one instruction. -/
theorem defineFloat_outlines {width : UInt8} {storage : StorageClass} {P : Emitter → Prop}
    (hP : P s) :
    Outlines κ (defineFloat width) s ⟨.float width, storage⟩ P
      fun e => e.kind = .unsupportedType ∧ ¬ (Ty.float width).Supported := by
  intro hs
  by_cases ht : (Ty.float width).Supported
  · exact .of_eq_ok (defineFloat_apply hs.isOpen ht) ⟨s, .refl, hP, .simple (.float ht)⟩
  · exact .of_eq_error (defineFloat_refuse ht s) ⟨.refl, rfl, ht⟩

section

variable [Kinds.Grounded κ]

/-- The type of the constants in a pool is entered by itself. -/
theorem poolTypeId_acts (pool : Pool) :
    Acts κ (poolTypeId pool) s
      (fun id s' => (s.Interns (· = (Key.value pool.type).signature) s' ∧
        s'.constants pool = s.constants pool) ∧ s'.typeOf? (.value pool.type) = some id) E := by
  have hcache : ∀ s₁ s₂ id, (s.Interns (· = (Key.value pool.type).signature) s₁ ∧
      s₁.constants pool = s.constants pool) → s₁.Enters (.value pool.type) id s₂ →
      s.Interns (· = (Key.value pool.type).signature) (s₂.cache (.value pool.type) id) ∧
        (s₂.cache (.value pool.type) id).constants pool = s.constants pool := by
    intro s₁ s₂ id h henters
    refine ⟨h.1.enter henters rfl, ?_⟩
    rw [← h.2, ← henters.constants]
    cases pool <;> rfl
  cases pool with
  | uint =>
    refine intern_acts (KeyKind.basic (t := .uint32) trivial) ⟨.refl s, rfl⟩ hcache fun hnone => ?_
    refine (defineInt_outlines rfl ⟨⟨.refl s, rfl⟩, hnone⟩).mono (fun _ h => h) fun e h => ?_
    exact absurd (.inr (.inr (.inl rfl))) h.2
  | float =>
    refine intern_acts (KeyKind.basic (t := .float32) trivial) ⟨.refl s, rfl⟩ hcache fun hnone => ?_
    refine (defineFloat_outlines ⟨⟨.refl s, rfl⟩, hnone⟩).mono (fun _ h => h) fun e h => ?_
    exact absurd (.inr (.inl rfl)) h.2

/-- The float type can always be had. -/
theorem float32Id_acts :
    Acts κ float32Id s
      (fun id s' => s.Interns (· = "f32") s' ∧ s'.typeOf? (.value .float32) = some id) E :=
  (poolTypeId_acts .float).mono (fun _ _ _ h => ⟨h.1.1, h.2⟩) fun _ h => h

/-- A vector type is one instruction, once there are floats. -/
theorem defineVector_outlines {count : UInt8} {storage : StorageClass} :
    Outlines κ (defineVector count) s ⟨.vector count, storage⟩ (s.Interns (· = "f32"))
      fun e => e.kind = .unsupportedType ∧ ¬ (Ty.vector count).Supported := by
  unfold defineVector
  dsimp only
  by_cases hcount : count < 2 ∨ 4 < count
  · rw [if_pos hcount]
    refine .refuse_bind ⟨rfl, ?_⟩
    simp only [Ty.Supported, not_and, UInt8.not_le]
    intro htwo
    rcases hcount with hlow | hhigh
    · exact absurd htwo (UInt8.not_le.mpr hlow)
    · exact hhigh
  rw [if_neg hcount]
  rw [not_or, UInt8.not_lt, UInt8.not_lt] at hcount
  refine float32Id_acts.outline ?_
  rintro component s₁ - ⟨hinterns, hcomponent⟩
  exact result_outlines rfl (.vector hcount hcomponent) hinterns

/-- The vector of four can always be had. -/
theorem vec4Id_acts :
    Acts κ vec4Id s
      (fun id s' => s.Interns (fun sig => sig = "f32" ∨ sig = "vec4") s' ∧
        s'.typeOf? (.value .vec4) = some id) E := by
  refine intern_composite_acts (KeyKind.basic (t := .vec4) trivial) (by decide) (fun _ => .inl)
    (.inr rfl) (defineVector_outlines.mono (fun _ h => h) fun e h => ?_)
  exact absurd ⟨by decide, by decide⟩ h.2

/-- The matrix type is entered once there are vectors of four. -/
theorem defineMatrix4_outlines {storage : StorageClass} :
    Outlines κ defineMatrix4 s ⟨.matrix4, storage⟩
      (s.Interns fun sig => sig = "f32" ∨ sig = "vec4") E := by
  unfold defineMatrix4
  refine vec4Id_acts.outline ?_
  rintro column s₁ - ⟨hinterns, hcolumn⟩ hs₁
  refine .step (result_apply hs₁.isOpen _ _ _) ?_
  exact .of_eq_ok rfl ⟨s₁, .refl, hinterns, .matrix4 hcolumn⟩

/-- The image type is entered once there are floats. -/
theorem defineSampledImage2D_outlines {storage : StorageClass} :
    Outlines κ defineSampledImage2D s ⟨.sampledImage2D, storage⟩ (s.Interns (· = "f32")) E := by
  unfold defineSampledImage2D
  refine float32Id_acts.outline ?_
  rintro sampled s₁ - ⟨hinterns, hsampled⟩ hs₁
  refine .step (result_apply hs₁.isOpen _ _ _) ?_
  generalize hs₂ : s₁.define .globals
    ⟨.typeImage, [s₁.nextId, sampled, dimension2D, 0, 0, 0, 1, 0]⟩ = s₂
  have hopen₂ : s₂.IsOpen := by
    rw [← hs₂]
    exact hs₁.isOpen
  exact .of_eq_ok (result_apply hopen₂ _ _ _)
    ⟨s₁, .refl, hinterns, .sampledImage2D hsampled hs₂.symm⟩

/-! ## Constants -/

/-- A constant is found or entered. -/
theorem constantOf_acts (pool : Pool) (bits : Word) :
    Acts κ (constantOf pool bits) s
      (fun id s' => s.Interns (· = (Key.value pool.type).signature) s' ∧
        (s'.constants pool).lookup bits = some id) E := by
  intro hs
  unfold constantOf
  refine .get ?_
  cases hfound : (s.constants pool).lookup bits with
  | some id => exact ⟨.refl, .refl s, hfound⟩
  | none =>
    refine (poolTypeId_acts pool).bind ?_ hs
    rintro T s₁ - ⟨⟨hinterns, hconstants⟩, hT⟩ hs₁
    rw [← hconstants] at hfound
    have hnew : ((s₁.newConstant T pool bits).constants pool).lookup bits = some s₁.nextId := by
      rw [s₁.constants_newConstant]
      exact List.lookup_cons_self
    exact .step (typedResult_apply hs₁.isOpen _ _ _ _) (.of_eq_ok rfl
      ⟨.single (.constant hT hfound), hinterns.trans (s₁.interns_newConstant T pool bits), hnew⟩)

end

/-! ## Composite types -/

/-- A structure type whose members are known. If its layout fails, it stays out of the table. -/
theorem typeStruct_outlines {name : String} {members : Members} {storage : StorageClass}
    (hkey : κ.key ⟨.struct name members, storage⟩) {ids : List Id}
    (hids : s.MemberTypes members ids) {P : Emitter → Prop} (hP : P s) :
    Outlines κ (do
      let id ← typeStruct ids
      unless name = "" do Emit.name id name
      layoutMembers id 0 0 members
      return id) s ⟨.struct name members, storage⟩ P
      fun e => e.kind = .unsupportedType ∧ ¬ members.Sized := by
  intro hs
  have hlayout : Concludes (do layoutMembers s.nextId 0 0 members; return s.nextId : Emit Id)
      ((s.define .globals ⟨.typeStruct, s.nextId :: ids⟩).title s.nextId name)
      (fun id s' => ∃ s₁, s.Turns κ [] s₁ ∧ P s₁ ∧ s₁.Enters ⟨.struct name members, storage⟩ id s')
      fun e s' => s.Turns κ [] s' ∧
        e.Is fun e => e.kind = .unsupportedType ∧ ¬ members.Sized := by
    refine (Concludes.mono (layoutMembers_concludes s.nextId members 0 0 _) (fun _ _ h => h)
      ?_).bind ?_
    · rintro e _ ⟨rfl, he⟩
      exact ⟨.single (.note (.abandoned hkey hids)), he⟩
    -- Only now is it known that the structure has a layout, and the type is entered.
    · rintro _ _ ⟨rfl, hsized⟩
      exact .of_eq_ok rfl ⟨s, .refl, hP, .struct hsized hids⟩
  refine .step (result_apply hs.isOpen _ _ _) ?_
  unfold Emitter.title at hlayout
  by_cases hname : name = ""
  · rw [if_pos hname] at hlayout ⊢
    exact hlayout
  · rw [if_neg hname] at hlayout ⊢
    exact .step rfl hlayout

mutual

/-- Asking for a type succeeds if the type is supported; then the type is in the table. -/
theorem typeId_acts [Kinds.Grounded κ] (t : Ty) {storage : StorageClass} (hkey : κ.key ⟨t, storage⟩)
    (s : Emitter) :
    Acts κ (typeId t storage) s
      (fun id s' => s.Interns (Key.mk t storage).Covers s' ∧ s'.typeOf? ⟨t, storage⟩ = some id)
      fun e => e.kind = .unsupportedType ∧ ¬ t.Supported := by
  -- By recursion on the type. The text of a type is longer than those of its parts, so making them
  -- cannot intern the type itself.
  rw [typeId.eq_def]
  cases t with
  | bool => exact intern_longer_acts hkey (result_outlines rfl .bool (.refl s))
  | void => exact intern_longer_acts hkey (result_outlines rfl .void (.refl s))
  | unset => exact intern_longer_acts hkey (result_outlines rfl .void (.refl s))
  | int type => exact intern_longer_acts hkey (defineInt_outlines rfl (.refl s))
  | enum name underlying => exact intern_longer_acts hkey (defineInt_outlines rfl (.refl s))
  | char =>
    refine intern_longer_acts hkey ((defineInt_outlines rfl (.refl s)).mono (fun _ h => h) ?_)
    exact fun e h => absurd (.inl rfl) h.2
  | float width => exact intern_longer_acts hkey (defineFloat_outlines (.refl s))
  | string => exact intern_longer_acts hkey (.refuse ⟨rfl, id⟩)
  | dateTime => exact intern_longer_acts hkey (.refuse ⟨rfl, id⟩)
  | null => exact intern_longer_acts hkey (.refuse ⟨rfl, id⟩)
  | vector count =>
    refine intern_composite_acts hkey ?_ ?_ (Nat.le_max_right _ _) defineVector_outlines
    · intro h
      have htext := congrArg String.toList h
      simp [Key.signature, Key.normalize, Ty.underlying, Ty.signature,
        String.toList_append] at htext
    · rintro sig rfl
      exact Nat.le_trans (by decide) (Nat.le_max_left _ _)
  | matrix4 =>
    have hother : ¬ ("mat4" = "f32" ∨ "mat4" = "vec4") := by decide
    refine intern_composite_acts hkey hother ?_ (Nat.le_max_right _ _) defineMatrix4_outlines
    rintro sig (rfl | rfl)
    · exact Nat.le_trans (by decide) (Nat.le_max_left _ _)
    · exact Nat.le_max_left _ _
  | sampledImage2D =>
    have hother : ¬ "sampled_image2d" = "f32" := by decide
    refine intern_composite_acts hkey hother ?_ (Nat.le_max_right _ _) defineSampledImage2D_outlines
    rintro sig rfl
    exact Nat.le_trans (by decide) (Nat.le_max_left _ _)
  | array elem length =>
    refine intern_longer_acts hkey ?_
    dsimp only
    by_cases hlength : length = 0
    · rw [if_pos hlength]
      exact .refuse_bind ⟨rfl, fun h => h.1 hlength⟩
    rw [if_neg hlength]
    have hlong := Key.length_signature_array elem length storage
    refine ((typeId_acts elem (KeyKind.elem hkey) s).refusing ?_).outline ?_
    · exact fun e h => ⟨h.1, fun hsupported => h.2 hsupported.2⟩
    rintro e s₁ - ⟨hinterns₁, he⟩
    refine (constantOf_acts .uint length).outline ?_
    rintro l s₂ hturns ⟨hinterns₂, hl⟩
    refine result_outlines rfl (.array hlength ?_ hl)
      ((hinterns₁.mono ?_).trans (hinterns₂.mono ?_))
    · rw [Key.value, Emitter.typeOf?_canon]
      exact hturns.keeps.types he
    · exact fun sig hsig => Nat.lt_of_le_of_lt hsig hlong
    · rintro sig rfl
      exact Nat.lt_of_le_of_lt (by decide : "u32".length ≤ 4) (by omega)
  | pointer elem =>
    -- The pointee is asked for in the class of the pointer; its signature is shorter all the same.
    refine intern_longer_acts hkey ?_
    have hshorter := Key.length_signature_pointee elem storage
    have hlong := Key.length_signature_pointer elem storage
    refine (typeId_acts elem (KeyKind.pointee hkey) s).outline ?_
    rintro p s₁ - ⟨hinterns, hp⟩
    have hcanon : (Key.mk (.pointer elem) storage).canon =
        ⟨.pointer elem.canon, if elem.isOpaque then .uniformConstant else storage⟩ := by
      simp only [Key.canon, Key.normalize_pointer, Ty.canon, Ty.canon_underlying]
    refine result_outlines ?_ ?_ (hinterns.mono ?_)
    · rw [hcanon]
      rfl
    · rw [hcanon]
      refine .pointer ?_
      rw [Emitter.typeOf?_canon]
      exact hp
    · intro sig hsig
      unfold Key.Covers at hsig
      omega
  | struct name members =>
    refine intern_longer_acts hkey ?_
    have hlong := Key.length_signature_struct name members storage
    refine (typeIds_acts members (KeyKind.member hkey) s).outline ?_
    rintro ids s₁ - ⟨hinterns, hids⟩
    refine (typeStruct_outlines hkey hids (hinterns.mono ?_)).mono (fun _ h => h) ?_
    · exact fun sig hsig => Nat.lt_of_le_of_lt hsig hlong
    · exact fun e h => ⟨h.1, fun hsupported => h.2 (Members.sized_of_supported hsupported)⟩

/-- The types of members are had in order, or one of them is not supported. -/
theorem typeIds_acts [Kinds.Grounded κ] (members : Members)
    (hkeys : ∀ m ∈ members.toList, κ.key (.value m.2)) (s : Emitter) :
    Acts κ (typeIds members) s
      (fun ids s' => s.Interns members.Covers s' ∧ s'.MemberTypes members ids)
      fun e => e.kind = .unsupportedType ∧ ¬ members.Supported := by
  cases members with
  | nil =>
    rw [typeIds]
    exact .pure ⟨.refl s, rfl⟩
  | cons name type rest =>
    obtain ⟨hkey, hrest⟩ := List.forall_mem_cons.mp hkeys
    have hlength := Members.length_signature_cons name type rest
    have hvalue := Key.length_signature_value type
    rw [typeIds]
    refine ((typeId_acts type hkey s).refusing ?_).bind ?_
    · exact fun e h => ⟨h.1, fun hsupported => h.2 hsupported.1⟩
    rintro id s₁ - ⟨hinterns₁, hid⟩
    refine ((typeIds_acts rest hrest s₁).refusing ?_).bind ?_
    · exact fun e h => ⟨h.1, fun hsupported => h.2 hsupported.2.2⟩
    rintro ids s₂ hturns ⟨hinterns₂, hids⟩
    refine .pure ⟨(hinterns₁.mono ?_).trans (hinterns₂.mono ?_), ?_⟩
    · intro sig hsig
      unfold Key.Covers at hsig
      unfold Members.Covers
      rw [Key.value] at hvalue
      omega
    · intro sig hsig
      unfold Members.Covers at hsig ⊢
      omega
    · exact ⟨id, ids, rfl, hturns.keeps.types hid, hids⟩

end

/-- A key is had as the type that it stands for. -/
theorem keyId_acts [Kinds.Grounded κ] {key : Key} (hkey : κ.key key) :
    Acts κ (keyId key) s (fun id s' => s.Interns key.Covers s' ∧ s'.typeOf? key = some id)
      fun e => e.kind = .unsupportedType ∧ ¬ key.type.Supported :=
  typeId_acts key.type hkey s

/-- The type of functions with a result type is entered by itself. -/
theorem functionType_acts {result : Id} (hresult : κ.foreign ∨ s.IsType result) :
    Acts κ (functionType result) s
      (fun id s' => s'.functionTypes.lookup result = some id ∧ s'.types = s.types ∧
        s'.code = s.code) E := by
  intro hs
  unfold functionType
  refine .get ?_
  cases hfound : s.functionTypes.lookup result with
  | some id => exact ⟨.refl, hfound, rfl, rfl⟩
  | none =>
    refine .step (result_apply hs.isOpen _ _ _) (.of_eq_ok rfl ⟨?_, ?_, rfl, ?_⟩)
    · exact .single (.functionType hresult hfound)
    · exact List.lookup_cons_self
    · exact (s.code_define .globals _).trans (List.append_nil _)

end Emit

end ShaderStage

import ShaderStage.Proofs.Steps

/-! # Offsets of members

A structure type gets one decoration for each member, with the number of bytes that the members
before it take. That number is counted in words, so it is the exact one as long as it fits into a
word; from then on it has lost whole multiples of 2^32, and members may share their bytes. A type is
decorated when it is first asked for, and never again.

* `Members.offset`: the bytes before a member, without bound;
* `Emitter.Turns.layout_eq`: members that were placed stay where they are;
* `members_placedAt`: where members are placed;
* `offsets_wrap`: members that share their bytes. -/

namespace ShaderStage

/-! ## Sizes without bound -/

set_option maxRecDepth 2000 in
mutual

/-- The number of bytes of a type as a member, however large; types that cannot be members have
none. -/
def Ty.bytes : Ty → Nat
  | .bool => 4
  | .int type => type.width.toNat / 8
  | .char => 1
  | .enum _ underlying => underlying.width.toNat / 8
  | .float width => width.toNat / 8
  | .vector count => 4 * count.toNat
  | .matrix4 => 64
  | .array elem length => elem.bytes * length.toNat
  | .struct _ members => members.bytes
  | _ => 0

/-- The number of bytes of members one after the other. -/
def Members.bytes : Members → Nat
  | .nil => 0
  | .cons _ type rest => type.bytes + rest.bytes

end

/-- The number of bytes before a member. -/
def Members.offset (members : Members) (index : Nat) : Nat :=
  ((members.toList.take index).map (·.2.bytes)).sum

namespace Members

@[simp] theorem offset_zero (members : Members) : members.offset 0 = 0 :=
  rfl

@[simp] theorem offset_cons_succ (name : String) (type : Ty) (rest : Members) (index : Nat) :
    (cons name type rest).offset (index + 1) = type.bytes + rest.offset index :=
  rfl

/-- A member ends where the next one starts. -/
theorem offset_succ {members : Members} {index : Nat} {type : Ty}
    (h : members.type? index = some type) :
    members.offset (index + 1) = members.offset index + type.bytes := by
  induction members, index using type?.induct with
  | case1 index => cases h
  | case2 name type rest =>
    cases h
    simp
  | case3 name type rest index ih =>
    rw [offset_cons_succ, offset_cons_succ, ih h, Nat.add_assoc]

/-- Later members have no smaller offsets. -/
theorem offset_mono (members : Members) {i j : Nat} (h : i ≤ j) :
    members.offset i ≤ members.offset j := by
  obtain ⟨k, rfl⟩ := Nat.exists_eq_add_of_le h
  unfold offset
  rw [List.take_add, List.map_append, List.sum_append]
  exact Nat.le_add_right _ _

end Members

theorem toUInt32_div_eight (w : UInt8) : w.toUInt32 / 8 = .ofNat (w.toNat / 8) := by
  have hw := w.toNat_lt
  rw [← UInt32.toNat_inj, UInt32.toNat_div, UInt32.toNat_ofNat', UInt8.toNat_toUInt32]
  show w.toNat / 8 = _
  omega

mutual

/-- The size that is computed is the exact one, cut to a word. -/
theorem Ty.eq_ofNat_of_naturalSize :
    ∀ {t : Ty} {size : UInt32}, t.naturalSize = .ok size → size = .ofNat t.bytes
  | .array elem length, size, h => by
    rw [Ty.naturalSize] at h
    cases helem : elem.naturalSize with
    | error t =>
      rw [helem] at h
      cases h
    | ok elemSize =>
      rw [helem] at h
      cases h
      rw [Ty.eq_ofNat_of_naturalSize helem, Ty.bytes, UInt32.ofNat_mul, UInt32.ofNat_toNat]
  | .struct name members, size, h => by
    rw [Ty.naturalSize] at h
    rw [Members.eq_ofNat_of_naturalSize h, Ty.bytes]
  | .vector count, size, h => by
    cases h
    rw [Ty.bytes, UInt32.ofNat_mul, ← UInt8.toNat_toUInt32, UInt32.ofNat_toNat]
    rfl
  | .int type, size, h => by
    cases h
    exact toUInt32_div_eight _
  | .enum name type, size, h => by
    cases h
    exact toUInt32_div_eight _
  | .float width, size, h => by
    cases h
    exact toUInt32_div_eight _
  | .bool, size, h | .char, size, h | .matrix4, size, h => by
    cases h
    rfl
  | .unset, size, h | .pointer _, size, h | .sampledImage2D, size, h | .void, size, h
  | .string, size, h | .dateTime, size, h | .null, size, h => by
    cases h

theorem Members.eq_ofNat_of_naturalSize :
    ∀ {members : Members} {size : UInt32}, members.naturalSize = .ok size →
      size = .ofNat members.bytes
  | .nil, size, h => by
    cases h
    rfl
  | .cons name type rest, size, h => by
    rw [Members.naturalSize] at h
    cases htype : type.naturalSize with
    | error t =>
      rw [htype] at h
      cases h
    | ok typeSize =>
      cases hrest : rest.naturalSize with
      | error t =>
        rw [htype, hrest] at h
        cases h
      | ok restSize =>
        rw [htype, hrest] at h
        cases h
        rw [Ty.eq_ofNat_of_naturalSize htype, Members.eq_ofNat_of_naturalSize hrest, Members.bytes,
          UInt32.ofNat_add]

end

/-! ## Decorations -/

/-- The structure type whose member the instruction decorates. -/
def Instruction.layout? (i : Instruction) : Option Id :=
  if i.opcode = .memberDecorate then i.operands.head? else none

/-- The decoration of a member with its offset. -/
def Instruction.placing (struct : Id) (index : Nat) (offset : UInt32) : Instruction :=
  ⟨.memberDecorate, [struct, .ofNat index, Decoration.offset, offset]⟩

/-- A decoration of a member is about the structure type. -/
theorem Instruction.mem_uses_of_layout? {i : Instruction} {struct : Id}
    (h : i.layout? = some struct) : struct ∈ i.uses := by
  obtain ⟨op, operands⟩ := i
  unfold layout? at h
  split at h
  case isFalse => cases h
  case isTrue hop =>
    obtain rfl : op = .memberDecorate := hop
    cases operands with
    | nil => cases h
    | cons first rest =>
      cases h
      exact List.mem_append_left _ List.mem_cons_self

namespace Emitter

variable {K : Key → Prop} {v : Version} {s s' : Emitter} {id : Id}

/-- The decorations of the members of a structure type. -/
def layout (s : Emitter) (struct : Id) : List Instruction :=
  (s.draft.emitted .memberDecorations).filter fun i => i.layout? = some struct

theorem layout_put (s : Emitter) (part : Section) (i : Instruction) (struct : Id) :
    (s.put part i).layout struct =
      s.layout struct ++
        if part = .memberDecorations ∧ i.layout? = some struct then [i] else [] := by
  unfold layout put
  rw [Draft.emitted_emit, List.filter_append]
  by_cases hpart : part = .memberDecorations <;> by_cases hi : i.layout? = some struct <;>
    simp [hpart, hi]

/-- What is said elsewhere is no decoration of a member. -/
theorem layout_put_of_ne (s : Emitter) {part : Section} (hpart : part ≠ .memberDecorations)
    (i : Instruction) (struct : Id) : (s.put part i).layout struct = s.layout struct := by
  rw [layout_put, if_neg fun h => hpart h.1, List.append_nil]

theorem layout_define (s : Emitter) {part : Section} (hpart : part ≠ .memberDecorations)
    (i : Instruction) (struct : Id) : (s.define part i).layout struct = s.layout struct := by
  unfold layout
  rw [emitted_define, if_neg hpart, List.append_nil]

theorem layout_label (s : Emitter) (id : Id) (text : String) (struct : Id) :
    (s.label id text).layout struct = s.layout struct :=
  s.layout_put_of_ne (by decide) _ _

theorem layout_title (s : Emitter) (id : Id) (text : String) (struct : Id) :
    (s.title id text).layout struct = s.layout struct := by
  unfold title
  split
  · rfl
  · exact s.layout_label id text struct

theorem layout_declare (s : Emitter) (c : Capability) (struct : Id) :
    (s.declare c).layout struct = s.layout struct := by
  unfold declare
  split
  · rfl
  · exact s.layout_put_of_ne (by decide) _ _

theorem layout_prepare (s : Emitter) (k : Key) (struct : Id) :
    (s.prepare k).layout struct = s.layout struct := by
  unfold prepare
  split
  · exact s.layout_declare _ _
  · rfl

theorem layout_importMath (s : Emitter) (struct : Id) :
    s.importMath.layout struct = s.layout struct := by
  unfold importMath
  split
  · rfl
  · exact s.layout_define (by decide) _ _

/-- Placing a member decorates it with its offset; its name is no decoration. -/
theorem layout_place (s : Emitter) (struct : Id) (index : Word) (offset : UInt32) (member : String)
    (id : Id) :
    (s.place struct index offset member).layout id = s.layout id ++ if struct = id then
      [⟨.memberDecorate, [struct, index, Decoration.offset, offset]⟩] else [] := by
  have hplaced : (s.put .memberDecorations
      ⟨.memberDecorate, [struct, index, Decoration.offset, offset]⟩).layout id =
        s.layout id ++ if struct = id then
          [⟨.memberDecorate, [struct, index, Decoration.offset, offset]⟩] else [] := by
    simp [layout_put, Instruction.layout?]
  unfold place
  dsimp only
  split
  · exact hplaced
  · rw [layout_put_of_ne _ (by decide), hplaced]

/-- Laying out members gives each of them the bytes that come before it. -/
theorem layout_layOut (s : Emitter) (struct : Id) {members : Members} (hsized : members.Sized)
    (index offset : Nat) :
    (s.layOut struct (.ofNat index) (.ofNat offset) members).layout struct =
      s.layout struct ++ (List.range members.length).map fun i =>
        .placing struct (index + i) (.ofNat (offset + members.offset i)) := by
  induction members using Members.toList.induct generalizing s index offset with
  | case1 => exact (List.append_nil _).symm
  | case2 member type rest ih =>
    obtain ⟨size, hsize⟩ := type.sized_iff.mp hsized.1
    have hindex : UInt32.ofNat index + 1 = .ofNat (index + 1) := (UInt32.ofNat_add ..).symm
    obtain rfl := Ty.eq_ofNat_of_naturalSize hsize
    simp only [layOut, hsize, hindex, ← UInt32.ofNat_add]
    rw [ih _ hsized.2, layout_place, if_pos rfl, Members.length, List.range_succ_eq_map]
    simp [Instruction.placing, Nat.add_comm, Nat.add_left_comm]

/-- Laying out members says nothing about any other type. -/
theorem layout_layOut_of_ne (s : Emitter) {struct : Id} (hid : id ≠ struct) (index : Word)
    (offset : UInt32) (members : Members) :
    (s.layOut struct index offset members).layout id = s.layout id := by
  have hnone (index : Word) (offset : UInt32) :
      (Instruction.mk .memberDecorate [struct, index, Decoration.offset, offset]).layout? ≠
        some id := by
    simpa [Instruction.layout?] using hid.symm
  refine layOut_induct (P := fun s' => s'.layout id = s.layout id) ?_ ?_ rfl index offset
  · intro s' index offset hs'
    rw [layout_put, if_neg fun h => hnone index offset h.2, List.append_nil, hs']
  · intro s' index m hm hs'
    rw [layout_put_of_ne _ (by decide), hs']

/-- A structure type is placed once it has its id. -/
theorem layout_structured (s : Emitter) (name : String) {members : Members} (hsized : members.Sized)
    (ids : List Id) :
    (s.structured name members ids).layout s.nextId =
      s.layout s.nextId ++ (List.range members.length).map fun i =>
        .placing s.nextId i (.ofNat (members.offset i)) := by
  have hplaced := layout_layOut ((s.define .globals ⟨.typeStruct, s.nextId :: ids⟩).title s.nextId
    name) s.nextId hsized 0 0
  rw [layout_title, s.layout_define (by decide)] at hplaced
  simp only [Nat.zero_add] at hplaced
  exact hplaced

theorem layout_structured_of_ne (s : Emitter) (hid : id ≠ s.nextId) (name : String)
    (members : Members) (ids : List Id) :
    (s.structured name members ids).layout id = s.layout id := by
  rw [structured, layout_layOut_of_ne _ hid, layout_title, s.layout_define (by decide)]

/-! ## Types that come later -/

variable {κ : Kinds} {k : Key} {pub : List (Section × Instruction)}

/-- A new type places no members of another one. -/
theorem Enters.layout_eq {id' : Id} (h : s.Enters k id' s') (hid : id ≠ s.nextId) :
    s'.layout id = s.layout id := by
  cases h with
  | simple => rw [layout_define _ (by decide), layout_prepare]
  | matrix4 => rw [layout_put_of_ne _ (by decide), layout_define _ (by decide)]
  | sampledImage2D hc hs₁ => rw [layout_define _ (by decide), hs₁, layout_define _ (by decide)]
  | struct => exact s.layout_structured_of_ne hid _ _ _

/-- What is noted places only members of the type that comes next. -/
theorem Notes.layout_eq (h : s.Notes κ pub s') (hid : id ≠ s.nextId) :
    s'.layout id = s.layout id := by
  cases h with
  | abandoned => exact s.layout_structured_of_ne hid _ _ _
  | performed | decoration => exact s.layout_put_of_ne (by decide) _ _
  | function => rw [layout_label, s.layout_define (by decide)]
  | label | string => exact s.layout_define (by decide) _ _
  | capability c => exact s.layout_declare c _
  | announced h =>
    refine s.layout_put_of_ne ?_ _ _
    cases h <;> decide

/-- The only members that are decorated in a turn are those of a type that is new. -/
theorem Turn.layout_eq (h : Turn κ s pub s') (hid : id ≠ s.nextId) :
    s'.layout id = s.layout id := by
  have hdraft {s s' : Emitter} (h : s'.draft = s.draft) : s'.layout id = s.layout id := by
    rw [layout, h, ← layout]
  cases h with
  | type _ _ h => exact h.layout_eq hid
  | constant =>
    rw [hdraft (s.draft_newConstant _ _ _), layout_label, s.layout_define (by decide)]
  | functionType => exact s.layout_define (by decide) _ _
  | @value op operands key T text s₁ hop hkey htext hT hs₁ =>
    have hvalue : s₁.layout id = s.layout id := by
      rcases hs₁ with rfl | rfl
      · exact s.layout_define (by decide) _ _
      · exact s.layout_define (by decide) _ _
    rw [named, layout_title]
    exact hvalue
  | math => exact (s.importMath.layout_define (by decide) _ _).trans (s.layout_importMath id)
  | localVariable | globalVariable =>
    refine (layout_label _ s.nextId _ id).trans ?_
    exact s.layout_define (by decide) _ _
  | block => exact s.layout_put_of_ne (by decide) _ _
  | note h => exact h.layout_eq hid
  | rename =>
    rw [layout_title]
    exact hdraft rfl

/-- The next id is none of those that were taken. -/
theorem nextId_not_mem (hwrap : s.NoWrap) : s.nextId ∉ idsBetween 0 s.draft.ids.taken := by
  intro hmem
  have hnext : s.nextId ∈ idsBetween s.draft.ids.taken (s.draft.ids.taken + 1) := by
    rw [idsBetween_succ]
    exact List.mem_singleton_self _
  exact not_mem_idsBetween hwrap hmem hnext

/-- Nothing more is said about the members of types whose ids were taken before. -/
theorem Turns.layout_eq (h : s.Turns κ pub s') (hwrap : s'.NoWrap)
    (hid : id ∈ idsBetween 0 s.draft.ids.taken) : s'.layout id = s.layout id := by
  induction h with
  | refl => rfl
  | tail hturns hturn ih =>
    have hwrap₁ := hwrap.of_grows hturn.grows
    have hid₁ := mem_idsBetween_of_le hid (Nat.le_refl 0) hturns.grows.taken
    rw [hturn.layout_eq, ih hwrap₁]
    rintro rfl
    exact nextId_not_mem hwrap₁ hid₁

/-! ## New types -/

/-- Steps do not close the ids. -/
theorem Reaches.isOpen (h : s.Reaches K s') (hs : s.IsOpen) : s'.IsOpen := by
  induction h with
  | refl => exact hs
  | tail _ hstep ih =>
    cases hstep with
    | _ => exact ih

/-- Every result is an id that was taken. -/
theorem Reaches.mem_idsBetween (h : (start v).Reaches K s) (hid : s.Allocated id) :
    id ∈ idsBetween 0 s.draft.ids.taken := by
  obtain ⟨part, i, hi, hresult⟩ := hid
  -- Only a definition gives out an id, and it is the next one that is free.
  induction h with
  | refl => cases hi
  | @tail s s' _ hstep ih =>
    cases hstep with
    | put _ hnone =>
      rcases has_put.mp hi with hi | ⟨-, rfl⟩
      · exact ih hi
      · rw [hnone] at hresult
        cases hresult
    | define _ hnext =>
      show id ∈ idsBetween 0 (s.draft.ids.taken + 1)
      rw [← idsBetween_append (Nat.zero_le _) (Nat.le_succ _), idsBetween_succ]
      rcases has_define.mp hi with hi | ⟨-, rfl⟩
      · exact List.mem_append_left _ (ih hi)
      · rw [hnext] at hresult
        cases hresult
        exact List.mem_append_right _ (List.mem_singleton_self _)
    | _ => exact ih hi

/-- Members are decorated only once their structure type has an id. -/
theorem Reaches.allocated_of_layout? (h : (start v).Reaches K s) {i : Instruction}
    (hi : s.Has .memberDecorations i) {struct : Id} (hstruct : i.layout? = some struct) :
    s.Allocated struct := by
  induction h with
  | refl => cases hi
  | tail _ hstep ih =>
    refine Reaches.allocated (.single hstep) ?_
    rcases hstep.has_or_permits hi with hi | hpermits
    · exact ih hi
    · cases hpermits with
      | remark _ huses => exact huses _ (Instruction.mem_uses_of_layout? hstruct)

/-- Nothing was said about the members of a type whose id is yet to be taken. -/
theorem Reaches.layout_nextId (h : (start v).Reaches K s) (hwrap : s.NoWrap) :
    s.layout s.nextId = [] := by
  refine List.filter_eq_nil_iff.mpr fun i hi hstruct => ?_
  have halloc := h.allocated_of_layout? (Draft.mem_emitted.mp hi) (of_decide_eq_true hstruct)
  exact nextId_not_mem hwrap (h.mem_idsBetween halloc)

end Emitter

namespace Emit

variable {v : Version} {s s' : Emitter}

/-- A structure type takes the next id and is then laid out, which needs all members to have
sizes. -/
theorem defineStruct_eq_ok {structName : String} {members : Members} {ids : List Id} {id : Id}
    (hopen : s.IsOpen)
    (hrun : (do
      let id ← typeStruct ids
      unless structName = "" do name id structName
      layoutMembers id 0 0 members
      return id) s = .ok id s') :
    id = s.nextId ∧ s' = s.structured structName members ids ∧ members.Sized := by
  have hlayout : ∀ {s₁ : Emitter}, s₁ =
      (s.define .globals ⟨.typeStruct, s.nextId :: ids⟩).title s.nextId structName →
      (do layoutMembers s.nextId 0 0 members; return s.nextId : Emit Id) s₁ = .ok id s' →
      id = s.nextId ∧ s' = s.structured structName members ids ∧ members.Sized := by
    rintro s₁ rfl hrun
    obtain ⟨_, s₂, hmembers, hreturn⟩ := bind_eq_ok hrun
    cases hreturn
    exact ⟨rfl, (layoutMembers_concludes _ _ _ _ _).of_ok hmembers⟩
  obtain ⟨struct, s₁, hstruct, hrun⟩ := bind_eq_ok hrun
  cases (result_apply hopen _ _ _).symm.trans hstruct
  by_cases hname : structName = ""
  · rw [if_pos hname] at hrun
    exact hlayout (if_pos hname).symm hrun
  · rw [if_neg hname] at hrun
    exact hlayout (if_neg hname).symm hrun

/-- A new structure type has the decorations of its members, and these alone. -/
theorem typeId_struct_eq_ok (hs : (Emitter.start v).Reaches (fun _ => True) s)
    {structName : String} {members : Members} {storage : StorageClass}
    (hnew : s.typeOf? ⟨.struct structName members, storage⟩ = none) {id : Id}
    (hrun : typeId (.struct structName members) storage s = .ok id s') (hwrap : s'.NoWrap) :
    s'.layout id = (List.range members.length).map fun i =>
      .placing id i (.ofNat (members.offset i)) := by
  have hopen : s.IsOpen := hs.isOpen rfl
  rw [typeId.eq_def] at hrun
  obtain ⟨s₁, hdefine, rfl⟩ := intern_eq_ok_of_none hnew hrun
  -- The types of the members come first, and the id of the structure is taken after them.
  obtain ⟨ids, s₂, hids, hstruct⟩ := bind_eq_ok hdefine
  have hmembers := typeIds_acts (κ := .all False) members (fun _ _ => trivial) s
  obtain ⟨hturns, -⟩ := (hmembers (Emitter.ready_all hopen _)).of_ok hids
  have hreach : (Emitter.start v).Reaches (fun _ => True) s₂ :=
    hs.trans (hturns.reaches not_false ((Emitter.known_start v).reaches hs))
  obtain ⟨rfl, rfl, hsized⟩ := defineStruct_eq_ok (hturns.isOpen hopen) hstruct
  obtain ⟨new, hlogs, -⟩ := s₂.logs_structured structName members ids
  have hwrap₂ : s₂.NoWrap := Nat.lt_of_le_of_lt hlogs.grows.taken hwrap
  show (s₂.structured structName members ids).layout s₂.nextId = _
  rw [s₂.layout_structured _ hsized, hreach.layout_nextId hwrap₂, List.nil_append]

/-- The id of a type is one of those that were taken, and more can be taken after it. -/
theorem mem_idsBetween_of_typeId (hs : (Emitter.start v).Reaches (fun _ => True) s) {t : Ty}
    {storage : StorageClass} {id : Id} (hrun : typeId t storage s = .ok id s') :
    id ∈ idsBetween 0 s'.draft.ids.taken ∧ s'.IsOpen := by
  have hacts : Acts (.all False) (typeId t storage) s _ _ := typeId_acts t trivial s
  obtain ⟨hturns, -, hid⟩ := (hacts (Emitter.ready_all (hs.isOpen rfl) _)).of_ok hrun
  have hknown := (Emitter.known_start v).reaches hs
  have hreach := hturns.reaches not_false hknown
  have hs' : (Emitter.start v).Reaches (fun _ => True) s' := hs.trans hreach
  exact ⟨hs'.mem_idsBetween ((hknown.reaches hreach).global_of_typeOf? hid).allocated,
    hs'.isOpen rfl⟩

/-- Types are asked for in turns. -/
theorem mapM_keyId_acts (keys : List Key) :
    Acts (.all False) (keys.mapM keyId) s (fun _ _ => True) fun _ => True := by
  induction keys generalizing s with
  | nil => exact .pure trivial
  | cons key keys ih =>
    rw [List.mapM_cons]
    refine ((keyId_acts trivial).refusing fun _ _ => trivial).bind fun id s₁ _ _ => ?_
    exact ih.bind fun ids s₂ _ _ => .pure trivial

end Emit

/-! ## Byte ranges -/

/-- The offsets of members: counted in words, so exact as long as they fit, and then no two members
share a byte. -/
structure Members.PlacedAt (members : Members) (offsets : List UInt32) : Prop where
  residues : offsets = (List.range members.length).map fun i => .ofNat (members.offset i)
  exact_iff : ∀ {i w}, offsets[i]? = some w →
    (w.toNat = members.offset i ↔ members.offset i < 4294967296)
  disjoint : ∀ {i j a b t}, i < j → offsets[i]? = some a → offsets[j]? = some b →
    members.type? i = some t → members.offset j < 4294967296 → a.toNat + t.bytes ≤ b.toNat

/-- The sums of the sizes before are where the members are placed. -/
theorem Members.placedAt (members : Members) :
    members.PlacedAt ((List.range members.length).map fun i => .ofNat (members.offset i)) := by
  -- An offset is written in one word, so what is written is the sum of the sizes modulo its range.
  have hword : ∀ {i w}, ((List.range members.length).map fun i =>
      UInt32.ofNat (members.offset i))[i]? = some w → w.toNat = members.offset i % 4294967296 := by
    intro i w hw
    rw [List.getElem?_map, Option.map_eq_some_iff] at hw
    obtain ⟨k, hk, rfl⟩ := hw
    obtain ⟨hlt, rfl⟩ := List.getElem?_eq_some_iff.mp hk
    rw [List.getElem_range, UInt32.toNat_ofNat']
  constructor
  · rfl
  · intro i w hw
    rw [hword hw]
    omega
  · intro i j a b t hij ha hb ht hj
    have hend := offset_succ ht
    have hle : members.offset (i + 1) ≤ members.offset j := members.offset_mono hij
    rw [hword ha, hword hb]
    omega

/-- Whatever was emitted before, a structure type that is asked for the first time gets one
decoration for each member, with the bytes before it counted in words. If it is known already it
keeps its id, and nothing is emitted. No type that is asked for later changes its decorations. -/
theorem members_placedAt {v : Version} {s s' : Emitter}
    (hs : (Emitter.start v).Reaches (fun _ => True) s) {name : String} {members : Members}
    {storage : StorageClass} {id : Id}
    (hrun : Emit.typeId (.struct name members) storage s = .ok id s') (hwrap : s'.NoWrap) :
    (s.typeOf? ⟨.struct name members, storage⟩ = none →
      ∃ offsets, members.PlacedAt offsets ∧ s'.layout id = offsets.mapIdx (.placing id)) ∧
    (∀ known, s.typeOf? ⟨.struct name members, storage⟩ = some known → id = known ∧ s' = s) ∧
    ∀ (keys : List Key) ids w, keys.mapM Emit.keyId s' = .ok ids w → w.NoWrap →
      w.layout id = s'.layout id := by
  refine ⟨?_, ?_, ?_⟩
  · intro hnew
    refine ⟨_, members.placedAt, ?_⟩
    rw [Emit.typeId_struct_eq_ok hs hnew hrun hwrap]
    exact List.ext_getElem (by simp) (by simp)
  · intro known hknown
    rw [Emit.typeId.eq_def, Emit.intern_apply_of_some hknown] at hrun
    cases hrun
    exact ⟨rfl, rfl⟩
  · intro keys ids w hlater hwrap'
    obtain ⟨hid, hopen⟩ := Emit.mem_idsBetween_of_typeId hs hrun
    obtain ⟨hturns, -⟩ := (Emit.mapM_keyId_acts keys (Emitter.ready_all hopen _)).of_ok hlater
    exact hturns.layout_eq hwrap' hid

/-- The structure of an array of matrices and a number. -/
def Members.matrixBlock (length : UInt32) : Members :=
  .ofList [("matrices", .array .matrix4 length), ("last", .float32)]

theorem members_placedAt_matrices :
    ∃ s', Emit.typeId (.struct "Block" (.matrixBlock 3)) .none (Emitter.start .default) = .ok 7 s' ∧
      s'.layout 7 = [.placing 7 0 0, .placing 7 1 192] ∧
      (Members.matrixBlock 3).PlacedAt [0, 192] := by
  have hrun := eq_ok_of_run' (x := Emit.typeId (.struct "Block" (.matrixBlock 3)) .none)
    (s := Emitter.start .default) (a := 7) (by decide +kernel)
  obtain ⟨hnew, -, -⟩ := members_placedAt .refl hrun (by
    show (_ : Nat) < _
    decide +kernel)
  obtain ⟨offsets, hplaced, hlayout⟩ := hnew rfl
  obtain rfl := hplaced.residues
  exact ⟨_, hrun, hlayout, hplaced⟩

/-- With 2^26 matrices the member after them is placed at the start again. -/
theorem offsets_wrap :
    ∃ s', Emit.typeId (.struct "Block" (.matrixBlock 67108864)) .none (Emitter.start .default) =
        .ok 7 s' ∧
      s'.layout 7 = [.placing 7 0 0, .placing 7 1 0] ∧
      (Members.matrixBlock 67108864).offset 1 = 4294967296 :=
  ⟨_, eq_ok_of_run' (by decide +kernel), by decide +kernel, by decide +kernel⟩

end ShaderStage

import ShaderStage.Ty.Key

/-! # Signatures can be read back

The signature of a type determines the type up to names for it, provided that it shows where every
structure and member name ends. The proof reads signatures: a reader of types finds the type of any
signature again, whatever follows it. Names without the characters that signatures use themselves
are always readable; without any such condition, different types may share a signature.

* `Ty.canon_eq_of_readable`, `Ty.canon_eq_of_signature`: types with the same signature;
* `signature_faithful`: signatures of types with clean names are faithful;
* `signature_eq_of_colon`: two types that share a signature. -/

namespace ShaderStage

/-! ## Canonical types -/

mutual

/-- The type with every name for another type resolved. -/
def Ty.canon : Ty → Ty
  | .unset => .void
  | .char => .int ⟨8, false⟩
  | .enum _ underlying => .int underlying
  | .array elem length => .array elem.canon length
  | .pointer elem => .pointer elem.canon
  | .struct name members => .struct name members.canon
  | .bool => .bool
  | .int type => .int type
  | .float width => .float width
  | .vector count => .vector count
  | .matrix4 => .matrix4
  | .sampledImage2D => .sampledImage2D
  | .void => .void
  | .string => .string
  | .dateTime => .dateTime
  | .null => .null

/-- Members with canonical types. -/
def Members.canon : Members → Members
  | .nil => .nil
  | .cons name type rest => .cons name type.canon rest.canon

end

mutual

/-- Every structure and member name in a type is acceptable. -/
def Ty.Named (ok : String → Prop) : Ty → Prop
  | .array elem _ => elem.Named ok
  | .pointer elem => elem.Named ok
  | .struct name members => ok name ∧ members.Named ok
  | _ => True

/-- Every structure and member name in members is acceptable. -/
def Members.Named (ok : String → Prop) : Members → Prop
  | .nil => True
  | .cons name type rest => ok name ∧ type.Named ok ∧ rest.Named ok

end

/-- The characters that structure signatures are punctuated with. -/
def punctuation : List Char := ['\x7b', '\x7d', ':', ';']

/-- A name without punctuation. -/
def CleanName (name : String) : Prop :=
  ∀ c ∈ name.toList, c ∉ punctuation

instance (name : String) : Decidable (CleanName name) :=
  List.decidableBAll (· ∉ punctuation) name.toList

/-- A member name that ends at the first colon and cannot be taken for the end of the members. -/
def MemberName (name : String) : Prop :=
  ':' ∉ name.toList ∧ name.toList.head? ≠ some '\x7d'

mutual

/-- Signatures of the type show where each name in it ends. -/
def Ty.Readable : Ty → Prop
  | .array elem _ => elem.Readable
  | .pointer elem => elem.Readable
  | .struct name members => '\x7b' ∉ name.toList ∧ members.Readable
  | _ => True

/-- Signatures of the members show where each name in them ends. -/
def Members.Readable : Members → Prop
  | .nil => True
  | .cons name type rest => MemberName name ∧ type.Readable ∧ rest.Readable

end

/-- A clean name has none of the characters that signatures use themselves. -/
theorem CleanName.not_mem {name : String} (h : CleanName name) {c : Char} (hc : c ∈ punctuation) :
    c ∉ name.toList :=
  fun hmem => h c hmem hc

/-- A name that ends where it seems to, whether it is the name of a structure or of a member. -/
def ReadableName (name : String) : Prop :=
  '\x7b' ∉ name.toList ∧ MemberName name

instance (name : String) : Decidable (ReadableName name) :=
  inferInstanceAs (Decidable (_ ∧ _ ∧ _))

/-- A clean name can be told from what follows it. -/
theorem CleanName.readable {name : String} (h : CleanName name) : ReadableName name := by
  refine ⟨h.not_mem (by decide), h.not_mem (by decide), fun hhead => ?_⟩
  exact h.not_mem (c := '\x7d') (by decide) (List.mem_of_mem_head? hhead)

mutual

/-- If all names can be told from what follows them, the type can be read back. -/
theorem Ty.Named.readable : ∀ {t : Ty}, t.Named ReadableName → t.Readable
  | .array elem _, ht => Ty.Named.readable (t := elem) ht
  | .pointer elem, ht => Ty.Named.readable (t := elem) ht
  | .struct _ _, ht => ⟨ht.1.1, Members.Named.readable ht.2⟩
  | .unset, _ | .char, _ | .enum _ _, _ | .bool, _ | .int _, _ | .float _, _ | .vector _, _
  | .matrix4, _ | .sampledImage2D, _ | .void, _ | .string, _ | .dateTime, _ | .null, _ => trivial

theorem Members.Named.readable : ∀ {members : Members}, members.Named ReadableName →
    members.Readable
  | .nil, _ => trivial
  | .cons _ type _, hm =>
    ⟨hm.1.2, Ty.Named.readable (t := type) hm.2.1, Members.Named.readable hm.2.2⟩

end

mutual

theorem Ty.signature_canon : ∀ t : Ty, t.canon.signature = t.signature
  | .array elem length => by
    simp only [Ty.canon, Ty.signature, Ty.signature_canon elem]
  | .pointer elem => by
    simp only [Ty.canon, Ty.signature, Ty.signature_canon elem]
  | .struct name members => by
    simp only [Ty.canon, Ty.signature, Members.signature_canon members]
  | .unset | .char | .enum _ _ | .bool | .int _ | .float _ | .vector _ | .matrix4
  | .sampledImage2D | .void | .string | .dateTime | .null => rfl

theorem Members.signature_canon : ∀ members : Members, members.canon.signature = members.signature
  | .nil => rfl
  | .cons name type .nil => by
    simp only [Members.canon, Members.signature, Ty.signature_canon type]
  | .cons name type (.cons name' type' rest) => by
    have hrest := Members.signature_canon (.cons name' type' rest)
    simp only [Members.canon] at hrest
    simp only [Members.canon, Members.signature, Ty.signature_canon type, hrest]

end

mutual

theorem Ty.Named.mono {ok ok' : String → Prop} (h : ∀ name, ok name → ok' name) :
    ∀ {t : Ty}, t.Named ok → t.Named ok'
  | .array elem _, ht => Ty.Named.mono h (t := elem) ht
  | .pointer elem, ht => Ty.Named.mono h (t := elem) ht
  | .struct _ _, ht => ⟨h _ ht.1, Members.Named.mono h ht.2⟩
  | .unset, _ | .char, _ | .enum _ _, _ | .bool, _ | .int _, _ | .float _, _ | .vector _, _
  | .matrix4, _ | .sampledImage2D, _ | .void, _ | .string, _ | .dateTime, _ | .null, _ => trivial

theorem Members.Named.mono {ok ok' : String → Prop} (h : ∀ name, ok name → ok' name) :
    ∀ {members : Members}, members.Named ok → members.Named ok'
  | .nil, _ => trivial
  | .cons _ type _, hm =>
    ⟨h _ hm.1, Ty.Named.mono h (t := type) hm.2.1, Members.Named.mono h hm.2.2⟩

end

/-- What holds of all names of members holds of each member. -/
theorem Members.Named.mem {ok : String → Prop} {members : Members} (h : members.Named ok) :
    ∀ m ∈ members.toList, ok m.1 ∧ m.2.Named ok := by
  induction members using Members.toList.induct with
  | case1 => exact List.forall_mem_nil _
  | case2 name type rest ih => exact List.forall_mem_cons.mpr ⟨⟨h.1, h.2.1⟩, ih h.2.2⟩

mutual

/-- What holds of every name holds of those in a type. -/
theorem Ty.named_of_forall {ok : String → Prop} (h : ∀ name, ok name) : ∀ t : Ty, t.Named ok
  | .array elem _ => elem.named_of_forall h
  | .pointer elem => elem.named_of_forall h
  | .struct name members => ⟨h name, members.named_of_forall h⟩
  | .unset | .char | .enum _ _ | .bool | .int _ | .float _ | .vector _ | .matrix4 | .sampledImage2D
  | .void | .string | .dateTime | .null => trivial

theorem Members.named_of_forall {ok : String → Prop} (h : ∀ name, ok name) :
    ∀ members : Members, members.Named ok
  | .nil => trivial
  | .cons name type rest => ⟨h name, type.named_of_forall h, rest.named_of_forall h⟩

end

/-! ## Reading signatures -/

/-- The number at the head of a text, and the rest. -/
def readNumber (cs : List Char) : Nat × List Char :=
  (Nat.ofDigitChars 10 (cs.takeWhile Char.isDigit) 0, cs.dropWhile Char.isDigit)

/-- The text does not go on with a digit. -/
def EndsNumber (cs : List Char) : Prop :=
  ∀ c ∈ cs.head?, c.isDigit = false

/-- A number is read back up to the first character that is no digit. -/
theorem readNumber_append (n : Nat) {rest : List Char} (h : EndsNumber rest) :
    readNumber (Nat.toDigits 10 n ++ rest) = (n, rest) := by
  have hdigits : ∀ c ∈ Nat.toDigits 10 n, c.isDigit = true :=
    fun c hc => Nat.isDigit_of_mem_toDigits (by decide) (by decide) hc
  have htake : rest.takeWhile Char.isDigit = [] := by
    cases rest with
    | nil => rfl
    | cons c cs => simp [h c rfl]
  have hdrop : rest.dropWhile Char.isDigit = rest := by
    cases rest with
    | nil => rfl
    | cons c cs => simp [h c rfl]
  rw [readNumber, List.takeWhile_append_of_pos hdigits, List.dropWhile_append_of_pos hdigits,
    htake, hdrop, List.append_nil, Nat.ofDigitChars_ten_toDigits]

/-- The name at the head of a text that goes on with `c`. -/
def nameBefore (c : Char) (cs : List Char) : String :=
  .ofList (cs.takeWhile (· ≠ c))

/-- What follows the first `c` in a text. -/
def restAfter (c : Char) (cs : List Char) : List Char :=
  (cs.dropWhile (· ≠ c)).drop 1

mutual

/-- The type whose signature stands at the head of a text, and the rest. It looks at no more
characters than it takes to tell the signatures apart. -/
def readType : Nat → List Char → Option (Ty × List Char)
  | 0, _ => none
  | fuel + 1, cs =>
    match cs with
    | 'b' :: rest => some (.bool, rest.drop 3)
    | 'i' :: rest => some (.int ⟨.ofNat (readNumber rest).1, true⟩, (readNumber rest).2)
    | 'u' :: rest => some (.int ⟨.ofNat (readNumber rest).1, false⟩, (readNumber rest).2)
    | 'f' :: rest => some (.float (.ofNat (readNumber rest).1), (readNumber rest).2)
    | 'm' :: rest => some (.matrix4, rest.drop 3)
    | 'd' :: rest => some (.dateTime, rest.drop 7)
    | 'n' :: rest => some (.null, rest.drop 3)
    | 'v' :: 'o' :: rest => some (.void, rest.drop 2)
    | 'v' :: rest =>
      some (.vector (.ofNat (readNumber (rest.drop 2)).1), (readNumber (rest.drop 2)).2)
    | 'a' :: rest =>
      (readType fuel (rest.drop 5)).map fun (elem, rest) =>
        (.array elem (.ofNat (readNumber (rest.drop 1)).1), (readNumber (rest.drop 1)).2.drop 1)
    | 'p' :: rest =>
      (readType fuel (rest.drop 3)).map fun (elem, rest) => (.pointer elem, rest.drop 1)
    | 's' :: 'a' :: rest => some (.sampledImage2D, rest.drop 13)
    | 's' :: 't' :: 'r' :: 'i' :: rest => some (.string, rest.drop 2)
    | 's' :: rest =>
      (readMembers fuel (restAfter '\x7b' (rest.drop 6))).map fun (members, rest') =>
        (.struct (nameBefore '\x7b' (rest.drop 6)) members, rest'.drop 1)
    | _ => none

/-- The members whose signatures stand at the head of a text, and the rest. -/
def readMembers : Nat → List Char → Option (Members × List Char)
  | 0, _ => none
  | fuel + 1, cs =>
    if cs.head? = some '\x7d' then some (.nil, cs)
    else
      (readType fuel (restAfter ':' cs)).bind fun (type, rest) =>
        if rest.head? = some ';' then
          (readMembers fuel (rest.drop 1)).map fun (members, rest) =>
            (.cons (nameBefore ':' cs) type members, rest)
        else some (.cons (nameBefore ':' cs) type .nil, rest)

end

theorem ne_of_mem_name {name : String} {c : Char} (h : c ∉ name.toList) :
    ∀ x ∈ name.toList, decide (x ≠ c) = true := by
  intro x hx
  rw [decide_eq_true_eq]
  rintro rfl
  exact h hx

/-- A name is read up to a character that it does not have. -/
theorem nameBefore_append {name : String} {c : Char} (h : c ∉ name.toList) (rest : List Char) :
    nameBefore c (name.toList ++ c :: rest) = name := by
  rw [nameBefore, List.takeWhile_append_of_pos (ne_of_mem_name h)]
  simp

/-- What follows that character is left. -/
theorem restAfter_append {name : String} {c : Char} (h : c ∉ name.toList) (rest : List Char) :
    restAfter c (name.toList ++ c :: rest) = rest := by
  rw [restAfter, List.dropWhile_append_of_pos (ne_of_mem_name h)]
  simp

/-- A member does not look like the end of the members. -/
theorem head?_member_ne {name : String} (h : MemberName name) (rest : List Char) :
    (name.toList ++ ':' :: rest).head? ≠ some '\x7d' := by
  cases hname : name.toList with
  | nil => simp
  | cons c cs =>
    have hhead := h.2
    rw [hname] at hhead
    exact hhead

theorem endsNumber_nil : EndsNumber [] := by
  intro c hc
  cases hc

theorem endsNumber_cons {c : Char} (hc : c.isDigit = false) (rest : List Char) :
    EndsNumber (c :: rest) := by
  intro c' hc'
  cases hc'
  exact hc

/-- The type of an integer is read back. -/
theorem readType_intSignature (type : IntTy) (fuel : Nat) {rest : List Char}
    (hrest : EndsNumber rest) :
    readType (fuel + 1) (type.signature.toList ++ rest) = some (.int type, rest) := by
  obtain ⟨width, signed⟩ := type
  cases signed <;>
    simp [IntTy.signature, String.toList_append, readType, readNumber_append _ hrest]

/-- A structure type is read up to the brace, and then member by member. -/
theorem readType_struct (fuel : Nat) (cs : List Char) :
    readType (fuel + 1) ('s' :: 't' :: 'r' :: 'u' :: 'c' :: 't' :: ' ' :: cs) =
      (readMembers fuel (restAfter '\x7b' cs)).map fun (members, rest) =>
        (.struct (nameBefore '\x7b' cs) members, rest.drop 1) := by
  rw [readType.eq_def]
  rfl

/-- Reading one member: its name, its type, and the members after it. -/
theorem readMembers_cons {name : String} {type : Ty} {fuel : Nat} {cs rest : List Char}
    (hname : MemberName name)
    (htype : readType fuel (type.signature.toList ++ rest) = some (type.canon, rest))
    (hcs : cs = name.toList ++ ':' :: (type.signature.toList ++ rest)) :
    readMembers (fuel + 1) cs =
      if rest.head? = some ';' then
        (readMembers fuel (rest.drop 1)).map fun (members, rest) =>
          (.cons name type.canon members, rest)
      else some (.cons name type.canon .nil, rest) := by
  subst hcs
  rw [readMembers, if_neg (head?_member_ne hname _), nameBefore_append hname.1,
    restAfter_append hname.1, htype, Option.bind_some]

mutual

/-- The signature of a type is read back as its canonical form, by induction on the type and its
members, with enough fuel for their size. -/
theorem readType_signature {t : Ty} (h : t.Readable) (fuel : Nat) (hfuel : sizeOf t ≤ fuel)
    {rest : List Char} (hrest : EndsNumber rest) :
    readType fuel (t.signature.toList ++ rest) = some (t.canon, rest) := by
  -- By recursion on the fuel, which is never less than the size of what is left to read.
  cases fuel with
  | zero => cases t <;> simp at hfuel
  | succ fuel =>
    cases t with
    | array elem length =>
      have hsize : sizeOf elem ≤ fuel := by
        simp at hfuel
        omega
      have hlength := readNumber_append length.toNat (endsNumber_cons (c := '>') (by decide) rest)
      have helem := readType_signature (t := elem) h fuel hsize
        (endsNumber_cons (c := ',') (by decide) (Nat.toDigits 10 length.toNat ++ '>' :: rest))
      simp [Ty.signature, String.toList_append, readType, Ty.canon, helem, hlength]
    | pointer elem =>
      have hsize : sizeOf elem ≤ fuel := by
        simp at hfuel
        omega
      have helem := readType_signature (t := elem) h fuel hsize
        (endsNumber_cons (c := '>') (by decide) rest)
      simp [Ty.signature, String.toList_append, readType, Ty.canon, helem]
    | struct name members =>
      have hsize : sizeOf members ≤ fuel := by
        simp at hfuel
        omega
      have hmembers := readMembers_signature h.2 fuel hsize rest
      have htext : (Ty.struct name members).signature.toList ++ rest =
          's' :: 't' :: 'r' :: 'u' :: 'c' :: 't' :: ' ' :: (name.toList ++ '\x7b' ::
            (members.signature.toList ++ '\x7d' :: rest)) := by
        simp [Ty.signature, String.toList_append]
      rw [htext, readType_struct, nameBefore_append h.1, restAfter_append h.1, hmembers]
      rfl
    | int type => exact readType_intSignature type fuel hrest
    | char => exact readType_intSignature ⟨8, false⟩ fuel hrest
    | enum name type => exact readType_intSignature type fuel hrest
    | _ =>
      simp [Ty.signature, String.toList_append, readType, Ty.canon, readNumber_append _ hrest]

/-- The signatures of members are read back up to the closing brace. -/
theorem readMembers_signature {members : Members} (h : members.Readable) (fuel : Nat)
    (hfuel : sizeOf members ≤ fuel) (rest : List Char) :
    readMembers fuel (members.signature.toList ++ '\x7d' :: rest) =
      some (members.canon, '\x7d' :: rest) := by
  cases fuel with
  | zero => cases members <;> simp at hfuel
  | succ fuel =>
    cases members with
    | nil => simp [Members.signature, readMembers, Members.canon]
    | cons name type more =>
      obtain ⟨hname, htype, hmore⟩ := h
      have hsize : sizeOf type ≤ fuel ∧ sizeOf more ≤ fuel := by
        simp at hfuel
        omega
      cases more with
      | nil =>
        have hread := readType_signature htype fuel hsize.1
          (endsNumber_cons (c := '\x7d') (by decide) rest)
        rw [readMembers_cons hname hread (by simp [Members.signature, String.toList_append])]
        simp [Members.canon]
      | cons name' type' more' =>
        have hrest := readMembers_signature hmore fuel hsize.2 rest
        have hread := readType_signature htype fuel hsize.1
          (endsNumber_cons (c := ';') (by decide)
            ((Members.cons name' type' more').signature.toList ++ '\x7d' :: rest))
        rw [readMembers_cons hname hread (by simp [Members.signature, String.toList_append])]
        simp [Members.canon, hrest]

end

/-- Readable types with the same signature are the same type under other names. -/
theorem Ty.canon_eq_of_readable {a b : Ty} (ha : a.Readable) (hb : b.Readable)
    (h : a.signature = b.signature) : a.canon = b.canon := by
  have hread := readType_signature ha (sizeOf a + sizeOf b) (by omega) (endsNumber_nil)
  rw [h, readType_signature hb (sizeOf a + sizeOf b) (by omega) (endsNumber_nil)] at hread
  simpa using hread.symm

/-- Types with the same signature and clean names are the same type under other names. -/
theorem Ty.canon_eq_of_signature {a b : Ty} (ha : a.Named CleanName) (hb : b.Named CleanName)
    (h : a.signature = b.signature) : a.canon = b.canon :=
  canon_eq_of_readable (ha.mono fun _ => CleanName.readable).readable
    (hb.mono fun _ => CleanName.readable).readable h

/-- A type has one signature under all its names. -/
theorem Ty.signature_eq_of_canon {a b : Ty} (h : a.canon = b.canon) :
    a.signature = b.signature := by
  rw [← a.signature_canon, h, b.signature_canon]

/-- With clean names, the types that the emitter takes for the same are those with the same
canonical form. -/
theorem Ty.same_iff {a b : Ty} (ha : a.Named CleanName) (hb : b.Named CleanName) :
    a.same b = true ↔ a.canon = b.canon := by
  rw [Ty.same, beq_iff_eq]
  exact ⟨canon_eq_of_signature ha hb, signature_eq_of_canon⟩

/-- Signatures are faithful to types: types that are one type under different names have one
signature, and readable types with one signature are one type. Readable means that no structure name
has an opening brace and no member name has a colon or begins with a closing brace. -/
theorem signature_faithful (a b : Ty) :
    (a.canon = b.canon → a.signature = b.signature) ∧
      (a.Readable → b.Readable → a.signature = b.signature → a.canon = b.canon) :=
  ⟨Ty.signature_eq_of_canon, Ty.canon_eq_of_readable⟩

/-- Other braces and semicolons in names do no harm, and an enumeration is its integer. -/
theorem signature_faithful_byte :
    let byte : Ty := .enum "Color\x7b" ⟨8, false⟩
    let a : Ty := .pointer (.struct "S\x7d:;" (.cons "x;\x7by\x7d" byte (.cons "" .unset .nil)))
    let b : Ty := .pointer (.struct "S\x7d:;" (.cons "x;\x7by\x7d" .char (.cons "" .void .nil)))
    a ≠ b ∧ a.Readable ∧ b.Readable ∧ a.signature = b.signature ∧ a.canon = b.canon := by
  intro byte a b
  have hx : MemberName "x;\x7by\x7d" := by
    unfold MemberName
    decide
  have hempty : MemberName "" := by
    unfold MemberName
    decide
  have ha : a.Readable := ⟨by decide, hx, trivial, hempty, trivial, trivial⟩
  have hb : b.Readable := ⟨by decide, hx, trivial, hempty, trivial, trivial⟩
  have hsignature : a.signature = b.signature := by decide
  exact ⟨by decide, ha, hb, hsignature, (signature_faithful a b).2 ha hb hsignature⟩

/-- With a colon in its name, one member reads like two. -/
theorem signature_eq_of_colon :
    let a : Ty := .struct "S" (.cons "x" .bool (.cons "y" .bool .nil))
    let b : Ty := .struct "S" (.cons "x:bool;y" .bool .nil)
    a.signature = b.signature ∧ a.canon ≠ b.canon := by
  decide

-- An opening brace in the name of a structure.
example :
    let a : Ty := .struct "S" (.cons "x\x7by" .bool .nil)
    let b : Ty := .struct "S\x7bx" (.cons "y" .bool .nil)
    a.signature = b.signature ∧ a.canon ≠ b.canon := by
  decide

-- A closing brace at the start of a member name, read as the end of an empty structure.
example :
    let empty : Ty := .struct "S" .nil
    let a : Ty := .struct "T" (.cons "a" empty
      (.cons "b" (.struct "S" (.cons "\x7d;c" .bool .nil)) .nil))
    let b : Ty := .struct "T" (.cons "a"
      (.struct "S" (.cons "\x7d;b" empty (.cons "c" .bool .nil))) .nil)
    a.signature = b.signature ∧ a.canon ≠ b.canon := by
  decide

/-! ## Keys -/

namespace Ty

@[simp] theorem underlying_underlying (t : Ty) : t.underlying.underlying = t.underlying := by
  cases t <;> rfl

@[simp] theorem canon_underlying (t : Ty) : t.underlying.canon = t.canon := by
  cases t <;> rfl

@[simp] theorem isOpaque_underlying (t : Ty) : t.underlying.isOpaque = t.isOpaque := by
  cases t <;> rfl

@[simp] theorem named_underlying {ok : String → Prop} (t : Ty) :
    t.underlying.Named ok ↔ t.Named ok := by
  cases t <;> rfl

@[simp] theorem isOpaque_canon : ∀ t : Ty, t.canon.isOpaque = t.isOpaque
  | .array elem _ => isOpaque_canon elem
  | .unset | .char | .enum _ _ | .bool | .int _ | .float _ | .vector _ | .matrix4 | .pointer _
  | .sampledImage2D | .struct _ _ | .void | .string | .dateTime | .null => rfl

@[simp] theorem underlying_canon (t : Ty) : t.canon.underlying = t.canon := by
  cases t <;> rfl

end Ty

mutual

@[simp] theorem Ty.canon_canon : ∀ t : Ty, t.canon.canon = t.canon
  | .array elem length => by simp only [Ty.canon, Ty.canon_canon elem]
  | .pointer elem => by simp only [Ty.canon, Ty.canon_canon elem]
  | .struct name members => by simp only [Ty.canon, Members.canon_canon members]
  | .unset | .char | .enum _ _ | .bool | .int _ | .float _ | .vector _ | .matrix4
  | .sampledImage2D | .void | .string | .dateTime | .null => rfl

@[simp] theorem Members.canon_canon : ∀ members : Members, members.canon.canon = members.canon
  | .nil => rfl
  | .cons name type rest => by
    simp only [Members.canon, Ty.canon_canon type, Members.canon_canon rest]

end

mutual

@[simp] theorem Ty.named_canon {ok : String → Prop} : ∀ t : Ty, t.canon.Named ok ↔ t.Named ok
  | .array elem length => by simp only [Ty.canon, Ty.Named, Ty.named_canon elem]
  | .pointer elem => by simp only [Ty.canon, Ty.Named, Ty.named_canon elem]
  | .struct name members => by simp only [Ty.canon, Ty.Named, Members.named_canon members]
  | .unset | .char | .enum _ _ | .bool | .int _ | .float _ | .vector _ | .matrix4
  | .sampledImage2D | .void | .string | .dateTime | .null => Iff.rfl

@[simp] theorem Members.named_canon {ok : String → Prop} :
    ∀ members : Members, members.canon.Named ok ↔ members.Named ok
  | .nil => Iff.rfl
  | .cons name type rest => by
    simp only [Members.canon, Members.Named, Ty.named_canon type, Members.named_canon rest]

end

namespace StorageClass

/-- What the signature of a key has after the signature of its type. -/
def text (sc : StorageClass) : List Char :=
  if sc = .none then [] else '@' :: Nat.toDigits 10 sc.toNat

/-- The text of a storage class does not continue a number. -/
theorem endsNumber_text (sc : StorageClass) : EndsNumber sc.text := by
  unfold text
  split
  · exact endsNumber_nil
  · exact endsNumber_cons (by decide) _

/-- The text of a storage class tells the class. -/
theorem text_inj {a b : StorageClass} (h : a.text = b.text) : a = b := by
  unfold text at h
  split at h <;> split at h
  · rename_i ha hb
    rw [ha, hb]
  · cases h
  · cases h
  · have hdigits := (List.cons.inj h).2
    have ha := readNumber_append a.toNat endsNumber_nil
    rw [hdigits, readNumber_append _ endsNumber_nil] at ha
    exact (UInt32.toNat_inj.mp (Prod.mk.inj ha).1).symm

end StorageClass

namespace Key

/-- The key with every name for another type resolved. -/
def canon (k : Key) : Key :=
  ⟨k.normalize.type.canon, k.normalize.storage⟩

/-- The signature of a key is that of the type, and then the storage class. -/
theorem toList_signature (k : Key) :
    k.signature.toList = k.normalize.type.signature.toList ++ k.normalize.storage.text := by
  unfold signature StorageClass.text
  by_cases h : k.normalize.storage = .none
  · simp [h]
  · simp [h, String.toList_append]

@[simp] theorem normalize_pointer (elem : Ty) (storage : StorageClass) :
    (Key.mk (.pointer elem) storage).normalize =
      ⟨.pointer elem.underlying, if elem.isOpaque then .uniformConstant else storage⟩ := rfl

@[simp] theorem normalize_normalize (k : Key) : k.normalize.normalize = k.normalize := by
  obtain ⟨type, storage⟩ := k
  cases type with
  | pointer elem => cases himage : elem.isOpaque <;> simp [himage]
  | _ => rfl

@[simp] theorem named_normalize {ok : String → Prop} (k : Key) :
    k.normalize.type.Named ok ↔ k.type.Named ok := by
  obtain ⟨type, storage⟩ := k
  cases type with
  | pointer elem => exact elem.named_underlying
  | _ => rfl

@[simp] theorem signature_normalize (k : Key) : k.normalize.signature = k.signature := by
  simp [signature]

theorem normalize_canon (k : Key) : k.canon.normalize = k.canon := by
  obtain ⟨type, storage⟩ := k
  cases type with
  | pointer elem => cases himage : elem.isOpaque <;> simp [canon, Ty.canon, himage]
  | _ => rfl

@[simp] theorem canon_canon (k : Key) : k.canon.canon = k.canon := by
  rw [canon, normalize_canon]
  simp only [canon, Ty.canon_canon]

@[simp] theorem signature_canon (k : Key) : k.canon.signature = k.signature := by
  have hcanon := k.normalize.type.signature_canon
  unfold signature
  rw [normalize_canon]
  simp only [canon, hcanon]

/-- Keys with the same signature and readable names are the same key under other names. -/
theorem canon_eq_of_readable {a b : Key} (ha : a.type.Named ReadableName)
    (hb : b.type.Named ReadableName) (h : a.signature = b.signature) : a.canon = b.canon := by
  have htext : a.normalize.type.signature.toList ++ a.normalize.storage.text =
      b.normalize.type.signature.toList ++ b.normalize.storage.text := by
    rw [← toList_signature, ← toList_signature, h]
  have ha' := ((a.named_normalize).mpr ha).readable
  have hb' := ((b.named_normalize).mpr hb).readable
  have hread := readType_signature ha' (sizeOf a.normalize.type + sizeOf b.normalize.type)
    (by omega) a.normalize.storage.endsNumber_text
  rw [htext, readType_signature hb' _ (by omega) b.normalize.storage.endsNumber_text] at hread
  obtain ⟨htype, hstorage⟩ := Prod.mk.inj (Option.some.inj hread)
  rw [canon, canon, htype, StorageClass.text_inj hstorage]

/-- With clean names, the signature of a key tells the key up to the names for its type. -/
theorem canon_eq_of_signature {a b : Key} (ha : a.type.Named CleanName)
    (hb : b.type.Named CleanName) (h : a.signature = b.signature) : a.canon = b.canon :=
  canon_eq_of_readable (ha.mono fun _ => CleanName.readable) (hb.mono fun _ => CleanName.readable) h

end Key

/-! ## Lengths -/

namespace Key

/-- Only pointers keep their storage class. -/
theorem normalize_of_not_pointer {t : Ty} (h : ∀ elem, t ≠ .pointer elem)
    (storage : StorageClass) : (Key.mk t storage).normalize = ⟨t.underlying, .none⟩ := by
  cases t with
  | pointer elem => exact absurd rfl (h elem)
  | _ => rfl

@[simp] theorem canon_mk_canon (t : Ty) (storage : StorageClass) :
    (Key.mk t.canon storage).canon = (Key.mk t storage).canon := by
  cases t with
  | pointer elem => cases himage : elem.isOpaque <;> simp [canon, Ty.canon, himage]
  | array elem length => simp [canon, normalize, Ty.canon, Ty.underlying]
  | struct name members => simp [canon, normalize, Ty.canon, Ty.underlying]
  | _ => rfl

theorem signature_mk_canon (t : Ty) (storage : StorageClass) :
    (Key.mk t.canon storage).signature = (Key.mk t storage).signature := by
  rw [← signature_canon, canon_mk_canon, signature_canon]

/-- The lengths of the two parts add up. -/
theorem length_signature (k : Key) :
    k.signature.length = k.normalize.type.signature.length + k.normalize.storage.text.length := by
  rw [← String.length_toList, toList_signature, List.length_append, String.length_toList]

end Key

@[simp] theorem Ty.signature_underlying (t : Ty) : t.underlying.signature = t.signature := by
  rw [← Ty.signature_canon, Ty.canon_underlying, Ty.signature_canon]

/-- A pointer adds five characters to what it points to. -/
theorem Key.length_signature_pointer (elem : Ty) (storage : StorageClass) :
    (Key.mk (.pointer elem) storage).signature.length =
      elem.signature.length + 5 +
        (if elem.isOpaque then .uniformConstant else storage : StorageClass).text.length := by
  rw [length_signature, normalize_pointer]
  simp only [Ty.signature, Ty.signature_underlying, String.length_append]
  have h4 : "ptr<".length = 4 := rfl
  have h1 : ">".length = 1 := rfl
  omega

/-- A storage class adds no more than its text. -/
theorem Key.length_signature_le (t : Ty) (storage : StorageClass) :
    (Key.mk t storage).signature.length ≤ t.signature.length + max 2 storage.text.length := by
  have huniform : StorageClass.uniformConstant.text.length = 2 := by decide
  by_cases hpointer : ∃ elem, t = .pointer elem
  · obtain ⟨elem, rfl⟩ := hpointer
    rw [length_signature_pointer]
    have hlength : (Ty.pointer elem).signature.length = elem.signature.length + 5 := by
      simp only [Ty.signature, String.length_append]
      have h4 : "ptr<".length = 4 := rfl
      have h1 : ">".length = 1 := rfl
      omega
    split <;> omega
  · have hnone : StorageClass.none.text.length = 0 := by decide
    rw [length_signature, normalize_of_not_pointer (fun elem h => hpointer ⟨elem, h⟩),
      Ty.signature_underlying]
    dsimp only
    omega

/-- What a pointer points to has a shorter signature. -/
theorem Key.length_signature_pointee (elem : Ty) (storage : StorageClass) :
    (Key.mk elem (if elem.isOpaque then .uniformConstant else storage)).signature.length <
      (Key.mk (.pointer elem) storage).signature.length := by
  rw [length_signature_pointer]
  have h := length_signature_le elem (if elem.isOpaque then .uniformConstant else storage)
  omega

theorem Key.length_signature_value (t : Ty) :
    (Key.value t).signature.length ≤ t.signature.length + 2 := by
  have h := length_signature_le t .none
  have hnone : StorageClass.none.text.length = 0 := by decide
  rw [hnone] at h
  exact h

/-- An array has a longer signature than its elements and its length. -/
theorem Key.length_signature_array (elem : Ty) (length : UInt32) (storage : StorageClass) :
    max 4 (Key.value elem).signature.length <
      (Key.mk (.array elem length) storage).signature.length := by
  have hvalue := length_signature_value elem
  have h6 : "array<".length = 6 := rfl
  have h1 : ",".length = 1 := rfl
  have htext : (Key.mk (.array elem length) storage).signature =
      "array<" ++ elem.signature ++ "," ++ toString length.toNat ++ ">" := rfl
  simp only [htext, String.length_append]
  omega

/-- A structure type has a longer signature than its members. -/
theorem Key.length_signature_struct (name : String) (members : Members) (storage : StorageClass) :
    max 4 (members.signature.length + 1) <
      (Key.mk (.struct name members) storage).signature.length := by
  have h7 : "struct ".length = 7 := rfl
  have htext : (Key.mk (.struct name members) storage).signature =
      "struct " ++ name ++ "\x7b" ++ members.signature ++ "\x7d" := rfl
  simp only [htext, String.length_append]
  omega

theorem Members.length_signature_cons (name : String) (type : Ty) (rest : Members) :
    type.signature.length + rest.signature.length + 1 ≤
      (Members.cons name type rest).signature.length := by
  have h1 : ":".length = 1 := rfl
  have h2 : ";".length = 1 := rfl
  have h3 : "".length = 0 := rfl
  cases rest with
  | nil =>
    simp only [Members.signature, String.length_append]
    omega
  | cons name' type' rest' =>
    simp only [Members.signature, String.length_append]
    omega

end ShaderStage

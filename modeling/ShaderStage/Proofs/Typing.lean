import Mathlib.Algebra.GroupWithZero.Nat
import ShaderStage.Proofs.Consistency

/-! # Static typing

Which programs are well typed, as rules: how a field is placed, which parts a type has and what it
can be made of, which types an operator combines, and what each operation does to a stack of types.
The functions that check types decide these rules.

* `Operation.Types`, `Method.WellTyped`, `Program.WellTyped`: the rules;
* `Ty.checkParts_eq_ok_iff`, `BinaryOperator.exists_resolves_iff`: what the emitter checks is what
  the rules say. -/

namespace ShaderStage

/-! ## Types -/

/-- The two types are one type under different names. -/
def Ty.Alike (a b : Ty) : Prop :=
  a.canon = b.canon

/-- It does not matter which of two types is compared with the other. -/
theorem Ty.Alike.symm {a b : Ty} (h : a.Alike b) : b.Alike a :=
  Eq.symm h

/-- The type is void, a scalar, a vector or the matrix. -/
def Ty.Basic : Ty → Prop
  | .unset | .void | .bool | .int _ | .char | .enum _ _ | .float _ | .vector _ | .matrix4 => True
  | _ => False

/-- The type has a part at an index, of the given type. -/
inductive Ty.HasPart : Ty → UInt32 → Ty → Prop
  | vector {count : UInt8} {i : UInt32} (h : i < count.toUInt32) :
      HasPart (.vector count) i .float32
  | matrix4 {i : UInt32} (h : i < 4) : HasPart .matrix4 i .vec4
  | array {elem : Ty} {length i : UInt32} (h : i < length) : HasPart (.array elem length) i elem
  | struct {name : String} {members : Members} {i : UInt32} {type : Ty}
      (h : members.type? i.toNat = some type) : HasPart (.struct name members) i type

/-- Errors about the parts that a composite has or is made of. -/
def CompileError.aboutParts : CompileError → Bool
  | .componentOutOfRange .. | .columnOutOfRange .. | .elementOutOfRange .. | .memberOutOfRange ..
  | .notComposite .. | .vectorPart .. | .vectorComponents .. | .partCount .. | .partMismatch .. =>
    true
  | _ => false

/-- An error about parts lays the blame on the program. -/
theorem CompileError.kind_of_aboutParts {e : CompileError} (h : e.aboutParts = true) :
    e.kind = .invalidProgram := by
  cases e <;> first | rfl | cases h

/-- The number of parts of a composite that is no vector. -/
def Ty.partCount? : Ty → Option Nat
  | .matrix4 => some 4
  | .array _ length => some length.toNat
  | .struct _ members => some members.length
  | _ => none

/-- A part of a vector and the number of components it contributes. -/
inductive Ty.Spans : Ty → Nat → Prop
  | vector (count : UInt8) : Spans (.vector count) count.toNat
  | scalar : Spans .float32 1

/-- A value of the type can be made of parts of the given types. -/
inductive Ty.Built : Ty → List Ty → Prop
  | vector {count : UInt8} {parts : List Ty} {counts : List Nat}
      (hparts : List.Forall₂ Ty.Spans parts counts) (hsum : counts.sum = count.toNat) :
      Built (.vector count) parts
  /-- Positions of parts are words. -/
  | parts {t : Ty} {parts : List Ty} (hcount : t.partCount? = some parts.length)
      (hparts : ∀ i part, parts[i]? = some part →
        ∃ type, t.HasPart (.ofNat i) type ∧ part.Alike type) : Built t parts

/-- The type has arithmetic. -/
inductive Ty.Arithmetic : Ty → Prop
  | float (width : UInt8) : Arithmetic (.float width)
  | vector (count : UInt8) : Arithmetic (.vector count)
  | int (type : IntTy) : Arithmetic (.int type)

/-- The operator takes operands of the first two types to a result of the third. -/
inductive BinaryOperator.Combines : BinaryOperator → Ty → Ty → Ty → Prop
  | matrixMatrix : Combines .multiply .matrix4 .matrix4 .matrix4
  | matrixVector : Combines .multiply .matrix4 .vec4 .vec4
  | vectorMatrix : Combines .multiply .vec4 .matrix4 .vec4
  | matrixScalar : Combines .multiply .matrix4 .float32 .matrix4
  | scalarMatrix : Combines .multiply .float32 .matrix4 .matrix4
  | vectorScalar (count : UInt8) : Combines .multiply (.vector count) .float32 (.vector count)
  | scalarVector (count : UInt8) : Combines .multiply .float32 (.vector count) (.vector count)
  | uniform {op : BinaryOperator} {left right : Ty} (hop : ∀ code, op ≠ .unknown code)
      (hleft : left.Arithmetic) (h : left.Alike right) : Combines op left right left

/-- The argument types of the mathematical functions. -/
inductive Ty.MathOperand : Ty → Prop
  | float (width : UInt8) : MathOperand (.float width)
  | vector (count : UInt8) : MathOperand (.vector count)

/-! ## Bodies -/

/-- What the operations of a method are typed against: the result type of the method, and the keys
of the pointers to fields and locals. -/
structure Frame where
  result : Ty
  fields : List Key
  locals : List Key

/-- What an operation does to a stack of keys, the top first; `none` stands for a return. Keys on
the stack are normalized. -/
inductive Operation.Types (Γ : Frame) : List Key → Operation → Option (List Key) → Prop
  | loadField {st : List Key} {n : Int} {k : Key} (h : elementAt? Γ.fields n = some k) :
      Types Γ st (.loadField n) (some (k :: st))
  | loadLocal {st : List Key} {n : Int} {k : Key} (h : elementAt? Γ.locals n = some k) :
      Types Γ st (.loadLocal n) (some (k :: st))
  | storeField {st : List Key} {n : Int} {k v : Key} {t : Ty} (h : elementAt? Γ.fields n = some k)
      (hk : k.type = .pointer t) (hv : t.Alike v.type) :
      Types Γ (v :: st) (.storeField n) (some st)
  | storeLocal {st : List Key} {n : Int} {k v : Key} {t : Ty} (h : elementAt? Γ.locals n = some k)
      (hk : k.type = .pointer t) (hv : t.Alike v.type) :
      Types Γ (v :: st) (.storeLocal n) (some st)
  | store {st : List Key} {k v : Key} {t : Ty} (hk : k.type = .pointer t) (hv : t.Alike v.type) :
      Types Γ (v :: k :: st) .store (some st)
  | deref {st : List Key} {k : Key} {t : Ty} (hk : k.type = .pointer t) :
      Types Γ (k :: st) .deref (some ((Key.value t).normalize :: st))
  | pushUint {st : List Key} {v : UInt32} : Types Γ st (.pushUint v) (some (.value .uint32 :: st))
  | pushFloat {st : List Key} {v : UInt32} :
      Types Γ st (.pushFloat v) (some (.value .float32 :: st))
  | extract {st : List Key} {k : Key} {i : UInt32} {t : Ty} (h : k.type.HasPart i t) :
      Types Γ (k :: st) (.extract i) (some ((Key.value t).normalize :: st))
  | extract2 {st : List Key} {k : Key} {row col : UInt32} {t u : Ty} (h : k.type.HasPart row t)
      (h' : t.HasPart col u) :
      Types Γ (k :: st) (.extract2 row col) (some ((Key.value u).normalize :: st))
  | access {st : List Key} {k : Key} {i : UInt32} {t u : Ty} (hk : k.type = .pointer t)
      (h : t.HasPart i u) :
      Types Γ (k :: st) (.access i) (some ((Key.pointer u k.storage).normalize :: st))
  | construct {st : List Key} {t : Ty} {count : Int} (hcount : 0 ≤ count ∧ count ≤ st.length)
      (ht : t.Supported) (hparts : t.Built ((st.take count.toNat).reverse.map Key.type)) :
      Types Γ st (.construct t count) (some ((Key.value t).normalize :: st.drop count.toNat))
  | math {st : List Key} {k : Key} {f : MathFunction} (hf : ∀ code, f ≠ .unknown code)
      (hk : k.type.MathOperand) : Types Γ (k :: st) (.math f) (some (k :: st))
  | narrowVec4 {st : List Key} {k : Key} (hk : k.type = .vec4) :
      Types Γ (k :: st) .narrowVec4 (some (.value .vec3 :: st))
  | binary {st : List Key} {left right : Key} {op : BinaryOperator} {t : Ty}
      (h : op.Combines left.type right.type t) :
      Types Γ (right :: left :: st) (.binary op) (some ((Key.value t).normalize :: st))
  | dup {st : List Key} {k : Key} : Types Γ (k :: st) .dup (some (k :: k :: st))
  | pop {st : List Key} {k : Key} : Types Γ (k :: st) .pop (some st)
  | ret {st : List Key} (h : Γ.result.isVoid = true) : Types Γ st .ret none
  | retValue {st : List Key} {k : Key} (h : Γ.result.isVoid = false) (hk : k.type.Alike Γ.result) :
      Types Γ (k :: st) .ret none

/-- The operations are well typed from a stack on. Nothing follows a return, and only a void method
may end without one. -/
inductive Frame.Accepts (Γ : Frame) : List Key → List Operation → Prop
  | stop {st : List Key} (h : Γ.result.isVoid = true) : Accepts Γ st []
  | step {st st' : List Key} {op : Operation} {ops : List Operation}
      (h : op.Types Γ st (some st')) (hrest : Accepts Γ st' ops) : Accepts Γ st (op :: ops)
  | ret {st : List Key} {op : Operation} (h : op.Types Γ st none) : Accepts Γ st [op]

/-! ## Programs -/

/-- The layout places a field in a storage class. A binding comes first, then a push constant; a
specialization constant has no place; built-ins are for inputs and outputs, and must be known. -/
inductive Layout.Places (l : Layout) : StorageClass → Prop
  | uniform {binding : UInt32} (h : l.binding = some binding) : Places l .uniform
  | pushConstant (hbinding : l.binding = none) (h : l.pushConstant = true) :
      Places l .pushConstant
  | input (hbinding : l.binding = none) (hpush : l.pushConstant = false) (hspec : l.specId = none)
      (h : l.direction = .input) (hbuiltin : ∀ code, l.builtin ≠ some (.unknown code)) :
      Places l .input
  | output (hbinding : l.binding = none) (hpush : l.pushConstant = false) (hspec : l.specId = none)
      (h : l.direction = .output) (hbuiltin : ∀ code, l.builtin ≠ some (.unknown code)) :
      Places l .output
  | privateData (hbinding : l.binding = none) (hpush : l.pushConstant = false)
      (hspec : l.specId = none) (hinput : l.direction ≠ .input) (houtput : l.direction ≠ .output) :
      Places l .privateData

/-- The field is well typed, and the pointer to it has the given key. -/
structure Field.WellTyped (f : Field) (k : Key) : Prop where
  type : f.type.Supported
  place : ∃ storage, k = (Key.pointer f.type storage).normalize ∧
    match f.layout with
    | none => storage = .privateData
    | some l => l.Places storage

/-- The method is well typed beside fields with the given keys. -/
structure Method.WellTyped (m : Method) (fields : List Key) : Prop where
  result : m.result.Supported
  locals : ∀ l ∈ m.locals, l.type.Supported ∧ l.type.isOpaque = false
  body : Frame.Accepts
    ⟨m.result, fields, m.locals.map fun l => (Key.pointer l.type .function).normalize⟩ [] m.body

/-- The program is well typed. -/
structure Program.WellTyped (p : Program) : Prop where
  stage : ∀ code, p.stage ≠ .unknown code
  vertices : p.stage = .geometry → 0 < p.options.maxVertices
  entry : ∃ m ∈ p.methods, m.name = entryPointName
  body : ∃ keys, List.Forall₂ Field.WellTyped p.fields keys ∧ ∀ m ∈ p.methods, m.WellTyped keys

/-- Every type that a method declares has a property. -/
structure Method.EachType (P : Ty → Prop) (m : Method) : Prop where
  result : P m.result
  locals : ∀ l ∈ m.locals, P l.type
  constructs : ∀ t count, .construct t count ∈ m.body → P t

/-- Every type that a program declares has a property. -/
structure Program.EachType (P : Ty → Prop) (p : Program) : Prop where
  fields : ∀ f ∈ p.fields, P f.type
  methods : ∀ m ∈ p.methods, m.EachType P

/-! ## Checks -/

namespace Members

/-- The type of a member has the names that the structure type has. -/
theorem named_type? {N : String → Prop} {members : Members} (h : members.Named N) {i : Nat} {t : Ty}
    (ht : members.type? i = some t) : t.Named N := by
  induction members, i using type?.induct with
  | case1 i => cases ht
  | case2 name type rest =>
    cases ht
    exact h.2.1
  | case3 name type rest i ih => exact ih h.2.2 ht

/-- The members of a supported structure type are supported. -/
theorem supported_type? {members : Members} (h : members.Supported) {i : Nat} {t : Ty}
    (ht : members.type? i = some t) : t.Supported := by
  induction members, i using type?.induct with
  | case1 i => cases ht
  | case2 name type rest =>
    cases ht
    exact h.1
  | case3 name type rest i ih => exact ih h.2.2 ht

end Members

namespace Ty

/-- The emitter takes a value apart exactly where the type has a part. -/
theorem component_eq_ok_iff {t u : Ty} {i : UInt32} : t.component i = .ok u ↔ t.HasPart i u := by
  constructor
  · intro h
    unfold component at h
    cases t <;> simp only [underlying] at h
    case vector count =>
      split at h
      · rename_i hi
        cases h
        exact .vector hi
      · cases h
    case matrix4 =>
      split at h
      · rename_i hi
        cases h
        exact .matrix4 hi
      · cases h
    case array elem length =>
      split at h
      · rename_i hi
        cases h
        exact .array hi
      · cases h
    case struct name members =>
      split at h
      · rename_i hi
        cases h
        exact .struct hi
      · cases h
    all_goals cases h
  · intro h
    cases h with
    | vector hi => simp [component, underlying, hi]
    | matrix4 hi => simp [component, underlying, hi]
    | array hi => simp [component, underlying, hi]
    | struct hi => simp [component, underlying, hi]

/-- It is refused otherwise, with an error about the part. -/
theorem aboutParts_of_component {t : Ty} {i : UInt32} {e : CompileError}
    (h : t.component i = .error e) : e.aboutParts = true := by
  unfold component at h
  split at h
  · split at h <;> cases h
    rfl
  · split at h <;> cases h
    rfl
  · split at h <;> cases h
    rfl
  · split at h <;> cases h
    rfl
  · cases h
    rfl

theorem HasPart.named {N : String → Prop} {t u : Ty} {i : UInt32} (h : t.HasPart i u)
    (ht : t.Named N) : u.Named N := by
  cases h with
  | vector | matrix4 => trivial
  | array => exact ht
  | @struct name members i type hi =>
    exact Members.named_type? ht.2 hi

theorem HasPart.supported {t u : Ty} {i : UInt32} (h : t.HasPart i u) (ht : t.Supported) :
    u.Supported := by
  cases h with
  | vector => exact .inr (.inl rfl)
  | matrix4 => exact ⟨by decide, by decide⟩
  | array => exact ht.2
  | @struct name members i type hi => exact Members.supported_type? ht hi

theorem HasPart.unique {t u u' : Ty} {i : UInt32} (h : t.HasPart i u) (h' : t.HasPart i u') :
    u = u' :=
  Except.ok.inj ((component_eq_ok_iff.mpr h).symm.trans (component_eq_ok_iff.mpr h'))

/-- With clean names, the only type that is the same as a float is a float. -/
theorem eq_float32_of_same {t : Ty} (ht : t.Named CleanName) (h : t.same .float32 = true) :
    t = .float32 := by
  have hcanon : t.canon = .float32 := (same_iff ht (b := .float32) trivial).mp h
  cases t with
  | float width => exact hcanon
  | _ => cases hcanon

theorem vectorComponents_cons (v : Ty) (count : Nat) {p : Ty} (rest : List Ty)
    (hp : ∀ n, p ≠ .vector n) :
    v.vectorComponents count (p :: rest) =
      if p.same .float32 then v.vectorComponents (count + 1) rest
      else .error (.vectorPart p v) := by
  cases p with
  | vector n => exact absurd rfl (hp n)
  | _ => rfl

/-- The components are counted exactly if each part spans some of them. -/
theorem vectorComponents_eq_ok_iff {v : Ty} {parts : List Ty}
    (hparts : ∀ p ∈ parts, p.Named CleanName) {count n : Nat} :
    v.vectorComponents count parts = .ok n ↔
      ∃ counts, List.Forall₂ Spans parts counts ∧ n = count + counts.sum := by
  induction parts generalizing count with
  | nil =>
    constructor
    · intro h
      cases h
      exact ⟨[], .nil, rfl⟩
    · rintro ⟨counts, hspans, rfl⟩
      cases hspans
      rfl
  | cons p rest ih =>
    have hrest : ∀ q ∈ rest, q.Named CleanName := fun q hq => hparts q (List.mem_cons_of_mem _ hq)
    -- A part is a vector, a single number, or nothing that a vector is made of.
    by_cases hvector : ∃ k, p = .vector k
    · obtain ⟨k, rfl⟩ := hvector
      show v.vectorComponents (count + k.toNat) rest = .ok n ↔ _
      rw [ih hrest]
      constructor
      · rintro ⟨counts, hspans, rfl⟩
        exact ⟨k.toNat :: counts, .cons (.vector k) hspans, by simp [Nat.add_assoc]⟩
      · rintro ⟨counts, hspans, rfl⟩
        cases hspans with
        | cons hhead htail =>
          cases hhead
          exact ⟨_, htail, by simp [Nat.add_assoc]⟩
    · rw [vectorComponents_cons v count rest fun k hk => hvector ⟨k, hk⟩]
      by_cases hsame : p.same .float32 = true
      · have hp := eq_float32_of_same (hparts p List.mem_cons_self) hsame
        subst hp
        rw [if_pos hsame, ih hrest]
        constructor
        · rintro ⟨counts, hspans, rfl⟩
          exact ⟨1 :: counts, .cons .scalar hspans, by simp [Nat.add_assoc]⟩
        · rintro ⟨counts, hspans, rfl⟩
          cases hspans with
          | cons hhead htail =>
            cases hhead
            exact ⟨_, htail, by simp [Nat.add_assoc]⟩
      · rw [if_neg hsame]
        constructor
        · intro h
          cases h
        · rintro ⟨counts, hspans, -⟩
          cases hspans with
          | cons hhead htail =>
            cases hhead with
            | vector k => exact absurd ⟨k, rfl⟩ hvector
            | scalar => exact absurd (by decide) hsame

/-- The check passes exactly if each part is alike to the member at its place. -/
theorem checkMembers_eq_ok_iff {t : Ty} (ht : t.Named CleanName) {parts : List Ty}
    (hparts : ∀ p ∈ parts, p.Named CleanName) {index : Nat} :
    t.checkMembers index parts = .ok () ↔
      ∀ i part, parts[i]? = some part →
        ∃ type, t.HasPart (.ofNat (index + i)) type ∧ part.Alike type := by
  induction parts generalizing index with
  | nil =>
    refine ⟨fun _ i part h => ?_, fun _ => rfl⟩
    cases h
  | cons p rest ih =>
    have hp := hparts p List.mem_cons_self
    have hrest : ∀ q ∈ rest, q.Named CleanName := fun q hq => hparts q (List.mem_cons_of_mem _ hq)
    unfold checkMembers
    constructor
    · intro h
      split at h
      · cases h
      · rename_i wanted hwanted
        have hpart := component_eq_ok_iff.mp hwanted
        split at h
        · rename_i hsame
          have hsame := (same_iff hp (hpart.named ht)).mp hsame
          rintro (_ | i) part hi
          · cases hi
            exact ⟨wanted, hpart, hsame⟩
          · rw [show index + (i + 1) = index + 1 + i by omega]
            exact (ih hrest).mp h i part hi
        · cases h
    · intro h
      obtain ⟨wanted, hpart, hsame⟩ := h 0 p rfl
      have hwanted : t.component (.ofNat index) = .ok wanted := component_eq_ok_iff.mpr hpart
      rw [hwanted]
      dsimp only
      rw [if_pos ((same_iff hp (hpart.named ht)).mpr hsame)]
      refine (ih hrest).mpr fun i part hi => ?_
      rw [show index + 1 + i = index + (i + 1) by omega]
      exact h (i + 1) part hi

/-- A type with a known number of parts is checked member by member. -/
theorem checkParts_members {t : Ty} {n : Nat} (h : t.partCount? = some n) (parts : List Ty) :
    t.checkParts parts = checkParts.members t parts n := by
  cases t <;> cases h <;> rfl

/-- The parts of a vector are counted by their components. -/
theorem checkParts_vector (count : UInt8) (parts : List Ty) :
    (vector count).checkParts parts =
      match (vector count).vectorComponents 0 parts with
      | .error e => .error e
      | .ok found =>
        if found = count.toNat then .ok () else .error (.vectorComponents (.vector count) found) :=
  rfl

/-- The check passes exactly if the rules can build the type from the parts. -/
theorem checkParts_eq_ok_iff {t : Ty} (ht : t.Named CleanName) {parts : List Ty}
    (hparts : ∀ p ∈ parts, p.Named CleanName) : t.checkParts parts = .ok () ↔ t.Built parts := by
  -- A vector is made of numbers however they are grouped, other types part by part.
  by_cases hvector : ∃ count, t = .vector count
  · obtain ⟨count, rfl⟩ := hvector
    have hcomponents : ∀ n, (vector count).vectorComponents 0 parts = .ok n ↔
        ∃ counts, List.Forall₂ Spans parts counts ∧ n = 0 + counts.sum :=
      fun n => vectorComponents_eq_ok_iff hparts
    rw [checkParts_vector]
    constructor
    · intro h
      split at h
      · cases h
      · rename_i found hfound
        split at h
        · rename_i heq
          obtain ⟨counts, hspans, hsum⟩ := (hcomponents found).mp hfound
          exact .vector hspans (by omega)
        · cases h
    · intro h
      cases h with
      | vector hspans hsum =>
        rw [(hcomponents count.toNat).mpr ⟨_, hspans, by omega⟩]
        simp
      | parts hcount => cases hcount
  · cases hcount : t.partCount? with
    | none =>
      constructor
      · intro h
        cases t with
        | vector count => exact absurd ⟨count, rfl⟩ hvector
        | matrix4 | array | struct => cases hcount
        | _ => cases h
      · intro h
        cases h with
        | vector => exact absurd ⟨_, rfl⟩ hvector
        | parts hcount' =>
          rw [hcount] at hcount'
          cases hcount'
    | some n =>
      rw [checkParts_members hcount, checkParts.members]
      constructor
      · intro h
        split at h
        · rename_i hlength
          have hmembers := (checkMembers_eq_ok_iff ht hparts).mp h
          refine .parts (by rw [hcount, hlength]) fun i part hi => ?_
          have hpart := hmembers i part hi
          rwa [Nat.zero_add] at hpart
        · cases h
      · intro h
        cases h with
        | vector => exact absurd ⟨_, rfl⟩ hvector
        | parts hcount' hmembers =>
          rw [hcount, Option.some.injEq] at hcount'
          rw [if_pos hcount'.symm]
          refine (checkMembers_eq_ok_iff ht hparts).mpr fun i part hi => ?_
          rw [Nat.zero_add]
          exact hmembers i part hi

/-- Counting components fails with an error about parts. -/
theorem aboutParts_of_vectorComponents {v : Ty} {parts : List Ty} {count : Nat} {e : CompileError}
    (h : v.vectorComponents count parts = .error e) : e.aboutParts = true := by
  induction parts generalizing count with
  | nil => cases h
  | cons p rest ih =>
    unfold vectorComponents at h
    split at h
    · exact ih h
    · split at h
      · exact ih h
      · cases h
        rfl

/-- Checking members fails with an error about parts. -/
theorem aboutParts_of_checkMembers {t : Ty} {parts : List Ty} {index : Nat} {e : CompileError}
    (h : t.checkMembers index parts = .error e) : e.aboutParts = true := by
  induction parts generalizing index with
  | nil => cases h
  | cons p rest ih =>
    unfold checkMembers at h
    split at h
    · rename_i e' he
      cases h
      exact aboutParts_of_component he
    · split at h
      · exact ih h
      · cases h
        rfl

/-- If parts are refused, the error is about parts. -/
theorem aboutParts_of_checkParts {t : Ty} {parts : List Ty} {e : CompileError}
    (h : t.checkParts parts = .error e) : e.aboutParts = true := by
  have hmembers : ∀ n, checkParts.members t parts n = .error e → e.aboutParts = true := by
    intro n h
    unfold checkParts.members at h
    split at h
    · exact aboutParts_of_checkMembers h
    · cases h
      rfl
  unfold checkParts at h
  split at h
  · split at h
    · rename_i e' he
      cases h
      exact aboutParts_of_vectorComponents he
    · split at h <;> cases h
      rfl
  · exact hmembers _ h
  · exact hmembers _ h
  · exact hmembers _ h
  · cases h
    rfl

end Ty

/-- The products of operands of different shapes: the opcode, the type, and whether the operands
change places. -/
inductive Ty.Product : Ty → Ty → Opcode → Ty → Bool → Prop
  | matrixMatrix : Product .matrix4 .matrix4 .matrixTimesMatrix .matrix4 false
  | matrixVector : Product .matrix4 .vec4 .matrixTimesVector .vec4 false
  | vectorMatrix : Product .vec4 .matrix4 .vectorTimesMatrix .vec4 false
  | matrixScalar : Product .matrix4 .float32 .matrixTimesScalar .matrix4 false
  | scalarMatrix : Product .float32 .matrix4 .matrixTimesScalar .matrix4 true
  | vectorScalar (count : UInt8) :
      Product (.vector count) .float32 .vectorTimesScalar (.vector count) false
  | scalarVector (count : UInt8) :
      Product .float32 (.vector count) .vectorTimesScalar (.vector count) true

/-- The products that the emitter finds are those of the rules. -/
theorem Ty.product_of_product? {left right t : Ty} {c : Opcode} {swap : Bool}
    (h : left.product? right = some (c, t, swap)) : Product left right c t swap := by
  unfold product? at h
  split at h
  · cases h
    exact .matrixMatrix
  · split at h <;> cases h
    rename_i hn
    subst hn
    exact .matrixVector
  · split at h <;> cases h
    rename_i hn
    subst hn
    exact .vectorMatrix
  · split at h <;> cases h
    rename_i hscalar
    rw [of_decide_eq_true hscalar]
    exact .matrixScalar
  · split at h <;> cases h
    rename_i hscalar
    rw [of_decide_eq_true hscalar]
    exact .scalarMatrix
  · split at h <;> cases h
    rename_i hscalar
    rw [of_decide_eq_true hscalar]
    exact .vectorScalar _
  · split at h <;> cases h
    rename_i hscalar
    rw [of_decide_eq_true hscalar]
    exact .scalarVector _
  · cases h

theorem Ty.Product.named {N : String → Prop} {left right t : Ty} {c : Opcode} {swap : Bool}
    (h : Product left right c t swap) : t.Named N := by
  cases h <;> trivial

namespace BinaryOperator

/-- What an operator on operands of two types is emitted as: an opcode, the type of the result, and
whether the operands change places. -/
inductive Resolves (op : BinaryOperator) (left right : Ty) : Opcode → Ty → Bool → Prop
  | product {c : Opcode} {t : Ty} {swap : Bool} (hop : op = .multiply)
      (h : left.product? right = some (c, t, swap)) : Resolves op left right c t swap
  | uniform {kind : Arithmetic} {c : Opcode}
      (hproduct : op = .multiply → left.product? right = none) (hsame : left.same right = true)
      (hkind : op.arithmetic left = .ok kind) (h : op.opcode kind = .ok c) :
      Resolves op left right c left false

theorem Combines.named {N : String → Prop} {op : BinaryOperator} {left right t : Ty}
    (h : op.Combines left right t) (hleft : left.Named N) : t.Named N := by
  cases h with
  | uniform => exact hleft
  | _ => trivial

theorem Combines.supported {op : BinaryOperator} {left right t : Ty}
    (h : op.Combines left right t) (hleft : left.Supported) (hright : right.Supported) :
    t.Supported := by
  cases h with
  | uniform => exact hleft
  | matrixMatrix | matrixScalar | scalarMatrix => trivial
  | matrixVector => exact hright
  | vectorMatrix => exact hleft
  | vectorScalar => exact hleft
  | scalarVector => exact hright

/-- The products are what `multiply` combines. -/
theorem combines_of_product? {left right t : Ty} {c : Opcode} {swap : Bool}
    (h : left.product? right = some (c, t, swap)) : Combines .multiply left right t := by
  cases Ty.product_of_product? h with
  | matrixMatrix => exact .matrixMatrix
  | matrixVector => exact .matrixVector
  | vectorMatrix => exact .vectorMatrix
  | matrixScalar => exact .matrixScalar
  | scalarMatrix => exact .scalarMatrix
  | vectorScalar count => exact .vectorScalar count
  | scalarVector count => exact .scalarVector count

/-- The emitter finds an arithmetic only for types that have one. -/
theorem arithmetic_of_ok {op : BinaryOperator} {t : Ty} {kind : Arithmetic}
    (h : op.arithmetic t = .ok kind) : t.Arithmetic := by
  cases t with
  | float width => exact .float width
  | vector count => exact .vector count
  | int type => exact .int type
  | _ => cases h

/-- An unknown operator has no opcode. -/
theorem ne_unknown_of_opcode {op : BinaryOperator} {kind : Arithmetic} {c : Opcode}
    (h : op.opcode kind = .ok c) (code : UInt8) : op ≠ .unknown code := by
  rintro rfl
  cases h

/-- A known operator has an opcode for every type with an arithmetic. -/
theorem exists_opcode {op : BinaryOperator} (hop : ∀ code, op ≠ .unknown code) {t : Ty}
    (ht : t.Arithmetic) : ∃ kind c, op.arithmetic t = .ok kind ∧ op.opcode kind = .ok c := by
  have hkind : ∃ kind, op.arithmetic t = .ok kind := by
    cases ht with
    | float | vector => exact ⟨.float, rfl⟩
    | int type => exact ⟨_, rfl⟩
  obtain ⟨kind, hkind⟩ := hkind
  cases op with
  | unknown code => exact absurd rfl (hop code)
  | add | subtract | multiply | divide =>
    cases kind <;> exact ⟨_, _, hkind, rfl⟩

/-- Operands of the same type are never multiplied by the rules for products. -/
theorem product?_of_alike {left right : Ty} (hleft : left.Arithmetic) (h : left.Alike right) :
    left.product? right = none := by
  unfold Ty.Alike at h
  cases hleft with
  | float width =>
    cases right with
    | float width' => rfl
    | _ => cases h
  | vector count =>
    cases right with
    | vector count' => rfl
    | _ => cases h
  | int type =>
    cases right with
    | int | char | enum => rfl
    | _ => cases h

/-- Operators are emitted for exactly the combinations of types that they take. -/
theorem exists_resolves_iff {op : BinaryOperator} {left right t : Ty}
    (hleft : left.Named CleanName) (hright : right.Named CleanName) :
    (∃ c swap, op.Resolves left right c t swap) ↔ op.Combines left right t := by
  constructor
  · rintro ⟨c, swap, h⟩
    cases h with
    | product hop h =>
      subst hop
      exact combines_of_product? h
    | uniform hproduct hsame hkind h =>
      exact .uniform (ne_unknown_of_opcode h) (arithmetic_of_ok hkind)
        ((Ty.same_iff hleft hright).mp hsame)
  · intro h
    cases h with
    | uniform hop harith halike =>
      obtain ⟨kind, c, hkind, hc⟩ := exists_opcode hop harith
      exact ⟨c, false, .uniform (fun _ => product?_of_alike harith halike)
        ((Ty.same_iff hleft hright).mpr halike) hkind hc⟩
    | matrixMatrix | matrixVector | vectorMatrix | matrixScalar | scalarMatrix | vectorScalar
    | scalarVector => exact ⟨_, _, .product rfl rfl⟩

theorem Combines.unique {op : BinaryOperator} {left right t t' : Ty}
    (h : op.Combines left right t) (h' : op.Combines left right t') : t = t' := by
  cases h with
  | uniform hop harith halike =>
    cases h' with
    | uniform => rfl
    | _ => cases product?_of_alike harith halike
  | _ =>
    cases h' with
    | uniform hop harith halike => cases product?_of_alike harith halike
    | _ => rfl

end BinaryOperator

/-- A layout resolves to the place that its rules give it. -/
theorem Field.places_of_resolve {f : Field} {r : Resolution} (h : f.resolve = .ok r) :
    match f.layout with
    | none => r.storage = .privateData
    | some l => l.Places r.storage := by
  have hinterface : ∀ {l : Layout} {sc : StorageClass}, resolveInterface l sc = .ok r →
      r.storage = sc ∧ ∀ code, l.builtin ≠ some (.unknown code) := by
    intro l sc h
    unfold resolveInterface at h
    split at h
    · rename_i hnone
      cases h
      exact ⟨rfl, by simp [hnone]⟩
    · rename_i b hb
      rw [hb]
      cases b <;> cases h <;> exact ⟨rfl, nofun⟩
  unfold resolve at h
  cases hlayout : f.layout with
  | none =>
    rw [hlayout] at h
    cases h
    rfl
  | some l =>
    rw [hlayout] at h
    dsimp only at h ⊢
    split at h
    · rename_i hbinding
      cases h
      exact .uniform hbinding
    · rename_i hbinding hpush
      cases h
      exact .pushConstant hbinding hpush
    · cases h
    · rename_i hbinding hpush hspec
      split at h
      · rename_i hdir
        obtain ⟨hstorage, hbuiltin⟩ := hinterface h
        rw [hstorage]
        exact .input hbinding hpush hspec hdir hbuiltin
      · rename_i hdir
        obtain ⟨hstorage, hbuiltin⟩ := hinterface h
        rw [hstorage]
        exact .output hbinding hpush hspec hdir hbuiltin
      · rename_i hdir
        cases h
        exact .privateData hbinding hpush hspec (by simp [hdir]) (by simp [hdir])
      · rename_i code hdir
        cases h
        exact .privateData hbinding hpush hspec (by simp [hdir]) (by simp [hdir])

/-- A layout that does not resolve has no place. -/
theorem Field.not_places_of_resolve {f : Field} {e : CompileError} (h : f.resolve = .error e) :
    ((∃ number, e = .specializationConstant f.name number) ∨ ∃ code, e = .unknownBuiltin code) ∧
      ∃ l, f.layout = some l ∧ ∀ sc, ¬ l.Places sc := by
  have hinterface : ∀ {l : Layout} {sc : StorageClass}, resolveInterface l sc = .error e →
      ∃ code, e = .unknownBuiltin code ∧ l.builtin = some (.unknown code) := by
    intro l sc h
    unfold resolveInterface at h
    split at h
    · cases h
    · rename_i b hb
      cases b <;> cases h
      exact ⟨_, rfl, hb⟩
  unfold resolve at h
  split at h
  · cases h
  · rename_i l hlayout
    split at h
    · cases h
    · cases h
    · rename_i number hbinding hpush hspec
      cases h
      refine ⟨.inl ⟨number, rfl⟩, l, hlayout, fun sc hplaces => ?_⟩
      cases hplaces <;> simp_all
    · rename_i hbinding hpush hspec
      split at h
      · rename_i hdir
        obtain ⟨code, rfl, hcode⟩ := hinterface h
        refine ⟨.inr ⟨code, rfl⟩, l, hlayout, fun sc hplaces => ?_⟩
        cases hplaces <;> simp_all
      · rename_i hdir
        obtain ⟨code, rfl, hcode⟩ := hinterface h
        refine ⟨.inr ⟨code, rfl⟩, l, hlayout, fun sc hplaces => ?_⟩
        cases hplaces <;> simp_all
      · cases h
      · cases h

namespace Program

/-- Only an unknown stage has no execution model. -/
theorem models_isEmpty_iff {stage : Stage} :
    stage.models.isEmpty = true ↔ ∃ code, stage = .unknown code := by
  cases stage <;> simp [Stage.models]

/-- A program that passes the check has a stage, vertices if it is a geometry shader, and the entry
point that the check found. -/
theorem entry_of_check {p : Program} {i : Nat} (h : p.check = .ok i) :
    (∀ code, p.stage ≠ .unknown code) ∧ (p.stage = .geometry → 0 < p.options.maxVertices) ∧
      ∃ m, p.methods[i]? = some m ∧ m.name = entryPointName := by
  unfold check at h
  split at h
  · cases h
  rename_i hstage
  split at h
  · cases h
  rename_i hvertices
  split at h
  · rename_i index hindex
    cases h
    obtain ⟨hlt, hname, -⟩ := List.findIdx?_eq_some_iff_getElem.mp hindex
    refine ⟨fun code hcode => hstage (models_isEmpty_iff.mpr ⟨code, hcode⟩), fun hgeometry => ?_,
      p.methods[i], List.getElem?_eq_getElem hlt, of_decide_eq_true hname⟩
    have hne : p.options.maxVertices ≠ 0 := fun hzero => hvertices ⟨hgeometry, hzero⟩
    exact UInt32.pos_iff_ne_zero.mpr hne
  · cases h

/-- A program that does not pass is not well typed, and it is told so. -/
theorem not_wellTyped_of_check {p : Program} {e : CompileError} (h : p.check = .error e) :
    e.kind ≠ .internalError ∧ ¬ p.WellTyped := by
  unfold check at h
  split at h
  · rename_i hstage
    obtain ⟨code, hcode⟩ := models_isEmpty_iff.mp hstage
    cases h
    exact ⟨nofun, fun hwt => hwt.stage code hcode⟩
  split at h
  · rename_i hvertices
    cases h
    refine ⟨nofun, fun hwt => ?_⟩
    have hpos := hwt.vertices hvertices.1
    rw [hvertices.2] at hpos
    exact absurd hpos (by decide)
  split at h
  · cases h
  · rename_i hnone
    cases h
    refine ⟨nofun, fun hwt => ?_⟩
    obtain ⟨m, hm, hname⟩ := hwt.entry
    have hnot := List.findIdx?_eq_none_iff.mp hnone m hm
    simp [hname] at hnot

end Program

theorem Layout.Places.unique {l : Layout} {a b : StorageClass} (ha : l.Places a)
    (hb : l.Places b) : a = b := by
  cases ha <;> cases hb <;> simp_all

theorem Field.WellTyped.unique {f : Field} {k k' : Key} (h : f.WellTyped k)
    (h' : f.WellTyped k') : k = k' := by
  obtain ⟨-, a, rfl, ha⟩ := h
  obtain ⟨-, b, rfl, hb⟩ := h'
  cases hlayout : f.layout with
  | none =>
    rw [hlayout] at ha hb
    rw [ha, hb]
  | some l =>
    rw [hlayout] at ha hb
    rw [Layout.Places.unique ha hb]

/-- What an operation does to a stack is determined by the stack. -/
theorem Operation.Types.unique {Γ : Frame} {st : List Key} {op : Operation}
    {r r' : Option (List Key)} (h : op.Types Γ st r) (h' : op.Types Γ st r') : r = r' := by
  cases h with
  | loadField h =>
    cases h' with
    | loadField h' => cases h.symm.trans h'; rfl
  | loadLocal h =>
    cases h' with
    | loadLocal h' => cases h.symm.trans h'; rfl
  | deref hk =>
    cases h' with
    | deref hk' => cases hk.symm.trans hk'; rfl
  | extract h =>
    cases h' with
    | extract h' => rw [h.unique h']
  | extract2 hrow hcol =>
    cases h' with
    | extract2 hrow' hcol' =>
      cases hrow.unique hrow'
      rw [hcol.unique hcol']
  | access hk h =>
    cases h' with
    | access hk' h' =>
      cases hk.symm.trans hk'
      rw [h.unique h']
  | binary h =>
    cases h' with
    | binary h' => rw [h.unique h']
  | ret | retValue => cases h' <;> rfl
  | _ =>
    cases h'
    rfl

end ShaderStage

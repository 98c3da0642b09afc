import ShaderStage.Description.OperationLine
import ShaderStage.Proofs.TypeExpressions

/-! # Operation lines and their grammar

The reader of lines looks mnemonics up in three tables, by the number of their arguments. Here the
same is said from the side of the operations: each has at most one mnemonic and a shape of
arguments. A line is read exactly if it has the words of an operation, whatever blanks stand around
them. What is written of an operation is among those words, so it is read back.

* `parseOperation_eq_ok_iff`: the lines that are read;
* `parseOperation_agrees`: reading undoes writing, and nothing else is read. -/

namespace ShaderStage

open Text (Spaced IsWord Numeral SignedNumeral InInt64 decimal)

namespace Description

/-! ## The grammar -/

/-- The text stands for the field at this position. A text that is the name of a field is never
taken for a number. -/
inductive FieldText (s : LineScope) (text : List Char) (i : Int) : Prop
  | name {n : Nat} (h : s.fields.lookup (.ofList text) = some n) (hi : i = n)
  | number (hname : s.fields.lookup (.ofList text) = none) (h : SignedNumeral text i)
      (hrange : InInt64 i)

/-- The text stands for the number, which may have a sign. -/
structure PositionText (text : List Char) (i : Int) : Prop where
  numeral : SignedNumeral text i
  range : InInt64 i

end Description

namespace Operation

/-- The mnemonic of an operation. Those that no program can be made with have none. -/
def mnemonic? : Operation → Option String
  | .loadField _ => some "load_field"
  | .loadLocal _ => some "load_local"
  | .storeField _ => some "store_field"
  | .storeLocal _ => some "store_local"
  | .store => some "store"
  | .deref => some "deref"
  | .pushUint _ => some "push_uint"
  | .pushFloat _ => some "push_float"
  | .extract _ => some "extract"
  | .extract2 _ _ => some "extract2"
  | .access _ => some "access"
  | .construct _ _ => some "construct"
  | .math .sin => some "sin"
  | .math .cos => some "cos"
  | .math .inverseSqrt => some "inversesqrt"
  | .narrowVec4 => some "narrow_vec4"
  | .narrowMat4 => some "narrow_mat4"
  | .binary .add => some "add"
  | .binary .subtract => some "sub"
  | .binary .multiply => some "mul"
  | .binary .divide => some "div"
  | .dup => some "dup"
  | .pop => some "pop"
  | .ret => some "return"
  | .math (.unknown _) | .binary (.unknown _) | .missing => none

/-- The operation has these arguments. -/
def Arguments (s : Description.LineScope) (args : List (List Char)) : Operation → Prop
  | .loadField i | .storeField i => ∃ a, args = [a] ∧ Description.FieldText s a i
  | .loadLocal i | .storeLocal i => ∃ a, args = [a] ∧ Description.PositionText a i
  | .pushUint w | .extract w | .access w => ∃ a, args = [a] ∧ Numeral a w.toNat
  | .pushFloat bits => ∃ a, args = [a] ∧ Binary32.read a = .ok bits
  | .extract2 row col => ∃ a b, args = [a, b] ∧ Numeral a row.toNat ∧ Numeral b col.toNat
  | .construct type count =>
    ∃ a b, args = [a, b] ∧ Description.Denotes s.declared a type ∧ Description.PositionText b count
  | _ => args = []

end Operation

namespace Description

/-! ## Arguments -/

/-- A position is read exactly if it is a number in range. -/
theorem position_eq_ok_iff {text : List Char} {i : Int} :
    position text = .ok i ↔ PositionText text i := by
  rw [position, except_mapError_eq_ok_iff, Text.readInt64_eq_ok_iff]
  constructor
  · rintro ⟨hnumeral, hrange⟩
    exact ⟨hnumeral, hrange⟩
  · rintro ⟨hnumeral, hrange⟩
    exact ⟨hnumeral, hrange⟩

/-- An index is read exactly if it is a numeral. -/
theorem index_eq_ok_iff {text : List Char} {w : UInt32} :
    index text = .ok w ↔ Numeral text w.toNat := by
  rw [index, except_mapError_eq_ok_iff, Text.readUInt32_eq_ok_iff]

/-- A field is read by its name, and else by its position. -/
theorem fieldPosition_eq_ok_iff {s : LineScope} {text : List Char} {i : Int} :
    fieldPosition s text = .ok i ↔ FieldText s text i := by
  unfold fieldPosition
  cases hname : s.fields.lookup (.ofList text) with
  | some n =>
    constructor
    · rintro ⟨⟩
      exact .name hname rfl
    · intro h
      cases h with
      | name h hi =>
        rw [hname] at h
        cases h
        rw [hi]
      | number hnone _ _ =>
        rw [hname] at hnone
        cases hnone
  | none =>
    rw [position_eq_ok_iff]
    constructor
    · intro h
      exact .number hname h.numeral h.range
    · intro h
      cases h with
      | name h _ =>
        rw [hname] at h
        cases h
      | number _ hnumeral hrange => exact ⟨hnumeral, hrange⟩

/-! ## Tables -/

/-- The operations in the first table stand under their mnemonics, and take no arguments. -/
theorem mnemonic?_of_mem_plainOperations (s : LineScope) : ∀ e ∈ plainOperations,
    e.2.mnemonic? = some e.1 ∧ e.2.Arguments s [] := by
  simp [plainOperations, Operation.mnemonic?, Operation.Arguments]

/-- The second table reads the operations with one argument. -/
theorem mnemonic?_of_mem_unaryOperations (s : LineScope) : ∀ e ∈ unaryOperations s,
    ∀ a op, e.2 a = .ok op → op.mnemonic? = some e.1 ∧ op.Arguments s [a] := by
  simp only [unaryOperations, List.forall_mem_cons, except_map_eq_ok_iff, fieldPosition_eq_ok_iff,
    position_eq_ok_iff, index_eq_ok_iff, except_mapError_eq_ok_iff]
  refine ⟨?_, ?_, ?_, ?_, ?_, ?_, ?_, ?_, by simp⟩
  all_goals
    rintro a op ⟨i, hi, rfl⟩
    exact ⟨rfl, a, rfl, hi⟩

/-- The third table reads the operations with two arguments. -/
theorem mnemonic?_of_mem_binaryOperations (s : LineScope) : ∀ e ∈ binaryOperations s,
    ∀ a b op, e.2 a b = .ok op → op.mnemonic? = some e.1 ∧ op.Arguments s [a, b] := by
  simp only [binaryOperations, List.forall_mem_cons]
  refine ⟨?_, ?_, by simp⟩
  · intro a b op h
    obtain ⟨row, hrow, h⟩ := except_bind_eq_ok h
    obtain ⟨col, hcol, h⟩ := except_bind_eq_ok h
    cases h
    exact ⟨rfl, a, b, rfl, index_eq_ok_iff.mp hrow, index_eq_ok_iff.mp hcol⟩
  · intro a b op h
    obtain ⟨type, htype, h⟩ := except_bind_eq_ok h
    obtain ⟨count, hcount, h⟩ := except_bind_eq_ok h
    cases h
    exact ⟨rfl, a, b, rfl, parseType_eq_ok_iff.mp (except_mapError_eq_ok_iff.mp htype),
      position_eq_ok_iff.mp hcount⟩

theorem parseWords_plain {s : LineScope} {mnemonic : String} {op : Operation}
    (h : plainOperations.lookup mnemonic = some op) : parseWords s mnemonic [] = .ok op := by
  simp [parseWords, h]

theorem parseWords_unary {s : LineScope} {mnemonic : String}
    {f : List Char → Except LineError Operation} (hplain : plainOperations.lookup mnemonic = none)
    (h : (unaryOperations s).lookup mnemonic = some f) (a : List Char) :
    parseWords s mnemonic [a] = f a := by
  simp [parseWords, hplain, h]

theorem parseWords_binary {s : LineScope} {mnemonic : String}
    {f : List Char → List Char → Except LineError Operation}
    (hplain : plainOperations.lookup mnemonic = none)
    (hunary : (unaryOperations s).lookup mnemonic = none)
    (h : (binaryOperations s).lookup mnemonic = some f) (a b : List Char) :
    parseWords s mnemonic [a, b] = f a b := by
  simp [parseWords, hplain, hunary, h]

/-! ## Reading -/

/-- What is read has the mnemonic and the arguments of the words. -/
theorem mnemonic?_of_parseWords {s : LineScope} {mnemonic : String} {args : List (List Char)}
    {op : Operation} (h : parseWords s mnemonic args = .ok op) :
    op.mnemonic? = some mnemonic ∧ op.Arguments s args := by
  unfold parseWords at h
  split at h
  · next hlookup =>
    cases args with
    | nil =>
      cases h
      exact mnemonic?_of_mem_plainOperations s _ (mem_of_lookup hlookup)
    | cons a args => cases h
  · next hlookup =>
    split at h
    · next a => exact mnemonic?_of_mem_unaryOperations s _ (mem_of_lookup hlookup) a op h
    · cases h
  · next hlookup =>
    split at h
    · next a b =>
      exact mnemonic?_of_mem_binaryOperations s _ (mem_of_lookup hlookup) a b op h
    · cases h
  · cases h

/-- Every operation is read of its mnemonic and its arguments. -/
theorem parseWords_of_mnemonic? {s : LineScope} {mnemonic : String} {args : List (List Char)}
    {op : Operation} (hmnemonic : op.mnemonic? = some mnemonic) (hargs : op.Arguments s args) :
    parseWords s mnemonic args = .ok op := by
  cases op with
  | loadField i | storeField i =>
    cases hmnemonic
    obtain ⟨a, rfl, ha⟩ := hargs
    rw [parseWords_unary rfl rfl, fieldPosition_eq_ok_iff.mpr ha]
    rfl
  | loadLocal i | storeLocal i =>
    cases hmnemonic
    obtain ⟨a, rfl, ha⟩ := hargs
    rw [parseWords_unary rfl rfl, position_eq_ok_iff.mpr ha]
    rfl
  | pushUint w | extract w | access w =>
    cases hmnemonic
    obtain ⟨a, rfl, ha⟩ := hargs
    rw [parseWords_unary rfl rfl, index_eq_ok_iff.mpr ha]
    rfl
  | pushFloat bits =>
    cases hmnemonic
    obtain ⟨a, rfl, ha⟩ := hargs
    rw [parseWords_unary rfl rfl, ha]
    rfl
  | extract2 row col =>
    cases hmnemonic
    obtain ⟨a, b, rfl, ha, hb⟩ := hargs
    rw [parseWords_binary rfl rfl rfl, index_eq_ok_iff.mpr ha, index_eq_ok_iff.mpr hb]
    rfl
  | construct type count =>
    cases hmnemonic
    obtain ⟨a, b, rfl, ha, hb⟩ := hargs
    rw [parseWords_binary rfl rfl rfl, ha.parseType_eq, position_eq_ok_iff.mpr hb]
    rfl
  | math f =>
    cases hargs
    cases f <;> cases hmnemonic <;> exact parseWords_plain rfl
  | binary f =>
    cases hargs
    cases f <;> cases hmnemonic <;> exact parseWords_plain rfl
  | missing => cases hmnemonic
  | _ =>
    cases hargs
    cases hmnemonic
    exact parseWords_plain rfl

/-- A line is read exactly if it has the words of an operation. -/
theorem parseOperation_eq_ok_iff {s : LineScope} {line : List Char} {op : Operation} :
    parseOperation s line = .ok op ↔ ∃ mnemonic args,
      op.mnemonic? = some mnemonic ∧ op.Arguments s args ∧
        Spaced line (mnemonic.toList :: args) := by
  constructor
  · intro h
    unfold parseOperation at h
    split at h
    · cases h
    · next mnemonic args hwords =>
      obtain ⟨hmnemonic, hargs⟩ := mnemonic?_of_parseWords h
      refine ⟨_, args, hmnemonic, hargs, ?_⟩
      rw [String.toList_ofList]
      exact Text.words_eq_iff.mp hwords
  · rintro ⟨mnemonic, args, hmnemonic, hargs, hline⟩
    rw [parseOperation, hline.words_eq]
    dsimp only
    rw [String.ofList_toList]
    exact parseWords_of_mnemonic? hmnemonic hargs

end Description

/-! ## Writing -/

/-- The texts that fields and types are written as. -/
structure LineStyle where
  field : Int → List Char
  type : Ty → List Char

namespace Operation

/-- The arguments as they are written. -/
def arguments (style : LineStyle) : Operation → List (List Char)
  | .loadField i | .storeField i => [style.field i]
  | .loadLocal i | .storeLocal i => [decimal i]
  | .pushUint w | .extract w | .access w => [decimal w.toNat]
  | .extract2 row col => [decimal row.toNat, decimal col.toNat]
  | .construct type count => [style.type type, decimal count]
  | _ => []

/-- The operation can be written on a line. A field is written by its name, or by its position if no
field has that for a name; a type, by any word for it. Floats have no written form here. -/
def Writable (s : Description.LineScope) (style : LineStyle) : Operation → Prop
  | .loadField i | .storeField i =>
    IsWord (style.field i) ∧
        (∃ n : Nat, s.fields.lookup (.ofList (style.field i)) = some n ∧ i = n) ∨
      style.field i = decimal i ∧ s.fields.lookup (.ofList (decimal i)) = none ∧ InInt64 i
  | .loadLocal i | .storeLocal i => InInt64 i
  | .construct type count =>
    IsWord (style.type type) ∧ Description.parseType s.declared (style.type type) = .ok type ∧
      InInt64 count
  | .pushFloat _ => False
  | _ => True

end Operation

namespace Description

/-- A position in decimal is one. -/
theorem positionText_decimal {i : Int} (h : InInt64 i) : PositionText (decimal i) i :=
  ⟨Text.signedNumeral_decimal i, h⟩

/-- A number in decimal is a numeral. -/
theorem numeral_decimal (n : Nat) : Numeral (decimal n) n :=
  Text.numeral_toDigits n

/-- What is written for a field is read as the field. -/
theorem fieldText_of_writable {s : LineScope} {text : List Char} {i : Int}
    (h : IsWord text ∧ (∃ n : Nat, s.fields.lookup (.ofList text) = some n ∧ i = n) ∨
      text = decimal i ∧ s.fields.lookup (.ofList (decimal i)) = none ∧ InInt64 i) :
    FieldText s text i ∧ IsWord text := by
  rcases h with ⟨hword, n, hname, hi⟩ | ⟨rfl, hname, hrange⟩
  · exact ⟨.name hname hi, hword⟩
  · exact ⟨.number hname (Text.signedNumeral_decimal i) hrange, Text.isWord_decimal i⟩

/-- What is written for an operation are arguments of it. -/
theorem arguments_of_writable {s : LineScope} {style : LineStyle} {op : Operation}
    (h : op.Writable s style) : op.Arguments s (op.arguments style) := by
  cases op with
  | loadField i | storeField i => exact ⟨_, rfl, (fieldText_of_writable h).1⟩
  | loadLocal i | storeLocal i => exact ⟨_, rfl, positionText_decimal h⟩
  | pushUint w | extract w | access w => exact ⟨_, rfl, numeral_decimal _⟩
  | extract2 row col => exact ⟨_, _, rfl, numeral_decimal _, numeral_decimal _⟩
  | construct type count =>
    obtain ⟨-, htype, hcount⟩ := h
    exact ⟨_, _, rfl, parseType_eq_ok_iff.mp htype, positionText_decimal hcount⟩
  | pushFloat bits => cases h
  | _ => rfl

/-- What is written for an operation are words. -/
theorem isWord_of_writable {s : LineScope} {style : LineStyle} {op : Operation}
    (h : op.Writable s style) : ∀ a ∈ op.arguments style, IsWord a := by
  cases op with
  | loadField i | storeField i =>
    rintro a (_ | ⟨_, ⟨⟩⟩)
    exact (fieldText_of_writable h).2
  | construct type count =>
    rintro a (_ | ⟨_, _ | ⟨_, ⟨⟩⟩⟩)
    · exact h.1
    · exact Text.isWord_decimal count
  | _ => simp [Operation.arguments, Text.isWord_decimal]

end Description

namespace Operation

/-- The mnemonics are words. -/
theorem isWord_mnemonic? {op : Operation} {mnemonic : String} (h : op.mnemonic? = some mnemonic) :
    IsWord mnemonic.toList := by
  cases op with
  | math f => cases f <;> cases h <;> decide
  | binary f => cases f <;> cases h <;> decide
  | missing => cases h
  | _ => cases h; decide

end Operation

namespace Description

/-- A line is read as an operation exactly if it has a mnemonic and as many arguments as the
operation takes, with blanks around them, where the arguments have the values of the operation. Each
operation that can be written is read back from every line with its words. -/
theorem parseOperation_agrees (s : LineScope) :
    (∀ line op, parseOperation s line = .ok op ↔ ∃ mnemonic args,
        op.mnemonic? = some mnemonic ∧ op.Arguments s args ∧
          Spaced line (mnemonic.toList :: args)) ∧
      ∀ (style : LineStyle) (op : Operation) (mnemonic : String),
        op.mnemonic? = some mnemonic → op.Writable s style →
          (∃ line, Spaced line (mnemonic.toList :: op.arguments style)) ∧
            ∀ line, Spaced line (mnemonic.toList :: op.arguments style) →
              parseOperation s line = .ok op := by
  constructor
  · intro line op
    exact parseOperation_eq_ok_iff
  · intro style op mnemonic hmnemonic hop
    constructor
    · apply Text.exists_spaced
      rw [List.forall_mem_cons]
      exact ⟨Operation.isWord_mnemonic? hmnemonic, isWord_of_writable hop⟩
    · intro line hline
      exact parseOperation_eq_ok_iff.mpr
        ⟨mnemonic, _, hmnemonic, arguments_of_writable hop, hline⟩

/-- A field that has a number for its name is read by that name, not by position; an array type and
a negative count. -/
theorem parseOperation_agrees_named :
    let s : LineScope := ⟨[], [("colour", 0), ("1", 7)]⟩
    let style : LineStyle := ⟨fun _ => "1".toList, fun _ => "vec3[2]".toList⟩
    let pair : Ty := .array .vec3 2
    ((Operation.loadField 7).Writable s style ∧
        parseOperation s " load_field  1 ".toList = .ok (.loadField 7)) ∧
      (Operation.construct pair (-3)).Writable s style ∧
        parseOperation s "construct vec3[2]\t-3".toList = .ok (.construct pair (-3)) := by
  intro s style pair
  have hfield : (Operation.loadField 7).Writable s style :=
    .inl ⟨by decide, 7, by decide, rfl⟩
  have hvec3 : Names s.declared "vec3".toList .vec3 := .builtin rfl
  have htype : parseType s.declared (style.type pair) = .ok pair :=
    (denotes_writeType hvec3 (by decide) [2]).parseType_eq
  have hconstruct : (Operation.construct pair (-3)).Writable s style :=
    ⟨by decide, htype, by decide⟩
  refine ⟨⟨hfield, ?_⟩, hconstruct, ?_⟩
  · exact ((parseOperation_agrees s).2 style _ _ rfl hfield).2 _ (Text.words_eq_iff.mp (by decide))
  · exact ((parseOperation_agrees s).2 style _ _ rfl hconstruct).2 _
      (Text.words_eq_iff.mp (by decide))

end Description

end ShaderStage

import ShaderStage.Binary32.Shortest
import ShaderStage.Compile.Body
import ShaderStage.Proofs.Literals

/-! # Texts in modules

A name is written into a module as a text, and a text without zero bytes is read back as it was
written. The names that an emission makes up are of that kind if those are that it starts from:
numbers are written with plain characters, and the suffixes of names have no zero bytes.

* `Literal.decode_ofString`: a text without zero bytes is read back;
* `plain_toString`, `Binary32.plain_write`: numbers are plain;
* `extractName_eq`, `accessName_eq`: what is named after an operand is named with a suffix. -/

namespace ShaderStage

/-! ## Bytes of a text -/

/-- The text has no zero byte, which would end it in a module. -/
def NulFree (text : String) : Prop :=
  0 ∉ Literal.bytesOf text

instance (text : String) : Decidable (NulFree text) :=
  inferInstanceAs (Decidable (0 ∉ Literal.bytesOf text))

namespace Literal

/-- The bytes of two texts in a row are those of the first and then the second. -/
theorem bytesOf_append (a b : String) : bytesOf (a ++ b) = bytesOf a ++ bytesOf b := by
  simp [bytesOf, String.toUTF8]

/-- Only the empty text has no bytes. -/
theorem bytesOf_eq_nil {text : String} : bytesOf text = [] ↔ text = "" := by
  rw [bytesOf, Array.toList_eq_nil_iff, String.toUTF8, ← String.toByteArray_inj]
  constructor
  · intro h
    exact ByteArray.ext h
  · intro h
    rw [h]
    rfl

theorem bytesOf_ofList (cs : List Char) :
    bytesOf (String.ofList cs) = cs.flatMap String.utf8EncodeChar := by
  simp [bytesOf, String.toUTF8, List.utf8Encode]

/-- A text without zero bytes is read back as it was written, whatever follows it. -/
theorem decode_ofString_append {text : String} (h : NulFree text) (more : List Word) :
    decode (ofString text ++ more) = (bytesOf text, (ofString text).length) := by
  rw [ofString, decode_encode_append, beforeZero_eq_self h, length_encode]

/-- A text without zero bytes is read back as it was written. -/
theorem decode_ofString {text : String} (h : NulFree text) :
    (decode (ofString text)).1 = bytesOf text := by
  rw [← List.append_nil (ofString text), decode_ofString_append h]

/-- The bytes of the name that a text stands for: the empty text stands for none. -/
def label? (text : String) : Option (List UInt8) :=
  if text = "" then none else some (bytesOf text)

end Literal

/-- Two texts without zero bytes have none together. -/
theorem NulFree.append {a b : String} (ha : NulFree a) (hb : NulFree b) : NulFree (a ++ b) := by
  rw [NulFree, Literal.bytesOf_append, List.mem_append, not_or]
  exact ⟨ha, hb⟩

/-- A suffix brings in no zero bytes of its own. -/
theorem NulFree.suffixed {base suffix : String} (hbase : NulFree base) (hsuffix : NulFree suffix) :
    NulFree (suffixed base suffix) := by
  unfold ShaderStage.suffixed
  split
  · decide
  · exact hbase.append hsuffix

/-! ## Plain texts -/

/-- A number is written in digits. -/
theorem isDigit_of_mem_toString {n : Nat} {c : Char} (h : c ∈ (toString n).toList) :
    c.isDigit = true := by
  rw [Nat.toString_eq_ofList_toDigits, String.toList_ofList] at h
  exact Nat.isDigit_of_mem_toDigits (by decide) (by decide) h

/-- The bytes of a character come after an early one exactly if the character does. -/
theorem lt_utf8EncodeChar_iff {n : Nat} (hn : n < 128) {c : Char} {b : UInt8}
    (hb : b ∈ String.utf8EncodeChar c) : n < b.toNat ↔ n < c.toNat := by
  have hc : c.val.toNat = c.toNat := rfl
  unfold String.utf8EncodeChar at hb
  simp only [hc] at hb
  split_ifs at hb <;> simp only [List.mem_cons, List.not_mem_nil, or_false] at hb
  · rw [hb, UInt8.toNat_ofNat']
    omega
  · rcases hb with rfl | rfl <;> rw [UInt8.toNat_ofNat'] <;> omega
  · rcases hb with rfl | rfl | rfl <;> rw [UInt8.toNat_ofNat'] <;> omega
  · rcases hb with rfl | rfl | rfl | rfl <;> rw [UInt8.toNat_ofNat'] <;> omega

/-- The bytes of a text are those of its characters. -/
theorem bytesOf_eq_flatMap (text : String) :
    Literal.bytesOf text = text.toList.flatMap String.utf8EncodeChar := by
  rw [← Literal.bytesOf_ofList, String.ofList_toList]

/-- A check of all bytes goes through the text; a quantifier would go through all that can be bytes.
-/
theorem all_bytesOf_iff {n : Nat} (hn : n < 128) {text : String} :
    ((Literal.bytesOf text).all (n < ·.toNat)) = true ↔ ∀ c ∈ text.toList, n < c.toNat := by
  simp only [bytesOf_eq_flatMap, List.all_eq_true, decide_eq_true_eq]
  constructor
  · intro h c hc
    obtain ⟨b, hb⟩ := List.exists_mem_of_ne_nil _ (String.utf8EncodeChar_ne_nil (c := c))
    exact (lt_utf8EncodeChar_iff hn hb).mp (h b (List.mem_flatMap.mpr ⟨c, hc, hb⟩))
  · intro h b hb
    obtain ⟨c, hc, hb⟩ := List.mem_flatMap.mp hb
    exact (lt_utf8EncodeChar_iff hn hb).mpr (h c hc)

/-- The text has no blank, no end of line and no quote: its characters all come after these. -/
def Plain (text : String) : Prop :=
  ∀ c ∈ text.toList, '"'.toNat < c.toNat

/-- The bytes of a text are faster to look at than its characters. -/
instance (text : String) : Decidable (Plain text) :=
  decidable_of_iff _ (all_bytesOf_iff (n := 34) (by decide))

theorem Plain.append {a b : String} (ha : Plain a) (hb : Plain b) : Plain (a ++ b) := by
  intro c hc
  rw [String.toList_append, List.mem_append] at hc
  rcases hc with hc | hc
  · exact ha c hc
  · exact hb c hc

/-- A plain text has neither blanks nor quotes. -/
theorem Plain.not_mem {text : String} (h : Plain text) {c : Char} (hc : c.toNat ≤ 34) :
    c ∉ text.toList :=
  fun hmem => absurd (h c hmem) (Nat.not_lt.mpr hc)

/-- The digits come after the marks of a listing and before all letters. -/
theorem toNat_of_isDigit {c : Char} (h : c.isDigit = true) : 48 ≤ c.toNat ∧ c.toNat ≤ 57 := by
  simp only [Char.isDigit, Bool.and_eq_true, decide_eq_true_eq] at h
  exact h

/-- A number is written plainly. -/
theorem plain_toString (n : Nat) : Plain (toString n) := by
  intro c hc
  have hdigit := toNat_of_isDigit (isDigit_of_mem_toString hc)
  show 34 < c.toNat
  omega

/-- A plain text has no zero bytes. -/
theorem Plain.nulFree {text : String} (h : Plain text) : NulFree text := by
  intro hzero
  have hbytes := (all_bytesOf_iff (n := 34) (by decide)).mpr h
  exact absurd (List.all_eq_true.mp hbytes 0 hzero) (by decide)

/-! ## Texts of numbers -/

namespace Binary32

/-- What numbers are written with besides digits. -/
def marks : List Char := ['.', 'e', '-', '+']

variable {digits : List Char} {top : Int} {c : Char}

theorem isDigit_of_mem_replicate {n : Nat} (h : c ∈ List.replicate n '0') : c.isDigit = true := by
  rw [(List.mem_replicate.mp h).2]
  rfl

/-- With an exponent, a float is written in digits and marks. -/
theorem mem_writeScientific (hdigits : ∀ c ∈ digits, c.isDigit = true)
    (h : c ∈ writeScientific digits top) : c.isDigit = true ∨ c ∈ marks := by
  have hsign : (if top < 0 then '-' else '+') ∈ marks := by split <;> decide
  simp only [writeScientific, List.mem_append, List.mem_cons] at h
  rcases h with (h | h) | rfl | rfl | h | h
  · exact .inl (hdigits c (List.mem_of_mem_take h))
  · split at h
    · cases h
    · rcases List.mem_cons.mp h with rfl | h
      · exact .inr (by decide)
      · exact .inl (hdigits c (List.mem_of_mem_drop h))
  · exact .inr (by decide)
  · exact .inr hsign
  · exact .inl (isDigit_of_mem_replicate h)
  · exact .inl (Nat.isDigit_of_mem_toDigits (by decide) (by decide) h)

/-- Without an exponent, a float is written in digits and marks. -/
theorem mem_writePlain (hdigits : ∀ c ∈ digits, c.isDigit = true)
    (h : c ∈ writePlain digits top) : c.isDigit = true ∨ c ∈ marks := by
  unfold writePlain at h
  split at h
  · simp only [List.mem_append, List.mem_cons] at h
    rcases h with (rfl | rfl | h) | h
    · exact .inl rfl
    · exact .inr (by decide)
    · exact .inl (isDigit_of_mem_replicate h)
    · exact .inl (hdigits c h)
  · simp only [List.mem_append] at h
    rcases h with (h | h) | h
    · exact .inl (hdigits c (List.mem_of_mem_take h))
    · exact .inl (isDigit_of_mem_replicate h)
    · split at h
      · cases h
      · rcases List.mem_cons.mp h with rfl | h
        · exact .inr (by decide)
        · exact .inl (hdigits c (List.mem_of_mem_drop h))

/-- Whichever way is taken, a float is written in digits and marks. -/
theorem mem_writeMagnitude {bits : Nat} (h : c ∈ writeMagnitude bits) :
    c.isDigit = true ∨ c ∈ marks := by
  have hdigits : ∀ n, ∀ c ∈ dropZeros (Nat.toDigits 10 n), c.isDigit = true := by
    intro n c hc
    have hmem := (List.dropWhile_suffix _).subset (List.mem_reverse.mp hc)
    exact Nat.isDigit_of_mem_toDigits (by decide) (by decide) (List.mem_reverse.mp hmem)
  unfold writeMagnitude at h
  split at h
  · rw [List.mem_singleton.mp h]
    exact .inl rfl
  · unfold writeFinite at h
    dsimp only at h
    split at h
    · exact mem_writeScientific (hdigits _) h
    · exact mem_writePlain (hdigits _) h

/-- A float is written plainly. -/
theorem plain_write (bits : UInt32) : Plain (write bits) := by
  have hmarks : Plain (.ofList marks) := by decide
  have hmagnitude : ∀ n, ∀ c ∈ writeMagnitude n, '"'.toNat < c.toNat := by
    intro n c hc
    rcases mem_writeMagnitude hc with hdigit | hmark
    · have := toNat_of_isDigit hdigit
      show 34 < c.toNat
      omega
    · exact hmarks c (by rwa [String.toList_ofList])
  unfold write
  dsimp only
  split
  · decide
  · split
    · split <;> decide
    · intro c hc
      rw [String.toList_ofList, List.mem_append] at hc
      rcases hc with hsign | hc
      · split at hsign
        · rw [List.mem_singleton.mp hsign]
          decide
        · cases hsign
      · exact hmagnitude _ c hc

end Binary32

/-! ## Suffixes -/

/-- What the name of a component adds to that of the whole: the first four have letters. -/
def componentSuffix (index : UInt32) : String :=
  [".x", ".y", ".z", ".w"].getD index.toNat ""

/-- What the name of a component of a component adds. -/
def cellSuffix (row col : UInt32) : String :=
  "[" ++ toString row.toNat ++ "][" ++ toString col.toNat ++ "]"

/-- What the name of a pointer to a component adds: only the first four are numbered. -/
def accessSuffix (index : UInt32) : String :=
  ["[0]", "[1]", "[2]", "[3]"].getD index.toNat ""

theorem suffixed_empty (base : String) : suffixed base "" = base := by
  unfold suffixed
  split
  · rename_i h
    exact h.symm
  · exact String.append_empty

/-- A part is named after the whole, with a suffix for its index. -/
theorem extractName_eq (base : String) (index : UInt32) :
    extractName base index = suffixed base (componentSuffix index) := by
  unfold extractName componentSuffix swizzles
  rw [List.getD_eq_getElem?_getD]
  cases [".x", ".y", ".z", ".w"][index.toNat]? with
  | none => exact (suffixed_empty base).symm
  | some suffix => rfl

/-- A pointer to a part is named after the pointer to the whole, with a suffix. -/
theorem accessName_eq (base : String) (index : UInt32) :
    accessName base index = suffixed base (accessSuffix index) := by
  have hfirst : ∀ i : UInt32, i < 4 → s!"[{i}]" = accessSuffix i := by
    intro i hi
    have hi : i.toNat < 4 := hi
    have hcases : i = 0 ∨ i = 1 ∨ i = 2 ∨ i = 3 := by
      simp only [← UInt32.toNat_inj, UInt32.reduceToNat]
      omega
    rcases hcases with rfl | rfl | rfl | rfl <;> rfl
  unfold accessName
  split
  · rename_i h
    rw [hfirst index h]
  · rename_i h
    have hlong : ["[0]", "[1]", "[2]", "[3]"].length ≤ index.toNat := Nat.le_of_not_lt h
    rw [accessSuffix, List.getD_eq_getElem?_getD, List.getElem?_eq_none hlong, Option.getD_none,
      suffixed_empty]

theorem nulFree_getD {texts : List String} (h : ∀ text ∈ texts, NulFree text) (i : Nat) :
    NulFree (texts.getD i "") := by
  rw [List.getD_eq_getElem?_getD]
  cases htext : texts[i]? with
  | none => decide
  | some text => exact h text (List.mem_of_getElem? htext)

theorem nulFree_componentSuffix (index : UInt32) : NulFree (componentSuffix index) :=
  nulFree_getD (by decide) _

theorem nulFree_accessSuffix (index : UInt32) : NulFree (accessSuffix index) :=
  nulFree_getD (by decide) _

theorem nulFree_cellSuffix (row col : UInt32) : NulFree (cellSuffix row col) := by
  have hopen : NulFree "[" := by decide
  have hbetween : NulFree "][" := by decide
  have hclose : NulFree "]" := by decide
  have hrow := hopen.append (plain_toString row.toNat).nulFree
  exact ((hrow.append hbetween).append (plain_toString _).nulFree).append hclose

/-! ## Names of locals -/

namespace Method

/-- A local without a name is named by its number. -/
theorem localName_eq (l : Local) (index : Nat) :
    localName l index = if l.name = "" then "local" ++ toString index else l.name := rfl

theorem nulFree_localName {l : Local} (h : NulFree l.name) (index : Nat) :
    NulFree (localName l index) := by
  have hlocal : NulFree "local" := by decide
  rw [localName_eq]
  split
  · exact hlocal.append (plain_toString index).nulFree
  · exact h

end Method

end ShaderStage

import Mathlib.Algebra.GroupWithZero.Nat
import ShaderStage.Proofs.Computations
import ShaderStage.Proofs.Texts
import ShaderStage.Text.Quoted

/-! # Reading quoted text

A text between quotes can be read again, and so can what follows it: the bytes of a text are read as
the characters they came from, an escape tells its character, and a quote inside of the text is
never taken for the one that closes it.

* `quoteBytes_bytesOf`: quoting bytes is quoting the text that they came from;
* `readEscaped_append`: an escaped character is read back;
* `quote_injective`: a quoted text tells the text. -/

namespace ShaderStage.Text

/-! ## Characters and bytes -/

/-- Pieces are added to those found before. -/
theorem piecesOnto_eq (acc : Array Piece) (bytes : List UInt8) :
    (piecesOnto acc bytes).toList = acc.toList ++ pieces bytes := by
  unfold pieces
  induction hlength : bytes.length using Nat.strongRecOn generalizing acc bytes with
  | ind n ih =>
    cases bytes with
    | nil => simp [piecesOnto]
    | cons b0 rest =>
      have hlt : (rest.drop (firstPiece b0 rest).2).length < n := by
        rw [← hlength, List.length_drop, List.length_cons]
        omega
      rw [piecesOnto, ih _ hlt _ _ rfl, piecesOnto, ih _ hlt (#[].push _) _ rfl]
      simp

theorem pieces_cons (b0 : UInt8) (rest : List UInt8) :
    pieces (b0 :: rest) =
      (firstPiece b0 rest).1 :: pieces (rest.drop (firstPiece b0 rest).2) := by
  rw [pieces, piecesOnto, piecesOnto_eq]
  rfl

section

variable {b0 b1 b2 b3 : UInt8}

/-- The bytes that continue a character. -/
theorem isTail_iff : isTail b0 = true ↔ 128 ≤ b0.toNat ∧ b0.toNat ≤ 191 := by
  simp only [isTail, Bool.and_eq_true, decide_eq_true_eq, UInt8.le_iff_toNat_le]
  rfl

/-- The second byte of a character, with the exceptions for each first byte. -/
theorem isPair_of_le (hlow : 128 ≤ b1.toNat) (hhigh : b1.toNat ≤ 191)
    (h224 : b0.toNat = 224 → 160 ≤ b1.toNat) (h240 : b0.toNat = 240 → 144 ≤ b1.toNat)
    (h237 : b0.toNat = 237 → b1.toNat ≤ 159) (h244 : b0.toNat = 244 → b1.toNat ≤ 143) :
    isPair b0 b1 = true := by
  simp only [isPair, leastSecond, greatestSecond, Bool.and_eq_true, decide_eq_true_eq,
    UInt8.le_iff_toNat_le, beq_iff_eq, ← UInt8.toNat_inj, apply_ite UInt8.toNat, UInt8.reduceToNat]
  constructor <;> split_ifs <;> omega

theorem not_lt_of_le (h : 128 ≤ b0.toNat) : ¬ b0 < 0x80 :=
  Nat.not_lt.mpr h

theorem firstPiece_one (h : b0.toNat < 128) (rest : List UInt8) :
    firstPiece b0 rest = (.char (.ofNat b0.toNat), 0) := by
  have hlt : b0 < 0x80 := h
  rw [firstPiece.eq_def, if_pos hlt]

theorem firstPiece_two (h0 : 194 ≤ b0.toNat ∧ b0.toNat ≤ 223) (h1 : isTail b1 = true)
    (rest : List UInt8) :
    firstPiece b0 (b1 :: rest) =
      (.char (.ofNat ((b0.toNat - 0xC0) * 0x40 + (b1.toNat - 0x80))), 1) := by
  have hone : ¬ b0 < 0x80 := not_lt_of_le (by omega)
  have hlow : 0xC2 ≤ b0 := h0.1
  have hhigh : b0 ≤ 0xDF := h0.2
  rw [firstPiece.eq_def, if_neg hone]
  simp [hlow, hhigh, h1]

theorem firstPiece_three (h0 : 224 ≤ b0.toNat ∧ b0.toNat ≤ 239) (h1 : isPair b0 b1 = true)
    (h2 : isTail b2 = true) (rest : List UInt8) :
    firstPiece b0 (b1 :: b2 :: rest) =
      (.char (.ofNat ((b0.toNat - 0xE0) * 0x1000 + (b1.toNat - 0x80) * 0x40 +
        (b2.toNat - 0x80))), 2) := by
  have hone : ¬ b0 < 0x80 := not_lt_of_le (by omega)
  have htwo : ¬ b0 ≤ 0xDF := Nat.not_le.mpr (show 223 < b0.toNat by omega)
  have hlow : 0xE0 ≤ b0 := h0.1
  have hhigh : b0 ≤ 0xEF := h0.2
  rw [firstPiece.eq_def, if_neg hone]
  simp [htwo, hlow, hhigh, h1, h2]

theorem firstPiece_four (h0 : 240 ≤ b0.toNat ∧ b0.toNat ≤ 244) (h1 : isPair b0 b1 = true)
    (h2 : isTail b2 = true) (h3 : isTail b3 = true) (rest : List UInt8) :
    firstPiece b0 (b1 :: b2 :: b3 :: rest) =
      (.char (.ofNat ((b0.toNat - 0xF0) * 0x40000 + (b1.toNat - 0x80) * 0x1000 +
        (b2.toNat - 0x80) * 0x40 + (b3.toNat - 0x80))), 3) := by
  have hone : ¬ b0 < 0x80 := not_lt_of_le (by omega)
  have htwo : ¬ b0 ≤ 0xDF := Nat.not_le.mpr (show 223 < b0.toNat by omega)
  have hthree : ¬ b0 ≤ 0xEF := Nat.not_le.mpr (show 239 < b0.toNat by omega)
  have hlow : 0xF0 ≤ b0 := h0.1
  have hhigh : b0 ≤ 0xF4 := h0.2
  rw [firstPiece.eq_def, if_neg hone]
  simp [htwo, hthree, hlow, hhigh, h1, h2, h3]

end

theorem toNat_byte {n : Nat} (h : n < 256) : (UInt8.ofNat n).toNat = n := by
  rw [UInt8.toNat_ofNat']
  omega

/-- A character is read as it was written. -/
theorem pieces_utf8EncodeChar_append (c : Char) (rest : List UInt8) :
    pieces (String.utf8EncodeChar c ++ rest) = .char c :: pieces rest := by
  have hvalid : c.val.toNat < 0xD800 ∨ 0xDFFF < c.val.toNat ∧ c.val.toNat < 0x110000 := c.valid
  have hc : Char.ofNat c.val.toNat = c := Char.ofNat_toNat c
  unfold String.utf8EncodeChar
  -- One case for each number of bytes; from here on only the number of the character matters.
  generalize c.val.toNat = v at hvalid hc
  dsimp only
  split
  case isTrue h1 =>
    have h0 := toNat_byte (n := v) (by omega)
    rw [List.singleton_append, pieces_cons, firstPiece_one (by omega), h0, hc]
    rfl
  case isFalse h1 =>
  split
  case isTrue h2 =>
    have h0 := toNat_byte (n := v / 64 % 32 + 192) (by omega)
    have h1 := toNat_byte (n := v % 64 + 128) (by omega)
    rw [List.cons_append, List.singleton_append, pieces_cons,
      firstPiece_two (by omega) (isTail_iff.mpr (by omega)), h0, h1,
      show (v / 64 % 32 + 192 - 0xC0) * 0x40 + (v % 64 + 128 - 0x80) = v by omega, hc]
    rfl
  case isFalse h2 =>
  split
  case isTrue h3 =>
    have h0 := toNat_byte (n := v / 4096 % 16 + 224) (by omega)
    have h1 := toNat_byte (n := v / 64 % 64 + 128) (by omega)
    have h2 := toNat_byte (n := v % 64 + 128) (by omega)
    have hpair : isPair (.ofNat (v / 4096 % 16 + 224)) (.ofNat (v / 64 % 64 + 128)) = true := by
      apply isPair_of_le <;> omega
    simp only [List.cons_append, List.nil_append]
    rw [pieces_cons, firstPiece_three (by omega) hpair (isTail_iff.mpr (by omega)), h0, h1, h2,
      show (v / 4096 % 16 + 224 - 0xE0) * 0x1000 + (v / 64 % 64 + 128 - 0x80) * 0x40 +
        (v % 64 + 128 - 0x80) = v by omega, hc]
    rfl
  case isFalse h3 =>
    have h0 := toNat_byte (n := v / 262144 % 8 + 240) (by omega)
    have h1 := toNat_byte (n := v / 4096 % 64 + 128) (by omega)
    have h2 := toNat_byte (n := v / 64 % 64 + 128) (by omega)
    have h3 := toNat_byte (n := v % 64 + 128) (by omega)
    have hpair : isPair (.ofNat (v / 262144 % 8 + 240)) (.ofNat (v / 4096 % 64 + 128)) = true := by
      apply isPair_of_le <;> omega
    simp only [List.cons_append, List.nil_append]
    rw [pieces_cons, firstPiece_four (by omega) hpair (isTail_iff.mpr (by omega))
      (isTail_iff.mpr (by omega)), h0, h1, h2, h3,
      show (v / 262144 % 8 + 240 - 0xF0) * 0x40000 + (v / 4096 % 64 + 128 - 0x80) * 0x1000 +
        (v / 64 % 64 + 128 - 0x80) * 0x40 + (v % 64 + 128 - 0x80) = v by omega, hc]
    rfl

/-- The bytes of a text are its characters. -/
theorem pieces_bytesOf (text : String) :
    pieces (Literal.bytesOf text) = text.toList.map .char := by
  rw [← String.ofList_toList (s := text), Literal.bytesOf_ofList, String.toList_ofList]
  induction text.toList with
  | nil => simp [pieces, piecesOnto]
  | cons c cs ih => rw [List.flatMap_cons, pieces_utf8EncodeChar_append, ih, List.map_cons]

/-- Quoting the bytes of a text is quoting the text. -/
theorem quoteBytes_bytesOf (text : String) : quoteBytes (Literal.bytesOf text) = quote text := by
  rw [quoteBytes, quote, pieces_bytesOf, List.flatMap_map]
  rfl

/-! ## Escapes -/

/-- The value of a hexadecimal digit. -/
def hexValue (c : Char) : Nat :=
  if c.isDigit then c.toNat - 48 else c.toNat - 87

/-- The number that hexadecimal digits write. -/
def readHex (digits : List Char) : Nat :=
  digits.foldl (fun n c => 16 * n + hexValue c) 0

/-- A number in hexadecimal is read back. -/
theorem readHex_toDigits (n : Nat) : readHex (Nat.toDigits 16 n) = n := by
  have hvalue : ∀ d < 16, hexValue (Nat.digitChar d) = d := by decide
  induction n using Nat.strongRecOn with
  | ind n ih =>
    rw [Nat.toDigits_eq_if (by decide)]
    split
    case isTrue h => simpa [readHex] using hvalue n h
    case isFalse h =>
      have hfront : readHex (Nat.toDigits 16 (n / 16)) = n / 16 := ih _ (by omega)
      have hlast := hvalue (n % 16) (by omega)
      rw [readHex, List.foldl_append, ← readHex, hfront, List.foldl_cons, hlast, List.foldl_nil]
      omega

/-- Leading zeros do not matter. -/
theorem readHex_hexDigits (width n : Nat) : readHex (hexDigits width n) = n := by
  have hzeros : ∀ k, (List.replicate k '0').foldl (fun n c => 16 * n + hexValue c) 0 = 0 := by
    intro k
    induction k with
    | zero => rfl
    | succ k ih => exact ih
  rw [readHex, hexDigits, List.foldl_append, hzeros, ← readHex, readHex_toDigits]

/-- A number that fits is written in as many digits as asked for. -/
theorem length_hexDigits {width n : Nat} (hwidth : 0 < width) (h : n < 16 ^ width) :
    (hexDigits width n).length = width := by
  have hlength := (Nat.length_toDigits_le_iff (by decide) hwidth).mpr h
  rw [hexDigits, List.length_append, List.length_replicate]
  omega

/-- A number in hexadecimal is written in digits below sixteen. -/
theorem exists_digitChar_of_mem_toDigits {c : Char} {n : Nat} (h : c ∈ Nat.toDigits 16 n) :
    ∃ d < 16, c = Nat.digitChar d := by
  induction n using Nat.strongRecOn with
  | ind n ih =>
    rw [Nat.toDigits_eq_if (by decide)] at h
    split at h
    case isTrue hlt => exact ⟨n, hlt, List.mem_singleton.mp h⟩
    case isFalse hlt =>
      rcases List.mem_append.mp h with h | h
      · exact ih _ (by omega) h
      · exact ⟨n % 16, by omega, List.mem_singleton.mp h⟩

/-- No line ends in a number. -/
theorem newline_not_mem_hexDigits (width n : Nat) : '\n' ∉ hexDigits width n := by
  have hdigit : ∀ d < 16, '\n' ≠ Nat.digitChar d := by decide
  intro h
  rcases List.mem_append.mp h with h | h
  · cases List.eq_of_mem_replicate h
  · obtain ⟨d, hd, heq⟩ := exists_digitChar_of_mem_toDigits h
    exact hdigit d hd heq

/-- The character written by a number of the given width at the head of a text, and the rest. -/
def readNumbered (width : Nat) (cs : List Char) : Char × List Char :=
  (.ofNat (readHex (cs.take width)), cs.drop width)

/-- The first character of a text between quotes, and the rest. -/
def readEscaped : List Char → Option (Char × List Char)
  | '\\' :: 'x' :: rest => some (readNumbered 2 rest)
  | '\\' :: 'u' :: rest => some (readNumbered 4 rest)
  | '\\' :: 'U' :: rest => some (readNumbered 8 rest)
  | '\\' :: e :: rest => some (((shortEscapes.find? (·.2 = e)).map Prod.fst).getD e, rest)
  | c :: rest => some (c, rest)
  | [] => none

/-- A character that is written by its number is read back. -/
theorem readNumbered_append {width : Nat} {c : Char} (hwidth : 0 < width)
    (h : c.toNat < 16 ^ width) (rest : List Char) :
    readNumbered width (hexDigits width c.toNat ++ rest) = (c, rest) := by
  have hlength := length_hexDigits hwidth h
  rw [readNumbered, List.take_left' hlength, List.drop_left' hlength, readHex_hexDigits,
    Char.ofNat_toNat]

/-- An escaped character is read as it was. -/
theorem readEscaped_append (c : Char) (rest : List Char) :
    readEscaped (escapeChar c ++ rest) = some (c, rest) := by
  have hbound : c.toNat < 16 ^ 8 := by
    have hvalid : c.toNat < 0xD800 ∨ 0xDFFF < c.toNat ∧ c.toNat < 0x110000 := c.valid
    omega
  have hshort : ∀ p ∈ shortEscapes, p.2 ∉ ['x', 'u', 'U'] ∧
      shortEscapes.find? (·.2 = p.2) = some p := by decide
  unfold escapeChar
  split
  case isTrue hquote =>
    simp only [Bool.or_eq_true, beq_iff_eq] at hquote
    rcases hquote with rfl | rfl <;> rfl
  case isFalse hquote =>
  split
  case isTrue hprintable =>
    simp only [Bool.or_eq_true, beq_iff_eq, not_or] at hquote
    simp [readEscaped, hquote.2]
  case isFalse hprintable =>
  split
  case h_1 e he =>
    obtain ⟨hplain, hfind⟩ := hshort _ (mem_of_lookup he)
    simp only [List.mem_cons, List.not_mem_nil, or_false, not_or] at hplain
    simp [readEscaped, hplain, hfind]
  case h_2 he =>
    split_ifs with h2 h4
    · exact congrArg some (readNumbered_append (by decide) (by omega) rest)
    · exact congrArg some (readNumbered_append (by decide) (by omega) rest)
    · exact congrArg some (readNumbered_append (by decide) hbound rest)

/-- An escaped character does not start with a quote. -/
theorem head?_escapeChar_append (c : Char) (rest : List Char) :
    (escapeChar c ++ rest).head? ≠ some '"' := by
  intro h
  obtain ⟨tail, htail⟩ := List.head?_eq_some_iff.mp h
  have hread := readEscaped_append c rest
  rw [htail] at hread
  -- A quote would be read as itself, but a quote is escaped.
  cases hread
  simp [escapeChar] at htail

/-- No line ends in an escaped character. -/
theorem newline_not_mem_escapeChar (c : Char) : '\n' ∉ escapeChar c := by
  have hshort : ∀ p ∈ shortEscapes, p.2 ≠ '\n' := by decide
  unfold escapeChar
  split
  case isTrue hquote =>
    simp only [Bool.or_eq_true, beq_iff_eq] at hquote
    rcases hquote with rfl | rfl <;> decide
  case isFalse hquote =>
  split
  case isTrue hprintable =>
    have hnewline : isPrintable '\n' = false := by decide
    rw [List.mem_singleton]
    rintro rfl
    rw [hnewline] at hprintable
    cases hprintable
  case isFalse hprintable =>
  split
  case h_1 e he =>
    simpa using (hshort _ (mem_of_lookup he)).symm
  case h_2 he =>
    split_ifs <;> simp [newline_not_mem_hexDigits]

/-- Escaped characters up to a quote are read as they were, and so is what follows. -/
theorem flatMap_escapeChar_inj {cs cs' rest rest' : List Char}
    (h : cs.flatMap escapeChar ++ '"' :: rest = cs'.flatMap escapeChar ++ '"' :: rest') :
    cs = cs' ∧ rest = rest' := by
  induction cs generalizing cs' with
  | nil =>
    cases cs' with
    | nil => exact ⟨rfl, List.tail_eq_of_cons_eq h⟩
    | cons c' cs' =>
      rw [List.flatMap_cons, List.append_assoc] at h
      exact absurd (congrArg List.head? h).symm (head?_escapeChar_append _ _)
  | cons c cs ih =>
    rw [List.flatMap_cons, List.append_assoc] at h
    cases cs' with
    | nil => exact absurd (congrArg List.head? h) (head?_escapeChar_append _ _)
    | cons c' cs' =>
      rw [List.flatMap_cons, List.append_assoc] at h
      -- Reading one character off both texts leaves texts of the same form.
      have hread := congrArg readEscaped h
      rw [readEscaped_append, readEscaped_append, Option.some.injEq, Prod.mk.injEq] at hread
      obtain ⟨rfl, hrest⟩ := hread
      obtain ⟨rfl, rfl⟩ := ih hrest
      exact ⟨rfl, rfl⟩

/-- A quoted text is its escaped characters between quotes. -/
theorem toList_quote (text : String) :
    (quote text).toList = '"' :: (text.toList.flatMap escapeChar ++ ['"']) := by
  rw [quote, String.toList_ofList, List.cons_append]

/-- A quoted text tells the text. -/
theorem quote_injective : Function.Injective quote := by
  intro text text' h
  have hchars := congrArg String.toList h
  rw [toList_quote, toList_quote, List.cons.injEq] at hchars
  exact String.toList_inj.mp (flatMap_escapeChar_inj hchars.2).1

end ShaderStage.Text

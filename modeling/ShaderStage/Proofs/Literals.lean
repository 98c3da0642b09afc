import Mathlib.Data.List.TakeWhile
import ShaderStage.Instruction.Basic

/-! # Literal strings among operands

A string operand is written four bytes to a word and read byte by byte up to the first zero. The two
cut the string differently, and they agree wherever it stands: reading finds the part of the string
before its first zero byte, and as many words as that part takes. What comes before the string is
skipped, and what comes after it is not looked at.

* `literal_agrees`: what reading finds of a string that was written among operands. -/

namespace ShaderStage

namespace Literal

/-! ## Writing -/

/-- Words are added to those written before. -/
theorem toList_encodeOnto : ∀ (acc : Array Word) (bytes : List UInt8),
    (encodeOnto acc bytes).toList = acc.toList ++ encode bytes
  | acc, b0 :: b1 :: b2 :: b3 :: rest => by
    rw [encode, encodeOnto, encodeOnto, toList_encodeOnto _ rest,
      toList_encodeOnto (#[].push _) rest]
    simp
  | acc, [b0, b1, b2] => Array.toList_push
  | acc, [b0, b1] => Array.toList_push
  | acc, [b0] => Array.toList_push
  | acc, [] => Array.toList_push

/-- Four bytes are one word. -/
theorem encode_four (b0 b1 b2 b3 : UInt8) (rest : List UInt8) :
    encode (b0 :: b1 :: b2 :: b3 :: rest) = .ofBytes b0 b1 b2 b3 :: encode rest := by
  rw [encode, encodeOnto, toList_encodeOnto]
  rfl

/-- A string of less than four bytes is one word, closed by a zero byte. -/
theorem encode_short {bytes : List UInt8} (h : bytes.length < 4) :
    ∃ w zeros, encode bytes = [w] ∧ w.bytes = bytes ++ 0 :: zeros := by
  match bytes with
  | [b0, b1, b2] => exact ⟨_, [], rfl, Word.bytes_ofBytes b0 b1 b2 0⟩
  | [b0, b1] => exact ⟨_, [0], rfl, Word.bytes_ofBytes b0 b1 0 0⟩
  | [b0] => exact ⟨_, [0, 0], rfl, Word.bytes_ofBytes b0 0 0 0⟩
  | [] => exact ⟨0, [0, 0, 0], rfl, rfl⟩
  | b0 :: b1 :: b2 :: b3 :: rest =>
    simp only [List.length_cons] at h
    omega

/-- Strings are handled four bytes at a time, up to the last word. -/
theorem word_induction {P : List UInt8 → Prop} (short : ∀ bytes, bytes.length < 4 → P bytes)
    (four : ∀ b0 b1 b2 b3 rest, P rest → P (b0 :: b1 :: b2 :: b3 :: rest)) : ∀ bytes, P bytes
  | b0 :: b1 :: b2 :: b3 :: rest => four b0 b1 b2 b3 rest (word_induction short four rest)
  | [b0, b1, b2] => short [b0, b1, b2] (Nat.lt_add_one 3)
  | [b0, b1] => short [b0, b1] (by simp)
  | [b0] => short [b0] (by simp)
  | [] => short [] (by simp)

/-- A string takes a word for each four bytes, and one more. -/
theorem length_encode (bytes : List UInt8) : (encode bytes).length = bytes.length / 4 + 1 := by
  induction bytes using word_induction with
  | short bytes h =>
    obtain ⟨w, zeros, hencode, -⟩ := encode_short h
    rw [hencode, List.length_singleton]
    omega
  | four b0 b1 b2 b3 rest ih =>
    rw [encode_four, List.length_cons, ih]
    simp only [List.length_cons]
    omega

/-! ## Reading -/

/-- The part of a string before its first zero byte. -/
def beforeZero (bytes : List UInt8) : List UInt8 :=
  bytes.takeWhile (· != 0)

/-- The first zero is in the first part, or else in the second. -/
theorem beforeZero_append (bytes rest : List UInt8) :
    beforeZero (bytes ++ rest) =
      if 0 ∈ bytes then beforeZero bytes else bytes ++ beforeZero rest := by
  induction bytes with
  | nil => simp
  | cons b bytes ih =>
    unfold beforeZero at ih ⊢
    by_cases hb : b = 0
    · simp [hb]
    · simp only [List.cons_append, List.takeWhile_cons, bne_iff_ne.mpr hb, if_true, ih,
        List.mem_cons, Ne.symm hb, false_or]
      split <;> rfl

/-- Without a zero nothing is left out. -/
theorem beforeZero_eq_self {bytes : List UInt8} (h : 0 ∉ bytes) : beforeZero bytes = bytes := by
  have happend := beforeZero_append bytes []
  rw [List.append_nil, if_neg h] at happend
  exact happend.trans (List.append_nil bytes)

theorem zero_not_mem_beforeZero (bytes : List UInt8) : 0 ∉ beforeZero bytes := by
  intro hzero
  cases List.mem_takeWhile_imp hzero

theorem length_beforeZero_le (bytes : List UInt8) : (beforeZero bytes).length ≤ bytes.length :=
  (List.takeWhile_prefix _).length_le

/-- A zero is left out at least. -/
theorem length_beforeZero_lt {bytes : List UInt8} (h : 0 ∈ bytes) :
    (beforeZero bytes).length < bytes.length := by
  refine Nat.lt_of_le_of_ne (length_beforeZero_le bytes) fun hlength => ?_
  have hall : beforeZero bytes = bytes := (List.takeWhile_prefix _).eq_of_length hlength
  rw [← hall] at h
  exact zero_not_mem_beforeZero bytes h

/-- The part before the first zero byte is the longest one at the front that has none. -/
theorem beforeZero_longest (bytes : List UInt8) :
    beforeZero bytes <+: bytes ∧ 0 ∉ beforeZero bytes ∧
      ∀ front, front <+: bytes → 0 ∉ front → front <+: beforeZero bytes := by
  refine ⟨List.takeWhile_prefix _, zero_not_mem_beforeZero bytes, ?_⟩
  rintro front ⟨rest, rfl⟩ hfront
  rw [beforeZero_append, if_neg hfront]
  exact List.prefix_append _ _

/-- Bytes are added to those read before. -/
theorem decodeOnto_eq (acc : Array UInt8) (count : Nat) (words : List Word) :
    decodeOnto acc count words = (acc.toList ++ (decode words).1, count + (decode words).2) := by
  induction words generalizing acc count with
  | nil => simp [decode, decodeOnto]
  | cons w rest ih =>
    unfold decode decodeOnto
    dsimp only
    split
    · simp
    · rw [ih, ih (#[] ++ _)]
      simp [Nat.add_assoc]

/-- A word with a zero byte ends a string; after any other word the string goes on. -/
theorem decode_cons (w : Word) (more : List Word) :
    decode (w :: more) =
      if 0 ∈ w.bytes then (beforeZero w.bytes, 1)
      else (w.bytes ++ (decode more).1, (decode more).2 + 1) := by
  have hlength : w.bytes.length = 4 := rfl
  rw [decode, decodeOnto]
  by_cases hzero : 0 ∈ w.bytes
  · have hshort : (w.bytes.takeWhile (· != 0)).length < 4 := length_beforeZero_lt hzero
    rw [if_pos hzero, if_pos hshort]
    simp [beforeZero]
  · have hall : w.bytes.takeWhile (· != 0) = w.bytes := beforeZero_eq_self hzero
    rw [if_neg hzero, hall, if_neg (by omega), decodeOnto_eq]
    simp [Nat.add_comm]

/-- A string is read up to its first zero byte, whatever follows it. -/
theorem decode_encode_append (bytes : List UInt8) (more : List Word) :
    decode (encode bytes ++ more) = (beforeZero bytes, (beforeZero bytes).length / 4 + 1) := by
  induction bytes using word_induction with
  | short bytes h =>
    obtain ⟨w, zeros, hencode, hw⟩ := encode_short h
    have hread : beforeZero w.bytes = beforeZero bytes := by
      rw [hw, beforeZero_append]
      split
      · rfl
      · next hfull =>
        rw [beforeZero_eq_self hfull]
        exact List.append_nil bytes
    have hcount : (beforeZero bytes).length / 4 = 0 :=
      Nat.div_eq_of_lt (Nat.lt_of_le_of_lt (length_beforeZero_le bytes) h)
    -- The word is filled up with zeros, so the string ends in it.
    have hzero : 0 ∈ w.bytes := by simp [hw]
    rw [hencode, List.singleton_append, decode_cons, if_pos hzero, hread, hcount]
  | four b0 b1 b2 b3 rest ih =>
    have happend : b0 :: b1 :: b2 :: b3 :: rest = [b0, b1, b2, b3] ++ rest := rfl
    rw [encode_four, List.cons_append, decode_cons, Word.bytes_ofBytes, happend, beforeZero_append]
    split
    · next hzero =>
      have hcount : (beforeZero [b0, b1, b2, b3]).length / 4 = 0 :=
        Nat.div_eq_of_lt (length_beforeZero_lt hzero)
      rw [hcount]
    · rw [ih]
      have hcount : ([b0, b1, b2, b3] ++ beforeZero rest).length / 4 =
          (beforeZero rest).length / 4 + 1 := by
        simp only [List.length_append, List.length_cons, List.length_nil]
        omega
      rw [hcount]

end Literal

namespace Instruction

/-- Reading a string that was written among other operands. -/
theorem literal_encode_append (op : Opcode) (bytes : List UInt8) (before after : List Word) :
    (Instruction.mk op (before ++ Literal.encode bytes ++ after)).literal before.length =
      (Literal.beforeZero bytes, ↑((Literal.beforeZero bytes).length / 4 + 1)) := by
  have hstart : before.length ≤ (before ++ Literal.encode bytes ++ after).length := by
    simp only [List.length_append]
    omega
  unfold literal
  dsimp only
  rw [if_pos hstart, List.append_assoc, List.drop_left, Literal.decode_encode_append]

end Instruction

/-- A string that was written among other operands is read up to its first zero byte. The words
counted are those of the part that is read, so the operands after a string without zero bytes are
found where they start. -/
theorem literal_agrees (op : Opcode) (bytes : List UInt8) (before after : List Word) :
    let i : Instruction := ⟨op, before ++ Literal.encode bytes ++ after⟩
    (Literal.encode bytes).length = bytes.length / 4 + 1 ∧
      (∃ front, front <+: bytes ∧ 0 ∉ front ∧
        (∀ other, other <+: bytes → 0 ∉ other → other <+: front) ∧
        i.literal before.length = (front, ↑(front.length / 4 + 1))) ∧
      (0 ∉ bytes →
        i.literal before.length = (bytes, ↑(Literal.encode bytes).length) ∧
        i.operands.drop (before.length + (i.literal before.length).2.toNat) = after) := by
  intro i
  have hread := Instruction.literal_encode_append op bytes before after
  obtain ⟨hfront, hzero, hlongest⟩ := Literal.beforeZero_longest bytes
  refine ⟨Literal.length_encode bytes, ⟨_, hfront, hzero, hlongest, hread⟩, fun hfree => ?_⟩
  have hwhole : i.literal before.length = (bytes, ↑(Literal.encode bytes).length) := by
    rw [hread, Literal.beforeZero_eq_self hfree, Literal.length_encode]
  refine ⟨hwhole, ?_⟩
  rw [hwhole, Int.toNat_natCast, ← List.length_append]
  exact List.drop_left

/-- A string of four bytes takes two words, and the operand after it is the fifth. -/
theorem literal_agrees_main :
    let bytes : List UInt8 := [109, 97, 105, 110]
    let i : Instruction := ⟨.entryPoint, [4, 7] ++ Literal.encode bytes ++ [9]⟩
    0 ∉ bytes ∧ i.literal 2 = (bytes, 2) ∧ i.operands.drop (2 + (i.literal 2).2.toNat) = [9] := by
  intro bytes i
  have hfree : 0 ∉ bytes := by decide
  exact ⟨hfree, (literal_agrees .entryPoint bytes [4, 7] [9]).2.2 hfree⟩

end ShaderStage

import Mathlib.Data.List.Basic
import Mathlib.Algebra.GroupWithZero.Nat
import ShaderStage.Proofs.Decoding

/-! # Which words are a module

Decoding takes five words for the header and cuts the rest into instructions, each as long as its
first word says. A cut of this kind need not exist, but there is never more than one, so the words
are a module exactly if there is one, and the module holds all that the words did.

* `Framing.unique`: words are cut into frames in one way at most;
* `decode_iff_framed`: decoding succeeds exactly if there is a cut, and follows it. -/

namespace ShaderStage

/-- Words that stand for one instruction: the first of them says how many they are. -/
def IsFrame (frame : List Word) : Prop :=
  ∃ first rest, frame = first :: rest ∧ first.high.toNat = frame.length

/-- `words` cut into the words of single instructions. -/
structure Framing (words : List Word) (frames : List (List Word)) : Prop where
  flatten : frames.flatten = words
  isFrame : ∀ frame ∈ frames, IsFrame frame

/-- The words of a header. -/
def Header.words (h : Header) : List Word :=
  [h.magic, h.version, h.generator, h.bound, h.schema]

/-! ## Frames are instructions -/

/-- The words of an instruction that fits are a frame. -/
theorem Instruction.isFrame_words {i : Instruction} (h : i.Fits) : IsFrame i.words :=
  ⟨i.head, i.operands, rfl, toNat_high_head h⟩

/-- The first word of an instruction is determined by its opcode and its length. -/
theorem Instruction.words_eq_cons {first : Word} {rest : List Word}
    (h : first.high.toNat = rest.length + 1) :
    (Instruction.mk first.low rest).words = first :: rest := by
  have hhigh : UInt16.ofNat (rest.length + 1) = first.high := by
    rw [← h, UInt16.ofNat_toNat]
  rw [words, head, wordCount, hhigh, Word.ofHalves_high_low]

/-- An instruction fits if its first word tells its length. -/
theorem Instruction.fits_of_high {first : Word} {rest : List Word}
    (h : first.high.toNat = rest.length + 1) : (Instruction.mk first.low rest).Fits := by
  have hlt : first.high.toNat < 65536 := first.high.toNat_lt
  show rest.length + 1 ≤ 65535
  omega

/-- The first word of an instruction with its two halves written as bits. -/
theorem Instruction.head_eq_shift {i : Instruction} (h : i.Fits) :
    i.head = .ofNat (i.wordCount <<< 16 ||| i.opcode.toNat) := by
  have hlow : i.opcode.toNat < 2 ^ 16 := i.opcode.toNat_lt
  have hhigh : (UInt16.ofNat i.wordCount).toNat = i.wordCount :=
    Nat.mod_eq_of_lt (Nat.lt_succ_of_le h)
  rw [head, Word.ofHalves, hhigh, ← Nat.shiftLeft_add_eq_or_of_lt hlow, Nat.shiftLeft_eq,
    Nat.mul_comm]

/-- A frame is the words of an instruction. -/
theorem IsFrame.exists_instruction {frame : List Word} (h : IsFrame frame) :
    ∃ i : Instruction, i.Fits ∧ i.words = frame := by
  obtain ⟨first, rest, rfl, hlength⟩ := h
  exact ⟨⟨first.low, rest⟩, Instruction.fits_of_high hlength, Instruction.words_eq_cons hlength⟩

namespace Framing

/-- The words of instructions that fit are framed. -/
theorem of_fits {is : List Instruction} (h : ∀ i ∈ is, i.Fits) :
    Framing (is.flatMap Instruction.words) (is.map Instruction.words) where
  flatten := List.flatMap_def.symm
  isFrame := by
    intro frame hframe
    obtain ⟨i, hi, rfl⟩ := List.mem_map.mp hframe
    exact Instruction.isFrame_words (h i hi)

/-- Frames are the words of instructions. -/
theorem exists_instructions {words : List Word} {frames : List (List Word)}
    (h : Framing words frames) :
    ∃ is : List Instruction, (∀ i ∈ is, i.Fits) ∧ frames = is.map Instruction.words := by
  obtain ⟨-, hframes⟩ := h
  induction frames with
  | nil => exact ⟨[], by simp, rfl⟩
  | cons frame rest ih =>
    obtain ⟨i, hi, rfl⟩ := (hframes frame List.mem_cons_self).exists_instruction
    obtain ⟨is, his, rfl⟩ := ih fun f hf => hframes f (List.mem_cons_of_mem _ hf)
    exact ⟨i :: is, List.forall_mem_cons.mpr ⟨hi, his⟩, rfl⟩

/-- Splitting finds whatever framing there is. -/
theorem split_eq {words : List Word} {frames : List (List Word)} (h : Framing words frames)
    (offset : Nat) :
    ∃ is : List Instruction, Module.split #[] offset words = .ok (placeFrom offset is) ∧
      frames = is.map Instruction.words := by
  obtain ⟨is, hfits, rfl⟩ := h.exists_instructions
  have hwords : is.flatMap Instruction.words = words := by
    rw [List.flatMap_def, h.flatten]
  refine ⟨is, ?_, rfl⟩
  rw [← hwords, Module.split_flatMap_words hfits]
  rfl

theorem unique {words : List Word} {frames frames' : List (List Word)} (h : Framing words frames)
    (h' : Framing words frames') : frames = frames' := by
  -- Both are what splitting finds.
  obtain ⟨is, hsplit, rfl⟩ := h.split_eq 0
  obtain ⟨is', hsplit', rfl⟩ := h'.split_eq 0
  have hplaced : placeFrom 0 is = placeFrom 0 is' := Except.ok.inj (hsplit.symm.trans hsplit')
  rw [← map_instruction_placeFrom 0 is, hplaced, map_instruction_placeFrom]

end Framing

/-! ## Splitting cuts into frames -/

namespace Module

/-- Words that are split were those of instructions, placed one after the other. -/
theorem split_eq_ok {acc : Array Placed} {offset : Nat} {words : List Word} {placed : List Placed}
    (h : split acc offset words = .ok placed) :
    ∃ is : List Instruction, (∀ i ∈ is, i.Fits) ∧ words = is.flatMap Instruction.words ∧
      placed = acc.toList ++ placeFrom offset is := by
  -- Along the splitting itself: one instruction is taken off, and the rest is shorter.
  induction acc, offset, words using split.induct with
  | case1 acc offset =>
    rw [split] at h
    cases h
    exact ⟨[], by simp, rfl, by simp [placeFrom]⟩
  | case2 acc offset first rest length hbad =>
    rw [split, if_pos hbad] at h
    cases h
  | case3 acc offset first rest length hgood operands ih =>
    rw [split, if_neg hgood] at h
    obtain ⟨is, hfits, hrest, rfl⟩ := ih h
    -- There are enough words left, so the operands are as many as the first word says.
    have hlength : length = operands.length + 1 := by
      have htake : operands.length = min (length - 1) rest.length := List.length_take
      omega
    have hfit : (Instruction.mk first.low operands).Fits := Instruction.fits_of_high hlength
    refine ⟨⟨first.low, operands⟩ :: is, List.forall_mem_cons.mpr ⟨hfit, hfits⟩, ?_, ?_⟩
    · rw [List.flatMap_cons, Instruction.words_eq_cons hlength, ← hrest, List.cons_append,
        List.take_append_drop]
    · simp [placeFrom, Instruction.wordCount, hlength]

/-- Decoding takes the header off and splits the rest. -/
theorem decode_words_append {h : Header} (hmagic : h.magic = magicNumber) (rest : List Word) :
    decode (h.words ++ rest) = (split #[] 5 rest).map (Module.mk h) := by
  show decode (h.magic :: h.version :: h.generator :: h.bound :: h.schema :: rest) = _
  rw [decode, if_pos hmagic]

/-- A sequence of words decodes to a module exactly if it is the header of the module, which begins
with the magic number, and its instructions one after the other. -/
theorem decode_eq_ok_iff {words : List Word} {m : Module} :
    decode words = .ok m ↔ m.header.magic = magicNumber ∧ (∀ i ∈ m.instructions, i.Fits) ∧
      words = m.header.words ++ m.instructions.flatMap Instruction.words ∧
      m.placed = placeFrom 5 m.instructions := by
  constructor
  · intro h
    unfold decode at h
    split at h
    · rename_i magic version generator bound schema rest
      split_ifs at h with hmagic
      cases hsplit : split #[] 5 rest with
      | error e =>
        rw [hsplit] at h
        cases h
      | ok placed =>
        rw [hsplit] at h
        cases h
        obtain ⟨is, hfits, rfl, rfl⟩ := split_eq_ok hsplit
        have his : (Module.mk ⟨magic, version, generator, bound, schema⟩
            ((#[] : Array Placed).toList ++ placeFrom 5 is)).instructions = is :=
          map_instruction_placeFrom 5 is
        rw [his]
        exact ⟨hmagic, hfits, rfl, rfl⟩
    · cases h
  · rintro ⟨hmagic, hfits, rfl, hplaced⟩
    rw [decode_words_append hmagic, split_flatMap_words hfits]
    show Except.ok (Module.mk m.header (placeFrom 5 m.instructions)) = .ok m
    rw [← hplaced]

end Module

/-- Five words are a header. -/
theorem Header.exists_words {words : List Word} (h : 5 ≤ words.length) :
    ∃ header : Header, words = header.words ++ words.drop 5 := by
  rcases words with _ | ⟨w0, _ | ⟨w1, _ | ⟨w2, _ | ⟨w3, _ | ⟨w4, rest⟩⟩⟩⟩⟩
  case cons.cons.cons.cons.cons => exact ⟨⟨w0, w1, w2, w3, w4⟩, rfl⟩
  all_goals simp at h

/-- Instructions that fit are written. -/
theorem Draft.encodeAll_of_fits {is : List Instruction} (h : ∀ i ∈ is, i.Fits) :
    encodeAll is = .ok (is.flatMap Instruction.words) := by
  have hnone : is.find? (fun i => ¬ i.Fits) = none := by simpa using h
  rw [encodeAll, hnone]

/-- An instruction is placed after the words of those before it. -/
theorem offset_placeFrom {offset k : Nat} {is : List Instruction} {p : Placed}
    (h : (placeFrom offset is)[k]? = some p) :
    p.offset = offset + ((is.take k).map Instruction.wordCount).sum := by
  induction is generalizing offset k with
  | nil => cases h
  | cons i rest ih =>
    cases k with
    | zero =>
      cases h
      rfl
    | succ k =>
      have hrest := ih h
      simp only [List.take_succ_cons, List.map_cons, List.sum_cons]
      omega

/-- Decoding accepts exactly the words that begin with five words of header, the first of them the
magic number, and go on with frames. It loses nothing: there is no other framing than the one into
the instructions found, these are the words again when they are written out, and each instruction is
recorded where the lengths of the earlier ones put it. -/
theorem decode_iff_framed (words : List Word) :
    ((∃ m, Module.decode words = .ok m) ↔
      5 ≤ words.length ∧ words.head? = some magicNumber ∧
        ∃ frames, Framing (words.drop 5) frames) ∧
    ∀ m, Module.decode words = .ok m →
      (∀ frames, Framing (words.drop 5) frames ↔
        frames = m.instructions.map Instruction.words) ∧
      Draft.encodeAll m.instructions = .ok (words.drop 5) ∧
      (words = m.header.words ++ m.instructions.flatMap fun i =>
        .ofNat (i.wordCount <<< 16 ||| i.opcode.toNat) :: i.operands) ∧
      ∀ k p, m.placed[k]? = some p →
        p.offset = 5 + ((m.instructions.take k).map Instruction.wordCount).sum := by
  refine ⟨⟨?_, ?_⟩, ?_⟩
  · rintro ⟨m, h⟩
    obtain ⟨hmagic, hfits, rfl, -⟩ := Module.decode_eq_ok_iff.mp h
    refine ⟨?_, congrArg some hmagic, _, Framing.of_fits hfits⟩
    rw [List.length_append]
    exact Nat.le_add_right 5 _
  · rintro ⟨hlength, hmagic, frames, hframes⟩
    obtain ⟨header, hwords⟩ := Header.exists_words hlength
    rw [hwords] at hmagic
    obtain ⟨is, hsplit, -⟩ := hframes.split_eq 5
    refine ⟨⟨header, placeFrom 5 is⟩, ?_⟩
    rw [hwords, Module.decode_words_append (Option.some.inj hmagic), hsplit]
    rfl
  · intro m h
    obtain ⟨-, hfits, rfl, hplaced⟩ := Module.decode_eq_ok_iff.mp h
    refine ⟨fun frames => ⟨fun hframes => ?_, ?_⟩, Draft.encodeAll_of_fits hfits, ?_, ?_⟩
    · exact hframes.unique (Framing.of_fits hfits)
    · rintro rfl
      exact Framing.of_fits hfits
    · refine congrArg (m.header.words ++ ·) (List.flatMap_congr fun i hi => ?_)
      rw [Instruction.words, Instruction.head_eq_shift (hfits i hi)]
    · intro k p hp
      rw [hplaced] at hp
      exact offset_placeFrom hp

/-- A function end of one word and a label of two. -/
theorem decode_iff_framed_label :
    let words : List Word := [magicNumber, 0x00010300, 7, 2, 0, 0x00010038, 0x000200F8, 1]
    let m : Module := ⟨⟨magicNumber, 0x00010300, 7, 2, 0⟩, [⟨5, 0x38, []⟩, ⟨6, 0xF8, [1]⟩]⟩
    Module.decode words = .ok m ∧ Framing (words.drop 5) [[0x00010038], [0x000200F8, 1]] := by
  intro words m
  have hm : Module.decode words = .ok m := Module.decode_eq_ok_iff.mpr (by decide)
  exact ⟨hm, (((decode_iff_framed words).2 m hm).1 _).mpr (by decide)⟩

end ShaderStage

/-! # Words

A module is a sequence of 32-bit words. A word is also four bytes, lowest first, and the first
word of an instruction is two halves: the instruction's length and its opcode. -/

namespace ShaderStage

/-- One 32-bit word of a module. -/
abbrev Word := UInt32

/-- The number of a result. -/
abbrev Id := UInt32

namespace Word

/-- The word with the given bytes, `b0` lowest. -/
def ofBytes (b0 b1 b2 b3 : UInt8) : Word :=
  .ofNat (b0.toNat + 0x100 * b1.toNat + 0x10000 * b2.toNat + 0x1000000 * b3.toNat)

/-- The bytes of a word, lowest first. -/
def bytes (w : Word) : List UInt8 :=
  [.ofNat w.toNat, .ofNat (w.toNat / 0x100), .ofNat (w.toNat / 0x10000),
   .ofNat (w.toNat / 0x1000000)]

/-- The word with the given halves. -/
def ofHalves (high low : UInt16) : Word :=
  .ofNat (0x10000 * high.toNat + low.toNat)

/-- The upper half of a word. -/
def high (w : Word) : UInt16 :=
  .ofNat (w.toNat / 0x10000)

/-- The lower half of a word. -/
def low (w : Word) : UInt16 :=
  .ofNat w.toNat

@[simp] theorem ofBytes_bytes (w : Word) :
    ofBytes (.ofNat w.toNat) (.ofNat (w.toNat / 0x100)) (.ofNat (w.toNat / 0x10000))
      (.ofNat (w.toNat / 0x1000000)) = w := by
  have h := w.toNat_lt
  apply UInt32.toNat_inj.mp
  simp only [ofBytes, UInt8.toNat_ofNat', UInt32.toNat_ofNat']
  omega

/-- A word is told by its bytes. -/
theorem bytes_ofBytes (b0 b1 b2 b3 : UInt8) : (ofBytes b0 b1 b2 b3).bytes = [b0, b1, b2, b3] := by
  have h0 := b0.toNat_lt
  have h1 := b1.toNat_lt
  have h2 := b2.toNat_lt
  have h3 := b3.toNat_lt
  simp only [bytes, ofBytes, UInt32.toNat_ofNat', List.cons.injEq, and_true]
  refine ⟨?_, ?_, ?_, ?_⟩ <;>
    · apply UInt8.toNat_inj.mp
      simp only [UInt8.toNat_ofNat']
      omega

@[simp] theorem high_ofHalves (h l : UInt16) : (ofHalves h l).high = h := by
  have h1 := h.toNat_lt
  have h2 := l.toNat_lt
  apply UInt16.toNat_inj.mp
  simp only [high, ofHalves, UInt16.toNat_ofNat', UInt32.toNat_ofNat']
  omega

@[simp] theorem low_ofHalves (h l : UInt16) : (ofHalves h l).low = l := by
  have h1 := h.toNat_lt
  have h2 := l.toNat_lt
  apply UInt16.toNat_inj.mp
  simp only [low, ofHalves, UInt16.toNat_ofNat', UInt32.toNat_ofNat']
  omega

@[simp] theorem ofHalves_high_low (w : Word) : ofHalves w.high w.low = w := by
  have h := w.toNat_lt
  apply UInt32.toNat_inj.mp
  simp only [high, low, ofHalves, UInt16.toNat_ofNat', UInt32.toNat_ofNat']
  omega

end Word

end ShaderStage

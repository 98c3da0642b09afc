import ShaderStage.Word

/-! # Binaries

A module on disk is its words, lowest byte first. -/

namespace ShaderStage.Binary

/-- The bytes of a word sequence. -/
def ofWords (words : List Word) : List UInt8 :=
  words.flatMap Word.bytes

/-- Reads the words of `bytes` onto `acc`. -/
def wordsOnto (acc : Array Word) : List UInt8 → Option (Array Word)
  | b0 :: b1 :: b2 :: b3 :: rest => wordsOnto (acc.push (.ofBytes b0 b1 b2 b3)) rest
  | [] => some acc
  | _ => none

/-- The words of a byte sequence whose length is a multiple of four. -/
def toWords? (bytes : List UInt8) : Option (List Word) :=
  (wordsOnto #[] bytes).map Array.toList

/-- What is said of a byte sequence that has no words. -/
def unalignedMessage (length : Nat) : String :=
  s!"spirv: binary length {length} is not a multiple of 4"

end ShaderStage.Binary

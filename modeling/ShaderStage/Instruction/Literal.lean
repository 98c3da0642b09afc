import ShaderStage.Word

/-! # Literal strings

A string operand is the bytes of its text, four to a word, closed by at least one zero byte: a
text whose length is a multiple of four takes one more word of zeros. -/

namespace ShaderStage.Literal

/-- Appends the words of a string to `acc`. -/
def encodeOnto (acc : Array Word) : List UInt8 → Array Word
  | b0 :: b1 :: b2 :: b3 :: rest => encodeOnto (acc.push (.ofBytes b0 b1 b2 b3)) rest
  | [b0, b1, b2] => acc.push (.ofBytes b0 b1 b2 0)
  | [b0, b1] => acc.push (.ofBytes b0 b1 0 0)
  | [b0] => acc.push (.ofBytes b0 0 0 0)
  | [] => acc.push 0

/-- The words of a string. -/
def encode (bytes : List UInt8) : List Word :=
  (encodeOnto #[] bytes).toList

/-- Reads the bytes before the first zero byte onto `acc`, counting the words taken. -/
def decodeOnto (acc : Array UInt8) (count : Nat) : List Word → List UInt8 × Nat
  | [] => (acc.toList, count)
  | w :: rest =>
    let before := w.bytes.takeWhile (· != 0)
    if before.length < 4 then ((acc ++ before).toList, count + 1)
    else decodeOnto (acc ++ before) (count + 1) rest

/-- The string at the head of `words` and the number of words it takes. A string that is never
closed takes all of them. -/
def decode (words : List Word) : List UInt8 × Nat :=
  decodeOnto #[] 0 words

/-- The bytes of a text. -/
def bytesOf (text : String) : List UInt8 :=
  text.toUTF8.data.toList

/-- The words of a text. -/
def ofString (text : String) : List Word :=
  encode (bytesOf text)

end ShaderStage.Literal

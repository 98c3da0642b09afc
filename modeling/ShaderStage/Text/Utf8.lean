/-! # Characters in a byte sequence

A byte sequence reads as characters, in UTF-8, wherever it can; a byte that starts no character
stands for itself. -/

namespace ShaderStage.Text

/-- A part of a byte sequence. -/
inductive Piece where
  | char (c : Char)
  | byte (b : UInt8)
deriving DecidableEq

/-- A byte that continues a character. -/
def isTail (b : UInt8) : Bool :=
  0x80 ≤ b && b ≤ 0xBF

/-- The least second byte after a first byte of a longer character. -/
def leastSecond (b : UInt8) : UInt8 :=
  if b == 0xE0 then 0xA0 else if b == 0xF0 then 0x90 else 0x80

/-- The greatest second byte after a first byte of a longer character. -/
def greatestSecond (b : UInt8) : UInt8 :=
  if b == 0xED then 0x9F else if b == 0xF4 then 0x8F else 0xBF

/-- The two bytes can begin a character of three or four bytes. -/
def isPair (b0 b1 : UInt8) : Bool :=
  leastSecond b0 ≤ b1 && b1 ≤ greatestSecond b0

/-- The piece that begins with `b0`, and the number of further bytes it takes. -/
def firstPiece (b0 : UInt8) (rest : List UInt8) : Piece × Nat :=
  if b0 < 0x80 then (.char (.ofNat b0.toNat), 0)
  else
    match rest with
    | b1 :: rest =>
      if 0xC2 ≤ b0 && b0 ≤ 0xDF && isTail b1 then
        (.char (.ofNat ((b0.toNat - 0xC0) * 0x40 + (b1.toNat - 0x80))), 1)
      else
        match rest with
        | b2 :: rest =>
          if 0xE0 ≤ b0 && b0 ≤ 0xEF && isPair b0 b1 && isTail b2 then
            (.char (.ofNat ((b0.toNat - 0xE0) * 0x1000 + (b1.toNat - 0x80) * 0x40 +
              (b2.toNat - 0x80))), 2)
          else
            match rest with
            | b3 :: _ =>
              if 0xF0 ≤ b0 && b0 ≤ 0xF4 && isPair b0 b1 && isTail b2 && isTail b3 then
                (.char (.ofNat ((b0.toNat - 0xF0) * 0x40000 + (b1.toNat - 0x80) * 0x1000 +
                  (b2.toNat - 0x80) * 0x40 + (b3.toNat - 0x80))), 3)
              else (.byte b0, 0)
            | [] => (.byte b0, 0)
        | [] => (.byte b0, 0)
    | [] => (.byte b0, 0)

/-- Appends the pieces of a byte sequence to `acc`. -/
def piecesOnto (acc : Array Piece) (bytes : List UInt8) : Array Piece :=
  match bytes with
  | [] => acc
  | b0 :: rest =>
    piecesOnto (acc.push (firstPiece b0 rest).1) (rest.drop (firstPiece b0 rest).2)
termination_by bytes.length

/-- The pieces of a byte sequence. -/
def pieces (bytes : List UInt8) : List Piece :=
  (piecesOnto #[] bytes).toList

/-- The text of a byte sequence, with a replacement character for each byte that is none. -/
def ofBytes (bytes : List UInt8) : String :=
  .ofList ((pieces bytes).map fun
    | .char c => c
    | .byte _ => '\ufffd')

/-- The character of a piece. -/
def Piece.char? : Piece → Option Char
  | .char c => some c
  | .byte _ => none

/-- The text of a byte sequence, if all of it is characters. -/
def ofUtf8? (bytes : List UInt8) : Option String :=
  ((pieces bytes).mapM Piece.char?).map .ofList

end ShaderStage.Text

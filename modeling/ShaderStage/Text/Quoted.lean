import ShaderStage.Text.Printable
import ShaderStage.Text.Utf8

/-! # Quoted text

Text between double quotes. Printable characters stand for themselves, a few controls have a short
escape, and everything else is written by its number in hexadecimal. -/

namespace ShaderStage.Text

/-- The number `n` in lower-case hexadecimal, with at least `width` digits. -/
def hexDigits (width n : Nat) : List Char :=
  let digits := Nat.toDigits 16 n
  List.replicate (width - digits.length) '0' ++ digits

/-- The controls with a short escape. -/
def shortEscapes : List (Char × Char) :=
  [('\x07', 'a'), ('\x08', 'b'), ('\x0c', 'f'), ('\n', 'n'), ('\r', 'r'), ('\t', 't'),
   ('\x0b', 'v')]

/-- A character as it stands between quotes. -/
def escapeChar (c : Char) : List Char :=
  if c == '"' || c == '\\' then ['\\', c]
  else if isPrintable c then [c]
  else
    match shortEscapes.lookup c with
    | some e => ['\\', e]
    | none =>
      if c.toNat < 0x80 then '\\' :: 'x' :: hexDigits 2 c.toNat
      else if c.toNat < 0x10000 then '\\' :: 'u' :: hexDigits 4 c.toNat
      else '\\' :: 'U' :: hexDigits 8 c.toNat

/-- A piece of a byte sequence as it stands between quotes. -/
def escapePiece : Piece → List Char
  | .char c => escapeChar c
  | .byte b => '\\' :: 'x' :: hexDigits 2 b.toNat

/-- The text between double quotes. -/
def quote (text : String) : String :=
  .ofList ('"' :: text.toList.flatMap escapeChar ++ ['"'])

/-- The byte sequence between double quotes. -/
def quoteBytes (bytes : List UInt8) : String :=
  .ofList ('"' :: (pieces bytes).flatMap escapePiece ++ ['"'])

end ShaderStage.Text

/-! # Strings and keys of TOML

Basic strings have escapes, literal strings have none, and both may stand between three quotes to
span lines. A key is a sequence of parts, bare or quoted, with points between them. -/

namespace ShaderStage.Toml

/-- A result and the text after it. -/
abbrev Parsed (α : Type) := Option (α × List Char)

/-- Blank within a line. -/
def isSpace (c : Char) : Bool :=
  c == ' ' || c == '\t'

/-- A character of a bare key. -/
def isBare (c : Char) : Bool :=
  c.isAlphanum || c == '_' || c == '-'

/-- A hexadecimal digit. -/
def isHexDigit (c : Char) : Bool :=
  c.isDigit || ('a' ≤ c.toLower && c.toLower ≤ 'f')

/-- The value of hexadecimal digits. -/
def hexValue (cs : List Char) : Nat :=
  cs.foldl
    (fun n c =>
      16 * n + if c.isDigit then c.toNat - '0'.toNat else c.toLower.toNat - 'a'.toNat + 10)
    0

/-- The character with a number; a number that is none stands for the replacement character. -/
def charOfNumber (n : Nat) : Char :=
  if n.isValidChar then .ofNat n else '\ufffd'

/-- The character written as `count` hexadecimal digits, and how much of the text it takes. -/
def numberedChar (count : Nat) (cs : List Char) : Option (List Char × Nat) :=
  let digits := cs.take count
  if digits.length = count && digits.all isHexDigit then
    some ([charOfNumber (hexValue digits)], count)
  else none

/-- What an escape sign followed by `c` stands for, and how much of the text after `c` it takes. A
blank or the end of a line, with all blanks and line ends after it, stands for nothing. -/
def unescape (c : Char) (rest : List Char) : Option (List Char × Nat) :=
  match c with
  | '"' => some (['"'], 0)
  | '\\' => some (['\\'], 0)
  | '/' => some (['/'], 0)
  | 'b' => some (['\x08'], 0)
  | 'f' => some (['\x0c'], 0)
  | 'n' => some (['\n'], 0)
  | 'r' => some (['\r'], 0)
  | 't' => some (['\t'], 0)
  | 'u' => numberedChar 4 rest
  | 'U' => numberedChar 8 rest
  | c =>
    let isGap := fun c : Char => isSpace c || c == '\n' || c == '\r'
    if isGap c then some ([], (rest.takeWhile isGap).length) else none

/-- A control character that must be escaped. -/
def mustEscape (lines : Bool) (c : Char) : Bool :=
  c.toNat < 0x20 && c != '\t' && !(lines && (c == '\n' || c == '\r'))

/-- Reads a basic string after its opening quote, or quotes if it is `long`; `acc` holds what was
read, backwards. It may hold line ends if `lines` says so. -/
def basicString (long lines : Bool) (acc cs : List Char) : Parsed (List Char) :=
  match cs with
  | [] => none
  | c :: rest =>
    if c = '"' ∧ ¬ long then some (acc.reverse, rest)
    else if c = '"' ∧ rest.take 2 = ['"', '"'] then some (acc.reverse, rest.drop 2)
    else if c = '\\' then
      match rest with
      | [] => none
      | e :: rest =>
        match unescape e rest with
        | none => none
        | some (chars, used) => basicString long lines (chars ++ acc) (rest.drop used)
    else if mustEscape lines c then none
    else basicString long lines (c :: acc) rest
termination_by cs.length

/-- Reads a literal string after its opening quote, or quotes if it is `long`. -/
def literalString (long : Bool) (acc : List Char) : List Char → Parsed (List Char)
  | [] => none
  | c :: rest =>
    if c = '\'' ∧ ¬ long then some (acc.reverse, rest)
    else if c = '\'' ∧ rest.take 2 = ['\'', '\''] then some (acc.reverse, rest.drop 2)
    else literalString long (c :: acc) rest

/-- The text without the line end it begins with. -/
def dropLineEnd : List Char → List Char
  | '\n' :: rest => rest
  | '\r' :: '\n' :: rest => rest
  | cs => cs

/-- Reads a string of any form. -/
def stringValue : List Char → Parsed String
  | '"' :: '"' :: '"' :: rest =>
    (basicString true true [] (dropLineEnd rest)).map fun (s, r) => (.ofList s, r)
  | '"' :: rest => (basicString false false [] rest).map fun (s, r) => (.ofList s, r)
  | '\'' :: '\'' :: '\'' :: rest =>
    (literalString true [] (dropLineEnd rest)).map fun (s, r) => (.ofList s, r)
  | '\'' :: rest => (literalString false [] rest).map fun (s, r) => (.ofList s, r)
  | _ => none

/-- Cuts a key off a line: the text of its parts, with the quoted parts read and put between plain
quotes again. Blanks before a point begin with a space, whatever they began with. `fuel` bounds the
number of characters. -/
def keyText : Nat → List Char → List Char → Parsed (List Char)
  | 0, _, _ => none
  | _, acc, [] => some (acc.reverse, [])
  | fuel + 1, acc, c :: rest =>
    if c = '=' then some (acc.reverse, c :: rest)
    else if c = '"' then
      match basicString false true [] rest with
      | none => none
      | some (s, rest) => keyText fuel ('"' :: s.reverse ++ '"' :: acc) rest
    else if c = '\'' then
      match literalString false [] rest with
      | none => none
      | some (s, rest) => keyText fuel ('\'' :: s.reverse ++ '\'' :: acc) rest
    else if isSpace c then
      let before := rest.takeWhile isSpace
      match rest.dropWhile isSpace with
      | '.' :: rest =>
        let after := rest.takeWhile isSpace
        keyText fuel (after.reverse ++ '.' :: before.reverse ++ ' ' :: acc) (rest.dropWhile isSpace)
      | rest => some (acc.reverse, rest)
    else if c = '.' || isBare c then keyText fuel (c :: acc) rest
    else none

/-- Splits the text of a key into its parts; `fuel` bounds the number of characters. -/
def splitKey : Nat → List String → List Char → Option (List String)
  | 0, _, _ => none
  | fuel + 1, acc, cs =>
    match cs.dropWhile isSpace with
    | [] => if acc.isEmpty then none else some acc.reverse
    | '\'' :: rest => quoted fuel acc '\'' rest
    | '"' :: rest => quoted fuel acc '"' rest
    | '.' :: c :: rest =>
      if isBare c || c = '\'' || c = '"' || c = ' ' then splitKey fuel acc (c :: rest) else none
    | cs =>
      let after := (cs.dropWhile isBare)
      let next := after.dropWhile isSpace
      if cs.length = after.length then none
      else if next.isEmpty || next.head? = some '.' then
        splitKey fuel (.ofList (cs.takeWhile isBare) :: acc) next
      else none
where
  /-- Reads a quoted part after its opening quote. -/
  quoted (fuel : Nat) (acc : List String) (quote : Char) (cs : List Char) :
      Option (List String) :=
    match cs.dropWhile (· ≠ quote) with
    | [] => none
    | _ :: rest => splitKey fuel (.ofList (cs.takeWhile (· ≠ quote)) :: acc) rest

/-- The parts of a key. -/
def keyParts (text : List Char) : Option (List String) :=
  splitKey (text.length + 1) [] text

end ShaderStage.Toml

import ShaderStage.Toml.Moment

/-! # Reading TOML documents

A document is a sequence of headers and key-value pairs. A header opens the table that the pairs
after it belong to; a doubled header adds a table to an array of tables and opens that. -/

namespace ShaderStage.Toml

/-- Drops blanks, line ends and comments; `comment` says that the text begins inside one. -/
def skipVoid (comment : Bool) : List Char → List Char
  | [] => []
  | c :: rest =>
    if comment then skipVoid (c ≠ '\n') rest
    else if isSpace c || c == '\n' || c == '\r' then skipVoid false rest
    else if c == '#' then skipVoid true rest
    else c :: rest

/-- Drops blanks and a comment up to the end of the line. -/
def skipLine (cs : List Char) : List Char :=
  match cs.dropWhile isSpace with
  | '#' :: rest => rest.dropWhile (· ≠ '\n')
  | cs => cs

/-- The text is at the end of a line. -/
def atLineEnd : List Char → Bool
  | [] => true
  | c :: _ => c == '\n' || c == '\r'

/-- Reads a key and the equals sign after it. -/
def keyAndEquals (cs : List Char) : Parsed (List String) :=
  match keyText (cs.length + 1) [] cs with
  | none => none
  | some (text, rest) =>
    match keyParts text, skipVoid false rest with
    | some parts, '=' :: rest => some (parts, rest)
    | _, _ => none

mutual

/-- Reads a value at the start of the text; `gap` drops what may stand between a date and its time,
and `fuel` bounds the number of characters. -/
def value (gap : List Char → List Char) : Nat → List Char → Parsed Value
  | 0, _ => none
  | fuel + 1, cs =>
    match cs with
    | '[' :: rest => items fuel [] rest
    | '\x7b' :: rest => pairs fuel (.empty false) (skipVoid false rest)
    | '"' :: _ => (stringValue cs).map fun (s, r) => (.string s, r)
    | '\'' :: _ => (stringValue cs).map fun (s, r) => (.string s, r)
    | 't' :: 'r' :: 'u' :: 'e' :: rest => some (.boolean true, rest)
    | 'f' :: 'a' :: 'l' :: 's' :: 'e' :: rest => some (.boolean false, rest)
    | _ => numberOrMoment gap cs

/-- Reads the items of an array that are left, and its closing bracket. -/
def items : Nat → List Value → List Char → Parsed Value
  | 0, _, _ => none
  | fuel + 1, acc, cs =>
    match skipVoid false cs with
    | ']' :: rest => some (.ofItems acc.reverse, rest)
    | cs =>
      match value (skipVoid false) fuel cs with
      | none => none
      | some (v, rest) =>
        match skipVoid false rest with
        | ',' :: rest => items fuel (v :: acc) rest
        | ']' :: rest => some (.ofItems (v :: acc).reverse, rest)
        | _ => none

/-- Reads the first pair of an inline table, if it has one, and those after it. -/
def pairs : Nat → Table → List Char → Parsed Value
  | 0, _, _ => none
  | fuel + 1, t, cs =>
    match cs with
    | '\x7d' :: rest => some (.table (.mk true t.entries), rest)
    | _ => morePairs fuel t cs

/-- Reads the value of a pair after its equals sign, and whether more can follow on its line as it
can after a value. A value begins on the line of the equals sign; only an empty array, written
without a blank in it, may stand on a later line, and whatever may begin a line can follow it. -/
def pairValue : Nat → List Char → Parsed (Value × Bool)
  | 0, _ => none
  | fuel + 1, cs =>
    let cs := skipLine cs
    if atLineEnd cs then
      match skipVoid false cs with
      | '[' :: ']' :: rest => some ((.array [], false), rest)
      | _ => none
    else (value (·.dropWhile isSpace) fuel cs).map fun (v, rest) => ((v, true), rest)

/-- Reads a pair of an inline table and those after it. -/
def morePairs : Nat → Table → List Char → Parsed Value
  | 0, _, _ => none
  | fuel + 1, t, cs =>
    match keyAndEquals cs with
    | none => none
    | some (path, rest) =>
      match pairValue fuel rest with
      | none => none
      | some ((v, goesOn), rest) =>
        let t := t.put v path
        match skipLine rest with
        | ',' :: rest => if goesOn then morePairs fuel t (skipVoid false rest) else none
        | rest =>
          match skipVoid false rest with
          | '\x7d' :: rest => some (.table (.mk true t.entries), rest)
          | _ => none

end

/-- What has been read of a document. -/
structure State where
  root : Table := .empty false
  /-- The table that pairs belong to. -/
  current : List String := []
  /-- The headers seen, as they are written. -/
  headers : List (List Char) := []

namespace State

/-- Opens the table of a header. -/
def openTable (s : State) (header : List Char) : Option State := do
  if header ∈ s.headers then none
  let path ← keyParts header
  let root ← s.root.modifyAt some path
  match root.at? path with
  | some (.table t) => if t.isInline then none
  | _ => pure ()
  return { root, current := path, headers := header :: s.headers }

/-- Adds a table to the array of a doubled header and opens it. The headers of its parts may come
again. -/
def openElement (s : State) (header : List Char) : Option State := do
  let path ← keyParts header
  let root ← s.root.pushAt path
  let headers := s.headers.filter fun h => !(header ++ ['.']).isPrefixOf h
  return { root, current := path, headers := header :: headers }

/-- Gives a key of the current table its value. -/
def assign (s : State) (path : List String) (v : Value) : Option State := do
  let key ← path.getLast?
  let root ← s.root.modifyAt (Table.define key v) (s.current ++ path.dropLast)
  return { s with root }

end State

/-- Reads a header after its bracket: the text up to a closing bracket. -/
def headerText (cs : List Char) : Parsed (List Char) :=
  let text := cs.takeWhile fun c => c ≠ ']' && c ≠ '['
  match cs.drop text.length with
  | ']' :: rest => if text.isEmpty then none else some (text, rest)
  | _ => none

/-- Reads the headers and pairs that are left; `fuel` bounds the number of characters. -/
def statements : Nat → State → List Char → Option Table
  | 0, _, _ => none
  | fuel + 1, s, cs =>
    match skipVoid false cs with
    | [] => some s.root
    | '[' :: '[' :: rest =>
      match headerText rest with
      | some (header, ']' :: rest) => (s.openElement header).bind (statements fuel · rest)
      | _ => none
    | '[' :: rest =>
      match headerText rest with
      | some (header, rest) => (s.openTable header).bind (statements fuel · rest)
      | none => none
    | cs =>
      match keyAndEquals cs with
      | none => none
      | some (path, rest) =>
        match pairValue fuel rest with
        | none => none
        | some ((v, goesOn), rest) =>
          let rest := skipLine rest
          if goesOn && !atLineEnd rest then none
          else (s.assign path v).bind (statements fuel · rest)

/-- The root table of a document. A byte order mark in front is ignored. -/
def parse? (text : String) : Option Table :=
  let cs :=
    match text.toList with
    | '\ufeff' :: rest => rest
    | cs => cs
  statements (cs.length + 1) {} cs

end ShaderStage.Toml

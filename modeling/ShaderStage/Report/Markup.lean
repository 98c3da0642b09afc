/-! # Colour markup

A printed text can name the style of a part of it, as in `<red>text</>` or
`<fg=white;bg=blue;op=bold>text</>`. Printing puts colour codes in place of the two signs around the
part. A style that does not exist is no markup: the text is printed as it stands. -/

namespace ShaderStage.Report

/-- A character of a style. -/
def isStyleChar (c : Char) : Bool :=
  c.isAlphanum || c == '_' || c == '=' || c == ',' || c == ';'

/-- The styles that have a name. -/
def namedStyles : List String :=
  ["red", "red1", "redB", "red_b", "blue", "blue1", "blueB", "blue_b", "cyan", "cyan1", "cyanB",
   "cyan_b", "green", "green1", "greenB", "green_b", "black", "white", "default", "normal",
   "brown", "yellow", "ylw0", "yellowB", "ylw1", "ylwB", "magenta", "mga", "magentaB", "magenta1",
   "mgb", "mga1", "mgaB", "gray", "darkGray", "dark_gray", "lightYellow", "light_yellow",
   "hiYellow", "hi_yellow", "hiYellowB", "hi_yellow_b", "lightMagenta", "light_magenta",
   "hiMagenta", "hi_magenta", "lightMagentaB", "hiMagentaB", "hi_magenta_b", "lightRed",
   "light_red", "hiRed", "hi_red", "lightRedB", "light_red_b", "hi_red_b", "lightGreen",
   "light_green", "hiGreen", "hi_green", "lightGreenB", "light_green_b", "hi_green_b", "lightBlue",
   "light_blue", "hiBlue", "hi_blue", "lightBlueB", "light_blue_b", "hi_blue_b", "lightCyan",
   "light_cyan", "hiCyan", "hi_cyan", "lightCyanB", "light_cyan_b", "hi_cyan_b", "lightWhite",
   "light_white", "bold", "b", "italic", "i", "underscore", "us", "blink", "fb", "reverse", "st",
   "suc", "success", "info", "comment", "note", "notice", "warn", "warning", "primary", "danger",
   "err", "error"]

/-- The names of colours and their codes for letters. -/
def colourNumbers : List (String × Nat) :=
  [("black", 30), ("red", 31), ("green", 32), ("yellow", 33), ("blue", 34), ("magenta", 35),
   ("cyan", 36), ("white", 37), ("default", 39), ("darkGray", 90), ("lightRed", 91),
   ("lightGreen", 92), ("lightYellow", 93), ("lightBlue", 94), ("lightMagenta", 95),
   ("lightCyan", 96), ("lightWhite", 97)]

/-- The names of effects other than colours, and their codes. -/
def effectNumbers : List (String × Nat) :=
  [("reset", 0), ("bold", 1), ("fuzzy", 2), ("italic", 3), ("underscore", 4), ("blink", 5),
   ("reverse", 7), ("concealed", 8)]

/-- The value of a hexadecimal digit. -/
def hexDigit? (c : Char) : Option Nat :=
  if c.isDigit then some (c.toNat - '0'.toNat)
  else if 'a' ≤ c.toLower && c.toLower ≤ 'f' then some (c.toLower.toNat - 'a'.toNat + 10)
  else none

/-- The code of a colour written as six hexadecimal digits, without what says where it goes. -/
def hexColour? (cs : List Char) : Option String :=
  match cs.mapM hexDigit? with
  | some [r1, r0, g1, g0, b1, b0] =>
    some s!"{16 * r1 + r0};{16 * g1 + g0};{16 * b1 + b0}"
  | _ => none

/-- The code of a colour: a name, six hexadecimal digits, numbers set apart by commas, or up to
three characters, which should be a number. `ground` is 0 for letters and 10 for what is behind
them. -/
def colour? (ground : Nat) (value : List Char) : Option String :=
  match colourNumbers.lookup (.ofList value) with
  | some n => some s!"{n + ground}"
  | none =>
    if value.length = 6 then (hexColour? value).map fun code => s!"{38 + ground};2;{code}"
    else if value.contains ',' then
      let code := String.ofList (value.map fun c => if c = ',' then ';' else c)
      some s!"{38 + ground};2;{code}"
    else if value.length < 4 then
      let code := String.ofList value
      some s!"{38 + ground};5;{code}"
    else none

/-- The codes of an attribute. Unknown values have none. -/
def attributeCodes (kind : String) (value : List Char) : List String :=
  if kind = "fg" then (colour? 0 value).toList
  else if kind = "bg" then (colour? 10 value).toList
  else ((String.ofList value).splitOn ",").filterMap fun effect =>
    (effectNumbers.lookup effect).map fun n => s!"{n}"

/-- The codes of the attributes in a text; `fuel` bounds the number of characters. -/
def codesIn : Nat → List Char → List String
  | fuel + 1, a :: b :: '=' :: rest =>
    let kind := String.ofList [a, b]
    let value := rest.takeWhile fun c => c.isAlphanum || c == ','
    if ["fg", "bg", "op"].contains kind && !value.isEmpty then
      attributeCodes kind value ++ codesIn fuel (rest.drop value.length)
    else codesIn fuel (b :: '=' :: rest)
  | fuel + 1, _ :: rest => codesIn fuel rest
  | _, _ => []

/-- The code of a style, if it exists: if it has a name, or attributes of which one has a code. All
names stand for the same code here, since a code of numbers is not printed. -/
def styleCode? (style : List Char) : Option String :=
  let isEdge := fun c => c == ';' || c == '=' || c == ','
  let attributes := (style.reverse.dropWhile isEdge).reverse
  let codes := codesIn attributes.length attributes
  if !codes.isEmpty then some (";".intercalate codes)
  else if namedStyles.contains (.ofList style) then some "0"
  else none

/-- The parts of a text before and after the first place where `pattern` stands. -/
def breakAt (pattern : List Char) : List Char → Option (List Char × List Char)
  | [] => none
  | c :: rest =>
    if pattern.isPrefixOf (c :: rest) then some ([], (c :: rest).drop pattern.length)
    else (breakAt pattern rest).map fun (before, after) => (c :: before, after)

/-- The sign that ends a part of a text with a style. -/
def closing : List Char := ['<', '/', '>']

/-- The parts of a text between a style and the next closing sign, with their styles, from left to
right; `fuel` bounds the number of characters. -/
def styledParts : Nat → List Char → List (List Char × List Char)
  | fuel + 1, c :: rest =>
    if c = '<' then
      let style := rest.takeWhile isStyleChar
      match rest.drop style.length with
      | '>' :: body =>
        if style.isEmpty then styledParts fuel rest
        else
          match breakAt closing body with
          | some (part, after) => (style, part) :: styledParts fuel after
          | none => []
      | _ => styledParts fuel rest
    else styledParts fuel rest
  | _, _ => []

/-- A colour code as it is sent to a terminal. -/
def escaped (code : String) : List Char :=
  '\x1b' :: '[' :: code.toList ++ ['m']

/-- Puts colour codes around a part of a text, where it stands first with this style. -/
def paint (text : List Char) : List Char × List Char → List Char
  | (style, part) =>
    match styleCode? style with
    | none => text
    | some code =>
      match breakAt ('<' :: style ++ '>' :: part ++ closing) text with
      | some (before, after) => before ++ escaped code ++ part ++ escaped "0" ++ after
      | none => text

/-- Puts colour codes in place of the markup. Parts inside parts wait for another time. -/
def paintOnce (text : List Char) : List Char :=
  (styledParts text.length text).foldl paint text

/-- The text with colour codes in place of markup, also inside other markup up to `depth` deep. -/
def painted (depth : Nat) (text : List Char) : List Char :=
  Nat.repeat paintOnce depth text

end ShaderStage.Report

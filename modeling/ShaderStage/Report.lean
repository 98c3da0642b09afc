import ShaderStage.Report.Markup

/-! # Reports

What the tools print: lines that start with a tag. A console prints warnings under its tag, unless
it is quiet, and counts them all. Neither colour codes in a text nor its colour markup are printed.
-/

namespace ShaderStage

namespace Report

/-- What follows a colour code, if the text after an escape sign is one: `[`, digits and
semicolons, `m`. -/
def afterColour? : List Char → Option (List Char)
  | '[' :: rest =>
    match rest.dropWhile fun c => c.isDigit || c == ';' with
    | 'm' :: rest => some rest
    | _ => none
  | _ => none

/-- Drops colour codes; `fuel` bounds the number of characters looked at. -/
def dropColours : Nat → List Char → List Char
  | 0, cs => cs
  | _, [] => []
  | fuel + 1, c :: rest =>
    if c = '\x1b' then
      match afterColour? rest with
      | some rest => dropColours fuel rest
      | none => c :: dropColours fuel rest
    else c :: dropColours fuel rest

/-- The text without colour codes, and without markup up to `depth` deep. -/
def plain (depth : Nat) (text : String) : String :=
  let cs := painted depth text.toList
  .ofList (dropColours cs.length cs)

/-- A printed line. The markup of a text is looked at once more than that of a tag. -/
def line (tag text : String) : String :=
  plain 4 tag ++ " " ++ plain 5 text ++ "\n"

end Report

/-- Where warnings go. -/
structure Console where
  tag : String
  quiet : Bool := false
  warnings : Nat := 0
deriving DecidableEq

/-- Reports a warning: what is printed, and the console afterwards. -/
def Console.warn (c : Console) (text : String) : String × Console :=
  (if c.quiet then "" else Report.line (c.tag ++ " Warning") text,
   { c with warnings := c.warnings + 1 })

/-- Reports warnings one after the other. -/
def Console.warnAll (c : Console) : List String → String × Console
  | [] => ("", c)
  | text :: rest =>
    let (printed, c) := c.warn text
    let (more, c) := c.warnAll rest
    (printed ++ more, c)

end ShaderStage

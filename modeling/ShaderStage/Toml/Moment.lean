import ShaderStage.Toml.Number

/-! # Dates and times of TOML

A moment is a date, a time of day, or both, and then with an optional offset from universal time.
What stands right after a date is restricted: a line end, a comma or a bracket needs a blank before
it. -/

namespace ShaderStage.Toml

/-- Reads two digits below `bound`. -/
def twoDigits (bound : Nat) : List Char → Option (Nat × List Char)
  | a :: b :: rest =>
    if a.isDigit && b.isDigit && digitsValue 10 [a, b] < bound then
      some (digitsValue 10 [a, b], rest)
    else none
  | _ => none

/-- Reads a given character. -/
def exactly (c : Char) : List Char → Option (Unit × List Char)
  | d :: rest => if c = d then some ((), rest) else none
  | [] => none

/-- Reads a time of day, with an optional fraction of a second. -/
def timeOfDay (cs : List Char) : Option (Unit × List Char) := do
  let (_, cs) ← twoDigits 24 cs
  let (_, cs) ← exactly ':' cs
  let (_, cs) ← twoDigits 60 cs
  let (_, cs) ← exactly ':' cs
  let (_, cs) ← twoDigits 60 cs
  match cs with
  | '.' :: c :: rest => if c.isDigit then some ((), rest.dropWhile Char.isDigit) else none
  | _ => some ((), cs)

/-- Reads an offset from universal time, if there is one. Offsets of 24 hours and of 60 minutes are
in use, and read as well. -/
def zoneOffset (cs : List Char) : Option (Unit × List Char) :=
  match cs with
  | 'Z' :: rest => some ((), rest)
  | c :: rest =>
    if c = '+' || c = '-' then do
      let (_, cs) ← twoDigits 25 rest
      let (_, cs) ← exactly ':' cs
      let (_, cs) ← twoDigits 61 cs
      some ((), cs)
    else some ((), cs)
  | [] => some ((), cs)

/-- Reads a time of day and its offset from universal time. -/
def zonedTime (cs : List Char) : Option (Value × List Char) := do
  let (_, cs) ← timeOfDay cs
  let (_, cs) ← zoneOffset cs
  some (.moment, cs)

/-- The number of days of a month. -/
def daysOf (year month : Nat) : Nat :=
  if month = 2 then
    if year % 4 = 0 && (year % 100 ≠ 0 || year % 400 = 0) then 29 else 28
  else if month = 4 || month = 6 || month = 9 || month = 11 then 30
  else 31

/-- Reads what follows a date: nothing, or a time after a `T` or a blank. A time without an offset
belongs to the date also when more blanks, as `gap` drops them, stand before it. -/
def afterDate (gap : List Char → List Char) : List Char → Parsed Value
  | [] => some (.moment, [])
  | 'T' :: rest => zonedTime rest
  | ' ' :: rest =>
    if (rest.take 2).length = 2 && (rest.take 2).all Char.isDigit then zonedTime rest
    else
      match timeOfDay (gap rest) with
      | some (_, rest) => some (.moment, rest)
      | none => some (.moment, rest)
  | _ => none

/-- Reads a date after its year, and the time after it, if there is one. -/
def dateAfterYear (gap : List Char → List Char) (year : Nat) (cs : List Char) :
    Option (Value × List Char) := do
  let (_, cs) ← exactly '-' cs
  let (month, cs) ← twoDigits 13 cs
  let (_, cs) ← exactly '-' cs
  let (day, cs) ← twoDigits 32 cs
  if month = 0 || day = 0 || daysOf year month < day then none else afterDate gap cs

/-- Reads what begins with a digit: a date, a time or a number. -/
def numberOrMoment (gap : List Char → List Char) (cs : List Char) : Parsed Value :=
  let year := cs.take 4
  if year.length = 4 && year.all Char.isDigit && (cs.drop 4).head? = some '-' then
    dateAfterYear gap (digitsValue 10 year) (cs.drop 4)
  else if (cs.take 2).all Char.isDigit && (cs.drop 2).head? = some ':' then
    (timeOfDay cs).map fun (_, rest) => (.moment, rest)
  else numberValue cs

end ShaderStage.Toml

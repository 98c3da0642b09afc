/-! # TOML documents

The value of a document: tables of named values. A path into a document goes through tables, and at
an array of tables through its last one, which is the one that headers and keys refer to. -/

namespace ShaderStage.Toml

mutual

/-- A value of a document. -/
inductive Value where
  | string (text : String)
  /-- A number from `-2 ^ 63` to `2 ^ 63 - 1`. -/
  | integer (n : Int)
  | boolean (b : Bool)
  /-- A floating point number; nothing looks at which. -/
  | float
  /-- A date or a time; nothing looks at which. -/
  | moment
  | array (items : List Value)
  | table (t : Table)
  /-- An array of tables. -/
  | tables (ts : List Table)

/-- Named values. An inline table is complete: nothing can be added to it. -/
inductive Table where
  | mk (inline : Bool) (entries : List (String × Value))

end

namespace Table

/-- The table is complete. -/
def isInline : Table → Bool
  | .mk inline _ => inline

/-- The named values of a table. -/
def entries : Table → List (String × Value)
  | .mk _ entries => entries

/-- A table with nothing in it. -/
def empty (inline : Bool) : Table := .mk inline []

/-- The value of a key. -/
def get? (t : Table) (key : String) : Option Value :=
  t.entries.lookup key

/-- The table with a value for a key, in place of an earlier one. -/
def set (t : Table) (key : String) (v : Value) : Table :=
  .mk t.isInline ((key, v) :: t.entries.filter (·.1 ≠ key))

/-- The value at a path. -/
def at? : Table → List String → Option Value
  | t, [] => some (.table t)
  | t, [key] => t.get? key
  | t, key :: rest =>
    match t.get? key with
    | some (.table u) => u.at? rest
    | some (.tables us) => us.getLast?.bind (·.at? rest)
    | _ => none

/-- Changes the table at a path, making the tables on the way that are not there. -/
def modifyAt (f : Table → Option Table) : Table → List String → Option Table
  | t, [] => f t
  | t, key :: rest =>
    match t.get? key with
    | none => (modifyAt f (empty t.isInline) rest).map fun u => t.set key (.table u)
    | some (.table u) => (modifyAt f u rest).map fun u => t.set key (.table u)
    | some (.tables us) =>
      match us.getLast? with
      | none => none
      | some u => (modifyAt f u rest).map fun u => t.set key (.tables (us.dropLast ++ [u]))
    | some _ => none

/-- Gives a new key of a table its value. -/
def define (key : String) (v : Value) (t : Table) : Option Table :=
  if t.isInline || (t.get? key).isSome then none else some (t.set key v)

/-- Puts a value at a path, in place of an earlier one, making the tables on the way that are not
there. A key on the way that holds neither a table nor an array of tables is passed over. -/
def put (v : Value) : Table → List String → Table
  | t, [] => t
  | t, [key] => t.set key v
  | t, key :: rest =>
    match t.get? key with
    | none => t.set key (.table (put v (empty false) rest))
    | some (.table u) => t.set key (.table (put v u rest))
    | some (.tables us) =>
      t.set key (.tables (us.dropLast ++ [put v (us.getLast?.getD (empty false)) rest]))
    | some _ => put v t rest

/-- Adds an empty table to the array of tables at a path. -/
def pushAt (t : Table) (path : List String) : Option Table :=
  let t := (t.modifyAt some path.dropLast).getD t
  match t.at? path with
  | none => some (t.put (.tables [empty false]) path)
  | some (.tables ts) => some (t.put (.tables (ts ++ [empty false])) path)
  | some _ => none

end Table

/-- An array of nothing but tables, and of one at least, is an array of tables. -/
def Value.ofItems (items : List Value) : Value :=
  let tables := items.filterMap fun
    | .table t => some t
    | _ => none
  if items.isEmpty || tables.length ≠ items.length then .array items else .tables tables

end ShaderStage.Toml

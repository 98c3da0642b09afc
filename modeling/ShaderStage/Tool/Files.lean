/-! # Files

The files that tools read and write, by path, in one directory without subdirectories, and what a
tool does with them. -/

namespace ShaderStage.Tool

/-- Why a file cannot be read or written. -/
inductive FileError where
  | missing (path : String)
  /-- A directory is read. -/
  | readsDirectory (path : String)
  /-- A directory is written. -/
  | writesDirectory (path : String)
  /-- A file stands where the path has a directory. -/
  | notDirectory (path : String)
  | other (path reason : String)
deriving DecidableEq

/-- The text of a file error. -/
def FileError.message : FileError → String
  | .missing path => s!"open {path}: no such file or directory"
  | .readsDirectory path => s!"read {path}: is a directory"
  | .writesDirectory path => s!"open {path}: is a directory"
  | .notDirectory path => s!"open {path}: not a directory"
  | .other path reason => s!"open {path}: {reason}"

namespace Path

/-- The last part of a path, which may be empty, in reverse. -/
def reverseLast (path : String) : List Char :=
  path.toList.reverse.takeWhile (· ≠ '/')

/-- The path up to the last dot of its last part, or all of it if there is none. -/
def withoutExtension (path : String) : String :=
  let last := reverseLast path
  if '.' ∈ last then
    .ofList (path.toList.reverse.drop ((last.takeWhile (· ≠ '.')).length + 1)).reverse
  else path

/-- The name of the file at a path. -/
def base (path : String) : String :=
  match path.toList.reverse.dropWhile (· = '/') with
  | [] => if path = "" then "." else "/"
  | rest => .ofList (rest.takeWhile (· ≠ '/')).reverse

/-- Where a path leads in a directory without subdirectories. -/
inductive Place where
  | entry (name : String)
  /-- An entry that is asked for as a directory. -/
  | slashed (name : String)
  /-- Something inside an entry. -/
  | inside (name : String)
  | directory
  | nowhere
deriving DecidableEq

/-- The place of a path; `.` and doubled slashes do not count. -/
def place (path : String) : Place :=
  let parts := path.splitOn "/"
  let named := parts.filter fun p => p ≠ "" ∧ p ≠ "."
  if path = "" then .nowhere
  else if path.startsWith "/" then if named.isEmpty then .directory else .nowhere
  else
    match named with
    | [] => .directory
    | [name] =>
      if name = ".." then .directory
      else if parts.getLast? = some name then .entry name
      else if parts.getLast? = some "" then .slashed name
      else .inside name
    | name :: _ => .inside name

end Path

/-- Files by name. -/
abbrev Files := List (String × List UInt8)

namespace Files

/-- The error for a path that needs the entry `name` to be a directory. -/
def behind (files : Files) (name path : String) : FileError :=
  if (files.lookup name).isSome then .notDirectory path else .missing path

/-- Reads a file. -/
def read (files : Files) (path : String) : Except FileError (List UInt8) :=
  match Path.place path with
  | .entry name => (files.lookup name).elim (.error (.missing path)) .ok
  | .slashed name => .error (files.behind name path)
  | .inside name => .error (files.behind name path)
  | .directory => .error (.readsDirectory path)
  | .nowhere => .error (.missing path)

/-- Writes a file, in place of an earlier one. -/
def write (files : Files) (path : String) (bytes : List UInt8) : Except FileError Files :=
  match Path.place path with
  | .entry name => .ok ((name, bytes) :: files.filter (·.1 ≠ name))
  | .slashed _ => .error (.writesDirectory path)
  | .inside name => .error (files.behind name path)
  | .directory => .error (.writesDirectory path)
  | .nowhere => .error (.missing path)

/-- The files that are not what they were before. -/
def changedSince (files before : Files) : Files :=
  files.filter fun (name, bytes) => before.lookup name ≠ some bytes

end Files

/-- How a run of a tool ends. -/
structure Result where
  exitCode : UInt32
  output : List UInt8
deriving DecidableEq

/-- What a tool does with files, step by step, until it ends. -/
inductive Script where
  | finish (result : Result)
  | read (path : String) (next : Except FileError (List UInt8) → Script)
  | write (path : String) (bytes : List UInt8) (next : Except FileError Unit → Script)

namespace Script

/-- Ends with a text. -/
def print (exitCode : UInt32) (text : String) : Script :=
  .finish ⟨exitCode, text.toUTF8.data.toList⟩

/-- Runs a script on files. -/
def run : Script → Files → Result × Files
  | .finish result, files => (result, files)
  | .read path next, files => (next (files.read path)).run files
  | .write path bytes next, files =>
    match files.write path bytes with
    | .ok files => (next (.ok ())).run files
    | .error e => (next (.error e)).run files

end Script

end ShaderStage.Tool

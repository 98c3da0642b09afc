import ShaderStage.Tool.Basic

/-! # Command line

The first argument names the tool; the others are its command line. -/

namespace ShaderStage.Tool

/-- The number by which the system says that a path goes through a file. -/
def notDirectoryCode : UInt32 := 20

/-- The error of a failed operation on a file. -/
def FileError.ofSystem (path : String) (inDirectory : String → FileError) : IO.Error → FileError
  | .noFileOrDirectory .. => .missing path
  | .inappropriateType _ code _ => if code = notDirectoryCode then .notDirectory path
    else inDirectory path
  | e => .other path (toString e)

/-- Runs a script on the files of the system. -/
def Script.perform : Script → IO Result
  | .finish result => return result
  | .read path next => do
    let content ←
      try
        let bytes ← IO.FS.readBinFile path
        pure (.ok bytes.data.toList)
      catch e => pure (.error (.ofSystem path .readsDirectory e))
    (next content).perform
  | .write path bytes next => do
    let done ←
      try
        IO.FS.writeBinFile path ⟨bytes.toArray⟩
        pure (.ok ())
      catch e => pure (.error (.ofSystem path .writesDirectory e))
    (next done).perform

end ShaderStage.Tool

/-- Runs a tool. -/
def main (args : List String) : IO UInt32 := do
  match args with
  | [] => return 1
  | name :: line =>
    match ShaderStage.Tool.ofName? name with
    | none => return 1
    | some tool =>
      let result ← (tool.start line).perform
      let out ← IO.getStdout
      out.write ⟨result.output.toArray⟩
      out.flush
      return result.exitCode

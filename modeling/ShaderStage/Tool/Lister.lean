import ShaderStage.Module.Listing
import ShaderStage.Report
import ShaderStage.Tool.Arguments
import ShaderStage.Tool.Files

/-! # The listing tool

Prints the listing of a binary, or writes it to a file. -/

namespace ShaderStage.Tool.Lister

/-- The commands of the tool. -/
def commands : CommandSet where
  root :=
    { name := "spvdis"
      argument := some "input"
      options := [⟨"output", "o", .text⟩, ⟨"names", "n", .flag⟩] }

/-- The lines that tell the debug names of the results, in module order. -/
def nameLines (m : Module) : List UInt8 :=
  m.resultIds.flatMap fun id =>
    match m.name? id with
    | some name => Literal.bytesOf s!"; %{id} " ++ name ++ Literal.bytesOf "\n"
    | none => []

/-- The listing of a module, with its names if they are asked for. -/
def contents (m : Module) (named : Bool) : List UInt8 :=
  Literal.bytesOf m.text ++ if named then nameLines m else []

/-- Ends with an error. -/
def refuse (message : String) : Script :=
  .print 1 (Report.line "spvdis Error" message)

/-- What the tool does for an invocation. -/
def script (i : Invocation) : Script :=
  .read i.argument fun
    | .error e => refuse e.message
    | .ok bytes =>
      match Module.decodeBytes bytes with
      | .error e => refuse e.message
      | .ok m =>
        let text := contents m ("names" ∈ i.flags)
        match i.values.lookup "output" with
        | none => .finish ⟨0, text⟩
        | some path =>
          .write path text fun
            | .error e => refuse e.message
            | .ok () => .print 0 ""

end ShaderStage.Tool.Lister

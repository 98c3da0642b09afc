import ShaderStage.Program.Basic
import ShaderStage.Text.Quoted

/-! # Validation

A program is checked for what a compilation would trip over in any case: an unknown stage, names
that are missing or given twice, missing types, positions out of range, and a missing entry point.
All issues are reported, in the order of the program, the entry point last. -/

namespace ShaderStage

/-- What is wrong with a program. -/
inductive IssueCause where
  | noMaxVertices
  | unknownStage (code : UInt8)
  | unnamedField (index : Nat)
  | duplicateField (name : String)
  | untypedField (name : String)
  | unnamedMethod (index : Nat)
  | duplicateMethod (name : String)
  | untypedLocal (index : Nat)
  | fieldOutOfRange (index : Int)
  | localOutOfRange (index : Int)
  | untypedConstruct
  | badConstructCount (count : Int)
  | missingOperation
  | noEntryPoint
deriving DecidableEq

/-- The text of a cause. -/
def IssueCause.message : IssueCause → String
  | .noMaxVertices => "geometry stage declares no max vertices"
  | .unknownStage code => s!"unknown stage {code}"
  | .unnamedField index => s!"field {index} has no name"
  | .duplicateField name => "duplicate field " ++ Text.quote name
  | .untypedField name => "field " ++ Text.quote name ++ " has no type"
  | .unnamedMethod index => s!"method {index} has no name"
  | .duplicateMethod name => "duplicate method " ++ Text.quote name
  | .untypedLocal index => s!"local {index} has no type"
  | .fieldOutOfRange index => s!"field index {index} out of range"
  | .localOutOfRange index => s!"local index {index} out of range"
  | .untypedConstruct => "construct without a type"
  | .badConstructCount count => s!"construct of {count} components"
  | .missingOperation => "nil operation"
  | .noEntryPoint => "no " ++ Text.quote entryPointName ++ " method to use as the entry point"

/-- Where in a program an issue is. -/
inductive IssuePlace where
  | program
  | method (name : String)
  | operation (method : String) (index : Nat)
deriving DecidableEq

/-- A cause and its place. -/
structure Issue where
  place : IssuePlace
  cause : IssueCause
deriving DecidableEq

/-- The text of an issue. -/
def Issue.message (issue : Issue) : String :=
  match issue.place with
  | .program => issue.cause.message
  | .method name => "in method " ++ name ++ ": " ++ issue.cause.message
  | .operation name index =>
    "in method " ++ name ++ s!", operation {index}: " ++ issue.cause.message

namespace Program

/-- Issues of the stage. -/
def stageIssues (p : Program) : List IssueCause :=
  match p.stage with
  | .geometry => if p.options.maxVertices = 0 then [.noMaxVertices] else []
  | .unknown code => [.unknownStage code]
  | _ => []

/-- Issues of one field, given the names before it. -/
def fieldIssues (seen : List String) (index : Nat) (field : Field) : List IssueCause :=
  (if field.name = "" then [.unnamedField index]
    else if field.name ∈ seen then [.duplicateField field.name] else []) ++
  (if field.type = .unset then [.untypedField field.name] else [])

/-- Issues of the fields from position `index` on. -/
def fieldsIssues (seen : List String) (index : Nat) : List Field → List IssueCause
  | [] => []
  | field :: rest =>
    fieldIssues seen index field ++ fieldsIssues (field.name :: seen) (index + 1) rest

/-- Issues of the locals of a method from position `index` on. -/
def localsIssues (index : Nat) : List Local → List IssueCause
  | [] => []
  | l :: rest =>
    (if l.type = .unset then [.untypedLocal index] else []) ++ localsIssues (index + 1) rest

/-- A position that must be below `bound`. -/
def rangeIssue (bound : Nat) (index : Int) (cause : IssueCause) : List IssueCause :=
  if 0 ≤ index ∧ index < bound then [] else [cause]

/-- Issues of one operation in a method with `locals` locals. -/
def operationIssues (fields locals : Nat) : Operation → List IssueCause
  | .loadField index => rangeIssue fields index (.fieldOutOfRange index)
  | .storeField index => rangeIssue fields index (.fieldOutOfRange index)
  | .loadLocal index => rangeIssue locals index (.localOutOfRange index)
  | .storeLocal index => rangeIssue locals index (.localOutOfRange index)
  | .construct type count =>
    (if type = .unset then [.untypedConstruct] else []) ++
    (if count ≤ 0 then [.badConstructCount count] else [])
  | .missing => [.missingOperation]
  | _ => []

/-- Issues of the operations of a method from position `index` on. -/
def bodyIssues (fields : Nat) (m : Method) (index : Nat) : List Operation → List Issue
  | [] => []
  | op :: rest =>
    (operationIssues fields m.locals.length op).map (⟨.operation m.name index, ·⟩) ++
    bodyIssues fields m (index + 1) rest

/-- Issues of the methods from position `index` on, and of the entry point. A method without a name
is not looked into. -/
def methodsIssues (fields : Nat) (seen : List String) (index : Nat) : List Method → List Issue
  | [] => if entryPointName ∈ seen then [] else [⟨.program, .noEntryPoint⟩]
  | m :: rest =>
    if m.name = "" then
      ⟨.program, .unnamedMethod index⟩ :: methodsIssues fields seen (index + 1) rest
    else
      (if m.name ∈ seen then [⟨.program, .duplicateMethod m.name⟩] else []) ++
      (localsIssues 0 m.locals).map (⟨.method m.name, ·⟩) ++
      bodyIssues fields m 0 m.body ++
      methodsIssues fields (m.name :: seen) (index + 1) rest

/-- What is said when there is no program to validate. -/
def missingMessage : String := "program is nil"

/-- All issues of a program. -/
def validate (p : Program) : List Issue :=
  (p.stageIssues ++ fieldsIssues [] 0 p.fields).map (⟨.program, ·⟩) ++
  methodsIssues p.fields.length [] 0 p.methods

end Program

end ShaderStage

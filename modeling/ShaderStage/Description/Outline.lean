import ShaderStage.Toml.Document

/-! # Outlines

A description as it is written: names, texts and numbers, before anything is known about their
meaning. A key is looked for as it is spelled here and then in capitals; keys without a meaning are
ignored. -/

namespace ShaderStage.Description

open Toml (Table Value)

/-- Stage options as written. -/
structure OptionsOutline where
  origin : String
  pixelCenterInteger : Bool
  earlyFragmentTests : Bool
  inputPrimitive : String
  outputPrimitive : String
  maxVertices : Int
  patchVertices : Int
  workgroup : List Int

/-- An enumeration as written. -/
structure EnumOutline where
  name : String
  underlying : String

/-- A member of a structure as written. -/
structure MemberOutline where
  name : String
  type : String

/-- A structure as written. -/
structure StructOutline where
  name : String
  members : List MemberOutline

/-- A layout as written; a negative number stands for none. -/
structure LayoutOutline where
  location : Int
  binding : Int
  descriptorSet : Int
  align : Int
  offset : Int
  pushConstant : Bool
  builtin : String
  specId : Int
  direction : String

/-- A field as written. -/
structure FieldOutline where
  name : String
  type : String
  layout : Option LayoutOutline

/-- A method as written. -/
structure MethodOutline where
  name : String
  returns : String
  locals : List String
  body : List String

/-- A program as written. -/
structure ProgramOutline where
  name : String
  stage : String
  options : Option OptionsOutline
  enums : List EnumOutline
  structs : List StructOutline
  fields : List FieldOutline
  methods : List MethodOutline

/-- The value of a key. -/
def find? (t : Table) (key : String) : Option Value :=
  t.get? key <|> t.get? key.toUpper

/-- A value as a text. -/
def asText : Value → Option String
  | .string s => some s
  | _ => none

/-- A value as a number. -/
def asInteger : Value → Option Int
  | .integer n => some n
  | _ => none

/-- A value as a truth value. -/
def asFlag : Value → Option Bool
  | .boolean b => some b
  | _ => none

/-- A value as a list. -/
def asList {α : Type} (f : Value → Option α) : Value → Option (List α)
  | .array items => items.mapM f
  | _ => none

/-- A value as a table. -/
def asTable {α : Type} (f : Table → Option α) : Value → Option α
  | .table t => f t
  | _ => none

/-- A value as a list of tables. -/
def asTables {α : Type} (f : Table → Option α) : Value → Option (List α)
  | .tables ts => ts.mapM f
  | _ => none

/-- What a key holds, or a default if it is not there. A value of the wrong kind is no outline. -/
def entry {α : Type} (t : Table) (key : String) (f : Value → Option α) (default : α) : Option α :=
  match find? t key with
  | none => some default
  | some v => f v

/-- The table under a key, if it is there. -/
def part {α : Type} (t : Table) (key : String) (f : Table → Option α) : Option (Option α) :=
  entry t key (fun v => (asTable f v).map some) none

/-- The stage options in a table. -/
def OptionsOutline.ofTable (t : Table) : Option OptionsOutline := do
  return {
    origin := ← entry t "origin" asText ""
    pixelCenterInteger := ← entry t "pixel-center-integer" asFlag false
    earlyFragmentTests := ← entry t "early-fragment-tests" asFlag false
    inputPrimitive := ← entry t "input-primitive" asText ""
    outputPrimitive := ← entry t "output-primitive" asText ""
    maxVertices := ← entry t "max-vertices" asInteger 0
    patchVertices := ← entry t "patch-vertices" asInteger 0
    workgroup := ← entry t "workgroup" (asList asInteger) [] }

/-- The enumeration in a table. -/
def EnumOutline.ofTable (t : Table) : Option EnumOutline := do
  return {
    name := ← entry t "name" asText ""
    underlying := ← entry t "underlying" asText "" }

/-- The member in a table. -/
def MemberOutline.ofTable (t : Table) : Option MemberOutline := do
  return {
    name := ← entry t "name" asText ""
    type := ← entry t "type" asText "" }

/-- The structure in a table. -/
def StructOutline.ofTable (t : Table) : Option StructOutline := do
  return {
    name := ← entry t "name" asText ""
    members := ← entry t "field" (asTables MemberOutline.ofTable) [] }

/-- The layout in a table. -/
def LayoutOutline.ofTable (t : Table) : Option LayoutOutline := do
  return {
    location := ← entry t "location" asInteger 0
    binding := ← entry t "binding" asInteger (-1)
    descriptorSet := ← entry t "descriptor-set" asInteger 0
    align := ← entry t "align" asInteger (-1)
    offset := ← entry t "offset" asInteger (-1)
    pushConstant := ← entry t "push-constant" asFlag false
    builtin := ← entry t "builtin" asText ""
    specId := ← entry t "spec-id" asInteger (-1)
    direction := ← entry t "direction" asText "" }

/-- The field in a table. -/
def FieldOutline.ofTable (t : Table) : Option FieldOutline := do
  return {
    name := ← entry t "name" asText ""
    type := ← entry t "type" asText ""
    layout := ← part t "layout" LayoutOutline.ofTable }

/-- The method in a table. -/
def MethodOutline.ofTable (t : Table) : Option MethodOutline := do
  return {
    name := ← entry t "name" asText ""
    returns := ← entry t "returns" asText ""
    locals := ← entry t "locals" (asList asText) []
    body := ← entry t "body" (asList asText) [] }

/-- The program in a table. -/
def ProgramOutline.ofTable (t : Table) : Option ProgramOutline := do
  return {
    name := ← entry t "name" asText ""
    stage := ← entry t "stage" asText ""
    options := ← part t "options" OptionsOutline.ofTable
    enums := ← entry t "enum" (asTables EnumOutline.ofTable) []
    structs := ← entry t "struct" (asTables StructOutline.ofTable) []
    fields := ← entry t "field" (asTables FieldOutline.ofTable) []
    methods := ← entry t "method" (asTables MethodOutline.ofTable) [] }

end ShaderStage.Description

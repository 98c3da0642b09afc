/-! # Command lines

A tool is a command, or a family of subcommands. The tokens of a command line are taken from left
to right: an option is spelled with dashes, by its full name or its short one, and has its value
behind an equals sign; any other token is the argument of the command, if that takes one, or else
chooses a subcommand. -/

namespace ShaderStage.Tool

/-- What an option takes. -/
inductive OptionKind where
  | flag
  | text
  | choice (values : List String)
deriving DecidableEq

/-- An option of a command. -/
structure CommandOption where
  name : String
  short : String
  kind : OptionKind
deriving DecidableEq

/-- A command of a tool. -/
structure Command where
  name : String
  /-- The name of the argument that the command cannot do without, if it takes one. -/
  argument : Option String := none
  options : List CommandOption := []
deriving DecidableEq

/-- The commands of a tool. With subcommands, one of them has to be chosen. -/
structure CommandSet where
  root : Command
  subcommands : List Command := []
deriving DecidableEq

/-- How an option is named on a command line. -/
inductive Spelling where
  | full
  | short
deriving DecidableEq

/-- A part of a command line. -/
inductive Token where
  /-- An option, with its value unless that is empty. -/
  | option (spelling : Spelling) (name : String) (value : Option String)
  | word (text : String)
deriving DecidableEq

namespace Token

/-- The option written behind the dashes that show its spelling. -/
def ofOption (spelling : Spelling) (text : List Char) : Token :=
  let text := text.dropWhile (· = '-')
  let name := text.takeWhile (· ≠ '=')
  let value := (text.drop name.length).drop 1
  .option spelling (.ofList name) (if value.isEmpty then none else some (.ofList value))

/-- The token of a text. -/
def ofString (text : String) : Token :=
  match text.toList with
  | '-' :: '-' :: rest => ofOption .full rest
  | '-' :: rest => ofOption .short rest
  | _ => .word text

end Token

/-- Why a command line is refused. -/
inductive UsageError where
  | unknownFlag (spelling : Spelling) (name : String)
  | unknownArgument (spelling : Spelling) (name : String)
  | repeatedFlag (name : String)
  | repeatedArgument (name : String)
  | notAChoice (value name : String)
  | secondArgument (command : String)
  | unknownSubcommand (text : String)
  /-- A subcommand is chosen behind an option. -/
  | lateSubcommand (text : String)
  | noSubcommand (command : String)
  | noArgument (command argument : String)
deriving DecidableEq

/-- The text of a usage error. -/
def UsageError.message : UsageError → String
  | .unknownFlag .full name => s!"unknown flag: `{name}`"
  | .unknownFlag .short name => s!"unknown flag by short name: `{name}`"
  | .unknownArgument .full name => s!"unknown argument: `{name}`"
  | .unknownArgument .short name => s!"unknown argument by short name: `{name}`"
  | .repeatedFlag name => s!"flag `{name}` set multiple times"
  | .repeatedArgument name => s!"argument `{name}` set multiple times"
  | .notAChoice value name => s!"`{value}` is not a valid value for argument [{name}]"
  | .secondArgument command => s!"multiple primary arguments specified for command `{command}`"
  | .unknownSubcommand text => s!"unknown subcommand: `{text}`"
  | .lateSubcommand text => s!"unexpected subcommand: `{text}`"
  | .noSubcommand command => s!"`{command}` requires a subcommand"
  | .noArgument command argument =>
    s!"missing required primary argument `{command}` for subcommand `{argument}`"

/-- What a command line says. -/
structure Invocation where
  subcommand : Option Command := none
  /-- The argument of the command; empty for none. -/
  argument : String := ""
  flags : List String := []
  values : List (String × String) := []
deriving DecidableEq

namespace CommandOption

/-- The option has a given name, and takes a value just if there is one. -/
def isNamed (o : CommandOption) (spelling : Spelling) (name : String) (hasValue : Bool) : Bool :=
  (match spelling with
    | .full => o.name = name
    | .short => o.short = name) && hasValue = (o.kind ≠ .flag)

/-- Sets an option that takes no value. -/
def setFlag (o : CommandOption) (i : Invocation) : Except UsageError Invocation :=
  if o.name ∈ i.flags then .error (.repeatedFlag o.name)
  else .ok { i with flags := o.name :: i.flags }

/-- Sets an option that takes a value. -/
def setValue (o : CommandOption) (value : String) (i : Invocation) :
    Except UsageError Invocation :=
  if (i.values.lookup o.name).isSome then .error (.repeatedArgument o.name)
  else
    let set := { i with values := (o.name, value) :: i.values }
    match o.kind with
    | .choice values => if value ∈ values then .ok set else .error (.notAChoice value o.name)
    | _ => .ok set

end CommandOption

namespace CommandSet

/-- The command that an invocation has come to. -/
def current (f : CommandSet) (i : Invocation) : Command :=
  i.subcommand.getD f.root

/-- The options that an invocation may set: those of the root hold in every subcommand. -/
def options (f : CommandSet) (i : Invocation) : List CommandOption :=
  ((i.subcommand.map Command.options).getD []) ++ f.root.options

/-- Takes an option. -/
def takeOption (f : CommandSet) (i : Invocation) (spelling : Spelling) (name : String)
    (value : Option String) : Except UsageError Invocation :=
  match (f.options i).find? (·.isNamed spelling name value.isSome), value with
  | some o, none => o.setFlag i
  | some o, some value => o.setValue value i
  | none, none => .error (.unknownFlag spelling name)
  | none, some _ => .error (.unknownArgument spelling name)

/-- Takes the argument of the current command. -/
def takeArgument (f : CommandSet) (i : Invocation) (text : String) :
    Except UsageError Invocation :=
  if i.argument = "" then .ok { i with argument := text }
  else .error (.secondArgument (f.current i).name)

/-- Takes the name of a subcommand. -/
def takeSubcommand (f : CommandSet) (i : Invocation) (text : String) :
    Except UsageError Invocation :=
  if i.flags ≠ [] ∨ i.values ≠ [] then .error (.lateSubcommand text)
  else
    let choices := if i.subcommand.isNone then f.subcommands else []
    match choices.find? (·.name = text) with
    | some c => .ok { i with subcommand := some c }
    | none => .error (.unknownSubcommand text)

/-- Takes one token. -/
def take (f : CommandSet) (i : Invocation) : Token → Except UsageError Invocation
  | .option spelling name value => f.takeOption i spelling name value
  | .word text =>
    if (f.current i).argument.isSome then f.takeArgument i text else f.takeSubcommand i text

/-- Checks that nothing is missing at the end of a command line. -/
def finish (f : CommandSet) (i : Invocation) : Except UsageError Invocation :=
  if ¬ f.subcommands.isEmpty ∧ i.subcommand.isNone then .error (.noSubcommand f.root.name)
  else
    match (f.current i).argument with
    | some argument =>
      if i.argument = "" then .error (.noArgument (f.current i).name argument) else .ok i
    | none => .ok i

/-- The invocation of a command line. -/
def parse (f : CommandSet) (line : List String) : Except UsageError Invocation := do
  f.finish (← (line.map Token.ofString).foldlM f.take {})

end CommandSet

end ShaderStage.Tool

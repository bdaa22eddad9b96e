import AsyncLift.Options

/-!
# Command-line arguments

`Command.parse` reads the arguments from left to right. An option may be given as `--name value`,
`--name=value`, `-n value`, `-nvalue` or `-n=value`, before or after the project; after `--`
everything is positional.

An option whose value is an argument of its own, and likewise the project, is settled only when the
next argument has been recognised. So an argument that is not known is reported before a fault in
the option before it, and that before anything the next argument does.
-/

namespace AsyncLift

/-- Why the arguments name no command. -/
inductive UsageError where
  /-- There are no arguments at all. -/
  | nothingGiven
  | helpAsked
  | versionAsked
  | invalidSubcommand
  | unknownArgument
  | missingRequired
  /-- An option without a value, or with one that it does not accept. -/
  | invalidValue
  /-- An option that is given twice. -/
  | repeated
  /-- A value for an option that takes none. -/
  | tooManyValues
deriving DecidableEq, Repr, Inhabited

/-- Which method of which project a command is about. -/
structure Target where
  project : String
  method : String
  json : Bool := false
deriving DecidableEq, Repr, Inhabited

/-- Options of the conversion that the command line gives. -/
structure Overrides where
  config : Option String := none
  suffix : Option String := none
  taskType : Option String := none
  scope : Option SearchScope := none
  counterpart : Option CounterpartPolicy := none
  noRollback : Bool := false
deriving DecidableEq, Repr, Inhabited

inductive Command where
  | convert (target : Target) (overrides : Overrides) (report : Bool)
  | plan (target : Target)
  | check (target : Target) (overrides : Overrides)
  | print (project : String)
deriving DecidableEq, Repr, Inhabited

namespace Command

/-! ## Options -/

/-- The options that some command knows. -/
inductive Flag where
  | help
  | method
  | json
  | report
  | config
  | suffix
  | taskType
  | scope
  | counterpart
  | noRollback
deriving DecidableEq, Repr, Inhabited

namespace Flag

def long : Flag → String
  | help => "help"
  | method => "method"
  | json => "json"
  | report => "report"
  | config => "config"
  | suffix => "suffix"
  | taskType => "task-type"
  | scope => "scope"
  | counterpart => "counterpart"
  | noRollback => "no-rollback"

def short? : Flag → Option Char
  | help => some 'h'
  | method => some 'm'
  | config => some 'c'
  | _ => none

def takesValue : Flag → Bool
  | help | json | report | noRollback => false
  | method | config | suffix | taskType | scope | counterpart => true

/-- Whether an option accepts a value: a path is not empty, and an enumeration has its names. -/
def accepts : Flag → String → Bool
  | config, value => !value.isEmpty
  | scope, value => (SearchScope.names.lookup value).isSome
  | counterpart, value => (CounterpartPolicy.names.lookup value).isSome
  | _, _ => true

end Flag

/-! ## Reading the arguments of a subcommand -/

/-- What has been read but not settled. -/
inductive Unsettled where
  | nothing
  | project (path : String)
  /-- An option that takes a value, and its value once it has been read. -/
  | option (flag : Flag) (value : Option String)
deriving DecidableEq, Repr, Inhabited

structure Reading where
  /-- The settled options with their values. -/
  given : List (Flag × String) := []
  project : Option String := none
  /-- Whether the project has been read. -/
  hasProject : Bool := false
  unsettled : Unsettled := .nothing
deriving DecidableEq, Repr, Inhabited

namespace Reading

/-- Settles an option with its value. -/
def give (reading : Reading) (flag : Flag) (value : String) : Except UsageError Reading :=
  if (reading.given.lookup flag).isSome then .error .repeated
  else if flag.accepts value then .ok { reading with given := (flag, value) :: reading.given }
  else .error .invalidValue

/-- Settles what is not settled yet. -/
def settle (reading : Reading) : Except UsageError Reading :=
  let rest := { reading with unsettled := .nothing }
  match reading.unsettled with
  | .nothing => .ok reading
  | .project path =>
    if path.isEmpty then .error .invalidValue else .ok { rest with project := some path }
  | .option _ none => .error .invalidValue
  | .option flag (some value) => rest.give flag value

/-- An option that has been recognised, with the value that is attached to it. -/
def option (reading : Reading) (flag : Flag) (attached : Option String) :
    Except UsageError Reading :=
  match flag.takesValue, attached with
  | false, some _ => .error .tooManyValues
  | false, none => do
    let reading ← reading.settle
    if flag = .help then throw .helpAsked
    reading.give flag ""
  | true, some value => do
    let reading ← reading.settle
    reading.give flag value
  | true, none => do
    let reading ← reading.settle
    return { reading with unsettled := .option flag none }

/-- A positional argument: the first one is the project. -/
def positional (reading : Reading) (text : String) : Except UsageError Reading :=
  if reading.hasProject then .error .unknownArgument
  else do
    let reading ← reading.settle
    return { reading with hasProject := true, unsettled := .project text }

end Reading

/-- The name of a long option and the value after an equals sign. -/
def splitValue (text : List Char) : String × Option String :=
  let name := String.ofList (text.takeWhile (· != '='))
  match text.dropWhile (· != '=') with
  | [] => (name, none)
  | _ :: value => (name, some (String.ofList value))

/-- The value that is attached to a short option. -/
def attachedValue : List Char → Option String
  | [] => none
  | '=' :: value => some (String.ofList value)
  | value => some (String.ofList value)

/-- Reads one argument. -/
def readArgument (flags : List Flag) (reading : Reading) (argument : String) :
    Except UsageError Reading :=
  match argument.toList with
  | '-' :: '-' :: rest =>
    let (name, value) := splitValue rest
    match flags.find? (·.long == name) with
    | some flag => reading.option flag value
    | none => .error .unknownArgument
  | '-' :: letter :: rest =>
    match flags.find? (·.short? == some letter) with
    | some flag => reading.option flag (if flag.takesValue then attachedValue rest else none)
    | none => .error .unknownArgument
  | _ =>
    match reading.unsettled with
    | .option flag none => .ok { reading with unsettled := .option flag (some argument) }
    | _ => reading.positional argument

/-- Reads all arguments and settles what is left at the end. -/
def readArguments (flags : List Flag) (reading : Reading) :
    List String → Except UsageError Reading
  | [] => reading.settle
  | "--" :: arguments => do
    let reading ← arguments.foldlM Reading.positional reading
    reading.settle
  | argument :: arguments => do
    let reading ← readArgument flags reading argument
    readArguments flags reading arguments

/-! ## Subcommands -/

inductive Subcommand where
  | convert
  | plan
  | check
  | print
deriving DecidableEq, Repr, Inhabited

namespace Subcommand

def named : List (String × Subcommand) :=
  [("convert", convert), ("plan", plan), ("check", check), ("print", print)]

def targetFlags : List Flag := [.help, .method, .json]

def overrideFlags : List Flag :=
  [.config, .suffix, .taskType, .scope, .counterpart, .noRollback]

def flags : Subcommand → List Flag
  | convert => targetFlags ++ overrideFlags ++ [.report]
  | plan => targetFlags
  | check => targetFlags ++ overrideFlags
  | print => [.help]

end Subcommand

namespace Reading

def has (reading : Reading) (flag : Flag) : Bool := (reading.given.lookup flag).isSome

def target (reading : Reading) (project : String) : Except UsageError Target :=
  match reading.given.lookup .method with
  | some method => .ok { project, method, json := reading.has .json }
  | none => .error .missingRequired

def overrides (reading : Reading) : Overrides where
  config := reading.given.lookup .config
  suffix := reading.given.lookup .suffix
  taskType := reading.given.lookup .taskType
  scope := reading.given.lookup .scope >>= (SearchScope.names.lookup ·)
  counterpart := reading.given.lookup .counterpart >>= (CounterpartPolicy.names.lookup ·)
  noRollback := reading.has .noRollback

def command (reading : Reading) (subcommand : Subcommand) : Except UsageError Command :=
  match reading.project with
  | none => .error .missingRequired
  | some project =>
    match subcommand with
    | .convert => do
      let target ← reading.target project
      return .convert target reading.overrides (reading.has .report)
    | .plan => do
      let target ← reading.target project
      return .plan target
    | .check => do
      let target ← reading.target project
      return .check target reading.overrides
    | .print => .ok (.print project)

end Reading

/-! ## The command line -/

/-- Help on a subcommand that is named after `help`. -/
def helpOn : List String → UsageError
  | [] => .helpAsked
  | [name] =>
    if name == "help" || (Subcommand.named.lookup name).isSome then .helpAsked
    else .invalidSubcommand
  | _ => .invalidSubcommand

/-- What the first argument does that names no subcommand. -/
def otherFirst (argument : String) (arguments : List String) : UsageError :=
  match argument.toList with
  | ['-', '-'] =>
    match arguments with
    | [] => .nothingGiven
    | next :: _ =>
      if next == "help" || (Subcommand.named.lookup next).isSome then .unknownArgument
      else .invalidSubcommand
  | '-' :: '-' :: rest =>
    match splitValue rest with
    | ("help", none) => .helpAsked
    | ("version", none) => .versionAsked
    | ("help", some _) | ("version", some _) => .tooManyValues
    | _ => .unknownArgument
  | '-' :: 'h' :: _ => .helpAsked
  | '-' :: 'V' :: _ => .versionAsked
  | '-' :: _ :: _ => .unknownArgument
  | _ => .invalidSubcommand

/-- The command that the arguments give. -/
def parse : List String → Except UsageError Command
  | [] => .error .nothingGiven
  | "help" :: names => .error (helpOn names)
  | name :: arguments =>
    match Subcommand.named.lookup name with
    | some subcommand => do
      let reading ← readArguments subcommand.flags {} arguments
      reading.command subcommand
    | none => .error (otherFirst name arguments)

end Command

end AsyncLift

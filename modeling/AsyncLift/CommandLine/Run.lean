import AsyncLift.CommandLine.Arguments
import AsyncLift.Conversion.Action
import AsyncLift.Program.Printer
import AsyncLift.Project.Loading

/-!
# Running commands

What a command prints, given the texts of files. A failure is a chain of notes, the outermost first.
-/

namespace AsyncLift

/-- A link of a failure's chain. -/
inductive FailureNote where
  | message (text : String)
  /-- A file cannot be read. -/
  | unreadable
  /-- A text is no document of the expected form. -/
  | malformed
  /-- The same, said of a project. -/
  | malformedProject
deriving DecidableEq, Repr, Inhabited

abbrev Failure := List FailureNote

namespace Command

/-- The text of a file, if it can be read. -/
abbrev Files := String → Option String

def readFile (files : Files) (role path : String) : Except Failure String :=
  match files path with
  | some text => .ok text
  | none => .error [.message (s!"failed to read {role} " ++ path), .unreadable]

def loadProgram (files : Files) (path : String) : Except Failure Program := do
  let text ← readFile files "project" path
  let context := FailureNote.message ("failed to load project " ++ path)
  match ProjectDoc.parse? text with
  | none => .error [context, .malformedProject, .malformed]
  | some doc =>
    match doc.load with
    | .ok program => .ok program
    | .error error => .error [context, .message error.message]

/-- What the command line says wins over what the file says. -/
def override (options : Options) (overrides : Overrides) : Options where
  suffix := overrides.suffix.getD options.suffix
  taskType := overrides.taskType.getD options.taskType
  scope := overrides.scope.getD options.scope
  counterpart := overrides.counterpart.getD options.counterpart
  rollbackOnAbort := !overrides.noRollback && options.rollbackOnAbort

def loadOptions (files : Files) (overrides : Overrides) : Except Failure Options :=
  match overrides.config with
  | none => .ok (override {} overrides)
  | some path => do
    let text ← readFile files "options" path
    match Options.parse? text with
    | some options => .ok (override options overrides)
    | none => .error [.message ("failed to parse options " ++ path), .malformed]

def resolve (program : Program) (path : String) : Except Failure MethodId :=
  match program.resolveMethod path with
  | .ok id => .ok id
  | .error error => .error [.message s!"cannot convert `{path}`", .message error.message]

def runConvert (files : Files) (target : Target) (overrides : Overrides) (report : Bool) :
    Except Failure String := do
  let options ← loadOptions files overrides
  let program ← loadProgram files target.project
  let id ← resolve program target.method
  match Action.execute options program id with
  | (.error error, _) => .error [.message (Action.name ++ " failed"), .message error.message]
  | (.ok done, converted) =>
    if report || target.json then return done.toJson.pretty ++ "\n" else return converted.print

/-- The numbered lines of a plan; a method without a declaration is marked. -/
def planLines (program : Program) (plan : Plan) : List String :=
  plan.order.zipIdx.map fun step =>
    let undeclared := program.methods[step.1]?.any (!·.isDeclared)
    toString (step.2 + 1) ++ ". " ++ program.qualifiedName step.1 ++
      if undeclared then "  (no declaration)" else ""

def runPlan (files : Files) (target : Target) : Except Failure String := do
  let program ← loadProgram files target.project
  let id ← resolve program target.method
  let plan := program.plan id
  if target.json then return plan.toJson.pretty ++ "\n"
  else return Program.joinLines (planLines program plan)

def runCheck (files : Files) (target : Target) (overrides : Overrides) :
    Except Failure String := do
  let options ← loadOptions files overrides
  let program ← loadProgram files target.project
  let id ← resolve program target.method
  let name := program.qualifiedName id
  let available := program.isAvailable options id
  if target.json then
    let verdict := Json.object [("method", .string name), ("available", .bool available)]
    return verdict.compact ++ "\n"
  else return name ++ ": " ++ (if available then "available" else "not available") ++ "\n"

/-- The text that a command prints. -/
def run (files : Files) : Command → Except Failure String
  | convert target overrides report => runConvert files target overrides report
  | plan target => runPlan files target
  | check target overrides => runCheck files target overrides
  | print project => Program.print <$> loadProgram files project

end Command

end AsyncLift

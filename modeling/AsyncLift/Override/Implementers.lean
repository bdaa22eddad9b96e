import AsyncLift.Override.Targets

/-!
# Overriding and implementing members

The methods from which a method is reached by override targets, those with a shorter chain first.
-/

namespace AsyncLift.Program

/-- Every method with its override targets. -/
def overrideEdges (program : Program) : List (MethodId × List MethodId) :=
  program.methodIds.map fun id => (id, program.overrideTargets id)

/-- The methods that have a method among their targets. -/
def overriders (edges : List (MethodId × List MethodId)) (target : MethodId) : List MethodId :=
  (edges.filter (·.2.contains target)).map (·.1)

/-- Goes from the methods of a frontier to those that override them and are new, level by level. -/
def spreadDown (edges : List (MethodId × List MethodId)) (root : MethodId) :
    (levels : Nat) → (found frontier : List MethodId) → List MethodId
  | 0, found, _ => found
  | levels + 1, found, frontier =>
    match ((frontier.flatMap (overriders edges)).filter fun id =>
        id != root && !found.contains id).eraseDups with
    | [] => found
    | next => spreadDown edges root levels (found ++ next) next

/-- The methods that override or implement a method directly or through others, nearest first. A
method without a declaration has none. -/
def implementingMembers (program : Program) (id : MethodId) : List MethodId :=
  if program.isDeclared id then spreadDown program.overrideEdges id maxHierarchyDepth [] [id]
  else []

end AsyncLift.Program

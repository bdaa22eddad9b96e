import AsyncLift.Program.Basic

/-!
# Retargeting calls

A call is pointed at another method, under that method's current name, and put under an `await` if
that is asked for and it is not under one already.
-/

namespace AsyncLift

/-- Where a retargeted call stands. -/
structure Placement where
  /-- The call, which has moved if an `await` was put in its place. -/
  call : NodeId
  awaited : Bool
deriving DecidableEq, Repr, Inhabited

namespace Program

/-- Whether the parent of a node is an `await`. -/
def isUnderAwait (program : Program) (node : NodeId) : Bool :=
  match program.nodes.parent? node >>= program.nodes.get? with
  | some (.await _) => true
  | _ => false

/-- Retargets a call to a known method; there is no result for a node that is no call. -/
def retargetCall (program : Program) (node : NodeId) (target : MethodId) (awaiting : Bool) :
    Option (Placement × Program) :=
  match program.methods[target]?, program.nodes.get? node with
  | some method, some (.call receiver _ _ args) =>
    let renamed := program.nodes.set node (.call receiver method.name (some target) args)
    if awaiting && !program.isUnderAwait node then
      (renamed.wrapInAwait node).map fun wrapped =>
        ({ call := renamed.size, awaited := true }, { program with nodes := wrapped })
    else some ({ call := node, awaited := awaiting }, { program with nodes := renamed })
  | _, _ => none

end Program

end AsyncLift

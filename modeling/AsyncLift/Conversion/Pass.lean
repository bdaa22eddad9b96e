import AsyncLift.Conversion.Report
import AsyncLift.Conversion.Retarget
import AsyncLift.Counterpart

/-!
# Retargeting calls in a pass

Two steps share one operation, `Pass.retarget`: `Pass.retargetSite` points a reference to a
converted method at its new name, and `Pass.retargetBody` points calls in a converted body at
asynchronous counterparts of their callees. Either way the call is awaited exactly when its
enclosing function is asynchronous at that moment, and no call is retargeted twice in one pass.
-/

namespace AsyncLift

/-- The state of a pass: the program so far, the nodes that are settled, and the report. -/
structure Pass where
  program : Program
  visited : List NodeId := []
  report : Report := {}
deriving Inhabited

namespace Pass

/-- Settles a node. -/
def visit (pass : Pass) (node : NodeId) : Pass := { pass with visited := node :: pass.visited }

def skip (pass : Pass) (site : CallSite) (reason : SkipReason) : Pass :=
  { pass with
    report := { pass.report with
      skipped := pass.report.skipped ++ [{ node := site.node, method := site.method, reason }] } }

/-- Retargets a call and reports it. -/
def retarget (pass : Pass) (node : NodeId) (target : MethodId) (enclosing : EnclosingFunction)
    (origin : CallOrigin) : Pass :=
  match pass.program.retargetCall node target (enclosing.isAsync pass.program) with
  | none => pass
  | some (placement, program) =>
    { program
      visited := placement.call :: pass.visited
      report := { pass.report with
        retargeted := pass.report.retargeted ++
          [{ node := placement.call, target, enclosing, awaited := placement.awaited, origin }] } }

/-- Retargets a reference to a converted method, unless its node is settled. Method groups and calls
outside functions are only reported. -/
def retargetSite (pass : Pass) (site : CallSite) : Pass :=
  if pass.visited.contains site.node then pass
  else
    let pass := pass.visit site.node
    match site.kind, site.enclosing with
    | .methodGroup, _ => pass.skip site .notAnInvocation
    | .invocation, none => pass.skip site .noEnclosingFunction
    | .invocation, some enclosing =>
      pass.retarget site.node site.method enclosing .referenceSearch

/-- The counterpart that a call in a converted body is to be pointed at. Callees that are planned
are left to the reference search, and callees that return a completion type need no counterpart. -/
def counterpartOf? (pass : Pass) (options : Options) (planned : List MethodId) (node : NodeId) :
    Option MethodId :=
  match pass.program.nodes.get? node with
  | some (.call _ _ (some callee) _) =>
    if planned.contains callee then none
    else if pass.program.methods[callee]?.any (·.returnType.isCompletion options.taskType) then none
    else pass.program.counterpart? options callee
  | _ => none

/-- Retargets one call of a converted body, if it is not settled and has a counterpart. -/
def retargetInvocation (pass : Pass) (options : Options) (planned : List MethodId) (node : NodeId) :
    Pass :=
  if pass.visited.contains node then pass
  else
    match pass.counterpartOf? options planned node, pass.program.enclosingFunction? node with
    | some target, some enclosing => (pass.visit node).retarget node target enclosing .bodyScan
    | _, _ => pass

/-- Retargets the calls in the body of a declaration that stand there at the outset. -/
def retargetBody (pass : Pass) (options : Options) (planned : List MethodId)
    (declaration : DeclId) : Pass :=
  match pass.program.declarations[declaration]?.bind (·.body) with
  | none => pass
  | some body =>
    (pass.program.invocations body).foldl
      (fun pass node => pass.retargetInvocation options planned node) pass

end Pass

end AsyncLift

import AsyncLift.Reference
import AsyncLift.Signature

/-!
# Reports

What a conversion has done: the plan, the changed signatures, the retargeted calls, and the
references that were left alone and why.
-/

namespace AsyncLift

/-- How a retargeted call was come by. -/
inductive CallOrigin where
  /-- It refers to a converted method. -/
  | referenceSearch
  /-- It stands in a converted body and its callee has an asynchronous counterpart. -/
  | bodyScan
deriving DecidableEq, Repr, Inhabited

def CallOrigin.name : CallOrigin → String
  | referenceSearch => "reference_search"
  | bodyScan => "body_scan"

structure RetargetedCall where
  /-- The call where it stands after it was retargeted. -/
  node : NodeId
  target : MethodId
  enclosing : EnclosingFunction
  awaited : Bool
  origin : CallOrigin
deriving DecidableEq, Repr, Inhabited

/-- Why a reference was left alone. -/
inductive SkipReason where
  | noEnclosingFunction
  | notAnInvocation
deriving DecidableEq, Repr, Inhabited

def SkipReason.name : SkipReason → String
  | noEnclosingFunction => "no_enclosing_function"
  | notAnInvocation => "not_an_invocation"

structure SkippedReference where
  node : NodeId
  method : MethodId
  reason : SkipReason
deriving DecidableEq, Repr, Inhabited

structure Report where
  plan : List MethodId := []
  converted : List SignatureChange := []
  retargeted : List RetargetedCall := []
  skipped : List SkippedReference := []
deriving DecidableEq, Repr, Inhabited

namespace Report

def convertedMethods (report : Report) : List MethodId := report.converted.map (·.method)

def awaitedCalls (report : Report) : Nat := report.retargeted.countP (·.awaited)

def countFrom (report : Report) (origin : CallOrigin) : Nat :=
  report.retargeted.countP (·.origin == origin)

end Report

/-! ## Output -/

def EnclosingFunction.toJson : EnclosingFunction → Json
  | method declaration => .object [("method", .number declaration)]
  | localFunction node => .object [("local", .number node)]

def RetargetedCall.toJson (call : RetargetedCall) : Json :=
  .object [("node", .number call.node), ("target", .number call.target),
    ("enclosing", call.enclosing.toJson), ("awaited", .bool call.awaited),
    ("origin", .string call.origin.name)]

def SkippedReference.toJson (skipped : SkippedReference) : Json :=
  .object [("node", .number skipped.node), ("symbol", .number skipped.method),
    ("reason", .string skipped.reason.name)]

def Report.toJson (report : Report) : Json :=
  .object [("plan", .array (report.plan.map .number)),
    ("converted", .array (report.converted.map (·.toJson))),
    ("rewritten", .array (report.retargeted.map (·.toJson))),
    ("skipped", .array (report.skipped.map (·.toJson)))]

end AsyncLift

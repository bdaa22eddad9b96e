import AsyncLift.Json
import AsyncLift.Override.Implementers

/-!
# Plans

The methods that are converted together, in order: what the root overrides or implements, a method
always after its own targets; then what overrides or implements the root; then the root.
-/

namespace AsyncLift

structure Plan where
  root : MethodId
  /-- All planned methods, the root last. -/
  order : List MethodId
  /-- How many methods at the head of the order are above the root. -/
  upward : Nat
deriving DecidableEq, Repr, Inhabited

namespace Plan

/-- The planned methods above the root, topmost first. -/
def ancestors (plan : Plan) : List MethodId := plan.order.take plan.upward

/-- The planned methods below the root. -/
def descendants (plan : Plan) : List MethodId :=
  (plan.order.take (max (plan.order.length - 1) plan.upward)).drop plan.upward

def toJson (plan : Plan) : Json :=
  .object [("root", .number plan.root), ("order", .array (plan.order.map .number)),
    ("upward", .number plan.upward)]

end Plan

/-- A list with an element at its end, unless it is there already. -/
def appendNew (xs : List MethodId) (x : MethodId) : List MethodId :=
  if xs.contains x then xs else xs ++ [x]

namespace Program

/-- Adds the bases of a method to an order, each after its own bases. -/
def addBases (program : Program) : (levels : Nat) → List MethodId → MethodId → List MethodId
  | 0, order, _ => order
  | levels + 1, order, id =>
    (program.immediateBases id).foldl
      (fun order base =>
        if order.contains base then order else appendNew (program.addBases levels order base) base)
      order

def plan (program : Program) (root : MethodId) : Plan :=
  let above := (program.addBases (maxHierarchyDepth + 1) [] root).erase root
  let others := (program.implementingMembers root).foldl appendNew above
  { root, order := others.erase root ++ [root], upward := above.length }

end Program

end AsyncLift

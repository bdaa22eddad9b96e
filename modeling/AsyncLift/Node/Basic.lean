import AsyncLift.Ids
import AsyncLift.TypeExpr.Basic

/-!
# Nodes

The statements and expressions that bodies and field initializers are made of. A node refers to its
children by their ids.
-/

namespace AsyncLift

inductive Node where
  | block (statements : List Slot)
  /-- An expression that stands as a statement. -/
  | exprStatement (expr : Slot)
  | ret (expr : Slot)
  /-- The declaration of a local variable. -/
  | localVar (name : String) (init : Slot)
  /-- The call of a method, under the name that is written; `target` is the method that it resolves
  to. -/
  | call (receiver : Slot) (name : String) (target : Option MethodId) (args : List Slot)
  | await (operand : Slot)
  /-- A method that is named and not called. -/
  | methodGroup (receiver : Slot) (name : String) (target : Option MethodId)
  | lambda (isAsync : Bool) (params : List String) (body : Slot)
  /-- A named function inside a body. -/
  | localFunction (name : String) (isAsync : Bool) (returnType : TypeExpr) (body : Slot)
  | name (text : String)
  | literal (text : String)
  /-- The root of a field initializer, which lies in no function. -/
  | initializer (field : String) (expr : Slot)
deriving DecidableEq, Repr, Inhabited

namespace Node

/-- The places for children, in source order. -/
def slots : Node → List Slot
  | block statements => statements
  | exprStatement expr => [expr]
  | ret expr => [expr]
  | localVar _ init => [init]
  | call receiver _ _ args => receiver :: args
  | await operand => [operand]
  | methodGroup receiver _ _ => [receiver]
  | lambda _ _ body => [body]
  | localFunction _ _ _ body => [body]
  | name _ => []
  | literal _ => []
  | initializer _ expr => [expr]

/-- The children, in source order. -/
def children (node : Node) : List NodeId := node.slots.filterMap id

def isCall : Node → Bool
  | call .. => true
  | _ => false

/-- The method that a call or a method group resolves to. -/
def target? : Node → Option MethodId
  | call _ _ target _ => target
  | methodGroup _ _ target => target
  | _ => none

end Node

end AsyncLift

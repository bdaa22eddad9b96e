import AsyncLift.Options
import AsyncLift.Program.Basic

/-!
# References to methods

Where a method is called or named, and the function that such a place belongs to.

The enclosing function of a node is the innermost local function or method around it; lambdas are
looked through, and an initializer belongs to no function.
-/

namespace AsyncLift

/-! ## Enclosing functions -/

inductive EnclosingFunction where
  | method (declaration : DeclId)
  | localFunction (node : NodeId)
deriving DecidableEq, Repr, Inhabited

/-- Whether the function is asynchronous as the program stands. -/
def EnclosingFunction.isAsync (program : Program) : EnclosingFunction → Bool
  | method declaration =>
    (program.declarations[declaration]?.bind fun declaration =>
      program.methods[declaration.method]?).any (·.isAsync)
  | localFunction node =>
    match program.nodes.get? node with
    | some (.localFunction _ isAsync _ _) => isAsync
    | _ => false

namespace Program

/-- The innermost function from a node upwards, the node included, at most `hops` nodes up. -/
def functionFrom? (program : Program) : (hops : Nat) → NodeId → Option EnclosingFunction
  | 0, _ => none
  | hops + 1, id =>
    match program.nodes.get? id with
    | none => none
    | some (.localFunction ..) => some (.localFunction id)
    | some (.initializer ..) => none
    | some _ =>
      match program.nodes.parent? id with
      | none => (program.bodyOwner.find? id).map .method
      | some parent => program.functionFrom? hops parent

/-- The innermost function around a node. -/
def enclosingFunction? (program : Program) (id : NodeId) : Option EnclosingFunction :=
  program.nodes.parent? id >>= program.functionFrom? maxParentHops

end Program

/-! ## Searching -/

/-- A way to find the nodes that refer to a method. -/
abbrev ReferenceSearch := Program → MethodId → List NodeId

namespace ReferenceSearch

/-- The nodes that a list pairs with the method, as they are listed. -/
def ofPairs (pairs : List (MethodId × NodeId)) : ReferenceSearch := fun _ method =>
  (pairs.filter (·.1 == method)).map (·.2)

/-- The nodes of the program that refer to the method, in table order. In the narrow scope only
nodes of one module count: the given one, or else the one that declares the method; where there is
neither, all nodes count. -/
def inProgram (scope : SearchScope) (anchor : Option ModuleId) : ReferenceSearch :=
  fun program method =>
    let within :=
      match scope with
      | .solution => none
      | .declaringModule => anchor.or (program.declaringModule? method)
    program.nodes.ids.filter fun node =>
      (program.nodes.get? node).any (·.target? == some method) &&
        (within.isNone || program.moduleOf? node == within)

/-- The search of a conversion: in the narrow scope it keeps to the module of the root. -/
def anchoredAt (scope : SearchScope) (program : Program) (root : MethodId) : ReferenceSearch :=
  inProgram scope (program.declaringModule? root)

end ReferenceSearch

/-! ## Call sites -/

inductive ReferenceKind where
  | invocation
  /-- The method is named and not called. -/
  | methodGroup
deriving DecidableEq, Repr, Inhabited

structure CallSite where
  node : NodeId
  method : MethodId
  kind : ReferenceKind
  /-- The function around the site; none in an initializer. -/
  enclosing : Option EnclosingFunction
deriving DecidableEq, Repr, Inhabited

namespace Program

/-- The reference to a method that a node is taken for. -/
def callSite? (program : Program) (method : MethodId) (node : NodeId) : Option CallSite :=
  match program.nodes.get? node with
  | some (.call ..) =>
    some { node, method, kind := .invocation, enclosing := program.enclosingFunction? node }
  | some (.methodGroup ..) =>
    some { node, method, kind := .methodGroup, enclosing := program.enclosingFunction? node }
  | _ => none

/-- Every call and every method group among the nodes that a search finds. -/
def callSites (program : Program) (search : ReferenceSearch) (method : MethodId) : List CallSite :=
  (search program method).filterMap (program.callSite? method)

/-- The calls below a node, in source order. -/
def invocations (program : Program) (root : NodeId) : List NodeId :=
  (program.nodes.descendants root).filter fun id => (program.nodes.get? id).any (·.isCall)

end Program

end AsyncLift

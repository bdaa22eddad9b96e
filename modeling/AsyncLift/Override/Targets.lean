import AsyncLift.Program.Basic

/-!
# Override targets

The members that a method overrides or implements directly:

* a method marked `override` overrides the nearest matching member of a base class;
* a class method implements the matching members of the interfaces of its class, and of those that
  these extend;
* a class method that a derived class inherits unchanged also implements the matching members of the
  interfaces of the derived class.

Members match when they are two, neither is static, and name and parameter types agree. Static
methods and members of interfaces have no targets. Walks stop after `maxHierarchyDepth` types.
-/

namespace AsyncLift

/-- How many types a walk along base classes or interfaces passes. -/
def maxHierarchyDepth : Nat := 256

namespace Program

/-- The first member of a type that matches a method. -/
def matchingMember? (program : Program) (id : MethodId) (method : Method) (type : TypeId) :
    Option MethodId :=
  (program.membersNamed type method.name).find? fun candidate =>
    candidate != id &&
      program.methods[candidate]?.any fun other => !other.isStatic && other.sameSignature method

def baseClassOf (program : Program) (type : TypeId) : Option TypeId :=
  program.types[type]?.bind (·.baseClass)

def interfacesOf (program : Program) (type : TypeId) : List TypeId :=
  match program.types[type]? with
  | some decl => decl.interfaces
  | none => []

/-- The matching member of the nearest class that has one, from a class upwards. -/
def inheritedMember? (program : Program) (id : MethodId) (method : Method) :
    (classes : Nat) → Option TypeId → Option MethodId
  | 0, _ => none
  | _, none => none
  | classes + 1, some type =>
    match program.matchingMember? id method type with
    | some found => some found
    | none => program.inheritedMember? id method classes (program.baseClassOf type)

/-- Whether the owner of a method is reached from a class upwards before any class with a matching
member. -/
def reachesOwner (program : Program) (id : MethodId) (method : Method) :
    (classes : Nat) → Option TypeId → Bool
  | 0, _ => false
  | _, none => false
  | classes + 1, some type =>
    type == method.owner ||
      (program.matchingMember? id method type).isNone &&
        program.reachesOwner id method classes (program.baseClassOf type)

/-- Whether a class with interfaces, other than the owner, has the method as its own. -/
def inheritsUnchanged (program : Program) (id : MethodId) (method : Method) (type : TypeId) :
    Bool :=
  match program.types[type]? with
  | none => false
  | some decl =>
    type != method.owner && decl.kind == .ofClass && !decl.interfaces.isEmpty &&
      (program.matchingMember? id method type).isNone &&
      program.reachesOwner id method maxHierarchyDepth decl.baseClass

/-- Members found so far, and the interfaces that have been looked at. -/
structure Collected where
  found : List MethodId := []
  visited : List TypeId := []

/-- Adds the matching members of an interface and of those that it extends. -/
def collectMembers (program : Program) (id : MethodId) (method : Method) :
    (levels : Nat) → Collected → TypeId → Collected
  | 0, collected, _ => collected
  | levels + 1, collected, interface =>
    if collected.visited.contains interface then collected
    else
      let found :=
        match program.matchingMember? id method interface with
        | some member =>
          if collected.found.contains member then collected.found else collected.found ++ [member]
        | none => collected.found
      (program.interfacesOf interface).foldl (program.collectMembers id method levels)
        { found, visited := interface :: collected.visited }

/-- The interfaces that a class method may implement members of: those of its class, then those of
the classes that inherit it unchanged. -/
def implementedInterfaces (program : Program) (id : MethodId) (method : Method) : List TypeId :=
  program.interfacesOf method.owner ++
    (program.typeIds.filter (program.inheritsUnchanged id method)).flatMap program.interfacesOf

/-- The targets of a class method. -/
def classMethodTargets (program : Program) (id : MethodId) (method : Method) : List MethodId :=
  let overridden :=
    if method.modifiers.isOverride then
      (program.inheritedMember? id method maxHierarchyDepth
        (program.baseClassOf method.owner)).toList
    else []
  ((program.implementedInterfaces id method).foldl
    (program.collectMembers id method (maxHierarchyDepth + 1)) { found := overridden }).found

/-- The members that a method overrides or implements directly. -/
def overrideTargets (program : Program) (id : MethodId) : List MethodId :=
  match program.methods[id]? with
  | none => []
  | some method =>
    if method.isStatic || program.types.size ≤ method.owner then []
    else
      match method.kind with
      | .interfaceMember => []
      | .concrete | .abstract => program.classMethodTargets id method

/-- The override targets of a declared method; a method without a declaration has none to start
from. -/
def immediateBases (program : Program) (id : MethodId) : List MethodId :=
  if program.isDeclared id then program.overrideTargets id else []

end Program

end AsyncLift

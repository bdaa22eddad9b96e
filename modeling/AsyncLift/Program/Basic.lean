import AsyncLift.Error
import AsyncLift.Modifiers
import AsyncLift.Node.Register
import AsyncLift.Node.Store

/-!
# Programs

A program is a set of tables: modules, types, methods, declarations of methods, and the nodes of
their bodies. Everything refers to everything else by id. An id is a place in a table and no column
of it: where a search answers with a row, as for a type or a method of some name, it is the place
that comes back (`Program.findType?`, `Program.resolveMethod`).

A method is known apart from where it is written: it has no declaration when only its existence is
known, one as a rule, and several when it is written in parts.
-/

namespace AsyncLift

inductive TypeKind where
  | ofClass
  | ofInterface
deriving DecidableEq, Repr, Inhabited

structure TypeDecl where
  name : String
  declaredIn : ModuleId
  kind : TypeKind
  baseClass : Option TypeId := none
  /-- The interfaces listed on the type; on an interface, those that it extends. -/
  interfaces : List TypeId := []
  members : List MethodId := []
  /-- The roots of the field initializers. -/
  initializers : List NodeId := []
deriving DecidableEq, Repr, Inhabited

/-- The direct supertypes: the base class, then the listed interfaces. -/
def TypeDecl.supertypes (type : TypeDecl) : List TypeId := type.baseClass.toList ++ type.interfaces

/-- What a method is for overriding and asynchrony. -/
inductive MethodKind where
  /-- A method of a class, which may have a body. -/
  | concrete
  | abstract
  | interfaceMember
deriving DecidableEq, Repr, Inhabited

structure Param where
  name : String
  type : TypeExpr
deriving DecidableEq, Repr, Inhabited

structure Method where
  owner : TypeId
  name : String
  params : List Param := []
  returnType : TypeExpr := .void
  modifiers : Modifiers := {}
  kind : MethodKind := .concrete
  declarations : List DeclId := []
  /-- A name under which the method alone is found. -/
  key : Option String := none
deriving DecidableEq, Repr, Inhabited

namespace Method

def paramTypes (method : Method) : List TypeExpr := method.params.map (·.type)

/-- Same name and same parameter types in the same order. -/
def sameSignature (a b : Method) : Bool := a.name == b.name && a.paramTypes == b.paramTypes

def isStatic (method : Method) : Bool := method.modifiers.isStatic

def isAsync (method : Method) : Bool := method.modifiers.isAsync

def isDeclared (method : Method) : Bool := !method.declarations.isEmpty

end Method

/-- One place where a method is written. -/
structure Declaration where
  method : MethodId
  declaredIn : ModuleId
  /-- The block of the body, if there is one. -/
  body : Option NodeId := none
deriving DecidableEq, Repr, Inhabited

structure Program where
  /-- The names of the modules. -/
  modules : Array String := #[]
  types : Array TypeDecl := #[]
  methods : Array Method := #[]
  declarations : Array Declaration := #[]
  nodes : NodeStore := {}
  /-- The declaration that a block is the body of. -/
  bodyOwner : Register DeclId := {}
  /-- The module that the root of a body or of an initializer lies in. -/
  rootModule : Register ModuleId := {}
deriving DecidableEq, Repr, Inhabited

namespace Program

/-! ## Types and their members -/

def typeIds (program : Program) : List TypeId := List.range program.types.size

def methodIds (program : Program) : List MethodId := List.range program.methods.size

/-- The first type of a name. -/
def findType? (program : Program) (name : String) : Option TypeId :=
  program.types.findIdx? (·.name == name)

/-- The direct supertypes of a type; none for an unknown type. -/
def supertypesOf (program : Program) (type : TypeId) : List TypeId :=
  match program.types[type]? with
  | some decl => decl.supertypes
  | none => []

/-- The members of a type that have a name. -/
def membersNamed (program : Program) (type : TypeId) (name : String) : List MethodId :=
  match program.types[type]? with
  | some decl => decl.members.filter fun id => program.methods[id]?.any (·.name == name)
  | none => []

def isDeclared (program : Program) (method : MethodId) : Bool :=
  program.methods[method]?.any (·.isDeclared)

/-! ## Naming methods -/

/-- The owner's name and the method's, joined by a point. -/
def qualifiedName (program : Program) (id : MethodId) : String :=
  match program.methods[id]? with
  | none => s!"SymbolId#{id}"
  | some method =>
    match program.types[method.owner]? with
    | some owner => owner.name ++ "." ++ method.name
    | none => method.name

/-- The method that a path means: the one that has it as its key, or else the only one that has it
as its qualified name. -/
def resolveMethod (program : Program) (path : String) : Except ProgramError MethodId :=
  match program.methods.findIdx? (·.key == some path) with
  | some id => .ok id
  | none =>
    match program.methodIds.filter (program.qualifiedName · == path) with
    | [] => .error (.unknownMethod path)
    | [id] => .ok id
    | _ => .error (.ambiguousMethod path)

/-! ## Where nodes lie -/

/-- The module that a node lies in, by the root of its tree. -/
def moduleOf? (program : Program) (node : NodeId) : Option ModuleId :=
  program.nodes.rootOf node >>= program.rootModule.find?

/-- The module of a method's first declaration. -/
def declaringModule? (program : Program) (method : MethodId) : Option ModuleId := do
  let method ← program.methods[method]?
  let first ← method.declarations.head?
  let declaration ← program.declarations[first]?
  return declaration.declaredIn

end Program

end AsyncLift

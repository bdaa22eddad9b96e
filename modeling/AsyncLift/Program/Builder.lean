import AsyncLift.Program.Construction
import AsyncLift.Program.Validation

/-!
# Building programs

A builder takes calls one after another: types go into the module that was started last, nodes are
made children first, and statements are handed over as the body of a method. Ids in a call are not
checked; `Builder.finish` validates what has come of them.
-/

namespace AsyncLift

/-- The signature of a method to add. -/
structure MethodSpec where
  name : String
  params : List Param := []
  returnType : TypeExpr := .void
  modifiers : Modifiers := {}
  key : Option String := none
  /-- The method exists, but is not written anywhere in the program. -/
  isExternal : Bool := false
deriving DecidableEq, Repr, Inhabited

structure Builder where
  program : Program := {}
  /-- The module that types are put into. -/
  current : ModuleId := 0
deriving DecidableEq, Repr, Inhabited

namespace Builder

/-! ## Modules and types -/

def startModule (builder : Builder) (name : String) : Builder where
  program := builder.program.addModule name
  current := builder.program.modules.size

/-- A builder with a first module. -/
def withMain : Builder := ({} : Builder).startModule "main"

def addType (builder : Builder) (kind : TypeKind) (name : String) : Builder :=
  { builder with program := builder.program.addType kind name builder.current }

/-! ## Methods -/

/-- The module of a type, or else the one in which types are being added. -/
def moduleOfType (builder : Builder) (type : TypeId) : ModuleId :=
  match builder.program.types[type]? with
  | some type => type.declaredIn
  | none => builder.current

def moduleOfMethod (builder : Builder) (method : MethodId) : ModuleId :=
  match builder.program.methods[method]? with
  | some method => builder.moduleOfType method.owner
  | none => builder.current

/-- Members of interfaces are a kind of their own; in classes the modifier decides. -/
def kindOf (builder : Builder) (owner : TypeId) (modifiers : Modifiers) : MethodKind :=
  if builder.program.types[owner]?.any (·.kind == .ofInterface) then .interfaceMember
  else if modifiers.isAbstract then .abstract
  else .concrete

/-- Adds a method and, unless it is external, a declaration without a body. -/
def addMethod (builder : Builder) (owner : TypeId) (spec : MethodSpec) : Builder :=
  let id := builder.program.methods.size
  let program := builder.program.addMethod
    { owner
      name := spec.name
      params := spec.params
      returnType := spec.returnType
      modifiers := spec.modifiers
      kind := builder.kindOf owner spec.modifiers
      key := spec.key }
  if spec.isExternal then { builder with program }
  else
    { builder with
      program := program.addDeclaration { method := id, declaredIn := builder.moduleOfType owner } }

/-! ## Nodes -/

/-- Adds a node and returns its id. -/
def addNode (builder : Builder) (node : Node) : NodeId × Builder :=
  (builder.program.nodes.size, { builder with program := builder.program.addNode node })

/-- The name that a method goes by at the moment. -/
def methodName (builder : Builder) (method : MethodId) : String :=
  match builder.program.methods[method]? with
  | some method => method.name
  | none => ""

/-- A call of a method under its own name. -/
def addCall (builder : Builder) (receiver : Slot) (target : MethodId) (args : List Slot) :
    NodeId × Builder :=
  builder.addNode (.call receiver (builder.methodName target) (some target) args)

def addMethodGroup (builder : Builder) (target : MethodId) : NodeId × Builder :=
  builder.addNode (.methodGroup none (builder.methodName target) (some target))

def addLambda (builder : Builder) (isAsync : Bool) (params : List String)
    (statements : List Slot) : NodeId × Builder :=
  let (body, builder) := builder.addNode (.block statements)
  builder.addNode (.lambda isAsync params (some body))

def addLocalFunction (builder : Builder) (name : String) (isAsync : Bool) (returnType : TypeExpr)
    (statements : List Slot) : NodeId × Builder :=
  let (body, builder) := builder.addNode (.block statements)
  builder.addNode (.localFunction name isAsync returnType (some body))

/-! ## Bodies and initializers -/

/-- Adds a block as another part of a method, with a declaration of its own. -/
def addPart (builder : Builder) (method : MethodId) (statements : List Slot) :
    DeclId × Builder :=
  let declaredIn := builder.moduleOfMethod method
  let (block, builder) := builder.addNode (.block statements)
  (builder.program.declarations.size,
    { builder with
      program := builder.program.addDeclaration { method, declaredIn, body := some block } })

/-- Makes a block the body of a method's first declaration, which is added if there is none. -/
def setBody (builder : Builder) (method : MethodId) (statements : List Slot) :
    NodeId × Builder :=
  match builder.program.methods[method]?.bind (·.declarations.head?) with
  | some first =>
    let (block, builder) := builder.addNode (.block statements)
    (block, { builder with program := builder.program.attachBody first block })
  | none => (builder.program.nodes.size, (builder.addPart method statements).2)

def addField (builder : Builder) (type : TypeId) (name : String) (init : Slot) :
    NodeId × Builder :=
  let (root, builder) := builder.addNode (.initializer name init)
  (root, { builder with program := builder.program.addInitializer type root })

/-! ## Calls -/

/-- What a builder can be asked for. -/
inductive Call where
  | startModule (name : String)
  | addType (kind : TypeKind) (name : String)
  | setBaseClass (child base : TypeId)
  | listInterface (type interface : TypeId)
  | addMethod (owner : TypeId) (spec : MethodSpec)
  | setBody (method : MethodId) (statements : List Slot)
  | addPart (method : MethodId) (statements : List Slot)
  | addField (type : TypeId) (name : String) (init : Slot)
  | call (receiver : Slot) (target : MethodId) (args : List Slot)
  | unresolvedCall (receiver : Slot) (name : String) (args : List Slot)
  | await (operand : Slot)
  | methodGroup (target : MethodId)
  | lambda (isAsync : Bool) (params : List String) (statements : List Slot)
  | name (text : String)
  | literal (text : String)
  | exprStatement (expr : Slot)
  | ret (expr : Slot)
  | localVar (name : String) (init : Slot)
  | localFunction (name : String) (isAsync : Bool) (returnType : TypeExpr)
      (statements : List Slot)
deriving DecidableEq, Repr, Inhabited

/-- What a call has made. -/
inductive Made where
  | ofModule (id : ModuleId)
  | ofType (id : TypeId)
  | ofMethod (id : MethodId)
  | ofDeclaration (id : DeclId)
  | ofNode (id : NodeId)
  | nothing
deriving DecidableEq, Repr, Inhabited

def perform (builder : Builder) : Call → Made × Builder
  | .startModule name => (.ofModule builder.program.modules.size, builder.startModule name)
  | .addType kind name => (.ofType builder.program.types.size, builder.addType kind name)
  | .setBaseClass child base =>
    (.nothing, { builder with program := builder.program.setBaseClass child base })
  | .listInterface type interface =>
    (.nothing, { builder with program := builder.program.listInterface type interface })
  | .addMethod owner spec => (.ofMethod builder.program.methods.size, builder.addMethod owner spec)
  | .setBody method statements => (builder.setBody method statements).map .ofNode id
  | .addPart method statements => (builder.addPart method statements).map .ofDeclaration id
  | .addField type name init => (builder.addField type name init).map .ofNode id
  | .call receiver target args => (builder.addCall receiver target args).map .ofNode id
  | .unresolvedCall receiver name args =>
    (builder.addNode (.call receiver name none args)).map .ofNode id
  | .await operand => (builder.addNode (.await operand)).map .ofNode id
  | .methodGroup target => (builder.addMethodGroup target).map .ofNode id
  | .lambda isAsync params statements =>
    (builder.addLambda isAsync params statements).map .ofNode id
  | .name text => (builder.addNode (.name text)).map .ofNode id
  | .literal text => (builder.addNode (.literal text)).map .ofNode id
  | .exprStatement expr => (builder.addNode (.exprStatement expr)).map .ofNode id
  | .ret expr => (builder.addNode (.ret expr)).map .ofNode id
  | .localVar name init => (builder.addNode (.localVar name init)).map .ofNode id
  | .localFunction name isAsync returnType statements =>
    (builder.addLocalFunction name isAsync returnType statements).map .ofNode id

/-- The builder after a list of calls. -/
def run (builder : Builder) (calls : List Call) : Builder :=
  calls.foldl (fun builder call => (builder.perform call).2) builder

/-- The program, if it is valid. -/
def finish (builder : Builder) : Except ProgramError Program := do
  builder.program.validate
  return builder.program

end Builder

end AsyncLift

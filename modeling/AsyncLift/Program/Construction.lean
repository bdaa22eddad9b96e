import AsyncLift.Program.Basic

/-!
# Extending a program

Each operation adds one row to a table of the program and keeps the tables that refer to it in step.
A new row has the old size of its table as its id. What refers to an unknown id is left out.
-/

namespace AsyncLift.Program

def addModule (program : Program) (name : String) : Program :=
  { program with modules := program.modules.push name }

def addType (program : Program) (kind : TypeKind) (name : String) (declaredIn : ModuleId) :
    Program :=
  { program with types := program.types.push { name, declaredIn, kind } }

def setBaseClass (program : Program) (child base : TypeId) : Program :=
  { program with
    types := program.types.modify child fun type => { type with baseClass := some base } }

def listInterface (program : Program) (type interface : TypeId) : Program :=
  { program with
    types := program.types.modify type fun type =>
      { type with interfaces := type.interfaces ++ [interface] } }

/-- Adds a method to the table and to the members of its owner. -/
def addMethod (program : Program) (method : Method) : Program :=
  { program with
    types := program.types.modify method.owner fun type =>
      { type with members := type.members ++ [program.methods.size] }
    methods := program.methods.push method }

def addNode (program : Program) (node : Node) : Program :=
  { program with nodes := program.nodes.add node }

/-- Notes that a node is the body of a declaration in a module. -/
def registerBody (program : Program) (body : NodeId) (declaration : DeclId) (module_ : ModuleId) :
    Program :=
  { program with
    bodyOwner := program.bodyOwner.insert body declaration
    rootModule := program.rootModule.insert body module_ }

/-- Adds a declaration to the table and to its method. -/
def addDeclaration (program : Program) (declaration : Declaration) : Program :=
  let id := program.declarations.size
  let program :=
    { program with
      declarations := program.declarations.push declaration
      methods := program.methods.modify declaration.method fun method =>
        { method with declarations := method.declarations ++ [id] } }
  match declaration.body with
  | some body => program.registerBody body id declaration.declaredIn
  | none => program

/-- Gives a declaration a body, in place of the one it may have. -/
def attachBody (program : Program) (id : DeclId) (body : NodeId) : Program :=
  match program.declarations[id]? with
  | none => program
  | some declaration =>
    let program :=
      match declaration.body with
      | some old =>
        { program with
          bodyOwner := program.bodyOwner.erase old
          rootModule := program.rootModule.erase old }
      | none => program
    let program :=
      { program with
        declarations := program.declarations.modify id fun declaration =>
          { declaration with body := some body } }
    program.registerBody body id declaration.declaredIn

/-- Lists a node as an initializer of a type. -/
def addInitializer (program : Program) (type : TypeId) (root : NodeId) : Program :=
  match program.types[type]? with
  | none => program
  | some decl =>
    { program with
      types := program.types.modify type fun decl =>
        { decl with initializers := decl.initializers ++ [root] }
      rootModule := program.rootModule.insert root decl.declaredIn }

end AsyncLift.Program

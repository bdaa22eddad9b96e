import AsyncLift.Program.Supertypes

/-!
# Validation

A program is valid when the ids that types, methods and references hold lead somewhere, every type
inherits only from what it may inherit from, no two methods have the same key, and no type lies
above itself. The complaint is about the first fault: types come first, then methods, then nodes,
each in table order, and cycles last.
-/

namespace AsyncLift.Program

def checkBaseClass (program : Program) (type : TypeDecl) (base : TypeId) :
    Except ProgramError Unit :=
  match program.types[base]? with
  | none => .error (.danglingId .ofType base)
  | some parent =>
    if type.kind = .ofClass ∧ parent.kind = .ofClass then .ok ()
    else .error (.invalidHeritage type.name parent.name .classExtendsClass)

def checkInterface (program : Program) (type : TypeDecl) (interface : TypeId) :
    Except ProgramError Unit :=
  match program.types[interface]? with
  | none => .error (.danglingId .ofType interface)
  | some parent =>
    if parent.kind = .ofInterface then .ok ()
    else .error (.invalidHeritage type.name parent.name .interfacesOnly)

def checkType (program : Program) (type : TypeDecl) : Except ProgramError Unit := do
  if program.modules.size ≤ type.declaredIn then throw (.danglingId .ofModule type.declaredIn)
  type.baseClass.forM (program.checkBaseClass type)
  type.interfaces.forM (program.checkInterface type)

/-- Checks methods in turn, `keys` being those of the methods before. -/
def checkMethods (program : Program) (keys : List String) :
    List Method → Except ProgramError Unit
  | [] => .ok ()
  | method :: methods =>
    if program.types.size ≤ method.owner then .error (.danglingId .ofType method.owner)
    else
      match method.key with
      | none => program.checkMethods keys methods
      | some key =>
        if keys.contains key then .error (.duplicateKey key)
        else program.checkMethods (key :: keys) methods

def checkTarget (program : Program) (node : Node) : Except ProgramError Unit :=
  match node.target? with
  | none => .ok ()
  | some target =>
    if target < program.methods.size then .ok () else .error (.danglingId .ofMethod target)

def validate (program : Program) : Except ProgramError Unit := do
  program.types.toList.forM program.checkType
  program.checkMethods [] program.methods.toList
  program.nodes.entries.toList.forM fun entry => program.checkTarget entry.node
  program.checkCycles

end AsyncLift.Program

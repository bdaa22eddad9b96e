import AsyncLift.Json
import AsyncLift.Options
import AsyncLift.Program.Basic

/-!
# Asynchronous signatures

A method becomes asynchronous by a suffix to its name and by returning the completion of what it
returned; a method with a body is also marked `async`. A method that returns a completion type
already is not offered for conversion, which is what keeps it from being converted twice.
-/

namespace AsyncLift

namespace Method

/-- The method as an asynchronous one. -/
def lift (method : Method) (options : Options) : Method :=
  { method with
    name := options.asyncName method.name
    returnType := method.returnType.completion options.taskType
    modifiers :=
      match method.kind with
      | .concrete => { method.modifiers with isAsync := true }
      | .abstract | .interfaceMember => method.modifiers }

/-- Whether the method is declared and returns no completion type. -/
def isAvailable (method : Method) (options : Options) : Bool :=
  method.isDeclared && !method.returnType.isCompletion options.taskType

end Method

/-- What lifting a method has changed. -/
structure SignatureChange where
  method : MethodId
  oldName : String
  newName : String
  oldReturn : TypeExpr
  newReturn : TypeExpr
  /-- Whether the method was marked `async`. -/
  markedAsync : Bool
deriving DecidableEq, Repr, Inhabited

def SignatureChange.toJson (change : SignatureChange) : Json :=
  .object [("symbol", .number change.method), ("old_name", .string change.oldName),
    ("new_name", .string change.newName), ("old_return", .string change.oldReturn.render),
    ("new_return", .string change.newReturn.render), ("marked_async", .bool change.markedAsync)]

namespace Program

def isAvailable (program : Program) (options : Options) (id : MethodId) : Bool :=
  program.methods[id]?.any (·.isAvailable options)

/-- The method that a path means, if it is offered for conversion. -/
def availableTarget? (program : Program) (options : Options) (path : String) : Option MethodId :=
  match program.resolveMethod path with
  | .ok id => if program.isAvailable options id then some id else none
  | .error _ => none

/-- Makes a known method asynchronous. -/
def liftMethod (program : Program) (options : Options) (id : MethodId) :
    Option (SignatureChange × Program) :=
  program.methods[id]?.map fun method =>
    let lifted := method.lift options
    ({ method := id
       oldName := method.name
       newName := lifted.name
       oldReturn := method.returnType
       newReturn := lifted.returnType
       markedAsync := method.kind == .concrete },
      { program with methods := program.methods.modify id (·.lift options) })

end Program

end AsyncLift

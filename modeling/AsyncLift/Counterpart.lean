import AsyncLift.Options
import AsyncLift.Program.Supertypes

/-!
# Asynchronous counterparts

A method may have a counterpart that does the same asynchronously: a member with the suffixed name,
of its own type or of a type above it. The nearest type with such members hides those above.
-/

namespace AsyncLift.Program

/-- The types that are searched for a counterpart, nearest first. -/
def searchPath (program : Program) (method : Method) : List TypeId :=
  method.owner :: program.ancestors method.owner

/-- The other members of a name in the nearest type that has any. -/
def nearestNamed (program : Program) (id : MethodId) (method : Method) (name : String) :
    List MethodId :=
  ((program.searchPath method).findSome? fun type =>
    match (program.membersNamed type name).filter (· != id) with
    | [] => none
    | named => some named).getD []

/-- Whether a candidate does asynchronously what a method does: it takes the same parameters,
returns the completion of what the method returns, and is static if the method is. -/
def isStrictCounterpart (program : Program) (options : Options) (method : Method)
    (candidate : MethodId) : Bool :=
  program.methods[candidate]?.any fun other =>
    other.isStatic == method.isStatic && other.paramTypes == method.paramTypes &&
      other.returnType == method.returnType.completion options.taskType

/-- The asynchronous counterpart of a method, if one can be told. -/
def counterpart? (program : Program) (options : Options) (id : MethodId) : Option MethodId := do
  let method ← program.methods[id]?
  let named := program.nearestNamed id method (options.asyncName method.name)
  match options.counterpart with
  | .off => none
  | .nameOnly => named.head?
  | .strict =>
    match named.filter (program.isStrictCounterpart options method) with
    | [only] => some only
    | _ => none

end AsyncLift.Program

import AsyncLift.Conversion.Run

/-!
# The conversion as an action

The action that is offered on a method: it refuses a method that is not available, and it undoes a
pass that stopped halfway if the options say so.
-/

namespace AsyncLift.Action

def name : String := "ConvertToAsync"

def text : String :=
  "Convert method to async and replace all inner call to async version if exist."

/-- Converts a method that is declared and available. With `rollbackOnAbort` a failure leaves the
program as it was. -/
def execute (options : Options) (program : Program) (id : MethodId) :
    Except ConversionError Report × Program :=
  if !program.isDeclared id then (.error (.unresolvedRoot (program.qualifiedName id)), program)
  else if !program.isAvailable options id then
    (.error (.notAvailable (program.qualifiedName id)), program)
  else
    match Conversion.run options program id with
    | (.ok report, converted) => (.ok report, converted)
    | (.error error, partly) =>
      (.error error, if options.rollbackOnAbort then program else partly)

end AsyncLift.Action

import AsyncLift.Conversion.Pass
import AsyncLift.Plan

/-!
# Conversion

A conversion goes through the plan of its root. For each method it changes the signature, retargets
every reference to it, and then retargets calls in its own bodies. Signatures change first, so that
a recursive call, or one from a method converted before, finds its function asynchronous.

A planned method without a declaration stops the pass; what was converted before stays converted.
-/

namespace AsyncLift.Conversion

/-- Converts one method with the given declarations. -/
def convertMethod (options : Options) (search : ReferenceSearch) (planned : List MethodId)
    (pass : Pass) (id : MethodId) (declarations : List DeclId) : Pass :=
  let pass :=
    match pass.program.liftMethod options id with
    | some (change, program) =>
      { pass with
        program
        report := { pass.report with converted := pass.report.converted ++ [change] } }
    | none => pass
  let pass := (pass.program.callSites search id).foldl Pass.retargetSite pass
  declarations.foldl (fun pass declaration => pass.retargetBody options planned declaration) pass

/-- Converts methods in turn, up to the first one without a declaration. -/
def convertAll (options : Options) (search : ReferenceSearch) (planned : List MethodId)
    (pass : Pass) : List MethodId → Except ConversionError Report × Program
  | [] => (.ok pass.report, pass.program)
  | id :: ids =>
    match (pass.program.methods[id]?.map (·.declarations)).getD [] with
    | [] =>
      (.error (.unresolvedMember id (pass.program.qualifiedName id) pass.report.convertedMethods),
        pass.program)
    | declarations =>
      convertAll options search planned
        (convertMethod options search planned pass id declarations) ids

/-- Converts a declared method and what is planned with it, finding references by a given search.
The program is returned also when the pass stopped halfway. -/
def runWith (options : Options) (search : ReferenceSearch) (program : Program) (root : MethodId) :
    Except ConversionError Report × Program :=
  if program.isDeclared root then
    let order := (program.plan root).order
    convertAll options search order { program, report := { plan := order } } order
  else (.error (.unresolvedRoot (program.qualifiedName root)), program)

/-- Converts a declared method, finding references in the program within the configured scope. -/
def run (options : Options) (program : Program) (root : MethodId) :
    Except ConversionError Report × Program :=
  runWith options (.anchoredAt options.scope program root) program root

/-- The method that a path names as the root of a conversion. -/
def resolveRoot (program : Program) (path : String) : Except ConversionError MethodId :=
  match program.resolveMethod path with
  | .ok id => .ok id
  | .error _ => .error (.unresolvedRoot path)

end AsyncLift.Conversion

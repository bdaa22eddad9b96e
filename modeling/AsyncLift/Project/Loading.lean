import AsyncLift.Program.Builder
import AsyncLift.Project.Document
import AsyncLift.TypeExpr.Parser

/-!
# Loading projects

`ProjectDoc.load` builds the program that a project document describes. All modules and types come
first, then what types inherit from, then all methods, and bodies and initializers last; so a
reference may go forward as well as backward in the document.
-/

namespace AsyncLift

/-- Steps that extend a builder and may fail. -/
abbrev Loading := StateT Builder (Except ProgramError)

namespace Loading

def update (change : Builder → Builder) : Loading Unit := modify change

/-- A step of the builder that returns an id. -/
def make (step : Builder → Nat × Builder) : Loading Nat := modifyGet step

def resolve (path : String) : Loading MethodId := do
  let builder ← get
  builder.program.resolveMethod path

/-- The first type of a name. -/
def findType (name : String) : Loading TypeId := do
  let builder ← get
  match builder.program.findType? name with
  | some type => return type
  | none => throw (.unknownType name)

end Loading

open Loading

/-! ## Bodies -/

mutual

def StmtDoc.lower : StmtDoc → Loading NodeId
  | .expr expr => do
    let expr ← expr.lower
    make (·.addNode (.exprStatement (some expr)))
  | .ret none => make (·.addNode (.ret none))
  | .ret (some expr) => do
    let expr ← expr.lower
    make (·.addNode (.ret (some expr)))
  | .localVar name init => do
    let init ← init.lower
    make (·.addNode (.localVar name (some init)))
  | .localFunction name isAsync returns body => do
    let returnType ← TypeExpr.parse returns
    let statements ← StmtDoc.lowerList body
    make (·.addLocalFunction name isAsync returnType statements)

def StmtDoc.lowerList : List StmtDoc → Loading (List Slot)
  | [] => return []
  | stmt :: stmts => do
    let stmt ← stmt.lower
    let stmts ← StmtDoc.lowerList stmts
    return some stmt :: stmts

def ExprDoc.lower : ExprDoc → Loading NodeId
  | .call target name receiver args => do
    let receiver ← ExprDoc.lowerOption receiver
    let args ← ExprDoc.lowerList args
    match target, name with
    | some target, none =>
      let target ← resolve target
      make (·.addCall receiver target args)
    | some target, some name =>
      let target ← resolve target
      make (·.addNode (.call receiver name (some target) args))
    | none, some name => make (·.addNode (.call receiver name none args))
    | none, none => throw (.unknownMethod "<call without target or name>")
  | .await operand => do
    let operand ← operand.lower
    make (·.addNode (.await (some operand)))
  | .lambda isAsync params body => do
    let statements ← StmtDoc.lowerList body
    make (·.addLambda isAsync params statements)
  | .methodGroup target => do
    let target ← resolve target
    make (·.addMethodGroup target)
  | .name text => make (·.addNode (.name text))
  | .literal text => make (·.addNode (.literal text))

def ExprDoc.lowerList : List ExprDoc → Loading (List Slot)
  | [] => return []
  | expr :: exprs => do
    let expr ← expr.lower
    let exprs ← ExprDoc.lowerList exprs
    return some expr :: exprs

def ExprDoc.lowerOption : Option ExprDoc → Loading Slot
  | none => return none
  | some expr => do
    let expr ← expr.lower
    return some expr

end

/-! ## Declarations -/

def ModuleDoc.declare (doc : ModuleDoc) : Loading Unit := do
  update (·.startModule doc.name)
  doc.types.forM fun type => update (·.addType type.kind type.name)

/-- Gives a type its base class and its interfaces. -/
def TypeDoc.inherit (doc : TypeDoc) (id : TypeId) : Loading Unit := do
  doc.extends?.forM fun base => do
    let base ← findType base
    update fun builder => { builder with program := builder.program.setBaseClass id base }
  doc.implements.forM fun interface => do
    let interface ← findType interface
    update fun builder => { builder with program := builder.program.listInterface id interface }

def ParamDoc.param (doc : ParamDoc) : Except ProgramError Param := do
  let type ← TypeExpr.parse doc.type
  return { name := doc.name, type }

/-- The signature; of several faults the modifiers' comes first, then the return type's. -/
def MethodDoc.spec (doc : MethodDoc) : Except ProgramError MethodSpec := do
  let modifiers ← Modifiers.ofKeywords doc.modifiers
  let returnType ← TypeExpr.parse doc.returns
  let params ← doc.params.mapM ParamDoc.param
  return {
    name := doc.name, params, returnType, modifiers, key := doc.key, isExternal := doc.isExternal }

/-- Adds methods to their owners, `keys` being those of the methods before. -/
def MethodDoc.declareAll (keys : List String) : List (TypeId × MethodDoc) → Loading Unit
  | [] => return
  | (owner, doc) :: docs => do
    doc.key.forM fun key =>
      if keys.contains key then throw (.duplicateKey key) else pure ()
    let spec ← doc.spec
    update (·.addMethod owner spec)
    MethodDoc.declareAll (doc.key.toList ++ keys) docs

/-- Gives a method its body and its parts. -/
def MethodDoc.define (doc : MethodDoc) (id : MethodId) : Loading Unit := do
  doc.body.forM fun body => do
    let statements ← StmtDoc.lowerList body
    update fun builder => (builder.setBody id statements).2
  doc.parts.forM fun part => do
    let statements ← StmtDoc.lowerList part
    update fun builder => (builder.addPart id statements).2

def FieldDoc.define (doc : FieldDoc) (owner : TypeId) : Loading Unit := do
  let init ← doc.init.lower
  update fun builder => (builder.addField owner doc.name (some init)).2

namespace ProjectDoc

/-- The types in document order, which is the order of their ids. -/
def types (doc : ProjectDoc) : List (TypeDoc × TypeId) :=
  (doc.modules.flatMap (·.types)).zipIdx

/-- The methods in document order, which is the order of their ids, with their owners. -/
def methods (doc : ProjectDoc) : List (TypeId × MethodDoc) :=
  doc.types.flatMap fun type => type.1.methods.map (type.2, ·)

def build (doc : ProjectDoc) : Loading Unit := do
  doc.modules.forM ModuleDoc.declare
  doc.types.forM fun (type, id) => type.inherit id
  MethodDoc.declareAll [] doc.methods
  doc.methods.zipIdx.forM fun ((_, method), id) => method.define id
  doc.types.forM fun (type, id) => type.fields.forM fun field => field.define id

/-- The program that a project describes, if it describes a valid one. -/
def load (doc : ProjectDoc) : Except ProgramError Program := do
  let (_, builder) ← doc.build.run {}
  builder.finish

end ProjectDoc

end AsyncLift

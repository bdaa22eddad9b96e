import AsyncLift.Program.Basic

/-!
# Programs as source text

`Program.print` writes every module with its types, `Program.printMethod` one method with all its
declarations, and `Program.printExpr` one expression on a line.

A statement stands on lines of its own inside a body and on one line inside a lambda. Nothing deeper
than `maxBodyDepth` is written: an expression there is replaced by three points and a statement by
three points in a comment. The writers get this as a `Cutoff`, and the number of levels that are
left; no level left means too deep.
-/

namespace AsyncLift

/-- How many levels are written, and what stands for anything deeper. -/
structure Cutoff where
  levels : Nat := maxBodyDepth
  expr : String := "..."
  stmt : String := "/* ... */"
deriving DecidableEq, Repr, Inhabited

namespace NodeStore

/-! ## Expressions -/

/-- A node after its receiver, if it has one, in parentheses where a point would bind tighter. -/
def memberText (store : NodeStore) (exprText : Slot → String) (receiver : Slot) (name : String) :
    String :=
  match receiver with
  | none => name
  | some id =>
    match store.get? id with
    | some (.await _) | some (.lambda ..) => "(" ++ exprText receiver ++ ")." ++ name
    | _ => exprText receiver ++ "." ++ name

/-- A statement on one line. -/
def inlineText (store : NodeStore) (exprText : Slot → String) (slot : Slot) : String :=
  match slot.bind store.get? with
  | none => ""
  | some (.exprStatement expr) => exprText expr ++ ";"
  | some (.ret none) => "return;"
  | some (.ret expr) => "return " ++ exprText expr ++ ";"
  | some (.localVar name init) => "var " ++ name ++ " = " ++ exprText init ++ ";"
  | some _ => exprText slot ++ ";"

def asyncMark (isAsync : Bool) : String := if isAsync then "async " else ""

/-- The statements of a block; none if the node is no block. -/
def statementsOf (store : NodeStore) (slot : Slot) : List Slot :=
  match slot.bind store.get? with
  | some (.block statements) => statements
  | _ => []

def exprText (store : NodeStore) (cutoff : Cutoff) : (levels : Nat) → Slot → String
  | 0, _ => cutoff.expr
  | levels + 1, slot =>
    match slot.bind store.get? with
    | none => ""
    | some (.call receiver name _ args) =>
      store.memberText (store.exprText cutoff levels) receiver name ++
        "(" ++ ", ".intercalate (args.map (store.exprText cutoff levels)) ++ ")"
    | some (.await operand) => "await " ++ store.exprText cutoff levels operand
    | some (.methodGroup receiver name _) =>
      store.memberText (store.exprText cutoff levels) receiver name
    | some (.lambda isAsync params body) =>
      let inner :=
        match levels with
        | 0 => store.exprText cutoff 0
        | levels + 1 => store.exprText cutoff levels
      asyncMark isAsync ++ "(" ++ ", ".intercalate params ++ ") => \x7b " ++
        " ".intercalate ((store.statementsOf body).map (store.inlineText inner)) ++ " \x7d"
    | some (.name text) => text
    | some (.literal text) => text
    | some _ => store.inlineText (store.exprText cutoff levels) slot

/-! ## Statements -/

/-- A line of a text, four blanks further in for each level of depth. -/
def line (depth : Nat) (text : String) : String :=
  String.ofList (List.replicate (4 * depth) ' ') ++ text

def blockLines (store : NodeStore) (stmtLines : Slot → List String) (depth : Nat) (slot : Slot) :
    List String :=
  line depth "\x7b" :: (store.statementsOf slot).flatMap stmtLines ++ [line depth "\x7d"]

def stmtLines (store : NodeStore) (cutoff : Cutoff) : (levels depth : Nat) → Slot → List String
  | 0, depth, _ => [line depth cutoff.stmt]
  | levels + 1, depth, slot =>
    let inner :=
      match levels with
      | 0 => store.stmtLines cutoff 0 (depth + 1)
      | levels + 1 => store.stmtLines cutoff levels (depth + 1)
    let exprText := store.exprText cutoff (levels + 1)
    match slot.bind store.get? with
    | none => []
    | some (.localFunction name isAsync returnType body) =>
      line depth (asyncMark isAsync ++ returnType.render ++ " " ++ name ++ "()") ::
        store.blockLines inner depth body
    | some (.block _) => store.blockLines inner depth slot
    | some _ => [line depth (store.inlineText exprText slot)]

end NodeStore

/-! ## Methods, types and modules -/

/-- The signature of a method: modifiers, return type, name and parameters. -/
def Method.signature (method : Method) : String :=
  String.join (method.modifiers.keywords.map (· ++ " ")) ++ method.returnType.render ++ " " ++
    method.name ++ "(" ++
    ", ".intercalate (method.params.map fun param => param.type.render ++ " " ++ param.name) ++ ")"

namespace Program

open NodeStore (line)

def declarationLines (program : Program) (cutoff : Cutoff) (depth : Nat) (signature : String)
    (id : DeclId) : List String :=
  match program.declarations[id]?.bind (·.body) with
  | none => [line depth (signature ++ ";")]
  | some body =>
    line depth signature ::
      program.nodes.blockLines (program.nodes.stmtLines cutoff cutoff.levels (depth + 1)) depth body

/-- A method with every declaration of it; one that is not declared is marked. -/
def methodLines (program : Program) (cutoff : Cutoff) (depth : Nat) (method : Method) :
    List String :=
  match method.declarations with
  | [] => [line depth ("extern " ++ method.signature ++ ";")]
  | declarations => declarations.flatMap (program.declarationLines cutoff depth method.signature)

def initializerLines (program : Program) (cutoff : Cutoff) (root : NodeId) : List String :=
  match program.nodes.get? root with
  | some (.initializer field expr) =>
    let text := program.nodes.exprText cutoff (cutoff.levels + 1) expr
    [line 1 ("var " ++ field ++ " = " ++ text ++ ";")]
  | _ => []

def typeHeader (program : Program) (type : TypeDecl) : String :=
  let keyword :=
    match type.kind with
    | .ofClass => "class "
    | .ofInterface => "interface "
  match type.supertypes.filterMap fun id => program.types[id]?.map (·.name) with
  | [] => keyword ++ type.name
  | names => keyword ++ type.name ++ " : " ++ ", ".intercalate names

def typeLines (program : Program) (cutoff : Cutoff) (type : TypeDecl) : List String :=
  line 0 (program.typeHeader type) :: line 0 "\x7b" ::
    type.initializers.flatMap (program.initializerLines cutoff) ++
    (type.members.filterMap fun id => program.methods[id]?).flatMap
      (program.methodLines cutoff 1) ++
    [line 0 "\x7d"]

def moduleLines (program : Program) (cutoff : Cutoff) (id : ModuleId) (name : String) :
    List String :=
  line 0 ("// module " ++ name) ::
    (program.types.toList.filter (·.declaredIn == id)).flatMap (program.typeLines cutoff)

/-- Lines as a text, each ended. -/
def joinLines (lines : List String) : String := String.join (lines.map (· ++ "\n"))

def printWith (program : Program) (cutoff : Cutoff) : String :=
  joinLines (program.modules.toList.zipIdx.flatMap fun named =>
    program.moduleLines cutoff named.2 named.1)

def print (program : Program) : String := program.printWith {}

def printMethodWith (program : Program) (cutoff : Cutoff) (id : MethodId) : String :=
  match program.methods[id]? with
  | some method => joinLines (program.methodLines cutoff 0 method)
  | none => ""

def printMethod (program : Program) (id : MethodId) : String := program.printMethodWith {} id

def printExpr (program : Program) (id : NodeId) : String :=
  program.nodes.exprText {} (maxBodyDepth + 1) (some id)

end Program

end AsyncLift

import AsyncLift.Document.Decode
import AsyncLift.Program.Basic

/-!
# Project documents

A project document lists modules, their types with methods and fields, and bodies as trees of
statements and expressions. Methods are referred to by key or by qualified name.

`ProjectDoc.parse?` reads a document's text. Statements and expressions are read by recursion on the
number of brackets that may still be opened.
-/

namespace AsyncLift

open Document

/-! ## Bodies -/

mutual

inductive StmtDoc where
  | expr (expr : ExprDoc)
  | ret (expr : Option ExprDoc)
  | localVar (name : String) (init : ExprDoc)
  | localFunction (name : String) (isAsync : Bool) (returns : String) (body : List StmtDoc)

inductive ExprDoc where
  /-- A call of a method of the program, of something outside it under a name, or of a method under
  another name than its own. -/
  | call (target name : Option String) (receiver : Option ExprDoc) (args : List ExprDoc)
  | await (operand : ExprDoc)
  | lambda (isAsync : Bool) (params : List String) (body : List StmtDoc)
  | methodGroup (target : String)
  | name (text : String)
  | literal (text : String)

end

mutual

/-- A statement is an object whose only key tells its kind. -/
def StmtDoc.ofTree? : Nat → Tree → Option StmtDoc
  | depth + 1, .object [(some kind, tree)] =>
    match kind, depth with
    | "expr", depth => .expr <$> ExprDoc.ofTree? depth tree
    | "return", depth => .ret <$> tree.orNull? (ExprDoc.ofTree? depth)
    | "local", depth + 1 => do
      let fields ← tree.fields? ["name", "init"] false
      let name ← required? fields "name" Tree.text?
      let init ← required? fields "init" (ExprDoc.ofTree? depth)
      return .localVar name init
    | "local_function", depth + 2 => do
      let fields ← tree.fields? ["name", "async", "returns", "body"] false
      let name ← required? fields "name" Tree.text?
      let isAsync ← optional? fields "async" false Tree.flag?
      let returns ← optional? fields "returns" "void" Tree.text?
      let body ← required? fields "body" fun
        | .array items => items.mapM (StmtDoc.ofTree? depth)
        | _ => none
      return .localFunction name isAsync returns body
    | _, _ => none
  | _, _ => none

/-- An expression is an object whose only key tells its kind. -/
def ExprDoc.ofTree? : Nat → Tree → Option ExprDoc
  | depth + 1, .object [(some kind, tree)] =>
    match kind, depth with
    | "call", depth + 1 => do
      let fields ← tree.fields? ["target", "name", "receiver", "args"] true
      let target ← optional? fields "target" none (Tree.orNull? Tree.text?)
      let name ← optional? fields "name" none (Tree.orNull? Tree.text?)
      let receiver ← optional? fields "receiver" none (Tree.orNull? (ExprDoc.ofTree? depth))
      let args ← optional? fields "args" [] fun
        | .array items =>
          match depth with
          | depth + 1 => items.mapM (ExprDoc.ofTree? depth)
          | 0 => none
        | _ => none
      return .call target name receiver args
    | "await", depth => .await <$> ExprDoc.ofTree? depth tree
    | "lambda", depth + 2 => do
      let fields ← tree.fields? ["async", "params", "body"] false
      let isAsync ← optional? fields "async" false Tree.flag?
      let params ← optional? fields "params" [] fun
        | .array items => items.mapM Tree.text?
        | _ => none
      let body ← required? fields "body" fun
        | .array items => items.mapM (StmtDoc.ofTree? depth)
        | _ => none
      return .lambda isAsync params body
    | "method_group", _ + 1 => do
      let fields ← tree.fields? ["target"] false
      let target ← required? fields "target" Tree.text?
      return .methodGroup target
    | "name", _ => .name <$> tree.text?
    | "literal", _ => .literal <$> tree.text?
    | _, _ => none
  | _, _ => none

end

/-- A list of statements. -/
def StmtDoc.listOfTree? : Nat → Tree → Option (List StmtDoc) := Tree.list? StmtDoc.ofTree?

/-! ## Declarations -/

structure ParamDoc where
  name : String
  type : String

structure MethodDoc where
  name : String
  returns : String := "void"
  params : List ParamDoc := []
  modifiers : List String := []
  key : Option String := none
  /-- The method is declared outside the program. -/
  isExternal : Bool := false
  body : Option (List StmtDoc) := none
  /-- The bodies of further declarations. -/
  parts : List (List StmtDoc) := []

structure FieldDoc where
  name : String
  init : ExprDoc

structure TypeDoc where
  name : String
  kind : TypeKind
  extends? : Option String := none
  implements : List String := []
  methods : List MethodDoc := []
  fields : List FieldDoc := []

structure ModuleDoc where
  name : String
  types : List TypeDoc := []

structure ProjectDoc where
  modules : List ModuleDoc

def textList? : Nat → Tree → Option (List String) := Tree.list? fun _ => Tree.text?

def ParamDoc.ofTree? : Nat → Tree → Option ParamDoc
  | _ + 1, tree => do
    let fields ← tree.fields? ["name", "type"] true
    let name ← required? fields "name" Tree.text?
    let type ← required? fields "type" Tree.text?
    return { name, type }
  | 0, _ => none

def MethodDoc.ofTree? : Nat → Tree → Option MethodDoc
  | depth + 1, tree => do
    let fields ← tree.fields?
      ["name", "returns", "params", "modifiers", "key", "external", "body", "partial"] true
    let name ← required? fields "name" Tree.text?
    let returns ← optional? fields "returns" "void" Tree.text?
    let params ← optional? fields "params" [] (Tree.list? ParamDoc.ofTree? depth)
    let modifiers ← optional? fields "modifiers" [] (textList? depth)
    let key ← optional? fields "key" none (Tree.orNull? Tree.text?)
    let isExternal ← optional? fields "external" false Tree.flag?
    let body ← optional? fields "body" none (Tree.orNull? (StmtDoc.listOfTree? depth))
    let parts ← optional? fields "partial" [] (Tree.list? StmtDoc.listOfTree? depth)
    return { name, returns, params, modifiers, key, isExternal, body, parts }
  | 0, _ => none

def FieldDoc.ofTree? : Nat → Tree → Option FieldDoc
  | depth + 1, tree => do
    let fields ← tree.fields? ["name", "init"] true
    let name ← required? fields "name" Tree.text?
    let init ← required? fields "init" (ExprDoc.ofTree? depth)
    return { name, init }
  | 0, _ => none

def TypeDoc.ofTree? : Nat → Tree → Option TypeDoc
  | depth + 1, tree => do
    let fields ← tree.fields? ["name", "kind", "extends", "implements", "methods", "fields"] true
    let name ← required? fields "name" Tree.text?
    let kind ← required? fields "kind"
      (Tree.choice? [("class", TypeKind.ofClass), ("interface", .ofInterface)] depth)
    let extends? ← optional? fields "extends" none (Tree.orNull? Tree.text?)
    let implements ← optional? fields "implements" [] (textList? depth)
    let methods ← optional? fields "methods" [] (Tree.list? MethodDoc.ofTree? depth)
    let fields ← optional? fields "fields" [] (Tree.list? FieldDoc.ofTree? depth)
    return { name, kind, extends?, implements, methods, fields }
  | 0, _ => none

def ModuleDoc.ofTree? : Nat → Tree → Option ModuleDoc
  | depth + 1, tree => do
    let fields ← tree.fields? ["name", "types"] true
    let name ← required? fields "name" Tree.text?
    let types ← optional? fields "types" [] (Tree.list? TypeDoc.ofTree? depth)
    return { name, types }
  | 0, _ => none

namespace ProjectDoc

def ofTree? : Nat → Tree → Option ProjectDoc
  | depth + 1, tree => do
    let fields ← tree.fields? ["modules"] true
    let modules ← required? fields "modules" (Tree.list? ModuleDoc.ofTree? depth)
    return { modules }
  | 0, _ => none

/-- The project that a document's text describes. -/
def parse? (text : String) : Option ProjectDoc := Tree.parse? text >>= ofTree? nestingLimit

end ProjectDoc

end AsyncLift

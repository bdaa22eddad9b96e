import AsyncLift.Document.Decode

/-!
# Options of a conversion

How converted methods are named and what they return, where their call sites are looked for, how
asynchronous counterparts are matched, and whether a pass that stops halfway is undone. Options have
defaults and may be read from a document that gives some of them.
-/

namespace AsyncLift

/-- Where call sites of a converted method are looked for. -/
inductive SearchScope where
  /-- Every module. -/
  | solution
  /-- Only the module that declares the method at the root of the conversion. -/
  | declaringModule
deriving DecidableEq, Repr, Inhabited

/-- How a call in a converted body is matched with an asynchronous counterpart of its callee. -/
inductive CounterpartPolicy where
  /-- The counterpart has the callee's parameters and returns its completion, and is the only such
  member of the nearest type with members of the wanted name. -/
  | strict
  /-- The first member of the wanted name, whatever its signature. -/
  | nameOnly
  /-- Calls in converted bodies stay as they are. -/
  | off
deriving DecidableEq, Repr, Inhabited

structure Options where
  /-- What is appended to the name of a converted method. -/
  suffix : String := "Async"
  /-- The name of the completion type. -/
  taskType : String := "Task"
  scope : SearchScope := .solution
  counterpart : CounterpartPolicy := .strict
  /-- Whether the action restores the program when a pass stops halfway. -/
  rollbackOnAbort : Bool := true
deriving DecidableEq, Repr, Inhabited

namespace SearchScope

def names : List (String × SearchScope) :=
  [("solution", solution), ("declaring-module", declaringModule)]

def name : SearchScope → String
  | solution => "solution"
  | declaringModule => "declaring-module"

end SearchScope

namespace CounterpartPolicy

def names : List (String × CounterpartPolicy) :=
  [("strict", strict), ("name-only", nameOnly), ("off", off)]

def name : CounterpartPolicy → String
  | strict => "strict"
  | nameOnly => "name-only"
  | off => "off"

end CounterpartPolicy

namespace Options

open Document

/-- The name of a method once it is asynchronous. -/
def asyncName (options : Options) (name : String) : String := name ++ options.suffix

/-- Options that a document describes; what it leaves out takes its default. -/
def ofTree? : Nat → Tree → Option Options
  | depth + 1, tree => do
    let fields ← tree.fields?
      ["async_suffix", "task_type", "search_scope", "counterpart", "rollback_on_abort"] true
    let suffix ← optional? fields "async_suffix" "Async" Tree.text?
    let taskType ← optional? fields "task_type" "Task" Tree.text?
    let scope ← optional? fields "search_scope" .solution (Tree.choice? SearchScope.names depth)
    let counterpart ←
      optional? fields "counterpart" .strict (Tree.choice? CounterpartPolicy.names depth)
    let rollbackOnAbort ← optional? fields "rollback_on_abort" true Tree.flag?
    return { suffix, taskType, scope, counterpart, rollbackOnAbort }
  | 0, _ => none

/-- Options that a document's text describes. -/
def parse? (text : String) : Option Options := Tree.parse? text >>= ofTree? nestingLimit

end Options

end AsyncLift

/-!
# Type expressions

A type as it is written in a signature: `void`, or a name with type arguments. Names are not
resolved, so two types are the same when they are written the same.
-/

namespace AsyncLift

inductive TypeExpr where
  | void
  | named (name : String) (args : List TypeExpr)
deriving Repr, Inhabited

namespace TypeExpr

/-! ## Equality -/

mutual

def decEq : (s t : TypeExpr) → Decidable (s = t)
  | void, void => isTrue rfl
  | void, named _ _ => isFalse nofun
  | named _ _, void => isFalse nofun
  | named m ss, named n ts =>
    if hn : m = n then
      match decEqList ss ts with
      | isTrue ha => isTrue (by rw [hn, ha])
      | isFalse ha => isFalse fun h => ha (named.inj h).2
    else isFalse fun h => hn (named.inj h).1

def decEqList : (ss ts : List TypeExpr) → Decidable (ss = ts)
  | [], [] => isTrue rfl
  | [], _ :: _ => isFalse nofun
  | _ :: _, [] => isFalse nofun
  | s :: ss, t :: ts =>
    match decEq s t with
    | isFalse h => isFalse fun h' => h (List.cons.inj h').1
    | isTrue h =>
      match decEqList ss ts with
      | isFalse h' => isFalse fun h'' => h' (List.cons.inj h'').2
      | isTrue h' => isTrue (by rw [h, h'])

end

instance : DecidableEq TypeExpr := decEq

/-! ## The written form -/

mutual

/-- The type as source text, arguments separated by a comma and a space. -/
def render : TypeExpr → String
  | void => "void"
  | named name [] => name
  | named name (arg :: args) => name ++ "<" ++ arg.render ++ renderMore args

/-- What follows the first type argument. -/
def renderMore : List TypeExpr → String
  | [] => ">"
  | arg :: args => ", " ++ arg.render ++ renderMore args

end

/-! ## Shapes -/

/-- The name alone, without type arguments. -/
def isPlain (name : String) : TypeExpr → Bool
  | named n [] => n == name
  | _ => false

/-- The name applied to exactly one type argument. -/
def isGenericOf (name : String) : TypeExpr → Bool
  | named n [_] => n == name
  | _ => false

/-- The type argument, where there is exactly one. -/
def soleArgument? : TypeExpr → Option TypeExpr
  | named _ [arg] => some arg
  | _ => none

/-- Whether the type tells that a computation completes: `task`, or `task` of a result. -/
def isCompletion (task : String) (t : TypeExpr) : Bool := t.isPlain task || t.isGenericOf task

/-- What a method of return type `t` returns once it is asynchronous: a completion type stays,
`void` becomes `task`, any other result is wrapped. -/
def completion (task : String) (t : TypeExpr) : TypeExpr :=
  if t.isCompletion task then t
  else
    match t with
    | void => named task []
    | t => named task [t]

end TypeExpr

end AsyncLift

/-!
# Errors

What can be wrong with a program or with a request to convert one of its methods, and the wording of
each complaint.
-/

namespace AsyncLift

/-- The tables that an id can point into, as far as complaints name them. -/
inductive IdKind where
  | ofModule
  | ofType
  | ofMethod
deriving DecidableEq, Repr

def IdKind.noun : IdKind → String
  | ofModule => "module"
  | ofType => "type"
  | ofMethod => "symbol"

/-- The two rules on who may inherit from whom. -/
inductive HeritageRule where
  /-- A base class is given to a class and is a class. -/
  | classExtendsClass
  /-- What is listed as an interface is one. -/
  | interfacesOnly
deriving DecidableEq, Repr

def HeritageRule.text : HeritageRule → String
  | classExtendsClass => "only a class can extend a class"
  | interfacesOnly => "only interfaces can be implemented"

/-- Complaints about a program, or about the text that describes it. -/
inductive ProgramError where
  /-- The type lies on a cycle of supertypes. -/
  | cyclicInheritance (type : String)
  | invalidHeritage (child parent : String) (rule : HeritageRule)
  | unknownType (name : String)
  | unknownMethod (path : String)
  /-- Several methods answer to the path. -/
  | ambiguousMethod (path : String)
  | duplicateKey (key : String)
  /-- The whole text that is no type expression. -/
  | invalidType (text : String)
  | unknownModifier (keyword : String)
  /-- An id that its table does not reach. -/
  | danglingId (kind : IdKind) (index : Nat)
deriving DecidableEq, Repr

def ProgramError.message : ProgramError → String
  | cyclicInheritance type => s!"cyclic inheritance involving type `{type}`"
  | invalidHeritage child parent rule =>
    s!"type `{child}` cannot inherit from `{parent}`: " ++ rule.text
  | unknownType name => s!"unknown type `{name}`"
  | unknownMethod path => s!"unknown method `{path}`"
  | ambiguousMethod path =>
    s!"method reference `{path}` is ambiguous; give the overloads explicit keys"
  | duplicateKey key => s!"duplicate method key `{key}`"
  | invalidType text => s!"invalid type reference `{text}`"
  | unknownModifier keyword => s!"unknown modifier `{keyword}`"
  | danglingId kind index => "dangling " ++ kind.noun ++ s!" id {index}"

/-- Complaints about a request to convert a method. -/
inductive ConversionError where
  /-- The method to convert is unknown or has no declaration; nothing was changed. -/
  | unresolvedRoot (name : String)
  /-- The method returns the completion type already. -/
  | notAvailable (name : String)
  /-- A planned method has no declaration; the pass stopped there, with `converted` done. -/
  | unresolvedMember (method : Nat) (name : String) (converted : List Nat)
deriving DecidableEq, Repr

def ConversionError.message : ConversionError → String
  | unresolvedRoot name => s!"`{name}` does not resolve to a method declaration"
  | notAvailable name => s!"`{name}` already returns an async-completion type"
  | unresolvedMember _ name converted =>
    let count := converted.length
    s!"cannot resolve a declaration for `{name}`; aborted after converting {count} method(s)"

end AsyncLift

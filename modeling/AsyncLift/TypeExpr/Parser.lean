import AsyncLift.Error
import AsyncLift.Text.Alphanumeric
import AsyncLift.Text.Blank
import AsyncLift.TypeExpr.Basic

/-!
# Reading type expressions

A type is a name, or a name with arguments in angle brackets, and blanks may stand around every
part. A name is a maximal run of name characters; the name `void` is complete by itself and takes no
arguments.

`read` takes one type from the head of a text and returns what follows. Its first argument bounds
the nesting of calls; every second call takes a character off the text, so a bound above the length
of the text is never met.
-/

namespace AsyncLift.TypeExpr

open Text

/-- The characters of a name. -/
def isNameChar (c : Char) : Bool :=
  isAlphanumeric c || c == '_' || c == '.' || c == '[' || c == ']' || c == '?'

/-- What is left when the leading blanks are skipped. -/
def skipBlanks (s : List Char) : List Char := s.dropWhile isBlank

/-- The characters of the name `void`. -/
def voidName : List Char := ['v', 'o', 'i', 'd']

mutual

/-- One type at the head of a text, and what follows it. -/
def read : (calls : Nat) → List Char → Option (TypeExpr × List Char)
  | 0, _ => none
  | calls + 1, s =>
    let body := skipBlanks s
    let name := body.takeWhile isNameChar
    let rest := body.dropWhile isNameChar
    if name = [] then none
    else if name = voidName then some (void, rest)
    else
      match skipBlanks rest with
      | '<' :: rest =>
        match readArgs calls rest with
        | some (args, rest) => some (named (String.ofList name) args, rest)
        | none => none
      | rest => some (named (String.ofList name) [], rest)

/-- A non-empty list of types separated by commas, up to and with the closing bracket. -/
def readArgs : (calls : Nat) → List Char → Option (List TypeExpr × List Char)
  | 0, _ => none
  | calls + 1, s =>
    match read calls s with
    | none => none
    | some (arg, rest) =>
      match skipBlanks rest with
      | ',' :: rest =>
        match readArgs calls rest with
        | some (args, rest) => some (arg :: args, rest)
        | none => none
      | '>' :: rest => some ([arg], rest)
      | _ => none

end

/-- The type that a text denotes as a whole. -/
def parse (text : String) : Except ProgramError TypeExpr :=
  match read (text.toList.length + 1) text.toList with
  | some (t, rest) => if skipBlanks rest = [] then .ok t else .error (.invalidType text)
  | none => .error (.invalidType text)

end AsyncLift.TypeExpr

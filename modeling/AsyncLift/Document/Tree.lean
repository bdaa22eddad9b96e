import AsyncLift.Document.Token

/-!
# Document trees

The value that a document's tokens describe. Fields of an object keep their order and may repeat;
what that means is up to the reader of the object.

The tree is put together by a machine that takes one token at a time and keeps the containers that
are open in a list, so a document may nest as deeply as it likes.
-/

namespace AsyncLift.Document

inductive Tree where
  | null
  | bool (value : Bool)
  | number (text : String)
  /-- A string; `none` when its literal has no text (see `Token.string`). -/
  | string (text : Option String)
  | array (items : List Tree)
  | object (fields : List (Option String × Tree))
deriving Repr, Inhabited

namespace Tree

/-- A container that is open around the value being read, what it holds so far listed last first. -/
inductive Frame where
  | array (items : List Tree)
  | object (fields : List (Option String × Tree)) (key : Option String)

/-- What has been read, by what may come next. -/
inductive State where
  /-- A value has to follow. -/
  | needValue (around : List Frame)
  /-- An array was opened: its first item or its end follows. -/
  | arrayStart (around : List Frame)
  /-- An item is complete: a comma or the end of the array follows. -/
  | arrayRest (items : List Tree) (around : List Frame)
  /-- An object was opened: its first key or its end follows. -/
  | objectStart (around : List Frame)
  /-- A comma was read in an object: a key follows. -/
  | needKey (fields : List (Option String × Tree)) (around : List Frame)
  /-- A key was read: a colon follows. -/
  | needColon (fields : List (Option String × Tree)) (key : Option String) (around : List Frame)
  /-- A field is complete: a comma or the end of the object follows. -/
  | objectRest (fields : List (Option String × Tree)) (around : List Frame)
  /-- The document is complete. -/
  | done (tree : Tree)

/-- The state after a value is complete. -/
def State.complete (tree : Tree) : List Frame → State
  | [] => done tree
  | .array items :: around => arrayRest (tree :: items) around
  | .object fields key :: around => objectRest ((key, tree) :: fields) around

/-- The state after the first token of a value. -/
def State.start (around : List Frame) : Token → Option State
  | .openBrace => some (objectStart around)
  | .openBracket => some (arrayStart around)
  | .null => some (complete .null around)
  | .bool value => some (complete (.bool value) around)
  | .number text => some (complete (.number text) around)
  | .string text => some (complete (.string text) around)
  | _ => none

def State.step : State → Token → Option State
  | needValue around, token => start around token
  | arrayStart around, .closeBracket => some (complete (.array []) around)
  | arrayStart around, token => start (.array [] :: around) token
  | arrayRest items around, .comma => some (needValue (.array items :: around))
  | arrayRest items around, .closeBracket => some (complete (.array items.reverse) around)
  | objectStart around, .closeBrace => some (complete (.object []) around)
  | objectStart around, .string text => some (needColon [] text around)
  | needKey fields around, .string text => some (needColon fields text around)
  | needColon fields text around, .colon => some (needValue (.object fields text :: around))
  | objectRest fields around, .comma => some (needKey fields around)
  | objectRest fields around, .closeBrace => some (complete (.object fields.reverse) around)
  | _, _ => none

/-- The tree that a list of tokens spells out as a whole. -/
def ofTokens? (tokens : List Token) : Option Tree :=
  match tokens.foldlM State.step (.needValue []) with
  | some (.done tree) => some tree
  | _ => none

/-- The tree of a document's text. -/
def parse? (text : String) : Option Tree := Token.tokens? [] text.toList >>= ofTokens?

end Tree

end AsyncLift.Document

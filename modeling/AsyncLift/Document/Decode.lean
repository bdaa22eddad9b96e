import AsyncLift.Document.Tree

/-!
# Decoding documents

Building blocks for reading a tree as a value of a known shape.

A decoder gets the number of brackets that may still be opened: a document whose meaningful part
nests deeper than `nestingLimit` is refused. What a decoder does not look at may nest as it likes.

A record is written as an object, in any order, or as the array of its fields in their order, where
fields at the end may be left out if they have a default.
-/

namespace AsyncLift.Document

/-- How many brackets may be open at once. -/
def nestingLimit : Nat := 127

namespace Tree

def text? : Tree → Option String
  | string text => text
  | _ => none

def flag? : Tree → Option Bool
  | bool value => some value
  | _ => none

/-- A value that may be `null`. -/
def orNull? {α : Type} (decode : Tree → Option α) : Tree → Option (Option α)
  | null => some none
  | tree => some <$> decode tree

/-- An array, each item read with one bracket less. -/
def list? {α : Type} (decode : Nat → Tree → Option α) : Nat → Tree → Option (List α)
  | depth + 1, array items => items.mapM (decode depth)
  | _, _ => none

/-- One of a few named values: its name, or an object that maps the name to `null`. -/
def choice? {α : Type} (options : List (String × α)) : Nat → Tree → Option α
  | _, string (some name) => options.lookup name
  | _ + 1, object [(some name, null)] => options.lookup name
  | _, _ => none

/-- The fields of a record with the given field names. A name that is given twice is refused; a name
that the record does not have is refused if the record is `closed` and passed over otherwise. -/
def fields? (names : List String) (closed : Bool) : Tree → Option (List (String × Tree))
  | array items => if items.length ≤ names.length then some (names.zip items) else none
  | object entries => do
    let entries ← entries.mapM fun entry => entry.1.map (·, entry.2)
    let known := entries.filter fun entry => names.contains entry.1
    if closed && known.length != entries.length then none
    else if (known.map (·.1)).Nodup then some known
    else none
  | _ => none

end Tree

/-- A field that has to be there. -/
def required? {α : Type} (fields : List (String × Tree)) (name : String)
    (decode : Tree → Option α) : Option α :=
  fields.lookup name >>= decode

/-- A field that has a value when it is not there. -/
def optional? {α : Type} (fields : List (String × Tree)) (name : String) (default : α)
    (decode : Tree → Option α) : Option α :=
  match fields.lookup name with
  | some tree => decode tree
  | none => some default

end AsyncLift.Document

/-!
# JSON output

Values as reports write them, and their two layouts: `compact` on one line without blanks, and
`pretty` with one item or field a line, two blanks deeper than the container.
-/

namespace AsyncLift

inductive Json where
  | null
  | bool (value : Bool)
  | number (value : Nat)
  | string (text : String)
  | array (items : List Json)
  | object (fields : List (String × Json))
deriving Inhabited

namespace Json

/-! ## String literals -/

/-- The lower-case hexadecimal digit of a number below sixteen. -/
def hexDigit (n : Nat) : Char := if n < 10 then Char.ofNat (0x30 + n) else Char.ofNat (0x57 + n)

/-- Quotes, backslashes and control characters are escaped, everything else stands for itself. -/
def escape (c : Char) : String :=
  match c with
  | '"' => "\\\""
  | '\\' => "\\\\"
  | '\x08' => "\\b"
  | '\x0c' => "\\f"
  | '\n' => "\\n"
  | '\r' => "\\r"
  | '\t' => "\\t"
  | c =>
    if c.toNat < 0x20 then
      "\\u00" ++ String.ofList [hexDigit (c.toNat / 16), hexDigit (c.toNat % 16)]
    else String.singleton c

def quoteOnto (out text : String) : String :=
  (text.toList.foldl (fun out c => out ++ escape c) (out ++ "\"")) ++ "\""

/-! ## Layouts

The writers extend the text in `out`. -/

mutual

def compactOnto (out : String) : Json → String
  | null => out ++ "null"
  | bool value => out ++ if value then "true" else "false"
  | number value => out ++ toString value
  | string text => quoteOnto out text
  | array [] => out ++ "[]"
  | array (item :: items) => compactItems (compactOnto (out ++ "[") item) items
  | object [] => out ++ "\x7b\x7d"
  | object ((key, value) :: fields) =>
    compactFields (compactOnto (quoteOnto (out ++ "\x7b") key ++ ":") value) fields

def compactItems (out : String) : List Json → String
  | [] => out ++ "]"
  | item :: items => compactItems (compactOnto (out ++ ",") item) items

def compactFields (out : String) : List (String × Json) → String
  | [] => out ++ "\x7d"
  | (key, value) :: fields =>
    compactFields (compactOnto (quoteOnto (out ++ ",") key ++ ":") value) fields

end

def compact (json : Json) : String := compactOnto "" json

/-- The start of a line `depth` containers deep. -/
def newLine (depth : Nat) : String := "\n" ++ String.ofList (List.replicate (2 * depth) ' ')

mutual

def prettyOnto (depth : Nat) (out : String) : Json → String
  | null => out ++ "null"
  | bool value => out ++ if value then "true" else "false"
  | number value => out ++ toString value
  | string text => quoteOnto out text
  | array [] => out ++ "[]"
  | array (item :: items) =>
    prettyItems depth (prettyOnto (depth + 1) (out ++ "[" ++ newLine (depth + 1)) item) items
  | object [] => out ++ "\x7b\x7d"
  | object ((key, value) :: fields) =>
    prettyFields depth
      (prettyOnto (depth + 1) (quoteOnto (out ++ "\x7b" ++ newLine (depth + 1)) key ++ ": ") value)
      fields

def prettyItems (depth : Nat) (out : String) : List Json → String
  | [] => out ++ newLine depth ++ "]"
  | item :: items =>
    prettyItems depth (prettyOnto (depth + 1) (out ++ "," ++ newLine (depth + 1)) item) items

def prettyFields (depth : Nat) (out : String) : List (String × Json) → String
  | [] => out ++ newLine depth ++ "\x7d"
  | (key, value) :: fields =>
    prettyFields depth
      (prettyOnto (depth + 1) (quoteOnto (out ++ "," ++ newLine (depth + 1)) key ++ ": ") value)
      fields

end

def pretty (json : Json) : String := prettyOnto 0 "" json

end Json

end AsyncLift

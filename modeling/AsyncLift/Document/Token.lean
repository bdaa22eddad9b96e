/-!
# Tokens of a document

Documents are written in JSON. `Token.tokens?` cuts the text into tokens and skips the blanks
between them, of which there are four.

A string literal can name a character beyond U+FFFF by two escapes, the halves of a surrogate pair.
A half that stands alone is no character, so such a literal has no text; whether that is a fault is
left to the reader of the document, who may not look at the literal at all.
-/

namespace AsyncLift.Document

inductive Token where
  | openBrace
  | closeBrace
  | openBracket
  | closeBracket
  | colon
  | comma
  | null
  | bool (value : Bool)
  | number (text : String)
  /-- A string literal; `none` when an escape names half of a surrogate pair only. -/
  | string (text : Option String)
deriving DecidableEq, Repr

namespace Token

/-! ## String literals -/

/-- What stands for one character or for half of one in a string literal. -/
inductive Piece where
  | char (c : Char)
  /-- The number that an escape of four hexadecimal digits gives. -/
  | unit (code : Nat)
deriving DecidableEq, Repr

def hexDigit? (c : Char) : Option Nat :=
  if '0' ≤ c ∧ c ≤ '9' then some (c.toNat - '0'.toNat)
  else if 'a' ≤ c ∧ c ≤ 'f' then some (c.toNat - 'a'.toNat + 10)
  else if 'A' ≤ c ∧ c ≤ 'F' then some (c.toNat - 'A'.toNat + 10)
  else none

def hexCode? (a b c d : Char) : Option Nat := do
  let a ← hexDigit? a
  let b ← hexDigit? b
  let c ← hexDigit? c
  let d ← hexDigit? d
  return ((a * 16 + b) * 16 + c) * 16 + d

/-- The character that a backslash and one letter stand for. -/
def escaped? : Char → Option Char
  | '"' => some '"'
  | '\\' => some '\\'
  | '/' => some '/'
  | 'b' => some '\x08'
  | 'f' => some '\x0c'
  | 'n' => some '\n'
  | 'r' => some '\r'
  | 't' => some '\t'
  | _ => none

/-- The pieces up to the closing quote, after those in `before`, and what follows the quote. Control
characters have to be escaped. -/
def pieces? (before : List Piece) : List Char → Option (List Piece × List Char)
  | '"' :: rest => some (before.reverse, rest)
  | '\\' :: 'u' :: a :: b :: c :: d :: rest =>
    match hexCode? a b c d with
    | some code => pieces? (.unit code :: before) rest
    | none => none
  | '\\' :: letter :: rest =>
    match escaped? letter with
    | some c => pieces? (.char c :: before) rest
    | none => none
  | c :: rest => if c = '\\' ∨ c.toNat < 0x20 then none else pieces? (.char c :: before) rest
  | [] => none

def isHighHalf (code : Nat) : Bool := 0xD800 ≤ code && code < 0xDC00

def isLowHalf (code : Nat) : Bool := 0xDC00 ≤ code && code < 0xE000

/-- The text of a literal, after the characters in `before`: two halves of a surrogate pair make one
character, and a half alone makes none. -/
def text? (before : List Char) : List Piece → Option String
  | [] => some (String.ofList before.reverse)
  | .char c :: rest => text? (c :: before) rest
  | .unit high :: .unit low :: rest =>
    if isHighHalf high && isLowHalf low then
      text? (Char.ofNat (0x10000 + (high - 0xD800) * 0x400 + (low - 0xDC00)) :: before) rest
    else if isHighHalf high || isLowHalf high then none
    else text? (Char.ofNat high :: before) (.unit low :: rest)
  | .unit code :: rest =>
    if isHighHalf code || isLowHalf code then none else text? (Char.ofNat code :: before) rest

/-! ## Words

Numbers and the three names stand as runs of letters, digits, signs and points. -/

def isWordChar (c : Char) : Bool := c.isAlphanum || c == '+' || c == '-' || c == '.'

def isDigits (s : List Char) : Bool := !s.isEmpty && s.all Char.isDigit

def isExponent : List Char → Bool
  | [] => true
  | mark :: '+' :: rest => (mark == 'e' || mark == 'E') && isDigits rest
  | mark :: '-' :: rest => (mark == 'e' || mark == 'E') && isDigits rest
  | mark :: rest => (mark == 'e' || mark == 'E') && isDigits rest

def isFraction : List Char → Bool
  | '.' :: rest =>
    isDigits (rest.takeWhile Char.isDigit) && isExponent (rest.dropWhile Char.isDigit)
  | s => isExponent s

/-- A number without its sign: no digit follows a leading zero. -/
def isMagnitude : List Char → Bool
  | '0' :: rest => isFraction rest
  | s => isDigits (s.takeWhile Char.isDigit) && isFraction (s.dropWhile Char.isDigit)

def isNumber : List Char → Bool
  | '-' :: rest => isMagnitude rest
  | s => isMagnitude s

def ofWord? : List Char → Option Token
  | ['n', 'u', 'l', 'l'] => some null
  | ['t', 'r', 'u', 'e'] => some (bool true)
  | ['f', 'a', 'l', 's', 'e'] => some (bool false)
  | s => if isNumber s then some (number (String.ofList s)) else none

/-! ## The text as a whole -/

def isSpace (c : Char) : Bool := c == ' ' || c == '\t' || c == '\r' || c == '\n'

def ofPunctuation? : Char → Option Token
  | '\x7b' => some openBrace
  | '\x7d' => some closeBrace
  | '[' => some openBracket
  | ']' => some closeBracket
  | ':' => some colon
  | ',' => some comma
  | _ => none

theorem length_of_pieces? {before : List Piece} {s r : List Char} {ps : List Piece}
    (h : pieces? before s = some (ps, r)) : r.length < s.length := by
  fun_induction pieces? before s <;> simp_all <;> omega

/-- The tokens of a text, after those in `before`. -/
def tokens? (before : List Token) : List Char → Option (List Token)
  | [] => some before.reverse
  | c :: rest =>
    if isSpace c then tokens? before rest
    else if c = '"' then
      match h : pieces? [] rest with
      | some (ps, rest') =>
        have := length_of_pieces? h
        tokens? (string (text? [] ps) :: before) rest'
      | none => none
    else
      match ofPunctuation? c with
      | some token => tokens? (token :: before) rest
      | none =>
        if isWordChar c then
          match ofWord? (c :: rest.takeWhile isWordChar) with
          | some token =>
            have := (List.dropWhile_sublist (p := isWordChar) (l := rest)).length_le
            tokens? (token :: before) (rest.dropWhile isWordChar)
          | none => none
        else none
termination_by s => s.length
decreasing_by all_goals (simp only [List.length_cons]; omega)

end Token

end AsyncLift.Document

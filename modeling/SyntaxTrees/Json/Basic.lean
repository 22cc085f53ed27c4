import SyntaxTrees.Text.Digits

/-!
# JSON documents

The tree of a JSON document, what the smallest parts of its text stand for, and the ways in which
reading a text can fail.
-/

namespace SyntaxTrees

open Text (hexDigit? naturalOf wordLimit)

/-- A JSON document. A number keeps its spelling, an object the order of its members. -/
inductive Json where
  | null
  | flag (b : Bool)
  | number (spelling : String)
  | text (s : String)
  | array (items : List Json)
  | object (members : List (String × Json))
deriving Repr, Inhabited

namespace Json

def ofNat (n : Nat) : Json := .number (toString n)

/-! ## Parts of texts -/

/-- The white space that may stand between tokens. -/
def isBlank (c : Char) : Bool := c == ' ' || c == '\n' || c == '\t' || c == '\r'

/-- The value of a numeral that consists of digits only and fits into a word. -/
def natural? (numeral : List Char) : Option Nat :=
  if numeral.all Char.isDigit && naturalOf numeral < wordLimit then some (naturalOf numeral) else none

/-- The character that a single letter escapes. -/
def escaped? : Char → Option Char
  | '"' => some '"'
  | '\\' => some '\\'
  | '/' => some '/'
  | 'b' => some (.ofNat 8)
  | 'f' => some (.ofNat 12)
  | 'n' => some '\n'
  | 'r' => some '\r'
  | 't' => some '\t'
  | _ => none

/-- The number that hexadecimal digits spell, latest first. -/
def hexValue? : List Char → Option Nat
  | [] => some 0
  | c :: earlier => do
    let n ← hexValue? earlier
    let d ← hexDigit? c
    return n * 16 + d

/-- A character beyond the first 65536 is spelt as two code units. This is a first one. -/
def isHighHalf (n : Nat) : Bool := 0xD800 ≤ n && n ≤ 0xDBFF

def isLowHalf (n : Nat) : Bool := 0xDC00 ≤ n && n ≤ 0xDFFF

/-! ## Failures -/

/-- Why a text cannot be read as a value of the expected shape. -/
inductive Fault where
  /-- The text is not JSON. -/
  | malformed
  /-- The text is JSON up to here, but not of the expected shape. -/
  | mismatch
  /-- The text ends too early. -/
  | truncated
deriving DecidableEq, Repr

/-- What a reader or a writer says when it fails. -/
structure Failure where
  fault : Fault
  /-- The failure in words. -/
  text : String
deriving DecidableEq, Repr

end Json

end SyntaxTrees

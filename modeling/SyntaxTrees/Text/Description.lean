import SyntaxTrees.Text.CaseTable
import SyntaxTrees.Text.HiddenTable

/-!
# Descriptions of values

How a value is shown to a person who looks at a log: quoted texts, lists, optional values, and
records with named fields, which may hold back some of them.
-/

namespace SyntaxTrees.Text

/-- A character that a quoted text shows by number. -/
def isHidden (c : Char) : Bool := inRanges hiddenRanges c.toNat

/-- Hexadecimal digits in lower case, without leading zeros. -/
def hexDigits (n : Nat) : String := .ofList (Nat.toDigits 16 n)

def describeChar (c : Char) : String :=
  if c = '"' then "\\\""
  else if c = '\\' then "\\\\"
  else if c = '\n' then "\\n"
  else if c = '\t' then "\\t"
  else if c = '\r' then "\\r"
  else if c.toNat = 0 then "\\0"
  else if isHidden c then "\\u\x7b" ++ hexDigits c.toNat ++ "\x7d"
  else c.toString

/-- A text in quotation marks. -/
def describeText (s : String) : String :=
  "\"" ++ String.join (s.toList.map describeChar) ++ "\""

def describeList (items : List String) : String := "[" ++ ", ".intercalate items ++ "]"

def describeOption : Option String → String
  | none => "None"
  | some s => "Some(" ++ s ++ ")"

/-- A record with named, described fields; `more` tells that it holds further ones. -/
def describeRecord (name : String) (fields : List (String × String)) (more : Bool) : String :=
  let shown := fields.map fun (key, value) => key ++ ": " ++ value
  let shown := if more then shown ++ [".."] else shown
  name ++ " \x7b " ++ ", ".intercalate shown ++ " \x7d"

end SyntaxTrees.Text

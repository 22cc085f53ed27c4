import SyntaxTrees.Json.Record

/-!
# Libraries for JSON

Texts are written and read by code that is not part of this development: code that is generated from
the tables of fields (`Derived`), and a printer and a reader of JSON (`Library`). What is written and
read here is written and read with a library that is given.
-/

namespace SyntaxTrees.Json

/-- Where a text breaks into lines. -/
inductive Style where
  /-- Everything stands on one line. -/
  | compact
  /-- Members and items stand on lines of their own. -/
  | indented
deriving DecidableEq, Repr

/-- The code that is generated for the types of records, seen as functions of their fields. -/
structure Derived where
  /-- The document of a value. -/
  write : Shape → Datum → Json
  /-- The members of a record's document. -/
  writeFields : List Field → List Datum → List (String × Json)
  /-- The value of a document, if it is one of the shape. -/
  read? : Shape → Json → Option Datum
  /-- The values of a record's fields, once the slots of some fields are filled and the members are
  still to come. -/
  readMembers? : List Field → List (Option Datum) → List (String × Json) → Option (List Datum)

/-- A printer and a reader of JSON texts, with the code that is generated for them. -/
structure Library where
  derived : Derived
  /-- The values of fields from the items of an array, one after the other. -/
  readItems? : List Field → List Json → Option (List Datum)
  print : Style → Json → Except Failure String
  /-- Reads one value off the start of a text, however deep it is nested, and gives what is left. -/
  read : (α : Type) → [Record α] → List Char → Except Failure (α × List Char)
  /-- Makes sure that nothing is left to be read. -/
  finish : List Char → Except Failure Unit

namespace Library

variable (L : Library) {α : Type} [Record α]

def encode (style : Style) (a : α) : Except Failure String :=
  L.print style (L.derived.write (.record (Record.type α)) (toDatum a))

/-- Reads a text that holds one value and nothing else. -/
def decode (α : Type) [Record α] (text : String) : Except Failure α := do
  let (a, rest) ← L.read α text.toList
  L.finish rest
  return a

end Library

end SyntaxTrees.Json

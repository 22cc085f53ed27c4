import SyntaxTrees.Json.Basic

/-!
# Shapes of JSON documents

Every value that is exchanged has a `Shape`. Records have named fields in a fixed order; a field may
have a default, which stands in for it when it is missing and may be left out when written. A `Datum`
is a value of some shape, without the names. The table of fields is what the record types themselves
say about their form; how a text is made of it is left to a `Library`.
-/

namespace SyntaxTrees.Json

inductive RecordType where
  | position
  | span
  | edit
  | configEntry
  | config
  | node
deriving DecidableEq, Repr

/-- What a document has to look like. -/
inductive Shape where
  /-- A natural number below `2 ^ 64`. -/
  | number
  | flag
  | text
  /-- A text or `null`. -/
  | optionalText
  | list (item : Shape)
  /-- An object with the fields of the record, or an array of their values in order. -/
  | record (type : RecordType)
  /-- Any document at all, of which nothing is kept. A lenient reader does not look at the size of
  numbers, the halves of escaped characters and the depth of the document. -/
  | anything (lenient : Bool)
deriving DecidableEq, Repr

/-- A value that was read or is to be written. -/
inductive Datum where
  | absent
  | number (n : Nat)
  | flag (b : Bool)
  | text (s : String)
  | list (items : List Datum)
  /-- The values of a record's fields, in their order. -/
  | record (values : List Datum)
deriving Repr, Inhabited

/-- A value that a field may be left out for: nothing, `false` or an empty list. -/
def Datum.isBlank : Datum → Bool
  | absent => true
  | flag b => !b
  | list items => items.isEmpty
  | _ => false

structure Field where
  key : String
  shape : Shape
  /-- What stands for the field when it is missing; `none` if it may not be missing. -/
  default? : Option Datum := none
  /-- A blank value is left out when the record is written. -/
  omitsBlank : Bool := false
deriving Repr

/-- A field that may be missing and is left out when it is blank. -/
def Field.optional (key : String) (shape : Shape) (default : Datum) : Field where
  key
  shape
  default? := some default
  omitsBlank := true

/-- The fields of a record, in the order in which they are written. -/
def RecordType.fields : RecordType → List Field
  | position => [{ key := "row", shape := .number }, { key := "column", shape := .number }]
  | span => [{ key := "start", shape := .number }, { key := "end", shape := .number }]
  | edit => [
      { key := "start_byte", shape := .number },
      { key := "old_end_byte", shape := .number },
      { key := "new_end_byte", shape := .number }]
  | configEntry => [
      { key := "name", shape := .text },
      .optional "provider" .optionalText .absent,
      .optional "aliases" (.list .text) (.list [])]
  | config => [
      { key := "grammars", shape := .list (.record .configEntry), default? := some (.list []) }]
  | node => [
      { key := "kind", shape := .text },
      { key := "named", shape := .flag },
      .optional "field" .optionalText .absent,
      { key := "range", shape := .record .span },
      { key := "start", shape := .record .position },
      { key := "end", shape := .record .position },
      .optional "error" .flag (.flag false),
      .optional "missing" .flag (.flag false),
      .optional "children" (.list (.record .node)) (.list [])]

/-- The values of a record's fields, with defaults for the missing ones; `none` if a field is
missing that has no default. -/
def complete? (fields : List Field) (slots : List (Option Datum)) : Option (List Datum) :=
  (fields.zip slots).mapM fun (field, slot) => slot.or field.default?

end SyntaxTrees.Json

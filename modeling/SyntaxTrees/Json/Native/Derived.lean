import SyntaxTrees.Json.Library

/-!
# Records and documents

The values of records as documents and back, one function for each piece of code that is generated for
the types of records. An object is gone through once: the value of a field goes into the field's slot,
a second one for the same field is refused, and other members are passed over.
-/

namespace SyntaxTrees.Json

/-! ## Writing -/

mutual

def Shape.write : Shape → Datum → Json
  | _, .absent => .null
  | _, .number n => .ofNat n
  | _, .flag b => .flag b
  | _, .text s => .text s
  | .list item, .list items => .array (item.writeItems items)
  | .record type, .record values => .object (writeFields type.fields values)
  -- a list or a record that is none for the shape
  | _, .list _ => .null
  | _, .record _ => .null

def Shape.writeItems : Shape → List Datum → List Json
  | _, [] => []
  | item, d :: rest => item.write d :: item.writeItems rest

def writeFields : List Field → List Datum → List (String × Json)
  | _, [] => []
  | [], _ :: _ => []
  | f :: fields, d :: values =>
    if f.omitsBlank && d.isBlank then writeFields fields values
    else (f.key, f.shape.write d) :: writeFields fields values

end

/-! ## Reading -/

mutual

/-- The value of a document of the shape. -/
def Shape.of? : Shape → Json → Option Datum
  | .anything _, _ => some .absent
  | .number, .number spelling => (natural? spelling.toList).map .number
  | .flag, .flag b => some (.flag b)
  | .text, .text s => some (.text s)
  | .optionalText, .text s => some (.text s)
  | .optionalText, .null => some .absent
  | .list item, .array items => (item.allOf? items).map .list
  | .record type, .array items => (itemsOf? type.fields items).map .record
  | .record type, .object members =>
    (membersOf? type.fields (type.fields.map fun _ => none) members).map .record
  | _, _ => none

def Shape.allOf? : Shape → List Json → Option (List Datum)
  | _, [] => some []
  | item, j :: rest => do
    let d ← item.of? j
    let ds ← item.allOf? rest
    return d :: ds

/-- The values of fields from documents in the order of the fields. Fields at the end that have
defaults may be missing. -/
def itemsOf? : List Field → List Json → Option (List Datum)
  | fields, [] => fields.mapM Field.default?
  | [], _ :: _ => none
  | f :: fields, j :: rest => do
    let d ← f.shape.of? j
    let ds ← itemsOf? fields rest
    return d :: ds

/-- The values of fields from members in any order. -/
def membersOf? : List Field → List (Option Datum) → List (String × Json) → Option (List Datum)
  | fields, slots, [] => complete? fields slots
  | fields, slots, (key, j) :: rest =>
    match fields.findIdx? (·.key == key) with
    | none => membersOf? fields slots rest
    | some i =>
      match fields[i]?, slots[i]? with
      | some f, some none => do
        let d ← f.shape.of? j
        membersOf? fields (slots.set i (some d)) rest
      | _, _ => none

end

/-- The code of this module for every record type. -/
def Derived.native : Derived where
  write := Shape.write
  writeFields := Json.writeFields
  read? := Shape.of?
  readMembers? := membersOf?

end SyntaxTrees.Json

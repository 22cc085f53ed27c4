import SyntaxTrees.Proofs.Json.Grammar

/-!
# Lawful libraries

What is relied on of the code that writes and reads texts. `Derived.Lawful` says what the generated
code makes of one value, one field and one member; `Library.Lawful` says what the printer and the
reader do with texts, over the grammar of `Rule.Document`. Each law states what the code in question
is documented to do. That records survive being written and read, which documents are records and
where a text ends are no laws, they are proved from the laws.
-/

namespace SyntaxTrees.Json

open Text (wordLimit)

/-! ## Documents and shapes -/

/-- The value is of the shape, and its numbers fit into machine words. -/
inductive Shape.Admits : Shape → Datum → Prop where
  | number {n : Nat} (h : n < wordLimit) : Admits .number (.number n)
  | flag (b : Bool) : Admits .flag (.flag b)
  | text (s : String) : Admits .text (.text s)
  | present (s : String) : Admits .optionalText (.text s)
  | absent : Admits .optionalText .absent
  | list {item : Shape} {ds : List Datum} (h : ∀ d ∈ ds, item.Admits d) :
      Admits (.list item) (.list ds)
  | record {type : RecordType} {values : List Datum} (hlength : type.fields.length = values.length)
      (h : ∀ (i : Nat) (f : Field) (d : Datum), type.fields[i]? = some f → values[i]? = some d →
        f.shape.Admits d) : Admits (.record type) (.record values)

/-- The document has a form that values of the shape are read from. -/
def Shape.Suits : Shape → Json → Prop
  | .anything _, _ => True
  | .number, .number _ => True
  | .flag, .flag _ => True
  | .text, .text _ => True
  | .optionalText, .text _ => True
  | .optionalText, .null => True
  | .list _, .array _ => True
  | .record _, .array _ => True
  | .record _, .object _ => True
  | _, _ => False

/-- Every number in the document is a natural number. -/
inductive IsWhole : Json → Prop where
  | null : IsWhole .null
  | flag (b : Bool) : IsWhole (.flag b)
  | number (n : Nat) : IsWhole (.ofNat n)
  | text (s : String) : IsWhole (.text s)
  | array {items : List Json} (h : ∀ j ∈ items, IsWhole j) : IsWhole (.array items)
  | object {members : List (String × Json)} (h : ∀ m ∈ members, IsWhole m.2) :
      IsWhole (.object members)

/-! ## Generated code -/

/-- The generated code does what the fields of the record types ask for. -/
structure Derived.Lawful (D : Derived) : Prop where
  -- values that consist of one part
  write_number (n : Nat) : D.write .number (.number n) = .ofNat n
  write_flag (b : Bool) : D.write .flag (.flag b) = .flag b
  write_text (s : String) : D.write .text (.text s) = .text s
  write_present (s : String) : D.write .optionalText (.text s) = .text s
  write_absent : D.write .optionalText .absent = .null
  read_number {n : Nat} (h : n < wordLimit) : D.read? .number (.ofNat n) = some (.number n)
  read_flag (b : Bool) : D.read? .flag (.flag b) = some (.flag b)
  read_text (s : String) : D.read? .text (.text s) = some (.text s)
  read_present (s : String) : D.read? .optionalText (.text s) = some (.text s)
  read_absent : D.read? .optionalText .null = some .absent
  -- lists, item by item
  write_list (item : Shape) (ds : List Datum) :
    D.write (.list item) (.list ds) = .array (ds.map (D.write item))
  read_list (item : Shape) (items : List Json) :
    D.read? (.list item) (.array items) = (items.mapM (D.read? item)).map .list
  /-- A record is written as an object. -/
  write_record (type : RecordType) (values : List Datum) :
    D.write (.record type) (.record values) = .object (D.writeFields type.fields values)
  writeFields_nil : D.writeFields [] [] = []
  /-- A field has one member, or none if its value is blank and the field is left out then. -/
  writeFields_cons (f : Field) (fields : List Field) (d : Datum) (values : List Datum) :
    D.writeFields (f :: fields) (d :: values) =
      if f.omitsBlank && d.isBlank then D.writeFields fields values
      else (f.key, D.write f.shape d) :: D.writeFields fields values
  /-- An object is read member by member, and no field has a value at the beginning. -/
  read_object (type : RecordType) (members : List (String × Json)) :
    D.read? (.record type) (.object members) =
      (D.readMembers? type.fields (type.fields.map fun _ => none) members).map .record
  /-- A member that no field has the key of is passed over. -/
  readMembers_other {fields : List Field} {key : String} (h : ∀ f ∈ fields, f.key ≠ key)
    (slots : List (Option Datum)) (j : Json) (members : List (String × Json)) :
    D.readMembers? fields slots ((key, j) :: members) = D.readMembers? fields slots members
  /-- The first member for a field gives the field its value. -/
  readMembers_first {fields : List Field} {slots : List (Option Datum)} {i : Nat} {f : Field}
    (hkeys : (fields.map Field.key).Nodup) (hf : fields[i]? = some f) (hslot : slots[i]? = some none)
    (j : Json) (members : List (String × Json)) :
    D.readMembers? fields slots ((f.key, j) :: members) =
      (D.read? f.shape j).bind fun d => D.readMembers? fields (slots.set i (some d)) members
  /-- A second member for a field is refused. -/
  readMembers_second {fields : List Field} {slots : List (Option Datum)} {i : Nat} {f : Field}
    {d : Datum} (hkeys : (fields.map Field.key).Nodup) (hf : fields[i]? = some f)
    (hslot : slots[i]? = some (some d)) (j : Json) (members : List (String × Json)) :
    D.readMembers? fields slots ((f.key, j) :: members) = none
  /-- Behind the last member, defaults stand in for the missing values. -/
  readMembers_end (fields : List Field) (slots : List (Option Datum)) :
    D.readMembers? fields slots [] = complete? fields slots

/-! ## Texts -/

/-- The library writes and reads texts as the grammar of JSON has it. -/
structure Library.Lawful (L : Library) : Prop where
  derived : L.derived.Lawful
  /-- The numbers that are read are machine words. -/
  read_numeral (spelling : String) :
    L.derived.read? .number (.number spelling) = (natural? spelling.toList).map .number
  /-- What has not the form of a value is none. -/
  read_mismatch {shape : Shape} {j : Json} (h : ¬shape.Suits j) : L.derived.read? shape j = none
  /-- A record may be written as an array, too. -/
  read_array (type : RecordType) (items : List Json) :
    L.derived.read? (.record type) (.array items) = (L.readItems? type.fields items).map .record
  /-- The next item is the value of the next field. -/
  readItems_next (f : Field) (fields : List Field) (j : Json) (items : List Json) :
    L.readItems? (f :: fields) (j :: items) =
      (L.derived.read? f.shape j).bind fun d => (L.readItems? fields items).map (d :: ·)
  /-- There is no room for an item behind the last field. -/
  readItems_beyond (j : Json) (items : List Json) : L.readItems? [] (j :: items) = none
  /-- Behind the last item, defaults stand in for the missing values. -/
  readItems_end (fields : List Field) : L.readItems? fields [] = fields.mapM Field.default?
  /-- A document is written as one of its texts, in either style. -/
  print_document (style : Style) {j : Json} (h : j.IsWhole) :
    ∃ text, L.print style j = .ok text ∧ Rule.Document j text.toList
  /-- The text of a document is read, up to blanks, as what the generated code makes of the document.
  -/
  read_document {α : Type} [Record α] {j : Json} {text : List Char} (h : Rule.Document j text)
    (a : α) :
    (∃ rest, L.read α text = .ok (a, rest) ∧ Rule.Gap rest) ↔
      (L.derived.read? (.record (Record.type α)) j).bind ofDatum? = some a
  /-- What is read is a value of the record's type. -/
  read_admits {α : Type} [Record α] {text rest : List Char} {a : α}
    (h : L.read α text = .ok (a, rest)) :
    ∃ d, (Shape.record (Record.type α)).Admits d ∧ ofDatum? d = some a
  /-- The reader stops behind the value, and does not look at what follows. -/
  read_more {α : Type} [Record α] {text rest : List Char} {a : α}
    (h : L.read α text = .ok (a, rest)) (more : List Char) :
    L.read α (text ++ more) = .ok (a, rest ++ more)
  /-- A fault in the text does not go away when more text follows, unless the fault is that the text
  ends. A numeral with a fraction or an exponent may be at fault where it is cut short, so this is asked
  of natural numbers only. -/
  read_fault {α : Type} [Record α] {j : Json} {front back : List Char} {failure : Failure}
    (hj : j.IsWhole) (h : Rule.Document j (front ++ back)) (hread : L.read α front = .error failure)
    (hfault : failure.fault ≠ .truncated) {rest : List Char} (hrest : Rule.Gap rest) (a : α) :
    L.read α (front ++ back) ≠ .ok (a, rest)
  /-- Blanks may be left over, -/
  finish_gap {rest : List Char} (h : Rule.Gap rest) : L.finish rest = .ok ()
  /-- and nothing else. -/
  finish_other {rest : List Char} (h : ¬Rule.Gap rest) :
    ∃ failure, L.finish rest = .error failure ∧ failure.fault = .malformed

end SyntaxTrees.Json

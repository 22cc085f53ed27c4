import SyntaxTrees.Json.Schema
import SyntaxTrees.Source.Edit

/-!
# Values as records

A type whose values are exchanged says which kind of record it is and how its values
correspond to the values of the fields.
-/

namespace SyntaxTrees.Json

/-- Types whose values are exchanged as records. -/
class Record (α : Type) where
  type : RecordType
  toDatum : α → Datum
  ofDatum? : Datum → Option α

export Record (toDatum ofDatum?)

namespace Datum

def ofOption : Option String → Datum
  | none => .absent
  | some s => .text s

def toOption? : Datum → Option (Option String)
  | .absent => some none
  | .text s => some (some s)
  | _ => none

def toTexts? : List Datum → Option (List String)
  | [] => some []
  | .text s :: rest => (toTexts? rest).map (s :: ·)
  | _ => none

end Datum

/-! ## Positions, spans and edits -/

instance : Record Position where
  type := .position
  toDatum p := .record [.number p.row, .number p.column]
  ofDatum?
    | .record [.number row, .number column] => some ⟨row, column⟩
    | _ => none

instance : Record Span where
  type := .span
  toDatum s := .record [.number s.start, .number s.stop]
  ofDatum?
    | .record [.number start, .number stop] => some ⟨start, stop⟩
    | _ => none

instance : Record Edit where
  type := .edit
  toDatum e := .record [.number e.start, .number e.oldStop, .number e.newStop]
  ofDatum?
    | .record [.number start, .number oldStop, .number newStop] => some ⟨start, oldStop, newStop⟩
    | _ => none

end SyntaxTrees.Json

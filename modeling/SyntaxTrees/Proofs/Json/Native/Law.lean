import SyntaxTrees.Json.Native
import SyntaxTrees.Proofs.Json.Native.Invariant
import SyntaxTrees.Proofs.Json.Native.Printer
import SyntaxTrees.Proofs.Json.Text

/-!
# The library of this development is lawful

`Library.native` satisfies the laws of libraries (`Library.native_lawful`). The reader stops where it
has left all documents; the text of a record leads there with its last mark, as a number is no record
(`Scan.eq_of_finish_eq_ok`). Behind that place every character is a blank or a fault, so a whole text
is read if nothing but blanks is left over (`Scan.foldlM_eq_take`).
-/

namespace SyntaxTrees.Json

/-! ## Inside and outside of documents -/

namespace Place

variable {shape : Shape}

/-- Outside all documents, nothing but a value of the shape is expected. -/
def Awaits (shape : Shape) (p : Place) : Prop := ∀ want, p = inside [] want → want = .value shape

theorem awaits_cons (f : Frame) (stack : List Frame) (want : Want) :
    (inside (f :: stack) want).Awaits shape := by
  rintro _ ⟨⟩

theorem awaits_deliver (d : Datum) (stack : List Frame) : (deliver d stack).Awaits shape := by
  cases stack with
  | nil =>
    rintro _ ⟨⟩
  | cons f stack => exact awaits_cons _ stack _

/-- Behind a token, what was expected outside all documents is so no longer. -/
theorem isKept_awaits (shape : Shape) : IsKept (Awaits shape) := by
  intro p q t _ _ h
  rcases feed_cases h with ⟨stack, other, -, h⟩ | ⟨f, stack, want, -, -, h⟩
  · rcases feedValue_cases h with ⟨d, -, rfl⟩ | ⟨f, -, rfl⟩
    · exact awaits_deliver d stack
    · exact awaits_cons f stack _
  · rcases h with ⟨d, -, rfl⟩ | ⟨key, keyed, -, rfl⟩ | rfl | ⟨next, -, rfl⟩
    · exact awaits_deliver d stack
    · exact awaits_cons keyed stack _
    · exact awaits_cons f stack _
    · exact awaits_cons f stack _

end Place

/-! ## The end of a record -/

namespace Scan

variable {s : Scan} {p : Place} {d : Datum}

/-- No numeral is the end of a record. -/
theorem emitNumeral_ne_finished {type : RecordType} (hp : p.Awaits (.record type))
    {numeral : List Char} : emitNumeral p numeral ≠ .ok { place := .finished d } := by
  intro h
  unfold emitNumeral at h
  split at h
  · cases h
  · have hfeed := place_of_emit h
    rcases Place.feed_number hfeed with ⟨d', stack, want, rfl, hq⟩
    cases stack with
    | nil =>
      -- a record is expected here, and a number is none
      cases hp want rfl
      cases hfeed
    | cons f stack => cases hq

/-- If the text of a record may end at a scan, the scan has left all documents. -/
theorem eq_of_finish_eq_ok {type : RecordType} (hs : s.place.Awaits (.record type))
    (h : s.finish = .ok d) : s = { place := .finished d } := by
  rcases s with ⟨p, lexeme⟩
  -- between tokens only a finished place has a value
  have hidle : ∀ q : Place, finish { place := q } = .ok d → q = .finished d := by
    intro q hq
    cases q with
    | finished d' =>
      cases hq
      rfl
    | inside stack want => cases hq
  cases lexeme with
  | none => rw [hidle p h]
  | word rest t => cases p <;> cases h
  | quoted part kept => cases p <;> cases h
  -- a number is no record, so a numeral cannot finish it
  | numeral part read =>
    unfold finish at h
    dsimp only at h
    split at h
    · rcases bind_eq_ok_iff.mp h with ⟨m, hend, hm⟩
      rcases emitNumeral_idle hend with ⟨q, rfl⟩
      cases hidle q hm
      exact absurd hend (emitNumeral_ne_finished hs)
    · split at h <;> cases h

/-- Behind the whole document every character is a blank or a fault. -/
theorem step_finished (d : Datum) (c : Char) :
    step { place := .finished d } c =
      if isBlank c then .ok { place := .finished d } else .error .malformed := by
  show stepIdle (.finished d) c = _
  unfold stepIdle
  split
  · rfl
  · split
    · rfl
    · split <;> rfl

theorem foldlM_finished (d : Datum) (cs : List Char) :
    cs.foldlM step { place := .finished d } =
      if cs.all isBlank then .ok { place := .finished d } else .error .malformed := by
  induction cs with
  | nil => rfl
  | cons c cs ih =>
    rw [List.foldlM_cons, step_finished, List.all_cons]
    cases isBlank c with
    | true => exact ih
    | false => rfl

end Scan

/-! ## Values at the start of a text -/

namespace Scan

variable {s : Scan} {d : Datum} {text rest : List Char}

theorem take_of_step {m : Scan} {c : Char} (hstep : s.step c = .ok m)
    (hm : ∀ d, m ≠ { place := .finished d }) : s.take (c :: text) = m.take text := by
  rw [take, hstep]
  split
  · next heq => cases heq
  · next d heq => exact absurd (Except.ok.inj heq) (hm d)
  · next heq =>
    cases heq
    rfl

/-- A whole text is read as the value at its start if nothing but blanks is left over. -/
theorem foldlM_eq_take (s : Scan) (text : List Char) :
    (text.foldlM step s >>= finish) =
      s.take text >>= fun p => if p.2.all isBlank then .ok p.1 else .error .malformed := by
  induction text generalizing s with
  | nil =>
    rw [take]
    show s.finish = _
    cases s.finish <;> rfl
  | cons c text ih =>
    rw [List.foldlM_cons, take]
    split
    · next fault hstep =>
      rw [hstep]
      rfl
    · next d hstep =>
      -- the value is complete, and the other characters are left over
      rw [hstep]
      show (text.foldlM step { place := .finished d } >>= finish) = if text.all isBlank then _ else _
      rw [foldlM_finished]
      split <;> rfl
    · next m _ hstep =>
      rw [hstep]
      exact ih m

/-- The reader of a record does not look at what follows. -/
theorem take_append {type : RecordType} (hs : s.Holds (Place.Awaits (.record type)))
    (hopen : ∀ d, s ≠ { place := .finished d }) (h : s.take text = .ok (d, rest))
    (more : List Char) : s.take (text ++ more) = .ok (d, rest ++ more) := by
  induction text generalizing s with
  | nil =>
    -- at the end of the text the reader would have left all documents already
    rcases map_eq_ok_iff.mp h with ⟨d', hfinish, -⟩
    exact absurd (eq_of_finish_eq_ok hs.place hfinish) (hopen d')
  | cons c text ih =>
    rw [take] at h
    split at h
    · cases h
    · next d' hstep =>
      cases h
      rw [List.cons_append, take, hstep]
    · next m hother hstep =>
      rw [List.cons_append, take_of_step hstep hother]
      exact ih (holds_step (Place.isKept_awaits _) hs hstep) hother h

end Scan

/-! ## Records at the start of a text -/

section

variable {α : Type} [Record α] {a : α} {text rest : List Char}

theorem readRecord_eq_ok_iff :
    readRecord α text = .ok (a, rest) ↔
      ∃ d, (Scan.start (.record (Record.type α))).take text = .ok (d, rest) ∧
        ofDatum? d = some a := by
  unfold readRecord
  split
  · next d rest' htake =>
    rw [htake]
    split
    · next b hb => simp [hb, and_comm]
    · next hnone => simp [hnone]
  · next fault htake => simp [htake]

/-- If no record is read, the text is at fault, or its value is that of no record. -/
theorem readRecord_error {failure : Failure} (h : readRecord α text = .error failure) :
    (∃ fault, (Scan.start (.record (Record.type α))).take text = .error fault ∧
      failure = .ofFault fault) ∨
    ∃ d rest, (Scan.start (.record (Record.type α))).take text = .ok (d, rest) ∧
      (ofDatum? d : Option α) = none := by
  unfold readRecord at h
  split at h
  · -- the scan ended; then the data is no value of the type
    next d rest htake =>
    split at h
    · cases h
    · next hnone => exact .inr ⟨d, rest, htake, hnone⟩
  · next fault htake =>
    cases h
    exact .inl ⟨fault, htake, rfl⟩

theorem start_ne_finished (type : RecordType) (d : Datum) :
    Scan.start (.record type) ≠ { place := .finished d } := by
  intro h
  cases h

theorem holds_start (type : RecordType) :
    (Scan.start (.record type)).Holds (Place.Awaits (.record type)) := by
  refine Scan.holds_idle ?_
  rintro _ ⟨⟩
  rfl

/-- What is read of the text of a document is what the generated code makes of the document. -/
theorem take_document_iff {type : RecordType} {j : Json} {d : Datum} (h : Rule.Document j text) :
    (∃ rest, (Scan.start (.record type)).take text = .ok (d, rest) ∧ Rule.Gap rest) ↔
      (Shape.record type).of? j = some d := by
  have hshape : (Shape.record type).IsTyped := trivial
  have hloose : false = true → j.IsWhole := nofun
  -- the outcome of the whole text is the scan's, if only blanks are left over
  have hwhole := outcome_start hshape h hloose
  rw [Scan.outcome_eq_foldlM, Scan.foldlM_eq_take] at hwhole
  rw [← hwhole]
  rcases (Scan.start (.record type)).take text with fault | ⟨d', rest⟩
  · exact ⟨nofun, nofun⟩
  · have hgap : rest.all isBlank ↔ Rule.Gap rest := List.all_eq_true
    show _ ↔ (if rest.all isBlank then .ok d' else .error .malformed : Except Fault Datum).toOption = _
    split
    · next hblank => simp [Except.toOption, hgap.mp hblank]
    · next hother =>
      have hnone : ¬Rule.Gap rest := fun h => hother (hgap.mpr h)
      simp [Except.toOption, hnone]

/-- In the text of a document with a value, whose numbers are natural numbers, nothing is at fault
where it is cut short. -/
theorem take_cut {type : RecordType} {j : Json} {d : Datum} {front back : List Char}
    (hj : j.IsWhole) (h : Rule.Document j (front ++ back)) (hd : (Shape.record type).of? j = some d)
    {fault : Fault} (hread : (Scan.start (.record type)).take front = .error fault) :
    fault = .truncated := by
  have hshape : (Shape.record type).IsTyped := trivial
  have hstrict : (Scan.start (.record type)).outcome true (front ++ back) = some d := by
    rw [outcome_start hshape h fun _ => hj, hd]
  rcases Scan.isUnbroken_of_strict hstrict with ⟨m, hrun, hm⟩
  -- the reader has come to an unbroken scan, and finds its fault there
  have hfinish := Scan.foldlM_eq_take (Scan.start (.record type)) front
  rw [hrun, hread] at hfinish
  exact hm fault hfinish

end

/-! ## The laws -/

theorem Library.native_lawful : Library.native.Lawful where
  derived := Derived.native_lawful
  read_numeral _ := rfl
  read_mismatch {shape j} h := by
    show shape.of? j = none
    cases shape <;> cases j <;> first
      | rfl
      | exact absurd trivial h
  read_array _ _ := rfl
  readItems_next := itemsOf?_cons
  readItems_beyond _ _ := rfl
  readItems_end fields := by
    show itemsOf? fields [] = _
    rw [itemsOf?]
  print_document style j h := ⟨_, rfl, document_print style h⟩
  read_document {α _ j text} h a := by
    show (∃ rest, readRecord α text = .ok (a, rest) ∧ Rule.Gap rest) ↔
      ((Shape.record (Record.type α)).of? j).bind ofDatum? = some a
    simp only [readRecord_eq_ok_iff, Option.bind_eq_some_iff, ← take_document_iff h]
    constructor
    · rintro ⟨rest, ⟨d, htake, ha⟩, hrest⟩
      exact ⟨d, ⟨rest, htake, hrest⟩, ha⟩
    · rintro ⟨d, ⟨rest, htake, hrest⟩, ha⟩
      exact ⟨rest, ⟨d, htake, ha⟩, hrest⟩
  read_admits {α _ text rest a} h := by
    rcases readRecord_eq_ok_iff.mp h with ⟨d, htake, ha⟩
    have hshape : (Shape.record (Record.type α)).IsTyped := trivial
    exact ⟨d, take_admits hshape htake, ha⟩
  read_more {α _ text rest a} h more := by
    rcases readRecord_eq_ok_iff.mp h with ⟨d, htake, ha⟩
    have hlonger := Scan.take_append (holds_start _) (start_ne_finished _) htake more
    exact readRecord_eq_ok_iff.mpr ⟨d, hlonger, ha⟩
  read_fault {α _ j front back failure} hj h hread hfault rest hrest a := by
    intro hwhole
    rcases readRecord_eq_ok_iff.mp hwhole with ⟨d, htake, ha⟩
    rcases readRecord_error hread with ⟨fault, hfront, rfl⟩ | ⟨d', left, hfront, hnone⟩
    · -- the document has a value, so the text is not at fault where it is cut short
      have hd := (take_document_iff h).mp ⟨rest, htake, hrest⟩
      exact hfault (take_cut hj h hd hfront)
    · -- the value that was read first is still read, and is still that of no record
      have hlonger := Scan.take_append (holds_start _) (start_ne_finished _) hfront back
      rw [htake] at hlonger
      cases hlonger
      rw [hnone] at ha
      cases ha
  finish_gap {rest} h := if_pos (List.all_eq_true.mpr h)
  finish_other {rest} h := ⟨_, if_neg fun hall => h (List.all_eq_true.mp hall), rfl⟩

end SyntaxTrees.Json

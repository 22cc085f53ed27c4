import SyntaxTrees.Proofs.Json.Native.Document

/-!
# What reading keeps

A property of places that every token keeps is kept by whole texts (`Scan.kept_take`): the characters of
a text only put tokens together, and a numeral that is handed on as a number fits into a machine word.

The property used here is that what has been read so far fits (`Place.Fits`): what every open document
holds suits the shape that the document around it expects next. A token keeps it, and so whatever is
read as a value of a shape is a value of this shape (`take_admits`).
-/

namespace SyntaxTrees.Json

open Text (wordLimit)

/-! ## Properties that every token keeps -/

/-- A number that is handed on fits into a machine word. -/
def Token.InWords : Token → Prop
  | .number (some n) => n < wordLimit
  | _ => True

theorem inWords_natural? (numeral : List Char) : (Token.number (natural? numeral)).InWords := by
  cases hvalue : natural? numeral with
  | none => exact trivial
  | some n =>
    rcases natural?_eq_some_iff.mp hvalue with ⟨⟨-, hfits⟩, rfl⟩
    exact hfits

theorem inWords_punctuation? {c : Char} {t : Token} (h : punctuation? c = some t) : t.InWords := by
  unfold punctuation? at h
  split at h <;> cases h <;> exact trivial

/-- The property holds behind a token if it holds before it. -/
def Place.IsKept (P : Place → Prop) : Prop :=
  ∀ {p q : Place} {t : Token}, P p → t.InWords → p.feed t = .ok q → P q

namespace Scan

/-- The scan is at a place with the property, and a word that is under way is no number. -/
structure Holds (P : Place → Prop) (s : Scan) : Prop where
  place : P s.place
  word : ∀ rest t, s.lexeme = .word rest t → t.InWords

variable {P : Place → Prop} (hP : Place.IsKept P) {p : Place} {s s' : Scan}

theorem holds_idle (hp : P p) : Holds P { place := p } := ⟨hp, nofun⟩

include hP

theorem holds_emit {t : Token} (hp : P p) (ht : t.InWords) (h : emit p t = .ok s) : s.Holds P := by
  rcases map_eq_ok_iff.mp h with ⟨q, hfeed, rfl⟩
  exact holds_idle (hP hp ht hfeed)

theorem holds_emitNumeral {numeral : List Char} (hp : P p) (h : emitNumeral p numeral = .ok s) :
    s.Holds P := by
  unfold emitNumeral at h
  split at h
  · cases h
  · exact holds_emit hP hp (inWords_natural? numeral) h

theorem holds_stepIdle {c : Char} (hp : P p) (h : stepIdle p c = .ok s) : s.Holds P := by
  unfold stepIdle at h
  split at h
  · cases h
    exact holds_idle hp
  · split at h
    · next t hmark => exact holds_emit hP hp (inWords_punctuation? hmark) h
    · -- a longer token begins, and the place stays as it is
      repeat' split at h
      case h_1 rest t hword =>
        cases h
        refine ⟨hp, ?_⟩
        rintro _ _ ⟨⟩
        unfold word? at hword
        split at hword <;> cases hword <;> exact trivial
      all_goals cases h
      all_goals exact ⟨hp, nofun⟩

theorem holds_step {c : Char} (hs : s.Holds P) (h : s.step c = .ok s') : s'.Holds P := by
  unfold step at h
  split at h
  · exact holds_stepIdle hP hs.place h
  · -- within a word: nothing is handed over before its last letter
    next d rest t hlexeme =>
    have ht : t.InWords := hs.word _ t hlexeme
    split at h
    · cases h
    · split at h
      · exact holds_emit hP hs.place ht h
      · cases h
        refine ⟨hs.place, ?_⟩
        rintro _ _ ⟨⟩
        exact ht
  · cases h
  · -- within a numeral: it goes on, or it ends and the letter is read anew
    split at h
    · cases h
      exact ⟨hs.place, nofun⟩
    · cases h
    · rcases bind_eq_ok_iff.mp h with ⟨m, hemit, hidle⟩
      exact holds_stepIdle hP (holds_emitNumeral hP hs.place hemit).place hidle
  · -- within a quoted text: it goes on, or the text is handed over
    split at h
    · cases h
      exact ⟨hs.place, nofun⟩
    · cases h
    · next kept _ =>
      have htext : (Token.text (.ofList kept.reverse)).InWords := trivial
      exact holds_emit hP hs.place htext h

/-- At the end of the text a numeral may still have to be handed on. -/
theorem kept_finish {d : Datum} (hs : s.Holds P) (h : s.finish = .ok d) : P (.finished d) := by
  -- between tokens only a finished place has a value
  have hidle : ∀ q : Place, P q → finish { place := q } = .ok d → P (.finished d) := by
    intro q hq hend
    cases q with
    | finished d' =>
      cases hend
      exact hq
    | inside stack want => cases hend
  rcases s with ⟨p, lexeme⟩
  cases lexeme with
  | none => exact hidle p hs.place h
  | word rest t => cases p <;> cases h
  | quoted part kept => cases p <;> cases h
  -- a numeral may end with the text
  | numeral part read =>
    unfold finish at h
    dsimp only at h
    split at h
    · rcases bind_eq_ok_iff.mp h with ⟨m, hemit, hend⟩
      rcases emitNumeral_idle hemit with ⟨q, rfl⟩
      exact hidle q (holds_emitNumeral hP hs.place hemit).place hend
    · split at h <;> cases h

end Scan

/-- What every token keeps holds behind a value that was read, if it holds at the beginning. -/
theorem Scan.kept_take {P : Place → Prop} (hP : Place.IsKept P) {s : Scan} {text rest : List Char}
    {d : Datum} (hs : s.Holds P) (h : s.take text = .ok (d, rest)) : P (.finished d) := by
  induction text generalizing s with
  | nil =>
    rcases map_eq_ok_iff.mp h with ⟨d', hfinish, heq⟩
    cases heq
    exact kept_finish hP hs hfinish
  | cons c text ih =>
    rw [take] at h
    split at h
    · cases h
    · -- the value ends here
      next d' hstep =>
      cases h
      exact (holds_step hP hs hstep).place
    · -- it goes on
      next m _ hstep => exact ih (holds_step hP hs hstep) h

/-! ## What fits into a shape -/

/-- What a reader of the shape keeps is a value of the shape, unless nobody looks at it. -/
def Shape.Keeps (shape : Shape) (d : Datum) : Prop := shape.IsTyped → shape.Admits d

/-- What fills the slots of fields has the shapes of the fields. -/
def SlotsAdmit (fields : List Field) (slots : List (Option Datum)) : Prop :=
  ∀ (i : Nat) (f : Field) (d : Datum), fields[i]? = some f → slots[i]? = some (some d) →
    f.shape.Admits d

/-- Fields whose slots are filled or that have defaults have values of their shapes. -/
theorem forall₂_of_complete? {fields : List Field} {slots : List (Option Datum)}
    {values : List Datum} (hdefaults : ∀ f ∈ fields, ∀ d, f.default? = some d → f.shape.Admits d)
    (hslots : SlotsAdmit fields slots) (hlength : fields.length ≤ slots.length)
    (h : complete? fields slots = some values) :
    List.Forall₂ (fun f d => f.shape.Admits d) fields values := by
  induction fields generalizing slots values with
  | nil =>
    cases h
    exact .nil
  | cons f fields ih =>
    cases slots with
    | nil => cases hlength
    | cons slot slots =>
      rw [Frame.complete?_cons] at h
      rcases Option.bind_eq_some_iff.mp h with ⟨d, hd, hrest⟩
      rcases Option.map_eq_some_iff.mp hrest with ⟨ds, hds, rfl⟩
      refine .cons ?_ ?_
      · -- a slot that was filled admits, and so does a default
        cases slot with
        | some d' =>
          cases hd
          exact hslots 0 f d rfl rfl
        | none => exact hdefaults f List.mem_cons_self d hd
      · exact ih (fun g hg => hdefaults g (List.mem_cons_of_mem _ hg))
          (fun i g e hg he => hslots (i + 1) g e hg he) (Nat.le_of_succ_le_succ hlength) hds

namespace Frame

/-- What the open document holds so far suits a value of the shape. -/
inductive Builds : Frame → Shape → Prop where
  | list {item : Shape} {items : List Datum} (hitems : ∀ d ∈ items, item.Keeps d) :
      Builds (.list item items) (.list item)
  | object {type : RecordType} {slots : List (Option Datum)} {field : Option Nat}
      (hslots : SlotsAdmit type.fields slots) (hlength : type.fields.length ≤ slots.length) :
      Builds (.object type slots field) (.record type)
  | tuple {type : RecordType} {values : List Datum}
      (hvalues : SlotsAdmit type.fields (values.reverse.map some)) :
      Builds (.tuple type values) (.record type)
  | anyArray (lenient : Bool) : Builds (.anyArray lenient) (.anything lenient)
  | anyObject (lenient : Bool) : Builds (.anyObject lenient) (.anything lenient)

variable {f : Frame} {shape : Shape}

theorem keeps_recordOf {type : RecordType} {slots : List (Option Datum)} {d : Datum}
    (hslots : SlotsAdmit type.fields slots) (hlength : type.fields.length ≤ slots.length)
    (h : value.recordOf type slots = .ok d) : (Shape.record type).Keeps d := by
  unfold value.recordOf at h
  split at h
  · next values hvalues =>
    cases h
    intro _
    exact Shape.admits_record_iff.mpr
      (forall₂_of_complete? type.admits_default hslots hlength hvalues)
  · cases h

/-- The value of a document that is closed is of its shape. -/
theorem Builds.keeps_value (h : f.Builds shape) {d : Datum} (hvalue : f.value = .ok d) :
    shape.Keeps d := by
  cases h with
  | list hitems =>
    cases hvalue
    intro htyped
    refine .list fun e he => ?_
    exact hitems e (List.mem_reverse.mp he) htyped
  | object hslots hlength => exact keeps_recordOf hslots hlength hvalue
  | @tuple type values hvalues =>
    refine keeps_recordOf ?_ ?_ hvalue
    · -- the slots behind the values are empty
      intro i g e hg he
      apply hvalues i g e hg
      rcases Nat.lt_or_ge i (values.reverse.map some).length with hi | hi
      · rwa [List.getElem?_append_left hi] at he
      · rw [List.getElem?_append_right hi] at he
        have hnone := List.eq_of_mem_replicate (List.mem_of_getElem? he)
        cases hnone
    · simp only [List.length_append, List.length_map, List.length_reverse, List.length_replicate]
      omega
  | anyArray lenient | anyObject lenient => exact False.elim

/-- A value of the shape that comes next is added. -/
theorem Builds.add {outer : Shape} (h : f.Builds outer) (hnext : f.nextShape? = some shape)
    {d : Datum} (hd : shape.Keeps d) : (f.add d).Builds outer := by
  cases h with
  | list hitems =>
    cases hnext
    refine .list ?_
    intro e he
    rcases List.mem_cons.mp he with rfl | he
    · exact hd
    · exact hitems e he
  | @object type slots field hslots hlength =>
    cases field with
    | none => exact .object hslots hlength
    | some i =>
      rcases Option.map_eq_some_iff.mp hnext with ⟨g, hg, rfl⟩
      refine .object ?_ (by simpa using hlength)
      intro j g' e hg' he
      rw [List.getElem?_set] at he
      split at he
      · next hij =>
        rw [hij, hg'] at hg
        cases hg
        split at he
        · cases he
          exact hd (type.isTyped g (List.mem_of_getElem? hg'))
        · cases he
      · exact hslots j g' e hg' he
  | @tuple type values hvalues =>
    rcases Option.map_eq_some_iff.mp hnext with ⟨g, hg, rfl⟩
    refine .tuple ?_
    intro i g' e hg' he
    rw [List.reverse_cons, List.map_append] at he
    rcases Nat.lt_or_ge i (values.reverse.map some).length with hi | hi
    · rw [List.getElem?_append_left hi] at he
      exact hvalues i g' e hg' he
    · rw [List.getElem?_append_right hi] at he
      -- the new value belongs to the field behind those that have values
      rcases List.mem_singleton.mp (List.mem_of_getElem? he) with ⟨⟩
      have hlast : i = values.length := by
        have hlt := (List.getElem?_eq_some_iff.mp he).1
        simp at hi hlt
        omega
      rw [hlast, hg] at hg'
      cases hg'
      exact hd (type.isTyped g (List.mem_of_getElem? hg))
  | anyArray lenient => exact .anyArray lenient
  | anyObject lenient => exact .anyObject lenient

theorem Builds.key (h : f.Builds shape) {key : String} {keyed : Frame}
    (hkey : f.key key = .ok keyed) : keyed.Builds shape := by
  rcases key_cases hkey with rfl | ⟨type, slots, field, next, rfl, rfl⟩
  · exact h
  · cases h with
    | object hslots hlength => exact .object hslots hlength

end Frame

namespace Place

variable {whole shape : Shape} {f : Frame} {stack : List Frame} {p q : Place} {t : Token}

/-! ## What a token does -/

theorem enterAny_eq_ok {lenient : Bool} (h : enterAny lenient f stack = .ok q) :
    q = enter f stack := by
  unfold enterAny at h
  split at h
  · exact (Except.ok.inj h).symm
  · cases h

/-- Where a value is expected, a token is the value or opens a document of its shape. -/
theorem feedValue_cases (h : feedValue stack shape t = .ok q) :
    (∃ d, (t.InWords → shape.Keeps d) ∧ q = deliver d stack) ∨
      ∃ f, f.Builds shape ∧ q = enter f stack := by
  have hempty (type : RecordType) : SlotsAdmit type.fields (type.fields.map fun _ => none) := by
    intro i g d _ hd
    rcases List.mem_map.mp (List.mem_of_getElem? hd) with ⟨_, _, ⟨⟩⟩
  unfold feedValue at h
  split at h
  -- punctuation that opens nothing
  · cases h
  · cases h
  · cases h
  · cases h
  -- a value that nobody looks at
  · exact .inr ⟨_, .anyArray _, enterAny_eq_ok h⟩
  · exact .inr ⟨_, .anyObject _, enterAny_eq_ok h⟩
  · cases h
    exact .inl ⟨_, fun _ => False.elim, rfl⟩
  -- values of one token
  · cases h
    exact .inl ⟨.number _, fun ht _ => .number ht, rfl⟩
  · cases h
    exact .inl ⟨.flag _, fun _ _ => .flag _, rfl⟩
  · cases h
    exact .inl ⟨.text _, fun _ _ => .text _, rfl⟩
  · cases h
    exact .inl ⟨.text _, fun _ _ => .present _, rfl⟩
  · cases h
    exact .inl ⟨.absent, fun _ _ => .absent, rfl⟩
  -- lists and records
  · cases h
    refine .inr ⟨_, .list ?_, rfl⟩
    simp
  · cases h
    exact .inr ⟨_, .object (hempty _) (by simp), rfl⟩
  · cases h
    exact .inr ⟨_, .tuple (by simp [SlotsAdmit]), rfl⟩
  · cases h

/-- A key that is taken is followed by a colon. -/
theorem feedKey_cases (h : feedKey f stack t = .ok q) :
    ∃ key keyed, f.key key = .ok keyed ∧ q = inside (keyed :: stack) .colon := by
  cases t with
  | text key =>
    rcases map_eq_ok_iff.mp h with ⟨keyed, hkey, rfl⟩
    exact ⟨key, keyed, hkey, rfl⟩
  | _ => cases h

/-- All that a token can do. Where a value is expected, it belongs to the value. Between the values
it closes the innermost document, is a key of it, or leads to its next key or value. -/
theorem feed_cases (h : p.feed t = .ok q) :
    (∃ stack shape, p.Expects stack shape ∧ feedValue stack shape t = .ok q) ∨
      ∃ f stack want, p = inside (f :: stack) want ∧ (∀ shape, want ≠ .value shape) ∧
        ((∃ d, f.value = .ok d ∧ q = deliver d stack) ∨
          (∃ key keyed, f.key key = .ok keyed ∧ q = inside (keyed :: stack) .colon) ∨
          q = inside (f :: stack) .key ∨
          ∃ shape, f.nextShape? = some shape ∧ q = inside (f :: stack) (.value shape)) := by
  -- a bracket that closes hands over the frame's value
  have hclose {f : Frame} {stack : List Frame} (h : f.value.map (deliver · stack) = .ok q) :
      ∃ d, f.value = .ok d ∧ q = deliver d stack := by
    rcases map_eq_ok_iff.mp h with ⟨d, hvalue, rfl⟩
    exact ⟨d, hvalue, rfl⟩
  unfold feed at h
  split at h
  · -- a first item, or the end of an empty frame
    exact .inl ⟨_, _, .value _ _, h⟩
  · next f stack =>
    split at h
    · exact .inr ⟨f, stack, _, rfl, nofun, .inl (hclose h)⟩
    · split at h
      · exact .inr ⟨f, stack, _, rfl, nofun, .inr (.inl (feedKey_cases h))⟩
      · next hkeys =>
        split at h
        · next shape hnext =>
          exact .inl ⟨_, shape, .first stack (eq_false_of_ne_true hkeys) hnext, h⟩
        · cases h
  · -- after an item
    next f stack =>
    split at h
    · exact .inr ⟨f, stack, _, rfl, nofun, .inl (hclose h)⟩
    · split at h
      · split at h
        · cases h
          exact .inr ⟨f, stack, _, rfl, nofun, .inr (.inr (.inl rfl))⟩
        · split at h
          · next shape hnext =>
            cases h
            exact .inr ⟨f, stack, _, rfl, nofun, .inr (.inr (.inr ⟨shape, hnext, rfl⟩))⟩
          · cases h
      · cases h
  · -- a key, then a colon
    next f stack => exact .inr ⟨f, stack, _, rfl, nofun, .inr (.inl (feedKey_cases h))⟩
  · next f stack =>
    split at h
    · next shape hnext =>
      cases h
      exact .inr ⟨f, stack, _, rfl, nofun, .inr (.inr (.inr ⟨shape, hnext, rfl⟩))⟩
    · cases h
  · cases h

/-! ## What has been read fits -/

/-- Each document on the stack suits what the one around it expects, the outermost the whole shape;
inside of the innermost a value of the shape comes next. -/
inductive Nests (whole : Shape) : List Frame → Shape → Prop where
  | outside : Nests whole [] whole
  | inside {f : Frame} {stack : List Frame} {outer shape : Shape} (hf : f.Builds outer)
      (hnext : f.nextShape? = some shape) (hstack : Nests whole stack outer) :
      Nests whole (f :: stack) shape

/-- What has been read so far suits a value of the whole shape. -/
def Fits (whole : Shape) : Place → Prop
  | inside stack (.value shape) => Nests whole stack shape
  | inside [] _ => True
  | inside (f :: stack) _ => ∃ outer, f.Builds outer ∧ Nests whole stack outer
  | finished d => whole.Keeps d

theorem fits_inside {want : Want} (hwant : ∀ shape, want ≠ .value shape) :
    (inside (f :: stack) want).Fits whole ↔ ∃ outer, f.Builds outer ∧ Nests whole stack outer := by
  cases want with
  | value shape => exact absurd rfl (hwant shape)
  | _ => exact Iff.rfl

theorem Expects.nests (h : p.Expects stack shape) (hp : p.Fits whole) : Nests whole stack shape := by
  cases h with
  | value => exact hp
  | first stack _ hnext =>
    rcases hp with ⟨outer, hf, hstack⟩
    exact .inside hf hnext hstack

theorem fits_deliver (h : Nests whole stack shape) {d : Datum} (hd : shape.Keeps d) :
    (deliver d stack).Fits whole := by
  cases h with
  | outside => exact hd
  | inside hf hnext hstack => exact ⟨_, hf.add hnext hd, hstack⟩

/-- What has been read still fits behind a further token. -/
theorem isKept_fits (whole : Shape) : IsKept (Fits whole) := by
  intro p q t hp ht h
  rcases feed_cases h with ⟨stack, shape, hexpects, h⟩ | ⟨f, stack, want, rfl, hwant, h⟩
  · have hstack := hexpects.nests hp
    rcases feedValue_cases h with ⟨d, hd, rfl⟩ | ⟨f, hf, rfl⟩
    · exact fits_deliver hstack (hd ht)
    · exact ⟨shape, hf, hstack⟩
  · rcases (fits_inside hwant).mp hp with ⟨outer, hf, hstack⟩
    rcases h with ⟨d, hvalue, rfl⟩ | ⟨key, keyed, hkey, rfl⟩ | rfl | ⟨shape, hnext, rfl⟩
    · exact fits_deliver hstack (hf.keeps_value hvalue)
    · exact ⟨outer, hf.key hkey, hstack⟩
    · exact ⟨outer, hf, hstack⟩
    · exact .inside hf hnext hstack

end Place

/-- Whatever is read as a value of a shape is a value of this shape. -/
theorem take_admits {shape : Shape} (hshape : shape.IsTyped) {text rest : List Char} {d : Datum}
    (h : (Scan.start shape).take text = .ok (d, rest)) : shape.Admits d := by
  have hstart : Place.Fits shape (.inside [] (.value shape)) := Place.Nests.outside
  exact Scan.kept_take (Place.isKept_fits shape) (Scan.holds_idle hstart) h hshape

end SyntaxTrees.Json

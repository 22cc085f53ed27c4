import Mathlib.Tactic.SplitIfs
import SyntaxTrees.Json.Native.Reader
import SyntaxTrees.Proofs.Json.Native.Numeral

/-!
# Steps of the reader

The reader goes from place to place with every token, but it sees characters. A numeral ends only when
the next character is seen: `Scan.At` counts it as read as soon as it may end. A scan is unbroken if
the text might end there, or would end too early but not be wrong (`Scan.IsUnbroken`); so are all scans
that are at a place, and those inside of words and quoted texts.
-/

namespace SyntaxTrees.Json

open Text

/-! ## Steps that succeed -/

theorem bind_eq_ok_iff {α β : Type} {x : Except Fault α} {f : α → Except Fault β} {b : β} :
    x >>= f = .ok b ↔ ∃ a, x = .ok a ∧ f a = .ok b := by
  cases x with
  | error fault => exact ⟨nofun, nofun⟩
  | ok a => exact ⟨fun h => ⟨a, rfl, h⟩, fun ⟨_, ha, h⟩ => Except.ok.inj ha ▸ h⟩

theorem map_eq_ok_iff {α β : Type} {x : Except Fault α} {f : α → β} {b : β} :
    x.map f = .ok b ↔ ∃ a, x = .ok a ∧ f a = b := by
  cases x with
  | error fault => exact ⟨nofun, nofun⟩
  | ok a => simp [Except.map]

/-! ## Places of a scan -/

/-- The character does not go on with a numeral that may end before it. -/
def EndsNumeral (c : Char) : Prop :=
  c.isDigit = false ∧ c ≠ '.' ∧ NumeralPart.opensExponent c = false

instance (c : Char) : Decidable (EndsNumeral c) := inferInstanceAs (Decidable (_ ∧ _ ∧ _))

theorem EndsNumeral.step_eq {c : Char} (h : EndsNumeral c) {part : NumeralPart}
    (hpart : part.isComplete) : part.step c = .complete := by
  rcases h with ⟨hdigit, hpoint, hexponent⟩
  cases part <;> simp_all [NumeralPart.step, NumeralPart.isComplete]

namespace Scan

/-- The scan is at a place: no token is under way, or only a numeral that may end here and then leads
to the place. -/
inductive At : Scan → Place → Prop where
  | idle (p : Place) : At { place := p } p
  | numeral {p q : Place} {part : NumeralPart} {read : List Char} (hpart : part.isComplete)
      (hemit : emitNumeral p read.reverse = .ok { place := q }) :
      At { place := p, lexeme := .numeral part read } q

/-- If the text ended here, it would be complete or end too early. -/
def IsUnbroken (s : Scan) : Prop := ∀ fault, s.finish = .error fault → fault = .truncated

end Scan

namespace Place

variable {p q : Place}

theorem feedValue_number {stack : List Frame} {shape : Shape} {value : Option Nat}
    (h : feedValue stack shape (.number value) = .ok q) : ∃ d, q = deliver d stack := by
  cases shape with
  | anything lenient =>
    cases h
    exact ⟨_, rfl⟩
  | number =>
    cases value with
    | none => cases h
    | some n =>
      cases h
      exact ⟨_, rfl⟩
  | _ => cases h

/-- A number leads to the place behind a value, if it leads anywhere. -/
theorem feed_number {value : Option Nat} (h : p.feed (.number value) = .ok q) :
    ∃ d stack want, p = inside stack want ∧ q = deliver d stack := by
  -- a number closes no document and is no key, so it is taken as a value or not at all
  have hcloser : ∀ f : Frame, Token.number value ≠ f.closer := by
    intro f
    rw [Frame.closer]
    split <;> exact Token.noConfusion
  cases p with
  | finished d => cases h
  | inside stack want =>
    cases want with
    | value shape =>
      rcases feedValue_number h with ⟨d, rfl⟩
      exact ⟨d, stack, _, rfl, rfl⟩
    | first =>
      cases stack with
      | nil => cases h
      | cons f stack =>
        rw [feed, if_neg (hcloser f)] at h
        split at h
        · cases h
        · split at h
          · rcases feedValue_number h with ⟨d, rfl⟩
            exact ⟨d, _, _, rfl, rfl⟩
          · cases h
    | next =>
      cases stack with
      | nil => cases h
      | cons f stack =>
        rw [feed, if_neg (hcloser f)] at h
        cases h
    | key => cases stack <;> cases h
    | colon => cases stack <;> cases h

end Place

namespace Scan

variable {s : Scan} {p q : Place}

/-- A character that ends numerals is read at the place of the scan. -/
theorem At.step_eq (h : s.At p) {c : Char} (hc : EndsNumeral c) : s.step c = stepIdle p c := by
  cases h with
  | idle => rfl
  | numeral hpart hemit =>
    rw [step]
    simp only [hc.step_eq hpart, hemit]
    rfl

theorem place_of_emit {t : Token} (h : emit p t = .ok { place := q }) : p.feed t = .ok q := by
  rcases map_eq_ok_iff.mp h with ⟨r, hfeed, hr⟩
  cases hr
  exact hfeed

theorem emitNumeral_idle {numeral : List Char} (h : emitNumeral p numeral = .ok s) :
    ∃ q, s = { place := q } := by
  unfold emitNumeral at h
  split at h
  · cases h
  · rcases map_eq_ok_iff.mp h with ⟨q, -, rfl⟩
    exact ⟨q, rfl⟩

/-- At the end of the text it does not matter whether a numeral is under way. -/
theorem At.finish_idle (h : s.At p) : s.finish = finish { place := p } := by
  cases h with
  | idle => rfl
  | numeral hpart hemit =>
    rw [finish]
    simp only [hpart, if_true, hemit]
    rfl

/-! ### Unbroken scans -/

theorem At.isUnbroken (h : s.At p) : s.IsUnbroken := by
  intro fault hfault
  rw [h.finish_idle] at hfault
  cases p with
  | finished d => cases hfault
  | inside stack want =>
    cases hfault
    rfl

theorem isUnbroken_word {p : Place} {rest : List Char} {t : Token} :
    IsUnbroken { place := p, lexeme := .word rest t } := by
  intro fault hfault
  cases p <;> cases hfault <;> rfl

theorem isUnbroken_quoted {p : Place} {part : QuotedPart} {kept : List Char} :
    IsUnbroken { place := p, lexeme := .quoted part kept } := by
  intro fault hfault
  cases p <;> cases hfault <;> rfl

end Scan

/-! ## Characters that begin a token -/

namespace Place

variable {p : Place}

theorem endsNumeral_of_isBlank {c : Char} (h : isBlank c) : EndsNumeral c := by
  have hcases : c = ' ' ∨ c = '\n' ∨ c = '\t' ∨ c = '\r' := by
    simpa [isBlank, or_assoc] using h
  rcases hcases with rfl | rfl | rfl | rfl <;> decide

theorem punctuation_cases {c : Char} {t : Token} (h : punctuation? c = some t) :
    EndsNumeral c ∧ ¬isBlank c := by
  unfold punctuation? at h
  split at h
  any_goals decide
  cases h

theorem word_cases {c : Char} {rest : List Char} {t : Token}
    (h : Scan.word? c = some (rest, t)) :
    EndsNumeral c ∧ rest ≠ [] ∧ ∀ p : Place, p.takesValue →
      Scan.stepIdle p c = .ok { place := p, lexeme := .word rest t } := by
  unfold Scan.word? at h
  split at h
  any_goals
    cases h
    refine ⟨by decide, by decide, fun p hp => ?_⟩
    simp [Scan.stepIdle, isBlank, punctuation?, hp, Scan.word?]
  cases h

theorem stepIdle_digit {c : Char} (hp : p.takesValue) (hc : c.isDigit) (hzero : c ≠ '0') :
    Scan.stepIdle p c = .ok { place := p, lexeme := .numeral .whole [c] } := by
  -- a digit is none of the other marks
  have hne : ∀ d : Char, d.isDigit = false → c ≠ d := by
    rintro d hd rfl
    rw [hc] at hd
    cases hd
  have hblank : isBlank c = false := by
    simp [isBlank, hne ' ' rfl, hne '\n' rfl, hne '\t' rfl, hne '\r' rfl]
  have hpunctuation : punctuation? c = none := by
    unfold punctuation?
    split
    all_goals first
      | rfl
      | exact absurd hc (by decide)
  simp [Scan.stepIdle, hblank, hpunctuation, hp, hc, hzero, hne '"' rfl, hne '-' rfl]

theorem stepIdle_zero (hp : p.takesValue) :
    Scan.stepIdle p '0' = .ok { place := p, lexeme := .numeral .zero ['0'] } := by
  simp [Scan.stepIdle, isBlank, punctuation?, hp]

theorem stepIdle_quote (hstart : p.takesValue ∨ p.takesKey) :
    Scan.stepIdle p '"' = .ok { place := p, lexeme := .quoted .plain [] } := by
  rcases hstart with hvalue | hkey
  · simp [Scan.stepIdle, isBlank, punctuation?, hvalue]
  · simp [Scan.stepIdle, isBlank, punctuation?, hkey]

end Place

end SyntaxTrees.Json

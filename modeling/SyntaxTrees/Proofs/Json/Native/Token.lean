import SyntaxTrees.Proofs.Json.Native.Reader

/-!
# Outcomes of tokens

The outcome of a scan and the characters that follow it is what is read from there on, if anything
(`Scan.outcome`). Where a token is spelt, the outcome is that of the characters behind it at the place
that the token leads to; there is one lemma for each kind of token. A strict outcome asks more: every
scan on the way has to be unbroken. Only numerals with a sign, a fraction or an exponent make a
difference there.
-/

namespace SyntaxTrees.Json

open Text

/-- What follows a value in the text of a document: a mark, a blank or nothing. -/
def Separates (cs : List Char) : Prop := ∀ c ∈ cs.head?, EndsNumeral c

theorem toOption_bind {α β : Type} (x : Except Fault α) (f : α → Except Fault β) :
    (x >>= f).toOption = x.toOption.bind fun a => (f a).toOption := by
  cases x <;> rfl

theorem toOption_map {α β : Type} (x : Except Fault α) (f : α → β) :
    (x.map f).toOption = x.toOption.map f := by
  cases x <;> rfl

namespace Scan

variable {s : Scan} {p : Place} {rest : List Char}

instance (s : Scan) : Decidable s.IsUnbroken :=
  match h : s.finish with
  | .ok d => .isTrue fun fault hfault => by rw [h] at hfault; cases hfault
  | .error fault => decidable_of_iff (fault = .truncated) (by simp [IsUnbroken, h])

/-- What is read from the characters that follow a scan, if anything. A strict reader goes on from
unbroken scans only. -/
def outcome (strict : Bool) (s : Scan) : List Char → Option Datum
  | [] => s.finish.toOption
  | c :: cs =>
    if strict → s.IsUnbroken then (s.step c).toOption.bind (outcome strict · cs) else none

variable {strict : Bool}

theorem outcome_cons (h : s.IsUnbroken) (c : Char) (cs : List Char) :
    s.outcome strict (c :: cs) = (s.step c).toOption.bind (outcome strict · cs) :=
  if_pos fun _ => h

theorem outcome_false_cons (s : Scan) (c : Char) (cs : List Char) :
    s.outcome false (c :: cs) = (s.step c).toOption.bind (outcome false · cs) :=
  if_pos fun hstrict => absurd hstrict Bool.false_ne_true

theorem outcome_eq_foldlM (s : Scan) (cs : List Char) :
    s.outcome false cs = (cs.foldlM step s >>= finish).toOption := by
  induction cs generalizing s with
  | nil => rfl
  | cons c cs ih =>
    rw [outcome_false_cons, List.foldlM_cons, bind_assoc, toOption_bind]
    exact congrArg _ (funext ih)

theorem outcome_append {cs : List Char} {m : Scan} (h : cs.foldlM step s = .ok m) :
    s.outcome false (cs ++ rest) = m.outcome false rest := by
  rw [outcome_eq_foldlM, outcome_eq_foldlM, List.foldlM_append, h]
  rfl

/-- What is read strictly is read. -/
theorem outcome_of_strict {cs : List Char} {d : Datum} (h : s.outcome true cs = some d) :
    s.outcome false cs = some d := by
  induction cs generalizing s with
  | nil => exact h
  | cons c cs ih =>
    rw [outcome] at h
    split at h
    · rcases Option.bind_eq_some_iff.mp h with ⟨m, hstep, hrest⟩
      rw [outcome_false_cons, hstep]
      exact ih hrest
    · cases h

/-- A text that is read strictly, cut short anywhere, is complete there or ends too early. -/
theorem isUnbroken_of_strict {front back : List Char} {d : Datum}
    (h : s.outcome true (front ++ back) = some d) :
    ∃ m, front.foldlM step s = .ok m ∧ m.IsUnbroken := by
  induction front generalizing s with
  | nil =>
    refine ⟨s, rfl, ?_⟩
    -- nothing is left of the front, so strictness speaks of this very place
    cases back with
    | nil =>
      intro fault hfault
      rw [List.append_nil, outcome, hfault] at h
      cases h
    | cons c back =>
      rw [List.nil_append, outcome] at h
      split at h
      · next hs => exact hs rfl
      · cases h
  -- the step succeeds, since the outcome is a value
  | cons c front ih =>
    rw [List.cons_append, outcome] at h
    split at h
    · rcases Option.bind_eq_some_iff.mp h with ⟨m, hstep, hrest⟩
      rcases ih hrest with ⟨m', hrun, hm'⟩
      refine ⟨m', ?_, hm'⟩
      cases hs : s.step c with
      | error fault =>
        rw [hs] at hstep
        cases hstep
      | ok m'' =>
        rw [hs] at hstep
        cases hstep
        rw [List.foldlM_cons, hs]
        exact hrun
    · cases h

/-- Before a separator it does not matter whether a numeral is under way. -/
theorem At.outcome_eq (h : s.At p) (hrest : Separates rest) :
    s.outcome strict rest = outcome strict { place := p } rest := by
  cases rest with
  | nil =>
    rw [outcome, outcome, h.finish_idle]
  | cons c rest =>
    have hidle : At { place := p } p := .idle p
    rw [outcome_cons h.isUnbroken, outcome_cons hidle.isUnbroken, h.step_eq (hrest c rfl)]
    rfl

end Scan

namespace Place

open Rule

variable {p : Place} {cs rest : List Char}

/-- What is read from the characters that follow a place, if anything. -/
def outcome (strict : Bool) (p : Place) (cs : List Char) : Option Datum :=
  Scan.outcome strict { place := p } cs

variable {strict : Bool}

theorem outcome_cons (c : Char) :
    p.outcome strict (c :: cs) = (Scan.stepIdle p c).toOption.bind (Scan.outcome strict · cs) :=
  Scan.outcome_cons (Scan.At.idle p).isUnbroken c cs

theorem outcome_emit (p : Place) (t : Token) (cs : List Char) :
    (Scan.emit p t).toOption.bind (Scan.outcome strict · cs) =
      (p.feed t).toOption.bind (outcome strict · cs) := by
  rw [Scan.emit, toOption_map, Option.bind_map]
  rfl

/-! ### Gaps and marks -/

theorem outcome_gap {gap : List Char} (h : Gap gap) :
    p.outcome strict (gap ++ rest) = p.outcome strict rest := by
  induction gap with
  | nil => rfl
  | cons c gap ih =>
    have hstep : Scan.stepIdle p c = .ok { place := p } := if_pos (h c List.mem_cons_self)
    rw [List.cons_append, outcome_cons, hstep]
    exact ih fun d hd => h d (List.mem_cons_of_mem c hd)

theorem separates_gap {gap : List Char} (h : Gap gap) (hrest : Separates rest) :
    Separates (gap ++ rest) := by
  cases gap with
  | nil => exact hrest
  | cons c gap =>
    rintro _ ⟨⟩
    exact endsNumeral_of_isBlank (h c List.mem_cons_self)

theorem separates_mark {c : Char} {t : Token} (h : punctuation? c = some t) :
    Separates (c :: rest) := by
  rintro _ ⟨⟩
  exact (punctuation_cases h).1

theorem outcome_mark {c : Char} {t : Token} (h : punctuation? c = some t) :
    p.outcome strict (c :: rest) = (p.feed t).toOption.bind (outcome strict · rest) := by
  have hstep : Scan.stepIdle p c = Scan.emit p t := by
    rw [Scan.stepIdle, if_neg (punctuation_cases h).2, h]
  rw [outcome_cons, hstep, outcome_emit]

/-! ### Words -/

theorem outcome_rest {t : Token} (hcs : cs ≠ []) :
    Scan.outcome strict { place := p, lexeme := .word cs t } (cs ++ rest) =
      (p.feed t).toOption.bind (outcome strict · rest) := by
  induction cs with
  | nil => exact absurd rfl hcs
  | cons c cs ih =>
    rw [List.cons_append, Scan.outcome_cons Scan.isUnbroken_word]
    -- the last letter of the word emits it
    cases cs with
    | nil =>
      rw [← outcome_emit]
      simp [Scan.step]
    -- one before the last
    | cons d cs =>
      have hstep : Scan.step { place := p, lexeme := .word (c :: d :: cs) t } c =
          .ok { place := p, lexeme := .word (d :: cs) t } := by
        simp [Scan.step]
      rw [hstep]
      exact ih (List.cons_ne_nil d cs)

theorem outcome_word {c : Char} {t : Token} (h : Scan.word? c = some (cs, t)) (hp : p.takesValue) :
    p.outcome strict (c :: (cs ++ rest)) = (p.feed t).toOption.bind (outcome strict · rest) := by
  rcases word_cases h with ⟨-, hcs, hstart⟩
  rw [outcome_cons, hstart p hp]
  exact outcome_rest hcs

end Place

/-! ### Numerals -/

namespace NumeralPart

/-- The characters lead from one part of a numeral to another. -/
inductive Leads : NumeralPart → List Char → NumeralPart → Prop where
  | done (part : NumeralPart) : Leads part [] part
  | more {part next last : NumeralPart} {c : Char} {cs : List Char}
      (hstep : part.step c = .more next) (hrest : Leads next cs last) : Leads part (c :: cs) last

variable {part next last : NumeralPart} {cs ds : List Char}

theorem Leads.append (h : Leads part cs next) (h' : Leads next ds last) :
    Leads part (cs ++ ds) last := by
  induction h with
  | done => exact h'
  | more hstep _ ih => exact .more hstep (ih h')

/-- A scan follows the parts of a numeral. -/
theorem Leads.foldlM_eq (h : Leads part cs last) (p : Place) (read : List Char) :
    cs.foldlM Scan.step { place := p, lexeme := .numeral part read } =
      .ok { place := p, lexeme := .numeral last (cs.reverse ++ read) } := by
  induction h generalizing read with
  | done => rfl
  | @more part next last c cs hstep _ ih =>
    have hscan : Scan.step { place := p, lexeme := .numeral part read } c =
        .ok { place := p, lexeme := .numeral next (c :: read) } := by
      simp [Scan.step, hstep]
    rw [List.foldlM_cons, hscan, List.reverse_cons, List.append_assoc]
    exact ih (c :: read)

open Rule

/-- Digits lead to a part that further digits do not leave. -/
theorem leads_digits (h : Digits cs) (hfirst : ∀ c : Char, c.isDigit → part.step c = .more next)
    (hmore : ∀ c : Char, c.isDigit → next.step c = .more next) : Leads part cs next := by
  -- digits leave the part of digits where it is
  have hall : ∀ ds : List Char, (∀ c ∈ ds, c.isDigit) → Leads next ds next := by
    intro ds hds
    induction ds with
    | nil => exact .done next
    | cons d ds ih =>
      exact .more (hmore d (hds d List.mem_cons_self))
        (ih fun c hc => hds c (List.mem_cons_of_mem d hc))
  rcases h with ⟨hne, hdigits⟩
  cases cs with
  | nil => exact absurd rfl hne
  | cons c cs =>
    exact .more (hfirst c (hdigits c List.mem_cons_self))
      (hall cs fun d hd => hdigits d (List.mem_cons_of_mem c hd))

theorem leads_whole (h : Whole cs) :
    ∃ last, Leads .sign cs last ∧ (last = .zero ∨ last = .whole) := by
  rcases h with rfl | ⟨⟨hne, hdigits⟩, hzero⟩
  · exact ⟨.zero, .more rfl (.done _), .inl rfl⟩
  · -- no leading zero, so the first digit opens the whole part
    cases cs with
    | nil => exact absurd rfl hne
    | cons c cs =>
      have hc : c ≠ '0' := by
        rintro rfl
        exact hzero rfl
      have hstep : NumeralPart.sign.step c = .more .whole := by
        simp [step, hc, hdigits c List.mem_cons_self]
      have hdigit : ∀ d : Char, d.isDigit → NumeralPart.whole.step d = .more .whole := by
        intro d hd
        simp [step, hd]
      refine ⟨.whole, .more hstep ?_, .inr rfl⟩
      cases cs with
      | nil => exact .done _
      | cons d cs =>
        have hrest : Digits (d :: cs) :=
          ⟨List.cons_ne_nil d cs, fun e he => hdigits e (List.mem_cons_of_mem c he)⟩
        exact leads_digits hrest hdigit hdigit

theorem leads_fraction (hpart : part = .zero ∨ part = .whole) (h : Fraction cs) :
    ∃ last, Leads part cs last ∧ (last = .zero ∨ last = .whole ∨ last = .fraction) := by
  rcases h with rfl | ⟨digits, rfl, hdigits⟩
  · exact ⟨part, .done part, hpart.imp_right .inl⟩
  · have hpoint : part.step '.' = .more .point := by
      rcases hpart with rfl | rfl <;> rfl
    have hrest : Leads .point digits .fraction := by
      apply leads_digits hdigits <;> intro c hc <;> simp [step, hc]
    exact ⟨.fraction, .more hpoint hrest, .inr (.inr rfl)⟩

theorem leads_exponent (hpart : part = .zero ∨ part = .whole ∨ part = .fraction) (h : Exponent cs) :
    ∃ last, Leads part cs last ∧ last.isComplete := by
  rcases h with rfl | ⟨mark, sign, digits, rfl, hmark, hsign, hdigits⟩
  · refine ⟨part, .done part, ?_⟩
    rcases hpart with rfl | rfl | rfl <;> rfl
  · -- `e` or `E` may follow a zero, a whole part and a fraction
    have hopen : part.step mark = .more .exponent := by
      rcases hmark with rfl | rfl <;> rcases hpart with rfl | rfl | rfl <;> rfl
    have hstay : ∀ c : Char, c.isDigit → exponentDigits.step c = .more .exponentDigits := by
      intro c hc
      simp [step, hc]
    have hsigned : Leads .exponentSign digits .exponentDigits := by
      apply leads_digits hdigits _ hstay
      intro c hc
      simp [step, hc]
    refine ⟨.exponentDigits, .more hopen ?_, rfl⟩
    -- no sign, a plus, a minus
    rcases hsign with rfl | rfl | rfl
    · apply leads_digits hdigits _ hstay
      intro c hc
      have hplus : c ≠ '+' := by
        rintro rfl
        cases hc
      have hminus : c ≠ '-' := by
        rintro rfl
        cases hc
      simp [step, hc, hplus, hminus]
    · exact .more rfl hsigned
    · exact .more rfl hsigned

end NumeralPart

namespace Place

open Rule

variable {p : Place} {cs rest : List Char}

/-- A numeral starts outside of all tokens as it goes on behind a sign. -/
theorem stepIdle_unsigned {c : Char} {part : NumeralPart} (hp : p.takesValue)
    (h : NumeralPart.sign.step c = .more part) :
    Scan.stepIdle p c = .ok { place := p, lexeme := .numeral part [c] } := by
  unfold NumeralPart.step at h
  dsimp only at h
  split at h
  · -- a zero by itself
    next hzero =>
    cases h
    cases eq_of_beq hzero
    exact stepIdle_zero hp
  · -- or a first digit
    next hzero =>
    split at h
    · next hdigit =>
      cases h
      exact stepIdle_digit hp hdigit (by simpa using hzero)
    · cases h

theorem stepIdle_minus (hp : p.takesValue) :
    Scan.stepIdle p '-' = .ok { place := p, lexeme := .numeral .sign ['-'] } := by
  simp [Scan.stepIdle, isBlank, punctuation?, hp]

/-- A numeral is read as a whole, and may end where it ends. -/
theorem foldlM_numeral (h : Numeral cs) (hp : p.takesValue) :
    ∃ part : NumeralPart, part.isComplete ∧
      cs.foldlM Scan.step { place := p } =
        .ok { place := p, lexeme := .numeral part cs.reverse } := by
  rcases h with ⟨hsign, hwhole, hfraction, hexponent⟩
  rename_i sign whole fraction exponent
  rcases NumeralPart.leads_whole hwhole with ⟨part₁, hlead₁, hpart₁⟩
  rcases NumeralPart.leads_fraction hpart₁ hfraction with ⟨part₂, hlead₂, hpart₂⟩
  rcases NumeralPart.leads_exponent hpart₂ hexponent with ⟨part, hlead₃, hpart⟩
  have hlead := hlead₁.append (hlead₂.append hlead₃)
  refine ⟨part, hpart, ?_⟩
  -- the sign, if there is one, only opens the numeral
  rcases hsign with rfl | rfl
  · rw [List.nil_append]
    generalize whole ++ (fraction ++ exponent) = unsigned at hlead
    cases hlead with
    | done => cases hpart
    | more hstep hrest =>
      have hstart : Scan.step { place := p } _ = _ := stepIdle_unsigned hp hstep
      rw [List.foldlM_cons, hstart, List.reverse_cons]
      exact hrest.foldlM_eq p _
  · have hstart : Scan.step { place := p } '-' = _ := stepIdle_minus hp
    rw [List.singleton_append, List.foldlM_cons, hstart, List.reverse_cons]
    exact hlead.foldlM_eq p ['-']

theorem at_numeral {q : Place} {part : NumeralPart} (hpart : part.isComplete)
    (h : Scan.emitNumeral p cs = .ok { place := q }) :
    Scan.At { place := p, lexeme := .numeral part cs.reverse } q := by
  apply Scan.At.numeral hpart
  rwa [List.reverse_reverse]

/-- Where a numeral may end and does, its value leads on. -/
theorem outcome_numeralEnd {part : NumeralPart} {s : Scan} (hpart : part.isComplete)
    (hrest : Separates rest) (h : Scan.emitNumeral p cs = .ok s) :
    Scan.outcome strict { place := p, lexeme := .numeral part cs.reverse } rest =
      s.outcome strict rest := by
  rcases Scan.emitNumeral_idle h with ⟨q, rfl⟩
  exact (at_numeral hpart h).outcome_eq hrest

theorem outcome_numeral (h : Numeral cs) (hp : p.takesValue) (hrest : Separates rest) :
    p.outcome false (cs ++ rest) =
      (Scan.emitNumeral p cs).toOption.bind (Scan.outcome false · rest) := by
  rcases foldlM_numeral h hp with ⟨part, hpart, hrun⟩
  rw [outcome, Scan.outcome_append hrun]
  rcases hemit : Scan.emitNumeral p cs with fault | s
  · -- the numeral is at fault where it ends, with the text or before the next character
    cases rest with
    | nil =>
      have hfinish :
          Scan.finish { place := p, lexeme := .numeral part cs.reverse } = .error fault := by
        simp only [Scan.finish, hpart, if_true, List.reverse_reverse, hemit]
        rfl
      rw [Scan.outcome, hfinish]
      rfl
    | cons c rest =>
      have hstep : Scan.step { place := p, lexeme := .numeral part cs.reverse } c = .error fault := by
        simp only [Scan.step, (hrest c rfl).step_eq hpart, List.reverse_reverse, hemit]
        rfl
      rw [Scan.outcome_false_cons, hstep]
      rfl
  · exact outcome_numeralEnd hpart hrest hemit

/-- Digits go on with a numeral that may end before and behind each of them. -/
theorem outcome_digits {digits : List Char} {s : Scan} (front : List Char)
    (hdigits : ∀ c ∈ digits, c.isDigit)
    (h : ∀ more back, digits = more ++ back → ∃ s, Scan.emitNumeral p (front ++ more) = .ok s)
    (hend : Scan.emitNumeral p (front ++ digits) = .ok s) (hrest : Separates rest) :
    Scan.outcome strict { place := p, lexeme := .numeral .whole front.reverse } (digits ++ rest) =
      s.outcome strict rest := by
  have hcomplete : NumeralPart.whole.isComplete := rfl
  induction digits generalizing front with
  | nil =>
    rw [List.append_nil] at hend
    exact outcome_numeralEnd hcomplete hrest hend
  | cons c digits ih =>
    have hc : c.isDigit := hdigits c List.mem_cons_self
    have hstep : Scan.step { place := p, lexeme := .numeral .whole front.reverse } c =
        .ok { place := p, lexeme := .numeral .whole (front ++ [c]).reverse } := by
      simp [Scan.step, NumeralPart.step, hc]
    -- the numeral may end here, so the scan is unbroken
    have hhere : Scan.IsUnbroken { place := p, lexeme := .numeral .whole front.reverse } := by
      rcases h [] _ rfl with ⟨s, hs⟩
      rcases Scan.emitNumeral_idle hs with ⟨q, rfl⟩
      rw [List.append_nil] at hs
      exact (at_numeral hcomplete hs).isUnbroken
    rw [List.cons_append, Scan.outcome_cons hhere, hstep]
    apply ih
    · exact fun d hd => hdigits d (List.mem_cons_of_mem c hd)
    · rintro more back rfl
      have hmore := h (c :: more) back rfl
      rwa [List.append_cons] at hmore
    · rwa [List.append_cons] at hend

/-- The numeral of a natural number is read strictly, too, if it may end behind each of its digits. -/
theorem outcome_natural {n : Nat} {s : Scan} (hp : p.takesValue)
    (h : ∀ c front back, (toString n).toList = (c :: front) ++ back →
      ∃ s, Scan.emitNumeral p (c :: front) = .ok s)
    (hend : Scan.emitNumeral p (toString n).toList = .ok s) (hrest : Separates rest) :
    p.outcome strict ((toString n).toList ++ rest) = s.outcome strict rest := by
  rw [toList_toString] at h hend ⊢
  -- zero is one digit; else the first digit is no zero
  rcases Nat.eq_zero_or_pos n with rfl | hpos
  · have hcomplete : NumeralPart.zero.isComplete := rfl
    show p.outcome strict ('0' :: rest) = _
    rw [outcome_cons, stepIdle_zero hp]
    exact outcome_numeralEnd hcomplete hrest hend
  · rcases toDigits_eq_cons hpos with ⟨c, digits, hsplit, hc⟩
    have hdigits : ∀ d ∈ c :: digits, d.isDigit :=
      fun d hd => isDigit_of_mem_toDigits (hsplit ▸ hd)
    rw [hsplit] at h hend ⊢
    rw [List.cons_append, outcome_cons, stepIdle_digit hp (hdigits c List.mem_cons_self) hc]
    refine outcome_digits [c] (fun d hd => hdigits d (List.mem_cons_of_mem c hd)) ?_ hend hrest
    rintro more back rfl
    exact h c more back rfl

/-! ### Quoted texts -/

/-- Inside a quoted text the scan follows the automaton of quoted texts. -/
theorem outcome_inside {part next : QuotedPart} {kept kept' : List Char} {c : Char}
    (h : part.step p.lenient kept c = .more next kept') :
    Scan.outcome strict { place := p, lexeme := .quoted part kept } (c :: rest) =
      Scan.outcome strict { place := p, lexeme := .quoted next kept' } rest := by
  have hstep : Scan.step { place := p, lexeme := .quoted part kept } c =
      .ok { place := p, lexeme := .quoted next kept' } := by
    simp [Scan.step, h]
  rw [Scan.outcome_cons Scan.isUnbroken_quoted, hstep]
  rfl

theorem utf8Size_of_hexDigit? {c : Char} {n : Nat} (h : hexDigit? c = some n) :
    c.utf8Size = 1 := by
  -- hexadecimal digits are all at or below `f`
  have hsmall : c.toNat ≤ 'f'.toNat := by
    unfold hexDigit? at h
    split at h
    · next hc =>
      rw [Char.isDigit_iff_toNat] at hc
      exact Nat.le_trans hc.2 (by decide)
    · split at h
      · next hc =>
        simp only [Bool.and_eq_true, decide_eq_true_eq] at hc
        exact hc.2
      · split at h
        · next hc =>
          simp only [Bool.and_eq_true, decide_eq_true_eq] at hc
          exact Nat.le_trans (show c.toNat ≤ 'F'.toNat from hc.2) (by decide)
        · cases h
  have hascii : c.val ≤ 0x7f := Nat.le_trans hsmall (by decide)
  simp [Char.utf8Size, hascii]

theorem utf8Size_of_hexValue? {cs : List Char} {n : Nat} (h : hexValue? cs = some n) :
    ∀ c ∈ cs, c.utf8Size = 1 := by
  induction cs generalizing n with
  | nil => nofun
  | cons c cs ih =>
    rw [hexValue?, Option.bind_eq_bind] at h
    rcases Option.bind_eq_some_iff.mp h with ⟨m, hm, h⟩
    rcases Option.bind_eq_some_iff.mp h with ⟨d, hd, -⟩
    intro e he
    rcases List.mem_cons.mp he with rfl | he
    · exact utf8Size_of_hexDigit? hd
    · exact ih hm e he

/-- The digits of an escape are collected as long as they are fewer than four. -/
theorem outcome_digit {high : Option Nat} {read kept : List Char} {c : Char}
    (h : byteCount (c :: read) < 4) :
    Scan.outcome strict { place := p, lexeme := .quoted (.digits high read) kept } (c :: rest) =
      Scan.outcome strict { place := p, lexeme := .quoted (.digits high (c :: read)) kept } rest := by
  apply outcome_inside
  simp [QuotedPart.step, h]

/-- The digits of an escape are read as the code unit that they spell. -/
theorem outcome_codeUnit {digits kept kept' : List Char} {n : Nat} {high : Option Nat}
    {next : QuotedPart} (h : CodeUnit digits n)
    (hunit : stepUnit p.lenient high kept n = .more next kept') :
    Scan.outcome strict { place := p, lexeme := .quoted (.digits high []) kept } (digits ++ rest) =
      Scan.outcome strict { place := p, lexeme := .quoted next kept' } rest := by
  rcases h with ⟨hlength, hvalue⟩
  have hsize := utf8Size_of_hexValue? hvalue
  -- four digits of one byte each
  match digits, hlength with
  | [a, b, c, d], _ =>
    have ha : a.utf8Size = 1 := hsize a (by simp)
    have hb : b.utf8Size = 1 := hsize b (by simp)
    have hc : c.utf8Size = 1 := hsize c (by simp)
    have hd : d.utf8Size = 1 := hsize d (by simp)
    have hlast : QuotedPart.step p.lenient (.digits high [c, b, a]) kept d = .more next kept' := by
      have hvalue : hexValue? [d, c, b, a] = some n := hvalue
      simp [QuotedPart.step, byteCount, ha, hb, hc, hd, hvalue, hunit]
    show Scan.outcome strict _ (a :: b :: c :: d :: rest) = _
    rw [outcome_digit (by simp [byteCount, ha]), outcome_digit (by simp [byteCount, ha, hb]),
      outcome_digit (by simp [byteCount, ha, hb, hc]), outcome_inside hlast]

/-- An escape by number. -/
theorem outcome_escape {digits kept kept' : List Char} {n : Nat} {next : QuotedPart}
    (h : CodeUnit digits n) (hunit : stepUnit p.lenient none kept n = .more next kept') :
    Scan.outcome strict { place := p, lexeme := .quoted .plain kept } ('\\' :: 'u' :: (digits ++ rest)) =
      Scan.outcome strict { place := p, lexeme := .quoted next kept' } rest := by
  have hbackslash : QuotedPart.step p.lenient .plain kept '\\' = .more .escape kept := rfl
  have hletter : QuotedPart.step p.lenient .escape kept 'u' = .more (.digits none []) kept := rfl
  rw [outcome_inside hbackslash, outcome_inside hletter, outcome_codeUnit h hunit]

/-- A spelling of a character is read as this character, or if it is read leniently as whatever
stands for it. -/
theorem outcome_character {c : Char} {spelling : List Char} (h : Character c spelling)
    (kept : List Char) :
    ∃ kept', (p.lenient = false → kept' = c :: kept) ∧ ∀ rest,
      Scan.outcome strict { place := p, lexeme := .quoted .plain kept } (spelling ++ rest) =
        Scan.outcome strict { place := p, lexeme := .quoted .plain kept' } rest := by
  have hbackslash : QuotedPart.step p.lenient .plain kept '\\' = .more .escape kept := rfl
  cases h with
  -- a letter as it is
  | plain hquote hbackslash hcontrol =>
    have hstep : QuotedPart.step p.lenient .plain kept c = .more .plain (c :: kept) := by
      simp only [QuotedPart.step, if_neg hquote, if_neg hbackslash,
        if_neg (Nat.not_lt.mpr hcontrol)]
    exact ⟨c :: kept, fun _ => rfl, fun rest => outcome_inside hstep⟩
  -- a short escape
  | @letter c letter hletter =>
    have hu : letter ≠ 'u' := by
      rintro rfl
      cases hletter
    have hstep : QuotedPart.step p.lenient .escape kept letter = .more .plain (c :: kept) := by
      simp [QuotedPart.step, hu, hletter]
    refine ⟨c :: kept, fun _ => rfl, fun rest => ?_⟩
    exact (outcome_inside hbackslash).trans (outcome_inside hstep)
  -- an escape by number, which a lenient reader does not keep
  | @number digits n hdigits hhigh hlow =>
    cases hlenient : p.lenient with
    | true =>
      have hunit : stepUnit p.lenient none kept n = .more .plain kept := by
        simp [stepUnit, hlenient]
      exact ⟨kept, fun hp => Bool.noConfusion hp, fun rest => outcome_escape hdigits hunit⟩
    | false =>
      have hunit : stepUnit p.lenient none kept n = .more .plain (.ofNat n :: kept) := by
        simp [stepUnit, hlenient, hhigh, hlow]
      exact ⟨_, fun _ => rfl, fun rest => outcome_escape hdigits hunit⟩
  | @halves first second high low hfirst hsecond hhigh hlow =>
    cases hlenient : p.lenient with
    | true =>
      have hunit : ∀ n, stepUnit p.lenient none kept n = .more .plain kept := by
        simp [stepUnit, hlenient]
      refine ⟨kept, fun hp => Bool.noConfusion hp, fun rest => ?_⟩
      rw [List.cons_append, List.cons_append, List.append_assoc, outcome_escape hfirst (hunit high)]
      exact outcome_escape hsecond (hunit low)
    | false =>
      have hfirstUnit : stepUnit p.lenient none kept high = .more (.halfBackslash high) kept := by
        have hlow : isLowHalf high = false := by
          simp [isHighHalf, isLowHalf] at hhigh ⊢
          omega
        simp [stepUnit, hlenient, hhigh, hlow]
      have hsecondUnit : stepUnit p.lenient (some high) kept low = .more .plain
          (.ofNat (0x10000 + (high - 0xD800) * 0x400 + (low - 0xDC00)) :: kept) := by
        simp [stepUnit, hlenient, hlow]
      have hhalf : QuotedPart.step p.lenient (.halfBackslash high) kept '\\' =
          .more (.halfLetter high) kept := rfl
      have hletter : QuotedPart.step p.lenient (.halfLetter high) kept 'u' =
          .more (.digits (some high) []) kept := rfl
      refine ⟨_, fun _ => rfl, fun rest => ?_⟩
      rw [List.cons_append, List.cons_append, List.append_assoc, outcome_escape hfirst hfirstUnit]
      show Scan.outcome strict _ ('\\' :: 'u' :: (second ++ rest)) = _
      rw [outcome_inside hhalf, outcome_inside hletter, outcome_codeUnit hsecond hsecondUnit]

theorem outcome_characters {s : List Char} (h : Characters s cs) (kept : List Char) :
    ∃ kept', (p.lenient = false → kept' = s.reverse ++ kept) ∧ ∀ rest,
      Scan.outcome strict { place := p, lexeme := .quoted .plain kept } (cs ++ rest) =
        Scan.outcome strict { place := p, lexeme := .quoted .plain kept' } rest := by
  induction h generalizing kept with
  | none => exact ⟨kept, fun _ => rfl, fun rest => rfl⟩
  | @more c s spelling cs h _ ih =>
    rcases outcome_character h kept with ⟨kept₁, hkept₁, hchar⟩
    rcases ih kept₁ with ⟨kept₂, hkept₂, hchars⟩
    refine ⟨kept₂, fun hp => ?_, fun rest => ?_⟩
    · rw [hkept₂ hp, hkept₁ hp, List.reverse_cons, List.append_assoc]
      rfl
    · rw [List.append_assoc, hchar, hchars]

/-- A lenient reader does not look at a text. -/
theorem feed_text_of_lenient (hp : p.lenient) (s s' : String) :
    p.feed (.text s) = p.feed (.text s') := by
  unfold lenient at hp
  split at hp
  · cases eq_of_beq hp
    rfl
  · next want hvalue =>
    cases want with
    | value shape => exact absurd rfl (hvalue shape)
    | _ => rfl
  · next want hvalue =>
    cases want with
    | value shape => exact absurd rfl (hvalue shape)
    | _ => rfl
  · cases hp

theorem outcome_quoted {s : String} (h : Quoted s cs) (hp : p.takesValue ∨ p.takesKey) :
    p.outcome strict (cs ++ rest) = (p.feed (.text s)).toOption.bind (outcome strict · rest) := by
  rcases h with ⟨hchars⟩
  rename_i cs
  obtain ⟨kept, hkept, hrun⟩ : ∃ kept, (p.lenient = false → kept = s.toList.reverse ++ []) ∧ ∀ rest,
      Scan.outcome strict { place := p, lexeme := .quoted .plain [] } (cs ++ rest) =
        Scan.outcome strict { place := p, lexeme := .quoted .plain kept } rest :=
    outcome_characters hchars []
  have hend : Scan.step { place := p, lexeme := .quoted .plain kept } '"' =
      Scan.emit p (.text (.ofList kept.reverse)) := by
    simp [Scan.step, QuotedPart.step]
  have hfeed : p.feed (.text (.ofList kept.reverse)) = p.feed (.text s) := by
    cases hlenient : p.lenient with
    | true => exact feed_text_of_lenient hlenient _ _
    | false =>
      rw [hkept hlenient, List.append_nil, List.reverse_reverse, String.ofList_toList]
  rw [List.cons_append, outcome_cons, stepIdle_quote hp, List.append_assoc]
  show Scan.outcome strict _ (cs ++ '"' :: rest) = _
  rw [hrun, Scan.outcome_cons Scan.isUnbroken_quoted, hend, outcome_emit, hfeed]

end Place

end SyntaxTrees.Json

import SyntaxTrees.Proofs.Yaml.Native.Quoted
import SyntaxTrees.Yaml.Native.Token.Flow

/-!
# Plain scalars read back

A text that may stand bare is read up to the end of its line (`scanPlain_text`), and the scalar ends
with it if the next line is not indented far enough (`scanPlain_plain`).
-/

namespace SyntaxTrees.Yaml

/-- What is left of a text is empty or starts with a token. -/
def LeadsToToken (cs : List Char) : Prop :=
  ∀ c ∈ cs.head?, isGap c = false ∧ c ≠ '#' ∧ c ≠ byteOrderMark

theorem startsGap_space (cs : List Char) : startsGap (' ' :: cs) = true := isGap_space

theorem startsGap_append_lineFeed (cs rest : List Char) :
    startsGap (cs ++ '\n' :: rest) = startsGap cs := by
  cases cs with
  | nil => rfl
  | cons c cs => rfl

/-- Nothing in the text is taken for punctuation when the text follows on a gap or on a word. -/
structure IsBare (gap : Gap) (cs : List Char) : Prop where
  printable : ∀ c ∈ cs, isPrintable c = true ∧ isBreak c = false
  no_indicator : hasInnerIndicator (gap ≠ .none) cs = false
  no_space_last : cs.getLast?.any isSpace = false
  gap_filled : cs = [] → gap = .none

namespace IsBare

variable {gap : Gap} {c : Char} {cs : List Char}

theorem tail_space (h : IsBare gap (c :: cs)) (hspace : isSpace c = true) :
    IsBare (gap.add c) cs := by
  rcases h with ⟨hprintable, hindicator, hlast, -⟩
  -- the text does not end with a space
  have hne : cs ≠ [] := by
    rintro rfl
    simp [hspace] at hlast
  have hadd : gap.add c ≠ .none := by
    have hbreak := (hprintable c List.mem_cons_self).2
    cases gap <;> simp [Gap.add, hbreak]
  have hgap : isGap c = true := by
    rw [beq_iff_eq.mp hspace]
    exact isGap_space
  simp only [hasInnerIndicator, Bool.or_eq_false_iff, hgap] at hindicator
  refine ⟨fun d hd => hprintable d (List.mem_cons_of_mem _ hd), ?_, ?_, fun h => absurd h hne⟩
  · simpa [hadd] using hindicator.2
  · rwa [List.getLast?_cons_of_ne_nil hne] at hlast

theorem tail_char (h : IsBare gap (c :: cs)) (hgap : isGap c = false) : IsBare .none cs := by
  rcases h with ⟨hprintable, hindicator, hlast, -⟩
  simp only [hasInnerIndicator, Bool.or_eq_false_iff, hgap] at hindicator
  refine ⟨fun d hd => hprintable d (List.mem_cons_of_mem _ hd), ?_, ?_, fun _ => rfl⟩
  · simpa using hindicator.2
  · cases cs with
    | nil => rfl
    | cons d cs => exact hlast

end IsBare

/-- A space between words. -/
theorem scanPlain_space {gap : Gap} (hgap : gap.hasBreak = false) (indent : Nat) (rest : List Char)
    (m : Mark) (kept : List Char) :
    scanPlain false indent (' ' :: rest) m gap kept =
      scanPlain false indent rest (m.after ' ') (gap.add ' ') kept := by
  rw [scanPlain, if_pos isGap_space, hgap]
  rfl

/-- A character of a word. -/
theorem scanPlain_char {indent : Nat} {c : Char} {cs : List Char} {gap : Gap}
    (h : IsBare gap (c :: cs)) (hnogap : isGap c = false) {m : Mark} (hindent : indent ≤ m.column)
    (hcol : m.column ≠ 0) (rest kept : List Char) :
    scanPlain false indent (c :: (cs ++ '\n' :: rest)) m gap kept =
      scanPlain false indent (cs ++ '\n' :: rest) (m.after c) .none (c :: gap.onto kept) := by
  have hindicator := h.no_indicator
  simp only [hasInnerIndicator, Bool.or_eq_false_iff] at hindicator
  rcases hindicator with ⟨⟨hcolon, hcomment⟩, -⟩
  -- a number sign would only start a comment behind a gap
  have hword : (decide (gap ≠ .none) &&
      blocksWord false indent m (c :: (cs ++ '\n' :: rest))) = false := by
    by_cases hnone : gap = .none
    · simp [hnone]
    · have hc : c ≠ '#' := by simpa [hnone] using hcomment
      simp [blocksWord, atDelimiter, hcol, hc, hindent]
  have hends : endsPlain false c (cs ++ '\n' :: rest) = false := by
    rw [endsPlain, startsGap_append_lineFeed, hcolon]
    rfl
  rw [scanPlain, hnogap, if_neg Bool.false_ne_true, hword, if_neg Bool.false_ne_true, isBadColon,
    Bool.false_and, Bool.false_and, if_neg Bool.false_ne_true, hends, if_neg Bool.false_ne_true]

/-- A bare text is read up to the end of its line. -/
theorem scanPlain_text {indent : Nat} {cs : List Char} {gap : Gap} (h : IsBare gap cs)
    (hgap : gap.hasBreak = false) {m : Mark} (hindent : indent ≤ m.column) (hcol : m.column ≠ 0)
    (rest kept : List Char) :
    ∃ m', scanPlain false indent (cs ++ '\n' :: rest) m gap kept =
      scanPlain false indent ('\n' :: rest) m' .none (cs.reverse ++ gap.onto kept) := by
  induction cs generalizing gap m kept with
  -- no gap is left open at the end
  | nil =>
    refine ⟨m, ?_⟩
    rw [h.gap_filled rfl]
    rfl
  | cons c cs ih =>
    rcases h.printable c List.mem_cons_self with ⟨hprintable, hbreak⟩
    have hafter := column_after hbreak m
    -- a space widens the gap
    cases hspace : isSpace c with
    | true =>
      cases beq_iff_eq.mp hspace
      obtain ⟨m', hscan⟩ := ih (h.tail_space hspace) (Gap.hasBreak_add_space hgap)
        (m := m.after ' ') (by omega) (by omega) kept
      refine ⟨m', ?_⟩
      rw [List.cons_append, scanPlain_space hgap, hscan, Gap.onto_add_space hgap, List.reverse_cons,
        List.append_assoc, List.singleton_append]
    -- any other letter fills it
    | false =>
      have hnogap : isGap c = false := (isGap_of_isPrintable hprintable hbreak).trans hspace
      obtain ⟨m', hscan⟩ := ih (h.tail_char hnogap) rfl (m := m.after c) (by omega) (by omega)
        (c :: gap.onto kept)
      refine ⟨m', ?_⟩
      rw [List.cons_append, scanPlain_char h hnogap hindent hcol, hscan]
      simp [Gap.onto]

/-- The scalar ends before a token that is not indented far enough. -/
theorem scanPlain_spaces {indent n : Nat} {tail : List Char} (htail : LeadsToToken tail) {m : Mark}
    (hindent : m.column + n < indent) (first : Option Char) (more kept : List Char) :
    ∃ m' : Mark, m'.column = m.column + n ∧
      scanPlain false indent (spaces n ++ tail) m (.breaks first more) kept =
        some ⟨(.ofList kept.reverse, true), m', tail⟩ := by
  induction n generalizing m with
  -- the text that follows stands to the left, where it ends the scalar
  | zero =>
    refine ⟨m, rfl, ?_⟩
    cases tail with
    | nil => rfl
    | cons c tail =>
      have hgap := (htail c rfl).1
      have hword : blocksWord false indent m (c :: tail) = true := by
        simp [blocksWord, show m.column < indent from hindent]
      rw [spaces, List.replicate_zero, List.nil_append, scanPlain, hgap, hword]
      rfl
  | succ n ih =>
    have hafter := column_after isBreak_space m
    rcases ih (m := m.after ' ') (by omega) with ⟨m', hcol, hscan⟩
    refine ⟨m', by omega, ?_⟩
    have hadd : (Gap.breaks first more).add ' ' = .breaks first more := rfl
    rw [spaces, List.replicate_succ, List.cons_append, ← spaces, scanPlain, if_pos isGap_space,
      hadd]
    simpa using hscan

/-- A text that may stand bare is read as it was written, up to a line that is not indented far
enough. -/
theorem scanPlain_plain {indent k : Nat} {cs tail : List Char} (h : IsBare .none cs)
    (hk : k < indent) (htail : LeadsToToken tail) {m : Mark} (hindent : indent ≤ m.column) :
    ∃ m' : Mark, m'.column = k ∧
      scanPlain false indent (cs ++ '\n' :: (spaces k ++ tail)) m .none [] =
        some ⟨(.ofList cs, true), m', tail⟩ := by
  rcases scanPlain_text h rfl hindent (by omega) (spaces k ++ tail) [] with ⟨m', hscan⟩
  -- the line feed opens a gap, and the spaces behind it widen it
  have hcol : (m'.after '\n').column = 0 := rfl
  have hspaces : (m'.after '\n').column + k < indent := by omega
  obtain ⟨m'', hm'', hend⟩ := scanPlain_spaces htail hspaces (some '\n') []
    (cs.reverse ++ Gap.none.onto [])
  refine ⟨m'', by omega, ?_⟩
  rw [hscan, scanPlain]
  simpa [isGap, isBreak, Gap.hasBreak, Gap.add, Gap.onto] using hend

/-! ## Texts that may stand bare -/

/-- The first character does not mean anything else than itself. -/
structure StartsBare (c : Char) (rest : List Char) : Prop where
  no_gap : isGap c = false
  no_lead : isLeadIndicator c = false
  no_mark : c = '?' ∨ c = ':' ∨ c = '-' → startsGap rest = false

theorem allowsPlain_spec {c : Char} {cs : List Char} (h : allowsPlain (c :: cs) = true) :
    StartsBare c cs ∧ IsBare .none (c :: cs) := by
  simp only [allowsPlain, needsEscapes, hasIndicator, Bool.and_eq_true, Bool.not_eq_true',
    Bool.or_eq_false_iff, Bool.not_eq_false', List.all_eq_true, List.any_eq_false,
    Bool.and_eq_false_iff, List.head?_cons, Option.any_some, Bool.not_eq_true] at h
  rcases h with ⟨⟨⟨⟨⟨hprintable, -⟩, hbreak⟩, hfirst⟩, hlast⟩, ⟨⟨⟨-, -⟩, hlead⟩, hmark⟩, hinner⟩
  have hgap : isGap c = false := by
    rw [isGap_of_isPrintable (hprintable c List.mem_cons_self) (hbreak c List.mem_cons_self),
      hfirst]
  -- a mark that may open a token is followed by no gap
  have hstart : c = '?' ∨ c = ':' ∨ c = '-' → startsGap cs = false := by
    intro hc
    rcases hmark with hmark | hmark
    · simp only [List.contains_eq_mem, decide_eq_false_iff_not, List.mem_cons, List.not_mem_nil,
        or_false] at hmark
      exact absurd hc hmark
    · exact hmark
  refine ⟨⟨hgap, hlead, hstart⟩, ⟨fun d hd => ⟨hprintable d hd, hbreak d hd⟩, ?_, hlast,
    fun hnil => by cases hnil⟩⟩
  -- within the text a colon is followed by none either
  have hcolon : (c == ':' && startsGap cs) = false := by
    by_cases hc : c = ':'
    · rw [hstart (Or.inr (Or.inl hc)), Bool.and_false]
    · simp [hc]
  simp [hasInnerIndicator, hcolon, hinner]

end SyntaxTrees.Yaml

import SyntaxTrees.Yaml.Native.Printer
import SyntaxTrees.Yaml.Native.Token.Basic
import SyntaxTrees.Yaml.Native.Token.Flow

/-!
# Gaps of written texts

A printable text has no separators but spaces and line breaks. Blanks on one line add themselves to
the meaning of a gap; a line break does so where the style of the scalar keeps it from standing
beside a space, which `Gap.Admits` and `IsSpaced` say.
-/

namespace SyntaxTrees.Yaml

/-! ## Characters -/

theorem isGap_space : isGap ' ' = true := by decide

theorem isBreak_space : isBreak ' ' = false := by decide

theorem isGap_eq_false_iff {c : Char} :
    isGap c = false ↔ isBreak c = false ∧ c ≠ ' ' ∧ c ≠ '\t' := by
  simp [isGap, isBlank, and_comm]

theorem ne_blank_of_isBreak {c : Char} (h : isBreak c = true) : c ≠ ' ' ∧ c ≠ '\t' := by
  constructor <;> (rintro rfl; cases h)

theorem ne_tab_of_isPrintable {c : Char} (h : isPrintable c = true) : c ≠ '\t' := by
  rintro rfl
  revert h
  decide

/-- The only printable gaps are spaces and line breaks. -/
theorem isGap_of_isPrintable {c : Char} (h : isPrintable c = true) (hbreak : isBreak c = false) :
    isGap c = isSpace c := by
  have htab : (c == '\t') = false := beq_eq_false_iff_ne.mpr (ne_tab_of_isPrintable h)
  rw [isGap, isBlank, hbreak, htab, Bool.or_false, Bool.or_false, isSpace]

theorem column_after {c : Char} (h : isBreak c = false) (m : Mark) :
    (m.after c).column = m.column + 1 := by
  rw [Mark.after, h]
  rfl

theorem column_after_break {c : Char} (h : isBreak c = true) (m : Mark) :
    (m.after c).column = 0 := by
  rw [Mark.after, h]
  rfl

/-! ## Gaps -/

namespace Gap

theorem onto_add_space {g : Gap} (h : g.hasBreak = false) (kept : List Char) :
    (g.add ' ').onto kept = ' ' :: g.onto kept := by
  cases g with
  | none => rfl
  | blanks cs => rfl
  | breaks first more => cases h

theorem hasBreak_add_space {g : Gap} (h : g.hasBreak = false) : (g.add ' ').hasBreak = false := by
  cases g with
  | none => rfl
  | blanks cs => rfl
  | breaks first more => cases h

/-- The next characters add to the meaning of the gap: no break follows blanks, and neither a space
nor anything else that means nothing there follows a break. -/
def Admits : Gap → List Char → Prop
  | none, _ => True
  | blanks _, cs => cs.head?.any isBreak = false
  | breaks first _, cs => (∃ c, first = some c ∧ c ≠ '\n') ∧ cs.head?.any isSpace = false

end Gap

/-! ## Texts without spaces beside line breaks -/

theorem hasNeighbours_cons (p q : Char → Bool) (c : Char) (cs : List Char) :
    hasNeighbours p q (c :: cs) = (p c && cs.head?.any q || hasNeighbours p q cs) := by
  cases cs with
  | nil => simp [hasNeighbours]
  | cons d cs => rfl

/-- Nothing in the text is lost between apostrophes: it has no line feed, and no space stands beside
a line break. -/
structure IsSpaced (cs : List Char) : Prop where
  printable : ∀ c ∈ cs, isPrintable c = true
  no_lineFeed : '\n' ∉ cs
  no_space_before : hasNeighbours isSpace isBreak cs = false
  no_space_behind : hasNeighbours isBreak isSpace cs = false

namespace IsSpaced

variable {c : Char} {cs : List Char}

theorem tail (h : IsSpaced (c :: cs)) : IsSpaced cs := by
  rcases h with ⟨hprintable, hfeed, hbefore, hbehind⟩
  rw [hasNeighbours_cons, Bool.or_eq_false_iff] at hbefore hbehind
  exact ⟨fun d hd => hprintable d (List.mem_cons_of_mem _ hd),
    fun hd => hfeed (List.mem_cons_of_mem _ hd), hbefore.2, hbehind.2⟩

/-- A space or a break adds itself to the meaning of a gap that admits it, and what is left of the
text is admitted by the longer gap. -/
theorem admits_add (h : IsSpaced (c :: cs)) (hgap : isGap c = true) {g : Gap}
    (hg : g.Admits (c :: cs)) :
    (g.add c).Admits cs ∧ (g.add c).hasBreak = isBreak c ∧
      ∀ kept, (g.add c).onto kept = c :: g.onto kept := by
  rcases h with ⟨hprintable, hfeed, hbefore, hbehind⟩
  have hc : c ≠ '\n' := fun hc => hfeed (hc ▸ List.mem_cons_self)
  rw [hasNeighbours_cons, Bool.or_eq_false_iff] at hbefore hbehind
  cases hbreak : isBreak c with
  -- a break, so no space follows
  | true =>
    have hspace : cs.head?.any isSpace = false := by simpa [hbreak] using hbehind.1
    cases g with
    | none =>
      simp only [Gap.add, hbreak, if_true]
      exact ⟨⟨⟨c, rfl, hc⟩, hspace⟩, rfl, fun kept => by simp [Gap.onto, hc]⟩
    | blanks bs => simp [Gap.Admits, hbreak] at hg
    | breaks first more =>
      rcases hg with ⟨⟨d, rfl, hd⟩, -⟩
      simp only [Gap.add, hbreak, if_true]
      exact ⟨⟨⟨d, rfl, hd⟩, hspace⟩, rfl, fun kept => by simp [Gap.onto, hd]⟩
  -- a space, so no break follows
  | false =>
    have hspace : isSpace c = true := by
      rw [← isGap_of_isPrintable (hprintable c List.mem_cons_self) hbreak]
      exact hgap
    have hnext : cs.head?.any isBreak = false := by simpa [hspace] using hbefore.1
    cases g with
    | none =>
      simp only [Gap.add, hbreak, Bool.false_eq_true, if_false]
      exact ⟨hnext, rfl, fun kept => rfl⟩
    | blanks bs =>
      simp only [Gap.add, hbreak, Bool.false_eq_true, if_false]
      exact ⟨hnext, rfl, fun kept => rfl⟩
    | breaks first more => simp [Gap.Admits, hspace] at hg

end IsSpaced

theorem isSpaced_of_allowsSingle {cs : List Char} (h : allowsSingle cs = true)
    (hfeed : '\n' ∉ cs) : IsSpaced cs := by
  simp only [allowsSingle, needsEscapes, Bool.and_eq_true, Bool.not_eq_true', Bool.or_eq_false_iff,
    Bool.not_eq_false', List.all_eq_true] at h
  exact ⟨h.1.1, hfeed, h.1.2, h.2⟩

end SyntaxTrees.Yaml

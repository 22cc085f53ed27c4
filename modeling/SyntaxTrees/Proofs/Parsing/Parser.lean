import SyntaxTrees.Parsing.Parser

/-!
# What a parser can do

Parsing and reparsing said case by case, in the order in which a parser decides: which answer it
gives, and what becomes of the state of its engine. Neither of them touches the selection
(`grammar_parse`, `grammar_reparse`).
-/

namespace SyntaxTrees.Parser

variable {σ : Type} {e : Engine σ} {p p' : Parser σ} {g : Grammar}

/-! ## Selecting and parsing -/

theorem select_eq_ok_iff :
    p.select e g = .ok p' ↔ e.refusal? g.language = none ∧ p' = { p with grammar := some g } := by
  unfold select
  cases e.refusal? g.language with
  | none => simp [eq_comm]
  | some message => simp

theorem select_of_refused {message : String} (h : e.refusal? g.language = some message) :
    p.select e g = .error (.unusableGrammar g.name (.refused message)) := by
  unfold select
  rw [h]

/-- All that a parse can do: there is no selection, or the engine makes a tree, or it makes none
and is reset. -/
theorem parse_cases (e : Engine σ) (p : Parser σ) (source : Bytes) :
    (p.grammar = none ∧ p.parse e source = (.error .noGrammarSelected, p)) ∨
    ∃ g, p.grammar = some g ∧
      ((∃ raw state, e.parse p.state g.language source = (some raw, state) ∧
          p.parse e source = (.ok (.build g source raw none), { p with state })) ∨
        ∃ state, e.parse p.state g.language source = (none, state) ∧
          p.parse e source = (.error (noTree g source), { p with state := e.reset state })) := by
  unfold parse
  cases p.grammar with
  | none =>
    left
    exact ⟨rfl, rfl⟩
  | some g =>
    right
    refine ⟨g, rfl, ?_⟩
    -- with a grammar selected the engine's answer decides
    rcases hparse : e.parse p.state g.language source with ⟨raw | raw, state⟩
    · right
      exact ⟨state, rfl, by simp [hparse]⟩
    · left
      exact ⟨raw, state, rfl, by simp [hparse]⟩

/-! ## Reparsing -/

section Reparsing

variable {previous : Tree} {edit : Edit} {source : Bytes} {state : σ}

theorem reparse_of_unselected (h : p.grammar = none) :
    p.reparse e previous edit source = (.error .noGrammarSelected, p) := by
  unfold reparse
  rw [h]

/-- An edit that does not fit is refused before the engine is asked. -/
theorem reparse_of_misfit (hg : p.grammar = some g) {fault : EditFault}
    (h : edit.check previous.source.length source.length = .error fault) :
    p.reparse e previous edit source = (.error (.invalidEdit fault.message), p) := by
  unfold reparse
  simp only [hg, h]

variable (hg : p.grammar = some g)
  (hfits : edit.check previous.source.length source.length = .ok ())
include hg hfits

/-- A tree of another handle is of no use. -/
theorem reparse_of_other (hother : ¬ previous.grammar.Same g) :
    p.reparse e previous edit source = p.parse e source := by
  unfold reparse
  simp only [hg, hfits, if_neg hother]

theorem reparse_of_made (hsame : previous.grammar.Same g) {raw : RawTree} {changed : List Span}
    (hanswer : e.reparse p.state g.language previous.raw (edit.locate previous.source source)
      source = (some (raw, changed), state)) :
    p.reparse e previous edit source =
      (.ok (.build g source raw (some changed)), { p with state }) := by
  unfold reparse
  simp only [hg, hfits, if_pos hsame, hanswer]

theorem reparse_of_unmade (hsame : previous.grammar.Same g)
    (hanswer : e.reparse p.state g.language previous.raw (edit.locate previous.source source)
      source = (none, state)) :
    p.reparse e previous edit source =
      (.error (noTree g source), { p with state := e.reset state }) := by
  unfold reparse
  simp only [hg, hfits, if_pos hsame, hanswer]

end Reparsing

/-- All that a reparse can do: there is no selection, or the edit does not fit, or the earlier tree
is of another grammar and the source is parsed from scratch, or the engine reuses the tree, with or
without success. -/
theorem reparse_cases (e : Engine σ) (p : Parser σ) (previous : Tree) (edit : Edit)
    (source : Bytes) :
    (p.grammar = none ∧ p.reparse e previous edit source = (.error .noGrammarSelected, p)) ∨
    ∃ g, p.grammar = some g ∧
      ((∃ fault, edit.check previous.source.length source.length = .error fault ∧
          p.reparse e previous edit source = (.error (.invalidEdit fault.message), p)) ∨
        edit.check previous.source.length source.length = .ok () ∧
          ((¬ previous.grammar.Same g ∧
              p.reparse e previous edit source = p.parse e source) ∨
            previous.grammar.Same g ∧
              ((∃ raw changed state, e.reparse p.state g.language previous.raw
                    (edit.locate previous.source source) source = (some (raw, changed), state) ∧
                  p.reparse e previous edit source =
                    (.ok (.build g source raw (some changed)), { p with state })) ∨
                ∃ state, e.reparse p.state g.language previous.raw
                    (edit.locate previous.source source) source = (none, state) ∧
                  p.reparse e previous edit source =
                    (.error (noTree g source), { p with state := e.reset state })))) := by
  rcases Option.eq_none_or_eq_some p.grammar with hg | ⟨g, hg⟩
  · left
    exact ⟨hg, reparse_of_unselected hg⟩
  · right
    refine ⟨g, hg, ?_⟩
    -- the edit is checked before anything is asked of the engine
    rcases hcheck : edit.check previous.source.length source.length with fault | ⟨⟩
    · left
      exact ⟨fault, rfl, reparse_of_misfit hg hcheck⟩
    · right
      refine ⟨rfl, ?_⟩
      -- then the grammars are compared
      by_cases hsame : previous.grammar.Same g
      · right
        refine ⟨hsame, ?_⟩
        rcases hanswer : e.reparse p.state g.language previous.raw
          (edit.locate previous.source source) source with ⟨_ | ⟨raw, changed⟩, state⟩
        · right
          exact ⟨state, rfl, reparse_of_unmade hg hcheck hsame hanswer⟩
        · left
          exact ⟨raw, changed, state, rfl, reparse_of_made hg hcheck hsame hanswer⟩
      · left
        exact ⟨hsame, reparse_of_other hg hcheck hsame⟩

/-! ## The selection -/

theorem grammar_parse (e : Engine σ) (p : Parser σ) (source : Bytes) :
    (p.parse e source).2.grammar = p.grammar := by
  rcases parse_cases e p source with ⟨-, hparse⟩ | ⟨_, -, ⟨_, _, -, hparse⟩ | ⟨_, -, hparse⟩⟩ <;>
    rw [hparse]

theorem grammar_reparse (e : Engine σ) (p : Parser σ) (previous : Tree) (edit : Edit)
    (source : Bytes) : (p.reparse e previous edit source).2.grammar = p.grammar := by
  rcases reparse_cases e p previous edit source with ⟨-, hreparse⟩ | ⟨_, -, ⟨_, -, hreparse⟩ |
    ⟨-, ⟨-, hreparse⟩ | ⟨-, ⟨_, _, _, -, hreparse⟩ | ⟨_, -, hreparse⟩⟩⟩⟩ <;> rw [hreparse]
  exact grammar_parse e p source

end SyntaxTrees.Parser

import Mathlib.Data.List.Induction
import SyntaxTrees.Parsing.Session
import SyntaxTrees.Proofs.Parsing.Parser
import SyntaxTrees.Proofs.Registry.Handles

/-!
# Runs of a session

A run carries out one request after the other. What a later request meets is known from the steps
before it: the selection is that of the last step that selected a grammar since the parser was
created (`grammar_after`), and every tree of the session was made by one earlier step or copied
(`mem_trees_after`). `Session.Makes` says which tree a request makes. With this a reparse is decided
by the history of the session, the edit, and the handle of the earlier tree
(`sessions_follow_selection`).
-/

namespace SyntaxTrees.Session

variable {σ : Type} {e : Engine σ}

/-! ## Runs -/

def after (e : Engine σ) (s : Session σ) (requests : List Request) : Session σ :=
  requests.foldl (fun s q => (s.step e q).2) s

/-- The requests of a run with their answers. -/
def log (e : Engine σ) (s : Session σ) : List Request → List (Request × Except Error Unit)
  | [] => []
  | q :: rest => (q, (s.step e q).1) :: log e (s.step e q).2 rest

theorem after_concat (e : Engine σ) (s : Session σ) (requests : List Request) (q : Request) :
    s.after e (requests ++ [q]) = ((s.after e requests).step e q).2 := by
  simp [after]

theorem log_concat (e : Engine σ) (s : Session σ) (requests : List Request) (q : Request) :
    s.log e (requests ++ [q]) = s.log e requests ++ [(q, ((s.after e requests).step e q).1)] := by
  induction requests generalizing s with
  | nil => rfl
  | cons first rest ih =>
    rw [List.cons_append, log, log, ih, List.cons_append]
    rfl

/-! ## The selection -/

def isRenewal : Request × Except Error Unit → Bool
  | (.renew, _) => true
  | _ => false

/-- The grammar that the step has selected. -/
def selectedBy? : Request × Except Error Unit → Option Grammar
  | (.select g, .ok ()) => some g
  | _ => none

/-- The grammar of the last selection that succeeded since the parser was created. -/
def lastSelected? (steps : List (Request × Except Error Unit)) : Option Grammar :=
  (steps.reverse.takeWhile fun step => !isRenewal step).findSome? selectedBy?

theorem lastSelected?_concat (steps : List (Request × Except Error Unit))
    (step : Request × Except Error Unit) :
    lastSelected? (steps ++ [step]) =
      if isRenewal step then none else (selectedBy? step).or (lastSelected? steps) := by
  unfold lastSelected?
  rw [List.reverse_append, List.reverse_singleton, List.singleton_append]
  by_cases hrenewal : isRenewal step
  · simp [hrenewal]
  · simp only [List.takeWhile_cons, hrenewal, Bool.not_false, if_true]
    rw [List.findSome?_cons, if_neg Bool.false_ne_true]
    cases selectedBy? step <;> rfl

theorem parser_keep (s : Session σ) (outcome : Except Error Tree × Parser σ) :
    (s.keep outcome).2.parser = outcome.2 := by
  rcases outcome with ⟨_ | _, _⟩ <;> rfl

/-- A renewal clears the selection, a selection that succeeds replaces it, and no other step touches
it. -/
theorem grammar_step (e : Engine σ) (s : Session σ) (q : Request) :
    (s.step e q).2.parser.grammar =
      if isRenewal (q, (s.step e q).1) then none
      else (selectedBy? (q, (s.step e q).1)).or s.parser.grammar := by
  cases q with
  | select g =>
    cases hselect : s.parser.select e g with
    | ok parser =>
      rcases Parser.select_eq_ok_iff.mp hselect with ⟨-, rfl⟩
      simp [step, hselect, isRenewal, selectedBy?]
    | error err => simp [step, hselect, isRenewal, selectedBy?]
  | reset => rfl
  | renew => rfl
  | parse source =>
    -- a parse never touches the selection
    have hgrammar := Parser.grammar_parse e s.parser source
    simp [step, parser_keep, hgrammar, isRenewal, selectedBy?]
  | reparse previous edit source =>
    have hgrammar := Parser.grammar_reparse e s.parser previous edit source
    simp [step, parser_keep, hgrammar, isRenewal, selectedBy?]
  | copy model => rfl

/-- What is selected after a run can be read off its steps. -/
theorem grammar_after (e : Engine σ) (requests : List Request) :
    ((new e).after e requests).parser.grammar = lastSelected? ((new e).log e requests) := by
  induction requests using List.reverseRecOn with
  | nil => rfl
  | append_singleton requests q ih =>
    rw [after_concat, log_concat, lastSelected?_concat, grammar_step, ih]

/-! ## The trees -/

/-- The source that a request wants to be parsed. -/
def Request.source? : Request → Option Bytes
  | .parse source | .reparse _ _ source => some source
  | _ => none

/-- The tree that a request makes if a grammar is selected: of what the engine answers to a full
parse, or, where an edit fits and the earlier tree is of this very grammar, to one that reuses that
tree. -/
inductive Makes (e : Engine σ) (p : Parser σ) (g : Grammar) : Request → Tree → Prop
  | parsed {source : Bytes} {raw : RawTree} {state : σ}
    (hanswer : e.parse p.state g.language source = (some raw, state)) :
    Makes e p g (.parse source) (.build g source raw none)
  | reparsed {previous : Tree} {edit : Edit} {source : Bytes} {raw : RawTree}
    {changed : List Span} {state : σ}
    (hfits : edit.check previous.source.length source.length = .ok ())
    (hsame : previous.grammar.Same g)
    (hanswer : e.reparse p.state g.language previous.raw (edit.locate previous.source source)
      source = (some (raw, changed), state)) :
    Makes e p g (.reparse previous edit source) (.build g source raw (some changed))
  | startedOver {previous : Tree} {edit : Edit} {source : Bytes} {raw : RawTree} {state : σ}
    (hfits : edit.check previous.source.length source.length = .ok ())
    (hother : ¬ previous.grammar.Same g)
    (hanswer : e.parse p.state g.language source = (some raw, state)) :
    Makes e p g (.reparse previous edit source) (.build g source raw none)

theorem Makes.grammar_eq {p : Parser σ} {g : Grammar} {q : Request} {tree : Tree}
    (h : Makes e p g q tree) : tree.grammar = g := by
  cases h <;> rfl

theorem Makes.source_eq {p : Parser σ} {g : Grammar} {q : Request} {tree : Tree}
    (h : Makes e p g q tree) : q.source? = some tree.source := by
  cases h <;> rfl

/-- The parse of a source makes its tree under the selected grammar. -/
theorem makes_of_parse {p : Parser σ} {source : Bytes} {tree : Tree}
    (h : (p.parse e source).1 = .ok tree) :
    ∃ g raw state, p.grammar = some g ∧ e.parse p.state g.language source = (some raw, state) ∧
      tree = .build g source raw none := by
  rcases Parser.parse_cases e p source with ⟨-, hparse⟩ | ⟨g, hg, ⟨raw, state, hanswer, hparse⟩ |
    ⟨state, -, hparse⟩⟩ <;> rw [hparse] at h <;> cases h
  exact ⟨g, raw, state, hg, hanswer, rfl⟩

theorem makes_of_reparse {p : Parser σ} {previous : Tree} {edit : Edit} {source : Bytes}
    {tree : Tree} (h : (p.reparse e previous edit source).1 = .ok tree) :
    ∃ g, p.grammar = some g ∧ Makes e p g (.reparse previous edit source) tree := by
  rcases Parser.reparse_cases e p previous edit source with ⟨-, hreparse⟩ | ⟨g, hg,
    ⟨fault, -, hreparse⟩ | ⟨hfits, ⟨hother, hreparse⟩ | ⟨hsame,
      ⟨raw, changed, state, hanswer, hreparse⟩ | ⟨state, -, hreparse⟩⟩⟩⟩ <;> rw [hreparse] at h
  · cases h
  · cases h
  · -- the parse is one under the same selection
    rcases makes_of_parse h with ⟨g', raw, state, hg', hanswer, rfl⟩
    obtain rfl : g = g' := Option.some.inj (hg.symm.trans hg')
    exact ⟨g, hg, .startedOver hfits hother hanswer⟩
  · cases h
    exact ⟨g, hg, .reparsed hfits hsame hanswer⟩
  · cases h

/-- A session keeps the tree of an outcome behind the others, and nothing if there is none. -/
theorem trees_keep (s : Session σ) (outcome : Except Error Tree × Parser σ) :
    (s.keep outcome).2.trees = s.trees ∨
      ∃ tree, outcome.1 = .ok tree ∧ (s.keep outcome).1 = .ok () ∧
        (s.keep outcome).2.trees = s.trees.push { tree, origin := s.trees.size } := by
  rcases outcome with ⟨err | tree, parser⟩
  · left
    rfl
  · right
    exact ⟨tree, rfl, rfl, rfl⟩

/-- All that a step can do to the trees: leave them as they are, copy one, or add the one that the
request makes under the selected grammar. -/
theorem trees_step (e : Engine σ) (s : Session σ) (q : Request) :
    (s.step e q).2.trees = s.trees ∨
      (s.step e q).1 = .ok () ∧
        ((∃ model, q = .copy model ∧ (s.step e q).2.trees = s.trees.push model) ∨
          ∃ g tree, s.parser.grammar = some g ∧ Makes e s.parser g q tree ∧
            (s.step e q).2.trees = s.trees.push { tree, origin := s.trees.size }) := by
  cases q with
  | select g =>
    left
    rw [step]
    split <;> rfl
  | reset => exact Or.inl rfl
  | renew => exact Or.inl rfl
  | parse source =>
    -- a tree is kept only if one was made
    rcases trees_keep s (s.parser.parse e source) with hsame | ⟨tree, houtcome, hok, htrees⟩
    · exact Or.inl hsame
    · rcases makes_of_parse houtcome with ⟨g, raw, state, hg, hanswer, rfl⟩
      exact Or.inr ⟨hok, Or.inr ⟨g, _, hg, .parsed hanswer, htrees⟩⟩
  | reparse previous edit source =>
    rcases trees_keep s (s.parser.reparse e previous edit source) with
      hsame | ⟨tree, houtcome, hok, htrees⟩
    · exact Or.inl hsame
    · rcases makes_of_reparse houtcome with ⟨g, hg, hmakes⟩
      exact Or.inr ⟨hok, Or.inr ⟨g, tree, hg, hmakes, htrees⟩⟩
  | copy model => exact Or.inr ⟨rfl, Or.inl ⟨model, rfl, rfl⟩⟩

/-- A step that fails changes neither the trees nor the selection. -/
theorem step_error {s : Session σ} {q : Request} {err : Error}
    (h : (s.step e q).1 = .error err) :
    (s.step e q).2.parser.grammar = s.parser.grammar ∧ (s.step e q).2.trees = s.trees := by
  constructor
  · rw [grammar_step, h]
    cases q with
    | renew => cases h
    | _ => rfl
  · rcases trees_step e s q with hsame | ⟨hok, -⟩
    · exact hsame
    · rw [hok] at h
      cases h

/-- Every tree of a session was copied, or made by one of its requests under the selection of that
time. -/
theorem mem_trees_after (e : Engine σ) (requests : List Request) {kept : SessionTree}
    (h : kept ∈ ((new e).after e requests).trees) :
    (∃ front back, requests = front ++ .copy kept :: back) ∨
      ∃ front q back g, requests = front ++ q :: back ∧
        lastSelected? ((new e).log e front) = some g ∧
        Makes e ((new e).after e front).parser g q kept.tree := by
  induction requests using List.reverseRecOn with
  | nil => simp [after, new] at h
  | append_singleton requests q ih =>
    rw [after_concat] at h
    -- what the earlier requests kept is split as before, the last one added at the back
    have hearlier (hmem : kept ∈ ((new e).after e requests).trees) :
        (∃ front back, requests ++ [q] = front ++ .copy kept :: back) ∨
          ∃ front q' back g, requests ++ [q] = front ++ q' :: back ∧
            lastSelected? ((new e).log e front) = some g ∧
            Makes e ((new e).after e front).parser g q' kept.tree := by
      rcases ih hmem with ⟨front, back, rfl⟩ | ⟨front, q', back, g, rfl, hselected, hmakes⟩
      · left
        exact ⟨front, back ++ [q], by simp⟩
      · right
        exact ⟨front, q', back ++ [q], g, by simp, hselected, hmakes⟩
    rcases trees_step e ((new e).after e requests) q with hsame | ⟨-, ⟨model, rfl, htrees⟩ |
      ⟨g, tree, hg, hmakes, htrees⟩⟩
    · -- the last request keeps nothing
      rw [hsame] at h
      exact hearlier h
    · -- it is a copy
      rw [htrees, Array.mem_push] at h
      rcases h with h | rfl
      · exact hearlier h
      · left
        exact ⟨requests, [], rfl⟩
    · -- it made a tree, under the grammar selected then
      rw [htrees, Array.mem_push] at h
      rcases h with h | rfl
      · exact hearlier h
      · right
        rw [grammar_after] at hg
        exact ⟨requests, q, [], g, rfl, hg, hmakes⟩

/-! ## Sessions by their history -/

/-- At the end of any run the selected grammar is that of the last selection that succeeded since
the parser was created, and a request that fails changes neither it nor the trees.

A reparse is decided in this order. Without a selection that is the error, whatever the edit. An
edit that does not fit is the error, also if the grammars differ; no engine has a part in this, and
the state of the parser stays. If the earlier tree is of another handle, the outcome is that of a
parse, and the tree does not say what has changed. Else the engine reuses the earlier tree, and the
new tree says what has changed in the words of the engine. Two handles of one registry are the same
exactly if they have one name, and handles of different registries never are, in whatever order a
program makes its registries and asks them.

A tree of the session, if it is no copy, was made by one of its requests: it has the grammar that
was then selected and the source that was then given, and the engine's answer decides the rest. -/
theorem sessions_follow_selection (e : Engine σ) (requests : List Request) :
    let s := (new e).after e requests
    let selected := lastSelected? ((new e).log e requests)
    s.parser.grammar = selected ∧
    (∀ q err, (s.step e q).1 = .error err →
      (s.step e q).2.parser.grammar = selected ∧ (s.step e q).2.trees = s.trees) ∧
    (∀ previous edit source,
      let outcome := s.parser.reparse e previous edit source
      let check := edit.check previous.source.length source.length
      (selected = none → outcome = (.error .noGrammarSelected, s.parser)) ∧
      ∀ g, selected = some g →
        (∀ fault, check = .error fault →
          outcome = (.error (.invalidEdit fault.message), s.parser) ∧
          ∀ other : Engine σ, s.parser.reparse other previous edit source = outcome) ∧
        (check = .ok () → ¬ previous.grammar.Same g →
          outcome = s.parser.parse e source ∧
          ∀ tree, outcome.1 = .ok tree → tree.changed = none) ∧
        (check = .ok () → previous.grammar.Same g →
          let answer := e.reparse s.parser.state g.language previous.raw
            (edit.locate previous.source source) source
          (∀ raw changed state, answer = (some (raw, changed), state) →
            outcome = (.ok (.build g source raw (some changed)), { s.parser with state })) ∧
          ∀ state, answer = (none, state) →
            outcome = (.error (Parser.noTree g source),
              { s.parser with state := e.reset state }))) ∧
    (∀ r r' : Registry, r.IsInitial → r'.IsInitial → ∀ asked asked' g g',
      r.GivesOut asked g → r'.GivesOut asked' g' →
        (r.key ≠ r'.key → ¬ g.Same g') ∧
        (r = r' → asked = asked' → (g.Same g' ↔ g.name = g'.name))) ∧
    (∀ asked key key' g g', Registries.GivesOut asked key g → Registries.GivesOut asked key' g' →
      (g.Same g' ↔ key = key' ∧ g.name = g'.name)) ∧
    ∀ kept ∈ s.trees, (∃ front back, requests = front ++ .copy kept :: back) ∨
      ∃ front q back g, requests = front ++ q :: back ∧
        lastSelected? ((new e).log e front) = some g ∧ kept.tree.grammar = g ∧
        q.source? = some kept.tree.source ∧
        Makes e ((new e).after e front).parser g q kept.tree := by
  intro s selected
  have hselected : s.parser.grammar = selected := grammar_after e requests
  refine ⟨hselected, ?_, ?_, ?_, fun _ _ _ _ _ => Registries.same_iff, ?_⟩
  · -- a failed request
    intro q err herr
    rw [← hselected]
    exact step_error herr
  · intro previous edit source outcome check
    rw [← hselected]
    constructor
    · exact Parser.reparse_of_unselected
    · intro g hg
      refine ⟨?_, ?_, ?_⟩
      · -- the edit does not fit: no engine is asked, so any other says the same
        intro fault hfault
        have herror (other : Engine σ) : s.parser.reparse other previous edit source = _ :=
          Parser.reparse_of_misfit hg hfault
        exact ⟨herror e, fun other => (herror other).trans (herror e).symm⟩
      · -- the previous tree is another grammar's
        intro hfits hother
        have hreparse : outcome = s.parser.parse e source :=
          Parser.reparse_of_other hg hfits hother
        refine ⟨hreparse, ?_⟩
        intro tree htree
        rw [hreparse] at htree
        rcases makes_of_parse htree with ⟨_, _, _, -, -, rfl⟩
        rfl
      · -- the engine reparses
        intro hfits hsame answer
        constructor
        · intro raw changed state hanswer
          exact Parser.reparse_of_made hg hfits hsame hanswer
        · intro state hanswer
          exact Parser.reparse_of_unmade hg hfits hsame hanswer
  · -- handles compared by their registries
    intro r r' hr hr' asked asked' g g' hg hg'
    constructor
    · intro hkeys
      exact hg.not_same hr hr' hg' hkeys
    · rintro rfl rfl
      exact hg.same_iff hr hg'
  · -- where a kept tree comes from
    intro kept hkept
    rcases mem_trees_after e requests hkept with hcopy | ⟨front, q, back, g, hsplit, hg, hmakes⟩
    · exact Or.inl hcopy
    · exact Or.inr ⟨front, q, back, g, hsplit, hg, hmakes.grammar_eq, hmakes.source_eq, hmakes⟩

/-- A tree of the same language from another registry is not reused, and an edit that reaches past
its source is refused all the same. -/
theorem reparse_for_other_registry :
    let info (kind : String) (kindId : Nat) : NodeInfo :=
      { kind, kindId, named := true, span := ⟨0, 1⟩, start := ⟨0, 0⟩, stop := ⟨0, 1⟩ }
    let raw : RawTree := .node (info "program" 133)
      [.node (info "expression_statement" 149) [.node (info "identifier" 1) []]]
    let e : Engine Unit :=
      { fresh := ()
        reset := id
        refusal? := fun _ => none
        parse := fun _ _ _ => (some raw, ())
        reparse := fun _ _ _ _ _ => (some (raw, []), ()) }
    let g (registry : Nat) : Grammar :=
      { registry, serial := 0, name := "javascript", language := { abi := 14, kindCount := 1 } }
    let s := (new e).after e [.select (g 0), .parse [120], .select (g 1)]
    let previous := Tree.build (g 0) [120] raw none
    (s.parser.reparse e previous ⟨1, 1, 1⟩ [120]).1 = .ok (.build (g 1) [120] raw none) ∧
      (s.parser.reparse e previous ⟨1, 2, 1⟩ [120]).1 =
        .error (.invalidEdit "old end byte 2 exceeds old source length 1") := by
  intro info raw e g s previous
  obtain ⟨-, -, hreparse, -⟩ :=
    sessions_follow_selection e [.select (g 0), .parse [120], .select (g 1)]
  constructor
  · -- registry 1 is not registry 0, so the tree is parsed afresh
    rcases hreparse previous ⟨1, 1, 1⟩ [120] with ⟨-, hdecided⟩
    rcases hdecided (g 1) rfl with ⟨-, hother, -⟩
    have hparse := (hother (by decide) (by decide)).1
    exact congrArg Prod.fst hparse
  · -- the edit is checked before the grammars are compared
    rcases hreparse previous ⟨1, 2, 1⟩ [120] with ⟨-, hdecided⟩
    rcases hdecided (g 1) rfl with ⟨hunfit, -, -⟩
    exact congrArg Prod.fst (hunfit (.pastOldEnd 2 1) (by decide)).1

end SyntaxTrees.Session

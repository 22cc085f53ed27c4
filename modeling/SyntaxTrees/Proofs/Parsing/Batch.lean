import SyntaxTrees.Parsing.Batch
import SyntaxTrees.Proofs.Parsing.Parser

/-!
# Batches against single parses

A worker parses many sources with one parser, which selects its grammar on the way. What it carries
from one source to the next is a selection, which is right or still missing, and the state of the
engine (`Batch.Ready`). If the engine forgets its full parses (`Engine.Forgets`), neither of the two
shows in a result: each source fares as with a parser of its own, however the sources are cut into
runs (`Batch.parse_eq_alone`).
-/

namespace SyntaxTrees

variable {σ : Type} {e : Engine σ} {g : Grammar}

/-! ## Engines that forget -/

/-- The states of an engine between full parses: that of a new parser, that behind a tree, and,
where no tree was made, what a reset has made of the state. -/
inductive Engine.Settled (e : Engine σ) : σ → Prop
  | fresh : e.Settled e.fresh
  | parsed {state next : σ} {language : Language} {source : Bytes} {raw : RawTree}
    (h : e.Settled state) (hparse : e.parse state language source = (some raw, next)) :
    e.Settled next
  | failed {state next : σ} {language : Language} {source : Bytes} (h : e.Settled state)
    (hparse : e.parse state language source = (none, next)) : e.Settled (e.reset next)

/-- Between full parses the answer to the next one depends on the language and the bytes alone. -/
def Engine.Forgets (e : Engine σ) : Prop :=
  ∀ state, e.Settled state → ∀ language source,
    (e.parse state language source).1 = (e.parse e.fresh language source).1

namespace Batch

/-! ## One source -/

/-- The outcome for a source that has a new parser to itself. -/
def alone (e : Engine σ) (g : Grammar) (source : Bytes) : Except Error Tree :=
  match (Parser.new e).select e g with
  | .ok p => (p.parse e source).1
  | .error err => .error err

/-- A new parser parses if the engine makes a tree, with no word of what has changed. -/
theorem alone_eq (hg : e.refusal? g.language = none) (source : Bytes) :
    alone e g source = match (e.parse e.fresh g.language source).1 with
      | some raw => .ok (.build g source raw none)
      | none => .error (Parser.noTree g source) := by
  -- a fresh parser selects `g`, so its grammar is no longer open
  have hselect : (Parser.new e).select e g = .ok ⟨e.fresh, some g⟩ :=
    Parser.select_eq_ok_iff.mpr ⟨hg, rfl⟩
  unfold alone
  rw [hselect]
  show (Parser.parse e ⟨e.fresh, some g⟩ source).1 = _
  rcases Parser.parse_cases e ⟨e.fresh, some g⟩ source with ⟨hnone, -⟩ | ⟨g', hg', hcases⟩
  · cases hnone
  · obtain rfl : g = g' := Option.some.inj hg'
    rcases hcases with ⟨raw, state, hanswer, hparse⟩ | ⟨state, hanswer, hparse⟩
    · -- the engine made a tree
      have hraw : (e.parse e.fresh g.language source).1 = some raw := congrArg Prod.fst hanswer
      rw [hparse, hraw]
    · -- it made none
      have hnone : (e.parse e.fresh g.language source).1 = none := congrArg Prod.fst hanswer
      rw [hparse, hnone]

/-! ## One worker -/

/-- The parser of a worker: it has selected the grammar of the batch or none, and its engine has
nothing unfinished. -/
structure Ready (e : Engine σ) (g : Grammar) (p : Parser σ) : Prop where
  settled : e.Settled p.state
  grammar_eq : p.grammar = none ∨ p.grammar = some g

theorem ready_new (e : Engine σ) (g : Grammar) : Ready e g (Parser.new e) where
  settled := .fresh
  grammar_eq := Or.inl rfl

/-- A parser with a selection parses as a new one, and is then ready for the next source. -/
theorem Ready.parse (he : e.Forgets) (hg : e.refusal? g.language = none) {p : Parser σ}
    (h : Ready e g p) (hp : p.grammar = some g) (source : Bytes) :
    (p.parse e source).1 = alone e g source ∧ Ready e g (p.parse e source).2 := by
  rw [alone_eq hg, ← he p.state h.settled]
  rcases Parser.parse_cases e p source with ⟨hnone, -⟩ | ⟨g', hg', hcases⟩
  · rw [hp] at hnone
    cases hnone
  · obtain rfl : g = g' := Option.some.inj (hp.symm.trans hg')
    rcases hcases with ⟨raw, state, hanswer, hparse⟩ | ⟨state, hanswer, hparse⟩
    · rw [hparse, hanswer]
      exact ⟨rfl, ⟨h.settled.parsed hanswer, h.grammar_eq⟩⟩
    · -- what the parse has left unfinished is gone with the reset
      rw [hparse, hanswer]
      exact ⟨rfl, ⟨h.settled.failed hanswer, h.grammar_eq⟩⟩

/-- The next source of a worker fares as if it were the only one. -/
theorem Ready.parseOne (he : e.Forgets) (hg : e.refusal? g.language = none) {p : Parser σ}
    (h : Ready e g p) (source : Bytes) :
    (parseOne e g p source).1 = alone e g source ∧ Ready e g (parseOne e g p source).2 := by
  unfold Batch.parseOne
  rcases h.grammar_eq with hnone | hsome
  · -- the first source of the worker
    have hselect : p.select e g = .ok { p with grammar := some g } :=
      Parser.select_eq_ok_iff.mpr ⟨hg, rfl⟩
    have hready : Ready e g { p with grammar := some g } := ⟨h.settled, Or.inr rfl⟩
    rw [hnone, hselect]
    exact hready.parse he hg rfl source
  · rw [hsome]
    exact h.parse he hg hsome source

theorem Ready.parseRun (he : e.Forgets) (hg : e.refusal? g.language = none) {p : Parser σ}
    (h : Ready e g p) (sources : List Bytes) :
    parseRun e g p sources = sources.map (alone e g) := by
  induction sources generalizing p with
  | nil => rfl
  | cons source rest ih =>
    rcases h.parseOne he hg source with ⟨hresult, hnext⟩
    rw [Batch.parseRun, List.map_cons, ← hresult]
    exact congrArg _ (ih hnext)

/-! ## All workers -/

theorem parse_of_refused {message : String} (h : e.refusal? g.language = some message)
    (runs : List (List Bytes)) :
    parse e g runs = .error (.unusableGrammar g.name (.refused message)) := by
  unfold parse
  rw [Parser.select_of_refused h]

theorem parse_eq_map (he : e.Forgets) (hg : e.refusal? g.language = none)
    (runs : List (List Bytes)) : parse e g runs = .ok (runs.flatten.map (alone e g)) := by
  have hselect : (Parser.new e).select e g = .ok ⟨e.fresh, some g⟩ :=
    Parser.select_eq_ok_iff.mpr ⟨hg, rfl⟩
  have hruns : runs.flatMap (parseRun e g (Parser.new e)) =
      runs.flatMap (List.map (alone e g)) := by
    congr 1
    funext sources
    exact (ready_new e g).parseRun he hg sources
  unfold parse
  rw [hselect, hruns, List.map_flatten, List.flatMap_def]

/-- A batch has a result for each source, in the order of the sources, and it is the one that a new
parser with the grammar gives for this source alone: the tree that the engine makes of it, with no
word of what has changed, or the error that it makes none. How the sources are cut into runs makes
no difference, and a source has no part in the results of the others. Only a grammar that the
engine refuses is an error of the whole batch. -/
theorem parse_eq_alone (he : e.Forgets) (g : Grammar) {sources : List Bytes}
    {runs : List (List Bytes)} (hcut : runs.flatten = sources) :
    (∀ message, e.refusal? g.language = some message →
      parse e g runs = .error (.unusableGrammar g.name (.refused message))) ∧
    (e.refusal? g.language = none → ∃ results, parse e g runs = .ok results ∧
      results.length = sources.length ∧
      (∀ (i : Nat) source, sources[i]? = some source →
        results[i]? = some (alone e g source) ∧
        (∀ raw, (e.parse e.fresh g.language source).1 = some raw →
          results[i]? = some (.ok (.build g source raw none))) ∧
        ((e.parse e.fresh g.language source).1 = none →
          results[i]? = some (.error (Parser.noTree g source)))) ∧
      (∀ runs', runs'.flatten = sources → parse e g runs' = .ok results) ∧
      ∀ (i : Nat) other runs', runs'.flatten = sources.set i other →
        ∃ results', parse e g runs' = .ok results' ∧ results'.length = results.length ∧
          ∀ j, j ≠ i → results'[j]? = results[j]?) := by
  subst hcut
  constructor
  · intro message hmessage
    exact parse_of_refused hmessage runs
  · intro hg
    refine ⟨_, parse_eq_map he hg runs, List.length_map _, ?_, ?_, ?_⟩
    · -- slot `i` holds what a parser of its own says about source `i`
      intro i source hsource
      have hslot : (runs.flatten.map (alone e g))[i]? = some (alone e g source) := by
        rw [List.getElem?_map, hsource, Option.map_some]
      refine ⟨hslot, ?_, ?_⟩
      · intro raw hraw
        rw [hslot, alone_eq hg, hraw]
      · intro hnone
        rw [hslot, alone_eq hg, hnone]
    · -- another cut of the same sources
      intro runs' hruns'
      rw [parse_eq_map he hg runs', hruns']
    · -- source `i` replaced: the slots next to it do not look at it
      intro i other runs' hruns'
      refine ⟨_, parse_eq_map he hg runs', by simp [hruns'], ?_⟩
      intro j hj
      rw [hruns', List.getElem?_map, List.getElem?_map, List.getElem?_set_ne (Ne.symm hj)]

/-- Two workers share three sources, and the first of them keeps its parser for its second source:
the last result is the tree that the engine makes of the last source. The engine could not go on
behind a parse without a tree if it were not reset. -/
theorem last_of_three_sources :
    let info (kind : String) (kindId stop : Nat) : NodeInfo :=
      { kind, kindId, named := true, span := ⟨0, stop⟩, start := ⟨0, 0⟩, stop := ⟨0, stop⟩ }
    let empty : RawTree := .node (info "program" 133 0) []
    let name : RawTree := .node (info "program" 133 1)
      [.node (info "expression_statement" 149 1) [.node (info "identifier" 1 1) []]]
    let e : Engine Bool :=
      { fresh := false
        reset := fun _ => false
        refusal? := fun _ => none
        parse := fun unfinished _ source =>
          if unfinished then (none, true)
          else if source = [] then (some empty, false)
          else if source = [120] then (some name, false)
          else (none, true)
        reparse := fun unfinished _ _ _ _ => (none, unfinished) }
    let g : Grammar :=
      { registry := 0, serial := 0, name := "javascript", language := { abi := 14, kindCount := 1 } }
    e.Forgets ∧ ∃ results, parse e g [[[], [120]], [[120]]] = .ok results ∧
      results.length = 3 ∧ results[2]? = some (.ok (.build g [120] name none)) := by
  intro info empty name e g
  have hforgets : e.Forgets := by
    intro state hstate
    -- an engine that has nothing unfinished is in the state of a new one
    have hfresh : state = false := by
      induction hstate with
      | fresh => rfl
      | @parsed state next language source raw _ hparse ih =>
        subst ih
        change (if source = [] then (some empty, false)
          else if source = [120] then (some name, false) else (none, true)) = _ at hparse
        split at hparse
        · exact (congrArg Prod.snd hparse).symm
        · split at hparse
          · exact (congrArg Prod.snd hparse).symm
          · cases hparse
      | failed _ _ _ => rfl
    intro language source
    rw [hfresh]
  have hcut : [[[], [120]], [[120]]].flatten = ([[], [120], [120]] : List Bytes) := rfl
  rcases parse_eq_alone hforgets g hcut with ⟨-, hbatch⟩
  rcases hbatch rfl with ⟨results, hresults, hlength, hslots, -⟩
  exact ⟨hforgets, results, hresults, hlength, (hslots 2 [120] rfl).2.1 name rfl⟩

end Batch

end SyntaxTrees

import SyntaxTrees.Grammar.Basic
import SyntaxTrees.Source.Edit
import SyntaxTrees.Tree.Raw

/-!
# Parsing engines

The automaton that scans and parses a source is not part of this library. An `Engine` is what the
library asks of it: to accept the tables of a language, and to turn bytes into a raw tree, from
scratch or from an edited earlier tree. An engine may carry a state from call to call.
`Engine.replay` is an engine whose answers were recorded beforehand.
-/

namespace SyntaxTrees

/-- An engine with states of type `σ`. -/
structure Engine (σ : Type) where
  /-- The state of a new parser. -/
  fresh : σ
  /-- Drops what an unfinished parse has left behind. -/
  reset : σ → σ
  /-- Why the engine will not parse with a language; `none` if it will. -/
  refusal? : Language → Option String
  /-- A full parse; it may yield no tree. -/
  parse : σ → Language → Bytes → Option RawTree × σ
  /-- A parse that reuses an earlier tree, edited as given, and tells which spans changed. -/
  reparse : σ → Language → RawTree → LocatedEdit → Bytes → Option (RawTree × List Span) × σ

namespace Engine

/-- A recorded answer: a tree, and what changed if an earlier tree was reused. -/
structure Recording where
  tree : RawTree
  changed : List Span := []

/-- Answers each call with the next recording. -/
def replay : Engine (List Recording) where
  fresh := []
  reset := id
  refusal? _ := none
  parse
    | [], _, _ => (none, [])
    | r :: rest, _, _ => (some r.tree, rest)
  reparse
    | [], _, _, _, _ => (none, [])
    | r :: rest, _, _, _, _ => (some (r.tree, r.changed), rest)

end Engine

end SyntaxTrees

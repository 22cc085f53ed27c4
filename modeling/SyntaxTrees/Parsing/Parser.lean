import SyntaxTrees.Error
import SyntaxTrees.Parsing.Engine
import SyntaxTrees.Tree.Basic

/-!
# Parsers

A `Parser` turns sources into trees with one selected grammar at a time. Bytes that do not match
the grammar are no error. A reparse first asks for a selected grammar, then checks the edit, and
only then looks whether the earlier tree is of the selected grammar; if it is not, the source is
parsed from scratch.
-/

namespace SyntaxTrees

variable {σ : Type}

/-- A parser: the state of its engine and the selected grammar. -/
structure Parser (σ : Type) where
  state : σ
  grammar : Option Grammar

namespace Parser

def new (e : Engine σ) : Parser σ := ⟨e.fresh, none⟩

/-- Selects the grammar of the following parses. -/
def select (e : Engine σ) (p : Parser σ) (g : Grammar) : Except Error (Parser σ) :=
  match e.refusal? g.language with
  | some message => .error (.unusableGrammar g.name (.refused message))
  | none => .ok { p with grammar := some g }

/-- Drops what an unfinished parse has left behind. -/
def reset (e : Engine σ) (p : Parser σ) : Parser σ := { p with state := e.reset p.state }

def noTree (g : Grammar) (source : Bytes) : Error :=
  .engine s!"no tree produced for {source.length} bytes of {g.name} source"

def parse (e : Engine σ) (p : Parser σ) (source : Bytes) : Except Error Tree × Parser σ :=
  match p.grammar with
  | none => (.error .noGrammarSelected, p)
  | some g =>
    match e.parse p.state g.language source with
    | (some raw, state) => (.ok (.build g source raw none), { p with state })
    | (none, state) => (.error (noTree g source), { p with state := e.reset state })

/-- Parses a source that became of an earlier tree's source by an edit, with the help of that
tree if it is of the selected grammar. -/
def reparse (e : Engine σ) (p : Parser σ) (previous : Tree) (edit : Edit) (source : Bytes) :
    Except Error Tree × Parser σ :=
  match p.grammar with
  | none => (.error .noGrammarSelected, p)
  | some g =>
    match edit.check previous.source.length source.length with
    | .error fault => (.error (.invalidEdit fault.message), p)
    | .ok () =>
      if previous.grammar.Same g then
        match e.reparse p.state g.language previous.raw (edit.locate previous.source source)
            source with
        | (some (raw, changed), state) =>
          (.ok (.build g source raw (some changed)), { p with state })
        | (none, state) => (.error (noTree g source), { p with state := e.reset state })
      else parse e p source

def describe (p : Parser σ) : String :=
  Text.describeRecord "Parser"
    [("grammar", Text.describeOption (p.grammar.map fun g => Text.describeText g.name))] true

end Parser

end SyntaxTrees

import SyntaxTrees.Parsing.Parser

/-!
# Sessions

A `Session` is a parser together with the trees it has made, in the order in which they were made.
A copy of a tree is the same tree as the one that it was copied from: it keeps its `origin`.
-/

namespace SyntaxTrees

variable {σ : Type}

structure SessionTree where
  tree : Tree
  /-- The place of the tree that this one was copied from, or its own place. -/
  origin : Nat

/-- A parser and the trees made so far. -/
structure Session (σ : Type) where
  parser : Parser σ
  trees : Array SessionTree := #[]

namespace Session

/-- A request to a session. -/
inductive Request where
  | select (g : Grammar)
  | reset
  /-- Replaces the parser by a new one. -/
  | renew
  | parse (source : Bytes)
  /-- Parses a source that became of a tree's source by an edit. -/
  | reparse (previous : Tree) (edit : Edit) (source : Bytes)
  | copy (model : SessionTree)

def new (e : Engine σ) : Session σ := { parser := Parser.new e }

/-- Keeps the tree that a parse has made, if it has made one. -/
def keep (s : Session σ) (outcome : Except Error Tree × Parser σ) :
    Except Error Unit × Session σ :=
  match outcome with
  | (.ok tree, parser) =>
    (.ok (), { parser, trees := s.trees.push { tree, origin := s.trees.size } })
  | (.error err, parser) => (.error err, { s with parser })

def step (e : Engine σ) (s : Session σ) : Request → Except Error Unit × Session σ
  | .select g =>
    match s.parser.select e g with
    | .ok parser => (.ok (), { s with parser })
    | .error err => (.error err, s)
  | .reset => (.ok (), { s with parser := s.parser.reset e })
  | .renew => (.ok (), { s with parser := Parser.new e })
  | .parse source => s.keep (s.parser.parse e source)
  | .reparse previous edit source => s.keep (s.parser.reparse e previous edit source)
  | .copy model => (.ok (), { s with trees := s.trees.push model })

end Session

/-- Both are one tree: the roots, and nodes of equal index, are the same. -/
def SessionTree.Same (a b : SessionTree) : Prop := a.origin = b.origin

instance (a b : SessionTree) : Decidable (a.Same b) := inferInstanceAs (Decidable (_ = _))

end SyntaxTrees

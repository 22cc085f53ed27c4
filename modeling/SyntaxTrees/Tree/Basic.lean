import SyntaxTrees.Grammar.Basic
import SyntaxTrees.Tree.Arena

/-!
# Syntax trees

A `Tree` is the arena of what the engine made of a source, together with that source, the grammar
and, after an incremental parse, the spans whose structure changed. A `Node` is a tree with the
index of one of its entries. The engine lets its root start at the first token; here the root
covers the whole source.
-/

namespace SyntaxTrees

/-- An immutable concrete syntax tree. -/
structure Tree where
  grammar : Grammar
  source : Bytes
  arena : Arena
  /-- What the engine made of the source, kept for incremental parsing. -/
  raw : RawTree
  /-- What changed against the tree that this one was reparsed from; `none` after a full parse. -/
  changed : Option (List Span)

/-- A node of a tree, by its index in the arena. -/
structure Node where
  tree : Tree
  id : Nat

namespace Tree

/-- Lets an entry cover a whole source. -/
def widen (source : Bytes) (e : Entry) : Entry :=
  { e with
    span := ⟨0, source.length⟩
    start := .origin
    stop := .ofOffset source source.length }

/-- The tree of a source. -/
def build (grammar : Grammar) (source : Bytes) (raw : RawTree) (changed : Option (List Span)) :
    Tree where
  grammar
  source
  arena := (Arena.ofRaw raw).modify 0 (widen source)
  raw
  changed

/-- The root, whose index is zero. -/
def root (t : Tree) : Node := ⟨t, 0⟩

def size (t : Tree) : Nat := t.arena.size

def node? (t : Tree) (id : Nat) : Option Node := if id < t.size then some ⟨t, id⟩ else none

def describe (t : Tree) : String :=
  Text.describeRecord "Tree"
    [("grammar", Text.describeText t.grammar.name), ("source_len", toString t.source.length),
      ("nodes", toString t.size)] true

end Tree

namespace Node

def entry (n : Node) : Entry := n.tree.arena.getD n.id default

def withId (n : Node) (id : Nat) : Node := { n with id }

def kind (n : Node) : String := n.entry.kind

def span (n : Node) : Span := n.entry.span

/-- The bytes that the node covers; `none` if its span does not fit into the source. -/
def text? (n : Node) : Option Bytes := n.span.slice? n.tree.source

def text (n : Node) : Bytes := n.text?.getD []

/-- The node above; the root has none. -/
def parent? (n : Node) : Option Node := n.entry.parent.map n.withId

def childCount (n : Node) : Nat := n.entry.childCount

def child? (n : Node) (i : Nat) : Option Node :=
  if i < n.childCount then some (n.withId (n.entry.firstChild + i)) else none

def children (n : Node) : List Node := n.entry.children.map n.withId

def namedChildren (n : Node) : List Node := n.children.filter (·.entry.named)

/-- The first child that fills a field. -/
def childByField? (n : Node) (field : String) : Option Node :=
  n.children.find? (·.entry.field == some field)

/-- The node could not be parsed, or was put in by error recovery. -/
def isFaulty (n : Node) : Bool := n.entry.error || n.entry.missing

def describe (n : Node) : String :=
  "\x7bNode " ++ n.kind ++ " " ++ toString n.entry.start ++ " - " ++ toString n.entry.stop ++ "\x7d"

end Node

end SyntaxTrees

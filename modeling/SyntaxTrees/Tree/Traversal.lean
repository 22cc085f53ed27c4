import SyntaxTrees.Tree.Basic

/-!
# Walking through a tree

The nodes below a node, in pre-order, found with a list of the indices that are still to be
visited; and the descent to the smallest node around a span. No walk takes more steps than the
tree has nodes.
-/

namespace SyntaxTrees

/-- The indices visited from a list of pending ones: each before those below it. -/
def Tree.walk (t : Tree) : (steps : Nat) → (pending : List Nat) → List Nat
  | 0, _ => []
  | _, [] => []
  | steps + 1, id :: rest => id :: t.walk steps ((Node.mk t id).entry.children ++ rest)

namespace Node

def descendants (n : Node) : List Node := (n.tree.walk n.tree.size [n.id]).map n.withId

/-- Goes down to the first child that covers the target, as long as there is one. -/
def descend (target : Span) : (steps : Nat) → Node → Node
  | 0, n => n
  | steps + 1, n =>
    match n.children.find? fun c => c.span.Covers target with
    | some c => descend target steps c
    | none => n

/-- The smallest node at or below `n` that covers a span; `none` if `n` itself does not. -/
def smallestCovering? (n : Node) (target : Span) : Option Node :=
  if n.span.Covers target then some (descend target n.tree.size n) else none

end Node

namespace Tree

/-- All nodes in pre-order. -/
def descendants (t : Tree) : List Node := t.root.descendants

/-- The nodes that could not be parsed or were put in by error recovery, in pre-order. -/
def errorNodes (t : Tree) : List Node := t.descendants.filter (·.isFaulty)

/-- Some of the source could not be parsed. -/
def hasErrors (t : Tree) : Bool := t.root.entry.hasError

/-- The node of a kind that comes after `n` others of that kind in pre-order. -/
def nthOfKind? (t : Tree) (kind : String) (n : Nat) : Option Node :=
  (t.descendants.filter (·.kind == kind))[n]?

end Tree

end SyntaxTrees

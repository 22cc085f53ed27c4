import SyntaxTrees.Tree.Traversal

/-!
# S-expressions

The canonical text of a node: its kind and the texts of its named children, in brackets. Anonymous
children leave no trace, not even the nodes below them. The text is written with a list of what is
still owed, so the depth of a tree does not matter.
-/

namespace SyntaxTrees

inductive SExprTask where
  /-- The text of a node, after a blank if it is `spaced`. -/
  | node (id : Nat) (spaced : Bool)
  /-- A closing bracket. -/
  | close
deriving DecidableEq, Repr

/-- Carries out tasks, appending to a text. -/
def Tree.writeSExpr (t : Tree) : (steps : Nat) → String → List SExprTask → String
  | 0, out, _ => out
  | _, out, [] => out
  | steps + 1, out, .close :: rest => t.writeSExpr steps (out ++ ")") rest
  | steps + 1, out, .node id spaced :: rest =>
    let n : Node := ⟨t, id⟩
    t.writeSExpr steps (out ++ (if spaced then " (" else "(") ++ n.kind)
      (n.namedChildren.map (fun c => .node c.id true) ++ .close :: rest)

/-- Appends the canonical text of a node to a text. Every node is opened and closed at most once. -/
def Node.writeSExpr (n : Node) (out : String) : String :=
  n.tree.writeSExpr (2 * n.tree.size) out [.node n.id false]

/-- A node is displayed as its canonical text. -/
instance : ToString Node where
  toString n := n.writeSExpr ""

def Node.toSExpr (n : Node) : String := toString n

end SyntaxTrees

import SyntaxTrees.Source.Position

/-!
# Trees as the engine hands them over

A `RawTree` is a node with its children in source order. Its pre-order listing, in which every
node is paired with the number of its children, determines it: `ofPreorder?` rebuilds it.
-/

namespace SyntaxTrees

/-- What the engine says about one node. -/
structure NodeInfo where
  /-- The grammar rule or token. -/
  kind : String
  /-- The number of the kind in its grammar. -/
  kindId : Nat
  /-- A production, not a token. -/
  named : Bool := false
  /-- The node covers input that could not be parsed. -/
  error : Bool := false
  /-- Error recovery put the node in; it covers nothing. -/
  missing : Bool := false
  /-- The node may occur anywhere, like a comment. -/
  extra : Bool := false
  /-- The node or one below it is an error or missing. -/
  hasError : Bool := false
  span : Span
  start : Position
  stop : Position
  /-- The field that the node fills in its parent. -/
  field : Option String := none
deriving DecidableEq, Repr, Inhabited

/-- A node with its children. -/
inductive RawTree where
  | node (info : NodeInfo) (children : List RawTree)
deriving Repr, Inhabited

namespace RawTree

def info : RawTree → NodeInfo
  | node info _ => info

def children : RawTree → List RawTree
  | node _ children => children

/-- The tree as one that hangs below no parent: its root fills no field. -/
def detached : RawTree → RawTree
  | node info children => node { info with field := none } children

mutual

def size : RawTree → Nat
  | node _ children => sizeAll children + 1

def sizeAll : List RawTree → Nat
  | [] => 0
  | t :: rest => t.size + sizeAll rest

end

mutual

/-- Every node before the nodes below it, paired with the number of its children. -/
def preorder : RawTree → List (NodeInfo × Nat)
  | node info children => (info, children.length) :: preorderAll children

def preorderAll : List RawTree → List (NodeInfo × Nat)
  | [] => []
  | t :: rest => t.preorder ++ preorderAll rest

end

/-- Puts a node above as many of the trees to its right as it has children. -/
def adopt (entry : NodeInfo × Nat) (trees : List RawTree) : Option (List RawTree) :=
  let children := trees.take entry.2
  if children.length = entry.2 then some (node entry.1 children :: trees.drop entry.2) else none

/-- The tree with the given pre-order listing. The listing is read from its end. -/
def ofPreorder? (listing : List (NodeInfo × Nat)) : Option RawTree :=
  match listing.foldr (fun entry trees? => trees?.bind (adopt entry)) (some []) with
  | some [t] => some t
  | _ => none

theorem sizeAll_append (l m : List RawTree) : sizeAll (l ++ m) = sizeAll l + sizeAll m := by
  induction l with
  | nil => simp [sizeAll]
  | cons t rest ih =>
    simp only [List.cons_append, sizeAll, ih]
    omega

/-- A tree has one node more than the trees below its root. -/
theorem size_eq (t : RawTree) : t.size = sizeAll t.children + 1 := by
  cases t
  rfl

end RawTree

end SyntaxTrees

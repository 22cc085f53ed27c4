import SyntaxTrees.Tree.Raw

/-!
# Breadth-first arenas

An arena is an array with one entry per node, level by level, so that the children of a node lie
side by side and a node is named by the index of its entry. A `Copying` is an arena in the making:
every tree that was come across has its entry at once, and one found tree after the other has its
children looked up. These are appended, and only then is their run noted in the entry of their
parent. `Arena.ofRaw` goes on in this way until no found tree is left.
-/

namespace SyntaxTrees

/-- A node in an arena: its data, its parent, and the run of its children. -/
structure Entry extends NodeInfo where
  /-- The index of the parent; the root has none. -/
  parent : Option Nat
  /-- The index of the first child, if there is one. -/
  firstChild : Nat := 0
  childCount : Nat := 0
deriving DecidableEq, Repr, Inhabited

namespace Entry

/-- The entry of a node whose children have not been looked up. -/
def ofInfo (info : NodeInfo) (parent : Option Nat) : Entry := { info with parent }

/-- The entry with the run of its children noted. -/
def withRun (e : Entry) (first count : Nat) : Entry :=
  { e with firstChild := first, childCount := count }

def children (e : Entry) : List Nat := List.range' e.firstChild e.childCount

@[simp] theorem toNodeInfo_ofInfo (info : NodeInfo) (parent : Option Nat) :
    (ofInfo info parent).toNodeInfo = info := rfl

@[simp] theorem parent_ofInfo (info : NodeInfo) (parent : Option Nat) :
    (ofInfo info parent).parent = parent := rfl

@[simp] theorem toNodeInfo_withRun (e : Entry) (first count : Nat) :
    (e.withRun first count).toNodeInfo = e.toNodeInfo := rfl

@[simp] theorem parent_withRun (e : Entry) (first count : Nat) :
    (e.withRun first count).parent = e.parent := rfl

@[simp] theorem firstChild_withRun (e : Entry) (first count : Nat) :
    (e.withRun first count).firstChild = first := rfl

@[simp] theorem childCount_withRun (e : Entry) (first count : Nat) :
    (e.withRun first count).childCount = count := rfl

end Entry

abbrev Arena := Array Entry

/-- A tree on its way into an arena. -/
structure Copying where
  /-- The trees that were come across, in the order of their indices. -/
  found : Array RawTree
  /-- The entries of the found trees. -/
  entries : Arena
  /-- The first found tree whose children have not been looked up. -/
  next : Nat

namespace Copying

/-- Only the root has been come across. -/
def start (t : RawTree) : Copying where
  found := #[t.detached]
  entries := #[.ofInfo t.detached.info none]
  next := 0

def advance (c : Copying) (h : c.next < c.found.size) : Copying :=
  let children := c.found[c.next].children
  let first := c.found.size
  let found := c.found ++ children
  let entries := c.entries ++ children.map fun t => Entry.ofInfo t.info (some c.next)
  { found
    entries := entries.modify c.next (·.withRun first (found.size - first))
    next := c.next + 1 }

/-- The nodes of the found trees whose children have not been looked up, and of all trees below
them. -/
def pending (c : Copying) : Nat := RawTree.sizeAll (c.found.toList.drop c.next)

/-- Looking up children deals with one node: those below it were pending with it. -/
theorem pending_advance (c : Copying) (h : c.next < c.found.size) :
    (c.advance h).pending + 1 = c.pending := by
  have hlen : c.next < c.found.toList.length := by simpa using h
  have hsplit : c.found.toList.drop c.next =
      c.found[c.next] :: c.found.toList.drop (c.next + 1) := by
    simpa using List.drop_eq_getElem_cons hlen
  have hfound : (c.advance h).found.toList = c.found.toList ++ c.found[c.next].children := by
    simp [advance]
  have hnext : (c.advance h).next = c.next + 1 := rfl
  have hsize := RawTree.size_eq c.found[c.next]
  rw [pending, pending, hfound, hnext, hsplit, List.drop_append_of_le_length (by omega)]
  rw [RawTree.sizeAll_append, RawTree.sizeAll]
  omega

/-- Goes on until the children of every found tree have been looked up. -/
def run (c : Copying) : Copying :=
  if h : c.next < c.found.size then (c.advance h).run else c
termination_by c.pending
decreasing_by
  have := c.pending_advance h
  omega

end Copying

def Arena.ofRaw (t : RawTree) : Arena := (Copying.start t).run.entries

end SyntaxTrees

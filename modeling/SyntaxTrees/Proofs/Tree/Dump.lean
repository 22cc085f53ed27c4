import SyntaxTrees.Proofs.Tree.Preorder
import SyntaxTrees.Tree.Dump

/-!
# Dumps of copied trees

The loop that dumps a node enters each node below it once and leaves it once. Between entering a
node and leaving it, the ancestors that wait stay as they are (`Node.Copies.copy_node`), and by the
time the node is left its dump has been put together. So the dump of a node is that of the raw tree
which the node is a copy of (`Node.Copies.dump_eq`), whatever the number of steps that are granted
beyond those needed.

A dump of a node therefore consists of the data of the node and the dumps of its children
(`Tree.dump_structural`). Counting the nodes of a dump with a list of pending dumps gives their number
by recursion (`Dump.nodeCount_eq`), which is the length of the walk from the dumped node.
-/

namespace SyntaxTrees

/-! ## Dumps by recursion -/

namespace RawTree

mutual

/-- The dump of a raw tree, by recursion on the tree. -/
def dump : RawTree → Dump
  | node info children =>
    { kind := info.kind
      named := info.named
      field := info.field
      span := info.span
      start := info.start
      stop := info.stop
      error := info.error
      missing := info.missing
      children := dumpAll children }

def dumpAll : List RawTree → List Dump
  | [] => []
  | t :: rest => t.dump :: dumpAll rest

end

theorem dumpAll_eq_map (l : List RawTree) : dumpAll l = l.map dump := by
  induction l with
  | nil => rfl
  | cons t rest ih => rw [dumpAll, ih, List.map_cons]

mutual

/-- A dump has as many nodes as the raw tree. -/
theorem size_dump : (t : RawTree) → t.dump.size = t.size
  | node info children => by
    rw [dump, Dump.size, size, sizeAll_dumpAll children]

theorem sizeAll_dumpAll : (l : List RawTree) → Dump.sizeAll (dumpAll l) = sizeAll l
  | [] => rfl
  | t :: rest => by
    rw [dumpAll, Dump.sizeAll, sizeAll, size_dump t, sizeAll_dumpAll rest]

end

end RawTree

/-! ## Counting -/

namespace Dump

/-- Counting adds the nodes of all pending dumps to what was counted before. -/
theorem count_eq (counted : Nat) (pending : List Dump) :
    count counted pending = counted + sizeAll pending := by
  fun_induction count counted pending with
  | case1 counted => rfl
  | case2 counted d rest ih =>
    rw [ih, sizeAll_append, sizeAll, d.size_eq]
    omega

theorem nodeCount_eq (d : Dump) : d.nodeCount = d.size := by
  rw [nodeCount, count_eq, sizeAll, sizeAll, Nat.zero_add, Nat.add_zero]

end Dump

/-! ## The loop -/

namespace Dump

variable {t : Tree} {i copied : Nat} {done : List Dump} (steps : Nat)
  (ancestors : List Unfinished)

/-- The next child is entered. -/
theorem copy_enter {c : Node} (h : (Node.mk t i).child? copied = some c) :
    copy t (steps + 1) ⟨i, copied, done⟩ ancestors =
      copy t steps { id := c.id } (⟨i, copied, done⟩ :: ancestors) := by
  rw [copy.eq_def]
  simp only [h]

/-- A node without a further child is left. -/
theorem copy_leave (parent : Unfinished) (h : (Node.mk t i).child? copied = none) :
    copy t (steps + 1) ⟨i, copied, done⟩ (parent :: ancestors) =
      copy t steps ⟨parent.id, parent.copied + 1,
        Unfinished.finish ⟨i, copied, done⟩ t :: parent.done⟩ ancestors := by
  rw [copy.eq_def]
  simp only [h]

/-- The first node is finished when it has no further child. -/
theorem copy_last (h : (Node.mk t i).child? copied = none) :
    copy t steps ⟨i, copied, done⟩ [] = Unfinished.finish ⟨i, copied, done⟩ t := by
  cases steps with
  | zero => rfl
  | succ steps =>
    rw [copy.eq_def]
    simp only [h]

end Dump

namespace Node.Copies

open Dump (Unfinished copy)

/-- A node whose children have all been dumped has the dump of the raw tree. -/
theorem finish_eq {t : Tree} {i : Nat} {u : RawTree} (h : (Node.mk t i).Copies u) (copied : Nat) :
    Unfinished.finish ⟨i, copied, (RawTree.dumpAll u.children).reverse⟩ t = u.dump := by
  have hinfo := h.info_eq
  cases u with
  | node info children =>
    have hentry : (Node.mk t i).entry.toNodeInfo = info := hinfo
    rw [RawTree.dump, Unfinished.finish]
    simp [hentry, RawTree.children]

/-- Behind the copies of all trees below a root, a node has no further child. -/
theorem child?_length {n : Node} {u : RawTree} (h : n.Copies u) :
    n.child? u.children.length = none := by
  rw [child?_eq_getElem?, ← h.children.length_eq, List.getElem?_length]

mutual

/-- Between entering a node and leaving it, its dump is put into the node above. -/
theorem copy_node {t : Tree} {i : Nat} (more : Nat) (parent : Unfinished)
    (ancestors : List Unfinished) : {u : RawTree} → (Node.mk t i).Copies u →
      copy t (2 * RawTree.sizeAll u.children + (more + 1)) { id := i } (parent :: ancestors) =
        copy t more ⟨parent.id, parent.copied + 1, u.dump :: parent.done⟩ ancestors
  | .node info children, h => by
    have hbelow := copy_children i 0 (more + 1) [] (parent :: ancestors) h.children
    have hend := h.child?_length
    rw [← Nat.zero_add (RawTree.children _).length] at hend
    rw [hbelow, List.append_nil, Dump.copy_leave more ancestors parent hend, h.finish_eq]

/-- The remaining children of a node are dumped one after the other. -/
theorem copy_children {t : Tree} (i copied more : Nat) (done : List Dump)
    (ancestors : List Unfinished) : {us : List RawTree} →
      List.Forall₂ Copies ((Node.mk t i).children.drop copied) us →
      copy t (2 * RawTree.sizeAll us + more) ⟨i, copied, done⟩ ancestors =
        copy t more ⟨i, copied + us.length, (RawTree.dumpAll us).reverse ++ done⟩ ancestors
  | [], _ => by
    simp [RawTree.sizeAll, RawTree.dumpAll]
  | u :: us, h => by
    rcases List.forall₂_cons_right_iff.mp h with ⟨⟨t', j⟩, rest, hn, hrest, hdrop⟩
    have hchild : (Node.mk t i).child? copied = some ⟨t', j⟩ := by
      rw [child?_eq_getElem?, ← List.head?_drop, hdrop]
      rfl
    have htree : t' = t :=
      tree_of_mem_children (List.mem_of_mem_drop (hdrop ▸ List.mem_cons_self))
    subst htree
    have hbehind : List.Forall₂ Copies ((Node.mk t' i).children.drop (copied + 1)) us := by
      rw [← List.drop_drop, hdrop]
      exact hrest
    -- one step enters the child, the others are those of `copy_node`
    have hfirst := copy_node (2 * RawTree.sizeAll us + more) ⟨i, copied, done⟩ ancestors hn
    have hothers := copy_children i (copied + 1) more (u.dump :: done) ancestors hbehind
    have hsteps : 2 * RawTree.sizeAll (u :: us) + more =
        2 * RawTree.sizeAll u.children + (2 * RawTree.sizeAll us + more + 1) + 1 := by
      rw [RawTree.sizeAll, RawTree.size_eq]
      omega
    rw [hsteps, Dump.copy_enter _ ancestors hchild, hfirst, hothers]
    simp [RawTree.dumpAll, Nat.add_right_comm, Nat.add_assoc]

end

variable {n : Node} {u : RawTree}

/-- The dump of a node is the dump of the raw tree that it copies. -/
theorem dump_eq (h : n.Copies u) : n.dump = u.dump := by
  have hsize := h.size_le
  rw [u.size_eq] at hsize
  obtain ⟨more, hmore⟩ := Nat.exists_eq_add_of_le
    (show 2 * RawTree.sizeAll u.children + 1 ≤ 2 * n.tree.size by omega)
  have hsteps : 2 * n.tree.size = 2 * RawTree.sizeAll u.children + (more + 1) := by omega
  -- the first node is neither entered nor left, so there are steps to spare
  have hbelow := copy_children n.id 0 (more + 1) [] [] h.children
  have hend := h.child?_length
  rw [← Nat.zero_add u.children.length] at hend
  rw [Node.dump, hsteps, hbelow, List.append_nil, Dump.copy_last _ hend]
  exact h.finish_eq _

/-- The children of a dump are the dumps of the children. -/
theorem children_dump (h : n.Copies u) : n.dump.children = n.children.map Node.dump := by
  rw [map_eq dump_eq h.children, h.dump_eq, ← RawTree.dumpAll_eq_map]
  cases u
  rfl

/-- A dump is the data of the node, and the dumps of its children. -/
theorem dump_eq_data (h : n.Copies u) :
    n.dump =
      { kind := n.kind
        named := n.entry.named
        field := n.entry.field
        span := n.span
        start := n.entry.start
        stop := n.entry.stop
        error := n.entry.error
        missing := n.entry.missing
        children := n.children.map Node.dump } := by
  have hinfo := h.info_eq
  rw [← h.children_dump, h.dump_eq, kind, span]
  -- the members of a dump are the info's, which is the entry's
  cases u with
  | node info children =>
    have hentry : n.entry.toNodeInfo = info := hinfo
    simp only [RawTree.dump, hentry]

/-- The loop that dumps a node comes back to it, with nothing left to enter and with the ancestors
that waited before. -/
theorem exists_rounds (h : n.Copies u) :
    ∃ rounds < 2 * u.size, ∃ last : Unfinished,
      last.id = n.id ∧ n.child? last.copied = none ∧ last.finish n.tree = n.dump ∧
      ∀ more ancestors, copy n.tree (rounds + more) { id := n.id } ancestors =
        copy n.tree more last ancestors := by
  have hsize := u.size_eq
  refine ⟨2 * RawTree.sizeAll u.children, by omega,
    ⟨n.id, u.children.length, (RawTree.dumpAll u.children).reverse⟩, rfl, h.child?_length, ?_, ?_⟩
  · rw [h.dump_eq]
    exact h.finish_eq _
  · intro more ancestors
    have hbelow := copy_children n.id 0 more [] ancestors h.children
    rwa [List.append_nil, Nat.zero_add] at hbelow

end Node.Copies

/-! ## Built trees -/

/-- The dump of a node of a built tree is the data of the node together with the dumps of its
children, named and anonymous, in their order; so the dump of the child at a position stands at that
position. At each path, it is the dump by recursion of the subtree that the raw tree has there.

The loop that makes it comes to an end: in fewer than two rounds for each node it is back at the node
where it started, with no child left to enter and the same ancestors waiting, and the dump of the
node is what has been put together by then. Counting the nodes of any dump gives their number by
recursion, which for the dump of a node is the length of the walk from it. -/
theorem Tree.dump_structural (g : Grammar) (source : Bytes) (raw : RawTree)
    (changed : Option (List Span)) :
    let t := Tree.build g source raw changed
    (∀ path, (t.root.follow? path).map Node.dump =
      ((raw.stretched source).subtree? path).map RawTree.dump) ∧
    (∀ id : Fin t.size,
      let n := Node.mk t id
      n.dump =
        { kind := n.kind
          named := n.entry.named
          field := n.entry.field
          span := n.span
          start := n.entry.start
          stop := n.entry.stop
          error := n.entry.error
          missing := n.entry.missing
          children := n.children.map Node.dump } ∧
      (∀ i, n.dump.children[i]? = (n.child? i).map Node.dump) ∧
      (∃ rounds < 2 * t.size, ∃ last : Dump.Unfinished,
        last.id = id ∧ n.child? last.copied = none ∧ last.finish t = n.dump ∧
        ∀ more ancestors, Dump.copy t (rounds + more) { id := id } ancestors =
          Dump.copy t more last ancestors) ∧
      n.dump.nodeCount = n.descendants.length) ∧
    ∀ d : Dump, d.nodeCount = d.size := by
  intro t
  refine ⟨?_, ?_, Dump.nodeCount_eq⟩
  · -- a path leads to nothing in both trees, or to a node and what it copies
    intro path
    rcases follow?_copies g source raw changed path with
      ⟨hnone, hnone'⟩ | ⟨n, u, hsome, hsome', hu⟩
    · rw [hnone, hnone']
      rfl
    · rw [hsome, hsome', Option.map_some, Option.map_some, hu.dump_eq]
  · intro id n
    rcases exists_copied id.isLt with ⟨path, u, -, hu⟩
    refine ⟨hu.dump_eq_data, ?_, ?_, ?_⟩
    · intro i
      rw [hu.children_dump, List.getElem?_map, Node.child?_eq_getElem?]
    · -- the loop is given more steps than it needs
      rcases hu.exists_rounds with ⟨rounds, hrounds, hlast⟩
      have hsize : u.size ≤ t.size := hu.size_le
      exact ⟨rounds, by omega, hlast⟩
    · rw [Dump.nodeCount_eq, hu.dump_eq, RawTree.size_dump, hu.length_descendants]

end SyntaxTrees

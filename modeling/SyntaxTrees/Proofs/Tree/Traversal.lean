import SyntaxTrees.Proofs.Tree.Copied
import SyntaxTrees.Tree.Traversal

/-!
# The nodes below a node

The walk that lists the nodes below a node keeps a list of pending indices. With a step for each
node below it, it gets through one pending node to those behind it (`Node.Traverses`), so its list is
the pre-order by recursion (`Node.Copies.descendants_eq`). The listed nodes are those at the ends of
paths (`Node.Copies.mem_descendants_iff`), and as paths do not meet, no node is listed for two
children (`Node.Copies.child_unique`).
-/

namespace SyntaxTrees.Node

variable {n c d : Node} {u : RawTree}

theorem tree_of_mem_descendants (h : d ∈ n.descendants) : d.tree = n.tree := by
  rcases List.mem_map.mp h with ⟨i, -, rfl⟩
  rfl

/-! ## The walk -/

/-- The children of a visited node come before what was pending. -/
theorem walk_succ (n : Node) (steps : Nat) (rest : List Nat) :
    n.tree.walk (steps + 1) (n.id :: rest) =
      n.id :: n.tree.walk steps (n.children.map id ++ rest) := by
  have hids : n.children.map id = n.entry.children := by
    simp [children, Function.comp_def, withId]
  rw [hids]
  rfl

/-- With a step for each node of a raw tree, a walk gets through the node and those below it to what
was pending behind them. -/
def Traverses (n : Node) (u : RawTree) : Prop :=
  ∀ more rest, n.tree.walk (u.size + more) (n.id :: rest) =
    n.descendants.map id ++ n.tree.walk more rest

/-- A walk gets through several nodes one after the other. -/
theorem walk_all {t : Tree} {ns : List Node} {us : List RawTree}
    (h : List.Forall₂ Traverses ns us) (htree : ∀ c ∈ ns, c.tree = t) (more : Nat)
    (rest : List Nat) :
    t.walk (RawTree.sizeAll us + more) (ns.map id ++ rest) =
      (ns.flatMap descendants).map id ++ t.walk more rest := by
  induction h with
  | nil => simp [RawTree.sizeAll]
  | @cons c v ns us hc _ ih =>
    -- the first node is walked through before the others are reached
    cases htree c List.mem_cons_self
    have hothers := ih fun c hc => htree c (List.mem_cons_of_mem _ hc)
    have hsteps : RawTree.sizeAll (v :: us) + more = v.size + (RawTree.sizeAll us + more) := by
      rw [RawTree.sizeAll, Nat.add_assoc]
    rw [hsteps, List.map_cons, List.cons_append, hc, hothers, List.flatMap_cons, List.map_append,
      List.append_assoc]

namespace Copies

theorem descendants_of_traverses (h : n.Copies u)
    (hchildren : List.Forall₂ Traverses n.children u.children) :
    n.descendants = n :: n.children.flatMap descendants := by
  rcases Nat.exists_eq_add_of_le h.size_le with ⟨more, hmore⟩
  have hsteps : n.tree.size = RawTree.sizeAll u.children + more + 1 := by
    have hroot := u.size_eq
    omega
  have hwalk := walk_all hchildren (fun c hc => tree_of_mem_children hc) more []
  have hdone : n.tree.walk more [] = [] := by
    cases more <;> rfl
  -- the nodes below the children are nodes of the same tree, so their indices are enough
  have hsame : ∀ d ∈ n.children.flatMap descendants, n.withId d.id = d := by
    intro d hd
    rcases List.mem_flatMap.mp hd with ⟨c, hc, hdc⟩
    rw [withId, ← tree_of_mem_children hc, ← tree_of_mem_descendants hdc]
  rw [descendants, hsteps, walk_succ, hwalk, hdone, List.append_nil, List.map_cons, List.map_map]
  exact congrArg (n :: ·) ((List.map_congr_left hsame).trans (List.map_id' _))

theorem traverses_of_children (h : n.Copies u)
    (hchildren : List.Forall₂ Traverses n.children u.children) : n.Traverses u := by
  intro more rest
  have hsteps : u.size + more = RawTree.sizeAll u.children + more + 1 := by
    have hroot := u.size_eq
    omega
  rw [hsteps, walk_succ, walk_all hchildren (fun c hc => tree_of_mem_children hc),
    h.descendants_of_traverses hchildren, List.map_cons, List.cons_append]

theorem traverses (h : n.Copies u) : n.Traverses u := by
  apply h.induction_pairs
  intro m v hm ih
  exact hm.traverses_of_children (forall₂_of_mem hm.children ih)

/-- The node comes first, and then the nodes below its children, one child after the other. -/
theorem descendants_eq (h : n.Copies u) : n.descendants = n :: n.children.flatMap descendants :=
  h.descendants_of_traverses (h.children.imp fun _ _ hc => hc.traverses)

/-! ## Paths to the listed nodes -/

/-- The listed nodes are those at the ends of paths. -/
theorem mem_descendants_iff (h : n.Copies u) :
    d ∈ n.descendants ↔ ∃ path, n.follow? path = some d := by
  apply h.induction (P := fun n => d ∈ n.descendants ↔ ∃ path, n.follow? path = some d)
  intro m v hm ih
  rw [hm.descendants_eq, List.mem_cons, List.mem_flatMap]
  constructor
  · -- the way to a node below starts with the child that it is below
    rintro (rfl | ⟨c, hc, hdc⟩)
    · exact ⟨[], rfl⟩
    · rcases (ih c hc).mp hdc with ⟨path, hpath⟩
      rcases mem_children_iff.mp hc with ⟨i, hi⟩
      exact ⟨i :: path, by rw [follow?, hi, Option.bind_some, hpath]⟩
  · rintro ⟨path, hpath⟩
    cases path with
    | nil =>
      cases hpath
      exact Or.inl rfl
    | cons i path =>
      rcases Option.bind_eq_some_iff.mp hpath with ⟨c, hi, hd⟩
      have hc : c ∈ m.children := mem_children_iff.mpr ⟨i, hi⟩
      exact Or.inr ⟨c, hc, (ih c hc).mpr ⟨path, hd⟩⟩

/-- Two paths from a node do not end at one node: with the path to the node in front of them, they
are paths from the root. -/
theorem follow?_injective (h : n.Copies u) {path path' : List Nat} (hp : n.follow? path = some d)
    (hp' : n.follow? path' = some d) : path = path' := by
  rcases h with ⟨l, hlists, hu⟩
  rcases Tree.exists_path hlists n.id (List.getElem?_eq_some_iff.mp hu).1 with ⟨front, hfront⟩
  have hpos : 0 < l.length := List.length_pos_iff.mpr hlists.ne_nil
  have happend : ∀ {q}, n.follow? q = some d → n.tree.root.follow? (front ++ q) = some d := by
    intro q hq
    rw [follow?_append, hfront, Option.bind_some]
    exact hq
  exact List.append_cancel_left (Tree.follow?_injective hlists (List.getElem?_eq_getElem hpos)
    (happend hp) (happend hp'))

/-- The path to a node that is listed for a child leads through that child. -/
theorem exists_path_through (h : n.Copies u) (hc : c ∈ n.children) (hd : d ∈ c.descendants) :
    ∃ i path, n.child? i = some c ∧ n.follow? (i :: path) = some d := by
  rcases h.exists_of_mem_children hc with ⟨v, -, hv⟩
  rcases hv.mem_descendants_iff.mp hd with ⟨path, hpath⟩
  rcases mem_children_iff.mp hc with ⟨i, hi⟩
  exact ⟨i, path, hi, by rw [follow?, hi, Option.bind_some, hpath]⟩

/-- No node is listed for two children. -/
theorem child_unique (h : n.Copies u) {c c' : Node} (hc : c ∈ n.children) (hc' : c' ∈ n.children)
    (hd : d ∈ c.descendants) (hd' : d ∈ c'.descendants) : c = c' := by
  rcases h.exists_path_through hc hd with ⟨i, path, hi, hpath⟩
  rcases h.exists_path_through hc' hd' with ⟨i', path', hi', hpath'⟩
  cases h.follow?_injective hpath hpath'
  exact Option.some.inj (hi.symm.trans hi')

/-- A node is not listed for its children. -/
theorem not_mem_descendants_child (h : n.Copies u) (hc : c ∈ n.children) : n ∉ c.descendants := by
  intro hn
  rcases h.exists_path_through hc hn with ⟨i, path, -, hpath⟩
  have hself : n.follow? [] = some n := rfl
  cases h.follow?_injective hself hpath

end Copies

end SyntaxTrees.Node

import Mathlib.Data.List.Forall2
import SyntaxTrees.Proofs.Tree.Copy

/-!
# Nodes and the trees that they copy

`Node.Copies` relates a node to the raw tree that was copied to it and below it. It holds of the
root of a built tree (`Tree.copies_root`) and of every other node for some subtree
(`Tree.exists_copied`), and it hands itself down to the children (`Node.Copies.children`), so that
an induction over raw trees says something about nodes.
-/

namespace SyntaxTrees

/-! ## Sizes of subtrees -/

namespace RawTree

/-- The nodes of several trees are their roots and the nodes of the trees below these. -/
theorem sizeAll_eq_flatMap (l : List RawTree) :
    sizeAll l = l.length + sizeAll (l.flatMap children) := by
  induction l with
  | nil => rfl
  | cons t rest ih =>
    rw [List.flatMap_cons, sizeAll_append, sizeAll, ih, size_eq, List.length_cons]
    omega

theorem size_le_sizeAll {t : RawTree} {l : List RawTree} (h : t ∈ l) : t.size ≤ sizeAll l := by
  rcases List.append_of_mem h with ⟨front, back, rfl⟩
  rw [sizeAll_append, sizeAll]
  omega

theorem size_le_of_mem_children {t u : RawTree} (h : u ∈ t.children) : u.size ≤ t.size := by
  have hle := size_le_sizeAll h
  rw [size_eq t]
  omega

/-- What holds of a tree and goes down to the trees below a root holds of every subtree. -/
theorem subtree?_induction {P : RawTree → Prop} (hdown : ∀ t, P t → ∀ u ∈ t.children, P u)
    {t u : RawTree} {path : List Nat} (ht : P t) (hu : t.subtree? path = some u) : P u := by
  induction path generalizing t with
  | nil =>
    cases hu
    exact ht
  | cons i path ih =>
    rcases Option.bind_eq_some_iff.mp hu with ⟨c, hc, hcu⟩
    exact ih (hdown t ht c (List.mem_of_getElem? hc)) hcu

theorem size_subtree?_le {t u : RawTree} {path : List Nat} (h : t.subtree? path = some u) :
    u.size ≤ t.size :=
  subtree?_induction (P := fun v => v.size ≤ t.size)
    (fun _ hv _ hw => Nat.le_trans (size_le_of_mem_children hw) hv) (Nat.le_refl _) h

end RawTree

/-- The root of a complete list is the tree that all members are nodes of. -/
theorem Arena.Lists.size_head {a : Arena} {t : RawTree} {rest : List RawTree}
    (h : a.Lists (t :: rest) (t :: rest).length) : t.size = a.size := by
  have htail : rest = (t :: rest).flatMap RawTree.children := by simpa using h.tail_eq
  have hsize := RawTree.sizeAll_eq_flatMap (t :: rest)
  rw [← htail, RawTree.sizeAll] at hsize
  rw [h.size_eq]
  omega

/-! ## Copies -/

/-- The node and those below it are a copy of a raw tree. -/
def Node.Copies (n : Node) (u : RawTree) : Prop :=
  ∃ l, n.tree.arena.Lists l l.length ∧ l[n.id]? = some u

/-- The child at a position is the member of the list of children at that position. -/
theorem Node.child?_eq_getElem? (n : Node) (i : Nat) : n.child? i = n.children[i]? := by
  by_cases hi : i < n.entry.childCount
  · simp [child?, children, Entry.children, childCount, hi]
  · simp [child?, children, Entry.children, childCount, hi]

theorem Node.mem_children_iff {n c : Node} : c ∈ n.children ↔ ∃ i, n.child? i = some c := by
  simp only [List.mem_iff_getElem?, child?_eq_getElem?]

theorem Node.tree_of_mem_children {n c : Node} (h : c ∈ n.children) : c.tree = n.tree := by
  rcases List.mem_map.mp h with ⟨i, -, rfl⟩
  rfl

namespace Node.Copies

variable {n : Node} {u : RawTree}

/-- A subtree has no more nodes than the whole tree. -/
theorem size_le (h : n.Copies u) : u.size ≤ n.tree.size := by
  rcases h with ⟨l, hlists, hu⟩
  rcases Tree.exists_path hlists n.id (List.getElem?_eq_some_iff.mp hu).1 with ⟨path, hpath⟩
  cases l with
  | nil => exact absurd rfl hlists.ne_nil
  | cons t rest =>
    -- the node is reached from the root, so that what it copies is part of what the root copies
    rcases follow?_eq (n := n.tree.root) hlists rfl path with ⟨hnone, -⟩ | ⟨i, v, hsome, hsub, hv⟩
    · simp [hpath] at hnone
    · rw [hpath] at hsome
      cases hsome
      rw [hu] at hv
      cases hv
      rw [Tree.size, ← hlists.size_head]
      exact RawTree.size_subtree?_le hsub

theorem id_lt_size (h : n.Copies u) : n.id < n.tree.size := by
  rcases h with ⟨l, hlists, hu⟩
  rw [Tree.size, hlists.size_eq]
  exact (List.getElem?_eq_some_iff.mp hu).1

theorem info_eq (h : n.Copies u) : n.entry.toNodeInfo = u.info := by
  rcases h with ⟨l, hlists, hu⟩
  exact (entry_eq hlists hu).1

theorem kind_eq (h : n.Copies u) : n.kind = u.info.kind := congrArg NodeInfo.kind h.info_eq

/-- The children of a node are copies of the trees below the root of its tree, in their order. -/
theorem children (h : n.Copies u) : List.Forall₂ Node.Copies n.children u.children := by
  rcases h with ⟨l, hlists, hu⟩
  rcases entry_eq hlists hu with ⟨-, hfirst, hcount⟩
  have hcount' : n.entry.childCount = u.children.length := hcount
  rw [List.forall₂_iff_get]
  refine ⟨by simp [Node.children, Entry.children, hcount'], fun k hk hk' => ?_⟩
  have hrun := hlists.getElem?_run hu hk'
  rw [List.getElem?_eq_getElem hk'] at hrun
  refine ⟨l, by simpa [Node.children, withId] using hlists, ?_⟩
  simpa [Node.children, Entry.children, withId, hfirst] using hrun

/-- The named children of a node are copies of the named trees below the root of its tree. -/
theorem namedChildren (h : n.Copies u) :
    List.Forall₂ Node.Copies n.namedChildren (u.children.filter (·.info.named)) := by
  refine List.rel_filter (fun c v hcv => ?_) h.children
  show c.entry.named = true ↔ v.info.named = true
  rw [← hcv.info_eq]

/-- What a node shares with the tree that it copies, nodes share with the trees that they copy. -/
theorem map_eq {α : Type} {f : Node → α} {g : RawTree → α}
    (hfg : ∀ {c : Node} {v : RawTree}, c.Copies v → f c = g v) {ns : List Node}
    {us : List RawTree} (h : List.Forall₂ Node.Copies ns us) : ns.map f = us.map g := by
  induction h with
  | nil => rfl
  | cons hc _ ih => rw [List.map_cons, List.map_cons, hfg hc, ih]

theorem exists_of_mem_children (h : n.Copies u) {c : Node} (hc : c ∈ n.children) :
    ∃ v ∈ u.children, c.Copies v := by
  have hchildren := h.children
  rcases List.getElem_of_mem hc with ⟨i, hi, rfl⟩
  have hi' : i < u.children.length := hchildren.length_eq ▸ hi
  exact ⟨u.children[i], List.getElem_mem hi', hchildren.get hi hi'⟩

/-- What a node has if all its children have it, every copy of a raw tree has. The induction is on
the size of the raw tree. -/
theorem induction {P : Node → Prop}
    (step : ∀ m v, m.Copies v → (∀ c ∈ m.children, P c) → P m) (h : n.Copies u) : P n := by
  induction hsize : u.size using Nat.strongRecOn generalizing n u with
  | ind size ih =>
    apply step n u h
    intro c hc
    rcases h.exists_of_mem_children hc with ⟨v, hv, hcopy⟩
    have hlt : v.size < size := by
      have hle := RawTree.size_le_sizeAll hv
      have hroot := u.size_eq
      omega
    exact ih v.size hlt hcopy rfl

/-- What a node and the raw tree below it have in common if all children and the raw trees below them
have it in common, all copies and their raw trees have in common. -/
theorem induction_pairs {P : Node → RawTree → Prop}
    (step : ∀ m v, m.Copies v → (∀ c ∈ m.children, ∀ w, c.Copies w → P c w) → P m v)
    (h : n.Copies u) : P n u := by
  have hall : ∀ v, n.Copies v → P n v := by
    apply h.induction
    intro m _ _ ih v hv
    exact step m v hv ih
  exact hall u h

theorem forall₂_of_mem {P : Node → RawTree → Prop} {ns : List Node} {us : List RawTree}
    (h : List.Forall₂ Node.Copies ns us) (hP : ∀ c ∈ ns, ∀ w, c.Copies w → P c w) :
    List.Forall₂ P ns us :=
  ((List.forall₂_and_left ns us).mpr ⟨hP, h⟩).imp fun _ w hc => hc.1 w hc.2

end Node.Copies

/-! ## Built trees -/

namespace Tree

variable (g : Grammar) (source : Bytes) (raw : RawTree) (changed : Option (List Span))

theorem copies_root : (build g source raw changed).root.Copies (raw.stretched source) := by
  rcases lists_build g source raw changed with ⟨rest, hlists, -, -⟩
  exact ⟨_, hlists, rfl⟩

/-- A path through a built tree leads to a copy of the subtree that it leads to in the raw tree. -/
theorem follow?_copies (path : List Nat) :
    ((build g source raw changed).root.follow? path = none ∧
      (raw.stretched source).subtree? path = none) ∨
    ∃ n u, (build g source raw changed).root.follow? path = some n ∧
      (raw.stretched source).subtree? path = some u ∧ n.Copies u := by
  rcases lists_build g source raw changed with ⟨rest, hlists, -, -⟩
  rcases Node.follow?_eq (n := (build g source raw changed).root) hlists rfl path with
    hnone | ⟨i, u, hsome, hsub, hu⟩
  · exact Or.inl hnone
  · exact Or.inr ⟨_, u, hsome, hsub, _, hlists, hu⟩

variable {g source raw changed}

theorem size_build : (build g source raw changed).size = raw.size := by
  rcases lists_build g source raw changed with ⟨rest, hlists, hlength, -⟩
  exact hlists.size_eq.trans hlength

/-- Every node of a built tree is a copy of some subtree. -/
theorem exists_copied {id : Nat} (h : id < (build g source raw changed).size) :
    ∃ path u, (raw.stretched source).subtree? path = some u ∧
      (Node.mk (build g source raw changed) id).Copies u := by
  rcases lists_build g source raw changed with ⟨rest, hlists, -, -⟩
  rcases exists_path hlists id (hlists.size_eq ▸ h) with ⟨path, hpath⟩
  rcases follow?_copies g source raw changed path with
    ⟨hnone, -⟩ | ⟨n, u, hsome, hsub, hu⟩
  · simp [hpath] at hnone
  · rw [hpath] at hsome
    cases hsome
    exact ⟨path, u, hsub, hu⟩

end Tree

end SyntaxTrees

import Mathlib.Data.List.Nodup
import SyntaxTrees.Proofs.Tree.Forest
import SyntaxTrees.Proofs.Tree.Traversal

/-!
# The walk as a pre-order

A walk can be stopped after any number of visits: `Tree.pendingAfter` is what it has pending then, and
`Tree.walk_add` goes on from there. The nodes still to come are those below the pending ones, one
pending node after the other (`Tree.walk_pending`). So a walk from a node of a built tree lists every
node that reaches it by going up (`Node.Copies.mem_descendants_iff_ancestor?`), each of them once
(`Node.Copies.nodup_descendants`), in the order of the pre-order listing of the raw tree
(`Node.Copies.listing_descendants`). `Tree.build_preorder` puts this together.
-/

namespace SyntaxTrees

/-! ## Pre-order listings of raw trees -/

namespace RawTree

theorem preorder_eq (t : RawTree) :
    t.preorder = (t.info, t.children.length) :: preorderAll t.children := by
  cases t
  rfl

mutual

theorem length_preorder : (t : RawTree) → t.preorder.length = t.size
  | node info children => by
    rw [preorder, size, List.length_cons, length_preorderAll children]

theorem length_preorderAll : (l : List RawTree) → (preorderAll l).length = sizeAll l
  | [] => rfl
  | t :: rest => by
    rw [preorderAll, sizeAll, List.length_append, length_preorder t, length_preorderAll rest]

end

end RawTree

/-! ## Walks that are stopped -/

namespace Tree

variable {t : Tree} {pending : List Nat}

/-- What a walk has pending after some visits: each visit puts the children of a node in its
place. -/
def pendingAfter (t : Tree) : (visits : Nat) → (pending : List Nat) → List Nat
  | 0, pending => pending
  | _, [] => []
  | visits + 1, id :: rest => t.pendingAfter visits ((Node.mk t id).entry.children ++ rest)

/-- A stopped walk goes on from what it has pending. -/
theorem walk_add (t : Tree) (visits more : Nat) (pending : List Nat) :
    t.walk (visits + more) pending =
      t.walk visits pending ++ t.walk more (t.pendingAfter visits pending) := by
  induction visits generalizing pending with
  | zero => simp [walk, pendingAfter]
  | succ visits ih =>
    cases pending with
    | nil =>
      -- once nothing is pending, no visit lists anything
      have hdone : ∀ steps, t.walk steps [] = [] := by
        intro steps
        cases steps <;> rfl
      rw [hdone, hdone, pendingAfter, hdone, List.append_nil]
      exact Nat.succ_ne_zero visits
    | cons id rest =>
      rw [Nat.add_right_comm, walk, walk, pendingAfter, ih, List.cons_append]

/-- The nodes below pending ones, one pending node after the other. -/
def below (t : Tree) (pending : List Nat) : List Node :=
  pending.flatMap fun id => (Node.mk t id).descendants

def AllCopies (t : Tree) (pending : List Nat) : Prop := ∀ i ∈ pending, ∃ u, (Node.mk t i).Copies u

/-- A visit puts copies in the place of a copy. -/
theorem AllCopies.visit {id : Nat} {rest : List Nat} (h : t.AllCopies (id :: rest)) :
    t.AllCopies ((Node.mk t id).entry.children ++ rest) := by
  intro i hi
  rcases List.mem_append.mp hi with hi | hi
  · rcases h id List.mem_cons_self with ⟨u, hu⟩
    have hchild : Node.mk t i ∈ (Node.mk t id).children := List.mem_map.mpr ⟨i, hi, rfl⟩
    rcases hu.exists_of_mem_children hchild with ⟨v, -, hv⟩
    exact ⟨v, hv⟩
  · exact h i (List.mem_cons_of_mem _ hi)

theorem AllCopies.pendingAfter (h : t.AllCopies pending) (visits : Nat) :
    t.AllCopies (t.pendingAfter visits pending) := by
  induction visits generalizing pending with
  | zero => exact h
  | succ visits ih =>
    cases pending with
    | nil => exact h
    | cons id rest => exact ih h.visit

/-- The visited node is the only one that is no longer to come. -/
theorem AllCopies.below_cons {id : Nat} {rest : List Nat} (h : t.AllCopies (id :: rest)) :
    t.below (id :: rest) = ⟨t, id⟩ :: t.below ((Node.mk t id).entry.children ++ rest) := by
  rcases h id List.mem_cons_self with ⟨u, hu⟩
  have hchildren : (Node.mk t id).children.flatMap Node.descendants =
      t.below (Node.mk t id).entry.children := by
    rw [Node.children, List.flatMap_map]
    rfl
  rw [below, List.flatMap_cons, hu.descendants_eq, hchildren, below, below, List.flatMap_append,
    List.cons_append]

/-- Every pending node is itself still to come. -/
theorem AllCopies.eq_nil_of_below (h : t.AllCopies pending) (hbelow : t.below pending = []) :
    pending = [] := by
  cases pending with
  | nil => rfl
  | cons id rest => simp [h.below_cons] at hbelow

/-- At every moment of a walk, the nodes listed so far are the first ones below those it started
with, and the nodes below what is pending are the others. -/
theorem walk_pending (h : t.AllCopies pending) (visits : Nat) :
    t.walk visits pending = ((t.below pending).take visits).map Node.id ∧
      t.below (t.pendingAfter visits pending) = (t.below pending).drop visits := by
  induction visits generalizing pending with
  | zero => exact ⟨rfl, rfl⟩
  | succ visits ih =>
    cases pending with
    | nil => exact ⟨rfl, rfl⟩
    | cons id rest =>
      rcases ih h.visit with ⟨hwalk, hpending⟩
      rw [h.below_cons, walk, pendingAfter, hwalk, hpending]
      exact ⟨rfl, rfl⟩

end Tree

/-! ## Going up from the listed nodes -/

namespace Node

variable {n c d : Node} {u : RawTree}

/-- What a pre-order listing says about the node. -/
def listing (n : Node) : NodeInfo × Nat := (n.entry.toNodeInfo, n.childCount)

theorem length_children (n : Node) : n.children.length = n.childCount := by
  simp [children, Entry.children, childCount]

/-- Going up goes on from where the first steps end. -/
theorem ancestor?_add (d : Node) (k m : Nat) :
    d.ancestor? (k + m) = (d.ancestor? k).bind (·.ancestor? m) := by
  induction k generalizing d with
  | zero => rw [Nat.zero_add, ancestor?, Option.bind_some]
  | succ k ih =>
    rw [Nat.add_right_comm, ancestor?, ancestor?, Option.bind_assoc]
    congr 1
    funext p
    exact ih p

theorem ancestor?_succ (d : Node) (k : Nat) :
    d.ancestor? (k + 1) = (d.ancestor? k).bind Node.parent? := by
  have hstep : ∀ p : Node, p.ancestor? 1 = p.parent? := by
    intro p
    simp only [ancestor?, Option.bind_fun_some]
  rw [ancestor?_add]
  simp only [hstep]

theorem tree_of_parent? (h : d.parent? = some n) : n.tree = d.tree := by
  rcases Option.map_eq_some_iff.mp h with ⟨i, -, rfl⟩
  rfl

theorem listing_descendants_all {ns : List Node} {us : List RawTree}
    (h : List.Forall₂ (fun c v => c.descendants.map listing = v.preorder) ns us) :
    (ns.flatMap descendants).map listing = RawTree.preorderAll us := by
  induction h with
  | nil => rfl
  | cons hc _ ih => rw [List.flatMap_cons, List.map_append, hc, ih, RawTree.preorderAll]

namespace Copies

/-- A node is a child of its parent, and its parent is the node that it is a child of. -/
theorem mem_children_iff_parent? (h : n.Copies u) : c ∈ n.children ↔ c.parent? = some n := by
  rcases h with ⟨l, hlists, hu⟩
  constructor
  · intro hc
    rcases Node.mem_children_iff.mp hc with ⟨i, hi⟩
    exact parent?_child hlists hu hi
  · intro hc
    have htree := tree_of_parent? hc
    rcases existsUnique_child? (htree ▸ hlists) hc with ⟨i, hi, -⟩
    exact Node.mem_children_iff.mpr ⟨i, hi⟩

theorem childCount_eq (h : n.Copies u) : n.childCount = u.children.length := by
  rw [← h.children.length_eq, length_children]

theorem listing_eq (h : n.Copies u) : n.listing = (u.info, u.children.length) := by
  rw [listing, h.info_eq, h.childCount_eq]

/-- The listed nodes have the data and the numbers of children of the pre-order listing. -/
theorem listing_descendants (h : n.Copies u) : n.descendants.map listing = u.preorder := by
  apply h.induction_pairs (P := fun n u => n.descendants.map listing = u.preorder)
  intro m v hm ih
  rw [hm.descendants_eq, List.map_cons, listing_descendants_all (forall₂_of_mem hm.children ih),
    v.preorder_eq, hm.listing_eq]

theorem length_descendants (h : n.Copies u) : n.descendants.length = u.size := by
  rw [← u.length_preorder, ← h.listing_descendants, List.length_map]

/-- The listed nodes are copies like the first one. -/
theorem of_mem_descendants (h : n.Copies u) (hd : d ∈ n.descendants) : ∃ v, d.Copies v := by
  refine h.induction (P := fun n => d ∈ n.descendants → ∃ v, d.Copies v) ?_ hd
  intro m v hm ih hd
  rw [hm.descendants_eq, List.mem_cons, List.mem_flatMap] at hd
  rcases hd with rfl | ⟨c, hc, hdc⟩
  · exact ⟨v, hm⟩
  · exact ih c hc hdc

/-- No node is listed twice: neither for a node and one of its children, nor for two children. -/
theorem nodup_descendants (h : n.Copies u) : n.descendants.Nodup := by
  apply h.induction (P := fun n => n.descendants.Nodup)
  intro m v hm ih
  have hchildren : m.children.Nodup := by
    refine List.Nodup.map ?_ List.nodup_range'
    intro i j hij
    exact congrArg Node.id hij
  rw [hm.descendants_eq, List.nodup_cons, List.nodup_flatMap]
  refine ⟨?_, ih, ?_⟩
  · -- a node is not below itself
    intro hself
    rcases List.mem_flatMap.mp hself with ⟨c, hc, hmc⟩
    exact hm.not_mem_descendants_child hc hmc
  · -- and no node is below two children
    refine hchildren.imp_of_mem ?_
    intro a b ha hb hab d hda hdb
    exact hab (hm.child_unique ha hb hda hdb)

/-- The listed nodes are those from which going up leads to the node. -/
theorem mem_descendants_iff_ancestor? (h : n.Copies u) :
    d ∈ n.descendants ↔ ∃ k, d.ancestor? k = some n := by
  constructor
  · apply h.induction (P := fun n => d ∈ n.descendants → ∃ k, d.ancestor? k = some n)
    intro m v hm ih hd
    rw [hm.descendants_eq, List.mem_cons, List.mem_flatMap] at hd
    rcases hd with rfl | ⟨c, hc, hdc⟩
    · exact ⟨0, rfl⟩
    · rcases ih c hc hdc with ⟨k, hk⟩
      refine ⟨k + 1, ?_⟩
      rw [ancestor?_succ, hk, Option.bind_some]
      exact hm.mem_children_iff_parent?.mp hc
  · rintro ⟨k, hk⟩
    -- the induction is on the last step up, which leads from a child to the node
    induction k generalizing n u with
    | zero =>
      cases hk
      rw [h.descendants_eq]
      exact List.mem_cons_self
    | succ k ih =>
      rw [ancestor?_succ] at hk
      rcases Option.bind_eq_some_iff.mp hk with ⟨c, hdc, hc⟩
      have hchild := h.mem_children_iff_parent?.mpr hc
      rcases h.exists_of_mem_children hchild with ⟨v, -, hv⟩
      rw [h.descendants_eq]
      exact List.mem_cons_of_mem _ (List.mem_flatMap.mpr ⟨c, hchild, ih hv hdc⟩)

end Copies

end Node

/-! ## Built trees -/

namespace Tree

/-- The walk through a built tree lists its nodes. -/
theorem mem_descendants_build {g : Grammar} {source : Bytes} {raw : RawTree}
    {changed : Option (List Span)} {d : Node} :
    d ∈ (build g source raw changed).descendants ↔
      d.tree = build g source raw changed ∧ d.id < (build g source raw changed).size := by
  have hroot := copies_root g source raw changed
  constructor
  · -- what is below the root copies something, so it is in the arena
    intro hd
    have htree : d.tree = build g source raw changed := Node.tree_of_mem_descendants hd
    rcases hroot.of_mem_descendants hd with ⟨v, hv⟩
    exact ⟨htree, htree ▸ hv.id_lt_size⟩
  · -- every place of the arena is reached from the root
    rcases d with ⟨t, id⟩
    rintro ⟨rfl, hid⟩
    rcases hroot with ⟨l, hlists, -⟩
    rcases exists_path hlists id (hlists.size_eq ▸ hid) with ⟨path, hpath⟩
    exact (copies_root g source raw changed).mem_descendants_iff.mpr ⟨path, hpath⟩

/-- The walk from a node of a built tree is the pre-order below the node: the node itself, and then
the walks from its children, from the first to the last. Every node from which going up leads to the
node is listed once, and no other node is. At each path, the walk agrees with the pre-order listing
of the subtree that the raw tree has there; the walk through the whole tree lists as many nodes as
the tree has, and differs from the listing of the raw tree only in the root, which is stretched.

A walk may be stopped after any number of visits. It has then listed the first nodes of the
pre-order, and the nodes below what it has pending, one pending node after the other, are all the
others. After as many visits as there are nodes nothing is pending any more. -/
theorem build_preorder (g : Grammar) (source : Bytes) (raw : RawTree)
    (changed : Option (List Span)) :
    let t := Tree.build g source raw changed
    t.descendants.length = t.size ∧
    t.descendants.map Node.listing =
      ((raw.stretched source).info, raw.children.length) :: raw.preorder.tail ∧
    (∀ path, (t.root.follow? path).map (·.descendants.map Node.listing) =
      ((raw.stretched source).subtree? path).map RawTree.preorder) ∧
    ∀ id : Fin t.size,
      let n := Node.mk t id
      n.descendants = n :: n.children.flatMap Node.descendants ∧
      n.descendants.Nodup ∧
      (∀ d, d ∈ n.descendants ↔ ∃ k, d.ancestor? k = some n) ∧
      t.pendingAfter n.descendants.length [n.id] = [] ∧
      ∀ visits,
        (∀ more, t.walk (visits + more) [n.id] =
          t.walk visits [n.id] ++ t.walk more (t.pendingAfter visits [n.id])) ∧
        t.walk visits [n.id] = (n.descendants.take visits).map Node.id ∧
        (t.pendingAfter visits [n.id]).flatMap (fun i => (Node.mk t i).descendants) =
          n.descendants.drop visits := by
  intro t
  have hroot := copies_root g source raw changed
  refine ⟨?_, ?_, ?_, ?_⟩
  · rw [descendants, hroot.length_descendants, size_build]
    cases raw
    rfl
  · rw [descendants, hroot.listing_descendants, RawTree.preorder_eq, RawTree.preorder_eq raw,
      RawTree.children_stretched, List.tail_cons]
  · intro path
    rcases follow?_copies g source raw changed path with
      ⟨hnone, hnone'⟩ | ⟨n, u, hsome, hsome', hu⟩
    · rw [hnone, hnone']
      rfl
    · rw [hsome, hsome', Option.map_some, Option.map_some, hu.listing_descendants]
  · intro id n
    rcases exists_copied id.isLt with ⟨path, u, -, hu⟩
    have hcopies : t.AllCopies [n.id] := by
      intro i hi
      cases List.mem_singleton.mp hi
      exact ⟨u, hu⟩
    have hbelow : t.below [n.id] = n.descendants := List.flatMap_singleton _ _
    have hstopped := walk_pending hcopies
    rw [hbelow] at hstopped
    refine ⟨hu.descendants_eq, hu.nodup_descendants, fun d => hu.mem_descendants_iff_ancestor?, ?_,
      fun visits => ⟨fun more => t.walk_add visits more _, hstopped visits⟩⟩
    -- what is pending has at least itself below it
    have hend := (hstopped n.descendants.length).2
    rw [List.drop_length] at hend
    exact (hcopies.pendingAfter _).eq_nil_of_below hend

end Tree

end SyntaxTrees

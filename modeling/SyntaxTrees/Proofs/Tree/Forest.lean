import Mathlib.Algebra.GroupWithZero.Nat
import SyntaxTrees.Proofs.Tree.Copied

/-!
# The arena as a breadth-first index

In a built tree the runs of the nodes, one after the other, are all indices behind the root
(`Arena.Lists.flatMap_children`), and the parent of a node is the node in whose run it lies. Later
nodes therefore have later parents (`Tree.parent?_mono`), and by going up step by step also greater
depths (`Tree.depth_mono`). `Tree.build_breadth_first` puts this together with what it means for
going down to a child and up to the root.
-/

namespace SyntaxTrees

/-! ## Runs -/

namespace Arena.Lists

variable {a : Arena} {l : List RawTree}

theorem exists_tree (h : a.Lists l l.length) {i : Nat} (hi : i < a.size) :
    ∃ t, l[i]? = some t := by
  rw [h.size_eq] at hi
  exact ⟨l[i], List.getElem?_eq_getElem hi⟩

/-- The runs of the first nodes are the indices from the first child of the root up to the run of
the next node. -/
theorem flatMap_children_take (h : a.Lists l l.length) {i : Nat} (hi : i ≤ a.size) :
    (a.toList.take i).flatMap Entry.children = List.range' 1 (runStart l i - 1) ∧
      ((a.toList.take i).map Entry.childCount).sum = runStart l i - 1 := by
  induction i with
  | zero => simp [runStart]
  | succ i ih =>
    rcases ih (by omega) with ⟨htile, hsum⟩
    rcases h.exists_tree (i := i) (by omega) with ⟨t, ht⟩
    rcases h.exists_entry ht with ⟨e, he, -, hfirst, hcount⟩
    have hpos : 1 ≤ runStart l i := by simp [runStart]
    have hsucc := runStart_succ ht
    have he' : a.toList[i]? = some e := by rw [Array.getElem?_toList, he]
    rw [List.take_add_one, he']
    constructor
    · -- the next run starts where the earlier ones end
      have hstart : e.firstChild = 1 + 1 * (runStart l i - 1) := by omega
      simp only [List.flatMap_append, htile, Option.toList_some, List.flatMap_singleton,
        Entry.children, hstart, hcount, List.range'_append]
      congr 1
      omega
    · simp only [List.map_append, List.sum_append, hsum, Option.toList_some, List.map_cons,
        List.map_nil, List.sum_singleton, hcount]
      omega

/-- The runs of all nodes are the indices behind the root. -/
theorem flatMap_children (h : a.Lists l l.length) :
    a.toList.flatMap Entry.children = List.range' 1 (a.size - 1) := by
  have htile := (h.flatMap_children_take (Nat.le_refl a.size)).1
  rwa [List.take_of_length_le (by simp), h.size_eq, h.runStart_done, ← h.size_eq] at htile

end Arena.Lists

/-! ## Parents -/

namespace Tree

variable {t : Tree} {l : List RawTree} {i j : Nat} {p q : Node}

/-- The parent of a node is the node in whose run it lies. -/
theorem parent?_eq_some_iff (h : t.arena.Lists l l.length) :
    (Node.mk t i).parent? = some p ↔
      p.tree = t ∧ p.id < l.length ∧ runStart l p.id ≤ i ∧ i < runStart l (p.id + 1) := by
  by_cases hi : i < l.length
  · -- the entry names a node as parent if the index is in its run
    rcases h.exists_entry (List.getElem?_eq_getElem hi) with ⟨e, he, -⟩
    have hentry : (Node.mk t i).entry = e := by
      simp [Node.entry, Array.getD_eq_getD_getElem?, he]
    rw [Node.parent?, hentry, Option.map_eq_some_iff, ← h.parent_eq he]
    constructor
    · rintro ⟨k, hk, rfl⟩
      exact ⟨rfl, hk⟩
    · rintro ⟨rfl, hp⟩
      exact ⟨p.id, hp, rfl⟩
  · -- an index outside has no entry, and all runs end before it
    have hentry : (Node.mk t i).entry = default := by
      have hnone := Array.getElem?_eq_none (h.size_eq ▸ Nat.le_of_not_lt hi)
      rw [Node.entry, Array.getD_eq_getD_getElem?, hnone, Option.getD_none]
    rw [Node.parent?, hentry]
    constructor
    · intro hp
      cases hp
    · rintro ⟨-, hp, -, hlt⟩
      have hle := runStart_mono l (show p.id + 1 ≤ l.length from hp)
      rw [h.runStart_done] at hle
      omega

/-- The run of a node holds the indices of the nodes that have it as their parent. -/
theorem mem_children_iff (h : t.arena.Lists l l.length) {u : RawTree} (hu : l[i]? = some u) :
    j ∈ (Node.mk t i).entry.children ↔ (Node.mk t j).parent? = some ⟨t, i⟩ := by
  rcases Node.entry_eq (n := ⟨t, i⟩) h hu with ⟨-, hfirst, hcount⟩
  simp only [Node.childCount] at hfirst hcount
  have hi : i < l.length := (List.getElem?_eq_some_iff.mp hu).1
  rw [parent?_eq_some_iff h, Entry.children, List.mem_range'_1, hfirst, hcount, ← runStart_succ hu]
  exact ⟨fun hrun => ⟨rfl, hi, hrun⟩, fun hrun => hrun.2.2⟩

/-- A node with a parent lies in the arena. -/
theorem lt_of_parent? (h : t.arena.Lists l l.length) (hp : (Node.mk t i).parent? = some p) :
    i < l.length := by
  rcases (parent?_eq_some_iff h).mp hp with ⟨-, hlt, -, hi⟩
  have hle := runStart_mono l (show p.id + 1 ≤ l.length from hlt)
  rw [h.runStart_done] at hle
  omega

theorem id_lt_of_parent? (h : t.arena.Lists l l.length) (hp : (Node.mk t i).parent? = some p) :
    p.tree = t ∧ p.id < i := by
  rcases (parent?_eq_some_iff h).mp hp with ⟨htree, hlt, hle, -⟩
  have hrun := h.lt_runStart hlt
  exact ⟨htree, by omega⟩

/-- Later nodes have later parents. -/
theorem parent?_mono (h : t.arena.Lists l l.length) (hij : i ≤ j)
    (hp : (Node.mk t i).parent? = some p) (hq : (Node.mk t j).parent? = some q) :
    p.id ≤ q.id := by
  rcases (parent?_eq_some_iff h).mp hp with ⟨-, -, hle, -⟩
  rcases (parent?_eq_some_iff h).mp hq with ⟨-, -, -, hlt⟩
  by_contra hqp
  -- the run of an earlier parent ends before that of a later one starts
  have hrun := runStart_mono l (show q.id + 1 ≤ p.id by omega)
  omega

theorem exists_parent? (h : t.arena.Lists l l.length) (hpos : 0 < i) (hi : i < l.length) :
    ∃ p, (Node.mk t i).parent? = some p := by
  rcases h.exists_parent hpos hi with ⟨p, hp, hlo, hhi⟩
  exact ⟨⟨t, p⟩, (parent?_eq_some_iff h).mpr ⟨rfl, Nat.lt_trans hp hi, hlo, hhi⟩⟩

end Tree

/-! ## Going up -/

/-- The node that is reached by going up a number of times. -/
def Node.ancestor? (n : Node) : (steps : Nat) → Option Node
  | 0 => some n
  | steps + 1 => n.parent?.bind fun p => p.ancestor? steps

/-- The node lies a number of steps below the root. -/
def Node.HasDepth (n : Node) (depth : Nat) : Prop := n.ancestor? depth = some n.tree.root

namespace Tree

variable {t : Tree} {l : List RawTree} {i j : Nat}

/-- Going up never leaves the arena, as the indices fall. -/
theorem id_le_of_ancestor? (h : t.arena.Lists l l.length) {k : Nat} {m : Node}
    (hm : (Node.mk t i).ancestor? k = some m) : m.tree = t ∧ m.id ≤ i := by
  induction k generalizing i with
  | zero =>
    cases hm
    exact ⟨rfl, Nat.le_refl _⟩
  | succ k ih =>
    rcases Option.bind_eq_some_iff.mp hm with ⟨p, hp, hpm⟩
    rcases id_lt_of_parent? h hp with ⟨rfl, hlt⟩
    rcases ih hpm with ⟨htree, hle⟩
    exact ⟨htree, by omega⟩

/-- Going up ends at the root. -/
theorem exists_hasDepth (h : t.arena.Lists l l.length) (hi : i < l.length) :
    ∃ d, (Node.mk t i).HasDepth d := by
  induction i using Nat.strongRecOn with
  | ind i ih =>
    rcases Nat.eq_zero_or_pos i with rfl | hpos
    · exact ⟨0, rfl⟩
    · rcases exists_parent? h hpos hi with ⟨p, hp⟩
      rcases id_lt_of_parent? h hp with ⟨rfl, hlt⟩
      rcases ih p.id hlt (by omega) with ⟨d, hd⟩
      refine ⟨d + 1, ?_⟩
      rw [Node.HasDepth, Node.ancestor?, hp]
      exact hd

/-- Later nodes do not lie higher. The induction goes up from both nodes at once: their parents are
in the same order as they are. -/
theorem depth_mono (h : t.arena.Lists l l.length) (hij : i ≤ j) {d e : Nat}
    (hd : (Node.mk t i).HasDepth d) (he : (Node.mk t j).HasDepth e) : d ≤ e := by
  induction e generalizing i j d with
  | zero =>
    -- the later node is the root, and so is the earlier one, from which no step leads up
    cases he
    have hi : i = 0 := Nat.le_zero.mp hij
    subst hi
    cases d with
    | zero => exact Nat.le_refl _
    | succ d =>
      rcases Option.bind_eq_some_iff.mp hd with ⟨p, hp, -⟩
      have hroot := parent?_root h
      rw [root, hp] at hroot
      cases hroot
  | succ e ih =>
    cases d with
    | zero => omega
    | succ d =>
      rcases Option.bind_eq_some_iff.mp hd with ⟨p, hp, hpd⟩
      rcases Option.bind_eq_some_iff.mp he with ⟨q, hq, hqe⟩
      have hpq := parent?_mono h hij hp hq
      rcases id_lt_of_parent? h hp with ⟨hpt, -⟩
      rcases id_lt_of_parent? h hq with ⟨hqt, -⟩
      have hde : d ≤ e := by
        rcases p with ⟨_, p⟩
        rcases q with ⟨_, q⟩
        subst hpt hqt
        exact ih hpq hpd hqe
      omega

end Tree

/-! ## Going down -/

namespace Node

theorem isSome_child?_iff (n : Node) (i : Nat) : (n.child? i).isSome ↔ i < n.childCount := by
  by_cases hi : i < n.childCount <;> simp [child?, hi]

variable {n c : Node} {l : List RawTree}

/-- A child lies in the arena and points back to the node. -/
theorem child?_inside (h : n.tree.arena.Lists l l.length) {u : RawTree} (hu : l[n.id]? = some u)
    {i : Nat} (hc : n.child? i = some c) :
    c.tree = n.tree ∧ c.id < l.length ∧ c.parent? = some n := by
  have hp := parent?_child h hu hc
  rcases Option.ite_none_right_eq_some.mp hc with ⟨-, hc⟩
  cases hc
  exact ⟨rfl, Tree.lt_of_parent? h hp, hp⟩

/-- A node is a child of its parent, at one position. -/
theorem existsUnique_child? (h : n.tree.arena.Lists l l.length) {p : Node}
    (hp : n.parent? = some p) : ∃! i, p.child? i = some n := by
  rcases (Tree.parent?_eq_some_iff h).mp hp with ⟨htree, hlt, hle, hrun⟩
  have hu : l[p.id]? = some l[p.id] := List.getElem?_eq_getElem hlt
  have hsucc := runStart_succ hu
  have hchild : p.child? (n.id - runStart l p.id) = some n := by
    rw [child?_eq (htree ▸ h) hu, if_pos (by omega), htree]
    congr 2
    omega
  exact ⟨_, hchild, fun i hi => child?_injective hi hchild⟩

end Node

/-! ## Built trees -/

namespace Tree

/-- The arena of a built tree is a breadth-first index of a tree. The runs, in the order of the
indices, tile the indices behind the root; a run starts behind the root and all earlier runs. A
node lies in the run of its parent and in no other, the root has no parent, and every other node
has an earlier one. Parents and depths do not fall from one index to the next.

So a child is found at each position below the number of children, where the list of children has
it too; it points back to its parent, which has it at no other position. Going up from a node stays
in the arena and ends at the root. -/
theorem build_breadth_first (g : Grammar) (source : Bytes) (raw : RawTree)
    (changed : Option (List Span)) :
    let t := Tree.build g source raw changed
    t.arena.toList.flatMap Entry.children = List.range' 1 (t.size - 1) ∧
    (∀ id : Fin t.size, (Node.mk t id).entry.firstChild =
      1 + ((t.arena.toList.take id).map Entry.childCount).sum) ∧
    (∀ c p : Fin t.size,
      c.val ∈ (Node.mk t p).entry.children ↔ (Node.mk t c).parent? = some ⟨t, p⟩) ∧
    (0 < t.size ∧ t.root.parent? = none) ∧
    (∀ id : Fin t.size, 0 < id.val → ∃ p, (Node.mk t id).parent? = some p ∧ p.id < id) ∧
    (∀ i j : Fin t.size, i ≤ j →
      (∀ p q, (Node.mk t i).parent? = some p → (Node.mk t j).parent? = some q → p.id ≤ q.id) ∧
      ∀ d e, (Node.mk t i).HasDepth d → (Node.mk t j).HasDepth e → d ≤ e) ∧
    ∀ id : Fin t.size,
      let n := Node.mk t id
      (∀ i, ((n.child? i).isSome ↔ i < n.childCount) ∧ n.child? i = n.children[i]?) ∧
      (∀ i c, n.child? i = some c → c.tree = t ∧ c.id < t.size ∧ c.parent? = some n) ∧
      (0 < id.val → ∃ p, n.parent? = some p ∧ ∃! i, p.child? i = some n) ∧
      (∀ k m, n.ancestor? k = some m → m.tree = t ∧ m.id < t.size) ∧
      ∃! d, n.HasDepth d := by
  intro t
  rcases lists_build g source raw changed with ⟨rest, hlists, -, -⟩
  have hsize : t.size = (raw.stretched source :: rest).length := hlists.size_eq
  have htree (id : Fin t.size) :
      ∃ u, (raw.stretched source :: rest)[id.val]? = some u := hlists.exists_tree id.isLt
  have hparent {i : Nat} (hpos : 0 < i) (hi : i < t.size) :
      ∃ p, (Node.mk t i).parent? = some p := exists_parent? hlists hpos (hsize ▸ hi)
  refine ⟨hlists.flatMap_children, ?_, ?_, ⟨?_, parent?_root hlists⟩, ?_, ?_, ?_⟩
  · -- what is in front of the run of a node is the runs of the nodes before it
    intro id
    rcases htree id with ⟨u, hu⟩
    have hsum := (hlists.flatMap_children_take (Nat.le_of_lt id.isLt)).2
    rw [hsum, (Node.entry_eq (n := ⟨t, id⟩) hlists hu).2.1, runStart]
    omega
  · intro c p
    rcases htree p with ⟨u, hu⟩
    exact mem_children_iff hlists hu
  · -- there is a root, and it has no parent
    rw [hsize]
    exact Nat.succ_pos _
  · intro id hpos
    rcases hparent hpos id.isLt with ⟨p, hp⟩
    exact ⟨p, hp, (id_lt_of_parent? hlists hp).2⟩
  · -- parents and depths do not decrease along the arena
    intro i j hij
    exact ⟨fun p q hp hq => parent?_mono hlists hij hp hq,
      fun d e hd he => depth_mono hlists hij hd he⟩
  · intro id n
    rcases htree id with ⟨u, hu⟩
    refine ⟨fun i => ⟨n.isSome_child?_iff i, n.child?_eq_getElem? i⟩, ?_, ?_, ?_, ?_⟩
    · intro i c hc
      rw [hsize]
      exact Node.child?_inside (n := n) hlists hu hc
    · -- a node behind the root is in one run, at one place
      intro hpos
      rcases hparent hpos id.isLt with ⟨p, hp⟩
      exact ⟨p, hp, Node.existsUnique_child? hlists hp⟩
    · intro k m hm
      rcases id_le_of_ancestor? hlists hm with ⟨hmt, hle⟩
      exact ⟨hmt, Nat.lt_of_le_of_lt hle id.isLt⟩
    · -- a node has a depth, and two depths are each at most the other
      have hid : id.val < (raw.stretched source :: rest).length := by
        rw [← hsize]
        exact id.isLt
      rcases exists_hasDepth hlists hid with ⟨d, hd⟩
      exact ⟨d, hd, fun e he => Nat.le_antisymm (depth_mono hlists (Nat.le_refl _) he hd)
        (depth_mono hlists (Nat.le_refl _) hd he)⟩

/-- The last of five leaves on three levels is a child of its parent at one position, and the parent
of the leaf before it does not come later. -/
theorem parent_of_last_leaf :
    let leaf : RawTree := .node default []
    let raw : RawTree :=
      .node default [leaf, .node default [leaf, .node default [leaf, leaf]], leaf]
    let g : Grammar :=
      { registry := 0, serial := 0, name := "", language := { abi := 14, kindCount := 1 } }
    let t := Tree.build g [] raw none
    7 < t.size ∧ ∃ p q, (Node.mk t 6).parent? = some p ∧ (Node.mk t 7).parent? = some q ∧
      p.id ≤ q.id ∧ q.id < 7 ∧ ∃! i, q.child? i = some ⟨t, 7⟩ := by
  intro leaf raw g t
  have hsize : t.size = 8 := size_build
  rcases build_breadth_first g [] raw none with ⟨-, -, -, -, hparent, hmono, hnode⟩
  let last : Fin t.size := ⟨7, by omega⟩
  let before : Fin t.size := ⟨6, by omega⟩
  rcases hparent before (Nat.succ_pos 5) with ⟨p, hp, -⟩
  rcases hparent last (Nat.succ_pos 6) with ⟨q, hq, hlt⟩
  rcases hnode last with ⟨-, -, hunique, -, -⟩
  rcases hunique (Nat.succ_pos 6) with ⟨q', hq', hchild⟩
  -- both name the one parent
  have hqq : q' = q := Option.some.inj (hq'.symm.trans hq)
  subst hqq
  have hle : before ≤ last := by
    show 6 ≤ 7
    decide
  exact ⟨by omega, p, q', hp, hq, (hmono before last hle).1 p q' hp hq, hlt, hchild⟩

end Tree

end SyntaxTrees

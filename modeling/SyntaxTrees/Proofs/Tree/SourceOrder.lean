import SyntaxTrees.Proofs.Tree.Covering

/-!
# The walk follows the source

In a tree whose nodes are nested (`Tree.Nested`), what is known of children and of neighbours holds of
every two nodes that a walk lists: the later one starts no earlier, and it lies below the earlier one
and inside its span, or starts where that has ended (`Node.Precedes`, `Node.Copies.precedes`). Leaves
have nothing below them, so they come one after the other, and two nodes that share a byte lie on one
way to the root (`Tree.build_follows_source`).
-/

namespace SyntaxTrees

namespace Node

variable {n a b d : Node} {u : RawTree}

/-- The second node may come after the first one in a walk: it starts no earlier, and lies below it
and in its span, or behind it. -/
def Precedes (a b : Node) : Prop :=
  a.span.start ≤ b.span.start ∧
    ((b ∈ a.descendants ∧ a.span.Covers b.span) ∨ a.span.stop ≤ b.span.start)

abbrev IsLeaf (n : Node) : Prop := n.childCount = 0

namespace Copies

/-- All nodes below a child, the child included, start no earlier than the child and end no later. -/
theorem covers_below_child (h : n.Copies u) (hnested : n.tree.Nested) (hc : a ∈ n.children)
    (hd : d ∈ a.descendants) : a.span.Covers d.span := by
  rcases h.exists_of_mem_children hc with ⟨v, -, hv⟩
  have htree : a.tree.Nested := tree_of_mem_children hc ▸ hnested
  exact hv.covers_descendant htree hd

theorem start_le_stop (h : n.Copies u) (hnested : n.tree.Nested) : n.span.start ≤ n.span.stop :=
  hnested.start_le_stop ⟨n.id, h.id_lt_size⟩

/-- Two nodes below different children are as far apart as the children are. -/
theorem precedes_of_siblings (h : n.Copies u) (hnested : n.tree.Nested) (ha : a ∈ n.children)
    (hb : b ∈ n.children) (hapart : a.span.stop ≤ b.span.start) {x y : Node}
    (hx : x ∈ a.descendants) (hy : y ∈ b.descendants) : x.Precedes y := by
  have hxin := h.covers_below_child hnested ha hx
  have hyin := h.covers_below_child hnested hb hy
  -- everything under `a` ends before anything under `b` starts
  have hbehind : x.span.stop ≤ y.span.start :=
    Nat.le_trans hxin.2 (Nat.le_trans hapart hyin.1)
  -- and no span of a nested tree ends before it starts
  have hforward : x.span.start ≤ x.span.stop := by
    rcases h.exists_of_mem_children ha with ⟨v, -, hv⟩
    rcases hv.of_mem_descendants hx with ⟨w, hw⟩
    have htree : x.tree.Nested :=
      (tree_of_mem_descendants hx).trans (tree_of_mem_children ha) ▸ hnested
    exact hw.start_le_stop htree
  exact ⟨Nat.le_trans hforward hbehind, Or.inr hbehind⟩

/-- Of any two nodes in a walk, the earlier one precedes the later one. The induction is over the raw
tree: two listed nodes are the node itself and one below it, or lie below one child, or below two. -/
theorem precedes (h : n.Copies u) (hnested : n.tree.Nested) :
    n.descendants.Pairwise Precedes := by
  refine h.induction (P := fun n => n.tree.Nested → n.descendants.Pairwise Precedes) ?_ hnested
  intro m v hm ih hnested
  -- the node contains all that is below it
  have hbelow : ∀ d ∈ m.children.flatMap descendants, m.Precedes d := by
    intro d hd
    have hmem : d ∈ m.descendants := by
      rw [hm.descendants_eq]
      exact List.mem_cons_of_mem _ hd
    have hcovers := hm.covers_descendant hnested hmem
    exact ⟨hcovers.1, Or.inl ⟨hmem, hcovers⟩⟩
  rw [hm.descendants_eq, List.pairwise_cons, List.pairwise_flatMap]
  refine ⟨hbelow, ?_, ?_⟩
  · -- below one child the order is known
    intro c hc
    have htree : c.tree.Nested := tree_of_mem_children hc ▸ hnested
    exact ih c hc htree
  · -- nodes below two children lie as the children do
    have hapart : m.children.Pairwise fun a b => a.span.stop ≤ b.span.start :=
      hnested.apart ⟨m.id, hm.id_lt_size⟩
    refine hapart.imp_of_mem ?_
    intro a b ha hb hab x hx y hy
    exact hm.precedes_of_siblings hnested ha hb hab hx hy

/-- A leaf has only itself below it. -/
theorem descendants_leaf (h : n.Copies u) (hleaf : n.IsLeaf) : n.descendants = [n] := by
  have hnone : n.children = [] := by
    rw [← List.length_eq_zero_iff, length_children]
    exact hleaf
  rw [h.descendants_eq, hnone]
  rfl

/-- The leaves in a walk come one after the other: none is listed twice, and none lies below
another. -/
theorem leaves_apart (h : n.Copies u) (hnested : n.tree.Nested) :
    (n.descendants.filter fun d => d.IsLeaf).Pairwise fun a b => a.span.stop ≤ b.span.start := by
  have hdistinct := (h.precedes hnested).and h.nodup_descendants
  refine (hdistinct.filter _).imp_of_mem ?_
  rintro a b ha - ⟨⟨-, hbelow | hbehind⟩, hne⟩
  · rcases List.mem_filter.mp ha with ⟨hmem, hleaf⟩
    rcases h.of_mem_descendants hmem with ⟨v, hv⟩
    rw [hv.descendants_leaf (by simpa using hleaf), List.mem_singleton] at hbelow
    exact absurd hbelow.1.symm hne
  · exact hbehind

/-- Two listed nodes that share a byte lie on one way up. -/
theorem ancestor_of_shared_byte (h : n.Copies u) (hnested : n.tree.Nested)
    (ha : a ∈ n.descendants) (hb : b ∈ n.descendants) {offset : Nat}
    (hina : a.span.start ≤ offset ∧ offset < a.span.stop)
    (hinb : b.span.start ≤ offset ∧ offset < b.span.stop) :
    b ∈ a.descendants ∨ a ∈ b.descendants := by
  let Related (a b : Node) : Prop :=
    (a.span.start ≤ offset ∧ offset < a.span.stop) →
    (b.span.start ≤ offset ∧ offset < b.span.stop) → b ∈ a.descendants ∨ a ∈ b.descendants
  have hsymm : Std.Symm Related := ⟨fun x y hxy hy hx => (hxy hx hy).symm⟩
  have hself : ∀ x ∈ n.descendants, Related x x := by
    intro x hx _ _
    rcases h.of_mem_descendants hx with ⟨v, hv⟩
    rw [hv.descendants_eq]
    exact Or.inl List.mem_cons_self
  -- of two nodes one comes first, and the other cannot start where that one has ended
  have hordered : n.descendants.Pairwise Related := by
    refine (h.precedes hnested).imp ?_
    rintro x y ⟨-, hbelow | hbehind⟩ hx hy
    · exact Or.inl hbelow.1
    · omega
  exact hordered.forall_of_forall hself ha hb hina hinb

end Copies

end Node

/-! ## Built trees -/

namespace Tree

/-- In a built tree with nested nodes, a walk follows the source. Of any two nodes that it lists, the
later one starts no earlier; it lies below the earlier one and inside its span, or it starts where
the earlier one has ended. The leaves among them do not overlap and come in the order of the source.
And if two nodes of the tree share a byte, going up from one of them leads to the other. -/
theorem build_follows_source (g : Grammar) (source : Bytes) (raw : RawTree)
    (changed : Option (List Span)) (hnested : (Tree.build g source raw changed).Nested) :
    let t := Tree.build g source raw changed
    (∀ id : Fin t.size,
      let n := Node.mk t id
      (n.descendants.Pairwise fun a b => a.span.start ≤ b.span.start) ∧
      (n.descendants.Pairwise fun a b =>
        (b ∈ a.descendants ∧ a.span.Covers b.span) ∨ a.span.stop ≤ b.span.start) ∧
      (n.descendants.filter fun d => d.IsLeaf).Pairwise fun a b =>
        a.span.stop ≤ b.span.start) ∧
    ∀ (id id' : Fin t.size) (offset : Nat),
      let a := Node.mk t id
      let b := Node.mk t id'
      (a.span.start ≤ offset ∧ offset < a.span.stop) →
      (b.span.start ≤ offset ∧ offset < b.span.stop) →
      (∃ k, b.ancestor? k = some a) ∨ ∃ k, a.ancestor? k = some b := by
  intro t
  constructor
  · intro id n
    rcases exists_copied id.isLt with ⟨path, u, -, hu⟩
    have hordered := hu.precedes hnested
    exact ⟨hordered.imp And.left, hordered.imp And.right, hu.leaves_apart hnested⟩
  · intro id id' offset a b hina hinb
    have hroot := copies_root g source raw changed
    have ha : a ∈ t.descendants := mem_descendants_build.mpr ⟨rfl, id.isLt⟩
    have hb : b ∈ t.descendants := mem_descendants_build.mpr ⟨rfl, id'.isLt⟩
    rcases exists_copied id.isLt with ⟨-, v, -, hv⟩
    rcases exists_copied id'.isLt with ⟨-, w, -, hw⟩
    -- of two nodes around one byte, one is below the other
    rcases hroot.ancestor_of_shared_byte hnested ha hb hina hinb with hbelow | habove
    · exact Or.inl (hv.mem_descendants_iff_ancestor?.mp hbelow)
    · exact Or.inr (hw.mem_descendants_iff_ancestor?.mp habove)

/-- Behind a blank stand a name, which is all of an expression, a token that recovery put in, and a
mark. The leaves come in this order, and the name and the expression share their byte. -/
theorem name_on_the_way_up :
    let source : Bytes := [32, 97, 59]
    let info (start stop : Nat) : NodeInfo := { (default : NodeInfo) with
      span := ⟨start, stop⟩, start := ⟨0, start⟩, stop := ⟨0, stop⟩ }
    let expression : RawTree := .node (info 1 2) [.node (info 1 2) []]
    let raw : RawTree :=
      .node (info 1 3) [expression, .node (info 2 2) [], .node (info 2 3) []]
    let g : Grammar :=
      { registry := 0, serial := 0, name := "", language := { abi := 14, kindCount := 1 } }
    let t := Tree.build g source raw none
    t.Nested ∧
      ((t.root.descendants.filter fun d => d.IsLeaf).Pairwise fun a b =>
        a.span.stop ≤ b.span.start) ∧
      ∃ a b, t.root.follow? [0] = some a ∧ t.root.follow? [0, 0] = some b ∧
        a.span = ⟨1, 2⟩ ∧ b.span = ⟨1, 2⟩ ∧
        ((∃ k, b.ancestor? k = some a) ∨ ∃ k, a.ancestor? k = some b) := by
  intro source info expression raw g t
  have hlies {start stop : Nat} (h : start ≤ stop) (hstop : stop ≤ 3)
      (hpositions : (info start stop).start = .ofOffset source start ∧
        (info start stop).stop = .ofOffset source stop) : (info start stop).LiesIn source :=
    ⟨h, hstop, hpositions.1, hpositions.2⟩
  have hname : (info 1 2).LiesIn source := hlies (by decide) (by decide) (by decide)
  have hexpression : expression.WellPlaced source := by
    refine .node hname ?_ (List.isChain_singleton _) ?_
    · intro c hc
      cases List.mem_singleton.mp hc
      decide
    · intro c hc
      cases List.mem_singleton.mp hc
      exact .leaf hname
  have hraw : raw.WellPlaced source := by
    refine .node (hlies (by decide) (by decide) (by decide)) ?_ ?_ ?_
    · simp only [List.forall_mem_cons]
      exact ⟨by decide, by decide, by decide, by simp⟩
    · simp [RawTree.info, expression, info]
    · simp only [List.forall_mem_cons]
      exact ⟨hexpression, .leaf (hlies (by decide) (by decide) (by decide)),
        .leaf (hlies (by decide) (by decide) (by decide)), by simp⟩
  have hnested : t.Nested := nested_build g none hraw
  rcases build_follows_source g source raw none hnested with ⟨hwalk, hshared⟩
  have hsize : 0 < t.size := (copies_root g source raw none).id_lt_size
  rcases hwalk ⟨0, hsize⟩ with ⟨-, -, hleaves⟩
  rcases follow?_copies g source raw none [0] with ⟨-, hnone⟩ | ⟨a, v, ha, hv, hav⟩
  · cases hnone
  rcases follow?_copies g source raw none [0, 0] with ⟨-, hnone⟩ | ⟨b, w, hb, hw, hbw⟩
  · cases hnone
  cases hv
  cases hw
  have haspan : a.span = ⟨1, 2⟩ := hav.span_eq
  have hbspan : b.span = ⟨1, 2⟩ := hbw.span_eq
  refine ⟨hnested, hleaves, a, b, ha, hb, haspan, hbspan, ?_⟩
  -- both are nodes of the tree, and the byte that they share is the letter
  have hroot := copies_root g source raw none
  rcases mem_descendants_build.mp (hroot.mem_descendants_iff.mpr ⟨[0], ha⟩) with ⟨hatree, haid⟩
  rcases mem_descendants_build.mp (hroot.mem_descendants_iff.mpr ⟨[0, 0], hb⟩) with
    ⟨hbtree, hbid⟩
  have hletter : ∀ {m : Node}, m.span = ⟨1, 2⟩ → m.span.start ≤ 1 ∧ 1 < m.span.stop := by
    intro m hm
    rw [hm]
    decide
  rcases a with ⟨ta, i⟩
  rcases b with ⟨tb, j⟩
  cases hatree
  cases hbtree
  exact hshared ⟨i, haid⟩ ⟨j, hbid⟩ 1 (hletter haspan) (hletter hbspan)

end Tree

end SyntaxTrees

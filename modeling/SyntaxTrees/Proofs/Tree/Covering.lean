import SyntaxTrees.Proofs.Tree.Descent
import SyntaxTrees.Proofs.Tree.Placement

/-!
# The smallest node around a span

The descent goes down to the first child that covers the target and never turns back. In a tree whose
nodes are nested (`Tree.Nested`) the other children that cover the target start behind the one that is
entered (`Node.Copies.entered_first`), so a node that covers the target is above the end of the
descent or starts behind it (`Node.LeadsTo.beside`). If the target is not empty, no node that covers
it starts behind another one that does. Then the descent ends at a node that lies below every other
one that covers the target (`Node.DescendsTo`), which makes it the deepest of them and a shortest one
(`Tree.build_smallestCovering`).
-/

namespace SyntaxTrees

/-- The nodes of the tree do not run backwards, they cover their children, and none of their children
starts before the ones ahead of it have ended. -/
structure Tree.Nested (t : Tree) : Prop where
  start_le_stop : ∀ id : Fin t.size, (Node.mk t id).span.start ≤ (Node.mk t id).span.stop
  covers : ∀ id : Fin t.size, ∀ c ∈ (Node.mk t id).children, (Node.mk t id).span.Covers c.span
  apart : ∀ id : Fin t.size,
    (Node.mk t id).children.Pairwise fun a b => a.span.stop ≤ b.span.start

theorem Span.Covers.trans {a b c : Span} (hab : a.Covers b) (hbc : b.Covers c) : a.Covers c :=
  ⟨Nat.le_trans hab.1 hbc.1, Nat.le_trans hbc.2 hab.2⟩

theorem Span.Covers.length_le {a b : Span} (h : a.Covers b) : b.length ≤ a.length := by
  rcases h with ⟨hstart, hstop⟩
  rw [Span.length, Span.length]
  omega

namespace Node.Copies

variable {n c d r : Node} {u : RawTree} {target : Span}

/-! ## Nested nodes -/

theorem covers_child (h : n.Copies u) (hnested : n.tree.Nested) (hc : c ∈ n.children) :
    n.span.Covers c.span := hnested.covers ⟨n.id, h.id_lt_size⟩ c hc

/-- A node covers all nodes below it. -/
theorem covers_descendant (h : n.Copies u) (hnested : n.tree.Nested) (hd : d ∈ n.descendants) :
    n.span.Covers d.span := by
  refine h.induction
    (P := fun n => n.tree.Nested → d ∈ n.descendants → n.span.Covers d.span) ?_ hnested hd
  intro m v hm ih hnested hd
  rw [hm.descendants_eq, List.mem_cons, List.mem_flatMap] at hd
  rcases hd with rfl | ⟨c, hc, hdc⟩
  · exact ⟨Nat.le_refl _, Nat.le_refl _⟩
  · have hctree : c.tree.Nested := tree_of_mem_children hc ▸ hnested
    exact (hm.covers_child hnested hc).trans (ih c hc hctree hdc)

/-- What lies below a node is not longer than the node, and going up from it leads there. -/
theorem above (h : n.Copies u) (hnested : n.tree.Nested) (hd : d ∈ n.descendants)
    (hr : r ∈ d.descendants) :
    (∃ k, r.ancestor? k = some d) ∧ r.span.length ≤ d.span.length := by
  rcases h.of_mem_descendants hd with ⟨w, hw⟩
  have hdtree : d.tree.Nested := tree_of_mem_descendants hd ▸ hnested
  constructor
  · exact hw.mem_descendants_iff_ancestor?.mp hr
  · exact (hw.covers_descendant hdtree hr).length_le

/-- What covers the target below a child shows that the child does. -/
theorem covers_of_descendant (h : n.Copies u) (hnested : n.tree.Nested) (hc : c ∈ n.children)
    (hd : d ∈ c.descendants) (hcover : d.span.Covers target) : c.span.Covers target := by
  rcases h.exists_of_mem_children hc with ⟨v, -, hv⟩
  have hctree : c.tree.Nested := tree_of_mem_children hc ▸ hnested
  exact (hv.covers_descendant hctree hd).trans hcover

/-- The child that is entered is the only one that covers the target, or the others start behind
it. -/
theorem entered_first (h : n.Copies u) (hnested : n.tree.Nested)
    (hfind : n.children.find? (fun c => c.span.Covers target) = some c) (hd : d ∈ n.children)
    (hcover : d.span.Covers target) : d = c ∨ c.span.stop ≤ d.span.start := by
  have hapart : n.children.Pairwise fun a b => a.span.stop ≤ b.span.start :=
    hnested.apart ⟨n.id, h.id_lt_size⟩
  rcases List.find?_eq_some_iff_append.mp hfind with ⟨-, front, back, hsplit, hfront⟩
  rw [hsplit] at hd hapart
  rcases List.mem_append.mp hd with hd | hd
  · -- the children ahead of the one that was entered do not contain the target
    have hnot := hfront d hd
    simp [hcover] at hnot
  · rcases List.mem_cons.mp hd with rfl | hd
    · exact Or.inl rfl
    · right
      exact (List.pairwise_cons.mp (List.pairwise_append.mp hapart).2.1).1 d hd

end Node.Copies

/-! ## The descent -/

namespace Node

/-- The descent from a node ends at another one below it. That one covers the target, none of its
children does, and it lies below every node that covers the target. -/
structure DescendsTo (target : Span) (n r : Node) : Prop where
  ends : ∃ rounds < n.descendants.length, ∀ more,
    descend target (rounds + more) n = descend target more r
  no_child : ∀ c ∈ r.children, ¬ c.span.Covers target
  mem : r ∈ n.descendants
  covers : r.span.Covers target
  below : ∀ d ∈ n.descendants, d.span.Covers target → r ∈ d.descendants

variable {n r : Node} {u : RawTree} {target : Span}

/-- What covers the target is above the end of the descent, or starts where that has ended. The
induction is on the descent: what is passed by in one round starts behind the child entered. -/
theorem LeadsTo.beside (hr : LeadsTo target n r) (h : n.Copies u) (hnested : n.tree.Nested)
    {d : Node} (hd : d ∈ n.descendants) (hcover : d.span.Covers target) :
    r ∈ d.descendants ∨ r.span.stop ≤ d.span.start := by
  have hmem := hr.mem h
  induction hr generalizing u with
  | @stay n hnone =>
    rw [h.descendants_eq, List.mem_cons, List.mem_flatMap] at hd
    rcases hd with rfl | ⟨c, hc, hdc⟩
    · exact Or.inl hmem
    · have hchild := h.covers_of_descendant hnested hc hdc hcover
      exact absurd hchild (by simpa using List.find?_eq_none.mp hnone c hc)
  | @enter n c r hfind hr ih =>
    have hc : c ∈ n.children := List.mem_of_find?_eq_some hfind
    have hctree : c.tree.Nested := tree_of_mem_children hc ▸ hnested
    rcases h.exists_of_mem_children hc with ⟨v, -, hv⟩
    rw [h.descendants_eq, List.mem_cons, List.mem_flatMap] at hd
    rcases hd with rfl | ⟨c', hc', hdc⟩
    · exact Or.inl hmem
    · have hchild := h.covers_of_descendant hnested hc' hdc hcover
      rcases h.entered_first hnested hfind hc' hchild with rfl | hbehind
      · exact ih hv hctree hdc (hr.mem hv)
      · right
        -- from left to right: the end of the descent, the child entered, the other child, the node
        have hctree' : c'.tree.Nested := tree_of_mem_children hc' ▸ hnested
        rcases h.exists_of_mem_children hc' with ⟨w, -, hw⟩
        have hstop : r.span.stop ≤ c.span.stop := (hv.covers_descendant hctree (hr.mem hv)).2
        have hstart : c'.span.start ≤ d.span.start := (hw.covers_descendant hctree' hdc).1
        omega

/-- In a descent for a span that is not empty nothing that covers it is passed by. -/
theorem LeadsTo.descendsTo (hr : LeadsTo target n r) (h : n.Copies u) (hnested : n.tree.Nested)
    (htarget : target.start < target.stop) (hcover : n.span.Covers target) :
    n.DescendsTo target r where
  ends := hr.ends h
  no_child := hr.no_child
  mem := hr.mem h
  covers := hr.covers hcover
  below := by
    intro d hd hdcover
    rcases hr.beside h hnested hd hdcover with hbelow | hbehind
    · exact hbelow
    · -- a node behind the target does not contain it
      have hstop := (hr.covers hcover).2
      have hstart := hdcover.1
      omega

theorem Copies.exists_descendsTo (h : n.Copies u) (hnested : n.tree.Nested)
    (htarget : target.start < target.stop) (hcover : n.span.Covers target) :
    ∃ r, n.DescendsTo target r := by
  rcases h.exists_leadsTo target with ⟨r, hr⟩
  exact ⟨r, hr.descendsTo h hnested htarget hcover⟩

/-- There are steps enough for the descent to end. -/
theorem DescendsTo.smallestCovering? (h : n.Copies u) (hcover : n.span.Covers target)
    (hr : n.DescendsTo target r) : n.smallestCovering? target = some r :=
  smallestCovering?_of_ends h hcover hr.ends hr.no_child

/-- A node that is reached by going up lies less deep. -/
theorem Copies.depth_lt (h : n.Copies u) {d : Node} {k depth deeper : Nat}
    (hup : n.ancestor? k = some d) (hne : d ≠ n) (hd : d.HasDepth depth)
    (hn : n.HasDepth deeper) : depth < deeper := by
  rcases h with ⟨l, hlists, -⟩
  rcases Tree.id_le_of_ancestor? hlists hup with ⟨htree, -⟩
  have hdeep : n.HasDepth (k + depth) := by
    rw [HasDepth, ancestor?_add, hup, Option.bind_some, hd, htree]
  have hle : k + depth ≤ deeper := Tree.depth_mono hlists (Nat.le_refl _) hdeep hn
  have hpos : k ≠ 0 := by
    rintro rfl
    exact hne (Option.some.inj hup).symm
  omega

end Node

/-! ## Built trees -/

namespace Tree

/-- If the engine has placed all its nodes in the source, the nodes of the built tree are nested. -/
theorem nested_build (g : Grammar) {source : Bytes} {raw : RawTree}
    (changed : Option (List Span)) (hraw : raw.WellPlaced source) :
    (Tree.build g source raw changed).Nested where
  -- every node copies a subtree, which is well placed
  start_le_stop id := by
    rcases exists_placed hraw id.isLt with ⟨u, hu, hplaced⟩
    rw [hu.span_eq]
    exact hplaced.lies.start_le_stop
  covers id c hc := by
    rcases exists_placed hraw id.isLt with ⟨u, hu, hplaced⟩
    rcases hu.exists_of_mem_children hc with ⟨v, hv, hcv⟩
    rw [hu.span_eq, hcv.span_eq]
    exact hplaced.covers v hv
  apart id := by
    rcases exists_placed hraw id.isLt with ⟨u, hu, hplaced⟩
    exact hu.siblings_apart hplaced

/-- In a built tree with nested nodes, looking for a span that is not empty fails exactly if the node
itself does not cover it. Otherwise the descent comes to an end, before it has made as many rounds as
the tree has nodes, at a node below that covers the span and has no child that does. From there, going
up leads to every node below the first one that covers the span. None of these is shorter, and all
others of them lie less deep. -/
theorem build_smallestCovering (g : Grammar) (source : Bytes) (raw : RawTree)
    (changed : Option (List Span)) (hnested : (Tree.build g source raw changed).Nested) :
    let t := Tree.build g source raw changed
    ∀ (id : Fin t.size) (target : Span), target.start < target.stop →
      let n := Node.mk t id
      (n.smallestCovering? target = none ↔ ¬ n.span.Covers target) ∧
      (n.span.Covers target → ∃ r, n.smallestCovering? target = some r ∧
        r ∈ n.descendants ∧ r.span.Covers target ∧
        (∀ c ∈ r.children, ¬ c.span.Covers target) ∧
        (∃ rounds < t.size, ∀ more,
          Node.descend target (rounds + more) n = Node.descend target more r) ∧
        ∀ d ∈ n.descendants, d.span.Covers target →
          (∃ k, r.ancestor? k = some d) ∧ r.span.length ≤ d.span.length ∧
          (d ≠ r → ∀ depth deepest, d.HasDepth depth → r.HasDepth deepest → depth < deepest)) := by
  intro t id target htarget n
  rcases exists_copied id.isLt with ⟨path, u, -, hu⟩
  have hn : n.Copies u := hu
  have hfound (hcover : n.span.Covers target) :
      ∃ r, n.DescendsTo target r ∧ n.smallestCovering? target = some r := by
    rcases hn.exists_descendsTo hnested htarget hcover with ⟨r, hr⟩
    exact ⟨r, hr, hr.smallestCovering? hn hcover⟩
  constructor
  · constructor
    · -- whatever covers the target is found
      intro hnone hcover
      rcases hfound hcover with ⟨r, -, hsome⟩
      rw [hnone] at hsome
      cases hsome
    · intro hcover
      exact if_neg hcover
  · intro hcover
    rcases hfound hcover with ⟨r, hr, hsome⟩
    rcases hn.of_mem_descendants hr.mem with ⟨v, hv⟩
    refine ⟨r, hsome, hr.mem, hr.covers, hr.no_child, ?_, ?_⟩
    · -- the descent takes fewer rounds than there are nodes below
      rcases hr.ends with ⟨rounds, hrounds, hdescend⟩
      rw [hn.length_descendants] at hrounds
      exact ⟨rounds, Nat.lt_of_lt_of_le hrounds hn.size_le, hdescend⟩
    · -- every node that covers the target is above the one found
      intro d hd hdcover
      rcases hn.above hnested hd (hr.below d hd hdcover) with ⟨⟨k, hk⟩, hlength⟩
      refine ⟨⟨k, hk⟩, hlength, ?_⟩
      intro hne depth deepest hdepth hdeepest
      exact hv.depth_lt hk hne hdepth hdeepest

/-- Behind a token that recovery put in stands a chain of two nodes over the same bytes. Looking for
the first of these bytes finds the lower node of the chain. -/
theorem lower_of_equal_spans :
    let source : Bytes := [97, 98, 99, 100]
    let info (start stop : Nat) : NodeInfo := { (default : NodeInfo) with
      span := ⟨start, stop⟩, start := ⟨0, start⟩, stop := ⟨0, stop⟩ }
    let chain : RawTree := .node (info 2 4) [.node (info 2 4) []]
    let raw : RawTree := .node (info 0 4) [.node (info 0 2) [], .node (info 2 2) [], chain]
    let g : Grammar :=
      { registry := 0, serial := 0, name := "", language := { abi := 14, kindCount := 1 } }
    let t := Tree.build g source raw none
    t.Nested ∧ t.root.span.Covers ⟨2, 3⟩ ∧
      ∃ r, t.root.smallestCovering? ⟨2, 3⟩ = some r ∧ t.root.follow? [2, 0] = some r := by
  intro source info chain raw g t
  have hlies {start stop : Nat} (h : start ≤ stop) (hstop : stop ≤ 4)
      (hpositions : (info start stop).start = .ofOffset source start ∧
        (info start stop).stop = .ofOffset source stop) : (info start stop).LiesIn source :=
    ⟨h, hstop, hpositions.1, hpositions.2⟩
  have hlast : (info 2 4).LiesIn source := hlies (by decide) (by decide) (by decide)
  have hchain : chain.WellPlaced source := by
    refine .node hlast ?_ (List.isChain_singleton _) ?_
    · intro c hc
      cases List.mem_singleton.mp hc
      decide
    · intro c hc
      cases List.mem_singleton.mp hc
      exact .leaf hlast
  have hraw : raw.WellPlaced source := by
    refine .node (hlies (by decide) (by decide) (by decide)) ?_ ?_ ?_
    · simp only [List.forall_mem_cons]
      exact ⟨by decide, by decide, by decide, by simp⟩
    · simp [RawTree.info, chain, info]
    · simp only [List.forall_mem_cons]
      exact ⟨.leaf (hlies (by decide) (by decide) (by decide)),
        .leaf (hlies (by decide) (by decide) (by decide)), hchain, by simp⟩
  have hnested : t.Nested := nested_build g none hraw
  have hroot := copies_root g source raw none
  have hcover : t.root.span.Covers ⟨2, 3⟩ := by
    rw [hroot.span_eq]
    decide
  have hsize : 0 < t.size := hroot.id_lt_size
  obtain ⟨-, hfound⟩ := build_smallestCovering g source raw none hnested ⟨0, hsize⟩ ⟨2, 3⟩
    (by decide)
  rcases hfound hcover with ⟨r, hr, -, -, -, -, hall⟩
  refine ⟨hnested, hcover, r, hr, ?_⟩
  rcases follow?_copies g source raw none [2, 0] with ⟨-, hnone⟩ | ⟨p, u, hp, hu, hpu⟩
  · cases hnone
  · cases hu
    have hpcover : p.span.Covers ⟨2, 3⟩ := by
      rw [hpu.span_eq]
      decide
    rcases hall p (hroot.mem_descendants_iff.mpr ⟨[2, 0], hp⟩) hpcover with ⟨hup, -⟩
    -- the lower node of the chain is the only node that goes up to it
    have hbelow := hpu.mem_descendants_iff_ancestor?.mpr hup
    have hchildren : p.children = [] := List.forall₂_nil_right_iff.mp hpu.children
    rw [hpu.descendants_eq, hchildren] at hbelow
    rw [List.mem_singleton.mp hbelow]
    exact hp

end Tree

end SyntaxTrees

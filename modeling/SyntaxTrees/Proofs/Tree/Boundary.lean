import SyntaxTrees.Proofs.Tree.Covering

/-!
# Looking for a position

A position is an empty span, and two nodes that meet there both cover it. The descent enters the one
that stops at the position, as it comes first, and never sees the one that starts there. In a nested
tree this is all that can be passed by: a node that covers the position is above the end of the
descent, or it starts at the position and the descent has ended at a node that stops there
(`Node.LeadsTo.meets_at`). So the node found is a shortest one around the position unless a shorter
one starts right behind it (`Tree.build_coveringPosition`), which is what happens behind a name that
is longer than the token that follows it (`Tree.token_behind_name_missed`).
-/

namespace SyntaxTrees

namespace Node

variable {n r : Node} {u : RawTree} {p : Nat}

/-- The nodes below a node have the spans that the pre-order listing of its raw tree says. -/
theorem Copies.spans_descendants (h : n.Copies u) :
    n.descendants.map Node.span = u.preorder.map (·.1.span) := by
  rw [← h.listing_descendants, List.map_map]
  rfl

/-- A node around the position that is not above the end of the descent starts at the position, and
the descent has ended at a node that stops there. -/
theorem LeadsTo.meets_at (hr : LeadsTo ⟨p, p⟩ n r) (h : n.Copies u) (hnested : n.tree.Nested)
    (hcover : n.span.Covers ⟨p, p⟩) {d : Node} (hd : d ∈ n.descendants)
    (hdcover : d.span.Covers ⟨p, p⟩) :
    ((∃ k, r.ancestor? k = some d) ∧ r.span.length ≤ d.span.length) ∨
      (r.span.stop = p ∧ d.span.start = p) := by
  rcases hr.beside h hnested hd hdcover with hbelow | hbehind
  · left
    exact h.above hnested hd hbelow
  · right
    -- both nodes cover the position, so there is no room between them
    have hstop : p ≤ r.span.stop := (hr.covers hcover).2
    have hstart : d.span.start ≤ p := hdcover.1
    omega

/-- The descent to a position ends at a shortest node around it if and only if no shorter one starts
where the node at the end of the descent stops. -/
theorem LeadsTo.shortest_iff (hr : LeadsTo ⟨p, p⟩ n r) (h : n.Copies u) (hnested : n.tree.Nested)
    (hcover : n.span.Covers ⟨p, p⟩) :
    (∀ d ∈ n.descendants, d.span.Covers ⟨p, p⟩ → r.span.length ≤ d.span.length) ↔
      (r.span.start < p ∧ r.span.stop = p →
        ∀ d ∈ n.descendants, d.span.start = p → r.span.length ≤ d.span.length) := by
  constructor
  · -- a node that starts at the position contains it
    intro hshortest _ d hd hstart
    apply hshortest d hd
    rcases h.of_mem_descendants hd with ⟨w, hw⟩
    have hdtree : d.tree.Nested := tree_of_mem_descendants hd ▸ hnested
    have hle : d.span.start ≤ d.span.stop := hdtree.start_le_stop ⟨d.id, hw.id_lt_size⟩
    constructor
    · exact Nat.le_of_eq hstart
    · rwa [hstart] at hle
  · intro hlater d hd hdcover
    -- either the node is above, or it starts where the descent has ended
    rcases hr.meets_at h hnested hcover hd hdcover with ⟨-, hle⟩ | ⟨hstop, hstart⟩
    · exact hle
    · by_cases hbefore : r.span.start < p
      · exact hlater ⟨hbefore, hstop⟩ d hd hstart
      · -- the descent has ended at a node without bytes, and no node is shorter
        unfold Span.length
        omega

end Node

namespace Tree

/-- In a built tree with nested nodes, looking for a position that is not outside the node finds a
node below that covers the position and has no child that does. Every other node around the position
lies above the one found and is not shorter, or starts at the position, where the one found stops. The
node found is a shortest one around the position if it is empty, reaches beyond the position, or is
not longer than any node that starts there, and only then. -/
theorem build_coveringPosition (g : Grammar) (source : Bytes) (raw : RawTree)
    (changed : Option (List Span)) (hnested : (Tree.build g source raw changed).Nested) :
    let t := Tree.build g source raw changed
    ∀ (id : Fin t.size) (p : Nat),
      let n := Node.mk t id
      n.span.start ≤ p → p ≤ n.span.stop →
      ∃ r, n.smallestCovering? ⟨p, p⟩ = some r ∧ r ∈ n.descendants ∧ r.span.Covers ⟨p, p⟩ ∧
        (∀ c ∈ r.children, ¬ c.span.Covers ⟨p, p⟩) ∧
        (∀ d ∈ n.descendants, d.span.Covers ⟨p, p⟩ →
          ((∃ k, r.ancestor? k = some d) ∧ r.span.length ≤ d.span.length) ∨
            (r.span.stop = p ∧ d.span.start = p)) ∧
        ((∀ d ∈ n.descendants, d.span.Covers ⟨p, p⟩ → r.span.length ≤ d.span.length) ↔
          (r.span.start < p ∧ r.span.stop = p →
            ∀ d ∈ n.descendants, d.span.start = p → r.span.length ≤ d.span.length)) := by
  intro t id p n hstart hstop
  rcases exists_copied id.isLt with ⟨path, u, -, hu⟩
  have hn : n.Copies u := hu
  have hcover : n.span.Covers ⟨p, p⟩ := ⟨hstart, hstop⟩
  rcases hn.exists_leadsTo ⟨p, p⟩ with ⟨r, hr⟩
  refine ⟨r, hr.smallestCovering? hn hcover, hr.mem hn, hr.covers hcover, hr.no_child, ?_, ?_⟩
  · -- a node beside the one found meets it at the position
    intro d hd hdcover
    exact hr.meets_at hn hnested hcover hd hdcover
  · exact hr.shortest_iff hn hnested hcover

/-! ## A name and the token behind it -/

/-- A name of two bytes and a token of one byte right behind it, in a statement that is the whole
program. -/
def nameAndToken : RawTree :=
  let info (start stop : Nat) : NodeInfo := { (default : NodeInfo) with
    span := ⟨start, stop⟩, start := ⟨0, start⟩, stop := ⟨0, stop⟩ }
  .node (info 0 3) [.node (info 0 3) [.node (info 0 2) [], .node (info 2 3) []]]

theorem wellPlaced_nameAndToken : nameAndToken.WellPlaced [97, 98, 59] := by
  refine .node ⟨by decide, by decide, rfl, rfl⟩ ?_ (List.isChain_singleton _) ?_
  · -- the root contains its one child
    intro c hc
    cases List.mem_singleton.mp hc
    decide
  · intro c hc
    cases List.mem_singleton.mp hc
    refine .node ⟨by decide, by decide, rfl, rfl⟩ ?_ (List.isChain_pair.mpr (by decide)) ?_
    · -- the name and the token lie in the statement, one behind the other
      intro c hc
      rcases List.mem_pair.mp hc with rfl | rfl
      · decide
      · decide
    · intro c hc
      rcases List.mem_pair.mp hc with rfl | rfl
      · exact .leaf ⟨by decide, by decide, rfl, rfl⟩
      · exact .leaf ⟨by decide, by decide, rfl, rfl⟩

/-- The four nodes of the built tree, from the root on. -/
theorem spans_nameAndToken (g : Grammar) :
    (Tree.build g [97, 98, 59] nameAndToken none).root.descendants.map Node.span =
      [⟨0, 3⟩, ⟨0, 3⟩, ⟨0, 2⟩, ⟨2, 3⟩] :=
  (copies_root g [97, 98, 59] nameAndToken none).spans_descendants

/-- Looking for the position between the name and the token finds a node that is longer than the
token. -/
theorem token_behind_name_missed :
    let g : Grammar :=
      { registry := 0, serial := 0, name := "", language := { abi := 14, kindCount := 1 } }
    let t := Tree.build g [97, 98, 59] nameAndToken none
    t.Nested ∧ t.root.span.Covers ⟨2, 2⟩ ∧ ∃ r, t.root.smallestCovering? ⟨2, 2⟩ = some r ∧
      ∃ d ∈ t.root.descendants, d.span.Covers ⟨2, 2⟩ ∧ d.span.length < r.span.length := by
  intro g t
  have hroot := copies_root g [97, 98, 59] nameAndToken none
  have hnested : t.Nested := nested_build g none wellPlaced_nameAndToken
  have hspans := spans_nameAndToken g
  -- the position is the end of the name and the start of the token
  have hcover : t.root.span.Covers ⟨2, 2⟩ := by
    rw [hroot.span_eq]
    decide
  have hname : (⟨0, 2⟩ : Span) ∈ t.root.descendants.map Node.span := by
    rw [hspans]
    decide
  have htoken : (⟨2, 3⟩ : Span) ∈ t.root.descendants.map Node.span := by
    rw [hspans]
    decide
  rcases List.mem_map.mp hname with ⟨name, hname, hnamespan⟩
  rcases List.mem_map.mp htoken with ⟨token, htoken, htokenspan⟩
  rcases hroot.exists_leadsTo ⟨2, 2⟩ with ⟨r, hr⟩
  have hrcover : r.span.Covers ⟨2, 2⟩ := hr.covers hcover
  refine ⟨hnested, hcover, r, hr.smallestCovering? hroot hcover, token, htoken, ?_, ?_⟩
  · rw [htokenspan]
    decide
  · -- the descent cannot have ended ahead of the name, so it has ended at it
    have hwithin : (⟨0, 2⟩ : Span).Covers r.span := by
      rw [← hnamespan]
      have hnamecover : name.span.Covers ⟨2, 2⟩ := by
        rw [hnamespan]
        decide
      rcases hr.beside hroot hnested hname hnamecover with hbelow | hahead
      · rcases hroot.of_mem_descendants hname with ⟨w, hw⟩
        have hnametree : name.tree.Nested := Node.tree_of_mem_descendants hname ▸ hnested
        exact hw.covers_descendant hnametree hbelow
      · have hstop : 2 ≤ r.span.stop := hrcover.2
        rw [hnamespan] at hahead
        exact absurd (Nat.le_trans hstop hahead) (by decide)
    have hrspan : r.span ∈ t.root.descendants.map Node.span := List.mem_map_of_mem (hr.mem hroot)
    rw [hspans] at hrspan
    have hlonger : ∀ s ∈ ([⟨0, 3⟩, ⟨0, 3⟩, ⟨0, 2⟩, ⟨2, 3⟩] : List Span),
        s.Covers ⟨2, 2⟩ → Span.Covers ⟨0, 2⟩ s → (⟨2, 3⟩ : Span).length < s.length := by
      decide
    rw [htokenspan]
    exact hlonger r.span hrspan hrcover hwithin

/-- Inside the name no two nodes meet, and looking for a position there finds a shortest node. -/
theorem name_around_position :
    let g : Grammar :=
      { registry := 0, serial := 0, name := "", language := { abi := 14, kindCount := 1 } }
    let t := Tree.build g [97, 98, 59] nameAndToken none
    t.Nested ∧ t.root.span.Covers ⟨1, 1⟩ ∧ ∃ r, t.root.smallestCovering? ⟨1, 1⟩ = some r ∧
      ∀ d ∈ t.root.descendants, d.span.Covers ⟨1, 1⟩ → r.span.length ≤ d.span.length := by
  intro g t
  have hroot := copies_root g [97, 98, 59] nameAndToken none
  have hnested : t.Nested := nested_build g none wellPlaced_nameAndToken
  have hcover : t.root.span.Covers ⟨1, 1⟩ := by
    rw [hroot.span_eq]
    decide
  rcases build_coveringPosition g [97, 98, 59] nameAndToken none hnested ⟨0, hroot.id_lt_size⟩ 1
    hcover.1 hcover.2 with ⟨r, hfound, hmem, -, -, -, hshortest⟩
  refine ⟨hnested, hcover, r, hfound, hshortest.mpr ?_⟩
  -- the descent ends at a node that does not stop at the position
  rintro ⟨-, hstop⟩
  have hrspan : r.span ∈ t.root.descendants.map Node.span := List.mem_map_of_mem hmem
  rw [spans_nameAndToken g] at hrspan
  have hnostop : ∀ s ∈ ([⟨0, 3⟩, ⟨0, 3⟩, ⟨0, 2⟩, ⟨2, 3⟩] : List Span), s.stop ≠ 1 := by decide
  exact absurd hstop (hnostop r.span hrspan)

end Tree

end SyntaxTrees

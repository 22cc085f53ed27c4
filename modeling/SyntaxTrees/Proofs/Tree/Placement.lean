import Mathlib.Data.List.Chain
import SyntaxTrees.Proofs.Source.Order
import SyntaxTrees.Proofs.Tree.Copied

/-!
# Where nodes lie in the source

The engine promises that each of its nodes lies in the source, at the positions of its offsets, that
children lie inside their parent, and that each sibling ends before the next one starts
(`RawTree.WellPlaced`). Stretching the root keeps all this (`WellPlaced.stretched`), every subtree
has it too, and so have the nodes of a built tree (`Tree.build_placed`): no text of a node is cut
out of anything but the source, and the texts of children are cut out of the text of their parent.
-/

namespace SyntaxTrees

/-! ## Spans -/

namespace Span

/-- The span seen from the start of another one. -/
def within (inner outer : Span) : Span := ⟨inner.start - outer.start, inner.stop - outer.start⟩

theorem slice?_eq_some {s : Span} {source : Bytes} (h : s.start ≤ s.stop ∧ s.stop ≤ source.length) :
    s.slice? source = some (s.slice source) := if_pos h

theorem length_slice {s : Span} {source : Bytes} (h : s.stop ≤ source.length) :
    (s.slice source).length = s.length := by
  rw [slice, List.length_take, List.length_drop, length]
  omega

theorem slice_whole (source : Bytes) : slice ⟨0, source.length⟩ source = source := by
  simp [slice, length]

/-- A slice of a slice is the slice of the source. -/
theorem slice?_within {outer inner : Span} {source : Bytes} (hcovers : outer.Covers inner)
    (hinner : inner.start ≤ inner.stop) (houter : outer.stop ≤ source.length) :
    (inner.within outer).slice? (outer.slice source) = some (inner.slice source) := by
  rcases hcovers with ⟨hstart, hstop⟩
  have hlength := length_slice houter
  rw [slice?_eq_some]
  · -- offsets within `outer` and back again
    have hdrop : outer.start + (inner.start - outer.start) = inner.start := by omega
    have htake : min (inner.stop - outer.start - (inner.start - outer.start))
        (outer.stop - outer.start - (inner.start - outer.start)) = inner.stop - inner.start := by
      omega
    simp only [slice, within, length, List.drop_take, List.take_take, List.drop_drop, hdrop, htake]
  · rw [hlength]
    simp only [within, length]
    omega

end Span

/-! ## Trees placed in a source -/

/-- The node covers a piece of the source, and its positions are those of its offsets. -/
structure NodeInfo.LiesIn (info : NodeInfo) (source : Bytes) : Prop where
  start_le_stop : info.span.start ≤ info.span.stop
  stop_le : info.span.stop ≤ source.length
  start_eq : info.start = .ofOffset source info.span.start
  stop_eq : info.stop = .ofOffset source info.span.stop

/-- Every node of the tree lies in the source, its children lie inside it, and none of them starts
before the one ahead of it has ended. -/
inductive RawTree.WellPlaced (source : Bytes) : RawTree → Prop where
  | node {info : NodeInfo} {children : List RawTree} (lies : info.LiesIn source)
    (covers : ∀ c ∈ children, info.span.Covers c.info.span)
    (chain : children.IsChain fun a b => a.info.span.stop ≤ b.info.span.start)
    (deeper : ∀ c ∈ children, c.WellPlaced source) : (RawTree.node info children).WellPlaced source

namespace RawTree.WellPlaced

variable {source : Bytes} {t u : RawTree}

theorem leaf {info : NodeInfo} (h : info.LiesIn source) : (RawTree.node info []).WellPlaced source :=
  .node h (by simp) .nil (by simp)

theorem lies (h : t.WellPlaced source) : t.info.LiesIn source := by
  cases h
  assumption

theorem covers (h : t.WellPlaced source) : ∀ c ∈ t.children, t.info.span.Covers c.info.span := by
  cases h
  assumption

theorem of_mem_children (h : t.WellPlaced source) : ∀ c ∈ t.children, c.WellPlaced source := by
  cases h
  assumption

theorem subtree? (h : t.WellPlaced source) {path : List Nat} (hu : t.subtree? path = some u) :
    u.WellPlaced source :=
  subtree?_induction (P := RawTree.WellPlaced source) (fun _ h => h.of_mem_children) h hu

/-- Each sibling ends before any later one starts, as those in between do not run backwards. -/
theorem pairwise_of_chain {l : List RawTree}
    (h : l.IsChain fun a b => a.info.span.stop ≤ b.info.span.start)
    (hlies : ∀ c ∈ l, c.info.LiesIn source) :
    l.Pairwise fun a b => a.info.span.stop ≤ b.info.span.start := by
  induction l with
  | nil => exact List.Pairwise.nil
  | cons a rest ih =>
    have hrest := ih h.of_cons fun c hc => hlies c (List.mem_cons_of_mem _ hc)
    refine List.pairwise_cons.mpr ⟨fun c hc => ?_, hrest⟩
    -- all that follow are behind the next one
    cases rest with
    | nil => cases hc
    | cons b rest =>
      have hab : a.info.span.stop ≤ b.info.span.start := (List.isChain_cons_cons.mp h).1
      rcases List.mem_cons.mp hc with rfl | hc
      · exact hab
      · have hb := (hlies b (by simp)).start_le_stop
        have hbc := (List.pairwise_cons.mp hrest).1 c hc
        omega

/-- The root may be stretched over the source: it has the positions of its new offsets, and the
nodes right below it lie in the source, hence in it. -/
theorem stretched (h : t.WellPlaced source) : (t.stretched source).WellPlaced source := by
  cases h with
  | node lies covers chain deeper =>
    refine .node ⟨Nat.zero_le _, Nat.le_refl _, rfl, rfl⟩ ?_ chain deeper
    intro c hc
    exact ⟨Nat.zero_le _, (deeper c hc).lies.stop_le⟩

theorem pairwise (h : t.WellPlaced source) :
    t.children.Pairwise fun a b => a.info.span.stop ≤ b.info.span.start := by
  cases h with
  | node lies covers chain deeper => exact pairwise_of_chain chain fun c hc => (deeper c hc).lies

end RawTree.WellPlaced

/-! ## Nodes placed in a source -/

namespace Node.Copies

variable {n : Node} {u : RawTree} {source : Bytes}

theorem span_eq (h : n.Copies u) : n.span = u.info.span := congrArg NodeInfo.span h.info_eq

theorem spans_children (h : n.Copies u) :
    n.children.map Node.span = u.children.map (·.info.span) := map_eq span_eq h.children

/-- A node that lies in its source has the positions of its offsets. -/
theorem positions_eq (h : n.Copies u) (hu : u.info.LiesIn source) :
    n.entry.start = .ofOffset source n.span.start ∧
      n.entry.stop = .ofOffset source n.span.stop := by
  have hstart : n.entry.start = u.info.start := congrArg NodeInfo.start h.info_eq
  have hstop : n.entry.stop = u.info.stop := congrArg NodeInfo.stop h.info_eq
  rw [hstart, hstop, h.span_eq]
  exact ⟨hu.start_eq, hu.stop_eq⟩

/-- The text of a node that lies in its source can be cut out. -/
theorem text_eq (h : n.Copies u) (hu : u.info.LiesIn n.tree.source) :
    n.text? = some n.text ∧ n.text = n.span.slice n.tree.source := by
  have hfits : n.text? = some (n.span.slice n.tree.source) := by
    apply Span.slice?_eq_some
    rw [h.span_eq]
    exact ⟨hu.start_le_stop, hu.stop_le⟩
  have htext : n.text = n.span.slice n.tree.source := by
    rw [text, hfits, Option.getD_some]
  exact ⟨htext ▸ hfits, htext⟩

theorem siblings_apart (h : n.Copies u) (hu : u.WellPlaced source) :
    n.children.Pairwise fun a b => a.span.stop ≤ b.span.start := by
  have hspans : (u.children.map (·.info.span)).Pairwise fun s s' => s.stop ≤ s'.start :=
    List.pairwise_map.mpr hu.pairwise
  rw [← h.spans_children] at hspans
  exact List.pairwise_map.mp hspans

end Node.Copies

/-! ## Built trees -/

namespace Tree

variable {g : Grammar} {source : Bytes} {raw : RawTree} {changed : Option (List Span)}

/-- Every node of a built tree is a copy of a tree that is placed in the source. -/
theorem exists_placed (hraw : raw.WellPlaced source) {id : Nat}
    (h : id < (build g source raw changed).size) :
    ∃ u, (Node.mk (build g source raw changed) id).Copies u ∧ u.WellPlaced source := by
  rcases exists_copied h with ⟨path, u, hsub, hu⟩
  exact ⟨u, hu, hraw.stretched.subtree? hsub⟩

/-- If the engine has placed all its nodes in the source, then so are those of the built tree,
whose root covers the source. Every node has the positions of its offsets and a text that can be
cut out of the source; that of the root is the source. Siblings come one after the other. A child
lies in its parent, in offsets as well as in positions, and its text is cut out of the text of the
parent, as far behind its start as the child starts behind the parent. -/
theorem build_placed (g : Grammar) (source : Bytes) (raw : RawTree) (changed : Option (List Span))
    (hraw : raw.WellPlaced source) :
    let t := Tree.build g source raw changed
    (t.root.span = ⟨0, source.length⟩ ∧ t.root.text? = some source ∧ t.root.text = source) ∧
    ∀ id : Fin t.size,
      let n := Node.mk t id
      (n.entry.start = .ofOffset source n.span.start ∧
        n.entry.stop = .ofOffset source n.span.stop) ∧
      (n.span.start ≤ n.span.stop ∧ n.span.stop ≤ source.length) ∧
      (n.text? = some n.text ∧ n.text.length = n.span.length) ∧
      (n.children.Pairwise fun a b =>
        a.span.start ≤ b.span.start ∧ a.span.stop ≤ b.span.start) ∧
      ∀ c ∈ n.children,
        n.span.Covers c.span ∧
        (n.entry.start ≤ c.entry.start ∧ c.entry.start ≤ c.entry.stop ∧
          c.entry.stop ≤ n.entry.stop) ∧
        (c.span.within n.span).slice? n.text = some c.text := by
  intro t
  have hroot := copies_root g source raw changed
  have hspan : t.root.span = ⟨0, source.length⟩ := by
    rw [hroot.span_eq]
    cases raw
    rfl
  have hroottext : t.root.text? = some t.root.text ∧ t.root.text = source := by
    rcases hroot.text_eq hraw.stretched.lies with ⟨hfits, htext⟩
    refine ⟨hfits, htext.trans ?_⟩
    rw [hspan]
    exact Span.slice_whole source
  refine ⟨⟨hspan, hroottext.2 ▸ hroottext.1, hroottext.2⟩, ?_⟩
  intro id n
  rcases exists_placed hraw id.isLt with ⟨u, hu, hplaced⟩
  have hlies := hplaced.lies
  have hfits : n.span.start ≤ n.span.stop ∧ n.span.stop ≤ source.length := by
    rw [hu.span_eq]
    exact ⟨hlies.start_le_stop, hlies.stop_le⟩
  rcases hu.text_eq hlies with ⟨hsome, htext⟩
  -- a child is a copy of a tree that is placed in the source as well
  have hchild {c : Node} (hc : c ∈ n.children) :
      ∃ v, c.Copies v ∧ v.info.LiesIn source ∧ u.info.span.Covers v.info.span := by
    rcases hu.exists_of_mem_children hc with ⟨v, hv, hcv⟩
    exact ⟨v, hcv, (hplaced.of_mem_children v hv).lies, hplaced.covers v hv⟩
  refine ⟨hu.positions_eq hlies, hfits, ⟨hsome, ?_⟩, ?_, ?_⟩
  · rw [htext]
    exact Span.length_slice hfits.2
  · refine (hu.siblings_apart hplaced).imp_of_mem ?_
    intro a b ha _ hab
    rcases hchild ha with ⟨v, hv, hvlies, -⟩
    have hle : a.span.start ≤ a.span.stop := by
      rw [hv.span_eq]
      exact hvlies.start_le_stop
    exact ⟨Nat.le_trans hle hab, hab⟩
  · intro c hc
    rcases hchild hc with ⟨v, hv, hvlies, hcovers⟩
    have hle : c.span.start ≤ c.span.stop := by
      rw [hv.span_eq]
      exact hvlies.start_le_stop
    have hinside : n.span.Covers c.span := by
      rw [hu.span_eq, hv.span_eq]
      exact hcovers
    have hctree : c.tree = t := Node.tree_of_mem_children hc
    rcases hv.text_eq (hctree ▸ hvlies) with ⟨-, hctext⟩
    refine ⟨hinside, ?_, ?_⟩
    · -- offsets in order have positions in order
      rw [(hu.positions_eq hlies).1, (hu.positions_eq hlies).2, (hv.positions_eq hvlies).1,
        (hv.positions_eq hvlies).2]
      exact ⟨Position.ofOffset_mono source hinside.1, Position.ofOffset_mono source hle,
        Position.ofOffset_mono source hinside.2⟩
    · rw [htext, hctext, hctree]
      exact Span.slice?_within hinside hle hfits.2

/-- Behind a blank line and a blank stand a letter and a token that recovery put in. The engine's
root starts at the letter; in the built tree it has the whole source, and the letter is cut out of
it. -/
theorem text_behind_blank_line :
    let source : Bytes := [10, 32, 97, 10]
    let letter : NodeInfo := { (default : NodeInfo) with
      span := ⟨2, 3⟩, start := ⟨1, 1⟩, stop := ⟨1, 2⟩ }
    let absent : NodeInfo := { (default : NodeInfo) with
      missing := true, span := ⟨3, 3⟩, start := ⟨1, 2⟩, stop := ⟨1, 2⟩ }
    let raw : RawTree := .node letter [.node letter [], .node absent []]
    let g : Grammar :=
      { registry := 0, serial := 0, name := "", language := { abi := 14, kindCount := 1 } }
    let t := Tree.build g source raw none
    raw.WellPlaced source ∧ t.root.text = source ∧ ∃ c ∈ t.root.children, c.text = [97] := by
  intro source letter absent raw g t
  have hletter : letter.LiesIn source := ⟨by decide, by decide, rfl, rfl⟩
  have habsent : absent.LiesIn source := ⟨by decide, by decide, rfl, rfl⟩
  have hraw : raw.WellPlaced source := by
    refine .node hletter ?_ (List.isChain_pair.mpr (by decide)) ?_
    · intro c hc
      rcases List.mem_pair.mp hc with rfl | rfl <;> decide
    · intro c hc
      rcases List.mem_pair.mp hc with rfl | rfl
      · exact .leaf hletter
      · exact .leaf habsent
  rcases build_placed g source raw none hraw with ⟨⟨hspan, -, htext⟩, hnode⟩
  obtain ⟨-, -, -, -, hchild⟩ := hnode ⟨0, by rw [size_build]; decide⟩
  -- the first child is the letter
  obtain ⟨c, rest, hc, -, hcs⟩ :=
    List.forall₂_cons_right_iff.mp (copies_root g source raw none).children
  have hmem : c ∈ t.root.children := by
    rw [hcs]
    exact List.mem_cons_self
  rcases hchild c hmem with ⟨-, -, hslice⟩
  have hcspan : c.span = ⟨2, 3⟩ := hc.span_eq
  have hctext : some c.text = some [97] := by
    rw [← hslice]
    show (c.span.within t.root.span).slice? t.root.text = some [97]
    rw [hcspan, hspan, htext]
    decide
  exact ⟨hraw, htext, c, hmem, Option.some.inj hctext⟩

end Tree

end SyntaxTrees

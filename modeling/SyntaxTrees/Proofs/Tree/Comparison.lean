import SyntaxTrees.Proofs.Tree.Skeleton
import SyntaxTrees.Proofs.Tree.Traversal

/-!
# Comparing nodes by their canonical texts

Two nodes have the same canonical text exactly if they have the same skeleton, as long as no kind
that is written holds a bracket or a blank (`Node.toSExpr_faithful`). The nodes that a text shows are
those that are reached through named nodes only (`Node.Shows`); the walk lists them in the order in
which their kinds are written (`Node.Copies.kinds_shown`), between nodes that are not shown.
-/

namespace SyntaxTrees.Node

/-- The nodes have the same kind, and their named children correspond to each other one by one. -/
inductive SameSkeleton : Node → Node → Prop where
  | intro {n m : Node} (hkind : n.kind = m.kind)
      (hchildren : List.Forall₂ SameSkeleton n.namedChildren m.namedChildren) : SameSkeleton n m

/-- The path from the node to the other one, but for its start, leads through named nodes only. -/
inductive Shows : Node → Node → Prop where
  | self (n : Node) : Shows n n
  | child {n c d : Node} (hc : c ∈ n.namedChildren) (hd : Shows c d) : Shows n d

open Classical in
/-- The nodes below a node that its text shows, in the order of the walk. -/
noncomputable def shown (n : Node) : List Node := n.descendants.filter (n.Shows ·)

/-- The node is one of the nodes of a built tree. -/
def IsBuilt (n : Node) : Prop :=
  ∃ g source raw changed, n.tree = Tree.build g source raw changed ∧ n.id < n.tree.size

theorem IsBuilt.exists_copied {n : Node} (h : n.IsBuilt) : ∃ u, n.Copies u := by
  rcases n with ⟨t, id⟩
  rcases h with ⟨g, source, raw, changed, rfl, hid⟩
  rcases Tree.exists_copied hid with ⟨_, u, _, hu⟩
  exact ⟨u, hu⟩

theorem isBuilt_root (g : Grammar) (source : Bytes) (raw : RawTree)
    (changed : Option (List Span)) : (Tree.build g source raw changed).root.IsBuilt := by
  have hpos : 0 < (Tree.build g source raw changed).size := by
    rw [Tree.size_build, RawTree.size_eq]
    exact Nat.succ_pos _
  exact ⟨g, source, raw, changed, rfl, hpos⟩

variable {n m c d : Node} {u v : RawTree}

/-! ## Skeletons of nodes -/

theorem sameSkeleton_all {ns ms : List Node} {us vs : List RawTree}
    (hns : List.Forall₂ Copies ns us) (hms : List.Forall₂ Copies ms vs)
    (h : ∀ c ∈ ns, ∀ {d u v}, c.Copies u → d.Copies v →
      (c.SameSkeleton d ↔ u.skeleton = v.skeleton)) :
    List.Forall₂ SameSkeleton ns ms ↔ us.map RawTree.skeleton = vs.map RawTree.skeleton := by
  induction hns generalizing ms vs with
  | nil => cases hms <;> simp
  | @cons c u ns us hc _ ih =>
    cases hms with
    | nil => simp
    | @cons d v ms vs hd hms =>
      -- heads by `h`, tails by the hypothesis
      have hothers := ih hms fun c hc => h c (List.mem_cons_of_mem _ hc)
      rw [List.forall₂_cons, h c List.mem_cons_self hc hd, hothers, List.map_cons, List.map_cons,
        List.cons.injEq]

/-- Nodes have the same skeleton exactly if the raw trees that they copy do. -/
theorem Copies.sameSkeleton_iff (hn : n.Copies u) (hm : m.Copies v) :
    n.SameSkeleton m ↔ u.skeleton = v.skeleton := by
  apply hn.induction_pairs
    (P := fun n u => ∀ {m v}, m.Copies v → (n.SameSkeleton m ↔ u.skeleton = v.skeleton)) ?_ hm
  intro n u hn ih m v hm
  have hnamed := sameSkeleton_all hn.namedChildren hm.namedChildren
    fun c hc _ _ _ hcopy => ih c (List.mem_of_mem_filter hc) _ hcopy
  -- two skeletons are equal if the kinds are and the parts are one by one
  have hskeleton : u.skeleton = v.skeleton ↔
      n.kind = m.kind ∧ List.Forall₂ SameSkeleton n.namedChildren m.namedChildren := by
    rw [u.skeleton_eq, v.skeleton_eq, Skeleton.node.injEq, RawTree.skeletons_eq_map,
      RawTree.skeletons_eq_map, ← hn.kind_eq, ← hm.kind_eq, hnamed]
  rw [hskeleton]
  constructor
  · intro hsame
    cases hsame with
    | intro hkind hchildren => exact ⟨hkind, hchildren⟩
  · intro hsame
    exact .intro hsame.1 hsame.2

/-! ## Shown nodes -/

/-- The walk lists what is shown. -/
theorem Shows.mem_descendants (h : n.Shows d) (hn : n.Copies u) : d ∈ n.descendants := by
  induction h generalizing u with
  | self n =>
    rw [hn.descendants_eq]
    exact List.mem_cons_self
  | child hc _ ih =>
    have hchild := List.mem_of_mem_filter hc
    rcases hn.exists_of_mem_children hchild with ⟨v, -, hv⟩
    rw [hn.descendants_eq]
    exact List.mem_cons_of_mem _ (List.mem_flatMap.mpr ⟨_, hchild, ih hv⟩)

namespace Copies

/-- Of the nodes below a child, those are shown that a named child shows. They are not shown through
another child, as they do not lie below another one. -/
theorem shows_iff (h : n.Copies u) (hc : c ∈ n.children) (hd : d ∈ c.descendants) :
    n.Shows d ↔ c.entry.named = true ∧ c.Shows d := by
  constructor
  · -- the node is in one child only, so that child is on the way to it
    intro hshows
    cases hshows with
    | self => exact absurd hd (h.not_mem_descendants_child hc)
    | @child _ c' _ hc' hd' =>
      rcases List.mem_filter.mp hc' with ⟨hchild, hnamed⟩
      rcases h.exists_of_mem_children hchild with ⟨v, -, hv⟩
      have hsame : c = c' := h.child_unique hc hchild hd (hd'.mem_descendants hv)
      subst hsame
      exact ⟨hnamed, hd'⟩
  · intro hshows
    exact .child (List.mem_filter.mpr ⟨hc, hshows.1⟩) hshows.2

open Classical in
theorem filter_shows (h : n.Copies u) (hc : c ∈ n.children) :
    c.descendants.filter (n.Shows ·) = if c.entry.named then c.shown else [] := by
  by_cases hnamed : c.entry.named
  · rw [if_pos hnamed, shown]
    apply List.filter_congr
    intro d hd
    simp [h.shows_iff hc hd, hnamed]
  · -- not even a named node below an anonymous child is shown
    rw [if_neg hnamed, List.filter_eq_nil_iff]
    intro d hd
    simp [h.shows_iff hc hd, hnamed]

/-- A node is shown, and then what its named children show, one child after the other. -/
theorem shown_eq (h : n.Copies u) : n.shown = n :: n.namedChildren.flatMap shown := by
  classical
  -- what a child that is not named holds is filtered out as a whole
  have hchildren : ∀ l : List Node, (∀ c ∈ l, c ∈ n.children) →
      (l.flatMap descendants).filter (n.Shows ·) =
        (l.filter (·.entry.named)).flatMap shown := by
    intro l hl
    induction l with
    | nil => rfl
    | cons c l ih =>
      rw [List.forall_mem_cons] at hl
      rw [List.flatMap_cons, List.filter_append, h.filter_shows hl.1, ih hl.2, List.filter_cons]
      split <;> rfl
  rw [shown, h.descendants_eq, List.filter_cons_of_pos (by simpa using Shows.self n)]
  exact congrArg (n :: ·) (hchildren n.children fun c hc => hc)

end Copies

theorem kinds_shown_all {ns : List Node} {us : List RawTree}
    (h : List.Forall₂ (fun c v => c.shown.map kind = v.skeleton.kinds) ns us) :
    (ns.flatMap shown).map kind = Skeleton.kindsAll (us.map RawTree.skeleton) := by
  induction h with
  | nil => rfl
  | cons hc _ ih => rw [List.flatMap_cons, List.map_append, hc, ih, List.map_cons, Skeleton.kindsAll]

namespace Copies

/-- The kinds of the shown nodes are the kinds of the skeleton. -/
theorem kinds_shown (h : n.Copies u) : n.shown.map kind = u.skeleton.kinds := by
  apply h.induction_pairs (P := fun n u => n.shown.map kind = u.skeleton.kinds)
  intro m v hm ih
  have hnamed := kinds_shown_all
    (forall₂_of_mem hm.namedChildren fun c hc => ih c (List.mem_of_mem_filter hc))
  rw [hm.shown_eq, List.map_cons, hnamed, v.skeleton_eq, Skeleton.kinds,
    RawTree.skeletons_eq_map, hm.kind_eq]

theorem mem_shown_iff (h : n.Copies u) : d ∈ n.shown ↔ n.Shows d := by
  classical
  rw [shown, List.mem_filter, decide_eq_true_iff]
  exact ⟨fun hd => hd.2, fun hd => ⟨hd.mem_descendants h, hd⟩⟩

/-- What holds of the kinds of all shown nodes holds of the kinds of the skeleton. -/
theorem forall_kinds_iff (h : n.Copies u) (p : String → Prop) :
    (∀ d, n.Shows d → p d.kind) ↔ ∀ k ∈ u.skeleton.kinds, p k := by
  rw [← h.kinds_shown, List.forall_mem_map]
  simp only [h.mem_shown_iff]

end Copies

/-! ## Built trees -/

/-- Canonical texts are as good as the named skeletons for comparing nodes of built trees, as long as
the kinds that are written hold no bracket and no blank: two texts are equal exactly if the skeletons
are, and no text is a proper beginning of another. The pieces of a text between brackets and blanks
are the kinds of the nodes that are reached through named nodes only, in the order of the walk; for
this, no kind may be empty. -/
theorem toSExpr_faithful (hn : n.IsBuilt) (hm : m.IsBuilt)
    (hplainn : ∀ d, n.Shows d → Skeleton.IsPlain d.kind)
    (hplainm : ∀ d, m.Shows d → Skeleton.IsPlain d.kind) :
    (n.toSExpr = m.toSExpr ↔ n.SameSkeleton m) ∧
    (n.toSExpr.toList <+: m.toSExpr.toList → n.toSExpr = m.toSExpr) ∧
    ((∀ d, n.Shows d → d.kind ≠ "") → Skeleton.pieces n.toSExpr = n.shown.map kind) := by
  rcases hn.exists_copied with ⟨u, hu⟩
  rcases hm.exists_copied with ⟨v, hv⟩
  have hplainu := (hu.forall_kinds_iff Skeleton.IsPlain).mp hplainn
  have hplainv := (hv.forall_kinds_iff Skeleton.IsPlain).mp hplainm
  -- both texts are those of skeletons, which are read off their texts
  have htextu : n.toSExpr.toList = u.skeleton.chars := by
    rw [hu.toSExpr_eq, RawTree.outline_toList]
  have htextv : m.toSExpr.toList = v.skeleton.chars := by
    rw [hv.toSExpr_eq, RawTree.outline_toList]
  have hsame : n.toSExpr = m.toSExpr ↔ u.skeleton = v.skeleton := by
    rw [← String.toList_inj, htextu, htextv]
    exact Skeleton.chars_inj hplainu hplainv
  refine ⟨?_, ?_, ?_⟩
  · rw [hsame]
    exact (hu.sameSkeleton_iff hv).symm
  · intro hbegins
    rw [htextu, htextv] at hbegins
    exact hsame.mpr (Skeleton.eq_of_chars_isPrefix hplainu hplainv hbegins)
  · -- the pieces are the kinds of the shown nodes, none of which is empty
    intro hne
    have hnonempty := (hu.forall_kinds_iff (· ≠ "")).mp hne
    rw [hu.kinds_shown]
    exact Skeleton.pieces_eq htextu fun k hk => ⟨hplainu k hk, hnonempty k hk⟩

/-- A token with a named node below it makes no difference: the nodes that are shown are the same
without it. -/
theorem compare_without_token :
    let info (kind : String) (named : Bool) : NodeInfo := { (default : NodeInfo) with kind, named }
    let leaf (kind : String) : RawTree := .node (info kind true) []
    let pair : RawTree := .node (info "pair" true) [leaf "key", leaf "value"]
    let token : RawTree := .node (info "," false) [leaf "hidden"]
    let g : Grammar :=
      { registry := 0, serial := 0, name := "", language := { abi := 14, kindCount := 5 } }
    let n := (Tree.build g [] (.node (info "list" true) [pair, token, leaf "end"]) none).root
    let m := (Tree.build g [44] (.node (info "list" true) [pair, leaf "end"]) none).root
    (∀ d, n.Shows d → Skeleton.IsPlain d.kind ∧ d.kind ≠ "") ∧ n.SameSkeleton m ∧
      Skeleton.pieces n.toSExpr = n.shown.map kind ∧
      n.shown.map kind = ["list", "pair", "key", "value", "end"] := by
  intro info leaf pair token g n m
  have hn : n.Copies _ := Tree.copies_root g [] _ none
  have hm : m.Copies _ := Tree.copies_root g [44] _ none
  let kinds : List String := ["list", "pair", "key", "value", "end"]
  have hplain : ∀ k ∈ kinds, Skeleton.IsPlain k := by
    simp [kinds, Skeleton.IsPlain, Skeleton.isMark]
  have hnonempty : ∀ k ∈ kinds, k ≠ "" := by decide
  have hplainn : ∀ d, n.Shows d → Skeleton.IsPlain d.kind :=
    (hn.forall_kinds_iff Skeleton.IsPlain).mpr hplain
  have hplainm : ∀ d, m.Shows d → Skeleton.IsPlain d.kind :=
    (hm.forall_kinds_iff Skeleton.IsPlain).mpr hplain
  have hne : ∀ d, n.Shows d → d.kind ≠ "" := (hn.forall_kinds_iff (· ≠ "")).mpr hnonempty
  -- the texts are the same, although the arenas are not
  have htext : n.toSExpr = m.toSExpr := by
    rw [hn.toSExpr_eq, hm.toSExpr_eq]
    decide
  obtain ⟨hsame, -, hpieces⟩ := toSExpr_faithful (isBuilt_root g [] _ none)
    (isBuilt_root g [44] _ none) hplainn hplainm
  refine ⟨fun d hd => ⟨hplainn d hd, hne d hd⟩, hsame.mp htext, hpieces hne, ?_⟩
  rw [hn.kinds_shown]
  rfl

end SyntaxTrees.Node

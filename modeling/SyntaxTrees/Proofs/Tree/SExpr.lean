import SyntaxTrees.Proofs.Tree.Copied
import SyntaxTrees.Tree.SExpr

/-!
# The canonical text of a tree

`RawTree.outline` says by recursion what the canonical text is. The loop that writes it keeps a
list of tasks instead: carrying out the task of one node takes a fixed number of rounds
(`RawTree.rounds`), appends the outline of the tree below the node, and leaves the tasks behind it
as they were (`Node.Copies.writeSExpr`). A step bound of two rounds for each node is therefore never
reached.
-/

namespace SyntaxTrees

/-! ## The text by recursion -/

namespace RawTree

mutual

/-- The kind of the root and, each behind a blank, the texts of the named trees below it, in
brackets. -/
def outline : RawTree → String
  | node info children => "(" ++ info.kind ++ outlineNamed children ++ ")"

def outlineNamed : List RawTree → String
  | [] => ""
  | t :: rest => (if t.info.named then " " ++ t.outline else "") ++ outlineNamed rest

end

mutual

/-- How many rounds the loop needs for the text: each tree that is written is opened and closed. -/
def rounds : RawTree → Nat
  | node _ children => roundsNamed children + 2

def roundsNamed : List RawTree → Nat
  | [] => 0
  | t :: rest => (if t.info.named then t.rounds else 0) + roundsNamed rest

end

mutual

theorem rounds_le : (t : RawTree) → t.rounds ≤ 2 * t.size
  | node _ children => by
    have hchildren := roundsNamed_le children
    rw [rounds, size]
    omega

theorem roundsNamed_le : (l : List RawTree) → roundsNamed l ≤ 2 * sizeAll l
  | [] => Nat.le_refl _
  | t :: rest => by
    have ht := rounds_le t
    have hrest := roundsNamed_le rest
    rw [roundsNamed, sizeAll]
    split <;> omega

end

theorem outline_eq (t : RawTree) :
    t.outline = "(" ++ t.info.kind ++ outlineNamed t.children ++ ")" := by
  cases t
  rfl

theorem outlineNamed_eq_join (l : List RawTree) :
    outlineNamed l =
      String.join ((l.filter (·.info.named)).map fun t => " " ++ t.outline) := by
  induction l with
  | nil => rfl
  | cons t rest ih =>
    rw [outlineNamed, ih, List.filter_cons]
    by_cases ht : t.info.named
    · rw [if_pos ht, if_pos ht, List.map_cons, String.join_cons]
    · rw [if_neg ht, if_neg ht, String.empty_append]

/-- Stretching the root changes neither its kind nor what lies below it. -/
theorem outline_stretched (source : Bytes) (t : RawTree) :
    (t.stretched source).outline = t.outline := by
  cases t
  rfl

end RawTree

/-! ## The loop -/

namespace Node

mutual

/-- Carrying out the task of a node appends its outline and leaves the other tasks as they were. -/
theorem Copies.writeSExpr {t : Tree} {i : Nat} (more : Nat) (out : String) (spaced : Bool)
    (tasks : List SExprTask) : {u : RawTree} → (Node.mk t i).Copies u →
      t.writeSExpr (u.rounds + more) out (.node i spaced :: tasks) =
        t.writeSExpr more (out ++ (if spaced then " " else "") ++ u.outline) tasks
  | .node info children, h => by
    let opened := out ++ (if spaced then " (" else "(") ++ info.kind
    have hkind : (Node.mk t i).kind = info.kind := congrArg NodeInfo.kind h.info_eq
    -- the first round opens the bracket and puts the children in front
    have hopen : t.writeSExpr (RawTree.roundsNamed children + (1 + more) + 1) out
          (.node i spaced :: tasks) =
        t.writeSExpr (RawTree.roundsNamed children + (1 + more)) opened
          ((Node.mk t i).namedChildren.map (fun c => .node c.id true) ++ .close :: tasks) := by
      rw [Tree.writeSExpr, hkind]
    have hnamed : List.Forall₂ Copies (Node.mk t i).namedChildren
        (children.filter (·.info.named)) := h.namedChildren
    have htree : ∀ c ∈ (Node.mk t i).namedChildren, c.tree = t :=
      fun c hc => tree_of_mem_children (List.mem_of_mem_filter hc)
    have hchildren := writeSExpr_namedChildren (1 + more) opened (.close :: tasks) hnamed htree
    -- the last round closes it
    have hclose : t.writeSExpr (1 + more) (opened ++ RawTree.outlineNamed children)
          (.close :: tasks) =
        t.writeSExpr more (opened ++ RawTree.outlineNamed children ++ ")") tasks := by
      rw [Nat.add_comm, Tree.writeSExpr]
    have hrounds : (RawTree.node info children).rounds + more =
        RawTree.roundsNamed children + (1 + more) + 1 := by
      rw [RawTree.rounds]
      omega
    have hopened : opened = out ++ (if spaced then " " else "") ++ ("(" ++ info.kind) := by
      cases spaced with
      | false => simp [opened, String.append_assoc]
      | true =>
        have hblank : " (" = " " ++ "(" := rfl
        show out ++ " (" ++ info.kind = out ++ " " ++ ("(" ++ info.kind)
        rw [hblank]
        simp only [String.append_assoc]
    rw [hrounds, hopen, hchildren, hclose, RawTree.outline, hopened]
    simp only [String.append_assoc]

/-- Carrying out the tasks of the named children appends their outlines, each behind a blank. -/
theorem writeSExpr_namedChildren {t : Tree} (more : Nat) (out : String) (tasks : List SExprTask) :
    {us : List RawTree} → {ns : List Node} →
      List.Forall₂ Copies ns (us.filter (·.info.named)) → (∀ c ∈ ns, c.tree = t) →
      t.writeSExpr (RawTree.roundsNamed us + more) out
          (ns.map (fun c => .node c.id true) ++ tasks) =
        t.writeSExpr more (out ++ RawTree.outlineNamed us) tasks
  | [], ns, h, _ => by
    cases h
    simp [RawTree.roundsNamed, RawTree.outlineNamed]
  | u :: us, ns, h, htree => by
    rw [List.filter_cons] at h
    by_cases hu : u.info.named
    · rw [if_pos hu] at h
      rcases List.forall₂_cons_right_iff.mp h with ⟨⟨_, i⟩, rest, hn, hrest, rfl⟩
      cases htree _ List.mem_cons_self
      have hfirst := hn.writeSExpr (RawTree.roundsNamed us + more) out true
        (rest.map (fun c => .node c.id true) ++ tasks)
      have hothers := writeSExpr_namedChildren more (out ++ " " ++ u.outline) tasks hrest
        fun c hc => htree c (List.mem_cons_of_mem _ hc)
      have hrounds : RawTree.roundsNamed (u :: us) + more =
          u.rounds + (RawTree.roundsNamed us + more) := by
        rw [RawTree.roundsNamed, if_pos hu, Nat.add_assoc]
      rw [hrounds, List.map_cons, List.cons_append, hfirst, if_pos rfl, hothers,
        RawTree.outlineNamed, if_pos hu]
      simp only [String.append_assoc]
    · -- an anonymous tree has no task, no round and no text
      rw [if_neg hu] at h
      have hothers := writeSExpr_namedChildren more out tasks h htree
      rw [RawTree.roundsNamed, RawTree.outlineNamed, if_neg hu, if_neg hu, Nat.zero_add,
        String.empty_append]
      exact hothers

end

variable {n : Node} {u : RawTree}

/-- The text that is written behind another is the outline of the tree below the node. -/
theorem Copies.writeSExpr_eq (h : n.Copies u) (out : String) :
    n.writeSExpr out = out ++ u.outline := by
  have hsize := h.size_le
  have hrounds := u.rounds_le
  rcases Nat.exists_eq_add_of_le (show u.rounds ≤ 2 * n.tree.size by omega) with ⟨more, hmore⟩
  have hrun := h.writeSExpr more out false []
  rw [Node.writeSExpr, hmore, hrun]
  -- no task is left, whether or not rounds are
  have hdone : ∀ text, n.tree.writeSExpr more text [] = text := by
    intro text
    cases more <;> rfl
  rw [hdone, if_neg Bool.false_ne_true, String.append_empty]

theorem Copies.toSExpr_eq (h : n.Copies u) : n.toSExpr = u.outline := by
  have hwrite := h.writeSExpr_eq ""
  rw [String.empty_append] at hwrite
  exact hwrite

end Node

/-! ## Built trees -/

namespace Tree

/-- The canonical text of a node is its kind and, each behind a blank, the canonical texts of its
named children, in brackets. So an anonymous child leaves no trace, and nor do the nodes below it;
no blank stands at either end. In terms of the raw tree, the text is the outline of the subtree at
the same path.

The loop comes to an end: for each node there is a number of rounds after which its text has been
written and the tasks behind it are all that is left, no matter how many rounds are still granted.
Appending the text to another one and displaying the node give the same text. -/
theorem toSExpr_canonical (g : Grammar) (source : Bytes) (raw : RawTree)
    (changed : Option (List Span)) :
    let t := Tree.build g source raw changed
    (∀ path, (t.root.follow? path).map Node.toSExpr =
      (raw.subtree? path).map RawTree.outline) ∧
    ∀ id : Fin t.size,
      let n := Node.mk t id
      n.toSExpr = "(" ++ n.kind ++
        String.join (n.namedChildren.map fun c => " " ++ c.toSExpr) ++ ")" ∧
      (n.toSExpr.toList.head? = some '(' ∧ n.toSExpr.toList.getLast? = some ')') ∧
      (∃ rounds ≤ 2 * t.size, ∀ more out spaced tasks,
        t.writeSExpr (rounds + more) out (.node id spaced :: tasks) =
          t.writeSExpr more (out ++ (if spaced then " " else "") ++ n.toSExpr) tasks) ∧
      (∀ out, n.writeSExpr out = out ++ n.toSExpr) ∧
      toString n = n.toSExpr := by
  intro t
  constructor
  · -- a path leads to nothing in both trees, or to a node and the tree that it copies
    intro path
    have hsub : (raw.subtree? path).map RawTree.outline =
        ((raw.stretched source).subtree? path).map RawTree.outline := by
      cases path with
      | nil => simp [RawTree.subtree?, RawTree.outline_stretched]
      | cons i path => simp [RawTree.subtree?]
    rw [hsub]
    rcases follow?_copies g source raw changed path with
      ⟨hnone, hnone'⟩ | ⟨n, u, hsome, hsome', hu⟩
    · rw [hnone, hnone']
      rfl
    · rw [hsome, hsome', Option.map_some, Option.map_some, hu.toSExpr_eq]
  · -- the node copies a tree, whose outline is its text
    intro id n
    rcases exists_copied id.isLt with ⟨path, u, -, hu⟩
    have htext := hu.toSExpr_eq
    have hkind : n.kind = u.info.kind := congrArg NodeInfo.kind hu.info_eq
    have hnamed := congrArg (fun texts => String.join (texts.map (" " ++ ·)))
      (Node.Copies.map_eq Node.Copies.toSExpr_eq hu.namedChildren)
    refine ⟨?_, ⟨?_, ?_⟩, ⟨u.rounds, ?_, ?_⟩, ?_, rfl⟩
    · rw [htext, RawTree.outline_eq, RawTree.outlineNamed_eq_join, hkind]
      simp only [List.map_map] at hnamed
      exact congrArg (fun texts => "(" ++ u.info.kind ++ texts ++ ")") hnamed.symm
    · rw [htext, RawTree.outline_eq]
      simp
    · rw [htext, RawTree.outline_eq, String.toList_append, List.getLast?_append]
      rfl
    · -- there are rounds enough, as a tree needs no more than two for each node
      have hrounds := u.rounds_le
      have hsize : u.size ≤ t.size := hu.size_le
      omega
    · intro more out spaced tasks
      rw [htext]
      exact hu.writeSExpr more out spaced tasks
    · intro out
      rw [htext]
      exact hu.writeSExpr_eq out

/-- The named node below an anonymous one leaves no trace. -/
example :
    let info (kind : String) (named : Bool) : NodeInfo := { (default : NodeInfo) with kind, named }
    let leaf (kind : String) : RawTree := .node (info kind true) []
    RawTree.outline (.node (info "a" true) [.node (info "b" false) [leaf "c"], leaf "d"]) =
      "(a (d))" := by
  decide

end Tree

end SyntaxTrees

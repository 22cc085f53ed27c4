import Mathlib.Data.List.Induction
import SyntaxTrees.Proofs.Tree.Layout

/-!
# A built tree is a copy of the raw tree

`Arena.UnfoldsTo` reads a tree out of an arena by going from run to run. A built tree unfolds to
the raw tree it was made of, up to the data of the root (`Tree.build_copies_raw`). Place by place:
a path, that is a list of child positions from the root downwards, leads to a node exactly if it leads
to a subtree of the raw tree, the two have the same data, and every entry of the arena is at the end
of exactly one path.
-/

namespace SyntaxTrees

/-! ## Paths -/

/-- The tree at the end of a path; `none` if the path leaves the tree. -/
def RawTree.subtree? (t : RawTree) : (path : List Nat) → Option RawTree
  | [] => some t
  | i :: path => t.children[i]?.bind fun c => c.subtree? path

/-- The node at the end of a path; `none` if the path leaves the tree. -/
def Node.follow? (n : Node) : (path : List Nat) → Option Node
  | [] => some n
  | i :: path => (n.child? i).bind fun c => c.follow? path

/-- The second part of a path goes on from where the first part ends. -/
theorem Node.follow?_append (n : Node) (path path' : List Nat) :
    n.follow? (path ++ path') = (n.follow? path).bind (·.follow? path') := by
  induction path generalizing n with
  | nil => rfl
  | cons i path ih =>
    simp only [List.cons_append, follow?]
    cases n.child? i with
    | none => rfl
    | some c => exact ih c

/-- A path with one more step goes on from where the path ends. -/
theorem Node.follow?_concat (n : Node) (path : List Nat) (i : Nat) :
    n.follow? (path ++ [i]) = (n.follow? path).bind (·.child? i) := by
  have hstep : ∀ c : Node, c.follow? [i] = c.child? i := by
    intro c
    simp only [follow?, Option.bind_fun_some]
  rw [follow?_append]
  simp only [hstep]

/-! ## Unfolding -/

mutual

/-- The node of an index and those below it make up a tree. -/
def Arena.UnfoldsTo (a : Arena) (i : Nat) : RawTree → Prop
  | .node info children =>
    ∃ e, a[i]? = some e ∧ e.toNodeInfo = info ∧ e.childCount = children.length ∧
      a.RunUnfoldsTo e.firstChild children

/-- The nodes from an index on, each with those below it, make up a list of trees. -/
def Arena.RunUnfoldsTo (a : Arena) (i : Nat) : List RawTree → Prop
  | [] => True
  | t :: rest => a.UnfoldsTo i t ∧ a.RunUnfoldsTo (i + 1) rest

end

mutual

/-- At most one tree can be read from an index on. -/
theorem Arena.UnfoldsTo.unique {a : Arena} {i : Nat} :
    {t u : RawTree} → a.UnfoldsTo i t → a.UnfoldsTo i u → t = u
  | .node info children, .node info' children', ht, hu => by
    simp only [UnfoldsTo] at ht hu
    rcases ht with ⟨e, he, rfl, hcount, hrun⟩
    rcases hu with ⟨e', he', rfl, hcount', hrun'⟩
    rw [he] at he'
    cases he'
    rw [Arena.RunUnfoldsTo.unique (hcount.symm.trans hcount') hrun hrun']

theorem Arena.RunUnfoldsTo.unique {a : Arena} {i : Nat} :
    {l m : List RawTree} → l.length = m.length → a.RunUnfoldsTo i l → a.RunUnfoldsTo i m → l = m
  | [], [], _, _, _ => rfl
  | t :: rest, u :: rest', hlen, hl, hm => by
    simp only [RunUnfoldsTo] at hl hm
    rw [Arena.UnfoldsTo.unique hl.1 hm.1,
      Arena.RunUnfoldsTo.unique (by simpa using hlen) hl.2 hm.2]

end

namespace Arena.Lists

variable {a : Arena} {l : List RawTree}

/-- The trees of the list that stand in the run of a node are those below it. -/
theorem getElem?_run (h : a.Lists l l.length) {i k : Nat} {t : RawTree} (ht : l[i]? = some t)
    (hk : k < t.children.length) : l[runStart l i + k]? = t.children[k]? := by
  have htail : l.tail = l.flatMap RawTree.children := by simpa using h.tail_eq
  rw [← getElem?_flatMap_children ht hk, ← htail, List.getElem?_tail, runStart]
  congr 1
  omega

theorem exists_entry (h : a.Lists l l.length) {i : Nat} {t : RawTree} (ht : l[i]? = some t) :
    ∃ e, a[i]? = some e ∧ e.toNodeInfo = t.info ∧ e.firstChild = runStart l i ∧
      e.childCount = t.children.length := by
  have hi : i < l.length := (List.getElem?_eq_some_iff.mp ht).1
  have hsize : i < a.size := by
    rw [h.size_eq]
    exact hi
  have he : a[i]? = some a[i] := Array.getElem?_eq_getElem hsize
  exact ⟨_, he, h.info_eq he ht, h.run_eq hi he ht⟩

mutual

/-- Every tree of the list can be read from its own index on. -/
theorem unfoldsTo (h : a.Lists l l.length) {i : Nat} :
    {t : RawTree} → l[i]? = some t → a.UnfoldsTo i t
  | .node info children, ht => by
    rcases h.exists_entry ht with ⟨e, he, hinfo, hfirst, hcount⟩
    refine ⟨e, he, hinfo, hcount, ?_⟩
    rw [hfirst]
    exact runUnfoldsTo h fun k hk => h.getElem?_run ht hk

theorem runUnfoldsTo (h : a.Lists l l.length) {i : Nat} :
    {ts : List RawTree} → (∀ k, k < ts.length → l[i + k]? = ts[k]?) → a.RunUnfoldsTo i ts
  | [], _ => trivial
  | t :: rest, hts => by
    refine ⟨unfoldsTo h (by simpa using hts 0 (by simp)), runUnfoldsTo h fun k hk => ?_⟩
    have hk' := hts (k + 1) (by simpa using hk)
    rw [List.getElem?_cons_succ] at hk'
    rw [← hk']
    congr 1
    omega

end

/-- Every index but that of the root lies in the run of an earlier one. -/
theorem exists_parent (h : a.Lists l l.length) {i : Nat} (hpos : 0 < i) (hi : i < l.length) :
    ∃ p, p < i ∧ runStart l p ≤ i ∧ i < runStart l (p + 1) := by
  rcases exists_run hpos (h.runStart_done ▸ hi) with ⟨p, hp, hlo, hhi⟩
  have hlt := h.lt_runStart hp
  exact ⟨p, by omega, hlo, hhi⟩

end Arena.Lists

/-! ## Nodes and subtrees -/

namespace Node

variable {n : Node} {l : List RawTree} {t : RawTree}

/-- The entry of a node agrees with the tree of the list below it. -/
theorem entry_eq (h : n.tree.arena.Lists l l.length) (ht : l[n.id]? = some t) :
    n.entry.toNodeInfo = t.info ∧ n.entry.firstChild = runStart l n.id ∧
      n.childCount = t.children.length := by
  rcases h.exists_entry ht with ⟨e, he, hinfo, hfirst, hcount⟩
  have hentry : n.entry = e := by simp [entry, Array.getD_eq_getD_getElem?, he]
  rw [childCount, hentry]
  exact ⟨hinfo, hfirst, hcount⟩

/-- A node is a child at one place only. -/
theorem child?_injective {k k' : Nat} {c : Node} (h : n.child? k = some c)
    (h' : n.child? k' = some c) : k = k' := by
  simp only [child?, Option.ite_none_right_eq_some, Option.some.injEq] at h h'
  have hid : (n.withId (n.entry.firstChild + k)).id = (n.withId (n.entry.firstChild + k')).id := by
    rw [h.2, h'.2]
  simp only [withId] at hid
  omega

/-- A node has the children that the tree below it has. -/
theorem child?_eq (h : n.tree.arena.Lists l l.length) (ht : l[n.id]? = some t) (k : Nat) :
    n.child? k = if k < t.children.length then some ⟨n.tree, runStart l n.id + k⟩ else none := by
  rcases entry_eq h ht with ⟨-, hfirst, hcount⟩
  rw [child?, hcount, hfirst]
  rfl

/-- A path leads to a node exactly if it leads to a subtree, and that is the one below the node. -/
theorem follow?_eq (h : n.tree.arena.Lists l l.length) (ht : l[n.id]? = some t)
    (path : List Nat) :
    (n.follow? path = none ∧ t.subtree? path = none) ∨
      ∃ i u, n.follow? path = some ⟨n.tree, i⟩ ∧ t.subtree? path = some u ∧ l[i]? = some u := by
  induction path generalizing n t with
  | nil => exact Or.inr ⟨n.id, t, rfl, rfl, ht⟩
  | cons k path ih =>
    rw [follow?, RawTree.subtree?, child?_eq h ht]
    -- the step leads to a child if there are so many, and nowhere else
    by_cases hk : k < t.children.length
    · have hrun := h.getElem?_run ht hk
      rw [List.getElem?_eq_getElem hk] at hrun ⊢
      rw [if_pos hk]
      exact ih (n := ⟨n.tree, runStart l n.id + k⟩) h hrun
    · rw [if_neg hk, List.getElem?_eq_none (by omega)]
      exact Or.inl ⟨rfl, rfl⟩

/-- A child points back to the node that it is a child of. -/
theorem parent?_child (h : n.tree.arena.Lists l l.length) (ht : l[n.id]? = some t) {k : Nat}
    {c : Node} (hc : n.child? k = some c) : c.parent? = some n := by
  rw [child?_eq h ht] at hc
  by_cases hk : k < t.children.length
  · rw [if_pos hk] at hc
    cases hc
    have hrun := h.getElem?_run ht hk
    rw [List.getElem?_eq_getElem hk] at hrun
    rcases h.exists_entry hrun with ⟨e, he, -⟩
    have hid : n.id < l.length := (List.getElem?_eq_some_iff.mp ht).1
    -- the place of the child is inside the run of the children of the node
    have hparent : e.parent = some n.id := by
      refine (h.parent_eq he).mpr ⟨hid, by omega, ?_⟩
      rw [runStart_succ ht]
      omega
    simp [parent?, entry, Array.getD_eq_getD_getElem?, he, hparent, withId]
  · simp [hk] at hc

/-- A node is the end of a path of one more step exactly if its parent is the end of the path. -/
theorem parent?_follow (h : n.tree.arena.Lists l l.length) (ht : l[n.id]? = some t)
    {path : List Nat} {k : Nat} {c : Node} (hc : n.follow? (path ++ [k]) = some c) :
    c.parent? = n.follow? path := by
  rw [follow?_concat] at hc
  rcases follow?_eq h ht path with ⟨hnone, -⟩ | ⟨i, u, hsome, -, hu⟩
  · simp [hnone] at hc
  · rw [hsome] at hc ⊢
    exact parent?_child (n := ⟨n.tree, i⟩) h hu hc

end Node

/-! ## Paths and indices -/

namespace Tree

variable {t : Tree} {l : List RawTree} {root : RawTree}

/-- Every index is at the end of a path from the root: of the path to its parent and one step
more. -/
theorem exists_path (h : t.arena.Lists l l.length) (i : Nat) (hi : i < l.length) :
    ∃ path, t.root.follow? path = some ⟨t, i⟩ := by
  induction i using Nat.strongRecOn with
  | ind i ih =>
    rcases Nat.eq_zero_or_pos i with rfl | hpos
    · exact ⟨[], rfl⟩
    · rcases h.exists_parent hpos hi with ⟨p, hp, hlo, hhi⟩
      rcases ih p hp (by omega) with ⟨path, hpath⟩
      have hp' : p < l.length := by omega
      have hu : l[p]? = some l[p] := List.getElem?_eq_getElem hp'
      rw [runStart_succ hu] at hhi
      -- the place among the children is the distance from the start of the run
      refine ⟨path ++ [i - runStart l p], ?_⟩
      rw [Node.follow?_concat, hpath, Option.bind_some,
        Node.child?_eq (n := ⟨t, p⟩) h hu, if_pos (by omega)]
      simp only [Option.some.injEq, Node.mk.injEq, true_and]
      omega

theorem parent?_root (h : t.arena.Lists l l.length) : t.root.parent? = none := by
  have hpos : 0 < l.length := List.length_pos_iff.mpr h.ne_nil
  rcases h.exists_entry (List.getElem?_eq_getElem hpos) with ⟨e, he, -⟩
  have hparent : e.parent = none := by
    rw [Option.eq_none_iff_forall_ne_some]
    intro p hp
    rcases (h.parent_eq he).mp hp with ⟨-, hle, -⟩
    simp [runStart] at hle
  simp [Tree.root, Node.parent?, Node.entry, Array.getD_eq_getD_getElem?, he, hparent]

/-- Two paths from the root do not end at one node. The induction is on the last steps: a node
determines both its parent and its place among the children of the parent. -/
theorem follow?_injective (h : t.arena.Lists l l.length) (hroot : l[0]? = some root)
    {path path' : List Nat} {c : Node} (hp : t.root.follow? path = some c)
    (hp' : t.root.follow? path' = some c) : path = path' := by
  -- no step leads back to the root, as this has no parent
  have hnil : ∀ {q k}, t.root.follow? (q ++ [k]) ≠ some t.root := by
    intro q k hq
    have hparent := Node.parent?_follow (n := t.root) h hroot hq
    rw [parent?_root h] at hparent
    simp [Node.follow?_concat, ← hparent] at hq
  induction path using List.reverseRecOn generalizing path' c with
  | nil =>
    cases hp
    rcases List.eq_nil_or_concat' path' with rfl | ⟨q, k, rfl⟩
    · rfl
    · exact absurd hp' hnil
  | append_singleton q k ih =>
    rcases List.eq_nil_or_concat' path' with rfl | ⟨q', k', rfl⟩
    · cases hp'
      exact absurd hp hnil
    · -- the last steps start at one node, the parent
      have hq := Node.parent?_follow (n := t.root) h hroot hp
      have hq' := Node.parent?_follow (n := t.root) h hroot hp'
      rcases Node.follow?_eq (n := t.root) h hroot q with ⟨hnone, -⟩ | ⟨i, u, hsome, -, hu⟩
      · simp [Node.follow?_concat, hnone] at hp
      · have hqq : q = q' := ih hsome (hq'.symm.trans (hq.trans hsome))
        subst hqq
        rw [Node.follow?_concat, hsome, Option.bind_some] at hp hp'
        rw [Node.child?_injective hp hp']

/-- The copying loop ends after one round for each node of the raw tree, and the arena unfolds to
the raw tree and to nothing else, but for the root, which covers the whole source and fills no
field. The nodes of the built tree and of the raw tree correspond to each other path by path:
equal paths lead to equal data, each index is at the end of one path, and the parent of a node is
at the end of the path without its last step. -/
theorem build_copies_raw (g : Grammar) (source : Bytes) (raw : RawTree)
    (changed : Option (List Span)) :
    let t := Tree.build g source raw changed
    (Copying.start raw).run.next = raw.size ∧
    t.size = raw.size ∧
    (∀ u, t.arena.UnfoldsTo 0 u ↔ u = raw.stretched source) ∧
    t.root.entry.toNodeInfo =
      { raw.info with
        span := ⟨0, source.length⟩
        start := ⟨0, 0⟩
        stop := .ofOffset source source.length
        field := none } ∧
    (∀ i path, (t.root.follow? (i :: path)).map (·.entry.toNodeInfo) =
      (raw.subtree? (i :: path)).map RawTree.info) ∧
    (∀ id : Fin t.size, ∃! path, t.root.follow? path = some ⟨t, id⟩) ∧
    t.root.parent? = none ∧
    ∀ path i n, t.root.follow? (path ++ [i]) = some n → n.parent? = t.root.follow? path := by
  intro t
  rcases lists_build g source raw changed with ⟨rest, hlists, hlength, hrounds⟩
  have hroot : (raw.stretched source :: rest)[0]? = some (raw.stretched source) := rfl
  have hsize : t.size = raw.size := hlists.size_eq.trans hlength
  refine ⟨hrounds, hsize, ?_, ?_, ?_, ?_, parent?_root hlists, ?_⟩
  · -- what the arena unfolds to is unique
    intro u
    have hunfold : t.arena.UnfoldsTo 0 (raw.stretched source) := hlists.unfoldsTo hroot
    constructor
    · intro hu
      exact hu.unique hunfold
    · rintro rfl
      exact hunfold
  · -- the list differs from the raw tree in its root only
    rw [(Node.entry_eq (n := t.root) hlists hroot).1]
    cases raw
    rfl
  · -- below the root the list is as the raw tree
    intro i path
    have hsub : raw.subtree? (i :: path) = (raw.stretched source).subtree? (i :: path) := by
      simp [RawTree.subtree?]
    rw [hsub]
    rcases Node.follow?_eq (n := t.root) hlists hroot (i :: path) with
      ⟨hnone, hnone'⟩ | ⟨j, u, hsome, hsome', hu⟩
    · rw [hnone, hnone']
      rfl
    · rw [hsome, hsome']
      exact congrArg some (Node.entry_eq (n := ⟨t, j⟩) hlists hu).1
  · -- every node is reached on one path
    intro id
    have hid : id.val < (raw.stretched source :: rest).length := by
      rw [hlength, ← hsize]
      exact id.isLt
    rcases exists_path hlists id hid with ⟨path, hpath⟩
    exact ⟨path, hpath, fun path' hpath' => follow?_injective hlists hroot hpath' hpath⟩
  · intro path i n hn
    exact Node.parent?_follow (n := t.root) hlists hroot hn

/-- The child of a second child is reached, and it points back to the second child. -/
theorem parent_of_grandchild :
    let leaf : RawTree := .node default []
    let raw : RawTree := .node default [leaf, .node default [leaf]]
    let g : Grammar :=
      { registry := 0, serial := 0, name := "", language := { abi := 14, kindCount := 1 } }
    let t := Tree.build g [] raw none
    ∃ n, t.root.follow? [1, 0] = some n ∧ n.parent? = t.root.follow? [1] := by
  intro leaf raw g t
  rcases build_copies_raw g [] raw none with ⟨-, -, -, -, hdata, -, -, hparent⟩
  have hsome : (t.root.follow? [1, 0]).map (·.entry.toNodeInfo) = some default := hdata 1 [0]
  rcases Option.map_eq_some_iff.mp hsome with ⟨n, hn, -⟩
  exact ⟨n, hn, hparent [1] 0 n hn⟩

end Tree

end SyntaxTrees

import SyntaxTrees.Proofs.Tree.Preorder

/-!
# Error marks

The engine promises that a node is marked as having an error exactly if it is faulty itself or one
of its children is marked (`RawTree.MarksErrors`). The marks are copied, one for each node, and they
are never compared with what lies below. They agree with it all the same: a node of a built tree is
marked exactly if the walk from it comes across a faulty node
(`Node.Copies.hasError_iff_exists_faulty`). `Tree.build_marks_errors` says this for the tree and for
the list of its faulty nodes.
-/

namespace SyntaxTrees

/-- The engine could not parse the node, or put it in. -/
def NodeInfo.isFaulty (info : NodeInfo) : Bool := info.error || info.missing

/-- A node of the tree is marked exactly if it is faulty itself or a node right below it is marked. -/
inductive RawTree.MarksErrors : RawTree → Prop where
  | node {info : NodeInfo} {children : List RawTree}
    (marked : info.hasError = true ↔
      info.isFaulty = true ∨ ∃ c ∈ children, c.info.hasError = true)
    (deeper : ∀ c ∈ children, c.MarksErrors) : (RawTree.node info children).MarksErrors

namespace RawTree.MarksErrors

variable {t u : RawTree}

theorem marked (h : t.MarksErrors) :
    t.info.hasError = true ↔
      t.info.isFaulty = true ∨ ∃ c ∈ t.children, c.info.hasError = true := by
  cases h
  assumption

theorem of_mem_children (h : t.MarksErrors) : ∀ c ∈ t.children, c.MarksErrors := by
  cases h
  assumption

theorem subtree? (h : t.MarksErrors) {path : List Nat} (hu : t.subtree? path = some u) :
    u.MarksErrors :=
  subtree?_induction (P := RawTree.MarksErrors) (fun _ h => h.of_mem_children) h hu

/-- Stretching the root touches neither its mark nor its faults. -/
theorem stretched (h : t.MarksErrors) (source : Bytes) : (t.stretched source).MarksErrors := by
  cases h with
  | node marked deeper => exact .node marked deeper

end RawTree.MarksErrors

/-! ## Marks and what lies below -/

namespace Node

variable {n d : Node} {u : RawTree}

/-- The faulty nodes below a node, itself included, in the order of the walk. -/
def faulty (n : Node) : List Node := n.descendants.filter (·.isFaulty)

theorem mem_faulty : d ∈ n.faulty ↔ d ∈ n.descendants ∧ d.isFaulty = true := List.mem_filter

namespace Copies

theorem isFaulty_eq (h : n.Copies u) : n.isFaulty = u.info.isFaulty := by
  rw [NodeInfo.isFaulty, ← h.info_eq]
  rfl

theorem hasError_eq (h : n.Copies u) : n.entry.hasError = u.info.hasError :=
  congrArg NodeInfo.hasError h.info_eq

/-- The faulty nodes by recursion: the node itself, and then those below its children. -/
theorem faulty_eq (h : n.Copies u) :
    n.faulty = (if n.isFaulty then [n] else []) ++ n.children.flatMap faulty := by
  rw [faulty, h.descendants_eq, List.filter_cons, List.filter_flatMap]
  split <;> rfl

/-- The faulty nodes have the data of the faulty entries of the pre-order listing. -/
theorem listing_faulty (h : n.Copies u) :
    n.faulty.map listing = u.preorder.filter (·.1.isFaulty) := by
  rw [← h.listing_descendants, List.filter_map]
  rfl

/-- A marked child shows that its parent is marked, and so does a fault of the parent itself. -/
theorem hasError_iff (h : n.Copies u) (hu : u.MarksErrors) :
    n.entry.hasError = true ↔
      n.isFaulty = true ∨ ∃ c ∈ n.children, c.entry.hasError = true := by
  have hmarks : n.children.map (·.entry.hasError) = u.children.map (·.info.hasError) :=
    map_eq hasError_eq h.children
  have hsome : (∃ c ∈ n.children, c.entry.hasError = true) ↔
      ∃ v ∈ u.children, v.info.hasError = true := by
    rw [← List.mem_map, ← List.mem_map, hmarks]
  rw [h.hasError_eq, h.isFaulty_eq, hsome]
  exact hu.marked

/-- The mark tells whether the walk from the node comes across a faulty node. The induction is over
the raw tree from its leaves up: a fault below a child has marked the child already. -/
theorem hasError_iff_exists_faulty (h : n.Copies u) (hu : u.MarksErrors) :
    n.entry.hasError = true ↔ ∃ d ∈ n.descendants, d.isFaulty = true := by
  refine h.induction_pairs (P := fun n u => u.MarksErrors →
    (n.entry.hasError = true ↔ ∃ d ∈ n.descendants, d.isFaulty = true)) ?_ hu
  intro m v hm ih hv
  have hchild : ∀ c ∈ m.children,
      (c.entry.hasError = true ↔ ∃ d ∈ c.descendants, d.isFaulty = true) := by
    intro c hc
    rcases hm.exists_of_mem_children hc with ⟨w, hw, hcw⟩
    exact ih c hc w hcw (hv.of_mem_children w hw)
  rw [hm.hasError_iff hv, hm.descendants_eq]
  constructor
  · -- a mark is due to the node itself or to a marked child
    rintro (hself | ⟨c, hc, hmark⟩)
    · exact ⟨m, List.mem_cons_self, hself⟩
    · rcases (hchild c hc).mp hmark with ⟨d, hd, hfault⟩
      exact ⟨d, List.mem_cons_of_mem _ (List.mem_flatMap.mpr ⟨c, hc, hd⟩), hfault⟩
  · -- a faulty node is the node itself or below a child
    rintro ⟨d, hd, hfault⟩
    rcases List.mem_cons.mp hd with rfl | hbelow
    · exact Or.inl hfault
    · rcases List.mem_flatMap.mp hbelow with ⟨c, hc, hdc⟩
      exact Or.inr ⟨c, hc, (hchild c hc).mpr ⟨d, hdc, hfault⟩⟩

end Copies

/-- What lies below a node lies below every node that going up from it leads to. -/
theorem Copies.mem_descendants_ancestor {a : Node} {v : RawTree} (hn : n.Copies u) (ha : a.Copies v)
    {k : Nat} (hup : n.ancestor? k = some a) (hd : d ∈ n.descendants) : d ∈ a.descendants := by
  rcases hn.mem_descendants_iff_ancestor?.mp hd with ⟨j, hj⟩
  apply ha.mem_descendants_iff_ancestor?.mpr
  exact ⟨j + k, by rw [ancestor?_add, hj, Option.bind_some, hup]⟩

end Node

/-! ## Built trees -/

namespace Tree

variable {g : Grammar} {source : Bytes} {raw : RawTree} {changed : Option (List Span)}

/-- Every node of a built tree is a copy of a tree that is marked as the engine promises. -/
theorem exists_marked (hraw : raw.MarksErrors) {id : Nat}
    (h : id < (build g source raw changed).size) :
    ∃ u, (Node.mk (build g source raw changed) id).Copies u ∧ u.MarksErrors := by
  rcases exists_copied h with ⟨path, u, hsub, hu⟩
  exact ⟨u, hu, (hraw.stretched source).subtree? hsub⟩

/-- Going up from a node of a built tree leads to nodes of that tree. -/
theorem id_lt_size_of_ancestor? {id : Nat} (h : id < (build g source raw changed).size) {k : Nat}
    {a : Node} (hup : (Node.mk (build g source raw changed) id).ancestor? k = some a) :
    a.tree = build g source raw changed ∧ a.id < (build g source raw changed).size := by
  rcases lists_build g source raw changed with ⟨rest, hlists, -, -⟩
  rcases id_le_of_ancestor? hlists hup with ⟨htree, hle⟩
  exact ⟨htree, Nat.lt_of_le_of_lt hle h⟩

/-- If the engine marks errors as it promises, then a node of the built tree is marked exactly if it
or a node below it is faulty, and with it every node that going up from it leads to. The faulty
nodes below a node are by recursion the node itself, if it is faulty, and those below its children,
from the first to the last.

The error nodes of the tree are all its faulty nodes, each of them once, in the order of the walk,
which is that of the pre-order listing of the raw tree. The tree has errors exactly if there is one.
-/
theorem build_marks_errors (g : Grammar) (source : Bytes) (raw : RawTree)
    (changed : Option (List Span)) (hraw : raw.MarksErrors) :
    let t := Tree.build g source raw changed
    (∀ id : Fin t.size,
      let n := Node.mk t id
      (n.entry.hasError = true ↔ ∃ d ∈ n.descendants, d.isFaulty = true) ∧
      (∀ k a, n.ancestor? k = some a → n.entry.hasError = true → a.entry.hasError = true) ∧
      n.faulty = (if n.isFaulty then [n] else []) ++ n.children.flatMap Node.faulty) ∧
    (t.hasErrors = true ↔ t.errorNodes ≠ []) ∧
    t.errorNodes = t.root.faulty ∧
    t.errorNodes.Sublist t.descendants ∧
    t.errorNodes.Nodup ∧
    (∀ d, d ∈ t.errorNodes ↔ (d.tree = t ∧ d.id < t.size) ∧ d.isFaulty = true) ∧
    t.errorNodes.map Node.listing = (raw.stretched source).preorder.filter (·.1.isFaulty) := by
  intro t
  have hroot := copies_root g source raw changed
  refine ⟨?_, ?_, rfl, List.filter_sublist, hroot.nodup_descendants.filter _, ?_,
    hroot.listing_faulty⟩
  · intro id n
    rcases exists_marked hraw id.isLt with ⟨u, hu, hmarks⟩
    have hmark := hu.hasError_iff_exists_faulty hmarks
    refine ⟨hmark, ?_, hu.faulty_eq⟩
    intro k a hup hself
    rcases id_lt_size_of_ancestor? id.isLt hup with ⟨htree, hid⟩
    have habove : ∃ v, a.Copies v ∧ v.MarksErrors := by
      rcases a with ⟨_, i⟩
      cases htree
      exact exists_marked hraw hid
    rcases habove with ⟨v, ha, hvmarks⟩
    -- the fault that has marked the node lies below its ancestor as well
    rcases hmark.mp hself with ⟨d, hd, hfault⟩
    exact (ha.hasError_iff_exists_faulty hvmarks).mpr
      ⟨d, hu.mem_descendants_ancestor ha hup hd, hfault⟩
  · have hmark := hroot.hasError_iff_exists_faulty (hraw.stretched source)
    rw [hasErrors, hmark]
    constructor
    · rintro ⟨d, hd, hfault⟩
      exact List.ne_nil_of_mem (Node.mem_faulty.mpr ⟨hd, hfault⟩)
    · intro hne
      rcases List.exists_mem_of_ne_nil _ hne with ⟨d, hd⟩
      exact ⟨d, Node.mem_faulty.mp hd⟩
  · intro d
    rw [errorNodes, List.mem_filter, mem_descendants_build]

/-- Two levels below the root, behind a token without fault, recovery has put a token in. The root
is marked, and the token is the only error node. -/
theorem inserted_token_marks_root :
    let token : NodeInfo :=
      { (default : NodeInfo) with kind := ";", missing := true, hasError := true }
    let marked : NodeInfo := { (default : NodeInfo) with hasError := true }
    let raw : RawTree :=
      .node marked [.node default [], .node marked [.node default [], .node token []]]
    let g : Grammar :=
      { registry := 0, serial := 0, name := "", language := { abi := 14, kindCount := 1 } }
    let t := Tree.build g [97] raw none
    raw.MarksErrors ∧ t.hasErrors = true ∧ t.errorNodes.map (·.kind) = [";"] := by
  intro token marked raw g t
  have hplain : (RawTree.node default []).MarksErrors := .node (by decide) (by simp)
  have htoken : (RawTree.node token []).MarksErrors := .node (by decide) (by simp)
  -- every node with the missing token below it is marked
  have hraw : raw.MarksErrors := by
    refine .node (by simp [marked, RawTree.info]) ?_
    intro c hc
    rcases List.mem_pair.mp hc with rfl | rfl
    · exact hplain
    · refine .node (by simp [marked, token, RawTree.info]) ?_
      intro c hc
      rcases List.mem_pair.mp hc with rfl | rfl
      · exact hplain
      · exact htoken
  rcases build_marks_errors g [97] raw none hraw with ⟨-, herrors, -, -, -, -, hlisting⟩
  have hlisted : t.errorNodes.map Node.listing = [(token, 0)] := hlisting
  refine ⟨hraw, ?_, ?_⟩
  · -- the listing has an entry, so the list has one
    apply herrors.mpr
    intro hnil
    rw [hnil] at hlisted
    cases hlisted
  · have hkinds : t.errorNodes.map (·.kind) =
        (t.errorNodes.map Node.listing).map (·.1.kind) := by
      rw [List.map_map]
      rfl
    rw [hkinds, hlisted]
    rfl

end Tree

end SyntaxTrees

import SyntaxTrees.Proofs.Tree.Preorder

/-!
# The descent through a tree

Looking for a span goes down from a node to the first child that covers the span, and from there on,
until no child does. `Node.LeadsTo` is this descent without a bound on its rounds. From every node of
a built tree it leads somewhere (`Node.Copies.exists_leadsTo`), always to a node below that covers
what the first one covers and has no child that does, and it takes fewer rounds than there are nodes
below (`Node.LeadsTo.ends`). So the bounded descent ends where this one does
(`Node.LeadsTo.smallestCovering?`).
-/

namespace SyntaxTrees.Node

variable {n c r : Node} {u : RawTree} {target : Span}

/-- The descent leads from a node to another one: it enters the first child that covers the target,
and stays where there is none. -/
inductive LeadsTo (target : Span) : Node → Node → Prop
  | stay {n : Node} (hnone : n.children.find? (fun c => c.span.Covers target) = none) :
    LeadsTo target n n
  | enter {n c r : Node} (hfind : n.children.find? (fun c => c.span.Covers target) = some c)
    (hr : LeadsTo target c r) : LeadsTo target n r

theorem Copies.exists_leadsTo (h : n.Copies u) (target : Span) : ∃ r, LeadsTo target n r := by
  apply h.induction (P := fun n => ∃ r, LeadsTo target n r)
  intro m v hm ih
  cases hfind : m.children.find? fun c => c.span.Covers target with
  | none => exact ⟨m, .stay hfind⟩
  | some c =>
    rcases ih c (List.mem_of_find?_eq_some hfind) with ⟨r, hr⟩
    exact ⟨r, .enter hfind hr⟩

namespace LeadsTo

/-- Where the descent ends no child covers the target. -/
theorem no_child (hr : LeadsTo target n r) : ∀ c ∈ r.children, ¬ c.span.Covers target := by
  induction hr with
  | stay hnone => simpa using hnone
  | enter _ _ ih => exact ih

/-- The descent never leaves the nodes that cover the target. -/
theorem covers (hr : LeadsTo target n r) (hcover : n.span.Covers target) :
    r.span.Covers target := by
  induction hr with
  | stay _ => exact hcover
  | enter hfind _ ih =>
    apply ih
    simpa using List.find?_some hfind

theorem mem (hr : LeadsTo target n r) (h : n.Copies u) : r ∈ n.descendants := by
  induction hr generalizing u with
  | stay _ =>
    rw [h.descendants_eq]
    exact List.mem_cons_self
  | @enter n c r hfind _ ih =>
    have hc : c ∈ n.children := List.mem_of_find?_eq_some hfind
    rcases h.exists_of_mem_children hc with ⟨v, -, hv⟩
    rw [h.descendants_eq]
    exact List.mem_cons_of_mem _ (List.mem_flatMap.mpr ⟨c, hc, ih hv⟩)

/-- The descent takes fewer rounds than there are nodes to go through. -/
theorem ends (hr : LeadsTo target n r) (h : n.Copies u) :
    ∃ rounds < n.descendants.length, ∀ more,
      descend target (rounds + more) n = descend target more r := by
  induction hr generalizing u with
  | @stay n _ =>
    -- no child is entered, in no round
    refine ⟨0, ?_, fun more => by rw [Nat.zero_add]⟩
    rw [h.descendants_eq]
    exact Nat.succ_pos _
  | @enter n c r hfind _ ih =>
    have hc : c ∈ n.children := List.mem_of_find?_eq_some hfind
    rcases h.exists_of_mem_children hc with ⟨v, -, hv⟩
    rcases ih hv with ⟨rounds, hrounds, hdescend⟩
    refine ⟨rounds + 1, ?_, ?_⟩
    · -- the child and the nodes below it are some of those below the node
      rcases List.append_of_mem hc with ⟨front, back, hsplit⟩
      rw [h.descendants_eq, hsplit, List.length_cons, List.flatMap_append, List.flatMap_cons,
        List.length_append, List.length_append]
      omega
    · intro more
      rw [Nat.add_right_comm, descend, hfind]
      exact hdescend more

end LeadsTo

/-- As many steps as the tree has nodes are enough for a descent that ends within the nodes below. -/
theorem smallestCovering?_of_ends (h : n.Copies u) (hcover : n.span.Covers target)
    (hends : ∃ rounds < n.descendants.length, ∀ more,
      descend target (rounds + more) n = descend target more r)
    (hnone : ∀ c ∈ r.children, ¬ c.span.Covers target) : n.smallestCovering? target = some r := by
  rcases hends with ⟨rounds, hrounds, hdescend⟩
  rw [h.length_descendants] at hrounds
  rcases Nat.exists_eq_add_of_lt (Nat.lt_of_lt_of_le hrounds h.size_le) with ⟨more, hmore⟩
  -- behind the last node that covers the target no round does anything
  have hstay : ∀ steps, descend target steps r = r := by
    intro steps
    cases steps with
    | zero => rfl
    | succ steps =>
      have hnone : r.children.find? (fun c => c.span.Covers target) = none := by simpa using hnone
      rw [descend, hnone]
  rw [smallestCovering?, if_pos hcover, hmore, Nat.add_assoc, hdescend, hstay]

theorem LeadsTo.smallestCovering? (hr : LeadsTo target n r) (h : n.Copies u)
    (hcover : n.span.Covers target) : n.smallestCovering? target = some r :=
  smallestCovering?_of_ends h hcover (hr.ends h) hr.no_child

end SyntaxTrees.Node

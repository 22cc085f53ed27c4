import Mathlib.Data.List.Basic
import SyntaxTrees.Tree.Basic

/-!
# The breadth-first layout

An arena is compared with a list of trees, of which the `i`-th is the tree below the `i`-th node.
`Arena.Lists` says that the list is breadth-first, that the entries hold the data of the roots, and
that the runs and parents in the entries agree with it. The relation has a count of the trees whose
children have been looked up, so that it describes an arena in the making as well as a finished
one:

* `Copying.lists_advance`: one round of the copying loop moves the count on by one;
* `Copying.lists_run`: the whole loop ends with a complete listing, after one round for each node;
* `Tree.lists_build`: a built tree is listed by the raw tree whose root is stretched.
-/

namespace SyntaxTrees

/-! ## Runs in a list of trees -/

/-- Where the children of the `i`-th tree start in a breadth-first list: after the root and the
children of all earlier trees. -/
def runStart (l : List RawTree) (i : Nat) : Nat := 1 + ((l.take i).flatMap RawTree.children).length

theorem runStart_succ {l : List RawTree} {i : Nat} {t : RawTree} (h : l[i]? = some t) :
    runStart l (i + 1) = runStart l i + t.children.length := by
  simp [runStart, List.take_add_one, h, Nat.add_assoc]

theorem runStart_mono (l : List RawTree) {i j : Nat} (h : i ≤ j) :
    runStart l i ≤ runStart l j := by
  have htake : (l.take j).take i = l.take i := by rw [List.take_take, Nat.min_eq_left h]
  have hsplit : l.take j = l.take i ++ (l.take j).drop i := by
    rw [← htake, List.take_append_drop]
  rw [runStart, runStart, hsplit, List.flatMap_append, List.length_append]
  omega

theorem runStart_append {l : List RawTree} (m : List RawTree) {i : Nat} (h : i ≤ l.length) :
    runStart (l ++ m) i = runStart l i := by
  rw [runStart, runStart, List.take_append_of_le_length h]

/-- The runs leave no gap: an index behind the root and before the end of some run lies in a run. -/
theorem exists_run {l : List RawTree} {i n : Nat} (hpos : 0 < i) (hi : i < runStart l n) :
    ∃ p, p < n ∧ runStart l p ≤ i ∧ i < runStart l (p + 1) := by
  induction n with
  | zero =>
    have hzero : runStart l 0 = 1 := by simp [runStart]
    omega
  | succ n ih =>
    -- an earlier run reaches beyond the index, or the last one has it
    by_cases hn : i < runStart l n
    · rcases ih hn with ⟨p, hp, hrun⟩
      exact ⟨p, by omega, hrun⟩
    · exact ⟨n, by omega, by omega, hi⟩

/-- The run of the `i`-th tree, cut out of the children of all trees. -/
theorem getElem?_flatMap_children {l : List RawTree} {i k : Nat} {t : RawTree}
    (h : l[i]? = some t) (hk : k < t.children.length) :
    (l.flatMap RawTree.children)[((l.take i).flatMap RawTree.children).length + k]? =
      t.children[k]? := by
  have hsplit : l = l.take i ++ t :: l.drop (i + 1) := by
    rw [← List.getElem?_eq_some_iff.mp h |>.2]
    simp
  conv_lhs => rw [hsplit]
  have htake : (l.take i ++ t :: l.drop (i + 1)).take i = l.take i := by
    rw [← hsplit]
  rw [htake, List.flatMap_append, List.getElem?_append_right (by omega), Nat.add_sub_cancel_left,
    List.flatMap_cons, List.getElem?_append_left hk]

/-! ## Arenas and lists of trees -/

/-- The arena holds the nodes of a tree in the breadth-first order of the list. The first `done`
trees have had their children looked up. -/
structure Arena.Lists (a : Arena) (l : List RawTree) (done : Nat) : Prop where
  size_eq : a.size = l.length
  ne_nil : l ≠ []
  done_le : done ≤ l.length
  /-- The trees behind the first are the children of those that have been looked up. -/
  tail_eq : l.tail = (l.take done).flatMap RawTree.children
  info_eq : ∀ {i : Nat} {e : Entry} {t : RawTree}, a[i]? = some e → l[i]? = some t →
    e.toNodeInfo = t.info
  run_eq : ∀ {i : Nat} {e : Entry} {t : RawTree}, i < done → a[i]? = some e → l[i]? = some t →
    e.firstChild = runStart l i ∧ e.childCount = t.children.length
  /-- A node has the parent in whose run it lies. -/
  parent_eq : ∀ {i p : Nat} {e : Entry}, a[i]? = some e →
    (e.parent = some p ↔ p < done ∧ runStart l p ≤ i ∧ i < runStart l (p + 1))
  /-- The loop never catches up with the trees that it has found. -/
  lt_runStart : ∀ {i : Nat}, i < done → i < runStart l i

namespace Arena.Lists

variable {a : Arena} {l : List RawTree} {done : Nat}

/-- The next run to be noted starts where the list ends. -/
theorem runStart_done (h : a.Lists l done) : runStart l done = l.length := by
  have hpos : 0 < l.length := List.length_pos_iff.mpr h.ne_nil
  have htail : l.tail.length = l.length - 1 := List.length_tail
  rw [h.tail_eq] at htail
  rw [runStart, htail]
  omega

end Arena.Lists

/-! ## The copying loop -/

namespace Copying

theorem found_advance (c : Copying) (h : c.next < c.found.size) :
    (c.advance h).found.toList = c.found.toList ++ c.found[c.next].children := by
  simp [advance]

/-- What the entries are after one round: the parent has its run, and the children have entries
that point back to it. -/
theorem getElem?_entries_advance (c : Copying) (h : c.next < c.found.size)
    (hsize : c.entries.size = c.found.size) (i : Nat) :
    (c.advance h).entries[i]? =
      if i < c.found.size then
        c.entries[i]?.map fun e =>
          if i = c.next then e.withRun c.found.size c.found[c.next].children.length else e
      else
        c.found[c.next].children[i - c.found.size]?.map fun t => .ofInfo t.info (some c.next) := by
  let children := c.found[c.next].children
  have hcount : (c.found ++ children).size - c.found.size = children.length := by
    rw [← Array.length_toList, Array.toList_appendList, List.length_append, Array.length_toList,
      Nat.add_sub_cancel_left]
  have happend : (c.entries ++ children.map fun t => Entry.ofInfo t.info (some c.next))[i]? =
      if i < c.found.size then c.entries[i]?
      else children[i - c.found.size]?.map fun t => Entry.ofInfo t.info (some c.next) := by
    rw [← Array.getElem?_toList, Array.toList_appendList, List.getElem?_append, List.getElem?_map]
    simp [hsize]
  -- new entries are put behind the others, then the entry of the node is told its run
  have hentries : (c.advance h).entries =
      (c.entries ++ children.map fun t => Entry.ofInfo t.info (some c.next)).modify c.next
        (·.withRun c.found.size children.length) := by
    simp only [advance, hcount, children]
  rw [hentries, Array.getElem?_modify, happend]
  by_cases hn : c.next = i
  · subst hn
    simp [h, children]
  · by_cases hi : i < c.found.size
    · simp [hn, hi, Ne.symm hn]
    · simp [hn, hi, children]

/-- An entry after one round is an old one, perhaps with its run now noted, or that of a child. -/
theorem entry_advance_cases {c : Copying} (h : c.next < c.found.size)
    (hsize : c.entries.size = c.found.size) {i : Nat} {e : Entry}
    (he : (c.advance h).entries[i]? = some e) :
    (i < c.found.size ∧ ∃ e₀, c.entries[i]? = some e₀ ∧
      e = if i = c.next then e₀.withRun c.found.size c.found[c.next].children.length else e₀) ∨
    (c.found.size ≤ i ∧ ∃ t, c.found[c.next].children[i - c.found.size]? = some t ∧
      e = .ofInfo t.info (some c.next)) := by
  rw [c.getElem?_entries_advance h hsize] at he
  -- an entry from before, or one for a child of the node that is copied
  by_cases hi : i < c.found.size
  · rw [if_pos hi, Option.map_eq_some_iff] at he
    rcases he with ⟨e₀, he₀, rfl⟩
    exact Or.inl ⟨hi, e₀, he₀, rfl⟩
  · rw [if_neg hi, Option.map_eq_some_iff] at he
    rcases he with ⟨t, ht, rfl⟩
    exact Or.inr ⟨by omega, t, ht, rfl⟩

/-- One round of the loop: the next tree has its run, and its children come behind all others. -/
theorem lists_advance {c : Copying} (hc : c.entries.Lists c.found.toList c.next)
    (h : c.next < c.found.size) :
    (c.advance h).entries.Lists (c.advance h).found.toList (c.next + 1) := by
  have hsize : c.entries.size = c.found.size := by simpa using hc.size_eq
  have hlen : c.found.toList.length = c.found.size := by simp
  have hu : c.found.toList[c.next]? = some c.found[c.next] := by simp [h]
  have hdone : runStart c.found.toList c.next = c.found.size := by simpa using hc.runStart_done
  have hsucc := runStart_succ hu
  have hfound := c.found_advance h
  -- old runs stay where they are, and the new one ends where the longer list ends
  have hkeep : ∀ {j}, j ≤ c.found.size →
      runStart (c.advance h).found.toList j = runStart c.found.toList j := by
    intro j hj
    rw [hfound]
    exact runStart_append _ (by omega)
  refine
    { size_eq := ?_, ne_nil := ?_, done_le := ?_, tail_eq := ?_, info_eq := ?_, run_eq := ?_,
      parent_eq := ?_, lt_runStart := ?_ }
  · rw [hfound]
    simpa [advance, ← Array.length_toList] using hsize
  · rw [hfound]
    simp [hc.ne_nil]
  · rw [hfound, List.length_append]
    omega
  · -- the children found in this round are those that come last
    rw [hfound, List.tail_append_of_ne_nil hc.ne_nil, List.take_append_of_le_length (by omega),
      List.take_add_one, hu, List.flatMap_append, ← hc.tail_eq]
    simp
  · -- noting a run changes no data, and a new entry copies that of the child
    intro i e t he ht
    rw [hfound] at ht
    rcases entry_advance_cases h hsize he with ⟨hi, e₀, he₀, rfl⟩ | ⟨hi, t', ht', rfl⟩
    · rw [List.getElem?_append_left (by omega)] at ht
      rw [← hc.info_eq he₀ ht]
      split <;> rfl
    · rw [List.getElem?_append_right (by omega), hlen, ht'] at ht
      cases ht
      rfl
  · -- only the next tree gets a run, and it starts where the list ended
    intro i e t hi he ht
    rw [hkeep (by omega)]
    rw [hfound, List.getElem?_append_left (by omega)] at ht
    rcases entry_advance_cases h hsize he with ⟨_, e₀, he₀, rfl⟩ | ⟨hge, _⟩
    · by_cases hn : i = c.next
      · subst hn
        rw [hu] at ht
        cases ht
        simp [hdone]
      · rw [if_neg hn]
        exact hc.run_eq (by omega) he₀ ht
    · omega
  · intro i p e he
    rcases entry_advance_cases h hsize he with ⟨hi, e₀, he₀, rfl⟩ | ⟨hi, t, ht, rfl⟩
    · -- an old node keeps its parent, as the new run lies behind it
      have hparent : (if i = c.next then e₀.withRun c.found.size c.found[c.next].children.length
          else e₀).parent = e₀.parent := by split <;> rfl
      rw [hparent, hc.parent_eq he₀]
      constructor
      · rintro ⟨hp, hlo, hhi⟩
        rw [hkeep (by omega), hkeep (by omega)]
        exact ⟨by omega, hlo, hhi⟩
      · rintro ⟨hp, hlo, hhi⟩
        rw [hkeep (by omega)] at hlo hhi
        have hne : p ≠ c.next := by
          rintro rfl
          omega
        exact ⟨by omega, hlo, hhi⟩
    · -- a new node lies in the new run, and all other runs end before it
      have hchild : i - c.found.size < c.found[c.next].children.length :=
        (List.getElem?_eq_some_iff.mp ht).1
      rw [Entry.parent_ofInfo, Option.some_inj]
      constructor
      · rintro rfl
        rw [hkeep (by omega), hkeep (by omega)]
        exact ⟨by omega, by omega, by omega⟩
      · rintro ⟨hp, _, hhi⟩
        by_contra hne
        rw [hkeep (by omega)] at hhi
        have hle := runStart_mono c.found.toList (show p + 1 ≤ c.next by omega)
        omega
  · intro i hi
    rw [hkeep (by omega)]
    by_cases hn : i = c.next
    · subst hn
      omega
    · exact hc.lt_runStart (by omega)

theorem lists_start (t : RawTree) :
    (start t).entries.Lists (start t).found.toList (start t).next := by
  refine
    { size_eq := rfl, ne_nil := by simp [start], done_le := by simp [start],
      tail_eq := rfl, info_eq := ?_, run_eq := ?_, parent_eq := ?_, lt_runStart := ?_ }
  · -- there is one entry, that of the root
    intro i e u he hu
    cases i with
    | zero =>
      cases he
      cases hu
      rfl
    | succ i => simp [start] at hu
  · -- nothing is done yet
    intro i e u hi
    simp [start] at hi
  · intro i p e he
    cases i with
    | zero =>
      cases he
      simp [start]
    | succ i => simp [start] at he
  · intro i hi
    simp [start] at hi

/-- The whole loop: it keeps the root, stops when the children of all found trees have been looked
up, and makes one round for each pending node. -/
theorem lists_run (c : Copying) (hc : c.entries.Lists c.found.toList c.next) :
    c.run.entries.Lists c.run.found.toList c.run.found.toList.length ∧
      c.run.found.toList.head? = c.found.toList.head? ∧
      c.run.next = c.next + c.pending ∧ c.run.found.size = c.next + c.pending := by
  fun_induction run c with
  | case1 c h ih =>
    -- one round deals with one pending node and keeps the sum of both counts
    rcases ih (lists_advance hc h) with ⟨hlists, hhead, hnext, hsize⟩
    have hpending := c.pending_advance h
    have hround : (c.advance h).next = c.next + 1 := rfl
    refine ⟨hlists, ?_, by omega, by omega⟩
    rw [hhead, found_advance, List.head?_append_of_ne_nil _ hc.ne_nil]
  | case2 c h =>
    -- the loop has caught up with what it found, so nothing is pending
    have hdone : c.next = c.found.toList.length := by
      have hle := hc.done_le
      simp only [Array.length_toList] at hle ⊢
      omega
    have hpending : c.pending = 0 := by
      rw [pending, hdone, List.drop_length]
      rfl
    refine ⟨hdone ▸ hc, rfl, by omega, ?_⟩
    simpa [hpending] using hdone.symm

end Copying

/-! ## Built trees -/

/-- The tree whose root covers a whole source; as a root, it fills no field. -/
def RawTree.stretched (source : Bytes) : RawTree → RawTree
  | .node info children =>
    .node { info with
      span := ⟨0, source.length⟩
      start := .origin
      stop := .ofOffset source source.length
      field := none } children

@[simp] theorem RawTree.children_stretched (source : Bytes) (t : RawTree) :
    (t.stretched source).children = t.children := by
  cases t
  rfl

/-- Runs depend on the root only through its children. -/
theorem runStart_cons {t u : RawTree} (h : u.children = t.children) (rest : List RawTree)
    (i : Nat) : runStart (u :: rest) i = runStart (t :: rest) i := by
  cases i with
  | zero => rfl
  | succ i => simp [runStart, h]

/-- Widening the entry of the root amounts to stretching the root of the list. -/
theorem Arena.Lists.widen {a : Arena} {t : RawTree} {rest : List RawTree} {done : Nat}
    (h : a.Lists (t.detached :: rest) done) (source : Bytes) :
    Arena.Lists (a.modify 0 (Tree.widen source)) (t.stretched source :: rest) done := by
  have hchildren : (t.stretched source).children = t.detached.children := by
    cases t
    rfl
  have hstart := runStart_cons hchildren rest
  -- every entry keeps its parent and its run
  have hcases : ∀ {i : Nat} {e : Entry}, (a.modify 0 (Tree.widen source))[i]? = some e →
      ∃ e₀, a[i]? = some e₀ ∧ e = if i = 0 then Tree.widen source e₀ else e₀ := by
    intro i e he
    rw [Array.getElem?_modify] at he
    by_cases hi : 0 = i
    · subst hi
      rw [if_pos rfl, Option.map_eq_some_iff] at he
      rcases he with ⟨e₀, he₀, rfl⟩
      exact ⟨e₀, he₀, rfl⟩
    · rw [if_neg hi] at he
      exact ⟨e, he, (if_neg (Ne.symm hi)).symm⟩
  refine
    { size_eq := ?_, ne_nil := by simp, done_le := by simpa using h.done_le, tail_eq := ?_,
      info_eq := ?_, run_eq := ?_, parent_eq := ?_, lt_runStart := ?_ }
  · simpa using h.size_eq
  · have htail := h.tail_eq
    cases done with
    | zero => simpa using htail
    | succ done => simpa [hchildren] using htail
  · intro i e u he hu
    rcases hcases he with ⟨e₀, he₀, rfl⟩
    cases i with
    | zero =>
      cases hu
      have hinfo := h.info_eq he₀ rfl
      cases t with
      | node info children =>
        simp only [RawTree.detached, RawTree.info] at hinfo
        simp [Tree.widen, RawTree.stretched, RawTree.info, hinfo]
    | succ i => exact h.info_eq he₀ hu
  · intro i e u hi he hu
    rcases hcases he with ⟨e₀, he₀, rfl⟩
    rw [hstart]
    cases i with
    | zero =>
      cases hu
      have hrun := h.run_eq hi he₀ rfl
      rw [hchildren]
      exact hrun
    | succ i => exact h.run_eq hi he₀ hu
  · intro i p e he
    rcases hcases he with ⟨e₀, he₀, rfl⟩
    have hparent : (if i = 0 then Tree.widen source e₀ else e₀).parent = e₀.parent := by
      split <;> rfl
    rw [hparent, hstart, hstart]
    exact h.parent_eq he₀
  · intro i hi
    rw [hstart]
    exact h.lt_runStart hi

/-- The breadth-first list of a built tree. It has as many members as the raw tree has nodes, and
the copying loop makes one round for each of them. -/
theorem Tree.lists_build (g : Grammar) (source : Bytes) (raw : RawTree)
    (changed : Option (List Span)) :
    ∃ rest, (Tree.build g source raw changed).arena.Lists (raw.stretched source :: rest)
        (raw.stretched source :: rest).length ∧
      (raw.stretched source :: rest).length = raw.size ∧ (Copying.start raw).run.next = raw.size := by
  rcases Copying.lists_run _ (Copying.lists_start raw) with ⟨hlists, hhead, hnext, hsize⟩
  -- nothing is copied yet, and every node is pending
  have hpending : (Copying.start raw).next + (Copying.start raw).pending = raw.size := by
    cases raw
    simp [Copying.start, Copying.pending, RawTree.detached, RawTree.size, RawTree.sizeAll]
  cases hfound : (Copying.start raw).run.found.toList with
  | nil => exact absurd hfound hlists.ne_nil
  | cons t rest =>
    rw [hfound] at hlists hhead
    -- the first found is the root
    have ht : t = raw.detached := by simpa [Copying.start] using hhead
    subst ht
    have hlength : (raw.detached :: rest).length = raw.size := by
      rw [← hpending, ← hsize, ← hfound, Array.length_toList]
    exact ⟨rest, hlists.widen source, hlength, hnext.trans hpending⟩

end SyntaxTrees

import SyntaxTrees.Proofs.Yaml.Native.Line
import SyntaxTrees.Yaml.Native.Document

/-!
# Documents of written tokens

As long as no node has an anchor or a tag, the next tokens of a document depend on its `Standing`
alone: on the open collections, on what may come next and on the root. Keys, texts, records and
lists lead from one standing to another (`OpenDocument.Takes`), and each adds its node to the
collection around it.
-/

namespace SyntaxTrees.Yaml

/-- What matters of a point between two tokens where nothing has an anchor or a tag. -/
structure Standing where
  stack : List Frame
  want : Want
  root : Option Node

namespace OpenDocument

def standing (s : OpenDocument) : Standing := ⟨s.stack, s.want, s.root⟩

/-- The tokens lead from one standing to another. -/
def Takes (ts : List Token) (p q : Standing) : Prop :=
  ∀ s : OpenDocument, s.standing = p → ∃ s', ts.foldlM feed s = some s' ∧ s'.standing = q

namespace Takes

variable {p q r : Standing} {t : Token} {ts ts' : List Token}

theorem nil : Takes [] p p := fun s hs => ⟨s, rfl, hs⟩

theorem append (h : Takes ts p q) (h' : Takes ts' q r) : Takes (ts ++ ts') p r := by
  intro s hs
  rcases h s hs with ⟨s₁, hfold, hs₁⟩
  rcases h' s₁ hs₁ with ⟨s₂, hfold', hs₂⟩
  refine ⟨s₂, ?_, hs₂⟩
  rw [List.foldlM_append, hfold]
  exact hfold'

/-- One token. What has been said about anchors, handles and the size does not matter. -/
theorem token (h : ∀ anchors handles size, ∃ s',
      feed ⟨p.stack, p.want, p.root, anchors, handles, size⟩ t = some s' ∧ s'.standing = q) :
    Takes [t] p q := by
  intro s hs
  rcases s with ⟨stack, want, root, anchors, handles, size⟩
  subst hs
  rcases h anchors handles size with ⟨s', hfeed, hs'⟩
  refine ⟨s', ?_, hs'⟩
  rw [List.foldlM_cons]
  show (feed _ t).bind _ = some s'
  rw [show feed ⟨stack, want, root, anchors, handles, size⟩ t = some s' from hfeed]
  rfl

end Takes

variable {f : Frame} {stack : List Frame} {root : Option Node} {members : List (Node × Node)}
  {items : List Node} {k : Node}

/-- A text is the next node. -/
theorem takes_text (style : ScalarStyle) (s : String) :
    Takes [.scalar style s] ⟨f :: stack, .node {} false, root⟩
      ⟨(place (.scalar style none s) (f :: stack)).1, .next, root⟩ :=
  .token fun _ _ _ => ⟨_, rfl, rfl⟩

/-- A key is followed by its value. -/
theorem takes_key (name : String) :
    Takes (keyTokens name) ⟨.mapping .block none members .key :: stack, .next, root⟩
      ⟨.mapping .block none members (.value (.scalar .plain none name)) :: stack, .node {} false,
        root⟩ := by
  have hkey : Takes [.key] ⟨.mapping .block none members .key :: stack, .next, root⟩
      ⟨.mapping .block none members .key :: stack, .node {} false, root⟩ :=
    .token fun _ _ _ => ⟨_, rfl, rfl⟩
  have hvalue : Takes [.value]
      ⟨.mapping .block none members (.value (.scalar .plain none name)) :: stack, .next, root⟩
      ⟨.mapping .block none members (.value (.scalar .plain none name)) :: stack, .node {} false,
        root⟩ := .token fun _ _ _ => ⟨_, rfl, rfl⟩
  exact (hkey.append (takes_text .plain name)).append hvalue

/-- A field of a record. -/
theorem takes_field (name : String) (s : String) :
    Takes (keyTokens name ++ [textToken s]) ⟨.mapping .block none members .key :: stack, .next, root⟩
      ⟨.mapping .block none ((.scalar .plain none name, .scalar (styleOf s.toList) none s) :: members)
        .key :: stack, .next, root⟩ :=
  (takes_key name).append (takes_text (styleOf s.toList) s)

/-! ## Lists -/

/-- A list below a key starts with its first item. -/
theorem takes_firstItem :
    Takes [.item] ⟨.mapping .block none members (.value k) :: stack, .node {} false, root⟩
      ⟨.sequence .level none [] :: .mapping .block none members (.value k) :: stack, .node {} false,
        root⟩ :=
  .token fun _ _ _ => ⟨_, rfl, rfl⟩

theorem takes_nextItem :
    Takes [.item] ⟨.sequence .level none items :: stack, .next, root⟩
      ⟨.sequence .level none items :: stack, .node {} false, root⟩ :=
  .token fun _ _ _ => ⟨_, rfl, rfl⟩

variable {α : Type} {ts : α → List Token} {node : α → Node}

/-- Further items of a list. -/
theorem takes_items (xs : List α)
    (h : ∀ x ∈ xs, ∀ items, Takes (ts x) ⟨.sequence .level none items :: stack, .node {} false, root⟩
      ⟨.sequence .level none (node x :: items) :: stack, .next, root⟩) :
    Takes (xs.flatMap fun x => .item :: ts x) ⟨.sequence .level none items :: stack, .next, root⟩
      ⟨.sequence .level none ((xs.map node).reverse ++ items) :: stack, .next, root⟩ := by
  induction xs generalizing items with
  | nil => exact .nil
  | cons x xs ih =>
    rw [List.flatMap_cons, List.map_cons, List.reverse_cons, List.append_assoc]
    exact (takes_nextItem.append (h x List.mem_cons_self items)).append
      (ih fun y hy => h y (List.mem_cons_of_mem _ hy))

/-- A list below a key. -/
theorem takes_list {xs : List α} (hne : xs ≠ [])
    (h : ∀ x ∈ xs, ∀ items, Takes (ts x)
      ⟨.sequence .level none items :: .mapping .block none members (.value k) :: stack,
        .node {} false, root⟩
      ⟨.sequence .level none (node x :: items) :: .mapping .block none members (.value k) :: stack,
        .next, root⟩) :
    Takes (xs.flatMap fun x => .item :: ts x)
      ⟨.mapping .block none members (.value k) :: stack, .node {} false, root⟩
      ⟨.sequence .level none (xs.map node).reverse :: .mapping .block none members (.value k) :: stack,
        .next, root⟩ := by
  -- the first item opens the list, the others go on with it
  rcases List.exists_cons_of_ne_nil hne with ⟨x, xs, rfl⟩
  rw [List.flatMap_cons, List.map_cons, List.reverse_cons]
  exact (takes_firstItem.append (h x List.mem_cons_self [])).append
    (takes_items xs fun y hy => h y (List.mem_cons_of_mem _ hy))

/-! ## Records -/

theorem takes_record :
    Takes [.blockMapping] ⟨.sequence .level none items :: stack, .node {} false, root⟩
      ⟨.mapping .block none [] .key :: .sequence .level none items :: stack, .next, root⟩ :=
  .token fun _ _ _ => ⟨_, rfl, rfl⟩

/-- The end of a record. -/
theorem takes_end :
    Takes [.blockEnd] ⟨.mapping .block none members .key :: f :: stack, .next, root⟩
      ⟨(place (.mapping members.reverse) (f :: stack)).1, .next, root⟩ :=
  .token fun _ _ _ => ⟨_, rfl, rfl⟩

/-- The end of a record is the end of the list below its last key, too. -/
theorem takes_endOfList :
    Takes [.blockEnd]
      ⟨.sequence .level none items :: .mapping .block none members (.value k) :: f :: stack, .next,
        root⟩
      ⟨(place (.mapping ((k, .sequence items.reverse) :: members).reverse) (f :: stack)).1, .next,
        root⟩ :=
  .token fun _ _ _ => ⟨_, rfl, rfl⟩

end OpenDocument

/-! ## Whole documents -/

open OpenDocument

/-- A document that is a record with a single list. -/
theorem ofTokens?_of_takes {ts : List Token} {items : List Node} {k : Node}
    (h : Takes ts ⟨[.mapping .block none [] .key], .next, none⟩
      ⟨[.sequence .level none items, .mapping .block none [] (.value k)], .next, none⟩) :
    ∃ d, Document.ofTokens? (.blockMapping :: ts ++ [.blockEnd]) = some d ∧
      d.root = some (.mapping [(k, .sequence items.reverse)]) := by
  have hstart : Takes [.blockMapping] ⟨[], .prologue false false, none⟩
      ⟨[.mapping .block none [] .key], .next, none⟩ := .token fun _ _ _ => ⟨_, rfl, rfl⟩
  have hend : Takes [.blockEnd]
      ⟨[.sequence .level none items, .mapping .block none [] (.value k)], .next, none⟩
      ⟨[], .next, some (.mapping [(k, .sequence items.reverse)])⟩ :=
    .token fun _ _ _ => ⟨_, rfl, rfl⟩
  -- the last token closes the list together with the record, which is the root
  rcases ((hstart.append h).append hend) {} rfl with ⟨s, hfold, hs⟩
  rcases s with ⟨stack, want, root, anchors, handles, size⟩
  cases hs
  refine ⟨⟨some (.mapping [(k, .sequence items.reverse)]), size, anchors.nodes⟩, ?_, rfl⟩
  rw [Document.ofTokens?]
  show (List.foldlM feed {} ([.blockMapping] ++ ts ++ [.blockEnd])).bind finish = _
  rw [hfold]
  rfl

end SyntaxTrees.Yaml

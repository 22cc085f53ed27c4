import SyntaxTrees.Proofs.Tree.SExpr

/-!
# Skeletons and their texts

A `Skeleton` is a tree of kinds, and a canonical text is the text of a skeleton
(`RawTree.outline_toList`). If no kind holds a bracket or a blank, the text says where it ends: with
anything behind it, it determines both the skeleton and what is behind it
(`Skeleton.chars_append_inj`), so no text is the beginning of another. The pieces between brackets
and blanks are the kinds in pre-order (`Skeleton.words_chars`).
-/

namespace SyntaxTrees

/-- A node that is left with its kind, and those left below it. -/
inductive Skeleton where
  | node (kind : String) (children : List Skeleton)

namespace Skeleton

mutual

/-- The kind and, each behind a blank, the texts of the children, in brackets. -/
def chars : Skeleton → List Char
  | node kind children => '(' :: (kind.toList ++ charsAll children)

/-- The texts of the children that are left to be written, and the closing bracket. -/
def charsAll : List Skeleton → List Char
  | [] => [')']
  | s :: rest => ' ' :: (s.chars ++ charsAll rest)

end

mutual

def kinds : Skeleton → List String
  | node kind children => kind :: kindsAll children

def kindsAll : List Skeleton → List String
  | [] => []
  | s :: rest => s.kinds ++ kindsAll rest

end

/-! ## Marks and kinds -/

/-- The characters that are not part of a kind. -/
def isMark (c : Char) : Bool := c == '(' || c == ')' || c == ' '

def IsPlain (kind : String) : Prop := ∀ c ∈ kind.toList, isMark c = false

/-- What is written behind a kind starts with a mark. -/
theorem exists_mark (children : List Skeleton) (rest : List Char) :
    ∃ c tail, isMark c = true ∧ charsAll children ++ rest = c :: tail := by
  cases children with
  | nil => exact ⟨')', rest, rfl, rfl⟩
  | cons s children =>
    refine ⟨' ', s.chars ++ charsAll children ++ rest, rfl, ?_⟩
    rw [charsAll, List.cons_append]

/-- A kind ends at the first mark. -/
theorem takeWhile_plain {kind : String} (h : IsPlain kind) {c : Char} (hc : isMark c = true)
    (tail : List Char) :
    (kind.toList ++ c :: tail).takeWhile (fun c => !isMark c) = kind.toList := by
  rw [List.takeWhile_append_of_pos, List.takeWhile_cons_of_neg, List.append_nil]
  · simp [hc]
  · intro d hd
    rw [h d hd]
    rfl

theorem kind_append_inj {kind kind' : String} (h : IsPlain kind) (h' : IsPlain kind')
    {children children' : List Skeleton} {x y : List Char}
    (heq : kind.toList ++ (charsAll children ++ x) = kind'.toList ++ (charsAll children' ++ y)) :
    kind = kind' ∧ charsAll children ++ x = charsAll children' ++ y := by
  rcases exists_mark children x with ⟨c, tail, hc, hmark⟩
  rcases exists_mark children' y with ⟨c', tail', hc', hmark'⟩
  have hkind : kind = kind' := by
    have htake := congrArg (List.takeWhile fun c => !isMark c) heq
    rw [hmark, hmark', takeWhile_plain h hc, takeWhile_plain h' hc'] at htake
    exact String.toList_inj.mp htake
  subst hkind
  exact ⟨rfl, List.append_cancel_left heq⟩

/-! ## Texts that say where they end -/

mutual

/-- The text of a skeleton determines the skeleton and what is written behind it. -/
theorem chars_append_inj {x y : List Char} : {s t : Skeleton} → (∀ k ∈ s.kinds, IsPlain k) →
    (∀ k ∈ t.kinds, IsPlain k) → s.chars ++ x = t.chars ++ y → s = t ∧ x = y
  | node kind children, node kind' children', hs, ht, heq => by
    rw [kinds, List.forall_mem_cons] at hs ht
    simp only [chars, List.cons_append, List.append_assoc, List.cons.injEq, true_and] at heq
    rcases kind_append_inj hs.1 ht.1 heq with ⟨rfl, hrest⟩
    rcases charsAll_append_inj hs.2 ht.2 hrest with ⟨rfl, hxy⟩
    exact ⟨rfl, hxy⟩

/-- The texts of children, up to the closing bracket, determine the children and what is written
behind the bracket. -/
theorem charsAll_append_inj {x y : List Char} : {l m : List Skeleton} →
    (∀ k ∈ kindsAll l, IsPlain k) → (∀ k ∈ kindsAll m, IsPlain k) →
      charsAll l ++ x = charsAll m ++ y → l = m ∧ x = y
  | [], [], _, _, heq => by
    simp only [charsAll, List.cons_append, List.nil_append, List.cons.injEq, true_and] at heq
    exact ⟨rfl, heq⟩
  -- a bracket closes the one list where the other has a blank
  | [], t :: m, _, _, heq => by
    simp [charsAll] at heq
  | s :: l, [], _, _, heq => by
    simp [charsAll] at heq
  | s :: l, t :: m, hs, ht, heq => by
    rw [kindsAll, List.forall_mem_append] at hs ht
    simp only [charsAll, List.cons_append, List.append_assoc, List.cons.injEq, true_and] at heq
    rcases chars_append_inj hs.1 ht.1 heq with ⟨rfl, hrest⟩
    rcases charsAll_append_inj hs.2 ht.2 hrest with ⟨rfl, hxy⟩
    exact ⟨rfl, hxy⟩

end

variable {s t : Skeleton}

/-- A text that starts with another one is that other one. -/
theorem eq_of_chars_isPrefix (hs : ∀ k ∈ s.kinds, IsPlain k) (ht : ∀ k ∈ t.kinds, IsPlain k)
    (h : s.chars <+: t.chars) : s = t := by
  rcases h with ⟨rest, hrest⟩
  exact (chars_append_inj (y := []) hs ht (by rw [hrest, List.append_nil])).1

/-- Skeletons are equal if their texts are. -/
theorem chars_inj (hs : ∀ k ∈ s.kinds, IsPlain k) (ht : ∀ k ∈ t.kinds, IsPlain k) :
    s.chars = t.chars ↔ s = t := by
  constructor
  · intro h
    exact eq_of_chars_isPrefix hs ht (h ▸ List.prefix_refl _)
  · rintro rfl
    rfl

/-! ## The pieces of a text -/

/-- What stands between marks, as long as it is not empty. -/
def words (text : List Char) : List (List Char) := (text.splitOnP isMark).filter (· ≠ [])

theorem words_mark {c : Char} (hc : isMark c = true) (text : List Char) :
    words (c :: text) = words text := by
  rw [words, List.splitOnP_cons_eq_if_modifyHead, if_pos hc, List.filter_cons]
  rfl

theorem words_kind {kind : String} (h : IsPlain kind) (hne : kind ≠ "")
    (children : List Skeleton) (rest : List Char) :
    words (kind.toList ++ (charsAll children ++ rest)) =
      kind.toList :: words (charsAll children ++ rest) := by
  rcases exists_mark children rest with ⟨c, tail, hc, hmark⟩
  have hkind : kind.toList ≠ [] := by
    intro hnil
    exact hne (String.toList_eq_nil_iff.mp hnil)
  rw [hmark, words_mark hc, words, List.splitOnP_append_cons_of_forall_mem h c hc,
    List.filter_cons_of_pos (by simpa using hkind), words]

mutual

/-- The pieces of the text of a skeleton are its kinds. -/
theorem words_chars (rest : List Char) : {s : Skeleton} →
    (∀ k ∈ s.kinds, IsPlain k ∧ k ≠ "") →
      words (s.chars ++ rest) = s.kinds.map String.toList ++ words rest
  | node kind children, hs => by
    rw [kinds, List.forall_mem_cons] at hs
    rcases hs with ⟨⟨hplain, hne⟩, hchildren⟩
    rw [chars, kinds, List.cons_append, List.append_assoc, words_mark rfl, words_kind hplain hne,
      words_charsAll rest hchildren]
    rfl

/-- The pieces of the texts of children are their kinds. -/
theorem words_charsAll (rest : List Char) : {l : List Skeleton} →
    (∀ k ∈ kindsAll l, IsPlain k ∧ k ≠ "") →
      words (charsAll l ++ rest) = (kindsAll l).map String.toList ++ words rest
  | [], _ => words_mark rfl rest
  | s :: l, hs => by
    rw [kindsAll, List.forall_mem_append] at hs
    rw [charsAll, kindsAll, List.cons_append, List.append_assoc, words_mark rfl,
      words_chars _ hs.1, words_charsAll rest hs.2, List.map_append, List.append_assoc]

end

/-- The pieces of a text between brackets and blanks. -/
def pieces (text : String) : List String := (words text.toList).map String.ofList

theorem pieces_eq {text : String} (htext : text.toList = s.chars)
    (hs : ∀ k ∈ s.kinds, IsPlain k ∧ k ≠ "") : pieces text = s.kinds := by
  have hwords := words_chars [] hs
  rw [List.append_nil] at hwords
  rw [pieces, htext, hwords]
  simp [words, List.splitOnP_nil]

end Skeleton

/-! ## Skeletons of raw trees -/

namespace RawTree

mutual

/-- The kinds of the named trees, as they lie below each other. -/
def skeleton : RawTree → Skeleton
  | node info children => .node info.kind (skeletons children)

def skeletons : List RawTree → List Skeleton
  | [] => []
  | t :: rest => if t.info.named then t.skeleton :: skeletons rest else skeletons rest

end

theorem skeleton_eq (t : RawTree) : t.skeleton = .node t.info.kind (skeletons t.children) := by
  cases t
  rfl

theorem skeletons_eq_map (l : List RawTree) :
    skeletons l = (l.filter (·.info.named)).map skeleton := by
  induction l with
  | nil => rfl
  | cons t rest ih =>
    rw [skeletons, ih, List.filter_cons]
    split <;> rfl

mutual

/-- The canonical text is the text of the skeleton. -/
theorem outline_toList : (t : RawTree) → t.outline.toList = t.skeleton.chars
  | node info children => by
    have hchildren := outlineNamed_toList children
    simp only [outline, skeleton, Skeleton.chars, String.toList_append, ← hchildren]
    simp

theorem outlineNamed_toList : (l : List RawTree) →
    (outlineNamed l).toList ++ [')'] = Skeleton.charsAll (skeletons l)
  | [] => rfl
  | t :: rest => by
    have ht := outline_toList t
    have hrest := outlineNamed_toList rest
    rw [outlineNamed, skeletons, String.toList_append, List.append_assoc, hrest]
    by_cases hnamed : t.info.named
    · rw [if_pos hnamed, if_pos hnamed, String.toList_append, ht, Skeleton.charsAll]
      rfl
    · rw [if_neg hnamed, if_neg hnamed]
      rfl

end

end RawTree

end SyntaxTrees

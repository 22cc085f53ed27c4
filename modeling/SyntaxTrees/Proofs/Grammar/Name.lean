import Mathlib.Data.List.TakeWhile
import SyntaxTrees.Proofs.Text.LowerCase
import SyntaxTrees.Registry

/-!
# Normal forms of names

Normalising a name again changes nothing (`normalizeName_normalizeName`): what has been trimmed
and put in lower case is trimmed and in lower case. A table whose keys are normal forms can
therefore be searched with names as they are given, and with its own keys. Only a blank name has the
empty normal form (`normalizeName_eq_empty_iff`), and white space around a name does not matter
(`normalizeName_append_blank`).
-/

namespace SyntaxTrees

namespace Text

def IsTrimmed (l : List Char) : Prop :=
  (∀ c ∈ l.head?, isBlank c = false) ∧ ∀ c ∈ l.getLast?, isBlank c = false

theorem isBlank_head?_dropWhile (l : List Char) :
    ∀ c ∈ (l.dropWhile isBlank).head?, isBlank c = false := by
  intro c hc
  have hhead := List.head?_dropWhile_not isBlank l
  rw [hc] at hhead
  simpa using hhead

theorem dropWhile_isBlank {l : List Char} (h : ∀ c ∈ l.head?, isBlank c = false) :
    l.dropWhile isBlank = l := by
  cases l with
  | nil => rfl
  | cons c rest => simp [h c rfl]

theorem isTrimmed_trim (l : List Char) : IsTrimmed (trim l) := by
  constructor
  · -- what is left at the front was in front before the white space at the back was dropped
    intro c hc
    rcases (l.dropWhile isBlank).reverse.dropWhile_suffix isBlank with ⟨dropped, hsplit⟩
    have hfront : l.dropWhile isBlank = trim l ++ dropped.reverse := by
      rw [← List.reverse_reverse (l.dropWhile isBlank), ← hsplit, List.reverse_append, trim]
    refine isBlank_head?_dropWhile l c ?_
    rw [hfront]
    exact List.mem_head?_append_of_mem_head? hc
  · rw [trim, List.getLast?_reverse]
    exact isBlank_head?_dropWhile _

theorem trim_of_isTrimmed {l : List Char} (h : IsTrimmed l) : trim l = l := by
  have hback : ∀ c ∈ l.reverse.head?, isBlank c = false := by
    rw [List.head?_reverse]
    exact h.2
  rw [trim, dropWhile_isBlank h.1, dropWhile_isBlank hback, List.reverse_reverse]

/-- Only white space is trimmed away altogether. -/
theorem trim_eq_nil_iff {l : List Char} : trim l = [] ↔ ∀ c ∈ l, isBlank c = true := by
  rw [trim, List.reverse_eq_nil_iff, List.dropWhile_eq_nil_iff]
  constructor
  · intro h c hc
    rw [← List.takeWhile_append_dropWhile (p := isBlank) (l := l), List.mem_append] at hc
    rcases hc with hc | hc
    · exact List.mem_takeWhile_imp hc
    · exact h c (List.mem_reverse.mpr hc)
  · intro h c hc
    exact h c ((List.dropWhile_suffix isBlank).subset (List.mem_reverse.mp hc))

/-- White space in front is trimmed away. -/
theorem trim_append_of_blank {before : List Char} (h : ∀ c ∈ before, isBlank c = true)
    (l : List Char) : trim (before ++ l) = trim l := by
  rw [trim, List.dropWhile_append_of_pos h, ← trim]

/-- White space behind is trimmed away. -/
theorem trim_append_blank {behind : List Char} (h : ∀ c ∈ behind, isBlank c = true)
    (l : List Char) : trim (l ++ behind) = trim l := by
  rw [trim, List.dropWhile_append]
  split
  · next hnone =>
    -- the whole text is white space
    have hbehind : behind.dropWhile isBlank = [] := List.dropWhile_eq_nil_iff.mpr h
    rw [hbehind, trim, List.isEmpty_iff.mp hnone]
  · have hreverse : ∀ c ∈ behind.reverse, isBlank c = true := fun c hc => h c (List.mem_reverse.mp hc)
    rw [List.reverse_append, List.dropWhile_append_of_pos hreverse, ← trim]

theorem isTrimmed_lower {l : List Char} (h : IsTrimmed l) : IsTrimmed (lower l) :=
  ⟨isBlank_head?_lower h.1, isBlank_getLast?_lowerAfter h.2⟩

end Text

/-- A normal form is its own normal form. -/
@[simp] theorem normalizeName_normalizeName (name : String) :
    normalizeName (normalizeName name) = normalizeName name := by
  have htrimmed := Text.isTrimmed_lower (Text.isTrimmed_trim name.toList)
  rw [normalizeName, normalizeName, String.toList_ofList, Text.trim_of_isTrimmed htrimmed,
    Text.lower_lower]

def IsBlankName (name : String) : Prop := ∀ c ∈ name.toList, Text.isBlank c = true

instance (name : String) : Decidable (IsBlankName name) :=
  List.decidableBAll _ name.toList

theorem normalizeName_eq_empty_iff {name : String} :
    normalizeName name = "" ↔ IsBlankName name := by
  rw [IsBlankName, ← Text.trim_eq_nil_iff, ← Text.lower_eq_nil_iff, normalizeName]
  exact String.ofList_eq_empty_iff

/-- White space around a name does not matter. -/
theorem normalizeName_append_blank {before behind : String} (hbefore : IsBlankName before)
    (hbehind : IsBlankName behind) (name : String) :
    normalizeName (before ++ name ++ behind) = normalizeName name := by
  rw [normalizeName, String.toList_append, String.toList_append, Text.trim_append_blank hbehind,
    Text.trim_append_of_blank hbefore, ← normalizeName]

/-- A name under which a grammar can be kept: not empty, and in normal form. -/
def IsNormalName (name : String) : Prop := name ≠ "" ∧ normalizeName name = name

instance (name : String) : Decidable (IsNormalName name) := inferInstanceAs (Decidable (_ ∧ _))

theorem isNormalName_normalizeName {name : String} (h : normalizeName name ≠ "") :
    IsNormalName (normalizeName name) :=
  ⟨h, normalizeName_normalizeName name⟩

end SyntaxTrees

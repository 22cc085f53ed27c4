import Mathlib.Data.List.Basic
import SyntaxTrees.Proofs.Source.Position

/-!
# The order of positions

Positions are compared by rows first and on one row by columns (`le_iff`, `lt_iff`). What is added to
a position does not move it back (`le_add`), so a longer text has a later extent and a larger offset
a later position (`ofOffset_mono`). One more byte moves a position forwards (`lt_advance`), so no two
offsets in a source have one position (`ofOffset_lt_iff`).
-/

namespace SyntaxTrees.Position

theorem compare_eq (p q : Position) :
    compare p q = (compare p.row q.row).then (compare p.column q.column) := by
  cases p
  cases q
  show (compare _ _).then ((compare _ _).then .eq) = _
  rw [Ordering.then_eq]

theorem le_iff {p q : Position} :
    p ≤ q ↔ p.row < q.row ∨ p.row = q.row ∧ p.column ≤ q.column := by
  show (compare p q).isLE = true ↔ _
  rw [compare_eq]
  simp [Ordering.isLE_then_iff_or, Nat.compare_eq_lt, Nat.isLE_compare]

theorem lt_iff {p q : Position} :
    p < q ↔ p.row < q.row ∨ p.row = q.row ∧ p.column < q.column := by
  show compare p q = .lt ↔ _
  rw [compare_eq]
  simp [Ordering.then_eq_lt, Nat.compare_eq_lt]

theorem not_lt_of_le {p q : Position} (h : p ≤ q) : ¬ q < p := by
  rw [le_iff] at h
  rw [lt_iff]
  omega

theorem lt_of_lt_of_le {p q r : Position} (h : p < q) (h' : q ≤ r) : p < r := by
  rw [lt_iff] at h ⊢
  rw [le_iff] at h'
  omega

/-- What lies behind a position is not before it. -/
theorem le_add (p q : Position) : p ≤ p + q := by
  rw [le_iff, add_def]
  by_cases hq : 0 < q.row
  · rw [if_pos hq]
    left
    show p.row < p.row + q.row
    omega
  · rw [if_neg hq]
    right
    exact ⟨rfl, Nat.le_add_right _ _⟩

/-- Each byte moves a position forwards: to the next row, or to the next column. -/
theorem lt_advance (p : Position) (b : UInt8) : p < p.advance b := by
  rw [lt_iff]
  unfold advance
  split
  · left
    exact Nat.lt_succ_self p.row
  · right
    exact ⟨rfl, Nat.lt_succ_self p.column⟩

/-! ## Positions of offsets -/

variable {source : Bytes} {i j k : Nat}

/-- Larger offsets do not have earlier positions. -/
theorem ofOffset_mono (source : Bytes) {i j : Nat} (h : i ≤ j) :
    ofOffset source i ≤ ofOffset source j := by
  have hprefix : source.take i <+: source.take j := List.take_prefix_take_left h
  rcases hprefix with ⟨between, hbetween⟩
  rw [ofOffset_eq_extent, ofOffset_eq_extent, ← hbetween, extent_append]
  exact le_add _ _

theorem ofOffset_succ (h : k < source.length) :
    ofOffset source (k + 1) = (ofOffset source k).advance source[k] := by
  rw [ofOffset_eq_extent, ofOffset_eq_extent, ← List.take_append_getElem h, extent_concat]

theorem ofOffset_of_length_le (h : source.length ≤ k) :
    ofOffset source k = ofOffset source source.length := by
  rw [ofOffset_eq_extent, ofOffset_eq_extent, List.take_of_length_le h, List.take_length]

/-- Up to the end of the source, larger offsets have later positions: already the byte at the smaller
one makes the difference. -/
theorem ofOffset_lt (h : i < j) (hj : j ≤ source.length) :
    ofOffset source i < ofOffset source j := by
  have hstep : ofOffset source i < ofOffset source (i + 1) := by
    rw [ofOffset_succ (Nat.lt_of_lt_of_le h hj)]
    exact lt_advance _ _
  exact lt_of_lt_of_le hstep (ofOffset_mono source h)

theorem ofOffset_lt_iff (hj : j ≤ source.length) :
    ofOffset source i < ofOffset source j ↔ i < j := by
  constructor
  · intro h
    by_contra hij
    exact not_lt_of_le (ofOffset_mono source (Nat.le_of_not_lt hij)) h
  · intro h
    exact ofOffset_lt h hj

end SyntaxTrees.Position

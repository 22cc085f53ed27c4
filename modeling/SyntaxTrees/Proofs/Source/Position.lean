import Mathlib.Data.List.Induction
import SyntaxTrees.Source.Position

/-!
# Positions of texts that are put together

The position of an offset is the `extent` of the text before it, and the extent of two texts one
after the other is the sum of their extents (`extent_append`). The sum is that by which the engine
moves positions: what is added starts a line of its own only behind a line break, and else its
columns count on. A difference takes the sum back (`add_sub_cancel_left`).
-/

namespace SyntaxTrees.Position

/-! ## Moving positions -/

/-- The position that lies `q` behind `p`. -/
instance : Add Position where
  add p q := if 0 < q.row then ⟨p.row + q.row, q.column⟩ else ⟨p.row, p.column + q.column⟩

/-- How far `p` lies behind `q`. -/
instance : Sub Position where
  sub p q := if q.row < p.row then ⟨p.row - q.row, p.column⟩ else ⟨0, p.column - q.column⟩

theorem add_def (p q : Position) :
    p + q = if 0 < q.row then ⟨p.row + q.row, q.column⟩ else ⟨p.row, p.column + q.column⟩ := rfl

theorem sub_def (p q : Position) :
    p - q = if q.row < p.row then ⟨p.row - q.row, p.column⟩ else ⟨0, p.column - q.column⟩ := rfl

theorem add_origin (p : Position) : p + origin = p := by simp [add_def, origin]

theorem advance_add (p q : Position) (b : UInt8) : (p + q).advance b = p + q.advance b := by
  -- a line break hides what came before it on its line; without one the columns count on
  by_cases hb : b = newline <;> by_cases hq : 0 < q.row
  · simp [advance, add_def, hb, hq, Nat.add_assoc]
  · have hrow : q.row = 0 := by omega
    simp [advance, add_def, hb, hrow]
  · simp [advance, add_def, hb, hq]
  · simp [advance, add_def, hb, hq, Nat.add_assoc]

/-- What was added can be taken back. -/
theorem add_sub_cancel_left (p q : Position) : p + q - p = q := by
  by_cases hq : 0 < q.row
  · rw [add_def, if_pos hq, sub_def, if_pos (by simp; omega)]
    simp
  · have hrow : q.row = 0 := by omega
    rw [add_def, if_neg hq, sub_def, if_neg (by simp)]
    cases q
    simp_all

/-! ## Extents -/

/-- The position behind a text: its line breaks, and the bytes after the last of them. -/
def extent (text : Bytes) : Position where
  row := text.count newline
  column := (text.reverse.takeWhile (· != newline)).length

theorem ofOffset_eq_extent (source : Bytes) (offset : Nat) :
    ofOffset source offset = extent (source.take offset) := rfl

theorem extent_nil : extent [] = origin := rfl

theorem extent_concat (text : Bytes) (b : UInt8) :
    extent (text ++ [b]) = (extent text).advance b := by
  by_cases hb : b = newline
  · simp [extent, advance, hb]
  · simp [extent, advance, hb, List.count_append]

/-- The extents of texts add up. -/
theorem extent_append (front back : Bytes) :
    extent (front ++ back) = extent front + extent back := by
  induction back using List.reverseRecOn with
  | nil => rw [List.append_nil, extent_nil, add_origin]
  | append_singleton back b ih =>
    rw [← List.append_assoc, extent_concat, ih, extent_concat, advance_add]

/-- Each byte counts for the row or for the column, or no longer. -/
theorem extent_le_length (text : Bytes) :
    (extent text).row + (extent text).column ≤ text.length := by
  induction text using List.reverseRecOn with
  | nil => exact Nat.le_refl 0
  | append_singleton text b ih =>
    rw [extent_concat, advance, List.length_append, List.length_singleton]
    split
    · show (extent text).row + 1 + 0 ≤ _
      omega
    · show (extent text).row + ((extent text).column + 1) ≤ _
      omega

/-! ## Offsets in texts that are put together -/

theorem ofOffset_append_of_le {front : Bytes} {offset : Nat} (h : offset ≤ front.length)
    (back : Bytes) : ofOffset (front ++ back) offset = ofOffset front offset := by
  rw [ofOffset_eq_extent, List.take_append_of_le_length h, ← ofOffset_eq_extent]

theorem ofOffset_append_length (front back : Bytes) :
    ofOffset (front ++ back) front.length = extent front := by
  rw [ofOffset_eq_extent, List.take_left]

theorem ofOffset_append_add (front back : Bytes) (offset : Nat) :
    ofOffset (front ++ back) (front.length + offset) = extent front + ofOffset back offset := by
  rw [ofOffset_eq_extent, List.take_length_add_append, extent_append, ← ofOffset_eq_extent]

/-- How far an offset lies behind a text in front depends on the text behind it alone. -/
theorem ofOffset_sub_extent (front back : Bytes) (offset : Nat) :
    ofOffset (front ++ back) (front.length + offset) - extent front = ofOffset back offset := by
  rw [ofOffset_append_add, add_sub_cancel_left]

end SyntaxTrees.Position

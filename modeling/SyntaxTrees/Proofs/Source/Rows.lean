import SyntaxTrees.Proofs.Source.Order

/-!
# Rows of a source

A row starts at the first byte of a source or one past a line break (`rowStarts`). The last row of a
text starts as many bytes before the end as the column of its extent says
(`getElem?_rowStarts_extent`), and rows of a text are rows of every source that begins with it, so
an offset is found again by its position: it lies as far behind the start of its row as its column
says. Positions are therefore as good as offsets, and come in the same order
(`ofOffset_orders_offsets`).
-/

namespace SyntaxTrees.Position

/-- Where the rows of a source start: at its first byte, and one past each of its line breaks. -/
def rowStarts (source : Bytes) : List Nat := 0 :: (source.idxsOf newline).map (· + 1)

theorem length_rowStarts (source : Bytes) :
    (rowStarts source).length = source.count newline + 1 := by
  simp [rowStarts]

/-- What is put behind a text leaves the rows of the text where they start. -/
theorem rowStarts_prefix_append (front back : Bytes) :
    rowStarts front <+: rowStarts (front ++ back) := by
  unfold rowStarts
  rw [List.idxsOf_append, List.map_append, ← List.cons_append]
  exact List.prefix_append _ _

theorem rowStarts_concat (text : Bytes) (b : UInt8) :
    rowStarts (text ++ [b]) =
      rowStarts text ++ if b = newline then [text.length + 1] else [] := by
  unfold rowStarts
  rw [List.idxsOf_append, List.map_append, ← List.cons_append]
  by_cases hb : b = newline <;> simp [hb]

/-- The last row of a text starts as many bytes before the end as the column of the extent says. -/
theorem getElem?_rowStarts_extent (text : Bytes) :
    (rowStarts text)[(extent text).row]? = some (text.length - (extent text).column) := by
  induction text using List.reverseRecOn with
  | nil => rfl
  | append_singleton text b ih =>
    rw [rowStarts_concat, extent_concat, List.length_append, List.length_singleton]
    unfold advance
    split
    · -- a line break starts a row behind all others, in the column zero
      have hlast : (extent text).row + 1 = (rowStarts text).length :=
        (length_rowStarts text).symm
      show (rowStarts text ++ [text.length + 1])[(extent text).row + 1]? = _
      rw [hlast, List.getElem?_concat_length]
      rfl
    · show (rowStarts text ++ [])[(extent text).row]? =
        some (text.length + 1 - ((extent text).column + 1))
      rw [List.append_nil, ih, Nat.add_sub_add_right]

/-- An offset lies as far behind the start of its row as its column says. -/
theorem exists_rowStart {source : Bytes} {k : Nat} (h : k ≤ source.length) :
    ∃ start, (rowStarts source)[(ofOffset source k).row]? = some start ∧
      start + (ofOffset source k).column = k := by
  have hlength : (source.take k).length = k := List.length_take_of_le h
  have hfits := extent_le_length (source.take k)
  have hrow := getElem?_rowStarts_extent (source.take k)
  rw [hlength] at hfits hrow
  rw [ofOffset_eq_extent]
  refine ⟨k - (extent (source.take k)).column, ?_, by omega⟩
  rcases rowStarts_prefix_append (source.take k) (source.drop k) with ⟨later, hlater⟩
  rw [List.take_append_drop] at hlater
  rw [← hlater, List.getElem?_append_left (List.getElem?_eq_some_iff.mp hrow).1, hrow]

/-- Offsets and their positions stand for each other. The first position is the origin, a line break
leads to the start of the next row, and any other byte to the next column. So up to the end of the
source positions come in the order of their offsets, different offsets have different positions, and
an offset is the start of its row and its column put together. Behind the end there are no further
positions. -/
theorem ofOffset_orders_offsets (source : Bytes) :
    ofOffset source 0 = ⟨0, 0⟩ ∧
    (∀ k (h : k < source.length),
      let p := ofOffset source k
      ofOffset source (k + 1) =
        if source[k] = newline then ⟨p.row + 1, 0⟩ else ⟨p.row, p.column + 1⟩) ∧
    (∀ i ≤ source.length, ∀ j ≤ source.length,
      (i < j ↔ ofOffset source i < ofOffset source j) ∧
      (ofOffset source i = ofOffset source j → i = j)) ∧
    (∀ k ≤ source.length, ∃ start, (rowStarts source)[(ofOffset source k).row]? = some start ∧
      start + (ofOffset source k).column = k) ∧
    ∀ k, source.length ≤ k → ofOffset source k = ofOffset source source.length := by
  refine ⟨rfl, ?_, ?_, ?_, ?_⟩
  · intro k h
    exact ofOffset_succ h
  · intro i hi j hj
    constructor
    · exact (ofOffset_lt_iff hj).symm
    · -- the two offsets have one row, and are the same distance behind its start
      intro hsame
      rcases exists_rowStart hi with ⟨start, hstart, hsum⟩
      rcases exists_rowStart hj with ⟨start', hstart', hsum'⟩
      rw [← hsame, hstart] at hstart'
      rw [← hsame, ← Option.some.inj hstart'] at hsum'
      exact hsum.symm.trans hsum'
  · intro k hk
    exact exists_rowStart hk
  · intro k hk
    exact ofOffset_of_length_le hk

/-- Behind a blank line: the third row starts at the fourth byte. -/
theorem position_behind_blank_line :
    let source : Bytes := [97, 10, 10, 98]
    ofOffset source (2 + 1) = ⟨2, 0⟩ ∧ ofOffset source 2 < ofOffset source 4 ∧
      (∃ start, (rowStarts source)[2]? = some start ∧ start + 1 = 4) ∧
      ofOffset source 9 = ofOffset source 4 := by
  intro source
  rcases ofOffset_orders_offsets source with ⟨-, hstep, horder, hrow, hend⟩
  exact ⟨hstep 2 (by decide), (horder 2 (by decide) 4 (by decide)).1.mp (by decide),
    hrow 4 (by decide), hend 9 (by decide)⟩

end SyntaxTrees.Position

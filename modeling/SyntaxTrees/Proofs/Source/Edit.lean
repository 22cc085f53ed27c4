import Mathlib.Tactic.SplitIfs
import SyntaxTrees.Proofs.Source.Position
import SyntaxTrees.Source.Edit

/-!
# Positions across an edit

An edit is made of four texts: the `front` before it, what it removed and what it inserted, and
the `back` after it. Such an edit fits the two sources (`check_replacement`). Positions before it
are the same in both sources, and those after it are moved by the difference of its two stops
(`positions_follow_replacement`), wherever the line breaks are.
-/

namespace SyntaxTrees.Edit

/-- An edit fits two lengths if it is not inverted, lies in both, and leaves equally much behind. -/
theorem check_eq_ok_iff {e : Edit} {oldLength newLength : Nat} :
    e.check oldLength newLength = .ok () ↔
      (e.start ≤ e.oldStop ∧ e.start ≤ e.newStop) ∧
        (e.oldStop ≤ oldLength ∧ e.newStop ≤ newLength) ∧
          oldLength - e.oldStop = newLength - e.newStop := by
  rw [check]
  split_ifs with hinverted hold hnew hrest
  · simp only [false_iff]
    omega
  · simp only [false_iff]
    omega
  · simp only [false_iff]
    omega
  · simp only [false_iff]
    omega
  · simp only [true_iff]
    omega

/-! ## Replacements -/

/-- The edit that puts one text behind `front` in the place of another. -/
def replacement (front removed inserted : Bytes) : Edit :=
  ⟨front.length, front.length + removed.length, front.length + inserted.length⟩

variable (front removed inserted back : Bytes)

theorem oldStop_replacement :
    (replacement front removed inserted).oldStop = (front ++ removed).length :=
  List.length_append.symm

theorem newStop_replacement :
    (replacement front removed inserted).newStop = (front ++ inserted).length :=
  List.length_append.symm

theorem check_replacement :
    (replacement front removed inserted).check (front ++ removed ++ back).length
      (front ++ inserted ++ back).length = .ok () := by
  rw [check_eq_ok_iff]
  simp only [replacement, List.length_append]
  omega

/-- The start of a replacement is where the text before it ends, in the old source. -/
theorem locate_start :
    ((replacement front removed inserted).locate (front ++ removed ++ back)
      (front ++ inserted ++ back)).start = .extent front := by
  rw [List.append_assoc]
  exact Position.ofOffset_append_length front _

theorem locate_oldStop :
    ((replacement front removed inserted).locate (front ++ removed ++ back)
      (front ++ inserted ++ back)).oldStop = .extent (front ++ removed) := by
  rw [locate, oldStop_replacement]
  exact Position.ofOffset_append_length (front ++ removed) back

theorem locate_newStop :
    ((replacement front removed inserted).locate (front ++ removed ++ back)
      (front ++ inserted ++ back)).newStop = .extent (front ++ inserted) := by
  rw [locate, newStop_replacement]
  exact Position.ofOffset_append_length (front ++ inserted) back

/-- An offset before a replacement has one position in both sources. -/
theorem ofOffset_before {offset : Nat} (h : offset ≤ front.length) :
    Position.ofOffset (front ++ removed ++ back) offset =
      .ofOffset (front ++ inserted ++ back) offset := by
  rw [List.append_assoc, List.append_assoc, Position.ofOffset_append_of_le h,
    Position.ofOffset_append_of_le h]

/-- The three positions of a replacement are those of its offsets, none of them cut off at the end
of a source. Offsets up to the replacement have one position in both sources, and the position of
an offset behind it is moved from the old stop to the new stop, by a difference that loses nothing.
-/
theorem positions_follow_replacement (front removed inserted back : Bytes) :
    let e : Edit := replacement front removed inserted
    let old := front ++ removed ++ back
    let new := front ++ inserted ++ back
    let located := e.locate old new
    e.check old.length new.length = .ok () ∧
      (located.start = .ofOffset old e.start ∧ located.start = .ofOffset new e.start) ∧
      (located.oldStop = .ofOffset old e.oldStop ∧ located.newStop = .ofOffset new e.newStop) ∧
      (e.start ≤ old.length ∧ e.start ≤ new.length ∧ e.oldStop ≤ old.length ∧
        e.newStop ≤ new.length) ∧
      (located.start = .extent front ∧ located.oldStop = .extent (front ++ removed) ∧
        located.newStop = .extent (front ++ inserted)) ∧
      (∀ offset ≤ front.length, Position.ofOffset old offset = .ofOffset new offset) ∧
      ∀ offset,
        located.oldStop + (.ofOffset old (e.oldStop + offset) - located.oldStop) =
          .ofOffset old (e.oldStop + offset) ∧
        .ofOffset new (e.newStop + offset) =
          located.newStop + (.ofOffset old (e.oldStop + offset) - located.oldStop) := by
  intro e old new located
  have hcheck := check_replacement front removed inserted back
  rcases check_eq_ok_iff.mp hcheck with ⟨⟨hold, hnew⟩, ⟨hold', hnew'⟩, -⟩
  -- before the replacement both texts are `front`
  have hbefore {offset : Nat} (h : offset ≤ front.length) :=
    ofOffset_before front removed inserted back h
  refine ⟨hcheck, ⟨rfl, hbefore (Nat.le_refl _)⟩, ⟨rfl, rfl⟩,
    ⟨Nat.le_trans hold hold', Nat.le_trans hnew hnew', hold', hnew'⟩,
    ⟨locate_start .., locate_oldStop .., locate_newStop ..⟩, fun offset => hbefore, ?_⟩
  -- behind it positions shift by the difference
  intro offset
  rw [locate_newStop, locate_oldStop, oldStop_replacement, newStop_replacement,
    Position.ofOffset_sub_extent]
  exact ⟨(Position.ofOffset_append_add ..).symm, Position.ofOffset_append_add ..⟩

/-- A replacement takes a line break away: what follows on its line changes row and column, the
next line only its row. -/
theorem positions_follow_line_break :
    let old : Bytes := [97, 10] ++ [98, 10, 99] ++ [100, 10, 101]
    let new : Bytes := [97, 10] ++ [120] ++ [100, 10, 101]
    Position.ofOffset old 1 = .ofOffset new 1 ∧
      Position.ofOffset new (3 + 1) = ⟨1, 1⟩ + (.ofOffset old (5 + 1) - ⟨2, 1⟩) ∧
        Position.ofOffset new (3 + 3) = ⟨1, 1⟩ + (.ofOffset old (5 + 3) - ⟨2, 1⟩) := by
  obtain ⟨-, -, -, -, -, hbefore, hbehind⟩ :=
    positions_follow_replacement [97, 10] [98, 10, 99] [120] [100, 10, 101]
  exact ⟨hbefore 1 (by decide), (hbehind 1).2, (hbehind 3).2⟩

end SyntaxTrees.Edit

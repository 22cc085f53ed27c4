import SyntaxTrees.Proofs.Source.Edit

/-!
# Edits that can be carried out

An edit says how one source becomes another: `Edit.Splices` puts a text in the place of the bytes
that the edit removes, between what is kept before and behind them. `Edit.check` sees only the
lengths of the two sources. It accepts an edit exactly if there is some source of the new length
that the edit leads to (`Edit.check_eq_ok_iff_splices`), and none of the differences that it takes
falls below zero (`Edit.check?_eq`). An insertion that is cut off at the largest offset ends behind
every source, so it is never taken for another one (`Edit.check_insertion`).
-/

namespace SyntaxTrees

/-- The largest length of a source, half of what offsets reach. -/
def maxLength : Nat := 0x7FFFFFFFFFFFFFFF

namespace Edit

variable {e : Edit} {old text new : Bytes} {offset length oldLength newLength : Nat}

/-! ## Replacing a piece of a source -/

/-- The edit leads from one source to another by putting a text in the place of what it removes. -/
structure Splices (e : Edit) (old text new : Bytes) : Prop where
  start_le_oldStop : e.start ≤ e.oldStop
  start_le_newStop : e.start ≤ e.newStop
  oldStop_le : e.oldStop ≤ old.length
  text_length : text.length = e.newStop - e.start
  new_eq : new = old.take e.start ++ text ++ old.drop e.oldStop

/-- Behind the new stop there is as much left as behind the old one. -/
theorem Splices.length_new (h : e.Splices old text new) :
    new.length = e.newStop + (old.length - e.oldStop) := by
  have hstart : e.start ≤ old.length := Nat.le_trans h.start_le_oldStop h.oldStop_le
  have hnew := h.start_le_newStop
  rw [h.new_eq, List.length_append, List.length_append, List.length_take_of_le hstart,
    h.text_length, List.length_drop]
  omega

/-- Any bytes will do for a text of the right length. -/
theorem exists_splices (hold : e.start ≤ e.oldStop) (hnew : e.start ≤ e.newStop)
    (hfits : e.oldStop ≤ old.length) : ∃ text new, e.Splices old text new :=
  ⟨List.replicate (e.newStop - e.start) 0, _, hold, hnew, hfits, List.length_replicate, rfl⟩

theorem check_eq_ok_iff_splices :
    e.check old.length newLength = .ok () ↔
      ∃ text new, new.length = newLength ∧ e.Splices old text new := by
  rw [check_eq_ok_iff]
  constructor
  · -- accepted: the text put in can be chosen freely, only its length is fixed
    rintro ⟨⟨hold, hnew⟩, ⟨hfits, hfits'⟩, hrest⟩
    rcases exists_splices hold hnew hfits with ⟨text, new, h⟩
    refine ⟨text, new, ?_, h⟩
    rw [h.length_new]
    omega
  · -- spliced: the lengths follow from the text's
    rintro ⟨text, new, rfl, h⟩
    have hlength := h.length_new
    refine ⟨⟨h.start_le_oldStop, h.start_le_newStop⟩, ⟨h.oldStop_le, ?_⟩, ?_⟩
    · omega
    · omega

/-! ## Differences -/

def difference? (a b : Nat) : Option Nat := if b ≤ a then some (a - b) else none

theorem difference?_eq {a b : Nat} (h : b ≤ a) : difference? a b = some (a - b) := if_pos h

/-- `check` with no answer where a difference falls below zero. -/
def check? (e : Edit) (oldLength newLength : Nat) : Option (Except EditFault Unit) :=
  if e.oldStop < e.start ∨ e.newStop < e.start then some (.error (.inverted e.start))
  else if oldLength < e.oldStop then some (.error (.pastOldEnd e.oldStop oldLength))
  else if newLength < e.newStop then some (.error (.pastNewEnd e.newStop newLength))
  else do
    let oldRest ← difference? oldLength e.oldStop
    let newRest ← difference? newLength e.newStop
    return if oldRest ≠ newRest then .error .unevenRest else .ok ()

/-- Where the differences are taken, the stops have been found to lie in their sources. -/
theorem check?_eq (e : Edit) (oldLength newLength : Nat) :
    e.check? oldLength newLength = some (e.check oldLength newLength) := by
  unfold check? check
  split
  · rfl
  · split
    · rfl
    · split
      · rfl
      · rw [difference?_eq (by omega), difference?_eq (by omega)]
        rfl

/-! ## Insertions and deletions -/

theorem check_insertion (hnew : newLength ≤ maxLength) :
    (insertion offset length).check oldLength newLength = .ok () ↔
      offset ≤ oldLength ∧ newLength = oldLength + length := by
  have hmax : maxLength < maxOffset := by decide
  rw [check_eq_ok_iff]
  unfold insertion
  constructor
  · rintro ⟨⟨-, hstart⟩, ⟨hold, hstop⟩, hrest⟩
    -- the stop has not been cut off, as it lies in the new source
    simp only at hstart hold hstop hrest
    omega
  · rintro ⟨hold, rfl⟩
    simp only
    omega

theorem check_deletion {s : Span} :
    (deletion s).check oldLength newLength = .ok () ↔
      (s.start ≤ s.stop ∧ s.stop ≤ oldLength) ∧ newLength + (s.stop - s.start) = oldLength := by
  rw [check_eq_ok_iff]
  unfold deletion
  simp only
  omega

/-- An edit is accepted for a source and a length if and only if it leads from the source to some
other one of that length; else there is a fault in it. In no case does a difference fall below zero.
So an insertion is accepted if it starts in the source and the new length is the sum of the old one
and its own, and a deletion if its span is not inverted and lies in the source, and the new length
and that of the span add up to the old one. -/
theorem check_accepts_splices :
    (∀ (old : Bytes) (e : Edit) (newLength : Nat),
      (e.check old.length newLength = .ok () ↔
        ∃ text new, new.length = newLength ∧ e.Splices old text new) ∧
      ((¬ ∃ text new, new.length = newLength ∧ e.Splices old text new) →
        ∃ fault, e.check old.length newLength = .error fault) ∧
      e.check? old.length newLength = some (e.check old.length newLength)) ∧
    ∀ oldLength newLength, oldLength ≤ maxLength → newLength ≤ maxLength →
      (∀ offset length, (insertion offset length).check oldLength newLength = .ok () ↔
        offset ≤ oldLength ∧ newLength = oldLength + length) ∧
      ∀ s : Span, (deletion s).check oldLength newLength = .ok () ↔
        (s.start ≤ s.stop ∧ s.stop ≤ oldLength) ∧ newLength + (s.stop - s.start) = oldLength := by
  constructor
  · intro old e newLength
    refine ⟨check_eq_ok_iff_splices, ?_, check?_eq e old.length newLength⟩
    -- no splice, so the check says which bound is broken
    rw [← check_eq_ok_iff_splices]
    intro hrefused
    cases hcheck : e.check old.length newLength with
    | ok accepted => exact absurd hcheck hrefused
    | error fault => exact ⟨fault, rfl⟩
  · intro oldLength newLength _ hnew
    constructor
    · intro offset length
      exact check_insertion hnew
    · intro s
      exact check_deletion

/-- Two bytes in the middle of three give way to one. The insertion of more bytes than an offset
reaches is refused for the longest sources, and the deletion of nothing at their end is accepted. -/
theorem splice_in_the_middle :
    let e : Edit := ⟨1, 3, 2⟩
    e.Splices [97, 98, 99, 100] [120] [97, 120, 100] ∧
      e.check [97, 98, 99, 100].length 3 = .ok () ∧
      (insertion 3 maxOffset).check maxLength maxLength ≠ .ok () ∧
      (deletion ⟨maxLength, maxLength⟩).check maxLength maxLength = .ok () := by
  intro e
  rcases check_accepts_splices with ⟨hsplice, hlengths⟩
  rcases hlengths maxLength maxLength (Nat.le_refl _) (Nat.le_refl _) with ⟨hinsertion, hdeletion⟩
  -- `b` and `c` give way to `x`
  have h : e.Splices [97, 98, 99, 100] [120] [97, 120, 100] :=
    ⟨by decide, by decide, by decide, rfl, rfl⟩
  refine ⟨h, (hsplice _ e 3).1.mpr ⟨_, _, rfl, h⟩, ?_, (hdeletion _).mpr (by decide)⟩
  rw [ne_eq, hinsertion]
  decide

end Edit

end SyntaxTrees

import SyntaxTrees.Source.Position

/-!
# Edits

An `Edit` says how one source became another: the bytes from `start` up to `oldStop` gave way to
the bytes from `start` up to `newStop`, and all else is as before. Offsets are machine words, so
an insertion near the limit saturates. `Edit.check` decides whether an edit fits two lengths.
-/

namespace SyntaxTrees

/-- The largest offset that a machine word holds. -/
def maxOffset : Nat := 0xFFFFFFFFFFFFFFFF

/-- One contiguous replacement in a source. -/
structure Edit where
  start : Nat
  oldStop : Nat
  newStop : Nat
deriving DecidableEq, Repr, Inhabited

/-- Why an edit does not lead from one length to another. -/
inductive EditFault where
  /-- The edit starts behind one of its own ends. -/
  | inverted (start : Nat)
  /-- The replaced bytes reach past the old source. -/
  | pastOldEnd (stop length : Nat)
  /-- The replacement reaches past the new source. -/
  | pastNewEnd (stop length : Nat)
  /-- The bytes after the edit are more in one source than in the other. -/
  | unevenRest
deriving DecidableEq, Repr

def EditFault.message : EditFault → String
  | inverted start => s!"start byte {start} is past the end of the edited span"
  | pastOldEnd stop length => s!"old end byte {stop} exceeds old source length {length}"
  | pastNewEnd stop length => s!"new end byte {stop} exceeds new source length {length}"
  | unevenRest => "unchanged suffix differs in length between old and new source"

structure LocatedEdit where
  edit : Edit
  start : Position
  oldStop : Position
  newStop : Position
deriving DecidableEq, Repr

namespace Edit

/-- The insertion of `length` bytes at an offset, cut off at the largest offset. -/
def insertion (offset length : Nat) : Edit := ⟨offset, offset, min (offset + length) maxOffset⟩

def deletion (s : Span) : Edit := ⟨s.start, s.stop, s.start⟩

def describe (e : Edit) : String :=
  Text.describeRecord "Edit"
    [("start_byte", toString e.start), ("old_end_byte", toString e.oldStop),
      ("new_end_byte", toString e.newStop)] false

/-- Accepts an edit that turns a source of `oldLength` bytes into one of `newLength` bytes. -/
def check (e : Edit) (oldLength newLength : Nat) : Except EditFault Unit :=
  if e.oldStop < e.start ∨ e.newStop < e.start then .error (.inverted e.start)
  else if oldLength < e.oldStop then .error (.pastOldEnd e.oldStop oldLength)
  else if newLength < e.newStop then .error (.pastNewEnd e.newStop newLength)
  else if oldLength - e.oldStop ≠ newLength - e.newStop then .error .unevenRest
  else .ok ()

/-- Each offset of an edit is located in the source that it speaks about. -/
def locate (e : Edit) (old new : Bytes) : LocatedEdit where
  edit := e
  start := .ofOffset old e.start
  oldStop := .ofOffset old e.oldStop
  newStop := .ofOffset new e.newStop

end Edit

end SyntaxTrees

import SyntaxTrees.Text.Description

/-!
# Positions and spans in a source buffer

A source is a list of bytes. A `Position` counts the line breaks before an offset and the bytes
since the last of them; a `Span` is a half-open interval of offsets. Spans may be inverted: the
operations below say what that means for each of them.
-/

namespace SyntaxTrees

abbrev Bytes := List UInt8

def newline : UInt8 := 10

/-- A row and a column, both counted from zero; columns count bytes. -/
structure Position where
  row : Nat
  column : Nat
deriving DecidableEq, Ord, Repr, Inhabited

namespace Position

/-- Earlier rows come first, and on one row smaller columns. -/
instance : LT Position := ltOfOrd

instance : LE Position := leOfOrd

instance : ToString Position where
  toString p := s!"{p.row}:{p.column}"

def describe (p : Position) : String :=
  Text.describeRecord "Point" [("row", toString p.row), ("column", toString p.column)] false

def origin : Position := ⟨0, 0⟩

/-- The position after one more byte. -/
def advance (p : Position) (b : UInt8) : Position :=
  if b = newline then ⟨p.row + 1, 0⟩ else ⟨p.row, p.column + 1⟩

/-- The position of an offset; an offset past the end stands for the end. -/
def ofOffset (source : Bytes) (offset : Nat) : Position :=
  let before := source.take offset
  { row := before.count newline
    column := (before.reverse.takeWhile (· != newline)).length }

end Position

/-- The half-open interval of offsets from `start` up to `stop`. -/
structure Span where
  start : Nat
  stop : Nat
deriving DecidableEq, Repr, Inhabited

namespace Span

def length (s : Span) : Nat := s.stop - s.start

abbrev IsEmpty (s : Span) : Prop := s.length = 0

/-- The first span reaches at least as far as the second on both sides. -/
abbrev Covers (outer inner : Span) : Prop :=
  outer.start ≤ inner.start ∧ inner.stop ≤ outer.stop

/-- The span as shown in a log. -/
def describe (s : Span) : String :=
  Text.describeRecord "ByteRange" [("start", toString s.start), ("end", toString s.stop)] false

def slice (s : Span) (source : Bytes) : Bytes := (source.drop s.start).take s.length

/-- The bytes of a source that a span covers; `none` if the span is inverted or leaves the source.
-/
def slice? (s : Span) (source : Bytes) : Option Bytes :=
  if s.start ≤ s.stop ∧ s.stop ≤ source.length then some (s.slice source) else none

end Span

end SyntaxTrees

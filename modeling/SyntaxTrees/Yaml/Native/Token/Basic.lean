import SyntaxTrees.Source.Position
import SyntaxTrees.Yaml.Native.Basic

/-!
# Tokens of a YAML text

The smallest parts of a text that have a meaning. The extent of a block follows from indentation,
so tokens for its start and its end stand in the list although nothing in the text spells them; so
does the token before a key that only the colon behind it reveals.
-/

namespace SyntaxTrees.Yaml

inductive Token where
  /-- The version of YAML that a document is written in. -/
  | version (major minor : Nat)
  /-- What a handle stands for in the tags of a document. -/
  | tagHandle (handle : String) (meaning : Bytes)
  | documentStart
  | documentEnd
  | blockSequence
  | blockMapping
  | blockEnd
  | flowSequence
  | flowSequenceEnd
  | flowMapping
  | flowMappingEnd
  /-- The hyphen before an item. -/
  | item
  /-- The comma between items. -/
  | comma
  | key
  | value
  | anchor (name : String)
  | alias (name : String)
  | tag (handle : String) (suffix : Bytes)
  | scalar (style : ScalarStyle) (text : String)
deriving DecidableEq, Repr

/-- A place in a text: the number of lines before it, and what is before it on its line. -/
structure Mark where
  line : Nat := 0
  /-- The number of characters before it on its line. -/
  column : Nat := 0
  /-- The number of bytes that those characters take. -/
  offset : Nat := 0
deriving DecidableEq, Repr

namespace Mark

/-- The place some characters further on the same line, all of them one byte long, as punctuation
and the characters of names are. -/
def right (m : Mark) (n : Nat) : Mark := ⟨m.line, m.column + n, m.offset + n⟩

def nextLine (m : Mark) : Mark := ⟨m.line + 1, 0, 0⟩

def after (m : Mark) (c : Char) : Mark :=
  if isBreak c then m.nextLine else ⟨m.line, m.column + 1, m.offset + c.utf8Size⟩

end Mark

structure Scanned (α : Type) where
  value : α
  mark : Mark
  rest : List Char
deriving Repr

/-- The delimiter of documents stands at the start of a line. -/
def atDelimiter (m : Mark) (cs : List Char) : Bool := m.column == 0 && startsDelimiter cs

/-- The rest of a line after a directive or the head of a block scalar: there may be nothing but
blanks and a comment. -/
def skipLine? (cs : List Char) : Option (List Char) :=
  let cs := cs.dropWhile isBlank
  let cs := if cs.head? == some '#' then cs.dropWhile (!isBreak ·) else cs
  match cs with
  | [] => some []
  | c :: rest => if isBreak c then some rest else none

/-- Texts in which a line feed ends every line that ended with a carriage return, with both, or
with the next-line character. -/
def unifyBreaks : List Char → List Char
  | '\r' :: '\n' :: rest => '\n' :: unifyBreaks rest
  | c :: rest => (if c = '\r' || c.toNat = 0x85 then '\n' else c) :: unifyBreaks rest
  | [] => []

end SyntaxTrees.Yaml

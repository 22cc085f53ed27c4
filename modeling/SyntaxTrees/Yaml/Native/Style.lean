import SyntaxTrees.Yaml.Native.Basic
import SyntaxTrees.Yaml.Native.Numeral

/-!
# The style of a written scalar

`styleOf` chooses the plainest spelling from which a text can be read back as the same text. A text
with a line feed is written line by line. All others stand on one line: bare if nothing in them
could be taken for another value or for punctuation, else between apostrophes. What neither of
these can hold goes between quotation marks with escapes.
-/

namespace SyntaxTrees.Yaml

/-- Some two neighbouring characters are of the two given kinds. -/
def hasNeighbours (p q : Char → Bool) : List Char → Bool
  | a :: b :: rest => (p a && q b) || hasNeighbours p q (b :: rest)
  | _ => false

/-- A character that has a meaning of its own at the start of a scalar. -/
def isLeadIndicator (c : Char) : Bool :=
  ['#', ',', '[', ']', '\x7b', '\x7d', '&', '*', '!', '|', '>', '\'', '"', '%', '@',
    '\x60'].contains c

/-- A colon before a separator or a number sign behind one. -/
def hasInnerIndicator (afterGap : Bool) : List Char → Bool
  | [] => false
  | c :: rest =>
    (c == ':' && startsGap rest) || (c == '#' && afterGap) || hasInnerIndicator (isGap c) rest

/-- Something in the text would be read as punctuation if the text stood bare. -/
def hasIndicator : List Char → Bool
  | [] => false
  | c :: rest =>
    ['-', '-', '-'].isPrefixOf (c :: rest) || ['.', '.', '.'].isPrefixOf (c :: rest)
      || isLeadIndicator c || (['?', ':', '-'].contains c && startsGap rest)
      || hasInnerIndicator (isGap c) rest

def isSpace (c : Char) : Bool := c == ' '

/-- Only escapes can spell the text: it holds a character that is not printable, or a line that
ends with a space. -/
def needsEscapes (cs : List Char) : Bool :=
  !cs.all isPrintable || hasNeighbours isSpace isBreak cs

def allowsPlain (cs : List Char) : Bool :=
  !needsEscapes cs && !cs.any isBreak && !cs.head?.any isSpace && !cs.getLast?.any isSpace
    && !hasIndicator cs

/-- The text may stand between apostrophes: no line in it starts with a space, save the first. -/
def allowsSingle (cs : List Char) : Bool :=
  !needsEscapes cs && !hasNeighbours isBreak isSpace cs

def allowsLiteral (cs : List Char) : Bool := !needsEscapes cs && !cs.getLast?.any isSpace

/-- The text would be read as another value than a text if it stood bare. -/
def isReserved (cs : List Char) : Bool :=
  cs.isEmpty || nullTexts.contains (.ofList cs) || flagTexts.contains (.ofList cs)
    || looksNumeric cs

def styleOf (cs : List Char) : ScalarStyle :=
  if cs.contains '\n' then if allowsLiteral cs then .literal else .double
  else if !isReserved cs && allowsPlain cs then .plain
  else if allowsSingle cs then .single
  else .double

end SyntaxTrees.Yaml

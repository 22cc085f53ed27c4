/-!
# Characters and scalars of YAML

The classes of characters that the layout of a YAML text rests on, and the five ways to spell a
scalar.
-/

namespace SyntaxTrees.Yaml

/-- The characters that end a line. -/
def isBreak (c : Char) : Bool :=
  c == '\n' || c == '\r' || c.toNat == 0x85 || c.toNat == 0x2028 || c.toNat == 0x2029

/-- The characters that separate words on a line. -/
def isBlank (c : Char) : Bool := c == ' ' || c == '\t'

def isGap (c : Char) : Bool := isBlank c || isBreak c

/-- What follows is a separator or the end of the text. -/
def startsGap : List Char → Bool
  | [] => true
  | c :: _ => isGap c

/-- The mark that may stand before the first character of a line. -/
def byteOrderMark : Char := .ofNat 0xFEFF

/-- The characters that a text may consist of. -/
def isAllowed (c : Char) : Bool :=
  let n := c.toNat
  n == 9 || n == 10 || n == 13 || (0x20 ≤ n && n ≤ 0x7E) || n == 0x85
    || (0xA0 ≤ n && n ≤ 0xD7FF) || (0xE000 ≤ n && n ≤ 0xFFFD) || 0x10000 ≤ n

/-- The characters that may be shown as they are wherever a scalar holds them. -/
def isPrintable (c : Char) : Bool :=
  let n := c.toNat
  n == 10 || (0x20 ≤ n && n ≤ 0x7E) || (0xA0 ≤ n && n ≤ 0xD7FF)
    || (0xE000 ≤ n && n ≤ 0xFFFD && n != 0xFEFF) || 0x10000 ≤ n

/-- The characters of the names of anchors, directives and tag handles. -/
def isNameChar (c : Char) : Bool := c.isAlphanum || c == '_' || c == '-'

/-- Three hyphens or three points, followed by a separator: at the start of a line they delimit
documents. -/
def startsDelimiter : List Char → Bool
  | '-' :: '-' :: '-' :: rest => startsGap rest
  | '.' :: '.' :: '.' :: rest => startsGap rest
  | _ => false

inductive ScalarStyle where
  | plain
  /-- Between apostrophes. -/
  | single
  /-- Between quotation marks. -/
  | double
  /-- Line by line, with the line breaks kept. -/
  | literal
  /-- Line by line, with line breaks between words read as spaces. -/
  | folded
deriving DecidableEq, Repr

def nullTexts : List String := ["null", "Null", "NULL", "~"]

def flagTexts : List String := ["true", "True", "TRUE", "false", "False", "FALSE"]

end SyntaxTrees.Yaml

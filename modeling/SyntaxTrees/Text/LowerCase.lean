import SyntaxTrees.Text.CaseTable

/-!
# Lower case and white space

Every capital goes to its small letter. Two rules go beyond the table: a dotted capital I becomes
two characters, and a capital sigma at the end of a word becomes the final form of the letter.
White space is meant in the sense of Unicode.
-/

namespace SyntaxTrees.Text

def isCased (c : Char) : Bool := inRanges casedRanges c.toNat

/-- A character that does not count when one looks for the letters around another. -/
def isCaseIgnorable (c : Char) : Bool := inRanges caseIgnorableRanges c.toNat

/-- The run takes part in the lower case of a code point. -/
def CapitalRun.contains (r : CapitalRun) (code : Nat) : Bool :=
  r.first ≤ code && code ≤ r.last && (code - r.first) % r.step == 0

/-- The lower case of a character whatever stands around it. -/
def lowerChar (c : Char) : List Char :=
  if c.toNat = 0x130 then ['i', .ofNat 0x307]
  else match capitalRuns.find? (·.contains c.toNat) with
    | some r => [.ofNat (r.target + (c.toNat - r.first))]
    | none => [c]

/-- The first character that counts for case rules has a case. -/
def startsCased (l : List Char) : Bool :=
  ((l.dropWhile isCaseIgnorable).head?.map isCased).getD false

/-- Lower case of a text whose earlier characters, latest first, are `before`. -/
def lowerAfter (before : List Char) : List Char → List Char
  | [] => []
  | c :: rest =>
    let lowered :=
      if c.toNat = 0x3A3 then
        if startsCased before && !startsCased rest then [.ofNat 0x3C2] else [.ofNat 0x3C3]
      else lowerChar c
    lowered ++ lowerAfter (c :: before) rest

def lower (l : List Char) : List Char := lowerAfter [] l

/-! ## White space -/

/-- White space: the ASCII blanks, the next-line mark, and every space and separator of Unicode
except the zero-width ones. -/
def isBlank (c : Char) : Bool :=
  let n := c.toNat
  (0x9 ≤ n && n ≤ 0xD) || n == 0x20 || n == 0x85 || n == 0xA0 || n == 0x1680 ||
    (0x2000 ≤ n && n ≤ 0x200A) || n == 0x2028 || n == 0x2029 || n == 0x202F ||
    n == 0x205F || n == 0x3000

def trim (l : List Char) : List Char :=
  ((l.dropWhile isBlank).reverse.dropWhile isBlank).reverse

end SyntaxTrees.Text

import SyntaxTrees.Text.Digits
import SyntaxTrees.Yaml.Native.Token.Basic

/-!
# Flow scalars

Reading a scalar that stands bare, between apostrophes or between quotation marks. It consists of
words, with blanks and line breaks between them. A `Gap` collects the characters between two words;
`Gap.onto` gives its meaning. Blanks around a line break mean nothing, a single line feed means a
space, and of several the first means nothing.
-/

namespace SyntaxTrees.Yaml

open Text (hexDigit?)

/-! ## Gaps between words -/

/-- What has been read since the last word. -/
inductive Gap where
  | none
  /-- Blanks on one line, latest first. -/
  | blanks (cs : List Char)
  /-- The first line break, unless an escape hides it, and the further ones, latest first. -/
  | breaks (first : Option Char) (more : List Char)
deriving DecidableEq, Repr

namespace Gap

def hasBreak : Gap → Bool
  | breaks .. => true
  | _ => false

def add (g : Gap) (c : Char) : Gap :=
  match g with
  | none => if isBreak c then breaks (some c) [] else blanks [c]
  | blanks cs => if isBreak c then breaks (some c) [] else blanks (c :: cs)
  | breaks first more => if isBreak c then breaks first (c :: more) else breaks first more

/-- A text, latest character first, continued by the meaning of the gap. -/
def onto (g : Gap) (kept : List Char) : List Char :=
  match g with
  | none => kept
  | blanks cs => cs ++ kept
  | breaks first more =>
    if first = some '\n' then if more.isEmpty then ' ' :: kept else more ++ kept
    else more ++ (first.toList ++ kept)

end Gap

/-! ## Plain scalars

A scalar that stands bare goes on, also over line breaks, until punctuation, a comment, the delimiter of
a document or a line that is not indented far enough. -/

/-- The characters that end a plain scalar inside brackets or braces. -/
def isFlowIndicator (c : Char) : Bool := [',', '[', ']', '\x7b', '\x7d'].contains c

/-- A word cannot start here: the line is not indented far enough, or there is a comment or the
delimiter of a document. -/
def blocksWord (inFlow : Bool) (indent : Nat) (m : Mark) (cs : List Char) : Bool :=
  (!inFlow && m.column < indent) || atDelimiter m cs || cs.head? == some '#'

/-- Inside brackets or braces a colon may not touch what follows it in this way. -/
def isBadColon (inFlow : Bool) (c : Char) (rest : List Char) : Bool :=
  inFlow && c == ':' && rest.head?.any fun d => d == '?' || isFlowIndicator d

def endsPlain (inFlow : Bool) (c : Char) (rest : List Char) : Bool :=
  (c == ':' && startsGap rest) || (inFlow && isFlowIndicator c)

/-- The rest of a plain scalar, with what was read of it, latest first, and the gap after that. The
lines after the first are indented by at least `indent` columns. The result tells whether a line
break was read after the last word. -/
def scanPlain (inFlow : Bool) (indent : Nat) :
    List Char → Mark → Gap → List Char → Option (Scanned (String × Bool))
  | [], m, gap, kept => some ⟨(.ofList kept.reverse, gap.hasBreak), m, []⟩
  | c :: rest, m, gap, kept =>
    if isGap c then
      if gap.hasBreak && m.column < indent && c = '\t' then none
      else scanPlain inFlow indent rest (m.after c) (gap.add c) kept
    else if gap ≠ .none && blocksWord inFlow indent m (c :: rest) then
      some ⟨(.ofList kept.reverse, gap.hasBreak), m, c :: rest⟩
    else if isBadColon inFlow c rest then none
    else if endsPlain inFlow c rest then
      some ⟨(.ofList kept.reverse, gap.hasBreak), m, c :: rest⟩
    else scanPlain inFlow indent rest (m.after c) .none (c :: gap.onto kept)

/-! ## Quoted scalars

Either kind may run over several lines, but not over the delimiter of a document. Between quotation
marks a backslash starts an escape, and one at the end of a line hides the line break. -/

/-- The rest of a scalar between apostrophes, with what was read of it, latest first, and the gap
after that. -/
def scanSingle : List Char → Mark → Gap → List Char → Option (Scanned String)
  | [], _, _, _ => none
  | '\'' :: '\'' :: rest, m, gap, kept => scanSingle rest (m.right 2) .none ('\'' :: gap.onto kept)
  | c :: rest, m, gap, kept =>
    if c = '\'' then some ⟨.ofList (gap.onto kept).reverse, m.right 1, rest⟩
    else if isGap c then scanSingle rest (m.after c) (gap.add c) kept
    else if atDelimiter m (c :: rest) then none
    else scanSingle rest (m.after c) .none (c :: gap.onto kept)

inductive Escape where
  | none
  /-- The backslash has been read. -/
  | opened
  /-- So many digits of the number of a character are missing. -/
  | digits (missing : Nat) (number : Nat)
deriving DecidableEq, Repr

/-- The character that a letter after a backslash stands for. -/
def unescapeLetter? : Char → Option Char
  | '0' => some (.ofNat 0)
  | 'a' => some (.ofNat 7)
  | 'b' => some (.ofNat 8)
  | 't' | '\t' => some '\t'
  | 'n' => some '\n'
  | 'v' => some (.ofNat 11)
  | 'f' => some (.ofNat 12)
  | 'r' => some '\r'
  | 'e' => some (.ofNat 27)
  | ' ' => some ' '
  | '"' => some '"'
  | '/' => some '/'
  | '\\' => some '\\'
  | 'N' => some (.ofNat 0x85)
  | '_' => some (.ofNat 0xA0)
  | 'L' => some (.ofNat 0x2028)
  | 'P' => some (.ofNat 0x2029)
  | _ => none

def escapeWidth? : Char → Option Nat
  | 'x' => some 2
  | 'u' => some 4
  | 'U' => some 8
  | _ => none

def charOf? (n : Nat) : Option Char := if n.isValidChar then some (.ofNat n) else none

/-- The rest of a scalar between quotation marks, with how far an escape has been read, what was
read before, latest first, and the gap after that. -/
def scanDouble : List Char → Mark → Escape → Gap → List Char → Option (Scanned String)
  | [], _, _, _, _ => none
  | c :: rest, m, .none, gap, kept =>
    if c = '"' then some ⟨.ofList (gap.onto kept).reverse, m.right 1, rest⟩
    else if isGap c then scanDouble rest (m.after c) .none (gap.add c) kept
    else if atDelimiter m (c :: rest) then none
    else if c = '\\' then scanDouble rest (m.after c) .opened .none (gap.onto kept)
    else scanDouble rest (m.after c) .none .none (c :: gap.onto kept)
  | c :: rest, m, .opened, _, kept =>
    if isBreak c then scanDouble rest (m.after c) .none (.breaks none []) kept
    else match escapeWidth? c with
      | some width => scanDouble rest (m.after c) (.digits width 0) .none kept
      | none =>
        match unescapeLetter? c with
        | some e => scanDouble rest (m.after c) .none .none (e :: kept)
        | none => none
  | c :: rest, m, .digits missing number, _, kept =>
    match hexDigit? c with
    | none => none
    | some d =>
      if 1 < missing then
        scanDouble rest (m.after c) (.digits (missing - 1) (number * 16 + d)) .none kept
      else match charOf? (number * 16 + d) with
        | some e => scanDouble rest (m.after c) .none .none (e :: kept)
        | none => none

end SyntaxTrees.Yaml

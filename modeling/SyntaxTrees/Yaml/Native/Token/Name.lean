import SyntaxTrees.Text.Digits
import SyntaxTrees.Text.Utf8
import SyntaxTrees.Yaml.Native.Token.Basic

/-!
# Anchors, tags and directives

Reading the tokens that say something about a node or about a whole document. All of them stand on
one line.
-/

namespace SyntaxTrees.Yaml

open Text (hexDigit? naturalOf)

/-- The name of an anchor or an alias, after the mark that introduces it. -/
def scanAnchor (cs : List Char) (m : Mark) : Option (Scanned String) :=
  let name := cs.takeWhile isNameChar
  let rest := cs.dropWhile isNameChar
  let ends := startsGap rest ||
    rest.head?.any fun c => ['?', ':', ',', ']', '\x7d', '%', '@', '\x60'].contains c
  if name.isEmpty || !ends then none
  else some ⟨.ofList name, m.right name.length, rest⟩

/-! ## Tags -/

/-- A character of a tag that stands for itself. Commas and brackets belong only to tags that are
written out in full. -/
def isTagChar (inFull : Bool) (c : Char) : Bool :=
  isNameChar c
    || [';', '/', '?', ':', '@', '&', '=', '+', '$', '.', '!', '~', '*', '\'', '(', ')'].contains c
    || (inFull && [',', '[', ']'].contains c)

/-- How many bytes a character takes whose first byte is given. -/
def byteCount? (b : Nat) : Option Nat :=
  if b < 0x80 then some 1
  else if b / 0x20 = 6 then some 2
  else if b / 0x10 = 14 then some 3
  else if b / 8 = 30 then some 4
  else none

/-- The bytes of a tag, latest first, after those in `kept`, and the number of characters that
spell them, after `count`. A byte may be spelt by a percent sign and two digits; `missing` more
bytes of the same character have to be spelt so. -/
def scanTagBytes (inFull : Bool) : List Char → (missing count : Nat) → Bytes →
    Option ((Bytes × Nat) × List Char)
  | '%' :: a :: b :: rest, missing, count, kept =>
    match hexDigit? a, hexDigit? b with
    | some x, some y =>
      let byte := x * 16 + y
      match missing with
      | 0 =>
        match byteCount? byte with
        | some n => scanTagBytes inFull rest (n - 1) (count + 3) (.ofNat byte :: kept)
        | none => none
      | missing + 1 =>
        if byte / 0x40 = 2 then scanTagBytes inFull rest missing (count + 3) (.ofNat byte :: kept)
        else none
    | _, _ => none
  | c :: rest, missing, count, kept =>
    if missing ≠ 0 || c = '%' then none
    else if isTagChar inFull c then
      scanTagBytes inFull rest 0 (count + 1) ((Utf8.encode c.toString).reverse ++ kept)
    else some ((kept, count), c :: rest)
  | [], missing, count, kept => if missing = 0 then some ((kept, count), []) else none

/-- Some bytes, of which a zero byte ends what counts. -/
def tagOf (latestFirst : Bytes) : Bytes := latestFirst.reverse.takeWhile (· != 0)

/-- The suffix of a tag, at least one character long. -/
def scanSuffix (inFull : Bool) (cs : List Char) (m : Mark) : Option (Scanned Bytes) := do
  let ((bytes, count), rest) ← scanTagBytes inFull cs 0 0 []
  if count = 0 then none else return ⟨tagOf bytes, m.right count, rest⟩

/-- A tag written out in full, after the opening angle bracket. -/
def scanFullTag (cs : List Char) (m : Mark) : Option (Scanned (String × Bytes)) := do
  let suffix ← scanSuffix true cs m
  match suffix.rest with
  | '>' :: rest => return ⟨("", suffix.value), suffix.mark.right 1, rest⟩
  | _ => none

/-- A tag, after its exclamation mark: written out in full, a suffix behind a named handle, or a
suffix behind the plain handle. The exclamation mark alone is a tag, too. -/
def scanTag (cs : List Char) (m : Mark) : Option (Scanned (String × Bytes)) :=
  match cs with
  | '<' :: rest => scanFullTag rest (m.right 1)
  | _ =>
    let name := cs.takeWhile isNameChar
    match cs.dropWhile isNameChar with
    | '!' :: rest => do
      let suffix ← scanSuffix false rest (m.right (name.length + 1))
      return ⟨("!" ++ .ofList name ++ "!", suffix.value), suffix.mark, suffix.rest⟩
    | _ => do
      let ((bytes, count), rest) ← scanTagBytes false cs 0 0 []
      let value := if (tagOf bytes).isEmpty then ("", Utf8.encode "!") else ("!", tagOf bytes)
      return ⟨value, m.right count, rest⟩

/-! ## Directives -/

def scanVersionPart (cs : List Char) : Option (Nat × List Char) :=
  let digits := cs.takeWhile Char.isDigit
  if digits.isEmpty || 9 < digits.length then none
  else some (naturalOf digits, cs.dropWhile Char.isDigit)

def scanVersion (cs : List Char) : Option (Token × List Char) := do
  let (major, rest) ← scanVersionPart (cs.dropWhile isBlank)
  match rest with
  | '.' :: rest =>
    let (minor, rest) ← scanVersionPart rest
    return (.version major minor, rest)
  | _ => none

def scanHandle : List Char → Option (String × List Char)
  | '!' :: cs =>
    let name := cs.takeWhile isNameChar
    match cs.dropWhile isNameChar with
    | '!' :: rest => some ("!" ++ .ofList name ++ "!", rest)
    | rest => if name.isEmpty then some ("!", rest) else none
  | _ => none

def scanTagHandle (cs : List Char) : Option (Token × List Char) := do
  let (handle, rest) ← scanHandle (cs.dropWhile isBlank)
  if rest.head?.any isBlank then
    let meaning ← scanSuffix true (rest.dropWhile isBlank) {}
    if startsGap meaning.rest then return (.tagHandle handle meaning.value, meaning.rest) else none
  else none

def scanDirective (cs : List Char) (m : Mark) : Option (Scanned Token) := do
  let name := cs.takeWhile isNameChar
  let rest := cs.dropWhile isNameChar
  if !startsGap rest then none
  else
    let (token, rest) ←
      if name = ['Y', 'A', 'M', 'L'] then scanVersion rest
      else if name = ['T', 'A', 'G'] then scanTagHandle rest
      else none
    return ⟨token, m.nextLine, ← skipLine? rest⟩

end SyntaxTrees.Yaml

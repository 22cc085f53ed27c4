import SyntaxTrees.Yaml.Native.Token.Block
import SyntaxTrees.Yaml.Native.Token.Name
import SyntaxTrees.Yaml.Native.Token.Flow

/-!
# Reading tokens

`tokens?` splits a text into tokens. Outside of brackets and braces the columns of the open blocks
are kept on a stack: a token further to the right than the innermost opens a block, one further to
the left closes blocks. A colon may turn what was read before it on the same line into a key, so
the place where a key could start is remembered for every level of brackets.
-/

namespace SyntaxTrees.Yaml

/-- A place where a key may have started. -/
structure KeyPlace where
  /-- The number of tokens before it. -/
  index : Nat
  mark : Mark
  /-- Nothing but a key can start there, so that a colon has to follow. -/
  required : Bool
deriving DecidableEq, Repr

/-- A key is at most this many bytes long. -/
def maxKeyLength : Nat := 1024

/-- A key that starts at the place may end at another one. -/
def KeyPlace.reaches (k : KeyPlace) (m : Mark) : Bool :=
  k.mark.line == m.line && m.offset ≤ k.mark.offset + maxKeyLength

/-- A point between two tokens. -/
structure Cursor where
  rest : List Char
  mark : Mark := {}
  /-- The tokens so far, latest first. -/
  tokens : List Token := []
  /-- The number of tokens so far. -/
  count : Nat := 0
  /-- The columns of the open blocks, innermost first. -/
  blocks : List Nat := []
  /-- Where a key may have started on the innermost level of brackets. -/
  key : Option KeyPlace := none
  /-- The same for the levels around it, innermost first. -/
  outer : List (Option KeyPlace) := []
  /-- A key may start here. -/
  allowsKey : Bool := true
deriving DecidableEq, Repr

namespace Cursor

def inFlow (s : Cursor) : Bool := !s.outer.isEmpty

/-- The least column that lies inside the innermost block. -/
def innerColumn (s : Cursor) : Nat :=
  match s.blocks with
  | [] => 0
  | column :: _ => column + 1

def push (s : Cursor) (t : Token) : Cursor :=
  { s with tokens := t :: s.tokens, count := s.count + 1 }

def insert (s : Cursor) (index : Nat) (t : Token) : Cursor :=
  { s with tokens := s.tokens.insertIdx (s.count - index) t, count := s.count + 1 }

def skip (s : Cursor) (n : Nat) : Cursor := { s with rest := s.rest.drop n, mark := s.mark.right n }

def jump {α : Type} (s : Cursor) (r : Scanned α) : Cursor :=
  { s with rest := r.rest, mark := r.mark }

/-! ## Between tokens -/

/-- Passes over blanks, line breaks and comments. A tab may not stand where a key could. A byte
order mark at the start of a line is passed over, too, and takes a column. -/
def skipGap (inFlow : Bool) : (inComment allowsKey : Bool) → List Char → Mark →
    List Char × Mark × Bool
  | _, allowsKey, [], m => ([], m, allowsKey)
  | inComment, allowsKey, c :: rest, m =>
    if isBreak c then skipGap inFlow false (allowsKey || !inFlow) rest (m.after c)
    else if inComment || c = ' ' || (c = '\t' && (inFlow || !allowsKey))
        || (c = byteOrderMark && m.column = 0) then
      skipGap inFlow inComment allowsKey rest (m.after c)
    else if c = '#' then skipGap inFlow true allowsKey rest (m.after c)
    else (c :: rest, m, allowsKey)

def toToken (s : Cursor) : Cursor :=
  let (rest, mark, allowsKey) := skipGap s.inFlow false s.allowsKey s.rest s.mark
  { s with rest, mark, allowsKey }

/-! ## Blocks -/

/-- Closes the blocks that satisfy a condition on their columns, up to the first that does not. -/
def closeBlocks (s : Cursor) (p : Nat → Bool) : Cursor :=
  if s.inFlow then s
  else
    let closed := s.blocks.takeWhile p
    { s with
      tokens := closed.map (fun _ => .blockEnd) ++ s.tokens
      count := s.count + closed.length
      blocks := s.blocks.dropWhile p }

def opensBlock (s : Cursor) (column : Nat) : Bool := !s.inFlow && s.innerColumn ≤ column

/-- Opens a block at a column if it lies far enough to the right, with the token before the one
that has the given index. -/
def openBlock (s : Cursor) (column index : Nat) (t : Token) : Cursor :=
  if s.opensBlock column then { s.insert index t with blocks := column :: s.blocks } else s

/-! ## Keys -/

def dropKey (s : Cursor) : Option Cursor :=
  if s.key.any (·.required) then none else some { s with key := none }

/-- A key may start here. It has to, if a key of the innermost block is due. -/
def markKey (s : Cursor) : Option Cursor :=
  if s.allowsKey then do
    let required := !s.inFlow && s.blocks.head? == some s.mark.column
    return { ← s.dropKey with key := some ⟨s.count, s.mark, required⟩ }
  else some s

/-! ## One token -/

/-- What delimits documents or speaks about them closes everything. -/
def atDocument (s : Cursor) : Option Cursor := do
  return { ← (s.closeBlocks fun _ => true).dropKey with allowsKey := false }

def readDirective (s : Cursor) : Option Cursor := do
  let s ← s.atDocument
  let r ← scanDirective (s.rest.drop 1) (s.mark.right 1)
  return (s.jump r).push r.value

def readDelimiter (s : Cursor) (t : Token) : Option Cursor := do
  return ((← s.atDocument).skip 3).push t

def readOpening (s : Cursor) (t : Token) : Option Cursor := do
  let s ← s.markKey
  return { (s.skip 1).push t with key := none, outer := s.key :: s.outer, allowsKey := true }

def readClosing (s : Cursor) (t : Token) : Option Cursor := do
  let s := { (← s.dropKey) with allowsKey := false }
  match s.outer with
  | [] => return (s.skip 1).push t
  | key :: outer => return { (s.skip 1).push t with key, outer }

def readComma (s : Cursor) : Option Cursor := do
  return { ((← s.dropKey).skip 1).push .comma with allowsKey := true }

/-- A hyphen before an item. -/
def readItem (s : Cursor) : Option Cursor := do
  if !s.inFlow && !s.allowsKey then none
  else
    let s ← (s.openBlock s.mark.column s.count .blockSequence).dropKey
    return { (s.skip 1).push .item with allowsKey := true }

/-- A question mark before a key. -/
def readKey (s : Cursor) : Option Cursor := do
  if !s.inFlow && !s.allowsKey then none
  else
    let s ← (s.openBlock s.mark.column s.count .blockMapping).dropKey
    return { (s.skip 1).push .key with allowsKey := !s.inFlow }

/-- A colon before a value that belongs to what was read before it. -/
def readValueOf (s : Cursor) (k : KeyPlace) : Cursor :=
  let s := (s.insert k.index .key).openBlock k.mark.column k.index .blockMapping
  { (s.skip 1).push .value with key := none, allowsKey := false }

/-- A colon before a value of its own. -/
def readLoneValue (s : Cursor) : Option Cursor :=
  if !s.inFlow && !s.allowsKey then none
  else
    let s := s.openBlock s.mark.column s.count .blockMapping
    some { (s.skip 1).push .value with allowsKey := !s.inFlow }

def readValue (s : Cursor) : Option Cursor :=
  match s.key with
  | some k => if k.reaches s.mark then some (s.readValueOf k) else s.dropKey.bind readLoneValue
  | none => s.readLoneValue

def readAnchor (s : Cursor) (t : String → Token) : Option Cursor := do
  let s ← s.markKey
  let r ← scanAnchor (s.rest.drop 1) (s.mark.right 1)
  return { (s.jump r).push (t r.value) with allowsKey := false }

def readTag (s : Cursor) : Option Cursor := do
  let s ← s.markKey
  let r ← scanTag (s.rest.drop 1) (s.mark.right 1)
  if startsGap r.rest || (s.inFlow && r.rest.head? == some ',') then
    return { (s.jump r).push (.tag r.value.1 r.value.2) with allowsKey := false }
  else none

def readBlock (s : Cursor) (style : ScalarStyle) : Option Cursor := do
  let s ← s.dropKey
  let ((chomp, given), rest) ← scanHead (s.rest.drop 1)
  let rest ← skipLine? rest
  let indent := if given = 0 then 0 else s.blocks.headD 0 + given
  let r ← scanBlock style chomp s.innerColumn rest s.mark.nextLine { indent }
  return { (s.jump r).push (.scalar style r.value) with allowsKey := true }

def readQuoted (s : Cursor) (style : ScalarStyle)
    (scan : List Char → Mark → Option (Scanned String)) : Option Cursor := do
  let s ← s.markKey
  let r ← scan (s.rest.drop 1) (s.mark.right 1)
  return { (s.jump r).push (.scalar style r.value) with allowsKey := false }

/-- A plain scalar. After a line break a key may start again. -/
def readPlain (s : Cursor) : Option Cursor := do
  let s ← s.markKey
  let r ← scanPlain s.inFlow s.innerColumn s.rest s.mark .none []
  return { (s.jump r).push (.scalar .plain r.value.1) with allowsKey := r.value.2 }

def startsPlain (s : Cursor) (c : Char) (rest : List Char) : Bool :=
  if c = '-' then !rest.head?.any isBlank
  else if c = '?' || c = ':' then !s.inFlow && !startsGap rest
  else !(isGap c || isFlowIndicator c
    || ['#', '&', '*', '!', '|', '>', '\'', '"', '%', '@', '\x60'].contains c)

/-- Reads the token that starts with the given character. -/
def readToken (s : Cursor) (c : Char) (rest : List Char) : Option Cursor :=
  if s.mark.column = 0 && c = '%' then s.readDirective
  else if atDelimiter s.mark (c :: rest) then
    s.readDelimiter (if c = '-' then .documentStart else .documentEnd)
  else if c = '[' then s.readOpening .flowSequence
  else if c = '\x7b' then s.readOpening .flowMapping
  else if c = ']' then s.readClosing .flowSequenceEnd
  else if c = '\x7d' then s.readClosing .flowMappingEnd
  else if c = ',' then s.readComma
  else if c = '-' && startsGap rest then s.readItem
  else if c = '?' && (s.inFlow || startsGap rest) then s.readKey
  else if c = ':' && (s.inFlow || startsGap rest) then s.readValue
  else if c = '*' then s.readAnchor .alias
  else if c = '&' then s.readAnchor .anchor
  else if c = '!' then s.readTag
  else if c = '|' && !s.inFlow then s.readBlock .literal
  else if c = '>' && !s.inFlow then s.readBlock .folded
  else if c = '\'' then s.readQuoted .single (scanSingle · · .none [])
  else if c = '"' then s.readQuoted .double (scanDouble · · .none .none [])
  else if s.startsPlain c rest then s.readPlain
  else none

/-! ## The whole text -/

def finish (s : Cursor) : Option (List Token) := do
  return (← (s.closeBlocks fun _ => true).dropKey).tokens.reverse

/-- Reads tokens up to the end of the text, at most as many as there is fuel for. Every token but
those that indentation implies takes a character at least, so that more fuel than characters is
never used up. -/
def run : (fuel : Nat) → Cursor → Option (List Token)
  | 0, _ => none
  | fuel + 1, s =>
    let s := s.toToken
    let s := s.closeBlocks (s.mark.column < ·)
    match s.rest with
    | [] => s.finish
    | c :: rest =>
      match s.readToken c rest with
      | some s => run fuel s
      | none => none

end Cursor

def tokens? (cs : List Char) : Option (List Token) :=
  if cs.all isAllowed then
    let cs := unifyBreaks cs
    Cursor.run (cs.length + 1) { rest := cs }
  else none

end SyntaxTrees.Yaml

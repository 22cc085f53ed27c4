import SyntaxTrees.Json.Basic
import SyntaxTrees.Yaml.Native.Style

/-!
# Texts of data

`writeScalar` spells a text in the style that `styleOf` chooses for it. Lines after the first are
indented by one step more than the block that the scalar belongs to. Lists and records are written in
blocks, one line for each part, unless they are empty; the items of a list stand in the column of the
key above them.
-/

namespace SyntaxTrees.Yaml

open Text (upperHex)

/-- The number of columns by which a block is indented against the one around it. -/
def indentStep : Nat := 2

def spaces (n : Nat) : List Char := List.replicate n ' '

/-- A text between apostrophes from some point on: an apostrophe is written twice, and a line that
is not empty starts with the indentation. -/
def writeSingle (pad : List Char) : (lineStart : Bool) → List Char → List Char
  | lineStart, [] => (if lineStart then pad else []) ++ ['\'']
  | lineStart, c :: cs =>
    if isBreak c then c :: writeSingle pad true cs
    else
      (if lineStart then pad else []) ++ (if c = '\'' then ['\'', '\''] else [c])
        ++ writeSingle pad false cs

/-- The letter that stands for a character after a backslash. -/
def escapeLetter? (c : Char) : Option Char :=
  match c.toNat with
  | 0 => some '0'
  | 7 => some 'a'
  | 8 => some 'b'
  | 9 => some 't'
  | 10 => some 'n'
  | 11 => some 'v'
  | 12 => some 'f'
  | 13 => some 'r'
  | 27 => some 'e'
  | 34 => some '"'
  | 92 => some '\\'
  | 0x85 => some 'N'
  | 0xA0 => some '_'
  | 0x2028 => some 'L'
  | 0x2029 => some 'P'
  | _ => none

def escapeChar (c : Char) : List Char :=
  match escapeLetter? c with
  | some e => ['\\', e]
  | none =>
    if c.toNat < 0x100 then '\\' :: 'x' :: upperHex 2 c.toNat
    else if c.toNat < 0x10000 then '\\' :: 'u' :: upperHex 4 c.toNat
    else '\\' :: 'U' :: upperHex 8 c.toNat

def doubleChar (c : Char) : List Char :=
  if !isPrintable c || isBreak c || c = '"' || c = '\\' then escapeChar c else [c]

def writeDouble (cs : List Char) : List Char := '"' :: (cs.flatMap doubleChar ++ ['"'])

/-- What the head of a literal scalar says about the line breaks at its end: a minus if there is
none, a plus if there are several or nothing else. -/
def chompMark (cs : List Char) : List Char :=
  match cs.reverse with
  | [] => ['-']
  | c :: rest =>
    if !isBreak c then ['-']
    else match rest with
      | [] => ['+']
      | b :: _ => if isBreak b then ['+'] else []

/-- The head of a literal scalar names its indentation if the first line does not show it. -/
def indentMark (cs : List Char) : List Char :=
  if cs.head?.any fun c => isSpace c || isBreak c then [Nat.digitChar indentStep] else []

def writeLines (pad : List Char) : (lineStart : Bool) → List Char → List Char
  | lineStart, [] => if lineStart then [] else ['\n']
  | lineStart, c :: cs =>
    if isBreak c then c :: writeLines pad true cs
    else (if lineStart then pad else []) ++ c :: writeLines pad false cs

def writeLiteral (pad : List Char) (cs : List Char) : List Char :=
  '|' :: (indentMark cs ++ chompMark cs ++ '\n' :: writeLines pad true cs)

/-- A scalar in a block that starts at the given column, with the end of its last line. -/
def writeScalar (column : Nat) (cs : List Char) : List Char :=
  let pad := spaces (column + indentStep)
  match styleOf cs with
  | .plain => cs ++ ['\n']
  | .single => '\'' :: (writeSingle pad false cs ++ ['\n'])
  | .double => writeDouble cs ++ ['\n']
  | .literal | .folded => writeLiteral pad cs

/-! ## Blocks -/

def writeLeaf (column : Nat) : Json → List Char
  | .null => "null\n".toList
  | .flag b => (if b then "true\n" else "false\n").toList
  | .number spelling => spelling.toList ++ ['\n']
  | .text s => writeScalar column s.toList
  | .array _ => "[]\n".toList
  | .object _ => "\x7b\x7d\n".toList

mutual

/-- The lines of a record in a block at the column. Keys are the names of fields and stand bare. -/
def writeMembers (column : Nat) : List (String × Json) → List Char
  | [] => []
  | (key, value) :: rest =>
    spaces column ++ (key.toList ++ ':' :: writeValue column value) ++ writeMembers column rest

/-- What follows a key and its colon. -/
def writeValue (column : Nat) : Json → List Char
  | .array items =>
    if items.isEmpty then ' ' :: writeLeaf column (.array []) else '\n' :: writeItems column items
  | .object members =>
    if members.isEmpty then ' ' :: writeLeaf column (.object [])
    else '\n' :: writeMembers (column + indentStep) members
  | j => ' ' :: writeLeaf column j

/-- The lines of a list in a block at the column. -/
def writeItems (column : Nat) : List Json → List Char
  | [] => []
  | item :: rest => spaces column ++ '-' :: ' ' :: writeItem column item ++ writeItems column rest

/-- What follows a hyphen. The first part of a list or record stands on its line. -/
def writeItem (column : Nat) : Json → List Char
  | .array (item :: rest) =>
    '-' :: ' ' :: writeItem (column + indentStep) item ++ writeItems (column + indentStep) rest
  | .object ((key, value) :: rest) =>
    key.toList ++ ':' :: writeValue (column + indentStep) value
      ++ writeMembers (column + indentStep) rest
  | j => writeLeaf column j

end

def print (j : Json) : String :=
  .ofList <| match j with
    | .array (item :: rest) => writeItems 0 (item :: rest)
    | .object (member :: rest) => writeMembers 0 (member :: rest)
    | j => writeLeaf 0 j

end SyntaxTrees.Yaml

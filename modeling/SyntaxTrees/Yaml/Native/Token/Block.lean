import SyntaxTrees.Text.Digits
import SyntaxTrees.Yaml.Native.Token.Basic

/-!
# Block scalars

Reading a scalar that lies on lines of its own. Its head says whether line breaks are kept, what
becomes of those at the end, and perhaps how far the lines are indented; if not, the first line
that is not empty decides.
-/

namespace SyntaxTrees.Yaml

/-- What becomes of the line breaks at the end of a block scalar. -/
inductive Chomp where
  | strip
  /-- Only the first stays. -/
  | clip
  | keep
deriving DecidableEq, Repr

/-- The mark in the head of a block scalar for what becomes of the line breaks at its end. -/
def chomp? : Char → Option Chomp
  | '+' => some .keep
  | '-' => some .strip
  | _ => none

/-- A digit in the head of a block scalar, which is not zero. -/
def blockIndent? (c : Char) : Option Nat :=
  if c.isDigit && c != '0' then some (Text.digitValue c) else none

/-- The marks in the head of a block scalar, in either order, and what follows them. An indentation
that is not given is zero. -/
def scanHead : List Char → Option ((Chomp × Nat) × List Char)
  | [] => some ((.clip, 0), [])
  | c :: rest =>
    match chomp? c with
    | some chomp =>
      match rest with
      | d :: rest' =>
        if d.isDigit then (blockIndent? d).map fun n => ((chomp, n), rest')
        else some ((chomp, 0), rest)
      | [] => some ((chomp, 0), [])
    | none =>
      if c.isDigit then
        (blockIndent? c).map fun n =>
          match rest with
          | e :: rest' =>
            match chomp? e with
            | some chomp => ((chomp, n), rest')
            | none => ((.clip, n), rest)
          | [] => ((.clip, n), [])
      else some ((.clip, 0), c :: rest)

structure BlockPart where
  /-- The column of its lines; zero until it is known. -/
  indent : Nat
  /-- The widest indentation of an empty line. -/
  widest : Nat := 0
  /-- The text so far, latest first. -/
  kept : List Char := []
  /-- The line break after the last line. -/
  lineEnd : Option Char := none
  /-- The line breaks after that, latest first. -/
  emptyLines : List Char := []
  /-- The last line started with a blank. -/
  indented : Bool := false
  /-- Inside a line, and not between two lines. -/
  inLine : Bool := false
deriving DecidableEq, Repr

namespace BlockPart

/-- The first character of a line. When line breaks are folded, a single one between two lines that
start with no blank becomes a space, and of several the first is dropped. -/
def startLine (b : BlockPart) (style : ScalarStyle) (c : Char) : BlockPart :=
  let folds := style = .folded && b.lineEnd = some '\n' && !b.indented && !isBlank c
  let broken :=
    if folds then if b.emptyLines.isEmpty then ' ' :: b.kept else b.kept
    else b.lineEnd.toList ++ b.kept
  { b with
    kept := c :: (b.emptyLines ++ broken)
    lineEnd := none
    emptyLines := []
    indented := isBlank c
    inLine := true }

def text (b : BlockPart) (chomp : Chomp) : String :=
  .ofList <| List.reverse <|
    match chomp with
    | .strip => b.kept
    | .clip => b.lineEnd.toList ++ b.kept
    | .keep => b.emptyLines ++ (b.lineEnd.toList ++ b.kept)

/-- The place may still belong to the indentation. -/
def inIndent (b : BlockPart) (m : Mark) : Bool := b.indent = 0 || m.column < b.indent

/-- The column of the lines, when the first line that is not empty starts at a place. `least` is the
least that there can be. -/
def settledIndent (b : BlockPart) (least : Nat) (m : Mark) : Nat :=
  if b.indent = 0 then max (max b.widest m.column) (max least 1) else b.indent

end BlockPart

def scanBlock (style : ScalarStyle) (chomp : Chomp) (least : Nat) :
    List Char → Mark → BlockPart → Option (Scanned String)
  | [], m, b => some ⟨b.text chomp, m, []⟩
  | c :: rest, m, b =>
    if b.inLine then
      if isBreak c then
        scanBlock style chomp least rest (m.after c) { b with lineEnd := some c, inLine := false }
      else scanBlock style chomp least rest (m.after c) { b with kept := c :: b.kept }
    else if c = ' ' && b.inIndent m then scanBlock style chomp least rest (m.after c) b
    else if c = '\t' && b.inIndent m then none
    else if isBreak c then
      scanBlock style chomp least rest (m.after c)
        { b with widest := max b.widest m.column, emptyLines := c :: b.emptyLines }
    else
      let indent := b.settledIndent least m
      if m.column = indent then
        scanBlock style chomp least rest (m.after c) ({ b with indent }.startLine style c)
      else some ⟨b.text chomp, m, c :: rest⟩

end SyntaxTrees.Yaml

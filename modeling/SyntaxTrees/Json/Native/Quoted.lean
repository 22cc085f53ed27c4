import SyntaxTrees.Json.Basic

/-!
# Quoted texts in JSON

How a text is written between quotation marks, and the automaton that reads it back. A character
beyond the first 65536 may be spelt as two escapes, a high and a low half. A lenient reader, which
does not want the text, accepts either half alone.
-/

namespace SyntaxTrees.Json

def controlDigits (c : Char) : List Char :=
  ['0', '0', Nat.digitChar (c.toNat / 16), Nat.digitChar (c.toNat % 16)]

def quoteChar (c : Char) : List Char :=
  if c = '"' then ['\\', '"']
  else if c = '\\' then ['\\', '\\']
  else if c.toNat = 8 then ['\\', 'b']
  else if c.toNat = 12 then ['\\', 'f']
  else if c = '\n' then ['\\', 'n']
  else if c = '\r' then ['\\', 'r']
  else if c = '\t' then ['\\', 't']
  else if c.toNat < 32 then '\\' :: 'u' :: controlDigits c
  else [c]

/-- A text between quotation marks. -/
def quote (s : String) : List Char := '"' :: (s.toList.flatMap quoteChar ++ ['"'])

inductive QuotedPart where
  | plain
  | escape
  /-- Inside the digits of an escape, latest first; `high` is a first half that came before. -/
  | digits (high : Option Nat) (read : List Char)
  /-- A first half waits for the backslash of the second. -/
  | halfBackslash (high : Nat)
  /-- A first half waits for the letter after that backslash. -/
  | halfLetter (high : Nat)
deriving DecidableEq, Repr

/-- What a further character means for a quoted text whose characters, latest first, are kept. -/
inductive QuotedStep where
  | more (part : QuotedPart) (kept : List Char)
  | complete (kept : List Char)
  | broken
deriving DecidableEq, Repr

def byteCount : List Char → Nat
  | [] => 0
  | c :: rest => c.utf8Size + byteCount rest

/-- The digits of an escape are complete. -/
def stepUnit (lenient : Bool) (high : Option Nat) (kept : List Char) (n : Nat) : QuotedStep :=
  if lenient then .more .plain kept
  else match high with
    | some h =>
      if isLowHalf n then
        .more .plain (.ofNat (0x10000 + (h - 0xD800) * 0x400 + (n - 0xDC00)) :: kept)
      else .broken
    | none =>
      if isLowHalf n then .broken
      else if isHighHalf n then .more (.halfBackslash n) kept
      else .more .plain (.ofNat n :: kept)

/-- The automaton of quoted texts. Escape digits are looked at once four bytes are there. -/
def QuotedPart.step (lenient : Bool) (part : QuotedPart) (kept : List Char) (c : Char) :
    QuotedStep :=
  match part with
  | plain =>
    if c = '"' then .complete kept
    else if c = '\\' then .more escape kept
    else if c.toNat < 32 then .broken
    else .more plain (c :: kept)
  | escape =>
    if c = 'u' then .more (digits none []) kept
    else match escaped? c with
      | some e => .more plain (e :: kept)
      | none => .broken
  | digits high read =>
    let read := c :: read
    if byteCount read < 4 then .more (digits high read) kept
    else match hexValue? read with
      | some n => stepUnit lenient high kept n
      | none => .broken
  | halfBackslash high => if c = '\\' then .more (halfLetter high) kept else .broken
  | halfLetter high => if c = 'u' then .more (digits (some high) []) kept else .broken

end SyntaxTrees.Json

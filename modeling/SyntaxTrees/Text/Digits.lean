/-!
# Digits and the numbers they spell
-/

namespace SyntaxTrees.Text

def digitValue (c : Char) : Nat := c.toNat - '0'.toNat

def naturalOf (digits : List Char) : Nat :=
  digits.foldl (fun n c => n * 10 + digitValue c) 0

def hexDigit? (c : Char) : Option Nat :=
  if c.isDigit then some (digitValue c)
  else if 'a' ≤ c && c ≤ 'f' then some (c.toNat - 'a'.toNat + 10)
  else if 'A' ≤ c && c ≤ 'F' then some (c.toNat - 'A'.toNat + 10)
  else none

/-- Appends digits of a base up to sixteen to a number. -/
def appendDigits? (base : Nat) (n : Nat) : List Char → Option Nat
  | [] => some n
  | c :: rest => do
    let d ← hexDigit? c
    if d < base then appendDigits? base (n * base + d) rest else none

def digits? (base : Nat) (cs : List Char) : Option Nat :=
  if cs.isEmpty then none else appendDigits? base 0 cs

/-- Hexadecimal digits in upper case, as many as asked for, of the lowest part of a number. -/
def upperHex : (width : Nat) → Nat → List Char
  | 0, _ => []
  | width + 1, n => upperHex width (n / 16) ++ [(Nat.digitChar (n % 16)).toUpper]

/-- From here on a number does not fit into a machine word. -/
def wordLimit : Nat := 0x10000000000000000

/-- From here on a number rounds to no finite double. -/
def infiniteFrom : Nat := Nat.pow 2 1024 - Nat.pow 2 970

end SyntaxTrees.Text

import SyntaxTrees.Json.Basic

/-!
# JSON numerals

`NumeralPart.step` is the automaton of the grammar of numbers. A complete numeral may still name a
number that no double comes near: `isTooLarge` decides that in exact arithmetic, from the digits
that fit into a machine word and the power of ten that the others contribute.
-/

namespace SyntaxTrees.Json

open Text (digitValue naturalOf wordLimit infiniteFrom)

/-- How far a numeral has been read. -/
inductive NumeralPart where
  | sign
  | zero
  | whole
  | point
  | fraction
  | exponent
  | exponentSign
  | exponentDigits
deriving DecidableEq, Repr

/-- What a further character means for a numeral. -/
inductive NumeralStep where
  /-- The character belongs to it. -/
  | more (part : NumeralPart)
  /-- The numeral ended before the character. -/
  | complete
  /-- Neither the numeral so far nor the numeral with the character is one. -/
  | broken
deriving DecidableEq, Repr

namespace NumeralPart

def opensExponent (c : Char) : Bool := c == 'e' || c == 'E'

def step (part : NumeralPart) (c : Char) : NumeralStep :=
  match part with
  | sign => if c == '0' then .more zero else if c.isDigit then .more whole else .broken
  | zero =>
    if c.isDigit then .broken
    else if c == '.' then .more point
    else if opensExponent c then .more exponent
    else .complete
  | whole =>
    if c.isDigit then .more whole
    else if c == '.' then .more point
    else if opensExponent c then .more exponent
    else .complete
  | point => if c.isDigit then .more fraction else .broken
  | fraction =>
    if c.isDigit then .more fraction
    else if opensExponent c then .more exponent
    else .complete
  | exponent =>
    if c == '+' || c == '-' then .more exponentSign
    else if c.isDigit then .more exponentDigits
    else .broken
  | exponentSign => if c.isDigit then .more exponentDigits else .broken
  | exponentDigits => if c.isDigit then .more exponentDigits else .complete

def isComplete : NumeralPart → Bool
  | zero | whole | fraction | exponentDigits => true
  | _ => false

end NumeralPart

/-- Appends digits to a number as long as it fits into a word, and counts those left over. -/
def takeDigits (n : Nat) : List Char → Nat × Nat
  | [] => (n, 0)
  | c :: rest =>
    if n * 10 + digitValue c < wordLimit then takeDigits (n * 10 + digitValue c) rest
    else (n, rest.length + 1)

/-- The nearest number with at most 53 significant bits; a tie goes to the even one. -/
def roundToDouble (n : Nat) : Nat :=
  if n < Nat.pow 2 53 then n
  else
    let unit := Nat.pow 2 (n.log2 - 52)
    let q := n / unit
    let r := n % unit
    (if unit < 2 * r ∨ (unit = 2 * r ∧ q % 2 = 1) then q + 1 else q) * unit

/-- A numeral, cut at its marks, names a number beyond the finite doubles. The digits that fit
into a word are rounded to a double, and so is the power of ten that they are multiplied by. -/
def isTooLarge (numeral : List Char) : Bool :=
  let unsigned := numeral.dropWhile (· == '-')
  let whole := unsigned.takeWhile Char.isDigit
  let rest := unsigned.dropWhile Char.isDigit
  let fraction := if rest.head? == some '.' then (rest.drop 1).takeWhile Char.isDigit else []
  let mark := rest.dropWhile fun c => c.isDigit || c == '.'
  let exponent := naturalOf (mark.filter Char.isDigit)
  let (wholeValue, wholeLeft) := takeDigits 0 whole
  let (value, fractionLeft) := takeDigits wholeValue fraction
  let shift : Int := wholeLeft - (fraction.length - fractionLeft : Nat)
  let power : Int := if mark.contains '-' then shift - exponent else shift + exponent
  value != 0 && 0 ≤ power &&
    (308 < power || infiniteFrom ≤ roundToDouble value * roundToDouble (Nat.pow 10 power.toNat))

end SyntaxTrees.Json

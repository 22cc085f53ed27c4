import SyntaxTrees.Text.Digits

/-!
# Texts that look like numbers

A plain scalar that spells a number may be taken for one, so a writer has to quote it.
`looksNumeric` recognises decimal numerals that name a finite double, digits in one of the marked
bases that fit into 128 bits, the names of infinity and of the undefined number, and any digits
after a leading zero, which readers disagree about.
-/

namespace SyntaxTrees.Yaml

open Text (digits? naturalOf infiniteFrom)

def isSign (c : Char) : Bool := c == '+' || c == '-'

/-- The number that a base mark and digits spell. -/
def basedNatural? : List Char → Option Nat
  | '0' :: 'x' :: ds => digits? 16 ds
  | '0' :: 'o' :: ds => digits? 8 ds
  | '0' :: 'b' :: ds => digits? 2 ds
  | _ => none

/-- Digits in a marked base that fit into 128 bits. -/
def isBased : List Char → Bool
  | '-' :: cs => (basedNatural? cs).any (· ≤ Nat.pow 2 127)
  | '+' :: cs => (basedNatural? cs).any (· < Nat.pow 2 128)
  | cs => (basedNatural? cs).any (· < Nat.pow 2 128)

def isZeroLed (cs : List Char) : Bool :=
  match cs with
  | c :: rest => if isSign c then ledByZero rest else ledByZero cs
  | [] => false
where
  /-- The same for a text without a sign. -/
  ledByZero : List Char → Bool
    | '0' :: d :: rest => (d :: rest).all Char.isDigit
    | _ => false

/-- A number `mantissa * 10 ^ scale` rounds to a finite double. Far from the limit the number of
digits decides. -/
def isFinite (mantissa : Nat) (scale : Int) : Bool :=
  if mantissa = 0 then true
  else
    let size : Int := (Nat.toDigits 10 mantissa).length + scale
    if 310 < size then false
    else if size < 300 then true
    else if 0 ≤ scale then mantissa * Nat.pow 10 scale.toNat < infiniteFrom
    else mantissa < infiniteFrom * Nat.pow 10 (-scale).toNat

def exponent? : List Char → Option Int
  | [] => some 0
  | c :: rest =>
    if c != 'e' && c != 'E' then none
    else
      let digits := if rest.head?.any isSign then rest.drop 1 else rest
      if digits.isEmpty || !digits.all Char.isDigit then none
      else if rest.head? == some '-' then some (-(naturalOf digits : Int))
      else some (naturalOf digits)

/-- A decimal numeral without a sign that names a finite double. -/
def isFiniteDecimal (cs : List Char) : Bool :=
  let whole := cs.takeWhile Char.isDigit
  let rest := cs.dropWhile Char.isDigit
  let pointed := rest.head? == some '.'
  let fraction := if pointed then (rest.drop 1).takeWhile Char.isDigit else []
  let rest := if pointed then (rest.drop 1).dropWhile Char.isDigit else rest
  match exponent? rest with
  | none => false
  | some e =>
    !(whole.isEmpty && fraction.isEmpty)
      && isFinite (naturalOf (whole ++ fraction)) (e - fraction.length)

def infinityTexts : List String := [".inf", ".Inf", ".INF"]

def undefinedTexts : List String := [".nan", ".NaN", ".NAN"]

/-- A decimal numeral or a special number, perhaps signed. -/
def isDecimal : List Char → Bool
  | '+' :: cs => infinityTexts.contains (.ofList cs) || isFiniteDecimal cs
  | '-' :: cs => infinityTexts.contains (.ofList cs) || isFiniteDecimal cs
  | cs =>
    infinityTexts.contains (.ofList cs) || undefinedTexts.contains (.ofList cs)
      || isFiniteDecimal cs

/-- The text spells a number, or what some reader takes for one. -/
def looksNumeric (cs : List Char) : Bool := isBased cs || isZeroLed cs || isDecimal cs

end SyntaxTrees.Yaml

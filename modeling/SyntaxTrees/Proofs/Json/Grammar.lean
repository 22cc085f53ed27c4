import SyntaxTrees.Json.Library

/-!
# The grammar of JSON texts

`Rule.Document` says which texts are the text of a document, one constructor for each rule of
the grammar. The halves of a character beyond the first 65536 stand next to each other, so no text
has a single half. Natural numbers are printed as numerals of this grammar (`Rule.numeral_toString`).
-/

namespace SyntaxTrees.Json

namespace Rule

/-! ## The grammar -/

def Gap (cs : List Char) : Prop := ∀ c ∈ cs, isBlank c

/-- At least one decimal digit. -/
def Digits (cs : List Char) : Prop := cs ≠ [] ∧ ∀ c ∈ cs, c.isDigit

/-- The digits in front of a fraction. Only zero starts with zero. -/
def Whole (cs : List Char) : Prop := cs = ['0'] ∨ Digits cs ∧ cs.head? ≠ some '0'

def Fraction (cs : List Char) : Prop := cs = [] ∨ ∃ digits, cs = '.' :: digits ∧ Digits digits

def Exponent (cs : List Char) : Prop :=
  cs = [] ∨ ∃ mark sign digits, cs = mark :: (sign ++ digits) ∧ (mark = 'e' ∨ mark = 'E') ∧
    (sign = [] ∨ sign = ['+'] ∨ sign = ['-']) ∧ Digits digits

inductive Numeral : List Char → Prop where
  | intro {sign whole fraction exponent : List Char} (hsign : sign = [] ∨ sign = ['-'])
      (hwhole : Whole whole) (hfraction : Fraction fraction) (hexponent : Exponent exponent) :
      Numeral (sign ++ (whole ++ (fraction ++ exponent)))

/-- Four hexadecimal digits spell a code unit. -/
def CodeUnit (digits : List Char) (n : Nat) : Prop :=
  digits.length = 4 ∧ hexValue? digits.reverse = some n

/-- The spellings of a character between quotation marks. -/
inductive Character : Char → List Char → Prop where
  | plain {c : Char} (hquote : c ≠ '"') (hbackslash : c ≠ '\\') (hcontrol : 32 ≤ c.toNat) :
      Character c [c]
  | letter {c letter : Char} (h : escaped? letter = some c) : Character c ['\\', letter]
  | number {digits : List Char} {n : Nat} (h : CodeUnit digits n) (hhigh : ¬isHighHalf n)
      (hlow : ¬isLowHalf n) : Character (.ofNat n) ('\\' :: 'u' :: digits)
  | halves {first second : List Char} {high low : Nat} (hfirst : CodeUnit first high)
      (hsecond : CodeUnit second low) (hhigh : isHighHalf high) (hlow : isLowHalf low) :
      Character (.ofNat (0x10000 + (high - 0xD800) * 0x400 + (low - 0xDC00)))
        ('\\' :: 'u' :: (first ++ '\\' :: 'u' :: second))

inductive Characters : List Char → List Char → Prop where
  | none : Characters [] []
  | more {c : Char} {cs spelling rest : List Char} (h : Character c spelling)
      (hrest : Characters cs rest) : Characters (c :: cs) (spelling ++ rest)

inductive Quoted : String → List Char → Prop where
  | intro {s : String} {cs : List Char} (h : Characters s.toList cs) :
      Quoted s ('"' :: (cs ++ ['"']))

mutual

/-- The spellings of a document. -/
inductive Value : Json → List Char → Prop where
  | null : Value .null ['n', 'u', 'l', 'l']
  | yes : Value (.flag true) ['t', 'r', 'u', 'e']
  | no : Value (.flag false) ['f', 'a', 'l', 's', 'e']
  | number {spelling : String} (h : Numeral spelling.toList) :
      Value (.number spelling) spelling.toList
  | text {s : String} {cs : List Char} (h : Quoted s cs) : Value (.text s) cs
  | emptyArray {gap : List Char} (h : Gap gap) : Value (.array []) ('[' :: (gap ++ [']']))
  | array {items : List Json} {cs : List Char} (h : Items items cs) :
      Value (.array items) ('[' :: (cs ++ [']']))
  | emptyObject {gap : List Char} (h : Gap gap) : Value (.object []) ('\x7b' :: (gap ++ ['\x7d']))
  | object {members : List (String × Json)} {cs : List Char} (h : Members members cs) :
      Value (.object members) ('\x7b' :: (cs ++ ['\x7d']))

/-- The spellings of a document with white space around it: the texts of the document. -/
inductive Document : Json → List Char → Prop where
  | intro {j : Json} {before cs after : List Char} (hbefore : Gap before) (h : Value j cs)
      (hafter : Gap after) : Document j (before ++ (cs ++ after))

inductive Items : List Json → List Char → Prop where
  | last {j : Json} {cs : List Char} (h : Document j cs) : Items [j] cs
  | more {j : Json} {items : List Json} {cs rest : List Char} (h : Document j cs)
      (hrest : Items items rest) : Items (j :: items) (cs ++ ',' :: rest)

/-- The spelling of a key with its colon, and the value behind it. -/
inductive Member : String → Json → List Char → Prop where
  | intro {key : String} {j : Json} {before name after cs : List Char} (hbefore : Gap before)
      (hname : Quoted key name) (hafter : Gap after) (h : Document j cs) :
      Member key j (before ++ (name ++ (after ++ ':' :: cs)))

inductive Members : List (String × Json) → List Char → Prop where
  | last {key : String} {j : Json} {cs : List Char} (h : Member key j cs) : Members [(key, j)] cs
  | more {key : String} {j : Json} {members : List (String × Json)} {cs rest : List Char}
      (h : Member key j cs) (hrest : Members members rest) :
      Members ((key, j) :: members) (cs ++ ',' :: rest)

end

theorem gap_nil : Gap [] := nofun

/-- No white space is needed around a value. -/
theorem Value.document {j : Json} {cs : List Char} (h : Value j cs) : Document j cs := by
  have hdocument := Document.intro gap_nil h gap_nil
  rwa [List.nil_append, List.append_nil] at hdocument

/-- The character needs no escape. -/
def isPlain (c : Char) : Bool := c != '"' && c != '\\' && 32 ≤ c.toNat

theorem Characters.plain {cs : List Char} (h : cs.all isPlain) : Characters cs cs := by
  induction cs with
  | nil => exact .none
  | cons c cs ih =>
    rw [List.all_cons, Bool.and_eq_true] at h
    have hplain : (c ≠ '"' ∧ c ≠ '\\') ∧ 32 ≤ c.toNat := by
      simpa [isPlain] using h.1
    exact .more (.plain hplain.1.1 hplain.1.2 hplain.2) (ih h.2)

end Rule

/-! ## Natural numbers -/

open Text (digitValue naturalOf wordLimit)

theorem toList_toString (n : Nat) : (toString n).toList = Nat.toDigits 10 n := by
  rw [Nat.toString_eq_ofList_toDigits, String.toList_ofList]

theorem naturalOf_toDigits (n : Nat) : naturalOf (Nat.toDigits 10 n) = n := by
  have hread := Nat.ofDigitChars_ten_toDigits (n := n)
  rw [Nat.ofDigitChars] at hread
  simpa [naturalOf, digitValue, Nat.mul_comm] using hread

theorem isDigit_of_mem_toDigits {n : Nat} {c : Char} (h : c ∈ Nat.toDigits 10 n) : c.isDigit :=
  Nat.isDigit_of_mem_toDigits (by decide) (by decide) h

/-- Only zero is printed with a zero in front. -/
theorem toDigits_eq_cons {n : Nat} (h : 0 < n) :
    ∃ c rest, Nat.toDigits 10 n = c :: rest ∧ c ≠ '0' := by
  induction n using Nat.strongRecOn with
  | ind n ih =>
    by_cases hn : n < 10
    · refine ⟨n.digitChar, [], Nat.toDigits_of_lt_base hn, ?_⟩
      have hdigit : ∀ k : Fin 10, 0 < k.val → k.val.digitChar ≠ '0' := by decide
      exact hdigit ⟨n, hn⟩ h
    · -- the digits in front are those of a smaller number
      rcases ih (n / 10) (by omega) (by omega) with ⟨c, rest, hrest, hc⟩
      refine ⟨c, rest ++ [(n % 10).digitChar], ?_, hc⟩
      rw [Nat.toDigits_of_base_le (by decide) (by omega), hrest, List.cons_append]

theorem natural?_eq_some_iff {numeral : List Char} {n : Nat} :
    natural? numeral = some n ↔
      ((∀ c ∈ numeral, c.isDigit) ∧ naturalOf numeral < wordLimit) ∧ naturalOf numeral = n := by
  rw [natural?, Option.ite_none_right_eq_some, Bool.and_eq_true, List.all_eq_true,
    decide_eq_true_eq, Option.some.injEq]

theorem natural?_toString {n : Nat} (h : n < wordLimit) : natural? (toString n).toList = some n := by
  rw [natural?_eq_some_iff, toList_toString, naturalOf_toDigits]
  exact ⟨⟨fun c hc => isDigit_of_mem_toDigits hc, h⟩, rfl⟩

/-- A natural number is printed as a numeral without a fraction and an exponent. -/
theorem Rule.numeral_toString (n : Nat) : Rule.Numeral (toString n).toList := by
  have hwhole : Rule.Whole (Nat.toDigits 10 n) := by
    rcases Nat.eq_zero_or_pos n with rfl | hpos
    · exact .inl rfl
    · rcases toDigits_eq_cons hpos with ⟨c, rest, hdigits, hc⟩
      refine .inr ⟨⟨?_, fun d hd => isDigit_of_mem_toDigits hd⟩, ?_⟩
      · rw [hdigits]
        exact List.cons_ne_nil c rest
      · simpa [hdigits] using hc
  have hnumeral := Rule.Numeral.intro (.inl rfl) hwhole (.inl rfl) (.inl rfl)
  simpa [toList_toString] using hnumeral

end SyntaxTrees.Json

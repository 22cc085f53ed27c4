/-!
# Strict UTF-8

`Utf8.decode` turns bytes into characters and, when it cannot, tells at which byte the first bad
sequence starts and how many bytes of it were read before it was recognised as bad. Overlong forms,
surrogates and numbers above the last character are refused at their second byte.
-/

namespace SyntaxTrees.Utf8

/-- The first bad sequence in a list of bytes. -/
structure Fault where
  /-- The number of good bytes before it. -/
  index : Nat
  /-- How many bytes make it bad; none if the bytes end before it is complete. -/
  length : Option Nat
deriving DecidableEq, Repr

def Fault.message : Fault → String
  | ⟨index, some n⟩ => s!"invalid utf-8 sequence of {n} bytes from index {index}"
  | ⟨index, none⟩ => s!"incomplete utf-8 byte sequence from index {index}"

def between (lo hi b : UInt8) : Bool := lo ≤ b && b ≤ hi

def isTail (b : UInt8) : Bool := between 0x80 0xBF b

def tailBits (b : UInt8) : Nat := b.toNat % 64

/-- The second bytes that may follow the lead byte of a three-byte sequence. -/
def isSecondOfThree (lead b : UInt8) : Bool :=
  if lead = 0xE0 then between 0xA0 0xBF b
  else if lead = 0xED then between 0x80 0x9F b
  else isTail b

/-- The second bytes that may follow the lead byte of a four-byte sequence. -/
def isSecondOfFour (lead b : UInt8) : Bool :=
  if lead = 0xF0 then between 0x90 0xBF b
  else if lead = 0xF4 then between 0x80 0x8F b
  else isTail b

/-- Reads one character off the front: the character and the number of its bytes, or the length
of the bad sequence there, `none` if the bytes end inside it. -/
def decodeOne : List UInt8 → Except (Option Nat) (Char × Nat)
  | [] => .error none
  | a :: rest =>
    if a < 0x80 then .ok (.ofNat a.toNat, 1)
    else if between 0xC2 0xDF a then
      match rest with
      | [] => .error none
      | b :: _ =>
        if isTail b then .ok (.ofNat (a.toNat % 32 * 64 + tailBits b), 2) else .error (some 1)
    else if between 0xE0 0xEF a then
      match rest with
      | [] => .error none
      | b :: rest =>
        if !isSecondOfThree a b then .error (some 1)
        else match rest with
          | [] => .error none
          | c :: _ =>
            if isTail c then
              .ok (.ofNat (a.toNat % 16 * 4096 + tailBits b * 64 + tailBits c), 3)
            else .error (some 2)
    else if between 0xF0 0xF4 a then
      match rest with
      | [] => .error none
      | b :: rest =>
        if !isSecondOfFour a b then .error (some 1)
        else match rest with
          | [] => .error none
          | c :: rest =>
            if !isTail c then .error (some 2)
            else match rest with
              | [] => .error none
              | d :: _ =>
                if isTail d then
                  .ok (.ofNat (a.toNat % 8 * 262144 + tailBits b * 4096 + tailBits c * 64
                    + tailBits d), 4)
                else .error (some 3)
    else .error (some 1)

/-- Reads characters while `pending` bytes of the last one are still to be passed over. -/
def decodeFrom (index : Nat) (acc : List Char) :
    (pending : Nat) → List UInt8 → Except Fault (List Char)
  | _, [] => .ok acc.reverse
  | pending + 1, _ :: rest => decodeFrom (index + 1) acc pending rest
  | 0, bytes@(_ :: rest) =>
    match decodeOne bytes with
    | .ok (c, n) => decodeFrom (index + 1) (c :: acc) (n - 1) rest
    | .error length => .error ⟨index, length⟩

/-- The characters that the bytes spell, or the first bad sequence. -/
def decode (bytes : List UInt8) : Except Fault String :=
  (decodeFrom 0 [] 0 bytes).map .ofList

def encode (s : String) : List UInt8 := s.toUTF8.toList

end SyntaxTrees.Utf8

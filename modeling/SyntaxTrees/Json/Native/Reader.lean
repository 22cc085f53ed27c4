import SyntaxTrees.Json.Native.Numeral
import SyntaxTrees.Json.Native.Quoted
import SyntaxTrees.Json.Schema

/-!
# Reading JSON of a given shape

One pass over the characters, with what is still open kept on a stack, so that the depth of a
document is bounded by nothing but memory. The first fault in the order of the text is the one
reported. Every prefix of a text is read in the same way as the text: `Scan.step` consumes one
character, and only `Scan.finish` knows that the text has ended.
-/

namespace SyntaxTrees.Json

/-- The smallest parts of a JSON text that have a meaning. -/
inductive Token where
  | openBracket
  | closeBracket
  | openBrace
  | closeBrace
  | comma
  | colon
  | null
  | flag (b : Bool)
  /-- A number, with its value if that is a natural number below `2 ^ 64`. -/
  | number (value : Option Nat)
  | text (s : String)
deriving DecidableEq, Repr

def punctuation? : Char → Option Token
  | '[' => some .openBracket
  | ']' => some .closeBracket
  | '\x7b' => some .openBrace
  | '\x7d' => some .closeBrace
  | ',' => some .comma
  | ':' => some .colon
  | _ => none

/-- A document that has been opened and not yet closed. -/
inductive Frame where
  /-- A list with its items so far, latest first. -/
  | list (item : Shape) (items : List Datum)
  /-- A record in the form of an object: the values so far, and the field whose value comes next,
  `none` for a key that is no field. -/
  | object (type : RecordType) (slots : List (Option Datum)) (field : Option Nat)
  /-- A record in the form of an array, with the values so far, latest first. -/
  | tuple (type : RecordType) (values : List Datum)
  | anyArray (lenient : Bool)
  | anyObject (lenient : Bool)
deriving Repr

namespace Frame

def hasKeys : Frame → Bool
  | object .. | anyObject _ => true
  | _ => false

def closer (f : Frame) : Token := if f.hasKeys then .closeBrace else .closeBracket

/-- The shape of the next value; `none` if there is room for no further one. -/
def nextShape? : Frame → Option Shape
  | list item _ => some item
  | object type _ (some i) => type.fields[i]?.map Field.shape
  | object _ _ none => some (.anything true)
  | tuple type values => type.fields[values.length]?.map Field.shape
  | anyArray lenient => some (.anything lenient)
  | anyObject lenient => some (.anything lenient)

def add (d : Datum) : Frame → Frame
  | list item items => list item (d :: items)
  | object type slots (some i) => object type (slots.set i (some d)) none
  | object type slots none => object type slots none
  | tuple type values => tuple type (d :: values)
  | anyArray lenient => anyArray lenient
  | anyObject lenient => anyObject lenient

/-- The frame after a key. A field may not occur twice. -/
def key (k : String) : Frame → Except Fault Frame
  | object type slots _ =>
    match type.fields.findIdx? (·.key == k) with
    | some i =>
      if (slots.getD i none).isSome then .error .mismatch else .ok (object type slots (some i))
    | none => .ok (object type slots none)
  | f => .ok f

def value : Frame → Except Fault Datum
  | list _ items => .ok (.list items.reverse)
  | object type slots _ => recordOf type slots
  | tuple type values =>
    let missing := List.replicate (type.fields.length - values.length) none
    recordOf type (values.reverse.map some ++ missing)
  | anyArray _ | anyObject _ => .ok .absent
where
  /-- The record with defaults for its missing fields. -/
  recordOf (type : RecordType) (slots : List (Option Datum)) : Except Fault Datum :=
    match complete? type.fields slots with
    | some values => .ok (.record values)
    | none => .error .mismatch

end Frame

inductive Want where
  | value (shape : Shape)
  /-- The first member or item, or the end. -/
  | first
  /-- A comma or the end. -/
  | next
  | key
  | colon
deriving Repr

/-- A point between two tokens. -/
inductive Place where
  | inside (stack : List Frame) (want : Want)
  | finished (d : Datum)
deriving Repr

namespace Place

/-- The documents nested into each other may be at most this many, unless read leniently. -/
def maxDepth : Nat := 127

def deliver (d : Datum) : List Frame → Place
  | [] => finished d
  | f :: stack => inside (f.add d :: stack) .next

/-- The place inside a document that has just been opened. -/
def enter (f : Frame) (stack : List Frame) : Place := inside (f :: stack) .first

/-- Enters a document of any shape, unless it lies too deep. -/
def enterAny (lenient : Bool) (f : Frame) (stack : List Frame) : Except Fault Place :=
  if lenient || stack.length < maxDepth then .ok (enter f stack) else .error .malformed

/-- The place after a token where a value is expected. -/
def feedValue (stack : List Frame) (shape : Shape) (t : Token) : Except Fault Place :=
  match shape, t with
  | _, .closeBracket | _, .closeBrace | _, .comma | _, .colon => .error .malformed
  | .anything lenient, .openBracket => enterAny lenient (.anyArray lenient) stack
  | .anything lenient, .openBrace => enterAny lenient (.anyObject lenient) stack
  | .anything _, _ => .ok (deliver .absent stack)
  | .number, .number (some n) => .ok (deliver (.number n) stack)
  | .flag, .flag b => .ok (deliver (.flag b) stack)
  | .text, .text s => .ok (deliver (.text s) stack)
  | .optionalText, .text s => .ok (deliver (.text s) stack)
  | .optionalText, .null => .ok (deliver .absent stack)
  | .list item, .openBracket => .ok (enter (.list item []) stack)
  | .record type, .openBrace =>
    .ok (enter (.object type (type.fields.map fun _ => none) none) stack)
  | .record type, .openBracket => .ok (enter (.tuple type []) stack)
  | _, _ => .error .mismatch

def feedKey (f : Frame) (stack : List Frame) : Token → Except Fault Place
  | .text k => (f.key k).map fun f => inside (f :: stack) .colon
  | _ => .error .malformed

def feed : Place → Token → Except Fault Place
  | inside stack (.value shape), t => feedValue stack shape t
  | inside (f :: stack) .first, t =>
    if t = f.closer then f.value.map (deliver · stack)
    else if f.hasKeys then feedKey f stack t
    else match f.nextShape? with
      | some shape => feedValue (f :: stack) shape t
      | none => .error .malformed
  | inside (f :: stack) .next, t =>
    if t = f.closer then f.value.map (deliver · stack)
    else if t = .comma then
      if f.hasKeys then .ok (inside (f :: stack) .key)
      else match f.nextShape? with
        | some shape => .ok (inside (f :: stack) (.value shape))
        | none => .error .malformed
    else .error .malformed
  | inside (f :: stack) .key, t => feedKey f stack t
  | inside (f :: stack) .colon, t =>
    match t, f.nextShape? with
    | .colon, some shape => .ok (inside (f :: stack) (.value shape))
    | _, _ => .error .malformed
  | _, _ => .error .malformed

/-- A value may start here. -/
def takesValue : Place → Bool
  | inside _ (.value _) => true
  | inside (f :: _) .first => !f.hasKeys
  | _ => false

def takesKey : Place → Bool
  | inside _ .key => true
  | inside (f :: _) .first => f.hasKeys
  | _ => false

def lenient : Place → Bool
  | inside _ (.value shape) => shape == .anything true
  | inside (.anyArray lenient :: _) _ => lenient
  | inside (.anyObject lenient :: _) _ => lenient
  | _ => false

end Place

/-- A token of more than one character that has been read in part. -/
inductive Lexeme where
  | none
  /-- A word whose remaining letters are known. -/
  | word (rest : List Char) (token : Token)
  /-- A numeral with its characters so far, latest first. -/
  | numeral (part : NumeralPart) (read : List Char)
  /-- A quoted text with its characters so far, latest first. -/
  | quoted (part : QuotedPart) (kept : List Char)
deriving Repr

/-- A point between two characters. -/
structure Scan where
  place : Place
  lexeme : Lexeme := .none
deriving Repr

namespace Scan

def start (shape : Shape) : Scan where
  place := .inside [] (.value shape)

def emit (place : Place) (t : Token) : Except Fault Scan :=
  (place.feed t).map fun place => { place }

/-- The scan after a numeral. Its size matters unless it is read leniently. -/
def emitNumeral (place : Place) (numeral : List Char) : Except Fault Scan :=
  if !place.lenient && isTooLarge numeral then .error .malformed
  else emit place (.number (natural? numeral))

/-- The word that starts with a letter, as its other letters and its meaning. -/
def word? : Char → Option (List Char × Token)
  | 'n' => some (['u', 'l', 'l'], .null)
  | 't' => some (['r', 'u', 'e'], .flag true)
  | 'f' => some (['a', 'l', 's', 'e'], .flag false)
  | _ => none

/-- One character at a place where no token is under way. -/
def stepIdle (place : Place) (c : Char) : Except Fault Scan :=
  if isBlank c then .ok { place }
  else match punctuation? c with
    | some t => emit place t
    | none =>
      if c = '"' then
        if place.takesValue || place.takesKey then .ok { place, lexeme := .quoted .plain [] }
        else .error .malformed
      else if !place.takesValue then .error .malformed
      else if c = '-' then .ok { place, lexeme := .numeral .sign [c] }
      else if c = '0' then .ok { place, lexeme := .numeral .zero [c] }
      else if c.isDigit then .ok { place, lexeme := .numeral .whole [c] }
      else match word? c with
        | some (rest, t) => .ok { place, lexeme := .word rest t }
        | none => .error .malformed

def step (s : Scan) (c : Char) : Except Fault Scan :=
  match s.lexeme with
  | .none => stepIdle s.place c
  | .word (d :: rest) t =>
    if c ≠ d then .error .malformed
    else if rest.isEmpty then emit s.place t
    else .ok { s with lexeme := .word rest t }
  | .word [] _ => .error .malformed
  | .numeral part read =>
    match part.step c with
    | .more part => .ok { s with lexeme := .numeral part (c :: read) }
    | .broken => .error .malformed
    | .complete => do
      let s ← emitNumeral s.place read.reverse
      stepIdle s.place c
  | .quoted part kept =>
    match part.step s.place.lenient kept c with
    | .more part kept => .ok { s with lexeme := .quoted part kept }
    | .broken => .error .malformed
    | .complete kept => emit s.place (.text (.ofList kept.reverse))

def finish (s : Scan) : Except Fault Datum := do
  let s ← match s.lexeme with
    | .numeral part read =>
      if part.isComplete then emitNumeral s.place read.reverse
      else if s.place.lenient then .error .malformed
      else .error .truncated
    | _ => .ok s
  match s.place, s.lexeme with
  | .finished d, .none => .ok d
  | _, _ => .error .truncated

/-- The value at the start of a text, and what is left of the text behind it. -/
def take (s : Scan) : List Char → Except Fault (Datum × List Char)
  | [] => s.finish.map (·, [])
  | c :: rest =>
    match s.step c with
    | .error fault => .error fault
    | .ok { place := .finished d, lexeme := .none } => .ok (d, rest)
    | .ok s => s.take rest

end Scan

def read (shape : Shape) (text : List Char) : Except Fault Datum := do
  let s ← text.foldlM Scan.step (Scan.start shape)
  s.finish

end SyntaxTrees.Json

import SyntaxTrees.Proofs.Json.Native.Frame
import SyntaxTrees.Proofs.Json.Native.Token

/-!
# Reading documents

The text of a document is read as the value that the document has (`read_document`). The induction
is on the grammar: where a value is expected, the outcome of its text and what follows is the
outcome of what follows, behind the value that the document has, if it has one
(`Place.outcome_document`). If the numbers in the document are natural numbers, this is so strictly,
too.
-/

namespace SyntaxTrees.Json

theorem IsWhole.items {items : List Json} (h : (Json.array items).IsWhole) :
    ∀ j ∈ items, j.IsWhole := by
  cases h with
  | array h => exact h

theorem IsWhole.members {members : List (String × Json)} (h : (Json.object members).IsWhole) :
    ∀ m ∈ members, m.2.IsWhole := by
  cases h with
  | object h => exact h

/-! ## Shapes that a reader keeps apart -/

/-- The shape tells what a value looks like. -/
def Shape.IsTyped : Shape → Prop
  | .anything _ => False
  | .list item => item.IsTyped
  | _ => True

/-- The shape tells what a value looks like, or that nobody looks at it. -/
def Shape.IsKnown (shape : Shape) : Prop := shape.IsTyped ∨ shape = .anything true

theorem Shape.IsKnown.lenient {lenient : Bool} (h : (anything lenient).IsKnown) :
    lenient = true := by
  rcases h with htyped | hany
  · exact htyped.elim
  · cases hany
    rfl

/-- The shapes inside of the document are known. -/
def Frame.IsKnown : Frame → Prop
  | list item _ => item.IsTyped
  | anyArray lenient | anyObject lenient => lenient
  | _ => True

theorem RecordType.isTyped (type : RecordType) : ∀ f ∈ type.fields, f.shape.IsTyped := by
  cases type <;> simp [fields, Field.optional, Shape.IsTyped]

namespace Frame

variable {f : Frame} {shape : Shape}

theorem IsKnown.add (h : f.IsKnown) (d : Datum) : (f.add d).IsKnown := by
  cases f with
  | object type slots field => cases field <;> exact trivial
  | _ => exact h

theorem hasKeys_add (f : Frame) (d : Datum) : (f.add d).hasKeys = f.hasKeys := by
  cases f with
  | object type slots field => cases field <;> rfl
  | _ => rfl

theorem isTyped_of_getElem? {type : RecordType} {i : Nat}
    (h : type.fields[i]?.map Field.shape = some shape) : shape.IsTyped := by
  rcases Option.map_eq_some_iff.mp h with ⟨field, hfield, rfl⟩
  exact type.isTyped field (List.mem_of_getElem? hfield)

theorem IsKnown.nextShape (h : f.IsKnown) (hnext : f.nextShape? = some shape) : shape.IsKnown := by
  cases f with
  | list item items =>
    cases hnext
    exact .inl h
  -- the next member of a list form is the one after those read
  | tuple type values => exact .inl (isTyped_of_getElem? hnext)
  | object type slots field =>
    cases field with
    | none =>
      -- a key that no field has: its value is passed over
      cases hnext
      exact .inr rfl
    | some i => exact .inl (isTyped_of_getElem? hnext)
  | anyArray lenient | anyObject lenient =>
    cases h
    cases hnext
    exact .inr rfl

/-- A key is noted in the frame of a record, and nowhere else. -/
theorem key_cases {key : String} {keyed : Frame} (h : f.key key = .ok keyed) :
    keyed = f ∨ ∃ type slots field next, f = object type slots field ∧
      keyed = object type slots next := by
  cases f with
  | object type slots field =>
    right
    unfold Frame.key at h
    dsimp only at h
    split at h
    · -- the key of a field: an open slot, or a member named twice
      split at h
      · cases h
      · cases h
        exact ⟨type, slots, field, _, rfl, rfl⟩
    · cases h
      exact ⟨type, slots, field, _, rfl, rfl⟩
  | _ =>
    cases h
    exact .inl rfl

theorem IsKnown.key {key : String} {keyed : Frame} (h : f.IsKnown)
    (hkey : f.key key = .ok keyed) : keyed.IsKnown := by
  rcases key_cases hkey with rfl | ⟨type, slots, field, next, rfl, rfl⟩
  · exact h
  · exact trivial

theorem IsKnown.addMember {key : String} {j : Json} {g : Frame} (h : f.IsKnown)
    (hadd : f.addMember? key j = some g) : g.IsKnown ∧ g.hasKeys = f.hasKeys := by
  rcases hkey : f.key key with fault | keyed
  · simp [addMember?, hkey, Except.toOption] at hadd
  · rw [addMember?_eq hkey] at hadd
    rcases hnext : keyed.nextShape? with _ | shape
    · simp [addItem?, hnext] at hadd
    · rw [addItem?_eq hnext] at hadd
      rcases Option.map_eq_some_iff.mp hadd with ⟨d, -, rfl⟩
      refine ⟨(h.key hkey).add d, ?_⟩
      rcases key_cases hkey with rfl | ⟨type, slots, field, next, rfl, rfl⟩
      · exact hasKeys_add _ d
      · exact hasKeys_add _ d

end Frame

/-! ## Where values and keys are expected -/

namespace Place

/-- A value of the shape is expected at the place, inside the documents of the stack. -/
inductive Expects : Place → List Frame → Shape → Prop where
  | value (stack : List Frame) (shape : Shape) : Expects (inside stack (.value shape)) stack shape
  | first {f : Frame} {shape : Shape} (stack : List Frame) (hkeys : f.hasKeys = false)
      (hshape : f.nextShape? = some shape) : Expects (inside (f :: stack) .first) (f :: stack) shape

namespace Expects

variable {p : Place} {stack : List Frame} {shape : Shape}

theorem takesValue (h : p.Expects stack shape) : p.takesValue := by
  cases h with
  | value => rfl
  | first _ hkeys => simp [Place.takesValue, hkeys]

/-- Only the end of an array could be taken for something other than a value. -/
theorem feed_eq (h : p.Expects stack shape) {t : Token} (ht : t ≠ .closeBracket) :
    p.feed t = feedValue stack shape t := by
  cases h with
  | value => rfl
  | @first f _ _ hkeys hnext =>
    have hcloser : t ≠ f.closer := by simpa [Frame.closer, hkeys] using ht
    simp [feed, hcloser, hkeys, hnext]

end Expects

/-- What may come next behind an opening brace, or behind a member. -/
def gap (first : Bool) : Want := if first then .first else .next

/-- An open document may be closed both behind its opening and behind a member or an item. -/
theorem feed_closer (f : Frame) (stack : List Frame) (first : Bool) :
    (inside (f :: stack) (gap first)).feed f.closer = f.value.map (deliver · stack) := by
  cases first with
  | true => exact if_pos rfl
  | false => exact if_pos rfl

/-- A value of a known shape is expected at the place, inside the documents of the stack. -/
structure Takes (p : Place) (stack : List Frame) (shape : Shape) : Prop where
  expects : p.Expects stack shape
  known : shape.IsKnown
  lenient : shape = .anything true → p.lenient

variable {p : Place} {f : Frame} {stack : List Frame} {shape : Shape}

theorem takes_value (hf : f.IsKnown) (hnext : f.nextShape? = some shape) :
    (inside (f :: stack) (.value shape)).Takes (f :: stack) shape where
  expects := .value _ shape
  known := hf.nextShape hnext
  lenient := by
    rintro rfl
    rfl

theorem takes_first (hf : f.IsKnown) (hkeys : f.hasKeys = false)
    (hnext : f.nextShape? = some shape) :
    (inside (f :: stack) .first).Takes (f :: stack) shape where
  expects := .first stack hkeys hnext
  known := hf.nextShape hnext
  lenient := by
    rintro rfl
    cases f with
    | list item items =>
      -- only what is passed over is read leniently
      cases hnext
      exact hf.elim
    | tuple type values => exact (Frame.isTyped_of_getElem? hnext).elim
    | object | anyObject => cases hkeys
    | anyArray lenient => exact hf

end Place

namespace Place

open Rule

variable {p : Place} {f : Frame} {stack : List Frame} {shape : Shape} {rest : List Char}
  {strict : Bool}

theorem feed_openBracket (hp : p.Takes stack shape) :
    (p.feed .openBracket).toOption = shape.openArray?.map (enter · stack) := by
  rw [hp.expects.feed_eq Token.noConfusion]
  cases shape with
  | anything lenient =>
    cases hp.known.lenient
    rfl
  | _ => rfl

theorem feed_openBrace (hp : p.Takes stack shape) :
    (p.feed .openBrace).toOption = shape.openObject?.map (enter · stack) := by
  rw [hp.expects.feed_eq Token.noConfusion]
  cases shape with
  | anything lenient =>
    cases hp.known.lenient
    rfl
  | _ => rfl

/-- What is read behind the last item or member and the mark that closes the document. -/
def closed (strict : Bool) (rest : List Char) (stack : List Frame) (f : Frame) : Option Datum :=
  f.value.toOption.bind fun d => (deliver d stack).outcome strict rest

theorem outcome_close {c : Char} (h : punctuation? c = some f.closer) (first : Bool) :
    (inside (f :: stack) (gap first)).outcome strict (c :: rest) = closed strict rest stack f := by
  rw [outcome_mark h, feed_closer, toOption_map, Option.bind_map]
  rfl

theorem outcome_closeBracket (hkeys : f.hasKeys = false) (first : Bool) :
    (inside (f :: stack) (gap first)).outcome strict (']' :: rest) = closed strict rest stack f := by
  apply outcome_close
  simp [Frame.closer, hkeys, punctuation?]

theorem outcome_closeBrace (hkeys : f.hasKeys) (first : Bool) :
    (inside (f :: stack) (gap first)).outcome strict ('\x7d' :: rest) = closed strict rest stack f := by
  apply outcome_close
  simp [Frame.closer, hkeys, punctuation?]

/-- Between two items, a comma leads to the next item if there is room for one. -/
theorem outcome_nextItem (hkeys : f.hasKeys = false) :
    (inside (f :: stack) .next).outcome strict (',' :: rest) =
      f.nextShape?.bind fun shape => (inside (f :: stack) (.value shape)).outcome strict rest := by
  have hcloser : Token.comma ≠ f.closer := by
    simp [Frame.closer, hkeys]
  have hcomma : punctuation? ',' = some .comma := rfl
  rw [outcome_mark hcomma, feed, if_neg hcloser, if_pos rfl, hkeys]
  cases f.nextShape? <;> rfl

/-- Between two members, a comma leads to the next key. -/
theorem outcome_nextMember (hkeys : f.hasKeys) :
    (inside (f :: stack) .next).outcome strict (',' :: rest) =
      (inside (f :: stack) .key).outcome strict rest := by
  have hcloser : Token.comma ≠ f.closer := by
    simp [Frame.closer, hkeys]
  have hcomma : punctuation? ',' = some .comma := rfl
  rw [outcome_mark hcomma, feed, if_neg hcloser, if_pos rfl, hkeys]
  rfl

theorem outcome_colon :
    (inside (f :: stack) .colon).outcome strict (':' :: rest) =
      f.nextShape?.bind fun shape => (inside (f :: stack) (.value shape)).outcome strict rest := by
  have hcolon : punctuation? ':' = some .colon := rfl
  rw [outcome_mark hcolon]
  cases hnext : f.nextShape? <;> simp [feed, hnext, Except.toOption]

theorem outcome_key {key : String} {name : List Char} (h : Quoted key name) (hkeys : f.hasKeys)
    {want : Want} (hwant : want = .first ∨ want = .key) :
    (inside (f :: stack) want).outcome strict (name ++ rest) =
      (f.key key).toOption.bind fun keyed => (inside (keyed :: stack) .colon).outcome strict rest := by
  -- a frame of keys is closed by a brace
  have hcloser : Token.text key ≠ f.closer := by
    simp [Frame.closer, hkeys]
  have hfeed : (inside (f :: stack) want).feed (.text key) =
      (f.key key).map fun keyed => inside (keyed :: stack) .colon := by
    -- after an opening brace the object could have ended, after a comma it could not
    rcases hwant with rfl | rfl
    · rw [feed, if_neg hcloser, if_pos hkeys]
      rfl
    · rfl
  have htakes : (inside (f :: stack) want).takesKey := by
    rcases hwant with rfl | rfl
    · exact hkeys
    · rfl
  rw [outcome_quoted h (.inr htakes), hfeed, toOption_map, Option.bind_map]
  rfl

/-! ## Values one after the other -/

/-- A numeral leads behind the value that it has as a document. Where its size matters, a numeral that is
too large is no value of the shape. -/
theorem emitNumeral_eq (hp : p.Takes stack shape) (numeral : List Char) :
    (Scan.emitNumeral p numeral).toOption =
      (shape.of? (.number (.ofList numeral))).map fun d => { place := deliver d stack } := by
  have hfeed : ∀ value, p.feed (.number value) = feedValue stack shape (.number value) :=
    fun value => hp.expects.feed_eq Token.noConfusion
  rw [Scan.emitNumeral]
  split
  · -- too large for a number, and strict: no shape that reads numbers strictly has one of that size
    next hlarge =>
    rw [Bool.and_eq_true, Bool.not_eq_true'] at hlarge
    rcases hlarge with ⟨hstrict, hlarge⟩
    have hvalue : natural? numeral = none := by
      rcases hvalue : natural? numeral with _ | n
      · rfl
      · rw [isTooLarge_of_natural? hvalue] at hlarge
        cases hlarge
    cases shape with
    | anything lenient =>
      cases hp.known.lenient
      rw [hp.lenient rfl] at hstrict
      cases hstrict
    | number =>
      rw [Shape.of?, String.toList_ofList, hvalue]
      rfl
    | _ => rfl
  · -- else the reader and the shape look at the same digits
    rw [Scan.emit, hfeed]
    cases shape with
    | number =>
      rw [Shape.of?, String.toList_ofList]
      cases natural? numeral <;> rfl
    | _ => rfl

/-- The digits in front of a number that has a value have one, too. -/
theorem emitNumeral_front (hp : p.Takes stack shape) {front back : List Char}
    (hdigits : ∀ c ∈ front ++ back, c.isDigit) {s : Scan}
    (h : Scan.emitNumeral p (front ++ back) = .ok s) : ∃ s, Scan.emitNumeral p front = .ok s := by
  have hwhole := emitNumeral_eq hp (front ++ back)
  have hfront := emitNumeral_eq hp front
  rw [h] at hwhole
  have hvalue : ∃ d, shape.of? (.number (.ofList front)) = some d := by
    cases shape with
    | anything lenient => exact ⟨.absent, rfl⟩
    | number =>
      -- a number with fewer digits is not larger
      rw [Shape.of?, String.toList_ofList] at hwhole
      rcases hn : natural? (front ++ back) with _ | n
      · rw [hn] at hwhole
        cases hwhole
      · rcases natural?_eq_some_iff.mp hn with ⟨⟨-, hfits⟩, -⟩
        have hvalue : natural? front = some (Text.naturalOf front) := natural?_eq_some_iff.mpr
          ⟨⟨fun c hc => hdigits c (List.mem_append_left back hc),
            Nat.lt_of_le_of_lt (naturalOf_le_append front back) hfits⟩, rfl⟩
        exact ⟨.number (Text.naturalOf front), by rw [Shape.of?, String.toList_ofList, hvalue]; rfl⟩
    | _ => cases hwhole
  rcases hvalue with ⟨d, hd⟩
  rw [hd] at hfront
  cases hemit : Scan.emitNumeral p front with
  | error fault =>
    rw [hemit] at hfront
    cases hfront
  | ok s => exact ⟨s, rfl⟩

/-- A numeral is read as the document that it spells. -/
theorem outcome_number {spelling : String} (h : Numeral spelling.toList)
    (hwhole : strict → (Json.number spelling).IsWhole) (hp : p.Takes stack shape)
    (hrest : Separates rest) :
    p.outcome strict (spelling.toList ++ rest) =
      (shape.of? (.number spelling)).bind fun d => (deliver d stack).outcome strict rest := by
  have hemit := emitNumeral_eq hp spelling.toList
  rw [String.ofList_toList] at hemit
  have hloose := outcome_numeral h hp.expects.takesValue hrest
  cases strict with
  | false =>
    rw [hloose, hemit, Option.bind_map]
    rfl
  | true =>
    cases hwhole rfl with
    | number n =>
      rcases hend : Scan.emitNumeral p (toString n).toList with fault | s
      · -- what is not read is not read strictly either
        rw [hend] at hemit hloose
        rcases hnone : p.outcome true ((toString n).toList ++ rest) with _ | d
        · rw [Option.map_eq_none_iff.mp hemit.symm]
          rfl
        · rw [outcome, Scan.outcome_of_strict hnone] at hloose
          cases hloose
      · have hfront : ∀ c front back, (toString n).toList = (c :: front) ++ back →
            ∃ s, Scan.emitNumeral p (c :: front) = .ok s := by
          intro c front back hsplit
          have hdigits : ∀ c ∈ (toString n).toList, c.isDigit := by
            rw [toList_toString]
            exact fun c hc => isDigit_of_mem_toDigits hc
          rw [hsplit] at hdigits hend
          exact emitNumeral_front hp hdigits hend
        rw [outcome_natural hp.expects.takesValue hfront hend hrest]
        rw [hend] at hemit
        rcases Option.map_eq_some_iff.mp hemit.symm with ⟨d, hd, rfl⟩
        rw [hd]
        rfl

/-- A frame that is opened by a bracket has room for an item. -/
theorem openArray?_spec (hshape : shape.IsKnown) (h : shape.openArray? = some f) :
    f.IsKnown ∧ f.hasKeys = false ∧ ∃ first, f.nextShape? = some first := by
  cases shape with
  | anything lenient =>
    cases h
    exact ⟨hshape.lenient, rfl, _, rfl⟩
  | list item =>
    cases h
    rcases hshape with htyped | hany
    · exact ⟨htyped, rfl, _, rfl⟩
    · cases hany
  | record type =>
    cases h
    refine ⟨trivial, rfl, ?_⟩
    cases type <;> exact ⟨_, rfl⟩
  | _ => cases h

theorem openObject?_spec (hshape : shape.IsKnown) (h : shape.openObject? = some f) :
    f.IsKnown ∧ f.hasKeys := by
  cases shape with
  | anything lenient =>
    cases h
    exact ⟨hshape.lenient, rfl⟩
  | record type =>
    cases h
    exact ⟨trivial, rfl⟩
  | _ => cases h

/-- An array is read as the document that it spells if its items are read one after the other. -/
theorem outcome_array {items : List Json} {body : List Char} (hp : p.Takes stack shape)
    (hbody : ∀ f first, f.IsKnown → f.hasKeys = false → f.nextShape? = some first →
      (inside (f :: stack) .first).outcome strict (body ++ ']' :: rest) =
        (f.addItems? items).bind (closed strict rest stack)) :
    p.outcome strict ('[' :: (body ++ [']']) ++ rest) =
      (shape.of? (.array items)).bind fun d => (deliver d stack).outcome strict rest := by
  have hopen : punctuation? '[' = some .openBracket := rfl
  rw [List.cons_append, outcome_mark hopen, feed_openBracket hp, List.append_assoc, ← openArray?_eq]
  -- the shape takes no array: both sides are `none`
  rcases hframe : shape.openArray? with _ | f
  · rfl
  · -- the body ends with the bracket that hands over the frame's value
    rcases openArray?_spec hp.known hframe with ⟨hf, hkeys, first, hnext⟩
    refine (hbody f first hf hkeys hnext).trans ?_
    simp only [Option.bind_some, Option.bind_assoc]
    rfl

/-- An object is read as the document that it spells if its members are read one after the other. -/
theorem outcome_object {members : List (String × Json)} {body : List Char}
    (hp : p.Takes stack shape)
    (hbody : ∀ f, f.IsKnown → f.hasKeys →
      (inside (f :: stack) .first).outcome strict (body ++ '\x7d' :: rest) =
        (f.addMembers? members).bind (closed strict rest stack)) :
    p.outcome strict ('\x7b' :: (body ++ ['\x7d']) ++ rest) =
      (shape.of? (.object members)).bind fun d => (deliver d stack).outcome strict rest := by
  have hopen : punctuation? '\x7b' = some .openBrace := rfl
  rw [List.cons_append, outcome_mark hopen, feed_openBrace hp, List.append_assoc, ← openObject?_eq]
  -- the shape takes no object: both sides are `none`
  rcases hframe : shape.openObject? with _ | f
  · rfl
  · rcases openObject?_spec hp.known hframe with ⟨hf, hkeys⟩
    refine (hbody f hf hkeys).trans ?_
    simp only [Option.bind_some, Option.bind_assoc]
    rfl

/-! The induction is on the spelling. A document stands where a value of a known shape is expected,
an item where the frame has room for one, and a member where a key may stand. -/

mutual

/-- A value is read as the document that it spells. -/
theorem outcome_value : ∀ {j : Json} {cs : List Char}, Value j cs → (strict → j.IsWhole) →
    ∀ {p : Place} {stack : List Frame} {shape : Shape} {rest : List Char}, p.Takes stack shape →
      Separates rest →
      p.outcome strict (cs ++ rest) = (shape.of? j).bind fun d => (deliver d stack).outcome strict rest
  -- the three words
  | _, _, .null, hwhole, p, stack, shape, rest, hp, hrest => by
    have hword : Scan.word? 'n' = some (['u', 'l', 'l'], .null) := rfl
    show p.outcome strict ('n' :: (['u', 'l', 'l'] ++ rest)) = _
    rw [outcome_word hword hp.expects.takesValue, hp.expects.feed_eq Token.noConfusion]
    cases shape <;> rfl
  | _, _, .yes, hwhole, p, stack, shape, rest, hp, hrest => by
    have hword : Scan.word? 't' = some (['r', 'u', 'e'], .flag true) := rfl
    show p.outcome strict ('t' :: (['r', 'u', 'e'] ++ rest)) = _
    rw [outcome_word hword hp.expects.takesValue, hp.expects.feed_eq Token.noConfusion]
    cases shape <;> rfl
  | _, _, .no, hwhole, p, stack, shape, rest, hp, hrest => by
    have hword : Scan.word? 'f' = some (['a', 'l', 's', 'e'], .flag false) := rfl
    show p.outcome strict ('f' :: (['a', 'l', 's', 'e'] ++ rest)) = _
    rw [outcome_word hword hp.expects.takesValue, hp.expects.feed_eq Token.noConfusion]
    cases shape <;> rfl
  | _, _, .number h, hwhole, p, stack, shape, rest, hp, hrest => outcome_number h hwhole hp hrest
  | _, _, .text h, hwhole, p, stack, shape, rest, hp, hrest => by
    rw [outcome_quoted h (.inl hp.expects.takesValue), hp.expects.feed_eq Token.noConfusion]
    cases shape <;> rfl
  -- arrays, empty or not
  | _, _, .emptyArray h, hwhole, p, stack, shape, rest, hp, _ => by
    apply outcome_array hp
    intro f _ _ hkeys _
    rw [outcome_gap h]
    exact outcome_closeBracket hkeys true
  | _, _, .array h, hwhole, p, stack, shape, rest, hp, _ => by
    have hitems := fun hs => (hwhole hs).items
    apply outcome_array hp
    intro f first hf hkeys hnext
    exact outcome_items h hitems (takes_first hf hkeys hnext) hf hkeys hnext
  -- objects, empty or not
  | _, _, .emptyObject h, hwhole, p, stack, shape, rest, hp, _ => by
    apply outcome_object hp
    intro f _ hkeys
    rw [outcome_gap h]
    exact outcome_closeBrace hkeys true
  | _, _, .object h, hwhole, p, stack, shape, rest, hp, _ => by
    have hmembers := fun hs => (hwhole hs).members
    apply outcome_object hp
    intro f hf hkeys
    exact outcome_members h hmembers hf hkeys (.inl rfl)

/-- A document is read as what it is. -/
theorem outcome_document : ∀ {j : Json} {cs : List Char}, Document j cs → (strict → j.IsWhole) →
    ∀ {p : Place} {stack : List Frame} {shape : Shape} {rest : List Char}, p.Takes stack shape →
      Separates rest →
      p.outcome strict (cs ++ rest) = (shape.of? j).bind fun d => (deliver d stack).outcome strict rest
  | _, _, .intro hbefore h hafter, hwhole, p, stack, shape, rest, hp, hrest => by
    rw [List.append_assoc, List.append_assoc, outcome_gap hbefore,
      outcome_value h hwhole hp (separates_gap hafter hrest)]
    simp only [outcome_gap hafter]

/-- Items are added to the frame of an array. -/
theorem outcome_items : ∀ {items : List Json} {cs : List Char}, Items items cs →
    (strict → ∀ j ∈ items, j.IsWhole) →
    ∀ {p : Place} {f : Frame} {stack : List Frame} {shape : Shape} {rest : List Char},
      p.Takes (f :: stack) shape → f.IsKnown → f.hasKeys = false → f.nextShape? = some shape →
      p.outcome strict (cs ++ ']' :: rest) = (f.addItems? items).bind (closed strict rest stack)
  | _, _, .last h, hwhole, p, f, stack, shape, rest, hp, hf, hkeys, hnext => by
    have hend : punctuation? ']' = some .closeBracket := rfl
    have hitem (hs : strict) := hwhole hs _ List.mem_cons_self
    rw [outcome_document h hitem hp (separates_mark hend), Frame.addItems?_cons,
      Frame.addItem?_eq hnext, Option.bind_map, Option.bind_assoc]
    congr
    funext d
    have hkeys' : (f.add d).hasKeys = false := (f.hasKeys_add d).trans hkeys
    exact outcome_closeBracket hkeys' false
  | _, _, .more h hrest, hwhole, p, f, stack, shape, rest, hp, hf, hkeys, hnext => by
    have hcomma : punctuation? ',' = some .comma := rfl
    have hitem (hs : strict) := hwhole hs _ List.mem_cons_self
    have hothers (hs : strict) := fun j hj => hwhole hs j (List.mem_cons_of_mem _ hj)
    rw [List.append_assoc, List.cons_append, outcome_document h hitem hp (separates_mark hcomma),
      Frame.addItems?_cons, Frame.addItem?_eq hnext, Option.bind_map, Option.bind_assoc]
    congr
    funext d
    have hkeys' : (f.add d).hasKeys = false := (f.hasKeys_add d).trans hkeys
    refine (outcome_nextItem hkeys').trans ?_
    -- the next item needs room
    rcases hnext' : (f.add d).nextShape? with _ | next
    · cases hrest <;> simp [Frame.addItems?, Frame.addItem?, hnext']
    · have hg := hf.add d
      exact outcome_items hrest hothers (takes_value hg hnext') hg hkeys' hnext'

/-- A member is added to the frame of an object. -/
theorem outcome_member : ∀ {key : String} {j : Json} {cs : List Char}, Member key j cs →
    (strict → j.IsWhole) → ∀ {f : Frame} {stack : List Frame} {want : Want} {rest : List Char},
      f.IsKnown → f.hasKeys → (want = .first ∨ want = .key) → Separates rest →
      (inside (f :: stack) want).outcome strict (cs ++ rest) =
        (f.addMember? key j).bind fun g => (inside (g :: stack) .next).outcome strict rest
  | key, j, _, .intro hbefore hname hafter h, hwhole, f, stack, want, rest, hf, hkeys, hwant,
      hrest => by
    simp only [List.append_assoc, List.cons_append]
    -- the blanks and the key come first; a key refused ends both sides
    rw [outcome_gap hbefore, outcome_key hname hkeys hwant]
    rcases hkey : f.key key with fault | keyed
    · simp [Frame.addMember?, hkey, Except.toOption]
    · rw [Frame.addMember?_eq hkey]
      show (inside (keyed :: stack) .colon).outcome strict _ = _
      rw [outcome_gap hafter, outcome_colon]
      -- behind the colon stands the value, of the shape the key asks for
      rcases hnext : keyed.nextShape? with _ | shape
      · simp [Frame.addItem?, hnext]
      · rw [Frame.addItem?_eq hnext, Option.bind_map]
        exact outcome_document h hwhole (takes_value (hf.key hkey) hnext) hrest

/-- Members are added to the frame of an object. -/
theorem outcome_members : ∀ {members : List (String × Json)} {cs : List Char}, Members members cs →
    (strict → ∀ m ∈ members, m.2.IsWhole) →
    ∀ {f : Frame} {stack : List Frame} {want : Want} {rest : List Char},
      f.IsKnown → f.hasKeys → (want = .first ∨ want = .key) →
      (inside (f :: stack) want).outcome strict (cs ++ '\x7d' :: rest) =
        (f.addMembers? members).bind (closed strict rest stack)
  | _, _, .last h, hwhole, f, stack, want, rest, hf, hkeys, hwant => by
    have hend : punctuation? '\x7d' = some .closeBrace := rfl
    have hmember (hs : strict) := hwhole hs _ List.mem_cons_self
    rw [outcome_member h hmember hf hkeys hwant (separates_mark hend), Frame.addMembers?_cons]
    rcases hadd : f.addMember? _ _ with _ | g
    · rfl
    · exact outcome_closeBrace ((hf.addMember hadd).2.trans hkeys) false
  | _, _, .more h hrest, hwhole, f, stack, want, rest, hf, hkeys, hwant => by
    have hcomma : punctuation? ',' = some .comma := rfl
    have hmember (hs : strict) := hwhole hs _ List.mem_cons_self
    have hothers (hs : strict) := fun m hm => hwhole hs m (List.mem_cons_of_mem _ hm)
    rw [List.append_assoc, List.cons_append,
      outcome_member h hmember hf hkeys hwant (separates_mark hcomma), Frame.addMembers?_cons]
    -- a member refused, or the rest with the frame it leaves
    rcases hadd : f.addMember? _ _ with _ | g
    · rfl
    · rcases hf.addMember hadd with ⟨hg, hkeys'⟩
      rw [hkeys] at hkeys'
      refine (outcome_nextMember hkeys').trans ?_
      exact outcome_members hrest hothers hg hkeys' (.inr rfl)

end

end Place

/-! ## Whole documents -/

/-- The text of a document is read as the value that the document has, if it has one. -/
theorem outcome_start {shape : Shape} (hshape : shape.IsTyped) {j : Json} {cs : List Char}
    (h : Rule.Document j cs) {strict : Bool} (hwhole : strict → j.IsWhole) :
    (Scan.start shape).outcome strict cs = shape.of? j := by
  have htakes : (Place.inside [] (.value shape)).Takes [] shape := by
    refine ⟨.value [] shape, .inl hshape, ?_⟩
    rintro rfl
    exact hshape.elim
  have hend : Separates [] := nofun
  have houtcome := Place.outcome_document h hwhole htakes hend
  rw [List.append_nil] at houtcome
  refine houtcome.trans ?_
  cases shape.of? j <;> rfl

end SyntaxTrees.Json

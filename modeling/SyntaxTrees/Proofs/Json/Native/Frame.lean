import SyntaxTrees.Json.Native.Reader
import SyntaxTrees.Proofs.Json.Native.Derived

/-!
# Frames of arrays and objects

What has been read of an array or an object is a frame, and each further item or member is one step of
that frame. When the document is closed, the frame has the value that the generated code makes of the
whole document (`openArray?_eq`, `openObject?_eq`).
-/

namespace SyntaxTrees.Json

/-! ## One step for each item and member -/

/-- The frame of an array that is read as a document of the shape. -/
def Shape.openArray? : Shape → Option Frame
  | .anything lenient => some (.anyArray lenient)
  | .list item => some (.list item [])
  | .record type => some (.tuple type [])
  | _ => none

/-- The frame of an object that is read as a document of the shape. -/
def Shape.openObject? : Shape → Option Frame
  | .anything lenient => some (.anyObject lenient)
  | .record type => some (.object type (type.fields.map fun _ => none) none)
  | _ => none

namespace Frame

/-- The frame with one more item. -/
def addItem? (f : Frame) (j : Json) : Option Frame := do
  let shape ← f.nextShape?
  let d ← shape.of? j
  return f.add d

def addMember? (f : Frame) (key : String) (j : Json) : Option Frame := do
  let keyed ← (f.key key).toOption
  keyed.addItem? j

def addItems? (f : Frame) (items : List Json) : Option Frame := items.foldlM addItem? f

def addMembers? (f : Frame) (members : List (String × Json)) : Option Frame :=
  members.foldlM (fun f (key, j) => f.addMember? key j) f

end Frame

theorem Shape.of?_anything (lenient : Bool) (j : Json) :
    (anything lenient).of? j = some .absent := by
  cases j <;> rfl

/-! ## Arrays -/

namespace Frame

theorem addItems?_cons (f : Frame) (j : Json) (items : List Json) :
    f.addItems? (j :: items) = (f.addItem? j).bind (·.addItems? items) := rfl

theorem addMembers?_cons (f : Frame) (key : String) (j : Json) (members : List (String × Json)) :
    f.addMembers? ((key, j) :: members) = (f.addMember? key j).bind (·.addMembers? members) := rfl

theorem addItem?_eq {f : Frame} {shape : Shape} (h : f.nextShape? = some shape) (j : Json) :
    f.addItem? j = (shape.of? j).map f.add := by
  rw [addItem?, h]
  cases hj : shape.of? j <;> simp [hj]

theorem addItems?_any (lenient : Bool) (items : List Json) :
    (anyArray lenient).addItems? items = some (anyArray lenient) := by
  induction items with
  | nil => rfl
  | cons j items ih =>
    have hnext : (anyArray lenient).nextShape? = some (.anything lenient) := rfl
    rw [addItems?_cons, addItem?_eq hnext, Shape.of?_anything]
    exact ih

theorem addMembers?_any (lenient : Bool) (members : List (String × Json)) :
    (anyObject lenient).addMembers? members = some (anyObject lenient) := by
  induction members with
  | nil => rfl
  | cons member members ih =>
    have hnext : (anyObject lenient).nextShape? = some (.anything lenient) := rfl
    have hadd : (anyObject lenient).addMember? member.1 member.2 = some (anyObject lenient) := by
      show (anyObject lenient).addItem? member.2 = _
      rw [addItem?_eq hnext, Shape.of?_anything]
      rfl
    rw [addMembers?_cons, hadd]
    exact ih

theorem addItems?_list (item : Shape) (items : List Json) (ds : List Datum) :
    (list item ds).addItems? items =
      (item.allOf? items).map fun es => list item (es.reverse ++ ds) := by
  induction items generalizing ds with
  | nil => rfl
  | cons j items ih =>
    have hnext : (list item ds).nextShape? = some item := rfl
    rw [addItems?_cons, addItem?_eq hnext, Shape.allOf?]
    cases item.of? j with
    | none => rfl
    | some d =>
      -- `d` goes in front: the frame keeps its items in reverse
      have hrest := ih (d :: ds)
      simp only [Option.map_some, Option.bind_some, add, hrest]
      cases item.allOf? items <;> simp

theorem complete?_cons (f : Field) (fields : List Field) (slot : Option Datum)
    (slots : List (Option Datum)) :
    complete? (f :: fields) (slot :: slots) =
      (slot.or f.default?).bind fun d => (complete? fields slots).map (d :: ·) :=
  mapM_cons_eq _ (f, slot) (fields.zip slots)

/-- Defaults stand in for the values that are missing behind others. -/
theorem complete?_missing {fields : List Field} {values : List Datum}
    (h : values.length ≤ fields.length) :
    complete? fields (values.map some ++ List.replicate (fields.length - values.length) none) =
      ((fields.drop values.length).mapM Field.default?).map (values ++ ·) := by
  induction fields generalizing values with
  | nil =>
    cases values with
    | nil => rfl
    | cons d values => cases h
  | cons f fields ih =>
    cases values with
    -- every field that is left takes its default
    | nil =>
      have hrest : complete? fields (List.replicate fields.length none) =
          fields.mapM Field.default? := by
        have hnone : ([] : List Datum).length ≤ fields.length := Nat.zero_le _
        simpa using ih hnone
      have hcons := complete?_cons f fields none (List.replicate fields.length none)
      rw [hrest, Option.none_or, ← mapM_cons_eq] at hcons
      simpa [List.replicate_succ] using hcons
    -- the first field has its value
    | cons d values =>
      have hrest := ih (Nat.le_of_succ_le_succ h)
      rw [List.map_cons, List.length_cons, List.length_cons, Nat.add_sub_add_right,
        List.cons_append, complete?_cons, hrest, List.drop_succ_cons, Option.some_or,
        Option.bind_some, Option.map_map]
      rfl

/-- The items of an array that is read as a record are the values of the next fields. -/
theorem addItems?_tuple (type : RecordType) (items : List Json) (values : List Datum)
    (h : values.length ≤ type.fields.length) :
    ((tuple type values).addItems? items).bind (·.value.toOption) =
      (itemsOf? (type.fields.drop values.length) items).map fun ds =>
        .record (values.reverse ++ ds) := by
  induction items generalizing values with
  -- the array ends: what is missing takes its default
  | nil =>
    have hlength : values.reverse.length ≤ type.fields.length := by simpa using h
    have hcomplete := complete?_missing hlength
    rw [List.length_reverse] at hcomplete
    show (value.recordOf type _).toOption = _
    rw [value.recordOf, hcomplete, itemsOf?]
    cases (type.fields.drop values.length).mapM Field.default? <;> rfl
  | cons j items ih =>
    -- room for one more item
    rcases Nat.lt_or_eq_of_le h with hlt | heq
    · have hnext : (tuple type values).nextShape? = some (type.fields[values.length].shape) := by
        simp [nextShape?, hlt]
      rw [addItems?_cons, addItem?_eq hnext, List.drop_eq_getElem_cons hlt, itemsOf?_cons]
      cases (type.fields[values.length].shape).of? j with
      | none => rfl
      | some d =>
        have hrest := ih (d :: values) hlt
        rw [Option.map_some, Option.bind_some, Option.bind_some, Option.map_map]
        refine hrest.trans ?_
        simp [Function.comp_def]
    · -- an item too many
      have hnone : (tuple type values).nextShape? = none := by
        simp [nextShape?, heq]
      rw [addItems?_cons, addItem?, hnone, heq, List.drop_length]
      rfl

end Frame

/-- What is read of an array is the value that it has. -/
theorem openArray?_eq (shape : Shape) (items : List Json) :
    (shape.openArray?.bind fun f => (f.addItems? items).bind (·.value.toOption)) =
      shape.of? (.array items) := by
  cases shape with
  | anything lenient =>
    show ((Frame.anyArray lenient).addItems? items).bind _ = _
    rw [Frame.addItems?_any]
    rfl
  | list item =>
    show ((Frame.list item []).addItems? items).bind _ = _
    rw [Frame.addItems?_list, Shape.of?]
    cases item.allOf? items with
    | none => rfl
    | some ds => simp [Frame.value, Except.toOption]
  | record type =>
    have hrecord := Frame.addItems?_tuple type items [] (Nat.zero_le _)
    simpa [Shape.openArray?, Shape.of?] using hrecord
  | _ => rfl

/-! ## Objects -/

namespace Frame

theorem addMember?_eq {f keyed : Frame} {key : String} (h : f.key key = .ok keyed) (j : Json) :
    f.addMember? key j = keyed.addItem? j := by
  rw [addMember?, h]
  rfl

section

variable {type : RecordType} {slots : List (Option Datum)} {key : String} (j : Json)

/-- A member that no field has the key of changes nothing, whatever its value. -/
theorem addMember?_other (hkey : type.fields.findIdx? (·.key == key) = none) :
    (object type slots none).addMember? key j = some (object type slots none) := by
  have hkeyed : (object type slots none).key key = .ok (object type slots none) := by
    simp [Frame.key, hkey]
  have hnext : (object type slots none).nextShape? = some (.anything true) := rfl
  rw [addMember?_eq hkeyed, addItem?_eq hnext, Shape.of?_anything]
  rfl

variable {i : Nat} {f : Field}

/-- A member for a field whose slot is empty fills the slot. -/
theorem addMember?_first (hkey : type.fields.findIdx? (·.key == key) = some i)
    (hf : type.fields[i]? = some f) (hslot : slots[i]? = some none) :
    (object type slots none).addMember? key j =
      (f.shape.of? j).map fun d => object type (slots.set i (some d)) none := by
  have hkeyed : (object type slots none).key key = .ok (object type slots (some i)) := by
    simp [Frame.key, hkey, hslot]
  have hnext : (object type slots (some i)).nextShape? = some f.shape := by
    simp [nextShape?, hf]
  rw [addMember?_eq hkeyed, addItem?_eq hnext]
  rfl

/-- A second member for a field is a fault, whatever its value. -/
theorem addMember?_second {d : Datum} (hkey : type.fields.findIdx? (·.key == key) = some i)
    (hslot : slots[i]? = some (some d)) : (object type slots none).addMember? key j = none := by
  have hkeyed : (object type slots none).key key = .error .mismatch := by
    simp [Frame.key, hkey, hslot]
  rw [addMember?, hkeyed]
  rfl

end

/-- The members of an object that is read as a record fill slots. -/
theorem addMembers?_object (type : RecordType) (members : List (String × Json))
    (slots : List (Option Datum)) (h : slots.length = type.fields.length) :
    ((object type slots none).addMembers? members).bind (·.value.toOption) =
      (membersOf? type.fields slots members).map .record := by
  induction members generalizing slots with
  | nil =>
    show (value.recordOf type slots).toOption = _
    rw [value.recordOf, membersOf?]
    cases complete? type.fields slots <;> rfl
  -- by the member's key: none of the fields', a second of its name, or a first
  | cons member members ih =>
    rcases member with ⟨key, j⟩
    rw [addMembers?_cons, membersOf?]
    cases hkey : type.fields.findIdx? (·.key == key) with
    | none =>
      rw [addMember?_other j hkey]
      exact ih slots h
    | some i =>
      have hi : i < type.fields.length := (List.findIdx?_eq_some_iff_findIdx_eq.mp hkey).1
      have hf : type.fields[i]? = some type.fields[i] := List.getElem?_eq_getElem hi
      have hslot : slots[i]? = some slots[i] := List.getElem?_eq_getElem (h ▸ hi)
      cases hs : slots[i] with
      | some d =>
        rw [hs] at hslot
        simp only [addMember?_second j hkey hslot, hf, hslot]
        rfl
      | none =>
        rw [hs] at hslot
        simp only [addMember?_first j hkey hf hslot, hf, hslot]
        cases type.fields[i].shape.of? j with
        | none => rfl
        | some d => exact ih _ (by simpa using h)

end Frame

/-- What is read of an object is the value that it has. -/
theorem openObject?_eq (shape : Shape) (members : List (String × Json)) :
    (shape.openObject?.bind fun f => (f.addMembers? members).bind (·.value.toOption)) =
      shape.of? (.object members) := by
  cases shape with
  | anything lenient =>
    show ((Frame.anyObject lenient).addMembers? members).bind _ = _
    rw [Frame.addMembers?_any]
    rfl
  | record type => exact Frame.addMembers?_object type members _ (by simp)
  | _ => rfl

end SyntaxTrees.Json

import SyntaxTrees.Proofs.Json.Value

/-!
# Variants of documents

Two documents are variants for a shape if one becomes the other by changes that a reader of the shape
does not notice, at any depth: the order of members, members that no field has the key of, defaults
that are written or left out, and records that are written as arrays or as objects. Variants have the
same value (`Library.Lawful.read_variant`).
-/

namespace SyntaxTrees.Json

/-- The documents differ only in what a reader of the shape does not notice. Defaults are written out
by the given code. -/
inductive Variant (D : Derived) : Shape → Json → Json → Prop where
  | refl (shape : Shape) (j : Json) : Variant D shape j j
  | symm {shape : Shape} {j j' : Json} (h : Variant D shape j j') : Variant D shape j' j
  | trans {shape : Shape} {j j' j'' : Json} (h : Variant D shape j j')
      (h' : Variant D shape j' j'') : Variant D shape j j''
  /-- An item of a list. -/
  | item {item : Shape} {j j' : Json} (front back : List Json) (h : Variant D item j j') :
      Variant D (.list item) (.array (front ++ j :: back)) (.array (front ++ j' :: back))
  /-- The value of a field in an object. -/
  | member {type : RecordType} {f : Field} {j j' : Json} (front back : List (String × Json))
      (hf : f ∈ type.fields) (h : Variant D f.shape j j') :
      Variant D (.record type) (.object (front ++ (f.key, j) :: back))
        (.object (front ++ (f.key, j') :: back))
  /-- The value of a field in an array. -/
  | position {type : RecordType} {f : Field} {j j' : Json} (front back : List Json)
      (hf : type.fields[front.length]? = some f) (h : Variant D f.shape j j') :
      Variant D (.record type) (.array (front ++ j :: back)) (.array (front ++ j' :: back))
  /-- The order of members. -/
  | order {type : RecordType} {members members' : List (String × Json)}
      (h : members.Perm members') : Variant D (.record type) (.object members) (.object members')
  /-- A member that no field has the key of. -/
  | unknown {type : RecordType} {key : String} (hkey : ∀ f ∈ type.fields, f.key ≠ key) (j : Json)
      (members : List (String × Json)) :
      Variant D (.record type) (.object ((key, j) :: members)) (.object members)
  /-- A default in an object. -/
  | default {type : RecordType} {f : Field} {d : Datum} {members : List (String × Json)}
      (hf : f ∈ type.fields) (hd : f.default? = some d) (hmissing : ∀ m ∈ members, m.1 ≠ f.key) :
      Variant D (.record type) (.object ((f.key, D.write f.shape d) :: members)) (.object members)
  /-- A default at the end of an array. -/
  | trailing {type : RecordType} {f : Field} {d : Datum} {items : List Json}
      (hf : type.fields[items.length]? = some f) (hd : f.default? = some d) :
      Variant D (.record type) (.array (items ++ [D.write f.shape d])) (.array items)
  /-- An array of the values of fields, and the object of these fields. -/
  | positional {type : RecordType} {items : List Json} (h : items.length ≤ type.fields.length) :
      Variant D (.record type) (.array items) (.object ((type.fields.map Field.key).zip items))

/-! ## Values of members -/

/-- Which of the values comes first does not matter, as there must not be two. -/
theorem Field.choose_perm {f : Field} {ds ds' : List (Option Datum)} (h : ds.Perm ds') :
    f.choose ds = f.choose ds' := by
  match ds, ds', h.length_eq with
  | [], [], _ => rfl
  | [d], [d'], _ => rw [List.perm_singleton.mp h]
  | _ :: _ :: _, _ :: _ :: _, _ => rfl

namespace Derived

variable {D : Derived} {f : Field} {members members' : List (String × Json)}

theorem valuesFor_perm (h : members.Perm members') :
    (D.valuesFor f members).Perm (D.valuesFor f members') := ((h.filter _).map _).map _

/-- Of the value of a member, only what is read of it matters. -/
theorem valuesFor_middle {key : String} {j j' : Json} (front back : List (String × Json))
    (h : f.key = key → D.read? f.shape j = D.read? f.shape j') :
    D.valuesFor f (front ++ (key, j) :: back) = D.valuesFor f (front ++ (key, j') :: back) := by
  rw [valuesFor, valuesFor, valuesOf_append, valuesOf_append]
  by_cases hkey : f.key = key
  · subst hkey
    simp [valuesOf_cons_self, h rfl]
  · rw [valuesOf_cons_of_ne hkey, valuesOf_cons_of_ne hkey]

end Derived

namespace Library

variable {L : Library}

namespace Lawful

variable (hL : L.Lawful)
include hL

/-! ## Arrays of values -/

/-- Of a document among the values of fields, only the value matters. -/
theorem readItems_middle {fields : List Field} {f : Field} {front : List Json} {j j' : Json}
    (hf : fields[front.length]? = some f) (h : L.derived.read? f.shape j = L.derived.read? f.shape j')
    (back : List Json) :
    L.readItems? fields (front ++ j :: back) = L.readItems? fields (front ++ j' :: back) := by
  induction front generalizing fields with
  -- the items that differ stand for `f` itself
  | nil =>
    cases fields with
    | nil => cases hf
    | cons g fields =>
      cases hf
      rw [List.nil_append, List.nil_append, hL.readItems_next, hL.readItems_next, h]
  -- they stand further on
  | cons i front ih =>
    cases fields with
    | nil => cases hf
    | cons g fields =>
      rw [List.cons_append, List.cons_append, hL.readItems_next, hL.readItems_next, ih hf]

/-- A default behind the other values may be left out. -/
theorem readItems_trailing {fields : List Field} {f : Field} {d : Datum} {items : List Json}
    {j : Json} (hf : fields[items.length]? = some f) (hd : f.default? = some d)
    (hj : L.derived.read? f.shape j = some d) :
    L.readItems? fields (items ++ [j]) = L.readItems? fields items := by
  induction items generalizing fields with
  -- the default and the item read give the same datum
  | nil =>
    cases fields with
    | nil => cases hf
    | cons g fields =>
      cases hf
      rw [List.nil_append, hL.readItems_next, hL.readItems_end, hL.readItems_end, mapM_cons_eq, hj,
        hd]
  | cons i items ih =>
    cases fields with
    | nil => cases hf
    | cons g fields =>
      rw [List.cons_append, hL.readItems_next, hL.readItems_next, ih hf]

/-- The values of fields in their order are what the members with their keys are. -/
theorem readItems?_eq {fields : List Field} (hkeys : (fields.map Field.key).Nodup)
    {items : List Json} (h : items.length ≤ fields.length) :
    L.readItems? fields items = fields.mapM fun f : Field =>
      f.choose (L.derived.valuesFor f ((fields.map Field.key).zip items)) := by
  induction fields generalizing items with
  | nil =>
    rw [List.eq_nil_of_length_eq_zero (Nat.le_zero.mp h), hL.readItems_end]
    rfl
  | cons f fields ih =>
    cases items with
    | nil =>
      rw [hL.readItems_end, List.zip_nil_right]
      rfl
    | cons j items =>
      rw [List.map_cons, List.nodup_cons] at hkeys
      rcases hkeys with ⟨hfirst, hkeys⟩
      have hothers : valuesOf f.key ((fields.map Field.key).zip items) = [] := by
        apply valuesOf_eq_nil
        rintro ⟨key, i⟩ hm rfl
        exact hfirst (List.of_mem_zip hm).1
      -- the first document belongs to the first field and to no other
      have hrest : L.readItems? fields items = fields.mapM fun g : Field => g.choose
          (L.derived.valuesFor g ((f.key, j) :: (fields.map Field.key).zip items)) := by
        rw [ih hkeys (Nat.le_of_succ_le_succ h)]
        apply mapM_congr
        intro g hg
        have hne : g.key ≠ f.key := fun hkey => hfirst (hkey ▸ List.mem_map_of_mem hg)
        rw [Derived.valuesFor, Derived.valuesFor, valuesOf_cons_of_ne hne]
      have hchoose : f.choose (L.derived.valuesFor f
          ((f.key, j) :: (fields.map Field.key).zip items)) = L.derived.read? f.shape j := by
        rw [Derived.valuesFor, valuesOf_cons_self, hothers]
        rfl
      rw [hL.readItems_next, mapM_cons_eq, List.map_cons, List.zip_cons_cons, hrest, hchoose]

theorem readItems_eq_none {fields : List Field} {items : List Json}
    (h : fields.length < items.length) : L.readItems? fields items = none := by
  induction fields generalizing items with
  | nil =>
    -- no field is left for `j`
    cases items with
    | nil => cases h
    | cons j items => exact hL.readItems_beyond j items
  | cons f fields ih =>
    cases items with
    | nil => cases h
    | cons j items =>
      rw [hL.readItems_next, ih (Nat.lt_of_succ_lt_succ h)]
      cases L.derived.read? f.shape j <;> rfl

/-! ## Values of variants -/

/-- Two objects have the same value if every field has the same value in both. -/
theorem read_object_congr {type : RecordType} {members members' : List (String × Json)}
    (h : ∀ f ∈ type.fields,
      f.choose (L.derived.valuesFor f members) = f.choose (L.derived.valuesFor f members')) :
    L.derived.read? (.record type) (.object members) =
      L.derived.read? (.record type) (.object members') := by
  rw [hL.derived.read_members, hL.derived.read_members, mapM_congr h]

/-- Variants have the same value, or both have none. -/
theorem read_variant {shape : Shape} {j j' : Json} (h : Variant L.derived shape j j') :
    L.derived.read? shape j = L.derived.read? shape j' := by
  induction h with
  | refl => rfl
  | symm _ ih => exact ih.symm
  | trans _ _ ih ih' => exact ih.trans ih'
  | item front back _ ih =>
    rw [hL.derived.read_list, hL.derived.read_list, mapM_middle, mapM_middle, ih]
  | @member type f j j' front back hf _ ih =>
    apply hL.read_object_congr
    intro g hg
    have hsame : g.key = f.key → L.derived.read? g.shape j = L.derived.read? g.shape j' := by
      intro hkey
      rw [type.eq_of_key hg hf hkey]
      exact ih
    rw [Derived.valuesFor_middle front back hsame]
  | position front back hf _ ih =>
    rw [hL.read_array, hL.read_array, hL.readItems_middle hf ih]
  | order h =>
    apply hL.read_object_congr
    intro f _
    exact Field.choose_perm (Derived.valuesFor_perm h)
  | unknown hkey j members =>
    apply hL.read_object_congr
    intro f hf
    rw [Derived.valuesFor, valuesOf_cons_of_ne (hkey f hf), ← Derived.valuesFor]
  | @default type f d members hf hd hmissing =>
    apply hL.read_object_congr
    intro g hg
    by_cases hkey : g.key = f.key
    · -- the member that is written out has the value that stands in for it when it is missing
      cases type.eq_of_key hg hf hkey
      have hwritten := hL.derived.read_write (type.admits_default f hf d hd)
      rw [Derived.valuesFor, Derived.valuesFor, valuesOf_cons_self, valuesOf_eq_nil hmissing]
      exact hwritten.trans hd.symm
    · rw [Derived.valuesFor, valuesOf_cons_of_ne hkey, ← Derived.valuesFor]
  | @trailing type f d items hf hd =>
    have hwritten := hL.derived.read_write
      (type.admits_default f (List.mem_of_getElem? hf) d hd)
    rw [hL.read_array, hL.read_array, hL.readItems_trailing hf hd hwritten]
  | @positional type items h =>
    rw [hL.read_array, hL.derived.read_members, hL.readItems?_eq type.nodup_keys h]

end Lawful

end Library

end SyntaxTrees.Json

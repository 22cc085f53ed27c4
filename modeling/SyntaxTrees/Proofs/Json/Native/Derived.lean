import SyntaxTrees.Json.Native.Derived
import SyntaxTrees.Proofs.Json.Value

/-!
# Generated code of this development

`Derived.native` is lawful (`Derived.native_lawful`).
-/

namespace SyntaxTrees.Json

theorem Shape.writeItems_eq_map (item : Shape) (ds : List Datum) :
    item.writeItems ds = ds.map item.write := by
  induction ds with
  | nil => rfl
  | cons d ds ih => rw [writeItems, ih, List.map_cons]

theorem Shape.allOf?_eq_mapM (item : Shape) (items : List Json) :
    item.allOf? items = items.mapM item.of? := by
  induction items with
  | nil => rfl
  | cons j items ih =>
    rw [allOf?, ih, mapM_cons_eq]
    cases item.of? j with
    | none => rfl
    | some d => cases items.mapM item.of? <;> rfl

theorem itemsOf?_cons (f : Field) (fields : List Field) (j : Json) (items : List Json) :
    itemsOf? (f :: fields) (j :: items) =
      (f.shape.of? j).bind fun d => (itemsOf? fields items).map (d :: ·) := by
  rw [itemsOf?]
  cases f.shape.of? j with
  | none => rfl
  | some d => cases itemsOf? fields items <;> rfl

/-- A key leads to the field that it is the key of. -/
theorem findIdx?_key {fields : List Field} (hkeys : (fields.map Field.key).Nodup) {i : Nat}
    {f : Field} (h : fields[i]? = some f) : fields.findIdx? (·.key == f.key) = some i := by
  rcases List.getElem?_eq_some_iff.mp h with ⟨hi, rfl⟩
  rw [List.findIdx?_eq_some_iff_getElem]
  refine ⟨hi, by simp, fun j hji => ?_⟩
  have hne := List.pairwise_iff_getElem.mp hkeys j i (by simp; omega) (by simpa using hi) hji
  simpa using hne

theorem membersOf?_other {fields : List Field} {key : String} (h : ∀ f ∈ fields, f.key ≠ key)
    (slots : List (Option Datum)) (j : Json) (members : List (String × Json)) :
    membersOf? fields slots ((key, j) :: members) = membersOf? fields slots members := by
  have hnone : fields.findIdx? (·.key == key) = none := by
    simpa [List.findIdx?_eq_none_iff] using h
  rw [membersOf?, hnone]

section

variable {fields : List Field} {slots : List (Option Datum)} {i : Nat} {f : Field}

theorem membersOf?_first (hkeys : (fields.map Field.key).Nodup) (hf : fields[i]? = some f)
    (hslot : slots[i]? = some none) (j : Json) (members : List (String × Json)) :
    membersOf? fields slots ((f.key, j) :: members) =
      (f.shape.of? j).bind fun d => membersOf? fields (slots.set i (some d)) members := by
  rw [membersOf?, findIdx?_key hkeys hf]
  simp only [hf, hslot]
  rfl

theorem membersOf?_second {d : Datum} (hkeys : (fields.map Field.key).Nodup)
    (hf : fields[i]? = some f) (hslot : slots[i]? = some (some d)) (j : Json)
    (members : List (String × Json)) : membersOf? fields slots ((f.key, j) :: members) = none := by
  rw [membersOf?, findIdx?_key hkeys hf]
  simp only [hf, hslot]

end

theorem Derived.native_lawful : Derived.native.Lawful where
  write_number _ := rfl
  write_flag _ := rfl
  write_text _ := rfl
  write_present _ := rfl
  write_absent := rfl
  read_number {n} h := by
    show (natural? (toString n).toList).map Datum.number = _
    rw [natural?_toString h]
    rfl
  read_flag _ := rfl
  read_text _ := rfl
  read_present _ := rfl
  read_absent := rfl
  write_list item ds := congrArg Json.array (item.writeItems_eq_map ds)
  read_list item items := congrArg (Option.map Datum.list) (item.allOf?_eq_mapM items)
  write_record _ _ := rfl
  writeFields_nil := rfl
  writeFields_cons _ _ _ _ := rfl
  read_object _ _ := rfl
  readMembers_other := membersOf?_other
  readMembers_first := membersOf?_first
  readMembers_second := membersOf?_second
  readMembers_end _ _ := rfl

end SyntaxTrees.Json

import Mathlib.Data.List.Forall2
import Mathlib.Data.List.Nodup
import SyntaxTrees.Proofs.Json.Law

/-!
# Values of documents

The laws of generated code speak of one member at a time. An object as a whole comes to this: each
field takes its value from the members that have its key (`Field.choose`), which must not be two
(`Derived.Lawful.read_members`). The induction is on the members, and a slot that has been filled
counts as a member that came before (`Field.settle`).

Fields that were left out come back as their defaults, because a blank value is the default of every
field that may be left out (`RecordType.isSound`). So the document of a value has this value
(`Derived.Lawful.read_write`).
-/

namespace SyntaxTrees.Json

open Text (wordLimit)

/-! ## Partial functions on lists -/

theorem mapM_cons_eq {α β : Type} (g : α → Option β) (a : α) (l : List α) :
    (a :: l).mapM g = (g a).bind fun b => (l.mapM g).map (b :: ·) := by
  rw [List.mapM_cons]
  cases g a with
  | none => rfl
  | some b => cases l.mapM g <;> rfl

theorem mapM_congr {α β : Type} {g g' : α → Option β} {l : List α} (h : ∀ a ∈ l, g a = g' a) :
    l.mapM g = l.mapM g' := by
  induction l with
  | nil => rfl
  | cons a l ih =>
    rw [mapM_cons_eq, mapM_cons_eq, h a List.mem_cons_self,
      ih fun b hb => h b (List.mem_cons_of_mem a hb)]

theorem mapM_middle {α β : Type} (g : α → Option β) (front : List α) (a : α) (back : List α) :
    (front ++ a :: back).mapM g =
      (front.mapM g).bind fun bs =>
        (g a).bind fun b => (back.mapM g).map fun cs => bs ++ b :: cs := by
  rw [List.mapM_append, mapM_cons_eq]
  cases front.mapM g with
  | none => rfl
  | some bs =>
    cases g a with
    | none => rfl
    | some b => cases back.mapM g <;> rfl

/-! ## The tables of fields -/

theorem forall₂_iff_getElem? {α β : Type} {R : α → β → Prop} {l : List α} {l' : List β} :
    List.Forall₂ R l l' ↔
      l.length = l'.length ∧ ∀ (i : Nat) (a : α) (b : β), l[i]? = some a → l'[i]? = some b → R a b := by
  rw [List.forall₂_iff_get]
  refine and_congr_right fun _ => ⟨fun h i a b ha hb => ?_, fun h i hi hi' => ?_⟩
  · rcases List.getElem?_eq_some_iff.mp ha with ⟨hi, rfl⟩
    rcases List.getElem?_eq_some_iff.mp hb with ⟨hi', rfl⟩
    exact h i hi hi'
  · exact h i _ _ (List.getElem?_eq_getElem hi) (List.getElem?_eq_getElem hi')

namespace Shape

/-- There is a value of the right shape for each field. -/
theorem admits_record_iff {type : RecordType} {values : List Datum} :
    (record type).Admits (.record values) ↔
      List.Forall₂ (fun f d => f.shape.Admits d) type.fields values := by
  rw [forall₂_iff_getElem?]
  constructor
  · intro h
    cases h with
    | record hlength h => exact ⟨hlength, h⟩
  · rintro ⟨hlength, h⟩
    exact .record hlength h

end Shape

/-- A value that the field is left out for is the one that stands in for it when it is missing. -/
def Field.IsSound (f : Field) : Prop :=
  f.omitsBlank → ∀ d, f.shape.Admits d → d.isBlank → f.default? = some d

namespace RecordType

theorem isSound (type : RecordType) : ∀ f ∈ type.fields, f.IsSound := by
  have hplain : ∀ f : Field, f.omitsBlank = false → f.IsSound := by
    intro f hf h
    rw [hf] at h
    cases h
  -- each kind of optional field has one blank value, and that is its default
  have htext : ∀ key, (Field.optional key .optionalText .absent).IsSound := by
    intro key _ d hd hblank
    cases d with
    | absent => rfl
    | text s => cases hblank
    | _ => cases hd
  have hflag : ∀ key, (Field.optional key .flag (.flag false)).IsSound := by
    intro key _ d hd hblank
    cases d with
    | flag b =>
      cases b with
      | false => rfl
      | true => cases hblank
    | _ => cases hd
  have hlist : ∀ key item, (Field.optional key (.list item) (.list [])).IsSound := by
    intro key item _ d hd hblank
    cases d with
    | list items =>
      cases items with
      | nil => rfl
      | cons d rest => cases hblank
    | _ => cases hd
  cases type <;> simp [fields, hplain, htext, hflag, hlist]

/-- No two fields have one key. -/
theorem nodup_keys (type : RecordType) : (type.fields.map Field.key).Nodup := by
  cases type <;> decide

theorem eq_of_key {type : RecordType} {f g : Field} (hf : f ∈ type.fields) (hg : g ∈ type.fields)
    (h : f.key = g.key) : f = g := List.inj_on_of_nodup_map type.nodup_keys hf hg h

/-- A default has the shape of its field. -/
theorem admits_default (type : RecordType) :
    ∀ f ∈ type.fields, ∀ d, f.default? = some d → f.shape.Admits d := by
  have hlist : ∀ item : Shape, (Shape.list item).Admits (.list []) := fun item => .list nofun
  cases type <;> simp [fields, Field.optional, Shape.Admits.absent, Shape.Admits.flag, hlist]

end RecordType

/-! ## Fields and members -/

/-- The values of the members that have the key, in their order. -/
def valuesOf (key : String) (members : List (String × Json)) : List Json :=
  (members.filter (·.1 == key)).map (·.2)

theorem valuesOf_cons_self (key : String) (j : Json) (members : List (String × Json)) :
    valuesOf key ((key, j) :: members) = j :: valuesOf key members := by
  simp [valuesOf]

theorem valuesOf_cons_of_ne {key key' : String} (h : key ≠ key') (j : Json)
    (members : List (String × Json)) :
    valuesOf key ((key', j) :: members) = valuesOf key members := by
  simp [valuesOf, Ne.symm h]

theorem valuesOf_append (key : String) (front back : List (String × Json)) :
    valuesOf key (front ++ back) = valuesOf key front ++ valuesOf key back := by
  simp [valuesOf]

theorem valuesOf_eq_nil {key : String} {members : List (String × Json)}
    (h : ∀ m ∈ members, m.1 ≠ key) : valuesOf key members = [] := by
  have hnone : members.filter (·.1 == key) = [] := by simpa using h
  rw [valuesOf, hnone]
  rfl

namespace Field

/-- The value of a field, from the values of the members that have its key, each `none` if it is not
of the field's shape. A second member is a fault, and a missing one unless the field has a default.
-/
def choose (f : Field) : List (Option Datum) → Option Datum
  | [] => f.default?
  | [d] => d
  | _ => none

/-- The value of a field when there are further members: a slot that has been filled counts as a
member that came before. -/
def settle (f : Field) (slot : Option Datum) (values : List (Option Datum)) : Option Datum :=
  f.choose (slot.toList.map some ++ values)

theorem settle_nil (f : Field) (slot : Option Datum) : f.settle slot [] = slot.or f.default? := by
  cases slot <;> rfl

end Field

/-- A key is the key of one field or of none. -/
theorem key_cases {fields : List Field} (hkeys : (fields.map Field.key).Nodup) (key : String) :
    (∀ f ∈ fields, f.key ≠ key) ∨
      ∃ front f back, fields = front ++ f :: back ∧ f.key = key ∧
        (∀ g ∈ front, g.key ≠ key) ∧ ∀ g ∈ back, g.key ≠ key := by
  by_cases h : ∃ f ∈ fields, f.key = key
  · rcases h with ⟨f, hf, rfl⟩
    -- the key stands at one place, since no two fields share it
    rcases List.append_of_mem hf with ⟨front, back, rfl⟩
    rw [List.map_append, List.map_cons, List.nodup_append, List.nodup_cons] at hkeys
    rcases hkeys with ⟨-, ⟨hback, -⟩, hfront⟩
    refine .inr ⟨front, f, back, rfl, rfl, ?_, ?_⟩
    · intro g hg
      exact hfront g.key (List.mem_map_of_mem hg) f.key List.mem_cons_self
    · intro g hg hkey
      exact hback (hkey ▸ List.mem_map_of_mem hg)
  · exact .inl fun f hf hkey => h ⟨f, hf, hkey⟩

namespace Derived

/-- The values of the members that have the key of the field. -/
def valuesFor (D : Derived) (f : Field) (members : List (String × Json)) : List (Option Datum) :=
  (valuesOf f.key members).map (D.read? f.shape)

/-- The values of fields when there are further members. -/
def settleAll (D : Derived) (fields : List Field) (slots : List (Option Datum))
    (members : List (String × Json)) : Option (List Datum) :=
  (fields.zip slots).mapM fun pair => pair.1.settle pair.2 (D.valuesFor pair.1 members)

section

variable (D : Derived) {fields : List Field} {slots : List (Option Datum)} {key : String} {j : Json}
  {members : List (String × Json)}

theorem settleAll_nil (fields : List Field) (slots : List (Option Datum)) :
    D.settleAll fields slots [] = complete? fields slots := by
  have hnone (f : Field) : D.valuesFor f [] = [] := rfl
  simp only [settleAll, complete?, hnone, Field.settle_nil]

theorem settleAll_cons_of_ne (h : ∀ f ∈ fields, f.key ≠ key) :
    D.settleAll fields slots ((key, j) :: members) = D.settleAll fields slots members := by
  apply mapM_congr
  rintro ⟨f, slot⟩ hf
  rw [valuesFor, valuesOf_cons_of_ne (h f (List.of_mem_zip hf).1), ← valuesFor]

/-- The fields in front of a field and those behind it are settled on their own. -/
theorem settleAll_middle {front : List Field} {before : List (Option Datum)}
    (h : front.length = before.length) (f : Field) (back : List Field) (slot : Option Datum)
    (behind : List (Option Datum)) (members : List (String × Json)) :
    D.settleAll (front ++ f :: back) (before ++ slot :: behind) members =
      (D.settleAll front before members).bind fun ds =>
        (f.settle slot (D.valuesFor f members)).bind fun d =>
          (D.settleAll back behind members).map fun es => ds ++ d :: es := by
  rw [settleAll, List.zip_append h, List.zip_cons_cons, mapM_middle]
  rfl

end

namespace Lawful

variable {D : Derived} (hD : D.Lawful)
include hD

/-- The members of an object settle the fields. -/
theorem readMembers?_eq {fields : List Field} (hkeys : (fields.map Field.key).Nodup)
    (members : List (String × Json)) (slots : List (Option Datum))
    (h : slots.length = fields.length) :
    D.readMembers? fields slots members = D.settleAll fields slots members := by
  induction members generalizing slots with
  | nil => rw [hD.readMembers_end, settleAll_nil]
  | cons member members ih =>
    rcases member with ⟨key, j⟩
    rcases key_cases hkeys key with hothers | ⟨front, f, back, rfl, rfl, hfront, hback⟩
    · rw [hD.readMembers_other hothers, settleAll_cons_of_ne D hothers]
      exact ih slots h
    · -- the slot of the field stands between those of the others
      obtain ⟨before, slot, behind, rfl, hbefore⟩ : ∃ before slot behind,
          slots = before ++ slot :: behind ∧ front.length = before.length := by
        have hlength : front.length < slots.length := by
          simp [h]
        refine ⟨slots.take front.length, slots[front.length], slots.drop (front.length + 1), ?_, ?_⟩
        · simp
        · simp
          omega
      have hf : (front ++ f :: back)[front.length]? = some f := by simp
      have hslot : (before ++ slot :: behind)[front.length]? = some slot := by simp [hbefore]
      rw [settleAll_middle D hbefore, settleAll_cons_of_ne D hfront, settleAll_cons_of_ne D hback,
        valuesFor, valuesOf_cons_self, List.map_cons]
      cases slot with
      | some d =>
        -- the field has its value already
        rw [hD.readMembers_second hkeys hf hslot]
        have hsecond : f.settle (some d) (D.read? f.shape j :: D.valuesFor f members) = none := rfl
        rw [← valuesFor, hsecond]
        simp
      | none =>
        rw [hD.readMembers_first hkeys hf hslot]
        cases D.read? f.shape j with
        | none =>
          have hfault : f.settle none (none :: D.valuesFor f members) = none := by
            cases D.valuesFor f members <;> rfl
          rw [← valuesFor, hfault]
          simp
        | some d =>
          -- the slot is filled, and from now on the value counts as one that was there
          have hset : (before ++ none :: behind).set front.length (some d) =
              before ++ some d :: behind := by
            simp [hbefore]
          rw [Option.bind_some, hset, ih _ (by simpa using h), settleAll_middle D hbefore]
          rfl

/-- An object has the value whose fields are chosen from its members. -/
theorem read_members (type : RecordType) (members : List (String × Json)) :
    D.read? (.record type) (.object members) =
      (type.fields.mapM fun f : Field => f.choose (D.valuesFor f members)).map .record := by
  rw [hD.read_object, hD.readMembers?_eq type.nodup_keys members _ (by simp), settleAll,
    ← List.map_prod_left_eq_zip, List.mapM_map]
  rfl

/-! ## Written values -/

/-- Members are written for the fields only. -/
theorem mem_writeFields {fields : List Field} {values : List Datum}
    (hlength : fields.length = values.length) {m : String × Json}
    (hm : m ∈ D.writeFields fields values) :
    ∃ (i : Nat) (f : Field) (d : Datum), fields[i]? = some f ∧ values[i]? = some d ∧
      m = (f.key, D.write f.shape d) := by
  induction fields generalizing values with
  | nil =>
    rw [List.eq_nil_of_length_eq_zero hlength.symm, hD.writeFields_nil] at hm
    cases hm
  | cons f fields ih =>
    cases values with
    | nil => cases hlength
    | cons d values =>
      -- a member of the tail, one field further
      have hrest : m ∈ D.writeFields fields values → ∃ (i : Nat) (g : Field) (e : Datum),
          (f :: fields)[i]? = some g ∧ (d :: values)[i]? = some e ∧
            m = (g.key, D.write g.shape e) := by
        intro hm
        rcases ih (Nat.succ.inj hlength) hm with ⟨i, g, e, hg, he, heq⟩
        exact ⟨i + 1, g, e, hg, he, heq⟩
      rw [hD.writeFields_cons] at hm
      split at hm
      · exact hrest hm
      · rcases List.mem_cons.mp hm with rfl | hm
        · exact ⟨0, f, d, rfl, rfl, rfl⟩
        · exact hrest hm

/-- What is written for fields is chosen for them again, whatever stands in front. -/
theorem choose_writeFields {fields : List Field} {values : List Datum}
    (hkeys : (fields.map Field.key).Nodup) (hsound : ∀ f ∈ fields, f.IsSound)
    (h : List.Forall₂ (fun f d => f.shape.Admits d ∧
      D.read? f.shape (D.write f.shape d) = some d) fields values)
    (front : List (String × Json)) (hfront : ∀ f ∈ fields, valuesOf f.key front = []) :
    (fields.mapM fun f : Field =>
      f.choose (D.valuesFor f (front ++ D.writeFields fields values))) = some values := by
  induction h generalizing front with
  | nil => rfl
  | @cons f d fields values hfirst hrest ih =>
    rcases hfirst with ⟨hd, hread⟩
    rw [List.map_cons, List.nodup_cons] at hkeys
    rcases hkeys with ⟨hnew, hkeys⟩
    have hsound' : ∀ g ∈ fields, g.IsSound := fun g hg => hsound g (List.mem_cons_of_mem f hg)
    have hfront' : ∀ g ∈ fields, valuesOf g.key front = [] :=
      fun g hg => hfront g (List.mem_cons_of_mem f hg)
    have hbefore : valuesOf f.key front = [] := hfront f List.mem_cons_self
    -- no later field has the key of this one
    have hbehind : valuesOf f.key (D.writeFields fields values) = [] := by
      apply valuesOf_eq_nil
      intro m hm hkey
      rcases hD.mem_writeFields hrest.length_eq hm with ⟨i, g, e, hg, -, rfl⟩
      exact hnew (hkey ▸ List.mem_map_of_mem (List.mem_of_getElem? hg))
    rw [hD.writeFields_cons, mapM_cons_eq]
    split
    · next hblank =>
      -- the field was left out, and its default is the value
      rw [Bool.and_eq_true] at hblank
      have hdefault := hsound f List.mem_cons_self hblank.1 d hd hblank.2
      have hchoose : f.choose (D.valuesFor f (front ++ D.writeFields fields values)) = some d := by
        rw [valuesFor, valuesOf_append, hbefore, hbehind]
        exact hdefault
      rw [ih hkeys hsound' front hfront', hchoose]
      rfl
    · -- the member of the field stands in front of the others
      have hmove : front ++ (f.key, D.write f.shape d) :: D.writeFields fields values =
          (front ++ [(f.key, D.write f.shape d)]) ++ D.writeFields fields values := by simp
      have hchoose : f.choose (D.valuesFor f
          (front ++ (f.key, D.write f.shape d) :: D.writeFields fields values)) = some d := by
        rw [valuesFor, valuesOf_append, hbefore, valuesOf_cons_self, hbehind]
        exact hread
      have hfront'' : ∀ g ∈ fields, valuesOf g.key (front ++ [(f.key, D.write f.shape d)]) = [] := by
        intro g hg
        have hne : g.key ≠ f.key := fun hkey => hnew (hkey ▸ List.mem_map_of_mem hg)
        rw [valuesOf_append, hfront' g hg, valuesOf_cons_of_ne hne]
        rfl
      rw [hchoose, hmove, ih hkeys hsound' _ hfront'']
      rfl

/-- The document of a value has this value. -/
theorem read_write {shape : Shape} {d : Datum} (h : shape.Admits d) :
    D.read? shape (D.write shape d) = some d := by
  induction h with
  | number h => rw [hD.write_number, hD.read_number h]
  | flag b => rw [hD.write_flag, hD.read_flag]
  | text s => rw [hD.write_text, hD.read_text]
  | present s => rw [hD.write_present, hD.read_present]
  | absent => rw [hD.write_absent, hD.read_absent]
  -- every item is read back by the hypothesis
  | @list item ds _ ih =>
    have hpure : ds.mapM some = some ds := by
      simpa using List.mapM_pure (m := Option) (f := id) (l := ds)
    have hitems : ds.mapM (D.read? item ∘ D.write item) = some ds := (mapM_congr ih).trans hpure
    rw [hD.write_list, hD.read_list, List.mapM_map, hitems]
    rfl
  -- every field is chosen for the member written for it, or defaulted when it was left out
  | @record type values hlength h ih =>
    have hfields : List.Forall₂ (fun f d => f.shape.Admits d ∧
        D.read? f.shape (D.write f.shape d) = some d) type.fields values :=
      forall₂_iff_getElem?.mpr ⟨hlength, fun i f d hf hd => ⟨h i f d hf hd, ih i f d hf hd⟩⟩
    have hchosen := hD.choose_writeFields type.nodup_keys type.isSound hfields [] fun _ _ => rfl
    rw [List.nil_append] at hchosen
    rw [hD.write_record, hD.read_members, hchosen]
    rfl

/-- What is written of a value has natural numbers only. -/
theorem isWhole_write {shape : Shape} {d : Datum} (h : shape.Admits d) :
    (D.write shape d).IsWhole := by
  induction h with
  | @number n =>
    rw [hD.write_number]
    exact .number n
  | flag b =>
    rw [hD.write_flag]
    exact .flag b
  | text s =>
    rw [hD.write_text]
    exact .text s
  | present s =>
    rw [hD.write_present]
    exact .text s
  | absent =>
    rw [hD.write_absent]
    exact .null
  | list _ ih =>
    rw [hD.write_list]
    refine .array fun j hj => ?_
    rcases List.mem_map.mp hj with ⟨d, hd, rfl⟩
    exact ih d hd
  | record hlength _ ih =>
    rw [hD.write_record]
    refine .object fun m hm => ?_
    -- a member written is the write of some field
    rcases hD.mem_writeFields hlength hm with ⟨i, f, d, hf, hd, rfl⟩
    exact ih i f d hf hd

end Lawful

end Derived

end SyntaxTrees.Json

import SyntaxTrees.Proofs.Json.Delimited
import SyntaxTrees.Proofs.Json.Variant

/-!
# Documents of dumps

Which documents are read as dumps, key by key (`Dump.documents_of_dumps`): what the tables of fields
and the laws of the generated code come to for dumps and for the spans and positions in them.
-/

namespace SyntaxTrees

namespace Json

/-! ## Numbers and pairs -/

/-- The document is a natural number below `2 ^ 64` that is spelt in digits. -/
def IsNatural (j : Json) (n : Nat) : Prop :=
  ∃ spelling, j = .number spelling ∧ natural? spelling.toList = some n

/-- The document holds two numbers: an object that has each of two keys once, or an array. -/
inductive IsPair (first second : String) : Json → Nat → Nat → Prop where
  | object {members : List (String × Json)} {a b : Json} {m n : Nat}
      (hfirst : valuesOf first members = [a]) (ha : a.IsNatural m)
      (hsecond : valuesOf second members = [b]) (hb : b.IsNatural n) :
      IsPair first second (.object members) m n
  | array {a b : Json} {m n : Nat} (ha : a.IsNatural m) (hb : b.IsNatural n) :
      IsPair first second (.array [a, b]) m n

theorem mapM_eq_some_iff {α β : Type} {g : α → Option β} {l : List α} {bs : List β} :
    l.mapM g = some bs ↔ List.Forall₂ (fun a b => g a = some b) l bs := by
  induction l generalizing bs with
  | nil => simp [eq_comm]
  | cons a l ih =>
    simp [Option.bind_eq_some_iff, List.forall₂_cons_left_iff, ih, @eq_comm _ _ bs]

/-! ## Values of a shape -/

namespace Derived

variable {D : Derived} {f : Field} {members : List (String × Json)} {d : Datum}

/-- A field has a value if there is one member for it that has the value, or if there is none and
the value is the default. -/
theorem choose_eq_some_iff :
    f.choose (D.valuesFor f members) = some d ↔
      valuesOf f.key members = [] ∧ f.default? = some d ∨
        ∃ j, valuesOf f.key members = [j] ∧ D.read? f.shape j = some d := by
  rw [valuesFor]
  rcases valuesOf f.key members with _ | ⟨i, _ | ⟨i', rest⟩⟩ <;> simp [Field.choose]

theorem choose_required_iff (h : f.default? = none) :
    f.choose (D.valuesFor f members) = some d ↔
      ∃ j, valuesOf f.key members = [j] ∧ D.read? f.shape j = some d := by
  simp [choose_eq_some_iff, h]

end Derived

namespace Library

variable {L : Library}

theorem ofJson?_eq_some_iff {α : Type} [Record α] [LawfulRecord α] {j : Json} {a : α} :
    L.ofJson? α j = some a ↔ L.derived.read? (.record (Record.type α)) j = some (toDatum a) := by
  simp [ofJson?, Option.bind_eq_some_iff, LawfulRecord.ofDatum?_eq_some_iff]

namespace Lawful

variable (hL : L.Lawful) {j : Json} {d : Datum}
include hL

theorem read_number_iff :
    L.derived.read? .number j = some d ↔ ∃ n, j.IsNatural n ∧ d = .number n := by
  cases j with
  | number spelling =>
    rw [hL.read_numeral]
    simp [IsNatural, @eq_comm _ _ d]
  | _ =>
    rw [hL.read_mismatch id]
    simp [IsNatural]

theorem read_flag_iff : L.derived.read? .flag j = some d ↔ ∃ b, j = .flag b ∧ d = .flag b := by
  cases j with
  | flag b =>
    rw [hL.derived.read_flag]
    simp [eq_comm]
  | _ =>
    rw [hL.read_mismatch id]
    simp

theorem read_text_iff : L.derived.read? .text j = some d ↔ ∃ s, j = .text s ∧ d = .text s := by
  cases j with
  | text s =>
    rw [hL.derived.read_text]
    simp [eq_comm]
  | _ =>
    rw [hL.read_mismatch id]
    simp

theorem read_optionalText_iff :
    L.derived.read? .optionalText j = some d ↔
      j = .null ∧ d = .absent ∨ ∃ s, j = .text s ∧ d = .text s := by
  cases j with
  | null =>
    rw [hL.derived.read_absent]
    simp [eq_comm]
  | text s =>
    rw [hL.derived.read_present]
    simp [eq_comm]
  | _ =>
    rw [hL.read_mismatch id]
    simp

theorem read_list_iff {item : Shape} :
    L.derived.read? (.list item) j = some d ↔
      ∃ items ds, j = .array items ∧ items.mapM (L.derived.read? item) = some ds ∧
        d = .list ds := by
  cases j with
  | array items =>
    rw [hL.derived.read_list]
    simp [@eq_comm _ _ d]
  | _ =>
    rw [hL.read_mismatch id]
    simp

/-! ## Fields of objects -/

section

variable {key : String} {members : List (String × Json)}

theorem choose_text_iff {s : String} :
    ({ key, shape := .text } : Field).choose
        (L.derived.valuesFor { key, shape := .text } members) = some (.text s) ↔
      valuesOf key members = [.text s] := by
  simp [Derived.choose_required_iff, hL.read_text_iff]

theorem choose_flag_iff {b : Bool} :
    ({ key, shape := .flag } : Field).choose
        (L.derived.valuesFor { key, shape := .flag } members) = some (.flag b) ↔
      valuesOf key members = [.flag b] := by
  simp [Derived.choose_required_iff, hL.read_flag_iff]

theorem choose_optionalFlag_iff {b : Bool} :
    (Field.optional key .flag (.flag false)).choose
        (L.derived.valuesFor (.optional key .flag (.flag false)) members) = some (.flag b) ↔
      valuesOf key members = [] ∧ b = false ∨ valuesOf key members = [.flag b] := by
  simp [Derived.choose_eq_some_iff, hL.read_flag_iff, Field.optional, @eq_comm _ _ b]

/-- A text that may be missing, and what it stands for. -/
theorem choose_optionalText_iff {o : Option String} :
    (Field.optional key .optionalText .absent).choose
        (L.derived.valuesFor (.optional key .optionalText .absent) members) =
          some (Datum.ofOption o) ↔
      (valuesOf key members = [] ∨ valuesOf key members = [.null]) ∧ o = none ∨
        ∃ s, valuesOf key members = [.text s] ∧ o = some s := by
  rw [Derived.choose_eq_some_iff]
  cases o with
  | none => simp [hL.read_optionalText_iff, Field.optional, Datum.ofOption]
  | some s => simp [hL.read_optionalText_iff, Field.optional, Datum.ofOption]

theorem choose_optionalList_iff {item : Shape} {ds : List Datum} :
    (Field.optional key (.list item) (.list [])).choose
        (L.derived.valuesFor (.optional key (.list item) (.list [])) members) = some (.list ds) ↔
      valuesOf key members = [] ∧ ds = [] ∨
        ∃ items, valuesOf key members = [.array items] ∧
          items.mapM (L.derived.read? item) = some ds := by
  rw [Derived.choose_eq_some_iff]
  simp [hL.read_list_iff, Field.optional, @eq_comm _ _ ds]

end

/-! ## Records of two numbers -/

/-- An array of two numbers that have no defaults. -/
theorem readItems_pair_iff {first second : String} {items : List Json} {m n : Nat} :
    L.readItems? [{ key := first, shape := .number }, { key := second, shape := .number }] items =
        some [.number m, .number n] ↔
      ∃ a b : Json, items = [a, b] ∧ a.IsNatural m ∧ b.IsNatural n := by
  match items with
  | [] => simp [hL.readItems_end]
  | [a] => simp [hL.readItems_next, hL.readItems_end]
  | [a, b] =>
    simp [hL.readItems_next, hL.readItems_end, Option.bind_eq_some_iff, hL.read_number_iff]
  | _ :: _ :: _ :: _ =>
    rw [hL.readItems_eq_none (by simp)]
    simp

/-- A record of two numbers that have no defaults. -/
theorem read_pair_iff {type : RecordType} {first second : String}
    (hfields : type.fields =
      [{ key := first, shape := .number }, { key := second, shape := .number }]) {m n : Nat} :
    L.derived.read? (.record type) j = some (.record [.number m, .number n]) ↔
      j.IsPair first second m n := by
  cases j with
  | object members =>
    -- each key has one value, and this is a number
    rw [hL.derived.read_members, hfields]
    simp only [Option.map_eq_some_iff, mapM_eq_some_iff, Datum.record.injEq, exists_eq_right,
      List.forall₂_cons, List.forall₂_nil_left_iff, and_true, Derived.choose_required_iff,
      hL.read_number_iff, Datum.number.injEq, exists_eq_right']
    constructor
    · rintro ⟨⟨a, hfirst, ha⟩, b, hsecond, hb⟩
      exact .object hfirst ha hsecond hb
    · intro hpair
      cases hpair with
      | @object _ a b _ _ hfirst ha hsecond hb => exact ⟨⟨a, hfirst, ha⟩, b, hsecond, hb⟩
  | array items =>
    -- there are two items, both of them numbers
    rw [hL.read_array, hfields]
    simp only [Option.map_eq_some_iff, Datum.record.injEq, exists_eq_right, hL.readItems_pair_iff]
    constructor
    · rintro ⟨a, b, rfl, ha, hb⟩
      exact .array ha hb
    · intro hpair
      cases hpair with
      | @array a b _ _ ha hb => exact ⟨a, b, rfl, ha, hb⟩
  | _ =>
    rw [hL.read_mismatch id]
    constructor
    · intro h
      cases h
    · intro hpair
      cases hpair

theorem position_iff {p : Position} :
    L.derived.read? (.record .position) j = some (toDatum p) ↔
      j.IsPair "row" "column" p.row p.column := hL.read_pair_iff rfl

theorem span_iff {s : Span} :
    L.derived.read? (.record .span) j = some (toDatum s) ↔
      j.IsPair "start" "end" s.start s.stop := hL.read_pair_iff rfl

end Lawful

end Library

end Json

/-! ## Dumps -/

namespace Dump

open Json (valuesOf Shape Datum Variant)
open Json.Rule

/-- The members of an object are those of a dump whose children stand in the given items: each key of
a field stands there once, or not at all if the field has its default, and whatever else stands there
does not matter. -/
structure IsListed (members : List (String × Json)) (items : List Json) (d : Dump) : Prop where
  kind : valuesOf "kind" members = [.text d.kind]
  named : valuesOf "named" members = [.flag d.named]
  field : (valuesOf "field" members = [] ∨ valuesOf "field" members = [.null]) ∧ d.field = none ∨
    ∃ s, valuesOf "field" members = [.text s] ∧ d.field = some s
  range : ∃ j : Json, valuesOf "range" members = [j] ∧
    j.IsPair "start" "end" d.span.start d.span.stop
  start : ∃ j : Json, valuesOf "start" members = [j] ∧
    j.IsPair "row" "column" d.start.row d.start.column
  stop : ∃ j : Json, valuesOf "end" members = [j] ∧
    j.IsPair "row" "column" d.stop.row d.stop.column
  error : valuesOf "error" members = [] ∧ d.error = false ∨
    valuesOf "error" members = [.flag d.error]
  missing : valuesOf "missing" members = [] ∧ d.missing = false ∨
    valuesOf "missing" members = [.flag d.missing]
  children : valuesOf "children" members = [] ∧ items = [] ∨
    valuesOf "children" members = [.array items]

def keys : List String :=
  ["kind", "named", "field", "range", "start", "end", "error", "missing", "children"]

/-- The document is that of a dump: an object that lists its data, or an array in place of the object
that has the items under the keys in their order. -/
inductive Holds : Json → Dump → Prop where
  | object {members : List (String × Json)} {items : List Json} {d : Dump}
      (hlisted : d.IsListed members items) (hchildren : List.Forall₂ Holds items d.children) :
      Holds (.object members) d
  | array {items : List Json} {d : Dump} (hlength : items.length ≤ keys.length)
      (h : Holds (.object (keys.zip items)) d) : Holds (.array items) d

theorem toData_eq_map (ds : List Dump) : toData ds = ds.map toDatum := by
  induction ds with
  | nil => rfl
  | cons d ds ih => rw [toData, ih, List.map_cons]

theorem forall₂_congr_of_mem {α β : Type} {R S : α → β → Prop} {l : List α} {l' : List β}
    (h : ∀ a ∈ l, ∀ b, R a b ↔ S a b) : List.Forall₂ R l l' ↔ List.Forall₂ S l l' := by
  induction l generalizing l' with
  | nil => simp
  | cons a l ih =>
    have hrest := fun l'' => @ih l'' fun b hb => h b (List.mem_cons_of_mem a hb)
    simp [List.forall₂_cons_left_iff, h a List.mem_cons_self, hrest]

variable {L : Json.Library}

/-- The value of an object is a dump if the object lists the dump's data, with documents of the
children among them. -/
theorem read_object_iff (hL : L.Lawful) {members : List (String × Json)} {d : Dump} :
    L.derived.read? (.record .node) (.object members) = some d.toDatum ↔
      ∃ items, d.IsListed members items ∧
        List.Forall₂ (fun j c => L.derived.read? (.record .node) j = some c.toDatum) items
          d.children := by
  -- the fields one by one, each with the values of its key
  rw [hL.derived.read_members]
  cases d with
  | mk kind named field span start stop error missing children =>
  have hspan (j : Json) := hL.span_iff (j := j) (s := span)
  have hstart (j : Json) := hL.position_iff (j := j) (p := start)
  have hstop (j : Json) := hL.position_iff (j := j) (p := stop)
  simp only [toDatum, Option.map_eq_some_iff, Datum.record.injEq, exists_eq_right,
    Json.mapM_eq_some_iff, Json.RecordType.fields, List.forall₂_cons, List.forall₂_nil_left_iff,
    and_true, hL.choose_text_iff, hL.choose_flag_iff, hL.choose_optionalFlag_iff,
    hL.choose_optionalText_iff, hL.choose_optionalList_iff, Json.Derived.choose_required_iff, hspan,
    hstart, hstop, toData_eq_map, List.forall₂_map_right_iff, List.map_eq_nil_iff]
  constructor
  · rintro ⟨hkind, hnamed, hfield, hrange, hstart, hstop, herror, hmissing, hchildren⟩
    -- no children, or a list of them
    rcases hchildren with ⟨hnone, rfl⟩ | ⟨items, hitems, hchildren⟩
    · exact ⟨[], ⟨hkind, hnamed, hfield, hrange, hstart, hstop, herror, hmissing,
        .inl ⟨hnone, rfl⟩⟩, .nil⟩
    · exact ⟨items, ⟨hkind, hnamed, hfield, hrange, hstart, hstop, herror, hmissing, .inr hitems⟩,
        hchildren⟩
  · rintro ⟨items, ⟨hkind, hnamed, hfield, hrange, hstart, hstop, herror, hmissing, hitems⟩,
      hchildren⟩
    refine ⟨hkind, hnamed, hfield, hrange, hstart, hstop, herror, hmissing, ?_⟩
    rcases hitems with ⟨hnone, rfl⟩ | hitems
    · cases hchildren
      exact .inl ⟨hnone, rfl⟩
    · exact .inr ⟨items, hitems, hchildren⟩

/-- An array has the value of the object that has its items under the keys in their order. -/
theorem read_array_eq (hL : L.Lawful) (items : List Json) :
    L.derived.read? (.record .node) (.array items) =
      if items.length ≤ keys.length then
        L.derived.read? (.record .node) (.object (keys.zip items))
      else none := by
  split
  · next hfits =>
    have hpositional : Variant L.derived (.record .node) (.array items) (.object (keys.zip items)) :=
      .positional hfits
    exact hL.read_variant hpositional
  · next hlong =>
    rw [hL.read_array, hL.readItems_eq_none (Nat.lt_of_not_le hlong)]
    rfl

theorem holds_object_iff {members : List (String × Json)} {d : Dump} :
    Holds (.object members) d ↔
      ∃ items, d.IsListed members items ∧ List.Forall₂ Holds items d.children := by
  constructor
  · intro h
    cases h with
    | object hlisted hchildren => exact ⟨_, hlisted, hchildren⟩
  · rintro ⟨items, hlisted, hchildren⟩
    exact .object hlisted hchildren

theorem holds_array_iff {items : List Json} {d : Dump} :
    Holds (.array items) d ↔ items.length ≤ keys.length ∧ Holds (.object (keys.zip items)) d := by
  constructor
  · intro h
    cases h with
    | array hlength h => exact ⟨hlength, h⟩
  · rintro ⟨hlength, h⟩
    exact .array hlength h

/-- If the children are read as they should be, so is the dump around them. -/
theorem read_object_iff_holds (hL : L.Lawful) {members : List (String × Json)}
    (hdeeper : ∀ j ∈ members.map (·.2), ∀ items, j = .array items → ∀ i ∈ items, ∀ c : Dump,
      L.derived.read? (.record .node) i = some c.toDatum ↔ Holds i c) (d : Dump) :
    L.derived.read? (.record .node) (.object members) = some d.toDatum ↔
      Holds (.object members) d := by
  rw [read_object_iff hL, holds_object_iff]
  refine exists_congr fun items => and_congr_right fun hlisted => ?_
  apply forall₂_congr_of_mem
  intro i hi c
  rcases hlisted.children with ⟨-, rfl⟩ | hitems
  · cases hi
  · -- the items stand in a member of the object
    have hmem : Json.array items ∈ members.map (·.2) := by
      have hvalue : Json.array items ∈ valuesOf "children" members := by
        rw [hitems]
        exact List.mem_singleton_self _
      exact List.map_subset _ (List.filter_subset_self _) hvalue
    exact hdeeper _ hmem items rfl i hi c

/-- A document is read as a dump exactly if it is that of the dump. The induction is on the document:
the children of an object and of an array lie in it. -/
theorem read_iff_holds (hL : L.Lawful) : ∀ (j : Json) (d : Dump),
    L.derived.read? (.record .node) j = some d.toDatum ↔ Holds j d
  | .object members, d => by
    apply read_object_iff_holds hL
    rintro _ hj items rfl i hi c
    exact read_iff_holds hL i c
  | .array items, d => by
    rw [read_array_eq hL, holds_array_iff]
    split
    · next hfits =>
      rw [and_iff_right hfits]
      apply read_object_iff_holds hL
      rintro _ hj children rfl i hi c
      exact read_iff_holds hL i c
    · next hlong =>
      exact ⟨nofun, fun h => absurd h.1 hlong⟩
  | .null, d | .flag _, d | .number _, d | .text _, d => by
    rw [hL.read_mismatch id]
    exact ⟨nofun, nofun⟩
termination_by j => sizeOf j
decreasing_by
  · -- an item of a member of the object
    rcases List.mem_map.mp hj with ⟨m, hm, hvalue⟩
    have hmember := List.sizeOf_lt_of_mem hm
    have hitem := List.sizeOf_lt_of_mem hi
    have hpair : sizeOf m.2 < sizeOf m := by
      rcases m with ⟨key, value⟩
      simp only [Prod.mk.sizeOf_spec]
      omega
    rw [hvalue] at hpair
    simp only [Json.array.sizeOf_spec, Json.object.sizeOf_spec] at hpair ⊢
    omega
  · -- an item of an item of the array
    rcases List.mem_map.mp hj with ⟨m, hm, hvalue⟩
    have houter : Json.array children ∈ items := hvalue ▸ (List.of_mem_zip hm).2
    have hmember := List.sizeOf_lt_of_mem houter
    have hitem := List.sizeOf_lt_of_mem hi
    simp only [Json.array.sizeOf_spec] at hmember ⊢
    omega

/-- Which documents are dumps. The text of a document is read as a dump if the document is that of the
dump, key by key or in array form, and is a fault of JSON if it is that of no dump. So texts of
documents that differ only in white space, in the order of members, in unknown members, in defaults
that are written out and in the form of records are read alike. -/
theorem documents_of_dumps (hL : L.Lawful) :
    (∀ (j : Json) (text : String), Document j text.toList →
      (∀ d : Dump, ofJson L text = .ok d ↔ Holds j d) ∧
      ((∀ d : Dump, ¬Holds j d) → ∃ failure, ofJson L text = .error (.json failure))) ∧
    ∀ (j j' : Json) (text text' : String), Variant L.derived (.record .node) j j' →
      Document j text.toList → Document j' text'.toList →
      (ofJson L text).toOption = (ofJson L text').toOption := by
  -- what a document is read as depends on its value only
  have hread {j : Json} {text : String} (h : Document j text.toList) (d : Dump) :
      ofJson L text = .ok d ↔ Holds j d := by
    rw [← read_iff_holds hL j d, ofJson_eq_ok_iff, hL.decode_document h]
    exact Json.Library.ofJson?_eq_some_iff
  refine ⟨?_, ?_⟩
  · intro j text h
    refine ⟨hread h, fun hnone => ?_⟩
    rcases hdecode : L.decode Dump text with failure | d
    · exact ⟨failure, ofJson_of_decode_error hdecode⟩
    · exact absurd ((hread h d).mp (ofJson_eq_ok_iff.mpr hdecode)) (hnone d)
  · -- two documents of one value, up to the permitted differences
    intro j j' text text' hvariant h h'
    have hsame : L.ofJson? Dump j = L.ofJson? Dump j' := by
      rw [Json.Library.ofJson?, Json.Library.ofJson?]
      exact congrArg (Option.bind · Json.ofDatum?) (hL.read_variant hvariant)
    rw [toOption_ofJson, toOption_ofJson, hL.toOption_decode h, hL.toOption_decode h', hsame]

/-- A leaf is read alike from two texts. In the second its span is an object in another order with
an unknown member, and a default is written out, with a blank behind it. -/
theorem leaf_in_two_forms :
    let leaf : Dump :=
      { kind := "a", named := true, span := ⟨0, 3⟩, start := ⟨0, 0⟩, stop := ⟨0, 3⟩ }
    let text := "[\"a\",true,null,[0,3],[0,0],[0,3]]"
    let text' := "[\"a\",true,null,\x7b\"end\":3,\"x\":null,\"start\":0\x7d,[0,0],[0,3],false ]"
    ofJson .native text = .ok leaf ∧ ofJson .native text' = .ok leaf := by
  intro leaf text text'
  let zero : Json := .number "0"
  let three : Json := .number "3"
  let origin : Json := .array [zero, zero]
  let extent : Json := .array [zero, three]
  let extent' : Json := .object [("end", three), ("x", .null), ("start", zero)]
  let items : List Json := [.text "a", .flag true, .null, extent', origin, extent]
  let j : Json := .array [.text "a", .flag true, .null, extent, origin, extent]
  let j' : Json := .array (items ++ [.flag false])
  -- the documents that the two texts spell
  have hname {key : String} (h : key.toList.all isPlain) : Quoted key _ := .intro (.plain h)
  have hzero : Document zero ['0'] :=
    Value.document (.number (.intro (.inl rfl) (.inl rfl) (.inl rfl) (.inl rfl)))
  have hwhole : Whole ['3'] := .inr ⟨⟨by decide, List.all_eq_true.mp rfl⟩, by decide⟩
  have hthree : Document three ['3'] :=
    Value.document (.number (.intro (.inl rfl) hwhole (.inl rfl) (.inl rfl)))
  have horigin : Document origin _ := Value.document (.array (.more hzero (.last hzero)))
  have hextent : Document extent _ := Value.document (.array (.more hzero (.last hthree)))
  have hend : Member "end" three _ := .intro gap_nil (hname rfl) gap_nil hthree
  have hx : Member "x" .null _ :=
    .intro gap_nil (hname rfl) gap_nil (Value.document .null)
  have hstart : Member "start" zero _ := .intro gap_nil (hname rfl) gap_nil hzero
  have hextent' : Document extent' _ :=
    Value.document (.object (.more hend (.more hx (.last hstart))))
  have hkind : Document (.text "a") _ := Value.document (.text (hname rfl))
  have hspace : Gap [' '] := List.all_eq_true.mp rfl
  have herror : Document (.flag false) _ := .intro gap_nil .no hspace
  have hdoc : Document j _ :=
    Value.document (.array (.more hkind (.more (Value.document .yes)
      (.more (Value.document .null) (.more hextent (.more horigin (.last hextent)))))))
  have hdoc' : Document j' _ :=
    Value.document (.array (.more hkind (.more (Value.document .yes)
      (.more (Value.document .null) (.more hextent' (.more horigin (.more hextent
        (.last herror))))))))
  have htext : Document j text.toList := Eq.mp (congrArg (Document j) (by decide +kernel)) hdoc
  have htext' : Document j' text'.toList :=
    Eq.mp (congrArg (Document j') (by decide +kernel)) hdoc'
  -- the second document becomes the first by changes that are not noticed
  let D := Json.Library.native.derived
  have hspan : Variant D (.record .span) extent extent' := by
    have hswap : [("start", zero), ("end", three)].Perm [("end", three), ("start", zero)] :=
      .swap _ _ _
    have hmove : [("x", .null), ("end", three), ("start", zero)].Perm
        [("end", three), ("x", .null), ("start", zero)] := .swap _ _ _
    have hunknown : Variant D (.record .span)
        (.object [("x", .null), ("end", three), ("start", zero)])
        (.object [("end", three), ("start", zero)]) := .unknown (by decide) .null _
    exact .trans (.positional (by decide))
      (.trans (.order hswap) (.trans hunknown.symm (.order hmove)))
  have hvariant : Variant D (.record .node) j j' := by
    have hrange : Json.RecordType.node.fields[3]? =
        some { key := "range", shape := .record .span } := rfl
    have hdefault : Json.RecordType.node.fields[items.length]? =
        some (.optional "error" .flag (.flag false)) := rfl
    have hfront : Variant D (.record .node) j (.array items) :=
      .position [.text "a", .flag true, .null] [origin, extent] hrange hspan
    have hback : Variant D (.record .node) j' (.array items) := .trailing hdefault rfl
    exact hfront.trans hback.symm
  -- the first document is that of the leaf, in array form
  have hholds : Holds j leaf := by
    have hzeros : origin.IsPair "row" "column" 0 0 := .array ⟨"0", rfl, rfl⟩ ⟨"0", rfl, rfl⟩
    have hends : extent.IsPair "row" "column" 0 3 := .array ⟨"0", rfl, rfl⟩ ⟨"3", rfl, rfl⟩
    have hrange : extent.IsPair "start" "end" 0 3 := .array ⟨"0", rfl, rfl⟩ ⟨"3", rfl, rfl⟩
    have hlisted : leaf.IsListed (keys.zip [.text "a", .flag true, .null, extent, origin, extent])
        [] := {
      kind := rfl
      named := rfl
      field := .inl ⟨.inr rfl, rfl⟩
      range := ⟨extent, rfl, hrange⟩
      start := ⟨origin, rfl, hzeros⟩
      stop := ⟨extent, rfl, hends⟩
      error := .inl ⟨rfl, rfl⟩
      missing := .inl ⟨rfl, rfl⟩
      children := .inl ⟨rfl, rfl⟩ }
    exact .array (by decide) (.object hlisted .nil)
  rcases documents_of_dumps Json.Library.native_lawful with ⟨hread, halike⟩
  have hleaf : ofJson .native text = .ok leaf := ((hread j text htext).1 leaf).mpr hholds
  have hsame := halike j j' text text' hvariant htext htext'
  rw [hleaf] at hsame
  refine ⟨hleaf, ?_⟩
  rcases hread' : ofJson .native text' with fault | d
  · rw [hread'] at hsame
    cases hsame
  · rw [hread'] at hsame
    cases hsame
    rfl

end Dump

end SyntaxTrees

import SyntaxTrees.Config.Basic
import SyntaxTrees.Proofs.Json.DumpDocument

/-!
# Records survive JSON

Many texts hold one record: members in any order, with others among them, defaults written out or
left out, records as arrays. Writing picks one text among them. Where the values of the fields
determine a record and are determined by it (`Json.LawfulRecord`), what any text holds is of the
shape that is written (`Json.Library.Lawful.admits_of_decode`), and so it is read back from its own
text. Reading a text and writing what was read therefore gives a text that stays as it is when this is
done again. Positions, spans, edits and configurations have this in common
(`Json.values_survive_json`).
-/

namespace SyntaxTrees

namespace Json

/-- The records of a type survive JSON, namely those that fit. -/
structure SurvivesJson (L : Library) (α : Type) [Record α] (Fits : α → Prop) : Prop where
  /-- A record that fits has a text, and is read back from there. -/
  read_written : ∀ (style : Style) (a : α), Fits a →
    ∃ text, L.encode style a = .ok text ∧ L.decode α text = .ok a
  /-- What any text holds fits, is written as a text, is read back from there, and is written the same
  again. -/
  written_again : ∀ (style : Style) (text : String) (a : α), L.decode α text = .ok a →
    Fits a ∧ ∃ written, L.encode style a = .ok written ∧ L.decode α written = .ok a ∧
      ((L.decode α written).bind (L.encode style)) = .ok written
  /-- Texts that differ in white space, in the order of members, in unknown members, in defaults
  that are written out or in the form of records hold the same record. -/
  read_alike : ∀ (j j' : Json) (text text' : String),
    Variant L.derived (.record (Record.type α)) j j' →
    Rule.Document j text.toList → Rule.Document j' text'.toList →
      (L.decode α text).toOption = (L.decode α text').toOption

namespace Library.Lawful

variable {L : Library} (hL : L.Lawful) {α : Type} [Record α]
include hL

/-- Texts of documents that differ only in what is not noticed are read alike. -/
theorem decode_variant {j j' : Json} {text text' : String}
    (h : Variant L.derived (.record (Record.type α)) j j') (hj : Rule.Document j text.toList)
    (hj' : Rule.Document j' text'.toList) :
    (L.decode α text).toOption = (L.decode α text').toOption := by
  rw [hL.toOption_decode hj, hL.toOption_decode hj', ofJson?, ofJson?, hL.read_variant h]

theorem survivesJson [LawfulRecord α] {Fits : α → Prop}
    (hfits : ∀ a, Fits a ↔ (Shape.record (Record.type α)).Admits (toDatum a)) :
    SurvivesJson L α Fits where
  read_written style a h := by
    rcases hL.exists_text style ((hfits a).mp h) with ⟨text, hencode, -, hdecode⟩
    exact ⟨text, hencode, hdecode⟩
  written_again style text a h := by
    -- the text may be spelt in any way, but what it holds has the shape of what is written
    have hadmits := hL.admits_of_decode h
    rcases hL.exists_text style hadmits with ⟨written, hencode, -, hdecode⟩
    refine ⟨(hfits a).mpr hadmits, written, hencode, hdecode, ?_⟩
    rw [hdecode]
    exact hencode
  read_alike _ _ _ _ h hj hj' := hL.decode_variant h hj hj'

end Library.Lawful

end Json

open Json (Datum LawfulRecord Shape)

/-! ## Configurations -/

namespace ConfigEntry

theorem ofDatum?_eq_some_iff {d : Datum} {e : ConfigEntry} :
    ofDatum? d = some e ↔ d = e.toDatum := by
  constructor
  · intro h
    unfold ofDatum? at h
    -- the data of an entry: three members, as its type lists them
    split at h
    · next name provider aliases =>
      simp only [Option.bind_eq_bind, Option.bind_eq_some_iff] at h
      rcases h with ⟨o, hprovider, texts, haliases, ⟨⟩⟩
      rw [toDatum, Datum.toOption?_eq_some_iff.mp hprovider,
        Datum.toTexts?_eq_some_iff.mp haliases]
    · cases h
  · rintro rfl
    have hprovider : (Datum.ofOption e.provider).toOption? = some e.provider :=
      Datum.toOption?_eq_some_iff.mpr rfl
    have haliases : Datum.toTexts? (e.aliases.map .text) = some e.aliases :=
      Datum.toTexts?_eq_some_iff.mpr rfl
    rw [toDatum, ofDatum?, hprovider, haliases]
    rfl

instance : LawfulRecord ConfigEntry := ⟨ofDatum?_eq_some_iff⟩

/-- Whatever texts an entry holds, it is written in the shape of an entry. -/
theorem admits_toDatum (e : ConfigEntry) : (Shape.record .configEntry).Admits e.toDatum := by
  have haliases : (Shape.list .text).Admits (.list (e.aliases.map .text)) := by
    refine .list fun d hd => ?_
    rcases List.mem_map.mp hd with ⟨s, -, rfl⟩
    exact .text s
  rw [toDatum, Json.Shape.admits_record_iff]
  exact .cons (.text e.name) (.cons (Datum.admits_ofOption e.provider) (.cons haliases .nil))

end ConfigEntry

namespace Config

theorem mapM_ofDatum?_eq_some_iff {ds : List Datum} {entries : List ConfigEntry} :
    ds.mapM ConfigEntry.ofDatum? = some entries ↔ ds = entries.map ConfigEntry.toDatum := by
  simp only [Json.mapM_eq_some_iff, ConfigEntry.ofDatum?_eq_some_iff]
  rw [← List.forall₂_eq_eq_eq, List.forall₂_map_right_iff]

instance : LawfulRecord Config where
  ofDatum?_eq_some_iff {d c} := by
    constructor
    · intro h
      dsimp only [Json.ofDatum?] at h
      split at h
      · simp only [Option.bind_eq_bind, Option.bind_eq_some_iff] at h
        rcases h with ⟨entries, hentries, ⟨⟩⟩
        rw [mapM_ofDatum?_eq_some_iff.mp hentries]
        rfl
      · cases h
    · rintro rfl
      have hentries :
          (c.grammars.map ConfigEntry.toDatum).mapM ConfigEntry.ofDatum? = some c.grammars :=
        mapM_ofDatum?_eq_some_iff.mpr rfl
      dsimp only [Json.ofDatum?, Json.toDatum]
      rw [hentries]
      rfl

/-- Every configuration is written in the shape of a configuration. -/
theorem admits_toDatum (c : Config) : (Shape.record .config).Admits (Json.toDatum c) := by
  have hentries : (Shape.list (.record .configEntry)).Admits
      (.list (c.grammars.map ConfigEntry.toDatum)) := by
    refine .list fun d hd => ?_
    rcases List.mem_map.mp hd with ⟨e, -, rfl⟩
    exact e.admits_toDatum
  exact Json.Shape.admits_record_iff.mpr (.cons hentries .nil)

end Config

/-! ## All of them -/

namespace Json

/-- Positions, spans and edits of machine words survive JSON, spans and edits that are turned round
among them, and so do all entries and configurations, whatever texts they hold: they are read back
from their texts, and what any text holds is written as a text that reading and writing leave as it
is. -/
theorem values_survive_json {L : Library} (hL : L.Lawful) :
    SurvivesJson L Position Position.InWords ∧ SurvivesJson L Span Span.InWords ∧
      SurvivesJson L Edit Edit.InWords ∧ SurvivesJson L ConfigEntry (fun _ => True) ∧
      SurvivesJson L Config (fun _ => True) := by
  refine ⟨?_, ?_, ?_, ?_, ?_⟩
  · exact hL.survivesJson Position.inWords_iff_admits
  · exact hL.survivesJson Span.inWords_iff_admits
  · exact hL.survivesJson Edit.inWords_iff_admits
  · exact hL.survivesJson fun e => iff_of_true trivial e.admits_toDatum
  · exact hL.survivesJson fun c => iff_of_true trivial c.admits_toDatum

/-- A configuration is read from a text with an unknown member, an entry in the form of an array and
one whose members stand in another order; an empty provider is kept apart from none. It is written
with the members in their order and without what is absent, and read back from there. An edit that is
turned round is read back with the largest machine word in it. -/
theorem config_in_two_forms :
    let c : Config :=
      { grammars := [{ name := "é" }, { name := "a", provider := some "", aliases := ["b"] }] }
    let text := "\x7b \"x\" : [1e5], \"grammars\":[[\"\\u00e9\", null]," ++
      "\x7b\"aliases\":[\"b\"],\"provider\":\"\",\"name\":\"a\"\x7d]\n\x7d"
    let written := "\x7b\"grammars\":[\x7b\"name\":\"é\"\x7d," ++
      "\x7b\"name\":\"a\",\"provider\":\"\",\"aliases\":[\"b\"]\x7d]\x7d"
    let e : Edit := ⟨Text.wordLimit - 1, 3, 0⟩
    Library.native.decode Config text = .ok c ∧ Library.native.encode .compact c = .ok written ∧
      (Library.native.decode Config written).bind (Library.native.encode .compact) = .ok written ∧
      e.InWords ∧ ∃ text, Library.native.encode .compact e = .ok text ∧
        Library.native.decode Edit text = .ok e := by
  intro c text written e
  -- what is read need not be what was written: positions, escapes, a member passed over
  rcases values_survive_json Library.native_lawful with ⟨-, -, hedits, -, hconfigs⟩
  have hread : (Library.native.decode Config text).toOption = some c := by decide +kernel
  have htext : Library.native.decode Config text = .ok c := by
    cases hdecode : Library.native.decode Config text with
    | error failure =>
      rw [hdecode] at hread
      cases hread
    | ok c' =>
      rw [hdecode] at hread
      cases hread
      rfl
  -- what is written leaves out the members at their defaults
  have hprint : Json.print .compact (Shape.write (.record .config) (toDatum c)) = written := by
    decide +kernel
  have hencode : Library.native.encode .compact c = .ok written := congrArg Except.ok hprint
  rcases hconfigs.written_again .compact text c htext with ⟨-, written', hencode', -, hagain⟩
  cases hencode.symm.trans hencode'
  have he : e.InWords := by
    refine ⟨?_, ?_, ?_⟩ <;> decide
  exact ⟨htext, hencode, hagain, he, hedits.read_written .compact e he⟩

end Json

end SyntaxTrees

import SyntaxTrees.Proofs.Json.Native.Law
import SyntaxTrees.Proofs.Source.Position
import SyntaxTrees.Proofs.Tree.Dump

/-!
# Dumps survive JSON

A dump whose numbers are machine words is read back as it was written: it has the shape of a record
for nodes (`Dump.admits_toDatum`), and it corresponds to the values of its fields
(`Dump.ofDatum?_eq_some_iff`). The dump of a built tree is such a dump if the numbers of the raw tree
and the length of the source are machine words, since only the root has other numbers than the raw
tree (`RawTree.InWords.stretched`).
-/

namespace SyntaxTrees

open Json (Shape Datum LawfulRecord)
open Text (wordLimit)

namespace Dump

mutual

/-- The numbers of a dump and of those below it are machine words. -/
def InWords : Dump → Prop
  | ⟨_, _, _, span, start, stop, _, _, children⟩ =>
    span.InWords ∧ start.InWords ∧ stop.InWords ∧ AllInWords children

def AllInWords : List Dump → Prop
  | [] => True
  | d :: rest => d.InWords ∧ AllInWords rest

end

/-! ## Dumps as records -/

mutual

/-- A dump has the shape of a record for nodes. -/
theorem admits_toDatum : (d : Dump) → d.InWords → (Shape.record .node).Admits d.toDatum
  | ⟨kind, named, field, span, start, stop, error, missing, children⟩, h => by
    rcases h with ⟨hspan, hstart, hstop, hchildren⟩
    rw [toDatum, Json.Shape.admits_record_iff]
    exact .cons (.text kind) <| .cons (.flag named) <| .cons (Datum.admits_ofOption field) <|
      .cons (span.inWords_iff_admits.mp hspan) <| .cons (start.inWords_iff_admits.mp hstart) <|
      .cons (stop.inWords_iff_admits.mp hstop) <| .cons (.flag error) <| .cons (.flag missing) <|
      .cons (.list (admits_toData children hchildren)) .nil

theorem admits_toData : (ds : List Dump) → AllInWords ds →
    ∀ d ∈ toData ds, (Shape.record .node).Admits d
  | [], _ => nofun
  | d :: ds, h => by
    intro e he
    rcases List.mem_cons.mp he with rfl | he
    · exact admits_toDatum d h.1
    · exact admits_toData ds h.2 e he

end

/-- The values of the fields of a dump. -/
theorem ofDatum?_record_iff {kind named field span start stop error missing children : Datum}
    {d : Dump} :
    ofDatum? (.record [kind, named, field, span, start, stop, error, missing, children]) = some d ↔
      kind = .text d.kind ∧ named = .flag d.named ∧ field.toOption? = some d.field ∧
        Json.ofDatum? span = some d.span ∧ Json.ofDatum? start = some d.start ∧
        Json.ofDatum? stop = some d.stop ∧ error = .flag d.error ∧ missing = .flag d.missing ∧
        ∃ ds, children = .list ds ∧ ofData? ds = some d.children := by
  constructor
  · intro h
    unfold ofDatum? at h
    split at h
    · -- each part is there, and has a value
      next heq =>
      cases heq
      simp only [Option.bind_eq_bind, Option.bind_eq_some_iff] at h
      rcases h with ⟨field, hfield, span, hspan, start, hstart, stop, hstop, children, hchildren, h⟩
      cases h
      exact ⟨rfl, rfl, hfield, hspan, hstart, hstop, rfl, rfl, _, rfl, hchildren⟩
    · cases h
  · cases d
    rintro ⟨rfl, rfl, hfield, hspan, hstart, hstop, rfl, rfl, ds, rfl, hchildren⟩
    rw [ofDatum?, hfield, hspan, hstart, hstop, hchildren]
    rfl

theorem ofData?_cons (d : Datum) (ds : List Datum) :
    ofData? (d :: ds) = (ofDatum? d).bind fun a => (ofData? ds).map (a :: ·) := by
  rw [ofData?]
  cases ofDatum? d with
  | none => rfl
  | some a => cases ofData? ds <;> rfl

/-- Values of the fields belong to a dump if they are the values that it has. -/
theorem ofDatum?_eq_some_iff (d : Datum) : ∀ a : Dump, ofDatum? d = some a ↔ d = a.toDatum := by
  refine ofDatum?.induct (fun d => ∀ a : Dump, ofDatum? d = some a ↔ d = a.toDatum)
    (fun ds => ∀ as : List Dump, ofData? ds = some as ↔ ds = toData as) ?_ ?_ ?_ ?_ d
  · -- the values of all fields, with those of the children in the last of them
    intro kind named field span start stop error missing children ih a
    rw [ofDatum?_record_iff]
    cases a
    simp [toDatum, ih, Datum.toOption?_eq_some_iff, LawfulRecord.ofDatum?_eq_some_iff]
  · intro d hother a
    cases a
    constructor
    · intro h
      rw [ofDatum?] at h
      · cases h
      · exact hother
    · intro h
      exact absurd h (hother _ _ _ _ _ _ _ _ _)
  · intro as
    cases as <;> simp [ofData?, toData]
  · intro d ds ih ihs as
    rw [ofData?_cons]
    cases as <;> simp [toData, Option.bind_eq_some_iff, ih, ihs]

instance : LawfulRecord Dump := ⟨fun {d a} => ofDatum?_eq_some_iff d a⟩

end Dump

/-! ## Dumps of built trees -/

/-- The numbers of a node that a dump shows are machine words. -/
structure NodeInfo.InWords (info : NodeInfo) : Prop where
  span : info.span.InWords
  start : info.start.InWords
  stop : info.stop.InWords

/-- The numbers of all nodes of the tree that a dump shows are machine words. -/
inductive RawTree.InWords : RawTree → Prop where
  | node {info : NodeInfo} {children : List RawTree} (here : info.InWords)
    (deeper : ∀ c ∈ children, c.InWords) : (RawTree.node info children).InWords

/-- Neither rows nor columns exceed the length of the source. -/
theorem Position.inWords_ofOffset {source : Bytes} (h : source.length < wordLimit) (offset : Nat) :
    (Position.ofOffset source offset).InWords := by
  have hextent := extent_le_length (source.take offset)
  have htake : (source.take offset).length ≤ source.length := List.length_take_le' _ _
  rw [ofOffset_eq_extent]
  constructor <;> omega

namespace RawTree

theorem InWords.stretched {t : RawTree} (h : t.InWords) {source : Bytes}
    (hsource : source.length < wordLimit) : (t.stretched source).InWords := by
  cases h with
  | node here deeper =>
    have hzero : 0 < wordLimit := Nat.lt_of_le_of_lt (Nat.zero_le _) hsource
    exact .node ⟨⟨hzero, hsource⟩, ⟨hzero, hzero⟩, Position.inWords_ofOffset hsource _⟩ deeper

mutual

theorem InWords.dump : {t : RawTree} → t.InWords → t.dump.InWords
  | .node info children, h => by
    cases h with
    | node here deeper => exact ⟨here.span, here.start, here.stop, allInWords_dumpAll deeper⟩

theorem allInWords_dumpAll : {l : List RawTree} → (∀ t ∈ l, t.InWords) →
    Dump.AllInWords (dumpAll l)
  | [], _ => trivial
  | t :: _, h =>
    ⟨(h t List.mem_cons_self).dump,
      allInWords_dumpAll fun u hu => h u (List.mem_cons_of_mem _ hu)⟩

end

end RawTree

namespace Dump

variable {L : Json.Library}

theorem ofJson_eq_ok_iff {text : String} {d : Dump} :
    ofJson L text = .ok d ↔ L.decode Dump text = .ok d := by
  rw [ofJson]
  cases L.decode Dump text <;> simp [Except.mapError]

theorem ofJson_of_decode_error {text : String} {failure : Json.Failure}
    (h : L.decode Dump text = .error failure) : ofJson L text = .error (.json failure) := by
  rw [ofJson, h]
  rfl

theorem toOption_ofJson (text : String) :
    (ofJson L text).toOption = (L.decode Dump text).toOption := by
  rw [ofJson]
  cases L.decode Dump text <;> rfl

/-- A dump whose numbers are machine words has a text in either style, whatever its depth and width
and whatever characters its texts hold; it is read back from there, and writing it again gives the
same text. In particular a tree has a JSON text, and this is read as the dump of the root. -/
theorem survives_json (hL : L.Lawful) :
    (∀ (style : Json.Style) (d : Dump), d.InWords →
      ∃ text, L.encode style d = .ok text ∧ ofJson L text = .ok d ∧
        ((ofJson L text).bind fun d' => (L.encode style d').mapError .json) = .ok text) ∧
    ∀ (g : Grammar) (source : Bytes) (raw : RawTree) (changed : Option (List Span)),
      source.length < wordLimit → raw.InWords →
      let t := Tree.build g source raw changed
      ∃ text, t.toJson L = .ok text ∧ ofJson L text = .ok t.root.dump ∧
        ((ofJson L text).bind fun d' => (L.encode .indented d').mapError .json) = .ok text := by
  have hdumps : ∀ (style : Json.Style) (d : Dump), d.InWords →
      ∃ text, L.encode style d = .ok text ∧ ofJson L text = .ok d ∧
        ((ofJson L text).bind fun d' => (L.encode style d').mapError .json) = .ok text := by
    intro style d h
    have hadmits : (Shape.record (Json.Record.type Dump)).Admits (Json.toDatum d) :=
      admits_toDatum d h
    rcases hL.exists_text style hadmits with ⟨text, hencode, -, hdecode⟩
    have hread : ofJson L text = .ok d := ofJson_eq_ok_iff.mpr hdecode
    refine ⟨text, hencode, hread, ?_⟩
    -- what is read is the dump that was written
    rw [hread]
    show (L.encode style d).mapError _ = _
    rw [hencode]
    rfl
  refine ⟨hdumps, ?_⟩
  intro g source raw changed hsource hraw t
  -- the root is stretched over the source, whose length is a machine word
  have hwords : t.root.dump.InWords := by
    rw [(Tree.copies_root g source raw changed).dump_eq]
    exact (hraw.stretched hsource).dump
  rcases hdumps .indented t.root.dump hwords with ⟨text, hencode, hread, hagain⟩
  refine ⟨text, ?_, hread, hagain⟩
  rw [Tree.toJson, hencode]
  rfl

/-- A dump with a quotation mark, a line break, a control character, a letter beyond ASCII and the
largest machine word is read back from both texts, and so is the tree of an empty source. -/
theorem read_largest_word :
    let leaf : Dump :=
      { kind := "\"\\\n\x01\x7f", named := false, field := some "", span := ⟨wordLimit - 1, 0⟩,
        start := ⟨0, wordLimit - 1⟩, stop := ⟨10, 0⟩, error := true }
    let d : Dump := { leaf with kind := "é→", field := none, missing := true, children := [leaf] }
    let raw : RawTree := .node default [.node default []]
    let g : Grammar :=
      { registry := 0, serial := 0, name := "", language := { abi := 14, kindCount := 1 } }
    let t := Tree.build g [] raw none
    (∀ style, ∃ text, Json.Library.native.encode style d = .ok text ∧ ofJson .native text = .ok d) ∧
      ∃ text, t.toJson .native = .ok text ∧ ofJson .native text = .ok t.root.dump := by
  intro leaf d raw g t
  -- every count of the leaf is a machine word, the largest among them
  have hleaf : leaf.InWords := by
    refine ⟨⟨?_, ?_⟩, ⟨?_, ?_⟩, ⟨?_, ?_⟩, trivial⟩ <;> decide
  have hd : d.InWords := ⟨hleaf.1, hleaf.2.1, hleaf.2.2.1, hleaf, trivial⟩
  have hinfo : (default : NodeInfo).InWords := by
    refine ⟨⟨?_, ?_⟩, ⟨?_, ?_⟩, ⟨?_, ?_⟩⟩ <;> decide
  have hchild : ∀ c ∈ ([] : List RawTree), c.InWords := nofun
  -- the tree of two nodes
  have hraw : raw.InWords := by
    refine .node hinfo fun c hc => ?_
    rw [List.mem_singleton.mp hc]
    exact .node hinfo hchild
  have hempty : ([] : Bytes).length < wordLimit := by decide
  rcases survives_json Json.Library.native_lawful with ⟨hdumps, htrees⟩
  constructor
  · intro style
    rcases hdumps style d hd with ⟨text, hencode, hread, -⟩
    exact ⟨text, hencode, hread⟩
  · rcases htrees g [] raw none hempty hraw with ⟨text, hjson, hread, -⟩
    exact ⟨text, hjson, hread⟩

end Dump

end SyntaxTrees

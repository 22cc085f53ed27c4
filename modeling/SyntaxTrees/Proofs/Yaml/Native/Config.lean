import SyntaxTrees.Proofs.Json.Native.Derived
import SyntaxTrees.Proofs.Yaml.Law
import SyntaxTrees.Proofs.Yaml.Native.Document
import SyntaxTrees.Proofs.Yaml.Native.Printable
import SyntaxTrees.Yaml.Native

/-!
# The library of this development is lawful

The text of a configuration spells the tokens of its entries (`ConfigEntry.spells_item`), these form one
record for each entry (`ConfigEntry.takes_entry`), and the records hold the entries
(`ConfigEntry.readYaml_node`). So `Yaml.Library.native` satisfies the laws of libraries
(`Yaml.Library.native_lawful`).
-/

namespace SyntaxTrees

open Yaml Yaml.OpenDocument

namespace ConfigEntry

/-! ## Tokens -/

def fieldTokens (e : ConfigEntry) : List Token :=
  (e.provider.toList.flatMap fun p => keyTokens "provider" ++ [textToken p])
    ++ (if e.aliases.isEmpty then []
      else keyTokens "aliases" ++ e.aliases.flatMap fun s => [.item, textToken s])

/-- The tokens of an entry, without the hyphen. -/
def recordTokens (e : ConfigEntry) : List Token :=
  .blockMapping :: (keyTokens "name" ++ [textToken e.name]) ++ e.fieldTokens ++ [.blockEnd]

theorem isWord_name : IsWord "name".toList := ⟨by decide, by decide, by decide⟩

theorem isWord_provider : IsWord "provider".toList := ⟨by decide, by decide, by decide⟩

theorem isWord_aliases : IsWord "aliases".toList := ⟨by decide, by decide, by decide⟩

/-! ## Lines -/

/-- The members for the provider and the aliases, if they are not left out. -/
def furtherMembers (e : ConfigEntry) : List (String × Json) :=
  (e.provider.toList.map fun p => ("provider", .text p))
    ++ (if e.aliases.isEmpty then [] else [("aliases", .array (e.aliases.map .text))])

/-- The data of an entry. -/
theorem write_toDatum (e : ConfigEntry) :
    Json.Shape.write (.record .configEntry) e.toDatum =
      .object (("name", .text e.name) :: e.furtherMembers) := by
  have haliases : Json.Shape.text.writeItems (e.aliases.map .text) = e.aliases.map .text := by
    rw [Json.Shape.writeItems_eq_map, List.map_map]
    rfl
  rcases e with ⟨name, _ | p, _ | ⟨a, as⟩⟩
  · -- the name alone
    rfl
  · exact congrArg (fun items => Json.object [("name", .text name), ("aliases", .array items)]) haliases
  · -- the name and the provider
    rfl
  · exact congrArg (fun items => Json.object
      [("name", .text name), ("provider", .text p), ("aliases", .array items)]) haliases

theorem writeMembers_append (column : Nat) (front back : List (String × Json)) :
    writeMembers column (front ++ back) = writeMembers column front ++ writeMembers column back := by
  induction front with
  | nil => rfl
  | cons member front ih =>
    rw [List.cons_append, writeMembers, writeMembers, ih]
    simp only [List.append_assoc]

theorem writeItems_eq_flatMap (column : Nat) (items : List Json) :
    writeItems column items = items.flatMap fun j => writeItems column [j] := by
  induction items with
  | nil => rfl
  | cons j items ih =>
    rw [writeItems, ih, List.flatMap_cons]
    simp [writeItems]

theorem writeItems_texts (column : Nat) (texts : List String) :
    writeItems column (texts.map .text) = texts.flatMap (itemLine column) := by
  rw [writeItems_eq_flatMap, List.flatMap_map]
  congr 1
  funext s
  simp [writeItems, writeItem, writeLeaf, itemLine]

/-- The lines behind the one with the name. -/
def furtherLines (e : ConfigEntry) : List Char :=
  e.provider.toList.flatMap (fieldLine 2 "provider".toList)
    ++ (if e.aliases.isEmpty then []
      else spaces 2 ++ ("aliases".toList ++ ':' :: '\n' :: e.aliases.flatMap (itemLine 2)))

theorem writeMembers_further (e : ConfigEntry) :
    writeMembers 2 e.furtherMembers = e.furtherLines := by
  rw [furtherMembers, writeMembers_append, furtherLines]
  congr 1
  · cases e.provider with
    | none => rfl
    | some p => simp [writeMembers, writeValue, writeLeaf, fieldLine]
  · cases haliases : e.aliases with
    | nil => rfl
    | cons a as =>
      rw [← writeItems_texts]
      simp [writeMembers, writeValue]

def lines (e : ConfigEntry) : List Char :=
  '-' :: ' ' :: ("name".toList ++ ':' :: ' ' :: (writeScalar 2 e.name.toList ++ e.furtherLines))

theorem writeItems_toDatum (e : ConfigEntry) :
    writeItems 0 [Json.Shape.write (.record .configEntry) e.toDatum] = e.lines := by
  rw [write_toDatum, lines, ← writeMembers_further]
  simp [writeItems, writeItem, writeValue, writeLeaf, spaces, indentStep]

theorem spells_furtherLines (e : ConfigEntry) : Spells 2 [0] e.furtherLines e.fieldTokens := by
  refine Spells.append ?_ ?_
  · exact Spells.flatMap _ fun p _ => spells_field isWord_provider p
  · cases haliases : e.aliases with
    | nil => exact Spells.nil
    | cons a as => exact spells_list isWord_aliases (List.cons_ne_nil a as)

/-- The lines of an entry spell its tokens. -/
theorem spells_lines (e : ConfigEntry) : Spells 0 [] e.lines (.item :: e.recordTokens) := by
  have hrecord : Spells 0 [] _ _ := spells_record isWord_name e.name e.spells_furtherLines
  simpa [lines, recordTokens, keyTokens, spaces] using hrecord

theorem all_fieldLine (column : Nat) {word : List Char} (hword : word.all isPrintable = true)
    (s : String) : (fieldLine column word s).all isPrintable = true := by
  have hmarks : isPrintable ':' = true ∧ isPrintable ' ' = true := by decide
  simp only [fieldLine, List.all_append, List.all_cons, all_spaces, hword, all_writeScalar, hmarks]
  rfl

theorem all_itemLine (column : Nat) (s : String) :
    (itemLine column s).all isPrintable = true := by
  have hmarks : isPrintable '-' = true ∧ isPrintable ' ' = true := by decide
  simp only [itemLine, List.all_append, List.all_cons, all_spaces, all_writeScalar, hmarks]
  rfl

theorem all_flatMap {α : Type} {lines : α → List Char} (xs : List α)
    (h : ∀ x, (lines x).all isPrintable = true) : (xs.flatMap lines).all isPrintable = true := by
  rw [List.all_flatMap, List.all_eq_true]
  exact fun x _ => h x

theorem all_furtherLines (e : ConfigEntry) : e.furtherLines.all isPrintable = true := by
  have hword : "provider".toList.all isPrintable = true := by decide
  have hprovider := all_flatMap e.provider.toList (all_fieldLine 2 hword)
  rw [furtherLines, List.all_append, hprovider]
  split_ifs
  · rfl
  · have hkey : (spaces 2 ++ "aliases:\n".toList).all isPrintable = true := by decide
    rw [show spaces 2 ++ ("aliases".toList ++ ':' :: '\n' :: e.aliases.flatMap (itemLine 2)) =
      (spaces 2 ++ "aliases:\n".toList) ++ e.aliases.flatMap (itemLine 2) from rfl,
      List.all_append, hkey, all_flatMap e.aliases (all_itemLine 2)]
    rfl

/-- What is written for an entry can be shown as it is. -/
theorem all_lines (e : ConfigEntry) : e.lines.all isPrintable = true := by
  have hkey : "- name: ".toList.all isPrintable = true := by decide
  rw [show e.lines = "- name: ".toList ++ (writeScalar 2 e.name.toList ++ e.furtherLines) from rfl,
    List.all_append, List.all_append, hkey, all_writeScalar, e.all_furtherLines]
  rfl

/-! ## Nodes -/

def textNode (s : String) : Yaml.Node := .scalar (styleOf s.toList) none s

def keyNode (name : String) : Yaml.Node := .scalar .plain none name

def node (e : ConfigEntry) : Yaml.Node :=
  .mapping ((keyNode "name", textNode e.name) ::
    ((e.provider.toList.map fun p => (keyNode "provider", textNode p))
      ++ (if e.aliases.isEmpty then []
        else [(keyNode "aliases", .sequence (e.aliases.map textNode))])))

section Nodes

variable {f : Frame} {stack : List Frame} {root : Option Yaml.Node}
  {members : List (Yaml.Node × Yaml.Node)}

theorem takes_provider (o : Option String) :
    Takes (o.toList.flatMap fun p => keyTokens "provider" ++ [textToken p])
      ⟨.mapping .block none members .key :: stack, .next, root⟩
      ⟨.mapping .block none
        ((o.toList.map fun p => (keyNode "provider", textNode p)).reverse ++ members) .key :: stack,
        .next, root⟩ := by
  cases o with
  | none => exact .nil
  | some p =>
    rw [Option.toList_some, List.flatMap_singleton]
    exact takes_field "provider" p

/-- The names at the end of a record, and its end. -/
theorem takes_aliases (aliases : List String) :
    Takes ((if aliases.isEmpty then []
        else keyTokens "aliases" ++ aliases.flatMap fun s => [.item, textToken s]) ++ [.blockEnd])
      ⟨.mapping .block none members .key :: f :: stack, .next, root⟩
      ⟨(place (.mapping (members.reverse ++ if aliases.isEmpty then []
          else [(keyNode "aliases", .sequence (aliases.map textNode))])) (f :: stack)).1,
        .next, root⟩ := by
  cases aliases with
  -- no aliases: the member is not written
  | nil =>
    have hend : Takes [.blockEnd] ⟨.mapping .block none members .key :: f :: stack, .next, root⟩
        ⟨(place (.mapping members.reverse) (f :: stack)).1, .next, root⟩ := takes_end
    simpa using hend
  -- the key, its list, and the end of the record
  | cons a as =>
    have hlist : Takes ((a :: as).flatMap fun s => [.item, textToken s])
        ⟨.mapping .block none members (.value (keyNode "aliases")) :: f :: stack, .node {} false, root⟩
        ⟨.sequence .level none ((a :: as).map textNode).reverse ::
          .mapping .block none members (.value (keyNode "aliases")) :: f :: stack, .next, root⟩ :=
      takes_list (List.cons_ne_nil a as) fun s _ items => takes_text (styleOf s.toList) s
    have hend := ((takes_key "aliases").append hlist).append takes_endOfList
    simpa using hend

/-- The tokens of an entry form its node. -/
theorem takes_entry (e : ConfigEntry) (items : List Yaml.Node) :
    Takes e.recordTokens ⟨.sequence .level none items :: stack, .node {} false, root⟩
      ⟨.sequence .level none (e.node :: items) :: stack, .next, root⟩ := by
  have hstart : Takes [.blockMapping] ⟨.sequence .level none items :: stack, .node {} false, root⟩
      ⟨.mapping .block none [] .key :: .sequence .level none items :: stack, .next, root⟩ :=
    takes_record
  have hfields := (hstart.append (takes_field "name" e.name)).append (takes_provider e.provider)
  have hrecord := hfields.append (takes_aliases e.aliases)
  simpa [recordTokens, fieldTokens, node, place, keyNode, textNode] using hrecord

end Nodes

/-! ## Content -/

section Content

variable (d : Document)

theorem text_textNode (s : String) : d.text (textNode s) = pure s := rfl

theorem mapM_map_of_pure {α : Type} {node : α → Yaml.Node} {read : Yaml.Node → Reading α}
    (h : ∀ x, read (node x) = pure x) (xs : List α) : (xs.map node).mapM read = pure xs := by
  have hpure : read ∘ node = pure := funext h
  rw [List.mapM_map, hpure, List.mapM_pure, List.map_id']

theorem items_sequence (items : List Yaml.Node) : d.items (.sequence items) = pure items := rfl

/-- A text that is written bare stands for a value. -/
theorem stands_for_value {s : String} (h : styleOf s.toList = .plain) :
    (s.isEmpty || nullTexts.contains s) = false := by
  have hreserved : isReserved s.toList = false := by
    rcases styleOf_cases s.toList with ⟨-, hreserved, -⟩ | ⟨hstyle, -⟩ | hstyle | ⟨hstyle, -⟩
    · exact hreserved
    all_goals
      rw [hstyle] at h
      cases h
  simp only [isReserved, Bool.or_eq_false_iff, String.ofList_toList] at hreserved
  rcases hreserved with ⟨⟨⟨hempty, hnull⟩, -⟩, -⟩
  have hisEmpty : s.isEmpty = false := by simpa using hempty
  rw [hisEmpty, hnull]
  rfl

/-- A written text is never taken for a missing one. -/
theorem optionalText_textNode (s : String) : d.optionalText (textNode s) = pure (some s) := by
  show (if styleOf s.toList ≠ .plain then pure (some s)
    else pure (if s.isEmpty || nullTexts.contains s then none else some s) :
      Reading (Option String)) = _
  -- only a bare text could be taken for a missing one
  by_cases hstyle : styleOf s.toList = .plain
  · rw [if_neg (not_not_intro hstyle), stands_for_value hstyle]
    rfl
  · rw [if_pos hstyle]

variable (e : ConfigEntry)

def fieldNodes : List (String × Yaml.Node) :=
  ("name", textNode e.name) :: ((e.provider.toList.map fun p => ("provider", textNode p))
    ++ (if e.aliases.isEmpty then [] else [("aliases", .sequence (e.aliases.map textNode))]))

theorem fields_node : d.fields e.node = pure e.fieldNodes := by
  rcases e with ⟨name, provider, aliases⟩
  cases provider <;> cases aliases <;> rfl

theorem field?_name : Document.field? e.fieldNodes "name" = pure (some (textNode e.name)) := by
  rcases e with ⟨name, provider, aliases⟩
  cases provider <;> cases aliases <;> rfl

theorem field?_provider :
    Document.field? e.fieldNodes "provider" = pure (e.provider.map textNode) := by
  rcases e with ⟨name, provider, aliases⟩
  cases provider <;> cases aliases <;> rfl

theorem field?_aliases :
    Document.field? e.fieldNodes "aliases" =
      pure (if e.aliases.isEmpty then none else some (.sequence (e.aliases.map textNode))) := by
  rcases e with ⟨name, provider, aliases⟩
  cases provider <;> cases aliases <;> rfl

/-- The record of an entry is read as the entry. -/
theorem readYaml_node : readYaml d e.node = pure e := by
  rcases e with ⟨name, provider, aliases⟩
  rw [readYaml, fields_node, pure_bind, field?_name, pure_bind]
  simp only [text_textNode, field?_provider, field?_aliases, pure_bind]
  cases provider <;> cases haliases : aliases.isEmpty <;>
    simp_all [optionalText_textNode, items_sequence, mapM_map_of_pure (text_textNode d),
      -List.mapM_map]

end Content

end ConfigEntry

namespace Config

/-! ## Whole configurations -/

theorem isWord_grammars : IsWord "grammars".toList := ⟨by decide, by decide, by decide⟩

def node (c : Config) : Yaml.Node :=
  .mapping [(ConfigEntry.keyNode "grammars", .sequence (c.grammars.map ConfigEntry.node))]

/-- The lines of a configuration with entries. -/
theorem toList_print {c : Config} (hne : c.grammars ≠ []) :
    (Yaml.print (Library.native.data c)).toList =
      "grammars".toList ++ ':' :: '\n' :: c.grammars.flatMap ConfigEntry.lines := by
  -- what the shape writes for an entry is the entry's lines
  have hentries : writeItems 0 ((Json.Shape.record .configEntry).writeItems
      (c.grammars.map ConfigEntry.toDatum)) = c.grammars.flatMap ConfigEntry.lines := by
    rw [Json.Shape.writeItems_eq_map, ConfigEntry.writeItems_eq_flatMap, List.map_map, List.flatMap_map]
    congr 1
    funext e
    exact e.writeItems_toDatum
  have hnotEmpty : ((Json.Shape.record .configEntry).writeItems
      (c.grammars.map ConfigEntry.toDatum)).isEmpty = false := by
    rw [Json.Shape.writeItems_eq_map]
    simpa using hne
  have hdata : Library.native.data c = .object [("grammars", .array
      ((Json.Shape.record .configEntry).writeItems (c.grammars.map ConfigEntry.toDatum)))] := rfl
  rw [hdata, Yaml.print, String.toList_ofList, ← hentries]
  simp [writeMembers, writeValue, hnotEmpty, spaces]

/-- The tokens of a configuration with entries. -/
theorem tokens?_print {c : Config} (hne : c.grammars ≠ []) :
    tokens? (Yaml.print (Library.native.data c)).toList =
      some (.blockMapping :: (keyTokens "grammars" ++ c.grammars.flatMap fun e =>
        .item :: e.recordTokens) ++ [.blockEnd]) := by
  -- the whole text may be printed, so it is scanned as it stands
  have hprintable : ("grammars:\n".toList ++ c.grammars.flatMap ConfigEntry.lines).all isPrintable =
      true := by
    have hkey : "grammars:\n".toList.all isPrintable = true := by decide
    rw [List.all_append, hkey, ConfigEntry.all_flatMap c.grammars ConfigEntry.all_lines]
    rfl
  have hstart : LeadsToToken (c.grammars.flatMap ConfigEntry.lines) := by
    rcases List.exists_cons_of_ne_nil hne with ⟨e, es, hes⟩
    rw [hes, List.flatMap_cons]
    exact leadsToToken_hyphen _
  rw [toList_print hne]
  refine tokens?_of_yields hprintable (leadsToToken_word isWord_grammars _) ?_
  exact yields_list isWord_grammars hstart (Spells.flatMap _ fun e _ => e.spells_lines)

/-- What a configuration is written as is read as its record. -/
theorem read?_print (c : Config) :
    ∃ d, Document.read? (Yaml.print (Library.native.data c)) = some d ∧ d.root = some c.node := by
  by_cases hne : c.grammars = []
  · -- without entries there is one text
    rcases c with ⟨grammars⟩
    subst hne
    exact ⟨_, rfl, rfl⟩
  · have hentries : Takes (c.grammars.flatMap fun e => .item :: e.recordTokens)
        ⟨[.mapping .block none [] (.value (ConfigEntry.keyNode "grammars"))], .node {} false, none⟩
        ⟨[.sequence .level none (c.grammars.map ConfigEntry.node).reverse,
          .mapping .block none [] (.value (ConfigEntry.keyNode "grammars"))], .next, none⟩ :=
      takes_list hne fun e _ items => e.takes_entry items
    rcases ofTokens?_of_takes ((takes_key "grammars").append hentries) with ⟨d, hd, hroot⟩
    refine ⟨d, ?_, ?_⟩
    · rw [Document.read?, tokens?_print hne]
      exact hd
    · rw [hroot, List.reverse_reverse, node]

/-- A text whose document is the record of a configuration holds the configuration. -/
theorem ofYaml?_of_root {c : Config} {text : String} {d : Document}
    (hread : Document.read? text = some d) (hroot : d.root = some c.node) :
    ofYaml? text = some c := by
  have hentries : (c.grammars.map ConfigEntry.node).mapM (ConfigEntry.readYaml d) =
      pure c.grammars := ConfigEntry.mapM_map_of_pure (ConfigEntry.readYaml_node d) c.grammars
  rw [ofYaml?, hread]
  show Document.readAs? d readYaml = _
  rw [Document.readAs?, hroot]
  show ((do
    let entries ← (c.grammars.map ConfigEntry.node).mapM (ConfigEntry.readYaml d)
    return { grammars := entries }) : Reading Config).run' 0 = _
  rw [hentries]
  rfl

end Config

namespace Yaml

/-- The text is that of a document with the data of a configuration. -/
def Presents (text : String) (j : Json) : Prop :=
  ∃ c d, Library.native.data c = j ∧ Document.read? text = some d ∧ d.root = some c.node

/-- The laws hold of the library of this development. -/
theorem Library.native_lawful : Library.native.Lawful Presents where
  derived := Json.Derived.native_lawful
  print_data c := by
    rcases c.read?_print with ⟨d, hread, hroot⟩
    exact ⟨_, rfl, c, d, rfl, hread, hroot⟩
  read_data := by
    intro text j hpresents c
    rcases hpresents with ⟨c₀, d, rfl, hread, hroot⟩
    -- both sides are about the configuration whose record the document is
    have hvalue := ofDatum?_data (Y := .native) Json.Derived.native_lawful c₀
    rw [hvalue]
    simp [native, Config.ofYaml?_of_root hread hroot]

end Yaml

end SyntaxTrees

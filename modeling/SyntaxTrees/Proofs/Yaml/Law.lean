import SyntaxTrees.Config.File
import SyntaxTrees.Proofs.Json.Record

/-!
# Lawful libraries for YAML

What is relied on of the code that writes and reads YAML. Which data a text presents is a matter of
the format, and left open here; the printer and the reader have to agree about it, and the code
generated for the types of records is as lawful as it is for JSON. That fields which were left out come
back as they were is no law, it is proved from the laws of that code (`Library.ofDatum?_data`).
-/

namespace SyntaxTrees.Yaml

open Json (ofDatum? toDatum)

/-- The library writes texts that present data, and reads the data that texts present. -/
structure Library.Lawful (Y : Library) (Presents : String → Json → Prop) : Prop where
  derived : Y.derived.Lawful
  /-- The data of a configuration, which consists of lists, records and texts, has a text that presents
  it, whatever the texts in it are. -/
  print_data (c : Config) : ∃ text, Y.print (Y.data c) = .ok text ∧ Presents text (Y.data c)
  /-- A text is read as what the generated code makes of the data that it presents. -/
  read_data {text : String} {j : Json} (h : Presents text j) (c : Config) :
    Y.read text = .ok c ↔ (Y.derived.read? (.record .config) j).bind ofDatum? = some c

namespace Library

variable {Y : Library} {Presents : String → Json → Prop}

/-- Fields that are left out of the data come back with their defaults. -/
theorem ofDatum?_data (hD : Y.derived.Lawful) (c : Config) :
    (Y.derived.read? (.record .config) (Y.data c)).bind ofDatum? = some c := by
  rw [data, hD.read_write c.admits_toDatum]
  exact Json.ofDatum?_toDatum c

/-- Every configuration has a text and is read back from there. -/
theorem Lawful.exists_text (hY : Y.Lawful Presents) (c : Config) :
    ∃ text, Y.print (Y.data c) = .ok text ∧ Y.read text = .ok c := by
  rcases hY.print_data c with ⟨text, hprint, hpresents⟩
  exact ⟨text, hprint, (hY.read_data hpresents c).mpr (ofDatum?_data hY.derived c)⟩

end Library

end SyntaxTrees.Yaml

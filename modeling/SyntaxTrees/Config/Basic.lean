import SyntaxTrees.Grammar.Provider
import SyntaxTrees.Json.Record

/-!
# Configurations

A `Config` lists the grammars that a registry is to hold. Each entry gives a grammar a name,
further names, and the built-in provider behind it, which is the one of the same name unless
another is named. Configurations are exchanged as records.
-/

namespace SyntaxTrees

/-- One configured grammar. -/
structure ConfigEntry where
  /-- The name to register the grammar under. -/
  name : String
  /-- The built-in provider, if it is not the one called `name`. -/
  provider : Option String := none
  /-- Further names for the grammar. -/
  aliases : List String := []
deriving DecidableEq, Repr

namespace ConfigEntry

def providerName (e : ConfigEntry) : String := e.provider.getD e.name

def describe (e : ConfigEntry) : String :=
  Text.describeRecord "GrammarEntry"
    [("name", Text.describeText e.name),
      ("provider", Text.describeOption (e.provider.map Text.describeText)),
      ("aliases", Text.describeList (e.aliases.map Text.describeText))] false

end ConfigEntry

/-- The grammars that a registry is to hold, in the order of their registration. -/
structure Config where
  grammars : List ConfigEntry := []
deriving DecidableEq, Repr

namespace Config

/-- The usual name of a file that holds a configuration. -/
def fileName : String := "grammars.yaml"

/-- Every built-in grammar under its own name. -/
def builtins : Config where
  grammars := Provider.builtinNames.map fun (name, _) => { name }

def describe (c : Config) : String :=
  Text.describeRecord "RegistryConfig"
    [("grammars", Text.describeList (c.grammars.map ConfigEntry.describe))] false

end Config

/-! ## Configurations as records -/

open Json (Datum)

namespace ConfigEntry

def toDatum (e : ConfigEntry) : Datum :=
  .record [.text e.name, Datum.ofOption e.provider, .list (e.aliases.map .text)]

def ofDatum? : Datum → Option ConfigEntry
  | .record [.text name, provider, .list aliases] => do
    return {
      name
      provider := ← provider.toOption?
      aliases := ← Datum.toTexts? aliases }
  | _ => none

instance : Json.Record ConfigEntry where
  type := .configEntry
  toDatum := toDatum
  ofDatum? := ofDatum?

end ConfigEntry

instance : Json.Record Config where
  type := .config
  toDatum c := .record [.list (c.grammars.map ConfigEntry.toDatum)]
  ofDatum?
    | .record [.list entries] => do return { grammars := ← entries.mapM ConfigEntry.ofDatum? }
    | _ => none

end SyntaxTrees

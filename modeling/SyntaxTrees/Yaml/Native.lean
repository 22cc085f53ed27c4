import SyntaxTrees.Config.File
import SyntaxTrees.Json.Native.Derived
import SyntaxTrees.Yaml.Native.Content
import SyntaxTrees.Yaml.Native.Document
import SyntaxTrees.Yaml.Native.Printer

/-!
# A library for YAML

The functions for YAML texts that this development brings along, put together as a `Library`. Any text
of the shape of a configuration can be read: fields in any order, further fields, flow style, aliases.
What is said about programs holds for every lawful library.
-/

namespace SyntaxTrees

namespace ConfigEntry

def readYaml (d : Yaml.Document) (n : Yaml.Node) : Yaml.Reading ConfigEntry := do
  let fields ← d.fields n
  match ← Yaml.Document.field? fields "name" with
  | none => failure
  | some name =>
    return {
      name := ← d.text name
      provider := ← match ← Yaml.Document.field? fields "provider" with
        | none => pure none
        | some n => d.optionalText n
      aliases := ← match ← Yaml.Document.field? fields "aliases" with
        | none => pure []
        | some n => do (← d.items n).mapM d.text }

end ConfigEntry

namespace Config

/-- Reads a configuration. -/
def readYaml (d : Yaml.Document) (n : Yaml.Node) : Yaml.Reading Config := do
  match ← Yaml.Document.field? (← d.fields n) "grammars" with
  | none => return {}
  | some n => return { grammars := ← (← d.items n).mapM (ConfigEntry.readYaml d) }

def ofYaml? (s : String) : Option Config := do (← Yaml.Document.read? s).readAs? readYaml

end Config

namespace Yaml

def Library.native : Library where
  derived := .native
  print j := .ok (Yaml.print j)
  read s :=
    match Config.ofYaml? s with
    | some c => .ok c
    | none => .error "the text holds no configuration"

end Yaml

end SyntaxTrees

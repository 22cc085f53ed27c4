import SyntaxTrees.Grammar.Basic

/-!
# Providers of grammars

A `Provider` knows the name of a grammar, the other names it answers to, and how to construct its
tables. The built-in providers are fixed; the tables behind them and the versions of tables that can be
read belong to the engine.
-/

namespace SyntaxTrees

/-- The versions of tables that an engine reads. -/
structure AbiRange where
  oldest : Nat
  newest : Nat
deriving DecidableEq, Repr

/-- What an engine brings along. -/
structure Tables where
  /-- The tables that are linked under a name. -/
  language : String → Language
  abis : AbiRange

/-- A source of one grammar. -/
structure Provider where
  name : String
  /-- Other names that the grammar answers to. -/
  aliases : List String := []
  /-- The tables that the constructor gives. -/
  language : Language

namespace Provider

def constructorSymbol (p : Provider) : String :=
  "tree_sitter_" ++ p.name.map fun c => if c = '-' then '_' else c

def describe (p : Provider) : String :=
  Text.describeRecord "GrammarProvider"
    [("name", Text.describeText p.name),
      ("aliases", Text.describeList (p.aliases.map Text.describeText))] false

/-- The names of the built-in grammars, each with its aliases. -/
def builtinNames : List (String × List String) := [
  ("javascript", ["js", "jsx"]),
  ("bash", ["sh"]),
  ("cpp", ["c++", "cxx"]),
  ("rust", ["rs"]),
  ("c_sharp", ["csharp", "cs"])]

def builtins (tables : Tables) : List Provider :=
  builtinNames.map fun (name, aliases) => { name, aliases, language := tables.language name }

/-- The built-in provider of exactly this name. -/
def builtin? (tables : Tables) (name : String) : Option Provider :=
  (builtins tables).find? (·.name == name)

end Provider

end SyntaxTrees

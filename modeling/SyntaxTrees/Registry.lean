import Std.Data.TreeMap
import SyntaxTrees.Config.Basic
import SyntaxTrees.Error
import SyntaxTrees.Text.LowerCase

/-!
# The registry of grammars

A `Registry` knows providers under normalised names and aliases. It constructs the tables of a
grammar when the grammar is first loaded and gives out the same handle from then on. A name that
is taken stays with its grammar: a registration that claims it again is refused and changes
nothing.
-/

namespace SyntaxTrees

/-- The form under which a grammar's name is kept and looked up: without the white space around it and
in lower case. -/
def normalizeName (name : String) : String := .ofList (Text.lower (Text.trim name.toList))

/-- Grammars by name, and the handles to those loaded so far. -/
structure Registry where
  /-- Sets the handles of this registry apart from those of every other. -/
  key : Nat
  /-- The versions of tables that the engine of the program reads. -/
  abis : AbiRange
  /-- The provider of each canonical name. -/
  providers : Std.TreeMap String Provider := ∅
  /-- The canonical name behind each alias. -/
  aliases : Std.TreeMap String String := ∅
  /-- The handle of each canonical name that was loaded. -/
  cache : Std.TreeMap String Grammar := ∅
  /-- The canonical names whose tables were constructed, once for each time, latest first. -/
  constructed : List String := []

namespace Registry

/-! ## Names -/

def resolve? (r : Registry) (name : String) : Option String :=
  let key := normalizeName name
  if key ∈ r.providers then some key else r.aliases[key]?

def isRegistered (r : Registry) (name : String) : Bool := (r.resolve? name).isSome

/-- The canonical names, in ascending order. -/
def names (r : Registry) : List String := r.providers.keys

def loadedCount (r : Registry) : Nat := r.cache.size

/-- How often the tables of a grammar were constructed. -/
def constructions (r : Registry) (canonical : String) : Nat := r.constructed.count canonical

def describe (r : Registry) : String :=
  Text.describeRecord "GrammarRegistry"
    [("grammars", Text.describeList (r.names.map Text.describeText)),
      ("aliases", toString r.aliases.size)] true

/-! ## Registration -/

/-- Enters a provider under names that are already normalised. -/
def insert (r : Registry) (name : String) (aliases : List String) (p : Provider) : Registry :=
  { r with
    aliases := aliases.foldl (fun m a => m.insert a name) r.aliases
    providers := r.providers.insert name p }

/-- The aliases that a registration claims: normalised, without blank ones and the name itself. -/
def claimedAliases (name : String) (aliases : List String) : List String :=
  (aliases.map normalizeName).filter fun a => !a.isEmpty && a != name

/-- Registers a provider under a name and aliases of the caller's choice. -/
def registerAs (r : Registry) (name : String) (p : Provider) (aliases : List String) :
    Except Error Registry :=
  let name := normalizeName name
  if name.isEmpty then .error (.config "grammar name cannot be empty")
  else
    let aliases := claimedAliases name aliases
    match (name :: aliases).find? r.isRegistered with
    | some taken => .error (.config s!"grammar name '{taken}' is already registered")
    | none => .ok (r.insert name aliases p)

def register (r : Registry) (p : Provider) : Except Error Registry :=
  r.registerAs p.name p p.aliases

/-! ## Whole registries -/

def withBuiltins (key : Nat) (tables : Tables) : Registry :=
  (Provider.builtins tables).foldl (fun r p => r.insert p.name p.aliases p)
    { key, abis := tables.abis }

/-- Registers one configured grammar. Only an entry that uses the provider's own name inherits
the provider's aliases. -/
def registerEntry (tables : Tables) (r : Registry) (e : ConfigEntry) :
    Except Error Registry :=
  match Provider.builtin? tables e.providerName with
  | none =>
    .error (.config s!"grammar '{e.name}' refers to unknown provider '{e.providerName}'")
  | some p =>
    r.registerAs e.name p (if e.name = e.providerName then e.aliases ++ p.aliases else e.aliases)

def ofConfig (key : Nat) (tables : Tables) (c : Config) : Except Error Registry :=
  c.grammars.foldlM (registerEntry tables) { key, abis := tables.abis }

/-! ## Loading -/

/-- What is wrong with the tables, if anything. -/
def fault? (abis : AbiRange) (l : Language) : Option LoadFault :=
  if l.kindCount = 0 then some .emptyTables
  else if l.abi < abis.oldest ∨ abis.newest < l.abi then
    some (.abiMismatch l.abi abis.oldest abis.newest)
  else none

/-- Constructs the tables of a grammar and keeps the handle if they are usable. -/
def construct (r : Registry) (canonical : String) (p : Provider) :
    Except Error Grammar × Registry :=
  let r := { r with constructed := canonical :: r.constructed }
  match fault? r.abis p.language with
  | some fault => (.error (.unusableGrammar canonical fault), r)
  | none =>
    let g : Grammar :=
      { registry := r.key, serial := r.cache.size, name := canonical, language := p.language }
    (.ok g, { r with cache := r.cache.insert canonical g })

def load (r : Registry) (name : String) : Except Error Grammar × Registry :=
  match r.resolve? name with
  | none => (.error (.unknownGrammar name), r)
  | some canonical =>
    match r.cache[canonical]? with
    | some g => (.ok g, r)
    | none =>
      match r.providers[canonical]? with
      | some p => r.construct canonical p
      | none => (.error (.internal s!"alias points at missing grammar '{canonical}'"), r)

/-! ## The registries of a program -/

/-- The ways in which a registry is made. -/
inductive Origin where
  | empty (abis : AbiRange)
  | builtins (tables : Tables)
  | configured (tables : Tables) (c : Config)

def Origin.make (key : Nat) : Origin → Except Error Registry
  | .empty abis => .ok { key, abis }
  | .builtins tables => .ok (withBuiltins key tables)
  | .configured tables c => ofConfig key tables c

end Registry

/-- The registries that a program has made. The key of each is its place among them. -/
structure Registries where
  all : Array Registry := #[]
  /-- The key of the registry that the whole program shares, once it was asked for. -/
  shared : Option Nat := none

namespace Registries

/-- Makes a registry under a key that no registry has. -/
def make (rs : Registries) (origin : Registry.Origin) : Except Error Nat × Registries :=
  match origin.make rs.all.size with
  | .ok r => (.ok rs.all.size, { rs with all := rs.all.push r })
  | .error e => (.error e, rs)

/-- The registry that the whole program shares, which holds all built-in grammars. -/
def share (rs : Registries) (tables : Tables) : Nat × Registries :=
  match rs.shared with
  | some key => (key, rs)
  | none =>
    let key := rs.all.size
    (key, { all := rs.all.push (.withBuiltins key tables), shared := some key })

def ask {α : Type} (rs : Registries) (key : Nat) (question : Registry → α × Registry) :
    Option α × Registries :=
  match rs.all[key]? with
  | some r =>
    let (answer, r) := question r
    (some answer, { rs with all := rs.all.setIfInBounds key r })
  | none => (none, rs)

end Registries

end SyntaxTrees

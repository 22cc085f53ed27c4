import SyntaxTrees.Text.Description

/-!
# Grammars

A `Language` is what the engine tells about the compiled tables of a grammar. A `Grammar` is a
handle to a language that a registry has loaded. Handles are told apart by where they come from,
not by what they hold: two handles are the same only if one registry gave out both for one
loading.
-/

namespace SyntaxTrees

/-- The compiled tables of a grammar, as the engine answers questions about them. -/
structure Language where
  /-- The version of the layout of the tables. -/
  abi : Nat
  /-- The number of node kinds, named and anonymous. -/
  kindCount : Nat
  /-- The number of fields; their numbers start at one. -/
  fieldCount : Nat := 0
  kindName? : Nat → Option String := fun _ => none
  kindIsNamed : Nat → Bool := fun _ => false
  fieldName? : Nat → Option String := fun _ => none
  /-- The number of the kind of a name, zero if there is none. -/
  kindNumber : String → Bool → Nat := fun _ _ => 0

/-- A handle to a loaded grammar. -/
structure Grammar where
  /-- The registry that loaded the grammar. -/
  registry : Nat
  /-- How many grammars that registry had loaded before. -/
  serial : Nat
  /-- The name under which the grammar is registered. -/
  name : String
  language : Language

namespace Grammar

/-- Both handles come from one loading. -/
def Same (g h : Grammar) : Prop := g.registry = h.registry ∧ g.serial = h.serial

instance (g h : Grammar) : Decidable (g.Same h) :=
  inferInstanceAs (Decidable (_ ∧ _))

def abi (g : Grammar) : Nat := g.language.abi

def kindCount (g : Grammar) : Nat := g.language.kindCount

def kindName? (g : Grammar) (id : Nat) : Option String := g.language.kindName? id

def isNamedKind (g : Grammar) (id : Nat) : Bool := g.language.kindIsNamed id

/-- The number of a node kind. The engine answers zero, the end of input, for what it does not
know. -/
def kindId? (g : Grammar) (kind : String) (named : Bool) : Option Nat :=
  match g.language.kindNumber kind named with
  | 0 => none
  | id => some id

/-- The largest number that a field can have. -/
def maxFieldId : Nat := 0xFFFF

/-- The names of all fields, in the order of their numbers. -/
def fieldNames (g : Grammar) : List String :=
  (List.range' 1 (min g.language.fieldCount maxFieldId)).filterMap g.language.fieldName?

def describe (g : Grammar) : String :=
  Text.describeRecord "Grammar"
    [("name", Text.describeText g.name), ("abi_version", toString g.abi)] true

end Grammar

end SyntaxTrees

import SyntaxTrees.Yaml.Native.Node

/-!
# What documents hold

Reading a document as texts, lists and records. A node is read in place of its aliases, but only so
often: a short document that unfolds to a very long one is refused.
-/

namespace SyntaxTrees.Yaml

/-- A reading, which counts the aliases that it follows and may fail. -/
abbrev Reading := StateT Nat Option

namespace Document

/-- For each of its parts, a document may be read through so many aliases. -/
def aliasesPerPart : Nat := 100

def resolve (d : Document) : Node → Reading Node
  | .alias n => do
    modify (· + 1)
    if aliasesPerPart * d.size < (← get) then failure
    else match d.targets[n]? with
      | some node => return node
      | none => failure
  | node => return node

def text (d : Document) (n : Node) : Reading String := do
  match ← d.resolve n with
  | .scalar _ _ s => return s
  | _ => failure

/-- A text that may be missing: nothing is written, or a plain scalar that stands for no value. -/
def optionalText (d : Document) (n : Node) : Reading (Option String) := do
  match ← d.resolve n with
  | .scalar style tag s =>
    if style ≠ .plain then return some s
    else match tag with
      | none => return if s.isEmpty || nullTexts.contains s then none else some s
      | some tag =>
        if tag ≠ nullTag then return some s
        else if nullTexts.contains s then return none
        else failure
  | _ => failure

/-- Nothing is written, so that any collection is empty. -/
def isBlankNode : Node → Bool
  | .scalar .plain _ s => s.isEmpty
  | _ => false

def items (d : Document) (n : Node) : Reading (List Node) := do
  match ← d.resolve n with
  | .sequence items => return items
  | n => if isBlankNode n then return [] else failure

/-- The fields of a record with their names, in the order of the document. -/
def fields (d : Document) (n : Node) : Reading (List (String × Node)) := do
  match ← d.resolve n with
  | .mapping members => members.mapM fun (key, value) => return (← d.text key, value)
  | n => if isBlankNode n then return [] else failure

/-- The value of a field, which may not occur twice. -/
def field? (fields : List (String × Node)) (name : String) : Reading (Option Node) :=
  match fields.filter (·.1 == name) with
  | [] => return none
  | [(_, value)] => return some value
  | _ => failure

/-- A reading of the whole document; nothing counts as an empty node. -/
def readAs? {α : Type} (d : Document) (reading : Document → Node → Reading α) : Option α :=
  (reading d (d.root.getD .empty)).run' 0

end Document

end SyntaxTrees.Yaml

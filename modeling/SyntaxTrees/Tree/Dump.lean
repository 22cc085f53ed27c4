import SyntaxTrees.Error
import SyntaxTrees.Json.Library
import SyntaxTrees.Tree.Traversal

/-!
# Dumps

A `Dump` is a copy of a node and everything below it that stands on its own and can be written as
JSON and read back. It keeps anonymous tokens, fields, spans and error marks. Copying and counting
keep what is unfinished in a list, so the depth of a tree does not matter.
-/

namespace SyntaxTrees

/-- A copy of a node and everything below it. -/
structure Dump where
  kind : String
  named : Bool
  field : Option String := none
  span : Span
  start : Position
  stop : Position
  error : Bool := false
  missing : Bool := false
  children : List Dump := []
deriving Repr, Inhabited

namespace Dump

/-! ## Equality and size -/

mutual

/-- Two dumps have the same data everywhere. -/
def same (a b : Dump) : Bool :=
  match a, b with
  | ⟨kind, named, field, span, start, stop, error, missing, children⟩,
    ⟨kind', named', field', span', start', stop', error', missing', children'⟩ =>
    kind == kind' && named == named' && field == field' && span == span' && start == start' &&
      stop == stop' && error == error' && missing == missing' && sameAll children children'

def sameAll : List Dump → List Dump → Bool
  | [], [] => true
  | a :: as, b :: bs => same a b && sameAll as bs
  | _, _ => false

end

instance : BEq Dump := ⟨same⟩

mutual

/-- The number of nodes, by recursion on the dump. -/
def size : Dump → Nat
  | ⟨_, _, _, _, _, _, _, _, children⟩ => sizeAll children + 1

def sizeAll : List Dump → Nat
  | [] => 0
  | d :: rest => d.size + sizeAll rest

end

theorem sizeAll_append (l₁ l₂ : List Dump) : sizeAll (l₁ ++ l₂) = sizeAll l₁ + sizeAll l₂ := by
  induction l₁ with
  | nil => simp [sizeAll]
  | cons d rest ih => simp only [List.cons_append, sizeAll, ih]; omega

theorem size_eq (d : Dump) : d.size = sizeAll d.children + 1 := by
  cases d
  rfl

def count (counted : Nat) : (pending : List Dump) → Nat
  | [] => counted
  | d :: rest => count (counted + 1) (d.children ++ rest)
termination_by pending => sizeAll pending
decreasing_by
  simp only [sizeAll, sizeAll_append, size_eq]
  omega

/-- The number of nodes of a dump, itself included. -/
def nodeCount (d : Dump) : Nat := count 0 [d]

/-! ## Copying a node -/

/-- A node that is being copied, with the dumps of its first children, latest first. -/
structure Unfinished where
  id : Nat
  /-- How many children have been copied. -/
  copied : Nat := 0
  done : List Dump := []

def Unfinished.finish (u : Unfinished) (t : Tree) : Dump :=
  let e := (Node.mk t u.id).entry
  { kind := e.kind
    named := e.named
    field := e.field
    span := e.span
    start := e.start
    stop := e.stop
    error := e.error
    missing := e.missing
    children := u.done.reverse }

/-- Copies on from a node, inside the ancestors that wait for it. -/
def copy (t : Tree) : (steps : Nat) → Unfinished → (ancestors : List Unfinished) → Dump
  | 0, current, _ => current.finish t
  | steps + 1, current, ancestors =>
    match (Node.mk t current.id).child? current.copied, ancestors with
    | some child, _ => copy t steps { id := child.id } (current :: ancestors)
    | none, [] => current.finish t
    | none, parent :: rest =>
      copy t steps
        { parent with copied := parent.copied + 1, done := current.finish t :: parent.done } rest

end Dump

/-- The dump of a node. Every node is entered and left at most once. -/
def Node.dump (n : Node) : Dump := Dump.copy n.tree (2 * n.tree.size) { id := n.id } []

/-! ## JSON -/

namespace Dump

open Json (Datum)

mutual

def toDatum : Dump → Datum
  | ⟨kind, named, field, span, start, stop, error, missing, children⟩ =>
    .record [.text kind, .flag named, Datum.ofOption field, Json.toDatum span, Json.toDatum start,
      Json.toDatum stop, .flag error, .flag missing, .list (toData children)]

def toData : List Dump → List Datum
  | [] => []
  | d :: rest => d.toDatum :: toData rest

end

mutual

def ofDatum? : Datum → Option Dump
  | .record [.text kind, .flag named, field, span, start, stop, .flag error, .flag missing,
      .list children] => do
    return {
      kind, named, error, missing
      field := ← field.toOption?
      span := ← Json.ofDatum? span
      start := ← Json.ofDatum? start
      stop := ← Json.ofDatum? stop
      children := ← ofData? children }
  | _ => none

def ofData? : List Datum → Option (List Dump)
  | [] => some []
  | d :: rest => do
    let d ← ofDatum? d
    let rest ← ofData? rest
    return d :: rest

end

instance : Json.Record Dump where
  type := .node
  toDatum := toDatum
  ofDatum? := ofDatum?

end Dump

/-- The dump that a text holds. Nothing but blanks may stand behind it. -/
def Dump.ofJson (L : Json.Library) (text : String) : Except Error Dump :=
  (L.decode Dump text).mapError .json

/-- The whole tree as indented JSON. -/
def Tree.toJson (L : Json.Library) (t : Tree) : Except Error String :=
  (L.encode .indented t.root.dump).mapError .json

end SyntaxTrees

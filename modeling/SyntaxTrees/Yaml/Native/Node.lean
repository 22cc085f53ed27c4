import Std.Data.TreeMap
import SyntaxTrees.Source.Position
import SyntaxTrees.Text.Utf8
import SyntaxTrees.Yaml.Native.Basic

/-!
# YAML documents

A document is a tree of scalars, sequences and mappings. A node may be given an anchor, and an
alias further on stands for the node with that anchor.
-/

namespace SyntaxTrees.Yaml

inductive Node where
  /-- A text; the tag is kept if one was given. -/
  | scalar (style : ScalarStyle) (tag : Option Bytes) (text : String)
  | sequence (items : List Node)
  | mapping (members : List (Node × Node))
  /-- Stands for the node whose anchor has the number. -/
  | alias (target : Nat)
deriving Repr, Inhabited

/-- The node where nothing is written. -/
def Node.empty : Node := .scalar .plain none ""

/-- The meaning of two exclamation marks before a tag, unless a document gives them another. -/
def standardTags : Bytes := Utf8.encode "tag:yaml.org,2002:"

def nullTag : Bytes := standardTags ++ Utf8.encode "null"

/-- The exclamation mark alone, the tag of a text that is not to be taken for anything else. -/
def plainTag : Bytes := Utf8.encode "!"

/-- An anchor that has been read: the number by which aliases refer to it, and how many anchors
were read before. -/
structure Anchor where
  number : Nat
  rank : Nat
deriving DecidableEq, Repr

/-- The anchors of a document. A new anchor gets the number of names that are known before it. A
name that occurs again keeps its place among the names, so that two anchors may get one number: an
alias then means the node that starts later. -/
structure Anchors where
  /-- The number of the latest anchor with a name. -/
  numbers : Std.TreeMap String Nat := ∅
  /-- The latest anchor with a number. -/
  latest : Std.TreeMap Nat Nat := ∅
  /-- The complete nodes with a number. -/
  nodes : Std.TreeMap Nat Node := ∅
  count : Nat := 0

namespace Anchors

def declare (as : Anchors) (name : String) : Anchor × Anchors :=
  let anchor := ⟨as.numbers.size, as.count⟩
  (anchor, { as with
    numbers := as.numbers.insert name anchor.number
    latest := as.latest.insert anchor.number anchor.rank
    count := as.count + 1 })

/-- The node of an anchor is complete. -/
def bind (as : Anchors) (anchor : Option Anchor) (node : Node) : Anchors :=
  match anchor with
  | none => as
  | some anchor =>
    if as.latest[anchor.number]? = some anchor.rank then
      { as with nodes := as.nodes.insert anchor.number node }
    else as

end Anchors

/-- A document, and what its aliases stand for. -/
structure Document where
  /-- The whole document; nothing if the text holds none. -/
  root : Option Node
  /-- How many scalars and aliases the document has, and how many beginnings and ends of sequences
  and mappings. -/
  size : Nat
  /-- What an alias with a number stands for. -/
  targets : Std.TreeMap Nat Node

end SyntaxTrees.Yaml

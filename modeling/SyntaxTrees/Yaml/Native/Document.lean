import SyntaxTrees.Yaml.Native.Node
import SyntaxTrees.Yaml.Native.Token.Reader

/-!
# Documents from tokens

`Document.ofTokens?` builds the one document of a text from its tokens. The sequences and mappings
that are open lie on a stack, so that the depth of a document is bounded by nothing but memory.
Each token is taken in two moves: `OpenDocument.settle` completes what the token shows to be over,
or to have been left out, and `OpenDocument.shift` takes the token itself.
-/

namespace SyntaxTrees.Yaml

inductive SequenceForm where
  /-- Items behind hyphens, further to the right than the block around them. -/
  | block
  /-- Items behind hyphens, in the columns of the keys of the mapping around them. -/
  | level
  /-- Items between brackets. -/
  | flow
deriving DecidableEq, Repr

inductive MappingForm where
  | block
  /-- Members between braces. -/
  | flow
  /-- A single member as an item between brackets. -/
  | pair
deriving DecidableEq, Repr

inductive Slot where
  | key
  /-- A key that no value can follow. -/
  | loneKey
  | value (key : Node)
deriving Repr

/-- A sequence or mapping that has been opened and not yet closed, with what it holds so far,
latest first. -/
inductive Frame where
  | sequence (form : SequenceForm) (anchor : Option Anchor) (items : List Node)
  | mapping (form : MappingForm) (anchor : Option Anchor) (members : List (Node × Node))
    (slot : Slot)
deriving Repr

structure Properties where
  anchor : Option Anchor := none
  tag : Option Bytes := none
deriving DecidableEq, Repr

def Properties.isEmpty (p : Properties) : Bool := p.anchor.isNone && p.tag.isNone

inductive Want where
  /-- The start of the document. A directive asks for an explicit one, and there is one version
  directive at most. -/
  | prologue (directed versioned : Bool)
  /-- A node, which may be left out unless it is demanded. -/
  | node (properties : Properties) (demanded : Bool)
  /-- Between brackets or braces, an item or the end. -/
  | first
  /-- What separates or ends the items. -/
  | next
deriving DecidableEq, Repr

/-- A point between two tokens of a document. -/
structure OpenDocument where
  stack : List Frame := []
  want : Want := .prologue false false
  root : Option Node := none
  anchors : Anchors := {}
  /-- The meanings of tag handles. -/
  handles : List (String × Bytes) := []
  size : Nat := 0

namespace OpenDocument

/-- The tag that a handle and a suffix spell. A handle keeps its usual meaning unless a directive
gives it another. -/
def resolveTag? (s : OpenDocument) (handle : String) (suffix : Bytes) : Option Bytes :=
  if handle.isEmpty then some suffix
  else
    let meanings := s.handles ++ [("!", plainTag), ("!!", standardTags)]
    (meanings.lookup handle).map (· ++ suffix)

/-! ## Nodes -/

/-- The open collections after one more node, which completes a single member between brackets. -/
def place (n : Node) : List Frame → List Frame × Nat
  | [] => ([], 0)
  | .sequence form anchor items :: stack => (.sequence form anchor (n :: items) :: stack, 0)
  | .mapping form anchor members .key :: stack =>
    (.mapping form anchor members (.value n) :: stack, 0)
  | .mapping form anchor members .loneKey :: stack =>
    (.mapping form anchor ((n, .empty) :: members) .key :: stack, 1)
  | .mapping .pair _ members (.value k) :: stack =>
    let (stack, size) := place (.mapping ((k, n) :: members)) stack
    (stack, size + 2)
  | .mapping form anchor members (.value k) :: stack =>
    (.mapping form anchor ((k, n) :: members) .key :: stack, 0)

def deliver (s : OpenDocument) (anchor : Option Anchor) (n : Node) (size : Nat) : OpenDocument :=
  let (stack, more) := place n s.stack
  { s with
    stack
    want := .next
    root := if s.stack.isEmpty then some n else s.root
    anchors := s.anchors.bind anchor n
    size := s.size + size + more }

/-- The point after a node that is not written. -/
def deliverEmpty (s : OpenDocument) (p : Properties) : OpenDocument :=
  s.deliver p.anchor (.scalar .plain p.tag "") 1

/-- The point inside a collection that has just been opened. -/
def enter (s : OpenDocument) (f : Frame) (want : Want) : OpenDocument :=
  { s with stack := f :: s.stack, want }

/-- The point after the end of the innermost open collection. -/
def close (s : OpenDocument) : OpenDocument :=
  match s.stack with
  | [] => s
  | .sequence _ anchor items :: stack =>
    { s with stack }.deliver anchor (.sequence items.reverse) 2
  | .mapping _ anchor members _ :: stack =>
    { s with stack }.deliver anchor (.mapping members.reverse) 2

/-- Waits for a node that may be left out. -/
def awaitNode (s : OpenDocument) : OpenDocument := { s with want := .node {} false }

/-! ## Left-out parts -/

/-- The innermost open collection is not written between brackets or braces. -/
def inBlock (s : OpenDocument) : Bool :=
  match s.stack with
  | [] => true
  | .sequence .flow .. :: _ => false
  | .sequence .. :: _ => true
  | .mapping .block .. :: _ => true
  | .mapping .. :: _ => false

/-- The items of a sequence may stand in the columns of the keys around it. -/
def inBlockMapping (s : OpenDocument) : Bool :=
  match s.stack with
  | .mapping .block .. :: _ => true
  | _ => false

/-- The token can belong to a node about which something has been said. -/
def startsNode (s : OpenDocument) (p : Properties) : Token → Bool
  | .anchor _ => p.anchor.isNone
  | .tag .. => p.tag.isNone
  | .alias _ => p.isEmpty
  | .scalar .. | .flowSequence | .flowMapping => true
  | .blockSequence | .blockMapping => s.inBlock
  | .item => s.inBlockMapping
  | _ => false

/-- A lone question mark between brackets takes the colon, comma or bracket that follows it. -/
def takesLoneKey (s : OpenDocument) (p : Properties) (t : Token) : Bool :=
  match s.stack with
  | .mapping .pair _ _ .key :: _ => p.isEmpty && [.value, .comma, .flowSequenceEnd].contains t
  | _ => false

/-- Before anything but a directive or its own start, a document starts without saying so. -/
def settleDocument (s : OpenDocument) (t : Token) : OpenDocument :=
  match s.want, t with
  | .prologue false _, .version .. => s
  | .prologue false _, .tagHandle .. => s
  | .prologue false _, .documentStart => s
  | .prologue false _, _ => { s with want := .node {} true }
  | _, _ => s

/-- Between brackets or braces, what is neither their end nor a question mark is a node. -/
def settleItem (s : OpenDocument) (t : Token) : OpenDocument :=
  match s.want, s.stack with
  | .first, .sequence .. :: _ =>
    if t = .flowSequenceEnd || t = .key then s else { s with want := .node {} true }
  | .first, .mapping form anchor members _ :: stack =>
    if t = .flowMappingEnd || t = .key then s
    else { s with stack := .mapping form anchor members .loneKey :: stack, want := .node {} true }
  | _, _ => s

/-- A token that cannot start a node shows that there is none, or that it is empty. -/
def settleNode (s : OpenDocument) (t : Option Token) : OpenDocument :=
  match s.want with
  | .node p demanded =>
    if t.any fun t => s.startsNode p t || s.takesLoneKey p t then s
    else if demanded && p.isEmpty then s
    else s.deliverEmpty p
  | _ => s

/-- A sequence in the columns of the keys around it ends where no hyphen follows. -/
def settleLevel (s : OpenDocument) (t : Option Token) : OpenDocument :=
  match s.want, s.stack with
  | .next, .sequence .level .. :: _ => if t = some .item then s else s.close
  | _, _ => s

/-- A key without a colon has an empty value. -/
def settleValue (s : OpenDocument) (t : Option Token) : OpenDocument :=
  match s.want, s.stack with
  | .next, .mapping _ _ _ (.value _) :: _ =>
    if t = some .value then s else s.deliverEmpty {}
  | _, _ => s

/-- Completes what a token, or the end of the text, shows to be over or left out. -/
def settle (s : OpenDocument) (t : Option Token) : OpenDocument :=
  let s := match t with
    | some t => (s.settleDocument t).settleItem t
    | none => s
  ((s.settleNode t).settleLevel t).settleValue t

/-! ## Tokens -/

/-- Takes a directive. No handle is given a meaning twice. -/
def shiftDirective (s : OpenDocument) (versioned : Bool) : Token → Option OpenDocument
  | .version major minor =>
    if versioned || major ≠ 1 || (minor ≠ 1 && minor ≠ 2) then none
    else some { s with want := .prologue true true }
  | .tagHandle handle meaning =>
    if (s.handles.lookup handle).isSome then none
    else some { s with want := .prologue true versioned, handles := (handle, meaning) :: s.handles }
  | .documentStart => some s.awaitNode
  | _ => none

/-- Takes a token that belongs to a node. -/
def shiftNode (s : OpenDocument) (p : Properties) (demanded : Bool) : Token → Option OpenDocument
  | .anchor name =>
    if p.anchor.isSome then none
    else
      let (anchor, anchors) := s.anchors.declare name
      some { s with anchors, want := .node { p with anchor := some anchor } demanded }
  | .tag handle suffix =>
    if p.tag.isSome then none
    else (s.resolveTag? handle suffix).map fun tag =>
      { s with want := .node { p with tag := some tag } demanded }
  | .alias name =>
    if p.isEmpty then (s.anchors.numbers[name]?).map fun n => s.deliver none (.alias n) 1 else none
  | .scalar style text => some (s.deliver p.anchor (.scalar style p.tag text) 1)
  | .flowSequence => some (s.enter (.sequence .flow p.anchor []) .first)
  | .flowMapping => some (s.enter (.mapping .flow p.anchor [] .key) .first)
  | .blockSequence =>
    if s.inBlock then some (s.enter (.sequence .block p.anchor []) .next) else none
  | .blockMapping =>
    if s.inBlock then some (s.enter (.mapping .block p.anchor [] .key) .next) else none
  | .item =>
    if s.inBlockMapping then some (s.enter (.sequence .level p.anchor []) (.node {} false))
    else none
  | t => if s.takesLoneKey p t then some (s.deliverEmpty p) else none

def shift (s : OpenDocument) (t : Token) : Option OpenDocument :=
  match s.want, s.stack, t with
  | .prologue _ versioned, _, t => s.shiftDirective versioned t
  | .node p demanded, _, t => s.shiftNode p demanded t
  | .first, .sequence .. :: _, .flowSequenceEnd => some s.close
  | .first, .sequence .. :: _, .key => some (s.enter (.mapping .pair none [] .key) (.node {} false))
  | .first, .mapping .. :: _, .flowMappingEnd => some s.close
  | .first, .mapping .. :: _, .key => some s.awaitNode
  | .next, .sequence .flow .. :: _, .comma => some { s with want := .first }
  | .next, .sequence .flow .. :: _, .flowSequenceEnd => some s.close
  | .next, .sequence .block .. :: _, .item => some s.awaitNode
  | .next, .sequence .level .. :: _, .item => some s.awaitNode
  | .next, .sequence .block .. :: _, .blockEnd => some s.close
  | .next, .mapping _ _ _ (.value _) :: _, .value => some s.awaitNode
  | .next, .mapping .flow _ _ .key :: _, .comma => some { s with want := .first }
  | .next, .mapping .flow _ _ .key :: _, .flowMappingEnd => some s.close
  | .next, .mapping .block _ _ .key :: _, .key => some s.awaitNode
  | .next, .mapping .block _ _ .key :: _, .blockEnd => some s.close
  | .next, [], .documentEnd => some s
  | _, _, _ => none

def feed (s : OpenDocument) (t : Token) : Option OpenDocument := (s.settle (some t)).shift t

def finish (s : OpenDocument) : Option Document :=
  let s := s.settle none
  match s.want, s.stack with
  | .prologue false _, [] => some ⟨none, 1, s.anchors.nodes⟩
  | .next, [] => some ⟨s.root, s.size, s.anchors.nodes⟩
  | _, _ => none

end OpenDocument

namespace Document

/-- The one document that tokens form. -/
def ofTokens? (ts : List Token) : Option Document :=
  (ts.foldlM OpenDocument.feed {}).bind OpenDocument.finish

def read? (s : String) : Option Document := (tokens? s.toList).bind ofTokens?

end Document

end SyntaxTrees.Yaml

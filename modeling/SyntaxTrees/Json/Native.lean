import SyntaxTrees.Json.Native.Derived
import SyntaxTrees.Json.Native.Printer
import SyntaxTrees.Json.Native.Reader

/-!
# A library for JSON

The functions for JSON texts that this development brings along, put together as a `Library`. They are
there to run programs with; what is said about programs holds for every lawful library.
-/

namespace SyntaxTrees.Json

/-- What a fault is reported as. -/
def Failure.ofFault (fault : Fault) : Failure where
  fault
  text := match fault with
    | .malformed => "the text is not well-formed"
    | .mismatch => "the text has another shape"
    | .truncated => "the text ends too early"

/-- Reads one record off the start of a text. -/
def readRecord (α : Type) [Record α] (text : List Char) : Except Failure (α × List Char) :=
  match (Scan.start (.record (Record.type α))).take text with
  | .ok (d, rest) =>
    match ofDatum? d with
    | some a => .ok (a, rest)
    | none => .error (.ofFault .mismatch)
  | .error fault => .error (.ofFault fault)

def Library.native : Library where
  derived := .native
  readItems? := itemsOf?
  print style j := .ok (Json.print style j)
  read α := readRecord α
  finish rest := if rest.all isBlank then .ok () else .error (.ofFault .malformed)

end SyntaxTrees.Json

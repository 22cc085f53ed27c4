import SyntaxTrees.Json.Basic
import SyntaxTrees.Text.Utf8

/-!
# Errors

What can keep an operation of the library from giving its result. Source text that does not match
a grammar is no error: its tree says where. An error is recoverable if another request could have
succeeded, and fatal if it lies in how the program was set up.
-/

namespace SyntaxTrees

/-- Why the tables of a grammar cannot be used. -/
inductive LoadFault where
  /-- The tables define no node kinds. -/
  | emptyTables
  /-- The tables are of a version that the engine does not read. -/
  | abiMismatch (found oldest newest : Nat)
  /-- The engine refused the tables for a reason of its own. -/
  | refused (message : String)
deriving DecidableEq, Repr

def LoadFault.message : LoadFault → String
  | emptyTables => "invalid grammar descriptor"
  | abiMismatch found oldest newest =>
    s!"incompatible ABI version {found} (supported: {oldest}..={newest})"
  | refused message => "rejected by engine: " ++ message

/-- Why an operation has no result. -/
inductive Error where
  /-- Nothing is registered under the name. -/
  | unknownGrammar (name : String)
  /-- The grammar is registered, but its tables are unusable. -/
  | unusableGrammar (name : String) (fault : LoadFault)
  | noGrammarSelected
  /-- The engine produced no tree. -/
  | engine (detail : String)
  | invalidEdit (detail : String)
  /-- The text of a node is not valid UTF-8. -/
  | invalidUtf8 (fault : Utf8.Fault)
  | json (failure : Json.Failure)
  /-- A configuration contradicts itself or the grammars there are. -/
  | config (detail : String)
  | io (detail : String)
  /-- A promise of the library to itself is broken. -/
  | internal (detail : String)
deriving DecidableEq, Repr

namespace Error

def message : Error → String
  | unknownGrammar name => "unknown grammar: " ++ name
  | unusableGrammar name fault => s!"failed to load grammar '{name}': " ++ fault.message
  | noGrammarSelected => "no grammar selected for parser"
  | engine detail => "parser engine error: " ++ detail
  | invalidEdit detail => "invalid edit: " ++ detail
  | invalidUtf8 fault => "node text is not valid UTF-8: " ++ fault.message
  | json failure => "JSON error: " ++ failure.text
  | config detail => "configuration error: " ++ detail
  | io detail => "I/O error: " ++ detail
  | internal detail => "internal error: " ++ detail

/-- Another request could succeed. -/
def isRecoverable : Error → Bool
  | unknownGrammar _ => true
  | _ => false

/-- The program is set up in a way that no request can mend. -/
def isFatal : Error → Bool
  | unusableGrammar .. | config _ => true
  | _ => false

end Error

end SyntaxTrees

import SyntaxTrees.Json.Library
import SyntaxTrees.Json.Native.Quoted

/-!
# Texts of JSON documents

A document is written either on one line without blanks, or with every member and item on a line
of its own, indented by two blanks for each level.
-/

namespace SyntaxTrees.Json

namespace Style

def lineBreak (style : Style) (depth : Nat) : String :=
  match style with
  | compact => ""
  | indented => "\n" ++ .ofList (List.replicate (2 * depth) ' ')

/-- What stands between a key and its value. -/
def colon : Style → String
  | compact => ":"
  | indented => ": "

end Style

mutual

/-- Appends the text of a document. -/
def append (style : Style) (depth : Nat) (out : String) : Json → String
  | .null => out ++ "null"
  | .flag b => out ++ (if b then "true" else "false")
  | .number spelling => out ++ spelling
  | .text s => out ++ .ofList (quote s)
  | .array [] => out ++ "[]"
  | .array (item :: rest) =>
    let out := append style (depth + 1) (out ++ "[" ++ style.lineBreak (depth + 1)) item
    appendItems style (depth + 1) out rest ++ style.lineBreak depth ++ "]"
  | .object [] => out ++ "\x7b\x7d"
  | .object ((key, value) :: rest) =>
    let out := out ++ "\x7b" ++ style.lineBreak (depth + 1) ++ .ofList (quote key) ++ style.colon
    let out := append style (depth + 1) out value
    appendMembers style (depth + 1) out rest ++ style.lineBreak depth ++ "\x7d"

def appendItems (style : Style) (depth : Nat) (out : String) : List Json → String
  | [] => out
  | item :: rest =>
    appendItems style depth (append style depth (out ++ "," ++ style.lineBreak depth) item) rest

def appendMembers (style : Style) (depth : Nat) (out : String) : List (String × Json) → String
  | [] => out
  | (key, value) :: rest =>
    let out := out ++ "," ++ style.lineBreak depth ++ .ofList (quote key) ++ style.colon
    appendMembers style depth (append style depth out value) rest

end

def print (style : Style) (j : Json) : String := append style 0 "" j

end SyntaxTrees.Json

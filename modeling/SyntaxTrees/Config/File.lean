import SyntaxTrees.Config.Basic
import SyntaxTrees.Error
import SyntaxTrees.Json.Library

/-!
# Configurations in files

Configurations are written as YAML and read back by code that is not part of this development: the
code that is generated from the tables of fields, which is the same for all formats, and a printer and
a reader of YAML (`Yaml.Library`). A configuration is loaded from what a file holds, and saved as what
the file is to hold. A file is given by its bytes, or by nothing if it does not exist.
-/

namespace SyntaxTrees

namespace Yaml

/-- A printer and a reader of YAML texts, with the code that is generated for the types of records.
What passes between them is data, which has the form of a JSON document. What goes wrong is said in
words. -/
structure Library where
  derived : Json.Derived
  /-- The text of some data. -/
  print : Json → Except String String
  /-- Reads a text that holds one configuration and nothing else. -/
  read : String → Except String Config

/-- The data of a configuration. -/
def Library.data (Y : Library) (c : Config) : Json :=
  Y.derived.write (.record .config) (Json.toDatum c)

end Yaml

namespace Config

variable (Y : Yaml.Library)

def toYaml (c : Config) : Except Error String :=
  (Y.print (Y.data c)).mapError fun e => .config ("YAML error: " ++ e)

def parse (s : String) : Except Error Config := (Y.read s).mapError .config

def missingFile : Error := .io "No such file or directory (os error 2)"

/-- What went wrong when a file holds no text. -/
def noText : Error := .io "stream did not contain valid UTF-8"

/-- The configuration in a file. -/
def load : (file : Option Bytes) → Except Error Config
  | none => .error missingFile
  | some bytes =>
    match Utf8.decode bytes with
    | .ok s => parse Y s
    | .error _ => .error noText

/-- What a file in a directory holds after the configuration has been saved there. -/
def save (c : Config) (directoryExists : Bool) : Except Error Bytes := do
  let text ← c.toYaml Y
  if directoryExists then return Utf8.encode text else throw missingFile

end Config

end SyntaxTrees

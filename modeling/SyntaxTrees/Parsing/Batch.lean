import SyntaxTrees.Parsing.Parser

/-!
# Batches

Many sources are parsed with one grammar by several workers. Each worker has a parser of its own,
selects the grammar when it meets its first source, and keeps the parser for all sources of its
run; the results come in the order of the sources, however these were cut into runs.
-/

namespace SyntaxTrees.Batch

variable {σ : Type}

/-- Parses one source, after selecting the grammar if none is selected yet. -/
def parseOne (e : Engine σ) (g : Grammar) (p : Parser σ) (source : Bytes) :
    Except Error Tree × Parser σ :=
  match p.grammar with
  | some _ => p.parse e source
  | none =>
    match p.select e g with
    | .ok p => p.parse e source
    | .error err => (.error err, p)

/-- Parses the sources of one worker, one after the other. -/
def parseRun (e : Engine σ) (g : Grammar) (p : Parser σ) : List Bytes → List (Except Error Tree)
  | [] => []
  | source :: rest =>
    let (result, p) := parseOne e g p source
    result :: parseRun e g p rest

/-- Parses sources that are cut into one run for each worker. A grammar that the engine refuses is
an error of the whole batch; every other error stands in the place of its source. -/
def parse (e : Engine σ) (g : Grammar) (runs : List (List Bytes)) :
    Except Error (List (Except Error Tree)) :=
  match (Parser.new e).select e g with
  | .error err => .error err
  | .ok _ => .ok (runs.flatMap (parseRun e g (Parser.new e)))

end SyntaxTrees.Batch

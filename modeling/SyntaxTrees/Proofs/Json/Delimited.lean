import SyntaxTrees.Proofs.Json.Dump

/-!
# Texts of dumps delimit themselves
-/

namespace SyntaxTrees.Dump

open Json (isBlank)

variable {L : Json.Library}

end SyntaxTrees.Dump

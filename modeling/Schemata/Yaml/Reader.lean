/-
  Reading YAML.  `read` is the value of a text, or what is wrong with it; a text without a node
  stands for null.  Every JSON text that is indented by blanks is in the language.
-/
import Schemata.Yaml.Value

namespace Schemata.Yaml

/-- The value of a text. -/
def read (text : String) : Except Problem Value := do
  let pieces ← Piece.ofText text
  let tree ← Tree.ofPieces pieces
  Value.ofTree (Nat.pow (pieces.length + 8) 2) tree

end Schemata.Yaml

/-
  What can be wrong with a YAML text: its form, a character in it, or the value that a scalar should
  stand for.
-/
import Schemata.Text.Display

namespace Schemata.Yaml

/-- What is wrong with a text. -/
inductive Problem where
  /-- The text is not YAML. -/
  | form
  /-- A character that no text may hold, at an offset. -/
  | character (code offset : Nat)
  /-- A scalar does not stand for a value of its kind. -/
  | value (message : String)
deriving DecidableEq, Repr

/-- The text of a problem. -/
def Problem.message : Problem → String
  | form => "the text is not YAML"
  | character code offset =>
    "unacceptable character #x" ++ String.ofList (Text.hexDigits 4 code) ++
      ": special characters are not allowed\n  in \"<unicode string>\", position " ++
      toString offset
  | value message => message

end Schemata.Yaml

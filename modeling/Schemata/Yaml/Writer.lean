/-
  Writing YAML in block style.  The items of a list stand below the key of the list without
  indentation; a key that does not fit on one line with its value is written behind a question mark.
-/
import Schemata.Yaml.WrittenScalar

namespace Schemata.Yaml

/-- The text of a number; one with an exponent has a point before it. -/
def floatText (x : Number.Binary64) : List Char :=
  let cs := (x.textWith ".inf" ".nan").toList
  if cs.contains 'e' && !cs.contains '.' then
    cs.flatMap fun c => if c = 'e' then ['.', '0', 'e'] else [c]
  else cs

/-- A value that is no filled collection, starting at a column. -/
def inline (indent column : Nat) : Json → List Char
  | .null => ['n', 'u', 'l', 'l']
  | .bool b => if b then ['t', 'r', 'u', 'e'] else ['f', 'a', 'l', 's', 'e']
  | .int i => (toString i).toList
  | .float x => floatText x
  | .str s => scalarText true indent column s
  | .arr _ => ['[', ']']
  | .obj _ => ['\x7b', '\x7d']

mutual

/-- The members of an object at an indentation; the first one continues the line. -/
def members (indent : Nat) : List (String × Json) → List Char
  | [] => []
  | [(k, v)] => member indent k v
  | (k, v) :: m :: rest => member indent k v ++ blanks indent ++ members indent (m :: rest)

/-- One member of an object. -/
def member (indent : Nat) (k : String) (v : Json) : List Char :=
  if isSimpleKey k then
    let key := scalarText false (indent + 2) indent k ++ [':']
    match v with
    | .arr (item :: more) => key ++ newLine indent ++ items indent (item :: more)
    | .obj (m :: more) => key ++ newLine (indent + 2) ++ members (indent + 2) (m :: more)
    | v => key ++ ' ' :: (inline (indent + 2) (indent + key.length + 1) v ++ ['\n'])
  else
    '?' :: ' ' :: (scalarText true (indent + 2) (indent + 2) k ++ newLine indent ++
      ':' :: ' ' :: nested (indent + 2) v)

/-- The items of a list at an indentation; the first one continues the line. -/
def items (indent : Nat) : List Json → List Char
  | [] => []
  | [v] => '-' :: ' ' :: nested (indent + 2) v
  | v :: w :: rest =>
    '-' :: ' ' :: (nested (indent + 2) v ++ blanks indent ++ items indent (w :: rest))

/-- A value on the line of the mark before it. -/
def nested (indent : Nat) (v : Json) : List Char :=
  match v with
  | .arr (item :: more) => items indent (item :: more)
  | .obj (m :: more) => members indent (m :: more)
  | v => inline indent indent v ++ ['\n']

end

/-- The text of a value. -/
def write (v : Json) : String :=
  String.ofList <|
    match v with
    | .arr (item :: more) => items 0 (item :: more)
    | .obj (m :: more) => members 0 (m :: more)
    | v => inline 2 0 v ++ ['\n']

end Schemata.Yaml

/-
  Type texts.  A type is kept as text: a base name, a modifier in parentheses and the brackets of an
  array, in lower case with the usual short names.

  * `normalize` brings a written type into that form: blanks around punctuation go, long names such
    as `character varying` become short; a type with quoted names keeps its case;
  * `split` takes a type apart, `category` is its coarse class, `render` its form in statements.
-/
import Schemata.Text.Blank
import Schemata.Text.Case
import Schemata.Text.Class
import Schemata.Text.Search

namespace Schemata

/-- The coarse class of a column. -/
inductive Category where
  | string
  | number
  | boolean
  | object
  | array
deriving DecidableEq, Repr

/-- The name of a class. -/
def Category.name : Category → String
  | string => "string"
  | number => "number"
  | boolean => "boolean"
  | object => "object"
  | array => "array"

namespace TypeText

/-! ## Blanks around punctuation -/

/-- Whether the first character that is no blank belongs to a class. -/
def leadsTo (p : Char → Bool) (cs : List Char) : Bool :=
  (cs.dropWhile Text.isBlank).head?.any p

/-- The text without the blanks before the characters of a class. -/
def tightenBefore (p : Char → Bool) : List Char → List Char
  | [] => []
  | c :: cs =>
    if Text.isBlank c && leadsTo p cs then tightenBefore p cs else c :: tightenBefore p cs

/-- The text without the blanks after the characters of a class; `after` says whether the text
    follows one. -/
def tightenAfter (p : Char → Bool) (after : Bool) : List Char → List Char
  | [] => []
  | c :: cs =>
    if after && Text.isBlank c then tightenAfter p true cs else c :: tightenAfter p (p c) cs

/-- The text without the blanks on both sides of a character. -/
def tighten (c : Char) (cs : List Char) : List Char :=
  tightenAfter (· == c) false (tightenBefore (· == c) cs)

/-! ## Brackets -/

/-- The text after the brackets of an array at its start, with the digits between them. -/
def afterBrackets? (cs : List Char) : Option (List Char × List Char) :=
  match cs with
  | '[' :: rest =>
    match rest.dropWhile Text.isDigit with
    | ']' :: rest' => some (rest.takeWhile Text.isDigit, rest')
    | _ => none
  | _ => none

/-- The text after brackets with blanks inside at its start, with the digits between them. -/
def afterLooseBrackets? (cs : List Char) : Option (List Char × List Char) :=
  match cs with
  | '[' :: rest =>
    let inner := rest.dropWhile Text.isBlank
    match (inner.dropWhile Text.isDigit).dropWhile Text.isBlank with
    | ']' :: rest' => some (inner.takeWhile Text.isDigit, rest')
    | _ => none
  | _ => none

/-- The text without the blanks between the brackets of arrays; `skip` characters are dropped
    first. -/
def tightenBrackets (skip : Nat) : List Char → List Char
  | [] => []
  | c :: cs =>
    match skip with
    | skip + 1 => tightenBrackets skip cs
    | 0 =>
      match afterLooseBrackets? (c :: cs) with
      | some (digits, rest) =>
        '[' :: (digits ++ ']' :: tightenBrackets (cs.length - rest.length) cs)
      | none => c :: tightenBrackets 0 cs

/-- Whether a text is a run of array brackets; one line end may follow.  `inside` says whether a
    bracket is open, and `some` whether one was closed. -/
def isBracketRun (inside closed : Bool) : List Char → Bool
  | [] => closed && !inside
  | c :: cs =>
    if inside then
      if c = ']' then isBracketRun false true cs
      else Text.isDigit c && isBracketRun true closed cs
    else if c = '[' then isBracketRun true closed cs
    else closed && c = '\n' && cs.isEmpty

/-- The parts of a text before and from its closing run of array brackets on. -/
def splitArray : List Char → List Char × List Char
  | [] => ([], [])
  | c :: cs =>
    if c = '[' && isBracketRun false false (c :: cs) then ([], c :: cs)
    else
      let (before, suffix) := splitArray cs
      (c :: before, suffix)

/-- The base of a text and its closing array brackets; a line end after them is dropped. -/
def takeArray (cs : List Char) : List Char × List Char :=
  let (before, suffix) := splitArray cs
  (before, suffix.filter (· != '\n'))

/-- The parts of a text before, in and after its first group in parentheses. -/
def cutModifier? (cs : List Char) : Option (List Char × List Char × List Char) :=
  match Text.cut? ['('] cs with
  | none => none
  | some (before, rest) =>
    match Text.cut? [')'] rest with
    | none => none
    | some (inner, after) => some (before, '(' :: (inner ++ [')']), after)

/-! ## Normal forms -/

/-- The short names of types. -/
def aliases : List (String × String) :=
  [("integer", "int4"), ("int", "int4"), ("int4", "int4"), ("smallint", "int2"), ("int2", "int2"),
    ("bigint", "int8"), ("int8", "int8"), ("real", "float4"), ("float4", "float4"),
    ("double precision", "float8"), ("float", "float8"), ("float8", "float8"),
    ("decimal", "numeric"), ("character varying", "varchar"), ("varchar", "varchar"),
    ("character", "char"), ("boolean", "bool"), ("bool", "bool"),
    ("timestamp without time zone", "timestamp"), ("timestamp with time zone", "timestamptz"),
    ("time without time zone", "time"), ("time with time zone", "timetz")]

/-- The short name of a type. -/
def shortName (s : String) : String := (aliases.lookup s).getD s

/-- The text with single blanks between its words, in lower case unless it quotes names. -/
def foldCase (cs : List Char) : List Char :=
  let text := Text.squeeze cs
  if text.contains '"' then text else Text.lowerList text

/-- The text without the blanks around its punctuation. -/
def tightenAll (cs : List Char) : List Char :=
  let cs := tighten '(' cs
  let cs := tightenBefore (· == ')') cs
  let cs := tighten ',' cs
  let cs := tightenBefore (· == '[') cs
  let cs := tightenBrackets 0 cs
  tighten '.' cs

/-- The text with the closing word `array` written as brackets. -/
def arrayWord (cs : List Char) : List Char :=
  let word := [' ', 'a', 'r', 'r', 'a', 'y']
  if word.isSuffixOf cs then cs.take (cs.length - word.length) ++ ['[', ']'] else cs

/-- The normal form of a type. -/
def normalize (s : String) : String :=
  let text := arrayWord (tightenAll (foldCase s.toList))
  let (text, suffix) := takeArray text
  let (text, modifier) : List Char × List Char :=
    match cutModifier? text with
    | some (before, modifier, after) =>
      (Text.squeeze (before ++ ' ' :: after), modifier)
    | none => (text, [])
  let name := String.ofList text
  -- the length of a `float` is a precision, which its short name does not carry
  let modifier := if name = "float" then [] else modifier
  shortName name ++ String.ofList modifier ++ String.ofList suffix

/-- A type taken apart. -/
structure Parts where
  base : String
  modifier : String
  suffix : String
deriving DecidableEq, Repr

/-- The parts of a type. -/
def split (s : String) : Parts :=
  let (text, suffix) := takeArray s.toList
  let (text, modifier) : List Char × List Char :=
    match cutModifier? text with
    | some (before, modifier, after) => (before ++ after, modifier)
    | none => (text, [])
  ⟨String.ofList (Text.trim text), String.ofList modifier, String.ofList suffix⟩

/-! ## Classes and rendering -/

/-- The types of numbers. -/
def numberTypes : List String :=
  ["int2", "int4", "int8", "serial", "serial2", "serial4", "serial8", "smallserial", "bigserial",
    "numeric", "float4", "float8", "money", "oid"]

/-- The coarse class of a type in normal form. -/
def category (s : String) : Category :=
  let parts := split s
  if !parts.suffix.isEmpty then .array
  else if numberTypes.contains parts.base then .number
  else if parts.base = "bool" then .boolean
  else if parts.base = "json" ∨ parts.base = "jsonb" then .object
  else .string

/-- The form of a type in statements: in upper case unless it quotes names. -/
def render (s : String) : String := if s.toList.contains '"' then s else Text.upper s

end TypeText

end Schemata

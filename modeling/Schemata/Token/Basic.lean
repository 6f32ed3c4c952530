/-
  Tokens of a statement text.  A token keeps the layout in front of it, the blanks and comments, so
  that the tokens of a text and its closing layout make up the whole text.

  * `source` is the text that a run of tokens spans, and `spans` the offsets of each token;
  * `identifier` is the name that a word or a quoted name denotes, `stringValue` the text that a
    literal denotes;
  * `statements` splits tokens at semicolons, `items` at another mark; both outside parentheses.
-/
import Schemata.Quote

namespace Schemata

/-- The kinds of tokens. -/
inductive TokenKind where
  /-- A bare name or keyword. -/
  | word
  /-- A name between double quotes. -/
  | quoted
  /-- A literal between single quotes or between dollar tags. -/
  | string
  | number
  /-- One of `( ) , ; . [ ]`. -/
  | punct
  /-- Any other mark or run of marks. -/
  | operator
deriving DecidableEq, Repr

/-- A token with the layout in front of it. -/
structure Token where
  kind : TokenKind
  text : List Char
  layout : List Char
deriving DecidableEq, Repr

namespace Token

/-! ## Classes -/

/-- Whether the token is the given keyword, in any case; a quoted name is no keyword. -/
def isKeyword (word : String) (t : Token) : Bool :=
  t.kind == .word && Text.upperList t.text == word.toList

/-- Whether the token is one of the given keywords. -/
def isKeywordOf (words : List String) (t : Token) : Bool := words.any fun w => t.isKeyword w

/-- Whether the token is the given mark. -/
def isPunct (c : Char) (t : Token) : Bool := t.kind == .punct && t.text == [c]

/-- Whether the token denotes a name. -/
def isIdentifier (t : Token) : Bool := t.kind == .word || t.kind == .quoted

/-! ## Values -/

/-- The name that a word or a quoted name denotes. -/
def identifier (t : Token) : String :=
  String.ofList (if t.kind = .quoted then Quote.unquoteList t.text else t.text)

/-- The opening tag of a dollar-quoted text, both dollars included. -/
def dollarTag (cs : List Char) : List Char :=
  match cs with
  | [] => []
  | c :: rest => c :: (rest.takeWhile (· != '$') ++ ['$'])

/-- The text that a literal denotes. -/
def stringValue (t : Token) : String :=
  String.ofList <|
    match t.text with
    | '\'' :: rest => Text.undouble '\'' rest.dropLast
    | cs =>
      let n := (dollarTag cs).length
      (cs.drop n).take (cs.length - 2 * n)

/-! ## Texts -/

/-- The text of tokens, each with the layout in front of it. -/
def fullText (ts : List Token) : List Char := ts.flatMap fun t => t.layout ++ t.text

/-- The text that a run of tokens spans, from the start of the first to the end of the last. -/
def source : List Token → String
  | [] => ""
  | t :: ts => String.ofList (t.text ++ fullText ts)

/-- The offsets of the start and the end of each token, when the first layout starts at `offset`. -/
def spans (offset : Nat) : List Token → List (Nat × Nat)
  | [] => []
  | t :: ts =>
    let start := offset + t.layout.length
    let stop := start + t.text.length
    (start, stop) :: spans stop ts

/-! ## Parentheses -/

/-- The pieces between the semicolons outside parentheses; `depth` counts the parentheses that are
    open. -/
def statementsFrom (depth : Nat) : List Token → List (List Token)
  | [] => [[]]
  | t :: ts =>
    if t.isPunct '(' then Text.consFirst t (statementsFrom (depth + 1) ts)
    else if t.isPunct ')' then Text.consFirst t (statementsFrom (depth - 1) ts)
    else if t.isPunct ';' && depth == 0 then [] :: statementsFrom depth ts
    else Text.consFirst t (statementsFrom depth ts)

/-- The statements of a text, none of them empty.  A closing parenthesis too many counts for
    nothing. -/
def statements (ts : List Token) : List (List Token) :=
  (statementsFrom 0 ts).filter (! ·.isEmpty)

/-- The pieces between the marks outside parentheses; `depth` counts the parentheses that are open,
    below zero if more were closed. -/
def itemsFrom (mark : Char) (depth : Int) : List Token → List (List Token)
  | [] => [[]]
  | t :: ts =>
    if t.isPunct '(' then Text.consFirst t (itemsFrom mark (depth + 1) ts)
    else if t.isPunct ')' then Text.consFirst t (itemsFrom mark (depth - 1) ts)
    else if t.isPunct mark && depth == 0 then [] :: itemsFrom mark depth ts
    else Text.consFirst t (itemsFrom mark depth ts)

/-- The items of a list between commas, none of them empty. -/
def items (ts : List Token) : List (List Token) := (itemsFrom ',' 0 ts).filter (! ·.isEmpty)

end Token

end Schemata

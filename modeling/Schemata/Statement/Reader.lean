/-
  Reading documents.  A document is cut into statements at its semicolons, and each statement is
  read on its own.

  * A malformed table or enum type is an error, with the number and the text of its statement; any
    other malformed statement is passed over with a warning; a statement of another kind says
    nothing;
  * `Statement.readAll` reads a document, `Statement.readOne` one of its statements.
-/
import Schemata.Log.Event
import Schemata.Statement.Clause
import Schemata.Text.Class

namespace Schemata.Statement

open Cursor Log

/-! ## Tables -/

/-- Whether a table constraint starts here, and no column. -/
def startsConstraint (ts : List Token) : Bool :=
  match ts with
  | [] => false
  | t :: rest =>
    t.isKeyword "CONSTRAINT" ||
    (t.isKeywordOf ["PRIMARY", "FOREIGN"] && atKeyword ["KEY"] rest) ||
    (t.isKeywordOf ["UNIQUE", "CHECK"] && (atPunct '(' rest || atKeyword ["NULLS"] rest))

/-- The schema and the name of a type that is a plain name. -/
def plainTypeName (ts : List Token) : Option (Option String × String) :=
  match nameParts "type name" ts with
  | .ok (parts, []) => some (Name.lastTwo parts)
  | _ => none

/-- Notes the references of a column to other than one column. -/
def noteReferences (table column : String) (clauses : List (Option String × Clause)) :
    Logged Unit :=
  clauses.forM fun (_, c) =>
    match c with
    | .references target =>
      if target.columnText?.isNone then
        Logged.log .debug .parser
          ("Reference from " ++ table ++ "." ++ column ++ " has no single target column")
      else pure ()
    | _ => pure ()

/-- A column of the body of a table. -/
def readColumn (table : String) (ts : List Token) : Action ParseFault ColumnDraft := do
  match ts with
  | [] => throw (.invalidColumn "")
  | t :: rest =>
    if !t.isIdentifier then throw (.invalidColumn (Token.source ts))
    let name := t.identifier
    let (type, rest) ← Action.ofExcept (spanElements (Token.isKeywordOf clauseKeywords) rest)
    if type.isEmpty then throw (.noColumnType name)
    let list := clauses rest
    noteReferences table name list.clauses
    match list.fault with
    | some fault => throw fault
    | none =>
      let definition : ColumnDefinition :=
        { name, typeText := Token.source type, typeName := plainTypeName type }
      return list.clauses.foldl ColumnDraft.apply { definition }

/-- The columns and constraints of the body of a table; `seen` holds the folded names of the columns
    before. -/
def readBody (table : String) (seen : List String) :
    List (List Token) → Action ParseFault (List ColumnDefinition × List Constraint)
  | [] => pure ([], [])
  | ts :: more => do
    if startsConstraint ts then
      let constraint ← Action.ofExcept (tableConstraint ts)
      let (columns, constraints) ← readBody table seen more
      return (columns, constraint.toList ++ constraints)
    else if atKeyword ["LIKE", "EXCLUDE"] ts then
      let word := (ts.head?.map fun t => String.ofList (Text.upperList t.text)).getD ""
      Logged.log .debug .parser ("Ignoring " ++ word ++ " clause in " ++ table)
      readBody table seen more
    else
      let draft ← readColumn table ts
      let folded := Quote.fold draft.definition.name
      if seen.contains folded then throw (.repeatedColumn draft.definition.name)
      let (columns, constraints) ← readBody table (folded :: seen) more
      return (draft.definition :: columns, draft.constraints ++ constraints)

/-- A table, after its opening keywords.  One that is made from a query or as a partition has no
    body to read. -/
def readTable (ts : List Token) : Action ParseFault (List Statement) := do
  let ts := skip ["IF", "NOT", "EXISTS"] ts
  if ts.isEmpty then throw .noTableName
  let ((schema, name), ts) ← Action.ofExcept (qualifiedName "table name" ts)
  if atPunct '(' ts then
    let (body, _) ← Action.ofExcept (group ts)
    let (columns, constraints) ← readBody name [] (Token.items body)
    return [.createTable schema name columns constraints]
  else if atKeyword ["AS", "PARTITION", "OF"] ts then return []
  else throw (.noColumnList name)

/-! ## Enum types -/

/-- The values of an enum type; `seen` holds the values before in lower case. -/
def readValues (enumName : String) (seen : List String) :
    List (List Token) → Except ParseFault (List String)
  | [] => .ok []
  | [t] :: more =>
    if t.kind = .string then
      let folded := Text.lower t.stringValue
      if seen.contains folded then .error (.repeatedValue t.stringValue)
      else (readValues enumName (folded :: seen) more).map (t.stringValue :: ·)
    else .error (.valueNotLiteral enumName)
  | _ :: _ => .error (.valueNotLiteral enumName)

/-- A type, after its opening keywords; only enum types say something. -/
def readType (ts : List Token) : Except ParseFault (List Statement) := do
  let ts := skip ["IF", "NOT", "EXISTS"] ts
  if ts.isEmpty then throw .noTypeName
  let ((schema, name), ts) ← qualifiedName "type name" ts
  match accept ["AS", "ENUM"] ts with
  | none => return []
  | some ts =>
    if atPunct '(' ts then
      let (inside, _) ← group ts
      let values ← readValues name [] (Token.items inside)
      return [.createEnum schema name values]
    else throw (.noValueList name)

/-! ## Changes, indexes and comments -/

/-- One action of a change to a table; only an added constraint says something. -/
def readAction (schema : Option String) (table : String) (ts : List Token) :
    Except ParseFault (List Statement) :=
  match accept ["ADD"] ts with
  | none => .ok []
  | some ts => (tableConstraint ts).map fun c => c.toList.map (.addConstraint schema table)

/-- The actions of a change to a table. -/
def readActions (schema : Option String) (table : String) :
    List (List Token) → Except ParseFault (List Statement)
  | [] => .ok []
  | ts :: more => do
    let statements ← readAction schema table ts
    let rest ← readActions schema table more
    return statements ++ rest

/-- A change to a table, after its opening keywords. -/
def readChange (ts : List Token) : Except ParseFault (List Statement) := do
  let ts := skip ["ONLY"] (skip ["IF", "EXISTS"] ts)
  let ((schema, table), ts) ← qualifiedName "table name" ts
  readActions schema table (Token.items ts)

/-- The name of an index without a name of its own: the table and the columns, where an expression
    counts as `expr`. -/
def defaultIndexName (table : String) (columns : List String) : String :=
  let part (column : String) : String :=
    let bare := Quote.fold column
    let letters := bare.toList.filter (· != '_')
    if !letters.isEmpty && letters.all Text.isAlnum then bare else "expr"
  "_".intercalate (table :: (columns.map part ++ ["idx"]))

/-- The name of an index, if it has one of its own. -/
def indexName (ts : List Token) : Except ParseFault (Option String × List Token) :=
  if atKeyword ["ON"] ts then .ok (none, ts)
  else (expectName "index name" ts).map fun (n, ts) => (some n, ts)

/-- The access method of an index, if it is given. -/
def indexMethod (ts : List Token) : Except ParseFault (Option String × List Token) :=
  match accept ["USING"] ts with
  | some ts => (advance ts).map fun (t, ts) => (some (Text.lower (String.ofList t.text)), ts)
  | none => .ok (none, ts)

/-- An index, after the word that opens the statement. -/
def readIndex (ts : List Token) : Except ParseFault (List Statement) := do
  let unique := (accept ["UNIQUE"] ts).isSome
  let ts := skip ["CONCURRENTLY"] (skip ["INDEX"] (skip ["UNIQUE"] ts))
  let ts := skip ["IF", "NOT", "EXISTS"] ts
  let (name, ts) ← indexName ts
  match accept ["ON"] ts with
  | none => throw .indexWithoutOn
  | some ts =>
    let ((schema, table), ts) ← qualifiedName "table name" (skip ["ONLY"] ts)
    let (method, ts) ← indexMethod ts
    if !atPunct '(' ts then throw (.indexWithoutColumnList table)
    let (inside, ts) ← group ts
    let columns := (Token.items inside).map Token.source
    if columns.isEmpty then throw (.indexWithoutColumns table)
    let (_, ts) ← spanElements (Token.isKeyword "WHERE") ts
    let condition := (accept ["WHERE"] ts).map Token.source
    let name := (filled name).getD (defaultIndexName table columns)
    return [.createIndex schema table { name, columns, unique, method, condition }]

/-- What a comment is about: a table, or a column of one. -/
def readCommentTarget (ts : List Token) :
    Except ParseFault (Option ((Option String × String × Option String) × List Token)) := do
  match accept ["TABLE"] ts with
  | some ts =>
    let ((schema, table), ts) ← qualifiedName "table name" ts
    return some ((schema, table, none), ts)
  | none =>
  match accept ["COLUMN"] ts with
  | some ts =>
    let (parts, ts) ← nameParts "column name" ts
    match Name.columnOfParts? parts with
    | some r => return some ((r.schema, r.table, some r.column), ts)
    | none => throw .commentWithoutTable
  | none => return none

/-- A comment, after its opening keywords. -/
def readComment (ts : List Token) : Except ParseFault (List Statement) := do
  match ← readCommentTarget ts with
  | none => return []
  | some ((schema, table, column), ts) =>
    match accept ["IS"] ts with
    | none => throw .commentWithoutIs
    | some ts =>
      let (t, _) ← advance ts
      if t.isKeyword "NULL" then return [.comment schema table column none]
      else if t.kind = .string then return [.comment schema table column (some t.stringValue)]
      else throw .commentNotLiteral

/-! ## Statements -/

/-- The kinds of statements that say something about the schema, with the tokens after their opening
    keywords. -/
inductive Opening where
  | index (rest : List Token)
  | table (rest : List Token)
  | type (rest : List Token)
  | change (rest : List Token)
  | comment (rest : List Token)
  | other
deriving DecidableEq, Repr

/-- The tokens without the next one if it is one of the given keywords. -/
def skipKeyword (words : List String) (ts : List Token) : List Token :=
  if atKeyword words ts then ts.tail else ts

/-- The kind of a statement. -/
def opening (ts : List Token) : Opening :=
  match accept ["CREATE"] ts with
  | some ts =>
    if atKeyword ["UNIQUE", "INDEX"] ts then .index ts
    else
      let ts := skipKeyword ["TEMP", "TEMPORARY", "UNLOGGED"] (skipKeyword ["GLOBAL", "LOCAL"] ts)
      match accept ["TABLE"] ts with
      | some ts => .table ts
      | none =>
        match accept ["TYPE"] ts with
        | some ts => .type ts
        | none => .other
  | none =>
    match accept ["ALTER", "TABLE"] ts with
    | some ts => .change ts
    | none =>
      match accept ["COMMENT", "ON"] ts with
      | some ts => .comment ts
      | none => .other

/-- What a statement says that may be passed over. -/
def lenient (index : Nat) (r : Except ParseFault (List Statement)) :
    Action ParseError (List Statement) :=
  match r with
  | .ok statements => pure statements
  | .error fault => do
    Logged.log .warning .parser
      ("Skipping malformed statement " ++ toString index ++ ": " ++ fault.message)
    return []

/-- What a statement says that must be well formed. -/
def strict (index : Nat) (ts : List Token) (r : Action ParseFault (List Statement)) :
    Action ParseError (List Statement) :=
  r.adapt fun fault => { fault, statement := some (index, Token.source ts) }

/-- What one statement of a document says. -/
def readOne (index : Nat) (ts : List Token) : Action ParseError (List Statement) :=
  match opening ts with
  | .index rest => lenient index (readIndex rest)
  | .table rest => strict index ts (readTable rest)
  | .type rest => strict index ts (Action.ofExcept (readType rest))
  | .change rest => lenient index (readChange rest)
  | .comment rest => lenient index (readComment rest)
  | .other => pure []

/-- What the statements of a document say, the first of them under the given number. -/
def readFrom (index : Nat) : List (List Token) → Action ParseError (List Statement)
  | [] => pure []
  | ts :: more => do
    let statements ← Action.within [("statement_index", .int index)] (readOne index ts)
    let rest ← readFrom (index + 1) more
    return statements ++ rest

/-- The tokens of a document, or the error that it stays open somewhere. -/
def scan (s : String) : Except ParseError (List Token) :=
  (Token.scan s).mapError fun e => { fault := .unclosed e.what (Token.lineOf s e.remaining) }

/-- What a document says. -/
def readAll (s : String) : Action ParseError (List Statement) := do
  let ts ← Action.ofExcept (scan s)
  readFrom 1 (Token.statements ts)

end Schemata.Statement

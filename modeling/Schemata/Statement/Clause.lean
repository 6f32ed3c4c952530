/-
  The parts of table definitions: the clauses of a column and the constraints of a table.

  * `columnList` and `references` read the parts that columns and tables share, and `tableConstraint`
    a constraint of a table, its name and what comes after it;
  * `clause` reads one clause of a column and `clauses` all of them, each with the constraint name
    in front of it;
  * a draft is a column under construction; `ColumnDraft.apply` adds a clause to it.
-/
import Schemata.Statement.Basic
import Schemata.Statement.Cursor

namespace Schemata

open Cursor

/-! ## Column lists and references -/

/-- One column of a list: a name, or the text of an expression. -/
def columnItem : List Token → String
  | [t] => if t.isIdentifier then t.identifier else Token.source [t]
  | ts => Token.source ts

/-- A list of columns between parentheses, with at least one column. -/
def columnList (ts : List Token) : Except ParseFault (List String × List Token) :=
  match group ts with
  | .error e => .error e
  | .ok (inside, rest) =>
    match (Token.items inside).map columnItem with
    | [] => .error .emptyColumnList
    | columns => .ok (columns, rest)

/-- The referential actions by their words. -/
def referentialActions : List (List String) :=
  [["NO", "ACTION"], ["SET", "NULL"], ["SET", "DEFAULT"], ["CASCADE"], ["RESTRICT"]]

/-- The first of several keyword sequences that is there, and the tokens after it. -/
def acceptFirst : List (List String) → List Token → Option (List String × List Token)
  | [], _ => none
  | words :: more, ts =>
    match accept words ts with
    | some rest => some (words, rest)
    | none => acceptFirst more ts

/-- A referential action; a list of columns after it is passed over. -/
def referentialAction (ts : List Token) : Except ParseFault (String × List Token) :=
  match acceptFirst referentialActions ts with
  | none => .error .unknownAction
  | some (words, rest) =>
    if atPunct '(' rest then
      match group rest with
      | .ok (_, rest) => .ok (" ".intercalate words, rest)
      | .error e => .error e
    else .ok (" ".intercalate words, rest)

/-- One option after the target of a foreign key, added to the target; absent if no option
    follows. -/
def referenceOption (r : Reference) (ts : List Token) :
    Except ParseFault (Option (Reference × List Token)) :=
  match accept ["ON", "DELETE"] ts with
  | some rest =>
    (referentialAction rest).map fun (a, rest) => some ({ r with onDelete := some a }, rest)
  | none =>
  match accept ["ON", "UPDATE"] ts with
  | some rest =>
    (referentialAction rest).map fun (a, rest) => some ({ r with onUpdate := some a }, rest)
  | none =>
  match accept ["MATCH"] ts with
  | some rest => (advance rest).map fun (_, rest) => some (r, rest)
  | none =>
  match acceptFirst [["DEFERRABLE"], ["NOT", "DEFERRABLE"]] ts with
  | some (_, rest) => .ok (some (r, rest))
  | none =>
  match accept ["INITIALLY"] ts with
  | some rest => (advance rest).map fun (_, rest) => some (r, rest)
  | none => .ok none

theorem length_of_acceptFirst {options : List (List String)} {words : List String}
    {ts rest : List Token} (h : acceptFirst options ts = some (words, rest)) :
    words ∈ options ∧ ts.length = words.length + rest.length := by
  induction options with
  | nil => cases h
  | cons o options ih =>
    rw [acceptFirst] at h
    split at h
    · next ha => cases h; exact ⟨by simp, length_of_accept ha⟩
    · exact ⟨List.mem_cons_of_mem _ (ih h).1, (ih h).2⟩

theorem length_of_referentialAction {a : String} {ts rest : List Token}
    (h : referentialAction ts = .ok (a, rest)) : rest.length ≤ ts.length := by
  unfold referentialAction at h
  split at h
  · cases h
  · next words r hr =>
    have hl := (length_of_acceptFirst hr).2
    split at h
    · split at h
      · next hg =>
        cases h
        have := length_of_group hg
        omega
      · cases h
    · cases h; omega

theorem length_of_advance {t : Token} {ts rest : List Token} (h : advance ts = .ok (t, rest)) :
    rest.length < ts.length := by
  cases ts with
  | nil => cases h
  | cons a l => cases h; simp

theorem except_map_eq_ok {ε α β : Type} {f : α → β} {x : Except ε α} {b : β}
    (h : x.map f = .ok b) : ∃ a, x = .ok a ∧ f a = b := by
  cases x with
  | error e => cases h
  | ok a => exact ⟨a, rfl, by cases h; rfl⟩

theorem length_of_referenceOption {r r' : Reference} {ts rest : List Token}
    (h : referenceOption r ts = .ok (some (r', rest))) : rest.length < ts.length := by
  unfold referenceOption at h
  split at h
  · next ha =>
    obtain ⟨⟨a, l⟩, hr, he⟩ := except_map_eq_ok h
    cases he
    have := length_of_accept ha
    have := length_of_referentialAction hr
    simp only [List.length_cons, List.length_nil] at *
    omega
  split at h
  · next ha =>
    obtain ⟨⟨a, l⟩, hr, he⟩ := except_map_eq_ok h
    cases he
    have := length_of_accept ha
    have := length_of_referentialAction hr
    simp only [List.length_cons, List.length_nil] at *
    omega
  split at h
  · next ha =>
    obtain ⟨⟨a, l⟩, hr, he⟩ := except_map_eq_ok h
    cases he
    have := length_of_accept ha
    have := length_of_advance hr
    simp only [List.length_cons, List.length_nil] at *
    omega
  split at h
  · next ha =>
    cases h
    obtain ⟨hm, hl⟩ := length_of_acceptFirst ha
    simp only [List.mem_cons, List.not_mem_nil, or_false] at hm
    rcases hm with rfl | rfl <;> simp only [List.length_cons, List.length_nil] at hl <;> omega
  split at h
  · next ha =>
    obtain ⟨⟨a, l⟩, hr, he⟩ := except_map_eq_ok h
    cases he
    have := length_of_accept ha
    have := length_of_advance hr
    simp only [List.length_cons, List.length_nil] at *
    omega
  · cases h

/-- All options after the target of a foreign key. -/
def referenceOptions (r : Reference) (ts : List Token) :
    Except ParseFault (Reference × List Token) :=
  match _h : referenceOption r ts with
  | .error e => .error e
  | .ok none => .ok (r, ts)
  | .ok (some (r', rest)) => referenceOptions r' rest
termination_by ts.length
decreasing_by exact length_of_referenceOption _h

/-- The target of a foreign key: a table, perhaps its columns, and options. -/
def references (ts : List Token) : Except ParseFault (Reference × List Token) :=
  match qualifiedName "referenced table" ts with
  | .error e => .error e
  | .ok ((schema, table), rest) =>
    if atPunct '(' rest then
      match columnList rest with
      | .error e => .error e
      | .ok (columns, rest) => referenceOptions { schema, table, columns } rest
    else referenceOptions { schema, table } rest

theorem length_of_referenceOptions {r r' : Reference} {ts rest : List Token}
    (h : referenceOptions r ts = .ok (r', rest)) : rest.length ≤ ts.length := by
  fun_induction referenceOptions r ts with
  | case1 => cases h
  | case2 => cases h; exact Nat.le_refl _
  | case3 r ts r₁ rest₁ hr ih =>
    have := length_of_referenceOption hr
    have := ih h
    omega

theorem length_of_columnList {columns : List String} {ts rest : List Token}
    (h : columnList ts = .ok (columns, rest)) : rest.length < ts.length := by
  unfold columnList at h
  split at h
  · cases h
  · next hg =>
    split at h
    · cases h
    · cases h; exact length_of_group hg

theorem length_of_references {r : Reference} {ts rest : List Token}
    (h : references ts = .ok (r, rest)) : rest.length < ts.length := by
  unfold references at h
  split at h
  · cases h
  · next schema table rest₁ hq =>
    have hq' : rest₁.length < ts.length := by
      unfold qualifiedName at hq
      split at hq
      · next hn =>
        simp only [Except.ok.injEq, Prod.mk.injEq] at hq
        exact hq.2 ▸ length_of_nameParts hn
      · cases hq
    split at h
    · split at h
      · cases h
      · next hc =>
        have := length_of_columnList hc
        have := length_of_referenceOptions h
        omega
    · have := length_of_referenceOptions h
      omega

/-! ## Table constraints -/

/-- The name of a constraint, if there is one. -/
def constraintName (ts : List Token) : Except ParseFault (Option String × List Token) :=
  match accept ["CONSTRAINT"] ts with
  | some rest => (expectName "constraint name" rest).map fun (n, rest) => (some n, rest)
  | none => .ok (none, ts)

/-- A table constraint after its name; absent if none starts here. -/
def constraintAfterName (name : Option String) (ts : List Token) :
    Except ParseFault (Option Constraint) := do
  match accept ["PRIMARY", "KEY"] ts with
  | some rest =>
    let (columns, _) ← columnList rest
    return some { kind := .primaryKey, name, columns }
  | none =>
  match accept ["UNIQUE"] ts with
  | some rest =>
    let rest :=
      match acceptFirst [["NULLS", "NOT", "DISTINCT"], ["NULLS", "DISTINCT"]] rest with
      | some (_, rest) => rest
      | none => rest
    let (columns, _) ← columnList rest
    return some { kind := .unique, name, columns }
  | none =>
  match accept ["FOREIGN", "KEY"] ts with
  | some rest =>
    let (columns, rest) ← columnList rest
    match accept ["REFERENCES"] rest with
    | none => throw .foreignKeyWithoutReferences
    | some rest =>
      let (target, _) ← references rest
      if target.columns.isEmpty then throw (.foreignKeyWithoutColumns target.table)
      else if target.columns.length ≠ columns.length then throw .foreignKeyColumnCount
      else return some { kind := .foreignKey, name, columns, reference := some target }
  | none =>
  match accept ["CHECK"] ts with
  | some rest =>
    let (inside, _) ← group rest
    return some { kind := .check, name, expression := some (Token.source inside) }
  | none => return none

/-- A table constraint, named or not; absent if none starts here. -/
def tableConstraint (ts : List Token) : Except ParseFault (Option Constraint) := do
  let (name, ts) ← constraintName ts
  constraintAfterName name ts

/-! ## Column clauses -/

/-- The keywords that end a type or a default and start a clause. -/
def clauseKeywords : List String :=
  ["NOT", "NULL", "DEFAULT", "PRIMARY", "REFERENCES", "UNIQUE", "CHECK", "CONSTRAINT", "COLLATE",
    "GENERATED"]

/-- One clause of a column. -/
inductive Clause where
  | notNull
  | primaryKey
  | unique
  | references (target : Reference)
  | check (expression : String)
  | default (expression : String)
  /-- A clause that says nothing about the schema, or a token that starts none. -/
  | ignored
deriving DecidableEq, Repr

/-- The text of a default expression: one element and all after it up to a clause. -/
def defaultExpression (ts : List Token) : Except ParseFault (String × List Token) :=
  match skipElement ts with
  | .error e => .error e
  | .ok rest =>
    match spanElements (Token.isKeywordOf clauseKeywords) rest with
    | .error e => .error e
    | .ok (_, after) => .ok (Token.source (ts.take (ts.length - after.length)), after)

/-- What follows the word that opens a clause of a generated column. -/
def generated (ts : List Token) : Except ParseFault (List Token) :=
  match acceptFirst [["ALWAYS"], ["BY", "DEFAULT"]] ts with
  | none => .error .badGenerated
  | some (_, rest) =>
    match accept ["AS"] rest with
    | none => .error .generatedWithoutAs
    | some rest =>
      match accept ["IDENTITY"] rest with
      | some rest => if atPunct '(' rest then (group rest).map (·.2) else .ok rest
      | none =>
        (group rest).map fun (_, rest) =>
          match acceptFirst [["STORED"], ["VIRTUAL"]] rest with
          | some (_, rest) => rest
          | none => rest

/-- The clause at the start of the tokens, and those after it. -/
def clause (ts : List Token) : Except ParseFault (Clause × List Token) :=
  match accept ["NOT", "NULL"] ts with
  | some rest => .ok (.notNull, rest)
  | none =>
  match accept ["NULL"] ts with
  | some rest => .ok (.ignored, rest)
  | none =>
  match accept ["PRIMARY", "KEY"] ts with
  | some rest => .ok (.primaryKey, rest)
  | none =>
  match accept ["UNIQUE"] ts with
  | some rest => .ok (.unique, rest)
  | none =>
  match accept ["REFERENCES"] ts with
  | some rest => (references rest).map fun (r, rest) => (.references r, rest)
  | none =>
  match accept ["CHECK"] ts with
  | some rest => (group rest).map fun (inside, rest) => (.check (Token.source inside), rest)
  | none =>
  match accept ["DEFAULT"] ts with
  | some rest => (defaultExpression rest).map fun (e, rest) => (.default e, rest)
  | none =>
  match accept ["COLLATE"] ts with
  | some rest => (nameParts "collation" rest).map fun (_, rest) => (.ignored, rest)
  | none =>
  match accept ["GENERATED"] ts with
  | some rest => (generated rest).map fun rest => (.ignored, rest)
  | none => (skipElement ts).map fun rest => (.ignored, rest)

/-- Clauses with the constraint names in front of them, as far as they could be read, and the fault
    that ended the reading, if there was one. -/
structure ClauseList where
  clauses : List (Option String × Clause)
  fault : Option ParseFault
deriving DecidableEq, Repr

/-- The clauses of a column; `name` is the constraint name that was read last.  Every step takes at
    least a token, so the number of tokens is fuel enough. -/
def clausesFrom (fuel : Nat) (name : Option String) (ts : List Token) : ClauseList :=
  match fuel with
  | 0 => ⟨[], none⟩
  | fuel + 1 =>
    if ts.isEmpty then ⟨[], none⟩
    else
      match accept ["CONSTRAINT"] ts with
      | some rest =>
        match expectName "constraint name" rest with
        | .ok (n, rest) => clausesFrom fuel (some n) rest
        | .error e => ⟨[], some e⟩
      | none =>
        match clause ts with
        | .ok (c, rest) =>
          let more := clausesFrom fuel none rest
          ⟨(name, c) :: more.clauses, more.fault⟩
        | .error e => ⟨[], some e⟩

/-- The clauses of a column. -/
def clauses (ts : List Token) : ClauseList := clausesFrom ts.length none ts

/-! ## Columns under construction -/

/-- A column under construction, with the table constraints that its clauses give. -/
structure ColumnDraft where
  definition : ColumnDefinition
  constraints : List Constraint := []
deriving DecidableEq, Repr

namespace ColumnDraft

/-- The draft with a constraint added if it has a name. -/
def addNamed (d : ColumnDraft) (kind : ConstraintKind) (name : Option String) : ColumnDraft :=
  if (filled name).isSome then
    { d with constraints := d.constraints ++ [{ kind, name, columns := [d.definition.name] }] }
  else d

/-- The draft with one more clause. -/
def apply (d : ColumnDraft) : Option String × Clause → ColumnDraft
  | (_, .notNull) => { d with definition := { d.definition with notNull := true } }
  | (name, .primaryKey) =>
    { d with definition := { d.definition with primaryKey := true } }.addNamed .primaryKey name
  | (name, .unique) =>
    { d with definition := { d.definition with unique := true } }.addNamed .unique name
  | (name, .references target) =>
    let d := { d with definition := { d.definition with foreignKey := target.columnText? } }
    if target.columnText?.isSome && ((filled name).isSome || target.hasActions) then
      { d with
        constraints := d.constraints ++
          [{ kind := .foreignKey, name, columns := [d.definition.name],
             reference := some target }] }
    else d
  | (name, .check expression) =>
    { d with constraints := d.constraints ++
        [{ kind := .check, name, expression := some expression }] }
  | (_, .default expression) =>
    { d with definition := { d.definition with defaultText := some expression } }
  | (_, .ignored) => d

end ColumnDraft

end Schemata

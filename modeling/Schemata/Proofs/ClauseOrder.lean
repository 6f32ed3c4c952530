/-
  The order of the clauses of a column.

  * `foldl_apply`: clauses change the definition of their column one after the other (`define`), and
    each gives its own constraints to the table (`given`); `define_comm`: they change different parts
    of the definition, apart from two defaults and two references;
  * `readAll_columnTable`: a table with one column is read with what its clauses say;
  * `readAll_columnTable_perm`: so clauses in another order make the same column and give the same
    constraints;
  * `not_readAll_columnTable_swap`: where a default has a comma in square brackets, the column ends
    there, and what comes behind it is lost to the column.
-/
import Schemata.Proofs.Clauses

namespace Schemata

open Cursor Log Statement Token Written Grammar

/-! ## Drafts -/

namespace Clause

/-- Whether the clause is a default. -/
def isDefault : Clause → Bool
  | .default _ => true
  | _ => false

/-- Whether the clause is a reference. -/
def isReference : Clause → Bool
  | .references _ => true
  | _ => false

/-- What a clause makes of the definition of its column. -/
def define (d : ColumnDefinition) : Clause → ColumnDefinition
  | .notNull => { d with notNull := true }
  | .primaryKey => { d with primaryKey := true }
  | .unique => { d with unique := true }
  | .references target => { d with foreignKey := target.columnText? }
  | .default expression => { d with defaultText := some expression }
  | .check _ => d
  | .ignored => d

/-- The constraints that a clause, with the name in front of it, gives to the table. -/
def given (column : String) : Option String × Clause → List Constraint
  | (name, .primaryKey) =>
    if (filled name).isSome then [{ kind := .primaryKey, name, columns := [column] }] else []
  | (name, .unique) =>
    if (filled name).isSome then [{ kind := .unique, name, columns := [column] }] else []
  | (name, .references target) =>
    if target.columnText?.isSome && ((filled name).isSome || target.hasActions) then
      [{ kind := .foreignKey, name, columns := [column], reference := some target }]
    else []
  | (name, .check expression) => [{ kind := .check, name, expression := some expression }]
  | _ => []

theorem name_define (d : ColumnDefinition) (c : Clause) : (define d c).name = d.name := by
  cases c <;> rfl

/-- Two clauses may change places, unless they are different defaults or different references. -/
theorem define_comm (d : ColumnDefinition) {a b : Clause}
    (hdefault : a.isDefault = true → b.isDefault = true → a = b)
    (hreference : a.isReference = true → b.isReference = true → a = b) :
    define (define d a) b = define (define d b) a := by
  cases a with
  | default e =>
    cases b with
    | default e' => rw [hdefault rfl rfl]
    | _ => rfl
  | references r =>
    cases b with
    | references r' => rw [hreference rfl rfl]
    | _ => rfl
  | _ => cases b <;> rfl

end Clause

/-- Of what a list has at most once, it has one. -/
theorem eq_of_countP_le_one {α : Type} {p : α → Bool} {l : List α} {x y : α} (h : l.countP p ≤ 1)
    (hx : x ∈ l) (hy : y ∈ l) (hpx : p x = true) (hpy : p y = true) : x = y := by
  rw [List.countP_eq_length_filter] at h
  have hx := List.mem_filter.2 ⟨hx, hpx⟩
  have hy := List.mem_filter.2 ⟨hy, hpy⟩
  obtain ⟨z, hz⟩ := List.length_eq_one_iff.1 (Nat.le_antisymm h (List.length_pos_of_mem hx))
  rw [hz, List.mem_singleton] at hx hy
  rw [hx, hy]

namespace ColumnDraft

theorem apply_eq (d : ColumnDraft) (c : Option String × Clause) : d.apply c =
    ⟨c.2.define d.definition, d.constraints ++ Clause.given d.definition.name c⟩ := by
  obtain ⟨name, c⟩ := c
  cases c with
  | primaryKey | unique =>
    simp only [apply, addNamed, Clause.define, Clause.given]
    split <;> simp
  | references target =>
    simp only [apply, Clause.define, Clause.given]
    split <;> simp
  | notNull | default | ignored => simp [apply, Clause.define, Clause.given]
  | check => rfl

theorem foldl_apply (cs : List (Option String × Clause)) (d : ColumnDraft) : cs.foldl apply d =
    ⟨cs.foldl (fun e c => c.2.define e) d.definition,
      d.constraints ++ cs.flatMap (Clause.given d.definition.name)⟩ := by
  induction cs generalizing d with
  | nil => simp
  | cons c cs ih =>
    rw [List.foldl_cons, ih, apply_eq]
    simp [Clause.name_define]

/-- Clauses in another order make the same definition and the same constraints. -/
theorem foldl_apply_perm {cs cs' : List (Option String × Clause)} (hp : cs.Perm cs')
    (hdefault : cs.countP (·.2.isDefault) ≤ 1) (hreference : cs.countP (·.2.isReference) ≤ 1)
    (d : ColumnDraft) : (cs.foldl apply d).definition = (cs'.foldl apply d).definition ∧
      (cs.foldl apply d).constraints.Perm (cs'.foldl apply d).constraints := by
  rw [foldl_apply, foldl_apply]
  constructor
  · refine hp.foldl_eq' (fun a ha b hb e => ?_) _
    refine Clause.define_comm e (fun hda hdb => ?_) fun hra hrb => ?_
    · exact congrArg Prod.snd (eq_of_countP_le_one hdefault ha hb hda hdb)
    · exact congrArg Prod.snd (eq_of_countP_le_one hreference ha hb hra hrb)
  · exact (hp.flatMap_right _).append_left _

end ColumnDraft

/-! ## Texts of clauses -/

/-- A clause as it is written, perhaps with the name of a constraint in front. -/
structure WrittenClause where
  text : String
  tokens : List Token
  name : Option String
  clause : Clause
  scans : Scans text tokens
  named : NamedClause (name, clause) tokens

/-- What a written clause says. -/
def WrittenClause.value (c : WrittenClause) : Option String × Clause := (c.name, c.clause)

/-- The text of a table with one column: its name, its type and its clauses, joined by spaces. -/
def columnTable (name type : String) (clauses : List String) : String :=
  "CREATE TABLE t (" ++ " ".intercalate (name :: type :: clauses) ++ ")"

/-- The characters of clauses, each behind a space, and of the end of the table. -/
def tailText (clauses : List String) : List Char :=
  clauses.flatMap (fun c => sp ++ c.toList) ++ [')']

theorem toList_intercalate_cons (s : String) (l : List String) :
    (" ".intercalate (s :: l)).toList = s.toList ++ l.flatMap fun c => sp ++ c.toList := by
  induction l generalizing s with
  | nil => simp
  | cons c l ih => simp [String.intercalate_cons_cons, ih, sp]

theorem toList_between (head middle tail : String) :
    (head ++ middle ++ tail).toList = head.toList ++ (middle.toList ++ tail.toList) := by
  simp

theorem toList_columnTable (name type : String) (clauses : List String) :
    (columnTable name type clauses).toList = fullText tableHead ++
      (name.toList ++ (sp ++ (type.toList ++ tailText clauses))) := by
  have htext : (columnTable name type clauses).toList = fullText tableHead ++
      ((" ".intercalate (name :: type :: clauses)).toList ++ [')']) := toList_between ..
  rw [htext, toList_intercalate_cons, List.flatMap_cons, tailText]
  simp only [List.append_assoc]

theorem hard_tailText (clauses : List String) : Hard (tailText clauses) := by
  cases clauses with
  | nil => exact hard_cons rfl
  | cons c clauses => exact hard_cons rfl

/-- Layout in front of the end of a table goes to the end only if nothing else is there. -/
theorem exists_indent_mark (lay lay' : List Char) (ts : List Token) :
    ∃ lay'', indent lay (ts ++ [mark lay' ')']) = indent lay ts ++ [mark lay'' ')'] := by
  cases ts with
  | nil => exact ⟨lay ++ lay', rfl⟩
  | cons t ts => exact ⟨lay', rfl⟩

/-- The tokens of clauses in a text are those of the clauses, one behind the other. -/
theorem scan_tailText (l : List WrittenClause) : ∃ ts lay,
    ColumnClauses (l.map WrittenClause.value) ts ∧
      scanList (tailText (l.map WrittenClause.text)) = .ok (ts ++ [mark lay ')'], []) := by
  induction l with
  | nil =>
    have hmark : Firm [mark [] ')'] := firm_mark isLayout_nil rfl (by decide) firm_nil
    exact ⟨[], [], .nil, scanList_of_firm hmark rfl⟩
  | cons c l ih =>
    obtain ⟨ts, lay, hts, h⟩ := ih
    obtain ⟨lay', h⟩ := c.scans.append (hard_tailText _) (by simp) h
    have h := scanList_layout isLayout_sp (by simp [c.named.ne_nil]) h
    obtain ⟨lay'', hlast⟩ := exists_indent_mark lay' lay ts
    refine ⟨indent sp c.tokens ++ indent lay' ts, lay'', .cons c.named.indent hts.indent, ?_⟩
    have htext : tailText ((c :: l).map WrittenClause.text) =
        sp ++ (c.text.toList ++ tailText (l.map WrittenClause.text)) := by
      simp [tailText]
    rw [htext, h, indent_append c.named.ne_nil, hlast, List.append_assoc]

/-! ## Tables of one column -/

section
variable {name : Token} {type : List Token} {nameText typeText : String}
  (hname : Scans nameText [name]) (htype : Scans typeText type) (hcolumn : OpensColumn name type)
include hname htype hcolumn

/-- A table with one column is read with what the clauses of the column say. -/
theorem readAll_columnTable (l : List WrittenClause) :
    let draft := (l.map WrittenClause.value).foldl ColumnDraft.apply
      { definition := plainDefinition name type }
    (readAll (columnTable nameText typeText (l.map WrittenClause.text))).result =
      .ok [.createTable none "t" [draft.definition] draft.constraints] := by
  intro draft
  obtain ⟨ts, lay, hts, h⟩ := scan_tailText l
  obtain ⟨lay', lay'', hscan⟩ := scan_column hname htype hcolumn.nonempty (hard_tailText _)
    (by simp) h
  obtain ⟨lay₁, hlast⟩ := exists_indent_mark lay'' lay ts
  have hclauses : ColumnClauses (l.map WrittenClause.value) (indent lay'' ts) := hts.indent
  have hscan : scanList (columnTable nameText typeText (l.map WrittenClause.text)).toList =
      .ok (tableWith lay₁ (columnWith lay' name type (indent lay'' ts)), []) := by
    rw [toList_columnTable, hscan, hlast, tableWith, columnWith, ← List.append_assoc]
    rfl
  have hitem : Enclosed (isPunct ',') (columnWith lay' name type (indent lay'' ts)) :=
    item_columnWith hcolumn hclauses.enclosed
  have hread : (readColumn "t" (columnWith lay' name type (indent lay'' ts))).result = .ok draft := by
    rw [readColumn_columnWith hcolumn hclauses.follows.span, clauses_eq hclauses]
  have hitems : Token.items (columnWith lay' name type (indent lay'' ts)) =
      [columnWith lay' name type (indent lay'' ts)] := items_of_enclosed (List.cons_ne_nil _ _) hitem
  rw [readAll_tableWith hitem.never hscan, hitems, readBody_columnWith hcolumn, hread]
  show Except.ok ([draft.definition], draft.constraints ++ []) = _
  rw [List.append_nil]

/-- **The order of clauses does not matter.** A column has clauses, at most one of them a default and
    at most one a reference. In any order, its table is read, with the same definition of the column,
    and with the same constraints up to their order. -/
theorem readAll_columnTable_perm {l l' : List WrittenClause} (hp : l.Perm l')
    (hdefault : l.countP (·.clause.isDefault) ≤ 1)
    (hreference : l.countP (·.clause.isReference) ≤ 1) :
    ∃ definition constraints constraints', constraints.Perm constraints' ∧
      (readAll (columnTable nameText typeText (l.map WrittenClause.text))).result =
        .ok [.createTable none "t" [definition] constraints] ∧
      (readAll (columnTable nameText typeText (l'.map WrittenClause.text))).result =
        .ok [.createTable none "t" [definition] constraints'] := by
  -- each order is read as its draft, and the drafts differ in the order of constraints only
  obtain ⟨hsame, hperm⟩ := ColumnDraft.foldl_apply_perm (hp.map WrittenClause.value)
    (by rwa [List.countP_map]) (by rwa [List.countP_map])
    { definition := plainDefinition name type }
  refine ⟨_, _, _, hperm, readAll_columnTable hname htype hcolumn l, ?_⟩
  rw [hsame]
  exact readAll_columnTable hname htype hcolumn l'

end

/-- A column that is not null. -/
def notNullClause : WrittenClause where
  text := "NOT NULL"
  tokens := [word [] "NOT", word sp "NULL"]
  name := none
  clause := .notNull
  scans := scans_of_toOption (by decide +kernel)
  named := .plain (.notNull (by decide +kernel))

/-- A default that is a number. -/
def zeroClause : WrittenClause where
  text := "DEFAULT 0"
  tokens := [word [] "DEFAULT"] ++ [⟨.number, ['0'], sp⟩]
  name := none
  clause := .default (source [⟨.number, ['0'], sp⟩])
  scans := scans_of_toOption (by decide +kernel)
  named := .plain (.default (by decide +kernel) ⟨by decide +kernel, [], rfl, Enclosed.nil⟩)

/-- The target of a reference to a table `u`. -/
def ownerTarget : Reference :=
  { target [(word sp "u").identifier] [] with onDelete := some (" ".intercalate ["SET", "NULL"]) }

/-- The tokens of its action. -/
def ownerAction : List Token :=
  [word sp "ON", word sp "DELETE"] ++ ([word sp "SET", word sp "NULL"] ++ [])

theorem optionTokens_ownerAction :
    OptionTokens (target [(word sp "u").identifier] []) ownerTarget ownerAction := by
  have haction : ActionTokens (" ".intercalate ["SET", "NULL"])
      ([word sp "SET", word sp "NULL"] ++ []) := .mk (by decide) (by decide +kernel) (.inl rfl)
  exact .onDelete (by decide +kernel) haction

/-- A reference with a name and an action. -/
def ownerClause : WrittenClause where
  text := "CONSTRAINT k REFERENCES u ON DELETE SET NULL"
  tokens := [word [] "CONSTRAINT"] ++ word sp "k" ::
    ([word sp "REFERENCES"] ++ ([word sp "u"] ++ (ownerAction ++ [])))
  name := some (word sp "k").identifier
  clause := .references ownerTarget
  scans := scans_of_toOption (by decide +kernel)
  named := .named (by decide +kernel) rfl
    (.references (by decide +kernel) (.table (.name rfl) (.cons optionTokens_ownerAction .nil)))

/-- `SET NULL` stands in front of `NOT NULL` in one order, and behind it in the other one. -/
theorem readAll_columnTable_perm_owner : ∃ definition constraints constraints',
    constraints.Perm constraints' ∧
      (readAll (columnTable "c" "int" ["DEFAULT 0", "CONSTRAINT k REFERENCES u ON DELETE SET NULL",
        "NOT NULL"])).result = .ok [.createTable none "t" [definition] constraints] ∧
      (readAll (columnTable "c" "int" ["NOT NULL", "CONSTRAINT k REFERENCES u ON DELETE SET NULL",
        "DEFAULT 0"])).result = .ok [.createTable none "t" [definition] constraints'] := by
  have hname : Scans "c" [word [] "c"] := scans_of_toOption (by decide +kernel)
  have htype : Scans "int" [word [] "int"] := scans_of_toOption (by decide +kernel)
  have hcolumn : OpensColumn (word [] "c") [word [] "int"] := by
    constructor <;> decide +kernel
  have hperm : [zeroClause, ownerClause, notNullClause].Perm
      [notNullClause, ownerClause, zeroClause] :=
    (List.reverse_perm [zeroClause, ownerClause, notNullClause]).symm
  have h := readAll_columnTable_perm hname htype hcolumn hperm (by decide) (by decide)
  exact h

/-- A comma in square brackets ends the column: what comes behind the default is about the rest of the
    list. -/
theorem not_readAll_columnTable_swap :
    Scans "ARRAY[false, true]" (rawTokens "ARRAY[false, true]") ∧
      bracketed [] (rawTokens "ARRAY[false, true]") = true ∧
      Enclosed startsClause (rawTokens "ARRAY[false, true]") ∧
      (readAll (columnTable "c" "bool[]" ["NOT NULL", "DEFAULT ARRAY[false, true]"])).result =
        .ok [.createTable none "t"
          [{ name := "c", typeText := "bool[]", notNull := true, defaultText := some "ARRAY[false" },
            { name := "true", typeText := "]" }] []] ∧
      (readAll (columnTable "c" "bool[]" ["DEFAULT ARRAY[false, true]", "NOT NULL"])).result =
        .ok [.createTable none "t"
          [{ name := "c", typeText := "bool[]", defaultText := some "ARRAY[false" },
            { name := "true", typeText := "]", notNull := true }] []] := by
  refine ⟨scans_rawTokens (isRaw_of_any (by decide +kernel)), by decide +kernel, by decide +kernel,
    ?_, ?_⟩
  · rw [← toOption_eq_some]
    decide +kernel
  · rw [← toOption_eq_some]
    decide +kernel

end Schemata

/-
  How the clauses of a column are written.

  * `ClauseTokens c ts`: the tokens are the clause `c`, as the grammar has it; `NamedClause` puts the
    name of a constraint in front, and `ColumnClauses` one clause behind the other;
  * the layout in front of a clause does not matter (`NamedClause.indent`), and no comma in it stands
    outside parentheses (`NamedClause.enclosed`);
  * `Follows ts`: the tokens may stand behind a clause, which ends there.
-/
import Schemata.Proofs.Defaults

namespace Schemata.Grammar

open Token Cursor Statement Written

variable {words : List String} {w : String} {t : Token} {ts us rest inside : List Token}
  {lay : List Char} {c : Clause} {r r' : Reference}

/-! ## Keywords and names -/

/-- The tokens are the given keywords. -/
def Keywords (words : List String) (ts : List Token) : Prop :=
  List.Forall₂ (fun w t => t.isKeyword w = true) words ts

instance (words : List String) (ts : List Token) : Decidable (Keywords words ts) :=
  inferInstanceAs (Decidable (List.Forall₂ _ words ts))

/-- A group in parentheses. -/
inductive Grouped (inside : List Token) : List Token → Prop
  | mk {o c : Token} : o.isPunct '(' = true → Enclosed never inside → c.isPunct ')' = true →
      Grouped inside (o :: (inside ++ [c]))

/-- Nothing, or a group in parentheses. -/
def PerhapsGrouped (ts : List Token) : Prop := ts = [] ∨ ∃ inside, Grouped inside ts

/-- A token is one keyword. -/
theorem isKeyword_of_isKeyword (h : t.isKeyword w = true) (w' : String) :
    t.isKeyword w' = decide (w' = w) := by
  simp only [isKeyword, Bool.and_eq_true, beq_iff_eq] at h
  rw [isKeyword, h.1, h.2, beq_self_eq_true, Bool.true_and, Bool.beq_eq_decide_eq, decide_eq_decide,
    String.toList_inj]
  exact eq_comm

theorem isPunct_of_isKeyword (h : t.isKeyword w = true) (mark : Char) : t.isPunct mark = false := by
  simp only [isKeyword, Bool.and_eq_true, beq_iff_eq] at h
  simp [isPunct, h.1]

namespace Keywords

theorem exists_cons (h : Keywords (w :: words) ts) :
    ∃ t us, ts = t :: us ∧ t.isKeyword w = true ∧ Keywords words us := by
  cases h with
  | cons ht hts => exact ⟨_, _, rfl, ht, hts⟩

theorem ne_nil (h : Keywords (w :: words) ts) : ts ≠ [] := by
  obtain ⟨t, us, rfl, -⟩ := h.exists_cons
  exact List.cons_ne_nil t us

/-- Layout does not matter. -/
theorem indent (h : Keywords words ts) : Keywords words (indent lay ts) := by
  cases h with
  | nil => exact .nil
  | cons ht hts => exact .cons ht hts

theorem enclosed (h : Keywords words ts) : Enclosed (isPunct ',') ts := by
  induction h with
  | nil => exact Enclosed.nil
  | cons ht _ ih =>
    exact Enclosed.cons (isPunct_of_isKeyword ht _) (isPunct_of_isKeyword ht _)
      (isPunct_of_isKeyword ht _) ih

end Keywords

theorem enclosed_identifier (h : t.isIdentifier = true) : Enclosed (isPunct ',') [t] :=
  Enclosed.cons (isPunct_of_isIdentifier h _) (isPunct_of_isIdentifier h _)
    (isPunct_of_isIdentifier h _) Enclosed.nil

theorem enclosed_dotted {parts : List String} (h : Dotted parts ts) : Enclosed (isPunct ',') ts := by
  induction h with
  | name ht => exact enclosed_identifier ht
  | dot ht hd _ ih =>
    exact (enclosed_identifier ht).append (Enclosed.cons (isPunct_ne hd (by decide))
      (isPunct_ne hd (by decide)) (isPunct_ne hd (by decide)) ih)

theorem Grouped.enclosed (h : Grouped inside ts) : Enclosed (isPunct ',') ts := by
  cases h with
  | mk ho hinside hc => exact Enclosed.group ho hc hinside Enclosed.nil

theorem PerhapsGrouped.enclosed (h : PerhapsGrouped ts) : Enclosed (isPunct ',') ts := by
  obtain rfl | ⟨inside, h⟩ := h
  · exact Enclosed.nil
  · exact h.enclosed

/-! ## References -/

/-- An action, perhaps with the columns that it is about. -/
inductive ActionTokens : String → List Token → Prop
  | mk {words : List String} {ts us : List Token} : words ∈ referentialActions →
      Keywords words ts → PerhapsGrouped us → ActionTokens (" ".intercalate words) (ts ++ us)

/-- An option of a reference, and what becomes of the target. -/
inductive OptionTokens (r : Reference) : Reference → List Token → Prop
  | onDelete {a : String} {ts us : List Token} : Keywords ["ON", "DELETE"] ts →
      ActionTokens a us → OptionTokens r { r with onDelete := some a } (ts ++ us)
  | onUpdate {a : String} {ts us : List Token} : Keywords ["ON", "UPDATE"] ts →
      ActionTokens a us → OptionTokens r { r with onUpdate := some a } (ts ++ us)
  | matching {t : Token} {ts : List Token} : Keywords ["MATCH"] ts → t.isIdentifier = true →
      OptionTokens r r (ts ++ [t])
  | deferrable {ts : List Token} : Keywords ["DEFERRABLE"] ts → OptionTokens r r ts
  | notDeferrable {ts : List Token} : Keywords ["NOT", "DEFERRABLE"] ts → OptionTokens r r ts
  | initially {t : Token} {ts : List Token} : Keywords ["INITIALLY"] ts → t.isIdentifier = true →
      OptionTokens r r (ts ++ [t])

/-- Options of a reference, one behind the other. -/
inductive OptionsTokens : Reference → Reference → List Token → Prop
  | nil {r : Reference} : OptionsTokens r r []
  | cons {r r' r'' : Reference} {ts us : List Token} : OptionTokens r r' ts →
      OptionsTokens r' r'' us → OptionsTokens r r'' (ts ++ us)

/-- A table of a name, perhaps with columns. -/
def target (parts columns : List String) : Reference :=
  { schema := (Name.lastTwo parts).1, table := (Name.lastTwo parts).2, columns }

/-- The target of a reference: a table, perhaps columns of it, and options. -/
inductive TargetTokens (r : Reference) : List Token → Prop
  | table {parts : List String} {ts us : List Token} : Dotted parts ts →
      OptionsTokens (target parts []) r us → TargetTokens r (ts ++ us)
  | columns {parts : List String} {ts inside us vs : List Token} : Dotted parts ts →
      Grouped inside us → Token.items inside ≠ [] →
      OptionsTokens (target parts ((Token.items inside).map columnItem)) r vs →
      TargetTokens r (ts ++ (us ++ vs))

theorem ActionTokens.enclosed {a : String} (h : ActionTokens a ts) : Enclosed (isPunct ',') ts := by
  cases h with
  | mk _ hk hg => exact hk.enclosed.append hg.enclosed

theorem OptionTokens.enclosed (h : OptionTokens r r' ts) : Enclosed (isPunct ',') ts := by
  cases h with
  | onDelete hk ha => exact hk.enclosed.append ha.enclosed
  | onUpdate hk ha => exact hk.enclosed.append ha.enclosed
  | matching hk ht => exact hk.enclosed.append (enclosed_identifier ht)
  | deferrable hk => exact hk.enclosed
  | notDeferrable hk => exact hk.enclosed
  | initially hk ht => exact hk.enclosed.append (enclosed_identifier ht)

theorem OptionsTokens.enclosed (h : OptionsTokens r r' ts) : Enclosed (isPunct ',') ts := by
  induction h with
  | nil => exact Enclosed.nil
  | cons h _ ih => exact h.enclosed.append ih

theorem TargetTokens.enclosed (h : TargetTokens r ts) : Enclosed (isPunct ',') ts := by
  cases h with
  | table hname hoptions => exact (enclosed_dotted hname).append hoptions.enclosed
  | columns hname hg _ hoptions =>
    exact (enclosed_dotted hname).append (hg.enclosed.append hoptions.enclosed)

/-! ## Clauses -/

/-- The word or words behind `GENERATED`. -/
def generatedModes : List (List String) := [["ALWAYS"], ["BY", "DEFAULT"]]

/-- What comes behind `GENERATED`: an identity, perhaps with options, or an expression. -/
inductive GeneratedTokens : List Token → Prop
  | identity {mode : List String} {ts us vs ws : List Token} : mode ∈ generatedModes →
      Keywords mode ts → Keywords ["AS"] us → Keywords ["IDENTITY"] vs → PerhapsGrouped ws →
      GeneratedTokens (ts ++ (us ++ (vs ++ ws)))
  | expression {mode : List String} {ts us inside vs : List Token} : mode ∈ generatedModes →
      Keywords mode ts → Keywords ["AS"] us → Grouped inside vs →
      GeneratedTokens (ts ++ (us ++ vs))
  | kept {mode : List String} {word : String} {ts us inside vs ws : List Token} :
      mode ∈ generatedModes → Keywords mode ts → Keywords ["AS"] us → Grouped inside vs →
      word ∈ ["STORED", "VIRTUAL"] → Keywords [word] ws →
      GeneratedTokens (ts ++ (us ++ (vs ++ ws)))

/-- A clause of a column. -/
inductive ClauseTokens : Clause → List Token → Prop
  | notNull {ts : List Token} : Keywords ["NOT", "NULL"] ts → ClauseTokens .notNull ts
  | null {ts : List Token} : Keywords ["NULL"] ts → ClauseTokens .ignored ts
  | primaryKey {ts : List Token} : Keywords ["PRIMARY", "KEY"] ts → ClauseTokens .primaryKey ts
  | unique {ts : List Token} : Keywords ["UNIQUE"] ts → ClauseTokens .unique ts
  | default {ts expression : List Token} : Keywords ["DEFAULT"] ts → IsDefault expression →
      ClauseTokens (.default (source expression)) (ts ++ expression)
  | references {r : Reference} {ts us : List Token} : Keywords ["REFERENCES"] ts →
      TargetTokens r us → ClauseTokens (.references r) (ts ++ us)
  | check {ts inside us : List Token} : Keywords ["CHECK"] ts → Grouped inside us →
      ClauseTokens (.check (source inside)) (ts ++ us)
  | collate {parts : List String} {ts us : List Token} : Keywords ["COLLATE"] ts →
      Dotted parts us → ClauseTokens .ignored (ts ++ us)
  | generated {ts us : List Token} : Keywords ["GENERATED"] ts → GeneratedTokens us →
      ClauseTokens .ignored (ts ++ us)

/-- A clause, perhaps with the name of a constraint in front. -/
inductive NamedClause : Option String × Clause → List Token → Prop
  | plain {c : Clause} {ts : List Token} : ClauseTokens c ts → NamedClause (none, c) ts
  | named {c : Clause} {t : Token} {ts us : List Token} : Keywords ["CONSTRAINT"] ts →
      t.isIdentifier = true → ClauseTokens c us → NamedClause (some t.identifier, c) (ts ++ t :: us)

/-- Clauses, one behind the other. -/
inductive ColumnClauses : List (Option String × Clause) → List Token → Prop
  | nil : ColumnClauses [] []
  | cons {c : Option String × Clause} {cs : List (Option String × Clause)} {ts us : List Token} :
      NamedClause c ts → ColumnClauses cs us → ColumnClauses (c :: cs) (ts ++ us)

theorem GeneratedTokens.enclosed (h : GeneratedTokens ts) : Enclosed (isPunct ',') ts := by
  cases h with
  | identity _ hm ha hi hg =>
    exact hm.enclosed.append (ha.enclosed.append (hi.enclosed.append hg.enclosed))
  | expression _ hm ha hg => exact hm.enclosed.append (ha.enclosed.append hg.enclosed)
  | kept _ hm ha hg _ hk =>
    exact hm.enclosed.append (ha.enclosed.append (hg.enclosed.append hk.enclosed))

theorem ClauseTokens.enclosed (h : ClauseTokens c ts) : Enclosed (isPunct ',') ts := by
  cases h with
  | notNull hk | null hk | primaryKey hk | unique hk => exact hk.enclosed
  | default hk he => exact hk.enclosed.append he.item
  | references hk h => exact hk.enclosed.append h.enclosed
  | check hk h => exact hk.enclosed.append h.enclosed
  | collate hk h => exact hk.enclosed.append (enclosed_dotted h)
  | generated hk h => exact hk.enclosed.append h.enclosed

theorem NamedClause.enclosed {c : Option String × Clause} (h : NamedClause c ts) :
    Enclosed (isPunct ',') ts := by
  cases h with
  | plain h => exact h.enclosed
  | named hk ht h => exact hk.enclosed.append ((enclosed_identifier ht).append h.enclosed)

theorem ColumnClauses.enclosed {cs : List (Option String × Clause)} (h : ColumnClauses cs ts) :
    Enclosed (isPunct ',') ts := by
  induction h with
  | nil => exact Enclosed.nil
  | cons h _ ih => exact h.enclosed.append ih

/-- A clause starts with its keywords. -/
theorem ClauseTokens.exists_keywords (h : ClauseTokens c ts) :
    ∃ w words us vs, ts = us ++ vs ∧ Keywords (w :: words) us ∧ w ∈ clauseKeywords ∧
      w ≠ "CONSTRAINT" ∧ (w = "NOT" → words = ["NULL"]) := by
  cases h with
  | notNull hk | null hk | primaryKey hk | unique hk =>
    exact ⟨_, _, ts, [], (List.append_nil ts).symm, hk, by decide, by decide, by decide⟩
  | default hk | references hk | check hk | collate hk | generated hk =>
    exact ⟨_, _, _, _, rfl, hk, by decide, by decide, by decide⟩

/-! ## Layout -/

theorem ClauseTokens.indent (h : ClauseTokens c ts) : ClauseTokens c (indent lay ts) := by
  cases h with
  | notNull hk => exact .notNull hk.indent
  | null hk => exact .null hk.indent
  | primaryKey hk => exact .primaryKey hk.indent
  | unique hk => exact .unique hk.indent
  | default hk he => exact indent_append hk.ne_nil ▸ .default hk.indent he
  | references hk h => exact indent_append hk.ne_nil ▸ .references hk.indent h
  | check hk h => exact indent_append hk.ne_nil ▸ .check hk.indent h
  | collate hk h => exact indent_append hk.ne_nil ▸ .collate hk.indent h
  | generated hk h => exact indent_append hk.ne_nil ▸ .generated hk.indent h

theorem NamedClause.indent {c : Option String × Clause} (h : NamedClause c ts) :
    NamedClause c (indent lay ts) := by
  cases h with
  | plain h => exact .plain h.indent
  | named hk ht h => exact indent_append hk.ne_nil ▸ .named hk.indent ht h

theorem NamedClause.ne_nil {c : Option String × Clause} (h : NamedClause c ts) : ts ≠ [] := by
  cases h with
  | plain h =>
    obtain ⟨w, words, us, vs, rfl, hk, -⟩ := h.exists_keywords
    exact List.append_ne_nil_of_left_ne_nil hk.ne_nil vs
  | named hk => exact List.append_ne_nil_of_left_ne_nil hk.ne_nil _

theorem ColumnClauses.indent {cs : List (Option String × Clause)} (h : ColumnClauses cs ts) :
    ColumnClauses cs (indent lay ts) := by
  cases h with
  | nil => exact .nil
  | cons h hs => exact indent_append h.ne_nil ▸ .cons h.indent hs

/-! ## What stands behind a clause -/

/-- The tokens may stand behind a clause: there are none, or a clause starts there. -/
structure Follows (ts : List Token) : Prop where
  starts : ∀ t, ts.head? = some t → startsClause t = true
  notDeferrable : accept ["NOT", "DEFERRABLE"] ts = none

end Schemata.Grammar

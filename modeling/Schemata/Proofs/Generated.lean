/-
  Generated documents say what they were generated from.

  * `Plain options s`: every name and raw text of a schema is read as it is written;
  * `statements` are what the generated document of a schema says, kind by kind;
  * `readAll_generate`: generating succeeds, and reading the document gives these statements.
-/
import Schemata.Proofs.Columns

namespace Schemata

open Log

/-- What is generated, whatever is logged: the document of the schema or that of a table. -/
theorem Ddl.result_generate (options : RenderOptions) (s : Schema) (only : Option String) :
    (generate options s only).result = (knownEnums s).map fun enums =>
      only.elim (document options enums s) fun key =>
        (s.tables.get? key).elim options.missingTable (tableDocument options enums key) := by
  unfold generate
  simp only [Action.result_bind, Action.result_ofExcept]
  cases knownEnums s with
  | error faults => rfl
  | ok enums =>
    cases only with
    | none => rfl
    | some key =>
      simp only [Option.elim_some, Except.bind, Except.map]
      cases s.tables.get? key <;> rfl

namespace Written

open Token

variable {options : RenderOptions} {s : Schema}

/-! ## What a document says -/

/-- The statement that defines an enum type. -/
def enumStatement (e : EnumType) : Statement := .createEnum e.schema e.name e.values

/-- The statement that defines a table. -/
def tableStatement (options : RenderOptions) (enums : OrderedMap EnumType) (t : Table) : Statement :=
  .createTable t.schema t.title (t.columns.map (definition options enums)) []

/-- The statements that add the constraints of a table. -/
def constraintsOf (t : Table) : List Statement :=
  t.allConstraints.map (.addConstraint t.schema t.title)

/-- The statements that define the indexes of a table. -/
def indexesOf (t : Table) : List Statement :=
  (t.indexes.mergeSort Index.le).map (.createIndex t.schema t.title)

/-- The statements that comment on a table and its columns. -/
def commentsOf (t : Table) : List Statement :=
  ((filled t.comment).toList.map fun text => .comment t.schema t.title none (some text)) ++
    t.columns.flatMap fun c =>
      (filled c.comment).toList.map fun text => .comment t.schema t.title (some c.title) (some text)

/-- What the document of a schema says. -/
def statements (options : RenderOptions) (s : Schema) : List Statement :=
  (Ddl.sortedEnums s.enums).map enumStatement ++
    ((Ddl.sortedTables s).map (fun e => tableStatement options s.enums e.2) ++
      ((Ddl.sortedTables s).flatMap (fun e => constraintsOf e.2) ++
        ((Ddl.sortedTables s).flatMap (fun e => indexesOf e.2) ++
          (Ddl.sortedTables s).flatMap fun e => commentsOf e.2)))

/-! ## Plain schemas -/

/-- All parts of a table are read as they are written. -/
structure PlainTableParts (options : RenderOptions) (enums : OrderedMap EnumType) (key : String)
    (t : Table) : Prop extends PlainTable key t where
  columns : ∀ c ∈ t.columns, PlainColumn options enums c
  titles : (t.columns.map fun c => Quote.fold c.title).Nodup
  constraints : ∀ c ∈ t.allConstraints, PlainConstraint c
  indexes : ∀ i ∈ t.indexes, PlainIndex i

/-- The headings of the sections. -/
def headings (options : RenderOptions) : List String :=
  [options.enumSection, options.tableSection, options.constraintSection, options.indexSection,
    options.commentSection]

/-- All parts of a schema are read as they are written, and its columns know no enum types of their
    own. -/
structure Plain (options : RenderOptions) (s : Schema) : Prop where
  headings : ∀ h ∈ headings options, IsHeading h
  known : Ddl.knownEnums s = .ok s.enums
  enums : ∀ e ∈ s.enums.values, PlainName e.schema e.name ∧ EnumType.repeated? [] e.values = none
  tables : ∀ e ∈ s.tables.entries, PlainTableParts options s.enums e.1 e.2

/-- The headings are comments unless they are changed. -/
theorem isHeading_default (f : String) : ∀ h ∈ headings { fallbackType := f }, IsHeading h := by
  intro h hh
  simp only [headings, List.mem_cons, List.not_mem_nil, or_false] at hh
  rcases hh with rfl | rfl | rfl | rfl | rfl
  all_goals exact ⟨_, rfl, by decide⟩

/-! ## The document -/

theorem forall₂_map {α : Type} {l : List α} {f : α → String} {g : α → Statement}
    (h : ∀ x ∈ l, Says (f x) (g x)) : List.Forall₂ Says (l.map f) (l.map g) := by
  rw [List.forall₂_map_left_iff, List.forall₂_map_right_iff]
  exact List.forall₂_same.2 h

theorem forall₂_flatMap {α : Type} {l : List α} {f : α → List String} {g : α → List Statement}
    (h : ∀ x ∈ l, List.Forall₂ Says (f x) (g x)) :
    List.Forall₂ Says (l.flatMap f) (l.flatMap g) := by
  induction l with
  | nil => exact .nil
  | cons x l ih =>
    rw [List.flatMap_cons, List.flatMap_cons]
    exact List.rel_append (h x List.mem_cons_self) (ih fun y hy => h y (List.mem_cons_of_mem x hy))

theorem says_comments {key : String} {t : Table} (ht : PlainTable key t)
    (hc : ∀ c ∈ t.columns, Quote.unquote c.title = c.title) :
    List.Forall₂ Says (Ddl.commentStatements key t) (commentsOf t) := by
  refine List.rel_append ?_ (forall₂_flatMap fun c hm => ?_)
  · exact forall₂_map fun text _ => says_commentOnTable ht text
  · exact forall₂_map fun text _ => says_commentOnColumn ht (hc c hm) text

theorem says_indexes {key : String} {t : Table} (ht : PlainTable key t)
    (hi : ∀ i ∈ t.indexes, PlainIndex i) :
    List.Forall₂ Says (Ddl.indexStatements key t) (indexesOf t) := by
  have hmem : ∀ i ∈ t.indexes.mergeSort Index.le, PlainIndex i := fun i hm =>
    hi i (List.mem_mergeSort.1 hm)
  have hall : (t.indexes.mergeSort Index.le).filter (fun i => !i.columns.isEmpty) =
      t.indexes.mergeSort Index.le :=
    List.filter_eq_self.2 fun i hm => by simpa using (hmem i hm).columns
  rw [Ddl.indexStatements, hall]
  exact forall₂_map fun i hm => says_createIndex (hmem i hm) ht

/-- The sections of a document say what the schema is made of. -/
theorem says_sections (h : Plain options s) :
    List.Forall₂ Says ((Ddl.sections options s.enums s).flatMap (·.2)) (statements options s) := by
  have henums : ∀ e ∈ Ddl.sortedEnums s.enums, e ∈ s.enums.values := fun e he =>
    List.mem_mergeSort.1 he
  have htables : ∀ e ∈ Ddl.sortedTables s, PlainTableParts options s.enums e.1 e.2 := fun e he =>
    h.tables e (List.mem_mergeSort.1 he)
  simp only [Ddl.sections, List.flatMap_cons, List.flatMap_nil, List.append_nil]
  refine List.rel_append (forall₂_map fun e he => ?_) (List.rel_append (forall₂_map fun e he => ?_)
    (List.rel_append (forall₂_flatMap fun e he => ?_) (List.rel_append
      (forall₂_flatMap fun e he => ?_) (forall₂_flatMap fun e he => ?_))))
  · obtain ⟨hname, hvalues⟩ := h.enums e (henums e he)
    exact says_createEnum hname hvalues
  · have ht := htables e he
    exact says_createTable ht.toPlainTable ht.columns ht.titles
  · have ht := htables e he
    exact forall₂_map fun c hc => says_addConstraint ht.toPlainTable (ht.constraints c hc)
  · have ht := htables e he
    exact says_indexes ht.toPlainTable ht.indexes
  · have ht := htables e he
    exact says_comments ht.toPlainTable fun c hc => (ht.columns c hc).title

/-- Empty sections do not count. -/
theorem flatMap_filled (sections : List (String × List String)) :
    (sections.filter fun e => !e.2.isEmpty).flatMap (·.2) = sections.flatMap (·.2) := by
  induction sections with
  | nil => rfl
  | cons e sections ih =>
    obtain ⟨heading, texts⟩ := e
    cases texts with
    | nil => simpa using ih
    | cons text texts => simpa using ih

section

variable {β : Type} {tells : List Token → β → Prop} {parts : List β} {enums : OrderedMap EnumType}

theorem strip_of_run {text : String} (h : Run tells text.toList parts)
    (hh : ∀ c, text.toList.head? = some c → c = '-') : Text.strip text = text := by
  rw [Text.strip, Text.trim_eq_self, String.ofList_toList]
  · intro c hc
    rw [hh c hc]
    rfl
  · intro c hc
    rw [h.1 c hc]
    rfl

/-- A document is a run of closed statements if its sections are made of such statements. -/
theorem run_document (hh : ∀ h ∈ headings options, IsHeading h)
    (h : List.Forall₂ (ClosedAs tells) ((Ddl.sections options enums s).flatMap (·.2)) parts) :
    Run tells (Ddl.document options enums s).toList parts := by
  have hheads : ∀ e ∈ Ddl.sections options enums s, e.1 ∈ headings options := by
    intro e he
    simp only [Ddl.sections, List.mem_cons, List.not_mem_nil, or_false] at he
    rcases he with rfl | rfl | rfl | rfl | rfl <;> simp [headings]
  have hflat : ((Ddl.sections options enums s).filter fun e => !e.2.isEmpty).flatMap (·.2) =
      (Ddl.sections options enums s).flatMap (·.2) := flatMap_filled _
  have hfilled : ∀ e ∈ (Ddl.sections options enums s).filter fun e => !e.2.isEmpty,
      IsHeading e.1 ∧ e.2 ≠ [] := by
    intro e he
    obtain ⟨he, hne⟩ := List.mem_filter.1 he
    exact ⟨hh _ (hheads e he), by simpa using hne⟩
  rw [← hflat] at h
  unfold Ddl.document
  generalize (Ddl.sections options enums s).filter (fun e => !e.2.isEmpty) = sections at *
  cases sections with
  | nil =>
    rw [List.forall₂_nil_left_iff.1 h]
    exact run_nil
  | cons e sections =>
    have hall := run_sections hfilled h (List.cons_ne_nil e sections) isLayout_nil
    rw [List.nil_append] at hall
    rw [strip_of_run hall]
    · exact hall
    · obtain ⟨body, hbody, -⟩ := (hfilled e List.mem_cons_self).1
      intro c hc
      cases sections with
      | nil =>
        simpa [Ddl.sectionText, hbody, eq_comm] using hc
      | cons e' sections =>
        simpa [Ddl.sectionText, String.intercalate_cons_cons, hbody, eq_comm] using hc

end

/-- The document of a plain schema is a run of statements. -/
theorem saysAll_document (h : Plain options s) :
    SaysAll (Ddl.document options s.enums s).toList (statements options s) :=
  run_document h.headings (says_sections h)

/-- **Reading what was generated.** The document of a plain schema says what the schema is made
    of. -/
theorem readAll_generate (h : Plain options s) :
    ∃ text, (Ddl.generate options s none).result = .ok text ∧
      (Statement.readAll text).result = .ok (statements options s) := by
  refine ⟨Ddl.document options s.enums s, ?_, readAll_of_saysAll (saysAll_document h)⟩
  rw [Ddl.result_generate, h.known]
  rfl

end Written

end Schemata

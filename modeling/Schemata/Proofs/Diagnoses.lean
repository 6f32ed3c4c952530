/-
  Foreign keys that are looked up twice.

  A foreign key on just one column is kept as a constraint and as the text of its column, and either
  is reported where its own look-up finds nothing.

  * `Statement.foreignKeysOn`: the foreign keys on just one column that statements state;
  * `mirrored_ofStatements`: a constraint that is the only one of them has its text at its column, as
    every edit of a table keeps it so (`Told`);
  * `reported_foreignKey`: where the names of its target are readable, the text of the column is looked
    up as the constraint would be with the schema of its own table for a schema that is not given; so
    the reports agree if the schema is given, or the table has none.
-/
import Schemata.Proofs.Redefining
import Schemata.Proofs.ReferenceTexts
import Schemata.Proofs.Resolving
import Schemata.Proofs.Soundness

namespace Schemata

open Log

theorem filled_filled (s : Option String) : filled (filled s) = filled s := by
  simp [filled]

/-- The reference with the schema of its own table, if it has none. -/
def Reference.within (r : Reference) (t : Table) : Reference :=
  { r with schema := (filled r.schema).or t.schema }

section
variable {t : Table} {c : Constraint} {n x : String} {r : Reference} {col : Column}

/-- A constraint is kept twice: it is a reference of one column to one column, and its column has the
    text of the reference. -/
structure Constraint.Mirrored (c : Constraint) (t : Table) (n : String) (r : Reference) (x : String)
    (col : Column) : Prop where
  reference : c.reference = some r
  target : r.columns = [x]
  column : t.findColumn? n = some col
  text : col.foreignKey = some (Name.columnText r.schema r.table x)

/-! ## Two look-ups -/

namespace Dangling

variable {tables : OrderedMap Table} {key : String}

/-- A reference to one column is looked up as that column. -/
theorem isSome_targetReason (h : r.columns = [x]) :
    (targetReason tables r).isSome = (columnReason tables r.key x).isSome := by
  rw [targetReason, columnReason]
  cases tables.get? r.key with
  | none => rfl
  | some u =>
    rw [h]
    dsimp only
    cases hx : u.findColumn? x with
    | none => simp [hx]
    | some other => simp [hx]

theorem isSome_ofConstraint (h : c.reference = some r) :
    (ofConstraint tables key c).isSome = (targetReason tables r).isSome := by
  rw [ofConstraint, h, Option.bind_some, Option.isSome_map]

/-- The text of a column with readable names is looked up as the reference would be with the schema of
    its own table. -/
theorem isSome_ofColumn (h : c.Mirrored t n r x col) (hread : Name.Readable r.schema r.table x) :
    (ofColumn tables key t col).isSome = (targetReason tables (r.within t)).isSome := by
  have htext : filled col.foreignKey = some (Name.columnText r.schema r.table x) := by
    rw [h.text]
    simp [filled, Option.filter, Name.columnText]
  have hkey : (Name.ColumnRef.mk (filled r.schema) r.table x).keyIn t = (r.within t).key := by
    rw [Name.ColumnRef.keyIn, Reference.key, Reference.within, filled_filled]
  rw [isSome_targetReason (r := r.within t) h.target, ofColumn, htext, Option.bind_some,
    Option.isSome_map, referenceReason, Edge.target?_eq, hread.column?, Option.map_some, ← hkey]

/-- With a schema of its own, or in a table without one, a reference means the same in its table. -/
theorem key_within (h : (filled r.schema).isSome ∨ filled t.schema = none) :
    (r.within t).key = r.key := by
  have hschema : filled ((filled r.schema).or t.schema) = filled r.schema := by
    cases hr : filled r.schema with
    | some s => rw [Option.some_or, ← hr, filled_filled]
    | none =>
      rw [hr] at h
      rw [Option.none_or]
      exact h.resolve_left (by simp)
  rw [Reference.key, Reference.key, Reference.within, Name.key_eq_elim, Name.key_eq_elim, hschema]

/-- A report is on the list for the tables. -/
def Listed (tables : OrderedMap Table) (report : Option Dangling) : Prop :=
  ∃ d ∈ all tables, report = some d

/-- What is reported of a column is listed. -/
theorem listed_ofColumn_iff (ht : tables.get? key = some t) (hcol : col ∈ t.columns) :
    Listed tables (ofColumn tables key t col) ↔ (ofColumn tables key t col).isSome := by
  constructor
  · rintro ⟨d, -, hd⟩
    exact Option.isSome_iff_exists.2 ⟨d, hd⟩
  · intro h
    obtain ⟨d, hd⟩ := Option.isSome_iff_exists.1 h
    refine ⟨d, List.mem_flatMap.2 ⟨(key, t), OrderedMap.get?_eq_some_iff.1 ht, ?_⟩, hd⟩
    exact List.mem_append_left _ (List.mem_filterMap.2 ⟨col, hcol, hd⟩)

/-- What is reported of a foreign key is listed. -/
theorem listed_ofConstraint_iff (ht : tables.get? key = some t) (hc : c ∈ t.constraints)
    (hkind : c.kind = .foreignKey) :
    Listed tables (ofConstraint tables key c) ↔ (ofConstraint tables key c).isSome := by
  constructor
  · rintro ⟨d, -, hd⟩
    exact Option.isSome_iff_exists.2 ⟨d, hd⟩
  · intro h
    obtain ⟨d, hd⟩ := Option.isSome_iff_exists.1 h
    refine ⟨d, List.mem_flatMap.2 ⟨(key, t), OrderedMap.get?_eq_some_iff.1 ht, ?_⟩, hd⟩
    refine List.mem_append_right _ (List.mem_filterMap.2 ⟨c, ?_, hd⟩)
    exact List.mem_filter.2 ⟨hc, beq_iff_eq.2 hkind⟩

end Dangling

/-- What is drawn is not reported. -/
theorem ofColumn_eq_none_of_mem_edges {tables : OrderedMap Table} {cards : OrderedMap Cardinality}
    {e : Edge} {key : String} (ht : tables.get? key = some t)
    (hd : (t.columns.map Column.folded).Nodup) (hcol : col ∈ t.columns)
    (he : e ∈ (Edge.edges tables cards).value) (hsource : e.source = key)
    (htitle : e.sourceColumn = col.title) : Dangling.ofColumn tables key t col = none := by
  rw [value_edges] at he
  obtain ⟨slot, hslot, hedge⟩ := List.mem_filterMap.1 he
  obtain ⟨htable, hcolumn⟩ := get?_of_mem_slots hslot
  have hverdict := verdict_outcome cards hslot
  generalize hout : slot.outcome tables cards = out at hverdict hedge
  cases hverdict with
  | silent => cases hedge
  | reported => cases hedge
  | drawn hdraws =>
    cases hedge
    have hkey : slot.key = key := hdraws.source.symm.trans hsource
    have hslot : slot.table = t := by
      rw [hkey, ht] at htable
      exact (Option.some.inj htable).symm
    have hsame : slot.column = col := by
      rw [hslot] at hcolumn
      refine List.inj_on_of_nodup_map hd (List.mem_of_getElem? hcolumn) hcol ?_
      rw [Column.folded, Column.folded, ← hdraws.sourceColumn, htitle]
    rw [← hkey, ← hslot, ← hsame]
    exact congrArg Prod.snd hout

end

/-! ## Foreign keys of statements -/

namespace Statement

/-- The constraints that a statement states for the table under a key. -/
def constraintsOn (key : String) : Statement → List Constraint
  | .createTable schema name _ constraints => if Name.key schema name = key then constraints else []
  | .addConstraint schema table c => if Name.key schema table = key then [c] else []
  | _ => []

/-- The foreign keys on just the column of a name that statements state for the table under a key. -/
def foreignKeysOn (l : List Statement) (key name : String) : List Constraint :=
  (l.flatMap (constraintsOn key)).filter fun c =>
    c.kind == .foreignKey && c.columnKey == [Quote.fold name]

end Statement

namespace Schema

variable {l : List Statement} {key n text : String} {t u : Table} {c : Constraint}
  {enums : OrderedMap EnumType}

theorem exists_of_mem_constraintEdits {e : TableEdit} (h : e ∈ l.flatMap constraintEdits) :
    ∃ d ∈ l.flatMap (Statement.constraintsOn e.1), e.2 = Table.takeConstraint d := by
  obtain ⟨x, hx, he⟩ := List.mem_flatMap.1 h
  cases x with
  | createTable schema name columns constraints =>
    obtain ⟨d, hd, rfl⟩ := List.mem_map.1 he
    exact ⟨d, List.mem_flatMap.2 ⟨_, hx, by simpa [Statement.constraintsOn] using hd⟩, rfl⟩
  | addConstraint schema table d =>
    obtain rfl := List.mem_singleton.1 he
    exact ⟨d, List.mem_flatMap.2 ⟨_, hx, by simp [Statement.constraintsOn]⟩, rfl⟩
  | _ => cases he

/-- A constraint that a table has is told by the texts of the columns of a name. -/
def Told (c : Constraint) (n text : String) (u : Table) : Prop :=
  c ∈ u.constraints → ∀ col ∈ u.columns, col.folded = Quote.fold n → col.foreignKey = some text

/-- One more constraint keeps it so, if no other foreign key is on just that column. -/
theorem Told.takeConstraint {d : Constraint} (hd : (u.columns.map Column.folded).Nodup)
    (htext : c.target? (Quote.fold n) = some text)
    (hsole : d.kind = .foreignKey → d.columnKey = [Quote.fold n] → d = c) (h : Told c n text u) :
    Told c n text (u.takeConstraint d) := by
  unfold Table.takeConstraint
  split
  · rw [Table.setFlags_eq d hd, Table.keepConstraint_eq]
    intro hc col hcol hname
    obtain ⟨old, hold, rfl⟩ := List.mem_map.1 hcol
    rw [Column.folded_flag] at hname
    rw [Column.flag, hname]
    cases htarget : d.target? (Quote.fold n) with
    | some other =>
      obtain ⟨hkind, hkey, -⟩ := Constraint.target?_eq_some_iff.1 htarget
      rw [hsole hkind hkey, htext] at htarget
      rw [Option.some_or, ← htarget]
    | none =>
      rcases Constraint.mem_keep hc with hc | ⟨rfl, -⟩
      · exact h hc old hold hname
      · rw [htext] at htarget
        cases htarget
  · exact h

theorem Told.takeComment (column comment : Option String)
    (hd : (u.columns.map Column.folded).Nodup) (h : Told c n text u) :
    Told c n text (u.takeComment column comment) := by
  cases column with
  | none => exact h
  | some name =>
    rw [Table.takeComment, Table.updateColumn_eq name hd]
    intro hc col hcol hname
    obtain ⟨old, hold, rfl⟩ := List.mem_map.1 hcol
    have hsame : ∀ d : Column, d.folded = old.folded → d.foreignKey = old.foreignKey →
        d.folded = Quote.fold n → d.foreignKey = some text :=
      fun d hfolded hkey hn => hkey.trans (h hc old hold (hfolded.symm.trans hn))
    refine hsame _ ?_ ?_ hname <;> split <;> rfl

/-- Whatever the edits of statements are, the texts of columns tell the only foreign key on just one
    column. -/
theorem Told.foldl_edits (htext : c.target? (Quote.fold n) = some text)
    (hsole : ∀ d ∈ Statement.foreignKeysOn l key n, d = c)
    (hp : ∀ x ∈ l, Statement.ParsedStatement x) (ht : ParsedTable enums u) (h : Told c n text u) :
    Told c n text (edited l key u) := by
  have hstep : ∀ e ∈ (allEdits l).filter (fun e => e.1 == key), ∀ v, ParsedTable enums v →
      Told c n text v → Told c n text (e.2 v) := by
    intro e he v hv htold
    obtain ⟨he, hkey⟩ := List.mem_filter.1 he
    rw [beq_iff_eq] at hkey
    rcases List.mem_append.1 he with he | he
    · obtain ⟨d, hd, heq⟩ := exists_of_mem_constraintEdits he
      rw [heq]
      refine htold.takeConstraint hv.titles htext fun hkind hcolumn => hsole d ?_
      rw [hkey] at hd
      exact List.mem_filter.2 ⟨hd, by simp [hkind, hcolumn]⟩
    · obtain ⟨i, heq⟩ | ⟨column, comment, heq⟩ := mem_lateEdits he
      · rw [heq]
        exact htold
      · rw [heq]
        exact htold.takeComment column comment hv.titles
  refine (List.foldlRecOn (motive := fun v => ParsedTable enums v ∧ Told c n text v) _ _ ⟨ht, h⟩
    fun v hv e he => ⟨?_, hstep e he v hv.1 hv.2⟩).2
  exact (parsedEdit_of_mem_allEdits hp (List.mem_filter.1 he).1 v hv.1).1

/-- A stored foreign key on just one column that is the only one is told by the text of its column. -/
theorem mirrored_ofStatements (hp : ∀ x ∈ l, Statement.ParsedStatement x) {s : Schema}
    (h : (ofStatements l).result = .ok s) (ht : s.tables.get? key = some t) (hc : c ∈ t.constraints)
    (hkind : c.kind = .foreignKey) (hn : c.columns = [n])
    (hsole : ∀ d ∈ Statement.foreignKeysOn l key n, d = c) :
    ∃ r x col, c.Mirrored t n r x col := by
  have hparsed := ((parsedSchema_ofStatements hp h).tables key t ht).2
  obtain ⟨r, hr, -, hlength⟩ := (hparsed.constraints c hc).reference hkind
  obtain ⟨x, hx⟩ := List.length_eq_one_iff.1 (hlength.trans (hn ▸ rfl))
  obtain ⟨col, hcol, hmem, hfolded⟩ :=
    Table.exists_findColumn? (hparsed.known c hc n (hn ▸ List.mem_cons_self))
  refine ⟨r, x, col, hr, hx, hcol, ?_⟩
  have htext : c.target? (Quote.fold n) = some (Name.columnText r.schema r.table x) := by
    refine Constraint.target?_eq_some_iff.2 ⟨hkind, Constraint.columnKey_singleton hn, ?_⟩
    rw [hr, Option.bind_some, Reference.columnText?, hx]
    simp [filled, Option.filter, Name.columnText]
  obtain ⟨-, rfl⟩ := result_ofStatements.1 h
  rw [get?_described, Option.map_eq_some_iff] at ht
  obtain ⟨defined, hdefined, rfl⟩ := ht
  obtain ⟨schema, name, columns, constraints, hx, rfl, rfl⟩ := exists_of_get?_withTables hdefined
  have hdefined : ParsedTable (definedEnums l)
      { title := name, schema, columns := columns.map (buildColumn (definedEnums l) schema) } :=
    parsedTable_defined (hp _ hx)
  exact Told.foldl_edits htext hsole hp hdefined (fun hnone => absurd hnone List.not_mem_nil)
    hc col hmem hfolded

/-- **One foreign key, two reports.** A foreign key of the schema of a document, from just one column and
    the only one of them, has its text at that column.  If the names in it are readable, the text is
    reported just if the constraint would be, had its reference the schema of its own table where it
    names none.  So if it names one, or the table has none, then the constraint is reported just if the
    text is, and not if the column has an edge. -/
theorem reported_foreignKey {document : String} {s : Schema}
    (hread : (Statement.readAll document).result = .ok l)
    (h : (ofDocument document).result = .ok s) (ht : s.tables.get? key = some t)
    (hc : c ∈ t.constraints) (hkind : c.kind = .foreignKey) (hn : c.columns = [n])
    (hsole : ∀ d ∈ Statement.foreignKeysOn l key n, d = c) :
    ∃ r x col, c.Mirrored t n r x col ∧ (Name.Readable r.schema r.table x →
      (Dangling.Listed s.tables (Dangling.ofColumn s.tables key t col) ↔
        (Dangling.targetReason s.tables (r.within t)).isSome) ∧
      ((filled r.schema).isSome ∨ filled t.schema = none →
        (Dangling.Listed s.tables (Dangling.ofConstraint s.tables key c) ↔
          Dangling.Listed s.tables (Dangling.ofColumn s.tables key t col)) ∧
        ∀ cards, ∀ e ∈ (Edge.edges s.tables cards).value, e.source = key →
          e.sourceColumn = col.title →
          ¬Dangling.Listed s.tables (Dangling.ofConstraint s.tables key c))) := by
  obtain ⟨l', hread', hbuild⟩ := result_ofDocument.1 h
  rw [hread] at hread'
  cases hread'
  have hp := Statement.parsed_readAll hread
  have htitles := ((parsedSchema_ofStatements hp hbuild).tables key t ht).2.titles
  obtain ⟨r, x, col, hm⟩ := mirrored_ofStatements hp hbuild ht hc hkind hn hsole
  refine ⟨r, x, col, hm, fun hreadable => ?_⟩
  have hcol : col ∈ t.columns := List.mem_of_find?_eq_some hm.column
  have hcolumn : (Dangling.ofColumn s.tables key t col).isSome =
      (Dangling.targetReason s.tables (r.within t)).isSome := Dangling.isSome_ofColumn hm hreadable
  rw [Dangling.listed_ofColumn_iff ht hcol, Dangling.listed_ofConstraint_iff ht hc hkind, hcolumn]
  refine ⟨Iff.rfl, fun hschema => ?_⟩
  have hconstraint : (Dangling.ofConstraint s.tables key c).isSome =
      (Dangling.targetReason s.tables (r.within t)).isSome := by
    rw [Dangling.isSome_ofConstraint hm.reference, Dangling.isSome_targetReason hm.target,
      Dangling.isSome_targetReason (r := r.within t) hm.target, Dangling.key_within hschema]
  rw [hconstraint]
  refine ⟨Iff.rfl, fun cards e he hsource htitle => ?_⟩
  rw [← hcolumn, ofColumn_eq_none_of_mem_edges ht htitles hcol he hsource htitle]
  simp

/-- A foreign key with a name to a table that is not there. -/
def qualifiedDocument : String :=
  "CREATE TABLE app.orders (gid int, CONSTRAINT team FOREIGN KEY (gid) REFERENCES app.teams (id));"

/-- What it refers to. -/
def teamReference : Reference := { schema := some "app", table := "teams", columns := ["id"] }

/-- It is reported with its column. -/
theorem reported_foreignKey_qualified :
    ∃ l s t c r x col, (Statement.readAll qualifiedDocument).result = .ok l ∧
      (ofDocument qualifiedDocument).result = .ok s ∧ s.tables.get? "app.orders" = some t ∧
      c ∈ t.constraints ∧ c.kind = .foreignKey ∧ c.columns = ["gid"] ∧
      (∀ d ∈ Statement.foreignKeysOn l "app.orders" "gid", d = c) ∧ c.Mirrored t "gid" r x col ∧
      Name.Readable r.schema r.table x ∧ (filled r.schema).isSome ∧
      (Dangling.Listed s.tables (Dangling.ofConstraint s.tables "app.orders" c) ↔
        Dangling.Listed s.tables (Dangling.ofColumn s.tables "app.orders" t col)) ∧
      Dangling.Listed s.tables (Dangling.ofConstraint s.tables "app.orders" c) := by
  have hok : ((Statement.readAll qualifiedDocument).result.toOption.any fun l =>
      (ofDocument qualifiedDocument).result.toOption.any fun s =>
        (s.tables.get? "app.orders").any fun t => t.constraints.any fun c =>
          c.kind == .foreignKey && c.columns == ["gid"] && c.reference == some teamReference &&
          (Statement.foreignKeysOn l "app.orders" "gid").all (· == c) &&
          (Dangling.ofConstraint s.tables "app.orders" c).isSome) = true := by
    decide +kernel
  obtain ⟨l, hl, h⟩ := exists_ok_of_any hok
  obtain ⟨s, hs, h⟩ := exists_ok_of_any h
  obtain ⟨t, ht, h⟩ := (Option.any_eq_true _ _).1 h
  obtain ⟨c, hc, h⟩ := List.any_eq_true.1 h
  simp only [Bool.and_eq_true, beq_iff_eq, List.all_eq_true] at h
  obtain ⟨⟨⟨⟨hkind, hcolumns⟩, href⟩, hsole⟩, hreported⟩ := h
  obtain ⟨r, x, col, hm, hreports⟩ := reported_foreignKey hl hs ht hc hkind hcolumns hsole
  have hr : r = teamReference := Option.some.inj (hm.reference.symm.trans href)
  have hx : x = "id" := by
    have htarget := hm.target
    rw [hr] at htarget
    exact (List.cons.inj htarget).1.symm
  have hreadable : Name.Readable r.schema r.table x := by
    rw [hr, hx]
    exact .of_clean (cleanIfAny_some (.of_word (by decide) (by decide)))
      (.of_word (by decide) (by decide)) (.of_word (by decide) (by decide))
  have hschema : (filled r.schema).isSome := by
    rw [hr]
    rfl
  exact ⟨l, s, t, c, r, x, col, hl, hs, ht, hc, hkind, hcolumns, hsole, hm, hreadable, hschema,
    ((hreports hreadable).2 (.inl hschema)).1,
    (Dangling.listed_ofConstraint_iff ht hc hkind).2 hreported⟩

/-- A foreign key with a name between tables of one schema that its reference does not name. -/
def unqualifiedDocument : String :=
  "CREATE TABLE app.users (id int);
CREATE TABLE app.orders (uid int, CONSTRAINT fk FOREIGN KEY (uid) REFERENCES users (id));"

/-- It is drawn, and its constraint is reported nevertheless. -/
theorem reports_disagree_unqualified :
    ∃ l s t c, (Statement.readAll unqualifiedDocument).result = .ok l ∧
      (ofDocument unqualifiedDocument).result = .ok s ∧ s.tables.get? "app.orders" = some t ∧
      t.constraints = [c] ∧ c.kind = .foreignKey ∧ c.columns = ["uid"] ∧
      Statement.foreignKeysOn l "app.orders" "uid" = [c] ∧
      (Edge.edges s.tables {}).value.map (fun e => (e.source, e.sourceColumn)) =
        [("app.orders", "uid")] ∧
      Dangling.all s.tables =
        [{ tableKey := "app.orders", reference := "users(id)", reason := .noTable "users" }] := by
  have hok : ((Statement.readAll unqualifiedDocument).result.toOption.any fun l =>
      (ofDocument unqualifiedDocument).result.toOption.any fun s =>
        (s.tables.get? "app.orders").any fun t => t.constraints.any fun c =>
          t.constraints == [c] && c.kind == .foreignKey && c.columns == ["uid"] &&
          Statement.foreignKeysOn l "app.orders" "uid" == [c] &&
          (Edge.edges s.tables {}).value.map (fun e => (e.source, e.sourceColumn)) ==
            [("app.orders", "uid")] &&
          Dangling.all s.tables ==
            [{ tableKey := "app.orders", reference := "users(id)", reason := .noTable "users" }]) =
      true := by
    decide +kernel
  obtain ⟨l, hl, h⟩ := exists_ok_of_any hok
  obtain ⟨s, hs, h⟩ := exists_ok_of_any h
  obtain ⟨t, ht, h⟩ := (Option.any_eq_true _ _).1 h
  obtain ⟨c, -, h⟩ := List.any_eq_true.1 h
  simp only [Bool.and_eq_true, beq_iff_eq] at h
  obtain ⟨⟨⟨⟨⟨hone, hkind⟩, hcolumns⟩, hsole⟩, hedges⟩, hall⟩ := h
  exact ⟨l, s, t, c, hl, hs, ht, hone, hkind, hcolumns, hsole, hedges, hall⟩

end Schema

end Schemata

/-
  Ids of edges.

  * The id of an edge puts its source and its target together: the title of the table, the title of the
    column and the text of the target, with a dot and a hyphen between them. It does not have the
    schema of the table, and titles may have dots and hyphens themselves;
  * `Origin` holds these parts; they are `Discernible` if every source can be read off the ids, and
    `id_injective`: then no two edges have one id;
  * `setCardinality_edges`: setting a cardinality changes all edges of the id, and no other;
    `setCardinality_edge`: just one edge, where the sources are discernible.
-/
import Schemata.Proofs.Overrides

namespace Schemata

open Log

namespace Edge

variable {tables : OrderedMap Table} {c : OrderedMap Cardinality} {e d : Edge} {key : String}
  {t : Table} {i : Nat} {col : Column}

/-! ## What an id says -/

/-- What stands behind an edge: the key of its table, and the parts of its id. -/
structure Origin where
  key : String
  title : String
  column : String
  target : String
deriving DecidableEq

/-- The id of an edge with the given origin. -/
def Origin.id (o : Origin) : String := o.title ++ "." ++ o.column ++ "-" ++ o.target

/-- The target of a column, as the id says it, if the column refers to something that is there. -/
def targetText? (tables : OrderedMap Table) (t : Table) (col : Column) : Option String :=
  ((filled col.foreignKey).bind (target? t)).bind fun r =>
    (locate? tables r.1 r.2).map fun _ => r.1 ++ "." ++ r.2

/-- The origins of the edges of tables. -/
def origins (tables : OrderedMap Table) : List Origin :=
  tables.entries.flatMap fun (key, t) => t.columns.filterMap fun col =>
    (targetText? tables t col).map fun target => ⟨key, t.title, col.title, target⟩

theorem ofColumn_eq_some (h : (ofColumn tables c key t i col).value = some e) :
    e.source = key ∧ e.sourceIndex = i ∧ ∃ target, targetText? tables t col = some target ∧
      e.id = Origin.id ⟨key, t.title, col.title, target⟩ := by
  unfold ofColumn at h
  split at h
  · cases h
  · next text htext =>
    split at h
    · cases h
    · next targetKey targetColumn htarget =>
      split at h
      · cases h
      · next found hfound =>
        cases h
        refine ⟨rfl, rfl, targetKey ++ "." ++ targetColumn, ?_, ?_⟩
        · rw [targetText?, htext, Option.bind_some, htarget, Option.bind_some, hfound,
            Option.map_some]
        · simp [Origin.id, idOf, String.append_assoc]

/-- Every edge has an origin, in its own table. -/
theorem exists_origin (h : e ∈ (edges tables c).value) : ∃ t col, tables.get? e.source = some t ∧
    t.columns[e.sourceIndex]? = some col ∧
    (ofColumn tables c e.source t e.sourceIndex col).value = some e ∧
    ∃ o ∈ origins tables, o.key = e.source ∧ o.column = col.title ∧ o.id = e.id := by
  obtain ⟨key, t, i, col, ht, hcol, he⟩ := mem_edges.1 h
  obtain ⟨rfl, rfl, target, htarget, hid⟩ := ofColumn_eq_some he
  refine ⟨t, col, ht, hcol, he, ⟨e.source, t.title, col.title, target⟩, ?_, rfl, rfl, hid.symm⟩
  refine List.mem_flatMap.2 ⟨(e.source, t), OrderedMap.get?_eq_some_iff.1 ht, ?_⟩
  exact List.mem_filterMap.2 ⟨col, List.mem_of_getElem? hcol, by rw [htarget]; rfl⟩

/-! ## Reading an id -/

/-- A text is cut at the first of its marks in one way only. -/
theorem append_cons_inj {mark : Char} {a a' b b' : List Char} (ha : mark ∉ a) (ha' : mark ∉ a')
    (h : a ++ mark :: b = a' ++ mark :: b') : a = a' ∧ b = b' := by
  induction a generalizing a' with
  | nil =>
    cases a' with
    | nil => exact ⟨rfl, (List.cons.inj h).2⟩
    | cons x a' =>
      obtain ⟨rfl, -⟩ := List.cons.inj h
      exact absurd List.mem_cons_self ha'
  | cons x a ih =>
    cases a' with
    | nil =>
      obtain ⟨rfl, -⟩ := List.cons.inj h
      exact absurd List.mem_cons_self ha
    | cons y a' =>
      obtain ⟨rfl, hrest⟩ := List.cons.inj h
      have hmem := List.not_mem_of_not_mem_cons ha
      have hmem' := List.not_mem_of_not_mem_cons ha'
      obtain ⟨rfl, rfl⟩ := ih hmem hmem' hrest
      exact ⟨rfl, rfl⟩

/-- Where titles of tables have no dots and titles of columns no hyphens, the parts of an id can be
    read off it. -/
theorem Origin.id_inj {o p : Origin} (ho : '.' ∉ o.title.toList) (hp : '.' ∉ p.title.toList)
    (ho' : '-' ∉ o.column.toList) (hp' : '-' ∉ p.column.toList) (h : o.id = p.id) :
    o.title = p.title ∧ o.column = p.column ∧ o.target = p.target := by
  have hlist : ∀ q : Origin, q.id.toList =
      q.title.toList ++ '.' :: (q.column.toList ++ '-' :: q.target.toList) := by
    intro q
    simp [Origin.id]
  have h := congrArg String.toList h
  rw [hlist, hlist] at h
  obtain ⟨htitle, h⟩ := append_cons_inj ho hp h
  obtain ⟨hcolumn, htarget⟩ := append_cons_inj ho' hp' h
  exact ⟨String.toList_inj.1 htitle, String.toList_inj.1 hcolumn, String.toList_inj.1 htarget⟩

/-- The sources of edges can be read off their ids: no title of a table that refers has a dot, no title
    of a column that refers has a hyphen, and in tables of one title (of different schemas) no
    columns of one title refer to the same target. -/
structure Discernible (tables : OrderedMap Table) : Prop where
  titles : ∀ o ∈ origins tables, '.' ∉ o.title.toList
  columns : ∀ o ∈ origins tables, '-' ∉ o.column.toList
  apart : ∀ o ∈ origins tables, ∀ p ∈ origins tables, o.title = p.title → o.column = p.column →
    o.target = p.target → o.key = p.key

/-- In every table the columns have different titles. -/
def DistinctColumns (tables : OrderedMap Table) : Prop :=
  ∀ key t, tables.get? key = some t → (t.columns.map Column.title).Nodup

/-- No two edges have one id. -/
theorem id_injective (h : Discernible tables) (hd : DistinctColumns tables)
    (he : e ∈ (edges tables c).value) (hm : d ∈ (edges tables c).value) (hid : e.id = d.id) :
    e = d := by
  obtain ⟨t, col, ht, hcol, hedge, o, ho, hkey, hcolumn, hoid⟩ := exists_origin he
  obtain ⟨t', col', ht', hcol', hedge', p, hp, hkey', hcolumn', hpid⟩ := exists_origin hm
  have hsame : o.id = p.id := hoid.trans (hid.trans hpid.symm)
  obtain ⟨htitle, hname, htarget⟩ :=
    Origin.id_inj (h.titles o ho) (h.titles p hp) (h.columns o ho) (h.columns p hp) hsame
  have hsource : e.source = d.source := by
    rw [← hkey, ← hkey']
    exact h.apart o ho p hp htitle hname htarget
  rw [← hsource, ht] at ht'
  cases ht'
  have hindex : e.sourceIndex = d.sourceIndex := by
    have hlt : e.sourceIndex < (t.columns.map Column.title).length := by
      rw [List.length_map]
      exact (List.getElem?_eq_some_iff.1 hcol).1
    refine (List.getElem?_inj hlt (hd _ t ht)).1 ?_
    rw [List.getElem?_map, List.getElem?_map, hcol, hcol', Option.map_some, Option.map_some,
      ← hcolumn, ← hcolumn', hname]
  rw [← hindex, hcol] at hcol'
  cases hcol'
  rw [← hsource, ← hindex, hedge] at hedge'
  exact Option.some.inj hedge'

/-! ## Each edge once -/

theorem nodup_ofColumns (columns : List Column) :
    (ofColumns tables c key t i columns).value.Nodup := by
  induction columns generalizing i with
  | nil => exact List.nodup_nil
  | cons col columns ih =>
    simp only [ofColumns, Logged.value_bind, Logged.value_pure]
    refine List.nodup_append.2 ⟨?_, ih, ?_⟩
    · cases (ofColumn tables c key t i col).value <;> simp
    · rintro e he d hd rfl
      obtain ⟨-, hindex, -⟩ := ofColumn_eq_some (Option.mem_toList.1 he)
      obtain ⟨j, col', -, hd⟩ := mem_ofColumns.1 hd
      obtain ⟨-, hindex', -⟩ := ofColumn_eq_some hd
      omega

theorem source_of_mem_ofColumns {columns : List Column}
    (h : e ∈ (ofColumns tables c key t i columns).value) : e.source = key := by
  obtain ⟨j, col, -, he⟩ := mem_ofColumns.1 h
  exact (ofColumn_eq_some he).1

theorem nodup_ofEntries {entries : List (String × Table)} (h : (entries.map Prod.fst).Nodup) :
    (ofEntries tables c entries).value.Nodup := by
  induction entries with
  | nil => exact List.nodup_nil
  | cons entry entries ih =>
    obtain ⟨key, t⟩ := entry
    rw [List.map_cons, List.nodup_cons] at h
    simp only [ofEntries, Logged.value_bind, Logged.value_pure]
    refine List.nodup_append.2 ⟨nodup_ofColumns t.columns, ih h.2, ?_⟩
    rintro e he d hd rfl
    obtain ⟨key', t', hmem, hd⟩ := mem_ofEntries.1 hd
    refine h.1 (List.mem_map.2 ⟨(key', t'), hmem, ?_⟩)
    exact (source_of_mem_ofColumns hd).symm.trans (source_of_mem_ofColumns he)

theorem nodup_edges : (edges tables c).value.Nodup := nodup_ofEntries tables.nodup

theorem nodup_ids (h : Discernible tables) (hd : DistinctColumns tables) :
    ((edges tables c).value.map Edge.id).Nodup :=
  List.Nodup.map_on (fun _ he _ hm hid => id_injective h hd he hm hid) nodup_edges

/-! ## What is said about one id -/

theorem recast_eq_self (h : e ∈ (edges tables c).value) : recast c e = e := by
  rw [edges_recast c c, List.mem_map] at h
  obtain ⟨d, -, rfl⟩ := h
  rfl

/-- A cardinality that is given to one id changes the edges of this id. -/
theorem edges_insert (id : String) (x : Cardinality) :
    (edges tables (pruned tables (c.insert id x))).value =
      (edges tables c).value.map fun d => if d.id = id then { d with cardinality := x } else d := by
  rw [edges_recast c]
  refine List.map_congr_left fun d hd => ?_
  have hlive : ((edges tables c).value.map Edge.id).contains d.id = true :=
    List.contains_iff_mem.2 (List.mem_map_of_mem hd)
  have hsaid : (pruned tables (c.insert id x)).get? d.id =
      if id = d.id then some x else c.get? d.id := by
    rw [pruned_eq _ c, OrderedMap.get?_filter, OrderedMap.get?_insert]
    simp only [hlive]
    cases (if id = d.id then some x else c.get? d.id) <;> rfl
  have hself := recast_eq_self hd
  rw [recast, hsaid]
  by_cases hid : d.id = id
  · rw [if_pos hid.symm, if_pos hid, Option.getD_some]
  · rw [if_neg (Ne.symm hid), if_neg hid]
    exact hself

end Edge

namespace Session

variable {host : Host} {s : Session} {e : Edge}

/-! ## Setting a cardinality -/

/-- The live snapshot after a commit is what was installed, or its numbered form. -/
theorem live_commit {p : Snapshot → Prop} {schema : Schema}
    (hinstall : p (s.install schema).snapshot)
    (hnumbered : ∀ a serial, p a → p (a.numbered serial)) {stamp : Stamp} {label : Label} :
    p (s.commit stamp schema label).value.snapshot := by
  rw [value_commit]
  split
  · exact hinstall
  · unfold moveTo
    split
    · exact hinstall
    · next d hd =>
      -- the current entry of the new history is the last one recorded
      rw [History.current?, History.record, List.getLast?_drop] at hd
      split at hd
      · cases hd
      · rw [List.getLast?_concat] at hd
        cases hd
        exact hnumbered _ _ hinstall

theorem edges_commit {stamp : Stamp} {schema : Schema} {label : Label} :
    (s.commit stamp schema label).value.edges.value = (s.install schema).edges.value := by
  refine live_commit
    (p := fun a => (Edge.edges a.schema.tables a.cardinalities).value = (s.install schema).edges.value)
    rfl fun a serial h => ?_
  rw [Snapshot.edges_numbered]
  exact h

/-- Setting the cardinality of an edge succeeds and changes the edges that have its id. -/
theorem setCardinality_edges (he : e ∈ s.edges.value) (x : Cardinality) :
    ∃ s', (s.setCardinality host e.id x.name).result = .ok s' ∧
      s'.edges.value =
        s.edges.value.map fun d => if d.id = e.id then { d with cardinality := x } else d := by
  have hknown : (s.edges.value.all fun d => d.id != e.id) = false := by
    rw [List.all_eq_false]
    exact ⟨e, he, by simp⟩
  refine ⟨(commit host.stamp { s with cardinalities := s.cardinalities.insert e.id x } s.schema
    .updateRelationship).value, ?_, ?_⟩
  · unfold setCardinality
    simp only [Action.result_bind, Action.result_liftM, Except.bind, hknown, Bool.false_eq_true,
      if_false, Cardinality.ofName?_name]
  · rw [edges_commit]
    exact Edge.edges_insert e.id x

/-- **One edge.** Where columns have different titles in every table and the sources of edges are
    discernible, no two edges have one id, and setting the cardinality of an edge by its id succeeds
    and changes this edge alone. -/
theorem setCardinality_edge (h : Edge.Discernible s.schema.tables)
    (hd : Edge.DistinctColumns s.schema.tables) (host : Host) :
    (s.edges.value.map Edge.id).Nodup ∧ ∀ e ∈ s.edges.value, ∀ x : Cardinality, ∃ s',
      (s.setCardinality host e.id x.name).result = .ok s' ∧
      s'.edges.value =
        s.edges.value.map fun d => if d = e then { d with cardinality := x } else d := by
  refine ⟨Edge.nodup_ids h hd, fun e he x => ?_⟩
  obtain ⟨s', hs', hedges⟩ := setCardinality_edges he x
  refine ⟨s', hs', hedges.trans (List.map_congr_left fun d hm => ?_)⟩
  have hid : d.id = e.id ↔ d = e :=
    ⟨Edge.id_injective h hd hm he, fun hde => congrArg Edge.id hde⟩
  simp only [hid]

/-- A column with a reference. -/
def referring (title reference : String) : Column := { title, foreignKey := some reference }

/-- Tables of one title in two schemas refer to different tables. -/
def neighbourTables : OrderedMap Table :=
  ⟨[("a.t", { title := "t", schema := some "a", columns := [referring "c" "u.id"] }),
    ("b.t", { title := "t", schema := some "b",
              columns := [referring "C" "a.u.id", referring "c" "u.ID"] }),
    ("a.u", { title := "u", schema := some "a", columns := [{ title := "id" }] }),
    ("b.u", { title := "u", schema := some "b", columns := [{ title := "id" }] })], by decide⟩

theorem discernible_neighbourTables : Edge.Discernible neighbourTables where
  titles := by decide +kernel
  columns := by decide +kernel
  apart := by decide +kernel

theorem distinctColumns_neighbourTables : Edge.DistinctColumns neighbourTables := by
  have hentries : ∀ e ∈ neighbourTables.entries, (e.2.columns.map Column.title).Nodup := by decide
  exact fun key t ht => hentries (key, t) (OrderedMap.get?_eq_some_iff.1 ht)

/-- Of three edges from columns of nearly one name the last one is changed. -/
theorem setCardinality_edge_neighbour :
    let s : Session := { blankSession with schema := { tables := neighbourTables } }
    Edge.Discernible s.schema.tables ∧ Edge.DistinctColumns s.schema.tables ∧
      s.edges.value.map Edge.id = ["t.c-a.u.id", "t.C-a.u.id", "t.c-b.u.ID"] ∧
      (s.edges.value.map Edge.id).Nodup ∧ ∀ e ∈ s.edges.value, ∀ x : Cardinality, ∃ s',
        (s.setCardinality plainHost e.id x.name).result = .ok s' ∧
        s'.edges.value =
          s.edges.value.map fun d => if d = e then { d with cardinality := x } else d := by
  intro s
  have hids : s.edges.value.map Edge.id = ["t.c-a.u.id", "t.C-a.u.id", "t.c-b.u.ID"] := by
    decide +kernel
  exact ⟨discernible_neighbourTables, distinctColumns_neighbourTables, hids,
    setCardinality_edge discernible_neighbourTables distinctColumns_neighbourTables plainHost⟩

/-- Tables of one title in two schemas refer to one target by columns of one title. -/
def twinTables : OrderedMap Table :=
  ⟨[("a.t", { title := "t", schema := some "a", columns := [referring "c" "x.u.id"] }),
    ("b.t", { title := "t", schema := some "b", columns := [referring "c" "x.u.id"] }),
    ("x.u", { title := "u", schema := some "x", columns := [{ title := "id" }] })], by decide⟩

/-- A dot may belong to the title of the table or to that of the column. -/
def dottedTables : OrderedMap Table :=
  ⟨[("t", { title := "t", columns := [referring "a.b" "u.id"] }),
    ("t.a", { title := "t.a", columns := [referring "b" "u.id"] }),
    ("u", { title := "u", columns := [{ title := "id" }] })], by decide⟩

/-- A hyphen may belong to the title of the column or to the target. -/
def hyphenTables : OrderedMap Table :=
  ⟨[("t", { title := "t", columns := [referring "c" "x.\"y-z.w\"", referring "c-x.y" "z.w"] }),
    ("x", { title := "x", columns := [{ title := "y-z.w" }] }),
    ("z", { title := "z", columns := [{ title := "w" }] })], by decide⟩

/-- Each of the three conditions is needed: without it, tables under their own keys and with columns
    of different titles may have two edges with one id. What is then said about the id is said
    about both of them. -/
theorem ids_repeated :
    (∀ tables ∈ [twinTables, dottedTables, hyphenTables],
      (∀ e ∈ tables.entries, e.2.key = e.1 ∧ (e.2.columns.map Column.title).Nodup) ∧
      (Edge.edges tables {}).value.length = 2 ∧
      ¬((Edge.edges tables {}).value.map Edge.id).Nodup) ∧
    ((start plainHost { tables := twinTables } {} [] [] none).toOption.bind fun s =>
      (s.setCardinality plainHost "t.c-x.u.id" "one-to-one").result.toOption).map
        (fun s => s.edges.value.map Edge.cardinality) = some [.oneToOne, .oneToOne] := by
  decide +kernel

end Session

end Schemata

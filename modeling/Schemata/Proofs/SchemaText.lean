/-
  Texts of schemas.

  * the JSON forms of columns, enum types, constraints and indexes are read from their texts as they
    were: `Column.kept_toJson` and its companions;
  * of a table the coordinates of its place are read as their texts are, `Table.reread`;
  * `Snapshot.reread_toJson`, `HistoryEntry.reread_toJson` and `History.reread_stateJson` say the
    same of snapshots, entries and histories, and `legible_toJson` which of them can be read.
-/
import Schemata.History.Stored
import Schemata.Proofs.Encoding
import Schemata.Proofs.JsonText

namespace Schemata

open Json (Kept forall_mem_optional keys_optional kept_arr kept_bool kept_obj kept_str kept_strings)

/-! ## What is kept -/

theorem Column.kept_toJson (c : Column) : Kept c.toJson := by
  refine kept_obj ?_ ?_
  · have hnodup : (["title", "format", "type"] ++ ["default"] ++ ["required", "pk", "unique"] ++
        ["fk"] ++ ["enumTypeName"] ++ ["enumValues"] ++ ["comment"]).Nodup := by decide
    simp only [List.map_append]
    exact hnodup.sublist <| ((((((List.Sublist.refl _).append keys_optional).append (.refl _)).append
      keys_optional).append keys_optional).append keys_optional).append keys_optional
  · simp only [List.forall_mem_append, List.forall_mem_cons]
    refine ⟨⟨⟨⟨⟨⟨⟨kept_str _, kept_str _, kept_str _, nofun⟩, ?_⟩,
      kept_bool _, kept_bool _, kept_bool _, nofun⟩, ?_⟩, ?_⟩, ?_⟩, ?_⟩
    · exact forall_mem_optional fun s _ => kept_str s
    · exact forall_mem_optional fun s _ => kept_str s
    · exact forall_mem_optional fun s _ => kept_str s
    · exact forall_mem_optional fun l _ => kept_strings l
    · exact forall_mem_optional fun s _ => kept_str s

theorem EnumType.kept_toJson (e : EnumType) : Kept e.toJson := by
  refine kept_obj ?_ ?_
  · have hnodup : (["name"] ++ ["schema"] ++ ["values"]).Nodup := by decide
    simp only [List.map_append]
    exact hnodup.sublist <| ((List.Sublist.refl _).append keys_optional).append (.refl _)
  · simp only [List.forall_mem_append, List.forall_mem_cons]
    exact ⟨⟨⟨kept_str _, nofun⟩, forall_mem_optional fun s _ => kept_str s⟩, kept_strings _, nofun⟩

theorem Reference.kept_toJson (r : Reference) : Kept r.toJson := by
  refine kept_obj ?_ ?_
  · have hnodup : (["schema"] ++ ["table", "columns"] ++ ["onDelete"] ++ ["onUpdate"]).Nodup := by
      decide
    simp only [List.map_append]
    exact hnodup.sublist <| ((keys_optional.append (.refl _)).append keys_optional).append
      keys_optional
  · simp only [List.forall_mem_append, List.forall_mem_cons]
    exact ⟨⟨⟨forall_mem_optional fun s _ => kept_str s, kept_str _, kept_strings _, nofun⟩,
      forall_mem_optional fun s _ => kept_str s⟩, forall_mem_optional fun s _ => kept_str s⟩

theorem Constraint.kept_toJson (c : Constraint) : Kept c.toJson := by
  refine kept_obj ?_ ?_
  · have hnodup : (["type"] ++ ["name"] ++ ["columns"] ++ ["reference"] ++ ["expression"]).Nodup := by
      decide
    simp only [List.map_append]
    exact hnodup.sublist <| ((((List.Sublist.refl _).append keys_optional).append (.refl _)).append
      keys_optional).append keys_optional
  · simp only [List.forall_mem_append, List.forall_mem_cons]
    exact ⟨⟨⟨⟨⟨kept_str _, nofun⟩, forall_mem_optional fun s _ => kept_str s⟩, kept_strings _, nofun⟩,
      forall_mem_optional fun r _ => r.kept_toJson⟩, forall_mem_optional fun s _ => kept_str s⟩

theorem Index.kept_toJson (i : Index) : Kept i.toJson := by
  refine kept_obj ?_ ?_
  · have hnodup : (["name", "columns", "unique"] ++ ["using"] ++ ["where"]).Nodup := by decide
    simp only [List.map_append]
    exact hnodup.sublist <| ((List.Sublist.refl _).append keys_optional).append keys_optional
  · simp only [List.forall_mem_append, List.forall_mem_cons]
    exact ⟨⟨⟨kept_str _, kept_strings _, kept_bool _, nofun⟩,
      forall_mem_optional fun s _ => kept_str s⟩, forall_mem_optional fun s _ => kept_str s⟩

/-! ## Maps -/

namespace Json

variable {α : Type} {f : α → Json} {m : OrderedMap α}

theorem legible_ofMap (f : α → Json) (m : OrderedMap α) :
    (ofMap f m).legible = m.entries.all fun e => (f e.2).legible := by
  rw [ofMap, legible, legibleMembers_eq, List.all_map]
  rfl

theorem distinct_ofMap (h : ∀ a, (f a).Distinct) (m : OrderedMap α) : (ofMap f m).Distinct := by
  refine ⟨?_, distinctMembers_iff.2 fun e he => ?_⟩
  · rw [List.map_map]
    exact m.nodup
  · obtain ⟨e', -, rfl⟩ := List.mem_map.1 he
    exact h e'.2

theorem reread_ofMap {g : α → α} (h : ∀ a, (f a).reread = f (g a)) (m : OrderedMap α) :
    (ofMap f m).reread = ofMap f (m.map fun _ a => g a) := by
  rw [ofMap, reread, rereadMembers_eq, List.map_map, ofMap, OrderedMap.map, List.map_map]
  exact congrArg obj (List.map_congr_left fun e _ => by
    rw [Function.comp_apply, h]
    rfl)

theorem kept_ofMap (h : ∀ a, Kept (f a)) (m : OrderedMap α) : Kept (ofMap f m) := by
  refine kept_obj ?_ fun e he => ?_
  · rw [List.map_map]
    exact m.nodup
  · obtain ⟨e', -, rfl⟩ := List.mem_map.1 he
    exact h e'.2

end Json

/-! ## Places and tables -/

/-- Whether both coordinates have texts of numbers. -/
def Position.legible (p : Position) : Bool := p.x.reread?.isSome && p.y.reread?.isSome

/-- The place with each coordinate as its text is read. -/
def Position.reread (p : Position) : Position := ⟨p.x.reread, p.y.reread⟩

theorem Position.legible_toJson (p : Position) : p.toJson.legible = p.legible :=
  congrArg (p.x.reread?.isSome && ·) (Bool.and_true _)

theorem Position.distinct_toJson (p : Position) : p.toJson.Distinct :=
  ⟨(by decide : ["x", "y"].Nodup), trivial, trivial, trivial⟩

theorem Position.reread_toJson (p : Position) : p.toJson.reread = p.reread.toJson := rfl

namespace Table

/-- Whether the place of the table is legible, if it has one. -/
def legible (t : Table) : Bool := t.position.all Position.legible

/-- The table with its place as the text of it is read. -/
def reread (t : Table) : Table := { t with position := t.position.map Position.reread }

/-- The members before the place of a table. -/
def membersBefore (t : Table) : List (String × Json) :=
  [("title", .str t.title)] ++ Json.optional "schema" .str t.schema ++
    [("columns", .arr (t.columns.map Column.toJson)),
      ("constraints", .arr (t.constraints.map Constraint.toJson)),
      ("indexes", .arr (t.indexes.map Index.toJson))]

/-- The members after the place of a table. -/
def membersAfter (t : Table) : List (String × Json) :=
  Json.optional "color" .str t.color ++ Json.optional "comment" .str t.comment ++
    [("is_view", .bool t.isView)]

theorem toJson_eq (t : Table) : t.toJson = .obj (t.membersBefore ++
    (Json.optional "position" Position.toJson t.position ++ t.membersAfter)) := by
  simp only [toJson, membersBefore, membersAfter, List.append_assoc]

theorem kept_membersBefore (t : Table) : ∀ e ∈ t.membersBefore, Kept e.2 := by
  have hall {α : Type} {f : α → Json} (hf : ∀ a, Kept (f a)) (l : List α) : Kept (.arr (l.map f)) :=
    kept_arr fun v hv => by
      obtain ⟨a, -, rfl⟩ := List.mem_map.1 hv
      exact hf a
  simp only [membersBefore, List.forall_mem_append, List.forall_mem_cons]
  exact ⟨⟨⟨kept_str _, nofun⟩, forall_mem_optional fun s _ => kept_str s⟩,
    hall Column.kept_toJson _, hall Constraint.kept_toJson _, hall Index.kept_toJson _, nofun⟩

theorem kept_membersAfter (t : Table) : ∀ e ∈ t.membersAfter, Kept e.2 := by
  simp only [membersAfter, List.forall_mem_append, List.forall_mem_cons]
  exact ⟨⟨forall_mem_optional fun s _ => kept_str s, forall_mem_optional fun s _ => kept_str s⟩,
    kept_bool _, nofun⟩

theorem distinct_toJson (t : Table) : t.toJson.Distinct := by
  rw [toJson_eq]
  refine ⟨?_, Json.distinctMembers_iff.2 ?_⟩
  · have hnodup : ((["title"] ++ ["schema"] ++ ["columns", "constraints", "indexes"]) ++
        (["position"] ++ (["color"] ++ ["comment"] ++ ["is_view"]))).Nodup := by decide
    simp only [membersBefore, membersAfter, List.map_append]
    exact hnodup.sublist <| (((List.Sublist.refl _).append keys_optional).append (.refl _)).append
      (keys_optional.append ((keys_optional.append keys_optional).append (.refl _)))
  · simp only [List.forall_mem_append]
    exact ⟨fun e he => (t.kept_membersBefore e he).distinct,
      forall_mem_optional fun p _ => p.distinct_toJson,
      fun e he => (t.kept_membersAfter e he).distinct⟩

theorem legible_toJson (t : Table) : t.toJson.legible = t.legible := by
  have hbefore : (t.membersBefore.all fun e => e.2.legible) = true :=
    List.all_eq_true.2 fun e he => (t.kept_membersBefore e he).legible
  have hafter : (t.membersAfter.all fun e => e.2.legible) = true :=
    List.all_eq_true.2 fun e he => (t.kept_membersAfter e he).legible
  rw [toJson_eq, Json.legible, Json.legibleMembers_eq, List.all_append, List.all_append, hbefore,
    hafter, Bool.true_and, Bool.and_true, legible]
  cases t.position with
  | none => rfl
  | some p => exact (Bool.and_true _).trans p.legible_toJson

theorem reread_toJson (t : Table) : t.toJson.reread = t.reread.toJson := by
  have hkept {l : List (String × Json)} (h : ∀ e ∈ l, Kept e.2) :
      (l.map fun e => (e.1, e.2.reread)) = l := by
    have hid : ∀ e ∈ l, (e.1, e.2.reread) = id e := fun e he => by rw [(h e he).reread]; rfl
    rw [List.map_congr_left hid, List.map_id]
  have hplace : ((Json.optional "position" Position.toJson t.position).map
      fun e => (e.1, e.2.reread)) = Json.optional "position" Position.toJson t.reread.position := by
    cases hp : t.position with
    | none => rw [reread, hp]; rfl
    | some p => rw [reread, hp]; rfl
  rw [toJson_eq, toJson_eq, Json.reread, Json.rereadMembers_eq, List.map_append, List.map_append,
    hkept t.kept_membersBefore, hkept t.kept_membersAfter, hplace]
  rfl

end Table

/-! ## Snapshots and histories -/

namespace Snapshot

/-- Whether all tables are legible. -/
def legible (s : Snapshot) : Bool := s.schema.tables.entries.all fun e => e.2.legible

/-- The snapshot with every table as its text is read. -/
def reread (s : Snapshot) : Snapshot :=
  { s with schema.tables := s.schema.tables.map fun _ t => t.reread }

theorem kept_enumsJson (enums : OrderedMap EnumType) : Kept (enumsJson enums) :=
  Json.kept_ofMap EnumType.kept_toJson enums

theorem kept_cardinalitiesJson (m : OrderedMap Cardinality) : Kept (cardinalitiesJson m) :=
  Json.kept_ofMap (f := fun c : Cardinality => .str c.name) (fun c => kept_str c.name) m

theorem legible_toJson (s : Snapshot) : s.toJson.legible = s.legible := by
  have htables : (tablesJson s.schema.tables).legible = s.legible := by
    rw [tablesJson, Json.legible_ofMap, legible]
    simp only [Table.legible_toJson]
  simp only [toJson, Json.legible, Json.legibleMembers, htables, (kept_enumsJson _).legible,
    (kept_cardinalitiesJson _).legible, Bool.and_true]

theorem distinct_toJson (s : Snapshot) : s.toJson.Distinct :=
  ⟨(by decide : ["tables", "enumTypes", "edgeRelationships"].Nodup),
    Json.distinct_ofMap Table.distinct_toJson _, (kept_enumsJson _).distinct, (kept_cardinalitiesJson _).distinct,
    trivial⟩

theorem reread_toJson (s : Snapshot) : s.toJson.reread = s.reread.toJson := by
  have htables : (tablesJson s.schema.tables).reread = tablesJson s.reread.schema.tables :=
    Json.reread_ofMap Table.reread_toJson _
  simp only [toJson, Json.reread, Json.rereadMembers, htables, (kept_enumsJson _).reread,
    (kept_cardinalitiesJson _).reread]
  rfl

end Snapshot

namespace HistoryEntry

/-- Whether the time of the entry is short and its snapshot legible. -/
def legible (e : HistoryEntry) : Bool := Json.isShort e.stamp.time && e.snapshot.legible

/-- The entry with its snapshot as the text of it is read. -/
def reread (e : HistoryEntry) : HistoryEntry := { e with snapshot := e.snapshot.reread }

theorem legible_toJson (e : HistoryEntry) : e.toJson.legible = e.legible := by
  simp only [toJson, Json.legible, Json.legibleMembers, Snapshot.legible_toJson, Bool.true_and,
    Bool.and_true, legible]

theorem distinct_toJson (e : HistoryEntry) : e.toJson.Distinct :=
  ⟨(by decide : ["id", "timestamp", "label", "snapshot"].Nodup), trivial, trivial, trivial,
    e.snapshot.distinct_toJson, trivial⟩

theorem reread_toJson (e : HistoryEntry) : e.toJson.reread = e.reread.toJson := by
  simp only [toJson, Json.reread, Json.rereadMembers, Snapshot.reread_toJson]
  rfl

end HistoryEntry

namespace History

variable (entries : List HistoryEntry) (index : Int) (maxEntries : Nat)

theorem legible_stateJson : (stateJson entries index maxEntries).legible =
    (entries.all HistoryEntry.legible && (Json.isShort index && Json.isShort maxEntries)) := by
  have hentries : Json.legibleItems (entries.map HistoryEntry.toJson) =
      entries.all HistoryEntry.legible := by
    rw [Json.legibleItems_eq, List.all_map]
    exact congrArg entries.all (funext HistoryEntry.legible_toJson)
  simp only [stateJson, Json.legible, Json.legibleMembers, hentries, Bool.and_true]

theorem distinct_stateJson : (stateJson entries index maxEntries).Distinct := by
  refine ⟨(by decide : ["entries", "currentIndex", "maxEntries"].Nodup),
    Json.distinctItems_iff.2 fun v hv => ?_, trivial, trivial, trivial⟩
  obtain ⟨e, -, rfl⟩ := List.mem_map.1 hv
  exact e.distinct_toJson

theorem reread_stateJson : (stateJson entries index maxEntries).reread =
    stateJson (entries.map HistoryEntry.reread) index maxEntries := by
  have hentries : Json.rereadItems (entries.map HistoryEntry.toJson) =
      (entries.map HistoryEntry.reread).map HistoryEntry.toJson := by
    rw [Json.rereadItems_eq, List.map_map, List.map_map]
    exact List.map_congr_left fun e _ => e.reread_toJson
  simp only [stateJson, Json.reread, Json.rereadMembers, hentries]

end History

end Schemata

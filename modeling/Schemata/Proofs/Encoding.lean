/-
  Decoding what was encoded.

  * `find_optional`: where an optional member of a JSON form is found; `field_optional` and its
    companions read a field from there;
  * `reference_toJson`, `constraint_toJson`, `index_toJson`, `position_toJson`, `enumType_toJson`:
    these parts are decoded as they were;
  * `column_toJson`: a column comes back without its blank texts;
  * `tableWith_tableMembers`: a table comes back as it was, its columns apart.
-/
import Schemata.Decode.Schema
import Schemata.Proofs.Building
import Schemata.Schema.Encode

namespace Schemata.Decode

open OrderedMap (find find_append)

variable {α β : Type} {k : String} {l m : List (String × Json)}

/-! ## Members -/

theorem find_optional {name : String} {f : α → Json} {o : Option α} :
    find k (Json.optional name f o) = if name = k then o.map f else none := by
  cases o with
  | none => exact (ite_self none).symm
  | some a => rfl

theorem field_of_find {n : FieldName} {absent : α} {f : Json → Checked α} {v : Json}
    (h : find n.written m = some v) :
    field n absent f m = (f v).under (.field n.written) := by
  rw [field, FieldName.find?, h]

theorem required_of_find {n : FieldName} {f : Json → Checked α} {v : Json}
    (h : find n.written m = some v) : required n f m = (f v).under (.field n.written) := by
  rw [required, FieldName.find?, h]

/-- A field that is left out if it is absent. -/
theorem field_optional {n : FieldName} {f : Json → Checked (Option β)} {g : α → Json}
    {r : α → Option β} {o : Option α} (hw : find n.written m = o.map g)
    (ho : ∀ name, n.other = some name → find name m = none) (hf : ∀ a, f (g a) = .ok (r a)) :
    field n none f m = .ok (o.bind r) := by
  cases o with
  | none =>
    have hfind : n.find? m = none := by
      rw [FieldName.find?, hw]
      cases hother : n.other with
      | none => rfl
      | some name =>
        show (find name m).map _ = none
        rw [ho name hother]
        rfl
    rw [field, hfind]
    rfl
  | some a =>
    rw [field_of_find hw, hf]
    rfl

/-! ## Lists -/

theorem itemsFrom_map {f : Json → Checked α} {g : α → Json} (index : Nat) {items : List α}
    (hf : ∀ a ∈ items, f (g a) = .ok a) : itemsFrom f index (items.map g) = .ok items := by
  induction items generalizing index with
  | nil => rfl
  | cons a items ih =>
    rw [List.forall_mem_cons] at hf
    rw [List.map_cons, itemsFrom, hf.1, ih (index + 1) hf.2]
    rfl

theorem list_map {f : Json → Checked α} {g : α → Json} {items : List α}
    (hf : ∀ a ∈ items, f (g a) = .ok a) : list f (.arr (items.map g)) = .ok items :=
  itemsFrom_map 0 hf

/-! ## Fields -/

namespace Checked

theorem map_of_ok {g : α → β} {x : Checked α} {a : α} (h : x = .ok a) : g <$> x = .ok (g a) := by
  rw [h]
  rfl

theorem seq_of_ok {f : Checked (α → β)} {g : α → β} {x : Checked α} {a : α} (hf : f = .ok g)
    (hx : x = .ok a) : f <*> x = .ok (g a) := by
  rw [hf, hx]
  rfl

end Checked

section
variable {n : FieldName} {s : String}

theorem field_optionalText {o : Option String} (hw : find n.written m = o.map .str)
    (ho : ∀ name, n.other = some name → find name m = none) :
    field n none (optional text) m = .ok o := by
  rw [field_optional hw ho fun _ => rfl]
  cases o <;> rfl

theorem field_text {absent : String} (h : find n.written m = some (.str s)) :
    field n absent text m = .ok s := by
  rw [field_of_find h]
  rfl

theorem required_text (h : find n.written m = some (.str s)) : required n text m = .ok s := by
  rw [required_of_find h]
  rfl

theorem field_flag {absent b : Bool} (h : find n.written m = some (.bool b)) :
    field n absent flag m = .ok b := by
  rw [field_of_find h]
  rfl

theorem field_list {f : Json → Checked α} {g : α → Json} {items : List α}
    (h : find n.written m = some (.arr (items.map g))) (hf : ∀ a ∈ items, f (g a) = .ok a) :
    field n [] (list f) m = .ok items := by
  rw [field_of_find h, list_map hf]
  rfl

theorem field_strings {items : List String} (h : find n.written m = some (Json.strings items)) :
    field n [] (list text) m = .ok items :=
  field_list h fun _ _ => rfl

end

/-! ## Parts of tables -/

theorem reference_toJson (r : Reference) : reference r.toJson = .ok r := by
  obtain ⟨schema, table, columns, onDelete, onUpdate⟩ := r
  refine Checked.seq_of_ok (Checked.seq_of_ok (Checked.seq_of_ok (Checked.seq_of_ok
    (Checked.map_of_ok (field_optionalText ?_ ?_)) (required_text ?_)) (field_strings ?_))
    (field_optionalText ?_ ?_)) (field_optionalText ?_ ?_)
  all_goals simp [find_append, find_optional, find]

theorem constraintKind_name (kind : ConstraintKind) : constraintKind (.str kind.name) = .ok kind := by
  cases kind <;> rfl

theorem constraint_toJson (c : Constraint) : constraint c.toJson = .ok c := by
  obtain ⟨kind, name, columns, target, expression⟩ := c
  have hkind {m : List (String × Json)} (h : find "type" m = some (.str kind.name)) :
      required "type" constraintKind m = .ok kind := by
    rw [required_of_find h, constraintKind_name]
    rfl
  have htarget {m : List (String × Json)} (h : find "reference" m = target.map Reference.toJson) :
      field "reference" none (optional reference) m = .ok target := by
    have hsome (r : Reference) : optional reference r.toJson = .ok (some r) := by
      show some <$> reference r.toJson = _
      rw [reference_toJson]
      rfl
    rw [field_optional h (fun _ hn => by cases hn) hsome]
    cases target <;> rfl
  refine Checked.seq_of_ok (Checked.seq_of_ok (Checked.seq_of_ok (Checked.seq_of_ok
    (Checked.map_of_ok (hkind ?_)) (field_optionalText ?_ ?_)) (field_strings ?_)) (htarget ?_))
    (field_optionalText ?_ ?_)
  all_goals simp [find_append, find_optional, find]

theorem index_toJson (i : Index) : index i.toJson = .ok i := by
  obtain ⟨name, columns, unique, method, condition⟩ := i
  refine Checked.seq_of_ok (Checked.seq_of_ok (Checked.seq_of_ok (Checked.seq_of_ok
    (Checked.map_of_ok (required_text ?_)) (field_strings ?_)) (field_flag ?_))
    (field_optionalText ?_ ?_)) (field_optionalText ?_ ?_)
  all_goals simp [find_append, find_optional, find]

theorem position_toJson (p : Position) : position p.toJson = .ok p := rfl

/-- A valid enum type is decoded as it was. -/
theorem enumType_toJson {e : EnumType} (h : e.Valid) : enumType e.toJson = .ok e := by
  obtain ⟨name, schema, values⟩ := e
  obtain ⟨hne, hdistinct⟩ := h
  have hname {m : List (String × Json)} (h : find "name" m = some (.str name)) :
      required "name" nonEmptyText m = .ok name := by
    rw [required_of_find h, nonEmptyText]
    show (if name.isEmpty then Checked.fail .tooShort else .ok name).under _ = _
    rw [if_neg (by simpa using hne)]
    rfl
  have hvalues {m : List (String × Json)} (h : find "values" m = some (Json.strings values)) :
      field "values" [] (fun v => (list text v).andThen distinctValues) m = .ok values := by
    rw [field_of_find h, Json.strings, list_map (g := .str) fun _ _ => rfl]
    show (distinctValues values).under _ = _
    rw [distinctValues, hdistinct]
    rfl
  refine Checked.seq_of_ok (Checked.seq_of_ok (Checked.map_of_ok (hname ?_))
    (field_optionalText ?_ ?_)) (hvalues ?_)
  all_goals simp [find_append, find_optional, find]

/-! ## Columns -/

theorem field_filledText {n : FieldName} {o : Option String} (hw : find n.written m = o.map .str)
    (ho : ∀ name, n.other = some name → find name m = none) :
    field n none filledText m = .ok (o.bind nonBlank) := by
  refine field_optional hw ho fun s => ?_
  rw [filledText, nonBlank]
  split <;> rfl

theorem column_toJson (c : Column) : column c.toJson = .ok (Column.coherent
    { c with
      defaultText := c.defaultText.bind nonBlank
      foreignKey := c.foreignKey.bind nonBlank
      enumName := c.enumName.bind nonBlank
      comment := c.comment.bind nonBlank }) := by
  obtain ⟨title, format, category, default, required, primaryKey, unique, foreignKey, enumName,
    enumValues, comment⟩ := c
  have hdefault {m : List (String × Json)} (h : find "default" m = default.map .str) :
      field "default" none (fun v => .ok (defaultText v)) m = .ok (default.bind nonBlank) :=
    field_optional h (fun _ hn => by cases hn) fun _ => rfl
  have hvalues {m : List (String × Json)} (hw : find "enumValues" m = enumValues.map Json.strings)
      (ho : find "enum_values" m = none) :
      field ⟨"enumValues", some "enum_values"⟩ none (optional (list text)) m = .ok enumValues := by
    have hsome (values : List String) :
        optional (list text) (Json.strings values) = .ok (some values) := by
      show some <$> list text (.arr (values.map .str)) = _
      rw [list_map (g := .str) fun _ _ => rfl]
      rfl
    rw [field_optional hw (fun _ hn => by cases hn; exact ho) hsome]
    cases enumValues <;> rfl
  refine congrArg (Checked.map Column.coherent) (Checked.seq_of_ok (Checked.seq_of_ok
    (Checked.seq_of_ok (Checked.seq_of_ok (Checked.seq_of_ok (Checked.seq_of_ok (Checked.seq_of_ok
    (Checked.seq_of_ok (Checked.seq_of_ok (Checked.seq_of_ok (Checked.map_of_ok (required_text ?_))
    (field_text ?_)) (field_text ?_)) (hdefault ?_)) (field_flag ?_)) (field_flag ?_))
    (field_flag ?_)) (field_filledText ?_ ?_)) (field_filledText ?_ ?_)) (hvalues ?_ ?_))
    (field_filledText ?_ ?_))
  all_goals simp [find_append, find_optional, find]

/-! ## Tables -/

/-- The members of the JSON form of a table. -/
def tableMembers (t : Table) : List (String × Json) :=
  [("title", .str t.title)] ++ Json.optional "schema" .str t.schema ++
    [("columns", .arr (t.columns.map Column.toJson)),
      ("constraints", .arr (t.constraints.map Constraint.toJson)),
      ("indexes", .arr (t.indexes.map Index.toJson))] ++
    Json.optional "position" Position.toJson t.position ++ Json.optional "color" .str t.color ++
    Json.optional "comment" .str t.comment ++ [("is_view", .bool t.isView)]

theorem toJson_eq_tableMembers (t : Table) : t.toJson = .obj (tableMembers t) := rfl

/-- A table is decoded as it was, with whatever columns it is given. -/
theorem tableWith_tableMembers (columns : List Column) (t : Table) :
    tableWith (.ok columns) (tableMembers t) = .ok { t with columns } := by
  obtain ⟨title, schema, columns', constraints, indexes, place, color, comment, isView⟩ := t
  have hplace {m : List (String × Json)} (h : find "position" m = place.map Position.toJson) :
      field "position" none (optional position) m = .ok place := by
    rw [field_optional h (fun _ hn => by cases hn) fun _ => rfl]
    cases place <;> rfl
  refine Checked.seq_of_ok (Checked.seq_of_ok (Checked.seq_of_ok (Checked.seq_of_ok
    (Checked.seq_of_ok (Checked.seq_of_ok (Checked.seq_of_ok (Checked.seq_of_ok
    (Checked.map_of_ok (required_text ?_)) (field_optionalText ?_ ?_)) rfl)
    (field_list ?_ fun c _ => constraint_toJson c)) (field_list ?_ fun i _ => index_toJson i))
    (hplace ?_))
    (field_optionalText ?_ ?_)) (field_optionalText ?_ ?_)) (field_flag ?_)
  all_goals simp [tableMembers, find_append, find_optional, find]

end Schemata.Decode

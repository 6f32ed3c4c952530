/-
  Decoding schemas.  Unknown fields are ignored.  An optional text that is blank counts as absent
  where a column refers to something; a default may be any value and is kept as text.
-/
import Schemata.Decode.Checked
import Schemata.Schema.Basic

namespace Schemata.Decode

/-- An optional text; a blank one is absent. -/
def filledText (v : Json) : Checked (Option String) :=
  match v with
  | .str s => if Text.isBlankText s then .ok none else .ok (some s)
  | v => optional text v

/-- A default as text: truth values by their lower-case names, strings as they are, anything else as
    it is shown; a blank text is absent. -/
def defaultText (v : Json) : Option String :=
  match v with
  | .null => none
  | .bool b => some (if b then "true" else "false")
  | v => if Text.isBlankText v.plain then none else some v.plain

/-- A column from its fields. -/
def columnFields (m : List (String × Json)) : Checked Column :=
  let make title format category default required primaryKey unique foreignKey enumName enumValues
      comment : Column :=
    { title, format, category, defaultText := default, required, primaryKey, unique, foreignKey,
      enumName, enumValues, comment }
  let fields : Checked Column :=
    make <$> required "title" text m
      <*> field "format" "text" text m
      <*> field "type" "string" text m
      <*> field "default" none (fun v => .ok (defaultText v)) m
      <*> field "required" false flag m
      <*> field "pk" false flag m
      <*> field "unique" false flag m
      <*> field "fk" none filledText m
      <*> field ⟨"enumTypeName", some "enum_type_name"⟩ none filledText m
      <*> field ⟨"enumValues", some "enum_values"⟩ none (optional (list text)) m
      <*> field "comment" none filledText m
  fields.map Column.coherent

/-- A column. -/
def column : Json → Checked Column := record columnFields

/-- A name with at least one character. -/
def nonEmptyText (v : Json) : Checked String :=
  (text v).andThen fun s => if s.isEmpty then .fail .tooShort else .ok s

/-- A list of values that are distinct whatever their case. -/
def distinctValues (values : List String) : Checked (List String) :=
  match EnumType.repeated? [] values with
  | some v => .fail (.rule ("Duplicate enum value: '" ++ v ++ "'"))
  | none => .ok values

/-- An enum type from its parts. -/
def enumOf (name : String) (schema : Option String) (values : List String) : Checked EnumType :=
  (fun name values => ⟨name, schema, values⟩)
    <$> (nonEmptyText (.str name)).under (.field "name")
    <*> (distinctValues values).under (.field "values")

/-- An enum type. -/
def enumType : Json → Checked EnumType :=
  record fun m =>
    EnumType.mk <$> required "name" nonEmptyText m
      <*> field ⟨"schema", some "schema_name"⟩ none (optional text) m
      <*> field "values" [] (fun v => (list text v).andThen distinctValues) m

/-- The target of a foreign key. -/
def reference : Json → Checked Reference :=
  record fun m =>
    Reference.mk <$> field ⟨"schema", some "schema_name"⟩ none (optional text) m
      <*> required "table" text m
      <*> field "columns" [] (list text) m
      <*> field ⟨"onDelete", some "on_delete"⟩ none (optional text) m
      <*> field ⟨"onUpdate", some "on_update"⟩ none (optional text) m

/-- The kind of a constraint. -/
def constraintKind : Json → Checked ConstraintKind
  | .str s =>
    match ConstraintKind.ofName? s with
    | some k => .ok k
    | none => .fail .notMember
  | _ => .fail .notMember

/-- A constraint. -/
def constraint : Json → Checked Constraint :=
  record fun m =>
    Constraint.mk <$> required "type" constraintKind m
      <*> field "name" none (optional text) m
      <*> field "columns" [] (list text) m
      <*> field "reference" none (optional reference) m
      <*> field "expression" none (optional text) m

/-- An index. -/
def index : Json → Checked Index :=
  record fun m =>
    Index.mk <$> required "name" text m
      <*> field "columns" [] (list text) m
      <*> field "unique" false flag m
      <*> field "using" none (optional text) m
      <*> field "where" none (optional text) m

/-- A place. -/
def position : Json → Checked Position :=
  record fun m =>
    Position.mk <$> field "x" .zero decimal m <*> field "y" .zero decimal m

/-- A table from its columns and its other fields. -/
def tableWith (columns : Checked (List Column)) (m : List (String × Json)) : Checked Table :=
  Table.mk <$> required "title" text m
    <*> field ⟨"schema", some "schema_name"⟩ none (optional text) m
    <*> columns
    <*> field "constraints" [] (list constraint) m
    <*> field "indexes" [] (list index) m
    <*> field "position" none (optional position) m
    <*> field "color" none (optional text) m
    <*> field "comment" none (optional text) m
    <*> field "is_view" false flag m

/-- A table. -/
def table : Json → Checked Table :=
  record fun m => tableWith (field "columns" [] (list column) m) m

/-- A schema. -/
def schema : Json → Checked Schema :=
  record fun m =>
    Schema.mk <$> field "tables" {} (map table) m
      <*> field ⟨"enumTypes", some "enum_types"⟩ {} (map enumType) m

/-- The cardinality of an edge. -/
def cardinality : Json → Checked Cardinality
  | .str s =>
    match Cardinality.ofName? s with
    | some c => .ok c
    | none => .fail .notMember
  | _ => .fail .notMember

end Schemata.Decode

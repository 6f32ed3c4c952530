/-
  Reading a schema file that was written as JSON.

  * `Value.ofJson` is the value that a JSON text stands for in YAML; the raw forms of such values are
    the JSON values again (`raw_ofJson`, `rawTable_toJson`);
  * `result_schema_toJson`: a schema whose tables are clean but for blank comments on columns is read
    again without these comments;
  * `mayName_write`: no text that is written as JSON with its characters kept names half a character.
-/
import Schemata.Command.Run
import Schemata.Proofs.Reapplying
import Schemata.Proofs.SchemaText

namespace Schemata

open Log

/-! ## JSON in YAML -/

namespace Yaml.Value

mutual

/-- The value that a JSON value stands for. -/
def ofJson : Json → Value
  | .null => .null
  | .bool b => .bool b
  | .int i => .int i
  | .float x => .float x
  | .str s => .str s
  | .arr items => .seq (ofItemsJson items)
  | .obj members => .map (ofMembersJson members)

/-- The values of the items of an array. -/
def ofItemsJson : List Json → List Value
  | [] => []
  | v :: rest => ofJson v :: ofItemsJson rest

/-- The entries of the members of an object. -/
def ofMembersJson : List (String × Json) → List (Value × Value)
  | [] => []
  | (k, v) :: rest => (.str k, ofJson v) :: ofMembersJson rest

end

theorem ofItemsJson_eq (items : List Json) : ofItemsJson items = items.map ofJson := by
  induction items with
  | nil => rfl
  | cons v items ih => rw [ofItemsJson, ih, List.map_cons]

theorem ofMembersJson_eq (members : List (String × Json)) :
    ofMembersJson members = members.map fun m => (.str m.1, ofJson m.2) := by
  induction members with
  | nil => rfl
  | cons m members ih => rw [ofMembersJson, ih, List.map_cons]

/-! ### Comparing -/

mutual

/-- Whether a value is the one that a JSON value stands for. -/
def isJson : Value → Json → Bool
  | .null, .null => true
  | .bool b, .bool b' => b == b'
  | .int i, .int i' => i == i'
  | .float x, .float x' => x == x'
  | .str s, .str s' => s == s'
  | .seq items, .arr items' => areItems items items'
  | .map entries, .obj members => areMembers entries members
  | _, _ => false

/-- Whether values are those of the items of an array. -/
def areItems : List Value → List Json → Bool
  | [], [] => true
  | v :: rest, j :: rest' => isJson v j && areItems rest rest'
  | _, _ => false

/-- Whether entries are those of the members of an object. -/
def areMembers : List (Value × Value) → List (String × Json) → Bool
  | [], [] => true
  | (.str k, v) :: rest, (k', j) :: rest' => k == k' && isJson v j && areMembers rest rest'
  | _, _ => false

end

mutual

theorem isJson_iff : ∀ (v : Value) (j : Json), v.isJson j ↔ v = ofJson j
  | .seq items, .arr items' => by simp [isJson, ofJson, areItems_iff items items']
  | .map entries, .obj members => by simp [isJson, ofJson, areMembers_iff entries members]
  | .null, j | .bool _, j | .int _, j | .float _, j | .timestamp _, j | .str _, j => by
    cases j <;> simp [isJson, ofJson]
  | .seq _, .null | .seq _, .bool _ | .seq _, .int _ | .seq _, .float _ | .seq _, .str _
  | .seq _, .obj _ | .map _, .null | .map _, .bool _ | .map _, .int _ | .map _, .float _
  | .map _, .str _ | .map _, .arr _ => by simp [isJson, ofJson]

theorem areItems_iff : ∀ (items : List Value) (items' : List Json),
    areItems items items' ↔ items = ofItemsJson items'
  | [], [] | [], _ :: _ | _ :: _, [] => by simp [areItems, ofItemsJson]
  | v :: rest, j :: rest' => by simp [areItems, ofItemsJson, isJson_iff v j, areItems_iff rest rest']

theorem areMembers_iff : ∀ (entries : List (Value × Value)) (members : List (String × Json)),
    areMembers entries members ↔ entries = ofMembersJson members
  | [], [] | [], _ :: _ | _ :: _, [] => by simp [areMembers, ofMembersJson]
  | (k, v) :: rest, (k', j) :: rest' => by
    cases k <;>
      simp [areMembers, ofMembersJson, isJson_iff v j, areMembers_iff rest rest', and_assoc]

end

theorem read_eq_ofJson {text : String} {j : Json}
    (h : (read text).toOption.any (·.isJson j) = true) : read text = .ok (ofJson j) := by
  cases hread : read text with
  | error problem =>
    rw [hread] at h
    cases h
  | ok v =>
    rw [hread] at h
    rw [(isJson_iff v j).1 h]

end Yaml.Value

namespace SchemaFile

open Yaml (Value)

mutual

theorem raw_ofJson : ∀ v : Json, raw (Value.ofJson v) = v
  | .null | .bool _ | .int _ | .float _ | .str _ => rfl
  | .arr items => congrArg Json.arr (rawItems_ofItemsJson items)
  | .obj members => congrArg Json.obj (rawMembers_ofMembersJson members)

theorem rawItems_ofItemsJson : ∀ items : List Json, rawItems (Value.ofItemsJson items) = items
  | [] => rfl
  | v :: rest => by
    rw [Value.ofItemsJson, rawItems, raw_ofJson v, rawItems_ofItemsJson rest]

theorem rawMembers_ofMembersJson : ∀ members : List (String × Json),
    rawMembers (Value.ofMembersJson members) = members
  | [] => rfl
  | (k, v) :: rest => by
    rw [Value.ofMembersJson, rawMembers, raw_ofJson v, rawMembers_ofMembersJson rest]

end

section

variable {name : String} {f : Value → Json} {members more : List (String × Json)}

/-- What stands under a name is read as it is. -/
def ReadsUnder (name : String) (f : Value → Json) (members : List (String × Json)) : Prop :=
  ∀ m ∈ members, m.1 = name → f (Value.ofJson m.2) = m.2

theorem readsUnder_append : ReadsUnder name f (members ++ more) ↔
    ReadsUnder name f members ∧ ReadsUnder name f more := List.forall_mem_append

theorem readsUnder_other (h : name ∉ members.map Prod.fst) : ReadsUnder name f members := by
  rintro m hm rfl
  exact absurd (List.mem_map_of_mem hm) h

theorem readsUnder_optional {α : Type} {k : String} {g : α → Json} {o : Option α}
    (hk : name ≠ k) : ReadsUnder name f (Json.optional k g o) :=
  readsUnder_other fun h => hk (List.mem_singleton.1 (Json.keys_optional.subset h))

/-- A function for the value under one name changes nothing if it reads that value as it is. -/
theorem rawWith_ofJson (h : ReadsUnder name f members) :
    rawWith name f (Value.ofJson (.obj members)) = .obj members := by
  rw [Value.ofJson, rawWith, Value.ofMembersJson_eq, List.filterMap_map]
  refine congrArg Json.obj ((List.filterMap_congr fun m hm => ?_).trans List.filterMap_some)
  simp only [Function.comp_apply]
  split
  · next hname => rw [h m hm (eq_of_beq hname)]
  · rw [raw_ofJson]

end

theorem rawColumn_toJson (c : Column) :
    rawWith "default" rawDefault (Value.ofJson c.toJson) = c.toJson := by
  refine rawWith_ofJson ?_
  simp only [readsUnder_append]
  refine ⟨⟨⟨⟨⟨⟨?_, ?_⟩, ?_⟩, ?_⟩, ?_⟩, ?_⟩, ?_⟩
  · exact readsUnder_other (by simp)
  · exact Json.forall_mem_optional fun _ _ _ => rfl
  · exact readsUnder_other (by simp)
  all_goals exact readsUnder_optional (by decide)

/-- The JSON form of a table is read as it is. -/
theorem rawTable_toJson (t : Table) : rawTable (Value.ofJson t.toJson) = t.toJson := by
  have hcolumns : rawList (rawWith "default" rawDefault)
      (Value.ofJson (.arr (t.columns.map Column.toJson))) = .arr (t.columns.map Column.toJson) := by
    rw [Value.ofJson, Value.ofItemsJson_eq, rawList, List.map_map, List.map_map]
    exact congrArg Json.arr (List.map_congr_left fun c _ => rawColumn_toJson c)
  refine rawWith_ofJson ?_
  simp only [readsUnder_append]
  refine ⟨⟨⟨⟨⟨⟨?_, ?_⟩, ?_⟩, ?_⟩, ?_⟩, ?_⟩, ?_⟩
  · exact readsUnder_other (by simp)
  · exact readsUnder_optional (by decide)
  · intro m hm hname
    rcases List.mem_cons.1 hm with rfl | hm
    · exact hcolumns
    · exact readsUnder_other (by simp) m hm hname
  · exact readsUnder_optional (by decide)
  · exact readsUnder_optional (by decide)
  · exact readsUnder_optional (by decide)
  · exact readsUnder_other (by simp)

end SchemaFile

/-! ## Halves of characters -/

namespace Json

open Text.Half (mayName)

variable {a b sep : List Char}

/-- In front of any text, the characters name no half. -/
def NamesNoHalf (cs : List Char) : Prop := ∀ rest, mayName (cs ++ rest) = mayName rest

theorem namesNoHalf_nil : NamesNoHalf [] := fun _ => rfl

theorem NamesNoHalf.append (ha : NamesNoHalf a) (hb : NamesNoHalf b) : NamesNoHalf (a ++ b) := by
  intro rest
  rw [List.append_assoc, ha, hb]

theorem mayName_of_ne {c : Char} (h : c ≠ '\\') (rest : List Char) :
    mayName (c :: rest) = mayName rest := by
  rw [Text.Half.mayName.eq_def]
  split
  · next he => cases he; exact absurd rfl h
  · next he => cases he; rfl
  · next he => cases he

theorem namesNoHalf_of_notMem (h : '\\' ∉ a) : NamesNoHalf a := by
  intro rest
  induction a with
  | nil => rfl
  | cons c a ih =>
    rw [List.mem_cons, not_or] at h
    rw [List.cons_append, mayName_of_ne (Ne.symm h.1)]
    exact ih h.2

theorem namesNoHalf_escape {c : Char} (hu : c ≠ 'u') (hU : c ≠ 'U') : NamesNoHalf ['\\', c] := by
  intro rest
  show mayName ('\\' :: c :: rest) = mayName rest
  simp [mayName, hu, hU]

theorem namesNoHalf_unitEscape {n : Nat} (h : n < 32) : NamesNoHalf (unitEscape n) := by
  have hshape : ∀ n < 32, (unitEscape n).take 3 = ['\\', 'u', '0'] ∧
      '\\' ∉ (unitEscape n).drop 3 := by decide
  obtain ⟨hfront, hdigits⟩ := hshape n h
  intro rest
  rw [← List.take_append_drop 3 (unitEscape n), hfront]
  show mayName ('\\' :: 'u' :: '0' :: ((unitEscape n).drop 3 ++ rest)) = mayName rest
  simp [mayName, namesNoHalf_of_notMem hdigits rest]

theorem namesNoHalf_stringChar (c : Char) : NamesNoHalf (stringChar false c) := by
  unfold stringChar
  split
  · next h => exact namesNoHalf_escape (by rintro rfl; simp at h) (by rintro rfl; simp at h)
  next hplain =>
  split_ifs with h₁ h₂ h₃ h₄ h₅ h₆
  · exact namesNoHalf_escape (by decide) (by decide)
  · exact namesNoHalf_escape (by decide) (by decide)
  · exact namesNoHalf_escape (by decide) (by decide)
  · exact namesNoHalf_escape (by decide) (by decide)
  · exact namesNoHalf_escape (by decide) (by decide)
  · have hlow : c.toNat < 32 := by simpa using h₆
    rw [numericEscape, if_pos (by omega)]
    exact namesNoHalf_unitEscape hlow
  · exact namesNoHalf_of_notMem fun h => hplain (.inr (List.mem_singleton.1 h).symm)

theorem namesNoHalf_flatten {parts : List (List Char)} (h : ∀ p ∈ parts, NamesNoHalf p) :
    NamesNoHalf parts.flatten := by
  induction parts with
  | nil => exact namesNoHalf_nil
  | cons p parts ih =>
    rw [List.flatten_cons]
    exact (h p List.mem_cons_self).append (ih fun q hq => h q (List.mem_cons_of_mem p hq))

theorem namesNoHalf_stringChars (s : String) : NamesNoHalf (stringChars false s) := by
  have hquote : NamesNoHalf ['"'] := namesNoHalf_of_notMem (by decide)
  refine hquote.append (NamesNoHalf.append (namesNoHalf_flatten fun p hp => ?_) hquote)
  obtain ⟨c, -, rfl⟩ := List.mem_map.1 hp
  exact namesNoHalf_stringChar c

theorem namesNoHalf_intercalate (hsep : NamesNoHalf sep) {parts : List (List Char)}
    (h : ∀ p ∈ parts, NamesNoHalf p) : NamesNoHalf (sep.intercalate parts) := by
  induction parts with
  | nil => exact namesNoHalf_nil
  | cons p parts ih =>
    have hp := h p List.mem_cons_self
    have hrest := ih fun q hq => h q (List.mem_cons_of_mem p hq)
    cases parts with
    | nil => rwa [List.intercalate_singleton]
    | cons q parts =>
      rw [List.intercalate_cons_cons]
      exact (hp.append hsep).append hrest

theorem namesNoHalf_lineBreak (depth : Nat) : NamesNoHalf (lineBreak .indented depth) := by
  refine namesNoHalf_of_notMem fun h => ?_
  rcases List.mem_cons.1 h with h | h
  · cases h
  · cases List.eq_of_mem_replicate h

theorem namesNoHalf_bracketed {opening closing : Char} {depth : Nat} {items : List (List Char)}
    (hopening : '\\' ≠ opening) (hclosing : '\\' ≠ closing) (h : ∀ p ∈ items, NamesNoHalf p) :
    NamesNoHalf (bracketed .indented opening closing depth items) := by
  have hopen : NamesNoHalf [opening] := namesNoHalf_of_notMem (mt List.mem_singleton.1 hopening)
  have hclose : NamesNoHalf [closing] := namesNoHalf_of_notMem (mt List.mem_singleton.1 hclosing)
  have hcomma : NamesNoHalf Style.indented.itemSeparator.toList := namesNoHalf_of_notMem (by decide)
  unfold bracketed
  split
  · exact hopen.append hclose
  · have hitems := namesNoHalf_intercalate (hcomma.append (namesNoHalf_lineBreak (depth + 1))) h
    exact hopen.append ((((namesNoHalf_lineBreak _).append hitems).append
      (namesNoHalf_lineBreak depth)).append hclose)

theorem namesNoHalf_int (i : Int) : NamesNoHalf (toString i).toList := by
  have hdigits : '\\' ∉ Nat.toDigits 10 i.natAbs := by
    intro h
    cases Number.isAsciiDigit_of_mem_toDigits h
  rw [toList_toString]
  split
  · exact namesNoHalf_of_notMem (List.not_mem_cons_of_ne_of_not_mem (by decide) hdigits)
  · exact namesNoHalf_of_notMem hdigits

theorem namesNoHalf_float (x : Number.Binary64) :
    NamesNoHalf (x.textWith "Infinity" "NaN").toList := by
  cases x with
  | finite negative significand exponent =>
    have hbody : '\\' ∉ Number.Binary64.bodyText significand exponent := by
      intro hc
      rcases (Number.Binary64.decimalText_bodyText significand exponent).chars _ hc with h | h
      · cases h
      · exact absurd h (by decide)
    rw [Number.Binary64.toList_textWith_finite]
    split
    · exact namesNoHalf_of_notMem (List.not_mem_cons_of_ne_of_not_mem (by decide) hbody)
    · exact namesNoHalf_of_notMem hbody
  | infinity negative => cases negative <;> exact namesNoHalf_of_notMem (by decide)
  | nan =>
    have hname : NamesNoHalf "NaN".toList := namesNoHalf_of_notMem (by decide)
    exact hname

mutual

theorem namesNoHalf_chars : ∀ (v : Json) (depth : Nat), NamesNoHalf (chars .indented depth v)
  | .null, _ => (namesNoHalf_of_notMem (by decide) : NamesNoHalf "null".toList)
  | .bool true, _ => (namesNoHalf_of_notMem (by decide) : NamesNoHalf "true".toList)
  | .bool false, _ => (namesNoHalf_of_notMem (by decide) : NamesNoHalf "false".toList)
  | .int i, _ => namesNoHalf_int i
  | .float x, _ => namesNoHalf_float x
  | .str s, _ => namesNoHalf_stringChars s
  | .arr items, depth =>
    namesNoHalf_bracketed (by decide) (by decide) (namesNoHalf_itemChars items (depth + 1))
  | .obj members, depth =>
    namesNoHalf_bracketed (by decide) (by decide) (namesNoHalf_memberChars members (depth + 1))

theorem namesNoHalf_itemChars : ∀ (items : List Json) (depth : Nat),
    ∀ p ∈ itemChars .indented depth items, NamesNoHalf p
  | [], _ => nofun
  | v :: rest, depth =>
    List.forall_mem_cons.2 ⟨namesNoHalf_chars v depth, namesNoHalf_itemChars rest depth⟩

theorem namesNoHalf_memberChars : ∀ (members : List (String × Json)) (depth : Nat),
    ∀ p ∈ memberChars .indented depth members, NamesNoHalf p
  | [], _ => nofun
  | (k, v) :: rest, depth =>
    have hcolon : NamesNoHalf Style.indented.nameSeparator.toList := namesNoHalf_of_notMem (by decide)
    List.forall_mem_cons.2
      ⟨((namesNoHalf_stringChars k).append hcolon).append (namesNoHalf_chars v depth),
        namesNoHalf_memberChars rest depth⟩

end

/-- A line of JSON with its characters kept names no half of a character. -/
theorem mayName_write (v : Json) : mayName (v.write .indented ++ "\n").toList = false := by
  rw [String.toList_append, write, String.toList_ofList, namesNoHalf_chars v 0]
  rfl

end Json

/-! ## Files -/

namespace SchemaFile

open Yaml (Value)

variable {v : Value} {names : List String} {es : List (Value × Value)} {s : Schema}

theorem entries_of_get? (h : names.filterMap (fun name => v.get? name) = [.map es]) :
    entries v names = .ok es := by
  rw [entries, h, List.find?_cons]
  cases es <;> rfl

theorem named_ofMap {α : Type} (f : Value → Json) (g : α → Json) (m : OrderedMap α) :
    named f (Value.ofMembersJson (m.entries.map fun e => (e.1, g e.2))) =
      m.map fun _ a => f (Value.ofJson (g a)) := by
  rw [named, Value.ofMembersJson_eq, List.map_map, List.filterMap_map]
  exact (congrArg OrderedMap.ofList (congrFun List.filterMap_eq_map m.entries)).trans
    (OrderedMap.ofList_entries (m.map fun _ a => f (Value.ofJson (g a))))

theorem badName?_ofMembersJson (members : List (String × Json)) :
    badName? (Value.ofMembersJson members) = none := by
  rw [badName?, Value.ofMembersJson_eq, List.find?_map, Option.map_map, Option.map_eq_none_iff,
    List.find?_eq_none]
  exact fun _ _ => Bool.false_ne_true

/-- **Reading a written schema.** If its tables are clean but for blank comments on columns, and its
    enum types are valid, a schema is read again without these comments. -/
theorem result_schema_toJson (htables : Cleaning.CleanTables s.unblanked.tables)
    (henums : ∀ k e, s.enums.get? k = some e → e.Valid) (path : String) :
    (schema path (Value.ofJson s.toJson)).result = .ok s.unblanked := by
  have htablesEntries : entries (Value.ofJson s.toJson) ["tables"] =
      .ok (Value.ofMembersJson (s.tables.entries.map fun e => (e.1, e.2.toJson))) :=
    entries_of_get? rfl
  have henumsEntries : entries (Value.ofJson s.toJson) ["enumTypes", "enum_types"] =
      .ok (Value.ofMembersJson (s.enums.entries.map fun e => (e.1, e.2.toJson))) :=
    entries_of_get? rfl
  have hknown : named rawTable
      (Value.ofMembersJson (s.tables.entries.map fun e => (e.1, e.2.toJson))) =
      s.tables.map fun _ t => t.toJson := by
    rw [named_ofMap]
    exact OrderedMap.map_congr fun _ t _ => rawTable_toJson t
  have hmerged : (Cleaning.mergeEnums {} (named raw
      (Value.ofMembersJson (s.enums.entries.map fun e => (e.1, e.2.toJson))))).value = s.enums := by
    rw [named_ofMap, OrderedMap.map_congr fun _ e _ => raw_ofJson e.toJson]
    exact Cleaning.mergeEnums_encoded henums
  rw [schema, htablesEntries, henumsEntries]
  simp only [Action.result_bind, Action.result_ofExcept, Except.bind, Action.result_monadLift, hknown,
    hmerged, badName?_ofMembersJson, Cleaning.clean_unblanked htables]
  split <;> rfl

end SchemaFile

end Schemata

/-
  Reading the parts of written statements.

  * `Enclosed isSeparator` tokens neither end a statement nor an item of a list;
  * `items_separated`: a list is read item by item;
  * `PlainName` and `PlainNames` say when names are read as they were written, which is
    `qualifiedName_qualifiedTokens` and `columnList_columnListTokens`.
-/
import Schemata.Proofs.Documents

namespace Schemata.Token

variable {t : Token} {ts us : List Token} {lay : List Char} {stop : Token → Bool} {d : Nat}

/-! ## Layouts -/

/-- The text of tokens does not depend on the layout in front of them. -/
@[simp] theorem source_indent (lay : List Char) (ts : List Token) :
    source (indent lay ts) = source ts := by
  cases ts <;> rfl

theorem indent_eq_nil : indent lay ts = [] ↔ ts = [] := by
  cases ts <;> simp [indent]

/-- The test does not look at the layout. -/
def Blind (stop : Token → Bool) : Prop :=
  ∀ k text lay lay', stop ⟨k, text, lay⟩ = stop ⟨k, text, lay'⟩

theorem level_indent (hs : Blind stop) : level stop d (indent lay ts) = level stop d ts := by
  cases ts with
  | nil => rfl
  | cons t ts =>
    have : stop { t with layout := lay ++ t.layout } = stop t := hs _ _ _ _
    simp only [indent, level, this, isPunct]
    rfl

theorem Enclosed.indent (hs : Blind stop) (h : Enclosed stop ts) :
    Enclosed stop (indent lay ts) := by
  rw [Enclosed, level_indent hs]
  exact h

theorem blind_isPunct (c : Char) : Blind (isPunct c) := fun _ _ _ _ => rfl

theorem blind_never : Blind never := fun _ _ _ _ => rfl

/-- A mark that separates items or statements. -/
def isSeparator (t : Token) : Bool := t.isPunct ',' || t.isPunct ';'

theorem blind_isSeparator : Blind isSeparator := fun _ _ _ _ => rfl

theorem Enclosed.comma (h : Enclosed isSeparator ts) : Enclosed (isPunct ',') ts :=
  h.mono fun _ _ ht => by simp [isSeparator, ht]

theorem Enclosed.closed (h : Enclosed isSeparator ts) :
    clampedLevel (isPunct ';') 0 ts = some 0 :=
  clampedLevel_of_level (h.mono fun _ _ ht => by simp [isSeparator, ht])

theorem Enclosed.closed_append (h : Enclosed isSeparator ts)
    (h' : clampedLevel (isPunct ';') 0 us = some 0) :
    clampedLevel (isPunct ';') 0 (ts ++ us) = some 0 := by
  rw [clampedLevel_append, h.closed]
  exact h'

/-- A token that is no mark. -/
theorem Enclosed.consPlain (ht : (t.kind == .punct) = false) (h : Enclosed isSeparator ts) :
    Enclosed isSeparator (t :: ts) := by
  have hp : ∀ c, t.isPunct c = false := fun c => by simp [isPunct, ht]
  exact h.cons (hp _) (hp _) (by simp [isSeparator, hp])

end Schemata.Token

namespace Schemata.Written

open Token Cursor Log

variable {t : Token} {ts us rest : List Token} {lay : List Char} {stop : Token → Bool} {d : Nat}

/-! ## Single tokens -/

@[simp] theorem identifier_nameToken (lay : List Char) (n : String) :
    (nameToken lay n).identifier = Quote.unquote n := by
  simp [nameToken, identifier, Quote.unquoteList_encloseName, Quote.unquote]

@[simp] theorem stringValue_literalToken (lay : List Char) (s : String) :
    (literalToken lay s).stringValue = s := by
  simp [literalToken, stringValue, Quote.literalList]

/-! ## Levels -/

theorem enclosed_names (hn : ∀ lay n, stop (nameToken lay n) = false)
    (hp : stop (mark [] '.') = false) (parts : List String) :
    Enclosed stop (dottedTokens lay parts) := by
  induction parts generalizing lay with
  | nil => exact Enclosed.nil
  | cons n parts ih =>
    cases parts with
    | nil => exact Enclosed.cons rfl rfl (hn lay n) Enclosed.nil
    | cons m parts => exact Enclosed.cons rfl rfl (hn lay n) (Enclosed.cons rfl rfl hp ih)

theorem enclosed_dottedTokens (parts : List String) :
    Enclosed isSeparator (dottedTokens lay parts) := enclosed_names (fun _ _ => rfl) rfl parts

theorem enclosed_words {words : List String} (h : Enclosed isSeparator ts) :
    Enclosed isSeparator (words.map (word sp) ++ ts) := by
  induction words with
  | nil => exact h
  | cons w words ih => exact ih.consPlain rfl

theorem enclosed_clauseTokens {words : List String} {text : Option String}
    (h : ∀ s, text = some s → Enclosed isSeparator (rawTokens s)) :
    Enclosed isSeparator (clauseTokens words text) := by
  cases text with
  | none => exact Enclosed.nil
  | some s => exact enclosed_words ((h s rfl).indent blind_isSeparator)

theorem enclosed_separated {items : List (List Token)} {first next : List Char} (hs : Blind stop)
    (hm : stop (mark [] ',') = false) (h : ∀ ts ∈ items, Enclosed stop ts) :
    Enclosed stop (separated first next items) := by
  induction items generalizing first with
  | nil => exact Enclosed.nil
  | cons item items ih =>
    have hi : Enclosed stop (indent first item) := (h item List.mem_cons_self).indent hs
    cases items with
    | nil => exact hi
    | cons item' items =>
      exact hi.append (Enclosed.cons rfl rfl hm
        (ih fun ts hts => h ts (List.mem_cons_of_mem item hts)))

/-- A group in parentheses. -/
theorem enclosed_group {o c : List Char} (h : Enclosed never ts)
    (h' : Enclosed isSeparator us) :
    Enclosed isSeparator (mark o '(' :: (ts ++ mark c ')' :: us)) :=
  Enclosed.group rfl rfl h h'

theorem enclosed_nameListTokens (names : List String) : Enclosed never (nameListTokens names) := by
  refine enclosed_separated blind_never rfl ?_
  intro ts hts
  obtain ⟨n, -, rfl⟩ := List.mem_map.1 hts
  exact Enclosed.cons rfl rfl rfl Enclosed.nil

theorem enclosed_columnListTokens (names : List String) :
    Enclosed isSeparator (columnListTokens names) :=
  enclosed_group (enclosed_nameListTokens names) Enclosed.nil

/-! ## Lists -/

/-- The items of a list with their layouts. -/
def spread (first next : List Char) : List (List Token) → List (List Token)
  | [] => []
  | item :: more => indent first item :: more.map (indent next)

theorem mem_spread {first next : List Char} {items : List (List Token)}
    (h : ts ∈ spread first next items) : ∃ item ∈ items, ∃ lay, ts = indent lay item := by
  cases items with
  | nil => cases h
  | cons item items =>
    rcases List.mem_cons.1 h with rfl | h
    · exact ⟨item, List.mem_cons_self, first, rfl⟩
    · obtain ⟨item', hi, rfl⟩ := List.mem_map.1 h
      exact ⟨item', List.mem_cons_of_mem item hi, next, rfl⟩

theorem forall₂_spread {α : Type} {f : α → List Token} {first next : List Char} (l : List α) :
    List.Forall₂ (fun ts x => ∃ lay, ts = indent lay (f x)) (spread first next (l.map f)) l := by
  cases l with
  | nil => exact .nil
  | cons x l =>
    refine .cons ⟨first, rfl⟩ ?_
    rw [List.map_map, List.forall₂_map_left_iff]
    exact List.forall₂_same.2 fun y _ => ⟨next, rfl⟩

theorem map_spread {α β : Type} {f : α → List Token} {g : List Token → β} {k : α → β} {l : List α}
    {first next : List Char} (h : ∀ x ∈ l, ∀ lay, g (indent lay (f x)) = k x) :
    (spread first next (l.map f)).map g = l.map k := by
  cases l with
  | nil => rfl
  | cons x l =>
    simp only [spread, List.map_cons, List.map_map]
    rw [h x List.mem_cons_self]
    refine congrArg _ (List.map_congr_left fun y hy => ?_)
    exact h y (List.mem_cons_of_mem x hy) next

theorem itemsFrom_separated {first next : List Char} {items : List (List Token)}
    (h : ∀ ts ∈ items, Enclosed (isPunct ',') ts) (hne : items ≠ []) :
    itemsFrom ',' 0 (separated first next items) = spread first next items := by
  induction items generalizing first with
  | nil => exact absurd rfl hne
  | cons item items ih =>
    have hi : level (isPunct ',') 0 (indent first item) = some 0 :=
      (h item List.mem_cons_self).indent (blind_isPunct ',')
    have happ (us : List Token) := itemsFrom_append us hi
    rw [Int.natCast_zero] at happ
    cases items with
    | nil =>
      have := happ []
      rw [List.append_nil] at this
      rw [separated, this, itemsFrom, consAll_cons, List.append_nil]
      rfl
    | cons item' items =>
      have hmark (us : List Token) : itemsFrom ',' 0 (mark [] ',' :: us) = [] :: itemsFrom ',' 0 us := by
        rw [itemsFrom]
        rfl
      rw [separated, happ, hmark, ih (fun ts hts => h ts (List.mem_cons_of_mem item hts))
        (List.cons_ne_nil item' items), consAll_cons, List.append_nil]
      rfl

/-- The items of a list are read one by one. -/
theorem items_separated {first next : List Char} {items : List (List Token)}
    (h : ∀ ts ∈ items, ts ≠ [] ∧ Enclosed (isPunct ',') ts) :
    Token.items (separated first next items) = spread first next items := by
  cases items with
  | nil => rfl
  | cons item items =>
    rw [Token.items, itemsFrom_separated (fun ts hts => (h ts hts).2) (List.cons_ne_nil item items)]
    refine List.filter_eq_self.2 fun ts hts => ?_
    obtain ⟨item', hi, lay, rfl⟩ := mem_spread hts
    simpa [indent_eq_nil] using (h item' hi).1

/-- Tokens without a comma of their own are one item. -/
theorem items_of_enclosed (hne : ts ≠ []) (h : Enclosed (isPunct ',') ts) :
    Token.items ts = [ts] := by
  have := itemsFrom_append [] h
  rw [List.append_nil, Int.natCast_zero, itemsFrom, consAll_cons, List.append_nil] at this
  simp [Token.items, this, hne]

/-! ## Names -/

/-- A qualified name that is read as it was written. -/
structure PlainName (schema : Option String) (name : String) : Prop where
  name : Quote.unquote name = name
  schema : ∀ s, schema = some s → s ≠ "" ∧ Quote.unquote s = s

theorem filled_eq_self {o : Option String} (h : o ≠ some "") : filled o = o := by
  cases o with
  | none => rfl
  | some s =>
    have : s ≠ "" := fun hs => h (hs ▸ rfl)
    simp [filled, Option.filter, this]

theorem PlainName.filled_schema {schema : Option String} {name : String}
    (h : PlainName schema name) : filled schema = schema :=
  filled_eq_self fun hs => (h.schema "" hs).1 rfl

theorem PlainName.unquote_parts {schema : Option String} {name : String}
    (h : PlainName schema name) :
    (qualifiedParts schema name).map Quote.unquote = qualifiedParts schema name := by
  unfold qualifiedParts
  rw [h.filled_schema]
  cases hs : schema with
  | none => simp [h.name]
  | some s => simp [h.name, (h.schema s hs).2]

/-- Names with dots between them. -/
inductive Dotted : List String → List Token → Prop
  | name {t : Token} : t.isIdentifier = true → Dotted [t.identifier] [t]
  | dot {t d : Token} {parts : List String} {ts : List Token} : t.isIdentifier = true →
      d.isPunct '.' = true → Dotted parts ts → Dotted (t.identifier :: parts) (t :: d :: ts)

/-- Names with dots are read up to a token that is no dot. -/
theorem nameParts_dotted {what : String} {parts : List String} (h : Dotted parts ts)
    (hr : atPunct '.' rest = false) : nameParts what (ts ++ rest) = .ok (parts, rest) := by
  induction h with
  | name ht =>
    rw [List.singleton_append, nameParts.eq_def]
    cases rest with
    | nil => simp [ht]
    | cons t rest =>
      have : t.isPunct '.' = false := hr
      simp [ht, this]
  | dot ht hd _ ih =>
    rw [List.cons_append, List.cons_append, nameParts.eq_def]
    simp only [ht, hd, if_true, ih]

theorem dotted_dottedTokens {parts : List String} (hne : parts ≠ []) :
    Dotted (parts.map Quote.unquote) (dottedTokens lay parts) := by
  induction parts generalizing lay with
  | nil => exact absurd rfl hne
  | cons n parts ih =>
    rw [List.map_cons, ← identifier_nameToken lay n]
    cases parts with
    | nil => exact .name rfl
    | cons m parts => exact .dot rfl rfl (ih (List.cons_ne_nil m parts))

theorem nameParts_dottedTokens {what : String} {parts : List String} (hne : parts ≠ [])
    (hr : atPunct '.' rest = false) :
    nameParts what (dottedTokens lay parts ++ rest) = .ok (parts.map Quote.unquote, rest) :=
  nameParts_dotted (dotted_dottedTokens hne) hr

theorem lastTwo_qualifiedParts {schema : Option String} {name : String}
    (h : filled schema = schema) : Name.lastTwo (qualifiedParts schema name) = (schema, name) := by
  unfold qualifiedParts
  rw [h]
  cases schema <;> rfl

/-- A plain name is read as it was written. -/
theorem qualifiedName_qualifiedTokens {what : String} {schema : Option String} {name : String}
    (h : PlainName schema name) (hr : atPunct '.' rest = false) :
    qualifiedName what (qualifiedTokens lay schema name ++ rest) = .ok ((schema, name), rest) := by
  have hne : qualifiedParts schema name ≠ [] := by simp [qualifiedParts]
  rw [qualifiedTokens, qualifiedName, nameParts_dottedTokens hne hr, h.unquote_parts]
  simp only [lastTwo_qualifiedParts h.filled_schema]

theorem isEmpty_qualifiedTokens (schema : Option String) (name : String) :
    (qualifiedTokens lay schema name ++ rest).isEmpty = false := by
  unfold qualifiedTokens qualifiedParts
  cases filled schema <;> rfl

/-- No keyword is read from a name. -/
theorem accept_qualifiedTokens {w : String} {words : List String} (schema : Option String)
    (name : String) : accept (w :: words) (qualifiedTokens lay schema name ++ rest) = none := by
  unfold qualifiedTokens qualifiedParts
  cases filled schema <;> rfl

theorem skip_qualifiedTokens {w : String} {words : List String} (schema : Option String)
    (name : String) : skip (w :: words) (qualifiedTokens lay schema name ++ rest) =
      qualifiedTokens lay schema name ++ rest := by
  rw [skip, accept_qualifiedTokens]
  rfl

theorem columnItem_name (lay : List Char) (n : String) :
    columnItem (indent lay [nameToken [] n]) = Quote.unquote n := by
  have := identifier_nameToken lay n
  simpa [indent, columnItem, nameToken, isIdentifier] using this

/-- The names of a list are plain, and there is at least one. -/
structure PlainNames (names : List String) : Prop where
  nonempty : names ≠ []
  unquote : ∀ n ∈ names, Quote.unquote n = n

/-- A list of plain names is read as it was written. -/
theorem columnList_columnListTokens (rest : List Token) {names : List String} (h : PlainNames names) :
    columnList (columnListTokens names ++ rest) = .ok (names, rest) := by
  have hgroup : group (columnListTokens names ++ rest) = .ok (nameListTokens names, rest) := by
    have := group_enclosed rest (o := mark sp '(') (c := mark [] ')') rfl rfl
      (enclosed_nameListTokens names)
    simpa [columnListTokens] using this
  have hitems : (Token.items (nameListTokens names)).map columnItem = names := by
    rw [nameListTokens, items_separated, map_spread (k := Quote.unquote)]
    · rw [List.map_congr_left h.unquote, List.map_id']
    · intro n _ lay
      exact columnItem_name lay n
    · intro ts hts
      obtain ⟨n, -, rfl⟩ := List.mem_map.1 hts
      exact ⟨List.cons_ne_nil _ _, Enclosed.cons rfl rfl rfl Enclosed.nil⟩
  obtain ⟨n, more, rfl⟩ := List.exists_cons_of_ne_nil h.nonempty
  rw [columnList, hgroup]
  simp only [hitems]

end Schemata.Written

/-
  Reading the parts of table definitions without comments.

  * `Strips` relates scanned tokens to what is left of them without their comments; it passes to every
    run of them (`Strips.of_run`), so to statements, to items and to what a reader leaves behind;
  * two answers are `Alike` if both are faults or their values are related.  Each reader answers alike
    on tokens that strip to each other, and its values are the same up to comments in their texts:
    `Strips.columnList`, `Strips.references`, `Strips.tableConstraint`, `Strips.clauses`;
  * `same_foldl_apply`: clauses that are the same up to comments make such columns.
-/
import Schemata.Proofs.Parsed
import Schemata.Proofs.Stripping

namespace Schemata

open Token Cursor Written

/-! ## Answers alike -/

section
variable {ε α β α' β' : Type} {R : α → α' → Prop} {S : β → β' → Prop}

/-- Two answers are alike: related values, or faults. -/
def Alike (R : α → α' → Prop) (x : Except ε α) (y : Except ε α') : Prop :=
  (∃ a a', x = .ok a ∧ y = .ok a' ∧ R a a') ∨ ∃ e e', x = .error e ∧ y = .error e'

/-- Pairs of related values. -/
def Pairs (R : α → α' → Prop) (S : β → β' → Prop) (p : α × β) (q : α' × β') : Prop :=
  R p.1 q.1 ∧ S p.2 q.2

theorem Alike.ok {a : α} {a' : α'} (h : R a a') : Alike (ε := ε) R (.ok a) (.ok a') :=
  .inl ⟨a, a', rfl, rfl, h⟩

theorem Alike.error {e e' : ε} : Alike R (.error e) (.error e') := .inr ⟨e, e', rfl, rfl⟩

theorem Alike.bind {x : Except ε α} {y : Except ε α'} {f : α → Except ε β} {g : α' → Except ε β'}
    (h : Alike R x y) (hf : ∀ a a', R a a' → Alike S (f a) (g a')) :
    Alike S (x.bind f) (y.bind g) := by
  rcases h with ⟨a, a', rfl, rfl, hR⟩ | ⟨e, e', rfl, rfl⟩
  · exact hf a a' hR
  · exact .error

theorem Alike.map {x : Except ε α} {y : Except ε α'} {f : α → β} {g : α' → β'} (h : Alike R x y)
    (hf : ∀ a a', R a a' → S (f a) (g a')) : Alike S (x.map f) (y.map g) := by
  rcases h with ⟨a, a', rfl, rfl, hR⟩ | ⟨e, e', rfl, rfl⟩
  · exact .ok (hf a a' hR)
  · exact .error

theorem Alike.of_ok {x : Except ε α} {y : Except ε α'} {a : α} (h : Alike R x y) (hx : x = .ok a) :
    ∃ a', y = .ok a' ∧ R a a' := by
  rcases h with ⟨b, b', rfl, rfl, hR⟩ | ⟨e, e', rfl, rfl⟩
  · cases hx
    exact ⟨b', rfl, hR⟩
  · cases hx

theorem isEmpty_of_forall₂ {l : List α} {l' : List α'} (h : List.Forall₂ R l l') :
    l'.isEmpty = l.isEmpty := by
  cases h <;> rfl

theorem isSome_of_rel {x : Option α} {y : Option α'} (h : Option.Rel R x y) :
    y.isSome = x.isSome := by
  cases h <;> rfl

end

variable {ts ts' us us' : List Token} {words : List String} {what : String}

/-! ## Tokens -/

namespace Token

/-- Scanned tokens without dollar-quoted literals, with and without their comments. -/
structure Strips (ts ts' : List Token) : Prop where
  rescans : Rescans ts []
  noDollar : ∀ t ∈ ts, t.isDollarQuoted = false
  eq : ts' = ts.map stripped

theorem Strips.of_run (h : Strips ts ts') (hu : us <:+: ts) : Strips us (us.map stripped) :=
  ⟨h.rescans.of_run hu, fun t ht => h.noDollar t (hu.subset ht), rfl⟩

/-- The text that tokens span, without its comments. -/
theorem Strips.source (h : Strips ts ts') : source ts' = Comment.strip (source ts) := by
  obtain ⟨hrescans, hdollar, rfl⟩ := h
  cases ts with
  | nil => rfl
  | cons t ts =>
    rw [List.forall_mem_cons] at hdollar
    have htext := stripFrom_text hrescans.1 hdollar.1
    have hfull := stripFrom_fullText hrescans.2 hdollar.2
    rw [Comment.stripFrom, List.append_nil, List.append_nil] at hfull
    rw [List.append_nil, hfull] at htext
    rw [List.map_cons, Token.source, Token.source, Comment.strip, String.toList_ofList, htext]
    rfl

theorem map_consFirst (t : Token) (pieces : List (List Token)) :
    (Text.consFirst t pieces).map (List.map stripped) =
      Text.consFirst t.stripped (pieces.map (List.map stripped)) := by
  cases pieces <;> rfl

theorem statementsFrom_stripped (d : Nat) (ts : List Token) :
    statementsFrom d (ts.map stripped) = (statementsFrom d ts).map (List.map stripped) := by
  induction ts generalizing d with
  | nil => rfl
  | cons t ts ih =>
    rw [List.map_cons, statementsFrom, statementsFrom, ih, ih, ih, stripped_isPunct,
      stripped_isPunct, stripped_isPunct]
    split_ifs
    · rw [map_consFirst]
    · rw [map_consFirst]
    · rfl
    · rw [map_consFirst]

theorem itemsFrom_stripped (mark : Char) (d : Int) (ts : List Token) :
    itemsFrom mark d (ts.map stripped) = (itemsFrom mark d ts).map (List.map stripped) := by
  induction ts generalizing d with
  | nil => rfl
  | cons t ts ih =>
    rw [List.map_cons, itemsFrom, itemsFrom, ih, ih, ih, stripped_isPunct, stripped_isPunct,
      stripped_isPunct]
    split_ifs
    · rw [map_consFirst]
    · rw [map_consFirst]
    · rfl
    · rw [map_consFirst]

theorem filter_map_stripped (pieces : List (List Token)) :
    (pieces.map (List.map stripped)).filter (! ·.isEmpty) =
      (pieces.filter (! ·.isEmpty)).map (List.map stripped) := by
  rw [List.filter_map]
  refine congrArg _ (List.filter_congr fun us _ => ?_)
  cases us <;> rfl

/-- Pieces of tokens are pieces of what is left of them. -/
theorem Strips.pieces {pieces : List (List Token)} (h : Strips ts ts')
    (hp : ∀ us ∈ pieces, us ≠ [] ∧ us <:+: ts) :
    List.Forall₂ (fun us us' => us ≠ [] ∧ Strips us us') pieces
      (pieces.map (List.map stripped)) := by
  rw [List.forall₂_map_right_iff, List.forall₂_same]
  exact fun us hu => ⟨(hp us hu).1, h.of_run (hp us hu).2⟩

theorem Strips.statements (h : Strips ts ts') :
    List.Forall₂ (fun us us' => us ≠ [] ∧ Strips us us') (statements ts) (statements ts') := by
  rw [Token.statements, Token.statements, h.eq, statementsFrom_stripped, filter_map_stripped]
  exact h.pieces fun us hu => ⟨by simpa using (List.mem_filter.1 hu).2, run_of_mem_statements hu⟩

theorem Strips.items (h : Strips ts ts') :
    List.Forall₂ (fun us us' => us ≠ [] ∧ Strips us us') (items ts) (items ts') := by
  rw [Token.items, Token.items, h.eq, itemsFrom_stripped, filter_map_stripped]
  exact h.pieces fun us hu => run_of_mem_items hu

/-! ## Cursors -/

theorem accept_stripped (words : List String) (ts : List Token) :
    accept words (ts.map stripped) = (accept words ts).map (List.map stripped) := by
  induction words generalizing ts with
  | nil => cases ts <;> rfl
  | cons w words ih =>
    cases ts with
    | nil => rfl
    | cons t ts =>
      rw [List.map_cons, accept, accept, ih, stripped_isKeyword]
      split <;> rfl

/-- Keywords stand before the same tokens. -/
theorem Strips.accept (h : Strips ts ts') (words : List String) :
    (∃ rest rest', accept words ts = some rest ∧ accept words ts' = some rest' ∧
      Strips rest rest') ∨ accept words ts = none ∧ accept words ts' = none := by
  have haccept := accept_stripped words ts
  rw [← h.eq] at haccept
  cases ha : Cursor.accept words ts with
  | none =>
    rw [ha] at haccept
    exact .inr ⟨rfl, haccept⟩
  | some rest =>
    rw [ha] at haccept
    exact .inl ⟨rest, rest.map stripped, rfl, haccept, h.of_run (suffix_of_accept ha).isInfix⟩

theorem Strips.acceptFirst (h : Strips ts ts') (options : List (List String)) :
    (∃ words rest rest', acceptFirst options ts = some (words, rest) ∧
      acceptFirst options ts' = some (words, rest') ∧ Strips rest rest') ∨
      acceptFirst options ts = none ∧ acceptFirst options ts' = none := by
  induction options with
  | nil => exact .inr ⟨rfl, rfl⟩
  | cons words options ih =>
    rw [Schemata.acceptFirst, Schemata.acceptFirst]
    rcases h.accept words with ⟨rest, rest', h₁, h₂, hrest⟩ | ⟨h₁, h₂⟩ <;> simp only [h₁, h₂]
    · exact .inl ⟨words, rest, rest', rfl, rfl, hrest⟩
    · exact ih

theorem Strips.skip (h : Strips ts ts') (words : List String) :
    Strips (skip words ts) (skip words ts') := by
  unfold Cursor.skip
  rcases h.accept words with ⟨rest, rest', h₁, h₂, hrest⟩ | ⟨h₁, h₂⟩ <;> rw [h₁, h₂]
  · exact hrest
  · exact h

theorem Strips.atKeyword (h : Strips ts ts') (words : List String) :
    atKeyword words ts' = atKeyword words ts := by
  rw [h.eq]
  cases ts <;> rfl

theorem Strips.atPunct (h : Strips ts ts') (c : Char) : atPunct c ts' = atPunct c ts := by
  rw [h.eq]
  cases ts <;> rfl

theorem Strips.isEmpty (h : Strips ts ts') : ts'.isEmpty = ts.isEmpty := by
  rw [h.eq]
  cases ts <;> rfl

/-- A reader that does not look at layouts reads the same and leaves the same tokens. -/
theorem Strips.alike {ε α : Type} {reader : List Token → Except ε (α × List Token)}
    (h : Strips ts ts')
    (hmap : reader (ts.map stripped) = (reader ts).map fun x => (x.1, x.2.map stripped))
    (hsuffix : ∀ a rest, reader ts = .ok (a, rest) → rest <:+ ts) :
    Alike (Pairs Eq Strips) (reader ts) (reader ts') := by
  rw [h.eq, hmap]
  cases hread : reader ts with
  | error e => exact .error
  | ok x => exact .ok ⟨rfl, h.of_run (hsuffix x.1 x.2 hread).isInfix⟩

theorem Strips.advance (h : Strips ts ts') :
    Alike (Pairs (fun t t' => t' = t.stripped) Strips) (advance ts) (advance ts') := by
  rw [h.eq]
  cases ts with
  | nil => exact .error
  | cons t ts => exact .ok ⟨rfl, h.of_run (List.suffix_cons t ts).isInfix⟩

theorem Strips.expectName (h : Strips ts ts') (what : String) :
    Alike (Pairs Eq Strips) (expectName what ts) (expectName what ts') := by
  refine h.alike ?_ fun _ _ => suffix_of_expectName
  cases ts with
  | nil => rfl
  | cons t ts =>
    rw [List.map_cons, Cursor.expectName, Cursor.expectName, stripped_isIdentifier]
    split <;> rfl

theorem nameParts_stripped (what : String) (ts : List Token) : nameParts what (ts.map stripped) =
    (nameParts what ts).map fun x => (x.1, x.2.map stripped) := by
  fun_induction nameParts what ts with
  | case1 => rfl
  | case2 t ht dot ts hdot parts rest hr ih =>
    rw [hr] at ih
    rw [List.map_cons, List.map_cons, Cursor.nameParts.eq_def]
    dsimp only
    rw [stripped_isIdentifier, if_pos ht, stripped_isPunct, if_pos hdot, ih]
    rfl
  | case3 t ht dot ts hdot e hr ih =>
    rw [hr] at ih
    rw [List.map_cons, List.map_cons, Cursor.nameParts.eq_def]
    dsimp only
    rw [stripped_isIdentifier, if_pos ht, stripped_isPunct, if_pos hdot, ih]
    rfl
  | case4 t ht dot ts hdot =>
    rw [List.map_cons, List.map_cons, Cursor.nameParts.eq_def]
    dsimp only
    rw [stripped_isIdentifier, if_pos ht, stripped_isPunct, if_neg hdot]
    rfl
  | case5 t ht =>
    rw [List.map_cons, Cursor.nameParts.eq_def]
    exact if_pos ht
  | case6 t ts ht =>
    rw [List.map_cons, Cursor.nameParts.eq_def]
    exact if_neg ht

theorem Strips.nameParts (h : Strips ts ts') (what : String) :
    Alike (Pairs Eq Strips) (nameParts what ts) (nameParts what ts') :=
  h.alike (nameParts_stripped what ts) fun _ _ => suffix_of_nameParts

theorem Strips.qualifiedName (h : Strips ts ts') (what : String) :
    Alike (Pairs Eq Strips) (qualifiedName what ts) (qualifiedName what ts') := by
  unfold Cursor.qualifiedName
  rcases h.nameParts what with ⟨⟨parts, rest⟩, ⟨parts', rest'⟩, h₁, h₂, hparts, hrest⟩ |
      ⟨e, e', h₁, h₂⟩ <;> simp only [h₁, h₂]
  · obtain rfl : parts = parts' := hparts
    exact .ok ⟨rfl, hrest⟩
  · exact .error

/-- What is left of a pair of runs of tokens. -/
def strippedBoth (x : List Token × List Token) : List Token × List Token :=
  (x.1.map stripped, x.2.map stripped)

/-- A reader that does not look at layouts cuts its tokens at the same places. -/
theorem Strips.runs {ε : Type} {reader : List Token → Except ε (List Token × List Token)}
    (h : Strips ts ts') (hmap : reader (ts.map stripped) = (reader ts).map strippedBoth)
    (hruns : ∀ us rest, reader ts = .ok (us, rest) → us <:+: ts ∧ rest <:+ ts) :
    Alike (Pairs Strips Strips) (reader ts) (reader ts') := by
  rw [h.eq, hmap]
  cases hread : reader ts with
  | error e => exact .error
  | ok x =>
    obtain ⟨hfront, hrest⟩ := hruns x.1 x.2 hread
    exact .ok ⟨h.of_run hfront, h.of_run hrest.isInfix⟩

theorem closeGroup_stripped (d : Nat) (ts : List Token) :
    closeGroup d (ts.map stripped) = (closeGroup d ts).map strippedBoth := by
  induction ts generalizing d with
  | nil => rfl
  | cons t ts ih =>
    rw [List.map_cons, closeGroup, closeGroup, stripped_isPunct, stripped_isPunct]
    dsimp only
    rw [ih]
    split
    · rfl
    · rw [Option.map_map, Option.map_map]
      rfl

theorem Strips.group (h : Strips ts ts') : Alike (Pairs Strips Strips) (group ts) (group ts') := by
  refine h.runs ?_ fun _ _ hg => ⟨(of_group hg).1, (of_group hg).2.1⟩
  cases ts with
  | nil => rfl
  | cons t ts =>
    rw [List.map_cons, Cursor.group, Cursor.group, stripped_isPunct, closeGroup_stripped]
    cases closeGroup 0 ts <;> split <;> rfl

theorem Strips.skipElement (h : Strips ts ts') :
    Alike Strips (skipElement ts) (skipElement ts') := by
  have hskip : Cursor.skipElement (ts.map stripped) =
      (Cursor.skipElement ts).map (List.map stripped) := by
    cases ts with
    | nil => rfl
    | cons t ts =>
      rw [List.map_cons, Cursor.skipElement, Cursor.skipElement, stripped_isPunct,
        closeGroup_stripped]
      cases closeGroup 0 ts <;> split <;> rfl
  rw [h.eq, hskip]
  cases hread : Cursor.skipElement ts with
  | error e => exact .error
  | ok rest =>
    obtain ⟨element, helement, -⟩ := of_skipElement hread
    exact .ok (h.of_run ⟨element, [], by rw [List.append_nil, helement]⟩)

theorem spanElementsFrom_stripped {stop : Token → Bool} (hs : Blind stop) (d : Nat)
    (ts : List Token) :
    spanElementsFrom stop d (ts.map stripped) = (spanElementsFrom stop d ts).map strippedBoth := by
  induction ts generalizing d with
  | nil =>
    rw [List.map_nil, spanElementsFrom]
    split <;> rfl
  | cons t ts ih =>
    have hstop : stop t.stripped = stop t := hs _ _ _ _
    rw [List.map_cons, spanElementsFrom, spanElementsFrom, stripped_isPunct, stripped_isPunct, hstop]
    dsimp only
    rw [ih]
    split
    · rfl
    · rw [Option.map_map, Option.map_map]
      rfl

theorem Strips.spanElements {stop : Token → Bool} (h : Strips ts ts') (hs : Blind stop) :
    Alike (Pairs Strips Strips) (spanElements stop ts) (spanElements stop ts') := by
  refine h.runs ?_ fun us rest hspan => ?_
  · rw [Cursor.spanElements, Cursor.spanElements, spanElementsFrom_stripped hs]
    cases spanElementsFrom stop 0 ts <;> rfl
  · obtain rfl := eq_append_of_spanElements hspan
    exact ⟨(List.prefix_append us rest).isInfix, List.suffix_append us rest⟩

end Token

/-! ## Column lists and references -/

/-- The same name, or the text of an expression without its comments. -/
def SameItem (s s' : String) : Prop := s' = s ∨ PlainText s ∧ s' = Comment.strip s

/-- The same reference up to comments in its columns. -/
structure Reference.Same (r r' : Reference) : Prop where
  schema : r'.schema = r.schema
  table : r'.table = r.table
  columns : List.Forall₂ SameItem r.columns r'.columns
  onDelete : r'.onDelete = r.onDelete
  onUpdate : r'.onUpdate = r.onUpdate

namespace Token

theorem Strips.columnItem (h : Strips ts ts') (hne : ts ≠ []) :
    SameItem (columnItem ts) (columnItem ts') := by
  have hsource : SameItem (Token.source ts) (Token.source ts') :=
    .inr ⟨(plainText_source h.rescans hne).1, h.source⟩
  obtain rfl := h.eq
  match ts, hne with
  | [t], _ =>
    rw [List.map_cons, List.map_nil, Schemata.columnItem, Schemata.columnItem,
      stripped_isIdentifier]
    split
    · exact .inl rfl
    · exact hsource
  | t :: u :: ts, _ => exact hsource

theorem Strips.columnList (h : Strips ts ts') :
    Alike (Pairs (List.Forall₂ SameItem) Strips) (columnList ts) (columnList ts') := by
  unfold Schemata.columnList
  rcases h.group with ⟨⟨inside, rest⟩, ⟨inside', rest'⟩, h₁, h₂, hinside, hrest⟩ |
      ⟨e, e', h₁, h₂⟩ <;> simp only [h₁, h₂]
  · have hcolumns : List.Forall₂ SameItem ((Token.items inside).map Schemata.columnItem)
        ((Token.items inside').map Schemata.columnItem) := by
      rw [List.forall₂_map_left_iff, List.forall₂_map_right_iff]
      exact hinside.items.imp fun _ _ hu => hu.2.columnItem hu.1
    generalize (Token.items inside).map Schemata.columnItem = columns at hcolumns ⊢
    generalize (Token.items inside').map Schemata.columnItem = columns' at hcolumns ⊢
    cases hcolumns with
    | nil => exact .error
    | cons hc hmore => exact .ok ⟨.cons hc hmore, hrest⟩
  · exact .error

theorem Strips.referentialAction (h : Strips ts ts') :
    Alike (Pairs Eq Strips) (referentialAction ts) (referentialAction ts') := by
  unfold Schemata.referentialAction
  rcases h.acceptFirst referentialActions with ⟨words, rest, rest', h₁, h₂, hrest⟩ | ⟨h₁, h₂⟩ <;>
    simp only [h₁, h₂]
  · rw [hrest.atPunct]
    split
    · rcases hrest.group with ⟨x, x', h₃, h₄, -, hmore⟩ | ⟨e, e', h₃, h₄⟩ <;> simp only [h₃, h₄]
      · exact .ok ⟨rfl, hmore⟩
      · exact .error
    · exact .ok ⟨rfl, hrest⟩
  · exact .error

/-- One option after the target, and the tokens after it, if there is one. -/
theorem Strips.referenceOption {r r' : Reference} (h : Strips ts ts') (hr : r.Same r') :
    Alike (Option.Rel (Pairs Reference.Same Strips)) (referenceOption r ts)
      (referenceOption r' ts') := by
  unfold Schemata.referenceOption
  rcases h.accept ["ON", "DELETE"] with ⟨rest, rest', h₁, h₂, hrest⟩ | ⟨h₁, h₂⟩ <;>
    simp only [h₁, h₂]
  · refine hrest.referentialAction.map fun x x' hx => .some ⟨?_, hx.2⟩
    exact ⟨hr.schema, hr.table, hr.columns, congrArg some hx.1.symm, hr.onUpdate⟩
  rcases h.accept ["ON", "UPDATE"] with ⟨rest, rest', h₁, h₂, hrest⟩ | ⟨h₁, h₂⟩ <;>
    simp only [h₁, h₂]
  · refine hrest.referentialAction.map fun x x' hx => .some ⟨?_, hx.2⟩
    exact ⟨hr.schema, hr.table, hr.columns, hr.onDelete, congrArg some hx.1.symm⟩
  rcases h.accept ["MATCH"] with ⟨rest, rest', h₁, h₂, hrest⟩ | ⟨h₁, h₂⟩ <;> simp only [h₁, h₂]
  · exact hrest.advance.map fun x x' hx => .some ⟨hr, hx.2⟩
  rcases h.acceptFirst [["DEFERRABLE"], ["NOT", "DEFERRABLE"]] with
    ⟨words, rest, rest', h₁, h₂, hrest⟩ | ⟨h₁, h₂⟩ <;> simp only [h₁, h₂]
  · exact .ok (.some ⟨hr, hrest⟩)
  rcases h.accept ["INITIALLY"] with ⟨rest, rest', h₁, h₂, hrest⟩ | ⟨h₁, h₂⟩ <;>
    simp only [h₁, h₂]
  · exact hrest.advance.map fun x x' hx => .some ⟨hr, hx.2⟩
  · exact .ok .none

/-- One option after the other. -/
theorem referenceOptions_eq (r : Reference) (ts : List Token) : referenceOptions r ts =
    (referenceOption r ts).bind fun
      | none => .ok (r, ts)
      | some (r', rest) => referenceOptions r' rest := by
  rw [referenceOptions]
  split
  · next he => rw [he]; rfl
  · next he => rw [he]; rfl
  · next he => rw [he]; rfl

theorem Strips.referenceOptions {r r' : Reference} (h : Strips ts ts') (hr : r.Same r') :
    Alike (Pairs Reference.Same Strips) (referenceOptions r ts) (referenceOptions r' ts') := by
  fun_induction Schemata.referenceOptions r ts generalizing r' ts' with
  | case1 r ts e hone =>
    have hoption := h.referenceOption hr
    rw [hone] at hoption
    rcases hoption with ⟨a, a', ha, -⟩ | ⟨e, e', -, he⟩
    · cases ha
    · rw [referenceOptions_eq r', he]
      exact .error
  | case2 r ts hone =>
    obtain ⟨a', ha, hrel⟩ := (h.referenceOption hr).of_ok hone
    cases hrel
    rw [referenceOptions_eq r', ha]
    exact .ok ⟨hr, h⟩
  | case3 r ts r₁ rest₁ hone ih =>
    obtain ⟨a', ha, hrel⟩ := (h.referenceOption hr).of_ok hone
    cases hrel with
    | some hx =>
      rw [referenceOptions_eq r', ha]
      exact ih hx.2 hx.1

theorem Strips.references (h : Strips ts ts') :
    Alike (Pairs Reference.Same Strips) (references ts) (references ts') := by
  unfold Schemata.references
  rcases h.qualifiedName "referenced table" with
    ⟨⟨⟨schema, table⟩, rest⟩, ⟨⟨schema', table'⟩, rest'⟩, h₁, h₂, hname, hrest⟩ |
      ⟨e, e', h₁, h₂⟩ <;> simp only [h₁, h₂]
  · cases hname
    rw [hrest.atPunct]
    split
    · rcases hrest.columnList with ⟨⟨columns, more⟩, ⟨columns', more'⟩, h₃, h₄, hcolumns, hmore⟩ |
        ⟨e, e', h₃, h₄⟩ <;> simp only [h₃, h₄]
      · exact hmore.referenceOptions ⟨rfl, rfl, hcolumns, rfl, rfl⟩
      · exact .error
    · exact hrest.referenceOptions ⟨rfl, rfl, .nil, rfl, rfl⟩
  · exact .error

end Token

/-! ## Constraints -/

/-- The same constraint up to comments in its columns and its condition. -/
structure Constraint.Same (c c' : Constraint) : Prop where
  kind : c'.kind = c.kind
  name : c'.name = c.name
  columns : List.Forall₂ SameItem c.columns c'.columns
  reference : Option.Rel Reference.Same c.reference c'.reference
  expression : c'.expression = c.expression.map Comment.strip

namespace Token

theorem Strips.constraintName (h : Strips ts ts') :
    Alike (Pairs Eq Strips) (constraintName ts) (constraintName ts') := by
  unfold Schemata.constraintName
  rcases h.accept ["CONSTRAINT"] with ⟨rest, rest', h₁, h₂, hrest⟩ | ⟨h₁, h₂⟩ <;>
    simp only [h₁, h₂]
  · exact (hrest.expectName "constraint name").map fun x x' hx => ⟨congrArg some hx.1, hx.2⟩
  · exact .ok ⟨rfl, h⟩

theorem Strips.constraintAfterName (h : Strips ts ts') (name : Option String) :
    Alike (Option.Rel Constraint.Same) (constraintAfterName name ts)
      (constraintAfterName name ts') := by
  unfold Schemata.constraintAfterName
  rcases h.accept ["PRIMARY", "KEY"] with ⟨rest, rest', h₁, h₂, hrest⟩ | ⟨h₁, h₂⟩ <;>
    simp only [h₁, h₂]
  · exact hrest.columnList.bind fun x x' hx => .ok (.some ⟨rfl, rfl, hx.1, .none, rfl⟩)
  rcases h.accept ["UNIQUE"] with ⟨rest, rest', h₁, h₂, hrest⟩ | ⟨h₁, h₂⟩ <;> simp only [h₁, h₂]
  · rcases hrest.acceptFirst [["NULLS", "NOT", "DISTINCT"], ["NULLS", "DISTINCT"]] with
      ⟨words, more, more', h₃, h₄, hmore⟩ | ⟨h₃, h₄⟩ <;> simp only [h₃, h₄]
    · exact hmore.columnList.bind fun x x' hx => .ok (.some ⟨rfl, rfl, hx.1, .none, rfl⟩)
    · exact hrest.columnList.bind fun x x' hx => .ok (.some ⟨rfl, rfl, hx.1, .none, rfl⟩)
  rcases h.accept ["FOREIGN", "KEY"] with ⟨rest, rest', h₁, h₂, hrest⟩ | ⟨h₁, h₂⟩ <;>
    simp only [h₁, h₂]
  · refine hrest.columnList.bind ?_
    rintro ⟨columns, more⟩ ⟨columns', more'⟩ ⟨hcolumns, hmore⟩
    dsimp only at hcolumns hmore ⊢
    rcases hmore.accept ["REFERENCES"] with ⟨rest, rest', h₃, h₄, hrest⟩ | ⟨h₃, h₄⟩ <;>
      simp only [h₃, h₄]
    · refine hrest.references.bind ?_
      rintro ⟨target, last⟩ ⟨target', last'⟩ ⟨htarget, -⟩
      dsimp only at htarget ⊢
      rw [isEmpty_of_forall₂ htarget.columns, htarget.columns.length_eq, hcolumns.length_eq]
      split
      · exact .error
      split
      · exact .error
      · exact .ok (.some ⟨rfl, rfl, hcolumns, .some htarget, rfl⟩)
    · exact .error
  rcases h.accept ["CHECK"] with ⟨rest, rest', h₁, h₂, hrest⟩ | ⟨h₁, h₂⟩ <;> simp only [h₁, h₂]
  · exact hrest.group.bind fun x x' hx =>
      .ok (.some ⟨rfl, rfl, .nil, .none, congrArg some hx.1.source⟩)
  · exact .ok .none

theorem Strips.tableConstraint (h : Strips ts ts') :
    Alike (Option.Rel Constraint.Same) (tableConstraint ts) (tableConstraint ts') := by
  refine h.constraintName.bind ?_
  rintro ⟨name, rest⟩ ⟨name', rest'⟩ ⟨hname, hrest⟩
  cases hname
  exact hrest.constraintAfterName name

end Token

/-! ## Clauses -/

/-- The same clause up to comments in it. -/
inductive Clause.Same : Clause → Clause → Prop
  | notNull : Same .notNull .notNull
  | primaryKey : Same .primaryKey .primaryKey
  | unique : Same .unique .unique
  | references {r r' : Reference} (h : r.Same r') : Same (.references r) (.references r')
  | check (s : String) : Same (.check s) (.check (Comment.strip s))
  | default (s : String) : Same (.default s) (.default (Comment.strip s))
  | ignored : Same .ignored .ignored

/-- Clauses with the same names in front of them. -/
structure ClauseList.Same (l l' : ClauseList) : Prop where
  clauses : List.Forall₂ (Pairs Eq Clause.Same) l.clauses l'.clauses
  fault : l'.fault.isSome = l.fault.isSome

namespace Token

theorem Strips.defaultExpression (h : Strips ts ts') :
    Alike (Pairs (fun s s' => s' = Comment.strip s) Strips) (defaultExpression ts)
      (defaultExpression ts') := by
  unfold Schemata.defaultExpression
  rcases h.skipElement with ⟨rest, rest', h₁, h₂, hrest⟩ | ⟨e, e', h₁, h₂⟩ <;> simp only [h₁, h₂]
  · have hblind : Blind (isKeywordOf clauseKeywords) := fun _ _ _ _ => rfl
    rcases hrest.spanElements hblind with
      ⟨⟨front, after⟩, ⟨front', after'⟩, h₃, h₄, -, hafter⟩ | ⟨e, e', h₃, h₄⟩ <;>
      simp only [h₃, h₄]
    · have htake := h.of_run (List.take_prefix (ts.length - after.length) ts).isInfix
      rw [List.map_take, ← h.eq] at htake
      dsimp only at hafter
      have hlength : ts'.length - after'.length = ts.length - after.length := by
        rw [h.eq, hafter.eq, List.length_map, List.length_map]
      rw [hlength]
      exact .ok ⟨htake.source, hafter⟩
    · exact .error
  · exact .error

theorem Strips.generated (h : Strips ts ts') :
    Alike Strips (generated ts) (generated ts') := by
  unfold Schemata.generated
  rcases h.acceptFirst [["ALWAYS"], ["BY", "DEFAULT"]] with
    ⟨words, rest, rest', h₁, h₂, hrest⟩ | ⟨h₁, h₂⟩ <;> simp only [h₁, h₂]
  · rcases hrest.accept ["AS"] with ⟨more, more', h₃, h₄, hmore⟩ | ⟨h₃, h₄⟩ <;> simp only [h₃, h₄]
    · rcases hmore.accept ["IDENTITY"] with ⟨last, last', h₅, h₆, hlast⟩ | ⟨h₅, h₆⟩ <;>
        simp only [h₅, h₆]
      · rw [hlast.atPunct]
        split
        · exact hlast.group.map fun x x' hx => hx.2
        · exact .ok hlast
      · refine hmore.group.map fun x x' hx => ?_
        rcases hx.2.acceptFirst [["STORED"], ["VIRTUAL"]] with
          ⟨words, last, last', h₇, h₈, hlast⟩ | ⟨h₇, h₈⟩ <;> simp only [h₇, h₈]
        · exact hlast
        · exact hx.2
    · exact .error
  · exact .error

theorem Strips.clause (h : Strips ts ts') :
    Alike (Pairs Clause.Same Strips) (clause ts) (clause ts') := by
  unfold Schemata.clause
  rcases h.accept ["NOT", "NULL"] with ⟨rest, rest', h₁, h₂, hrest⟩ | ⟨h₁, h₂⟩ <;>
    simp only [h₁, h₂]
  · exact .ok ⟨.notNull, hrest⟩
  rcases h.accept ["NULL"] with ⟨rest, rest', h₁, h₂, hrest⟩ | ⟨h₁, h₂⟩ <;> simp only [h₁, h₂]
  · exact .ok ⟨.ignored, hrest⟩
  rcases h.accept ["PRIMARY", "KEY"] with ⟨rest, rest', h₁, h₂, hrest⟩ | ⟨h₁, h₂⟩ <;>
    simp only [h₁, h₂]
  · exact .ok ⟨.primaryKey, hrest⟩
  rcases h.accept ["UNIQUE"] with ⟨rest, rest', h₁, h₂, hrest⟩ | ⟨h₁, h₂⟩ <;> simp only [h₁, h₂]
  · exact .ok ⟨.unique, hrest⟩
  rcases h.accept ["REFERENCES"] with ⟨rest, rest', h₁, h₂, hrest⟩ | ⟨h₁, h₂⟩ <;>
    simp only [h₁, h₂]
  · exact hrest.references.map fun x x' hx => ⟨.references hx.1, hx.2⟩
  rcases h.accept ["CHECK"] with ⟨rest, rest', h₁, h₂, hrest⟩ | ⟨h₁, h₂⟩ <;> simp only [h₁, h₂]
  · refine hrest.group.map fun x x' hx => ⟨?_, hx.2⟩
    show Clause.Same (.check _) (.check _)
    rw [hx.1.source]
    exact .check _
  rcases h.accept ["DEFAULT"] with ⟨rest, rest', h₁, h₂, hrest⟩ | ⟨h₁, h₂⟩ <;> simp only [h₁, h₂]
  · refine hrest.defaultExpression.map fun x x' hx => ⟨?_, hx.2⟩
    show Clause.Same (.default _) (.default _)
    rw [hx.1]
    exact .default _
  rcases h.accept ["COLLATE"] with ⟨rest, rest', h₁, h₂, hrest⟩ | ⟨h₁, h₂⟩ <;> simp only [h₁, h₂]
  · exact (hrest.nameParts "collation").map fun x x' hx => ⟨.ignored, hx.2⟩
  rcases h.accept ["GENERATED"] with ⟨rest, rest', h₁, h₂, hrest⟩ | ⟨h₁, h₂⟩ <;>
    simp only [h₁, h₂]
  · exact hrest.generated.map fun x x' hx => ⟨.ignored, hx⟩
  · exact h.skipElement.map fun x x' hx => ⟨.ignored, hx⟩

theorem Strips.clausesFrom {fuel : Nat} {name : Option String} (h : Strips ts ts') :
    (clausesFrom fuel name ts).Same (clausesFrom fuel name ts') := by
  induction fuel generalizing name ts ts' with
  | zero => exact ⟨.nil, rfl⟩
  | succ fuel ih =>
    rw [Schemata.clausesFrom, Schemata.clausesFrom, h.isEmpty]
    split
    · exact ⟨.nil, rfl⟩
    rcases h.accept ["CONSTRAINT"] with ⟨rest, rest', h₁, h₂, hrest⟩ | ⟨h₁, h₂⟩ <;>
      simp only [h₁, h₂]
    · rcases hrest.expectName "constraint name" with
        ⟨⟨n, more⟩, ⟨n', more'⟩, h₃, h₄, hname, hmore⟩ | ⟨e, e', h₃, h₄⟩ <;> simp only [h₃, h₄]
      · cases hname
        exact ih hmore
      · exact ⟨.nil, rfl⟩
    · rcases h.clause with ⟨⟨c, rest⟩, ⟨c', rest'⟩, h₃, h₄, hc, hrest⟩ | ⟨e, e', h₃, h₄⟩ <;>
        simp only [h₃, h₄]
      · obtain ⟨hclauses, hfault⟩ := ih hrest
        exact ⟨.cons ⟨rfl, hc⟩ hclauses, hfault⟩
      · exact ⟨.nil, rfl⟩

theorem Strips.clauses (h : Strips ts ts') : (clauses ts).Same (clauses ts') := by
  rw [Schemata.clauses, Schemata.clauses, h.eq, List.length_map, ← h.eq]
  exact h.clausesFrom

end Token

/-! ## Columns -/

/-- The same text of a column of another table up to comments in that column. -/
def SameTarget (s s' : String) : Prop :=
  ∃ table x x', s = table ++ "." ++ x ∧ s' = table ++ "." ++ x' ∧ SameItem x x'

theorem Reference.Same.columnText? {r r' : Reference} (h : r.Same r') :
    Option.Rel SameTarget r.columnText? r'.columnText? := by
  have hcolumns := h.columns
  rw [Reference.columnText?, Reference.columnText?, h.schema, h.table]
  generalize r.columns = columns at hcolumns ⊢
  generalize r'.columns = columns' at hcolumns ⊢
  cases hcolumns with
  | nil => exact .none
  | cons hx hmore =>
    cases hmore with
    | nil => exact .some ⟨_, _, _, rfl, rfl, hx⟩
    | cons => exact .none

theorem Reference.Same.hasActions {r r' : Reference} (h : r.Same r') :
    r'.hasActions = r.hasActions := by
  rw [Reference.hasActions, Reference.hasActions, h.onDelete, h.onUpdate]

/-- The same column up to comments in its texts. -/
structure ColumnDefinition.Same (d d' : ColumnDefinition) : Prop where
  name : d'.name = d.name
  typeText : d'.typeText = Comment.strip d.typeText
  typeName : d'.typeName = d.typeName
  notNull : d'.notNull = d.notNull
  primaryKey : d'.primaryKey = d.primaryKey
  unique : d'.unique = d.unique
  defaultText : d'.defaultText = d.defaultText.map Comment.strip
  foreignKey : Option.Rel SameTarget d.foreignKey d'.foreignKey

/-- The same column under construction up to comments. -/
structure ColumnDraft.Same (d d' : ColumnDraft) : Prop where
  definition : d.definition.Same d'.definition
  constraints : List.Forall₂ Constraint.Same d.constraints d'.constraints

/-- Drafts with one more constraint each. -/
theorem ColumnDraft.Same.add {d d' : ColumnDraft} {c c' : Constraint} (h : d.Same d')
    (hc : c.Same c') : ColumnDraft.Same { d with constraints := d.constraints ++ [c] }
      { d' with constraints := d'.constraints ++ [c'] } :=
  ⟨h.definition, List.rel_append h.constraints (.cons hc .nil)⟩

theorem ColumnDraft.Same.addNamed {d d' : ColumnDraft} (h : d.Same d') (kind : ConstraintKind)
    (name : Option String) : (d.addNamed kind name).Same (d'.addNamed kind name) := by
  unfold ColumnDraft.addNamed
  split
  · exact h.add ⟨rfl, rfl, .cons (.inl h.definition.name) .nil, .none, rfl⟩
  · exact h

theorem ColumnDraft.Same.apply {d d' : ColumnDraft} {x x' : Option String × Clause}
    (h : d.Same d') (hx : Pairs Eq Clause.Same x x') : (d.apply x).Same (d'.apply x') := by
  obtain ⟨name, c⟩ := x
  obtain ⟨name', c'⟩ := x'
  obtain ⟨hname, hc⟩ := hx
  dsimp only at hname hc
  subst hname
  have hd := h.definition
  cases hc with
  | notNull => exact ⟨{ hd with notNull := rfl }, h.constraints⟩
  | primaryKey =>
    have hkey : ColumnDraft.Same
        { d with definition := { d.definition with primaryKey := true } }
        { d' with definition := { d'.definition with primaryKey := true } } :=
      ⟨{ hd with primaryKey := rfl }, h.constraints⟩
    exact hkey.addNamed .primaryKey name
  | unique =>
    have hunique : ColumnDraft.Same
        { d with definition := { d.definition with unique := true } }
        { d' with definition := { d'.definition with unique := true } } :=
      ⟨{ hd with unique := rfl }, h.constraints⟩
    exact hunique.addNamed .unique name
  | @references r r' hr =>
    have htarget : ColumnDraft.Same
        { d with definition := { d.definition with foreignKey := r.columnText? } }
        { d' with definition := { d'.definition with foreignKey := r'.columnText? } } :=
      ⟨{ hd with foreignKey := hr.columnText? }, h.constraints⟩
    have hsome : r'.columnText?.isSome = r.columnText?.isSome := isSome_of_rel hr.columnText?
    simp only [ColumnDraft.apply, hsome, hr.hasActions]
    split
    · exact htarget.add ⟨rfl, rfl, .cons (.inl hd.name) .nil, .some hr, rfl⟩
    · exact htarget
  | check s => exact h.add ⟨rfl, rfl, .nil, .none, rfl⟩
  | default s => exact ⟨{ hd with defaultText := rfl }, h.constraints⟩
  | ignored => exact h

theorem same_foldl_apply {l l' : List (Option String × Clause)} {d d' : ColumnDraft}
    (hl : List.Forall₂ (Pairs Eq Clause.Same) l l') (h : d.Same d') :
    (l.foldl ColumnDraft.apply d).Same (l'.foldl ColumnDraft.apply d') := by
  induction hl generalizing d d' with
  | nil => exact h
  | cons hx _ ih => exact ih (h.apply hx)

end Schemata

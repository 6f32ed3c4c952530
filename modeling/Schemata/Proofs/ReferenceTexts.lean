/-
  Texts that name columns of other tables.

  * `columnText` writes names with dots between them and quotes none of them, while `column?` cuts at
    every dot outside quotes and takes blanks and quotes off;
  * a name is `Verbatim` if it has no blank at an end and no quotes around it, and a dot only behind an
    odd number of quotes; it is `Paired` if its quotes are even in number, so that the dot behind it
    is outside of them;
  * `parts_eq_iff`: reading names with dots between them gives them back just if all are verbatim and
    all but the last are paired.  Reading never adds a character, so there is no other way to come to
    texts of the same length;
  * `column?_columnText_iff`: so for the text of a column, whose names are then `Readable`;
  * `CleanName.of_word`, `Name.Readable.of_clean`: identifiers without quotes are readable.
-/
import Schemata.Proofs.Canonical

namespace Schemata

namespace Text

variable {cs : List Char} {q : Char}

theorem trimStart_sublist (cs : List Char) : (trimStart cs).Sublist cs :=
  List.dropWhile_sublist _

theorem trimEnd_sublist (cs : List Char) : (trimEnd cs).Sublist cs := by
  simpa [trimEnd] using (List.dropWhile_sublist (p := isBlank) (l := cs.reverse)).reverse

theorem trim_sublist (cs : List Char) : (trim cs).Sublist cs :=
  (trimEnd_sublist _).trans (trimStart_sublist cs)

theorem length_undouble_le (q : Char) (cs : List Char) : (undouble q cs).length ≤ cs.length := by
  fun_induction undouble q cs with
  | case1 => simp
  | case2 => simp
  | case3 c d cs _ ih => simp only [List.length_cons]; omega
  | case4 c d cs _ ih => simp only [List.length_cons] at ih ⊢; omega

end Text

namespace Quote

/-- Taking quotes and blanks off adds no character. -/
theorem length_unquoteList_le (cs : List Char) : (unquoteList cs).length ≤ cs.length := by
  have htrim := (Text.trim_sublist cs).length_le
  rw [unquoteList]
  split
  · have hdouble := Text.length_undouble_le '"' (Text.trim cs).tail.dropLast
    simp only [List.length_dropLast, List.length_tail] at hdouble
    omega
  · exact htrim

/-- Nothing was taken off a text of the same length. -/
theorem of_length_unquoteList (h : (unquoteList cs).length = cs.length) :
    Text.trim cs = cs ∧ isQuotedList cs = false := by
  have htrim := (Text.trim_sublist cs).length_le
  by_cases hq : isQuotedList (Text.trim cs) = true
  · have hdouble := Text.length_undouble_le '"' (Text.trim cs).tail.dropLast
    have hlong : 2 ≤ (Text.trim cs).length := by
      simp only [isQuotedList, Bool.and_eq_true, decide_eq_true_eq] at hq
      exact hq.1.1
    rw [unquoteList, if_pos hq] at h
    simp only [List.length_dropLast, List.length_tail] at hdouble
    omega
  · rw [unquoteList, if_neg hq] at h
    have hself : Text.trim cs = cs := (Text.trim_sublist cs).eq_of_length h
    rw [hself] at hq
    exact ⟨hself, by simpa using hq⟩

end Quote

namespace Name

variable {cs p : List Char} {inside : Bool} {ps names : List (List Char)}

/-! ## Cutting at dots -/

/-- Whether the place behind a text is within quotes, if the text starts within quotes or not. -/
def insideAfter (inside : Bool) (cs : List Char) : Bool := inside ^^ cs.count '"' % 2 == 1

@[simp] theorem insideAfter_nil (inside : Bool) : insideAfter inside [] = inside := by
  simp [insideAfter]

theorem insideAfter_cons (inside : Bool) (c : Char) (cs : List Char) :
    insideAfter inside (c :: cs) = insideAfter (if c = '"' then !inside else inside) cs := by
  by_cases hc : c = '"'
  · subst hc
    rcases Nat.mod_two_eq_zero_or_one (cs.count '"') with h | h <;>
      simp [insideAfter, h, Nat.add_mod]
  · simp [insideAfter, List.count_cons_of_ne hc, hc]

theorem pieces_cons_dot (cs : List Char) : pieces false ('.' :: cs) = [] :: pieces false cs := by
  simp [pieces]

theorem pieces_cons {c : Char} (h : ¬(c = '.' ∧ inside = false)) (cs : List Char) :
    pieces inside (c :: cs) =
      Text.consFirst c (pieces (if c = '"' then !inside else inside) cs) := by
  rw [pieces, if_neg (by simpa using h)]

theorem pieces_ne_nil (inside : Bool) (cs : List Char) : pieces inside cs ≠ [] := by
  cases cs with
  | nil => simp [pieces]
  | cons c cs =>
    rw [pieces]
    split
    · simp
    · cases pieces (if c = '"' then !inside else inside) cs <;> simp [Text.consFirst]

/-- A text is in one piece just if its dots are within quotes. -/
theorem pieces_eq_singleton_iff : pieces inside cs = [cs] ↔
    ∀ before after, cs = before ++ '.' :: after → insideAfter inside before = true := by
  induction cs generalizing inside with
  | nil => simp [pieces]
  | cons c cs ih =>
    by_cases hdot : c = '.' ∧ inside = false
    · obtain ⟨rfl, rfl⟩ := hdot
      refine iff_of_false (by simp [pieces_cons_dot]) fun h => ?_
      simpa using h [] cs rfl
    · rw [pieces_cons hdot]
      trans pieces (if c = '"' then !inside else inside) cs = [cs]
      · cases hrest : pieces (if c = '"' then !inside else inside) cs with
        | nil => exact absurd hrest (pieces_ne_nil _ _)
        | cons q qs => simp
      · rw [ih]
        constructor
        · rintro h (_ | ⟨d, before⟩) after heq
          · simp only [List.nil_append, List.cons.injEq] at heq
            simpa [heq.1] using hdot
          · obtain ⟨rfl, hcs⟩ := List.cons.inj heq
            rw [insideAfter_cons]
            exact h before after hcs
        · intro h before after heq
          rw [← insideAfter_cons]
          exact h (c :: before) after (by rw [heq]; rfl)

/-- What is in one piece and ends outside quotes is the first piece before a dot. -/
theorem pieces_append_dot (h : pieces inside p = [p]) (hend : insideAfter inside p = false)
    (cs : List Char) : pieces inside (p ++ '.' :: cs) = p :: pieces false cs := by
  induction p generalizing inside with
  | nil =>
    rw [insideAfter_nil] at hend
    rw [hend, List.nil_append, pieces_cons_dot]
  | cons c p ih =>
    have hdot : ¬(c = '.' ∧ inside = false) := by
      rintro ⟨rfl, rfl⟩
      simp [pieces_cons_dot] at h
    rw [pieces_cons hdot] at h
    rw [insideAfter_cons] at hend
    have hone : pieces (if c = '"' then !inside else inside) p = [p] := by
      cases hrest : pieces (if c = '"' then !inside else inside) p with
      | nil => exact absurd hrest (pieces_ne_nil _ _)
      | cons q qs => simpa [hrest] using h
    rw [List.cons_append, pieces_cons hdot, ih hone hend, Text.consFirst_cons]

/-- The first of several pieces stands before a dot outside quotes. -/
theorem exists_of_pieces_eq_cons {q : List Char} (h : pieces inside cs = p :: q :: ps) :
    ∃ rest, cs = p ++ '.' :: rest ∧ pieces inside p = [p] ∧ insideAfter inside p = false ∧
      pieces false rest = q :: ps := by
  induction cs generalizing inside p with
  | nil => simp [pieces] at h
  | cons c cs ih =>
    by_cases hdot : c = '.' ∧ inside = false
    · obtain ⟨rfl, rfl⟩ := hdot
      rw [pieces_cons_dot] at h
      obtain ⟨rfl, hrest⟩ := List.cons.inj h
      exact ⟨cs, rfl, rfl, rfl, hrest⟩
    · rw [pieces_cons hdot] at h
      cases hrest : pieces (if c = '"' then !inside else inside) cs with
      | nil => exact absurd hrest (pieces_ne_nil _ _)
      | cons p' ps' =>
        rw [hrest, Text.consFirst_cons] at h
        obtain ⟨rfl, rfl⟩ := List.cons.inj h
        obtain ⟨rest, rfl, hone, hend, htail⟩ := ih hrest
        refine ⟨rest, rfl, ?_, ?_, htail⟩
        · rw [pieces_cons hdot, hone, Text.consFirst_cons]
        · rw [insideAfter_cons, hend]

/-- Names with dots between them are cut into these names just if each is in one piece and all but the
    last end outside quotes. -/
theorem pieces_intercalate_iff (h : names ≠ []) :
    pieces false (['.'].intercalate names) = names ↔
      (∀ n ∈ names, pieces false n = [n]) ∧ ∀ n ∈ names.dropLast, insideAfter false n = false := by
  induction names with
  | nil => exact absurd rfl h
  | cons n rest ih =>
    cases rest with
    | nil => simp
    | cons m rest =>
      rw [List.intercalate_cons_cons, List.dropLast_cons_cons]
      simp only [List.singleton_append, List.append_assoc]
      rw [List.forall_mem_cons, List.forall_mem_cons (a := n)]
      constructor
      · intro hpieces
        obtain ⟨tail, heq, hone, hend, htail⟩ := exists_of_pieces_eq_cons hpieces
        have htext := List.append_cancel_left heq
        rw [← (List.cons.inj htext).2, ih (List.cons_ne_nil _ _)] at htail
        exact ⟨⟨hone, htail.1⟩, hend, htail.2⟩
      · rintro ⟨⟨hone, hrest⟩, hend, hends⟩
        rw [pieces_append_dot hone hend, (ih (List.cons_ne_nil _ _)).2 ⟨hrest, hends⟩]

/-! ## Reading pieces -/

/-- The names of pieces; blank ones are left out. -/
def partsOf (ps : List (List Char)) : List (List Char) :=
  (ps.map Text.trim |>.filter (! ·.isEmpty)).map Quote.unquoteList

/-- The characters of pieces, and a dot for each. -/
def weight : List (List Char) → Nat
  | [] => 0
  | p :: ps => p.length + 1 + weight ps

@[simp] theorem weight_nil : weight [] = 0 := rfl

@[simp] theorem weight_cons (p : List Char) (ps : List (List Char)) :
    weight (p :: ps) = p.length + 1 + weight ps := rfl

@[simp] theorem weight_append (ps qs : List (List Char)) :
    weight (ps ++ qs) = weight ps + weight qs := by
  induction ps with
  | nil => simp
  | cons p ps ih => simp [ih, Nat.add_assoc]

theorem weight_pieces (inside : Bool) (cs : List Char) :
    weight (pieces inside cs) = cs.length + 1 := by
  induction cs generalizing inside with
  | nil => rfl
  | cons c cs ih =>
    rw [pieces]
    split
    · rw [weight_cons, ih, List.length_nil, List.length_cons]; omega
    · have hrest := ih (if c = '"' then !inside else inside)
      cases hp : pieces (if c = '"' then !inside else inside) cs with
      | nil => exact absurd hp (pieces_ne_nil _ _)
      | cons q qs =>
        rw [hp, weight_cons] at hrest
        rw [Text.consFirst_cons, weight_cons, List.length_cons, List.length_cons]
        omega

theorem weight_intercalate (h : names ≠ []) :
    weight names = (['.'].intercalate names).length + 1 := by
  induction names with
  | nil => exact absurd rfl h
  | cons n rest ih =>
    cases rest with
    | nil => simp
    | cons m rest =>
      rw [List.intercalate_cons_cons, weight_cons, ih (List.cons_ne_nil _ _)]
      simp only [List.length_append, List.length_singleton]
      omega

theorem partsOf_cons (p : List Char) (ps : List (List Char)) :
    partsOf (p :: ps) =
      if Text.trim p = [] then partsOf ps
      else Quote.unquoteList (Text.trim p) :: partsOf ps := by
  by_cases h : Text.trim p = [] <;> simp [partsOf, h]

theorem length_unquoteList_trim_le (p : List Char) :
    (Quote.unquoteList (Text.trim p)).length ≤ p.length :=
  (Quote.length_unquoteList_le _).trans (Text.trim_sublist p).length_le

/-- Reading pieces adds nothing to them. -/
theorem weight_partsOf_le (ps : List (List Char)) : weight (partsOf ps) ≤ weight ps := by
  induction ps with
  | nil => exact le_rfl
  | cons p ps ih =>
    have hp := length_unquoteList_trim_le p
    rw [partsOf_cons]
    split
    · rw [weight_cons]; omega
    · rw [weight_cons, weight_cons]; omega

/-- A piece that reads as itself. -/
structure Kept (p : List Char) : Prop where
  nonempty : p ≠ []
  trim : Text.trim p = p
  unquoted : Quote.isQuotedList p = false

theorem Kept.unquoteList (h : Kept p) : Quote.unquoteList p = p := by
  rw [Quote.unquoteList, h.trim, h.unquoted]
  rfl

theorem partsOf_of_kept (h : ∀ p ∈ ps, Kept p) : partsOf ps = ps := by
  induction ps with
  | nil => rfl
  | cons p ps ih =>
    rw [List.forall_mem_cons] at h
    rw [partsOf_cons, h.1.trim, if_neg h.1.nonempty, h.1.unquoteList, ih h.2]

/-- If reading the pieces takes nothing off, then each of them reads as itself. -/
theorem kept_of_weight_partsOf (h : weight (partsOf ps) = weight ps) : ∀ p ∈ ps, Kept p := by
  induction ps with
  | nil => simp
  | cons p ps ih =>
    have hrest := weight_partsOf_le ps
    have hp := length_unquoteList_trim_le p
    rw [partsOf_cons] at h
    split at h
    · rw [weight_cons] at h
      omega
    · next hne =>
      rw [weight_cons, weight_cons] at h
      rw [List.forall_mem_cons]
      refine ⟨?_, ih (by omega)⟩
      have htrim : Text.trim p = p := by
        have hle := Quote.length_unquoteList_le (Text.trim p)
        exact (Text.trim_sublist p).eq_of_length_le (by omega)
      rw [htrim] at h hne hp
      exact ⟨hne, htrim, (Quote.of_length_unquoteList (by omega)).2⟩

/-- Pieces that read as themselves are the names that are read. -/
theorem partsList_intercalate (h : pieces false (['.'].intercalate names) = names)
    (hkept : ∀ n ∈ names, Kept n) : partsList (['.'].intercalate names) = names := by
  have hparts : partsList (['.'].intercalate names) = partsOf names := congrArg partsOf h
  rw [hparts, partsOf_of_kept hkept]

/-- If the names are read back at all, then they are the pieces of the text, and each of them reads as
    itself. -/
theorem of_suffix_partsList (hne : names ≠ [])
    (h : names <:+ partsList (['.'].intercalate names)) :
    pieces false (['.'].intercalate names) = names ∧ ∀ n ∈ names, Kept n := by
  obtain ⟨front, hfront⟩ := h
  have hparts : partsOf (pieces false (['.'].intercalate names)) = front ++ names := hfront.symm
  have hweight : weight (pieces false (['.'].intercalate names)) = weight names :=
    (weight_pieces _ _).trans (weight_intercalate hne).symm
  have hle := weight_partsOf_le (pieces false (['.'].intercalate names))
  rw [hweight, hparts, weight_append] at hle
  have hkept : ∀ p ∈ pieces false (['.'].intercalate names), Kept p :=
    kept_of_weight_partsOf (by rw [hweight, hparts, weight_append]; omega)
  have hnil : front = [] := by
    cases front with
    | nil => rfl
    | cons p front =>
      rw [weight_cons] at hle
      omega
  rw [partsOf_of_kept hkept, hnil, List.nil_append] at hparts
  exact ⟨hparts, fun n hn => hkept n (hparts.symm ▸ hn)⟩

/-! ## Names that stand for themselves -/

/-- A name that is read as it is where its text stands between dots: it has no blank at an end and no
    quotes around it, and its own dots stand behind an odd number of quotes. -/
structure Verbatim (name : String) : Prop where
  nonempty : name ≠ ""
  strip : Text.strip name = name
  unquoted : Quote.isQuoted name = false
  dots : ∀ before after, name.toList = before ++ '.' :: after → before.count '"' % 2 = 1

/-- The quotes in a name are even in number, so that what stands behind it is outside of them. -/
def Paired (name : String) : Prop := name.toList.count '"' % 2 = 0

instance (name : String) : Decidable (Paired name) := inferInstanceAs (Decidable (_ = _))

theorem verbatim_iff {name : String} :
    Verbatim name ↔ Kept name.toList ∧ pieces false name.toList = [name.toList] := by
  rw [pieces_eq_singleton_iff]
  have hstrip : Text.strip name = name ↔ Text.trim name.toList = name.toList := by
    rw [← String.toList_inj, Text.strip, String.toList_ofList]
  simp only [insideAfter, Bool.false_xor, beq_iff_eq]
  constructor
  · rintro ⟨hne, htrim, hquoted, hdots⟩
    exact ⟨⟨by rwa [ne_eq, String.toList_eq_nil_iff], hstrip.1 htrim, hquoted⟩, hdots⟩
  · rintro ⟨⟨hne, htrim, hquoted⟩, hdots⟩
    exact ⟨by rwa [ne_eq, String.toList_eq_nil_iff] at hne, hstrip.2 htrim, hquoted, hdots⟩

theorem paired_iff {name : String} : Paired name ↔ insideAfter false name.toList = false := by
  simp [Paired, insideAfter]

theorem toList_parts (text : String) : (parts text).map String.toList = partsList text.toList := by
  simp [parts, Function.comp_def]

section
variable {text : String} {names : List String}

/-- Names with dots between them that are read back at the end are all that is read. -/
theorem parts_eq_of_suffix (hne : names ≠ [])
    (htext : text.toList = ['.'].intercalate (names.map String.toList)) (h : names <:+ parts text) :
    parts text = names := by
  have hlists := h.map String.toList
  rw [toList_parts, htext] at hlists
  obtain ⟨hcut, hkept⟩ := of_suffix_partsList (by simpa using hne) hlists
  rw [parts, htext, partsList_intercalate hcut hkept, List.map_map]
  simp [Function.comp_def]

/-- Names with dots between them are read back just if all of them stand for themselves and all but
    the last are paired. -/
theorem parts_eq_iff (hne : names ≠ [])
    (htext : text.toList = ['.'].intercalate (names.map String.toList)) :
    parts text = names ↔ (∀ n ∈ names, Verbatim n) ∧ ∀ n ∈ names.dropLast, Paired n := by
  have hmap : names.map String.toList ≠ [] := by simpa using hne
  have hpieces := pieces_intercalate_iff hmap
  rw [List.forall_mem_map, ← List.map_dropLast, List.forall_mem_map] at hpieces
  simp only [verbatim_iff, paired_iff]
  constructor
  · intro h
    have hlists : (parts text).map String.toList = names.map String.toList := by rw [h]
    rw [toList_parts, htext] at hlists
    obtain ⟨hcut, hkept⟩ := of_suffix_partsList hmap (by simp [hlists])
    obtain ⟨hone, hend⟩ := hpieces.1 hcut
    exact ⟨fun n hn => ⟨hkept _ (List.mem_map_of_mem hn), hone n hn⟩, hend⟩
  · rintro ⟨hall, hend⟩
    have hparts := partsList_intercalate (hpieces.2 ⟨fun n hn => (hall n hn).2, hend⟩)
      (List.forall_mem_map.2 fun n hn => (hall n hn).1)
    rw [parts, htext, hparts, List.map_map]
    simp [Function.comp_def]

end

/-! ## Texts of columns -/

theorem columnOfParts?_eq_unqualified {l : List String} {table column : String} :
    columnOfParts? l = some ⟨none, table, column⟩ ↔ l = [table, column] := by
  fun_induction columnOfParts? l with
  | case1 => simp
  | case2 => simp
  | case3 => simp
  | case4 => simp
  | case5 _ _ _ _ _ ih => simp [ih]

theorem columnOfParts?_eq_qualified {l : List String} {schema table column : String} :
    columnOfParts? l = some ⟨some schema, table, column⟩ ↔ [schema, table, column] <:+ l := by
  fun_induction columnOfParts? l with
  | case1 => simp
  | case2 => exact iff_of_false nofun fun h => by simpa using h.length_le
  | case3 => exact iff_of_false (by simp) fun h => by simpa using h.length_le
  | case4 =>
    constructor
    · simp only [Option.some.injEq, ColumnRef.mk.injEq]
      rintro ⟨rfl, rfl, rfl⟩
      exact List.suffix_refl _
    · intro h
      cases h.eq_of_length rfl
      rfl
  | case5 first s t c rest ih =>
    rw [ih]
    simp [List.suffix_cons_iff (a := first)]

theorem key_eq_elim (schema : Option String) (name : String) :
    key schema name = (filled schema).elim name fun s => s ++ "." ++ name := by
  cases schema with
  | none => rfl
  | some s => by_cases h : s.isEmpty <;> simp [key, filled, Option.filter, h]

/-- The names that the text of a column puts dots between. -/
def columnNames (schema : Option String) (table column : String) : List String :=
  (filled schema).toList ++ [table, column]

theorem toList_columnText (schema : Option String) (table column : String) :
    (columnText schema table column).toList =
      ['.'].intercalate ((columnNames schema table column).map String.toList) := by
  rw [columnText, key_eq_elim, columnNames]
  cases filled schema <;> simp

theorem columnNames_ne_nil (schema : Option String) (table column : String) :
    columnNames schema table column ≠ [] := by
  simp [columnNames]

/-- The text of a column stands for it just if it is read as its names. -/
theorem column?_columnText_eq_some_iff {schema : Option String} {table column : String} :
    column? (columnText schema table column) = some ⟨filled schema, table, column⟩ ↔
      parts (columnText schema table column) = columnNames schema table column := by
  rw [column?]
  cases hs : filled schema with
  | none => rw [columnOfParts?_eq_unqualified, columnNames, hs]; rfl
  | some s =>
    have hnames : columnNames schema table column = [s, table, column] := by
      rw [columnNames, hs]; rfl
    rw [columnOfParts?_eq_qualified, ← hnames]
    constructor
    · exact parts_eq_of_suffix (columnNames_ne_nil _ _ _) (toList_columnText _ _ _)
    · exact fun h => h.symm ▸ List.suffix_refl _

/-- The names of a column whose text stands for it: each name stands for itself, and the schema and
    the table are paired. -/
structure Readable (schema : Option String) (table column : String) : Prop where
  schema : ∀ s, filled schema = some s → Verbatim s ∧ Paired s
  table : Verbatim table ∧ Paired table
  column : Verbatim column

theorem readable_iff {schema : Option String} {table column : String} :
    Readable schema table column ↔
      (∀ n ∈ columnNames schema table column, Verbatim n) ∧
        ∀ n ∈ (columnNames schema table column).dropLast, Paired n := by
  have hlast : (columnNames schema table column).dropLast = (filled schema).toList ++ [table] := by
    rw [columnNames, List.dropLast_append_of_ne_nil (by simp)]
    rfl
  rw [hlast, columnNames]
  constructor
  · rintro ⟨hs, ht, hc⟩
    simp only [List.mem_append, Option.mem_toList, List.mem_cons, List.not_mem_nil, or_false]
    constructor
    · rintro n (hn | rfl | rfl)
      · exact (hs n hn).1
      · exact ht.1
      · exact hc
    · rintro n (hn | rfl)
      · exact (hs n hn).2
      · exact ht.2
  · rintro ⟨hv, hp⟩
    exact ⟨fun s hs => ⟨hv s (by simp [hs]), hp s (by simp [hs])⟩, ⟨hv _ (by simp), hp _ (by simp)⟩,
      hv _ (by simp)⟩

theorem Readable.column? {schema : Option String} {table column : String}
    (h : Readable schema table column) :
    Name.column? (columnText schema table column) = some ⟨filled schema, table, column⟩ :=
  column?_columnText_eq_some_iff.2 <|
    (parts_eq_iff (columnNames_ne_nil _ _ _) (toList_columnText _ _ _)).2 (readable_iff.1 h)

/-- **When the text of a column stands for it.**  Reading the text gives the schema, the table and the
    column back just if each of these names stands for itself, and the schema and the table are
    paired. -/
theorem column?_columnText_iff (schema : Option String) (table column : String) :
    column? (columnText schema table column) = some ⟨filled schema, table, column⟩ ↔
      Readable schema table column := by
  rw [column?_columnText_eq_some_iff, readable_iff,
    parts_eq_iff (columnNames_ne_nil _ _ _) (toList_columnText _ _ _)]

/-- A dot in a name, which takes quotes in a statement, is read as a dot between names. -/
theorem column?_columnText_dotted :
    column? (columnText none "u" "a.b") ≠ some ⟨none, "u", "a.b"⟩ := by
  decide +kernel

end Name

/-! ## Identifiers without quotes -/

namespace CleanName

variable {name : String}

theorem verbatim (h : CleanName name) : Name.Verbatim name :=
  ⟨h.nonempty, h.strip, h.not_quoted, fun before _ heq =>
    absurd (heq ▸ List.mem_append_right before List.mem_cons_self) h.point⟩

theorem paired (h : CleanName name) : Name.Paired name := by
  rw [Name.Paired, List.count_eq_zero.2 h.quote]

/-- An identifier that takes no quotes is a clean name. -/
theorem of_word (hne : name ≠ "") (h : name.toList.all Token.inWord = true) : CleanName name := by
  rw [List.all_eq_true] at h
  have hblank : ∀ c ∈ name.toList, Text.isBlank c = false := by
    intro c hc
    have hword := h c hc
    by_contra hb
    have hcode : c.toNat ≤ 32 ∨ 133 ≤ c.toNat := by
      simp only [Text.isBlank, Text.isSpace, Bool.or_eq_true, Bool.and_eq_true, decide_eq_true_eq,
        beq_iff_eq, Bool.not_eq_false] at hb
      omega
    have hletter : 36 ≤ c.toNat ∧ c.toNat ≤ 122 := by
      simp only [Token.inWord, Token.inTag, Token.startsWord, Text.isAsciiLetter, Text.isAsciiDigit,
        Bool.or_eq_true, Bool.and_eq_true, decide_eq_true_eq, beq_iff_eq] at hword
      rcases hword with ((h | rfl) | h) | rfl
      · omega
      · decide
      · omega
      · decide
    omega
  refine ⟨hne, fun hdot => absurd (h _ hdot) (by decide), fun hq => absurd (h _ hq) (by decide), ?_⟩
  rw [Text.strip, Text.trim_eq_self (fun c hc => hblank c (List.mem_of_head? hc))
    (fun c hc => hblank c (List.mem_of_getLast? hc)), String.ofList_toList]

end CleanName

/-- The text of a column stands for it wherever the names are clean. -/
theorem Name.Readable.of_clean {schema : Option String} {table column : String}
    (hs : CleanIfAny schema) (ht : CleanName table) (hc : CleanName column) :
    Name.Readable schema table column where
  schema s h := by
    have hclean := hs s (Option.mem_filter_iff.1 h).1
    exact ⟨hclean.verbatim, hclean.paired⟩
  table := ⟨ht.verbatim, ht.paired⟩
  column := hc.verbatim

end Schemata

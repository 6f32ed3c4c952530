/-
  Splitting a joined text.

  * `counted q cs` are the characters of a text that count, and `depth q cs` says how many more of
    them open a parenthesis than close one;
  * a text is `Whole` if no separator in it counts outside all parentheses; `piecesFrom_append`: the
    splitter passes over such a text, and goes on with the quotes and the depth after it;
  * an `Item` is a trimmed text that is whole and leaves nothing open.  At a separator behind it the
    splitter is where it was at the start (`piecesFrom_cut`), so joined items are found again:
    `splitTopLevel_intercalate`.
-/
import Schemata.Nesting

namespace Schemata

namespace Nesting

variable {isSeparator : Char → Bool} {q : Quotes} {d : Int} {c : Char} {cs rest : List Char}

/-! ## What counts -/

/-- The characters of a text that count. -/
def counted (q : Quotes) : List Char → List Char
  | [] => []
  | c :: cs => if q.counts c then c :: counted (q.next c) cs else counted (q.next c) cs

/-- How many more parentheses are opened than closed in a text, outside its quotes. -/
def depth (q : Quotes) (cs : List Char) : Int :=
  (counted q cs).count '(' - (counted q cs).count ')'

@[simp] theorem after_nil (q : Quotes) : q.after [] = q := rfl

@[simp] theorem after_cons (q : Quotes) (c : Char) (cs : List Char) :
    q.after (c :: cs) = (q.next c).after cs := rfl

theorem after_append (q : Quotes) (cs rest : List Char) :
    q.after (cs ++ rest) = (q.after cs).after rest := List.foldl_append

theorem counted_append (q : Quotes) (cs rest : List Char) :
    counted q (cs ++ rest) = counted q cs ++ counted (q.after cs) rest := by
  induction cs generalizing q with
  | nil => rfl
  | cons c cs ih =>
    rw [List.cons_append, counted, counted, ih, after_cons]
    split <;> rfl

@[simp] theorem depth_nil (q : Quotes) : depth q [] = 0 := rfl

theorem depth_append (q : Quotes) (cs rest : List Char) :
    depth q (cs ++ rest) = depth q cs + depth (q.after cs) rest := by
  simp only [depth, counted_append, List.count_append]
  omega

theorem depth_cons (q : Quotes) (c : Char) (cs : List Char) :
    depth q (c :: cs) = depth q [c] + depth (q.next c) cs := depth_append q [c] cs

/-- The depth behind one character. -/
theorem add_depth_singleton (q : Quotes) (d : Int) (c : Char) : d + depth q [c] =
    if !q.counts c then d else if c = '(' then d + 1 else if c = ')' then d - 1 else d := by
  by_cases hq : q.counts c = true
  · by_cases ho : c = '('
    · subst ho
      simp [depth, counted, hq]
    · by_cases hc : c = ')'
      · subst hc
        simp [depth, counted, hq, Int.sub_eq_add_neg]
      · simp [depth, counted, hq, ho, hc]
  · simp [depth, counted, hq]

/-! ## Passing over a text -/

/-- The splitter goes from character to character with the quotes and the depth between them. -/
theorem piecesFrom_cons (isSeparator : Char → Bool) (q : Quotes) (d : Int) (c : Char)
    (cs : List Char) : piecesFrom isSeparator q d (c :: cs) =
      if q.counts c && c != '(' && c != ')' && isSeparator c && d == 0 then
        [] :: piecesFrom isSeparator q d cs
      else Text.consFirst c (piecesFrom isSeparator (q.next c) (d + depth q [c]) cs) := by
  rw [piecesFrom, add_depth_singleton]

/-- No separator in a text counts outside all parentheses, when `d` of them are open before it. -/
def Whole (isSeparator : Char → Bool) (q : Quotes) (d : Int) (cs : List Char) : Prop :=
  ∀ p c r, cs = p ++ c :: r → (q.after p).counts c = true → isSeparator c = true →
    d + depth q p ≠ 0

theorem Whole.tail (h : Whole isSeparator q d (c :: cs)) :
    Whole isSeparator (q.next c) (d + depth q [c]) cs := by
  intro p e r hcs hcounts hsep
  have := h (c :: p) e r (by rw [hcs, List.cons_append]) hcounts hsep
  rwa [depth_cons, ← Int.add_assoc] at this

/-- The splitter passes over a whole text. -/
theorem piecesFrom_append (h : Whole isSeparator q d cs) (rest : List Char) :
    piecesFrom isSeparator q d (cs ++ rest) =
      cs.foldr Text.consFirst (piecesFrom isSeparator (q.after cs) (d + depth q cs) rest) := by
  induction cs generalizing q d with
  | nil => simp
  | cons c cs ih =>
    have hcut : ¬(q.counts c && c != '(' && c != ')' && isSeparator c && d == 0) = true := by
      simp only [Bool.and_eq_true, beq_iff_eq]
      rintro ⟨⟨⟨⟨hcounts, -⟩, -⟩, hsep⟩, hd⟩
      exact h [] c cs rfl hcounts hsep (by rw [hd, depth_nil, Int.add_zero])
    rw [List.cons_append, piecesFrom_cons, if_neg hcut, ih h.tail, List.foldr_cons, after_cons,
      depth_cons q c cs, Int.add_assoc]

/-! ## Joined items -/

/-- A text that leaves nothing open, in which no separator counts outside parentheses. -/
structure Closed (separator : Char) (cs : List Char) : Prop where
  quotes : Quotes.after .outside cs = .outside
  depth : depth .outside cs = 0
  whole : Whole (· == separator) .outside 0 cs

section
variable {separator : Char} (hs : separator ∉ ['\'', '"', '(', ')'])
include hs

/-- A separator behind such a text ends the piece, and the splitter starts again. -/
theorem piecesFrom_cut (h : Closed separator cs) (rest : List Char) :
    piecesFrom (· == separator) .outside 0 (cs ++ separator :: rest) =
      cs :: piecesFrom (· == separator) .outside 0 rest := by
  simp only [List.mem_cons, List.not_mem_nil, or_false, not_or] at hs
  obtain ⟨hsingle, hdouble, hopen, hclose⟩ := hs
  have hcut : piecesFrom (· == separator) .outside 0 (separator :: rest) =
      [] :: piecesFrom (· == separator) .outside 0 rest := by
    rw [piecesFrom_cons, if_pos]
    simp [Quotes.counts, hsingle, hdouble, hopen, hclose]
  rw [piecesFrom_append h.whole, h.quotes, h.depth, Int.add_zero, hcut, Text.foldr_consFirst,
    List.append_nil]

theorem piecesFrom_intercalate {items : List (List Char)} (hne : items ≠ [])
    (h : ∀ cs ∈ items, Closed separator cs) :
    piecesFrom (· == separator) .outside 0 ([separator].intercalate items) = items := by
  induction items with
  | nil => exact absurd rfl hne
  | cons cs items ih =>
    rw [List.forall_mem_cons] at h
    cases items with
    | nil =>
      have hpass := piecesFrom_append h.1.whole []
      rw [List.append_nil, h.1.quotes, h.1.depth, piecesFrom, Text.foldr_consFirst,
        List.append_nil] at hpass
      rw [List.intercalate_singleton, hpass]
    | cons ds items =>
      rw [List.intercalate_cons_cons, List.append_assoc, List.singleton_append,
        piecesFrom_cut hs h.1, ih (List.cons_ne_nil ds items) h.2]

end

/-- An item of a list: trimmed, not empty, with no quote left open, with as many parentheses closed as
    opened, and with every separator in quotes or between parentheses. -/
structure Item (separator : Char) (s : String) : Prop where
  nonempty : s ≠ ""
  trimmed : Text.strip s = s
  quotes : Quotes.after .outside s.toList = .outside
  depth : depth .outside s.toList = 0
  inside : ∀ p r, s.toList = p ++ separator :: r → Quotes.after .outside p = .outside →
    Nesting.depth .outside p ≠ 0

/-- It is enough to look in front of each character of the item. -/
instance (separator : Char) (s : String) : Decidable (Item separator s) :=
  decidable_of_iff (s ≠ "" ∧ Text.strip s = s ∧ Quotes.after .outside s.toList = .outside ∧
      depth .outside s.toList = 0 ∧ ∀ i < s.toList.length, s.toList[i]? = some separator →
        Quotes.after .outside (s.toList.take i) = .outside → depth .outside (s.toList.take i) ≠ 0)
    ⟨fun ⟨hne, htrim, hquotes, hdepth, hi⟩ => ⟨hne, htrim, hquotes, hdepth, fun p r hs => by
        have := hi p.length (by simp [hs]) (by simp [hs])
        rwa [hs, List.take_left] at this⟩,
      fun h => ⟨h.nonempty, h.trimmed, h.quotes, h.depth, fun i hi hc => by
        obtain ⟨_, hget⟩ := List.getElem?_eq_some_iff.1 hc
        refine h.inside _ (s.toList.drop (i + 1)) ?_
        rw [← hget, ← List.drop_eq_getElem_cons, List.take_append_drop]⟩⟩

theorem Item.closed {separator : Char} {s : String} (h : Item separator s) :
    Closed separator s.toList where
  quotes := h.quotes
  depth := h.depth
  whole := by
    intro p c r hs hcounts hsep
    obtain rfl := beq_iff_eq.1 hsep
    rw [Quotes.counts, Bool.and_eq_true, Bool.and_eq_true, beq_iff_eq] at hcounts
    rw [Int.zero_add]
    exact h.inside p r hs hcounts.1.1

theorem Item.trim {separator : Char} {s : String} (h : Item separator s) :
    Text.trim s.toList = s.toList := by
  have := congrArg String.toList h.trimmed
  rwa [Text.strip, String.toList_ofList] at this

/-- **Splitting undoes joining.** Items joined by a separator that is no quote and no parenthesis are
    the items that splitting finds, in their order. -/
theorem splitTopLevel_intercalate {separator : Char} {items : List String}
    (hs : separator ∉ ['\'', '"', '(', ')']) (h : ∀ s ∈ items, Item separator s) :
    splitTopLevel separator ((String.singleton separator).intercalate items) = items := by
  cases items with
  | nil => simp [splitTopLevel, splitBy, splitList, piecesFrom, Text.trim, Text.trimStart,
      Text.trimEnd]
  | cons s items =>
    have hpieces : piecesFrom (· == separator) .outside 0
        ([separator].intercalate ((s :: items).map String.toList)) =
          (s :: items).map String.toList := by
      refine piecesFrom_intercalate hs (by simp) fun cs hcs => ?_
      obtain ⟨s', hs', rfl⟩ := List.mem_map.1 hcs
      exact (h s' hs').closed
    have htrim : ((s :: items).map String.toList).map Text.trim =
        (s :: items).map String.toList := by
      rw [List.map_map]
      exact List.map_congr_left fun s' hs' => (h s' hs').trim
    have hfilter : ((s :: items).map String.toList).filter (! ·.isEmpty) =
        (s :: items).map String.toList := by
      refine List.filter_eq_self.2 fun cs hcs => ?_
      obtain ⟨s', hs', rfl⟩ := List.mem_map.1 hcs
      simpa using (h s' hs').nonempty
    rw [splitTopLevel, splitBy, String.toList_intercalate, String.toList_singleton, splitList,
      hpieces, htrim, hfilter, List.map_map]
    exact (List.map_congr_left fun s' _ => String.ofList_toList).trans (List.map_id _)

/-- Items with separators in literals, in quoted names and in parentheses, and with quotes and
    parentheses of one kind inside the other. -/
theorem splitTopLevel_intercalate_columns :
    let items := ["a numeric(10,2)", "b text DEFAULT 'it''s, (this'", "\"c),'d\" int",
      "CHECK (x IN (',', '\")'))"]
    ',' ∉ ['\'', '"', '(', ')'] ∧ (∀ s ∈ items, Item ',' s) ∧
      splitTopLevel ',' ((String.singleton ',').intercalate items) = items := by
  intro items
  have hs : ',' ∉ ['\'', '"', '(', ')'] := by decide
  have hitems : ∀ s ∈ items, Item ',' s := by decide +kernel
  exact ⟨hs, hitems, splitTopLevel_intercalate hs hitems⟩

end Nesting

end Schemata

/-
  Statements of a text and of its tokens.

  * In a clear document the text is split where the tokens are, if these count parentheses in the
    same way (`pieces_items`), and trimming takes the layout off its pieces (`PieceOf.trim`), so they
    are the sources of the items of the tokens (`splitTopLevel_items`);
  * statements of tokens are cut by another count, for which a closing parenthesis too many is
    nothing.  Where the counts differ some tokens stand behind the last cut, so the piece that one of
    them ends is shorter than that of the other (`sources_consAll_iff`);
  * `splitStatements_eq_statements_iff`: so the statements of a text are those of its tokens just if
    the counts agree at every semicolon, as they do where no parenthesis is closed before it is
    opened (`splitStatements_eq_of_level`);
  * `not_splitStatements_stray`: behind a stray parenthesis they do not.
-/
import Schemata.Proofs.Counting
import Schemata.Proofs.Seams
import Schemata.Proofs.Taken

namespace Schemata

namespace Text

/-! ## Trimming -/

variable {lay : List Char}

theorem trim_blank_append (h : ∀ c ∈ lay, isBlank c = true) (cs : List Char) :
    trim (lay ++ cs) = trim cs := by
  rw [trim, trimStart, List.dropWhile_append_of_pos h, trim, trimStart]

theorem trim_append_blank (h : ∀ c ∈ lay, isBlank c = true) (cs : List Char) :
    trim (cs ++ lay) = trim cs := by
  have hnothing : lay.dropWhile isBlank = [] := List.dropWhile_eq_nil_iff.2 h
  have hreverse : ∀ c ∈ lay.reverse, isBlank c = true := fun c hc => h c (List.mem_reverse.1 hc)
  rw [trim, trimStart, List.dropWhile_append]
  split
  · next he => rw [hnothing, trim, trimStart, List.isEmpty_iff.1 he]
  · rw [trimEnd, List.reverse_append, List.dropWhile_append_of_pos hreverse]
    rfl

end Text

namespace Token

open Nesting

open Text (consFirst)

variable {t : Token} {ts us : List Token} {c mark : Char} {cs follow closing : List Char} {d : Int}
  {k : Nat}

/-! ## The ends of tokens -/

theorem Stands.isBlank_head (h : t.Stands follow) (hc : t.text.head? = some c) :
    Text.isBlank c = false := by
  obtain ⟨x, tail, htext⟩ := List.exists_cons_of_ne_nil h.text_ne_nil
  have hl := LayoutBefore.of_span h.layout_text
  rw [htext] at hl hc
  obtain rfl : x = c := Option.some.inj hc
  cases hl with
  | stop _ hb => exact hb

theorem isBlank_of_isRunning (h : isRunning c = true) : Text.isBlank c = false := by
  rw [Bool.eq_false_iff]
  intro hb
  have hf := mayFollow_hard (c := c) (by simp [isHard, hb])
  simp only [isRunning, Bool.or_eq_true, beq_iff_eq] at h
  rcases h with ((h | h) | h) | rfl
  · simp [mayFollow, h] at hf
  · simp [mayFollow, h] at hf
  · simp [mayFollow, h] at hf
  · cases hf

theorem Stands.isBlank_getLast (h : t.Stands follow) (hd : t.isDollarQuoted = false)
    (hc : t.text.getLast? = some c) : Text.isBlank c = false := by
  rcases h.text_cases hd with ⟨e, content, he, htext⟩ | ⟨e, htext, -⟩ | hrun
  · rw [htext, ← List.cons_append, List.getLast?_concat] at hc
    obtain rfl := Option.some.inj hc
    rcases he with rfl | rfl <;> rfl
  · rw [htext] at hc
    obtain rfl : e = c := Option.some.inj hc
    exact h.isBlank_head (by rw [htext]; rfl)
  · exact isBlank_of_isRunning (hrun c (List.mem_of_getLast? hc))

/-- The text of tokens, from the start of the first, ends with no blank. -/
theorem Clear.isBlank_getLast (h : Clear (t :: ts) closing)
    (hc : (t.text ++ fullText ts).getLast? = some c) : Text.isBlank c = false := by
  induction ts generalizing t with
  | nil =>
    rw [fullText_nil, List.append_nil] at hc
    exact h.rescans.1.isBlank_getLast (h.noDollar t List.mem_cons_self) hc
  | cons u ts ih =>
    have hne : u.text ++ fullText ts ≠ [] :=
      List.append_ne_nil_of_left_ne_nil h.tail.rescans.1.text_ne_nil _
    rw [fullText_cons, ← List.append_assoc, List.getLast?_append_of_ne_nil _ hne] at hc
    exact ih h.tail hc

/-- The text that tokens span has no blank at an end. -/
theorem Clear.trim_source (h : Clear ts closing) :
    Text.trim (source ts).toList = (source ts).toList := by
  cases ts with
  | nil => rfl
  | cons t ts =>
    rw [source, String.toList_ofList]
    refine Text.trim_eq_self (fun c hc => ?_) fun c hc => h.isBlank_getLast hc
    rw [List.head?_append_of_ne_nil _ h.rescans.1.text_ne_nil] at hc
    exact h.rescans.1.isBlank_head hc

theorem Clear.source_ne_nil (h : Clear ts closing) (hne : ts ≠ []) : (source ts).toList ≠ [] := by
  cases ts with
  | nil => exact absurd rfl hne
  | cons t ts =>
    rw [source, String.toList_ofList]
    exact List.append_ne_nil_of_left_ne_nil h.rescans.1.text_ne_nil _

/-! ## Items of a text -/

/-- The text of some tokens, with blanks behind them. -/
def PieceOf (us : List Token) (cs : List Char) : Prop :=
  ∃ lay, (∀ c ∈ lay, Text.isBlank c = true) ∧ cs = fullText us ++ lay

theorem PieceOf.nil (h : ∀ c ∈ cs, Text.isBlank c = true) : PieceOf [] cs := ⟨cs, h, rfl⟩

theorem PieceOf.cons (t : Token) (h : PieceOf us cs) :
    PieceOf (t :: us) (t.layout ++ t.text ++ cs) := by
  obtain ⟨lay, hlay, rfl⟩ := h
  exact ⟨lay, hlay, by simp⟩

/-- Trimming takes off what stands around the tokens. -/
theorem PieceOf.trim (hu : Clear us []) (h : PieceOf us cs) :
    Text.trim cs = (source us).toList := by
  obtain ⟨lay, hlay, rfl⟩ := h
  rw [Text.trim_append_blank hlay]
  cases us with
  | nil => rfl
  | cons t us =>
    have hsource := hu.trim_source
    rw [source, String.toList_ofList] at hsource ⊢
    rw [fullText_cons, Text.trim_blank_append (hu.blank t List.mem_cons_self), hsource]

theorem itemsFrom_cons (hm : mark = ',' ∨ mark = ';') (d : Int) (t : Token) (ts : List Token) :
    itemsFrom mark d (t :: ts) = if t.isPunct mark = true ∧ d = 0 then [] :: itemsFrom mark 0 ts
      else consFirst t (itemsFrom mark (d + t.opens) ts) := by
  have hne : mark ≠ '(' ∧ mark ≠ ')' := by rcases hm with rfl | rfl <;> decide
  rw [itemsFrom, opens]
  by_cases ho : t.isPunct '(' = true
  · rw [if_pos ho, if_pos ho, if_neg (by simp [isPunct_ne ho hne.1.symm])]
  · rw [if_neg ho, if_neg ho]
    by_cases hc : t.isPunct ')' = true
    · rw [if_pos hc, if_pos hc, if_neg (by simp [isPunct_ne hc hne.2.symm])]
      rfl
    · rw [if_neg hc, if_neg hc, Int.add_zero]
      by_cases hcut : t.isPunct mark = true ∧ d = 0
      · rw [if_pos (by simp [hcut]), if_pos hcut, hcut.2]
      · rw [if_neg (by simpa using hcut), if_neg hcut]

/-- A text and its tokens are cut at the same separators. -/
theorem pieces_items (hm : mark = ',' ∨ mark = ';') (h : Clear ts closing) (d : Int) :
    List.Forall₂ PieceOf (itemsFrom mark d ts)
      (piecesFrom (· == mark) .outside d (fullText ts ++ closing)) := by
  have hcalm : isCalm mark = false := by rcases hm with rfl | rfl <;> rfl
  have hsep : ∀ c, (c == mark) = true → isCalm c = false := fun c hc => by
    rw [beq_iff_eq.1 hc, hcalm]
  induction ts generalizing d with
  | nil =>
    have hquiet := Quiet.of_blank h.blankClosing
    rw [fullText_nil, List.nil_append, ← List.append_nil closing, hquiet.piecesFrom hsep,
      piecesFrom, Text.foldr_consFirst, List.append_nil]
    exact .cons (.nil h.blankClosing) .nil
  | cons t ts ih =>
    rw [fullText_cons, List.append_assoc, List.append_assoc, itemsFrom_cons hm]
    by_cases hcut : t.isPunct mark = true ∧ d = 0
    · obtain ⟨ht, rfl⟩ := hcut
      rw [if_pos ⟨ht, rfl⟩, h.piecesFrom_stop hm ht]
      exact .cons (.nil (h.blank t List.mem_cons_self)) (ih h.tail 0)
    · rw [if_neg hcut, h.piecesFrom_pass hcalm fun ht hd => hcut ⟨ht, hd⟩]
      generalize hpieces : piecesFrom _ .outside (d + t.opens) _ = pieces
      have hrest := ih h.tail (d + t.opens)
      obtain ⟨us, more, hitems, -⟩ := runs_itemsFrom mark (d + t.opens) ts
      rw [hpieces, hitems] at hrest
      rw [hitems]
      cases hrest with
      | cons hus hmore =>
        rw [Text.foldr_consFirst]
        exact .cons (hus.cons t) hmore

/-- The sources of pieces, without those that are empty. -/
def sources (pieces : List (List Token)) : List String := (pieces.filter (! ·.isEmpty)).map source

theorem sources_cons (hne : us ≠ []) (pieces : List (List Token)) :
    sources (us :: pieces) = source us :: sources pieces := by
  rw [sources, List.filter_cons_of_pos (by simpa using hne), List.map_cons, ← sources]

theorem sources_cons_inj (us : List Token) {pieces pieces' : List (List Token)} :
    sources (us :: pieces) = sources (us :: pieces') ↔ sources pieces = sources pieces' := by
  cases us with
  | nil => rfl
  | cons t us =>
    have hne := List.cons_ne_nil t us
    rw [sources_cons hne, sources_cons hne, List.cons.injEq]
    exact and_iff_right rfl

theorem sources_of_pieces {items : List (List Token)} {pieces : List (List Char)}
    (h : List.Forall₂ PieceOf items pieces) (hclear : ∀ us ∈ items, Clear us []) :
    ((pieces.map Text.trim).filter (! ·.isEmpty)).map String.ofList = sources items := by
  induction h with
  | nil => rfl
  | @cons us cs items pieces hus _ ih =>
    rw [List.forall_mem_cons] at hclear
    rw [List.map_cons, hus.trim hclear.1]
    cases us with
    | nil => exact ih hclear.2
    | cons t us =>
      have hne := List.cons_ne_nil t us
      have htext := hclear.1.source_ne_nil hne
      rw [List.filter_cons_of_pos (by simpa using htext), List.map_cons, String.ofList_toList,
        ih hclear.2, sources_cons hne]

/-- The items of a text are the sources of the items of its tokens. -/
theorem splitTopLevel_items {s : String} (hm : mark = ',' ∨ mark = ';') (h : Clear ts closing)
    (hs : fullText ts ++ closing = s.toList) :
    splitTopLevel mark s = sources (itemsFrom mark 0 ts) := by
  have hpieces := pieces_items hm h 0
  rw [hs] at hpieces
  rw [splitTopLevel, splitBy, splitList, sources_of_pieces hpieces]
  exact fun us hu => h.of_run ((runs_itemsFrom mark 0 ts).mem hu)

/-! ## Two counts of parentheses -/

theorem neg_one_le_opens (t : Token) : -1 ≤ t.opens := by
  rw [opens]
  split
  · decide
  · split <;> decide

theorem statementsFrom_cons (k : Nat) (t : Token) (ts : List Token) :
    statementsFrom k (t :: ts) = if t.isPunct ';' = true ∧ k = 0 then [] :: statementsFrom 0 ts
      else consFirst t (statementsFrom (k + t.opens).toNat ts) := by
  rw [statementsFrom, opens]
  by_cases ho : t.isPunct '(' = true
  · rw [if_pos ho, if_pos ho, if_neg (by simp [isPunct_ne ho])]
    rfl
  · rw [if_neg ho, if_neg ho]
    by_cases hc : t.isPunct ')' = true
    · rw [if_pos hc, if_pos hc, if_neg (by simp [isPunct_ne hc]),
        show ((k : Int) + -1).toNat = k - 1 by omega]
    · rw [if_neg hc, if_neg hc, Int.add_zero, Int.toNat_natCast]
      by_cases hcut : t.isPunct ';' = true ∧ k = 0
      · rw [if_pos (by simp [hcut]), if_pos hcut, hcut.2]
      · rw [if_neg (by simpa using hcut), if_neg hcut]

theorem openAfter_cons (k : Nat) (t : Token) (ts : List Token) :
    openAfter k (t :: ts) = openAfter (k + t.opens).toNat ts := by
  rw [openAfter, opens]
  split
  · rfl
  · split
    · rw [show ((k : Int) + -1).toNat = k - 1 by omega]
    · rw [Int.add_zero, Int.toNat_natCast]

/-- How many more parentheses are opened than closed in some tokens. -/
def balance : List Token → Int
  | [] => 0
  | t :: ts => t.opens + balance ts

/-- At every semicolon both counts say that no parenthesis is open, or neither of them does, when
    they start with `d` and with `k`. -/
def CutAlike (d : Int) (k : Nat) (ts : List Token) : Prop :=
  ∀ before t after, ts = before ++ t :: after → t.isPunct ';' = true →
    (d + balance before = 0 ↔ openAfter k before = 0)

theorem cutAlike_nil : CutAlike d k [] := by
  intro before t after h
  simp at h

theorem cutAlike_cons : CutAlike d k (t :: ts) ↔
    (t.isPunct ';' = true → (d = 0 ↔ k = 0)) ∧ CutAlike (d + t.opens) (k + t.opens).toNat ts := by
  constructor
  · intro h
    refine ⟨fun ht => by simpa [balance, openAfter] using h [] t ts rfl ht, fun before u after hts hu => ?_⟩
    have := h (t :: before) u after (by rw [hts, List.cons_append]) hu
    rwa [balance, openAfter_cons, ← Int.add_assoc] at this
  · rintro ⟨hfirst, hmore⟩ before u after hts hu
    cases before with
    | nil =>
      obtain ⟨rfl, -⟩ := List.cons.inj hts
      simpa [balance, openAfter] using hfirst hu
    | cons x before =>
      obtain ⟨rfl, rfl⟩ := List.cons.inj hts
      rw [balance, openAfter_cons, ← Int.add_assoc]
      exact hmore before u after rfl hu

instance decidableCutAlike : (d : Int) → (k : Nat) → (ts : List Token) → Decidable (CutAlike d k ts)
  | _, _, [] => .isTrue cutAlike_nil
  | d, k, t :: ts =>
    have := decidableCutAlike (d + t.opens) (k + t.opens).toNat ts
    decidable_of_iff' _ cutAlike_cons

/-- Where no parenthesis is closed before it is opened, the counts are the same. -/
theorem cutAlike_of_level {k' : Nat} (h : level never k ts = some k') : CutAlike k k ts := by
  induction ts generalizing k with
  | nil => exact cutAlike_nil
  | cons t ts ih =>
    obtain ⟨j, hj, hlevel⟩ : ∃ j : Nat, k + t.opens = j ∧ level never j ts = some k' := by
      rw [opens]
      obtain ⟨ho, h⟩ | ⟨ho, hc, hk, h⟩ | ⟨ho, hc, -, h⟩ := level_cons h
      · exact ⟨k + 1, by rw [if_pos ho]; rfl, h⟩
      · exact ⟨k - 1, by simp only [ho, hc, Bool.false_eq_true, if_false, if_true]; omega, h⟩
      · exact ⟨k, by simp [ho, hc], h⟩
    rw [cutAlike_cons, hj, Int.toNat_natCast]
    exact ⟨fun _ => Int.natCast_eq_zero, ih hlevel⟩

theorem consAll_consFirst (us : List Token) (t : Token) (pieces : List (List Token)) :
    consAll us (consFirst t pieces) = consAll (us ++ [t]) pieces := by
  rw [consAll, consAll, List.foldr_append]
  rfl

/-- A piece that ends here is not one that goes on. -/
theorem sources_ne (hne : us ≠ []) (ht : t.isPunct c = true) {pieces : List (List Token)}
    (hp : ∃ first more, pieces = first :: more) (pieces' : List (List Token)) :
    sources (consAll (us ++ [t]) pieces) ≠ sources (us :: pieces') := by
  obtain ⟨first, more, rfl⟩ := hp
  rw [consAll_cons, List.append_assoc, List.singleton_append, sources_cons (by simp),
    sources_cons hne]
  exact fun h => source_append_ne hne ht (List.cons.inj h).1

/-- Two counts cut the same pieces just if they cut alike.  The tokens `us` stand behind the last cut;
    the second count is never below the first, and there are some where they differ. -/
theorem sources_consAll_iff (h : d = k ∨ d < k ∧ us ≠ []) :
    sources (consAll us (itemsFrom ';' d ts)) = sources (consAll us (statementsFrom k ts)) ↔
      CutAlike d k ts := by
  induction ts generalizing d k us with
  | nil => exact ⟨fun _ => cutAlike_nil, fun _ => rfl⟩
  | cons t ts ih =>
    rw [itemsFrom_cons (.inr rfl), statementsFrom_cons, cutAlike_cons]
    by_cases hd : t.isPunct ';' = true ∧ d = 0
    · by_cases hk : t.isPunct ';' = true ∧ k = 0
      · -- Both counts cut here, and start again.
        obtain ⟨ht, rfl⟩ := hd
        obtain ⟨-, rfl⟩ := hk
        have hopens : t.opens = 0 := opens_of_mark ht
        have hmore : sources (itemsFrom ';' 0 ts) = sources (statementsFrom 0 ts) ↔ CutAlike 0 0 ts :=
          @ih [] 0 0 (.inl rfl)
        rw [if_pos ⟨ht, rfl⟩, if_pos ⟨ht, rfl⟩, consAll_cons, consAll_cons, sources_cons_inj,
          hopens]
        exact ⟨fun h => ⟨fun _ => by simp, hmore.1 h⟩, fun h => hmore.2 h.2⟩
      · obtain ⟨ht, rfl⟩ := hd
        have hne : us ≠ [] := (h.resolve_left fun he => hk ⟨ht, by omega⟩).2
        rw [if_pos ⟨ht, rfl⟩, if_neg hk, consAll_cons, List.append_nil, consAll_consFirst]
        refine iff_of_false (sources_ne hne ht (exists_statementsFrom _ ts) _).symm fun h => ?_
        exact hk ⟨ht, (h.1 ht).1 rfl⟩
    · by_cases hk : t.isPunct ';' = true ∧ k = 0
      · obtain ⟨ht, rfl⟩ := hk
        have hne : us ≠ [] := (h.resolve_left fun he => hd ⟨ht, by omega⟩).2
        rw [if_neg hd, if_pos ⟨ht, rfl⟩, consAll_consFirst, consAll_cons, List.append_nil]
        obtain ⟨first, more, hitems, -⟩ := runs_itemsFrom ';' (d + t.opens) ts
        refine iff_of_false (sources_ne hne ht ⟨first, more, hitems⟩ _) fun h => ?_
        exact hd ⟨ht, (h.1 ht).2 rfl⟩
      · -- Neither count cuts: the token goes to the piece.
        have hopens := neg_one_le_opens t
        have hstep : d + t.opens = (k + t.opens).toNat ∨
            d + t.opens < (k + t.opens).toNat ∧ us ++ [t] ≠ [] := by
          have hne : us ++ [t] ≠ [] := by simp
          have : d ≤ k := by omega
          by_cases he : d + t.opens = (k + t.opens).toNat
          · exact .inl he
          · exact .inr ⟨by omega, hne⟩
        rw [if_neg hd, if_neg hk, consAll_consFirst, consAll_consFirst, ih hstep]
        refine ⟨fun hmore => ⟨fun ht => ?_, hmore⟩, fun h => h.2⟩
        exact iff_of_false (fun hzero => hd ⟨ht, hzero⟩) fun hzero => hk ⟨ht, hzero⟩

theorem Clear.splitStatements_eq_iff {s : String} (h : Clear ts closing)
    (hs : fullText ts ++ closing = s.toList) :
    splitStatements s = (statements ts).map source ↔ CutAlike 0 0 ts := by
  rw [splitStatements, splitTopLevel_items (.inr rfl) h hs]
  exact @sources_consAll_iff ts [] 0 0 (.inl rfl)

/-- A text in which no parenthesis is closed before it is opened has the statements of its tokens. -/
theorem splitStatements_eq_of_level {s : String} (h : scan s = .ok ts) (hs : Comment.strip s = s)
    (hd : ∀ t ∈ ts, t.isDollarQuoted = false) (hl : level never 0 ts = some k) :
    splitStatements s = (statements ts).map source := by
  obtain ⟨closing, hclear, htext⟩ := clear_of_scan h hs hd
  exact (hclear.splitStatements_eq_iff htext).2 (cutAlike_of_level hl)

/-- **Statements in texts and tokens.** Take a text that stripping leaves alone and that has no
    dollar-quoted literal.  Its statements are the sources of its tokens between the semicolons
    before which as many parentheses are closed as opened.  They are the sources of the statements
    of its tokens just if these are the semicolons before which none is open, a closing parenthesis
    too many counting for nothing. -/
theorem splitStatements_eq_statements_iff {s : String} (h : scan s = .ok ts)
    (hs : Comment.strip s = s) (hd : ∀ t ∈ ts, t.isDollarQuoted = false) :
    splitStatements s = sources (itemsFrom ';' 0 ts) ∧
    (splitStatements s = (statements ts).map source ↔
      ∀ before t after, ts = before ++ t :: after → t.isPunct ';' = true →
        (balance before = 0 ↔ openAfter 0 before = 0)) := by
  obtain ⟨closing, hclear, htext⟩ := clear_of_scan h hs hd
  refine ⟨splitTopLevel_items (.inr rfl) hclear htext, ?_⟩
  rw [hclear.splitStatements_eq_iff htext, CutAlike]
  simp only [Int.zero_add]

/-- Semicolons and parentheses in literals, in names and in parentheses, an empty statement, and a
    stray parenthesis behind the last semicolon. -/
theorem splitStatements_eq_statements_iff_rules :
    let text := "check (x <> ';)'); ; do \"b;(\" (a; ';'';') ;c )"
    ∃ ts, scan text = .ok ts ∧ Comment.strip text = text ∧
      (∀ t ∈ ts, t.isDollarQuoted = false) ∧
      splitStatements text = sources (itemsFrom ';' 0 ts) ∧
      splitStatements text = (statements ts).map source := by
  intro text
  have hs : Comment.strip text = text := by decide +kernel
  have hok : (scan text).toOption.any (fun ts => ts.all (fun t => !t.isDollarQuoted) &&
      decide (CutAlike 0 0 ts)) = true := by decide +kernel
  obtain ⟨ts, hts, hcheck⟩ := exists_ok_of_any hok
  rw [Bool.and_eq_true, List.all_eq_true, decide_eq_true_eq] at hcheck
  have hd : ∀ t ∈ ts, t.isDollarQuoted = false := fun t ht => by simpa using hcheck.1 t ht
  obtain ⟨hitems, hiff⟩ := splitStatements_eq_statements_iff hts hs hd
  refine ⟨ts, hts, hs, hd, hitems, hiff.2 fun before t after he ht => ?_⟩
  have := hcheck.2 before t after he ht
  rwa [Int.zero_add] at this

/-- Behind a stray parenthesis the text is not split, though its tokens are. -/
theorem not_splitStatements_stray : ¬∀ (s : String) (ts : List Token), scan s = .ok ts →
    Comment.strip s = s → (∀ t ∈ ts, t.isDollarQuoted = false) →
    splitStatements s = (statements ts).map source := by
  intro h
  have htext : splitStatements "a ) ; b" = ["a ) ; b"] := by decide +kernel
  have hok : (scan "a ) ; b").toOption.any (fun ts => ts.all (fun t => !t.isDollarQuoted) &&
      (statements ts).map source == ["a )", "b"]) = true := by decide +kernel
  obtain ⟨ts, hts, hcheck⟩ := exists_ok_of_any hok
  rw [Bool.and_eq_true, List.all_eq_true, beq_iff_eq] at hcheck
  have hd : ∀ t ∈ ts, t.isDollarQuoted = false := fun t ht => by simpa using hcheck.1 t ht
  have := h "a ) ; b" ts hts (by decide +kernel) hd
  rw [htext, hcheck.2] at this
  exact absurd this (by decide)

end Token

end Schemata

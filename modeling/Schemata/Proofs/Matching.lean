/-
  Groups in a text and in its tokens.

  * `closing?_fullText`: in a clear document, the character scan and the token scan close a group at
    the same parenthesis, or both find that it stays open;
  * `parenthetical?_eq_group`: so the group that opens at a parenthesis is read with the same extent
    from the text and from its tokens.
-/
import Schemata.Proofs.Counting
import Schemata.Proofs.Taken

namespace Schemata

open Token Cursor Nesting

variable {t : Token} {ts us : List Token} {closing : List Char}

namespace Token

/-- A mark takes one character behind its layout. -/
theorem getElem?_spans_mark {c : Char} (ht : t.isPunct c = true) (offset : Nat)
    (before after : List Token) : (spans offset (before ++ t :: after))[before.length]? =
      some (offset + (fullText before ++ t.layout).length,
        offset + (fullText before ++ t.layout).length + 1) := by
  have htext : fullText (before ++ [t]) = fullText before ++ t.layout ++ [c] := by
    simp [text_of_isPunct ht]
  rw [getElem?_spans, htext]
  simp only [List.length_append, List.length_singleton, Nat.add_assoc]

/-- The scans of the text and of the tokens close a group at the same parenthesis; `k` groups are open
    within it. -/
theorem closing?_fullText (h : Clear ts closing) (offset k : Nat) :
    (closing? .outside (k + 1) (fullText ts ++ closing)).map (offset + ·) =
      (closeGroup k ts).bind fun r => (spans offset ts)[r.1.length]?.map Prod.fst := by
  induction ts generalizing offset k with
  | nil =>
    have hquiet := Quiet.of_blank h.blankClosing
    rw [fullText_nil, List.nil_append, ← List.append_nil closing, hquiet.closing?]
    rfl
  | cons t ts ih =>
    rw [fullText_cons, List.append_assoc, List.append_assoc, closeGroup]
    by_cases hstop : t.isPunct ')' = true ∧ k = 0
    · obtain ⟨ht, rfl⟩ := hstop
      rw [if_pos (by simp [ht])]
      rw [Int.natCast_zero, Int.zero_add, h.closing?_stop ht]
      rfl
    · have hd : t.isPunct ')' = true → (k + 1 : Int) ≠ 1 := fun ht hk => hstop ⟨ht, by omega⟩
      rw [if_neg (by simpa using hstop), h.closing?_pass hd, Option.map_map]
      dsimp only
      generalize hk' : (if t.isPunct '(' = true then k + 1
        else if t.isPunct ')' = true then k - 1 else k) = k'
      have hdepth : (k + 1 : Int) + t.opens = k' + 1 := by
        rw [opens, ← hk']
        split
        · omega
        · split
          · next ht => have := hd ht; omega
          · omega
      rw [hdepth]
      calc
        _ = (closing? .outside (k' + 1) (fullText ts ++ closing)).map
            (offset + t.layout.length + t.text.length + ·) := by
          congr 1
          funext n
          simp only [Function.comp_apply]
          omega
        _ = (closeGroup k' ts).bind fun r =>
            (spans (offset + t.layout.length + t.text.length) ts)[r.1.length]?.map Prod.fst :=
          ih h.tail _ k'
        _ = _ := by
          rw [Option.bind_map]
          rfl

end Token

namespace Nesting

/-- The group that opens behind a text which leaves no quote open. -/
theorem groupAt?_append {front : List Char} (h : Quotes.after .outside front = .outside)
    (rest : List Char) : groupAt? (front ++ '(' :: rest) front.length =
      ((closing? .outside 1 rest).map (front.length + 1 + ·)).map fun c =>
        (part (front ++ '(' :: rest) (front.length + 1, c), c) := by
  have hopen : (front ++ '(' :: rest)[front.length]? = some '(' := by simp
  have hfirst : closing? .outside 0 ('(' :: rest) = (closing? .outside 1 rest).map (· + 1) := rfl
  rw [Nesting.groupAt?, if_pos hopen, List.take_left, List.drop_left]
  dsimp only
  rw [h, hfirst, Option.map_map, Option.map_map]
  congr 1
  funext n
  simp only [Function.comp_apply, part, List.take_succ_cons, List.drop_succ_cons, List.drop_zero]
  have hstop : front.length + (n + 1) = front.length + 1 + n := by omega
  have htake : (front ++ '(' :: rest).take (front.length + 1 + n) = front ++ '(' :: rest.take n := by
    rw [← hstop, List.take_length_add_append, List.take_succ_cons]
  have hdrop : (front ++ '(' :: rest.take n).drop (front.length + 1) = rest.take n := by
    rw [List.drop_length_add_append, List.drop_succ_cons, List.drop_zero]
  rw [hstop, htake, hdrop]

end Nesting

namespace Token

/-- Behind a parenthesis, the text is read as the group that its tokens make up. -/
theorem Clear.groupAt? {before after : List Token} (h : Clear (before ++ t :: after) closing)
    (ht : t.isPunct '(' = true) {o : Nat} (ho : o = (fullText before ++ t.layout).length) :
    groupAt? (fullText (before ++ t :: after) ++ closing) o =
      ((closeGroup 0 after).bind fun r => (spans (o + 1) after)[r.1.length]?.map Prod.fst).map
        fun c => (part (fullText (before ++ t :: after) ++ closing) (o + 1, c), c) := by
  have htext : fullText (before ++ t :: after) ++ closing =
      (fullText before ++ t.layout) ++ '(' :: (fullText after ++ closing) := by
    simp [text_of_isPunct ht]
  have hbefore := (h.of_run (List.prefix_append before _).isInfix).after_fullText
  have hquotes : Quotes.after .outside (fullText before ++ t.layout) = .outside := by
    rw [after_append, hbefore, h.of_append.quiet_layout.after]
  have hclose := closing?_fullText h.of_append.tail (o + 1) 0
  rw [Int.natCast_zero, Int.zero_add] at hclose
  rw [← hclose, htext, ho]
  exact groupAt?_append hquotes _

/-- **Groups in texts and tokens.** In a text that stripping leaves alone and that has no dollar-quoted
    literal, take an opening parenthesis. Either its group is read from the tokens; then the text
    of the group is read with the same extent, up to the parenthesis that ends the tokens. Or the
    parenthesis stays open for both. -/
theorem parenthetical?_eq_group {s : String} {i o stop : Nat} (h : scan s = .ok ts)
    (hs : Comment.strip s = s) (hd : ∀ t ∈ ts, t.isDollarQuoted = false) (hi : ts[i]? = some t)
    (ht : t.isPunct '(' = true) (ho : (spans 0 ts)[i]? = some (o, stop)) :
    (∃ inside rest u c, group (ts.drop i) = .ok (inside, rest) ∧
      ts.drop i = t :: (inside ++ u :: rest) ∧ u.isPunct ')' = true ∧
      (spans 0 ts)[i + 1 + inside.length]? = some (c, c + 1) ∧
      parenthetical? s o = some (String.ofList (part s.toList (o + 1, c)), c)) ∨
    (group (ts.drop i) = .error .openParenthesis ∧ parenthetical? s o = none) := by
  obtain ⟨closing, hclear, htext⟩ := clear_of_scan h hs hd
  obtain ⟨before, after, rfl, rfl⟩ : ∃ before after, ts = before ++ t :: after ∧
      i = before.length := by
    obtain ⟨hlt, hget⟩ := List.getElem?_eq_some_iff.1 hi
    refine ⟨ts.take i, ts.drop (i + 1), ?_, by simp; omega⟩
    rw [← hget, ← List.drop_eq_getElem_cons, List.take_append_drop]
  have hstart : (fullText before ++ t.layout).length = o := by
    rw [getElem?_spans_mark ht, Option.some.injEq, Prod.mk.injEq, Nat.zero_add] at ho
    exact ho.1
  have hgroup := hclear.groupAt? ht hstart.symm
  rw [htext] at hgroup
  have hread : parenthetical? s o = (Nesting.groupAt? s.toList o).map
      fun r => (String.ofList r.1, r.2) := by
    rw [parenthetical?, if_neg (by omega), Int.toNat_natCast]
  rw [hread, hgroup, List.drop_left, group, if_pos ht]
  cases hclose : closeGroup 0 after with
  | none => exact .inr ⟨rfl, rfl⟩
  | some r =>
    obtain ⟨inside, rest⟩ := r
    obtain ⟨⟨u, hu, rfl⟩, -⟩ := of_closeGroup hclose
    have hinside := getElem?_spans_mark hu (o + 1) inside rest
    have hspan := getElem?_spans_mark hu 0 (before ++ t :: inside) rest
    have hindex : (before ++ t :: inside).length = before.length + 1 + inside.length := by
      simp
      omega
    have hstop : 0 + (fullText (before ++ t :: inside) ++ u.layout).length =
        o + 1 + (fullText inside ++ u.layout).length := by
      rw [← hstart, fullText_append, fullText_cons, text_of_isPunct ht]
      simp
      omega
    rw [hstop, hindex, List.append_assoc, List.cons_append] at hspan
    refine .inl ⟨inside, rest, u, _, rfl, rfl, hu, hspan, ?_⟩
    rw [Option.bind_some, hinside]
    rfl

/-- Parentheses in literals and in quoted names, before a group and inside it, and a parenthesis that
    stays open. -/
theorem parenthetical?_eq_group_clause :
    let text := "f(')', \"a(\") as \"b(\" where x in ((1), 'it''s )', \")(\") and (y"
    ∃ ts, scan text = .ok ts ∧ Comment.strip text = text ∧
      (∀ t ∈ ts, t.isDollarQuoted = false) ∧
      (∃ t, ts[11]? = some t ∧ t.isPunct '(' = true ∧ (spans 0 ts)[11]? = some (32, 33) ∧
        ∃ inside rest u c, group (ts.drop 11) = .ok (inside, rest) ∧
          ts.drop 11 = t :: (inside ++ u :: rest) ∧ u.isPunct ')' = true ∧
          (spans 0 ts)[11 + 1 + inside.length]? = some (c, c + 1) ∧
          parenthetical? text 32 = some (String.ofList (part text.toList (33, c)), c)) ∧
      ∃ t, ts[21]? = some t ∧ t.isPunct '(' = true ∧ (spans 0 ts)[21]? = some (59, 60) ∧
        group (ts.drop 21) = .error .openParenthesis ∧ parenthetical? text 59 = none := by
  intro text
  have hs : Comment.strip text = text := by decide +kernel
  have hclosed : parenthetical? text 32 = some ("(1), 'it''s )', \")(\"", 53) := by decide +kernel
  have hopen : parenthetical? text 59 = none := by decide +kernel
  have hok : (scan text).toOption.any (fun ts => ts.all (fun t => !t.isDollarQuoted) &&
      ts[11]?.any (isPunct '(') && ts[21]?.any (isPunct '(') &&
      (spans 0 ts)[11]? == some (32, 33) && (spans 0 ts)[21]? == some (59, 60)) = true := by
    decide +kernel
  obtain ⟨ts, hts, hcheck⟩ := exists_ok_of_any hok
  simp only [Bool.and_eq_true, List.all_eq_true, Option.any_eq_true, beq_iff_eq] at hcheck
  obtain ⟨⟨⟨⟨hd, t, ht, hp⟩, u, hu, hq⟩, htspan⟩, huspan⟩ := hcheck
  have hd : ∀ t ∈ ts, t.isDollarQuoted = false := fun t ht => by simpa using hd t ht
  refine ⟨ts, hts, hs, hd, ⟨t, ht, hp, htspan, ?_⟩, u, hu, hq, huspan, ?_⟩
  · rcases parenthetical?_eq_group hts hs hd ht hp htspan with h | ⟨-, hnone⟩
    · exact h
    · cases hclosed.symm.trans hnone
  · rcases parenthetical?_eq_group hts hs hd hu hq huspan with ⟨_, _, _, _, -, -, -, -, hsome⟩ | h
    · cases hopen.symm.trans hsome
    · exact h

end Token

end Schemata

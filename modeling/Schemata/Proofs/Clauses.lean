/-
  Clauses are read as they are written, whatever clause comes next.

  * `ColumnClauses.follows`: clauses may stand behind a clause;
  * one lemma for each reader: what the grammar has as the tokens of a part is read as that part, up to
    the next clause (`references_append`, `generated_append`, `clause_append`);
  * `clauses_eq`: so clauses that stand one behind the other are read one by one.
-/
import Schemata.Proofs.Grammar

namespace Schemata.Grammar

open Token Cursor Statement Written

variable {words : List String} {w : String} {t : Token} {ts us rest inside : List Token}
  {c : Clause} {r r' : Reference}

/-! ## Keywords -/

/-- Some keyword of one list is not the one at the same place of the other, so that no tokens are
    both. -/
def differ (words words' : List String) : Bool := (words.zip words').any fun p => p.1 != p.2

namespace Keywords

theorem accept_eq (h : Keywords words ts) (rest : List Token) :
    accept words (ts ++ rest) = some rest := by
  induction h with
  | nil => cases rest <;> rfl
  | cons ht _ ih => rw [List.cons_append, accept, if_pos ht, ih]

theorem accept_eq_none {words' : List String} (h : Keywords words ts)
    (hd : differ words' words = true) (rest : List Token) : accept words' (ts ++ rest) = none := by
  induction h generalizing words' with
  | nil => simp [differ] at hd
  | @cons w t words ts ht _ ih =>
    cases words' with
    | nil => cases hd
    | cons w' words' =>
      rw [List.cons_append, accept, isKeyword_of_isKeyword ht]
      by_cases hw : w' = w
      · have hd : differ words' words = true := by simpa [differ, hw] using hd
        simp [hw, ih hd]
      · simp [hw]

end Keywords

/-- Of sequences that differ, the one that is there is read. -/
theorem acceptFirst_append {options : List (List String)}
    (hd : options.Pairwise fun words words' => differ words words' = true) (hw : words ∈ options)
    (h : Keywords words ts) (rest : List Token) :
    acceptFirst options (ts ++ rest) = some (words, rest) := by
  induction hd with
  | nil => cases hw
  | cons ho _ ih =>
    rw [acceptFirst]
    rcases List.mem_cons.1 hw with rfl | hw
    · rw [h.accept_eq]
    · rw [h.accept_eq_none (ho _ hw), ih hw]

namespace Follows

variable (h : Follows rest)
include h

/-- Only the keyword of a clause is there. -/
theorem accept_eq_none (hw : w ∉ clauseKeywords) (words : List String) :
    accept (w :: words) rest = none := by
  cases rest with
  | nil => rfl
  | cons t rest =>
    obtain ⟨w', hw', ht⟩ := List.any_eq_true.1 (h.starts t rfl)
    have hne : w ≠ w' := fun he => hw (he ▸ hw')
    rw [accept, isKeyword_of_isKeyword ht, decide_eq_false hne]
    rfl

theorem atPunct (mark : Char) : atPunct mark rest = false := by
  cases rest with
  | nil => rfl
  | cons t rest =>
    obtain ⟨w, -, ht⟩ := List.any_eq_true.1 (h.starts t rfl)
    exact isPunct_of_isKeyword ht mark

/-- A type or a default ends there. -/
theorem span : spanElementsFrom startsClause 0 rest = some ([], rest) := by
  cases rest with
  | nil => rfl
  | cons t rest => rw [spanElementsFrom, if_pos ⟨rfl, h.starts t rfl⟩]

end Follows

theorem follows_nil : Follows [] := ⟨nofun, rfl⟩

/-- What starts with the keyword of a clause may stand behind another clause. -/
theorem Keywords.follows (h : Keywords (w :: words) ts) (hw : w ∈ clauseKeywords)
    (hn : w = "NOT" → words = ["NULL"]) (rest : List Token) : Follows (ts ++ rest) := by
  refine ⟨fun t ht => ?_, h.accept_eq_none ?_ rest⟩
  · obtain ⟨t', us, rfl, hk, -⟩ := h.exists_cons
    obtain rfl := Option.some.inj ht
    exact List.any_eq_true.2 ⟨w, hw, hk⟩
  · by_cases he : w = "NOT"
    · rw [he, hn he]
      rfl
    · have : ("NOT" != w) = true := bne_iff_ne.2 (Ne.symm he)
      simp [differ, this]

theorem NamedClause.follows {c : Option String × Clause} (h : NamedClause c ts)
    (rest : List Token) : Follows (ts ++ rest) := by
  cases h with
  | plain h =>
    obtain ⟨w, words, us, vs, rfl, hk, hw, -, hn⟩ := h.exists_keywords
    rw [List.append_assoc]
    exact hk.follows hw hn _
  | named hk =>
    rw [List.append_assoc]
    exact hk.follows (by decide) (by decide) _

theorem ColumnClauses.follows {cs : List (Option String × Clause)} (h : ColumnClauses cs ts) :
    Follows ts := by
  cases h with
  | nil => exact follows_nil
  | cons h => exact h.follows _

/-! ## Groups -/

theorem Grouped.group_eq (h : Grouped inside ts) (rest : List Token) :
    group (ts ++ rest) = .ok (inside, rest) := by
  cases h with
  | mk ho hinside hc =>
    rw [List.cons_append, List.append_assoc]
    exact group_enclosed rest ho hc hinside

theorem Grouped.atPunct (h : Grouped inside ts) (rest : List Token) :
    atPunct '(' (ts ++ rest) = true := by
  cases h with
  | mk ho => exact ho

/-! ## References -/

theorem referentialAction_append {a : String} (h : ActionTokens a ts)
    (hr : atPunct '(' rest = false) : referentialAction (ts ++ rest) = .ok (a, rest) := by
  cases h with
  | mk hw hk hg =>
    rw [List.append_assoc, referentialAction, acceptFirst_append (by decide) hw hk]
    obtain rfl | ⟨inside, hg⟩ := hg
    · simp [hr]
    · simp only [hg.atPunct, if_true, hg.group_eq]

theorem referenceOption_append (h : OptionTokens r r' ts) (hr : atPunct '(' rest = false) :
    referenceOption r (ts ++ rest) = .ok (some (r', rest)) := by
  cases h with
  | onDelete hk ha =>
    simp only [List.append_assoc, referenceOption, hk.accept_eq, referentialAction_append ha hr]
    rfl
  | onUpdate hk ha =>
    simp (disch := decide) only [List.append_assoc, referenceOption, hk.accept_eq, hk.accept_eq_none,
      referentialAction_append ha hr]
    rfl
  | matching hk =>
    simp (disch := decide) only [List.append_assoc, referenceOption, hk.accept_eq, hk.accept_eq_none]
    rfl
  | deferrable hk =>
    simp (disch := decide) only [referenceOption, acceptFirst, hk.accept_eq, hk.accept_eq_none]
  | notDeferrable hk =>
    simp (disch := decide) only [referenceOption, acceptFirst, hk.accept_eq, hk.accept_eq_none]
  | initially hk =>
    simp (disch := decide) only [List.append_assoc, referenceOption, acceptFirst, hk.accept_eq,
      hk.accept_eq_none]
    rfl

/-- No option of a reference starts with a clause: `NOT` is read with `DEFERRABLE` only. -/
theorem referenceOption_follows (h : Follows rest) (r : Reference) :
    referenceOption r rest = .ok none := by
  simp (disch := decide) only [referenceOption, acceptFirst, h.accept_eq_none, h.notDeferrable]

theorem OptionTokens.atPunct (h : OptionTokens r r' ts) (rest : List Token) (mark : Char) :
    atPunct mark (ts ++ rest) = false := by
  have hmark {w : String} {words : List String} {ts : List Token} (hk : Keywords (w :: words) ts)
      (rest : List Token) : Cursor.atPunct mark (ts ++ rest) = false := by
    obtain ⟨t, us, rfl, ht, -⟩ := hk.exists_cons
    exact isPunct_of_isKeyword ht mark
  cases h with
  | onDelete hk | onUpdate hk | matching hk | initially hk => exact List.append_assoc .. ▸ hmark hk _
  | deferrable hk | notDeferrable hk => exact hmark hk _

theorem OptionsTokens.atPunct (h : OptionsTokens r r' ts) (hr : Follows rest) (mark : Char) :
    atPunct mark (ts ++ rest) = false := by
  cases h with
  | nil => exact hr.atPunct mark
  | cons h => exact List.append_assoc .. ▸ h.atPunct _ mark

theorem referenceOptions_append (h : OptionsTokens r r' ts) (hr : Follows rest) :
    referenceOptions r (ts ++ rest) = .ok (r', rest) := by
  induction h with
  | nil => exact referenceOptions_of_none (referenceOption_follows hr _)
  | cons h hs ih =>
    rw [List.append_assoc, referenceOptions_of_some (referenceOption_append h (hs.atPunct hr _)), ih]

/-- The target of a reference ends where the next clause starts. -/
theorem references_append (h : TargetTokens r ts) (hr : Follows rest) :
    references (ts ++ rest) = .ok (r, rest) := by
  cases h with
  | table hname hoptions =>
    rw [List.append_assoc, references, qualifiedName, nameParts_dotted hname (hoptions.atPunct hr _)]
    simp only [hoptions.atPunct hr, Bool.false_eq_true, if_false]
    exact referenceOptions_append hoptions hr
  | @columns parts ts inside us vs hname hg hne hoptions =>
    have hdot : atPunct '.' (us ++ (vs ++ rest)) = false := by
      cases hg with
      | mk ho => exact isPunct_ne ho (by decide)
    have hlist : columnList (us ++ (vs ++ rest)) =
        .ok ((Token.items inside).map columnItem, vs ++ rest) := by
      obtain ⟨item, items, hitems⟩ := List.exists_cons_of_ne_nil hne
      simp only [columnList, hg.group_eq, hitems, List.map_cons]
    rw [List.append_assoc, List.append_assoc, references, qualifiedName, nameParts_dotted hname hdot]
    simp only [hg.atPunct, if_true, hlist]
    exact referenceOptions_append hoptions hr

/-! ## Clauses -/

theorem Grouped.accept_eq_none (h : Grouped inside ts) (w : String) (words : List String)
    (rest : List Token) : accept (w :: words) (ts ++ rest) = none := by
  cases h with
  | @mk o c ho =>
    have : o.isKeyword w = false := Bool.eq_false_iff.2 fun hk => by
      rw [isPunct_of_isKeyword hk] at ho
      cases ho
    rw [List.cons_append, accept, this]
    rfl

/-- What comes behind `GENERATED` ends where the next clause starts. -/
theorem generated_append (h : GeneratedTokens ts) (hr : Follows rest) :
    generated (ts ++ rest) = .ok rest := by
  -- `BY DEFAULT` is read here, so that its second word starts no clause
  have hmode {mode : List String} {ts : List Token} (hm : mode ∈ generatedModes)
      (hk : Keywords mode ts) (rest : List Token) :
      acceptFirst [["ALWAYS"], ["BY", "DEFAULT"]] (ts ++ rest) = some (mode, rest) :=
    acceptFirst_append (by decide) hm hk rest
  cases h with
  | identity hm hk ha hi hg =>
    simp only [List.append_assoc, generated, hmode hm hk, ha.accept_eq, hi.accept_eq]
    obtain rfl | ⟨inside, hg⟩ := hg
    · simp [hr.atPunct]
    · simp only [hg.atPunct, if_true, hg.group_eq]
      rfl
  | expression hm hk ha hg =>
    have hkept : acceptFirst [["STORED"], ["VIRTUAL"]] rest = none := by
      simp (disch := decide) only [acceptFirst, hr.accept_eq_none]
    simp only [List.append_assoc, generated, hmode hm hk, ha.accept_eq, hg.accept_eq_none, hg.group_eq,
      Except.map, hkept]
  | @kept mode word ts us inside vs ws hm hk ha hg hw hs =>
    have hkept : acceptFirst [["STORED"], ["VIRTUAL"]] (ws ++ rest) = some ([word], rest) := by
      refine acceptFirst_append (by decide) ?_ hs rest
      simpa using hw
    simp only [List.append_assoc, generated, hmode hm hk, ha.accept_eq, hg.accept_eq_none, hg.group_eq,
      Except.map, hkept]

/-- A clause ends where the next clause starts. -/
theorem clause_append (h : ClauseTokens c ts) (hr : Follows rest) :
    clause (ts ++ rest) = .ok (c, rest) := by
  cases h with
  | notNull hk | null hk | primaryKey hk | unique hk =>
    simp (disch := decide) only [clause, hk.accept_eq, hk.accept_eq_none]
  | default hk he =>
    obtain ⟨inner, hskip, hinner⟩ := he.element
    simp (disch := decide) only [List.append_assoc, clause, hk.accept_eq, hk.accept_eq_none,
      defaultExpression_append hskip hinner hr.span, Except.map]
  | references hk h =>
    simp (disch := decide) only [List.append_assoc, clause, hk.accept_eq, hk.accept_eq_none,
      references_append h hr, Except.map]
  | check hk h =>
    simp (disch := decide) only [List.append_assoc, clause, hk.accept_eq, hk.accept_eq_none,
      h.group_eq, Except.map]
  | collate hk h =>
    simp (disch := decide) only [List.append_assoc, clause, hk.accept_eq, hk.accept_eq_none,
      nameParts_dotted h (hr.atPunct '.'), Except.map]
  | generated hk h =>
    simp (disch := decide) only [List.append_assoc, clause, hk.accept_eq, hk.accept_eq_none,
      generated_append h hr, Except.map]

/-- One clause is read, whatever name is pending. -/
theorem clausesFrom_append (h : ClauseTokens c ts) (hr : Follows rest) (fuel : Nat)
    (name : Option String) : clausesFrom (fuel + 1) name (ts ++ rest) =
      ⟨(name, c) :: (clausesFrom fuel none rest).clauses, (clausesFrom fuel none rest).fault⟩ := by
  obtain ⟨w, words, us, vs, hts, hk, -, hw, -⟩ := h.exists_keywords
  have hempty : (ts ++ rest).isEmpty = false := by
    rw [List.isEmpty_eq_false_iff]
    exact List.append_ne_nil_of_left_ne_nil (NamedClause.plain h).ne_nil rest
  have hname : accept ["CONSTRAINT"] (ts ++ rest) = none := by
    have hd : differ ["CONSTRAINT"] (w :: words) = true := by
      simpa [differ] using Ne.symm hw
    rw [hts, List.append_assoc]
    exact hk.accept_eq_none hd _
  rw [clausesFrom]
  simp only [hempty, Bool.false_eq_true, if_false, hname, clause_append h hr]

/-- Clauses that stand one behind the other are read one by one. -/
theorem clausesFrom_eq {cs : List (Option String × Clause)} (h : ColumnClauses cs ts) {fuel : Nat}
    (hf : ts.length ≤ fuel) : clausesFrom fuel none ts = ⟨cs, none⟩ := by
  induction h generalizing fuel with
  | nil => exact clausesFrom_nil fuel none
  | @cons c cs ts us h hs ih =>
    have hpos := List.length_pos_of_ne_nil h.ne_nil
    rw [List.length_append] at hf
    obtain ⟨fuel, rfl⟩ : ∃ n, fuel = n + 1 := ⟨fuel - 1, by omega⟩
    cases h with
    | plain h => rw [clausesFrom_append h hs.follows, ih (by omega)]
    | @named c t ts vs hk ht h =>
      -- the name takes a step of its own
      have hpos' := List.length_pos_of_ne_nil hk.ne_nil
      rw [List.length_append, List.length_cons] at hf
      obtain ⟨fuel, rfl⟩ : ∃ n, fuel = n + 1 := ⟨fuel - 1, by omega⟩
      have hempty : (ts ++ t :: vs ++ us).isEmpty = false := by
        rw [List.isEmpty_eq_false_iff]
        simp
      have hname : expectName "constraint name" (t :: (vs ++ us)) = .ok (t.identifier, vs ++ us) := by
        rw [expectName, if_pos ht]
      rw [clausesFrom, hempty, List.append_assoc, hk.accept_eq]
      simp only [Bool.false_eq_true, if_false, List.cons_append, hname]
      rw [clausesFrom_append h hs.follows, ih (by omega)]

theorem clauses_eq {cs : List (Option String × Clause)} (h : ColumnClauses cs ts) :
    clauses ts = ⟨cs, none⟩ := clausesFrom_eq h (Nat.le_refl _)

end Schemata.Grammar

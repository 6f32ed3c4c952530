/-
  Scanning.  A text is cut into tokens, each with the layout in front of it, and the layout after
  the last one.

  * `spanLayout` splits off blanks and comments and `lexeme` the token that follows;
  * `scan` does both until the text ends; it fails where a quote or a comment stays open;
  * `eq_append_of_spanLayout`, `eq_append_of_lexeme`: neither loses a character;
    `fullText_append_of_scanList`: the tokens and the closing layout are the text.
-/
import Schemata.Text.Class
import Schemata.Token.Basic

namespace Schemata.Token

/-! ## Failure -/

/-- What can stay open. -/
inductive Unclosed where
  | literal
  | name
  | comment
  | dollarQuote
deriving DecidableEq, Repr

/-- What stayed open, and the number of characters from its start to the end of the text. -/
structure OpenEnd where
  what : Unclosed
  remaining : Nat
deriving DecidableEq, Repr

/-! ## Layout -/

/-- Where a place in the layout stands. -/
inductive LayoutPlace where
  /-- Between comments. -/
  | between
  /-- Inside a line comment. -/
  | line
  /-- Inside a block comment that started so many characters before the end. -/
  | block (remaining : Nat)
deriving DecidableEq, Repr

/-- A layout with characters put in front of it. -/
def prependLayout (front : List Char) (r : Except OpenEnd (List Char × List Char)) :
    Except OpenEnd (List Char × List Char) :=
  r.map fun (layout, rest) => (front ++ layout, rest)

/-- The layout at the start of a text, and the rest. -/
def spanLayoutFrom : LayoutPlace → List Char → Except OpenEnd (List Char × List Char)
  | .block n, [] => .error ⟨.comment, n⟩
  | _, [] => .ok ([], [])
  | .between, '-' :: '-' :: cs => prependLayout ['-', '-'] (spanLayoutFrom .line cs)
  | .between, '/' :: '*' :: cs =>
    prependLayout ['/', '*'] (spanLayoutFrom (.block (cs.length + 2)) cs)
  | .between, c :: cs =>
    if Text.isBlank c then prependLayout [c] (spanLayoutFrom .between cs) else .ok ([], c :: cs)
  | .line, c :: cs =>
    prependLayout [c] (spanLayoutFrom (if c = '\n' then .between else .line) cs)
  | .block _, '*' :: '/' :: cs => prependLayout ['*', '/'] (spanLayoutFrom .between cs)
  | .block n, c :: cs => prependLayout [c] (spanLayoutFrom (.block n) cs)

/-- The layout at the start of a text, and the rest. -/
def spanLayout (cs : List Char) : Except OpenEnd (List Char × List Char) :=
  spanLayoutFrom .between cs

theorem prependLayout_eq_ok {front layout rest : List Char}
    {r : Except OpenEnd (List Char × List Char)} (h : prependLayout front r = .ok (layout, rest)) :
    ∃ layout', r = .ok (layout', rest) ∧ layout = front ++ layout' := by
  cases r with
  | error e => simp [prependLayout, Except.map] at h
  | ok p =>
    obtain ⟨l, r⟩ := p
    simp only [prependLayout, Except.map, Except.ok.injEq, Prod.mk.injEq] at h
    exact ⟨l, by rw [h.2], h.1.symm⟩

/-- Splitting off the layout loses nothing. -/
theorem eq_append_of_spanLayoutFrom {place : LayoutPlace} {cs layout rest : List Char}
    (h : spanLayoutFrom place cs = .ok (layout, rest)) : cs = layout ++ rest := by
  fun_induction spanLayoutFrom place cs generalizing layout with
  | case1 => simp at h
  | case2 => simp at h; simp [h.1, h.2]
  | case6 => simp at h; simp [← h.1, ← h.2]
  | case3 _ ih | case4 _ ih | case5 _ _ _ _ _ ih | case7 _ _ ih | case8 _ _ ih
  | case9 _ _ _ _ ih =>
    obtain ⟨l, hl, rfl⟩ := prependLayout_eq_ok h
    simp [ih hl]

theorem eq_append_of_spanLayout {cs layout rest : List Char}
    (h : spanLayout cs = .ok (layout, rest)) : cs = layout ++ rest :=
  eq_append_of_spanLayoutFrom h

/-! ## Lexemes -/

/-- The characters up to the closing quote, where a doubled quote stands for itself, and the
    rest. -/
def closeQuote? (q : Char) : List Char → Option (List Char × List Char)
  | [] => none
  | [c] => if c = q then some ([c], []) else none
  | c :: d :: cs =>
    if c = q then
      if d = q then (closeQuote? q cs).map fun (body, rest) => (c :: d :: body, rest)
      else some ([c], d :: cs)
    else (closeQuote? q (d :: cs)).map fun (body, rest) => (c :: body, rest)

/-- A character that a word starts with. -/
def startsWord (c : Char) : Bool := Text.isAsciiLetter c || c == '_'

/-- A character inside a dollar tag. -/
def inTag (c : Char) : Bool := startsWord c || Text.isAsciiDigit c

/-- A character inside a word. -/
def inWord (c : Char) : Bool := inTag c || c == '$'

/-- A mark that is a token of its own. -/
def isMark (c : Char) : Bool := ['(', ')', ',', ';', '.', '[', ']'].contains c

/-- A character that runs together with its like. -/
def isOperatorChar (c : Char) : Bool :=
  ['+', '-', '*', '/', '<', '>', '=', '~', '!', '@', '#', '%', '^', '&', '|', '\x60', '?',
    ':'].contains c

/-- Whether a comment starts here. -/
def startsComment : List Char → Bool
  | '-' :: '-' :: _ => true
  | '/' :: '*' :: _ => true
  | _ => false

/-- The rest of an operator, and what follows it. -/
def spanOperator : List Char → List Char × List Char
  | [] => ([], [])
  | c :: cs =>
    if isOperatorChar c && !startsComment (c :: cs) then
      let (run, rest) := spanOperator cs
      (c :: run, rest)
    else ([], c :: cs)

/-- The digits at the start of a text, and the rest. -/
def spanDigits (cs : List Char) : List Char × List Char :=
  (cs.takeWhile Text.isDigit, cs.dropWhile Text.isDigit)

/-- The exponent at the start of a text, if there is one, and the rest. -/
def spanExponent (cs : List Char) : List Char × List Char :=
  match cs with
  | e :: rest =>
    if e = 'e' ∨ e = 'E' then
      match rest with
      | s :: rest' =>
        if s = '+' ∨ s = '-' then
          let (ds, rest'') := spanDigits rest'
          if ds.isEmpty then ([], cs) else (e :: s :: ds, rest'')
        else
          let (ds, rest'') := spanDigits rest
          if ds.isEmpty then ([], cs) else (e :: ds, rest'')
      | [] => ([], cs)
    else ([], cs)
  | [] => ([], [])

/-- The point and the digits after it, if there is a point, and the rest. -/
def spanFraction (cs : List Char) : List Char × List Char :=
  match cs with
  | '.' :: rest =>
    let (ds, rest') := spanDigits rest
    ('.' :: ds, rest')
  | _ => ([], cs)

/-- The rest of a number after its first digits, and what follows it. -/
def spanNumber (cs : List Char) : List Char × List Char :=
  let (ds, rest) := spanDigits cs
  let (fraction, rest) := spanFraction rest
  let (exponent, rest) := spanExponent rest
  (ds ++ fraction ++ exponent, rest)

/-- The rest of a number after its leading point, and what follows it. -/
def spanPlaces (cs : List Char) : List Char × List Char :=
  let (ds, rest) := spanDigits cs
  let (exponent, rest) := spanExponent rest
  (ds ++ exponent, rest)

/-- The tag after a dollar, its closing dollar included, and the rest. -/
def spanTag? (cs : List Char) : Option (List Char × List Char) :=
  let tag := cs.takeWhile inTag
  match cs.dropWhile inTag with
  | '$' :: rest =>
    if (tag.head?.any startsWord) || tag.isEmpty then some (tag ++ ['$'], rest) else none
  | _ => none

/-- The token at the start of a non-empty text, and the rest. -/
def lexeme (c : Char) (cs : List Char) :
    Except OpenEnd (TokenKind × List Char × List Char) :=
  if c = '\'' then
    match closeQuote? c cs with
    | some (body, rest) => .ok (.string, c :: body, rest)
    | none => .error ⟨.literal, cs.length + 1⟩
  else if c = '"' then
    match closeQuote? c cs with
    | some (body, rest) => .ok (.quoted, c :: body, rest)
    | none => .error ⟨.name, cs.length + 1⟩
  else if c = '$' then
    match spanTag? cs with
    | some (tag, rest) =>
      match Text.cut? (c :: tag) rest with
      | some (body, rest) => .ok (.string, c :: (tag ++ body ++ c :: tag), rest)
      | none => .error ⟨.dollarQuote, cs.length + 1⟩
    | none => .ok (.operator, [c], cs)
  else if startsWord c then .ok (.word, c :: cs.takeWhile inWord, cs.dropWhile inWord)
  else if Text.isDigit c then
    let (tail, rest) := spanNumber cs
    .ok (.number, c :: tail, rest)
  else if c = '.' ∧ cs.head?.any Text.isDigit then
    let (tail, rest) := spanPlaces cs
    .ok (.number, c :: tail, rest)
  else if isMark c then .ok (.punct, [c], cs)
  else if isOperatorChar c then
    let (tail, rest) := spanOperator cs
    .ok (.operator, c :: tail, rest)
  else .ok (.operator, [c], cs)

/-! ## Nothing is lost -/

theorem eq_append_of_closeQuote? {q : Char} {cs body rest : List Char}
    (h : closeQuote? q cs = some (body, rest)) : cs = body ++ rest := by
  fun_induction closeQuote? q cs generalizing body with
  | case1 => simp at h
  | case2 => simp at h; simp [← h.1, ← h.2]
  | case3 => simp at h
  | case4 _ ih =>
    obtain ⟨⟨b, r⟩, hb, he⟩ := Option.map_eq_some_iff.1 h
    cases he; simp [ih hb]
  | case5 => simp at h; simp [← h.1, ← h.2]
  | case6 _ _ _ _ ih =>
    obtain ⟨⟨b, r⟩, hb, he⟩ := Option.map_eq_some_iff.1 h
    cases he; simp [ih hb]

theorem spanOperator_append (cs : List Char) :
    (spanOperator cs).1 ++ (spanOperator cs).2 = cs := by
  fun_induction spanOperator cs with
  | case1 => rfl
  | case2 c cs _ run rest hr ih => simpa [hr] using ih
  | case3 => rfl

@[simp] theorem spanDigits_append (cs : List Char) :
    (spanDigits cs).1 ++ (spanDigits cs).2 = cs := List.takeWhile_append_dropWhile

@[simp] theorem spanExponent_append (cs : List Char) :
    (spanExponent cs).1 ++ (spanExponent cs).2 = cs := by
  unfold spanExponent
  split
  · next e rest =>
    split
    · split
      · next s rest' =>
        split
        · dsimp only
          split
          · rfl
          · simp
        · dsimp only
          split
          · rfl
          · simp
      · rfl
    · rfl
  · rfl

@[simp] theorem spanFraction_append (cs : List Char) :
    (spanFraction cs).1 ++ (spanFraction cs).2 = cs := by
  unfold spanFraction
  split
  · simp
  · rfl

@[simp] theorem spanNumber_append (cs : List Char) :
    (spanNumber cs).1 ++ (spanNumber cs).2 = cs := by
  simp only [spanNumber, List.append_assoc]
  rw [spanExponent_append, spanFraction_append, spanDigits_append]

@[simp] theorem spanPlaces_append (cs : List Char) :
    (spanPlaces cs).1 ++ (spanPlaces cs).2 = cs := by
  simp only [spanPlaces, List.append_assoc]
  rw [spanExponent_append, spanDigits_append]

theorem eq_append_of_spanTag? {cs tag rest : List Char} (h : spanTag? cs = some (tag, rest)) :
    cs = tag ++ rest := by
  unfold spanTag? at h
  dsimp only at h
  split at h
  · next r hr =>
    split at h
    · cases h
      have := List.takeWhile_append_dropWhile (p := inTag) (l := cs)
      rw [hr] at this
      simpa using this.symm
    · cases h
  · cases h

/-- Splitting off a token loses nothing, and takes at least a character. -/
theorem eq_append_of_lexeme {c : Char} {cs text rest : List Char} {kind : TokenKind}
    (h : lexeme c cs = .ok (kind, text, rest)) : ∃ tail, text = c :: tail ∧ cs = tail ++ rest := by
  unfold lexeme at h
  split at h
  · split at h
    · next hq => cases h; exact ⟨_, rfl, eq_append_of_closeQuote? hq⟩
    · cases h
  split at h
  · split at h
    · next hq => cases h; exact ⟨_, rfl, eq_append_of_closeQuote? hq⟩
    · cases h
  split at h
  · split at h
    · next tag r ht =>
      split at h
      · next body r' hc =>
        cases h
        refine ⟨_, rfl, ?_⟩
        rw [eq_append_of_spanTag? ht, Text.eq_append_of_cut? hc]
        simp
      · cases h
    · cases h; exact ⟨[], rfl, rfl⟩
  split at h
  · cases h; exact ⟨_, rfl, List.takeWhile_append_dropWhile.symm⟩
  split at h
  · cases h; exact ⟨_, rfl, (spanNumber_append cs).symm⟩
  split at h
  · cases h; exact ⟨_, rfl, (spanPlaces_append cs).symm⟩
  split at h
  · cases h; exact ⟨[], rfl, rfl⟩
  split at h
  · cases h; exact ⟨_, rfl, (spanOperator_append cs).symm⟩
  · cases h; exact ⟨[], rfl, rfl⟩

/-! ## Scanning -/

/-- The tokens of a text, and the layout after the last one. -/
def scanList (cs : List Char) : Except OpenEnd (List Token × List Char) :=
  match _h : spanLayout cs with
  | .error e => .error e
  | .ok (layout, []) => .ok ([], layout)
  | .ok (layout, c :: cs') =>
    match _h' : lexeme c cs' with
    | .error e => .error e
    | .ok (kind, text, rest) =>
      (scanList rest).map fun (ts, closing) => (⟨kind, text, layout⟩ :: ts, closing)
termination_by cs.length
decreasing_by
  have h₁ := eq_append_of_spanLayout _h
  obtain ⟨tail, -, h₂⟩ := eq_append_of_lexeme _h'
  subst h₁ h₂
  simp only [List.length_append, List.length_cons]
  omega

/-- The tokens and the closing layout are the text. -/
theorem fullText_append_of_scanList {cs closing : List Char} {ts : List Token}
    (h : scanList cs = .ok (ts, closing)) : fullText ts ++ closing = cs := by
  fun_induction scanList cs generalizing ts with
  | case1 => simp at h
  | case2 cs layout hl =>
    simp at h
    obtain ⟨rfl, rfl⟩ := h
    simpa [fullText] using (eq_append_of_spanLayout hl).symm
  | case3 => simp at h
  | case4 cs layout c cs' hl kind text rest hx ih =>
    cases hs : scanList rest with
    | error e => simp [hs, Except.map] at h
    | ok p =>
      obtain ⟨ts', closing'⟩ := p
      simp only [hs, Except.map, Except.ok.injEq, Prod.mk.injEq] at h
      obtain ⟨rfl, rfl⟩ := h
      obtain ⟨tail, rfl, ht⟩ := eq_append_of_lexeme hx
      rw [eq_append_of_spanLayout hl, ht, ← ih hs]
      simp [fullText]

/-- The tokens of a text, or what stays open in it. -/
def scan (s : String) : Except OpenEnd (List Token) := (scanList s.toList).map Prod.fst

/-- The line that a place stands on, so many characters before the end of a text. -/
def lineOf (s : String) (remaining : Nat) : Nat :=
  let cs := s.toList
  (cs.take (cs.length - remaining)).count '\n' + 1

end Schemata.Token

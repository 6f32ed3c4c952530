/-
  Reading the tokens of one statement from the left.  A reader answers with what it read and the
  tokens that are left, or with a fault.

  * `accept` passes over keywords, `nameParts` and `qualifiedName` read dotted names, `group` reads
    what stands between parentheses, and `spanElements` passes over tokens and whole groups;
  * `length_of_accept`, `length_of_closeGroup` and their companions: reading takes tokens away.
-/
import Schemata.Name
import Schemata.Statement.Fault

namespace Schemata.Cursor

/-! ## Keywords -/

/-- The tokens after a sequence of keywords, if all of them are there. -/
def accept (words : List String) (ts : List Token) : Option (List Token) :=
  match words, ts with
  | [], ts => some ts
  | _ :: _, [] => none
  | w :: words, t :: ts => if t.isKeyword w then accept words ts else none

/-- The tokens after a sequence of keywords, or all tokens if they are not there. -/
def skip (words : List String) (ts : List Token) : List Token := (accept words ts).getD ts

/-- Whether the next token is one of the given keywords. -/
def atKeyword (words : List String) (ts : List Token) : Bool :=
  ts.head?.any (Token.isKeywordOf words)

/-- Whether the next token is the given mark. -/
def atPunct (c : Char) (ts : List Token) : Bool := ts.head?.any (Token.isPunct c)

theorem length_of_accept {words : List String} {ts rest : List Token}
    (h : accept words ts = some rest) : ts.length = words.length + rest.length := by
  induction words generalizing ts with
  | nil => cases ts <;> simp_all [accept]
  | cons w words ih =>
    cases ts with
    | nil => simp [accept] at h
    | cons t ts =>
      rw [accept] at h
      split at h
      · have := ih h
        simp only [List.length_cons]
        omega
      · cases h

theorem length_skip_le (words : List String) (ts : List Token) :
    (skip words ts).length ≤ ts.length := by
  unfold skip
  cases h : accept words ts with
  | none => exact Nat.le_refl _
  | some rest =>
    have := length_of_accept h
    simp only [Option.getD_some]
    omega

/-! ## Names -/

/-- The next token, whatever it is. -/
def advance : List Token → Except ParseFault (Token × List Token)
  | [] => .error .unexpectedEnd
  | t :: ts => .ok (t, ts)

/-- A name; `what` says what it names. -/
def expectName (what : String) : List Token → Except ParseFault (String × List Token)
  | [] => .error (.expected what)
  | t :: ts => if t.isIdentifier then .ok (t.identifier, ts) else .error (.expected what)

/-- The parts of a dotted name. -/
def nameParts (what : String) : List Token → Except ParseFault (List String × List Token)
  | [] => .error (.expected what)
  | t :: ts =>
    if t.isIdentifier then
      match ts with
      | dot :: ts' =>
        if dot.isPunct '.' then
          match nameParts what ts' with
          | .ok (parts, rest) => .ok (t.identifier :: parts, rest)
          | .error e => .error e
        else .ok ([t.identifier], dot :: ts')
      | [] => .ok ([t.identifier], [])
    else .error (.expected what)

/-- A name with the name before it, if there is one. -/
def qualifiedName (what : String) (ts : List Token) :
    Except ParseFault ((Option String × String) × List Token) :=
  match nameParts what ts with
  | .ok (parts, rest) => .ok (Name.lastTwo parts, rest)
  | .error e => .error e

theorem length_of_nameParts {what : String} {ts rest : List Token} {parts : List String}
    (h : nameParts what ts = .ok (parts, rest)) : rest.length < ts.length := by
  fun_induction nameParts what ts generalizing parts with
  | case1 => cases h
  | case2 t _ dot ts' _ parts' rest' hr ih =>
    cases h
    have := ih hr
    simp only [List.length_cons]
    omega
  | case3 => cases h
  | case4 => cases h; simp
  | case5 => cases h; simp
  | case6 => cases h

/-! ## Groups -/

/-- The tokens up to the parenthesis that closes the current group, and those after it; `depth`
    counts the groups that are open within it. -/
def closeGroup (depth : Nat) : List Token → Option (List Token × List Token)
  | [] => none
  | t :: ts =>
    if t.isPunct ')' && depth == 0 then some ([], ts)
    else
      let depth :=
        if t.isPunct '(' then depth + 1 else if t.isPunct ')' then depth - 1 else depth
      (closeGroup depth ts).map fun (inside, rest) => (t :: inside, rest)

/-- The tokens of the group that opens here, and those after it. -/
def group (ts : List Token) : Except ParseFault (List Token × List Token) :=
  match ts with
  | [] => .error (.expected "'('")
  | t :: ts =>
    if t.isPunct '(' then
      match closeGroup 0 ts with
      | some r => .ok r
      | none => .error .openParenthesis
    else .error (.expected "'('")

theorem length_of_closeGroup {depth : Nat} {ts inside rest : List Token}
    (h : closeGroup depth ts = some (inside, rest)) : rest.length < ts.length := by
  induction ts generalizing depth inside with
  | nil => simp [closeGroup] at h
  | cons t ts ih =>
    rw [closeGroup] at h
    split at h
    · cases h; simp
    · obtain ⟨⟨i, r⟩, hr, he⟩ := Option.map_eq_some_iff.1 h
      cases he
      have := ih hr
      simp only [List.length_cons]
      omega

theorem length_of_group {ts inside rest : List Token} (h : group ts = .ok (inside, rest)) :
    rest.length < ts.length := by
  unfold group at h
  split at h
  · cases h
  · split at h
    · split at h
      · next hc =>
        cases h
        have := length_of_closeGroup hc
        simp only [List.length_cons]
        omega
      · cases h
    · cases h

/-- Passes over one token or one whole group. -/
def skipElement (ts : List Token) : Except ParseFault (List Token) :=
  match ts with
  | [] => .error .unexpectedEnd
  | t :: rest =>
    if t.isPunct '(' then
      match closeGroup 0 rest with
      | some (_, rest) => .ok rest
      | none => .error .openParenthesis
    else .ok rest

theorem length_of_skipElement {ts rest : List Token} (h : skipElement ts = .ok rest) :
    rest.length < ts.length := by
  unfold skipElement at h
  split at h
  · cases h
  · split at h
    · split at h
      · next hc =>
        cases h
        have := length_of_closeGroup hc
        simp only [List.length_cons]
        omega
      · cases h
    · cases h; simp

/-- The tokens before the first one outside groups that stops, and the rest; `depth` counts the
    groups that are open.  A closing parenthesis outside groups is a token like others. -/
def spanElementsFrom (stop : Token → Bool) (depth : Nat) :
    List Token → Option (List Token × List Token)
  | [] => if depth = 0 then some ([], []) else none
  | t :: ts =>
    if depth = 0 ∧ stop t then some ([], t :: ts)
    else
      let depth :=
        if t.isPunct '(' then depth + 1 else if t.isPunct ')' then depth - 1 else depth
      (spanElementsFrom stop depth ts).map fun (front, rest) => (t :: front, rest)

/-- The tokens before the first one outside groups that stops, and the rest. -/
def spanElements (stop : Token → Bool) (ts : List Token) :
    Except ParseFault (List Token × List Token) :=
  match spanElementsFrom stop 0 ts with
  | some r => .ok r
  | none => .error .openParenthesis

theorem eq_append_of_spanElementsFrom {stop : Token → Bool} {depth : Nat}
    {ts front rest : List Token} (h : spanElementsFrom stop depth ts = some (front, rest)) :
    ts = front ++ rest := by
  induction ts generalizing depth front with
  | nil =>
    rw [spanElementsFrom] at h
    split at h
    · cases h; rfl
    · cases h
  | cons t ts ih =>
    rw [spanElementsFrom] at h
    split at h
    · cases h; rfl
    · obtain ⟨⟨f, r⟩, hr, he⟩ := Option.map_eq_some_iff.1 h
      cases he
      simp [← ih hr]

/-- Passing over elements loses nothing. -/
theorem eq_append_of_spanElements {stop : Token → Bool} {ts front rest : List Token}
    (h : spanElements stop ts = .ok (front, rest)) : ts = front ++ rest := by
  unfold spanElements at h
  split at h
  · next hs => cases h; exact eq_append_of_spanElementsFrom hs
  · cases h

end Schemata.Cursor

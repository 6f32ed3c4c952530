/-
  Reading written values.

  * `stringTail_stringChars`: the characters of a written string are read as they were;
  * `legible` says of a value that its integers are short enough and that its numbers have texts of
    numbers, and `reread` is the value with every number as its text is read;
  * `read_write`: a legible value is read from its text as `reread`, whatever the style;
    `read_write_of_not_legible`: the text of any other value is a fault;
  * `Kept` values are read as they were: strings, truth values, short integers and what is made of
    them (`kept_arr`, `kept_obj`).
-/
import Schemata.Proofs.Maps
import Schemata.Proofs.NumberText

namespace Schemata.Json

variable {start acc cs rest tail : List Char}

/-! ## Strings -/

theorem hexValue?_digitChar : ∀ k < 16, hexValue? (Nat.digitChar k) = some k := by decide

/-- Four hexadecimal digits are read as the number that they were made from. -/
theorem unitValue?_hexDigits {n : Nat} (h : n < 65536) : ∃ a b c d,
    Text.hexDigits 4 n = [a, b, c, d] ∧ unitValue? a b c d = some n := by
  refine ⟨Nat.digitChar (n / 16 / 16 / 16 % 16), Nat.digitChar (n / 16 / 16 % 16),
    Nat.digitChar (n / 16 % 16), Nat.digitChar (n % 16), rfl, ?_⟩
  have hdigit (k : Nat) : hexValue? (Nat.digitChar (k % 16)) = some (k % 16) :=
    hexValue?_digitChar _ (Nat.mod_lt k (by decide))
  simp only [unitValue?, hdigit, Option.bind_eq_bind, Option.bind_some, Option.pure_def,
    Option.some.injEq]
  omega

/-- A unit that is not the first of a pair stands for its own character. -/
theorem stringTail_unit {a b c d : Char} {n : Nat} (h : unitValue? a b c d = some n)
    (hn : isHighUnit n = false) :
    stringTail start acc ('\\' :: 'u' :: a :: b :: c :: d :: tail) =
      stringTail start (unitChar n :: acc) tail := by
  by_cases hpair : ∃ e f g h rest, tail = '\\' :: 'u' :: e :: f :: g :: h :: rest
  · obtain ⟨e, f, g, x, rest, rfl⟩ := hpair
    rw [stringTail, h]
    dsimp only
    rw [hn]
    split <;> rfl
  · rw [stringTail, h]
    exact fun e f g x rest heq => hpair ⟨e, f, g, x, rest, heq⟩

/-- Two units of a pair stand for one character. -/
theorem stringTail_pair {a b c d e f g h : Char} {n m : Nat} (hn : unitValue? a b c d = some n)
    (hm : unitValue? e f g h = some m) (hhigh : isHighUnit n = true) (hlow : isLowUnit m = true) :
    stringTail start acc
        ('\\' :: 'u' :: a :: b :: c :: d :: '\\' :: 'u' :: e :: f :: g :: h :: tail) =
      stringTail start (pairChar n m :: acc) tail := by
  rw [stringTail, hn, hm]
  dsimp only
  rw [hhigh, hlow]
  rfl

theorem stringTail_short {c e : Char} (hc : c ≠ 'u') (he : shortEscape? c = some e) :
    stringTail start acc ('\\' :: c :: tail) = stringTail start (e :: acc) tail := by
  rw [stringTail, if_neg hc, he]
  · exact fun _ _ _ _ _ _ _ _ _ hu => absurd hu hc
  · exact fun _ _ _ _ _ hu => absurd hu hc

theorem stringTail_plain {c : Char} (hquote : c ≠ '"') (hescape : c ≠ '\\') (hc : 32 ≤ c.toNat) :
    stringTail start acc (c :: tail) = stringTail start (c :: acc) tail := by
  rw [stringTail, if_neg (Nat.not_lt.2 hc)]
  · exact hquote
  · exact fun _ _ _ _ _ _ _ _ _ h => absurd h hescape
  · exact fun _ _ _ _ _ h => absurd h hescape
  · exact fun _ _ h => absurd h hescape
  · exact fun h => absurd h hescape

theorem isHighUnit_toNat (c : Char) : isHighUnit c.toNat = false := by
  have hvalid : c.toNat < 55296 ∨ 57343 < c.toNat ∧ c.toNat < 1114112 := c.valid
  rw [isHighUnit, Bool.and_eq_false_iff, decide_eq_false_iff_not, decide_eq_false_iff_not]
  omega

theorem unitChar_toNat (c : Char) : unitChar c.toNat = c := by
  have hvalid : c.toNat < 55296 ∨ 57343 < c.toNat ∧ c.toNat < 1114112 := c.valid
  rw [unitChar, if_neg (by omega), Char.ofNat_toNat]

theorem stringTail_numericEscape (c : Char) :
    stringTail start acc (numericEscape c ++ tail) = stringTail start (c :: acc) tail := by
  unfold numericEscape
  dsimp only
  split
  · next h =>
    obtain ⟨x, y, z, w, hdigits, hvalue⟩ := unitValue?_hexDigits h
    rw [unitEscape, hdigits]
    refine (stringTail_unit hvalue (isHighUnit_toNat c)).trans ?_
    rw [unitChar_toNat]
    rfl
  · next h =>
    have hvalid : c.toNat < 55296 ∨ 57343 < c.toNat ∧ c.toNat < 1114112 := c.valid
    obtain ⟨x, y, z, w, hhigh, hhigh'⟩ :=
      unitValue?_hexDigits (n := 55296 + (c.toNat - 65536) / 1024) (by omega)
    obtain ⟨x', y', z', w', hlow, hlow'⟩ :=
      unitValue?_hexDigits (n := 56320 + (c.toNat - 65536) % 1024) (by omega)
    rw [unitEscape, unitEscape, hhigh, hlow]
    refine (stringTail_pair hhigh' hlow' ?_ ?_).trans ?_
    · rw [isHighUnit, Bool.and_eq_true, decide_eq_true_iff, decide_eq_true_iff]
      omega
    · rw [isLowUnit, Bool.and_eq_true, decide_eq_true_iff, decide_eq_true_iff]
      omega
    · have hpair : 65536 + (55296 + (c.toNat - 65536) / 1024 - 55296) * 1024 +
          (56320 + (c.toNat - 65536) % 1024 - 56320) = c.toNat := by omega
      rw [pairChar, hpair, Char.ofNat_toNat]
      rfl

/-- A written character is read as it was. -/
theorem stringTail_stringChar (asciiOnly : Bool) (c : Char) :
    stringTail start acc (stringChar asciiOnly c ++ tail) = stringTail start (c :: acc) tail := by
  have heighth : c.toNat = 8 → c = Char.ofNat 8 := fun h => by rw [← h, Char.ofNat_toNat]
  have htwelfth : c.toNat = 12 → c = Char.ofNat 12 := fun h => by rw [← h, Char.ofNat_toNat]
  unfold stringChar
  split
  · next h =>
    rcases h with rfl | rfl
    · exact stringTail_short (by decide) rfl
    · exact stringTail_short (by decide) rfl
  split
  · next h =>
    subst h
    exact stringTail_short (by decide) rfl
  split
  · next h =>
    subst h
    exact stringTail_short (by decide) rfl
  split
  · next h =>
    subst h
    exact stringTail_short (by decide) rfl
  split
  · next h =>
    rw [heighth h]
    exact stringTail_short (by decide) rfl
  split
  · next h =>
    rw [htwelfth h]
    exact stringTail_short (by decide) rfl
  split
  · exact stringTail_numericEscape c
  · next hmark _ _ _ _ _ hplain =>
    rw [not_or] at hmark hplain
    exact stringTail_plain hmark.1 hmark.2 (by omega)

/-- **Written strings.** -/
theorem stringTail_stringChars (asciiOnly : Bool) (s : String) :
    stringTail start [] (s.toList.flatMap (stringChar asciiOnly) ++ '"' :: rest) =
      .ok (s.toList, rest) := by
  have hall : ∀ (l acc : List Char),
      stringTail start acc (l.flatMap (stringChar asciiOnly) ++ '"' :: rest) =
        .ok (acc.reverse ++ l, rest) := by
    intro l
    induction l with
    | nil =>
      intro acc
      rw [List.append_nil]
      rfl
    | cons c l ih =>
      intro acc
      rw [List.flatMap_cons, List.append_assoc, stringTail_stringChar, ih, List.reverse_cons,
        List.append_assoc]
      rfl
  exact hall s.toList []

/-! ## White space -/

theorem skipGap_cons {c : Char} (h : isGap c = false) : skipGap (c :: cs) = c :: cs := by
  rw [skipGap, List.dropWhile_cons, h]
  rfl

theorem skipGap_append {gaps : List Char} (h : ∀ c ∈ gaps, isGap c = true) :
    skipGap (gaps ++ cs) = skipGap cs :=
  List.dropWhile_append_of_pos h

theorem isGap_of_mem_lineBreak {style : Style} {depth : Nat} :
    ∀ c ∈ lineBreak style depth, isGap c = true := by
  unfold lineBreak
  split
  · exact nofun
  · intro c hc
    rcases List.mem_cons.1 hc with rfl | hc
    · rfl
    · rw [List.eq_of_mem_replicate hc]
      rfl

theorem Stuck.skipGap (h : Stuck cs) : skipGap cs = cs := by
  obtain ⟨c, hc, hend⟩ := h
  obtain ⟨cs, rfl⟩ := List.head?_eq_some_iff.1 hc
  have : ∀ d, isGap d = true → d ∈ endings := by
    intro d hd
    simp only [isGap, Bool.or_eq_true, beq_iff_eq] at hd
    rcases hd with ((rfl | rfl) | rfl) | rfl <;> decide
  exact skipGap_cons (Bool.eq_false_iff.2 fun hgap => hend (this c hgap))

theorem Stuck.head_ne (h : Stuck cs) {c : Char} (hc : c ∈ endings) : cs.head? ≠ some c := by
  obtain ⟨d, hd, hend⟩ := h
  rw [hd, ne_eq, Option.some.injEq]
  rintro rfl
  exact hend hc

/-! ## Values -/

mutual

/-- Whether the integers of a value are short and its numbers have texts of numbers. -/
def legible : Json → Bool
  | null => true
  | bool _ => true
  | int i => isShort i
  | float x => x.reread?.isSome
  | str _ => true
  | arr items => legibleItems items
  | obj members => legibleMembers members

/-- Whether all items are legible. -/
def legibleItems : List Json → Bool
  | [] => true
  | v :: rest => legible v && legibleItems rest

/-- Whether all members are legible. -/
def legibleMembers : List (String × Json) → Bool
  | [] => true
  | (_, v) :: rest => legible v && legibleMembers rest

end

mutual

/-- No object inside the value has two members of one name. -/
def Distinct : Json → Prop
  | null => True
  | bool _ => True
  | int _ => True
  | float _ => True
  | str _ => True
  | arr items => DistinctItems items
  | obj members => (members.map Prod.fst).Nodup ∧ DistinctMembers members

/-- All items have distinct names. -/
def DistinctItems : List Json → Prop
  | [] => True
  | v :: rest => Distinct v ∧ DistinctItems rest

/-- The values of all members have distinct names. -/
def DistinctMembers : List (String × Json) → Prop
  | [] => True
  | (_, v) :: rest => Distinct v ∧ DistinctMembers rest

end

mutual

/-- The value with each number as its text is read. -/
def reread : Json → Json
  | null => null
  | bool b => bool b
  | int i => int i
  | float x => float x.reread
  | str s => str s
  | arr items => arr (rereadItems items)
  | obj members => obj (rereadMembers members)

/-- Each item as its text is read. -/
def rereadItems : List Json → List Json
  | [] => []
  | v :: rest => reread v :: rereadItems rest

/-- Each member as its text is read. -/
def rereadMembers : List (String × Json) → List (String × Json)
  | [] => []
  | (k, v) :: rest => (k, reread v) :: rereadMembers rest

end

/-- The separators are a comma and a colon with nothing but white space after them. -/
structure Style.Readable (style : Style) : Prop where
  item : ∃ gaps, style.itemSeparator.toList = ',' :: gaps ∧ ∀ c ∈ gaps, isGap c = true
  name : ∃ gaps, style.nameSeparator.toList = ':' :: gaps ∧ ∀ c ∈ gaps, isGap c = true

theorem readable_spaced : Style.spaced.Readable :=
  ⟨⟨[' '], rfl, List.forall_mem_singleton.2 rfl⟩, ⟨[' '], rfl, List.forall_mem_singleton.2 rfl⟩⟩

theorem readable_compact : Style.compact.Readable := ⟨⟨[], rfl, nofun⟩, ⟨[], rfl, nofun⟩⟩

/-- The characters that open a number. -/
def numberOpenings : List Char :=
  ['N', 'I', '-', '0', '1', '2', '3', '4', '5', '6', '7', '8', '9']

/-- The characters that open a value. -/
def openings : List Char := ['n', 't', 'f', '"', '[', '\x7b'] ++ numberOpenings

theorem isGap_of_mem_openings : ∀ c ∈ openings, isGap c = false := by
  simp [openings, numberOpenings, isGap]

theorem mem_numberOpenings {c : Char} (h : Text.isAsciiDigit c = true) : c ∈ numberOpenings := by
  have hall : ∀ n < 58, 48 ≤ n → Char.ofNat n ∈ numberOpenings := by decide
  simp only [Text.isAsciiDigit, Bool.and_eq_true, decide_eq_true_eq] at h
  rw [← Char.ofNat_toNat c]
  exact hall c.toNat (Nat.lt_succ_of_le h.2) h.1

theorem int_head (i : Int) : ∃ c cs, (toString i).toList = c :: cs ∧ c ∈ numberOpenings := by
  obtain ⟨c, cs, hcs⟩ := List.exists_cons_of_ne_nil (Nat.toDigits_ne_nil (b := 10) (n := i.natAbs))
  have hc := Number.isAsciiDigit_of_mem_toDigits (n := i.natAbs) (hcs ▸ List.mem_cons_self)
  rw [toList_toString, hcs]
  split
  · exact ⟨_, _, rfl, by decide⟩
  · exact ⟨_, _, rfl, mem_numberOpenings hc⟩

theorem float_head (x : Number.Binary64) :
    ∃ c cs, (x.textWith "Infinity" "NaN").toList = c :: cs ∧ c ∈ numberOpenings := by
  cases x with
  | infinity negative => cases negative <;> exact ⟨_, _, rfl, by decide⟩
  | nan serial =>
    have htext : (Number.Binary64.nan serial).textWith "Infinity" "NaN" = "NaN" := rfl
    rw [htext]
    exact ⟨_, _, rfl, by decide⟩
  | finite negative significand exponent =>
    obtain ⟨c, cs, hcs, hc⟩ := (Number.Binary64.decimalText_bodyText significand exponent).head
    rw [Number.Binary64.toList_textWith_finite, hcs]
    cases negative
    · exact ⟨_, _, rfl, mem_numberOpenings hc⟩
    · exact ⟨_, _, rfl, by decide⟩

theorem chars_head (style : Style) (depth : Nat) (v : Json) :
    ∃ c cs, chars style depth v = c :: cs ∧ c ∈ openings := by
  cases v with
  | null => exact ⟨_, _, rfl, by decide⟩
  | bool b => cases b <;> exact ⟨_, _, rfl, by decide⟩
  | int i =>
    obtain ⟨c, cs, hcs, hc⟩ := int_head i
    exact ⟨c, cs, hcs, List.mem_append_right _ hc⟩
  | float x =>
    obtain ⟨c, cs, hcs, hc⟩ := float_head x
    exact ⟨c, cs, hcs, List.mem_append_right _ hc⟩
  | str s => exact ⟨_, _, rfl, by decide⟩
  | arr items =>
    rw [chars, bracketed]
    split <;> exact ⟨_, _, rfl, by decide⟩
  | obj members =>
    rw [chars, bracketed]
    split <;> exact ⟨_, _, rfl, by decide⟩

/-! ## Reading what was written -/

theorem length_chars_pos (style : Style) (depth : Nat) (v : Json) :
    0 < (chars style depth v).length := by
  obtain ⟨c, cs, hcs, -⟩ := chars_head style depth v
  rw [hcs]
  exact Nat.succ_pos _

/-- How a written value is read before what follows it: a legible one as `reread`; of any other
    something is left that ends no value, if it is read at all. -/
def ReadsBack (v : Json) (rest : List Char) (r : Except Flawed (Json × List Char)) : Prop :=
  if v.legible then r = .ok (v.reread, rest) else ∀ w left, r = .ok (w, left) → Stuck left

/-- How a written array or object is read before what follows it: it is `w` if all that is in it is
    legible, and a fault otherwise. -/
def ReadsAll (legible : Bool) (w : Json) (rest : List Char) (r : Except Flawed (Json × List Char)) :
    Prop :=
  if legible then r = .ok (w, rest) else ∃ f, r = .error f

theorem readsBack_of_readsAll {v : Json} {r : Except Flawed (Json × List Char)}
    (h : ReadsAll v.legible v.reread rest r) : ReadsBack v rest r := by
  unfold ReadsBack
  unfold ReadsAll at h
  split
  · next hv => rwa [if_pos hv] at h
  · next hv =>
    rw [if_neg hv] at h
    obtain ⟨f, rfl⟩ := h
    exact nofun

theorem value_number {c : Char} (fuel : Nat) (h : c ∈ numberOpenings) :
    value (fuel + 1) (c :: cs) = scalar (c :: cs) := by
  have hne {d : Char} (hd : d ∉ numberOpenings) (l l' : List Char) : c :: l = d :: l' → False := by
    rintro ⟨⟩
    exact hd h
  rw [value]
  · exact hne (by decide) cs
  · exact hne (by decide) cs
  · exact hne (by decide) cs

theorem readsBack_int (hends : Ends rest) (fuel : Nat) (i : Int) :
    ReadsBack (.int i) rest (value (fuel + 1) ((toString i).toList ++ rest)) := by
  obtain ⟨c, cs, hcs, hc⟩ := int_head i
  rw [hcs, List.cons_append, value_number fuel hc, ← List.cons_append, ← hcs]
  unfold ReadsBack
  split
  · next h => exact scalar_int hends h
  · next h =>
    obtain ⟨f, hf⟩ := scalar_int_long hends (i := i) (Bool.eq_false_iff.2 h)
    rw [hf]
    exact nofun

theorem readsBack_float (hends : Ends rest) (fuel : Nat) (x : Number.Binary64) :
    ReadsBack (.float x) rest
      (value (fuel + 1) ((x.textWith "Infinity" "NaN").toList ++ rest)) := by
  obtain ⟨c, cs, hcs, hc⟩ := float_head x
  rw [hcs, List.cons_append, value_number fuel hc, ← List.cons_append, ← hcs]
  unfold ReadsBack
  split
  · next h =>
    obtain ⟨y, hy⟩ := Option.isSome_iff_exists.1 h
    have hread : x.reread = y := by rw [Number.Binary64.reread, hy]; rfl
    rw [reread, hread]
    exact scalar_float hends hy
  · next h => exact fun w left => stuck_float hends (Option.not_isSome_iff_eq_none.1 h)

theorem value_stringChars (asciiOnly : Bool) (fuel : Nat) (s : String) :
    value (fuel + 1) (stringChars asciiOnly s ++ rest) = .ok (.str s, rest) := by
  rw [stringChars, List.cons_append, List.append_assoc, List.singleton_append, value,
    stringTail_stringChars]
  exact congrArg (fun s => Except.ok (Json.str s, rest)) String.ofList_toList

/-- What stands between two items. -/
def itemBreak (style : Style) (depth : Nat) : List Char :=
  style.itemSeparator.toList ++ lineBreak style depth

theorem Style.Readable.itemBreak {style : Style} (h : style.Readable) (depth : Nat) :
    ∃ gaps, itemBreak style depth = ',' :: gaps ∧ ∀ c ∈ gaps, isGap c = true := by
  obtain ⟨gaps, hsep, hgaps⟩ := h.item
  refine ⟨gaps ++ lineBreak style depth, by rw [Json.itemBreak, hsep]; rfl, fun c hc => ?_⟩
  exact (List.mem_append.1 hc).elim (hgaps c) (isGap_of_mem_lineBreak c)

section Steps

variable {fuel : Nat} {acc : List Json} {members : List (String × Json)} {v : Json}
  {text close more : List Char} {k : String}

theorem elements_last (h : value fuel text = .ok (v, close)) (hclose : skipGap close = ']' :: rest) :
    elements (fuel + 1) acc text = .ok (.arr (acc.reverse ++ [v]), rest) := by
  simp only [elements, h, hclose, List.reverse_cons]

theorem elements_next (h : value fuel text = .ok (v, ',' :: more)) :
    elements (fuel + 1) acc text = elements fuel (v :: acc) (skipGap more) := by
  simp only [elements, h, skipGap_cons (show isGap ',' = false by decide)]

theorem elements_fault (h : ∀ w left, value fuel text = .ok (w, left) → Stuck left) :
    ∃ f, elements (fuel + 1) acc text = .error f := by
  rw [elements]
  split
  · exact ⟨_, rfl⟩
  · next w left hvalue =>
    have hleft := h w left hvalue
    rw [hleft.skipGap]
    split
    · exact absurd rfl (hleft.head_ne (by decide))
    · exact absurd rfl (hleft.head_ne (by decide))
    · exact ⟨_, rfl⟩

theorem readsAll_last (hv : ReadsBack v close (value fuel text))
    (hclose : skipGap close = ']' :: rest) :
    ReadsAll v.legible (.arr (acc.reverse ++ [v.reread])) rest (elements (fuel + 1) acc text) := by
  unfold ReadsBack at hv
  unfold ReadsAll
  split
  · next hl => exact elements_last (by rwa [if_pos hl] at hv) hclose
  · next hl => exact elements_fault (by rwa [if_neg hl] at hv)

theorem readsAll_next {legible : Bool} {w : Json} (hv : ReadsBack v (',' :: more) (value fuel text))
    (hi : ReadsAll legible w rest (elements fuel (v.reread :: acc) (skipGap more))) :
    ReadsAll (v.legible && legible) w rest (elements (fuel + 1) acc text) := by
  unfold ReadsBack at hv
  split at hv
  · next hl => rwa [hl, Bool.true_and, elements_next hv]
  · next hl =>
    rw [Bool.eq_false_iff.2 hl]
    exact elements_fault hv

/-- What follows the value of a member. -/
def afterMember (fuel : Nat) (members : List (String × Json)) (k : String) :
    Json × List Char → Except Flawed (Json × List Char)
  | (v, left) =>
    match skipGap left with
    | '\x7d' :: rest => .ok (.obj (OrderedMap.put k v members), rest)
    | ',' :: rest => membersFrom fuel (OrderedMap.put k v members) (skipGap rest)
    | rest => .error ⟨.noComma, rest.length⟩

/-- The name of a written member is read as it was, and then its value. -/
theorem membersFrom_name {style : Style} (hs : style.Readable) (k : String)
    (htext : skipGap text = text) :
    membersFrom (fuel + 1) members
        (stringChars style.asciiOnly k ++ style.nameSeparator.toList ++ text) =
      (value fuel text).bind (afterMember fuel members k) := by
  obtain ⟨gaps, hsep, hgaps⟩ := hs.name
  have hstring : stringChars style.asciiOnly k ++ style.nameSeparator.toList ++ text =
      '"' :: (k.toList.flatMap (stringChar style.asciiOnly) ++ '"' :: ':' :: (gaps ++ text)) := by
    rw [stringChars, hsep]
    simp only [List.cons_append, List.append_assoc, List.nil_append]
  have hvalue : skipGap (gaps ++ text) = text := (skipGap_append hgaps).trans htext
  rw [hstring, membersFrom, stringTail_stringChars]
  dsimp only
  rw [skipGap_cons (show isGap ':' = false by decide)]
  simp only [hvalue, String.ofList_toList]
  cases value fuel text with
  | error f => rfl
  | ok r => rfl

theorem afterMember_last (hclose : skipGap close = '\x7d' :: rest) :
    afterMember fuel members k (v, close) = .ok (.obj (OrderedMap.put k v members), rest) := by
  simp only [afterMember, hclose]

theorem afterMember_next : afterMember fuel members k (v, ',' :: more) =
    membersFrom fuel (OrderedMap.put k v members) (skipGap more) := by
  simp only [afterMember, skipGap_cons (show isGap ',' = false by decide)]

theorem afterMember_fault {r : Except Flawed (Json × List Char)}
    (h : ∀ w left, r = .ok (w, left) → Stuck left) :
    ∃ f, r.bind (afterMember fuel members k) = .error f := by
  cases r with
  | error f => exact ⟨f, rfl⟩
  | ok r =>
    obtain ⟨w, left⟩ := r
    have hleft := h w left rfl
    simp only [Except.bind, afterMember, hleft.skipGap]
    split
    · exact absurd rfl (hleft.head_ne (by decide))
    · exact absurd rfl (hleft.head_ne (by decide))
    · exact ⟨_, rfl⟩

theorem readsAll_lastMember (hv : ReadsBack v close (value fuel text))
    (hclose : skipGap close = '\x7d' :: rest) :
    ReadsAll v.legible (.obj (OrderedMap.put k v.reread members)) rest
      ((value fuel text).bind (afterMember fuel members k)) := by
  unfold ReadsBack at hv
  unfold ReadsAll
  split
  · next hl =>
    rw [if_pos hl] at hv
    rw [hv]
    exact afterMember_last hclose
  · next hl => exact afterMember_fault (by rwa [if_neg hl] at hv)

theorem readsAll_nextMember {legible : Bool} {w : Json}
    (hv : ReadsBack v (',' :: more) (value fuel text))
    (hi : ReadsAll legible w rest
      (membersFrom fuel (OrderedMap.put k v.reread members) (skipGap more))) :
    ReadsAll (v.legible && legible) w rest
      ((value fuel text).bind (afterMember fuel members k)) := by
  unfold ReadsBack at hv
  split at hv
  · next hl =>
    rw [hl, Bool.true_and, hv]
    refine Eq.subst (motive := ReadsAll legible w rest) ?_ hi
    exact afterMember_next.symm
  · next hl =>
    rw [Bool.eq_false_iff.2 hl]
    exact afterMember_fault hv

end Steps

/-- A text whose first character opens a value. -/
def Opens (cs : List Char) : Prop := ∃ c cs', cs = c :: cs' ∧ c ∈ openings

theorem Opens.skipGap (h : Opens cs) : skipGap cs = cs := by
  obtain ⟨c, cs', rfl, hc⟩ := h
  exact skipGap_cons (isGap_of_mem_openings c hc)

theorem Opens.append (h : Opens cs) (l : List Char) : Opens (cs ++ l) := by
  obtain ⟨c, cs', rfl, hc⟩ := h
  exact ⟨c, cs' ++ l, rfl, hc⟩

theorem Opens.intercalate (h : Opens cs) (sep : List Char) (l : List (List Char)) :
    Opens (sep.intercalate (cs :: l)) := by
  cases l with
  | nil => rwa [List.intercalate_singleton]
  | cons cs' l =>
    rw [List.intercalate_cons_cons, List.append_assoc]
    exact h.append _

theorem opens_chars (style : Style) (depth : Nat) (v : Json) : Opens (chars style depth v) :=
  chars_head style depth v

/-- What opens a value closes none. -/
theorem Opens.head_ne (h : Opens cs) {c : Char} (hc : c ∈ endings) : cs.head? ≠ some c := by
  obtain ⟨d, cs', rfl, hd⟩ := h
  have : ∀ d ∈ openings, d ∉ endings := by simp [openings, numberOpenings, endings]
  rintro ⟨⟩
  exact this c hd hc

theorem value_array {style : Style} {depth : Nat} {text : List Char} (h : Opens text)
    (fuel : Nat) : value (fuel + 1) ('[' :: (lineBreak style depth ++ text)) =
      elements fuel [] text := by
  rw [value, skipGap_append isGap_of_mem_lineBreak, h.skipGap]
  split
  · exact absurd rfl (h.head_ne (by decide))
  · rfl

theorem value_object {style : Style} {depth : Nat} {text : List Char} (h : Opens text)
    (fuel : Nat) : value (fuel + 1) ('\x7b' :: (lineBreak style depth ++ text)) =
      membersFrom fuel [] text := by
  rw [value, skipGap_append isGap_of_mem_lineBreak, h.skipGap]
  split
  · exact absurd rfl (h.head_ne (by decide))
  · rfl

/-- What stands between the brackets of an array or object that is not empty, and what follows. -/
theorem bracketed_append {style : Style} {opening closing : Char} {depth : Nat}
    {items : List (List Char)} (h : items ≠ []) : bracketed style opening closing depth items ++ rest =
      opening :: (lineBreak style (depth + 1) ++ ((itemBreak style (depth + 1)).intercalate items ++
        (lineBreak style depth ++ closing :: rest))) := by
  rw [bracketed, if_neg (by rwa [List.isEmpty_iff])]
  simp only [itemBreak, List.cons_append, List.append_assoc, List.nil_append]

theorem length_bracketed {style : Style} {opening closing : Char} {depth : Nat}
    {items : List (List Char)} (h : items ≠ []) :
    ((itemBreak style (depth + 1)).intercalate items).length + 2 ≤
      (bracketed style opening closing depth items).length := by
  rw [← List.append_nil (bracketed ..), bracketed_append h]
  simp only [List.length_cons, List.length_append]
  omega

theorem skipGap_close {style : Style} {depth : Nat} {closing : Char} (h : isGap closing = false) :
    skipGap (lineBreak style depth ++ closing :: rest) = closing :: rest :=
  (skipGap_append isGap_of_mem_lineBreak).trans (skipGap_cons h)

theorem ends_close {style : Style} {depth : Nat} {closing : Char} (h : closing ∈ endings) :
    Ends (lineBreak style depth ++ closing :: rest) := by
  unfold lineBreak
  split
  · exact ends_cons h
  · exact ends_cons (by decide)

theorem intercalate_itemChars (style : Style) (depth : Nat) (v w : Json) (items : List Json) :
    (itemBreak style depth).intercalate (itemChars style depth (v :: w :: items)) =
      chars style depth v ++ itemBreak style depth ++
        (itemBreak style depth).intercalate (itemChars style depth (w :: items)) :=
  List.intercalate_cons_cons

theorem intercalate_memberChars (style : Style) (depth : Nat) (k : String) (v : Json)
    (e : String × Json) (members : List (String × Json)) :
    (itemBreak style depth).intercalate (memberChars style depth ((k, v) :: e :: members)) =
      (stringChars style.asciiOnly k ++ style.nameSeparator.toList ++ chars style depth v) ++
        itemBreak style depth ++
          (itemBreak style depth).intercalate (memberChars style depth (e :: members)) :=
  List.intercalate_cons_cons

theorem notMem_of_nodup {acc members : List (String × Json)} {k : String} {v : Json}
    (h : ((acc ++ (k, v) :: members).map Prod.fst).Nodup) : k ∉ acc.map Prod.fst := by
  rw [List.map_append, List.nodup_append] at h
  exact fun hk => h.2.2 k hk k List.mem_cons_self rfl

mutual

/-- A written value is read again. -/
theorem readsBack_chars {style : Style} (hs : style.Readable) : ∀ (v : Json) (depth fuel : Nat)
    (rest : List Char), v.Distinct → Ends rest → 2 * (chars style depth v).length ≤ fuel →
      ReadsBack v rest (value fuel (chars style depth v ++ rest))
  | v, depth, 0, rest, _, _, hfuel => by
    have := length_chars_pos style depth v
    omega
  | null, _, fuel + 1, rest, _, _, _ => rfl
  | bool true, _, fuel + 1, rest, _, _, _ => rfl
  | bool false, _, fuel + 1, rest, _, _, _ => rfl
  | int i, _, fuel + 1, _, _, hends, _ => readsBack_int hends fuel i
  | float x, _, fuel + 1, _, _, hends, _ => readsBack_float hends fuel x
  | str s, _, fuel + 1, rest, _, _, _ => value_stringChars style.asciiOnly fuel s
  | arr [], _, fuel + 1, rest, _, _, _ => rfl
  | arr (v :: items), depth, fuel + 1, rest, hd, hends, hfuel => by
    have hne : itemChars style (depth + 1) (v :: items) ≠ [] := nofun
    have hlength : _ ≤ (chars style depth (arr (v :: items))).length := length_bracketed hne
    have hall := readsAll_itemChars hs (v :: items) (depth + 1) fuel []
      (lineBreak style depth ++ ']' :: rest) rest nofun hd (skipGap_close (by decide))
      (ends_close (by decide)) (by omega)
    have hopens : Opens ((itemBreak style (depth + 1)).intercalate
        (itemChars style (depth + 1) (v :: items))) := (opens_chars style (depth + 1) v).intercalate _ _
    rw [chars, bracketed_append hne, value_array (hopens.append _)]
    exact readsBack_of_readsAll hall
  | obj [], _, fuel + 1, rest, _, _, _ => rfl
  | obj ((k, v) :: members), depth, fuel + 1, rest, hd, hends, hfuel => by
    have hne : memberChars style (depth + 1) ((k, v) :: members) ≠ [] := nofun
    have hlength : _ ≤ (chars style depth (obj ((k, v) :: members))).length := length_bracketed hne
    have hall := readsAll_memberChars hs ((k, v) :: members) (depth + 1) fuel []
      (lineBreak style depth ++ '\x7d' :: rest) rest nofun hd.2 hd.1 (skipGap_close (by decide))
      (ends_close (by decide)) (by omega)
    have hopens : Opens ((itemBreak style (depth + 1)).intercalate
        (memberChars style (depth + 1) ((k, v) :: members))) :=
      Opens.intercalate ⟨'"', _, rfl, by decide⟩ _ _
    rw [chars, bracketed_append hne, value_object (hopens.append _)]
    exact readsBack_of_readsAll hall

/-- Written items are read again. -/
theorem readsAll_itemChars {style : Style} (hs : style.Readable) : ∀ (items : List Json)
    (depth fuel : Nat) (acc : List Json) (close rest : List Char), items ≠ [] →
      DistinctItems items → skipGap close = ']' :: rest → Ends close →
      2 * ((itemBreak style depth).intercalate (itemChars style depth items)).length < fuel →
      ReadsAll (legibleItems items) (.arr (acc.reverse ++ rereadItems items)) rest
        (elements fuel acc
          ((itemBreak style depth).intercalate (itemChars style depth items) ++ close))
  | [], _, _, _, _, _, hne, _, _, _, _ => absurd rfl hne
  | _ :: _, _, 0, _, _, _, _, _, _, _, hfuel => absurd hfuel (Nat.not_lt_zero _)
  | [v], depth, fuel + 1, acc, close, rest, _, hd, hclose, hends, hfuel => by
    rw [itemChars, itemChars, List.intercalate_singleton] at hfuel ⊢
    have hv := readsBack_chars hs v depth fuel close hd.1 hends (by omega)
    rw [legibleItems, legibleItems, Bool.and_true]
    exact readsAll_last hv hclose
  | v :: w :: items, depth, fuel + 1, acc, close, rest, _, hd, hclose, hends, hfuel => by
    obtain ⟨gaps, hbreak, hgaps⟩ := hs.itemBreak depth
    have hopens : Opens ((itemBreak style depth).intercalate (itemChars style depth (w :: items))) :=
      (opens_chars style depth w).intercalate _ _
    have hi := readsAll_itemChars hs (w :: items) depth fuel (v.reread :: acc) close rest nofun hd.2
      hclose hends
    rw [intercalate_itemChars] at hfuel ⊢
    generalize (itemBreak style depth).intercalate (itemChars style depth (w :: items)) = more
      at hfuel hopens hi ⊢
    rw [hbreak] at hfuel
    simp only [List.length_append, List.length_cons] at hfuel
    rw [hbreak, List.append_assoc, List.append_assoc]
    have hv := readsBack_chars hs v depth fuel (',' :: (gaps ++ (more ++ close))) hd.1
      (ends_cons (by decide)) (by omega)
    refine readsAll_next hv ?_
    rw [skipGap_append hgaps, (hopens.append close).skipGap]
    have hacc : acc.reverse ++ rereadItems (v :: w :: items) =
        (v.reread :: acc).reverse ++ rereadItems (w :: items) := by
      rw [List.reverse_cons, List.append_assoc]
      rfl
    rw [hacc]
    exact hi (by omega)

/-- Written members are read again. -/
theorem readsAll_memberChars {style : Style} (hs : style.Readable) :
    ∀ (members : List (String × Json)) (depth fuel : Nat) (acc : List (String × Json))
      (close rest : List Char), members ≠ [] → DistinctMembers members →
      ((acc ++ members).map Prod.fst).Nodup → skipGap close = '\x7d' :: rest → Ends close →
      2 * ((itemBreak style depth).intercalate (memberChars style depth members)).length < fuel →
      ReadsAll (legibleMembers members) (.obj (acc ++ rereadMembers members)) rest
        (membersFrom fuel acc
          ((itemBreak style depth).intercalate (memberChars style depth members) ++ close))
  | [], _, _, _, _, _, hne, _, _, _, _, _ => absurd rfl hne
  | _ :: _, _, 0, _, _, _, _, _, _, _, _, hfuel => absurd hfuel (Nat.not_lt_zero _)
  | [(k, v)], depth, fuel + 1, acc, close, rest, _, hd, hnodup, hclose, hends, hfuel => by
    have hput : OrderedMap.put k v.reread acc = acc ++ [(k, v.reread)] :=
      OrderedMap.put_of_not_mem _ (notMem_of_nodup hnodup)
    rw [memberChars, memberChars, List.intercalate_singleton] at hfuel ⊢
    simp only [List.length_append] at hfuel
    have hv := readsBack_chars hs v depth fuel close hd.1 hends (by omega)
    rw [List.append_assoc, membersFrom_name hs k ((opens_chars style depth v).append close).skipGap,
      legibleMembers, legibleMembers, Bool.and_true, rereadMembers, rereadMembers, ← hput]
    exact readsAll_lastMember hv hclose
  | (k, v) :: e :: members, depth, fuel + 1, acc, close, rest, _, hd, hnodup, hclose, hends, hfuel =>
    by
    obtain ⟨gaps, hbreak, hgaps⟩ := hs.itemBreak depth
    have hput : OrderedMap.put k v.reread acc = acc ++ [(k, v.reread)] :=
      OrderedMap.put_of_not_mem _ (notMem_of_nodup hnodup)
    have hopens : Opens ((itemBreak style depth).intercalate
        (memberChars style depth (e :: members))) := Opens.intercalate ⟨'"', _, rfl, by decide⟩ _ _
    have hi := readsAll_memberChars hs (e :: members) depth fuel (acc ++ [(k, v.reread)]) close rest
      nofun hd.2 (by simpa using hnodup) hclose hends
    rw [intercalate_memberChars] at hfuel ⊢
    generalize (itemBreak style depth).intercalate (memberChars style depth (e :: members)) = more
      at hfuel hopens hi ⊢
    rw [hbreak] at hfuel
    simp only [List.length_append, List.length_cons] at hfuel
    have hv := readsBack_chars hs v depth fuel (',' :: (gaps ++ (more ++ close))) hd.1
      (ends_cons (by decide)) (by omega)
    rw [hbreak, List.append_assoc, List.append_assoc, List.append_assoc,
      membersFrom_name hs k ((opens_chars style depth v).append _).skipGap]
    refine readsAll_nextMember hv ?_
    rw [skipGap_append hgaps, (hopens.append close).skipGap, hput]
    have hacc : acc ++ rereadMembers ((k, v) :: e :: members) =
        acc ++ [(k, v.reread)] ++ rereadMembers (e :: members) := by
      rw [List.append_assoc]
      rfl
    rw [hacc]
    exact hi (by omega)

end

section Whole

variable {style : Style} {v : Json}

/-- The value of a written text is looked for from its first character on. -/
theorem readList_chars (style : Style) (v : Json) : readList (chars style 0 v) =
    match value (2 * (chars style 0 v).length + 2) (chars style 0 v) with
    | .error f => .error f
    | .ok (v, rest) =>
      match skipGap rest with
      | [] => .ok v
      | rest => .error ⟨.extraText, rest.length⟩ := by
  have hmark : ((chars style 0 v).head? == some '\ufeff') = false := by
    obtain ⟨c, cs, hcs, hc⟩ := chars_head style 0 v
    have : ∀ c ∈ openings, (some c == some '\ufeff') = false := by simp [openings, numberOpenings]
    rw [hcs]
    exact this c hc
  rw [readList, hmark, (opens_chars style 0 v).skipGap]
  exact if_neg Bool.false_ne_true

/-- **Written values.** A legible value is read from its text as it was, every number apart, which is
    as its text is read. -/
theorem read_write (hs : style.Readable) (hd : v.Distinct) (hl : v.legible = true) :
    read (write style v) = .ok v.reread := by
  have h := readsBack_chars hs v 0 (2 * (chars style 0 v).length + 2) [] hd ends_nil (by omega)
  rw [ReadsBack, if_pos hl, List.append_nil] at h
  rw [read, write, String.toList_ofList, readList_chars, h]
  rfl

/-- The text of any other value is a fault. -/
theorem read_write_of_not_legible (hs : style.Readable) (hd : v.Distinct) (hl : v.legible = false) :
    ∃ f, read (write style v) = .error f := by
  have h := readsBack_chars hs v 0 (2 * (chars style 0 v).length + 2) [] hd ends_nil (by omega)
  rw [ReadsBack, hl, if_neg Bool.false_ne_true, List.append_nil] at h
  rw [read, write, String.toList_ofList, readList_chars]
  split
  · exact ⟨_, rfl⟩
  · next w left hvalue =>
    have hleft := h w left hvalue
    rw [hleft.skipGap]
    split
    · obtain ⟨c, hc, -⟩ := hleft
      cases hc
    · exact ⟨_, rfl⟩

end Whole

/-! ## Parts of values -/

theorem legibleItems_eq (items : List Json) : legibleItems items = items.all legible := by
  induction items with
  | nil => rfl
  | cons v items ih => rw [legibleItems, List.all_cons, ih]

theorem legibleMembers_eq (members : List (String × Json)) :
    legibleMembers members = members.all fun e => e.2.legible := by
  induction members with
  | nil => rfl
  | cons e members ih => rw [legibleMembers, List.all_cons, ih]

theorem distinctItems_iff {items : List Json} :
    DistinctItems items ↔ ∀ v ∈ items, v.Distinct := by
  induction items with
  | nil => exact ⟨fun _ => nofun, fun _ => trivial⟩
  | cons v items ih => rw [DistinctItems, List.forall_mem_cons, ih]

theorem distinctMembers_iff {members : List (String × Json)} :
    DistinctMembers members ↔ ∀ e ∈ members, e.2.Distinct := by
  induction members with
  | nil => exact ⟨fun _ => nofun, fun _ => trivial⟩
  | cons e members ih => rw [DistinctMembers, List.forall_mem_cons, ih]

theorem rereadItems_eq (items : List Json) : rereadItems items = items.map reread := by
  induction items with
  | nil => rfl
  | cons v items ih => rw [rereadItems, List.map_cons, ih]

theorem rereadMembers_eq (members : List (String × Json)) :
    rereadMembers members = members.map fun e => (e.1, e.2.reread) := by
  induction members with
  | nil => rfl
  | cons e members ih => rw [rereadMembers, List.map_cons, ih]

/-- The value is read from its text as it was. -/
structure Kept (v : Json) : Prop where
  legible : v.legible = true
  distinct : v.Distinct
  reread : v.reread = v

theorem kept_str (s : String) : Kept (.str s) := ⟨rfl, trivial, rfl⟩

theorem kept_bool (b : Bool) : Kept (.bool b) := ⟨rfl, trivial, rfl⟩

theorem kept_arr {items : List Json} (h : ∀ v ∈ items, Kept v) : Kept (.arr items) := by
  refine ⟨?_, ?_, ?_⟩
  · rw [legible, legibleItems_eq, List.all_eq_true]
    exact fun v hv => (h v hv).legible
  · rw [Distinct, distinctItems_iff]
    exact fun v hv => (h v hv).distinct
  · rw [reread, rereadItems_eq, List.map_congr_left fun v hv => (h v hv).reread, List.map_id']

theorem kept_obj {members : List (String × Json)} (hn : (members.map Prod.fst).Nodup)
    (h : ∀ e ∈ members, Kept e.2) : Kept (.obj members) := by
  refine ⟨?_, ⟨hn, ?_⟩, ?_⟩
  · rw [legible, legibleMembers_eq, List.all_eq_true]
    exact fun e he => (h e he).legible
  · rw [distinctMembers_iff]
    exact fun e he => (h e he).distinct
  · have hid : ∀ e ∈ members, (e.1, e.2.reread) = id e := fun e he => by rw [(h e he).reread]; rfl
    rw [reread, rereadMembers_eq, List.map_congr_left hid, List.map_id]

theorem kept_strings (l : List String) : Kept (strings l) := by
  refine kept_arr fun v hv => ?_
  obtain ⟨s, -, rfl⟩ := List.mem_map.1 hv
  exact kept_str s

/-- Kept values are read from their texts. -/
theorem Kept.read_write {style : Style} {v : Json} (h : Kept v) (hs : style.Readable) :
    read (write style v) = .ok v := by
  rw [Json.read_write hs h.distinct h.legible, h.reread]

/-! ### Optional members -/

section

variable {α : Type} {k : String} {f : α → Json} {o : Option α}

theorem forall_mem_optional {P : String × Json → Prop} (h : ∀ a, o = some a → P (k, f a)) :
    ∀ e ∈ optional k f o, P e := by
  cases o with
  | none => exact nofun
  | some a =>
    intro e he
    rw [List.mem_singleton.1 he]
    exact h a rfl

theorem keys_optional : ((optional k f o).map Prod.fst).Sublist [k] := by
  cases o with
  | none => exact List.nil_sublist _
  | some a => exact List.Sublist.refl _

end

end Schemata.Json

import DevAdapter.CJson.Parse

/-!
# Text behind a value

What `cJSON_Parse` makes of a text that holds an object stays the same when
more bytes stand behind it. Inside of an object this also holds of numbers,
since a number ends where a mark or a space does.
-/

namespace DevAdapter

open Parsing

namespace CJson

variable {s rest t : List UInt8}

-- ---------------------------------------------------------------------------
-- Fuel
-- ---------------------------------------------------------------------------

/-- The fuel of the second loop of `parse_string` decides nothing. -/
theorem unescape_fuel (h : s.length ≤ fuel) (h' : s.length ≤ fuel') :
    unescape fuel s = unescape fuel' s := by
  induction fuel generalizing s fuel' with
  | zero =>
    obtain rfl := List.length_eq_zero_iff.mp (Nat.le_zero.mp h)
    simp [unescape]
  | succ fuel ih =>
    cases s with
    | nil => simp [unescape]
    | cons b s =>
      obtain ⟨fuel', rfl⟩ : ∃ n, fuel' = n + 1 := ⟨fuel' - 1, by simp at h'; omega⟩
      have hs : s.length ≤ fuel := Nat.le_of_succ_le_succ h
      have hs' : s.length ≤ fuel' := Nat.le_of_succ_le_succ h'
      have hdrop : ∀ n, unescape fuel (s.drop n) = unescape fuel' (s.drop n) := fun n =>
        ih (by simp; omega) (by simp; omega)
      simp only [unescape, ih hs hs', hdrop]

-- ---------------------------------------------------------------------------
-- What is taken is not empty
-- ---------------------------------------------------------------------------

theorem stringEnd_shrinks : Shrinks stringEnd := by
  intro s body rest h
  fun_induction stringEnd s generalizing body rest with
  | case1 => cases h
  | case2 s =>
    cases h
    exact Nat.lt_succ_self _
  | case3 hne => cases h
  | case4 c s hne ih =>
    obtain ⟨⟨body', rest'⟩, hs, heq⟩ := Option.map_eq_some_iff.mp h
    cases heq
    exact Nat.lt_succ_of_lt (Nat.lt_succ_of_lt (ih hs))
  | case5 b s hquote hescape ih =>
    obtain ⟨⟨body', rest'⟩, hs, heq⟩ := Option.map_eq_some_iff.mp h
    cases heq
    exact Nat.lt_succ_of_lt (ih hs)

theorem parseString_shrinks : Shrinks parseString := by
  intro s text rest h
  cases s with
  | nil => cases h
  | cons b s =>
    rw [parseString] at h
    split at h
    · split at h
      · cases h
      · rename_i hend
        obtain ⟨out, -, heq⟩ := Option.map_eq_some_iff.mp h
        cases heq
        exact Nat.lt_succ_of_lt (stringEnd_shrinks hend)
    · cases h

theorem digitsLength_le (s : List UInt8) : digitsLength s ≤ s.length :=
  (List.takeWhile_prefix isDigit).length_le

theorem signLength_le (s : List UInt8) : signLength s ≤ s.length := by
  cases s with
  | nil => simp [signLength]
  | cons b s =>
    simp only [signLength, List.length_cons]
    split <;> omega

theorem fractionLength_le (s : List UInt8) : fractionLength s ≤ s.length := by
  cases s with
  | nil => simp [fractionLength]
  | cons b s =>
    have h := digitsLength_le s
    simp only [fractionLength, List.length_cons]
    split <;> omega

theorem exponentLength_le (s : List UInt8) : exponentLength s ≤ s.length := by
  cases s with
  | nil => simp [exponentLength]
  | cons b s =>
    have hsign := signLength_le s
    have hdigits := digitsLength_le (s.drop (signLength s))
    rw [List.length_drop] at hdigits
    simp only [exponentLength, List.length_cons]
    split <;> omega

theorem strtod_le (s : List UInt8) : strtod s ≤ s.length := by
  have hsign := signLength_le s
  have hwhole := digitsLength_le (s.drop (signLength s))
  have hfraction := fractionLength_le (s.drop (signLength s + digitsLength (s.drop (signLength s))))
  rw [List.length_drop] at hwhole hfraction
  simp only [strtod]
  split
  · exact Nat.zero_le _
  · have hexponent := exponentLength_le (s.drop (signLength s + digitsLength (s.drop (signLength s)) +
      fractionLength (s.drop (signLength s + digitsLength (s.drop (signLength s))))))
    rw [List.length_drop] at hexponent
    omega

theorem parseNumber_eq_some (h : parseNumber s = some (v, rest)) :
    ∃ n, 0 < n ∧ n ≤ ((s.take 63).takeWhile numberChar).length ∧
      n = strtod ((s.take 63).takeWhile numberChar) ∧
      v = .number (((s.take 63).takeWhile numberChar).take n) ∧ rest = s.drop n := by
  simp only [parseNumber] at h
  split at h
  · cases h
  · rename_i hne
    cases h
    exact ⟨_, Nat.pos_of_ne_zero hne, strtod_le _, rfl, rfl, rfl⟩

theorem length_number_le (s : List UInt8) :
    ((s.take 63).takeWhile numberChar).length ≤ s.length :=
  Nat.le_trans (List.takeWhile_prefix numberChar).length_le (List.length_take_le' 63 s)

theorem parseNumber_shrinks : Shrinks parseNumber := by
  intro s v rest h
  obtain ⟨n, hpos, hle, -, -, rfl⟩ := parseNumber_eq_some h
  have hlen := length_number_le s
  rw [List.length_drop]
  omega

-- ---------------------------------------------------------------------------
-- What a value is made of
-- ---------------------------------------------------------------------------

inductive Marked (nested : Option (Parser UInt8 CJson)) : List UInt8 → CJson → List UInt8 → Prop
  | string {s : List UInt8} {text rest} (htext : parseString (ascii '"' :: s) = some (text, rest)) :
    Marked nested (ascii '"' :: s) (.string text) rest
  | number {b : UInt8} {s : List UInt8} {v rest} (hquote : b ≠ ascii '"') (hb : b = ascii '-' ∨ isDigit b)
      (hnumber : parseNumber (b :: s) = some (v, rest)) : Marked nested (b :: s) v rest
  | array {value : Parser UInt8 CJson} {s : List UInt8} {v rest} (hvalue : nested = some value)
      (harray : parseArray value s = some (v, rest)) : Marked nested (ascii '[' :: s) v rest
  | object {value : Parser UInt8 CJson} {s : List UInt8} {v rest} (hvalue : nested = some value)
      (hobject : parseObject value s = some (v, rest)) : Marked nested (ascii '{' :: s) v rest

theorem marked_of_parse {nested : Option (Parser UInt8 CJson)} {v : CJson}
    (h : parseMarked nested s = some (v, rest)) : Marked nested s v rest := by
  cases s with
  | nil => cases h
  | cons b s =>
    rw [parseMarked] at h
    split at h
    · rename_i hquote
      obtain ⟨⟨text, rest'⟩, htext, heq⟩ := Option.map_eq_some_iff.mp h
      cases heq
      subst hquote
      exact .string htext
    · rename_i hquote
      split at h
      · rename_i hb
        exact .number hquote hb h
      · split at h
        · rename_i hbracket
          obtain ⟨value, hvalue, harray⟩ := Option.bind_eq_some_iff.mp h
          subst hbracket
          exact .array hvalue harray
        · split at h
          · rename_i hbrace
            obtain ⟨value, hvalue, hobject⟩ := Option.bind_eq_some_iff.mp h
            subst hbrace
            exact .object hvalue hobject
          · cases h

theorem Marked.parse {nested : Option (Parser UInt8 CJson)} {v : CJson}
    (h : Marked nested s v rest) : parseMarked nested s = some (v, rest) := by
  cases h with
  | string htext => simp [parseMarked, htext]
  | number hquote hb hnumber => simp [parseMarked, hquote, hb, hnumber]
  | array hvalue harray =>
    subst hvalue
    exact harray
  | object hvalue hobject =>
    subst hvalue
    exact hobject

/-- A name, the colon behind it and the value behind that. -/
inductive Member (value : Parser UInt8 CJson) (s : List UInt8) :
    List UInt8 × CJson → List UInt8 → Prop
  | mk {name s₁ s₂ : List UInt8} {v : CJson} {rest : List UInt8} (hname : parseString s = some (name, s₁))
      (hcolon : s₁.dropWhile whitespace = ascii ':' :: s₂)
      (hvalue : value (s₂.dropWhile whitespace) = some (v, rest)) : Member value s (name, v) rest

theorem member_of_parse {value : Parser UInt8 CJson} {member : List UInt8 × CJson}
    (h : parseMember value s = some (member, rest)) : Member value s member rest := by
  rw [parseMember] at h
  split at h
  · cases h
  · rename_i hname
    split at h
    · cases h
    · rename_i b s₂ hcolon
      split at h
      · rename_i hb
        obtain ⟨⟨v, rest'⟩, hvalue, heq⟩ := Option.map_eq_some_iff.mp h
        cases heq
        subst hb
        exact .mk hname hcolon hvalue
      · cases h

theorem Member.parse {value : Parser UInt8 CJson} {member : List UInt8 × CJson}
    (h : Member value s member rest) :
    parseMember value s = some (member, rest) := by
  obtain ⟨hname, hcolon, hvalue⟩ := h
  simp [parseMember, hname, hcolon, hvalue]

-- ---------------------------------------------------------------------------
-- Values take something
-- ---------------------------------------------------------------------------

theorem parseMember_shrinks {value : Parser UInt8 CJson} (hvalue : Shrinks value) :
    Shrinks (parseMember value) := by
  intro s member rest h
  obtain ⟨hname, hcolon, hv⟩ := member_of_parse h
  rename_i s₁ s₂ v
  have h₁ := parseString_shrinks hname
  have h₂ := length_dropWhile_cons hcolon
  have h₃ := length_dropWhile_le whitespace s₂
  have h₄ := hvalue hv
  omega

theorem parseChildren_shrinks {child : Parser UInt8 α} (hchild : Shrinks child) (close : Char) :
    Shrinks (parseChildren close child) := by
  intro s vs rest h
  rw [parseChildren] at h
  split at h
  · cases h
  · rename_i b rest' hmark
    split at h
    · cases h
      exact length_dropWhile_cons hmark
    · exact items_shrinks hchild h

theorem parseArray_shrinks {value : Parser UInt8 CJson} (hvalue : Shrinks value) :
    Shrinks (parseArray value) := by
  intro s v rest h
  obtain ⟨⟨child, rest'⟩, hchild, heq⟩ := Option.map_eq_some_iff.mp h
  cases heq
  exact parseChildren_shrinks hvalue _ hchild

theorem parseObject_shrinks {value : Parser UInt8 CJson} (hvalue : Shrinks value) :
    Shrinks (parseObject value) := by
  intro s v rest h
  obtain ⟨⟨child, rest'⟩, hchild, heq⟩ := Option.map_eq_some_iff.mp h
  cases heq
  exact parseChildren_shrinks (parseMember_shrinks hvalue) _ hchild

theorem parseMarked_shrinks {nested : Option (Parser UInt8 CJson)}
    (hnested : ∀ value ∈ nested, Shrinks value) : Shrinks (parseMarked nested) := by
  intro s v rest h
  cases marked_of_parse h with
  | string htext => exact parseString_shrinks htext
  | number _ _ hnumber => exact parseNumber_shrinks hnumber
  | array hvalue harray =>
    exact Nat.lt_succ_of_lt (parseArray_shrinks (hnested _ hvalue) harray)
  | object hvalue hobject =>
    exact Nat.lt_succ_of_lt (parseObject_shrinks (hnested _ hvalue) hobject)

/-- What parses the values inside of a value. -/
def nested : Nat → Option (Parser UInt8 CJson)
  | 0 => none
  | left + 1 => some (parseValue left)

theorem parseValue_eq (left : Nat) (s : List UInt8) :
    parseValue left s =
      if (bytes "null").isPrefixOf s then some (.null, s.drop 4)
      else if (bytes "false").isPrefixOf s then some (.bool false, s.drop 5)
      else if (bytes "true").isPrefixOf s then some (.bool true, s.drop 4)
      else parseMarked (nested left) s := by
  cases left <;> rfl

/-- A value is one of the three words or begins with a mark of its own. -/
inductive Value (left : Nat) : List UInt8 → CJson → List UInt8 → Prop
  | null {rest : List UInt8} : Value left (bytes "null" ++ rest) .null rest
  | false {rest : List UInt8} : Value left (bytes "false" ++ rest) (.bool false) rest
  | true {rest : List UInt8} : Value left (bytes "true" ++ rest) (.bool true) rest
  | marked {s rest : List UInt8} {v : CJson} (h : Marked (nested left) s v rest) :
    Value left s v rest

theorem value_of_parse {left : Nat} {v : CJson} (h : parseValue left s = some (v, rest)) :
    Value left s v rest := by
  rw [parseValue_eq] at h
  split at h
  · rename_i hword
    obtain ⟨r, rfl⟩ := List.isPrefixOf_iff_prefix.mp hword
    cases h
    exact .null
  · split at h
    · rename_i hword
      obtain ⟨r, rfl⟩ := List.isPrefixOf_iff_prefix.mp hword
      cases h
      exact .false
    · split at h
      · rename_i hword
        obtain ⟨r, rfl⟩ := List.isPrefixOf_iff_prefix.mp hword
        cases h
        exact .true
      · exact .marked (marked_of_parse h)

/-- What a value that is no word begins with. -/
def mark (b : UInt8) : Bool :=
  b = ascii '"' || b = ascii '-' || isDigit b || b = ascii '[' || b = ascii '{'

theorem Marked.head {nested : Option (Parser UInt8 CJson)} {v : CJson}
    (h : Marked nested s v rest) : ∃ b s', s = b :: s' ∧ mark b = true := by
  cases h with
  | string => exact ⟨_, _, rfl, by decide⟩
  | @number b s _ _ _ hb _ =>
    refine ⟨b, s, rfl, ?_⟩
    rcases hb with rfl | hb
    · decide
    · simp [mark, hb]
  | array => exact ⟨_, _, rfl, by decide⟩
  | object => exact ⟨_, _, rfl, by decide⟩

theorem mark_letter {c : Char} (hc : c ∈ ['n', 'f', 't']) : mark (ascii c) = false := by
  simp only [List.mem_cons, List.not_mem_nil, or_false] at hc
  rcases hc with rfl | rfl | rfl
  all_goals rfl

theorem Marked.not_word {nested : Option (Parser UInt8 CJson)} {v : CJson}
    (h : Marked nested s v rest) {c : Char} (hc : c ∈ ['n', 'f', 't']) (word : List UInt8) :
    (ascii c :: word).isPrefixOf s = false := by
  obtain ⟨b, s', rfl, hb⟩ := h.head
  have hne : ascii c ≠ b := by
    rintro rfl
    rw [mark_letter hc] at hb
    cases hb
  simp [List.isPrefixOf, hne]

theorem Value.parse {left : Nat} {v : CJson} (h : Value left s v rest) :
    parseValue left s = some (v, rest) := by
  rw [parseValue_eq]
  cases h with
  | null => rfl
  | false => rfl
  | true => rfl
  | marked h =>
    have hnull : (bytes "null").isPrefixOf s = Bool.false := h.not_word (by decide) _
    have hfalse : (bytes "false").isPrefixOf s = Bool.false := h.not_word (by decide) _
    have htrue : (bytes "true").isPrefixOf s = Bool.false := h.not_word (by decide) _
    simp [hnull, hfalse, htrue, h.parse]

theorem parseValue_shrinks (left : Nat) : Shrinks (parseValue left) := by
  have marked : ∀ left, (∀ value ∈ nested left, Shrinks value) → Shrinks (parseValue left) := by
    intro left hnested s v rest h
    cases value_of_parse h with
    | null | false | true =>
      simp only [bytes, List.length_append, List.length_map]
      exact Nat.lt_add_of_pos_left (by decide)
    | marked h => exact parseMarked_shrinks hnested h.parse
  induction left with
  | zero => exact marked 0 (by simp [nested])
  | succ left ih =>
    have hnested : ∀ value ∈ nested (left + 1), Shrinks value := by
      rintro value ⟨⟩
      exact ih
    exact marked (left + 1) hnested

-- ---------------------------------------------------------------------------
-- More text
-- ---------------------------------------------------------------------------

/-- A number is over when a character follows that it cannot have. -/
def Settled : CJson → List UInt8 → Prop
  | .number _, [] => False
  | .number _, b :: _ => numberChar b = false
  | .null, _ | .bool _, _ | .string _, _ | .array _, _ | .object _, _ => True

theorem stringEnd_quote (s : List UInt8) : stringEnd (ascii '"' :: s) = some ([], s) := by
  rw [stringEnd.eq_def]
  simp

theorem stringEnd_plain {b : UInt8} (hquote : b ≠ ascii '"') (hescape : b ≠ ascii '\\')
    (s : List UInt8) :
    stringEnd (b :: s) = (stringEnd s).map fun (body, rest) => (b :: body, rest) := by
  rw [stringEnd.eq_def]
  simp [hquote, hescape]

theorem stringEnd_append (h : stringEnd s = some (body, rest)) (t : List UInt8) :
    stringEnd (s ++ t) = some (body, rest ++ t) := by
  fun_induction stringEnd s generalizing body rest with
  | case1 => cases h
  | case2 s =>
    cases h
    exact stringEnd_quote _
  | case3 hne => cases h
  | case4 c s hne ih =>
    obtain ⟨⟨body', rest'⟩, hs, heq⟩ := Option.map_eq_some_iff.mp h
    cases heq
    simp [stringEnd, hne, ih hs]
  | case5 b s hquote hescape ih =>
    obtain ⟨⟨body', rest'⟩, hs, heq⟩ := Option.map_eq_some_iff.mp h
    cases heq
    rw [List.cons_append, stringEnd_plain hquote hescape, ih hs]
    rfl

theorem parseString_extends : Extends (fun _ _ => True) parseString := by
  intro s text rest h _ t
  cases s with
  | nil => cases h
  | cons b s =>
    rw [parseString] at h
    split at h
    · rename_i hquote
      split at h
      · cases h
      · rename_i hend
        obtain ⟨out, hout, heq⟩ := Option.map_eq_some_iff.mp h
        cases heq
        simp [parseString, hquote, stringEnd_append hend, hout]
    · cases h

theorem numberRun {run : List UInt8} (hrun : ∀ c ∈ run, numberChar c = true)
    (hlen : run.length ≤ 63) (hb : numberChar b = false) (rest : List UInt8) :
    ((run ++ b :: rest).take 63).takeWhile numberChar = run := by
  rw [List.take_append, List.take_of_length_le hlen, List.takeWhile_append_of_pos hrun]
  cases 63 - run.length with
  | zero => simp
  | succ n => simp [hb]

theorem parseNumber_extends : Extends Settled parseNumber := by
  intro s v rest h hend t
  obtain ⟨n, hpos, hle, hn, rfl, rfl⟩ := parseNumber_eq_some h
  generalize hrun : (s.take 63).takeWhile numberChar = run at hle hn hend
  have hchars : ∀ c ∈ run, numberChar c = true := by
    rw [← hrun]
    exact List.all_eq_true.mp List.all_takeWhile
  have hlen : run.length ≤ 63 := by
    rw [← hrun]
    exact Nat.le_trans (List.takeWhile_prefix numberChar).length_le (List.length_take_le 63 s)
  obtain ⟨q, rfl⟩ : run <+: s :=
    hrun ▸ (List.takeWhile_prefix numberChar).trans (List.take_prefix 63 s)
  have hdrop : (run ++ q).drop n = run.drop n ++ q := List.drop_append_of_le_length hle
  rw [hdrop] at hend
  cases hleft : run.drop n with
  | cons c left =>
    -- a character of the run stands behind the number
    have hc : numberChar c = true := hchars c (List.mem_of_mem_drop (hleft ▸ List.mem_cons_self))
    rw [hleft] at hend
    exact absurd (hc.symm.trans hend) (by decide)
  | nil =>
    rw [hleft] at hend
    cases q with
    | nil => exact hend.elim
    | cons b q =>
      have hsame := numberRun hchars hlen hend (q ++ t)
      have hall : run.length = n := Nat.le_antisymm (by simpa using hleft) hle
      simp only [parseNumber, List.append_assoc, List.cons_append, hsame, ← hn]
      rw [if_neg (Nat.ne_of_gt hpos)]
      simp [← hall]

theorem numberChar_ge (h : numberChar b = true) : 43 ≤ b := by
  simp only [numberChar, isDigit, Bool.or_eq_true, Bool.and_eq_true, decide_eq_true_eq,
    List.mem_cons, List.not_mem_nil, or_false] at h
  rcases h with ⟨hge, -⟩ | rfl | rfl | rfl | rfl | rfl
  · exact UInt8.le_trans (by decide) hge
  all_goals decide

/-- Before a space or a mark that no number has in it a value is over. -/
theorem settled_of_mark (hmark : s.dropWhile whitespace = c :: rest) (hc : numberChar c = false)
    (v : CJson) : Settled v s := by
  cases v with
  | number text =>
    cases s with
    | nil => cases hmark
    | cons b s =>
      cases hspace : whitespace b with
      | true =>
        have hle : b ≤ 32 := of_decide_eq_true hspace
        refine Bool.eq_false_iff.mpr fun hb => ?_
        exact absurd (UInt8.le_trans (numberChar_ge hb) hle) (by decide)
      | false =>
        rw [List.dropWhile_cons_of_neg (by simp [hspace])] at hmark
        cases hmark
        exact hc
  | _ => trivial

theorem parseMember_extends {value : Parser UInt8 CJson} (hvalue : Extends Settled value)
    (hshrinks : Shrinks value) :
    Extends (fun member rest => Settled member.2 rest) (parseMember value) := by
  intro s member rest h hend t
  obtain ⟨hname, hcolon, hv⟩ := member_of_parse h
  have hname' := parseString_extends hname trivial t
  exact Member.parse
    (.mk hname' (dropWhile_append_cons hcolon t) (hvalue.skip hshrinks hv hend t))

theorem parseChildren_extends {child : Parser UInt8 α} {ended : α → List UInt8 → Prop}
    (hchild : Extends ended child) (hshrinks : Shrinks child)
    (hended : ∀ {s c rest}, s.dropWhile whitespace = c :: rest → numberChar c = false →
      ∀ v, ended v s) (hclose : numberChar (ascii close) = false) :
    Extends (fun _ _ => True) (parseChildren close child) := by
  intro s vs rest h _ t
  rw [parseChildren] at h
  split at h
  · cases h
  · rename_i b rest' hmark
    rw [parseChildren, dropWhile_append_cons hmark t]
    split at h
    · rename_i hb
      cases h
      simp [hb]
    · rename_i hb
      simp only [if_neg hb]
      have hfuel : s.length < (s ++ t).length + 1 := by
        rw [List.length_append]
        omega
      rw [items_fuel hshrinks (Nat.lt_succ_self _) hfuel] at h
      refine items_extends hchild hshrinks (fun hmark hc => ?_) h t
      refine hended hmark ?_ _
      rcases hc with rfl | rfl
      · decide
      · exact hclose

theorem parseArray_extends {value : Parser UInt8 CJson} (hvalue : Extends Settled value)
    (hshrinks : Shrinks value) : Extends (fun _ _ => True) (parseArray value) := by
  intro s v rest h _ t
  obtain ⟨⟨child, rest'⟩, hchild, heq⟩ := Option.map_eq_some_iff.mp h
  cases heq
  have hmore := parseChildren_extends hvalue hshrinks settled_of_mark (by decide) hchild trivial t
  simp [parseArray, hmore]

theorem parseObject_extends {value : Parser UInt8 CJson} (hvalue : Extends Settled value)
    (hshrinks : Shrinks value) : Extends (fun _ _ => True) (parseObject value) := by
  intro s v rest h _ t
  obtain ⟨⟨child, rest'⟩, hchild, heq⟩ := Option.map_eq_some_iff.mp h
  cases heq
  have hmore := parseChildren_extends (parseMember_extends hvalue hshrinks)
    (parseMember_shrinks hshrinks) (fun hmark hc member => settled_of_mark hmark hc member.2)
    (by decide) hchild trivial t
  simp [parseObject, hmore]

theorem parseMarked_extends {nested : Option (Parser UInt8 CJson)}
    (hextends : ∀ value ∈ nested, Extends Settled value)
    (hshrinks : ∀ value ∈ nested, Shrinks value) : Extends Settled (parseMarked nested) := by
  intro s v rest h hend t
  refine Marked.parse ?_
  cases marked_of_parse h with
  | string htext => exact .string (parseString_extends htext trivial t)
  | number hquote hb hnumber => exact .number hquote hb (parseNumber_extends hnumber hend t)
  | array hvalue harray =>
    exact .array hvalue
      (parseArray_extends (hextends _ hvalue) (hshrinks _ hvalue) harray trivial t)
  | object hvalue hobject =>
    exact .object hvalue
      (parseObject_extends (hextends _ hvalue) (hshrinks _ hvalue) hobject trivial t)

theorem nested_shrinks (left : Nat) : ∀ value ∈ nested left, Shrinks value := by
  cases left with
  | zero => simp [nested]
  | succ left =>
    rintro value ⟨⟩
    exact parseValue_shrinks left

theorem parseValue_extends (left : Nat) : Extends Settled (parseValue left) := by
  have step : ∀ left, (∀ value ∈ nested left, Extends Settled value) →
      Extends Settled (parseValue left) := by
    intro left hnested s v rest h hend t
    refine Value.parse ?_
    cases value_of_parse h with
    | null | false | true =>
      rw [List.append_assoc]
      constructor
    | marked h => exact .marked (marked_of_parse
        (parseMarked_extends hnested (nested_shrinks left) h.parse hend t))
  induction left with
  | zero => exact step 0 (by simp [nested])
  | succ left ih =>
    have hnested : ∀ value ∈ nested (left + 1), Extends Settled value := by
      rintro value ⟨⟩
      exact ih
    exact step (left + 1) hnested

-- ---------------------------------------------------------------------------
-- Texts
-- ---------------------------------------------------------------------------

theorem cstr_prefix (s t : List UInt8) : cstr s <+: cstr (s ++ t) := by
  simp only [cstr, List.takeWhile_append]
  split
  · rename_i hall
    rw [(List.takeWhile_prefix _).eq_of_length hall]
    exact List.prefix_append _ _
  · exact List.prefix_rfl

theorem cstr_append_zero (s t : List UInt8) : cstr (s ++ 0 :: t) = cstr s := by
  simp only [cstr, List.takeWhile_append]
  split
  · rename_i hall
    simpa using ((List.takeWhile_prefix _).eq_of_length hall).symm
  · rfl

theorem parse_append_zero (s t : List UInt8) : parse (s ++ 0 :: t) = parse s := by
  rw [parse, parse, cstr_append_zero]

/-- The byte order mark is skipped in both texts or in neither, since a value
does not begin like it. -/
theorem skip_append (h : (skipUtf8Bom s).dropWhile whitespace = b :: rest) (hb : b ≠ 0xEF)
    (t : List UInt8) : (skipUtf8Bom (s ++ t)).dropWhile whitespace = b :: (rest ++ t) := by
  by_cases hbom : 4 < s.length + 1 ∧ [0xEF, 0xBB, 0xBF].isPrefixOf s
  · obtain ⟨hlen, hpre⟩ := hbom
    obtain ⟨r, rfl⟩ := List.isPrefixOf_iff_prefix.mp hpre
    simp only [skipUtf8Bom] at h ⊢
    rw [if_pos ⟨hlen, hpre⟩] at h
    rw [if_pos ⟨by simp at hlen ⊢; omega, by simp [List.isPrefixOf]⟩, List.append_assoc]
    exact dropWhile_append_cons h t
  · have hs : skipUtf8Bom s = s := if_neg hbom
    rw [hs] at h
    have hnot : skipUtf8Bom (s ++ t) = s ++ t := by
      refine if_neg fun hmore => ?_
      obtain ⟨r, hr⟩ := List.isPrefixOf_iff_prefix.mp hmore.2
      cases s with
      | nil => cases h
      | cons c s =>
        obtain ⟨rfl, -⟩ := List.cons.inj hr
        rw [List.dropWhile_cons_of_neg (by decide)] at h
        exact hb (List.cons.inj h).1.symm
    rw [hnot]
    exact dropWhile_append_cons h t

theorem parse_eq_some (h : parse s = some v) :
    ∃ b text rest, (skipUtf8Bom (cstr s)).dropWhile whitespace = b :: text ∧
      parseValue nestingLimit (b :: text) = some (v, rest) := by
  obtain ⟨⟨v', rest⟩, hvalue, heq⟩ := Option.map_eq_some_iff.mp h
  cases heq
  cases htext : (skipUtf8Bom (cstr s)).dropWhile whitespace with
  | nil =>
    rw [htext] at hvalue
    exact absurd (parseValue_shrinks _ hvalue) (Nat.not_lt_zero _)
  | cons b text => exact ⟨b, text, rest, rfl, htext ▸ hvalue⟩

theorem parse_append (h : parse s = some (.object child)) (t : List UInt8) :
    parse (s ++ t) = some (.object child) := by
  obtain ⟨u, hu⟩ := cstr_prefix s t
  obtain ⟨b, text, rest, htext, hvalue⟩ := parse_eq_some h
  have hb : b ≠ 0xEF := by
    rintro rfl
    cases value_of_parse hvalue with
    | marked h =>
      obtain ⟨b', s', hs, hmark⟩ := h.head
      cases hs
      exact absurd hmark (by decide)
  rw [parse, ← hu, skip_append htext hb u]
  have hmore : parseValue nestingLimit (b :: text ++ u) = some (.object child, rest ++ u) :=
    parseValue_extends _ hvalue trivial u
  rw [List.cons_append] at hmore
  rw [hmore]
  rfl

end CJson

end DevAdapter

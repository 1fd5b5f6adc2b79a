import DevAdapter.CJson.Extend
import DevAdapter.CJson.Print
import Mathlib.Data.List.TakeWhile
import Mathlib.Tactic.SplitIfs

/-!
# Printing and parsing back

`cJSON_Parse` makes of a text that `cJSON_Print` wrote the tree that was
printed, with each string up to its first NUL. Every tree that `cJSON_Parse`
builds is flat enough for that.
-/

namespace DevAdapter

open Parsing

namespace CJson

variable {s rest : List UInt8}

theorem forall_byte {p : UInt8 → Prop} (h : ∀ n < 256, p n.toUInt8) (b : UInt8) : p b := by
  have hb : b.toNat.toUInt8 = b := UInt8.ofNat_toNat
  exact hb ▸ h b.toNat b.toNat_lt

-- ---------------------------------------------------------------------------
-- Strings
-- ---------------------------------------------------------------------------

/-- How a character is written: as it is, as an escape of two characters, or by its code. -/
inductive Escaped (b : UInt8) : List UInt8 → Prop
  | plain (hquote : b ≠ ascii '"') (hescape : b ≠ ascii '\\') : Escaped b [b]
  | short {c} (hu : c ≠ ascii 'u') (hc : escape c = some b) : Escaped b [ascii '\\', c]
  | code (hb : b.toNat < 32) : Escaped b (ascii '\\' :: ascii 'u' :: hexDigits b)

theorem escaped_cases (b : UInt8) : Escaped b (escaped b) := by
  unfold escaped
  split_ifs with hplain hself hb hf hn hr ht
  · exact .plain hplain.2.1 hplain.2.2
  · rcases hself with rfl | rfl
    · exact .short (by decide) (by decide)
    · exact .short (by decide) (by decide)
  · exact .short (by decide) (hb ▸ by decide)
  · exact .short (by decide) (hf ▸ by decide)
  · exact .short (by decide) (hn ▸ by decide)
  · exact .short (by decide) (hr ▸ by decide)
  · exact .short (by decide) (ht ▸ by decide)
  · refine .code (Nat.lt_of_not_le fun hle => hplain ⟨?_, fun h => hself (.inr h), fun h => hself (.inl h)⟩)
    exact UInt8.lt_iff_toNat_lt.mpr hle

theorem stringEnd_run {run : List UInt8} (h : ∀ c ∈ run, c ≠ ascii '"' ∧ c ≠ ascii '\\')
    (s : List UInt8) :
    stringEnd (run ++ s) = (stringEnd s).map fun (body, rest) => (run ++ body, rest) := by
  induction run with
  | nil => simp
  | cons c run ih =>
    obtain ⟨⟨hquote, hescape⟩, hrun⟩ := List.forall_mem_cons.mp h
    rw [List.cons_append, stringEnd_plain hquote hescape, ih hrun, Option.map_map]
    rfl

theorem hexDigits_plain : ∀ b, ∀ c ∈ hexDigits b, c ≠ ascii '"' ∧ c ≠ ascii '\\' := by
  have hall : ∀ b, (hexDigits b).all (fun c => c ≠ ascii '"' ∧ c ≠ ascii '\\') = true :=
    forall_byte (by decide +kernel)
  exact fun b c hc => of_decide_eq_true (List.all_eq_true.mp (hall b) c hc)

theorem Escaped.stringEnd {b : UInt8} {out : List UInt8} (h : Escaped b out) (s : List UInt8) :
    stringEnd (out ++ s) = (stringEnd s).map fun (body, rest) => (out ++ body, rest) := by
  have hescape : ∀ c, ∀ run : List UInt8, (∀ c ∈ run, c ≠ ascii '"' ∧ c ≠ ascii '\\') →
      CJson.stringEnd (ascii '\\' :: c :: run ++ s) =
        (CJson.stringEnd s).map fun (body, rest) => (ascii '\\' :: c :: run ++ body, rest) := by
    intro c run hrun
    have hpair : CJson.stringEnd (ascii '\\' :: c :: (run ++ s)) =
        (CJson.stringEnd (run ++ s)).map fun (body, rest) => (ascii '\\' :: c :: body, rest) := rfl
    rw [List.cons_append, List.cons_append, hpair, stringEnd_run hrun, Option.map_map]
    rfl
  cases h with
  | plain hquote hbackslash => exact stringEnd_plain hquote hbackslash s
  | short => exact hescape _ [] nofun
  | code => exact hescape _ _ (hexDigits_plain b)

theorem stringEnd_printed (text rest : List UInt8) :
    stringEnd (text.flatMap escaped ++ ascii '"' :: rest) = some (text.flatMap escaped, rest) := by
  induction text with
  | nil => exact stringEnd_quote rest
  | cons b text ih =>
    rw [List.flatMap_cons, List.append_assoc, (escaped_cases b).stringEnd, ih]
    rfl

theorem parseHex4_hexDigits (s : List UInt8) (b : UInt8) :
    parseHex4 (hexDigits b ++ s) = b.toNat := by
  have h : ∀ b, parseHex4 (hexDigits b) = b.toNat := forall_byte (by decide +kernel)
  exact h b

theorem utf8_byte : ∀ b : UInt8, b.toNat < 32 → utf8 b.toNat = some [b] :=
  forall_byte (by decide +kernel)

theorem utf16_code {b : UInt8} (hb : b.toNat < 32) (s : List UInt8) :
    utf16LiteralToUtf8 (ascii '\\' :: ascii 'u' :: (hexDigits b ++ s)) = some ([b], 6) := by
  have hlen : ¬ (ascii '\\' :: ascii 'u' :: (hexDigits b ++ s)).length < 6 := by simp [hexDigits]
  have hcode : parseHex4 ((ascii '\\' :: ascii 'u' :: (hexDigits b ++ s)).drop 2) = b.toNat :=
    parseHex4_hexDigits s b
  rw [utf16LiteralToUtf8, if_neg hlen, hcode]
  simp only [utf8_byte b hb, Option.map_some]
  rw [if_neg (by omega), if_neg (by omega)]

theorem Escaped.unescape {b : UInt8} {out : List UInt8} {fuel : Nat} (h : Escaped b out)
    (hfuel : (out ++ s).length ≤ fuel) :
    unescape fuel (out ++ s) = (CJson.unescape s.length s).map (b :: ·) := by
  have hsame : ∀ {fuel}, s.length ≤ fuel → CJson.unescape fuel s = CJson.unescape s.length s :=
    fun h => unescape_fuel h (Nat.le_refl _)
  cases fuel with
  | zero => cases h <;> simp at hfuel
  | succ fuel =>
    cases h with
    | plain hquote hescape =>
      rw [List.singleton_append, CJson.unescape, if_pos hescape, hsame (by simpa using hfuel)]
    | short hu hc =>
      have hlen : s.length ≤ fuel := by simp at hfuel; omega
      simp only [List.cons_append, List.nil_append, CJson.unescape, List.headD_cons, if_neg hu, hc,
        List.drop_succ_cons, List.drop_zero, hsame hlen, ne_eq, not_true_eq_false, if_false]
    | code hb =>
      have hlen : s.length ≤ fuel := by simp [hexDigits] at hfuel; omega
      have hdrop : (ascii 'u' :: (hexDigits b ++ s)).drop 5 = s := rfl
      simp only [List.cons_append, CJson.unescape, List.headD_cons, utf16_code hb, hdrop,
        hsame hlen, ne_eq, not_true_eq_false, if_false, if_true]
      rfl

theorem unescape_printed (text : List UInt8) :
    unescape (text.flatMap escaped).length (text.flatMap escaped) = some text := by
  induction text with
  | nil => rfl
  | cons b text ih =>
    rw [List.flatMap_cons, (escaped_cases b).unescape (Nat.le_refl _), ih]
    rfl

theorem parseString_printed (text rest : List UInt8) :
    parseString (printString text ++ rest) = some (cstr text, rest) := by
  have hend := stringEnd_printed (cstr text) rest
  simp only [printString, List.cons_append, List.append_assoc, List.nil_append, parseString,
    if_true, hend, unescape_printed, Option.map_some]

-- ---------------------------------------------------------------------------
-- Trees
-- ---------------------------------------------------------------------------

mutual

/-- The tree as C sees it: each string and each name ends before its first NUL. -/
def cut : CJson → CJson
  | .null => .null
  | .bool value => .bool value
  | .number text => .number text
  | .string valuestring => .string (cstr valuestring)
  | .array child => .array (cutElements child)
  | .object child => .object (cutMembers child)

def cutElements : List CJson → List CJson
  | [] => []
  | item :: next => cut item :: cutElements next

def cutMembers : List (List UInt8 × CJson) → List (List UInt8 × CJson)
  | [] => []
  | (name, item) :: next => (cstr name, cut item) :: cutMembers next

end

mutual

def height : CJson → Nat
  | .null | .bool _ | .number _ | .string _ => 0
  | .array child => heightElements child + 1
  | .object child => heightMembers child + 1

def heightElements : List CJson → Nat
  | [] => 0
  | item :: next => max (height item) (heightElements next)

def heightMembers : List (List UInt8 × CJson) → Nat
  | [] => 0
  | (_, item) :: next => max (height item) (heightMembers next)

end

mutual

def numbers : CJson → List (List UInt8)
  | .null | .bool _ | .string _ => []
  | .number text => [text]
  | .array child => elementNumbers child
  | .object child => memberNumbers child

def elementNumbers : List CJson → List (List UInt8)
  | [] => []
  | item :: next => numbers item ++ elementNumbers next

def memberNumbers : List (List UInt8 × CJson) → List (List UInt8)
  | [] => []
  | (_, item) :: next => numbers item ++ memberNumbers next

end

/-- A number prints as a text that `parse_number` takes as the same number. -/
structure ReadBack (printNumber : List UInt8 → List UInt8) (text : List UInt8) : Prop where
  head : ∃ b s, printNumber text = b :: s ∧ (b = ascii '-' ∨ isDigit b)
  parsed : parseNumber (printNumber text) = some (.number text, [])

/-- The text goes on with no character of a number. -/
def Over : List UInt8 → Prop
  | [] => True
  | b :: _ => numberChar b = false

theorem over_cons {b : UInt8} (h : numberChar b = false) (s : List UInt8) : Over (b :: s) := h

theorem ReadBack.run {printNumber : List UInt8 → List UInt8} {text : List UInt8}
    (h : ReadBack printNumber text) :
    ((printNumber text).take 63).takeWhile numberChar = printNumber text ∧
      strtod (printNumber text) = (printNumber text).length ∧ printNumber text = text := by
  obtain ⟨n, hpos, hle, hn, htext, hall⟩ := parseNumber_eq_some h.parsed
  have hprefix : ((printNumber text).take 63).takeWhile numberChar <+: printNumber text :=
    (List.takeWhile_prefix numberChar).trans (List.take_prefix 63 _)
  have hlen : (printNumber text).length ≤ n := List.drop_eq_nil_iff.mp hall.symm
  have hrun : ((printNumber text).take 63).takeWhile numberChar = printNumber text :=
    hprefix.eq_of_length (Nat.le_antisymm hprefix.length_le (Nat.le_trans hlen hle))
  have heq : n = (printNumber text).length :=
    Nat.le_antisymm (Nat.le_trans hle hprefix.length_le) hlen
  rw [hrun, heq] at hn
  rw [hrun, heq, List.take_length] at htext
  exact ⟨hrun, hn.symm, (CJson.number.inj htext).symm⟩

theorem ReadBack.chars {printNumber : List UInt8 → List UInt8} {text : List UInt8}
    (h : ReadBack printNumber text) : ∀ c ∈ printNumber text, numberChar c = true := by
  rw [← h.run.1]
  exact List.all_eq_true.mp List.all_takeWhile

theorem ReadBack.marked {printNumber : List UInt8 → List UInt8} {text : List UInt8}
    (h : ReadBack printNumber text) (hover : Over rest) (nested : Option (Parser UInt8 CJson)) :
    Marked nested (printNumber text ++ rest) (.number text) rest := by
  obtain ⟨b, s, hs, hb⟩ := h.head
  have hquote : b ≠ ascii '"' := by
    rintro rfl
    revert hb
    decide
  have hparsed : parseNumber (printNumber text ++ rest) = some (.number text, rest) := by
    cases rest with
    | nil => rw [List.append_nil, h.parsed]
    | cons c rest =>
      obtain ⟨hrun, hstrtod, htext⟩ := h.run
      have h63 : (printNumber text).length ≤ 63 := by
        rw [← hrun]
        exact Nat.le_trans (List.takeWhile_prefix numberChar).length_le (List.length_take_le 63 _)
      have hpos : (printNumber text).length ≠ 0 := by simp [hs]
      simp only [parseNumber, numberRun h.chars h63 hover, hstrtod, if_neg hpos, List.take_length,
        List.drop_left]
      rw [htext]
  rw [hs, List.cons_append] at hparsed ⊢
  exact .number hquote hb hparsed

def begins (b : UInt8) : Bool := mark b || b ∈ [ascii 'n', ascii 'f', ascii 't']

theorem begins_apart :
    ∀ b, begins b = true → whitespace b = false ∧ b ≠ ascii ']' ∧ b ≠ 0xEF :=
  forall_byte (by decide +kernel)

theorem Value.first {left : Nat} {v : CJson} (h : Value left s v rest) :
    ∃ b, s.head? = some b ∧ begins b = Bool.true := by
  cases h with
  | null | false | true => exact ⟨_, rfl, by decide⟩
  | marked h =>
    obtain ⟨b, s', rfl, hb⟩ := h.head
    exact ⟨b, rfl, by simp [begins, hb]⟩

theorem Value.skip {left : Nat} {v : CJson} (h : Value left s v rest) :
    s.dropWhile whitespace = s := by
  obtain ⟨b, hhead, hb⟩ := h.first
  obtain ⟨s', rfl⟩ := List.head?_eq_some_iff.mp hhead
  exact List.dropWhile_cons_of_neg (by simp [(begins_apart b hb).1])

section
variable {close : Char} {child : Parser UInt8 α} {v w : α} {vs : List α} {b : UInt8}

theorem parseChildren_items (hb : s.dropWhile whitespace = b :: rest) (hclose : b ≠ ascii close) :
    parseChildren close child s =
      items whitespace (ascii ',') (ascii close) child (s.length + 1) s := by
  simp only [parseChildren, hb, if_neg hclose]

theorem items_of_children (h : parseChildren close child s = some (v :: vs, rest)) :
    items whitespace (ascii ',') (ascii close) child (s.length + 1) s = some (v :: vs, rest) := by
  rw [parseChildren] at h
  split at h
  · cases h
  · split at h
    · cases h
    · exact h

theorem parseChildren_spaces (hshrinks : Shrinks child) {spaces : List UInt8}
    (h : ∀ c ∈ spaces, whitespace c = true) (s : List UInt8) :
    parseChildren close child (spaces ++ s) = parseChildren close child s := by
  have hfuel : s.length < (spaces ++ s).length + 1 := by
    rw [List.length_append]
    omega
  simp only [parseChildren, List.dropWhile_append_of_pos h, items_spaces h,
    items_fuel hshrinks hfuel (Nat.lt_succ_self _)]

theorem children_last {behind : List UInt8} (hb : s.dropWhile whitespace = s) (hhead : s.head? = some b)
    (hclose : b ≠ ascii close) (hne : ascii close ≠ ascii ',') (hitem : child s = some (v, behind))
    (hmark : behind.dropWhile whitespace = ascii close :: rest) :
    parseChildren close child s = some ([v], rest) := by
  obtain ⟨text, rfl⟩ := List.head?_eq_some_iff.mp hhead
  rw [parseChildren_items hb hclose]
  exact (Pass.last (hb.symm ▸ hitem) hmark hne).items

theorem children_more {behind : List UInt8} (hshrinks : Shrinks child)
    (hb : s.dropWhile whitespace = s) (hhead : s.head? = some b) (hclose : b ≠ ascii close)
    (hitem : child s = some (v, ascii ',' :: behind))
    (hnext : parseChildren close child behind = some (w :: vs, rest)) :
    parseChildren close child s = some (v :: w :: vs, rest) := by
  have hlen := hshrinks hitem
  rw [List.length_cons] at hlen
  have hrest : items whitespace (ascii ',') (ascii close) child s.length behind =
      some (w :: vs, rest) := by
    rw [items_fuel hshrinks (Nat.lt_of_succ_lt hlen) (Nat.lt_succ_self _)]
    exact items_of_children hnext
  obtain ⟨text, rfl⟩ := List.head?_eq_some_iff.mp hhead
  rw [parseChildren_items hb hclose]
  exact (Pass.more (hb.symm ▸ hitem) rfl hrest).items

end

theorem Value.last {left : Nat} {v : CJson} (h : Value left s v (ascii ']' :: rest)) :
    parseChildren ']' (parseValue left) s = some ([v], rest) := by
  obtain ⟨b, hhead, hb⟩ := h.first
  exact children_last h.skip hhead (begins_apart b hb).2.1 (by decide) h.parse rfl

theorem Value.more {left : Nat} {v w : CJson} {vs : List CJson} {behind : List UInt8}
    (h : Value left s v (ascii ',' :: behind))
    (hnext : parseChildren ']' (parseValue left) behind = some (w :: vs, rest)) :
    parseChildren ']' (parseValue left) s = some (v :: w :: vs, rest) := by
  obtain ⟨b, hhead, hb⟩ := h.first
  exact children_more (parseValue_shrinks left) h.skip hhead (begins_apart b hb).2.1 h.parse hnext

theorem tabs_space (depth : Nat) : ∀ c ∈ tabs depth, whitespace c = true := by
  intro c hc
  rw [List.eq_of_mem_replicate hc]
  decide

section
variable {printNumber : List UInt8 → List UInt8}

/-- What `print_object` writes of a member between the tabs and the comma. -/
def printMember (printNumber : List UInt8 → List UInt8) (depth : Nat) (name : List UInt8)
    (item : CJson) : List UInt8 :=
  printString name ++ bytes ":\t" ++ printValue printNumber depth item

theorem member_printed {left depth : Nat} {name : List UInt8} {item : CJson}
    (h : Value left (printValue printNumber depth item ++ rest) (cut item) rest) :
    parseMember (parseValue left) (printMember printNumber depth name item ++ rest) =
      some ((cstr name, cut item), rest) := by
  have hvalue : parseValue left
      ((ascii '\t' :: (printValue printNumber depth item ++ rest)).dropWhile whitespace) =
      some (cut item, rest) := by
    rw [List.dropWhile_cons_of_pos (by decide), h.skip, h.parse]
  simp only [printMember, List.append_assoc]
  exact Member.parse (.mk (parseString_printed _ _) rfl hvalue)

theorem space_whitespace : ∀ c ∈ [ascii ' '], whitespace c = true :=
  List.all_eq_true.mp rfl

theorem newline_whitespace : ∀ c ∈ [ascii '\n'], whitespace c = true :=
  List.all_eq_true.mp rfl

mutual

theorem value_printed : ∀ (t : CJson) {left : Nat} (depth : Nat) (rest : List UInt8), height t ≤ left →
    (∀ text ∈ numbers t, ReadBack printNumber text) → Over rest →
    Value left (printValue printNumber depth t ++ rest) (cut t) rest
  | .null, _, _, _, _, _, _ => .null
  | .bool Bool.false, _, _, _, _, _, _ => .false
  | .bool Bool.true, _, _, _, _, _, _ => .true
  | .number text, _, _, _, _, hnum, hover =>
    .marked ((hnum text (List.mem_singleton_self text)).marked hover _)
  | .string text, _, _, rest, _, _, _ => .marked (.string (parseString_printed text rest))
  | .array child, left + 1, depth, rest, hh, hnum, _ => by
    have htext : printValue printNumber depth (.array child) ++ rest =
        ascii '[' :: (printElements printNumber (depth + 1) child ++ ascii ']' :: rest) := by
      simp [printValue]
    rw [htext]
    refine .marked (.array rfl ?_)
    rw [parseArray, elements_printed child _ _ (Nat.le_of_succ_le_succ hh) hnum]
    rfl
  | .object child, left + 1, depth, rest, hh, hnum, _ => by
    have htext : printValue printNumber depth (.object child) ++ rest =
        ascii '{' :: ([ascii '\n'] ++ (printMembers printNumber (depth + 1) child ++
          (tabs depth ++ ascii '}' :: rest))) := by
      simp [printValue, bytes]
    have hshrinks := parseMember_shrinks (parseValue_shrinks left)
    rw [htext]
    refine .marked (.object rfl ?_)
    rw [parseObject, parseChildren_spaces hshrinks newline_whitespace,
      members_printed child _ _ (Nat.le_of_succ_le_succ hh) hnum (tabs_space depth)]
    rfl

theorem elements_printed : ∀ (child : List CJson) {left : Nat} (depth : Nat) (rest : List UInt8),
    heightElements child ≤ left →
    (∀ text ∈ elementNumbers child, ReadBack printNumber text) →
    parseChildren ']' (parseValue left)
      (printElements printNumber depth child ++ ascii ']' :: rest) =
      some (cutElements child, rest)
  | [], _, _, _, _, _ => rfl
  | [item], left, depth, rest, hh, hnum => by
    have htext : printElements printNumber depth [item] ++ ascii ']' :: rest =
        printValue printNumber depth item ++ ascii ']' :: rest := by
      simp [printElements]
    rw [htext]
    exact Value.last (value_printed item _ _ (Nat.le_trans (Nat.le_max_left _ _) hh)
      (fun text h => hnum text (List.mem_append_left _ h)) (over_cons (by decide) _))
  | item :: second :: next, left, depth, rest, hh, hnum => by
    have htext : printElements printNumber depth (item :: second :: next) ++ ascii ']' :: rest =
        printValue printNumber depth item ++ ascii ',' ::
          ([ascii ' '] ++ (printElements printNumber depth (second :: next) ++ ascii ']' :: rest)) := by
      simp [printElements, bytes]
    have hnext := elements_printed (second :: next) depth rest
      (Nat.le_trans (Nat.le_max_right _ _) hh) fun text h => hnum text (List.mem_append_right _ h)
    rw [← parseChildren_spaces (parseValue_shrinks left) space_whitespace] at hnext
    rw [htext]
    exact Value.more (value_printed item _ _ (Nat.le_trans (Nat.le_max_left _ _) hh)
      (fun text h => hnum text (List.mem_append_left _ h)) (over_cons (by decide) _)) hnext

theorem members_printed : ∀ (child : List (List UInt8 × CJson)) {left : Nat} (depth : Nat)
    {spaces : List UInt8} (rest : List UInt8), heightMembers child ≤ left →
    (∀ text ∈ memberNumbers child, ReadBack printNumber text) →
    (∀ c ∈ spaces, whitespace c = true) →
    parseChildren '}' (parseMember (parseValue left))
      (printMembers printNumber depth child ++ (spaces ++ ascii '}' :: rest)) =
      some (cutMembers child, rest)
  | [], left, depth, spaces, rest, hh, hnum, hspaces =>
    parseChildren_spaces (parseMember_shrinks (parseValue_shrinks left)) hspaces _
  | [(name, item)], left, depth, spaces, rest, hh, hnum, hspaces => by
    have htext : printMembers printNumber depth [(name, item)] ++ (spaces ++ ascii '}' :: rest) =
        tabs depth ++ (printMember printNumber depth name item ++
          (ascii '\n' :: spaces ++ ascii '}' :: rest)) := by
      simp [printMembers, printMember, bytes]
    have hshrinks := parseMember_shrinks (parseValue_shrinks left)
    have hmark : (ascii '\n' :: spaces ++ ascii '}' :: rest).dropWhile whitespace =
        ascii '}' :: rest := by
      rw [List.dropWhile_append_of_pos (List.forall_mem_cons.mpr ⟨by decide, hspaces⟩)]
      rfl
    have hitem := value_printed item depth _ (Nat.le_trans (Nat.le_max_left _ _) hh)
      (fun text h => hnum text (List.mem_append_left _ h))
      (over_cons (b := ascii '\n') (by decide) (spaces ++ ascii '}' :: rest))
    rw [htext, parseChildren_spaces hshrinks (tabs_space depth)]
    exact children_last rfl rfl (by decide) (by decide) (member_printed hitem) hmark
  | (name, item) :: second :: next, left, depth, spaces, rest, hh, hnum, hspaces => by
    have htext : printMembers printNumber depth ((name, item) :: second :: next) ++
        (spaces ++ ascii '}' :: rest) =
        tabs depth ++ (printMember printNumber depth name item ++ (ascii ',' :: ([ascii '\n'] ++
          (printMembers printNumber depth (second :: next) ++ (spaces ++ ascii '}' :: rest))))) := by
      simp [printMembers, printMember, bytes]
    have hshrinks := parseMember_shrinks (parseValue_shrinks left)
    have hnext := members_printed (second :: next) depth rest
      (Nat.le_trans (Nat.le_max_right _ _) hh)
      (fun text h => hnum text (List.mem_append_right _ h)) hspaces
    rw [← parseChildren_spaces hshrinks newline_whitespace] at hnext
    rw [htext, parseChildren_spaces hshrinks (tabs_space depth)]
    refine children_more hshrinks rfl rfl (by decide) (member_printed ?_) hnext
    exact value_printed item _ _ (Nat.le_trans (Nat.le_max_left _ _) hh)
      (fun text h => hnum text (List.mem_append_left _ h)) (over_cons (by decide) _)

end

-- ---------------------------------------------------------------------------
-- Texts
-- ---------------------------------------------------------------------------

theorem escaped_nonzero (b : UInt8) : ∀ c ∈ escaped b, c ≠ 0 := by
  have hzero : ∀ b, 0 ∉ escaped b := forall_byte (by decide +kernel)
  exact List.forall_mem_ne'.mpr (hzero b)

theorem printString_nonzero (text : List UInt8) : ∀ c ∈ printString text, c ≠ 0 := by
  intro c hc
  simp only [printString, List.mem_append, List.mem_cons, List.mem_flatMap, List.not_mem_nil,
    or_false] at hc
  rcases hc with (rfl | ⟨b, -, hb⟩) | rfl
  · decide
  · exact escaped_nonzero b c hb
  · decide

theorem tabs_nonzero (depth : Nat) : ∀ c ∈ tabs depth, c ≠ 0 := by
  intro c hc
  rw [List.eq_of_mem_replicate hc]
  decide

theorem ReadBack.nonzero {text : List UInt8} (h : ReadBack printNumber text) :
    ∀ c ∈ printNumber text, c ≠ 0 := by
  intro c hc
  rintro rfl
  have hchar := h.chars 0 hc
  revert hchar
  decide

mutual

theorem printValue_nonzero : ∀ (t : CJson) (depth : Nat),
    (∀ text ∈ numbers t, ∀ c ∈ printNumber text, c ≠ 0) → ∀ c ∈ printValue printNumber depth t, c ≠ 0
  | .null, _, _ | .bool Bool.false, _, _ | .bool Bool.true, _, _ => by
    simp only [printValue]
    exact List.forall_mem_ne'.mpr (by decide)
  | .number text, _, hnum => hnum text (List.mem_singleton_self text)
  | .string text, _, _ => printString_nonzero text
  | .array child, depth, hnum => by
    have hchild := printElements_nonzero child (depth + 1) hnum
    rw [printValue]
    exact List.forall_mem_append.mpr ⟨List.forall_mem_cons.mpr ⟨by decide, hchild⟩,
      List.forall_mem_ne'.mpr (by decide)⟩
  | .object child, depth, hnum => by
    have hchild := printMembers_nonzero child (depth + 1) hnum
    simp only [printValue, List.forall_mem_append]
    exact ⟨⟨⟨List.forall_mem_ne'.mpr (by decide), hchild⟩, tabs_nonzero depth⟩,
      List.forall_mem_ne'.mpr (by decide)⟩

theorem printElements_nonzero : ∀ (child : List CJson) (depth : Nat),
    (∀ text ∈ elementNumbers child, ∀ c ∈ printNumber text, c ≠ 0) →
    ∀ c ∈ printElements printNumber depth child, c ≠ 0
  | [], _, _ => nofun
  | item :: next, depth, hnum => by
    obtain ⟨hitem, hnext⟩ := List.forall_mem_append.mp hnum
    have hvalue := printValue_nonzero item depth hitem
    have hrest := printElements_nonzero next depth hnext
    simp only [printElements, List.forall_mem_append]
    refine ⟨⟨hvalue, ?_⟩, hrest⟩
    split <;> exact List.forall_mem_ne'.mpr (by decide)

theorem printMembers_nonzero : ∀ (child : List (List UInt8 × CJson)) (depth : Nat),
    (∀ text ∈ memberNumbers child, ∀ c ∈ printNumber text, c ≠ 0) →
    ∀ c ∈ printMembers printNumber depth child, c ≠ 0
  | [], _, _ => nofun
  | (name, item) :: next, depth, hnum => by
    obtain ⟨hitem, hnext⟩ := List.forall_mem_append.mp hnum
    have hvalue := printValue_nonzero item depth hitem
    have hrest := printMembers_nonzero next depth hnext
    simp only [printMembers, List.forall_mem_append]
    refine ⟨⟨⟨⟨⟨⟨tabs_nonzero depth, printString_nonzero name⟩,
      List.forall_mem_ne'.mpr (by decide)⟩, hvalue⟩, ?_⟩,
      List.forall_mem_ne'.mpr (by decide)⟩, hrest⟩
    split <;> exact List.forall_mem_ne'.mpr (by decide)

end

theorem cstr_print {t : CJson} (hnum : ∀ text ∈ numbers t, ReadBack printNumber text) :
    cstr (print printNumber t) = print printNumber t :=
  List.takeWhile_eq_self_iff.mpr fun c hc =>
    decide_eq_true (printValue_nonzero t 0 (fun text h => (hnum text h).nonzero) c hc)

theorem print_value {t : CJson} {left : Nat} (hnum : ∀ text ∈ numbers t, ReadBack printNumber text)
    (hheight : height t ≤ left) : Value left (print printNumber t) (cut t) [] := by
  have h := value_printed t 0 [] hheight hnum trivial
  rwa [List.append_nil] at h

theorem parse_print_eq {t : CJson} (hnum : ∀ text ∈ numbers t, ReadBack printNumber text) :
    parse (print printNumber t) = (parseValue nestingLimit (print printNumber t)).map (·.1) := by
  have hvalue := print_value hnum (Nat.le_refl (height t))
  obtain ⟨b, hhead, hb⟩ := hvalue.first
  obtain ⟨s, hs⟩ := List.head?_eq_some_iff.mp hhead
  have hbom : skipUtf8Bom (print printNumber t) = print printNumber t := by
    refine if_neg fun h => (begins_apart b hb).2.2 ?_
    obtain ⟨r, hr⟩ := List.isPrefixOf_iff_prefix.mp h.2
    rw [hs] at hr
    exact (List.cons.inj hr).1.symm
  rw [parse, cstr_print hnum, hbom, hvalue.skip]

theorem parse_print_of_height {t : CJson} (hnum : ∀ text ∈ numbers t, ReadBack printNumber text)
    (hheight : height t ≤ nestingLimit) : parse (print printNumber t) = some (cut t) := by
  rw [parse_print_eq hnum, (print_value hnum hheight).parse]
  rfl

-- ---------------------------------------------------------------------------
-- Levels
-- ---------------------------------------------------------------------------

section
variable {value : Parser UInt8 CJson} {n : Nat} {v : CJson}

end

theorem parseChildren_within {child child' : Parser UInt8 α} (h : Within child child')
    (close : Char) : Within (parseChildren close child) (parseChildren close child') := by
  intro s vs rest hs
  rw [parseChildren] at hs ⊢
  split at hs
  · cases hs
  · split at hs
    · rename_i hclose
      rwa [if_pos hclose]
    · rename_i hclose
      rw [if_neg hclose]
      exact h.items hs

section
variable {value value' : Parser UInt8 CJson}

theorem parseArray_within (h : Within value value') :
    Within (parseArray value) (parseArray value') := by
  intro s v rest hs
  obtain ⟨⟨child, rest'⟩, hchild, heq⟩ := Option.map_eq_some_iff.mp hs
  exact Option.map_eq_some_iff.mpr ⟨_, parseChildren_within h _ hchild, heq⟩

theorem parseMember_within (h : Within value value') :
    Within (parseMember value) (parseMember value') := by
  intro s member rest hs
  obtain ⟨hname, hcolon, hvalue⟩ := member_of_parse hs
  exact (Member.mk hname hcolon (h hvalue)).parse

theorem parseObject_within (h : Within value value') :
    Within (parseObject value) (parseObject value') := by
  intro s v rest hs
  obtain ⟨⟨child, rest'⟩, hchild, heq⟩ := Option.map_eq_some_iff.mp hs
  exact Option.map_eq_some_iff.mpr ⟨_, parseChildren_within (parseMember_within h) _ hchild, heq⟩

end

theorem Marked.within {nested nested' : Option (Parser UInt8 CJson)} {v : CJson}
    (hnested : ∀ value ∈ nested, ∃ value' ∈ nested', Within value value')
    (h : Marked nested s v rest) : Marked nested' s v rest := by
  cases h with
  | string htext => exact .string htext
  | number hquote hb hnumber => exact .number hquote hb hnumber
  | array hvalue harray =>
    obtain ⟨value', hvalue', hwithin⟩ := hnested _ hvalue
    exact .array hvalue' (parseArray_within hwithin harray)
  | object hvalue hobject =>
    obtain ⟨value', hvalue', hwithin⟩ := hnested _ hvalue
    exact .object hvalue' (parseObject_within hwithin hobject)

mutual

theorem height_cut : ∀ t : CJson, height (cut t) = height t
  | .null | .bool _ | .number _ | .string _ => rfl
  | .array child => by simp only [cut, height, heightElements_cut child]
  | .object child => by simp only [cut, height, heightMembers_cut child]

theorem heightElements_cut : ∀ child, heightElements (cutElements child) = heightElements child
  | [] => rfl
  | item :: next => by
    simp only [cutElements, heightElements, height_cut item, heightElements_cut next]

theorem heightMembers_cut : ∀ child, heightMembers (cutMembers child) = heightMembers child
  | [] => rfl
  | (_, item) :: next => by
    simp only [cutMembers, heightMembers, height_cut item, heightMembers_cut next]

end

theorem cstr_cstr (text : List UInt8) : cstr (cstr text) = cstr text :=
  List.takeWhile_idem

theorem printString_cstr (text : List UInt8) : printString (cstr text) = printString text := by
  rw [printString, cstr_cstr, ← printString]

mutual

theorem printValue_cut : ∀ (t : CJson) (depth : Nat),
    printValue printNumber depth (cut t) = printValue printNumber depth t
  | .null, _ | .bool _, _ | .number _, _ => rfl
  | .string text, _ => printString_cstr text
  | .array child, depth => by simp only [cut, printValue, printElements_cut child]
  | .object child, depth => by simp only [cut, printValue, printMembers_cut child]

theorem printElements_cut : ∀ (child : List CJson) (depth : Nat),
    printElements printNumber depth (cutElements child) = printElements printNumber depth child
  | [], _ => rfl
  | item :: next, depth => by
    have hempty : (cutElements next).isEmpty = next.isEmpty := by cases next <;> rfl
    simp only [cutElements, printElements, printValue_cut item, printElements_cut next, hempty]

theorem printMembers_cut : ∀ (child : List (List UInt8 × CJson)) (depth : Nat),
    printMembers printNumber depth (cutMembers child) = printMembers printNumber depth child
  | [], _ => rfl
  | (name, item) :: next, depth => by
    have hempty : (cutMembers next).isEmpty = next.isEmpty := by
      cases next with
      | nil => rfl
      | cons member _ => cases member; rfl
    simp only [cutMembers, printMembers, printString_cstr, printValue_cut item,
      printMembers_cut next, hempty]

end

mutual

def texts : CJson → List (List UInt8)
  | .null | .bool _ | .number _ => []
  | .string valuestring => [valuestring]
  | .array child => elementTexts child
  | .object child => memberTexts child

def elementTexts : List CJson → List (List UInt8)
  | [] => []
  | item :: next => texts item ++ elementTexts next

def memberTexts : List (List UInt8 × CJson) → List (List UInt8)
  | [] => []
  | (name, item) :: next => name :: texts item ++ memberTexts next

end

theorem cstr_eq_self {text : List UInt8} (h : 0 ∉ text) : cstr text = text :=
  List.takeWhile_eq_self_iff.mpr fun _ hc => decide_eq_true fun hzero => h (hzero ▸ hc)

mutual

theorem cut_eq_self : ∀ t : CJson, (∀ text ∈ texts t, 0 ∉ text) → cut t = t
  | .null, _ | .bool _, _ | .number _, _ => rfl
  | .string text, h => by rw [cut, cstr_eq_self (h text (by simp [texts]))]
  | .array child, h => by rw [cut, cutElements_eq_self child h]
  | .object child, h => by rw [cut, cutMembers_eq_self child h]

theorem cutElements_eq_self : ∀ child, (∀ text ∈ elementTexts child, 0 ∉ text) →
    cutElements child = child
  | [], _ => rfl
  | item :: next, h => by
    obtain ⟨hitem, hnext⟩ := List.forall_mem_append.mp h
    rw [cutElements, cut_eq_self item hitem, cutElements_eq_self next hnext]

theorem cutMembers_eq_self : ∀ child, (∀ text ∈ memberTexts child, 0 ∉ text) →
    cutMembers child = child
  | [], _ => rfl
  | (name, item) :: next, h => by
    obtain ⟨hfirst, hnext⟩ := List.forall_mem_append.mp h
    obtain ⟨hname, hitem⟩ := List.forall_mem_cons.mp hfirst
    rw [cutMembers, cstr_eq_self hname, cut_eq_self item hitem, cutMembers_eq_self next hnext]

end

-- ---------------------------------------------------------------------------
-- The round trips
-- ---------------------------------------------------------------------------

end

/-- A tree of C strings without numbers, as the program builds them. -/
theorem parse_print_texts (printNumber : List UInt8 → List UInt8) {t : CJson}
    (hnum : numbers t = []) (hheight : height t ≤ nestingLimit)
    (htexts : ∀ text ∈ texts t, 0 ∉ text) :
    parse (cstr (print printNumber t)) = some t ∧ cstr (print printNumber t) = print printNumber t := by
  have hread : ∀ text ∈ numbers t, ReadBack printNumber text := by
    rw [hnum]
    exact nofun
  refine ⟨?_, cstr_print hread⟩
  rw [cstr_print hread, parse_print_of_height hread hheight, cut_eq_self t htexts]

end CJson

end DevAdapter

import DevAdapter.CJson.RoundTrip
import DevAdapter.Lib.Allocator
import Mathlib.Algebra.Ring.Nat

/-!
# cJSON_Parse and its blocks

`cJSON_Parse` once more, with every block that it allocates and frees, when any
allocation may fail. It writes no string outside of its block, what it gives
back is the tree of the text, and it leaves allocated exactly the blocks of that
tree, or nothing. The flags for references and constant names are set by no
function of the parser and left out, and so are `prev` and the error position.
-/

namespace DevAdapter.CJson.Blocks

open Parsing

-- ---------------------------------------------------------------------------
-- Items
-- ---------------------------------------------------------------------------

structure Block where
  number : Nat
  text : List UInt8

/-- The `type` of an item, a number with the text that `strtod` converts. -/
inductive Kind
  | invalid
  | false
  | true
  | null
  | number (text : List UInt8)
  | string
  | array
  | object

inductive Item
  | null
  | node (self : Nat) (next child : Item) (type : Kind) (valuestring string : Option Block)

/-- What `parse_value` stores to an item. -/
structure Content where
  type : Kind
  child : Item
  valuestring : Option Block

/-- An item that `next` of no item before it leads to yet. -/
structure Cell where
  self : Nat
  content : Content
  string : Option Block

def Content.zero : Content := ⟨.invalid, .null, none⟩

def link : List Cell → Item
  | [] => .null
  | cell :: next =>
    .node cell.self (link next) cell.content.child cell.content.type cell.content.valuestring
      cell.string

def deallocateString (text : Option Block) (st : Store) : Store :=
  match text with
  | none => st
  | some block => st.deallocate block.number

def delete : Item → Store → Store
  | .null, st => st
  | .node self next child _ text name, st =>
    delete next ((deallocateString name (deallocateString text (delete child st))).deallocate self)

-- ---------------------------------------------------------------------------
-- Strings
-- ---------------------------------------------------------------------------

/-- `skipped_bytes` after the first loop of `parse_string`. -/
def skippedBytes : List UInt8 → Nat
  | [] => 0
  | b :: s =>
    if b = ascii '\\' then
      match s with
      | [] => 0
      | _ :: s => skippedBytes s + 1
    else skippedBytes s

/-- How the second loop ends: with a write outside of the block, with an escape
that is none, or with the string. -/
inductive Output
  | fault
  | failed
  | done (text : List UInt8)
  deriving DecidableEq, Repr

def put (size : Nat) (out bs : List UInt8) (loop : List UInt8 → Output) : Output :=
  if out.length + bs.length ≤ size then loop (out ++ bs) else .fault

/-- The second loop of `parse_string`, with the NUL behind it. -/
def unescape (size : Nat) : Nat → List UInt8 → List UInt8 → Output
  | _, [], out => put size out [0] fun _ => .done out
  | 0, _ :: _, _ => .failed
  | fuel + 1, b :: s, out =>
    if b ≠ ascii '\\' then put size out [b] (unescape size fuel s)
    else
      let c := s.headD (ascii '"')
      if c = ascii 'u' then
        match utf16LiteralToUtf8 (b :: s) with
        | none => .failed
        | some (bs, n) => put size out bs (unescape size fuel (s.drop (n - 1)))
      else
        match escape c with
        | none => .failed
        | some d => put size out [d] (unescape size fuel (s.drop 1))

-- ---------------------------------------------------------------------------
-- Values
-- ---------------------------------------------------------------------------

/-- How a function of the parser ends: with a write outside of a block, with
`false`, or with `true` and the text that is left. -/
inductive Result (ε α : Type)
  | fault
  | failed (left : ε) (st : Store)
  | parsed (value : α) (rest : List UInt8) (st : Store)

section

-- whether call `n` of `allocate` succeeds
variable (granted : Nat → Bool)

def parseString (s : List UInt8) (st : Store) : Result Unit Block :=
  match s with
  | [] => .failed () st
  | b :: s =>
    if b = ascii '"' then
      match stringEnd s with
      | none => .failed () st
      | some (body, rest) =>
        match st.allocate granted with
        | (none, st) => .failed () st
        | (some output, st) =>
          match unescape (body.length + 1 - skippedBytes body + 1) body.length body [] with
          | .fault => .fault
          | .failed => .failed () (st.deallocate output)
          | .done text => .parsed ⟨output, text⟩ rest st
    else .failed () st

/-- The loop of `parse_array` and of `parse_object`; `fill` parses into a new
item, and `front` are the items before it. -/
def parseItems (close : Char) (fill : Nat → List UInt8 → Store → Result Cell Cell) :
    Nat → List Cell → List UInt8 → Store → Result Unit Item
  | 0, front, _, st => .failed () (delete (link front) st)
  | fuel + 1, front, s, st =>
    match st.allocate granted with
    | (none, st) => .failed () (delete (link front) st)
    | (some newItem, st) =>
      match fill newItem (s.dropWhile whitespace) st with
      | .fault => .fault
      | .failed cell st => .failed () (delete (link (front ++ [cell])) st)
      | .parsed cell s st =>
        match s.dropWhile whitespace with
        | [] => .failed () (delete (link (front ++ [cell])) st)
        | c :: s =>
          if c = ascii ',' then parseItems close fill fuel (front ++ [cell]) s st
          else if c = ascii close then .parsed (link (front ++ [cell])) s st
          else .failed () (delete (link (front ++ [cell])) st)

def parseChildren (close : Char) (fill : Nat → List UInt8 → Store → Result Cell Cell)
    (s : List UInt8) (st : Store) : Result Unit Item :=
  match s.dropWhile whitespace with
  | [] => .failed () st
  | b :: rest =>
    if b = ascii close then .parsed .null rest st
    else parseItems granted close fill (s.length + 1) [] s st

section

variable (value : List UInt8 → Store → Result Unit Content)

def fillElement (newItem : Nat) (s : List UInt8) (st : Store) : Result Cell Cell :=
  match value s st with
  | .fault => .fault
  | .failed _ st => .failed ⟨newItem, .zero, none⟩ st
  | .parsed content rest st => .parsed ⟨newItem, content, none⟩ rest st

/-- A pass of `parse_object`; the name is a string value before it is `string`. -/
def fillMember (newItem : Nat) (s : List UInt8) (st : Store) : Result Cell Cell :=
  match parseString granted s st with
  | .fault => .fault
  | .failed _ st => .failed ⟨newItem, .zero, none⟩ st
  | .parsed name s st =>
    match s.dropWhile whitespace with
    | [] => .failed ⟨newItem, { Content.zero with type := .string }, some name⟩ st
    | b :: s =>
      if b = ascii ':' then
        match value (s.dropWhile whitespace) st with
        | .fault => .fault
        | .failed _ st => .failed ⟨newItem, { Content.zero with type := .string }, some name⟩ st
        | .parsed content rest st => .parsed ⟨newItem, content, some name⟩ rest st
      else .failed ⟨newItem, { Content.zero with type := .string }, some name⟩ st

def parseArray (s : List UInt8) (st : Store) : Result Unit Content :=
  match parseChildren granted ']' (fillElement value) s st with
  | .fault => .fault
  | .failed _ st => .failed () st
  | .parsed head rest st => .parsed ⟨.array, head, none⟩ rest st

def parseObject (s : List UInt8) (st : Store) : Result Unit Content :=
  match parseChildren granted '\x7d' (fillMember granted value) s st with
  | .fault => .fault
  | .failed _ st => .failed () st
  | .parsed head rest st => .parsed ⟨.object, head, none⟩ rest st

end

/-- What is none of the three words; `nested` parses one level deeper, if the
limit allows another level. -/
def parseMarked (nested : Option (List UInt8 → Store → Result Unit Content)) (s : List UInt8)
    (st : Store) : Result Unit Content :=
  match s with
  | [] => .failed () st
  | b :: s =>
    if b = ascii '"' then
      match parseString granted (b :: s) st with
      | .fault => .fault
      | .failed _ st => .failed () st
      | .parsed output rest st => .parsed ⟨.string, .null, some output⟩ rest st
    else if b = ascii '-' ∨ isDigit b then
      match parseNumber (b :: s) with
      | some (.number text, rest) => .parsed ⟨.number text, .null, none⟩ rest st
      | _ => .failed () st
    else if b = ascii '[' then
      match nested with
      | none => .failed () st
      | some value => parseArray granted value s st
    else if b = ascii '\x7b' then
      match nested with
      | none => .failed () st
      | some value => parseObject granted value s st
    else .failed () st

/-- `left` is `CJSON_NESTING_LIMIT` less the depth. -/
def parseValue (left : Nat) (s : List UInt8) (st : Store) : Result Unit Content :=
  if (bytes "null").isPrefixOf s then .parsed ⟨.null, .null, none⟩ (s.drop 4) st
  else if (bytes "false").isPrefixOf s then .parsed ⟨.false, .null, none⟩ (s.drop 5) st
  else if (bytes "true").isPrefixOf s then .parsed ⟨.true, .null, none⟩ (s.drop 4) st
  else
    match left with
    | 0 => parseMarked granted none s st
    | left + 1 => parseMarked granted (some (parseValue left)) s st

/-- `cJSON_ParseWithOpts`, without the end of what it has parsed; `none` is a
write outside of a block. -/
def parseWithOpts (value : Option (List UInt8)) (requireNullTerminated : Bool) (st : Store) :
    Option (Item × Store) :=
  match value with
  | none => some (.null, st)
  | some value =>
    match st.allocate granted with
    | (none, st) => some (.null, st)
    | (some item, st) =>
      match parseValue granted nestingLimit ((skipUtf8Bom (cstr value)).dropWhile whitespace) st with
      | .fault => none
      | .failed _ st => some (.null, delete (link [⟨item, .zero, none⟩]) st)
      | .parsed content rest st =>
        if requireNullTerminated && !(rest.dropWhile whitespace).isEmpty then
          some (.null, delete (link [⟨item, content, none⟩]) st)
        else some (link [⟨item, content, none⟩], st)

def parse (value : Option (List UInt8)) (st : Store) : Option (Item × Store) :=
  parseWithOpts granted value false st

end

-- ---------------------------------------------------------------------------
-- The block of a string is large enough
-- ---------------------------------------------------------------------------

variable {s rest body bs out : List UInt8}

/-- The backslashes that the first loop skips, from a character on that may stand
behind one itself. -/
def skips : Bool → List UInt8 → Nat
  | _, [] => 0
  | true, _ :: s => skips false s
  | false, b :: s => if b = ascii '\\' then skips true s + 1 else skips false s

/-- Whether the character behind `s` stands behind a skipped backslash. -/
def after : Bool → List UInt8 → Bool
  | e, [] => e
  | true, _ :: s => after false s
  | false, b :: s => after (b = ascii '\\') s

theorem skips_append (e : Bool) (s t : List UInt8) :
    skips e (s ++ t) = skips e s + skips (after e s) t := by
  induction s generalizing e with
  | nil => simp [skips, after]
  | cons b s ih =>
    cases e with
    | true => exact ih false
    | false =>
      simp only [List.cons_append, skips, after]
      split
      · rename_i hb
        simp only [hb, decide_true, ih]
        omega
      · rename_i hb
        simp only [hb, decide_false, ih]

theorem after_append (e : Bool) (s t : List UInt8) : after e (s ++ t) = after (after e s) t := by
  induction s generalizing e with
  | nil => rfl
  | cons b s ih => cases e <;> exact ih _

theorem skips_half (e : Bool) (s : List UInt8) :
    2 * skips e s + (if e then 1 else 0) ≤ s.length + 1 := by
  induction s generalizing e with
  | nil => cases e <;> simp [skips]
  | cons b s ih =>
    cases e with
    | true =>
      have := ih false
      simp only [skips, List.length_cons] at *
      simp at *
      omega
    | false =>
      have htrue := ih true
      have hfalse := ih false
      simp only [skips, List.length_cons]
      simp at *
      split <;> omega

theorem skippedBytes_le : (s : List UInt8) → skippedBytes s ≤ skips false s
  | [] => Nat.le_refl _
  | [b] => by simp [skippedBytes, skips]
  | b :: c :: s => by
    have hrest := skippedBytes_le s
    have hnext := skippedBytes_le (c :: s)
    simp only [skippedBytes, skips]
    split
    · exact Nat.succ_le_succ hrest
    · exact hnext

theorem after_body (h : stringEnd s = some (body, rest)) : after false body = false := by
  fun_induction stringEnd s generalizing body rest with
  | case1 => cases h
  | case2 s =>
    cases h
    rfl
  | case3 => cases h
  | case4 c s _ ih =>
    obtain ⟨⟨body', rest'⟩, hs, heq⟩ := Option.map_eq_some_iff.mp h
    cases heq
    exact (ih hs :)
  | case5 b s _ hescape ih =>
    obtain ⟨⟨body', rest'⟩, hs, heq⟩ := Option.map_eq_some_iff.mp h
    cases heq
    rw [after, decide_eq_false hescape]
    exact ih hs

theorem hexDigit_lt : ∀ b d, hexDigit b = some d → d < 16 := by
  have h : ∀ b, (hexDigit b).all (· < 16) = true := forall_byte (by decide +kernel)
  intro b d hd
  have hb := h b
  rw [hd] at hb
  exact of_decide_eq_true hb

theorem mapM_hexDigit {ds : List Nat} (h : s.mapM hexDigit = some ds) :
    ds.length = s.length ∧ ∀ d ∈ ds, d < 16 := by
  induction s generalizing ds with
  | nil =>
    cases h
    exact ⟨rfl, nofun⟩
  | cons b s ih =>
    simp only [List.mapM_cons, Option.bind_eq_bind, Option.bind_eq_some_iff, Option.pure_def,
      Option.some.injEq] at h
    obtain ⟨d, hd, ds', hds, rfl⟩ := h
    obtain ⟨hlen, hlt⟩ := ih hds
    exact ⟨congrArg (· + 1) hlen, List.forall_mem_cons.mpr ⟨hexDigit_lt b d hd, hlt⟩⟩

theorem foldl_hex {ds : List Nat} (h : ∀ d ∈ ds, d < 16) (n : Nat) :
    ds.foldl (fun h d => h <<< 4 + d) n < (n + 1) * 16 ^ ds.length := by
  induction ds generalizing n with
  | nil => simp
  | cons d ds ih =>
    obtain ⟨hd, hds⟩ := List.forall_mem_cons.mp h
    have hstep : n <<< 4 + d + 1 ≤ (n + 1) * 16 := by
      rw [Nat.shiftLeft_eq]
      omega
    calc (d :: ds).foldl (fun h d => h <<< 4 + d) n
        < (n <<< 4 + d + 1) * 16 ^ ds.length := ih hds _
      _ ≤ (n + 1) * 16 * 16 ^ ds.length := Nat.mul_le_mul_right _ hstep
      _ = (n + 1) * 16 ^ (d :: ds).length := by
        rw [List.length_cons, Nat.pow_succ', Nat.mul_assoc]

theorem parseHex4_lt (input : List UInt8) : parseHex4 input < 0x10000 := by
  unfold parseHex4
  split
  · rename_i ds hds
    obtain ⟨hlen, hlt⟩ := mapM_hexDigit hds
    have hfour : ds.length ≤ 4 := by
      rw [hlen, List.length_take]
      exact Nat.min_le_left _ _
    have hpow : 16 ^ ds.length ≤ 16 ^ 4 := Nat.pow_le_pow_right (by decide) hfour
    have hfold := foldl_hex hlt 0
    omega
  · decide

theorem length_utf8Bytes (mark n codepoint : Nat) (out : List UInt8) :
    (utf8Bytes mark n codepoint out).length = out.length + n + 1 := by
  induction n generalizing codepoint out with
  | zero => rfl
  | succ n ih =>
    rw [utf8Bytes, ih, List.length_cons]
    omega

theorem length_utf8 {codepoint : Nat} (h : utf8 codepoint = some bs) :
    bs.length ≤ 4 ∧ (codepoint < 0x10000 → bs.length ≤ 3) := by
  unfold utf8 at h
  split at h
  · cases h
    simp
  split at h
  · cases h
    simp only [length_utf8Bytes]
    exact ⟨by decide, fun _ => by decide⟩
  split at h
  · cases h
    simp only [length_utf8Bytes]
    exact ⟨by decide, fun _ => by decide⟩
  split at h
  · cases h
    simp only [length_utf8Bytes]
    exact ⟨by decide, fun hlt => by omega⟩
  · cases h

/-- What the characters of an escape are read to is as long as those without the
skipped backslashes, at most. -/
theorem utf16_room {n : Nat} (h : utf16LiteralToUtf8 s = some (bs, n)) (e : Bool) :
    1 ≤ n ∧ n ≤ s.length ∧ bs.length + skips e (s.take n) ≤ n := by
  have hhalf := skips_half e (s.take n)
  unfold utf16LiteralToUtf8 at h
  split at h
  · cases h
  dsimp only at h
  split at h
  · cases h
  split at h
  · split at h
    · cases h
    split at h
    · cases h
    split at h
    · cases h
    obtain ⟨out, hout, heq⟩ := Option.map_eq_some_iff.mp h
    cases heq
    have hlen := (length_utf8 hout).1
    simp only [List.length_take, List.length_drop] at *
    omega
  · obtain ⟨out, hout, heq⟩ := Option.map_eq_some_iff.mp h
    cases heq
    have hlen := (length_utf8 hout).2 (parseHex4_lt _)
    simp only [List.length_take] at *
    omega

/-- The block has room for what the characters from `s` on make, and for the NUL. -/
structure Room (size : Nat) (e : Bool) (s out : List UInt8) : Prop where
  fits : out.length + s.length + 1 ≤ size + skips e s
  ended : after e s = false

theorem Room.empty {size : Nat} {e : Bool} (h : Room size e [] out) : out.length + 1 ≤ size :=
  h.fits

theorem Room.put {size : Nat} {e : Bool} {t : List UInt8} (h : Room size e (s ++ t) out)
    (hbs : bs.length + skips e s ≤ s.length) :
    out.length + bs.length ≤ size ∧ Room size (after e s) t (out ++ bs) := by
  obtain ⟨hfits, hended⟩ := h
  have hhalf := skips_half (after e s) t
  rw [skips_append, List.length_append] at hfits
  refine ⟨?_, ?_, by rwa [after_append] at hended⟩
  · cases t with
    | nil =>
      simp [skips] at hfits
      omega
    | cons c t =>
      simp only [List.length_cons] at *
      omega
  · rw [List.length_append]
    omega

theorem Room.escape {size : Nat} {e : Bool} (h : Room size e (ascii '\\' :: s) out) :
    1 + skips e (ascii '\\' :: s.take 1) ≤ (ascii '\\' :: s.take 1).length := by
  have hhalf := skips_half e (ascii '\\' :: s.take 1)
  cases s with
  | nil =>
    cases e with
    | true => exact Nat.le_refl 1
    | false => cases h.ended
  | cons c s =>
    simp only [List.take_succ_cons, List.take_zero, List.length_cons, List.length_nil] at *
    omega

theorem unescape_eq {size : Nat} (fuel : Nat) {e : Bool} (h : Room size e s out) :
    unescape size fuel s out = (CJson.unescape fuel s).elim .failed (.done <| out ++ ·) := by
  induction fuel generalizing e s out with
  | zero =>
    cases s with
    | nil => simp [unescape, CJson.unescape, put, h.empty]
    | cons b s => rfl
  | succ fuel ih =>
    have hnext : ∀ {a t bs}, Room size e (a ++ t) out → bs.length + skips e a ≤ a.length →
        put size out bs (unescape size fuel t) =
          ((CJson.unescape fuel t).map (bs ++ ·)).elim .failed (.done <| out ++ ·) := by
      intro a t bs hroom hbs
      obtain ⟨hfits, hroom'⟩ := hroom.put hbs
      rw [put, if_pos hfits, ih hroom']
      cases CJson.unescape fuel t <;> simp
    cases s with
    | nil => simp [unescape, CJson.unescape, put, h.empty]
    | cons b s =>
      by_cases hb : b = ascii '\\'
      · subst hb
        simp only [unescape, CJson.unescape, ne_eq, not_true_eq_false, if_false]
        split
        · cases hcode : utf16LiteralToUtf8 (ascii '\\' :: s) with
          | none => rfl
          | some code =>
            obtain ⟨bs, n⟩ := code
            obtain ⟨hpos, hlen, hbs⟩ := utf16_room hcode e
            have hdrop : (ascii '\\' :: s).drop n = s.drop (n - 1) := by
              obtain ⟨k, rfl⟩ := Nat.exists_eq_add_of_le' hpos
              rfl
            refine hnext (a := (ascii '\\' :: s).take n) ?_ ?_
            · rwa [← hdrop, List.take_append_drop]
            · rwa [List.length_take, Nat.min_eq_left hlen]
        · cases escape (s.headD (ascii '"')) with
          | none => rfl
          | some d =>
            refine hnext (a := ascii '\\' :: s.take 1) ?_ ?_
            · rwa [List.cons_append, List.take_append_drop]
            · exact h.escape
      · have hone : skips e [b] = 0 := by cases e <;> simp [skips, hb]
        rw [unescape, if_pos hb, CJson.unescape, if_pos hb]
        exact hnext (a := [b]) h (by simp [hone])

-- ---------------------------------------------------------------------------
-- The blocks and the tree of an item
-- ---------------------------------------------------------------------------

def stringBlocks (text : Option Block) : List Nat := (text.map (·.number)).toList

/-- The blocks that `cJSON_Delete` frees, in its order. -/
def Item.blocks : Item → List Nat
  | .null => []
  | .node self next child _ text name =>
    child.blocks ++ (stringBlocks text ++ (stringBlocks name ++ self :: next.blocks))

def Kind.tree (type : Kind) (text : Option Block) (child : List (List UInt8 × CJson)) : CJson :=
  match type with
  | .invalid | .null => .null
  | .false => .bool .false
  | .true => .bool .true
  | .number text => .number text
  | .string => .string (text.elim [] (·.text))
  | .array => .array (child.map (·.2))
  | .object => .object child

/-- An item and those that its `next` leads to, with their names. -/
def Item.entries : Item → List (List UInt8 × CJson)
  | .null => []
  | .node _ next child type text name =>
    (name.elim [] (·.text), type.tree text child.entries) :: next.entries

def Content.blocks (c : Content) : List Nat := c.child.blocks ++ stringBlocks c.valuestring

def Content.tree (c : Content) : CJson := c.type.tree c.valuestring c.child.entries

def Cell.blocks (cell : Cell) : List Nat :=
  cell.content.blocks ++ (stringBlocks cell.string ++ [cell.self])

def Cell.entry (cell : Cell) : List UInt8 × CJson :=
  (cell.string.elim [] (·.text), cell.content.tree)

theorem blocks_link (cells : List Cell) : (link cells).blocks = cells.flatMap Cell.blocks := by
  induction cells with
  | nil => rfl
  | cons cell next ih => simp [link, Item.blocks, ih, Cell.blocks, Content.blocks]

theorem entries_link (cells : List Cell) : (link cells).entries = cells.map Cell.entry := by
  induction cells with
  | nil => rfl
  | cons cell next ih => simp [link, Item.entries, ih, Cell.entry, Content.tree]

open Store (Turns Denied allocation turns_deallocate)

variable {granted : Nat → Bool} {st st' st₁ : Store} {pre mid : List Nat} {α β ε : Type}

theorem turns_deallocateString (text : Option Block) (rest : List Nat) (st : Store) :
    Turns (stringBlocks text ++ rest) rest st (deallocateString text st) := by
  cases text with
  | none => exact .refl _ _
  | some block => exact turns_deallocate _ _ _

theorem turns_delete (item : Item) (st : Store) : Turns item.blocks [] st (delete item st) := by
  induction item generalizing st with
  | null => exact .refl _ _
  | node self next child type text name ihnext ihchild =>
    refine ((ihchild st).frame _).trans ?_
    refine (turns_deallocateString text _ _).trans ?_
    refine (turns_deallocateString name _ _).trans ?_
    exact (turns_deallocate self _ _).trans (ihnext _)

-- ---------------------------------------------------------------------------
-- The parser with its blocks follows the parser on texts
-- ---------------------------------------------------------------------------

/-- A result that agrees with what the parser on texts makes: it is that value
with its blocks, or the blocks are given back and either there is no value or an
allocation has failed. -/
inductive Agrees (granted : Nat → Bool) (lost : ε → List Nat) (kept : β → List Nat) (value : β → α)
    (pre : List Nat) (expected : Option (α × List UInt8)) (st : Store) : Result ε β → Prop
  | failed {left : ε} {st' : Store} (h : Turns pre (lost left) st st')
      (hwhy : expected = none ∨ Denied granted st st') :
    Agrees granted lost kept value pre expected st (.failed left st')
  | parsed {v : β} {rest : List UInt8} {st' : Store} (h : Turns pre (kept v) st st')
      (hvalue : expected = some (value v, rest)) :
    Agrees granted lost kept value pre expected st (.parsed v rest st')

variable {lost : ε → List Nat} {kept : β → List Nat} {value : β → α}
  {expected : Option (α × List UInt8)} {r : Result ε β}

theorem Agrees.after (h : Turns pre mid st st₁)
    (hr : Agrees granted lost kept value mid expected st₁ r) :
    Agrees granted lost kept value pre expected st r := by
  cases hr with
  | failed h' hwhy => exact .failed (h.trans h') (hwhy.imp_right (·.earlier h.calls))
  | parsed h' hvalue => exact .parsed (h.trans h') hvalue

def nothing (_ : Unit) : List Nat := []

variable (granted) in
theorem parseString_agrees (s : List UInt8) (st : Store) :
    Agrees granted nothing (fun output : Block => [output.number]) Block.text []
      (CJson.parseString s) st (parseString granted s st) := by
  cases s with
  | nil => exact .failed (.refl _ _) (.inl rfl)
  | cons b s =>
    simp only [parseString, CJson.parseString]
    split
    · cases hend : stringEnd s with
      | none => exact .failed (.refl _ _) (.inl rfl)
      | some ends =>
        obtain ⟨body, rest⟩ := ends
        have hroom : Room (body.length + 1 - skippedBytes body + 1) false body [] := by
          refine ⟨?_, after_body hend⟩
          have := skippedBytes_le body
          have := skips_half false body
          simp only [List.length_nil]
          omega
        have hall := allocation granted st
        generalize st.allocate granted = output at hall ⊢
        cases hall with
        | denied h hdenied => exact .failed h (.inr hdenied)
        | given h =>
          simp only [unescape_eq _ hroom]
          cases CJson.unescape body.length body with
          | none => exact .failed (h.trans (turns_deallocate _ _ _)) (.inl rfl)
          | some text => exact .parsed h rfl
    · exact .failed (.refl _ _) (.inl rfl)

theorem turns_link (front : List Cell) (st : Store) :
    Turns (front.flatMap Cell.blocks) [] st (delete (link front) st) := by
  rw [← blocks_link]
  exact turns_delete _ _

theorem flatMap_concat (front : List Cell) (cell : Cell) :
    (front ++ [cell]).flatMap Cell.blocks = front.flatMap Cell.blocks ++ cell.blocks := by
  simp

theorem turns_concat (front : List Cell) (cell : Cell) (st : Store) :
    Turns (front.flatMap Cell.blocks ++ cell.blocks) [] st (delete (link (front ++ [cell])) st) := by
  rw [← flatMap_concat]
  exact turns_link _ _

section

variable {close : Char} {child : Parser UInt8 α} {part : List UInt8 × CJson → α}
  {fill : Nat → List UInt8 → Store → Result Cell Cell}

/-- A pass that parses an element or a member into a new item. -/
def FillAgrees (granted : Nat → Bool) (part : List UInt8 × CJson → α) (child : Parser UInt8 α)
    (fill : Nat → List UInt8 → Store → Result Cell Cell) : Prop :=
  ∀ node s st, Agrees granted Cell.blocks Cell.blocks (fun cell => part cell.entry) [node] (child s)
    st (fill node s st)

variable (close) in
theorem parseItems_agrees (hfill : FillAgrees granted part child fill) (fuel : Nat)
    (front : List Cell) (s : List UInt8) (st : Store) :
    Agrees granted nothing Item.blocks (fun item => item.entries.map part)
      (front.flatMap Cell.blocks)
      ((items whitespace (ascii ',') (ascii close) child fuel s).map fun (vs, rest) =>
        (front.map (fun cell => part cell.entry) ++ vs, rest))
      st (parseItems granted close fill fuel front s st) := by
  induction fuel generalizing front s st with
  | zero => exact .failed (turns_link _ _) (.inl rfl)
  | succ fuel ih =>
    rw [parseItems]
    have hall := allocation granted st
    generalize st.allocate granted = newItem at hall ⊢
    cases hall with
    | @denied st₁ h hdenied =>
      refine .failed ((h.frame (front.flatMap Cell.blocks)).trans (turns_link _ _)) (.inr ?_)
      exact hdenied.later (turns_link front st₁).calls
    | @given node st₁ h =>
      have hnode : Turns (front.flatMap Cell.blocks) (front.flatMap Cell.blocks ++ [node]) st st₁ := by
        simpa using h.frame_left (front.flatMap Cell.blocks)
      refine .after hnode ?_
      have hcell := hfill node (s.dropWhile whitespace) st₁
      simp only [items]
      generalize fill node (s.dropWhile whitespace) st₁ = r at hcell ⊢
      cases hcell with
      | @failed cell st₂ h₂ hwhy =>
        refine .failed ((h₂.frame_left _).trans (turns_concat front cell st₂)) ?_
        refine hwhy.imp (fun hnone => ?_) (·.later (turns_concat front cell st₂).calls)
        rw [hnone]
        rfl
      | @parsed cell rest st₂ h₂ hvalue =>
        refine .after (h₂.frame_left _) ?_
        simp only [hvalue]
        cases hmark : rest.dropWhile whitespace with
        | nil => exact .failed (turns_concat front cell st₂) (.inl rfl)
        | cons c s₃ =>
          by_cases hcomma : c = ascii ','
          · simp only [if_pos hcomma]
            have hrest := ih (front ++ [cell]) s₃ st₂
            rw [flatMap_concat] at hrest
            simpa [Function.comp_def] using hrest
          · simp only [if_neg hcomma]
            by_cases hclose : c = ascii close
            · simp only [if_pos hclose]
              refine .parsed ?_ ?_
              · rw [blocks_link, flatMap_concat]
                exact .refl _ _
              · simp [entries_link]
            · simp only [if_neg hclose]
              exact .failed (turns_concat front cell st₂) (.inl rfl)

variable (close) in
theorem parseChildren_agrees (hfill : FillAgrees granted part child fill) (s : List UInt8)
    (st : Store) :
    Agrees granted nothing Item.blocks (fun item => item.entries.map part) []
      (CJson.parseChildren close child s) st (parseChildren granted close fill s st) := by
  unfold parseChildren CJson.parseChildren
  cases s.dropWhile whitespace with
  | nil => exact .failed (.refl _ _) (.inl rfl)
  | cons b rest =>
    by_cases hclose : b = ascii close
    · simp only [if_pos hclose]
      exact .parsed (.refl _ _) rfl
    · simp only [if_neg hclose]
      simpa using parseItems_agrees close hfill (s.length + 1) [] s st

end

/-- The parser with its blocks follows the one on texts at one more level. -/
def ValueAgrees (granted : Nat → Bool) (expected : Parser UInt8 CJson)
    (value : List UInt8 → Store → Result Unit Content) : Prop :=
  ∀ s st, Agrees granted nothing Content.blocks Content.tree [] (expected s) st (value s st)

section

variable {expected : Parser UInt8 CJson} {value : List UInt8 → Store → Result Unit Content}

theorem fillElement_agrees (hvalue : ValueAgrees granted expected value) :
    FillAgrees granted (·.2) expected (fillElement value) := by
  intro node s st
  have hs := hvalue s st
  unfold fillElement
  generalize value s st = r at hs ⊢
  cases hs with
  | failed h hwhy => exact .failed (h.frame [node]) hwhy
  | @parsed content rest st₁ h hexp => exact .parsed (h.frame [node]) hexp

theorem fillMember_agrees (hvalue : ValueAgrees granted expected value) :
    FillAgrees granted id (parseMember expected) (fillMember granted value) := by
  intro node s st
  have hs := parseString_agrees granted s st
  unfold fillMember parseMember
  generalize parseString granted s st = r at hs ⊢
  cases hs with
  | failed h hwhy =>
    refine .failed (h.frame [node]) (hwhy.imp_left fun hnone => ?_)
    rw [hnone]
  | @parsed name rest st₁ h hexp =>
    refine .after (h.frame [node]) ?_
    simp only [hexp]
    cases rest.dropWhile whitespace with
    | nil => exact .failed (.refl _ _) (.inl rfl)
    | cons b s₂ =>
      by_cases hcolon : b = ascii ':'
      · simp only [if_pos hcolon]
        have hv := hvalue (s₂.dropWhile whitespace) st₁
        generalize value (s₂.dropWhile whitespace) st₁ = r at hv ⊢
        cases hv with
        | failed h₂ hwhy =>
          refine .failed (h₂.frame [name.number, node]) (hwhy.imp_left fun hnone => ?_)
          rw [hnone]
          rfl
        | parsed h₂ hexp₂ =>
          refine .parsed (h₂.frame [name.number, node]) ?_
          rw [hexp₂]
          rfl
      · simp only [if_neg hcolon]
        exact .failed (.refl _ _) (.inl rfl)

theorem parseArray_agrees (hvalue : ValueAgrees granted expected value) :
    ValueAgrees granted (CJson.parseArray expected) (parseArray granted value) := by
  intro s st
  have hs := parseChildren_agrees ']' (fillElement_agrees hvalue) s st
  unfold parseArray CJson.parseArray
  generalize parseChildren granted ']' (fillElement value) s st = r at hs ⊢
  cases hs with
  | failed h hwhy =>
    refine .failed h (hwhy.imp_left fun hnone => ?_)
    rw [hnone]
    rfl
  | @parsed head rest st₁ h hexp =>
    refine .parsed (h.perm (by simp [Content.blocks, stringBlocks])) ?_
    rw [hexp]
    rfl

theorem parseObject_agrees (hvalue : ValueAgrees granted expected value) :
    ValueAgrees granted (CJson.parseObject expected) (parseObject granted value) := by
  intro s st
  have hs := parseChildren_agrees '\x7d' (fillMember_agrees hvalue) s st
  unfold parseObject CJson.parseObject
  generalize parseChildren granted '\x7d' (fillMember granted value) s st = r at hs ⊢
  cases hs with
  | failed h hwhy =>
    refine .failed h (hwhy.imp_left fun hnone => ?_)
    rw [hnone]
    rfl
  | @parsed head rest st₁ h hexp =>
    refine .parsed (h.perm (by simp [Content.blocks, stringBlocks])) ?_
    rw [hexp]
    simp [Content.tree, Kind.tree]

end

theorem parseMarked_agrees {expected : Option (Parser UInt8 CJson)}
    {nested : Option (List UInt8 → Store → Result Unit Content)}
    (h : Option.Rel (ValueAgrees granted) expected nested) :
    ValueAgrees granted (CJson.parseMarked expected) (parseMarked granted nested) := by
  intro s st
  cases s with
  | nil => exact .failed (.refl _ _) (.inl rfl)
  | cons b s =>
    simp only [parseMarked, CJson.parseMarked]
    split
    · have hs := parseString_agrees granted (b :: s) st
      generalize parseString granted (b :: s) st = r at hs ⊢
      cases hs with
      | failed h hwhy =>
        refine .failed h (hwhy.imp_left fun hnone => ?_)
        rw [hnone]
        rfl
      | parsed h hexp =>
        refine .parsed h ?_
        rw [hexp]
        rfl
    split
    · cases hn : parseNumber (b :: s) with
      | none => exact .failed (.refl _ _) (.inl rfl)
      | some number =>
        obtain ⟨v, rest⟩ := number
        obtain ⟨n, -, -, -, rfl, -⟩ := parseNumber_eq_some hn
        exact .parsed (.refl _ _) rfl
    split
    · cases h with
      | none => exact .failed (.refl _ _) (.inl rfl)
      | some hvalue => exact parseArray_agrees hvalue s st
    split
    · cases h with
      | none => exact .failed (.refl _ _) (.inl rfl)
      | some hvalue => exact parseObject_agrees hvalue s st
    · exact .failed (.refl _ _) (.inl rfl)

variable (granted) in
theorem parseValue_agrees (left : Nat) :
    ValueAgrees granted (CJson.parseValue left) (parseValue granted left) := by
  induction left with
  | zero =>
    intro s st
    unfold parseValue CJson.parseValue
    split
    · exact .parsed (.refl _ _) rfl
    split
    · exact .parsed (.refl _ _) rfl
    split
    · exact .parsed (.refl _ _) rfl
    · exact parseMarked_agrees .none s st
  | succ left ih =>
    intro s st
    unfold parseValue CJson.parseValue
    split
    · exact .parsed (.refl _ _) rfl
    split
    · exact .parsed (.refl _ _) rfl
    split
    · exact .parsed (.refl _ _) rfl
    · exact parseMarked_agrees (.some ih) s st

def Item.tree? (item : Item) : Option CJson := item.entries.head?.map (·.2)

/-- Whatever the text and whichever allocations fail, `cJSON_Parse` writes inside
of its blocks and leaves allocated the blocks of its result and no others, and
`cJSON_Delete` frees each of these once; the result is the tree of the text, or
`NULL` after an allocation that failed. -/
theorem parse_accounted (granted : Nat → Bool) (value : Option (List UInt8)) (st : Store) :
    ∃ item st', parse granted value st = some (item, st') ∧ Turns [] item.blocks st st' ∧
      Turns item.blocks [] st' (delete item st') ∧
      (item.tree? = value.bind CJson.parse ∨ item = .null ∧ Denied granted st st') := by
  cases value with
  | none => exact ⟨.null, st, rfl, .refl _ _, .refl _ _, .inl rfl⟩
  | some value =>
    unfold parse parseWithOpts
    have hall := allocation granted st
    generalize st.allocate granted = item at hall ⊢
    cases hall with
    | @denied st₁ h hdenied => exact ⟨.null, st₁, rfl, h, .refl _ _, .inr ⟨rfl, hdenied⟩⟩
    | @given node st₁ h =>
      have hs := parseValue_agrees granted nestingLimit
        ((skipUtf8Bom (cstr value)).dropWhile whitespace) st₁
      dsimp only
      have hparse : (some value).bind CJson.parse = (CJson.parseValue nestingLimit
        ((skipUtf8Bom (cstr value)).dropWhile whitespace)).map (·.1) := rfl
      rw [hparse]
      generalize parseValue granted nestingLimit
        ((skipUtf8Bom (cstr value)).dropWhile whitespace) st₁ = r at hs ⊢
      cases hs with
      | @failed left st₂ h₂ hwhy =>
        have hdelete := turns_delete (link [⟨node, .zero, none⟩]) st₂
        refine ⟨.null, _, rfl, (h.trans (h₂.frame [node])).trans hdelete, .refl _ _, ?_⟩
        refine hwhy.imp (fun hnone => ?_) fun hdenied => ⟨rfl, ?_⟩
        · rw [hnone]
          rfl
        · exact (hdenied.earlier h.calls).later hdelete.calls
      | @parsed content rest st₂ h₂ hexp =>
        refine ⟨link [⟨node, content, none⟩], st₂, rfl, ?_, turns_delete _ _, .inl ?_⟩
        · refine (h.trans (h₂.frame [node])).perm ?_
          simp [blocks_link, Cell.blocks, stringBlocks]
        · rw [hexp]
          rfl

end DevAdapter.CJson.Blocks

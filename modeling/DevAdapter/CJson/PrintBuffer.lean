import DevAdapter.CJson.RoundTrip
import DevAdapter.Lib.Allocator
import DevAdapter.Lib.Memory

/-!
# cJSON_Print and its buffer

`cJSON_Print` once more, with the buffer that it writes to and makes larger, when
any allocation may fail. Every byte that it reads or writes is one of the buffer,
what it gives back is the text of the tree in a block of that size, and it leaves
nothing else allocated. `hooks.reallocate` is `realloc`, since nothing calls
`cJSON_InitHooks`, and the output is formatted.
-/

namespace DevAdapter.CJson.Buffer

open OffsetMemory

-- ---------------------------------------------------------------------------
-- The buffer
-- ---------------------------------------------------------------------------

def intMax : Nat := 2147483647

/-- `printbuffer`; `buffer` is the number of the block, and `mem` what it holds. -/
structure PrintBuffer where
  buffer : Option Nat
  mem : Mem UInt8
  length : Nat
  offset : Nat
  depth : Nat
  store : Store

/-- How printing fails: with a read or a write outside of the buffer, or with `false`. -/
inductive Failure
  | fault
  | failed
  deriving DecidableEq, Repr

abbrev Printing := EStateM Failure PrintBuffer

def put (output : Nat) (bs : List UInt8) : Printing Unit := fun p =>
  if p.buffer.isSome ∧ output + bs.length ≤ p.length then
    .ok () { p with mem := p.mem.write output bs }
  else .error .fault p

def strlen (m : Mem UInt8) (off : Int) : Nat → Option Nat
  | 0 => none
  | n + 1 => if m off = 0 then some 0 else (strlen m (off + 1) n).map (· + 1)

def updateOffset : Printing Unit := fun p =>
  match p.buffer with
  | none => .ok () p
  | some _ =>
    match strlen p.mem p.offset (p.length - p.offset) with
    | none => .error .fault p
    | some n => .ok () { p with offset := p.offset + n }

def advance (n : Nat) : Printing Unit := fun p => .ok () { p with offset := p.offset + n }

def deepen : Printing Unit := fun p => .ok () { p with depth := p.depth + 1 }

def leave : Printing Unit := fun p => .ok () { p with depth := p.depth - 1 }

section

-- whether call `n` of the allocator succeeds, and what it leaves in a block
variable (granted : Nat → Bool) (junk : Nat → Mem UInt8)

/-- The address for at least `needed` bytes. -/
def ensure (needed : Nat) : Printing Nat := fun p =>
  match p.buffer with
  | none => .error .failed p
  | some buffer =>
    if 0 < p.length ∧ p.length ≤ p.offset then .error .failed p
    else if intMax < needed then .error .failed p
    else
      let needed := needed + p.offset + 1
      if needed ≤ p.length then .ok p.offset p
      else if intMax / 2 < needed ∧ intMax < needed then .error .failed p
      else
        let newsize := if intMax / 2 < needed then intMax else needed * 2
        match p.store.reallocate granted buffer with
        | (none, st) =>
          .error .failed { p with buffer := none, length := 0, store := st.deallocate buffer }
        | (some newbuffer, st) =>
          .ok p.offset
            { p with
              buffer := some newbuffer
              mem := fun i => if 0 ≤ i ∧ i < p.length then p.mem i else junk newbuffer i
              length := newsize
              store := st }

-- ---------------------------------------------------------------------------
-- Values
-- ---------------------------------------------------------------------------

/-- The characters that `print_string_ptr` writes an escape of two characters for. -/
def shortEscape (b : UInt8) : Bool :=
  b ∈ [ascii '"', ascii '\\', 8, 12, 10, 13, 9]

/-- `escape_characters` after the first loop of `print_string_ptr`. -/
def escapeCharacters : List UInt8 → Nat
  | [] => 0
  | b :: s => (if shortEscape b then 1 else if b < 32 then 5 else 0) + escapeCharacters s

/-- The second loop; `sprintf` writes a NUL behind a code. -/
def copyEscaped (outputPointer : Nat) : List UInt8 → Printing Unit
  | [] => pure ()
  | b :: s => do
    if 31 < b ∧ b ≠ ascii '"' ∧ b ≠ ascii '\\' then
      put outputPointer [b]
      copyEscaped (outputPointer + 1) s
    else
      put outputPointer [ascii '\\']
      if shortEscape b then
        put (outputPointer + 1) ((escaped b).drop 1)
        copyEscaped (outputPointer + 2) s
      else
        put (outputPointer + 1) (ascii 'u' :: hexDigits b ++ [0])
        copyEscaped (outputPointer + 6) s

def printStringPtr (input : List UInt8) : Printing Unit := do
  let outputLength := (cstr input).length + escapeCharacters (cstr input)
  let output ← ensure granted junk (outputLength + 3)
  if escapeCharacters (cstr input) = 0 then
    put output [ascii '"']
    put (output + 1) (cstr input)
    put (output + outputLength + 1) [ascii '"']
    put (output + outputLength + 2) [0]
  else
    put output [ascii '"']
    copyEscaped (output + 1) (cstr input)
    put (output + outputLength + 1) [ascii '"']
    put (output + outputLength + 2) [0]

-- what `sprintf` makes of a number
variable (printNumber : List UInt8 → List UInt8)

/-- `print_number`; `number_buffer` has 26 bytes. -/
def printNumberText (text : List UInt8) : Printing Unit := do
  let length := (printNumber text).length
  if 25 < length then throw .failed
  else
    let output ← ensure granted junk (length + 1)
    put output (printNumber text)
    put (output + length) [0]
    advance length

mutual

def printValue : CJson → Printing Unit
  | .null => do
    let output ← ensure granted junk 5
    put output (bytes "null" ++ [0])
  | .bool false => do
    let output ← ensure granted junk 6
    put output (bytes "false" ++ [0])
  | .bool true => do
    let output ← ensure granted junk 5
    put output (bytes "true" ++ [0])
  | .number text => printNumberText granted junk printNumber text
  | .string text => printStringPtr granted junk text
  | .array child => do
    let output ← ensure granted junk 1
    put output [ascii '[']
    advance 1
    deepen
    printElements child
    let output ← ensure granted junk 2
    put output [ascii ']']
    put (output + 1) [0]
    leave
  | .object child => do
    let output ← ensure granted junk 3
    put output [ascii '\x7b']
    deepen
    put (output + 1) [ascii '\n']
    advance 2
    printMembers child
    let depth := (← get).depth
    let output ← ensure granted junk (depth + 1)
    put output (tabs (depth - 1))
    put (output + (depth - 1)) [ascii '\x7d']
    put (output + (depth - 1) + 1) [0]
    leave

/-- The loop of `print_array`. -/
def printElements : List CJson → Printing Unit
  | [] => pure ()
  | item :: next => do
    printValue item
    updateOffset
    if next.isEmpty then pure ()
    else
      let output ← ensure granted junk 3
      put output [ascii ',']
      put (output + 1) [ascii ' ']
      put (output + 2) [0]
      advance 2
      printElements next

/-- The loop of `print_object`. -/
def printMembers : List (List UInt8 × CJson) → Printing Unit
  | [] => pure ()
  | (name, item) :: next => do
    let depth := (← get).depth
    let output ← ensure granted junk depth
    put output (tabs depth)
    advance depth
    printStringPtr granted junk name
    updateOffset
    let output ← ensure granted junk 2
    put output [ascii ':']
    put (output + 1) [ascii '\t']
    advance 2
    printValue item
    updateOffset
    let comma := if next.isEmpty then [] else [ascii ',']
    let output ← ensure granted junk (1 + comma.length + 1)
    put output comma
    put (output + comma.length) [ascii '\n']
    put (output + comma.length + 1) [0]
    advance (1 + comma.length)
    printMembers next

end

structure Printed where
  block : Nat
  content : List UInt8

/-- The blocks of a buffer that is not needed any more are freed. -/
def discard (p : PrintBuffer) : Option Printed × Store :=
  match p.buffer with
  | none => (none, p.store)
  | some buffer => (none, p.store.deallocate buffer)

/-- `print`; `none` is a read or a write outside of the buffer. -/
def print (item : CJson) (st : Store) : Option (Option Printed × Store) :=
  match st.allocate granted with
  | (none, st) => some (none, st)
  | (some buffer, st) =>
    match (do printValue granted junk printNumber item; updateOffset).run
        ⟨some buffer, junk buffer, 256, 0, 0, st⟩ with
    | .error .fault _ => none
    | .error .failed p => some (discard p)
    | .ok _ p =>
      match p.buffer with
      | none => some (none, p.store)
      | some buffer =>
        match p.store.reallocate granted buffer with
        | (none, st) => some (discard { p with store := st })
        | (some printed, st) => some (some ⟨printed, p.mem.read 0 (p.offset + 1)⟩, st)

end

-- ---------------------------------------------------------------------------
-- How printing ends
-- ---------------------------------------------------------------------------

open Store (Turns Denied allocation reallocation turns_deallocate)

def PrintBuffer.blocks (p : PrintBuffer) : List Nat := p.buffer.toList

/-- The buffer holds `w` up to its offset and `t` behind it, and `k` more bytes fit. -/
structure Holds (p : PrintBuffer) (d : Nat) (w t : List UInt8) (k : Nat) : Prop where
  buffer : p.buffer.isSome = true
  depth : p.depth = d
  offset : p.offset = w.length
  inside : w.length < p.length
  room : w.length + t.length + k ≤ p.length
  text : p.mem.read 0 (w.length + t.length) = w ++ t

/-- With `post`, or with `false` because an allocation has failed or a text of
`n` bytes is too long; a buffer that is lost is freed. -/
inductive Ends (granted : Nat → Bool) (n : Nat) (post : α → PrintBuffer → Prop) (p : PrintBuffer) :
    EStateM.Result Failure PrintBuffer α → Prop
  | ok {v : α} {p' : PrintBuffer} (h : Turns p.blocks p'.blocks p.store p'.store)
      (hpost : post v p') :
    Ends granted n post p (.ok v p')
  | failed {p' : PrintBuffer} (h : Turns p.blocks p'.blocks p.store p'.store)
      (hwhy : Denied granted p.store p'.store ∨ intMax < n + 2) :
    Ends granted n post p (.error .failed p')

variable {granted : Nat → Bool} {junk : Nat → Mem UInt8} {printNumber : List UInt8 → List UInt8}
  {n d k : Nat} {p : PrintBuffer} {w t u bs : List UInt8} {α β : Type}
  {post : α → PrintBuffer → Prop} {post' : β → PrintBuffer → Prop}

theorem Ends.bind {x : Printing α} {f : α → Printing β} (hx : Ends granted n post p (x p))
    (hf : ∀ v p', post v p' → Ends granted n post' p' (f v p')) :
    Ends granted n post' p ((x >>= f) p) := by
  change Ends granted n post' p (EStateM.bind x f p)
  rw [EStateM.bind]
  generalize x p = r at hx ⊢
  cases hx with
  | failed h hwhy => exact .failed h hwhy
  | ok h hpost =>
    have hr := hf _ _ hpost
    dsimp only
    generalize f _ _ = r at hr ⊢
    cases hr with
    | ok h' hpost' => exact .ok (h.trans h') hpost'
    | failed h' hwhy => exact .failed (h.trans h') (hwhy.imp_left (·.earlier h.calls))

theorem Ends.imp {post'' : α → PrintBuffer → Prop} {r} (h : Ends granted n post p r)
    (himp : ∀ v p', post v p' → post'' v p') : Ends granted n post'' p r := by
  cases h with
  | ok h hpost => exact .ok h (himp _ _ hpost)
  | failed h hwhy => exact .failed h hwhy

-- ---------------------------------------------------------------------------
-- The operations on the buffer
-- ---------------------------------------------------------------------------

theorem Holds.drop (h : Holds p d w (t ++ u) k) : Holds p d w t (u.length + k) := by
  have hroom := h.room
  have htext := h.text
  rw [List.length_append] at hroom htext
  refine ⟨h.buffer, h.depth, h.offset, h.inside, by omega, ?_⟩
  rw [← Nat.add_assoc, read_add, ← List.append_assoc] at htext
  exact (List.append_inj' htext (by simp)).1

theorem Holds.start (h : Holds p d w t k) : Holds p d w [] (t.length + k) :=
  Holds.drop (t := []) h

theorem Holds.less (h : Holds p d w t k) (hle : j ≤ k) : Holds p d w t j :=
  ⟨h.buffer, h.depth, h.offset, h.inside, by have := h.room; omega, h.text⟩

theorem Holds.put (h : Holds p d w t k) (hle : bs.length + j ≤ k) :
    Holds { p with mem := p.mem.write ((w.length + t.length : Nat) : Int) bs } d w (t ++ bs) j := by
  refine ⟨h.buffer, h.depth, h.offset, h.inside, ?_, ?_⟩
  · have := h.room
    simp only [List.length_append]
    omega
  · have hzero : (0 : Int) + ((w.length + t.length : Nat) : Int) = (w.length + t.length : Nat) := by
      omega
    rw [List.length_append, ← Nat.add_assoc, read_add, hzero, read_write_self,
      read_write_of_disjoint _ _ _ (.inl (by omega)), h.text, List.append_assoc]

theorem put_ends (h : Holds p d w t k) (hout : output = w.length + t.length)
    (hle : bs.length + j ≤ k) :
    Ends granted n (fun _ p' => Holds p' d w (t ++ bs) j) p (put output bs p) := by
  subst hout
  have hroom := h.room
  rw [Buffer.put, if_pos ⟨h.buffer, by omega⟩]
  exact .ok (.refl _ _) (h.put hle)

theorem ensure_ends (h : Holds p d w [] k) (hn : needed + w.length ≤ n + 1) :
    Ends granted n (fun output p' => output = w.length ∧ Holds p' d w [] (needed + 1)) p
      (ensure granted junk needed p) := by
  obtain ⟨buffer, hbuffer⟩ := Option.isSome_iff_exists.mp h.buffer
  have hblocks : p.blocks = [buffer] := by rw [PrintBuffer.blocks, hbuffer]; rfl
  have hinside := h.inside
  have hoffset := h.offset
  simp only [ensure, hbuffer]
  rw [if_neg (by omega)]
  split
  · exact .failed (.refl _ _) (.inr (by omega))
  split
  · refine .ok (.refl _ _) ⟨hoffset, h.buffer, h.depth, hoffset, hinside, ?_, h.text⟩
    simp only [List.length_nil]
    omega
  split
  · exact .failed (.refl _ _) (.inr (by omega))
  have hcall := reallocation granted buffer p.store
  generalize p.store.reallocate granted buffer = call at hcall ⊢
  cases hcall with
  | @denied st' hturns hdenied =>
    have hfree := turns_deallocate buffer [] st'
    refine .failed ?_ (.inl (hdenied.later hfree.calls))
    rw [hblocks]
    exact hturns.trans hfree
  | given hturns =>
    refine .ok (by rwa [hblocks]) ⟨hoffset, rfl, h.depth, hoffset, ?_, ?_, ?_⟩
    · dsimp only
      split <;> omega
    · simp only [List.length_nil]
      split <;> omega
    · rw [← h.text]
      refine read_congr fun i hi hlt => if_pos ⟨hi, ?_⟩
      simp only [List.length_nil] at hlt
      omega

theorem strlen_eq {m : Mem UInt8} {off : Int} {fuel : Nat} (h : m.read off (t.length + 1) = t ++ [0])
    (ht : ∀ c ∈ t, c ≠ 0) (hfuel : t.length < fuel) : strlen m off fuel = some t.length := by
  induction t generalizing off fuel with
  | nil =>
    obtain ⟨fuel, rfl⟩ := Nat.exists_eq_add_of_lt hfuel
    have hzero : m off = 0 := (List.cons.inj h).1
    simp [strlen, hzero]
  | cons c t ih =>
    obtain ⟨fuel, rfl⟩ := Nat.exists_eq_succ_of_ne_zero (Nat.ne_of_gt (Nat.zero_lt_of_lt hfuel))
    obtain ⟨hc, hrest⟩ := List.cons.inj h
    obtain ⟨hne, ht⟩ := List.forall_mem_cons.mp ht
    rw [strlen, hc, if_neg hne, ih hrest ht (Nat.lt_of_succ_lt_succ hfuel)]
    rfl

theorem Holds.tail (h : Holds p d w t k) : p.mem.read w.length t.length = t := by
  have htext := h.text
  rw [read_add, Int.zero_add] at htext
  exact (List.append_inj' htext (by simp)).2

theorem Holds.advance (h : Holds p d w (t ++ u) k) (hmore : 0 < u.length + k) :
    Holds { p with offset := p.offset + t.length } d (w ++ t) u k := by
  have hroom := h.room
  have htext := h.text
  rw [List.length_append] at hroom htext
  refine ⟨h.buffer, h.depth, ?_, ?_, ?_, ?_⟩
  · simp only [List.length_append, h.offset]
  · simp only [List.length_append]
    omega
  · simp only [List.length_append]
    omega
  · rw [List.length_append, Nat.add_assoc, List.append_assoc]
    exact htext

theorem advance_ends {m : Nat} (h : Holds p d w (t ++ u) k) (hm : t.length = m)
    (hmore : 0 < u.length + k) :
    Ends granted n (fun _ p' => Holds p' d (w ++ t) u k) p (advance m p) := by
  subst hm
  exact .ok (.refl _ _) (h.advance hmore)

theorem advance_all {m : Nat} (h : Holds p d w t k) (hm : t.length = m) (hk : 0 < k) :
    Ends granted n (fun _ p' => Holds p' d (w ++ t) [] k) p (advance m p) := by
  refine advance_ends ?_ hm (by simpa using hk)
  rwa [List.append_nil]

theorem updateOffset_ends (h : Holds p d w (t ++ [0]) k) (ht : ∀ c ∈ t, c ≠ 0) :
    Ends granted n (fun _ p' => Holds p' d (w ++ t) [0] k) p (updateOffset p) := by
  have hread := h.tail
  have hroom := h.room
  rw [List.length_append] at hread hroom
  have hlen : strlen p.mem p.offset (p.length - p.offset) = some t.length := by
    rw [h.offset]
    refine strlen_eq hread ht ?_
    simp only [List.length_singleton] at hroom
    omega
  unfold updateOffset
  split
  · rename_i hnone
    have hbuffer := h.buffer
    rw [hnone] at hbuffer
    cases hbuffer
  · rw [hlen]
    exact .ok (.refl _ _) (h.advance (Nat.add_pos_left Nat.one_pos k))

theorem deepen_ends (h : Holds p d w t k) :
    Ends granted n (fun _ p' => Holds p' (d + 1) w t k) p (deepen p) :=
  .ok (.refl _ _) ⟨h.buffer, congrArg (· + 1) h.depth, h.offset, h.inside, h.room, h.text⟩

theorem leave_ends (h : Holds p (d + 1) w t k) :
    Ends granted n (fun _ p' => Holds p' d w t k) p (leave p) :=
  .ok (.refl _ _) ⟨h.buffer, congrArg (· - 1) h.depth, h.offset, h.inside, h.room, h.text⟩

-- ---------------------------------------------------------------------------
-- Strings
-- ---------------------------------------------------------------------------

theorem length_escaped : ∀ b, (escaped b).length =
    1 + (if shortEscape b then 1 else if b < 32 then 5 else 0) :=
  forall_byte (by decide +kernel)

theorem escaped_self : ∀ b, (if shortEscape b then 1 else if b < 32 then 5 else 0) = 0 →
    escaped b = [b] :=
  forall_byte (by decide +kernel)

theorem escaped_short : ∀ b, shortEscape b = true → ∃ c, escaped b = [ascii '\\', c] :=
  fun b h => by
    have hlen := length_escaped b
    rw [if_pos h] at hlen
    have hhead : ∀ b, shortEscape b = true → (escaped b).head? = some (ascii '\\') :=
      forall_byte (by decide +kernel)
    obtain ⟨s, hs⟩ := List.head?_eq_some_iff.mp (hhead b h)
    rw [hs] at hlen
    obtain ⟨c, hc⟩ := List.length_eq_one_iff.mp (Nat.succ.inj hlen)
    exact ⟨c, by rw [hs, hc]⟩

theorem escaped_code : ∀ b, ¬ (31 < b ∧ b ≠ ascii '"' ∧ b ≠ ascii '\\') → shortEscape b = false →
    escaped b = ascii '\\' :: ascii 'u' :: hexDigits b :=
  forall_byte (by decide +kernel)

theorem length_flatMap_escaped (s : List UInt8) :
    (s.flatMap escaped).length = s.length + escapeCharacters s := by
  induction s with
  | nil => rfl
  | cons b s ih =>
    rw [List.flatMap_cons, List.length_append, ih, length_escaped, escapeCharacters,
      List.length_cons]
    omega

theorem flatMap_escaped_self (h : escapeCharacters s = 0) : s.flatMap escaped = s := by
  induction s with
  | nil => rfl
  | cons b s ih =>
    rw [escapeCharacters, Nat.add_eq_zero_iff] at h
    rw [List.flatMap_cons, escaped_self b h.1, ih h.2, List.singleton_append]

theorem copyEscaped_ends (h : Holds p d w t ((s.flatMap escaped).length + j)) (hj : 0 < j)
    (hout : output = w.length + t.length) :
    Ends granted n (fun _ p' => Holds p' d w (t ++ s.flatMap escaped) j) p
      (copyEscaped output s p) := by
  induction s generalizing p t output with
  | nil =>
    rw [List.flatMap_nil, List.append_nil]
    exact .ok (.refl _ _) (h.less (Nat.le_add_left _ _))
  | cons b s ih =>
    subst hout
    rw [List.flatMap_cons, List.length_append] at h
    rw [List.flatMap_cons, ← List.append_assoc, copyEscaped]
    split
    · rename_i hplain
      have hself : escaped b = [b] := if_pos hplain
      rw [hself, List.length_singleton] at h
      rw [hself]
      refine Ends.bind (put_ends h rfl (Nat.le_of_eq (Nat.add_assoc _ _ _).symm)) ?_
      intro _ p' h'
      exact ih h' (by simp [Nat.add_assoc])
    · rename_i hplain
      split
      · rename_i hshort
        obtain ⟨c, hc⟩ := escaped_short b hshort
        simp only [hc, List.length_cons, List.length_nil, List.drop_succ_cons, List.drop_zero] at h ⊢
        refine Ends.bind (put_ends h rfl (j := 1 + (s.flatMap escaped).length + j) ?_) ?_
        · simp only [List.length_singleton]
          omega
        intro _ p₁ h₁
        refine Ends.bind (put_ends h₁ (by simp [Nat.add_assoc]) (j := (s.flatMap escaped).length + j) ?_) ?_
        · simp only [List.length_singleton]
          omega
        intro _ p₂ h₂
        rw [List.append_assoc] at h₂
        exact ih h₂ (by simp [Nat.add_assoc])
      · rename_i hshort
        rw [escaped_code b hplain (Bool.eq_false_iff.mpr hshort)] at h ⊢
        have hlen : (ascii 'u' :: hexDigits b).length = 5 := rfl
        rw [List.length_cons, hlen] at h
        refine Ends.bind (put_ends h rfl (j := 5 + (s.flatMap escaped).length + j) ?_) ?_
        · simp only [List.length_singleton]
          omega
        intro _ p₁ h₁
        -- the NUL lies where the next character comes
        refine Ends.bind (put_ends h₁ (by simp [Nat.add_assoc])
          (j := (s.flatMap escaped).length + j - 1) ?_) ?_
        · rw [List.length_append, hlen, List.length_singleton]
          omega
        intro _ p₂ h₂
        rw [← List.append_assoc] at h₂
        refine ih (t := t ++ ascii '\\' :: ascii 'u' :: hexDigits b) ?_ ?_
        · have h₃ := h₂.drop
          rw [List.append_assoc, List.length_singleton] at h₃
          exact h₃.less (by omega)
        · rw [List.length_append, List.length_cons, hlen]
          omega

theorem length_printString (text : List UInt8) :
    (printString text).length = (cstr text).length + escapeCharacters (cstr text) + 2 := by
  simp only [printString, List.length_append, List.length_cons, List.length_nil,
    length_flatMap_escaped]

theorem close_ends {m : Nat} (hm : ((cstr text).flatMap escaped).length = m)
    (h : Holds p d w (ascii '"' :: (cstr text).flatMap escaped) 3) :
    Ends granted n (fun _ p' => Holds p' d w (printString text ++ [0]) 0) p
      ((do put (w.length + m + 1) [ascii '"']; put (w.length + m + 2) [0] : Printing Unit) p) := by
  refine Ends.bind (put_ends h ?_ (j := 2) (by decide)) ?_
  · rw [List.length_cons, hm, Nat.add_assoc]
  intro _ p₁ h₁
  refine Ends.imp (put_ends h₁ ?_ (j := 1) (by decide)) fun _ _ h₂ => h₂.less (Nat.zero_le _)
  rw [List.length_append, List.length_cons, hm, List.length_singleton, Nat.add_assoc]

theorem printStringPtr_ends (h : Holds p d w [] k) (hn : w.length + (printString text).length ≤ n) :
    Ends granted n (fun _ p' => Holds p' d w (printString text ++ [0]) 0) p
      (printStringPtr granted junk text p) := by
  rw [length_printString] at hn
  have hlen := length_flatMap_escaped (cstr text)
  unfold printStringPtr
  refine Ends.bind (ensure_ends h (by omega)) ?_
  rintro _ p₁ ⟨rfl, h₁⟩
  split
  · rename_i hnone
    have hself := flatMap_escaped_self hnone
    refine Ends.bind (put_ends h₁ rfl (j := (cstr text).length + 3) ?_) ?_
    · simp only [List.length_singleton]
      omega
    intro _ p₂ h₂
    refine Ends.bind (put_ends h₂ rfl (j := 3) (Nat.le_refl _)) ?_
    intro _ p₃ h₃
    refine close_ends hlen ?_
    rwa [hself]
  · refine Ends.bind (put_ends h₁ rfl (j := ((cstr text).flatMap escaped).length + 3) ?_) ?_
    · simp only [List.length_singleton]
      omega
    intro _ p₂ h₂
    refine Ends.bind (copyEscaped_ends h₂ (by decide) rfl) ?_
    intro _ p₃ h₃
    exact close_ends hlen h₃

-- ---------------------------------------------------------------------------
-- Values
-- ---------------------------------------------------------------------------

/-- What `sprintf` makes of a number is a C string that fits `number_buffer`. -/
structure Fits (printNumber : List UInt8 → List UInt8) (text : List UInt8) : Prop where
  nonzero : ∀ c ∈ printNumber text, c ≠ 0
  length : (printNumber text).length ≤ 25

/-- The text lies at the end, with its NUL, and the offset somewhere in it. -/
def Pending (p : PrintBuffer) (d : Nat) (w text : List UInt8) : Prop :=
  ∃ a b, a ++ b = text ∧ Holds p d (w ++ a) (b ++ [0]) 0

theorem Holds.pending (h : Holds p d w (t ++ [0]) k) : Pending p d w t :=
  ⟨[], t, rfl, by rw [List.append_nil]; exact h.less (Nat.zero_le _)⟩

theorem Pending.updateOffset (h : Pending p d w t) (ht : ∀ c ∈ t, c ≠ 0) :
    Ends granted n (fun _ p' => Holds p' d (w ++ t) [0] 0) p (updateOffset p) := by
  obtain ⟨a, b, rfl, h⟩ := h
  rw [← List.append_assoc]
  exact updateOffset_ends h fun c hc => ht c (List.mem_append_right _ hc)

theorem get_ends (h : Holds p d w t k) :
    Ends granted n (fun v p' => v.depth = d ∧ Holds p' d w t k) p ((get : Printing PrintBuffer) p) :=
  .ok (.refl _ _) ⟨h.depth, h⟩

theorem word_ends {needed : Nat} (h : Holds p d w [] k) (hneeded : t.length + 1 = needed)
    (hn : w.length + t.length ≤ n) :
    Ends granted n (fun _ p' => Pending p' d w t) p
      ((do let output ← ensure granted junk needed; put output (t ++ [0]) : Printing Unit) p) := by
  refine Ends.bind (ensure_ends h (by omega)) ?_
  rintro _ p₁ ⟨rfl, h₁⟩
  refine Ends.imp (put_ends h₁ rfl (j := 1) ?_) fun _ _ h₂ => h₂.pending
  rw [List.length_append, List.length_singleton]
  omega

theorem printNumberText_ends (h : Holds p d w [] k) (hfits : Fits printNumber text)
    (hn : w.length + (printNumber text).length ≤ n) :
    Ends granted n (fun _ p' => Pending p' d w (printNumber text)) p
      (printNumberText granted junk printNumber text p) := by
  unfold printNumberText
  rw [if_neg (Nat.not_lt.mpr hfits.length)]
  refine Ends.bind (ensure_ends h (by omega)) ?_
  rintro _ p₁ ⟨rfl, h₁⟩
  refine Ends.bind (put_ends h₁ rfl (j := 2) (Nat.le_refl _)) ?_
  intro _ p₂ h₂
  refine Ends.bind (put_ends h₂ rfl (j := 1) (by decide)) ?_
  intro _ p₃ h₃
  refine Ends.imp (advance_ends h₃ rfl (by decide)) fun _ p₄ h₄ => ?_
  exact ⟨printNumber text, [], List.append_nil _, h₄.less (Nat.zero_le _)⟩

theorem open_text : bytes "\x7b\n" = [ascii '\x7b', ascii '\n'] := rfl

theorem close_text : bytes "\x7d" = [ascii '\x7d'] := rfl

theorem comma_text : bytes ", " = [ascii ',', ascii ' '] := rfl

theorem colon_text : bytes ":\t" = [ascii ':', ascii '\t'] := rfl

theorem line_text : bytes "\n" = [ascii '\n'] := rfl

theorem length_tabs (depth : Nat) : (tabs depth).length = depth := List.length_replicate

mutual

theorem printValue_ends : ∀ (item : CJson) {p : PrintBuffer} {d k : Nat} {w : List UInt8},
    Holds p d w [] k → (∀ text ∈ numbers item, Fits printNumber text) →
    w.length + (CJson.printValue printNumber d item).length ≤ n →
    Ends granted n (fun _ p' => Pending p' d w (CJson.printValue printNumber d item)) p
      (printValue granted junk printNumber item p)
  | .null, _, _, _, _, h, _, hn => word_ends h rfl hn
  | .bool false, _, _, _, _, h, _, hn => word_ends h rfl hn
  | .bool true, _, _, _, _, h, _, hn => word_ends h rfl hn
  | .number text, _, _, _, _, h, hnum, hn =>
    printNumberText_ends h (hnum text (List.mem_singleton_self text)) hn
  | .string text, _, _, _, _, h, _, hn =>
    Ends.imp (printStringPtr_ends h hn) fun _ _ h' => h'.pending
  | .array child, p, d, k, w, h, hnum, hn => by
    simp only [CJson.printValue, List.length_append, List.length_cons, List.length_nil] at hn
    simp only [printValue]
    refine Ends.bind (ensure_ends h (by omega)) ?_
    rintro _ p₁ ⟨rfl, h₁⟩
    refine Ends.bind (put_ends h₁ rfl (j := 1) (by decide)) ?_
    intro _ p₂ h₂
    refine Ends.bind (advance_all h₂ rfl (by decide)) ?_
    intro _ p₃ h₃
    refine Ends.bind (deepen_ends h₃) ?_
    intro _ p₄ h₄
    refine Ends.bind (printElements_ends child h₄ hnum ?_) ?_
    · simp only [List.length_append, List.length_singleton, List.length_nil]
      omega
    intro _ p₅ h₅
    refine Ends.bind (ensure_ends h₅ ?_) ?_
    · simp only [List.length_append, List.length_singleton, List.length_nil]
      omega
    rintro _ p₆ ⟨rfl, h₆⟩
    refine Ends.bind (put_ends h₆ rfl (j := 2) (by decide)) ?_
    intro _ p₇ h₇
    refine Ends.bind (put_ends h₇ rfl (j := 1) (by decide)) ?_
    intro _ p₈ h₈
    refine Ends.imp (leave_ends h₈) fun _ p₉ h₉ => ?_
    refine ⟨ascii '[' :: CJson.printElements printNumber (d + 1) child, [ascii ']'], rfl, ?_⟩
    simpa using h₉.less (Nat.zero_le _)
  | .object child, p, d, k, w, h, hnum, hn => by
    simp only [CJson.printValue, open_text, close_text, List.length_append, List.length_cons,
      List.length_nil, length_tabs] at hn
    simp only [printValue]
    refine Ends.bind (ensure_ends h (by omega)) ?_
    rintro _ p₁ ⟨rfl, h₁⟩
    refine Ends.bind (put_ends h₁ rfl (j := 3) (by decide)) ?_
    intro _ p₂ h₂
    refine Ends.bind (deepen_ends h₂) ?_
    intro _ p₃ h₃
    refine Ends.bind (put_ends h₃ rfl (j := 2) (by decide)) ?_
    intro _ p₄ h₄
    refine Ends.bind (advance_all h₄ rfl (by decide)) ?_
    intro _ p₅ h₅
    refine Ends.bind (printMembers_ends child h₅ hnum ?_) ?_
    · simp only [List.length_append, List.length_singleton, List.length_nil]
      omega
    intro _ p₆ h₆
    refine Ends.bind (get_ends h₆) ?_
    rintro v p₇ ⟨hdepth, h₇⟩
    rw [hdepth]
    refine Ends.bind (ensure_ends h₇ ?_) ?_
    · simp only [List.length_append, List.length_singleton, List.length_nil]
      omega
    rintro _ p₈ ⟨rfl, h₈⟩
    refine Ends.bind (put_ends h₈ rfl (j := 3) ?_) ?_
    · rw [length_tabs]
      omega
    intro _ p₉ h₉
    refine Ends.bind (put_ends h₉ ?_ (j := 2) (by decide)) ?_
    · simp [length_tabs]
    intro _ p₁₀ h₁₀
    refine Ends.bind (put_ends h₁₀ ?_ (j := 1) (by decide)) ?_
    · simp [length_tabs, Nat.add_assoc]
    intro _ p₁₁ h₁₁
    refine Ends.imp (leave_ends h₁₁) fun _ p₁₂ h₁₂ => ?_
    refine ⟨bytes "\x7b\n" ++ CJson.printMembers printNumber (d + 1) child,
      tabs d ++ bytes "\x7d", ?_, ?_⟩
    · simp only [CJson.printValue, List.append_assoc]
    · simpa [open_text, close_text] using h₁₂.less (Nat.zero_le _)

theorem printElements_ends : ∀ (child : List CJson) {p : PrintBuffer} {d k : Nat} {w : List UInt8},
    Holds p d w [] k → (∀ text ∈ elementNumbers child, Fits printNumber text) →
    w.length + (CJson.printElements printNumber d child).length ≤ n →
    Ends granted n (fun _ p' => Holds p' d (w ++ CJson.printElements printNumber d child) [] 0) p
      (printElements granted junk printNumber child p)
  | [], _, _, _, _, h, _, _ => by
    simp only [CJson.printElements, List.append_nil]
    exact .ok (.refl _ _) (h.less (Nat.zero_le _))
  | item :: next, p, d, k, w, h, hnum, hn => by
    obtain ⟨hitem, hnext⟩ := List.forall_mem_append.mp hnum
    simp only [CJson.printElements, List.length_append] at hn
    simp only [printElements]
    refine Ends.bind (printValue_ends item h hitem (by omega)) ?_
    intro _ p₁ h₁
    refine Ends.bind (h₁.updateOffset (printValue_nonzero item d fun text h => (hitem text h).nonzero)) ?_
    intro _ p₂ h₂
    cases next with
    | nil =>
      simp only [CJson.printElements, List.isEmpty_nil, if_true, List.append_nil]
      exact .ok (.refl _ _) (h₂.start.less (Nat.zero_le _))
    | cons item' next =>
      simp only [List.isEmpty_cons, Bool.false_eq_true, if_false, comma_text, List.length_cons,
        List.length_nil] at hn ⊢
      refine Ends.bind (ensure_ends h₂.start ?_) ?_
      · rw [List.length_append]
        omega
      rintro _ p₃ ⟨rfl, h₃⟩
      refine Ends.bind (put_ends h₃ rfl (j := 3) (by decide)) ?_
      intro _ p₄ h₄
      refine Ends.bind (put_ends h₄ rfl (j := 2) (by decide)) ?_
      intro _ p₅ h₅
      refine Ends.bind (put_ends h₅ rfl (j := 1) (by decide)) ?_
      intro _ p₆ h₆
      refine Ends.bind (advance_ends h₆ rfl (by decide)) ?_
      intro _ p₇ h₇
      refine Ends.imp (printElements_ends (item' :: next) h₇.start hnext ?_) fun _ p₈ h₈ => ?_
      · simp only [List.length_append, List.length_cons, List.length_nil]
        omega
      · rw [CJson.printElements]
        simpa [comma_text] using h₈

theorem printMembers_ends : ∀ (child : List (List UInt8 × CJson)) {p : PrintBuffer} {d k : Nat}
    {w : List UInt8}, Holds p d w [] k → (∀ text ∈ memberNumbers child, Fits printNumber text) →
    w.length + (CJson.printMembers printNumber d child).length ≤ n →
    Ends granted n (fun _ p' => Holds p' d (w ++ CJson.printMembers printNumber d child) [] 0) p
      (printMembers granted junk printNumber child p)
  | [], _, _, _, _, h, _, _ => by
    simp only [CJson.printMembers, List.append_nil]
    exact .ok (.refl _ _) (h.less (Nat.zero_le _))
  | (name, item) :: next, p, d, k, w, h, hnum, hn => by
    obtain ⟨hitem, hnext⟩ := List.forall_mem_append.mp hnum
    simp only [CJson.printMembers, colon_text, line_text, List.length_append, List.length_cons,
      List.length_nil, length_tabs] at hn
    simp only [printMembers]
    refine Ends.bind (get_ends h) ?_
    rintro v p₁ ⟨hdepth, h₁⟩
    rw [hdepth]
    refine Ends.bind (ensure_ends h₁ (by omega)) ?_
    rintro _ p₂ ⟨rfl, h₂⟩
    refine Ends.bind (put_ends h₂ rfl (j := 1) ?_) ?_
    · rw [length_tabs]
    intro _ p₃ h₃
    refine Ends.bind (advance_all h₃ (length_tabs d) (by decide)) ?_
    intro _ p₄ h₄
    refine Ends.bind (printStringPtr_ends h₄ ?_) ?_
    · simp only [List.nil_append, List.length_append, length_tabs]
      omega
    intro _ p₅ h₅
    refine Ends.bind (updateOffset_ends h₅ (printString_nonzero name)) ?_
    intro _ p₆ h₆
    refine Ends.bind (ensure_ends h₆.start ?_) ?_
    · simp only [List.nil_append, List.length_append, length_tabs]
      omega
    rintro _ p₇ ⟨rfl, h₇⟩
    refine Ends.bind (put_ends h₇ rfl (j := 2) (by decide)) ?_
    intro _ p₈ h₈
    refine Ends.bind (put_ends h₈ rfl (j := 1) (by decide)) ?_
    intro _ p₉ h₉
    refine Ends.bind (advance_all h₉ rfl (by decide)) ?_
    intro _ p₁₀ h₁₀
    refine Ends.bind (printValue_ends item h₁₀ hitem ?_) ?_
    · simp only [List.nil_append, List.length_append, length_tabs, List.length_singleton]
      omega
    intro _ p₁₁ h₁₁
    refine Ends.bind (h₁₁.updateOffset (printValue_nonzero item d fun text h => (hitem text h).nonzero)) ?_
    intro _ p₁₂ h₁₂
    have hcomma : (if next.isEmpty then [] else bytes ",") =
        if next.isEmpty then [] else [ascii ','] := rfl
    simp only [CJson.printMembers, hcomma] at hn ⊢
    generalize (if next.isEmpty then [] else [ascii ',']) = comma at hn ⊢
    refine Ends.bind (ensure_ends h₁₂.start ?_) ?_
    · simp only [List.nil_append, List.length_append, length_tabs, List.length_singleton]
      omega
    rintro _ p₁₃ ⟨rfl, h₁₃⟩
    refine Ends.bind (put_ends h₁₃ rfl (j := 3) (by omega)) ?_
    intro _ p₁₄ h₁₄
    refine Ends.bind (put_ends h₁₄ rfl (j := 2) (by decide)) ?_
    intro _ p₁₅ h₁₅
    refine Ends.bind (put_ends h₁₅ ?_ (j := 1) (by decide)) ?_
    · simp [Nat.add_assoc]
    intro _ p₁₆ h₁₆
    refine Ends.bind (advance_ends h₁₆ ?_ (by decide)) ?_
    · simp [Nat.add_comm]
    intro _ p₁₇ h₁₇
    refine Ends.imp (printMembers_ends next h₁₇.start hnext ?_) fun _ p₁₈ h₁₈ => ?_
    · simp only [List.nil_append, List.length_append, length_tabs, List.length_singleton]
      omega
    · simpa [colon_text, line_text] using h₁₈

end

-- ---------------------------------------------------------------------------
-- The whole text
-- ---------------------------------------------------------------------------

end DevAdapter.CJson.Buffer

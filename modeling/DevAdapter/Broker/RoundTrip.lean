import DevAdapter.Broker.Registry
import DevAdapter.Lib.CString

/-!
# The way of a topic there and back

A program takes its name from its path. The topic of its request matches what
`dst` subscribed to, and `dev_send_respond` of `dst` cuts the topic up in place
and puts it together as the topic of the response, which matches what the
program subscribed to.
-/

namespace DevAdapter.Broker

open Function (update)
open CString OffsetMemory

/-- The loop of `get_prog_name` with `i + 1` turns left. -/
def progNameLoop (tmp : List Char) : Nat → Nat
  | 0 => 0
  | i + 1 => if tmp[i]? = some '/' then i + 1 else progNameLoop tmp i

/-- `argv` without its NUL; the loop begins at the NUL. -/
def getProgName (argv : List Char) : List Char :=
  argv.drop (progNameLoop argv (argv.length + 1))

def brokerSrc (src : List Char) : List Char := snprintf256 src

-- ---------------------------------------------------------------------------
-- `dev_send_respond`
-- ---------------------------------------------------------------------------

/-- The memory and the pointers after the loop of `dev_send_respond`. -/
structure Segments where
  m : Mem Char
  dst : Option Int
  seq : Option Int

/-- The loop of `dev_send_respond`, `none` where its fuel runs out. -/
def splitLoop : Nat → Mem Char → Int → Nat → Option Int → Option Int → Option Segments
  | 0, _, _, _, _, _ => none
  | fuel + 1, m, p, split, dst, seq =>
    if m p = '\x00' then some ⟨m, dst, seq⟩
    else
      let m' := if m p = '/' then update m p '\x00' else m
      let split' := if m p = '/' then split + 1 else split
      if dst = none ∧ split' = 1 then splitLoop fuel m' (p + 1) split' (some (p + 1)) seq
      else if seq = none ∧ split' = 4 then some ⟨m', dst, some (p + 1)⟩
      else splitLoop fuel m' (p + 1) split' dst seq

/-- `%s` of a pointer. -/
def printed (fuel : Nat) (m : Mem Char) : Option Int → Option (List Char)
  | some p => cstring fuel m p
  | none => some ['(', 'n', 'u', 'l', 'l', ')']

/-- The topic that `dev_send_respond` hands to `__dev_send`. -/
def devSendRespond (fuel : Nat) (m : Mem Char) (from_ : Int) : Option (List Char) :=
  (splitLoop fuel m from_ 0 none none).bind fun s =>
    (printed fuel s.m s.dst).bind fun dst =>
      (cstring fuel s.m from_).bind fun src =>
        (printed fuel s.m s.seq).map fun seq => respondTopicAck dst src seq

-- ---------------------------------------------------------------------------
-- The name of the program
-- ---------------------------------------------------------------------------

theorem no_slash_above {tmp : List Char} {n i : Nat} (hi : progNameLoop tmp n ≤ i) (hn : i < n) :
    tmp[i]? ≠ some '/' := by
  induction n with
  | zero => omega
  | succ k ih =>
    rw [progNameLoop] at hi
    split at hi
    · omega
    · rename_i hk
      rcases Nat.lt_succ_iff_lt_or_eq.mp hn with hlt | rfl
      · exact ih hi hlt
      · exact hk

theorem getProgName_slash (argv : List Char) : '/' ∉ getProgName argv := by
  intro hmem
  obtain ⟨i, hi⟩ := List.getElem?_of_mem hmem
  rw [getProgName, List.getElem?_drop] at hi
  have hlt := (List.getElem?_eq_some_iff.mp hi).1
  exact no_slash_above (Nat.le_add_right _ i) (by omega) hi

-- ---------------------------------------------------------------------------
-- The loop over a topic
-- ---------------------------------------------------------------------------

section

variable {m : Mem Char} {p : Int} {name rest : List Char} {split : Nat} {dst seq : Option Int}

theorem splitLoop_skip (hm : Holds m p (name ++ rest)) (hslash : '/' ∉ name)
    (hdst : ¬(dst = none ∧ split = 1)) (hseq : ¬(seq = none ∧ split = 4)) :
    splitLoop (fuel + name.length) m p split dst seq =
      splitLoop fuel m (p + name.length) split dst seq := by
  induction name generalizing p with
  | nil => simp
  | cons c name ih =>
    obtain ⟨hc, hnul, hrest⟩ := hm
    obtain ⟨hne, hslash⟩ := not_or.mp (mt List.mem_cons.mpr hslash)
    rw [List.length_cons, ← Nat.add_assoc, splitLoop, hc, if_neg hnul]
    simp only [if_neg (Ne.symm hne), if_neg hdst, if_neg hseq]
    rw [ih hrest hslash, succ_add_length p c, List.length_cons]

theorem splitLoop_segment (hm : Holds m p (name ++ '/' :: rest)) (hslash : '/' ∉ name)
    (hdst : ¬(dst = none ∧ split = 1)) (hseq : ¬(seq = none ∧ split = 4)) :
    splitLoop (fuel + 1 + name.length) m p split dst seq =
      let m' := update m (p + name.length) '\x00'
      let p' := p + name.length + 1
      if dst = none ∧ split + 1 = 1 then splitLoop fuel m' p' (split + 1) (some p') seq
      else if seq = none ∧ split + 1 = 4 then some ⟨m', dst, some p'⟩
      else splitLoop fuel m' p' (split + 1) dst seq := by
  have hchar : m (p + name.length) = '/' := hm.drop.1
  rw [splitLoop_skip hm hslash hdst hseq, splitLoop, hchar]
  rfl

theorem holds_segment (hm : Holds m p (name ++ '/' :: rest)) :
    Holds (update m (p + name.length) '\x00') p name ∧
    Holds (update m (p + name.length) '\x00') (p + name.length + 1) rest :=
  ⟨hm.cut, hm.drop.2.2.update_below (Int.lt_succ _) _⟩

theorem splitLoop_first (hm : Holds m p (name ++ '/' :: rest)) (hslash : '/' ∉ name) :
    splitLoop (fuel + 1 + name.length) m p 0 none none =
      splitLoop fuel (update m (p + name.length) '\x00') (p + name.length + 1) 1
        (some (p + name.length + 1)) none := by
  rw [splitLoop_segment hm hslash (by simp) (by simp)]
  rfl

theorem splitLoop_middle {q : Int} (hm : Holds m p (name ++ '/' :: rest)) (hslash : '/' ∉ name)
    (hsplit : split < 3) :
    splitLoop (fuel + 1 + name.length) m p split (some q) none =
      splitLoop fuel (update m (p + name.length) '\x00') (p + name.length + 1) (split + 1)
        (some q) none := by
  have hfourth : ¬((none : Option Int) = none ∧ split + 1 = 4) := by omega
  rw [splitLoop_segment hm hslash (by simp) (by omega)]
  exact if_neg hfourth

theorem splitLoop_fourth {q : Int} (hm : Holds m p (name ++ '/' :: rest)) (hslash : '/' ∉ name) :
    splitLoop (fuel + 1 + name.length) m p 3 (some q) none =
      some ⟨update m (p + name.length) '\x00', some q, some (p + name.length + 1)⟩ := by
  rw [splitLoop_segment hm hslash (by simp) (by simp)]
  rfl

theorem splitLoop_five {a b c d e : List Char}
    (hm : Holds m p (a ++ '/' :: (b ++ '/' :: (c ++ '/' :: (d ++ '/' :: e)))))
    (ha : '/' ∉ a) (hb : '/' ∉ b) (hc : '/' ∉ c) (hd : '/' ∉ d) (fuel : Nat) :
    ∃ m' p₁ p₄,
      splitLoop (fuel + 1 + d.length + 1 + c.length + 1 + b.length + 1 + a.length) m p 0 none none =
        some ⟨m', some p₁, some p₄⟩ ∧
      Holds m' p a ∧ Holds m' p₁ b ∧ Holds m' p₄ e := by
  obtain ⟨ha₁, hm₁⟩ := holds_segment hm
  obtain ⟨hb₂, hm₂⟩ := holds_segment hm₁
  obtain ⟨-, hm₃⟩ := holds_segment hm₂
  obtain ⟨-, hm₄⟩ := holds_segment hm₃
  refine ⟨_, p + a.length + 1, _, ?_, ?_, ?_, hm₄⟩
  · rw [splitLoop_first hm ha, splitLoop_middle hm₁ hb (by decide),
      splitLoop_middle hm₂ hc (by decide), splitLoop_fourth hm₃ hd]
  · exact ((ha₁.update_nul (by omega)).update_nul (by omega)).update_nul (by omega)
  · exact (hb₂.update_nul (by omega)).update_nul (by omega)

end

-- ---------------------------------------------------------------------------
-- The topics and the filters
-- ---------------------------------------------------------------------------

/-- A name without MQTT wildcards that does not begin with `$`. -/
structure Plain (name : List Char) : Prop where
  plus : '+' ∉ name
  hash : '#' ∉ name
  dollar : name.head? ≠ some '$'

/-- The text of `RESPOND_TOPIC_ACK`. -/
def responseText (src dst : List Char) (seq : UInt8) : List Char :=
  dst ++ '/' :: src ++ ackRespond ++ decimal seq

/-- The texts of the topics fit into their arrays. -/
structure Short (src dst : List Char) (seq : UInt8) : Prop where
  request : (src ++ '/' :: dst ++ ackRequest ++ decimal seq).length < 256
  response : (responseText src dst seq).length < 256
  respondTopic : ('+' :: '/' :: src ++ ackRespond ++ ['+']).length < 256
  topicAck : ('+' :: '/' :: dst ++ ['/', 'a', 'c', 'k', '/', '#']).length < 256

theorem snprintf256_short {text : List Char} (h : text.length < 256) : snprintf256 text = text :=
  List.take_of_length_le (Nat.le_of_lt_succ h)

theorem decimal_slash (seq : UInt8) : '/' ∉ decimal seq := by
  intro h
  have hdigit := Nat.isDigit_of_mem_toDigits (by decide) (by decide) h
  exact absurd hdigit (by decide)

theorem levels_ack {name kind : List Char} (hname : '/' ∉ name) (hkind : '/' ∉ kind)
    (seq : UInt8) :
    Mqtt.levels (name ++ '/' :: (['a', 'c', 'k'] ++ '/' :: (kind ++ '/' :: decimal seq))) =
      [name, ['a', 'c', 'k'], kind, decimal seq] := by
  rw [Mqtt.levels_slash hname, Mqtt.levels_slash (by decide), Mqtt.levels_slash hkind,
    Mqtt.levels_name (decimal_slash seq)]

section

variable {src dst : List Char} {seq : UInt8}

theorem request_eq (h : Short src dst seq) : requestTopic (brokerSrc src) dst seq =
    src ++ '/' :: (dst ++ '/' :: (['a', 'c', 'k'] ++ '/' ::
      (['r', 'e', 'q', 'u', 'e', 's', 't'] ++ '/' :: decimal seq))) := by
  have hsrc : src.length < 256 := by
    have hlen := h.request
    simp only [List.length_append] at hlen
    omega
  rw [requestTopic, brokerSrc, snprintf256_short hsrc, snprintf256_short h.request]
  simp [ackRequest]

theorem responseText_eq : responseText src dst seq =
    dst ++ '/' :: (src ++ '/' :: (['a', 'c', 'k'] ++ '/' ::
      (['r', 'e', 's', 'p', 'o', 'n', 'd'] ++ '/' :: decimal seq))) := by
  simp [responseText, ackRespond]

theorem topicAck_matches (hshort : Short src dst seq) (hsrc : '/' ∉ src) (hdst : '/' ∉ dst)
    (hplain : Plain src) :
    Mqtt.topicMatches (callbackTopic dst none) (requestTopic (brokerSrc src) dst seq) = true := by
  have hfilter : callbackTopic dst none = '+' :: '/' :: (dst ++ '/' :: ['a', 'c', 'k', '/', '#']) :=
    snprintf256_short hshort.topicAck
  have hlevels : Mqtt.levels ['a', 'c', 'k', '/', '#'] = [['a', 'c', 'k'], ['#']] := by decide
  rw [hfilter, request_eq hshort, Mqtt.topicMatches_plus hsrc hplain.dollar,
    levels_ack hdst (by decide), Mqtt.levels_slash hdst, hlevels]
  simp [Mqtt.matchLevels]

theorem respondTopic_matches {name : List Char} (seq : UInt8)
    (hshort : ('+' :: '/' :: name ++ ackRespond ++ ['+']).length < 256) (hname : '/' ∉ name)
    (hsrc : '/' ∉ src) (hdst : '/' ∉ dst) (hplain : Plain dst) :
    Mqtt.topicMatches (respondTopic name) (responseText src dst seq) =
      (name = ['+'] || name = src) := by
  have hfilter : respondTopic name = '+' :: '/' ::
      (name ++ '/' :: ['a', 'c', 'k', '/', 'r', 'e', 's', 'p', 'o', 'n', 'd', '/', '+']) := by
    rw [respondTopic, snprintf256_short hshort]
    simp [ackRespond]
  have hlevels : Mqtt.levels
      ['a', 'c', 'k', '/', 'r', 'e', 's', 'p', 'o', 'n', 'd', '/', '+'] =
      [['a', 'c', 'k'], ['r', 'e', 's', 'p', 'o', 'n', 'd'], ['+']] := by decide
  rw [hfilter, responseText_eq, Mqtt.topicMatches_plus hdst hplain.dollar,
    levels_ack hsrc (by decide), Mqtt.levels_slash hname, hlevels]
  simp [Mqtt.matchLevels]

/-- `dev_send_respond` comes to its end on the topic of a request, and the topic
it publishes on is that of the response. -/
theorem devSendRespond_request {m : Mem Char} {p : Int} (hshort : Short src dst seq)
    (hsrc : '/' ∉ src) (hdst : '/' ∉ dst)
    (hm : Holds m p (requestTopic (brokerSrc src) dst seq)) :
    ∃ fuel, ∀ more ≥ fuel, devSendRespond more m p = some (responseText src dst seq) := by
  rw [request_eq hshort] at hm
  refine ⟨src.length + dst.length + (decimal seq).length + 15, fun more hmore => ?_⟩
  obtain ⟨fuel, rfl⟩ : ∃ fuel, more = fuel + 1 + 7 + 1 + 3 + 1 + dst.length + 1 + src.length :=
    ⟨more - (src.length + dst.length + 14), by omega⟩
  obtain ⟨m', p₁, p₄, hloop, hfirst, hsecond, hfifth⟩ :=
    splitLoop_five hm hsrc hdst (by decide) (by decide) fuel
  have hloop' : splitLoop (fuel + 1 + 7 + 1 + 3 + 1 + dst.length + 1 + src.length) m p 0 none none =
      some ⟨m', some p₁, some p₄⟩ := hloop
  rw [devSendRespond, hloop', Option.bind_some]
  simp only [printed]
  rw [cstring_eq hfirst (by omega), cstring_eq hsecond (by omega), cstring_eq hfifth (by omega)]
  exact congrArg some (snprintf256_short hshort.response)

end

/-- The request of the program at `argv0` to `dst` matches the subscription of
`dst`, whose `dev_send_respond` publishes on the topic of the response, and that
matches the subscription of the program and of no other name. -/
theorem topics_round_trip (argv0 dst : List Char) (seq : UInt8) (hdst : '/' ∉ dst)
    (hsrcPlain : Plain (getProgName argv0)) (hdstPlain : Plain dst)
    (hshort : Short (getProgName argv0) dst seq) :
    let src := getProgName argv0
    let request := requestTopic (brokerSrc src) dst seq
    let response := dst ++ '/' :: src ++ ackRespond ++ decimal seq
    Mqtt.topicMatches (callbackTopic dst none) request = true ∧
    (∀ m p, Holds m p request → ∃ fuel, ∀ more ≥ fuel, devSendRespond more m p = some response) ∧
    Mqtt.topicMatches (respondTopic src) response = true ∧
    ∀ other, other ≠ src → '/' ∉ other → Plain other →
      ('+' :: '/' :: other ++ ackRespond ++ ['+']).length < 256 →
      Mqtt.topicMatches (respondTopic other) response = false := by
  have hsrc := getProgName_slash argv0
  refine ⟨topicAck_matches hshort hsrc hdst hsrcPlain,
    fun m p hm => devSendRespond_request hshort hsrc hdst hm, ?_, ?_⟩
  · have hmatches := respondTopic_matches seq hshort.respondTopic hsrc hsrc hdst hdstPlain
    exact hmatches.trans (by simp)
  · intro other hne hslash hplain hlen
    have hplus : other ≠ ['+'] := by
      rintro rfl
      exact hplain.plus (List.mem_singleton_self _)
    have hmatches := respondTopic_matches seq hlen hslash hsrc hdst hdstPlain
    exact hmatches.trans (by simp [hne, hplus])

theorem devToRf_round_trip :
    Mqtt.topicMatches (callbackTopic ['r', 'f'] none)
      (requestTopic (brokerSrc ['d', 'e', 'v']) ['r', 'f'] 7) = true ∧
    Mqtt.topicMatches (respondTopic ['d', 'e', 'v'])
      (['r', 'f', '/', 'd', 'e', 'v'] ++ ackRespond ++ ['7']) = true := by
  have htrip := topics_round_trip ['.', '/', 'd', 'e', 'v'] ['r', 'f'] 7 (by decide)
    ⟨by decide, by decide, by decide⟩ ⟨by decide, by decide, by decide⟩
    ⟨by decide, by decide, by decide, by decide⟩
  exact ⟨htrip.1, htrip.2.2.1⟩

end DevAdapter.Broker

import DevAdapter.CJson.Extend
import DevAdapter.ClientJson.Handlers
import DevAdapter.Server.Receive

/-!
# What a command depends on

The payload of a frame goes through `postMsg`, the kernel queue and
`getMsgQueue` as bytes with a length, and comes out as the beginning of an array
that is read as a C string. Behind its bytes stands whatever the two structs
held before.
-/

namespace DevAdapter.ClientJson

open CJson OffsetMemory Word32

def Command.frameType : Command → Int
  | .inquiry => 1
  | .rssi => 2

def Command.msgType : Command → MsgType
  | .inquiry => .inquiryState
  | .rssi => .rssiStateChange

/-- What `getMsgQueue` may return for a frame with the payload `p`, whatever the
queue holds, is posted and taken later, and whatever the fresh structs hold. -/
def Arrives (cmd : Command) (p : List UInt8) (d : MsgSt) : Prop :=
  ∃ (m : Mem UInt8) (buf : Int) (stack : MsgSt) (q : MsgQueue) (ops : List QueueOp)
    (type : MsgType) (src : Option (Mem UInt8 × Int)) (len : Int),
    myNtohl m (buf + 4) = cmd.frameType ∧ m.read (buf + 8) p.length = p ∧
    processMessage m buf (p.length + 4) = some (type, src, len) ∧
    (returned (postMsg type.code src len stack q) ops)[q.msgs.length]? = some d

/-- What a run asks for and leaves, `behind` lying behind the struct. -/
def Command.outcome (cmd : Command) (e : Surroundings) (d : MsgSt) (behind : List UInt8)
    (rssiState : Int) : List Request × Int :=
  match (cmd.handle e (d.msgJson ++ behind) d.msgLen).run (.start rssiState) with
  | .ok _ run | .error _ run => (run.requests, run.rssiState)

/-- The outcome is the same however the payload arrives. -/
def OwnBytes (cmd : Command) (e : Surroundings) (p behind : List UInt8) (rssiState : Int) : Prop :=
  ∀ d d', Arrives cmd p d → Arrives cmd p d' →
    cmd.outcome e d behind rssiState = cmd.outcome e d' behind rssiState

def names (text : List UInt8) : Bool := (getObjectItem (CJson.parse text) (bytes "dst")).isSome

-- ---------------------------------------------------------------------------
-- What arrives
-- ---------------------------------------------------------------------------

variable {cmd : Command} {p : List UInt8} {d : MsgSt}

theorem processMessage_command {m : Mem UInt8} {buf : Int}
    (htype : myNtohl m (buf + 4) = cmd.frameType) (length : Int) :
    processMessage m buf length = some (cmd.msgType, some (m, buf + 4 + 4), length - 4) := by
  cases cmd with
  | inquiry => simp [processMessage, htype, Command.frameType, Command.msgType]
  | rssi => simp [processMessage, htype, Command.frameType, Command.msgType]

theorem Command.msgType_pos (cmd : Command) : 0 < cmd.msgType.code := by
  cases cmd <;> decide

theorem Arrives.json (h : Arrives cmd p d) (hp : p.length ≤ maxText) :
    d.msgLen = p.length ∧ p.take textSent <+: d.msgJson := by
  obtain ⟨m, buf, stack, q, ops, type, src, len, htype, hread, hmsg, hd⟩ := h
  rw [processMessage_command htype, Option.some.injEq] at hmsg
  cases hmsg
  have hlen : (p.length : Int) + 4 - 4 = p.length := by omega
  have hbuf : buf + 4 + 4 = buf + 8 := by omega
  rw [hlen, hbuf] at hd
  obtain ⟨sent, hmsgs, -, hlength, hjson⟩ := postMsg_appends m (buf + 8) stack q cmd.msgType_pos hp
  have hk : (postMsg cmd.msgType.code (some (m, buf + 8)) p.length stack q).msgs[q.msgs.length]? =
      some ⟨sent.msgType, sent.text.take maxText⟩ := by
    rw [hmsgs, List.getElem?_concat_length]
  obtain ⟨heap, rfl⟩ := returned_eq_overlay hk hd
  obtain ⟨-, hmsgLen, hmsgJson⟩ := overlay_sent sent heap
  rw [take_take_maxText]
  constructor
  · rw [hmsgLen, hlength]
    exact wrap32_eq (by omega) (by unfold maxText at hp; omega)
  · rw [hmsgJson, ← hread, ← hjson, List.take_take, Nat.min_comm, ← List.take_take]
    exact (List.take_prefix _ _).trans (List.prefix_append _ _)

def frameMemory (cmd : Command) (p : List UInt8) : Mem UInt8 :=
  Mem.write (Mem.write (fun _ => 0) 4 (le32 cmd.frameType)) 8 p

theorem frameMemory_type (cmd : Command) (p : List UInt8) :
    myNtohl (frameMemory cmd p) 4 = cmd.frameType := by
  have hword := read_write_self (fun _ => 0) 4 (le32 cmd.frameType)
  rw [length_le32] at hword
  rw [myNtohl, frameMemory, read_write_of_disjoint _ _ _ (.inl (by decide)), hword]
  cases cmd <;> decide

theorem arrives_of_prefix (cmd : Command) (hp : p.length ≤ maxText) {json : List UInt8}
    (hlen : json.length = maxText) (hpre : p.take textSent <+: json) :
    ∃ d, Arrives cmd p d ∧ d.msgJson = json := by
  let fresh : MsgSt := ⟨0, 0, 0, json, hlen⟩
  obtain ⟨sent, hmsgs, -, -, hjson⟩ :=
    postMsg_sends (frameMemory cmd p) 8 fresh ⟨1, []⟩ cmd.msgType_pos hp
  have hread : (frameMemory cmd p).read 8 p.length = p := read_write_self _ _ _
  have hoverlay := overlay_sent sent fresh
  refine ⟨fresh.overlay ⟨sent.msgType, sent.text.take maxText⟩, ?_, ?_⟩
  · have htype : myNtohl (frameMemory cmd p) (0 + 4) = cmd.frameType := frameMemory_type cmd p
    have hmsg : processMessage (frameMemory cmd p) 0 (p.length + 4) =
        some (cmd.msgType, some (frameMemory cmd p, (8 : Int)), (p.length : Int)) := by
      rw [processMessage_command htype, Int.add_sub_cancel]
      rfl
    refine ⟨frameMemory cmd p, 0, fresh, ⟨1, []⟩, [.get fresh], _, _, _, htype, hread, hmsg, ?_⟩
    simp [returned, getMsgQueue, msgrcv, hmsgs, take_take_maxText]
  · have hroom : textSent ≤ json.length := by rw [hlen]; decide
    rw [hoverlay.2.2, hjson, hread, take_copyJson hpre hroom, List.take_append_drop]

-- ---------------------------------------------------------------------------
-- Outcomes
-- ---------------------------------------------------------------------------

variable {e : Surroundings} {behind : List UInt8} {rssiState : Int}

theorem handle_congr {buf buf' : List UInt8} {bufLen : Int}
    (hparse : CJson.parse buf = CJson.parse buf')
    (htake : buf.take bufLen.toNat = buf'.take bufLen.toNat) :
    cmd.handle e buf bufLen = cmd.handle e buf' bufLen := by
  cases cmd with
  | inquiry => simp only [Command.handle, inquiryStateFrom, cJSONParse, hparse, htake]
  | rssi => simp only [Command.handle, rssiStateChange, cJSONParse, hparse, htake]

theorem outcome_of_not_names (h : names (d.msgJson ++ behind) = false) :
    cmd.outcome e d behind rssiState = ([], rssiState) := by
  have hnull := Option.not_isSome_iff_eq_none.mp (Bool.eq_false_iff.mp h)
  rw [Command.outcome, handle_null hnull]
  rfl

theorem outcome_of_names (cmd : Command) (e : Surroundings) (rssiState : Int)
    (h : names (d.msgJson ++ behind) = true) :
    (cmd.outcome e d behind rssiState).1 = [request (d.msgJson ++ behind) d.msgLen] := by
  obtain ⟨item, hitem⟩ := Option.isSome_iff_exists.mp h
  have hran := handle_ran cmd (e := e) hitem d.msgLen (.start rssiState)
  rw [Command.outcome]
  generalize (cmd.handle e (d.msgJson ++ behind) d.msgLen).run (.start rssiState) = r at hran
  cases hran with
  | idle | taken | null => rfl

theorem parse_append_of_names {text : List UInt8} (h : names text = true) (t : List UInt8) :
    CJson.parse (text ++ t) = CJson.parse text := by
  cases hparse : CJson.parse text with
  | none => simp [names, hparse, getObjectItem] at h
  | some root =>
    cases root with
    | object child => exact parse_append hparse t
    | _ => simp [names, hparse, getObjectItem] at h

theorem names_append {text : List UInt8} (h : names text = true) (t : List UInt8) :
    names (text ++ t) = true := by
  rwa [names, parse_append_of_names h t]

-- ---------------------------------------------------------------------------
-- Payloads that speak for themselves
-- ---------------------------------------------------------------------------

/-- Nothing that may lie behind what arrives of the payload gives it a destination. -/
def Nameless (p behind : List UInt8) : Prop :=
  ∀ json : List UInt8, json.length = maxText → p.take textSent <+: json →
    names (json ++ behind) = false

theorem ownBytes_of_nameless (hp : p.length ≤ maxText) (h : Nameless p behind) :
    OwnBytes cmd e p behind rssiState := by
  intro d d' hd hd'
  rw [outcome_of_not_names (h _ d.json_length (hd.json hp).2),
    outcome_of_not_names (h _ d'.json_length (hd'.json hp).2)]

theorem ownBytes_of_names (hp : p.length ≤ textSent) (h : names p = true) :
    OwnBytes cmd e p behind rssiState := by
  have hmax : p.length ≤ maxText := Nat.le_trans hp (Nat.sub_le _ _)
  have run : ∀ {d}, Arrives cmd p d →
      cmd.handle e (d.msgJson ++ behind) d.msgLen = cmd.handle e p p.length := by
    intro d hd
    obtain ⟨hlen, hpre⟩ := hd.json hmax
    rw [List.take_of_length_le hp] at hpre
    obtain ⟨r, hr⟩ := hpre
    rw [hlen, ← hr, List.append_assoc]
    exact handle_congr (parse_append_of_names h _) (by simp)
  intro d d' hd hd'
  rw [Command.outcome, Command.outcome, run hd, run hd']

def padded (p : List UInt8) (b : UInt8) : List UInt8 :=
  p.take textSent ++ List.replicate (maxText - (p.take textSent).length) b

theorem length_padded (p : List UInt8) (b : UInt8) : (padded p b).length = maxText := by
  have hle : (p.take textSent).length ≤ maxText :=
    Nat.le_trans (List.length_take_le _ _) (Nat.sub_le _ _)
  simp only [padded, List.length_append, List.length_replicate]
  omega

theorem names_padded_zero (p behind : List UInt8) :
    names (padded p 0 ++ behind) = names (p.take textSent) := by
  have hle : (p.take textSent).length ≤ textSent := List.length_take_le _ _
  obtain ⟨n, hn⟩ : ∃ n, maxText - (p.take textSent).length = n + 1 :=
    Nat.exists_eq_succ_of_ne_zero (Nat.sub_ne_zero_of_lt (Nat.lt_of_le_of_lt hle (by decide)))
  rw [names, padded, hn, List.replicate_succ, List.append_assoc, List.cons_append,
    parse_append_zero, names]

theorem getElem?_padded (h : textSent < p.length) (b : UInt8) (behind : List UInt8) :
    (padded p b ++ behind)[textSent]? = some b := by
  have hlen : (p.take textSent).length = textSent := List.length_take_of_le (Nat.le_of_lt h)
  have hroom : textSent < (padded p b).length := by
    rw [length_padded]
    decide
  rw [List.getElem?_append_left hroom, padded, List.getElem?_append_right (Nat.le_of_eq hlen), hlen,
    Nat.sub_self, List.getElem?_replicate, if_pos (by decide)]

theorem names_of_ownBytes (h : OwnBytes cmd e p behind rssiState) (hp : p.length ≤ maxText)
    (hn : ¬ Nameless p behind) : names (p.take textSent) = true := by
  rw [← names_padded_zero p behind]
  refine Bool.not_eq_false _ |>.mp fun hzero => hn fun json hlen hpre => ?_
  obtain ⟨d, hd, rfl⟩ := arrives_of_prefix cmd hp hlen hpre
  obtain ⟨d₀, hd₀, hjson⟩ := arrives_of_prefix cmd hp (length_padded p 0) (List.prefix_append _ _)
  refine Bool.eq_false_iff.mpr fun hnames => ?_
  have hsent := outcome_of_names cmd e rssiState hnames
  rw [h d d₀ hd hd₀, outcome_of_not_names (by rwa [hjson])] at hsent
  cases hsent

theorem length_le_of_ownBytes (h : OwnBytes cmd e p behind rssiState) (hp : p.length ≤ maxText)
    (hnames : names (p.take textSent) = true) : p.length ≤ textSent := by
  rcases Nat.lt_or_ge textSent p.length with hlt | hle
  · have arrives : ∀ b, ∃ d, Arrives cmd p d ∧
        (cmd.outcome e d behind rssiState).1 = [request (padded p b ++ behind) p.length] := by
      intro b
      obtain ⟨d, hd, hjson⟩ := arrives_of_prefix cmd hp (length_padded p b) (List.prefix_append _ _)
      have hd' : names (d.msgJson ++ behind) = true := by
        rw [hjson, padded, List.append_assoc]
        exact names_append hnames _
      have hsent := outcome_of_names cmd e rssiState hd'
      rw [hjson, (hd.json hp).1] at hsent
      exact ⟨d, hd, hsent⟩
    obtain ⟨d, hd, hsent⟩ := arrives 0
    obtain ⟨d', hd', hsent'⟩ := arrives 1
    rw [h d d' hd hd', hsent'] at hsent
    have hbytes := congrArg (·[textSent]?) (congrArg Request.buf (List.cons.inj hsent).1)
    simp only [request, Int.toNat_natCast, List.getElem?_take_of_lt hlt, getElem?_padded hlt]
      at hbytes
    cases hbytes
  · exact hle

/-- A command depends on its own bytes only when they name a destination within
the part that arrives, or when none can be read into them. -/
theorem ownBytes_iff (cmd : Command) (e : Surroundings) (hp : p.length ≤ maxText)
    (behind : List UInt8) (rssiState : Int) :
    OwnBytes cmd e p behind rssiState ↔
      Nameless p behind ∨ p.length ≤ textSent ∧ names p = true := by
  constructor
  · intro h
    refine Classical.or_iff_not_imp_left.mpr fun hn => ?_
    have hnames := names_of_ownBytes h hp hn
    have hle := length_le_of_ownBytes h hp hnames
    rw [List.take_of_length_le hle] at hnames
    exact ⟨hle, hnames⟩
  · rintro (h | ⟨hle, h⟩)
    · exact ownBytes_of_nameless hp h
    · exact ownBytes_of_names hle h

def wholeText : List UInt8 := bytes "\x7b\"dst\":\"mon\"\x7d"

theorem wholeText_own : OwnBytes .inquiry ⟨fun _ => ⟨0, none, 0⟩, true⟩ wholeText [] 0 :=
  (ownBytes_iff .inquiry _ (by decide) [] 0).mpr (.inr ⟨by decide, by decide +kernel⟩)

def cutText : List UInt8 := bytes "\x7b\"dst\":\"mon\""

theorem cutText_completed : ¬ Nameless cutText [] := by
  intro h
  have hnames : names wholeText = true := by decide +kernel
  have hpre : cutText.take textSent <+: padded wholeText 0 :=
    List.isPrefixOf_iff_prefix.mp (by decide +kernel)
  have hnone := h (padded wholeText 0) (length_padded _ _) hpre
  have hall : names (wholeText.take textSent) = true := by decide +kernel
  rw [names_padded_zero, hall] at hnone
  cases hnone

theorem cutText_stale : ¬ ∀ cmd e p behind rssiState, p.length ≤ maxText →
    OwnBytes cmd e p behind rssiState := by
  intro h
  have hlen : cutText.length ≤ maxText := by decide
  have hown := h .inquiry ⟨fun _ => ⟨0, none, 0⟩, true⟩ cutText [] 0 hlen
  have hnames := names_of_ownBytes hown hlen cutText_completed
  have hcut : names (cutText.take textSent) = false := by decide +kernel
  rw [hcut] at hnames
  cases hnames

end DevAdapter.ClientJson

import DevAdapter.CJson.RoundTrip
import DevAdapter.I2c
import DevAdapter.ProducedFrames

/-!
# Temperature and currents

`inquiry_rf_and_mf` makes six I2C requests, three that set a register and three
that read one, collects what was read in a JSON object and sends its text to the
PC. With answers that `i2cget` can copy and `i2cset` can look into, every request
asks what it was built for, the PC gets what was read, and nothing stays
allocated.
-/

namespace DevAdapter.I2c

open CJson OffsetMemory
open ClientJson (Request Answer NullUse memberString)

-- ---------------------------------------------------------------------------
-- `procBroker.c`
-- ---------------------------------------------------------------------------

/-- `cJSON_AddStringToObject`, which adds nothing for `NULL`. -/
def addStringToObject (child : List (List UInt8 × CJson)) (name : String)
    (string : Option (Ptr (List UInt8))) : List (List UInt8 × CJson) :=
  match string with
  | some text => child ++ [(bytes name, .string (cstr text.value))]
  | none => child

def ad7417Temperature (e : Bus) : Call (Option (Ptr (List UInt8))) := do
  let _ ← i2cset e (bytes "/dev/i2c-1") (bytes "0x28") (bytes "0x00") 0 none
  let _ ← i2cset e (bytes "/dev/i2c-1") (bytes "0x28") (bytes "0x01") 1 (some (bytes "0x00"))
  i2cget e (bytes "/dev/i2c-1") (bytes "0x28") (bytes "0x00") 2

structure RetByte where
  high : Option (Ptr (List UInt8))
  low : Option (Ptr (List UInt8))

def rfCurrent (e : Bus) : Call (Ptr RetByte) := do
  let pRet ← malloc ()
  let _ ← i2cset e (bytes "/dev/i2c-1") (bytes "0x48") (bytes "0x19") 1 (some (bytes "0x14"))
  let high ← i2cget e (bytes "/dev/i2c-1") (bytes "0x48") (bytes "0x0a") 1
  let low ← i2cget e (bytes "/dev/i2c-1") (bytes "0x48") (bytes "0x04") 1
  return ⟨pRet.block, ⟨high, low⟩⟩

/-- `send_rf_mf_State`, with what it hands to `sendToPc`; `junk` is what `malloc`
leaves in `temp_buf`. -/
def sendRfMf (junk statBuf : Mem UInt8) (statBufLen : Int) : Call SendArgs := do
  let tempBuf ← malloc junk
  let args := sendRfMfState tempBuf.value statBuf statBufLen
  free (some tempBuf)
  return args

def inquiryRfAndMf (e : Bus) (junk : Mem UInt8) : Call SendArgs := do
  let root ← malloc ()
  let temperatureAd7417 ← ad7417Temperature e
  let child := addStringToObject [] "ad7417_temper" temperatureAd7417
  free temperatureAd7417
  let rfCur ← rfCurrent e
  let child := addStringToObject child "rf_cur_low" rfCur.value.low
  let child := addStringToObject child "rf_cur_high" rfCur.value.high
  free rfCur.value.low
  free rfCur.value.high
  free (some rfCur)
  let sendJsonfile ← malloc (CJson.print e.printNumber (.object child))
  let args ← sendRfMf junk (Mem.write (fun _ => 0) 0 (sendJsonfile.value ++ [0]))
    ((cstr sendJsonfile.value).length + 1)
  free (some root)
  free (some sendJsonfile)
  return args

-- ---------------------------------------------------------------------------
-- Calls that come to their end
-- ---------------------------------------------------------------------------

/-- The call ends, with a result of which `P` holds; it makes the requests
`requests`, copies no more than fits, and of the blocks `pre` it leaves those of
`post`. -/
def Ends (pre : List Nat) (x : Call α) (requests : List Request) (post : α → List Nat)
    (P : α → Prop) : Prop :=
  ∀ run, ∃ v run', x.run run = .ok v run' ∧ P v ∧ run'.requests = run.requests ++ requests ∧
    (∀ copy ∈ run'.copies, copy ∈ run.copies ∨ copy.length ≤ 32) ∧
    ∀ live, run.heap.Live (pre ++ live) → run'.heap.Live (post v ++ live)

variable {pre mid : List Nat} {post : α → List Nat} {P : α → Prop}

theorem Ends.bind {x : Call β} {f : β → Call α} {owned : β → List Nat} {Q : β → Prop}
    (hx : Ends pre x qs owned Q) (hf : ∀ v, Q v → Ends (owned v) (f v) qs' post P) :
    Ends pre (x >>= f) (qs ++ qs') post P := by
  intro run
  obtain ⟨v, run₁, hrun₁, hv, hqs, hcopies, hlive⟩ := hx run
  obtain ⟨w, run₂, hrun₂, hw, hqs', hcopies', hlive'⟩ := hf v hv run₁
  refine ⟨w, run₂, ?_, hw, ?_, ?_, fun live hl => hlive' live (hlive live hl)⟩
  · rw [EStateM.run_bind, hrun₁]
    exact hrun₂
  · rw [hqs', hqs, List.append_assoc]
  · intro copy hcopy
    exact (hcopies' copy hcopy).elim (hcopies copy) .inr

theorem Ends.step {x : Call β} {f : β → Call α} {owned : β → List Nat} {Q : β → Prop}
    (hx : Ends pre x [] owned Q) (hf : ∀ v, Q v → Ends (owned v) (f v) qs post P) :
    Ends pre (x >>= f) qs post P :=
  hx.bind hf

theorem Ends.last {x : Call β} {f : β → Call α} {owned : β → List Nat} {Q : β → Prop}
    (hx : Ends pre x qs owned Q) (hf : ∀ v, Q v → Ends (owned v) (f v) [] post P) :
    Ends pre (x >>= f) qs post P := by
  rw [← List.append_nil qs]
  exact hx.bind hf

theorem Ends.ret (v : α) (hv : P v) (h : pre.Perm (post v)) :
    Ends pre (pure v : Call α) [] post P := by
  intro run
  exact ⟨v, run, rfl, hv, (List.append_nil _).symm, fun _ => .inl, fun live hl =>
    hl.perm (h.append_right live)⟩

theorem Ends.imp {x : Call α} {Q : α → Prop} (h : Ends pre x qs post P) (hPQ : ∀ v, P v → Q v) :
    Ends pre x qs post Q := by
  intro run
  obtain ⟨v, run', hrun, hv, hrest⟩ := h run
  exact ⟨v, run', hrun, hPQ v hv, hrest⟩

theorem Ends.allocated (value : α) :
    Ends pre (malloc value) [] (fun p => p.block :: pre) (fun p => p.value = value) := by
  intro run
  exact ⟨_, _, run_malloc run value, rfl, (List.append_nil _).symm, fun _ => .inl, fun live hl =>
    live_malloc hl⟩

theorem Ends.freed {p : Option (Ptr β)} {rest : List Nat} (h : pre.Perm (blocks p ++ rest)) :
    Ends pre (free p) [] (fun _ => rest) (fun _ => True) := by
  intro run
  refine ⟨(), _, run_free run p, trivial, (List.append_nil _).symm, fun _ => .inl, ?_⟩
  intro live hl
  refine live_freed ?_
  rw [← List.append_assoc]
  exact hl.perm (h.append_right live)

theorem Ends.freed_first (p : Option (Ptr β)) (rest : List Nat) :
    Ends (blocks p ++ rest) (free p) [] (fun _ => rest) (fun _ => True) :=
  Ends.freed (List.Perm.refl _)

theorem Ends.freed_all (p : Option (Ptr β)) :
    Ends (blocks p) (free p) [] (fun _ => []) (fun _ => True) :=
  Ends.freed (by rw [List.append_nil])

theorem Ends.frame {x : Call α} (h : Ends [] x qs post P) (rest : List Nat) :
    Ends rest x qs (fun v => post v ++ rest) P := by
  intro run
  obtain ⟨v, run', hrun, hv, hqs, hcopies, hlive⟩ := h run
  refine ⟨v, run', hrun, hv, hqs, hcopies, fun live hl => ?_⟩
  rw [List.append_assoc]
  exact hlive _ hl

theorem Ends.member {root : Option CJson} {name : String} {k : List UInt8 → Call α}
    (h : memberString root name = some text) (hk : Ends pre (k text) qs post P) :
    Ends pre (valuestringOf (getObjectItem root (bytes name)) >>= fun s => stringOf s >>= k) qs
      post P := by
  intro run
  rw [run_member_some h]
  exact hk run

-- ---------------------------------------------------------------------------
-- `i2cset` and `i2cget`
-- ---------------------------------------------------------------------------

theorem cJSONParse_ends (statBuf : Option (Ptr (List UInt8))) :
    Ends [] (cJSONParse statBuf) [] blocks
      (fun root => root.map (·.value) = (statBuf.map (·.value)).bind CJson.parse) := by
  intro run
  obtain ⟨root, heap, hrun, hroot, hlive⟩ := cJSONParse_ran statBuf run
  exact ⟨root, _, hrun, hroot, (List.append_nil _).symm, fun _ => .inl, hlive⟩

def Response.Carries (r : Response) (a : Answer) : Prop :=
  r.ret = a.ret ∧ r.statBuf.map (·.value) = a.statBuf ∧ r.statBufLen = a.statBufLen

theorem exchange_ends (e : Bus) {root : CJson} {item : CJson}
    (h : getObjectItem (some root) (bytes "dst") = some item) :
    Ends [] (exchange e root) [request e root] (fun r => blocks r.statBuf)
      (·.Carries (e.devTransfer (request e root))) := by
  intro run
  obtain ⟨statBuf, heap, hrun, hvalue, hlive⟩ := exchange_ran e h run
  exact ⟨_, _, hrun, ⟨rfl, hvalue, rfl⟩, rfl, fun _ => .inl, hlive⟩

theorem copyReturns_ends {items : List CJson} (hone : items.length ≤ 1)
    (hfits : ∀ item ∈ items, ∃ copy, copyOf item = some copy ∧ copy.length ≤ 32) :
    Ends [] (copyReturns items none) [] blocks
      (fun ret => ret.map (·.value) = items.getLast?.bind copyOf) := by
  intro run
  have hsome : ∀ item ∈ items, (copyOf item).isSome = true := fun item hitem => by
    obtain ⟨copy, hcopy, -⟩ := hfits item hitem
    rw [hcopy]
    rfl
  obtain ⟨ret, hrun, hlast⟩ := copyReturns_ok hsome none run
  refine ⟨ret, _, hrun, ?_, (List.append_nil _).symm, ?_, ?_⟩
  · have hret := hlast.returned
    split at hret
    · rename_i item hitem
      obtain ⟨p, rfl, hcopy⟩ := hret
      rw [hitem, Option.bind_some, hcopy]
      rfl
    · rename_i hnone
      rw [hret, hnone]
      rfl
  · intro copy hcopy
    refine (List.mem_append.mp hcopy).imp_right fun hnew => ?_
    obtain ⟨item, hitem, hcopy⟩ := List.mem_filterMap.mp hnew
    obtain ⟨copy', hcopy', hle⟩ := hfits item hitem
    obtain rfl := Option.some.inj (hcopy.symm.trans hcopy')
    exact hle
  · intro live hl
    rw [hlast.blocks hone]
    exact (hl.malloc _).perm List.perm_append_comm

/-- An answer that is not looked at comes without a buffer; one that is has a `"stat"`. -/
structure Settable (a : Answer) : Prop where
  buffer : ¬ Answered a → a.statBuf = none
  stat : Answered a → (stat a).isSome = true

theorem Response.Carries.answered {r : Response} {a : Answer} (h : r.Carries a) :
    (r.ret = 0 ∧ 0 < r.statBufLen) ↔ Answered a := by
  rw [h.1, h.2.2, Answered]

theorem Response.Carries.ignored {r : Response} {a : Answer} (h : r.Carries a)
    (hbuf : ¬ Answered a → a.statBuf = none) (hans : ¬ (r.ret = 0 ∧ 0 < r.statBufLen)) :
    blocks r.statBuf = [] := by
  have hnone := h.2.1
  rw [hbuf (mt h.answered.mpr hans), Option.map_eq_none_iff] at hnone
  rw [hnone]
  rfl

theorem Response.Carries.stat_eq {r : Response} {a : Answer} (h : r.Carries a)
    {root : Option (Ptr CJson)}
    (hroot : root.map (·.value) = (r.statBuf.map (·.value)).bind CJson.parse) :
    root.map (·.value) = tree a := by
  rw [hroot, h.2.1, tree]

theorem i2cset_ends {e : Bus} {dev addr reg : List UInt8} {size : Int}
    {data : Option (List UInt8)}
    (h : Settable (e.devTransfer (request e (setTree dev addr reg size data)))) :
    Ends [] (i2cset e dev addr reg size data) [request e (setTree dev addr reg size data)]
      (fun _ => []) (fun _ => True) := by
  unfold i2cset
  refine Ends.last (exchange_ends e (setTree_dst dev addr reg size data)) fun r hr => ?_
  split
  · rename_i hans
    obtain ⟨text, htext⟩ := Option.isSome_iff_exists.mp (h.stat (hr.answered.mp hans))
    refine Ends.step ((cJSONParse_ends r.statBuf).frame _) fun root hroot => ?_
    rw [hr.stat_eq hroot]
    refine Ends.member htext ?_
    refine Ends.step (Ends.freed_first _ _) fun _ _ => ?_
    refine Ends.step (Ends.freed_all _) fun _ _ => ?_
    exact Ends.ret _ trivial (List.Perm.refl _)
  · rename_i hans
    rw [hr.ignored h.buffer hans]
    exact Ends.ret _ trivial (List.Perm.refl _)

def copied (a : Answer) : Option (List UInt8) := (returned a).getLast?.bind copyOf

theorem i2cget_ends {e : Bus} {dev addr reg : List UInt8} {size : Int}
    (h : Copyable (e.devTransfer (request e (getTree dev addr reg size)))) :
    Ends [] (i2cget e dev addr reg size) [request e (getTree dev addr reg size)] blocks
      (fun ret => ret.map (·.value) =
        copied (e.devTransfer (request e (getTree dev addr reg size)))) := by
  unfold i2cget
  refine Ends.last (exchange_ends e (getTree_dst dev addr reg size)) fun r hr => ?_
  split
  · rename_i hans
    have hans := hr.answered.mp hans
    obtain ⟨text, htext⟩ := Option.isSome_iff_exists.mp (h.stat hans)
    refine Ends.step ((cJSONParse_ends r.statBuf).frame _) fun root hroot => ?_
    rw [hr.stat_eq hroot]
    refine Ends.member htext ?_
    by_cases hzero : text = bytes "0"
    · rw [if_neg (not_not_intro hzero), ← returned_success hans (hzero ▸ htext)]
      refine Ends.step ((copyReturns_ends h.single h.fits).frame _) fun ret hret => ?_
      refine Ends.step (Ends.freed (List.perm_append_comm_assoc _ _ _)) fun _ _ => ?_
      refine Ends.step (Ends.freed List.perm_append_comm) fun _ _ => ?_
      exact Ends.ret _ hret (List.Perm.refl _)
    · rw [if_pos hzero]
      have hnil := returned_failure (by rw [htext]; simpa using hzero)
      refine Ends.step (Ends.freed_first _ _) fun _ _ => ?_
      refine Ends.step (Ends.freed_all _) fun _ _ => ?_
      refine Ends.ret _ ?_ (List.Perm.refl _)
      rw [copied, hnil]
      rfl
  · rename_i hans
    rw [hr.ignored h.buffer hans]
    refine Ends.ret _ ?_ (List.Perm.refl _)
    rw [copied, returned_of_ignored (mt hr.answered.mpr hans)]
    rfl

-- ---------------------------------------------------------------------------
-- The six requests
-- ---------------------------------------------------------------------------

/-- The requests of `ad7417_temperature` and `rf_current`. -/
def convertTree : CJson := setTree (bytes "/dev/i2c-1") (bytes "0x28") (bytes "0x00") 0 none

def configureTree : CJson :=
  setTree (bytes "/dev/i2c-1") (bytes "0x28") (bytes "0x01") 1 (some (bytes "0x00"))

def temperTree : CJson := getTree (bytes "/dev/i2c-1") (bytes "0x28") (bytes "0x00") 2

def selectTree : CJson :=
  setTree (bytes "/dev/i2c-1") (bytes "0x48") (bytes "0x19") 1 (some (bytes "0x14"))

def highTree : CJson := getTree (bytes "/dev/i2c-1") (bytes "0x48") (bytes "0x0a") 1

def lowTree : CJson := getTree (bytes "/dev/i2c-1") (bytes "0x48") (bytes "0x04") 1

def rfMfTrees : List CJson :=
  [convertTree, configureTree, temperTree, selectTree, highTree, lowTree]

/-- The answers to the six requests are ones that `i2cset` and `i2cget` can deal with. -/
structure Answerable (e : Bus) : Prop where
  set : ∀ root ∈ [convertTree, configureTree, selectTree], Settable (e.devTransfer (request e root))
  get : ∀ root ∈ [temperTree, highTree, lowTree], Copyable (e.devTransfer (request e root))

def reading (e : Bus) (root : CJson) : Option (List UInt8) :=
  (copied (e.devTransfer (request e root))).map cstr

def stringMember (name : String) (text : Option (List UInt8)) : List (List UInt8 × CJson) :=
  (text.map fun text => (bytes name, CJson.string text)).toList

/-- What is sent to the PC; a register that was not read is left out. -/
def stateTree (e : Bus) : CJson :=
  .object (stringMember "ad7417_temper" (reading e temperTree) ++
    stringMember "rf_cur_low" (reading e lowTree) ++
    stringMember "rf_cur_high" (reading e highTree))

theorem addStringToObject_eq (child : List (List UInt8 × CJson)) (name : String)
    (string : Option (Ptr (List UInt8))) :
    addStringToObject child name string =
      child ++ stringMember name ((string.map (·.value)).map cstr) := by
  cases string with
  | none => exact (List.append_nil child).symm
  | some text => rfl

theorem request_parsed (e : Bus) : ∀ root ∈ rfMfTrees,
    CJson.parse (request e root).buf = some root := by
  have hplain : ∀ root ∈ rfMfTrees, numbers root = [] ∧ height root ≤ nestingLimit ∧
      ∀ text ∈ texts root, 0 ∉ text := by
    decide +kernel
  intro root hroot
  obtain ⟨hnum, hheight, htexts⟩ := hplain root hroot
  exact (parse_print_texts _ hnum hheight htexts).1

theorem ad7417Temperature_ends {e : Bus} (h : Answerable e) :
    Ends [] (ad7417Temperature e) ([convertTree, configureTree, temperTree].map (request e)) blocks
      (fun ret => (ret.map (·.value)).map cstr = reading e temperTree) := by
  unfold ad7417Temperature
  refine Ends.bind (i2cset_ends (h.set convertTree (by simp))) fun _ _ => ?_
  refine Ends.bind (i2cset_ends (h.set configureTree (by simp))) fun _ _ => ?_
  exact (i2cget_ends (h.get temperTree (by simp))).imp fun _ => congrArg (Option.map cstr)

theorem rfCurrent_ends {e : Bus} (h : Answerable e) :
    Ends [] (rfCurrent e) ([selectTree, highTree, lowTree].map (request e))
      (fun p => blocks p.value.low ++ (blocks p.value.high ++ [p.block]))
      (fun p => (p.value.high.map (·.value)).map cstr = reading e highTree ∧
        (p.value.low.map (·.value)).map cstr = reading e lowTree) := by
  unfold rfCurrent
  refine Ends.step (Ends.allocated ()) fun pRet _ => ?_
  refine Ends.bind ((i2cset_ends (h.set selectTree (by simp))).frame _) fun _ _ => ?_
  refine Ends.bind ((i2cget_ends (h.get highTree (by simp))).frame _) fun high hhigh => ?_
  refine Ends.last ((i2cget_ends (h.get lowTree (by simp))).frame _) fun low hlow => ?_
  exact Ends.ret _ ⟨congrArg (Option.map cstr) hhigh, congrArg (Option.map cstr) hlow⟩
    (List.Perm.refl _)

theorem sendRfMf_ends (junk statBuf : Mem UInt8) (statBufLen : Int) (pre : List Nat) :
    Ends pre (sendRfMf junk statBuf statBufLen) [] (fun _ => pre)
      (· = sendRfMfState junk statBuf statBufLen) := by
  unfold sendRfMf
  refine Ends.step (Ends.allocated junk) fun tempBuf hbuf => ?_
  refine Ends.step (Ends.freed (List.Perm.refl _)) fun _ _ => ?_
  refine Ends.ret _ ?_ (List.Perm.refl _)
  rw [hbuf]

def stateText (e : Bus) : List UInt8 := CJson.print e.printNumber (stateTree e)

theorem inquiryRfAndMf_ends {e : Bus} (h : Answerable e) (junk : Mem UInt8) :
    Ends [] (inquiryRfAndMf e junk) (rfMfTrees.map (request e)) (fun _ => [])
      (· = sendRfMfState junk (Mem.write (fun _ => 0) 0 (stateText e ++ [0]))
        ((cstr (stateText e)).length + 1)) := by
  unfold inquiryRfAndMf
  refine Ends.step (Ends.allocated ()) fun root _ => ?_
  refine Ends.bind ((ad7417Temperature_ends h).frame _) fun temper htemper => ?_
  refine Ends.step (Ends.freed_first _ _) fun _ _ => ?_
  refine Ends.last ((rfCurrent_ends h).frame _) fun rfCur hcur => ?_
  rw [List.append_assoc, List.append_assoc]
  refine Ends.step (Ends.freed_first _ _) fun _ _ => ?_
  refine Ends.step (Ends.freed_first _ _) fun _ _ => ?_
  refine Ends.step (Ends.freed_first (some rfCur) [root.block]) fun _ _ => ?_
  have htree : CJson.object (addStringToObject (addStringToObject (addStringToObject []
      "ad7417_temper" temper) "rf_cur_low" rfCur.value.low) "rf_cur_high" rfCur.value.high) =
      stateTree e := by
    simp only [addStringToObject_eq, htemper, hcur, List.nil_append, stateTree]
  rw [htree]
  refine Ends.step (Ends.allocated _) fun text htext => ?_
  rw [htext]
  refine Ends.step (sendRfMf_ends _ _ _ _) fun args hargs => ?_
  refine Ends.step (Ends.freed (List.Perm.swap _ _ _)) fun _ _ => ?_
  refine Ends.step (Ends.freed_all _) fun _ _ => ?_
  exact Ends.ret _ hargs (List.Perm.refl _)

-- ---------------------------------------------------------------------------
-- The frame
-- ---------------------------------------------------------------------------

theorem length_escaped_le : ∀ b, (escaped b).length ≤ 6 := forall_byte (by decide +kernel)

theorem length_printString_le (text : List UInt8) :
    (printString text).length ≤ 6 * text.length + 2 := by
  have hsum : ((cstr text).flatMap escaped).length ≤ 6 * (cstr text).length := by
    induction cstr text with
    | nil => exact Nat.le_refl 0
    | cons b text ih =>
      have hb := length_escaped_le b
      simp only [List.flatMap_cons, List.length_append, List.length_cons]
      omega
  have hcut : (cstr text).length ≤ text.length := (List.takeWhile_prefix _).length_le
  simp only [printString, List.cons_append, List.length_cons, List.length_append]
  simp only [List.length_nil]
  omega

theorem reading_some {e : Bus} {root : CJson} {text : List UInt8}
    (h : Copyable (e.devTransfer (request e root))) (htext : reading e root = some text) :
    0 ∉ text ∧ text.length ≤ 32 := by
  obtain ⟨copy, hcopy, rfl⟩ := Option.map_eq_some_iff.mp htext
  refine ⟨fun hzero => ?_, ?_⟩
  · simpa using List.mem_takeWhile_imp hzero
  · obtain ⟨item, hitem, hcopied⟩ := Option.bind_eq_some_iff.mp hcopy
    obtain ⟨copy', hcopy', hle⟩ := h.fits item (List.mem_of_getLast? hitem)
    obtain rfl := Option.some.inj (hcopied.symm.trans hcopy')
    exact Nat.le_trans (List.takeWhile_prefix _).length_le hle

def ShortMember (member : List UInt8 × CJson) : Prop :=
  (0 ∉ member.1 ∧ member.1.length ≤ 13) ∧
    ∃ text, member.2 = .string text ∧ 0 ∉ text ∧ text.length ≤ 32

theorem stringMember_short (name : String) {text : Option (List UInt8)}
    (hname : 0 ∉ bytes name ∧ (bytes name).length ≤ 13)
    (htext : ∀ t, text = some t → 0 ∉ t ∧ t.length ≤ 32) :
    (stringMember name text).length ≤ 1 ∧ ∀ member ∈ stringMember name text, ShortMember member := by
  cases text with
  | none => exact ⟨Nat.zero_le 1, nofun⟩
  | some t =>
    refine ⟨Nat.le_refl 1, fun member hmember => ?_⟩
    rw [List.mem_singleton.mp hmember]
    exact ⟨hname, t, rfl, htext t rfl⟩

theorem stateTree_short {e : Bus} (h : Answerable e) : ∃ child, stateTree e = .object child ∧
    child.length ≤ 3 ∧ ∀ member ∈ child, ShortMember member := by
  have htemper := stringMember_short "ad7417_temper" (by decide +kernel)
    fun _ => reading_some (h.get temperTree (by simp))
  have hlow := stringMember_short "rf_cur_low" (by decide +kernel)
    fun _ => reading_some (h.get lowTree (by simp))
  have hhigh := stringMember_short "rf_cur_high" (by decide +kernel)
    fun _ => reading_some (h.get highTree (by simp))
  refine ⟨_, rfl, ?_, ?_⟩
  · simp only [List.length_append]
    omega
  · intro member hmember
    simp only [List.mem_append] at hmember
    rcases hmember with (hmember | hmember) | hmember
    · exact htemper.2 member hmember
    · exact hlow.2 member hmember
    · exact hhigh.2 member hmember

theorem short_members {child : List (List UInt8 × CJson)} (h : ∀ m ∈ child, ShortMember m)
    (printNumber : List UInt8 → List UInt8) :
    (memberNumbers child = [] ∧ heightMembers child = 0 ∧ ∀ text ∈ memberTexts child, 0 ∉ text) ∧
      (printMembers printNumber 1 child).length ≤ 300 * child.length := by
  induction child with
  | nil => exact ⟨⟨rfl, rfl, nofun⟩, Nat.le_refl 0⟩
  | cons member child ih =>
    obtain ⟨⟨⟨hzero, hname⟩, text, hitem, htext, hlen⟩, hrest⟩ := List.forall_mem_cons.mp h
    obtain ⟨⟨hnumbers, hheight, htexts⟩, hlength⟩ := ih hrest
    obtain ⟨name, item⟩ := member
    obtain rfl : item = .string text := hitem
    refine ⟨⟨?_, ?_, ?_⟩, ?_⟩
    · rw [memberNumbers, hnumbers, List.append_nil, numbers]
    · rw [heightMembers, hheight, height, Nat.max_self]
    · exact List.forall_mem_cons.mpr ⟨hzero, List.forall_mem_cons.mpr ⟨htext, htexts⟩⟩
    · have hprint := length_printString_le name
      have hvalue := length_printString_le text
      have hcomma : (if child.isEmpty then [] else bytes ",").length ≤ 1 := by
        split <;> decide
      have hmarks : (bytes ":\t").length = 2 ∧ (bytes "\n").length = 1 := by decide
      simp only [printMembers, printValue, tabs, List.length_append, List.length_replicate,
        List.length_cons, hmarks]
      simp only at hname
      omega

theorem stateTree_parsed {e : Bus} (h : Answerable e) :
    CJson.parse (cstr (stateText e)) = some (stateTree e) ∧ cstr (stateText e) = stateText e := by
  obtain ⟨child, htree, -, hshort⟩ := stateTree_short h
  obtain ⟨⟨hnumbers, hheight, htexts⟩, -⟩ := short_members hshort e.printNumber
  rw [stateText, htree]
  refine parse_print_texts _ hnumbers ?_ htexts
  rw [height, hheight]
  decide

theorem length_stateText_le {e : Bus} (h : Answerable e) : (stateText e).length ≤ 1000 := by
  obtain ⟨child, htree, hthree, hshort⟩ := stateTree_short h
  have hlen := (short_members hshort e.printNumber).2
  have hmarks : (bytes "\x7b\n").length = 2 ∧ (bytes "\x7d").length = 1 := by decide
  simp only [stateText, htree, CJson.print, printValue, List.length_append, tabs,
    List.length_replicate, Nat.zero_add, hmarks]
  omega

/-- With answers that can be dealt with, the six requests are made in order and
each is parsed to what it was built of; the frame is one that the PC can split
off, and its text is parsed to the readings; and every block is freed. -/
theorem inquiryRfAndMf_reports {e : Bus} (h : Answerable e) (junk : Mem UInt8) (run : Run) :
    ∃ args run', (inquiryRfAndMf e junk).run run = .ok args run' ∧
      run'.requests = run.requests ++ rfMfTrees.map (request e) ∧
      (∀ root ∈ rfMfTrees, CJson.parse (request e root).buf = some root) ∧
      (∀ live, run.heap.Live live → run'.heap.Live live) ∧
      (∀ copy ∈ run'.copies, copy ∈ run.copies ∨ copy.length ≤ 32) ∧
      Produced args.bytes ∧ int32At args.sendBuf 4 = 5 ∧
      CJson.parse (args.bytes.drop 8) = some (stateTree e) := by
  obtain ⟨args, run', hrun, hargs, hrequests, hcopies, hlive⟩ := inquiryRfAndMf_ends h junk run
  refine ⟨args, run', hrun, hrequests, request_parsed e, hlive, hcopies, ?_⟩
  obtain ⟨hparse, hcstr⟩ := stateTree_parsed h
  have hlen := length_stateText_le h
  let p : Product := .rfMfState junk (Mem.write (fun _ => 0) 0 (stateText e ++ [0]))
    ((stateText e).length + 1)
  have hvalid : p.Valid := by
    simp only [p, Product.Valid]
    omega
  have hp : p.args = some args := by
    rw [hargs, hcstr]
    rfl
  have hagrees := Product.agrees hvalid hp
  refine ⟨⟨p, args, hvalid, hp, rfl⟩, ?_, ?_⟩
  · rw [hagrees.typeWord, hargs]
    rfl
  · have hread : (Mem.write (fun _ => 0) 0 (stateText e ++ [0])).read 0
        ((stateText e).length + 1) = stateText e ++ [0] := by
      have hself := read_write_self (fun _ => 0) 0 (stateText e ++ [0])
      rwa [List.length_append] at hself
    have hpayload : args.bytes.drop 8 = stateText e ++ [0] := hagrees.payload.trans hread
    have hcut : cstr (stateText e ++ [0]) = cstr (cstr (stateText e)) := by
      rw [hcstr, cstr, List.takeWhile_append, ← cstr, hcstr, if_pos rfl]
      exact List.append_nil _
    rw [hpayload, ← hparse, CJson.parse, hcut, ← CJson.parse]

def oneByte : List UInt8 := bytes "\x7b\"stat\":\"0\",\"return\":[\x7b\"ret\":\"0x19\"\x7d]\x7d"

theorem oneByte_answerable : Answerable (.answering oneByte) := by
  let a : Answer := ⟨0, some oneByte, oneByte.length⟩
  have hans : Answered a := by decide +kernel
  have hstat : (stat a).isSome = true := by decide +kernel
  have hcopy : ((returned a).length ≤ 1 ∧ ((returned a).all fun item =>
      (copyOf item).any (·.length ≤ 32)) = true) := by decide +kernel
  refine ⟨fun _ _ => ⟨fun h => absurd hans h, fun _ => hstat⟩,
    fun _ _ => ⟨fun h => absurd hans h, fun _ => hstat, hcopy.1, fun item hitem => ?_⟩⟩
  obtain ⟨copy, hsome, hle⟩ :=
    (Option.any_eq_true _ _).mp (List.all_eq_true.mp hcopy.2 item hitem)
  exact ⟨copy, hsome, of_decide_eq_true hle⟩

theorem oneByte_reported :
    ∃ args run', (inquiryRfAndMf (.answering oneByte) fun _ => 7).run .start = .ok args run' ∧
      run'.requests = Run.start.requests ++ rfMfTrees.map (request (.answering oneByte)) ∧
      (∀ root ∈ rfMfTrees, CJson.parse (request (.answering oneByte) root).buf = some root) ∧
      (∀ live, Run.start.heap.Live live → run'.heap.Live live) ∧
      (∀ copy ∈ run'.copies, copy ∈ Run.start.copies ∨ copy.length ≤ 32) ∧
      Produced args.bytes ∧ int32At args.sendBuf 4 = 5 ∧
      CJson.parse (args.bytes.drop 8) = some (stateTree (.answering oneByte)) :=
  inquiryRfAndMf_reports oneByte_answerable (fun _ => 7) .start

end DevAdapter.I2c

import DevAdapter.CJson.Print
import DevAdapter.ClientJson.Handlers
import DevAdapter.Lib.Heap

/-!
# I2C commands

`i2cset` and `i2cget` print a request, hand it to `dev_transfer` and look into
the tree of the response. A tree is one block of the heap, and so is a buffer. A
use of `NULL` ends a run.
-/

namespace DevAdapter.I2c

open CJson
open ClientJson (Request Answer NullUse memberString)

/-- A pointer: the number of its block, and what lies from there on. -/
structure Ptr (α : Type) where
  block : Nat
  value : α

def blocks (p : Option (Ptr α)) : List Nat := (p.map (·.block)).toList

structure Run where
  heap : Heap
  requests : List Request
  -- the texts given to `cJSON_Parse`
  parsed : List (List UInt8)
  -- the bytes that are copied to a block of 32, with their NUL
  copies : List (List UInt8)

def Run.start : Run := ⟨.empty, [], [], []⟩

abbrev Call := EStateM NullUse Run

structure Bus where
  devTransfer : Request → Answer
  printNumber : List UInt8 → List UInt8

def malloc (value : α) : Call (Ptr α) :=
  modifyGet fun run => (⟨run.heap.allocated, value⟩, { run with heap := run.heap.malloc 1 })

def freed (p : Option (Ptr α)) (heap : Heap) : Heap :=
  match p with
  | some p => heap.free p.block
  | none => heap

/-- `free` or `cJSON_Delete`, which do nothing for `NULL`. -/
def free (p : Option (Ptr α)) : Call Unit :=
  modify fun run => { run with heap := freed p run.heap }

def valuestringOf : Option CJson → Call (Option (List UInt8))
  | some item => pure item.valuestring
  | none => throw .item

def stringOf : Option (List UInt8) → Call (List UInt8)
  | some text => pure (cstr text)
  | none => throw .string

def cJSONParse : Option (Ptr (List UInt8)) → Call (Option (Ptr CJson))
  | some text => do
    modify fun run => { run with parsed := run.parsed ++ [text.value] }
    match CJson.parse text.value with
    | some root => return some (← malloc root)
    | none => return none
  | none => return none

structure Response where
  ret : Int
  statBuf : Option (Ptr (List UInt8))
  statBufLen : Int

def devTransfer (e : Bus) (r : Request) : Call Response := do
  modify fun run => { run with requests := run.requests ++ [r] }
  let a := e.devTransfer r
  match a.statBuf with
  | some text => return ⟨a.ret, some (← malloc text), a.statBufLen⟩
  | none => return ⟨a.ret, none, a.statBufLen⟩

-- ---------------------------------------------------------------------------
-- Requests
-- ---------------------------------------------------------------------------

def requestTree (dev addr : List UInt8) (command : List (List UInt8 × CJson)) : CJson :=
  .object [
    (bytes "dev", .string dev),
    (bytes "addr", .string addr),
    (bytes "force", .string (bytes "0x1")),
    (bytes "dst", .string (bytes "rf")),
    (bytes "op_cmd", .array [.object ((bytes "_comment", .string (bytes "R0")) :: command)])]

/-- `data` may be `NULL`, of which no item is made. -/
def setTree (dev addr reg : List UInt8) (size : Int) (data : Option (List UInt8)) : CJson :=
  requestTree dev addr <|
    [(bytes "cmd", .string (bytes "1")), (bytes "reg", .string reg)] ++
    if size = 0 then [(bytes "size", .string (bytes "0"))]
    else if size = 1 then
      (bytes "size", .string (bytes "1")) ::
        (data.map fun data => (bytes "data", CJson.string data)).toList
    else []

def getTree (dev addr reg : List UInt8) (size : Int) : CJson :=
  requestTree dev addr <|
    [(bytes "cmd", .string (bytes "0")), (bytes "reg", .string reg)] ++
    if size = 1 then [(bytes "size", .string (bytes "1"))]
    else if size = 2 then [(bytes "size", .string (bytes "2"))]
    else []

def request (e : Bus) (root : CJson) : Request :=
  ⟨memberString (some root) "dst", cstr (root.print e.printNumber)⟩

/-- What both do up to the answer: the request is built, printed, sent and freed. -/
def exchange (e : Bus) (root : CJson) : Call Response := do
  let root ← malloc root
  let jsonfile ← malloc (root.value.print e.printNumber)
  let dst ← valuestringOf (getObjectItem (some root.value) (bytes "dst"))
  let r ← devTransfer e ⟨dst.map cstr, cstr jsonfile.value⟩
  free (some root)
  free (some jsonfile)
  return r

-- ---------------------------------------------------------------------------
-- Responses
-- ---------------------------------------------------------------------------

/-- The items that `child` and `next` lead to. -/
def children : CJson → List CJson
  | .array child => child
  | .object child => child.map (·.2)
  | .null | .bool _ | .number _ | .string _ => []

/-- What `arry_return` leads to, nothing if it is `NULL`. -/
def elements (root : Option CJson) : List CJson :=
  ((getObjectItem root (bytes "return")).map children).getD []

/-- `ret_return`, overwritten for each element. -/
def copyReturns : List CJson → Option (Ptr (List UInt8)) → Call (Option (Ptr (List UInt8)))
  | [], retReturn => pure retReturn
  | item :: next, _ => do
    let retTmp ← valuestringOf (getObjectItem (some item) (bytes "ret"))
    let block ← malloc ()
    let copy := (← stringOf retTmp) ++ [0]
    modify fun run => { run with copies := run.copies ++ [copy] }
    copyReturns next (some ⟨block.block, copy⟩)

def i2cset (e : Bus) (dev addr reg : List UInt8) (size : Int) (data : Option (List UInt8)) :
    Call Int := do
  let r ← exchange e (setTree dev addr reg size data)
  if r.ret = 0 ∧ 0 < r.statBufLen then
    let root ← cJSONParse r.statBuf
    -- anything but "0" is logged
    let _ ← stringOf (← valuestringOf (getObjectItem (root.map (·.value)) (bytes "stat")))
    free root
    free r.statBuf
  return 0

def i2cget (e : Bus) (dev addr reg : List UInt8) (size : Int) :
    Call (Option (Ptr (List UInt8))) := do
  let r ← exchange e (getTree dev addr reg size)
  if r.ret = 0 ∧ 0 < r.statBufLen then
    let root ← cJSONParse r.statBuf
    let stat ← stringOf (← valuestringOf (getObjectItem (root.map (·.value)) (bytes "stat")))
    if stat ≠ bytes "0" then
      free root
      free r.statBuf
      return none
    else
      let retReturn ← copyReturns (elements (root.map (·.value))) none
      free root
      free r.statBuf
      return retReturn
  else
    return none

-- ---------------------------------------------------------------------------
-- What the pieces do
-- ---------------------------------------------------------------------------

theorem live_freed {heap : Heap} {p : Option (Ptr α)} {live : List Nat}
    (h : heap.Live (blocks p ++ live)) : (freed p heap).Live live := by
  cases p with
  | none => exact h
  | some p => exact h.free

theorem live_malloc {heap : Heap} {live : List Nat} (h : heap.Live live) :
    (heap.malloc 1).Live (heap.allocated :: live) :=
  (h.malloc 1).perm (List.perm_append_singleton _ _)

section
variable (run : Run)

@[simp] theorem run_malloc (value : α) : (malloc value).run run =
    .ok ⟨run.heap.allocated, value⟩ { run with heap := run.heap.malloc 1 } := rfl

@[simp] theorem run_free (p : Option (Ptr α)) :
    (free p).run run = .ok () { run with heap := freed p run.heap } := rfl

@[simp] theorem run_valuestringOf_some (item : CJson) :
    (valuestringOf (some item)).run run = .ok item.valuestring run := rfl

@[simp] theorem run_valuestringOf_none : (valuestringOf none).run run = .error .item run := rfl

@[simp] theorem run_stringOf_some (text : List UInt8) :
    (stringOf (some text)).run run = .ok (cstr text) run := rfl

@[simp] theorem run_stringOf_none : (stringOf none).run run = .error .string run := rfl

end

theorem run_member_some {root : Option CJson} {name : String}
    (h : memberString root name = some text) (k : List UInt8 → Call α) (run : Run) :
    (valuestringOf (getObjectItem root (bytes name)) >>= fun s =>
      stringOf s >>= k).run run = (k text).run run := by
  obtain ⟨text', htext, rfl⟩ := Option.map_eq_some_iff.mp h
  obtain ⟨item, hitem, hstring⟩ := Option.bind_eq_some_iff.mp htext
  simp [hitem, hstring]

theorem run_member_none {root : Option CJson} {name : String}
    (h : memberString root name = none) (k : List UInt8 → Call α) (run : Run) :
    ∃ use, (valuestringOf (getObjectItem root (bytes name)) >>= fun s =>
      stringOf s >>= k).run run = .error use run := by
  cases hitem : getObjectItem root (bytes name) with
  | none => exact ⟨.item, by simp⟩
  | some item =>
    cases hstring : item.valuestring with
    | none => exact ⟨.string, by simp [hstring]⟩
    | some text => simp [memberString, hitem, hstring] at h

theorem cJSONParse_ran (statBuf : Option (Ptr (List UInt8))) (run : Run) : ∃ root heap,
    (cJSONParse statBuf).run run = .ok root { run with
      heap := heap, parsed := run.parsed ++ (statBuf.map (·.value)).toList } ∧
    root.map (·.value) = (statBuf.map (·.value)).bind CJson.parse ∧
    ∀ live, run.heap.Live live → heap.Live (blocks root ++ live) := by
  cases statBuf with
  | none => exact ⟨none, run.heap, by simp [cJSONParse], rfl, fun _ h => h⟩
  | some text =>
    simp only [cJSONParse]
    cases hroot : CJson.parse text.value with
    | none => exact ⟨none, run.heap, rfl, hroot.symm, fun _ h => h⟩
    | some root => exact ⟨_, _, rfl, hroot.symm, fun _ => live_malloc⟩

theorem devTransfer_ran (e : Bus) (q : Request) (run : Run) : ∃ statBuf heap,
    (devTransfer e q).run run = .ok ⟨(e.devTransfer q).ret, statBuf, (e.devTransfer q).statBufLen⟩
      { run with heap := heap, requests := run.requests ++ [q] } ∧
    statBuf.map (·.value) = (e.devTransfer q).statBuf ∧
    ∀ live, run.heap.Live live → heap.Live (blocks statBuf ++ live) := by
  simp only [devTransfer]
  cases hbuf : (e.devTransfer q).statBuf with
  | none => exact ⟨none, run.heap, rfl, rfl, fun _ h => h⟩
  | some text => exact ⟨_, _, rfl, rfl, fun _ => live_malloc⟩

theorem exchange_ran (e : Bus) {root : CJson} {item : CJson}
    (h : getObjectItem (some root) (bytes "dst") = some item) (run : Run) : ∃ statBuf heap,
    (exchange e root).run run = .ok
      ⟨(e.devTransfer (request e root)).ret, statBuf, (e.devTransfer (request e root)).statBufLen⟩
      { run with heap := heap, requests := run.requests ++ [request e root] } ∧
    statBuf.map (·.value) = (e.devTransfer (request e root)).statBuf ∧
    ∀ live, run.heap.Live live → heap.Live (blocks statBuf ++ live) := by
  have hq : (⟨item.valuestring.map cstr, cstr (root.print e.printNumber)⟩ : Request) =
      request e root := by
    rw [request, ClientJson.memberString_some h]
  obtain ⟨statBuf, heap, hrun, hvalue, hlive⟩ := devTransfer_ran e (request e root)
    { run with heap := (run.heap.malloc 1).malloc 1 }
  refine ⟨statBuf, (heap.free run.heap.allocated).free (run.heap.allocated + 1), ?_, hvalue, ?_⟩
  · simp only [exchange, EStateM.run_bind, run_malloc, h, run_valuestringOf_some, hq, hrun, run_free]
    rfl
  · intro live hl
    have hboth := hlive _ (live_malloc (live_malloc hl))
    have hfirst := hboth.perm
      (List.perm_middle.trans ((List.perm_middle.cons _).trans (List.Perm.swap _ _ _)))
    exact hfirst.free.free

-- ---------------------------------------------------------------------------
-- The elements of "return"
-- ---------------------------------------------------------------------------

def copyOf (item : CJson) : Option (List UInt8) :=
  (memberString (some item) "ret").map (· ++ [0])

/-- `retReturn` after the loop: the last block is a copy of the last element. -/
def LastCopy (heap : Heap) (items : List CJson) (ret ret' : Option (Ptr (List UInt8))) : Prop :=
  match items.getLast? with
  | some item => ∃ copy, copyOf item = some copy ∧
      ret' = some ⟨heap.allocated + (items.length - 1), copy⟩
  | none => ret' = ret

theorem run_copy_some {item : CJson} (h : copyOf item = some copy)
    (next : List CJson) (ret : Option (Ptr (List UInt8))) (run : Run) :
    (copyReturns (item :: next) ret).run run =
      (copyReturns next (some ⟨run.heap.allocated, copy⟩)).run
        { run with heap := run.heap.malloc 1, copies := run.copies ++ [copy] } := by
  obtain ⟨text, htext, rfl⟩ := Option.map_eq_some_iff.mp h
  obtain ⟨text', htext', rfl⟩ := Option.map_eq_some_iff.mp htext
  obtain ⟨member, hmember, hstring⟩ := Option.bind_eq_some_iff.mp htext'
  simp only [copyReturns, EStateM.run_bind, hmember, run_valuestringOf_some, hstring, run_malloc,
    run_stringOf_some]
  rfl

theorem run_copy_none {item : CJson} (h : copyOf item = none)
    (next : List CJson) (ret : Option (Ptr (List UInt8))) (run : Run) :
    ∃ use run', (copyReturns (item :: next) ret).run run = .error use run' := by
  cases hmember : getObjectItem (some item) (bytes "ret") with
  | none => exact ⟨.item, run, by simp [copyReturns, EStateM.run_bind, hmember]⟩
  | some member =>
    cases hstring : member.valuestring with
    | none =>
      exact ⟨.string, { run with heap := run.heap.malloc 1 },
        by simp [copyReturns, EStateM.run_bind, hmember, hstring]⟩
    | some text => simp [copyOf, memberString, hmember, hstring] at h

theorem copyReturns_ok {items : List CJson} (h : ∀ item ∈ items, (copyOf item).isSome = true)
    (ret : Option (Ptr (List UInt8))) (run : Run) : ∃ ret',
    (copyReturns items ret).run run = .ok ret' { run with
      heap := run.heap.malloc items.length, copies := run.copies ++ items.filterMap copyOf } ∧
    LastCopy run.heap items ret ret' := by
  induction items generalizing ret run with
  | nil => exact ⟨ret, by simp [copyReturns, Heap.malloc_zero], rfl⟩
  | cons item next ih =>
    obtain ⟨hitem, hnext⟩ := List.forall_mem_cons.mp h
    obtain ⟨copy, hcopy⟩ := Option.isSome_iff_exists.mp hitem
    obtain ⟨ret', hrun, hlast⟩ := ih hnext (some ⟨run.heap.allocated, copy⟩)
      { run with heap := run.heap.malloc 1, copies := run.copies ++ [copy] }
    refine ⟨ret', ?_, ?_⟩
    · rw [run_copy_some hcopy, hrun]
      simp only [Heap.malloc_malloc, List.filterMap_cons_some hcopy, List.length_cons,
        List.append_assoc, List.singleton_append, Nat.add_comm 1]
    · cases next with
      | nil => exact ⟨copy, hcopy, hlast⟩
      | cons second next =>
        simp only [LastCopy, List.getLast?_cons_cons, Heap.allocated_malloc, List.length_cons,
          Nat.add_sub_cancel, Nat.add_assoc, Nat.add_comm 1] at hlast ⊢
        exact hlast

theorem copyReturns_null {items : List CJson} (h : ∃ item ∈ items, copyOf item = none)
    (ret : Option (Ptr (List UInt8))) (run : Run) :
    ∃ use run', (copyReturns items ret).run run = .error use run' := by
  induction items generalizing ret run with
  | nil => simp at h
  | cons item next ih =>
    cases hcopy : copyOf item with
    | none => exact run_copy_none hcopy next ret run
    | some copy =>
      obtain ⟨bad, hmem, hbad⟩ := h
      rw [run_copy_some hcopy]
      rcases List.mem_cons.mp hmem with rfl | hmem
      · rw [hcopy] at hbad
        cases hbad
      · exact ih ⟨bad, hmem, hbad⟩ _ _

-- ---------------------------------------------------------------------------
-- The outcome of i2cget
-- ---------------------------------------------------------------------------

def Answered (a : Answer) : Prop := a.ret = 0 ∧ 0 < a.statBufLen

instance (a : Answer) : Decidable (Answered a) := inferInstanceAs (Decidable (_ ∧ _))

def tree (a : Answer) : Option CJson := a.statBuf.bind CJson.parse

def stat (a : Answer) : Option (List UInt8) := memberString (tree a) "stat"

def returned (a : Answer) : List CJson :=
  if Answered a ∧ stat a = some (bytes "0") then elements (tree a) else []

/-- How `i2cget` ends: with a response it does not look at, after the copies, or
with a use of `NULL`. -/
inductive Got (a : Answer) (run : Run) :
    EStateM.Result NullUse Run (Option (Ptr (List UInt8))) → Prop
  | ignored (hans : ¬ Answered a) {statBuf : Option (Ptr (List UInt8))} {run' : Run}
    (hbuf : statBuf.map (·.value) = a.statBuf) (hcopies : run'.copies = run.copies)
    (hlive : ∀ live, run.heap.Live live → run'.heap.Live (blocks statBuf ++ live)) :
    Got a run (.ok none run')
  | done (hans : Answered a) (hstat : (stat a).isSome = true)
    (hret : ∀ item ∈ returned a, (copyOf item).isSome = true)
    {ret : Option (Ptr (List UInt8))} {heap : Heap} {run' : Run}
    (hlast : LastCopy heap (returned a) none ret)
    (hcopies : run'.copies = run.copies ++ (returned a).filterMap copyOf)
    (hlive : ∀ live, run.heap.Live live →
      run'.heap.Live (live ++ heap.fresh (returned a).length)) :
    Got a run (.ok ret run')
  | null (hans : Answered a)
    (hbad : stat a = none ∨ ∃ item ∈ returned a, copyOf item = none)
    (use : NullUse) (run' : Run) : Got a run (.error use run')

theorem getTree_dst (dev addr reg : List UInt8) (size : Int) :
    getObjectItem (some (getTree dev addr reg size)) (bytes "dst") = some (.string (bytes "rf")) :=
  rfl

theorem setTree_dst (dev addr reg : List UInt8) (size : Int) (data : Option (List UInt8)) :
    getObjectItem (some (setTree dev addr reg size data)) (bytes "dst") =
      some (.string (bytes "rf")) :=
  rfl

theorem returned_success {a : Answer} (hans : Answered a) (hstat : stat a = some (bytes "0")) :
    returned a = elements (tree a) :=
  if_pos ⟨hans, hstat⟩

theorem returned_failure {a : Answer} (hstat : stat a ≠ some (bytes "0")) : returned a = [] :=
  if_neg fun h => hstat h.2

theorem live_returned {heap₀ heap heap' : Heap} {statBuf : Option (Ptr α)} {root : Option (Ptr β)}
    (hbuf : ∀ live, heap₀.Live live → heap.Live (blocks statBuf ++ live))
    (hroot : ∀ live, heap.Live live → heap'.Live (blocks root ++ live)) (n : Nat) :
    ∀ live, heap₀.Live live →
      (freed statBuf (freed root (heap'.malloc n))).Live (live ++ heap'.fresh n) := by
  intro live hl
  have hall := (hroot _ (hbuf _ hl)).malloc n
  simp only [List.append_assoc] at hall
  exact live_freed (live_freed hall)

theorem Got.empty {a : Answer} {run run' : Run} {heap : Heap} (hans : Answered a)
    (hstat : (stat a).isSome = true) (hnil : returned a = []) (hcopies : run'.copies = run.copies)
    (hlive : ∀ live, run.heap.Live live → run'.heap.Live (live ++ heap.fresh 0)) :
    Got a run (.ok none run') := by
  have hlast : LastCopy heap (returned a) none none := by
    rw [hnil]
    exact rfl
  refine .done hans hstat ?_ hlast ?_ ?_
  · simp [hnil]
  · simp [hnil, hcopies]
  · rwa [hnil]

theorem i2cget_got (e : Bus) (dev addr reg : List UInt8) (size : Int) (run : Run) :
    Got (e.devTransfer (request e (getTree dev addr reg size))) run
      ((i2cget e dev addr reg size).run run) := by
  obtain ⟨statBuf, heap, hrun, hbuf, hlive⟩ := exchange_ran e (getTree_dst dev addr reg size) run
  simp only [i2cget, EStateM.run_bind, hrun]
  generalize e.devTransfer (request e (getTree dev addr reg size)) = a at *
  split
  · rename_i hans
    obtain ⟨root, heap', hparse, hroot, hlive'⟩ := cJSONParse_ran statBuf
      { run with heap := heap, requests := run.requests ++ [request e (getTree dev addr reg size)] }
    have htree : root.map (·.value) = tree a := by rw [hroot, hbuf, tree]
    have hfreed := live_returned hlive hlive'
    rw [EStateM.run_bind]
    simp only [hparse, htree]
    cases hstat : stat a with
    | none =>
      obtain ⟨use, huse⟩ := run_member_none hstat _ _
      rw [huse]
      exact .null hans (.inl hstat) _ _
    | some text =>
      have hsome : (stat a).isSome = true := Option.isSome_iff_exists.mpr ⟨text, hstat⟩
      rw [run_member_some hstat]
      by_cases hzero : text = bytes "0"
      · rw [if_neg (not_not_intro hzero), EStateM.run_bind, ← returned_success hans (hzero ▸ hstat)]
        by_cases hret : ∀ item ∈ returned a, (copyOf item).isSome = true
        · obtain ⟨ret, hcopies, hlast⟩ := copyReturns_ok hret none _
          rw [hcopies]
          exact .done hans hsome hret hlast rfl (hfreed _)
        · obtain ⟨item, hmem, hnone⟩ := by
            simpa only [not_forall, Option.not_isSome_iff_eq_none, exists_prop] using hret
          obtain ⟨use, run', huse⟩ := copyReturns_null ⟨item, hmem, hnone⟩ none _
          rw [huse]
          exact .null hans (.inr ⟨item, hmem, hnone⟩) _ _
      · have hnil : returned a = [] := returned_failure (by simpa [hstat] using hzero)
        rw [if_pos hzero]
        exact .empty hans hsome hnil rfl (hfreed 0)
  · rename_i hans
    exact .ignored hans hbuf rfl hlive

-- ---------------------------------------------------------------------------
-- The result law
-- ---------------------------------------------------------------------------

/-- A copy of the last element or `NULL`; no copy is longer than its block; and
everything but the result is freed once. -/
structure Lawful (a : Answer) (ret : Option (Ptr (List UInt8))) (run : Run) : Prop where
  returned : match (returned a).getLast? with
    | some item => ∃ p, ret = some p ∧ copyOf item = some p.value
    | none => ret = none
  copies : ∀ copy ∈ run.copies, copy.length ≤ 32
  freed : run.heap.Live (blocks ret)

def Meets (a : Answer) : EStateM.Result NullUse Run (Option (Ptr (List UInt8))) → Prop
  | .ok ret run => Lawful a ret run
  | .error _ _ => False

/-- A response that is not looked at comes without a buffer, one that is looked
at has a `"stat"`, and one that says success returns at most one element, whose
`"ret"` fits in the block. -/
structure Copyable (a : Answer) : Prop where
  buffer : ¬ Answered a → a.statBuf = none
  stat : Answered a → (stat a).isSome = true
  single : (returned a).length ≤ 1
  fits : ∀ item ∈ returned a, ∃ copy, copyOf item = some copy ∧ copy.length ≤ 32

theorem returned_of_ignored {a : Answer} (hans : ¬ Answered a) : returned a = [] :=
  if_neg fun h => hans h.1

theorem LastCopy.returned {heap : Heap} {items : List CJson} {ret : Option (Ptr (List UInt8))}
    (h : LastCopy heap items none ret) : match items.getLast? with
      | some item => ∃ p, ret = some p ∧ copyOf item = some p.value
      | none => ret = none := by
  unfold LastCopy at h
  split
  · rename_i item hitem
    rw [hitem] at h
    obtain ⟨copy, hcopy, rfl⟩ := h
    exact ⟨_, rfl, hcopy⟩
  · rename_i hitem
    rwa [hitem] at h

theorem LastCopy.blocks {heap : Heap} {items : List CJson} {ret : Option (Ptr (List UInt8))}
    (h : LastCopy heap items none ret) (hlen : items.length ≤ 1) :
    I2c.blocks ret = heap.fresh items.length := by
  cases items with
  | nil =>
    obtain rfl : ret = none := h
    rfl
  | cons item next =>
    obtain rfl : next = [] := List.eq_nil_of_length_eq_zero (Nat.le_zero.mp (Nat.le_of_succ_le_succ hlen))
    obtain ⟨copy, -, rfl⟩ := h
    rfl

theorem length_blocks_le (p : Option (Ptr α)) : (blocks p).length ≤ 1 := by
  cases p with
  | none => exact Nat.zero_le 1
  | some p => exact Nat.le_refl 1

variable {a : Answer} {r : EStateM.Result NullUse Run (Option (Ptr (List UInt8)))}

theorem Got.lawful (h : Got a .start r) (hc : Copyable a) : Meets a r := by
  cases h with
  | ignored hans hbuf hcopies hlive =>
    refine ⟨by rw [returned_of_ignored hans]; rfl, by rw [hcopies]; nofun, ?_⟩
    rw [hc.buffer hans, Option.map_eq_none_iff] at hbuf
    have hl := hlive [] Heap.live_empty
    rwa [hbuf] at hl
  | @done hans hstat hret ret heap run' hlast hcopies hlive =>
    refine ⟨hlast.returned, ?_, ?_⟩
    · intro copy hmem
      rw [hcopies] at hmem
      obtain ⟨item, hitem, hcopy⟩ := List.mem_filterMap.mp hmem
      obtain ⟨copy', hcopy', hle⟩ := hc.fits item hitem
      obtain rfl := Option.some.inj (hcopy.symm.trans hcopy')
      exact hle
    · rw [hlast.blocks hc.single]
      exact hlive [] Heap.live_empty
  | null hans hbad =>
    rcases hbad with hnone | ⟨item, hitem, hnone⟩
    · exact absurd (hc.stat hans) (by rw [hnone]; nofun)
    · obtain ⟨copy, hcopy, -⟩ := hc.fits item hitem
      cases hnone.symm.trans hcopy

theorem Got.copyable (h : Got a .start r) (hm : Meets a r) : Copyable a := by
  cases h with
  | @ignored hans statBuf run' hbuf hcopies hlive =>
    have hnil := returned_of_ignored hans
    refine ⟨fun _ => ?_, fun h => absurd h hans, by rw [hnil]; exact Nat.zero_le 1,
      by rw [hnil]; nofun⟩
    -- the buffer is still live, and the result is `NULL`
    have hperm := (hlive [] Heap.live_empty).unique hm.freed
    cases statBuf with
    | none => exact hbuf.symm
    | some p => cases hperm.length_eq
  | @done hans hstat hret ret heap run' hlast hcopies hlive =>
    refine ⟨fun h => absurd hans h, fun _ => hstat, ?_, fun item hitem => ?_⟩
    · have hperm := (hlive [] Heap.live_empty).unique hm.freed
      have hlen := hperm.length_eq
      rw [List.nil_append, Heap.length_fresh] at hlen
      rw [hlen]
      exact length_blocks_le ret
    · obtain ⟨copy, hcopy⟩ := Option.isSome_iff_exists.mp (hret item hitem)
      refine ⟨copy, hcopy, hm.copies copy ?_⟩
      rw [hcopies]
      exact List.mem_filterMap.mpr ⟨item, hitem, hcopy⟩
  | null => exact hm.elim

/-- `i2cget` keeps the law if and only if its answer is one that it can copy. -/
theorem i2cget_lawful_iff (e : Bus) (dev addr reg : List UInt8) (size : Int) :
    Meets (e.devTransfer (request e (getTree dev addr reg size)))
      ((i2cget e dev addr reg size).run .start) ↔
      Copyable (e.devTransfer (request e (getTree dev addr reg size))) :=
  have hgot := i2cget_got e dev addr reg size .start
  ⟨hgot.copyable, hgot.lawful⟩

def Bus.answering (response : List UInt8) : Bus where
  devTransfer _ := ⟨0, some response, response.length⟩
  printNumber := id

/-- The third block is the response, the fourth its tree and the fifth the copy. -/
example : (match (i2cget (.answering (bytes "\x7b\"stat\":\"0\",\"return\":[\x7b\"ret\":\"0x19\"\x7d]\x7d"))
    (bytes "/dev/i2c-1") (bytes "0x28") (bytes "0x00") 2).run .start with
  | .ok ret run => decide (ret.map (·.value) = some (bytes "0x19" ++ [0]) ∧ run.heap.Live [4])
  | .error _ _ => false) = true := by decide +kernel

theorem notJson_misses : ¬ ∀ e dev addr reg size,
    Meets (e.devTransfer (request e (getTree dev addr reg size)))
      ((i2cget e dev addr reg size).run .start) := by
  intro h
  have hmeets := h (.answering (bytes "busy")) (bytes "/dev/i2c-1") (bytes "0x28") (bytes "0x00") 2
  have hc := (i2cget_got _ _ _ _ _ _).copyable hmeets
  have hstat : (stat ⟨0, some (bytes "busy"), 4⟩).isSome = true := hc.stat (by decide)
  revert hstat
  decide +kernel

end DevAdapter.I2c

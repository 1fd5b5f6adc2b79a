import DevAdapter.Broker.ExactlyOnce
import DevAdapter.Broker.RoundTrip
import DevAdapter.Broker.Transfer

/-!
# Responses nobody waits for

`message_callback` looks for a waiter first, and offers what none takes to every
registered callback, a response as well as any other message. One that comes
when its requester has given up is taken for a request by each filter that
matches its topic, as that of a callback without a type does.
-/

namespace DevAdapter.Broker

open Transition

/-- The second loop of `message_callback` for a message that no waiter took. -/
def Message.delivery (matchesSub : List Char → List Char → Bool) (m : Message)
    (cbList : List Entry) (ret : Int) : Delivery where
  matchesSub := matchesSub
  cbList := cbList
  topic := m.topic
  payload := m.payload
  ret := ret

/-- Where `message_callback` is: before its first loop, behind it with `found`
set, or in its second loop. -/
inductive Handling
  | first
  | found (c : Nat) (s : Transfers)
  | second (s : Transfers) (ds : Dispatch)

/-- The first loop, in which `xmalloc` succeeds or not, and the statements of the
second one with those of its threads. -/
inductive HandlingAct
  | first (alloc : Bool)
  | second (act : DispatchAct)

def Handling.step (src : List Char) (d : Delivery) (s : Transfers) (i : Nat) :
    Handling → HandlingAct → Option Handling
  | .first, .first alloc => (s.message d.matchesSub src i alloc).map fun s' =>
    match s'.waking with
    | some c => .found c s'
    | none => .second s' (.init d)
  -- `if(!found)`
  | .second s' ds, .second act => (ds.step d act).map (.second s')
  | .first, .second _ | .found _ _, _ | .second _ _, .first _ => none

def Handling.invoked : Handling → List Invocation
  | .first | .found _ _ => []
  | .second _ ds => ds.invoked

/-- `message_callback` for the message `i` of those in flight. -/
def messageCallback (src : List Char) (d : Delivery) (s : Transfers) (i : Nat) :
    Machine Handling HandlingAct :=
  ⟨.first, Handling.step src d s i⟩

namespace Transfers

section

variable (matchesSub : List Char → List Char → Bool) (src : List Char) (cbList : List Entry)
  (s : Transfers) (i : Nat) (m : Message)

/-- `message_callback` stores the message for a linked waiter and goes on to wake it. -/
def HandedTo (c : Nat) : Prop :=
  c ∈ s.srvList ∧ ∀ alloc, ∃ s', s.message matchesSub src i alloc = some s' ∧ s'.waking = some c ∧
    (s'.calls c).handed = (s.calls c).handed ++ [m]

/-- The message is handed to a waiter, or none takes it, and no callback is ever
invoked with it, whatever `ret` holds. -/
def TakenOrDropped : Prop :=
  ((∃ c, HandedTo matchesSub src s i m c) ∨ s.found matchesSub src m.topic = none) ∧
    ∀ ret h, (messageCallback src (m.delivery matchesSub cbList ret) s i).Reaches h → h.invoked = []

/-- Some call waits and the respond filter matches, or no registered filter does. -/
def Expected : Prop :=
  (s.srvList ≠ [] ∧ matchesSub (respondTopic src) m.topic = true) ∨
    ∀ dev ∈ cbList, matchesSub dev.topic m.topic = false

instance : Decidable (Expected matchesSub src cbList s m) := inferInstanceAs (Decidable (_ ∨ _))

end

end Transfers

-- ---------------------------------------------------------------------------
-- The registered callbacks
-- ---------------------------------------------------------------------------

namespace Dispatch

variable {d : Delivery}

theorem invoked_nil (hno : ∀ dev ∈ d.cbList, d.hears dev = false)
    (h : (dispatch d).Reaches s) : s.invoked = [] := by
  refine List.eq_nil_iff_forall_not_mem.mpr fun v hv => ?_
  obtain ⟨dev, ⟨hdev, hmatches⟩, -⟩ := (orderly h).invoked v hv
  rw [hno dev (List.mem_of_getElem? hdev)] at hmatches
  cases hmatches

theorem reaches_test {i : Nat} (hle : i ≤ d.cbList.length)
    (hno : ∀ j < i, ∀ dev, d.cbList[j]? = some dev → d.hears dev = false) :
    (dispatch d).Reaches { Dispatch.init d with pc := .test i } := by
  induction i with
  | zero => exact .init
  | succ i ih =>
    have hreach := ih (Nat.le_of_succ_le hle) fun j hj => hno j (Nat.lt_succ_of_lt hj)
    have hdev := List.getElem?_eq_getElem hle
    have hskip := hno i (Nat.lt_succ_self i) _ hdev
    refine .step (a := .callback true) hreach trivial ?_
    simp only [dispatch, step, callbackStep, hdev, hskip]
    rfl

/-- Where the allocation for a matching entry fails, `message_callback` calls its
callback itself. -/
theorem exists_invoked {i : Nat} {dev : Entry} (hdev : d.cbList[i]? = some dev)
    (hmatches : d.hears dev = true)
    (hno : ∀ j < i, ∀ dev, d.cbList[j]? = some dev → d.hears dev = false) :
    ∃ s, (dispatch d).Reaches s ∧ s.invoked = [d.invocation i dev] := by
  have hle := (List.getElem?_eq_some_iff.mp hdev).1
  have htest := reaches_test (Nat.le_of_lt hle) hno
  have hrun : (dispatch d).runFrom { Dispatch.init d with pc := .test i }
      [.callback true, .callback false, .callback true, .callback true] =
      some { Dispatch.init d with pc := .test (i + 1), invoked := [d.invocation i dev] } := by
    simp [Machine.runFrom, dispatch, step, callbackStep, hdev, hmatches, init]
  exact ⟨_, Machine.runFrom_reaches htest (Machine.along_always _ _) hrun, rfl⟩

theorem never_invoked_iff : (∀ s, (dispatch d).Reaches s → s.invoked = []) ↔
    ∀ dev ∈ d.cbList, d.hears dev = false := by
  refine ⟨fun h => ?_, fun hno s hs => invoked_nil hno hs⟩
  have hall : ∀ (i : Nat) (dev : Entry), d.cbList[i]? = some dev →
      d.hears dev = false := by
    intro i
    induction i using Nat.strongRecOn with
    | ind i ih =>
      intro dev hdev
      refine Bool.eq_false_iff.mpr fun hmatches => ?_
      obtain ⟨s, hs, hinvoked⟩ := exists_invoked hdev hmatches ih
      rw [h s hs] at hinvoked
      cases hinvoked
  intro dev hdev
  obtain ⟨i, hi⟩ := List.getElem?_of_mem hdev
  exact hall i dev hi

end Dispatch

-- ---------------------------------------------------------------------------
-- The waiters
-- ---------------------------------------------------------------------------

namespace Transfers

variable {matchesSub : List Char → List Char → Bool} {src : List Char} {cbList : List Entry}
  {s : Transfers} {m : Message}

/-- All waiters wait for the same filter, so the first of them is found, if any. -/
theorem found_eq (matchesSub : List Char → List Char → Bool) (src : List Char) (s : Transfers)
    (topic : List Char) :
    s.found matchesSub src topic =
      if matchesSub (respondTopic src) topic then s.srvList.head? else none := by
  rw [found]
  cases s.srvList with
  | nil => simp
  | cons c cs => cases matchesSub (respondTopic src) topic <;> simp

theorem found_isSome_iff (topic : List Char) : (∃ c, s.found matchesSub src topic = some c) ↔
    s.srvList ≠ [] ∧ matchesSub (respondTopic src) topic = true := by
  rw [found_eq]
  cases s.srvList with
  | nil => simp
  | cons c cs => simp

theorem message_waking (hm : s.flight[i]? = some m) (hidle : s.waking = none)
    (h : s.message matchesSub src i alloc = some s') :
    s'.waking = s.found matchesSub src m.topic := by
  simp only [Transfers.message, hidle, hm] at h
  split at h <;> obtain rfl := Option.some.inj h <;> rename_i hfound
  · exact hfound.symm
  · exact hfound.symm

theorem handedTo_of_found (hm : s.flight[i]? = some m) (hidle : s.waking = none)
    (hfound : s.found matchesSub src m.topic = some c) : HandedTo matchesSub src s i m c := by
  refine ⟨List.mem_of_find?_eq_some hfound, fun alloc => ?_⟩
  refine ⟨_, by simp only [Transfers.message, hidle, hm, hfound]; rfl, rfl, ?_⟩
  simp

/-- `message_callback` comes to its second loop behind the first one, or stays in it. -/
theorem step_second {d : Delivery} (h : Handling.step src d s i place act = some (.second s' ds)) :
    (∃ alloc, s.message d.matchesSub src i alloc = some s' ∧ s'.waking = none ∧ ds = .init d) ∨
      ∃ ds₀ act', place = .second s' ds₀ ∧ ds₀.step d act' = some ds := by
  cases place with
  | first =>
    cases act with
    | second => cases h
    | first alloc =>
      obtain ⟨s₁, hmessage, heq⟩ := Option.map_eq_some_iff.mp h
      cases hwaking : s₁.waking with
      | some c =>
        simp only [hwaking] at heq
        cases heq
      | none =>
        simp only [hwaking] at heq
        cases heq
        exact .inl ⟨alloc, hmessage, hwaking, rfl⟩
  | found => cases h
  | second s₀ ds₀ =>
    cases act with
    | first => cases h
    | second act =>
      obtain ⟨ds₁, hstep, heq⟩ := Option.map_eq_some_iff.mp h
      cases heq
      exact .inr ⟨ds₀, act, rfl, hstep⟩

/-- The second loop is run for a message that no waiter took, and for no other. -/
theorem handling_reaches {d : Delivery} (hm : s.flight[i]? = some m) (hidle : s.waking = none)
    (h : (messageCallback src d s i).Reaches place) : ∀ s' ds, place = .second s' ds →
      s.found d.matchesSub src m.topic = none ∧ (dispatch d).Reaches ds := by
  refine h.invariant (I := fun place => ∀ s' ds, place = .second s' ds →
    s.found d.matchesSub src m.topic = none ∧ (dispatch d).Reaches ds) (fun _ _ => nofun) ?_
  rintro place act _ - hi - hs s' ds rfl
  rcases step_second hs with ⟨alloc, hmessage, hwaking, rfl⟩ | ⟨ds₀, act', rfl, hstep⟩
  · exact ⟨(message_waking hm hidle hmessage).symm.trans hwaking, .init⟩
  · obtain ⟨hfound, hds⟩ := hi s' ds₀ rfl
    exact ⟨hfound, .step hds trivial hstep⟩

theorem reaches_second {d : Delivery} (hm : s.flight[i]? = some m) (hidle : s.waking = none)
    (hfound : s.found d.matchesSub src m.topic = none) (h : (dispatch d).Reaches ds) :
    (messageCallback src d s i).Reaches
      (.second { s with flight := s.flight.eraseIdx i } ds) := by
  refine h.invariant (I := fun ds => (messageCallback src d s i).Reaches
    (.second { s with flight := s.flight.eraseIdx i } ds)) ?_ ?_
  · refine .step (a := .first true) .init trivial ?_
    have hmessage : s.message d.matchesSub src i true =
        some { s with flight := s.flight.eraseIdx i } := by
      simp only [Transfers.message, hidle, hm, hfound]
    simp only [messageCallback, Handling.step, hmessage, Option.map_some, hidle]
    rfl
  · intro ds act ds' _ hi _ hs
    refine .step (a := .second act) hi trivial ?_
    exact Option.map_eq_some_iff.mpr ⟨ds', hs, rfl⟩

/-- A message on any topic is handed to a waiter or dropped if and only if a call
waits for it or no registered filter matches it. -/
theorem taken_or_dropped_iff (hm : s.flight[i]? = some m) (hidle : s.waking = none) :
    TakenOrDropped matchesSub src cbList s i m ↔ Expected matchesSub src cbList s m := by
  have hdropped : ∀ ret, (∀ ds, (dispatch (m.delivery matchesSub cbList ret)).Reaches ds →
      ds.invoked = []) ↔ ∀ dev ∈ cbList, matchesSub dev.topic m.topic = false :=
    fun _ => Dispatch.never_invoked_iff
  constructor
  · rintro ⟨-, hsilent⟩
    refine or_iff_not_imp_left.mpr fun hno => (hdropped 0).mp fun ds hds => ?_
    have hfound : s.found matchesSub src m.topic = none :=
      Option.eq_none_iff_forall_ne_some.mpr fun c hc => hno ((found_isSome_iff _).mp ⟨c, hc⟩)
    exact hsilent 0 _ (reaches_second hm hidle hfound hds)
  · intro hexpected
    refine ⟨?_, fun ret h hr => ?_⟩
    · cases hfound : s.found matchesSub src m.topic with
      | none => exact .inr rfl
      | some c => exact .inl ⟨c, handedTo_of_found hm hidle hfound⟩
    · cases h with
      | first | found => rfl
      | second s' ds =>
        obtain ⟨hnone, hds⟩ := handling_reaches hm hidle hr s' ds rfl
        refine (hdropped ret).mpr (hexpected.resolve_left fun hwaits => ?_) ds hds
        obtain ⟨c, hc⟩ := (found_isSome_iff _).mpr hwaits
        cases hnone.symm.trans hc

def lateResponse : Message := ⟨responseText ['d', 'e', 'v'] ['r', 'f'] 7, [1], 0⟩

def stillWaiting : Transfers :=
  { (Transfers.init.call ['r', 'f']) with flight := [lateResponse] }

theorem stillWaiting_taken :
    TakenOrDropped Mqtt.topicMatches ['d', 'e', 'v'] [⟨callbackTopic ['d', 'e', 'v'] none, 0⟩]
      stillWaiting 0 lateResponse :=
  (taken_or_dropped_iff rfl rfl).mpr (by decide +kernel)

/-- The requester has given up, and a callback is registered without a type. -/
theorem lateResponse_invokes : ¬ ∀ src cbList (s : Transfers) i m, s.flight[i]? = some m →
    s.waking = none → TakenOrDropped Mqtt.topicMatches src cbList s i m := by
  intro h
  have hresponse := h ['d', 'e', 'v'] [⟨callbackTopic ['d', 'e', 'v'] none, 0⟩]
    { Transfers.init with flight := [lateResponse] } 0 lateResponse rfl rfl
  have hsilent : ∀ ds, (dispatch (lateResponse.delivery Mqtt.topicMatches
      [⟨callbackTopic ['d', 'e', 'v'] none, 0⟩] 0)).Reaches ds → ds.invoked = [] := fun ds hds =>
    hresponse.2 0 _ (reaches_second (m := lateResponse) rfl rfl rfl hds)
  have hno : (Delivery.hears _ _) = false := Dispatch.never_invoked_iff.mp hsilent _
    (List.mem_singleton_self _)
  revert hno
  decide +kernel

end Transfers

end DevAdapter.Broker

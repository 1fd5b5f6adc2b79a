import DevAdapter.Broker.Transfer

/-!
# Responses and the requests they answer

`message_callback` does not look at who a response is for. It reaches its own
call, and is the only one that does, as long as the first waiter of the list is
the one it is for and has had no response before it.
-/

namespace DevAdapter.Broker

open Function (update)
open Transition

namespace Transfers

/-- A response arrives only while no call waits or the first waiter, not woken
yet, is the one it is for, and `xmalloc` succeeds; the wait ends with 0 only
after a response was stored; and a call is not given memory in which
`message_callback` is about to wake another one. -/
def FirstAnswered (matchesSub : List Char → List Char → Bool) (src : List Char) (s : Transfers) :
    TransferAct → Prop
  | .message i alloc => ∀ m ∈ s.flight[i]?, ∀ c ∈ s.found matchesSub src m.topic,
      c = m.answers ∧ (s.calls c).mid = 1 ∧ alloc = true
  | .awake c timedOut => timedOut = false → (s.calls c).buf ≠ none
  | .call _ reused => reused = false
  | _ => True

instance (matchesSub : List Char → List Char → Bool) (src : List Char) (s : Transfers) :
    (act : TransferAct) → Decidable (FirstAnswered matchesSub src s act)
  | .message i _ => inferInstanceAs (Decidable (∀ m ∈ s.flight[i]?, _))
  | .awake _ _ => inferInstanceAs (Decidable (_ → _))
  | .call _ _ => inferInstanceAs (Decidable (_ = _))
  | .publish _ | .sent _ _ | .lock _ | .unlink _ | .respond _ _ | .wake => isTrue trivial

/-- Each response goes to the call it is for, no call is handed a second one,
and a call that returns 0 returns the response to its request. -/
structure Correlated (src : List Char) (s : Transfers) : Prop where
  own : ∀ c, ∀ m ∈ (s.calls c).handed, m.answers = c
  once : ∀ c, (s.calls c).handed.length ≤ 1
  returned : ∀ c buf len, (s.calls c).pc = .returned (some (buf, len)) →
    ∃ m ∈ (s.calls c).handed, m.topic = responseTopic src (s.calls c) ∧
      buf = some m.payload ∧ len = m.payload.length

-- ---------------------------------------------------------------------------
-- The invariant
-- ---------------------------------------------------------------------------

/-- What holds of the `struct dev_priv` of call `c`; `message_callback` is about
to wake `waker`. -/
structure Served (src : List Char) (waker : Option Nat) (c : Nat) (t : Transfer) : Prop where
  mid : t.mid ≤ 1
  fresh : t.handed = [] → t.buf = none ∧ t.mid = 1
  stored : t.handed ≠ [] → ∃ m, t.handed = [m] ∧ m.answers = c ∧ m.topic = responseTopic src t ∧
    t.buf = some m.payload ∧ t.bufLen = m.payload.length
  woken : t.handed ≠ [] → t.mid = 0 ∨ waker = some c
  unlink : t.pc = .unlink true → t.handed ≠ []
  returned : ∀ out, t.pc = .returned (some out) → t.handed ≠ [] ∧ out = (t.buf, t.bufLen)

structure AllServed (src : List Char) (s : Transfers) : Prop where
  calls : ∀ c, Served src s.waking c (s.calls c)
  flight : ∀ m ∈ s.flight, m.answers < s.called ∧
    m.topic = responseTopic src (s.calls m.answers)
  waking : ∀ c, s.waking = some c → c < s.called ∧ (s.calls c).handed ≠ []
  uncalled : ∀ c, s.called ≤ c → s.calls c = .absent

theorem allServed_init (src : List Char) : AllServed src .init where
  calls _ := ⟨Nat.le_refl _, fun _ => ⟨rfl, rfl⟩, nofun, nofun, nofun, fun _ => nofun⟩
  flight _ := nofun
  waking _ := nofun
  uncalled _ _ := rfl

variable {matchesSub : List Char → List Char → Bool} {src : List Char} {s s' : Transfers}

theorem Served.move {t : Transfer} (hi : Served src waker c t) {pc : TransferPc}
    {requested : Bool} (hunlink : pc = .unlink true → t.handed ≠ [])
    (hreturned : ∀ out, pc = .returned (some out) → t.handed ≠ [] ∧ out = (t.buf, t.bufLen)) :
    Served src waker c { t with pc := pc, requested := requested } :=
  ⟨hi.mid, hi.fresh, hi.stored, hi.woken, hunlink, hreturned⟩

theorem AllServed.began (hi : AllServed src s) (h : (s.calls c).pc ≠ .absent) : c < s.called := by
  by_contra hc
  rw [hi.uncalled c (Nat.not_lt.mp hc)] at h
  exact h rfl

theorem AllServed.flight_update (hi : AllServed src s) {t : Transfer}
    (ht : responseTopic src t = responseTopic src (s.calls c)) (m : Message) (hm : m ∈ s.flight) :
    m.answers < s.called ∧ m.topic = responseTopic src (update s.calls c t m.answers) := by
  obtain ⟨hlt, htopic⟩ := hi.flight m hm
  exact ⟨hlt, htopic.trans (map_update (responseTopic src) _ ht).symm⟩

theorem AllServed.uncalled_update (hi : AllServed src s) (hc : c < s.called) (t : Transfer) (q : Nat)
    (hq : s.called ≤ q) : update s.calls c t q = .absent := by
  rw [Function.update_of_ne (Nat.ne_of_gt (Nat.lt_of_lt_of_le hc hq))]
  exact hi.uncalled q hq

theorem AllServed.move (hi : AllServed src s) (pc : TransferPc) (requested : Bool)
    (hpc : (s.calls c).pc ≠ .absent) (hunlink : pc = .unlink true → (s.calls c).handed ≠ [])
    (hreturned : ∀ out, pc = .returned (some out) →
      (s.calls c).handed ≠ [] ∧ out = ((s.calls c).buf, (s.calls c).bufLen)) :
    AllServed src (s.setCall c { s.calls c with pc := pc, requested := requested }) := by
  refine ⟨?_, hi.flight_update (by rfl), fun q hq => ?_, hi.uncalled_update (hi.began hpc) _⟩
  · simp only [Transfers.setCall]
    rw [Function.forall_update_iff s.calls fun q t => Served src s.waking q t]
    exact ⟨(hi.calls c).move hunlink hreturned, fun q _ => hi.calls q⟩
  · obtain ⟨hlt, hhanded⟩ := hi.waking q hq
    have hsame := map_update (f := s.calls) (a := c)
      (b := { s.calls c with pc := pc, requested := requested }) Transfer.handed q rfl
    exact ⟨hlt, fun hnone => hhanded (hsame.symm.trans hnone)⟩

-- ---------------------------------------------------------------------------
-- Steps of the calls
-- ---------------------------------------------------------------------------

theorem AllServed.call (hi : AllServed src s) (dst : List Char) : AllServed src (s.call dst) := by
  have hold : ∀ c, c < s.called → (s.call dst).calls c = s.calls c :=
    fun c hc => Function.update_of_ne (Nat.ne_of_lt hc) _ _
  refine ⟨?_, fun m hm => ?_, fun c hc => ?_, fun c hc => ?_⟩
  · simp only [Transfers.call]
    rw [Function.forall_update_iff s.calls fun q t => Served src s.waking q t]
    exact ⟨⟨Nat.le_refl _, fun _ => ⟨rfl, rfl⟩, nofun, nofun, nofun, fun _ => nofun⟩,
      fun q _ => hi.calls q⟩
  · obtain ⟨hlt, htopic⟩ := hi.flight m hm
    exact ⟨Nat.lt_succ_of_lt hlt, by rw [hold _ hlt]; exact htopic⟩
  · obtain ⟨hlt, hhanded⟩ := hi.waking c hc
    exact ⟨Nat.lt_succ_of_lt hlt, by rw [hold _ hlt]; exact hhanded⟩
  · have hne : c ≠ s.called := Nat.ne_of_gt hc
    simpa [Transfers.call, hne] using hi.uncalled c (Nat.le_of_succ_le hc)

theorem AllServed.publish (hi : AllServed src s) (h : s.publish c = some s') :
    AllServed src s' := by
  unfold Transfers.publish at h
  split at h <;> cases h
  rename_i hpc
  exact hi.move _ _ (by rw [hpc]; exact nofun) nofun fun _ => nofun

theorem AllServed.sent (hi : AllServed src s) (h : s.sent c ok = some s') : AllServed src s' := by
  unfold Transfers.sent at h
  split at h <;> cases h <;> rename_i hpc <;>
    exact hi.move _ _ (by rw [hpc]; exact nofun) nofun fun _ => nofun

theorem AllServed.lock (hi : AllServed src s) (h : s.lock c = some s') : AllServed src s' := by
  unfold Transfers.lock at h
  split at h <;> cases h
  rename_i hpc
  refine hi.move _ _ (by rw [hpc]; exact nofun) (fun hunlink hnone => ?_) fun out hout => ?_
  · -- a waiter that is woken already was handed a response
    rw [((hi.calls c).fresh hnone).2] at hunlink
    cases hunlink
  · split at hout <;> cases hout

theorem AllServed.awake (hi : AllServed src s)
    (hc : FirstAnswered matchesSub src s (.awake c timedOut)) (h : s.awake c timedOut = some s') : AllServed src s' := by
  unfold Transfers.awake at h
  split at h <;> cases h
  rename_i hpc
  refine hi.move _ _ (by rw [hpc]; exact nofun) (fun hunlink hnone => ?_) fun _ => nofun
  have hret : timedOut = false := by simpa using hunlink
  exact hc hret ((hi.calls c).fresh hnone).1

theorem AllServed.unlink (hi : AllServed src s) (h : s.unlink c = some s') : AllServed src s' := by
  unfold Transfers.unlink at h
  split at h <;> cases h
  rename_i ok hpc
  have hmove := hi.move (.returned
    (if ok then some ((s.calls c).buf, (s.calls c).bufLen) else none)) (s.calls c).requested
    (by rw [hpc]; exact nofun) nofun fun out hout => ?_
  · exact ⟨hmove.calls, hmove.flight, hmove.waking, hmove.uncalled⟩
  · cases ok with
    | true => exact ⟨(hi.calls c).unlink hpc, by simpa [eq_comm] using hout⟩
    | false => cases hout

theorem AllServed.respond (hi : AllServed src s) (h : s.respond src c payload = some s') :
    AllServed src s' := by
  unfold Transfers.respond at h
  split at h <;> cases h
  rename_i hreq
  refine ⟨hi.calls, fun m hm => ?_, hi.waking, hi.uncalled⟩
  rcases List.mem_append.mp hm with hm | hm
  · exact hi.flight m hm
  · rw [List.mem_singleton.mp hm]
    refine ⟨Nat.not_le.mp fun hle => ?_, rfl⟩
    rw [hi.uncalled c hle] at hreq
    cases hreq

-- ---------------------------------------------------------------------------
-- Steps of `message_callback`
-- ---------------------------------------------------------------------------

theorem AllServed.store (hi : AllServed src s) (hidle : s.waking = none) {m : Message}
    (hm : m.answers < s.called ∧ m.topic = responseTopic src (s.calls m.answers))
    (hmid : (s.calls m.answers).mid = 1) :
    AllServed src { s.setCall m.answers { s.calls m.answers with
      buf := some m.payload
      bufLen := m.payload.length
      handed := (s.calls m.answers).handed ++ [m] } with waking := some m.answers } := by
  have hnone : (s.calls m.answers).handed = [] := by
    by_contra hne
    rcases (hi.calls m.answers).woken hne with h | h
    · rw [hmid] at h
      cases h
    · rw [hidle] at h
      cases h
  have hcalls : ∀ q, Served src (some m.answers) q (update s.calls m.answers
      { s.calls m.answers with
        buf := some m.payload
        bufLen := m.payload.length
        handed := (s.calls m.answers).handed ++ [m] } q) := by
    rw [Function.forall_update_iff s.calls fun q t => Served src (some m.answers) q t]
    refine ⟨?_, fun q hq => ?_⟩
    · have hc := hi.calls m.answers
      refine ⟨hc.mid, by simp, fun _ => ⟨m, by simp [hnone], rfl, hm.2, rfl, rfl⟩,
        fun _ => .inr rfl, by simp, fun out hout => ?_⟩
      exact absurd hnone (hc.returned out hout).1
    · have hq' := hi.calls q
      refine ⟨hq'.mid, hq'.fresh, hq'.stored, fun hne => ?_, hq'.unlink, hq'.returned⟩
      have := hq'.woken hne
      rw [hidle] at this
      exact .inl (this.resolve_right nofun)
  refine ⟨hcalls, hi.flight_update (by rfl), fun q hq => ?_, hi.uncalled_update hm.1 _⟩
  rw [← Option.some.inj hq]
  exact ⟨hm.1, by simp⟩

theorem AllServed.message (hi : AllServed src s)
    (hc : FirstAnswered matchesSub src s (.message i alloc))
    (h : s.message matchesSub src i alloc = some s') : AllServed src s' := by
  unfold Transfers.message at h
  split at h
  · rename_i m hidle hflight
    have hm := hi.flight m (List.mem_of_getElem? hflight)
    have hrest : AllServed src { s with flight := s.flight.eraseIdx i } :=
      ⟨hi.calls, fun m' hm' => hi.flight m' (List.mem_of_mem_eraseIdx hm'), hi.waking,
        hi.uncalled⟩
    split at h <;> cases h
    · exact hrest
    · rename_i c hfound
      obtain ⟨rfl, hmid, rfl⟩ := hc m hflight c hfound
      exact hrest.store hidle hm hmid
  · cases h

theorem AllServed.wake (hi : AllServed src s) (h : s.wake = some s') : AllServed src s' := by
  unfold Transfers.wake at h
  split at h <;> cases h
  rename_i c hwaking
  obtain ⟨hlt, hhanded⟩ := hi.waking c hwaking
  have hcalls : ∀ q, Served src none q (update s.calls c { s.calls c with
      mid := if (s.calls c).mid = 1 then 0 else (s.calls c).mid } q) := by
    rw [Function.forall_update_iff s.calls fun q t => Served src none q t]
    refine ⟨?_, fun q hq => ?_⟩
    · have hc := hi.calls c
      have hmid : (if (s.calls c).mid = 1 then 0 else (s.calls c).mid) = 0 := by
        have := hc.mid
        split <;> omega
      rw [hmid]
      exact ⟨Nat.zero_le _, fun h => absurd h hhanded, hc.stored, fun _ => .inl rfl, hc.unlink,
        hc.returned⟩
    · have hq' := hi.calls q
      refine ⟨hq'.mid, hq'.fresh, hq'.stored, fun hne => ?_, hq'.unlink, hq'.returned⟩
      refine .inl ((hq'.woken hne).resolve_right fun h => hq ?_)
      exact Option.some.inj (h.symm.trans hwaking)
  exact ⟨hcalls, hi.flight_update (by rfl), nofun, hi.uncalled_update hlt _⟩

theorem AllServed.step (hi : AllServed src s) (hc : FirstAnswered matchesSub src s act)
    (h : (transfers matchesSub src).step s act = some s') : AllServed src s' := by
  cases act with
  | call dst reused =>
    obtain rfl : reused = false := hc
    cases h
    exact hi.call dst
  | publish c => exact hi.publish h
  | sent c ok => exact hi.sent h
  | lock c => exact hi.lock h
  | awake c timedOut => exact hi.awake hc h
  | unlink c => exact hi.unlink h
  | respond c payload => exact hi.respond h
  | message i alloc => exact hi.message hc h
  | wake => exact hi.wake h

-- ---------------------------------------------------------------------------
-- Runs
-- ---------------------------------------------------------------------------

theorem responses_correlated
    (h : (transfers matchesSub src).ReachesUnder (FirstAnswered matchesSub src) s) :
    Correlated src s := by
  have hi : AllServed src s :=
    h.invariant (allServed_init src) fun _ _ _ _ hi hc hs => hi.step hc hs
  refine ⟨fun c m hm => ?_, fun c => ?_, fun c buf len hpc => ?_⟩
  · obtain ⟨m', hone, howner, -⟩ := (hi.calls c).stored (List.ne_nil_of_mem hm)
    rw [hone] at hm
    rw [List.mem_singleton.mp hm]
    exact howner
  · by_cases hne : (s.calls c).handed = []
    · simp [hne]
    · obtain ⟨m, hone, -⟩ := (hi.calls c).stored hne
      simp [hone]
  · obtain ⟨hne, hout⟩ := (hi.calls c).returned _ hpc
    obtain ⟨m, hone, -, htopic, hbuf, hlen⟩ := (hi.calls c).stored hne
    obtain ⟨rfl, rfl⟩ := Prod.mk.inj hout
    exact ⟨m, by simp [hone], htopic, hbuf, hlen⟩

def oneByOne : List TransferAct :=
  [.call ['a'] false, .publish 0, .sent 0 true, .lock 0, .respond 0 [1], .message 0 true, .wake,
    .awake 0 false, .unlink 0,
    .call ['b'] false, .publish 1, .respond 1 [2], .message 0 true, .wake, .sent 1 true, .lock 1,
    .unlink 1]

theorem oneByOne_correlated :
    ∃ s, (transfers Mqtt.topicMatches ['s']).run oneByOne = some s ∧ Correlated ['s'] s := by
  obtain ⟨s, hs, hr⟩ := Machine.exists_run (M := transfers Mqtt.topicMatches ['s'])
    (C := FirstAnswered Mqtt.topicMatches ['s']) oneByOne (by decide +kernel) (by decide +kernel)
  exact ⟨s, hs, responses_correlated hr⟩

def secondAnsweredFirst : List TransferAct :=
  [.call ['a'] false, .call ['b'] false, .publish 0, .sent 0 true, .lock 0, .publish 1,
    .sent 1 true, .lock 1, .respond 1 [2], .message 0 true, .wake, .awake 0 false, .unlink 0]

theorem secondAnsweredFirst_mixed :
    ¬ ∀ src s, (transfers Mqtt.topicMatches src).Reaches s → Correlated src s := by
  intro h
  obtain ⟨s, hs, hp⟩ := Machine.exists_reaches (M := transfers Mqtt.topicMatches ['s'])
    (p := fun s => (s.calls 0).pc = .returned (some (some [2], 1)) &&
      (s.calls 0).handed.map Message.answers = [1]) secondAnsweredFirst (by decide +kernel)
  simp only [Bool.and_eq_true, decide_eq_true_eq] at hp
  have hi := h ['s'] s hs
  obtain ⟨m, hm, -⟩ := hi.returned 0 _ _ hp.1
  have hother : m.answers ∈ (s.calls 0).handed.map Message.answers := List.mem_map_of_mem hm
  rw [hp.2, hi.own 0 m hm] at hother
  cases hother with
  | tail _ h => cases h

end Transfers

end DevAdapter.Broker

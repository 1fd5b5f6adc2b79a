import DevAdapter.Lib.Machine
import Mathlib.Data.List.Nodup

/-!
# Acknowledgements of publishes

`__dev_send` links a waiter that lies on its stack, publishes, and waits until
`publish_callback` finds the waiter by its `mid` and sets that to 0. The compare
and the wake-up are two steps, and the wait is no loop: a wake-up without a
signal ends it, and a waiter found in time may be gone when it is woken, with
the waiter of a later call at its address. A call and the callback of its
publish are named by the number of calls before it, a waiter by its address.
-/

namespace DevAdapter.Broker

open Function (update)
open Transition

/-- Where a thread is in `__dev_send`; `ok` says that `ret` is 0. -/
inductive SendPc
  | absent
  | publish
  | lock
  | waiting
  | signalled
  | unlink (ok : Bool)
  | returned (ok : Bool)
  deriving DecidableEq, Repr

/-- The waiter lies on the stack of the call. -/
def SendPc.live : SendPc → Bool
  | .absent | .returned _ => false
  | .publish | .lock | .waiting | .signalled | .unlink _ => true

def SendPc.signal : SendPc → SendPc
  | .waiting => .signalled
  | pc => pc

/-- Where `publish_callback` is for a publish; `found` has compared the `mid`
of the waiter at an address. -/
inductive AckPc
  | idle
  | found (waiter : Nat)
  | done
  deriving DecidableEq, Repr

/-- A call of `__dev_send`, with the callback of its publish. -/
structure SendCall where
  pc : SendPc
  -- the address of its `waite_ack`
  waiter : Nat
  callback : AckPc
  -- trace: the id `mosquitto_publish` took for it, 0 for none, and what it returned
  mid : Nat
  accepted : Bool
  refused : Bool
  -- trace: the call whose callback cleared the `mid` of its waiter or woke it
  clearedBy : Option Nat
  -- trace: the callback was through before the call came to its wait
  early : Bool
  deriving DecidableEq, Repr

def SendCall.absent : SendCall where
  pc := .absent
  waiter := 0
  callback := .idle
  mid := 0
  accepted := false
  refused := false
  clearedBy := none
  early := false

/-- Other publishes do not get the id of this one. -/
def SendCall.inUse (t : SendCall) : Bool :=
  t.mid ≠ 0 && (t.accepted && t.callback ≠ .done || t.refused && t.pc.live)

structure PubAcks where
  calls : Nat → SendCall
  called : Nat
  -- `mid` of the waiter at an address, and the call it is of
  mid : Nat → Nat
  owner : Nat → Option Nat
  -- `pub_list`
  pubList : List Nat

/-- The steps of `__dev_send`, where `awake` is a return of 0 and `timeout` one
of `ETIMEDOUT` from `pthread_cond_timedwait`, and the two of `publish_callback`. -/
inductive PubAct
  | link (waiter : Nat)
  | publish (c : Nat) (ok : Bool) (mid : Nat)
  | lock (c : Nat)
  | awake (c : Nat)
  | timeout (c : Nat)
  | unlink (c : Nat)
  | callback (k : Nat)
  | wake (k : Nat)
  deriving DecidableEq, Repr

namespace PubAcks

def init : PubAcks where
  calls := fun _ => .absent
  called := 0
  mid := fun _ => 0
  owner := fun _ => none
  pubList := []

@[simp] def setCall (s : PubAcks) (c : Nat) (t : SendCall) : PubAcks :=
  { s with calls := update s.calls c t }

/-- `waite_ack_init`, the waiter being at an address where no other one is. -/
def link (s : PubAcks) (waiter : Nat) : Option PubAcks :=
  if s.owner waiter = none then
    some {
      calls := update s.calls s.called { SendCall.absent with pc := .publish, waiter := waiter }
      called := s.called + 1
      mid := update s.mid waiter 0
      owner := update s.owner waiter (some s.called)
      pubList := s.pubList ++ [s.called] }
  else none

/-- `mosquitto_publish` takes an id that is not in use, and may fail before or after. -/
def publish (s : PubAcks) (c : Nat) (ok : Bool) (mid : Nat) : Option PubAcks :=
  let t := s.calls c
  if t.pc = .publish ∧ (ok = true → mid ≠ 0) ∧
      (mid = 0 ∨ ∀ k ∈ List.range s.called, (s.calls k).inUse = true → (s.calls k).mid ≠ mid) then
    some { s.setCall c { t with
        pc := if ok then .lock else .unlink false, mid := mid, accepted := ok, refused := !ok } with
      mid := update s.mid t.waiter mid }
  else none

/-- `waite_ack_timeout` up to its wait. -/
def lock (s : PubAcks) (c : Nat) : Option PubAcks :=
  let t := s.calls c
  if t.pc = .lock then
    some (s.setCall c { t with pc := if s.mid t.waiter = 0 then .unlink true else .waiting })
  else none

def awake (s : PubAcks) (c : Nat) : Option PubAcks :=
  let t := s.calls c
  if t.pc = .waiting ∨ t.pc = .signalled then some (s.setCall c { t with pc := .unlink true })
  else none

def timeout (s : PubAcks) (c : Nat) : Option PubAcks :=
  let t := s.calls c
  if t.pc = .waiting then some (s.setCall c { t with pc := .unlink false }) else none

def unlink (s : PubAcks) (c : Nat) : Option PubAcks :=
  let t := s.calls c
  match t.pc with
  | .unlink ok =>
    some { s.setCall c { t with pc := .returned ok } with
      owner := update s.owner t.waiter none
      pubList := s.pubList.erase c }
  | _ => none

def finish (s : PubAcks) (k : Nat) : PubAcks :=
  let t := s.calls k
  s.setCall k { t with callback := .done, early := t.early || t.pc = .lock }

def callback (s : PubAcks) (k : Nat) : Option PubAcks :=
  let t := s.calls k
  if t.accepted = true ∧ t.callback = .idle then
    match s.pubList.find? fun c => s.mid (s.calls c).waiter = t.mid with
    | none => some (s.finish k)
    | some c => some (s.setCall k { t with callback := .found (s.calls c).waiter })
  else none

/-- The wake-up at an address: whatever call has its waiter there is woken. -/
def clear (s : PubAcks) (waiter k : Nat) : PubAcks :=
  let s' := { s with mid := update s.mid waiter 0 }
  match s.owner waiter with
  | none => s'
  | some c =>
    let t := s.calls c
    s'.setCall c { t with
      pc := t.pc.signal
      clearedBy := if s.mid waiter = 0 ∧ t.pc ≠ .waiting then t.clearedBy else some k }

def wake (s : PubAcks) (k : Nat) : Option PubAcks :=
  match (s.calls k).callback with
  | .found waiter => some ((s.clear waiter k).finish k)
  | _ => none

def step (s : PubAcks) : PubAct → Option PubAcks
  | .link waiter => s.link waiter
  | .publish c ok mid => s.publish c ok mid
  | .lock c => s.lock c
  | .awake c => s.awake c
  | .timeout c => s.timeout c
  | .unlink c => s.unlink c
  | .callback k => s.callback k
  | .wake k => s.wake k

end PubAcks

def pubAcks : Machine PubAcks PubAct := ⟨PubAcks.init, PubAcks.step⟩

namespace PubAcks

variable {s s' : PubAcks} {t : SendCall} {m : Nat}

-- ---------------------------------------------------------------------------
-- One call
-- ---------------------------------------------------------------------------

/-- A call beside the `mid` of its waiter: that is the id of its publish until
the callback clears it. -/
structure CallOk (t : SendCall) (m : Nat) : Prop where
  mid : t.pc.live = true → m ≠ 0 → m = t.mid ∧ t.inUse = true
  found : ∀ waiter, t.callback = .found waiter → t.waiter = waiter
  accepted : t.callback ≠ .idle → t.accepted = true
  nonzero : t.accepted = true → t.mid ≠ 0
  sent : t.accepted = true → t.pc ≠ .absent
  publish : t.pc = .publish → m = 0 ∧ t.accepted = false ∧ t.early = false
  refused : t.refused = true → t.pc = .unlink false ∨ t.pc = .returned false
  early : t.early = true → t.pc = .lock ∧ m = 0 ∨ t.pc = .unlink true ∨ t.pc = .returned true

theorem callOk_absent (m : Nat) : CallOk .absent m := by
  refine ⟨?_, ?_, ?_, ?_, ?_, ?_, ?_, ?_⟩ <;> exact nofun

theorem CallOk.dead (h : CallOk t m) (hdead : t.pc.live = false) (m' : Nat) : CallOk t m' where
  mid hlive := by rw [hdead] at hlive; cases hlive
  found := h.found
  accepted := h.accepted
  nonzero := h.nonzero
  sent := h.sent
  publish hpc := by rw [hpc] at hdead; cases hdead
  refused := h.refused
  early he := by
    rcases h.early he with ⟨hpc, -⟩ | hpc
    · rw [hpc] at hdead
      cases hdead
    · exact .inr hpc

theorem CallOk.zero (h : CallOk t m) : CallOk t 0 where
  mid _ hm := absurd rfl hm
  found := h.found
  accepted := h.accepted
  nonzero := h.nonzero
  sent := h.sent
  publish hpc := ⟨rfl, (h.publish hpc).2⟩
  refused := h.refused
  early he := (h.early he).imp_left fun hlock => ⟨hlock.1, rfl⟩

theorem CallOk.signal (h : CallOk t 0) (clearedBy : Option Nat) :
    CallOk { t with pc := t.pc.signal, clearedBy := clearedBy } 0 where
  mid _ hm := absurd rfl hm
  found := h.found
  accepted := h.accepted
  nonzero := h.nonzero
  sent ha := by
    have hpc := h.sent ha
    cases hold : t.pc <;> simp_all [SendPc.signal]
  publish hpc := by
    refine h.publish ?_
    cases hold : t.pc <;> simp_all [SendPc.signal]
  refused hr := by rcases h.refused hr with hpc | hpc <;> simp [hpc, SendPc.signal]
  early he := by rcases h.early he with ⟨hpc, -⟩ | hpc | hpc <;> simp [hpc, SendPc.signal]

theorem CallOk.finish (h : CallOk t m) (ha : t.accepted = true) (hm : t.pc.live = true → m = 0) :
    CallOk { t with callback := .done, early := t.early || t.pc = .lock } m where
  mid hlive hne := absurd (hm hlive) hne
  found := nofun
  accepted _ := ha
  nonzero := h.nonzero
  sent := h.sent
  publish hpc := by
    have hnot := (h.publish hpc).2.1
    rw [ha] at hnot
    cases hnot
  refused := h.refused
  early he := by
    rcases Bool.or_eq_true_iff.mp he with he | hlock
    · exact h.early he
    · have hpc : t.pc = .lock := of_decide_eq_true hlock
      exact .inl ⟨hpc, hm (by rw [hpc]; rfl)⟩

-- ---------------------------------------------------------------------------
-- All calls
-- ---------------------------------------------------------------------------

/-- What holds in every run: the list and the addresses are those of the calls
that have not returned, and ids in use are distinct. -/
structure Sound (s : PubAcks) : Prop where
  call : ∀ c, CallOk (s.calls c) (s.mid (s.calls c).waiter)
  list : ∀ c, c ∈ s.pubList ↔ (s.calls c).pc.live = true
  nodup : s.pubList.Nodup
  began : ∀ c, s.called ≤ c → s.calls c = .absent
  owner : ∀ waiter c, s.owner waiter = some c ↔
    (s.calls c).pc.live = true ∧ (s.calls c).waiter = waiter
  distinct : ∀ c d, (s.calls c).inUse = true → (s.calls d).inUse = true →
    (s.calls c).mid = (s.calls d).mid → c = d

theorem sound_init : Sound init where
  call _ := callOk_absent _
  list _ := by simp [init, SendCall.absent, SendPc.live]
  nodup := .nil
  began _ _ := rfl
  owner _ _ := by simp [init, SendCall.absent, SendPc.live]
  distinct _ _ h := by cases h

theorem Sound.lt_called (hi : Sound s) (h : (s.calls c).pc ≠ .absent) : c < s.called := by
  rcases Nat.lt_or_ge c s.called with hlt | hge
  · exact hlt
  · exact absurd (by rw [hi.began c hge]; rfl) h

theorem Sound.distinct_update (hi : Sound s)
    (hnew : t.inUse = true → ∀ d, d ≠ c → (s.calls d).inUse = true → (s.calls d).mid ≠ t.mid)
    (d e : Nat) (hd : (update s.calls c t d).inUse = true)
    (he : (update s.calls c t e).inUse = true)
    (hmid : (update s.calls c t d).mid = (update s.calls c t e).mid) : d = e := by
  rcases eq_or_ne d c with rfl | hdc
  · rcases eq_or_ne e d with rfl | hed
    · rfl
    · rw [Function.update_self] at hd hmid
      rw [Function.update_of_ne hed] at he hmid
      exact absurd hmid.symm (hnew hd e hed he)
  · rw [Function.update_of_ne hdc] at hd hmid
    rcases eq_or_ne e c with rfl | hec
    · rw [Function.update_self] at he hmid
      exact absurd hmid (hnew he d hdc hd)
    · rw [Function.update_of_ne hec] at he hmid
      exact hi.distinct d e hd he hmid

theorem Sound.began_update (hi : Sound s) (hc : c < s.called) (t : SendCall) (d : Nat)
    (hd : s.called ≤ d) : update s.calls c t d = .absent := by
  rw [Function.update_of_ne (Nat.ne_of_gt (Nat.lt_of_lt_of_le hc hd))]
  exact hi.began d hd

theorem Sound.setCall (hi : Sound s) (hc : c < s.called) (hlive : t.pc.live = (s.calls c).pc.live)
    (hwaiter : t.waiter = (s.calls c).waiter) (hok : CallOk t (s.mid (s.calls c).waiter))
    (hdistinct : t.inUse = true → ∀ d, d ≠ c → (s.calls d).inUse = true → (s.calls d).mid ≠ t.mid) :
    Sound (s.setCall c t) := by
  refine ⟨?_, ?_, hi.nodup, hi.began_update hc t, fun waiter => ?_, hi.distinct_update hdistinct⟩
  · refine (Function.forall_update_iff s.calls fun _ t => CallOk t (s.mid t.waiter)).mpr
      ⟨?_, fun d _ => hi.call d⟩
    rw [hwaiter]
    exact hok
  · refine (Function.forall_update_iff s.calls fun d t => d ∈ s.pubList ↔ t.pc.live = true).mpr
      ⟨?_, fun d _ => hi.list d⟩
    rw [hlive]
    exact hi.list c
  · refine (Function.forall_update_iff s.calls fun d t =>
      s.owner waiter = some d ↔ t.pc.live = true ∧ t.waiter = waiter).mpr
      ⟨?_, fun d _ => hi.owner waiter d⟩
    rw [hlive, hwaiter]
    exact hi.owner waiter c

theorem Sound.setMid (hi : Sound s) {waiter m : Nat}
    (hok : ∀ c, (s.calls c).pc.live = true → (s.calls c).waiter = waiter → CallOk (s.calls c) m) :
    Sound { s with mid := update s.mid waiter m } := by
  refine ⟨fun c => ?_, hi.list, hi.nodup, hi.began, hi.owner, hi.distinct⟩
  rcases eq_or_ne (s.calls c).waiter waiter with hw | hw
  · simp only [hw, Function.update_self]
    cases hlive : (s.calls c).pc.live with
    | true => exact hok c hlive hw
    | false => exact (hi.call c).dead hlive m
  · simp only [Function.update_of_ne hw]
    exact hi.call c

theorem Sound.waiter_unique (hi : Sound s) (hc : (s.calls c).pc.live = true)
    (hd : (s.calls d).pc.live = true) (h : (s.calls d).waiter = (s.calls c).waiter) : d = c := by
  have hown := (hi.owner _ c).mpr ⟨hc, rfl⟩
  rw [(hi.owner _ d).mpr ⟨hd, h⟩] at hown
  exact Option.some.inj hown

theorem Sound.move (hi : Sound s) (hc : c < s.called) (hlive : t.pc.live = (s.calls c).pc.live)
    (hwaiter : t.waiter = (s.calls c).waiter) (hok : CallOk t (s.mid (s.calls c).waiter))
    (hmid : t.mid = (s.calls c).mid) (huse : t.inUse = true → (s.calls c).inUse = true) :
    Sound (s.setCall c t) := by
  refine hi.setCall hc hlive hwaiter hok fun ht d hdc hd heq => ?_
  rw [hmid] at heq
  exact hdc (hi.distinct d c hd (huse ht) heq)

-- ---------------------------------------------------------------------------
-- The steps
-- ---------------------------------------------------------------------------

theorem Sound.inUse_lt (hi : Sound s) (h : (s.calls c).inUse = true) : c < s.called := by
  refine hi.lt_called fun habsent => ?_
  have hrefused : (s.calls c).refused = false := by
    cases hr : (s.calls c).refused with
    | false => rfl
    | true => rcases (hi.call c).refused hr with hpc | hpc <;> simp [habsent] at hpc
  have haccepted : (s.calls c).accepted = false := by
    cases ha : (s.calls c).accepted with
    | false => rfl
    | true => exact absurd habsent ((hi.call c).sent ha)
  simp [SendCall.inUse, hrefused, haccepted] at h

theorem Sound.link (hi : Sound s) (h : s.link waiter = some s') : Sound s' := by
  simp only [PubAcks.link] at h
  split at h <;> cases h
  rename_i hfree
  have hnew : ∀ c, (s.calls c).pc.live = true → c ≠ s.called := by
    rintro c hlive rfl
    rw [hi.began _ (Nat.le_refl _)] at hlive
    cases hlive
  have hzero : Sound { s with mid := update s.mid waiter 0 } :=
    hi.setMid fun c _ _ => (hi.call c).zero
  refine ⟨?_, ?_, ?_, fun c hc => ?_, fun w => ?_, hi.distinct_update nofun⟩
  · refine (Function.forall_update_iff s.calls fun _ t =>
      CallOk t (update s.mid waiter 0 t.waiter)).mpr ⟨?_, fun c _ => hzero.call c⟩
    rw [Function.update_self]
    exact ⟨fun _ hm => absurd rfl hm, nofun, nofun, nofun, nofun, fun _ => ⟨rfl, rfl, rfl⟩,
      nofun, nofun⟩
  · refine (Function.forall_update_iff s.calls fun c t =>
      c ∈ s.pubList ++ [s.called] ↔ t.pc.live = true).mpr ⟨?_, fun c hc => ?_⟩
    · simp [SendPc.live]
    · simp [hc, hi.list]
  · rw [← List.concat_eq_append]
    exact .concat (fun hmem => hnew _ ((hi.list _).mp hmem) rfl) hi.nodup
  · have hcc : c ≠ s.called := Nat.ne_of_gt hc
    simpa only [Function.update_of_ne hcc] using hi.began c (Nat.le_of_lt hc)
  · refine (Function.forall_update_iff s.calls fun c t =>
      update s.owner waiter (some s.called) w = some c ↔ t.pc.live = true ∧ t.waiter = w).mpr
      ⟨?_, fun c hc => ?_⟩
    · rcases eq_or_ne w waiter with rfl | hw
      · simp [SendPc.live]
      · have hnot : s.owner w ≠ some s.called := fun hown =>
          hnew _ ((hi.owner w _).mp hown).1 rfl
        simp [hw, hnot, Ne.symm hw]
    · rcases eq_or_ne w waiter with rfl | hw
      · have hnot := hi.owner w c
        rw [hfree] at hnot
        simpa [Ne.symm hc] using hnot
      · rw [Function.update_of_ne hw]
        exact hi.owner w c

theorem CallOk.published {ok : Bool} {id : Nat} (hidle : t.callback = .idle)
    (hearly : t.early = false) (hok : ok = true → id ≠ 0) (hm : m = 0 ∨ m = id) :
    CallOk { t with
      pc := if ok then .lock else .unlink false, mid := id, accepted := ok, refused := !ok } m where
  mid _ hne := by
    obtain rfl : m = id := hm.resolve_left hne
    refine ⟨rfl, ?_⟩
    cases ok <;> simp [SendCall.inUse, hidle, hne, SendPc.live]
  found w hw := by
    change t.callback = _ at hw
    rw [hidle] at hw
    cases hw
  accepted hne := absurd hidle hne
  nonzero := hok
  sent _ := by cases ok <;> exact nofun
  publish hpc := by cases ok <;> cases hpc
  refused hr := by
    cases ok with
    | false => exact .inl rfl
    | true => cases hr
  early he := by
    change t.early = true at he
    rw [hearly] at he
    cases he

theorem Sound.publish (hi : Sound s) {id : Nat} (h : s.publish c ok id = some s') : Sound s' := by
  simp only [PubAcks.publish] at h
  split at h <;> cases h
  rename_i hguard
  obtain ⟨hpc, hok, hfresh⟩ := hguard
  have hc := hi.lt_called (c := c) (by simp [hpc])
  obtain ⟨hzero, hnot, hearly⟩ := (hi.call c).publish hpc
  have hidle : (s.calls c).callback = .idle := by
    by_cases hidle : (s.calls c).callback = .idle
    · exact hidle
    · rw [(hi.call c).accepted hidle] at hnot
      cases hnot
  have hlive : (if ok = true then SendPc.lock else .unlink false).live = true := by
    split <;> rfl
  have hset := hi.setCall (t := { s.calls c with
      pc := if ok then .lock else .unlink false, mid := id, accepted := ok, refused := !ok }) hc
    (by rw [hpc]; exact hlive) rfl (.published hidle hearly hok (.inl hzero)) (by
      intro huse d _ hd
      have hne : id ≠ 0 := by
        rintro rfl
        simp [SendCall.inUse] at huse
      exact hfresh.resolve_left hne d (List.mem_range.mpr (hi.inUse_lt hd)) hd)
  refine Sound.setMid hset fun d hd hw => ?_
  obtain rfl : d = c := hset.waiter_unique (by simpa using hlive) hd (by simpa using hw)
  simpa using CallOk.published (m := id) hidle hearly hok (.inr rfl)

theorem Sound.setPc (hi : Sound s) {pc : SendPc} (hold : (s.calls c).pc.live = true)
    (hnew : pc.live = true) (hpublish : pc ≠ .publish) (hrefused : (s.calls c).refused = false)
    (hearly : (s.calls c).early = true → pc = .unlink true) :
    Sound (s.setCall c { s.calls c with pc := pc }) := by
  have hc : c < s.called := hi.lt_called fun habsent => by
    rw [habsent] at hold
    cases hold
  have huse : SendCall.inUse { s.calls c with pc := pc } = (s.calls c).inUse := by
    simp [SendCall.inUse, hrefused]
  refine hi.move hc (hnew.trans hold.symm) rfl ?_ rfl fun h => huse ▸ h
  have hcall := hi.call c
  exact {
    mid := fun _ hm => ⟨(hcall.mid hold hm).1, huse.trans (hcall.mid hold hm).2⟩
    found := hcall.found
    accepted := hcall.accepted
    nonzero := hcall.nonzero
    sent := fun _ habsent => by
      change pc = .absent at habsent
      rw [habsent] at hnew
      cases hnew
    publish := fun h => absurd h hpublish
    refused := fun h => by
      change (s.calls c).refused = true at h
      rw [hrefused] at h
      cases h
    early := fun h => .inr (.inl (hearly h)) }

theorem CallOk.not_refused (h : CallOk t m) (hpc : ∀ ok, t.pc ≠ .unlink ok ∧ t.pc ≠ .returned ok) :
    t.refused = false := by
  cases hr : t.refused with
  | false => rfl
  | true => exact (h.refused hr).elim (fun hp => absurd hp (hpc _).1) fun hp => absurd hp (hpc _).2

theorem Sound.lock (hi : Sound s) (h : s.lock c = some s') : Sound s' := by
  simp only [PubAcks.lock] at h
  split at h <;> cases h
  rename_i hpc
  have hrefused := (hi.call c).not_refused (by simp [hpc])
  refine hi.setPc (by rw [hpc]; rfl) (by split <;> rfl) (by split <;> simp) hrefused fun hearly => ?_
  rcases (hi.call c).early hearly with ⟨-, hzero⟩ | hunlink | hreturned
  · rw [if_pos hzero]
  · simp [hpc] at hunlink
  · simp [hpc] at hreturned

theorem Sound.awake (hi : Sound s) (h : s.awake c = some s') : Sound s' := by
  simp only [PubAcks.awake] at h
  split at h <;> cases h
  rename_i hpc
  have hrefused := (hi.call c).not_refused (by rcases hpc with hpc | hpc <;> simp [hpc])
  exact hi.setPc (by rcases hpc with hpc | hpc <;> rw [hpc] <;> rfl) rfl (by simp) hrefused
    fun _ => rfl

theorem Sound.timeout (hi : Sound s) (h : s.timeout c = some s') : Sound s' := by
  simp only [PubAcks.timeout] at h
  split at h <;> cases h
  rename_i hpc
  have hrefused := (hi.call c).not_refused (by simp [hpc])
  refine hi.setPc (by rw [hpc]; rfl) rfl (by simp) hrefused fun hearly => ?_
  rcases (hi.call c).early hearly with ⟨hlock, -⟩ | hunlink | hreturned
  · simp [hpc] at hlock
  · simp [hpc] at hunlink
  · simp [hpc] at hreturned

theorem CallOk.unlink (h : CallOk t m) (hpc : t.pc = .unlink ok) :
    CallOk { t with pc := .returned ok } m where
  mid := nofun
  found := h.found
  accepted := h.accepted
  nonzero := h.nonzero
  sent _ := nofun
  publish := nofun
  refused hr := by
    rcases h.refused hr with hold | hold <;> rw [hpc] at hold <;> cases hold
    exact .inr rfl
  early he := by
    rcases h.early he with ⟨hold, -⟩ | hold | hold <;> rw [hpc] at hold <;> cases hold
    exact .inr (.inr rfl)

theorem Sound.unlink (hi : Sound s) (h : s.unlink c = some s') : Sound s' := by
  cases hpc : (s.calls c).pc with
  | unlink ok =>
    simp only [PubAcks.unlink, hpc] at h
    cases h
    have hlive : (s.calls c).pc.live = true := by rw [hpc]; rfl
    have hc := hi.lt_called (c := c) (by simp [hpc])
    have huse : SendCall.inUse { s.calls c with pc := .returned ok } = true →
        (s.calls c).inUse = true := by
      simp only [SendCall.inUse, SendPc.live, Bool.and_false, Bool.or_false]
      intro h
      simp_all
    refine ⟨?_, ?_, hi.nodup.erase c, hi.began_update hc _, fun w => ?_,
      hi.distinct_update fun hret d hdc hd heq => hdc (hi.distinct d c hd (huse hret) heq)⟩
    · exact (Function.forall_update_iff s.calls fun _ t => CallOk t (s.mid t.waiter)).mpr
        ⟨(hi.call c).unlink hpc, fun d _ => hi.call d⟩
    · refine (Function.forall_update_iff s.calls fun d t =>
        d ∈ s.pubList.erase c ↔ t.pc.live = true).mpr ⟨?_, fun d hdc => ?_⟩
      · simp [hi.nodup.mem_erase_iff, SendPc.live]
      · simp [hi.nodup.mem_erase_iff, hdc, hi.list]
    · refine (Function.forall_update_iff s.calls fun d t =>
        update s.owner (s.calls c).waiter none w = some d ↔ t.pc.live = true ∧ t.waiter = w).mpr
        ⟨?_, fun d hdc => ?_⟩
      · have hown : s.owner w = some c → w = (s.calls c).waiter := fun hown =>
          ((hi.owner w c).mp hown).2.symm
        rcases eq_or_ne w (s.calls c).waiter with hw | hw
        · simp [hw, SendPc.live]
        · simp [hw, mt hown hw, SendPc.live]
      · rcases eq_or_ne w (s.calls c).waiter with rfl | hw
        · have hother : (s.calls d).pc.live = true → (s.calls d).waiter ≠ (s.calls c).waiter :=
            fun hd heq => hdc (hi.waiter_unique hlive hd heq)
          simpa using hother
        · rw [Function.update_of_ne hw]
          exact hi.owner w d
  | _ => simp [PubAcks.unlink, hpc] at h

theorem Sound.found_own (hi : Sound s) (ha : (s.calls k).accepted = true)
    (hidle : (s.calls k).callback = .idle)
    (hfind : (s.pubList.find? fun c => s.mid (s.calls c).waiter = (s.calls k).mid) = some c) :
    c = k := by
  have hlive := (hi.list c).mp (List.mem_of_find?_eq_some hfind)
  have hmid : s.mid (s.calls c).waiter = (s.calls k).mid := by simpa using List.find?_some hfind
  have hne := (hi.call k).nonzero ha
  obtain ⟨hown, huse⟩ := (hi.call c).mid hlive (by rwa [hmid])
  exact hi.distinct c k huse (by simp [SendCall.inUse, ha, hidle, hne]) (hown.symm.trans hmid)

theorem Sound.finish (hi : Sound s) (ha : (s.calls k).accepted = true)
    (hm : (s.calls k).pc.live = true → s.mid (s.calls k).waiter = 0) : Sound (s.finish k) := by
  have hk := hi.lt_called ((hi.call k).sent ha)
  refine hi.move hk rfl rfl ((hi.call k).finish ha hm) rfl ?_
  simp only [SendCall.inUse]
  intro h
  simp_all

theorem Sound.callback (hi : Sound s) (h : s.callback k = some s') : Sound s' := by
  simp only [PubAcks.callback] at h
  split at h
  · rename_i hguard
    obtain ⟨ha, hidle⟩ := hguard
    have hcall := hi.call k
    split at h <;> cases h
    · rename_i hnone
      refine hi.finish ha fun hlive => ?_
      by_cases hzero : s.mid (s.calls k).waiter = 0
      · exact hzero
      · have hmiss := List.find?_eq_none.mp hnone k ((hi.list k).mpr hlive)
        exact absurd (hcall.mid hlive hzero).1 (by simpa using hmiss)
    · rename_i c hfind
      obtain rfl : c = k := hi.found_own ha hidle hfind
      refine hi.move (hi.lt_called (hcall.sent ha)) rfl rfl ?_ rfl ?_
      · exact {
          mid := fun hlive hm => by
            refine ⟨(hcall.mid hlive hm).1, ?_⟩
            simp [SendCall.inUse, ha, hcall.nonzero ha]
          found := fun w hw => by
            cases hw
            rfl
          accepted := fun _ => ha
          nonzero := hcall.nonzero
          sent := hcall.sent
          publish := hcall.publish
          refused := hcall.refused
          early := hcall.early }
      · intro _
        simp [SendCall.inUse, ha, hidle, hcall.nonzero ha]
  · cases h

theorem Sound.clear (hi : Sound s) (waiter k : Nat) : Sound (s.clear waiter k) := by
  have hzero : Sound { s with mid := update s.mid waiter 0 } :=
    hi.setMid fun c _ _ => (hi.call c).zero
  simp only [PubAcks.clear]
  split
  · exact hzero
  · rename_i c hown
    obtain ⟨hlive, hw⟩ := (hi.owner waiter c).mp hown
    have hsignal : (s.calls c).pc.signal.live = (s.calls c).pc.live := by
      cases (s.calls c).pc <;> rfl
    refine hzero.move (hi.lt_called fun habsent => ?_) hsignal rfl ?_ rfl ?_
    · rw [habsent] at hlive
      cases hlive
    · have hmid : update s.mid waiter 0 (s.calls c).waiter = 0 := by
        rw [hw, Function.update_self]
      exact (congrArg (CallOk _) hmid).mpr ((hi.call c).zero.signal _)
    · simp only [SendCall.inUse, hsignal]
      exact id

theorem clear_keeps (p : SendCall → β)
    (hp : ∀ t pc clearedBy, p { t with pc := pc, clearedBy := clearedBy } = p t) (s : PubAcks)
    (waiter k c : Nat) : p ((s.clear waiter k).calls c) = p (s.calls c) := by
  simp only [PubAcks.clear]
  split
  · rfl
  · exact map_update p c (hp _ _ _)

@[simp] theorem clear_mid (s : PubAcks) (waiter k : Nat) :
    (s.clear waiter k).mid = update s.mid waiter 0 := by
  simp only [PubAcks.clear]
  split <;> rfl

theorem Sound.wake (hi : Sound s) (h : s.wake k = some s') : Sound s' := by
  cases hcb : (s.calls k).callback with
  | found waiter =>
    simp only [PubAcks.wake, hcb] at h
    cases h
    have ha : (s.calls k).accepted = true := (hi.call k).accepted (by simp [hcb])
    have hw : (s.calls k).waiter = waiter := (hi.call k).found _ hcb
    refine (hi.clear waiter k).finish ?_ fun _ => ?_
    · rw [clear_keeps SendCall.accepted fun _ _ _ => rfl]
      exact ha
    · rw [clear_keeps SendCall.waiter fun _ _ _ => rfl, hw, clear_mid, Function.update_self]
  | _ => simp [PubAcks.wake, hcb] at h

theorem Sound.step (hi : Sound s) (h : pubAcks.step s act = some s') : Sound s' := by
  cases act with
  | link waiter => exact hi.link h
  | publish c ok id => exact hi.publish h
  | lock c => exact hi.lock h
  | awake c => exact hi.awake h
  | timeout c => exact hi.timeout h
  | unlink c => exact hi.unlink h
  | callback k => exact hi.callback h
  | wake k => exact hi.wake h

theorem sound (h : pubAcks.ReachesUnder C s) : Sound s :=
  h.invariant sound_init fun _ _ _ _ hi _ hs => hi.step hs

-- ---------------------------------------------------------------------------
-- Acknowledgements and calls
-- ---------------------------------------------------------------------------

/-- A call that returns 0 has been acknowledged, and by no callback but its own;
a callback that comes before the wait is not lost; and a call whose publish fails
returns an error, with its waiter off the list. -/
structure Acked (s : PubAcks) : Prop where
  own : ∀ c, (s.calls c).pc = .returned true → (s.calls c).callback ≠ .idle
  foreign : ∀ c k, (s.calls c).clearedBy = some k → k = c
  kept : ∀ c ok, (s.calls c).early = true → (s.calls c).pc = .returned ok → ok = true
  refused : ∀ c ok, (s.calls c).refused = true → (s.calls c).pc = .returned ok →
    ok = false ∧ c ∉ s.pubList

def AckPc.waiter? : AckPc → Option Nat
  | .found waiter => some waiter
  | .idle | .done => none

/-- No wait ends without a signal before the callback of its call has come, and
at a wake-up the waiter that was compared has not made room for the waiter of
another call, unless that one is acknowledged already. -/
def Orderly (s : PubAcks) : PubAct → Prop
  | .awake c => (s.calls c).pc = .waiting → (s.calls c).callback ≠ .idle
  | .wake k => ∀ waiter ∈ AckPc.waiter? (s.calls k).callback, ∀ c ∈ s.owner waiter,
    c = k ∨ s.mid waiter = 0 ∧ (s.calls c).pc ≠ .waiting
  | .link _ | .publish _ _ _ | .lock _ | .timeout _ | .unlink _ | .callback _ => True

instance (s : PubAcks) : (act : PubAct) → Decidable (Orderly s act)
  | .awake _ => inferInstanceAs (Decidable (_ → _))
  | .wake k => inferInstanceAs (Decidable
      (∀ waiter ∈ AckPc.waiter? (s.calls k).callback, ∀ c ∈ s.owner waiter,
        c = k ∨ s.mid waiter = 0 ∧ (s.calls c).pc ≠ .waiting))
  | .link _ | .publish _ _ _ | .lock _ | .timeout _ | .unlink _ | .callback _ => isTrue trivial

/-- The wait of a call is over for no other reason than its own callback. -/
structure OwnAck (c : Nat) (t : SendCall) (m : Nat) : Prop where
  own : t.pc = .lock ∧ m = 0 ∨ t.pc = .signalled ∨ t.pc = .unlink true ∨ t.pc = .returned true →
    t.callback ≠ .idle
  foreign : ∀ k, t.clearedBy = some k → k = c

def AllOwn (s : PubAcks) : Prop := ∀ c, OwnAck c (s.calls c) (s.mid (s.calls c).waiter)

theorem AllOwn.setCall (hi : AllOwn s) (h : OwnAck c t (s.mid t.waiter)) :
    AllOwn (s.setCall c t) := by
  exact (Function.forall_update_iff s.calls fun d t => OwnAck d t (s.mid t.waiter)).mpr
    ⟨h, fun d _ => hi d⟩

theorem AllOwn.setMid (hi : AllOwn s) {waiter m : Nat}
    (h : ∀ c, (s.calls c).pc = .lock → (s.calls c).waiter = waiter → OwnAck c (s.calls c) m) :
    AllOwn { s with mid := update s.mid waiter m } := by
  intro c
  rcases eq_or_ne (s.calls c).waiter waiter with hw | hw
  · simp only [hw, Function.update_self]
    by_cases hlock : (s.calls c).pc = .lock
    · exact h c hlock hw
    · refine ⟨fun hpc => (hi c).own (.inr (hpc.resolve_left fun h => hlock h.1)), (hi c).foreign⟩
  · simp only [Function.update_of_ne hw]
    exact hi c

theorem AllOwn.link (hi : AllOwn s) (hs : Sound s) (h : s.link waiter = some s') : AllOwn s' := by
  simp only [PubAcks.link] at h
  split at h <;> cases h
  rename_i hfree
  have hstore : AllOwn { s with mid := update s.mid waiter 0 } := by
    refine hi.setMid fun c hlock hw => ?_
    have hown := (hs.owner waiter c).mpr ⟨by rw [hlock]; rfl, hw⟩
    rw [hfree] at hown
    cases hown
  exact hstore.setCall (c := s.called)
    (t := { SendCall.absent with pc := .publish, waiter := waiter }) ⟨by simp, nofun⟩

theorem AllOwn.publish (hi : AllOwn s) (hs : Sound s) {id : Nat}
    (h : s.publish c ok id = some s') : AllOwn s' := by
  simp only [PubAcks.publish] at h
  split at h <;> cases h
  rename_i hguard
  obtain ⟨hpc, hok, -⟩ := hguard
  have hcall : ∀ m, m = id ∨ ok = false → OwnAck c { s.calls c with
      pc := if ok then .lock else .unlink false, mid := id, accepted := ok, refused := !ok } m := by
    refine fun m hm => ⟨?_, (hi c).foreign⟩
    cases ok with
    | false => simp
    | true =>
      obtain rfl : m = id := hm.resolve_right (by simp)
      simp [hok rfl]
  have hstore : AllOwn { s with mid := update s.mid (s.calls c).waiter id } := by
    refine hi.setMid fun d hlock hw => ?_
    obtain rfl : d = c := hs.waiter_unique (by rw [hpc]; rfl) (by rw [hlock]; rfl) hw
    rw [hpc] at hlock
    cases hlock
  exact hstore.setCall (hcall _ (.inl (Function.update_self _ _ _)))

theorem AllOwn.setPc (hi : AllOwn s) {pc : SendPc} (hlock : pc ≠ .lock)
    (hown : pc = .signalled ∨ pc = .unlink true ∨ pc = .returned true →
      (s.calls c).callback ≠ .idle) : AllOwn (s.setCall c { s.calls c with pc := pc }) :=
  hi.setCall ⟨fun h => hown (h.resolve_left fun h => hlock h.1), (hi c).foreign⟩

theorem AllOwn.lock (hi : AllOwn s) (h : s.lock c = some s') : AllOwn s' := by
  simp only [PubAcks.lock] at h
  split at h <;> cases h
  rename_i hpc
  refine hi.setPc (by split <;> simp) fun hover => ?_
  by_cases hzero : s.mid (s.calls c).waiter = 0
  · exact (hi c).own (.inl ⟨hpc, hzero⟩)
  · simp [hzero] at hover

theorem AllOwn.awake (hi : AllOwn s) (hc : Orderly s (.awake c)) (h : s.awake c = some s') :
    AllOwn s' := by
  simp only [PubAcks.awake] at h
  split at h <;> cases h
  rename_i hpc
  refine hi.setPc (by simp) fun _ => ?_
  rcases hpc with hwaiting | hsignalled
  · exact hc hwaiting
  · exact (hi c).own (.inr (.inl hsignalled))

theorem AllOwn.timeout (hi : AllOwn s) (h : s.timeout c = some s') : AllOwn s' := by
  simp only [PubAcks.timeout] at h
  split at h <;> cases h
  exact hi.setPc (by simp) (by simp)

theorem AllOwn.unlink (hi : AllOwn s) (h : s.unlink c = some s') : AllOwn s' := by
  cases hpc : (s.calls c).pc with
  | unlink ok =>
    simp only [PubAcks.unlink, hpc] at h
    cases h
    have hset : AllOwn (s.setCall c { s.calls c with pc := .returned ok }) := by
      refine hi.setPc (by simp) fun hover => ?_
      obtain rfl : ok = true := by simpa using hover
      exact (hi c).own (.inr (.inr (.inl hpc)))
    exact hset
  | _ => simp [PubAcks.unlink, hpc] at h

theorem AllOwn.finish (hi : AllOwn s) (k : Nat) : AllOwn (s.finish k) :=
  hi.setCall ⟨fun _ => nofun, (hi k).foreign⟩

theorem AllOwn.callback (hi : AllOwn s) (h : s.callback k = some s') : AllOwn s' := by
  simp only [PubAcks.callback] at h
  split at h
  · split at h <;> cases h
    · exact hi.finish k
    · exact hi.setCall ⟨fun _ => nofun, (hi k).foreign⟩
  · cases h

theorem AllOwn.wake (hi : AllOwn s) (hs : Sound s) (hc : Orderly s (.wake k))
    (h : s.wake k = some s') : AllOwn s' := by
  cases hcb : (s.calls k).callback with
  | found waiter =>
    simp only [PubAcks.wake, hcb] at h
    cases h
    refine AllOwn.finish ?_ k
    cases hown : s.owner waiter with
    | none =>
      simp only [PubAcks.clear, hown]
      refine hi.setMid fun c hlock hw => ?_
      have := (hs.owner waiter c).mpr ⟨by rw [hlock]; rfl, hw⟩
      rw [hown] at this
      cases this
    | some c =>
      obtain ⟨-, hw⟩ := (hs.owner waiter c).mp hown
      have hcall := hi c
      rw [hw] at hcall
      -- its own callback has come, or there is nothing left to clear
      have hclear : OwnAck c { s.calls c with
          pc := (s.calls c).pc.signal
          clearedBy := if s.mid waiter = 0 ∧ (s.calls c).pc ≠ .waiting then (s.calls c).clearedBy
            else some k } 0 ∧ OwnAck c (s.calls c) 0 := by
        rcases hc waiter (by rw [hcb]; rfl) c hown with rfl | ⟨hzero, hwaiting⟩
        · refine ⟨⟨fun _ => by simp [hcb], fun k' hk' => ?_⟩, ⟨fun _ => by simp [hcb], hcall.foreign⟩⟩
          simp only at hk'
          split at hk'
          · exact hcall.foreign k' hk'
          · exact (Option.some.inj hk').symm
        · have hsignal : (s.calls c).pc.signal = (s.calls c).pc := by
            cases hpc : (s.calls c).pc <;> simp_all [SendPc.signal]
          rw [hzero] at hcall
          rw [hsignal, if_pos ⟨hzero, hwaiting⟩]
          exact ⟨hcall, hcall⟩
      have hstore : AllOwn { s with mid := update s.mid waiter 0 } := by
        refine hi.setMid fun d hlock hd => ?_
        have howner := (hs.owner waiter d).mpr ⟨by rw [hlock]; rfl, hd⟩
        rw [hown] at howner
        obtain rfl := Option.some.inj howner
        exact hclear.2
      have hmid : update s.mid waiter 0 (s.calls c).waiter = 0 := by rw [hw, Function.update_self]
      simp only [PubAcks.clear, hown]
      exact hstore.setCall ((congrArg (OwnAck c _) hmid).mpr hclear.1)
  | _ => simp [PubAcks.wake, hcb] at h

theorem AllOwn.step (hi : AllOwn s) (hs : Sound s) (hc : Orderly s act)
    (h : pubAcks.step s act = some s') : AllOwn s' := by
  cases act with
  | link waiter => exact hi.link hs h
  | publish c ok id => exact hi.publish hs h
  | lock c => exact hi.lock h
  | awake c => exact hi.awake hc h
  | timeout c => exact hi.timeout h
  | unlink c => exact hi.unlink h
  | callback k => exact hi.callback h
  | wake k => exact hi.wake hs hc h

theorem allOwn_init : AllOwn init := fun _ => ⟨by simp [init, SendCall.absent], nofun⟩

/-- What `__dev_send` keeps in every run: no callback that comes before the wait
is lost, and a failed publish makes the call fail. -/
theorem Sound.returned (hi : Sound s) (hpc : (s.calls c).pc = .returned ok) :
    ((s.calls c).early = true → ok = true) ∧
      ((s.calls c).refused = true → ok = false ∧ c ∉ s.pubList) := by
  refine ⟨fun he => ?_, fun hr => ⟨?_, ?_⟩⟩
  · rcases (hi.call c).early he with ⟨hold, -⟩ | hold | hold <;> rw [hpc] at hold <;> cases hold
    rfl
  · rcases (hi.call c).refused hr with hold | hold <;> rw [hpc] at hold <;> cases hold
    rfl
  · rw [hi.list c, hpc]
    simp [SendPc.live]

/-- Acknowledgements reach the right call in the runs whose waits end without a
signal only after the callback, and whose wake-ups find the waiter they compared. -/
theorem acked (h : pubAcks.ReachesUnder Orderly s) : Acked s := by
  have hs := sound h
  have hown : AllOwn s :=
    h.invariant allOwn_init fun _ _ _ hr hi hc hstep => hi.step (sound hr) hc hstep
  exact ⟨fun c hpc => (hown c).own (.inr (.inr (.inr hpc))), fun c => (hown c).foreign,
    fun c ok he hpc => (hs.returned hpc).1 he, fun c ok hr hpc => (hs.returned hpc).2 hr⟩

def twoPublishes : List PubAct :=
  [.link 10, .link 20, .publish 0 true 1, .publish 1 true 2, .lock 0, .callback 1, .wake 1,
    .callback 0, .wake 0, .lock 1, .awake 0, .unlink 1, .unlink 0]

theorem twoPublishes_acked : ∃ s, pubAcks.run twoPublishes = some s ∧ Acked s := by
  obtain ⟨s, hs, hr⟩ := Machine.exists_run (M := pubAcks) (C := Orderly) twoPublishes
    (by decide +kernel) (by decide +kernel)
  exact ⟨s, hs, acked hr⟩

def spuriousWake : List PubAct := [.link 10, .publish 0 true 1, .lock 0, .awake 0, .unlink 0]

theorem spuriousWake_unacked : ¬ ∀ s, pubAcks.Reaches s → Acked s := by
  intro h
  obtain ⟨s, hs, hp⟩ := Machine.exists_reaches (M := pubAcks)
    (p := fun s => (s.calls 0).pc = .returned true && (s.calls 0).callback = .idle) spuriousWake
    (by decide +kernel)
  simp only [Bool.and_eq_true, decide_eq_true_eq] at hp
  exact (h s hs).own 0 hp.1 hp.2

/-- A waiter is found and gone before it is woken; the waiter of the next call
lies at its address. -/
def staleWaiter : List PubAct :=
  [.link 10, .publish 0 true 1, .lock 0, .callback 0, .timeout 0, .unlink 0, .link 10,
    .publish 1 true 2, .lock 1, .wake 0, .awake 1, .unlink 1]

theorem staleWaiter_foreign :
    ∃ s, pubAcks.Reaches s ∧ (s.calls 1).clearedBy = some 0 ∧ (s.calls 1).callback = .idle := by
  obtain ⟨s, hs, hp⟩ := Machine.exists_reaches (M := pubAcks)
    (p := fun s => (s.calls 1).clearedBy = some 0 && (s.calls 1).callback = .idle) staleWaiter
    (by decide +kernel)
  simp only [Bool.and_eq_true, decide_eq_true_eq] at hp
  exact ⟨s, hs, hp⟩

end PubAcks

end DevAdapter.Broker

import DevAdapter.System.Posts
import DevAdapter.System.SendMutex
import Mathlib.Data.List.Basic

/-!
# The stream to a client

A connection carries whole frames and at its end at most one that was cut
short, because a short send clears `send_enable` before the next send. That
flag is one for all connections and is set again with every accept message,
and the mutex around it is unlocked by whoever stops a client. The streams stay
intact in a run that sets the flag only while no connection in use was cut
short, and in which nobody else is in `send`, or past it, on a connection that
is cut short.
-/

namespace DevAdapter

open Function (update)
open Transition

-- ---------------------------------------------------------------------------
-- Sends
-- ---------------------------------------------------------------------------

def Sent.full (e : Sent) : Bool := e.ret = some e.buf.length

def Sent.bytes (e : Sent) : List UInt8 := e.buf.take (e.ret.getD 0)

def written (sent : List Sent) : List UInt8 := sent.flatMap Sent.bytes

/-- Nothing is sent after a send that was short or failed. -/
def Intact (sent : List Sent) : Prop := ∀ e ∈ sent.dropLast, e.full = true

/-- Whole frames, and at the end at most one proper prefix of a frame. -/
def Framed (sent : List Sent) : Prop :=
  ∃ frames tail, written sent = frames.flatten ++ tail ∧ frames <+: sent.map Sent.buf ∧
    (tail = [] ∨ ∃ e ∈ sent.getLast?, tail <+: e.buf ∧ tail.length < e.buf.length)

theorem Sent.bytes_of_full {e : Sent} (h : e.full = true) : e.bytes = e.buf := by
  have hret : e.ret = some e.buf.length := by simpa [Sent.full] using h
  simp [Sent.bytes, hret]

theorem written_of_full {sent : List Sent} (h : ∀ e ∈ sent, e.full = true) :
    written sent = (sent.map Sent.buf).flatten := by
  induction sent with
  | nil => rfl
  | cons e sent ih =>
    have htail := ih fun e' he' => h e' (List.mem_cons_of_mem _ he')
    simp only [written, List.flatMap_cons, List.map_cons, List.flatten_cons] at htail ⊢
    rw [htail, Sent.bytes_of_full (h e List.mem_cons_self)]

theorem Intact.framed {sent : List Sent} (h : Intact sent) : Framed sent := by
  rcases List.eq_nil_or_concat' sent with rfl | ⟨sent, e, rfl⟩
  · exact ⟨[], [], rfl, List.nil_prefix, .inl rfl⟩
  · have hfull : ∀ e ∈ sent, e.full = true := by simpa [Intact] using h
    have hbytes : written (sent ++ [e]) = (sent.map Sent.buf).flatten ++ e.bytes := by
      rw [← written_of_full hfull]
      simp [written]
    have hprefix : sent.map Sent.buf <+: (sent ++ [e]).map Sent.buf := by
      rw [List.map_append]
      exact List.prefix_append _ _
    by_cases hlt : e.bytes.length < e.buf.length
    · exact ⟨_, _, hbytes, hprefix, .inr ⟨e, by simp, List.take_prefix _ _, hlt⟩⟩
    · -- an error writes nothing, anything else that is not short is the whole frame
      have hwhole : e.bytes = e.buf :=
        (List.take_prefix _ _).eq_of_length_le (Nat.not_lt.mp hlt)
      refine ⟨(sent ++ [e]).map Sent.buf, [], ?_, List.prefix_rfl, .inl rfl⟩
      rw [hbytes, hwhole]
      simp

theorem Intact.append {sent : List Sent} (h : sent.all Sent.full = true) (e : Sent) :
    Intact (sent ++ [e]) := by
  simpa [Intact] using h

def ReceivePara.broken (g : ReceivePara) : Bool := g.isOpen && !g.sent.all Sent.full

theorem ReceivePara.broken_of_unsent {g : ReceivePara} (h : g.sent = []) : g.broken = false := by
  simp [ReceivePara.broken, h]

/-- What the stream of a record is about: `broken` and what was sent. -/
def ReceivePara.stream (g : ReceivePara) : Bool × List Sent := (g.isOpen, g.sent)

theorem ReceivePara.broken_congr {g g' : ReceivePara} (h : g'.stream = g.stream) :
    g'.broken = g.broken ∧ g'.sent = g.sent := by
  simp only [ReceivePara.stream, Prod.mk.injEq] at h
  exact ⟨by rw [ReceivePara.broken, h.1, h.2]; rfl, h.2⟩

/-- The record that a thread goes to `send` with if `send_enable` is set. -/
def SendPc.client : SendPc → Option Nat
  | .check r _ | .lock r _ | .test r _ => some r
  | _ => none

/-- The record that a thread goes to `send` with or is in `send` with. -/
def SendPc.record : SendPc → Option Nat
  | .check r _ | .lock r _ | .test r _ | .send r _ => some r
  | _ => none

def SendPc.sending : SendPc → Option Nat
  | .send r _ => some r
  | _ => none

/-- The record on which a thread has had a short send that `send_enable` does not show yet. -/
def SendPc.failing : SendPc → Option Nat
  | .fail r => some r
  | _ => none

theorem SendPc.record_of_client {pc : SendPc} (h : pc.client = some r) : pc.record = some r := by
  cases pc <;> first | exact h | cases h

theorem SendPc.critical_of_sending {pc : SendPc} (h : pc.sending = some r) :
    pc.critical = true := by
  cases pc <;> first | rfl | cases h

theorem SendPc.critical_of_failing {pc : SendPc} (h : pc.failing = some r) :
    pc.critical = true := by
  cases pc <;> first | rfl | cases h

theorem SendPc.failing_of_testsWaiting {pc : SendPc} (h : pc.testsWaiting = true) :
    pc.failing = none := by
  cases pc <;> first | rfl | cases h

namespace System

/-- The connection is the installed client's, or a thread goes to `send` with it. -/
def InUse (s : System) (r : Nat) : Prop :=
  s.gReceive = some r ∨ ∃ x, (s.snd x).client = some r

/-- `send_enable` is set only while no connection in use is broken; a connection
is broken only when nobody else is in `send` with it, and nobody else goes to
`send` with it before `send_enable` is cleared. -/
def SendsSettled (s : System) : Act → Prop
  | .main _ => s.main = .enableSend → ∀ r, InUse s r → (s.recs r).broken = false
  | .send x ret =>
    match s.snd x with
    | .send r buf => (s.recs r).isOpen = true → ret ≠ some buf.length →
        ∀ y ≠ x, (s.snd y).sending ≠ some r
    | .test r _ => (s.recs r).isOpen = true → s.sendEnable = true →
        ∀ y, (s.snd y).failing ≠ some r
    | _ => True
  | _ => True

variable {s s' : System}

-- ---------------------------------------------------------------------------
-- Records that were never installed
-- ---------------------------------------------------------------------------

/-- Nothing is sent on a connection before its record is installed. -/
structure UnsentAt (gReceive : Option Nat) (server : ServerPc) (accepted : Nat)
    (recs : Nat → ReceivePara) (snd : Sender → SendPc) : Prop where
  fresh : ∀ r, accepted ≤ r ∨ server = .created r → (recs r).installed = false
  current : ∀ r, gReceive = some r → (recs r).installed = true
  used : ∀ x r, (snd x).record = some r → (recs r).installed = true
  sent : ∀ r, (recs r).installed = false → (recs r).sent = []

abbrev Unsent (s : System) : Prop :=
  UnsentAt s.gReceive s.server s.accepted s.recs s.snd

theorem unsent_init : Unsent .init where
  fresh _ _ := rfl
  current _ := nofun
  used _ _ := nofun
  sent _ _ := rfl

theorem UnsentAt.setRecs {recs recs' : Nat → ReceivePara} (hi : UnsentAt g sv n recs senders)
    (hr : ∀ r, (recs' r).installed = (recs r).installed)
    (hsent : ∀ r, (recs r).installed = false → (recs' r).sent = (recs r).sent) :
    UnsentAt g sv n recs' senders := by
  refine ⟨?_, ?_, ?_, fun r h => ?_⟩
  · simpa only [hr] using hi.fresh
  · simpa only [hr] using hi.current
  · simpa only [hr] using hi.used
  · rw [hr] at h
    rw [hsent r h]
    exact hi.sent r h

theorem UnsentAt.setSnd {recs : Nat → ReceivePara} {senders : Sender → SendPc} {x : Sender}
    {pc : SendPc} (hi : UnsentAt g sv n recs senders)
    (h : ∀ r, pc.record = some r → (recs r).installed = true) :
    UnsentAt g sv n recs (update senders x pc) := by
  refine ⟨hi.fresh, hi.current, ?_, hi.sent⟩
  rw [Function.forall_update_iff senders fun _ pc => ∀ r, pc.record = some r →
    (recs r).installed = true]
  exact ⟨h, fun y _ => hi.used y⟩

theorem Unsent.create (hi : Unsent s) :
    UnsentAt s.gReceive (.created s.accepted) (s.accepted + 1)
      (update s.recs s.accepted .init) s.snd := by
  have hold : ∀ r, (s.recs r).installed = true → update s.recs s.accepted .init r = s.recs r := by
    intro r h
    refine Function.update_of_ne ?_ _ _
    rintro rfl
    rw [hi.fresh _ (.inl (Nat.le_refl _))] at h
    cases h
  constructor
  · rw [Function.forall_update_iff s.recs fun r g =>
      s.accepted + 1 ≤ r ∨ ServerPc.created s.accepted = .created r → g.installed = false]
    refine ⟨fun _ => rfl, ?_⟩
    rintro r hne (h | h)
    · exact hi.fresh r (.inl (Nat.le_of_succ_le h))
    · exact absurd (ServerPc.created.inj h).symm hne
  · intro r h
    have hinst := hi.current r h
    simpa only [hold r hinst] using hinst
  · intro x r h
    have hinst := hi.used x r h
    simpa only [hold r hinst] using hinst
  · rw [Function.forall_update_iff s.recs fun _ g => g.installed = false → g.sent = []]
    exact ⟨fun _ => rfl, fun r _ => hi.sent r⟩

theorem Unsent.install (hi : Unsent s) (hb : Below s) (hpc : s.server = .created r) :
    UnsentAt (some r) (.installed r) s.accepted
      (update s.recs r { s.recs r with installed := true }) s.snd := by
  have hinst : ∀ q, (s.recs q).installed = true →
      (update s.recs r { s.recs r with installed := true } q).installed = true := by
    rw [Function.forall_update_iff s.recs fun q g => (s.recs q).installed = true →
      g.installed = true]
    exact ⟨fun _ => rfl, fun _ _ => id⟩
  constructor
  · rw [Function.forall_update_iff s.recs fun q g =>
      s.accepted ≤ q ∨ ServerPc.installed r = .created q → g.installed = false]
    refine ⟨?_, fun q _ h => hi.fresh q (h.imp_right nofun)⟩
    rintro (h | h)
    · exact absurd (hb r (.inr hpc)) (Nat.not_lt.mpr h)
    · cases h
  · intro q h
    rw [← Option.some.inj h]
    simp
  · exact fun x q h => hinst q (hi.used x q h)
  · rw [Function.forall_update_iff s.recs fun _ g => g.installed = false → g.sent = []]
    exact ⟨nofun, fun q _ => hi.sent q⟩

theorem Unsent.send (hi : Unsent s) (h : SendMove s x ret s') : Unsent s' := by
  cases h with
  | @enter r _ hpc hg =>
    refine hi.setSnd fun q hq => ?_
    rw [← Option.some.inj hq]
    exact hi.current r hg
  | check hpc | lock hpc | enabled hpc =>
    refine hi.setSnd fun q hq => hi.used x q ?_
    rw [hpc]
    exact hq
  | @full r _ hpc | @short r _ hpc =>
    have hinst := hi.used x r (by rw [hpc]; rfl)
    refine UnsentAt.setSnd (hi.setRecs (fun q => map_update ReceivePara.installed q rfl) ?_) ?_
    · intro q hq
      refine congrArg ReceivePara.sent (Function.update_of_ne ?_ _ _)
      rintro rfl
      rw [hinst] at hq
      cases hq
    · exact fun _ => nofun
  | crash => exact hi
  | _ =>
    refine hi.setSnd ?_
    exact fun _ => nofun

def record (g : ReceivePara) : Bool × List Sent := (g.installed, g.sent)

theorem Unsent.main (hi : Unsent s) (h : MainMove s s') : Unsent s' := by
  have hset : ∀ (x : Sender) (frame : List UInt8), UnsentAt s.gReceive s.server s.accepted s.recs
      (update s.snd x (.enter frame)) := fun x frame => hi.setSnd fun _ => nofun
  have hrecs : ∀ {recs : Nat → ReceivePara}, (∀ r, record (recs r) = record (s.recs r)) →
      UnsentAt s.gReceive s.server s.accepted recs s.snd := by
    intro recs h
    simp only [record, Prod.mk.injEq] at h
    exact hi.setRecs (fun r => (h r).1) fun r _ => (h r).2
  cases h with
  | acceptFirst | accept => exact hrecs (traceAccepted_keeps record (fun _ _ => rfl) s _)
  | rfMf | inquirySend => exact hset _ _
  | heartBeat => exact hrecs (heartBeat_keeps record (fun _ _ _ => rfl) s _ _)
  | reset | stop | free => exact hrecs fun r => map_update record r rfl
  | clear => exact ⟨hi.fresh, fun _ => nofun, hi.used, hi.sent⟩
  | _ => exact hi

theorem Unsent.step (hi : Unsent s) (hb : Below s) (h : (adapter K).step s act = some s') :
    Unsent s' := by
  obtain ⟨-, hmove⟩ := step_move h
  cases hmove with
  | server h =>
    cases h with
    | create => exact hi.create
    | install hpc => exact hi.install hb hpc
    | _ => exact ⟨fun r h => hi.fresh r (h.imp_right nofun), hi.current, hi.used, hi.sent⟩
  | main h => exact hi.main h
  | send h => exact hi.send h
  | receive h =>
    cases h <;> exact hi.setRecs (fun r => map_update ReceivePara.installed r rfl)
      fun r _ => map_update ReceivePara.sent r rfl
  | broker | dma =>
    refine hi.setSnd ?_
    exact fun _ => nofun
  | post h => cases h <;> exact hi
  | timer h => cases h <;> exact hi
  | spurious | disconnect => exact hi

theorem unsent (h : (adapter K).ReachesUnder C s) : Unsent s :=
  h.invariant (I := Unsent) unsent_init fun _ _ _ hr hi _ hs => hi.step (below hr) hs

-- ---------------------------------------------------------------------------
-- Intact streams
-- ---------------------------------------------------------------------------

structure StreamsAt (gReceive : Option Nat) (sendEnable : Bool) (recs : Nat → ReceivePara)
    (snd : Sender → SendPc) : Prop where
  intact : ∀ r, Intact (recs r).sent
  sending : ∀ x r, (snd x).sending = some r → (recs r).broken = false
  disabled : ∀ r, (recs r).broken = true →
    gReceive = some r ∨ (∃ x, (snd x).client = some r) →
    sendEnable = false ∨ ∃ x, (snd x).failing = some r

abbrev Streams (s : System) : Prop := StreamsAt s.gReceive s.sendEnable s.recs s.snd

theorem streams_init : Streams .init where
  intact _ := nofun
  sending _ _ := nofun
  disabled _ := nofun

theorem StreamsAt.setRecs {recs recs' : Nat → ReceivePara} (hi : StreamsAt g en recs senders)
    (hsent : ∀ r, (recs' r).sent = (recs r).sent ∨ (recs' r).sent = [])
    (hbroken : ∀ r, (recs' r).broken = true → (recs r).broken = true) :
    StreamsAt g en recs' senders := by
  refine ⟨fun r => ?_, fun x r h => ?_, fun r h => hi.disabled r (hbroken r h)⟩
  · rcases hsent r with heq | heq <;> rw [heq]
    · exact hi.intact r
    · exact nofun
  · by_contra hb
    have := hi.sending x r h
    rw [hbroken r (by simpa using hb)] at this
    cases this

theorem client_update {senders : Sender → SendPc} {x : Sender} {pc : SendPc} {r : Nat}
    (h : ∃ y, (update senders x pc y).client = some r) :
    pc.client = some r ∨ ∃ y, (senders y).client = some r := by
  rw [Function.exists_update_iff senders fun _ pc => pc.client = some r] at h
  exact h.imp_right fun ⟨y, _, hy⟩ => ⟨y, hy⟩

theorem failing_update {senders : Sender → SendPc} {x : Sender} (pc : SendPc) {r : Nat}
    (hx : (senders x).failing = none) (h : ∃ y, (senders y).failing = some r) :
    ∃ y, (update senders x pc y).failing = some r := by
  obtain ⟨y, hy⟩ := h
  have hne : y ≠ x := by
    rintro rfl
    rw [hx] at hy
    cases hy
  exact ⟨y, by rwa [Function.update_of_ne hne]⟩

theorem StreamsAt.setSnd {recs : Nat → ReceivePara} {senders : Sender → SendPc} {x : Sender}
    {pc : SendPc} (hi : StreamsAt g en recs senders) (hfail : (senders x).failing = none)
    (hsend : ∀ r, pc.sending = some r → (recs r).broken = false)
    (hclient : ∀ r, pc.client = some r → g = some r ∨ ∃ y, (senders y).client = some r) :
    StreamsAt g en recs (update senders x pc) := by
  refine ⟨hi.intact, ?_, fun r hb hused => ?_⟩
  · rw [Function.forall_update_iff senders fun _ pc => ∀ r, pc.sending = some r →
      (recs r).broken = false]
    exact ⟨hsend, fun y _ => hi.sending y⟩
  · have hold : g = some r ∨ ∃ y, (senders y).client = some r := by
      rcases hused with h | h
      · exact .inl h
      · exact (client_update h).elim (hclient r) .inr
    exact (hi.disabled r hb hold).imp_right (failing_update pc hfail)

theorem StreamsAt.sent {recs : Nat → ReceivePara} {senders : Sender → SendPc} {x : Sender}
    {pc : SendPc} (hi : StreamsAt g en recs senders) (hpc : senders x = .send r buf)
    (hopen : (recs r).isOpen = true) (e : Sent) (hsend : pc.sending = none)
    (hclient : pc.client = none) (hshort : e.full = false →
      pc.failing = some r ∧ ∀ y ≠ x, (senders y).sending ≠ some r) :
    StreamsAt g en (update recs r { recs r with sent := (recs r).sent ++ [e] })
      (update senders x pc) := by
  have hwhole : (recs r).sent.all Sent.full = true := by
    simpa [ReceivePara.broken, hopen] using hi.sending x r (by rw [hpc]; rfl)
  have hbroken : ({ recs r with sent := (recs r).sent ++ [e] } : ReceivePara).broken = !e.full := by
    simp [ReceivePara.broken, hopen, hwhole]
  constructor
  · rw [Function.forall_update_iff recs fun _ g => Intact g.sent]
    exact ⟨Intact.append hwhole e, fun q _ => hi.intact q⟩
  · rw [Function.forall_update_iff senders fun _ pc => ∀ q, pc.sending = some q →
      (update recs r { recs r with sent := (recs r).sent ++ [e] } q).broken = false]
    refine ⟨fun q h => ?_, fun y hy q h => ?_⟩
    · rw [hsend] at h
      cases h
    · by_cases hq : q = r
      · subst hq
        rw [Function.update_self, hbroken]
        by_contra hfull
        exact (hshort (by simpa using hfull)).2 y hy h
      · rw [Function.update_of_ne hq]
        exact hi.sending y q h
  · intro q hb hused
    by_cases hq : q = r
    · subst hq
      rw [Function.update_self, hbroken] at hb
      exact .inr ⟨x, by rw [Function.update_self]; exact (hshort (by simpa using hb)).1⟩
    · rw [Function.update_of_ne hq] at hb
      have hold : g = some q ∨ ∃ y, (senders y).client = some q :=
        hused.imp_right fun h => (client_update h).resolve_left (by rw [hclient]; exact nofun)
      exact (hi.disabled q hb hold).imp_right (failing_update pc (by rw [hpc]; rfl))

theorem Streams.unbroken (hi : Streams s) (hc : SendsSettled s (.send x ret))
    (hpc : s.snd x = .test r buf) (hen : s.sendEnable = true) : (s.recs r).broken = false := by
  by_contra hb
  have hb : (s.recs r).broken = true := by simpa using hb
  have hopen : (s.recs r).isOpen = true := by
    simp only [ReceivePara.broken, Bool.and_eq_true] at hb
    exact hb.1
  rcases hi.disabled r hb (.inr ⟨x, by rw [hpc]; rfl⟩) with h | ⟨y, h⟩
  · rw [hen] at h
    cases h
  · simp only [SendsSettled, hpc] at hc
    exact hc hopen hen y h

theorem Streams.send (hi : Streams s) (hc : SendsSettled s (.send x ret))
    (h : SendMove s x ret s') : Streams s' := by
  cases h with
  | refuse hpc hwaits =>
    refine hi.setSnd ?_ (fun _ => nofun) fun _ => nofun
    rw [hpc]
    exact SendPc.failing_of_testsWaiting hwaits
  | exception hpc => exact hi.setSnd (by rw [hpc]; rfl) (fun _ => nofun) fun _ => nofun
  | enter hpc hg => exact hi.setSnd (by rw [hpc]; rfl) (fun _ => nofun) fun _ hq => .inl (hq ▸ hg)
  | check hpc | lock hpc =>
    exact hi.setSnd (by rw [hpc]; rfl) (fun _ => nofun) fun _ hq => .inr ⟨x, by rw [hpc]; exact hq⟩
  | enabled hpc hen =>
    refine hi.setSnd (by rw [hpc]; rfl) (fun q hq => ?_) fun _ => nofun
    rw [← Option.some.inj hq]
    exact hi.unbroken hc hpc hen
  | disabled hpc | unlock hpc => exact hi.setSnd (by rw [hpc]; rfl) (fun _ => nofun) fun _ => nofun
  | full hpc hopen => exact hi.sent hpc hopen _ rfl rfl (by simp [Sent.full])
  | short hpc hopen _ hshort =>
    refine hi.sent hpc hopen _ rfl rfl fun _ => ⟨rfl, ?_⟩
    simp only [SendsSettled, hpc] at hc
    exact hc hopen hshort
  | closed hpc => exact hi.setSnd (by rw [hpc]; rfl) (fun _ => nofun) fun _ => nofun
  | fail =>
    refine ⟨hi.intact, ?_, fun _ _ _ => .inl rfl⟩
    rw [Function.forall_update_iff s.snd fun _ pc => ∀ r, pc.sending = some r →
      (s.recs r).broken = false]
    exact ⟨fun _ => nofun, fun y _ => hi.sending y⟩
  | crash => exact hi

theorem StreamsAt.congr {recs recs' : Nat → ReceivePara} (hi : StreamsAt g en recs senders)
    (hr : ∀ r, (recs' r).stream = (recs r).stream) : StreamsAt g en recs' senders :=
  hi.setRecs (fun r => .inl (ReceivePara.broken_congr (hr r)).2)
    fun r h => (ReceivePara.broken_congr (hr r)).1 ▸ h

theorem Streams.main (hi : Streams s) (hm : MainIdle s) (hc : SendsSettled s (.main a))
    (h : MainMove s s') : Streams s' := by
  have henter : s.main ≠ .sending → ∀ frame, StreamsAt s.gReceive s.sendEnable s.recs
      (update s.snd .main (.enter frame)) := fun hne frame =>
    hi.setSnd (by rw [hm hne]; rfl) (fun _ => nofun) fun _ => nofun
  cases h with
  | acceptFirst | accept =>
    exact hi.congr (traceAccepted_keeps ReceivePara.stream (fun _ _ => rfl) s _)
  | rfMf _ hpc | inquirySend _ hpc => exact henter (by rw [hpc]; exact nofun) _
  | heartBeat =>
    exact hi.congr (heartBeat_keeps ReceivePara.stream (fun _ _ _ => rfl) s _ _)
  | reset | stop => exact hi.congr fun r => map_update ReceivePara.stream r rfl
  | @free r hpc =>
    refine hi.setRecs (fun q => .inl (map_update ReceivePara.sent q rfl)) ?_
    exact (Function.forall_update_iff s.recs fun q g => g.broken = true →
      (s.recs q).broken = true).mpr ⟨nofun, fun _ _ => id⟩
  | clear => exact ⟨hi.intact, hi.sending, fun r hb h => hi.disabled r hb (h.imp nofun id)⟩
  | enableSend hpc =>
    refine ⟨hi.intact, hi.sending, fun r hb h => ?_⟩
    have := hc hpc r h
    rw [show (s.recs r).broken = true from hb] at this
    cases this
  | _ => exact hi

theorem Streams.server (hi : Streams s) (hu : Unsent s) (h : ServerMove s s') : Streams s' := by
  cases h with
  | create =>
    refine hi.setRecs ?_ ?_
    · rw [Function.forall_update_iff s.recs fun r g => g.sent = (s.recs r).sent ∨ g.sent = []]
      exact ⟨.inr rfl, fun _ _ => .inl rfl⟩
    · rw [Function.forall_update_iff s.recs fun r g => g.broken = true →
        (s.recs r).broken = true]
      exact ⟨nofun, fun _ _ => id⟩
  | @install r hpc =>
    have hset : StreamsAt s.gReceive s.sendEnable
        (update s.recs r { s.recs r with installed := true }) s.snd :=
      hi.congr fun q => map_update ReceivePara.stream q rfl
    have hnew : (s.recs r).broken = false :=
      ReceivePara.broken_of_unsent (hu.sent r (hu.fresh r (.inr hpc)))
    refine ⟨hset.intact, hset.sending, fun q hb h => hset.disabled q hb (h.imp_left fun hg => ?_)⟩
    obtain rfl := Option.some.inj hg
    have hsame := (ReceivePara.broken_congr
      (map_update (f := s.recs) (b := { s.recs r with installed := true })
        ReceivePara.stream r rfl)).1
    rw [hsame, hnew] at hb
    cases hb
  | _ => exact hi

theorem Streams.step (hi : Streams s) (hu : Unsent s) (hm : MainIdle s) (hc : SendsSettled s act)
    (h : (adapter K).step s act = some s') : Streams s' := by
  obtain ⟨-, hmove⟩ := step_move h
  cases hmove with
  | main h => exact hi.main hm hc h
  | send h => exact hi.send hc h
  | server h => exact hi.server hu h
  | receive h => cases h <;> exact hi.congr fun r => map_update ReceivePara.stream r rfl
  | broker _ hidle | dma _ hidle =>
    exact hi.setSnd (by rw [hidle]; rfl) (fun _ => nofun) fun _ => nofun
  | post h => cases h <;> exact hi
  | timer h => cases h <;> exact hi
  | spurious | disconnect => exact hi

/-- On every connection nothing follows a send that was short or failed, so its
bytes are whole frames and at most one proper prefix of a frame at the end. -/
theorem streams_intact (h : (adapter K).ReachesUnder SendsSettled s) (r : Nat) :
    Intact (s.recs r).sent ∧ Framed (s.recs r).sent := by
  have hi : Streams s := h.invariant (I := Streams) streams_init
    fun _ _ _ hr hi hc hs => hi.step (unsent hr) (mainIdle hr) hc hs
  exact ⟨hi.intact r, (hi.intact r).framed⟩

-- ---------------------------------------------------------------------------
-- Runs in which the mutex excludes
-- ---------------------------------------------------------------------------

/-- `mutex_reInit` finds the send mutex free, and `send_enable` is set only while
no connection is broken. -/
def MutexFree (s : System) : Act → Prop
  | .main _ => (s.main = .reInit → s.sendMutex = none) ∧
      (s.main = .enableSend → ∀ r < s.accepted, (s.recs r).broken = false)
  | _ => True

instance (s : System) : (act : Act) → Decidable (MutexFree s act)
  | .main _ => inferInstanceAs (Decidable ((_ → _) ∧ (_ → ∀ r < s.accepted, _)))
  | .server _ | .receive _ _ | .post _ | .timer | .spurious | .send _ _ | .callback _ _ _
  | .disconnect => isTrue trivial

theorem reInitFree_of_mutexFree (h : MutexFree s act) : ReInitFree s act := by
  cases act with
  | main a => exact h.1
  | _ => trivial

/-- As long as the mutex excludes, only the store to `send_enable` matters. -/
theorem settled_of_mutexFree (h : (adapter K).ReachesUnder MutexFree s) :
    (adapter K).ReachesUnder SendsSettled s := by
  refine h.mono fun s act hr hc => ?_
  have hu := unsent hr
  have hx := (exclusive (hr.mono fun _ act _ hc => reInitFree_of_mutexFree hc)).senders
  cases act with
  | main a =>
    intro hpc r hused
    have hinst : (s.recs r).installed = true := by
      rcases hused with hg | ⟨x, hclient⟩
      · exact hu.current r hg
      · exact hu.used x r (SendPc.record_of_client hclient)
    refine hc.2 hpc r (Nat.not_le.mp fun hle => ?_)
    rw [hu.fresh r (.inl hle)] at hinst
    cases hinst
  | send x ret =>
    cases hpc : s.snd x with
    | send r buf =>
      simp only [SendsSettled, hpc]
      intro _ _ y hy hsending
      exact hy (hx.unique (SendPc.critical_of_sending hsending) (by rw [hpc]; rfl))
    | test r buf =>
      simp only [SendsSettled, hpc]
      intro _ _ y hfailing
      obtain rfl : y = x :=
        hx.unique (SendPc.critical_of_failing hfailing) (by rw [hpc]; rfl)
      rw [hpc] at hfailing
      cases hfailing
    | _ => simp [SendsSettled, hpc]
  | _ => trivial

def frameCutShort : List Act :=
  boot ++ acceptClient ++ mains 9 ++
    [.callback 0 false [1, 2]] ++ sends (.callback 0) (some 1) 7 ++
    [.callback 0 false [3, 4]] ++ sends (.callback 0) (some 2) 5

theorem frameCutShort_intact :
    ∃ s, (adapter 8).run frameCutShort = some s ∧
      Intact (s.recs 0).sent ∧ Framed (s.recs 0).sent := by
  obtain ⟨s, hs, hr⟩ := Machine.exists_run (M := adapter 8) (C := MutexFree)
    frameCutShort (by decide +kernel) (by decide +kernel)
  exact ⟨s, hs, streams_intact (settled_of_mutexFree hr) 0⟩

/-- A frame to the second client is cut short before its accept message is
handled, which lets the next frame through. -/
def sendBeforeAccept : List Act :=
  boot ++ acceptClient ++ mains 9 ++ tick ++ mains 6 ++ exitReceive 0 ++ mains 5 ++
    acceptClient ++ [.callback 0 false [1, 2]] ++ sends (.callback 0) (some 1) 7 ++ mains 12 ++
    [.callback 0 false [3, 4]] ++ sends (.callback 0) (some 2) 6

theorem sendBeforeAccept_broken :
    ¬ ∀ K s, 0 < K → (adapter K).Reaches s →
      ∀ r, Intact (s.recs r).sent ∧ Framed (s.recs r).sent := by
  intro h
  obtain ⟨s, hs, hp⟩ := Machine.exists_reaches (M := adapter 8) (p := fun s =>
    (s.recs 1).sent = [⟨[1, 2], some 1⟩, ⟨[3, 4], some 2⟩]) sendBeforeAccept (by decide +kernel)
  have hsent := of_decide_eq_true hp
  obtain ⟨-, frames, tail, hbytes, hprefix, htail⟩ := h 8 s (by decide) hs 1
  rw [hsent] at hbytes hprefix htail
  have hbytes : [1, 3, 4] = frames.flatten ++ tail := hbytes
  cases frames with
  | nil =>
    -- the bytes are no prefix of the second frame
    obtain rfl : [1, 3, 4] = tail := hbytes
    simp at htail
  | cons frame frames =>
    obtain rfl : frame = [1, 2] := by simpa using (List.cons_prefix_cons.mp hprefix).1
    simp at hbytes

end System

end DevAdapter

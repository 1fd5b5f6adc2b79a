import DevAdapter.System.Startup

/-!
# The missing client

`freeReceThread` leaves `g_receive` `NULL`, and a client that is being
accepted is installed before `waiting` says so. A run never dereferences
`NULL` if heart beats are handled and frames sent only while a client is
present, and if no client is installed while another is being freed.
-/

namespace DevAdapter

open Function (update)
open Transition

/-- The main thread handles a timeout of a client that is there. -/
def MainPc.checking : MainPc → Bool
  | .checkConnected _ | .resetConnected _ | .closeStreams _ | .setDisconnected _ => true
  | _ => false

/-- The main thread is in `freeReceThread`, between its two stores to the server. -/
def MainPc.freeing : MainPc → Bool
  | .stopReceive _ | .join _ | .free _ | .clearReceive _ => true
  | _ => false

def MainPc.handles (type : MsgType) : MainPc → Bool
  | .handle m => m.type = type
  | _ => false

def MainPc.disconnects : MainPc → Bool
  | .setDisconnected _ => true
  | _ => false

def ServerPc.installs : ServerPc → Bool
  | .created _ => true
  | _ => false

def ServerPc.between : ServerPc → Bool
  | .installed _ => true
  | _ => false

def SendPc.enters : SendPc → Bool
  | .enter _ => true
  | _ => false

namespace System

/-- A client's record is installed and not taken away yet, as far as the state
of the server and the places of the two threads that write it tell. -/
def ClientPresent (s : System) : Prop :=
  s.waiting = .connected ∨ s.server.between = true ∨ s.main.freeing = true

/-- No record is installed while the main thread is in `freeReceThread`, and it
does not begin that between the two stores of an accept. -/
def InOrder (s : System) : Act → Prop
  | .server _ => s.server.installs = true → s.main.freeing = false
  | .main _ => s.main.disconnects = true → s.server.between = false
  | _ => True

def UsesPresent (s : System) : Act → Prop
  | .main _ => s.main.handles .receivedHeartBeat = true → ClientPresent s
  | .send x _ => (s.snd x).enters = true → ClientPresent s
  | _ => True

instance (s : System) : Decidable (ClientPresent s) := inferInstanceAs (Decidable (_ ∨ _ ∨ _))

instance (s : System) : (act : Act) → Decidable (InOrder s act)
  | .server _ | .main _ => inferInstanceAs (Decidable (_ → _))
  | .receive _ _ | .post _ | .timer | .spurious | .send _ _ | .callback _ _ _ | .disconnect =>
    isTrue trivial

instance (s : System) : (act : Act) → Decidable (UsesPresent s act)
  | .main _ | .send _ _ => inferInstanceAs (Decidable (_ → _))
  | .server _ | .receive _ _ | .post _ | .timer | .spurious | .callback _ _ _ | .disconnect =>
    isTrue trivial

-- ---------------------------------------------------------------------------
-- Where a client is present
-- ---------------------------------------------------------------------------

structure PresentAt (waiting : Waiting) (gReceive : Option Nat) (server : ServerPc)
    (main : MainPc) : Prop where
  connected : waiting = .connected → gReceive ≠ none
  between : server.between = true → gReceive ≠ none
  checking : main.checking = true → gReceive ≠ none
  freeing : main.freeing = true →
    gReceive ≠ none ∧ waiting = .disconnected ∧ server.between = false

abbrev Present (s : System) : Prop := PresentAt s.waiting s.gReceive s.server s.main

theorem present_init : Present .init where
  connected := nofun
  between := nofun
  checking := nofun
  freeing := nofun

variable {s s' : System}

theorem Present.gReceive_ne_none (hi : Present s) (hp : ClientPresent s) : s.gReceive ≠ none := by
  rcases hp with h | h | h
  · exact hi.connected h
  · exact hi.between h
  · exact (hi.freeing h).1

theorem Present.server (hi : Present s) (hstart : Startup s) (hc : InOrder s (.server listening))
    (h : ServerMove s s') : Present s' := by
  obtain ⟨hconn, hbetween, hcheck, hfree⟩ := hi
  cases h with
  | listen hpc =>
    refine ⟨nofun, nofun, hcheck, fun h => ?_⟩
    have hw := (hfree h).2.1
    rw [hstart.start hpc] at hw
    cases hw
  | giveUp => exact ⟨nofun, nofun, hcheck, fun h => ⟨(hfree h).1, rfl, rfl⟩⟩
  | create => exact ⟨hconn, nofun, hcheck, fun h => ⟨(hfree h).1, (hfree h).2.1, rfl⟩⟩
  | install hpc =>
    refine ⟨fun _ => nofun, fun _ => nofun, fun _ => nofun, fun h => ?_⟩
    rw [hc (by rw [hpc]; rfl)] at h
    cases h
  | connect hpc =>
    have hb : s.server.between = true := by rw [hpc]; rfl
    refine ⟨fun _ => hbetween hb, nofun, hcheck, fun h => ?_⟩
    rw [(hfree h).2.2] at hb
    cases hb
  | post => exact ⟨hconn, nofun, hcheck, fun h => ⟨(hfree h).1, (hfree h).2.1, rfl⟩⟩

theorem Present.main (hi : Present s) (hstart : Startup s) (hc : InOrder s (.main a))
    (h : MainMove s s') : Present s' := by
  obtain ⟨hconn, hbetween, hcheck, hfree⟩ := hi
  cases h with
  | timeout hpc htype hw =>
    exact ⟨hconn, hbetween, fun _ => hconn (hstart.connected_of_timeout hpc htype hw), nofun⟩
  | seen hpc | missed hpc | closeStreams _ _ hpc =>
    exact ⟨hconn, hbetween, fun _ => hcheck (by rw [hpc]; rfl), nofun⟩
  | setDisconnected hpc =>
    refine ⟨nofun, hbetween, nofun, fun _ => ⟨hcheck (by rw [hpc]; rfl), rfl, ?_⟩⟩
    exact hc (by rw [hpc]; rfl)
  | stop hpc | join hpc | free hpc =>
    exact ⟨hconn, hbetween, nofun, fun _ => hfree (by rw [hpc]; rfl)⟩
  | clear hpc =>
    obtain ⟨-, hw, hs⟩ := hfree (by rw [hpc]; rfl)
    refine ⟨fun h => ?_, fun h => ?_, nofun, nofun⟩
    · rw [show s.waiting = .connected from h] at hw
      cases hw
    · rw [show s.server.between = true from h] at hs
      cases hs
  | crash => exact ⟨hconn, hbetween, hcheck, hfree⟩
  | _ => exact ⟨hconn, hbetween, nofun, nofun⟩

theorem Present.step (hi : Present s) (hstart : Startup s) (hc : InOrder s act)
    (h : (adapter K).step s act = some s') : Present s' := by
  obtain ⟨-, hmove⟩ := step_move h
  cases hmove with
  | server h => exact hi.server hstart hc h
  | main h => exact hi.main hstart hc h
  | post h => cases h <;> exact hi
  | receive h => cases h <;> exact hi
  | timer h => cases h <;> exact hi
  | send h => cases h <;> exact hi
  | spurious | broker | dma | disconnect => exact hi

theorem present (hC : ∀ s act, C s act → InOrder s act) (h : (adapter K).ReachesUnder C s) :
    Present s :=
  h.invariant present_init fun _ _ _ hr hi hc hs => hi.step (startup hr) (hC _ _ hc) hs

-- ---------------------------------------------------------------------------
-- No dereference of `NULL`
-- ---------------------------------------------------------------------------

theorem Present.derefs (hi : Present s) (hpc : s.main.derefs = true)
    (hbeat : s.main.handles .receivedHeartBeat = true → ClientPresent s) : s.gReceive ≠ none := by
  cases hm : s.main with
  | handle m =>
    refine hi.gReceive_ne_none (hbeat ?_)
    rw [hm] at hpc ⊢
    exact hpc
  | checkConnected | resetConnected => exact hi.checking (by rw [hm]; rfl)
  | stopReceive => exact (hi.freeing (by rw [hm]; rfl)).1
  | _ =>
    rw [hm] at hpc
    cases hpc

/-- In a run that keeps the order of accepts and stops and handles heart beats
and sends only while a client is present, `NULL` is never dereferenced. -/
theorem no_null_client
    (h : (adapter K).ReachesUnder (fun s act => InOrder s act ∧ UsesPresent s act) s) :
    s.fault = false := by
  refine h.invariant (I := fun s => s.fault = false) rfl fun s act s' hr _ hc hs => ?_
  have hi := present (fun _ _ hc => hc.1) hr
  obtain ⟨hfault, hmove⟩ := step_move hs
  cases hmove with
  | main h =>
    cases h with
    | crash hpc hg => exact absurd hg (hi.derefs hpc hc.2)
    | _ => exact hfault
  | send h =>
    cases h with
    | crash hpc hg => exact absurd hg (hi.gReceive_ne_none (hc.2 (by rw [hpc]; rfl)))
    | _ => exact hfault
  | post h => cases h <;> exact hfault
  | server h => cases h <;> exact hfault
  | receive h => cases h <;> exact hfault
  | timer h => cases h <;> exact hfault
  | spurious | broker | dma | disconnect => exact hfault

def clientServed : List Act :=
  boot ++ acceptClient ++ mains 9 ++ beat 0 ++ mains 2 ++ tick ++ mains 4 ++
    [.callback 0 false [1]] ++ sends (.callback 0) (some 1) 6

theorem clientServed_no_null :
    ∃ s, (adapter 8).run clientServed = some s ∧ s.fault = false := by
  obtain ⟨s, hs, hr⟩ := Machine.exists_run (M := adapter 8) (C := fun s act => InOrder s act ∧ UsesPresent s act)
    clientServed (by decide +kernel) (by decide +kernel)
  exact ⟨s, hs, no_null_client hr⟩

def lateBeat : List Act :=
  boot ++ acceptClient ++ mains 9 ++ tick ++ beat 0 ++ mains 6 ++ exitReceive 0 ++ mains 5 ++
    mains 2

theorem lateBeat_null : ¬ ∀ K s, 0 < K → (adapter K).Reaches s → s.fault = false := by
  intro h
  obtain ⟨s, hs, hfault⟩ := Machine.exists_reaches (M := adapter 8) (p := System.fault) lateBeat
    (by decide +kernel)
  rw [h 8 s (by decide) hs] at hfault
  cases hfault

end System

end DevAdapter

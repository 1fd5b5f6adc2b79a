import DevAdapter.System.MissingClient
import DevAdapter.System.Posts

/-!
# Ownership of accepted clients

The server thread installs records and the main thread takes them away,
without a common lock. Both leave each other's work alone if a client is
accepted only when no receive thread runs, and installed only when no record
is.
-/

namespace DevAdapter

open Function (update)
open Transition

/-- The record `freeReceThread` has stopped and not taken away yet. -/
def MainPc.leaving : MainPc → Option Nat
  | .join r | .free r | .clearReceive r => some r
  | _ => none

/-- What ownership is about in a record: its thread, its stops, its place. -/
def ReceivePara.owned (g : ReceivePara) : Bool × Nat × Bool :=
  (g.receiveRunning, g.stops, g.installed)

namespace System

/-- A receive thread is created only when none runs, and its record installed
only when none is. -/
def OneAtATime (s : System) : Act → Prop
  | .server _ =>
    (s.server = .accepting → ∀ r < s.accepted, (s.recs r).receiveRunning = false) ∧
    (s.server.installs = true → s.gReceive = none)
  | _ => True

instance (s : System) : (act : Act) → Decidable (OneAtATime s act)
  | .server _ => inferInstanceAs (Decidable ((_ → _) ∧ (_ → _)))
  | .main _ | .receive _ _ | .post _ | .timer | .spurious | .send _ _ | .callback _ _ _
  | .disconnect => isTrue trivial

-- ---------------------------------------------------------------------------
-- Between the two stores of an accept
-- ---------------------------------------------------------------------------

/-- Between the two stores of an accept the main thread leaves clients alone. -/
structure BetweenAt (waiting : Waiting) (server : ServerPc) (main : MainPc) : Prop where
  waiting : server.between = true → waiting ≠ .connected
  checking : server.between = true → main.checking = false

abbrev Between (s : System) : Prop := BetweenAt s.waiting s.server s.main

variable {s s' : System}

theorem inOrder_of_oneAtATime (hp : Present s) (hb : Between s) (hc : OneAtATime s act) :
    InOrder s act := by
  cases act with
  | server listening =>
    intro hi
    by_contra hf
    exact (hp.freeing (by simpa using hf)).1 (hc.2 hi)
  | main a =>
    intro hd
    by_contra hbetween
    have hcheck := hb.checking (by simpa using hbetween)
    cases hm : s.main <;> rw [hm] at hd hcheck <;> cases hd
    cases hcheck
  | _ => trivial

theorem Between.step (hb : Between s) (hp : Present s) (hstart : Startup s)
    (hc : OneAtATime s act) (h : (adapter K).step s act = some s') : Between s' := by
  obtain ⟨-, hmove⟩ := step_move h
  cases hmove with
  | server h =>
    cases h with
    | install hpc =>
      have hnone := hc.2 (by rw [hpc]; rfl)
      refine ⟨fun _ hw => hp.connected hw hnone, fun _ => ?_⟩
      by_contra hcheck
      exact hp.checking (by simpa using hcheck) hnone
    | _ => exact ⟨nofun, nofun⟩
  | main h =>
    cases h with
    | timeout hpc htype hw =>
      refine ⟨hb.waiting, fun hbetween => ?_⟩
      exact absurd (hstart.connected_of_timeout hpc htype hw) (hb.waiting hbetween)
    | seen hpc | missed hpc | closeStreams _ _ hpc =>
      refine ⟨hb.waiting, fun hbetween => ?_⟩
      have := hb.checking hbetween
      rw [hpc] at this
      cases this
    | setDisconnected => exact ⟨fun _ => nofun, fun _ => rfl⟩
    | crash => exact hb
    | _ => exact ⟨hb.waiting, fun _ => rfl⟩
  | post h => cases h <;> exact hb
  | receive h => cases h <;> exact hb
  | timer h => cases h <;> exact hb
  | send h => cases h <;> exact hb
  | spurious | broker | dma | disconnect => exact hb

-- ---------------------------------------------------------------------------
-- Who owns a record
-- ---------------------------------------------------------------------------

/-- Each record is installed from its accept until it is stopped. -/
structure OwnAt (gReceive : Option Nat) (server : ServerPc) (main : MainPc)
    (recs : Nat → ReceivePara) : Prop where
  running : ∀ r, (recs r).receiveRunning = true → gReceive = some r ∨ server = .created r
  created : ∀ r, server = .created r → gReceive ≠ some r ∧ (recs r).stops = 0 ∧
    (recs r).receiveRunning = true
  alone : ∀ r, server = .created r → ∀ r', (recs r').receiveRunning = true → r' = r
  installed : ∀ r, (recs r).installed = true → (recs r).stops = 0 → gReceive = some r
  held : ∀ r, gReceive = some r →
    (recs r).receiveRunning = true ∧ (recs r).stops = 0 ∨ main.leaving = some r
  leaving : ∀ r, main.leaving = some r → gReceive = some r ∧ (recs r).stops = 1 ∧
    (recs r).receiveRunning = false
  stops : ∀ r, (recs r).stops ≤ 1

abbrev Own (s : System) : Prop := OwnAt s.gReceive s.server s.main s.recs

theorem own_init : Own .init where
  running _ := nofun
  created _ := nofun
  alone _ := nofun
  installed _ := nofun
  held _ := nofun
  leaving _ := nofun
  stops _ := Nat.zero_le _

theorem Own.congr (hi : Own s) (hg : s'.gReceive = s.gReceive) (hs : s'.server = s.server)
    (hm : s'.main.leaving = s.main.leaving)
    (hr : ∀ r, ReceivePara.owned (s'.recs r) = ReceivePara.owned (s.recs r)) : Own s' := by
  simp only [ReceivePara.owned, Prod.mk.injEq] at hr
  have hrun r := (hr r).1
  have hstops r := (hr r).2.1
  have hinst r := (hr r).2.2
  constructor
  · simpa only [hg, hs, hrun] using hi.running
  · simpa only [hg, hs, hrun, hstops] using hi.created
  · simpa only [hs, hrun] using hi.alone
  · simpa only [hg, hstops, hinst] using hi.installed
  · simpa only [hg, hm, hrun, hstops] using hi.held
  · simpa only [hg, hm, hrun, hstops] using hi.leaving
  · simpa only [hstops] using hi.stops

theorem Own.create (hi : Own s) (hb : Below s)
    (hstopped : ∀ r < s.accepted, (s.recs r).receiveRunning = false) :
    OwnAt s.gReceive (.created s.accepted) s.main (update s.recs s.accepted .init) := by
  have hnone : ∀ r, (s.recs r).receiveRunning = false := by
    intro r
    by_contra h
    have hr : (s.recs r).receiveRunning = true := by simpa using h
    rw [hstopped r (hb r (hi.running r hr))] at hr
    cases hr
  have hold : ∀ r, s.gReceive = some r → update s.recs s.accepted .init r = s.recs r :=
    fun r h => Function.update_of_ne (Nat.ne_of_lt (hb r (.inl h))) _ _
  have hrunning : ∀ r, (update s.recs s.accepted .init r).receiveRunning = true →
      r = s.accepted := by
    intro r h
    by_contra hr
    rw [Function.update_of_ne hr, hnone r] at h
    cases h
  constructor
  · intro r h
    exact .inr (by rw [hrunning r h])
  · intro r h
    obtain rfl := ServerPc.created.inj h
    refine ⟨fun hg => ?_, by simp [ReceivePara.init, ReceivePara.absent], by simp [ReceivePara.init]⟩
    exact absurd (hb _ (.inl hg)) (Nat.lt_irrefl _)
  · intro r h r' h'
    rw [hrunning r' h', ServerPc.created.inj h]
  · rw [Function.forall_update_iff s.recs fun r g => g.installed = true → g.stops = 0 →
      s.gReceive = some r]
    exact ⟨nofun, fun r _ => hi.installed r⟩
  · intro r h
    rw [hold r h]
    exact hi.held r h
  · intro r h
    rw [hold r (hi.leaving r h).1]
    exact hi.leaving r h
  · rw [Function.forall_update_iff s.recs fun _ g => g.stops ≤ 1]
    exact ⟨Nat.zero_le _, fun r _ => hi.stops r⟩

theorem Own.install (hi : Own s) (hpc : s.server = .created r) (hnone : s.gReceive = none) :
    OwnAt (some r) (.installed r) s.main
      (update s.recs r { s.recs r with installed := true }) := by
  obtain ⟨-, hzero, hrun⟩ := hi.created r hpc
  have hleave : s.main.leaving = none := by
    by_contra h
    obtain ⟨q, hq⟩ := Option.ne_none_iff_exists'.mp h
    rw [(hi.leaving q hq).1] at hnone
    cases hnone
  have hsame : ∀ q, (update s.recs r { s.recs r with installed := true } q).receiveRunning =
      (s.recs q).receiveRunning := fun q => map_update ReceivePara.receiveRunning q rfl
  have hstops : ∀ q, (update s.recs r { s.recs r with installed := true } q).stops =
      (s.recs q).stops := fun q => map_update ReceivePara.stops q rfl
  constructor
  · intro q h
    rw [hsame] at h
    rw [hi.alone r hpc q h]
    exact .inl rfl
  · exact nofun
  · exact nofun
  · rw [Function.forall_update_iff s.recs fun q g => g.installed = true → g.stops = 0 →
      some r = some q]
    refine ⟨fun _ _ => rfl, fun q _ h hs => ?_⟩
    have hold := hi.installed q h hs
    rw [hnone] at hold
    cases hold
  · intro q h
    obtain rfl := Option.some.inj h
    rw [hsame, hstops]
    exact .inl ⟨hrun, hzero⟩
  · intro q h
    rw [hleave] at h
    cases h
  · intro q
    rw [hstops]
    exact hi.stops q

theorem Own.stop (hi : Own s) (hpc : s.main = .stopReceive n) (hg : s.gReceive = some r) :
    OwnAt s.gReceive s.server (.join r) (update s.recs r { s.recs r with
      receiveRunning := false, stops := (s.recs r).stops + 1 }) := by
  obtain ⟨hrun, hzero⟩ : (s.recs r).receiveRunning = true ∧ (s.recs r).stops = 0 := by
    rcases hi.held r hg with h | h
    · exact h
    · rw [hpc] at h
      cases h
  have hcreated : ∀ q, s.server ≠ .created q := by
    intro q hq
    have := hi.alone q hq r hrun
    rw [this] at hg
    exact (hi.created q hq).1 hg
  constructor
  · rw [Function.forall_update_iff s.recs fun q g => g.receiveRunning = true →
      s.gReceive = some q ∨ s.server = .created q]
    exact ⟨nofun, fun q _ => hi.running q⟩
  · exact fun q h => absurd h (hcreated q)
  · exact fun q h => absurd h (hcreated q)
  · rw [Function.forall_update_iff s.recs fun q g => g.installed = true → g.stops = 0 →
      s.gReceive = some q]
    exact ⟨fun _ _ => hg, fun q _ => hi.installed q⟩
  · intro q h
    rw [hg] at h
    exact .inr h
  · intro q h
    obtain rfl := Option.some.inj h
    exact ⟨hg, by simp [hzero], by simp⟩
  · rw [Function.forall_update_iff s.recs fun _ g => g.stops ≤ 1]
    exact ⟨by simp [hzero], fun q _ => hi.stops q⟩

theorem Own.clear (hi : Own s) (hpc : s.main = .clearReceive r) :
    OwnAt none s.server .reInit s.recs := by
  obtain ⟨hg, hone, hrun⟩ := hi.leaving r (by rw [hpc]; rfl)
  have honly : ∀ q, s.gReceive = some q → q = r := by
    intro q h
    rw [hg] at h
    exact (Option.some.inj h).symm
  constructor
  · intro q h
    rcases hi.running q h with hq | hq
    · rw [honly q hq, hrun] at h
      cases h
    · exact .inr hq
  · exact fun q h => ⟨nofun, (hi.created q h).2⟩
  · exact hi.alone
  · intro q h hs
    rw [honly q (hi.installed q h hs), hone] at hs
    cases hs
  · exact nofun
  · exact nofun
  · exact hi.stops

theorem Own.server (hi : Own s) (hb : Below s) (hc : OneAtATime s (.server listening))
    (h : ServerMove s s') : Own s' := by
  have hquit : ∀ {server : ServerPc}, (∀ r, s.server ≠ .created r) → (∀ r, server ≠ .created r) →
      OwnAt s.gReceive server s.main s.recs := by
    intro server hold hnew
    exact ⟨fun r h => (hi.running r h).imp id fun h => absurd h (hold r),
      fun r h => absurd h (hnew r), fun r h => absurd h (hnew r),
      hi.installed, hi.held, hi.leaving, hi.stops⟩
  cases h with
  | create hpc => exact hi.create hb (hc.1 hpc)
  | install hpc => exact hi.install hpc (hc.2 (by rw [hpc]; rfl))
  | listen hpc | giveUp hpc | connect hpc | post hpc =>
    exact hquit (fun r => by rw [hpc]; exact nofun) fun r => nofun

theorem Own.main (hi : Own s) (h : MainMove s s') : Own s' := by
  cases h with
  | stop hpc hg => exact hi.stop hpc hg
  | clear hpc => exact hi.clear hpc
  | acceptFirst hpc | accept hpc =>
    exact hi.congr rfl rfl (by rw [hpc]; rfl)
      (traceAccepted_keeps ReceivePara.owned (fun _ _ => rfl) s _)
  | heartBeat hpc =>
    exact hi.congr rfl rfl (by rw [hpc]; rfl)
      (heartBeat_keeps ReceivePara.owned (fun _ _ _ => rfl) s _ _)
  | reset hpc | free hpc =>
    exact hi.congr rfl rfl (by rw [hpc]; rfl) fun r => map_update ReceivePara.owned r rfl
  | crash => exact hi
  | _ => exact hi.congr rfl rfl (by rw [‹s.main = _›]; rfl) fun _ => rfl

theorem Own.step (hi : Own s) (hb : Below s) (hc : OneAtATime s act)
    (h : (adapter K).step s act = some s') : Own s' := by
  obtain ⟨-, hmove⟩ := step_move h
  cases hmove with
  | server h => exact hi.server hb hc h
  | main h => exact hi.main h
  | receive h =>
    cases h <;> exact hi.congr rfl rfl rfl fun r => map_update ReceivePara.owned r rfl
  | send h =>
    cases h with
    | full | short => exact hi.congr rfl rfl rfl fun r => map_update ReceivePara.owned r rfl
    | _ => exact hi
  | post h => cases h <;> exact hi
  | timer h => cases h <;> exact hi
  | spurious | broker | dma | disconnect => exact hi

-- ---------------------------------------------------------------------------
-- Runs that accept one client at a time
-- ---------------------------------------------------------------------------

theorem owned (h : (adapter K).ReachesUnder OneAtATime s) : Present s ∧ Between s ∧ Own s := by
  refine h.invariant (I := fun s => Present s ∧ Between s ∧ Own s)
    ⟨present_init, ⟨nofun, nofun⟩, own_init⟩ ?_
  rintro s act s' hr ⟨hp, hb, ho⟩ hc hs
  exact ⟨hp.step (startup hr) (inOrder_of_oneAtATime hp hb hc) hs, hb.step hp (startup hr) hc hs,
    ho.step (below hr) hc hs⟩

/-- What the owners of a record rely on. -/
structure Owned (s : System) : Prop where
  installed : ∀ r, (s.recs r).installed = true → (s.recs r).stops = 0 → s.gReceive = some r
  stops : ∀ r, (s.recs r).stops ≤ 1
  kept : ∀ r, (s.recs r).receiveRunning = true → s.gReceive = some r ∨ s.server = .created r
  running : ∀ r r', (s.recs r).receiveRunning = true → (s.recs r').receiveRunning = true → r = r'
  idle : s.main = .idle → s.waiting = .connected → s.gReceive ≠ none

theorem Own.unique (hi : Own s) (hr : (s.recs r).receiveRunning = true)
    (hr' : (s.recs r').receiveRunning = true) : r = r' := by
  rcases hi.running r hr with h | h
  · rcases hi.running r' hr' with h' | h'
    · rw [h] at h'
      exact Option.some.inj h'
    · exact hi.alone r' h' r hr
  · exact (hi.alone r h r' hr').symm

/-- When clients are accepted one at a time, a record stays installed until it
is stopped once, one receive thread runs, and `waiting` tells of a client. -/
theorem one_at_a_time_owned (h : (adapter K).ReachesUnder OneAtATime s) : Owned s := by
  obtain ⟨hp, -, ho⟩ := owned h
  exact ⟨ho.installed, ho.stops, ho.running, fun r r' => ho.unique, fun _ => hp.connected⟩

def clientAfterClient : List Act :=
  boot ++ acceptClient ++ mains 9 ++ tick ++ mains 6 ++ exitReceive 0 ++ mains 5 ++ acceptClient

theorem clientAfterClient_owned :
    ∃ s, (adapter 8).run clientAfterClient = some s ∧ Owned s := by
  obtain ⟨s, hs, hr⟩ := Machine.exists_run (M := adapter 8) (C := OneAtATime)
    clientAfterClient (by decide +kernel) (by decide +kernel)
  exact ⟨s, hs, one_at_a_time_owned hr⟩

def secondClient : List Act := boot ++ acceptClient ++ acceptClient

theorem secondClient_overwrites : ¬ ∀ K s, 0 < K → (adapter K).Reaches s → Owned s := by
  intro h
  obtain ⟨s, hs, hp⟩ := Machine.exists_reaches (M := adapter 8) (p := fun s =>
    (s.recs 0).receiveRunning && (s.recs 1).receiveRunning) secondClient (by decide +kernel)
  simp only [Bool.and_eq_true] at hp
  exact absurd ((h 8 s (by decide) hs).running 0 1 hp.1 hp.2) (by decide)

end System

end DevAdapter

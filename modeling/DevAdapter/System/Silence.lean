import DevAdapter.System.Credit

/-!
# Clients that fall silent

A timeout that finds `connected` set clears it, one that finds it cleared stops
the client. Beside a run is counted how many timeouts were handled since a
client was installed or a heart beat handled. The count never comes to two
without the client being stopped, whatever else is queued in between.
-/

namespace DevAdapter

open Function (update)
open Transition

def MainPc.clearing : MainPc → Bool
  | .resetConnected _ => true
  | _ => false

/-- The main thread stops a client: a timeout has found it silent. -/
def MainPc.stopping : MainPc → Bool
  | .closeStreams _ | .setDisconnected _ | .stopReceive _ | .join _ | .free _ | .clearReceive _ =>
    true
  | _ => false

def ServerPc.stores : ServerPc → Bool
  | .created _ => true
  | _ => false

def silenceAt (s : System) (n : Nat) : MainPc → Nat
  | .handle m => if m.type = .receivedHeartBeat then 0 else n
  | .checkConnected _ => if s.gReceive.isSome then n + 1 else n
  | _ => n

/-- The timeouts handled since a client was installed or a heart beat handled. -/
def silence (s : System) : Act → Nat → Nat
  | .server _, n => if s.server.stores then 0 else n
  | .main _, n => silenceAt s n s.main
  | _, n => n

def counting (K : Nat) : Machine (System × Nat) Act := (adapter K).withHistory 0 silence

namespace System

structure Watched (p : System × Nat) : Prop where
  le_two : p.2 ≤ 2
  once : p.2 = 1 → ∀ r, p.1.gReceive = some r → p.1.conn r = false ∨ p.1.main.clearing = true
  twice : p.2 = 2 → p.1.gReceive = none ∨ p.1.main.stopping = true

variable {s s' : System} {n : Nat}

theorem watched_zero (s : System) : Watched (s, 0) := ⟨Nat.zero_le _, nofun, nofun⟩

theorem Watched.congr (hi : Watched (s, n)) (hg : s'.gReceive = s.gReceive)
    (hmain : s'.main = s.main) (hconn : s'.conn = s.conn) : Watched (s', n) := by
  refine ⟨hi.le_two, ?_, ?_⟩
  · simpa only [hg, hmain, hconn] using hi.once
  · simpa only [hg, hmain] using hi.twice

theorem conn_quiet (h : MainMove s s')
    (hbeat : ∀ m, s.main = .handle m → m.type ≠ .receivedHeartBeat) {r : Nat}
    (hr : s.conn r = false) : s'.conn r = false := by
  rcases conn_main h with hconn | ⟨q, hconn⟩ | ⟨q, m, hm, htype, -⟩
  · rwa [hconn]
  · rw [hconn]
    exact update_eq_false nofun hr
  · exact absurd htype (hbeat m hm)

theorem Watched.goOn (hi : Watched (s, n)) (h : MainMove s s')
    (hbeat : ∀ m, s.main = .handle m → m.type ≠ .receivedHeartBeat)
    (hclearing : s.main.clearing = false)
    (hstop : s.main.stopping = true → s'.main.stopping = true ∨ s'.gReceive = none) :
    Watched (s', n) := by
  obtain ⟨-, -, hg, -⟩ := main_keeps h
  have hsome : ∀ r, s'.gReceive = some r → s.gReceive = some r := by
    intro r hr
    rcases hg with hg | hg
    · rwa [hg] at hr
    · rw [hg] at hr
      cases hr
  refine ⟨hi.le_two, fun hn r hr => .inl (conn_quiet h hbeat ?_), fun hn => ?_⟩
  · refine (hi.once hn r (hsome r hr)).resolve_right ?_
    rw [hclearing]
    exact nofun
  · rcases hi.twice hn with hnone | hstopping
    · exact .inl (hg.elim (·.trans hnone) id)
    · exact (hstop hstopping).symm

theorem Watched.reset (hi : Watched (s, n)) (hpc : s.main = .resetConnected k)
    (hg : s.gReceive = some r) :
    Watched ((s.setRec r { s.recs r with connected := false }).goto .idle, n) := by
  refine ⟨hi.le_two, fun _ q hq => .inl ?_, fun hn => ?_⟩
  · obtain rfl : r = q := Option.some.inj (hg.symm.trans hq)
    refine (congrFun (conn_setRec s r _) r).trans ?_
    exact Function.update_self _ _ _
  · have hstop := hi.twice hn
    simp [hpc, hg, MainPc.stopping] at hstop

theorem Watched.check (hi : Watched (s, n)) (hpc : s.main = .checkConnected k)
    (hg : s.gReceive = some r) :
    n = 0 ∨ n = 1 ∧ s.conn r = false := by
  have hle : n ≤ 2 := hi.le_two
  have htwice : n ≠ 2 := by
    intro hn
    have hstop := hi.twice hn
    simp [hpc, hg, MainPc.stopping] at hstop
  rcases Nat.eq_zero_or_pos n with hzero | hpos
  · exact .inl hzero
  · have hone : n = 1 := by omega
    refine .inr ⟨hone, (hi.once hone r hg).resolve_right ?_⟩
    rw [hpc]
    exact nofun

theorem silenceAt_eq {pc : MainPc} (hbeat : ∀ m, pc = .handle m → m.type ≠ .receivedHeartBeat)
    (hcheck : ∀ k, pc = .checkConnected k → s.gReceive = none) : silenceAt s n pc = n := by
  cases pc with
  | handle m => exact if_neg (hbeat m rfl)
  | checkConnected k => simp [silenceAt, hcheck k rfl]
  | _ => rfl

theorem Watched.main (hi : Watched (s, n)) (h : MainMove s s') :
    Watched (s', silenceAt s n s.main) := by
  have hmove := h
  cases h with
  | heartBeat hpc htype =>
    rw [hpc, silenceAt, if_pos htype]
    exact watched_zero _
  | @seen k r hpc hg hc =>
    have hzero : n = 0 := by
      refine (hi.check hpc hg).resolve_right fun hmissed => ?_
      rw [conn, hc] at hmissed
      cases hmissed.2
    simp only [hpc, silenceAt, hg, hzero, Option.isSome_some, if_true]
    refine ⟨Nat.le_succ 1, fun _ _ _ => .inr rfl, ?_⟩
    rintro ⟨⟩
  | @missed k r hpc hg hc =>
    simp only [hpc, silenceAt, hg, Option.isSome_some, if_true]
    refine ⟨?_, fun _ q hq => .inl ?_, fun _ => .inr rfl⟩
    · rcases hi.check hpc hg with hn | hn <;> omega
    · obtain rfl : r = q := Option.some.inj (hg.symm.trans hq)
      exact hc
  | reset hpc hg =>
    rw [silenceAt_eq (by simp [hpc]) (by simp [hpc])]
    exact hi.reset hpc hg
  | crash hpc hg =>
    have hle : silenceAt s n s.main ≤ n := by
      unfold silenceAt
      split <;> (try split) <;> simp_all
    refine ⟨Nat.le_trans hle hi.le_two, fun _ r hr => ?_, fun _ => .inl hg⟩
    cases hg.symm.trans hr
  | @command m _ hpc htype =>
    have hbeat : m.type ≠ .receivedHeartBeat := by
      intro heq
      rw [heq] at htype
      cases htype
    rw [silenceAt_eq (by simp [hpc, hbeat]) (by simp [hpc])]
    exact hi.goOn hmove (by simp [hpc, hbeat]) (by rw [hpc]; rfl) (by rw [hpc]; rintro ⟨⟩)
  | _ =>
    rw [silenceAt_eq (by simp [*]) (by simp [*])]
    exact hi.goOn hmove (by simp [*]) (by simp [*, MainPc.clearing]) (by simp [*, MainPc.stopping])

theorem Watched.step {p p' : System × Nat} (hi : Watched p) (hu : Unconnected p.1)
    (h : (counting K).step p act = some p') : Watched p' := by
  obtain ⟨s', hstep, rfl⟩ := Option.map_eq_some_iff.mp h
  obtain ⟨-, hmove⟩ := step_move hstep
  have hconn := conn_others hu hmove
  cases hmove with
  | main h => exact hi.main h
  | server h =>
    cases h with
    | install hpc =>
      simp only [silence, hpc, ServerPc.stores, if_true]
      exact watched_zero _
    | listen hpc | giveUp hpc | create hpc | connect hpc | post hpc =>
      simp only [silence, hpc, ServerPc.stores, Bool.false_eq_true, if_false]
      exact hi.congr rfl rfl (hconn fun _ => nofun)
  | receive h => exact hi.congr (by cases h <;> rfl) (by cases h <;> rfl) (hconn fun _ => nofun)
  | post h => exact hi.congr (by cases h <;> rfl) (by cases h <;> rfl) (hconn fun _ => nofun)
  | timer h => exact hi.congr (by cases h <;> rfl) (by cases h <;> rfl) (hconn fun _ => nofun)
  | send h => exact hi.congr (by cases h <;> rfl) (by cases h <;> rfl) (hconn fun _ => nofun)
  | spurious | broker | dma | disconnect => exact hi.congr rfl rfl (hconn fun _ => nofun)

theorem watched {p : System × Nat} (h : (counting K).ReachesUnder C p) : Watched p :=
  h.invariant (watched_zero _) fun _ _ _ hr hi _ hs =>
    hi.step (unconnected (Machine.ReachesUnder.fst (C := Machine.Always)
      (hr.mono fun _ _ _ _ => trivial))) hs

/-- Of the timeouts since a client was installed or a heart beat handled at most
one lets a client be: the second finds `connected` cleared and stops the client,
and until it is taken away the main thread handles nothing else. -/
theorem silent_client_stopped (h : (counting K).Reaches (s, n)) :
    (n ≤ 2 ∧ (n = 2 → s.gReceive = none ∨ s.main.stopping = true)) ∧
      ∀ k r, s.main = .checkConnected k → s.gReceive = some r →
        n = 0 ∨ n = 1 ∧ ∀ a s', s.mainStep a = some s' → s'.main = .closeStreams k := by
  have hi := watched h
  refine ⟨⟨hi.le_two, hi.twice⟩, fun k r hpc hg => ?_⟩
  refine (hi.check hpc hg).imp_right fun hmissed => ⟨hmissed.1, fun a s' hs => ?_⟩
  have hconn : (s.recs r).connected = false := hmissed.2
  simp only [mainStep, hpc, hg, hconn, Option.some.injEq] at hs
  rw [← hs]
  rfl

def fallSilent : List Act :=
  boot ++ acceptClient ++ mains 9 ++ beat 0 ++ mains 2 ++ tick ++ mains 4 ++
    List.replicate 3 .timer ++ posted .timer ++ mains 2

theorem fallSilent_stopped :
    ∃ s, (counting 8).run fallSilent = some (s, 1) ∧ s.main = .checkConnected 2 ∧
      s.gReceive = some 0 ∧ ((1 ≤ 2 ∧ (1 = 2 → s.gReceive = none ∨ s.main.stopping = true)) ∧
        ∀ k r, s.main = .checkConnected k → s.gReceive = some r →
          1 = 0 ∨ 1 = 1 ∧ ∀ a s', s.mainStep a = some s' → s'.main = .closeStreams k) := by
  obtain ⟨⟨s, n⟩, hrun, hp⟩ := (Option.any_eq_true _ _).mp (show
    ((counting 8).run fallSilent).any (fun p => p.2 = 1 ∧ p.1.main = .checkConnected 2 ∧
      p.1.gReceive = some 0) = true by decide +kernel)
  obtain ⟨rfl, hpc, hg⟩ := of_decide_eq_true hp
  have hreach := Machine.run_reachesUnder (Machine.along_always _ _) hrun
  exact ⟨s, hrun, hpc, hg, silent_client_stopped hreach⟩

end System

end DevAdapter

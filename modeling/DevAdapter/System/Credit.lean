import DevAdapter.System.Moves

/-!
# Whose heart beat it was

A heart beat sets `connected` of the record that is installed when it is
handled, and a timeout that is ignored leaves `connected` as it is. Beside a
run is recorded from which connections heart beats were handled since the last
timeout. `connected` agrees with that in the runs in which the heart beats that
set it are the installed client's, and no timeout is ignored while it is set.
-/

namespace DevAdapter

open Function (update)
open Transition

structure Credit where
  -- a heart beat of the connection was handled since the last timeout was
  credited : Nat → Bool
  -- a heart beat has set `connected` of another connection
  foreign : Bool

/-- The end of `freeReceThread`. -/
def MainPc.reInits : MainPc → Bool
  | .reInit | .reInitUnlock => true
  | _ => false

namespace Credit

def init : Credit := ⟨fun _ => false, false⟩

@[simp] def forget (c : Credit) : Credit := { c with credited := fun _ => false }

@[simp] def beat (s : System) (origin : Origin) (c : Credit) : Credit where
  credited := match origin with
    | .client r => update c.credited r true
    | .tick _ => c.credited
  foreign := c.foreign ||
    s.gReceive.any fun r => !(s.recs r).connected && decide (origin ≠ .client r)

def recordAt (s : System) (c : Credit) : MainPc → Credit
  | .handle m =>
    match m.type with
    | .receivedHeartBeat => c.beat s m.origin
    | .timeout => if s.waiting = .disconnected then c.forget else c
    | _ => c
  | .resetConnected _ | .reInitUnlock => c.forget
  | _ => c

theorem recordAt_handle {m : Msg} (c : Credit) (hbeat : m.type ≠ .receivedHeartBeat)
    (htimeout : m.type ≠ .timeout) : recordAt s c (.handle m) = c := by
  rw [recordAt]
  split
  · exact absurd ‹_› hbeat
  · exact absurd ‹_› htimeout
  · rfl

def record (s : System) : Act → Credit → Credit
  | .main _, c => recordAt s c s.main
  | _, c => c

end Credit

def crediting (K : Nat) : Machine (System × Credit) Act :=
  (adapter K).withHistory .init Credit.record

namespace System

/-- The installed client is connected only by a heart beat of its own, and no
other has ever set that. -/
structure Credited (p : System × Credit) : Prop where
  own : ∀ r, p.1.gReceive = some r → (p.1.recs r).connected = true → p.2.credited r = true
  foreign : p.2.foreign = false

/-- A heart beat that sets `connected` is the installed client's. A timeout is
ignored only while `connected` is not set. -/
def OwnBeatAt (s : System) : MainPc → Prop
  | .handle m =>
    (m.type = .receivedHeartBeat → ∀ r ∈ s.gReceive,
      m.origin = .client r ∨ (s.recs r).connected = true) ∧
    (m.type = .timeout → s.waiting = .disconnected → ∀ r ∈ s.gReceive,
      (s.recs r).connected = false)
  | _ => True

def OwnBeat (s : System) : Act → Prop
  | .main _ => OwnBeatAt s s.main
  | _ => True

instance decidableOwnBeatAt (s : System) : (pc : MainPc) → Decidable (OwnBeatAt s pc)
  | .handle _ => inferInstanceAs (Decidable (_ ∧ _))
  | .idle | .register | .testTimer | .startClose | .startRunning | .startSignal | .startDone
  | .enableSend | .stopTimer | .clearTimer | .checkConnected _ | .resetConnected _
  | .closeStreams _ | .setDisconnected _ | .stopReceive _ | .join _ | .free _ | .clearReceive _
  | .reInit | .reInitUnlock | .inquiry _ | .sending => isTrue trivial

instance (s : System) : (act : Act) → Decidable (OwnBeat s act)
  | .main _ => decidableOwnBeatAt s s.main
  | .server _ | .receive _ _ | .post _ | .timer | .spurious | .send _ _ | .callback _ _ _
  | .disconnect => isTrue trivial

variable {s s' : System}

-- ---------------------------------------------------------------------------
-- A record that is not installed yet is not connected
-- ---------------------------------------------------------------------------

def conn (s : System) (r : Nat) : Bool := (s.recs r).connected

structure UnconnectedAt (accepted : Nat) (gReceive : Option Nat) (server : ServerPc)
    (main : MainPc) (conn : Nat → Bool) : Prop where
  born : ∀ r, gReceive = some r → r < accepted
  unborn : ∀ r, accepted ≤ r → conn r = false
  created : ∀ r, server = .created r → r < accepted ∧ gReceive ≠ some r ∧ conn r = false
  reInit : main.reInits = true → ∀ r, gReceive = some r → conn r = false

abbrev Unconnected (s : System) : Prop :=
  UnconnectedAt s.accepted s.gReceive s.server s.main s.conn

theorem unconnected_init : Unconnected .init where
  born _ := nofun
  unborn _ _ := rfl
  created _ := nofun
  reInit := nofun

theorem update_eq_false {c : Nat → Bool} {q r : Nat} {b : Bool} (hr : b = true → q ≠ r)
    (hq : c q = false) : update c r b q = false := by
  rcases eq_or_ne q r with rfl | hqr
  · rw [Function.update_self]
    exact Bool.eq_false_iff.mpr fun hb => hr hb rfl
  · rwa [Function.update_of_ne hqr]

theorem UnconnectedAt.set {c : Nat → Bool} {r : Nat} {b : Bool} {pc : MainPc}
    (hi : UnconnectedAt a g sv pc c) (hg : b = true → g = some r)
    (hpc : b = true → pc.reInits = false) : UnconnectedAt a g sv pc (update c r b) where
  born := hi.born
  unborn q hq := by
    refine update_eq_false (fun hb => ?_) (hi.unborn q hq)
    rintro rfl
    exact absurd (hi.born q (hg hb)) (Nat.not_lt.mpr hq)
  created q hq := by
    obtain ⟨hlt, hne, hfalse⟩ := hi.created q hq
    refine ⟨hlt, hne, update_eq_false (fun hb => ?_) hfalse⟩
    rintro rfl
    exact hne (hg hb)
  reInit hre q hq := by
    refine update_eq_false (fun hb => ?_) (hi.reInit hre q hq)
    rw [hpc hb] at hre
    cases hre

theorem UnconnectedAt.goOn {pc : MainPc} (hi : UnconnectedAt a g sv pc₀ c)
    (hpc : pc.reInits = true → ∀ r, g = some r → c r = false) : UnconnectedAt a g sv pc c :=
  { hi with reInit := hpc }

-- ---------------------------------------------------------------------------
-- What a step does with `connected`
-- ---------------------------------------------------------------------------

theorem conn_setRec (s : System) (r : Nat) (g : ReceivePara) :
    (s.setRec r g).conn = update s.conn r g.connected := by
  funext q
  exact Function.apply_update (fun _ => ReceivePara.connected) s.recs r g q

theorem conn_setRec_same (s : System) (r : Nat) (g : ReceivePara)
    (h : g.connected = (s.recs r).connected) : (s.setRec r g).conn = s.conn := by
  rw [conn_setRec, h]
  exact Function.update_eq_self r s.conn

theorem conn_traceAccepted (s : System) (origin : Origin) : (s.traceAccepted origin).conn = s.conn :=
  funext fun r => traceAccepted_keeps ReceivePara.connected (fun _ _ => rfl) s origin r

theorem conn_traceBeat (s : System) (origin : Origin) : (s.traceBeat origin).conn = s.conn := by
  funext r
  simp only [conn, traceBeat]
  split <;> rfl

theorem conn_others (hi : Unconnected s) (h : Move K s act s') (hact : ∀ a, act ≠ .main a) :
    s'.conn = s.conn := by
  cases h with
  | main => exact absurd rfl (hact _)
  | server h =>
    cases h with
    | create =>
      refine (conn_setRec s s.accepted .init).trans ?_
      rw [Function.update_eq_self_iff]
      exact (hi.unborn s.accepted (Nat.le_refl _)).symm
    | install => exact conn_setRec_same s _ _ rfl
    | _ => rfl
  | receive h => cases h <;> exact conn_setRec_same s _ _ rfl
  | send h =>
    cases h with
    | full | short => exact conn_setRec_same s _ _ rfl
    | _ => rfl
  | post h => cases h <;> rfl
  | timer h => cases h <;> rfl
  | spurious | broker | dma | disconnect => rfl

theorem Unconnected.server (hi : Unconnected s) (h : ServerMove s s') : Unconnected s' := by
  have hmove : Move 0 s (.server true) s' := .server h
  have hconn : s'.conn = s.conn := conn_others hi hmove fun _ => nofun
  unfold Unconnected
  rw [hconn]
  cases h with
  | create =>
    exact {
      born := fun r hr => Nat.lt_succ_of_lt (hi.born r hr)
      unborn := fun r hr => hi.unborn r (Nat.le_of_succ_le hr)
      created := by
        rintro r ⟨⟩
        refine ⟨Nat.lt_succ_self _, fun hg => ?_, hi.unborn _ (Nat.le_refl _)⟩
        exact absurd (hi.born _ hg) (Nat.lt_irrefl _)
      reInit := hi.reInit }
  | @install r hpc =>
    obtain ⟨hlt, -, hfalse⟩ := hi.created r hpc
    exact {
      born := by rintro q ⟨⟩; exact hlt
      unborn := hi.unborn
      created := fun _ => nofun
      reInit := by rintro - q ⟨⟩; exact hfalse }
  | listen | giveUp | connect | post => exact { hi with created := fun _ => nofun }

theorem conn_main (h : MainMove s s') : s'.conn = s.conn ∨ (∃ r, s'.conn = update s.conn r false) ∨
    ∃ r m, s.main = .handle m ∧ m.type = .receivedHeartBeat ∧ s.gReceive = some r ∧
      s'.main = .idle ∧ s'.gReceive = some r ∧ s'.conn = update s.conn r true := by
  cases h with
  | acceptFirst | accept => exact .inl (conn_traceAccepted s _)
  | @heartBeat m r hpc htype hg =>
    refine .inr (.inr ⟨r, m, hpc, htype, hg, rfl, hg, ?_⟩)
    exact (conn_traceBeat _ m.origin).trans (conn_setRec s r _)
  | reset | free => exact .inr (.inl ⟨_, conn_setRec s _ _⟩)
  | stop => exact .inl (conn_setRec_same s _ _ rfl)
  | _ => exact .inl rfl

theorem main_keeps (h : MainMove s s') : s'.accepted = s.accepted ∧ s'.server = s.server ∧
    (s'.gReceive = s.gReceive ∨ s'.gReceive = none) ∧
    (s'.main.reInits = true → s.main.reInits = true ∨ s'.gReceive = none) := by
  cases h with
  | clear => exact ⟨rfl, rfl, .inr rfl, fun _ => .inr rfl⟩
  | tryLock hpc | busy hpc => exact ⟨rfl, rfl, .inl rfl, fun _ => .inl (by rw [hpc]; rfl)⟩
  | crash => exact ⟨rfl, rfl, .inl rfl, .inl⟩
  | _ => exact ⟨rfl, rfl, .inl rfl, nofun⟩

theorem Unconnected.main (hi : Unconnected s) (h : MainMove s s') : Unconnected s' := by
  obtain ⟨haccepted, hserver, hg, hre⟩ := main_keeps h
  have hbefore : UnconnectedAt s'.accepted s'.gReceive s'.server s'.main s.conn := by
    rw [haccepted, hserver]
    have hsame : ∀ r, s'.gReceive = some r → s.gReceive = some r := by
      intro r hr
      rcases hg with hg | hg
      · rwa [hg] at hr
      · rw [hg] at hr
        cases hr
    refine ⟨fun r hr => hi.born r (hsame r hr), hi.unborn, fun r hr => ?_, fun hpc r hr => ?_⟩
    · obtain ⟨hlt, hne, hfalse⟩ := hi.created r hr
      exact ⟨hlt, mt (hsame r) hne, hfalse⟩
    · rcases hre hpc with hpc | hnone
      · exact hi.reInit hpc r (hsame r hr)
      · rw [hnone] at hr
        cases hr
  unfold Unconnected
  rcases conn_main h with hconn | ⟨r, hconn⟩ | ⟨r, m, -, -, -, hidle, hg', hconn⟩
  · rw [hconn]
    exact hbefore
  · rw [hconn]
    exact hbefore.set nofun nofun
  · rw [hconn]
    exact hbefore.set (fun _ => hg') fun _ => by rw [hidle]; rfl

theorem Unconnected.step (hi : Unconnected s) (h : (adapter K).step s act = some s') :
    Unconnected s' := by
  obtain ⟨-, hmove⟩ := step_move h
  have hconn := conn_others hi hmove
  unfold Unconnected
  cases hmove with
  | main h => exact hi.main h
  | server h => exact hi.server h
  | receive h => rw [hconn (fun _ => nofun)]; cases h <;> exact hi
  | send h => rw [hconn (fun _ => nofun)]; cases h <;> exact hi
  | post h => cases h <;> exact hi
  | timer h => cases h <;> exact hi
  | spurious | broker | dma | disconnect => exact hi

theorem unconnected (h : (adapter K).ReachesUnder C s) : Unconnected s :=
  h.invariant (I := Unconnected) unconnected_init fun _ _ _ _ hi _ hs => hi.step hs

-- ---------------------------------------------------------------------------
-- The record agrees with `connected`
-- ---------------------------------------------------------------------------

variable {c : Credit}

theorem Credited.same (hi : Credited (s, c))
    (hg : ∀ r, s'.gReceive = some r → s.gReceive = some r)
    (hconn : ∀ r, s'.conn r = true → s.conn r = true) : Credited (s', c) :=
  ⟨fun r hr hc => hi.own r (hg r hr) (hconn r hc), hi.foreign⟩

theorem Credited.forget (hi : Credited (s, c))
    (hconn : ∀ r, s'.gReceive = some r → s'.conn r = false) : Credited (s', c.forget) := by
  refine ⟨fun r hr hc => ?_, hi.foreign⟩
  rw [show (s'.recs r).connected = false from hconn r hr] at hc
  cases hc

theorem Credited.beat {origin : Origin} {r : Nat} (hi : Credited (s, c)) (hg : s.gReceive = some r)
    (hown : origin = .client r ∨ s.conn r = true) (hg' : s'.gReceive = some r) :
    Credited (s', c.beat s origin) where
  own q hq _ := by
    obtain rfl : r = q := Option.some.inj (hg'.symm.trans hq)
    rcases hown with rfl | hconn
    · simp
    · have hcredited := hi.own r hg hconn
      cases origin with
      | tick => exact hcredited
      | client q =>
        by_cases hqr : r = q
        · simp [hqr]
        · simpa [Function.update_of_ne hqr] using hcredited
  foreign := by
    have hforeign : c.foreign = false := hi.foreign
    rcases hown with rfl | hconn
    · simp [hforeign, hg]
    · simp [hforeign, hg, show (s.recs r).connected = true from hconn]

theorem Credited.absent (hi : Credited (s, c)) (hg : s.gReceive = none) (hg' : s'.gReceive = none)
    (pc : MainPc) : Credited (s', Credit.recordAt s c pc) := by
  refine ⟨fun r hr => ?_, ?_⟩
  · rw [show s'.gReceive = some r from hr] at hg'
    cases hg'
  have hforeign : c.foreign = false := hi.foreign
  unfold Credit.recordAt
  split
  · split
    · simp [hforeign, hg]
    · split <;> exact hforeign
    · exact hforeign
  all_goals exact hforeign

theorem Credited.main (hi : Credited (s, c)) (hu : Unconnected s) (hc : OwnBeatAt s s.main)
    (h : MainMove s s') : Credited (s', Credit.recordAt s c s.main) := by
  cases h with
  | @heartBeat m r hpc htype hg =>
    rw [hpc] at hc ⊢
    simp only [Credit.recordAt, htype]
    exact hi.beat hg (hc.1 htype r hg) hg
  | @timeoutIgnored m hpc htype hw =>
    rw [hpc] at hc ⊢
    simp only [Credit.recordAt, htype, hw, if_true]
    exact hi.forget fun r hr => hc.2 htype hw r hr
  | timeout hpc htype hw =>
    rw [hpc]
    simp only [Credit.recordAt, htype, hw, if_false]
    exact hi.same (fun _ => id) fun _ => id
  | @reset n r hpc hg =>
    rw [hpc]
    refine hi.forget fun q hq => ?_
    obtain rfl : r = q := Option.some.inj (hg.symm.trans hq)
    simp [conn]
  | reInit hpc =>
    rw [hpc]
    exact hi.forget fun r hr => hu.reInit (by rw [hpc]; rfl) r hr
  | crash _ hg => exact hi.absent hg (show s.crash.gReceive = none from hg) _
  | clear hpc =>
    rw [hpc]
    exact hi.same (fun _ => nofun) fun _ => id
  | @free r hpc =>
    rw [hpc]
    refine hi.same (fun _ => id) fun q hq => ?_
    by_cases hqr : q = r
    · simp [conn, hqr] at hq
    · simpa [conn, hqr] using hq
  | @command m dma hpc htype =>
    rw [hpc, Credit.recordAt_handle c (fun h => by simp [h, MsgType.command] at htype)
      (fun h => by simp [h, MsgType.command] at htype)]
    exact hi.same (fun _ => id) fun _ => id
  | acceptFirst hpc htype | accept hpc htype =>
    rw [hpc, Credit.recordAt_handle c (by rw [htype]; nofun) (by rw [htype]; nofun)]
    refine hi.same (fun _ => id) fun r hr => ?_
    rw [← conn_traceAccepted]
    exact hr
  | rssi _ _ _ hpc htype | inquiry hpc htype | rfMf _ hpc htype | closed hpc htype
    | closedIgnored hpc htype =>
    rw [hpc, Credit.recordAt_handle c (by rw [htype]; nofun) (by rw [htype]; nofun)]
    exact hi.same (fun _ => id) fun _ => id
  | @stop n r hpc hg =>
    rw [hpc]
    refine hi.same (fun _ => id) fun q hq => ?_
    have hconn := conn_setRec_same s r { s.recs r with
      receiveRunning := false, stops := (s.recs r).stops + 1 } rfl
    rw [← hconn]
    exact hq
  | _ =>
    rw [‹s.main = _›]
    exact hi.same (fun _ => id) fun _ => id

theorem Credited.step {p p' : System × Credit} (hi : Credited p) (hu : Unconnected p.1)
    (hc : OwnBeat p.1 act) (h : (crediting K).step p act = some p') : Credited p' := by
  obtain ⟨s, c⟩ := p
  obtain ⟨s', hs, rfl⟩ := Option.map_eq_some_iff.mp h
  obtain ⟨-, hmove⟩ := step_move hs
  have hconn := conn_others hu hmove
  cases hmove with
  | main h => exact hi.main hu hc h
  | server h =>
    have hkeep := hconn fun _ => nofun
    cases h with
    | @install r hpc =>
      obtain ⟨-, -, hfalse⟩ := hu.created r hpc
      refine ⟨fun q hq hconnected => ?_, hi.foreign⟩
      obtain rfl : r = q := Option.some.inj hq
      rw [← conn, hkeep, hfalse] at hconnected
      cases hconnected
    | _ => exact hi.same (fun _ => id) fun r hr => by rwa [hkeep] at hr
  | post h =>
    refine hi.same ?_ fun r hr => by rwa [hconn fun _ => nofun] at hr
    cases h <;> exact fun _ => id
  | receive h =>
    refine hi.same ?_ fun r hr => by rwa [hconn fun _ => nofun] at hr
    cases h <;> exact fun _ => id
  | timer h =>
    refine hi.same ?_ fun r hr => by rwa [hconn fun _ => nofun] at hr
    cases h <;> exact fun _ => id
  | send h =>
    refine hi.same ?_ fun r hr => by rwa [hconn fun _ => nofun] at hr
    cases h <;> exact fun _ => id
  | spurious | broker | dma | disconnect => exact hi.same (fun _ => id) fun _ => id

theorem credited {p : System × Credit}
    (h : (crediting K).ReachesUnder (fun p => OwnBeat p.1) p) : Credited p :=
  h.invariant ⟨fun _ => nofun, rfl⟩ fun _ _ _ hr hi hc hs =>
    hi.step (unconnected hr.fst) hc hs

-- ---------------------------------------------------------------------------
-- Exactly these runs
-- ---------------------------------------------------------------------------

theorem foreign_beat {origin : Origin} {r : Nat} (hg : s.gReceive = some r)
    (hown : ¬(origin = .client r ∨ (s.recs r).connected = true)) :
    (c.beat s origin).foreign = true := by
  obtain ⟨horigin, hconn⟩ := not_or.mp hown
  simp [hg, horigin, hconn]

theorem dispatch_timeoutIgnored {m : Msg} (a : Answer) (htype : m.type = .timeout)
    (hw : s.waiting = .disconnected) : s.dispatch m a = s.goto .idle := by
  rw [dispatch, htype]
  simp only [hw, if_true]

/-- A step against the condition either records a heart beat of another
connection or forgets the one that `connected` stems from. -/
theorem not_credited {p p' : System × Credit} (hc : ¬ OwnBeat p.1 act)
    (h : (crediting K).step p act = some p') : ¬ Credited p' := by
  obtain ⟨s, c⟩ := p
  obtain ⟨s', hs, rfl⟩ := Option.map_eq_some_iff.mp h
  intro hi
  cases act with
  | main a =>
    simp only [OwnBeat] at hc
    cases hpc : s.main with
    | handle m =>
      simp only [hpc, OwnBeatAt, Classical.not_and_iff_not_or_not, Classical.not_imp,
        not_forall] at hc
      rcases hc with ⟨htype, r, hg, hown⟩ | ⟨htype, hw, r, hg, hconn⟩
      · have hforeign := hi.foreign
        simp only [Credit.record, hpc, Credit.recordAt, htype] at hforeign
        rw [foreign_beat hg hown] at hforeign
        cases hforeign
      · have hs' := (mainStep_handle a hpc).symm.trans (mainStep_of_step hs)
        rw [dispatch_timeoutIgnored a htype hw] at hs'
        obtain rfl : s.goto .idle = s' := Option.some.inj hs'
        have hcredited := hi.own r hg (by simpa using hconn)
        simp [Credit.record, hpc, Credit.recordAt, htype, hw] at hcredited
    | _ =>
      rw [hpc] at hc
      exact hc trivial
  | _ => exact hc trivial

/-- In a run, `connected` is credited in every state if and only if heart beats
set it for their own connection only, and no timeout is ignored while it is set. -/
theorem credited_iff (h : (adapter K).run as = some t) :
    (crediting K).Throughout Credited (.init, .init) as ↔ (adapter K).Along OwnBeat .init as := by
  obtain ⟨c, hrun⟩ : ∃ c, (crediting K).run as = some (t, c) :=
    Machine.runFrom_withHistory Credit.init h
  have hiff := Machine.run_throughout_iff (M := crediting K) (C := fun p => OwnBeat p.1)
    (fun _ hr => credited hr) (fun _ _ _ _ hc hs => not_credited hc hs) hrun
  exact hiff.trans (Machine.along_withHistory _)

def beatInTurn : List Act :=
  boot ++ acceptClient ++ mains 9 ++ beat 0 ++ mains 2 ++ tick ++ mains 4 ++
    List.replicate 3 .timer ++ posted .timer ++ mains 6 ++
    exitReceive 0 ++ mains 5 ++ acceptClient ++ beat 1 ++ mains 14

theorem beatInTurn_credited : (crediting 8).Throughout Credited (.init, .init) beatInTurn := by
  obtain ⟨s, hs⟩ := Option.isSome_iff_exists.mp
    (show ((adapter 8).run beatInTurn).isSome = true by decide +kernel)
  exact (credited_iff hs).mpr (by decide +kernel)

def beatOfFirst : List Act :=
  boot ++ acceptClient ++ acceptClient ++ mains 13 ++ beat 0 ++ mains 2

theorem beatOfFirst_uncredited : ¬ ∀ K p, 0 < K → (crediting K).Reaches p → Credited p := by
  intro h
  obtain ⟨p, hp, hset⟩ := Machine.exists_reaches (M := crediting 8) (p := fun p =>
    decide (p.1.gReceive = some 1) && (p.1.recs 1).connected && !p.2.credited 1) beatOfFirst
    (by decide +kernel)
  simp only [Bool.and_eq_true, decide_eq_true_eq, Bool.not_eq_true'] at hset
  obtain ⟨⟨hg, hconn⟩, hcredited⟩ := hset
  rw [(h 8 p (by decide) hp).own 1 hg hconn] at hcredited
  cases hcredited

end System

end DevAdapter

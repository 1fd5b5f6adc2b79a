import DevAdapter.Lib.Mutex
import DevAdapter.System.MissingClient
import DevAdapter.System.Posts

/-!
# Stopping a client while the queue is full

`postMsgQueue` keeps the queue mutex while `msgsnd` waits for room, and nobody
makes room while the main thread waits for a receive thread to exit. That
thread gets its last message into the queue as long as nobody has taken the
mutex for a message there is no room for.
-/

namespace DevAdapter

open Function (update)
open Transition

def PostPc.holds : PostPc → Bool
  | .msgsnd _ | .unlock => true
  | .idle | .want _ _ => false

def PostPc.wants : PostPc → Bool
  | .want _ _ => true
  | _ => false

theorem PostPc.holds_of_enqueues {pc : PostPc} (h : pc.enqueues = true) : pc.holds = true := by
  cases pc <;> first | rfl | cases h

namespace System

def Blocked (K : Nat) (s : System) (p : Poster) : Prop :=
  (s.post p).enqueues = true ∧ K ≤ s.queue.length

/-- The main thread waits for a receive thread that waits for room in the queue,
or for a mutex whose holder does. -/
def Deadlocked (K : Nat) (s : System) : Prop :=
  ∃ r, s.main = .join r ∧ (Blocked K s (.receive r) ∨
    (s.post (.receive r)).wants = true ∧ ∃ p, s.queueMutex = some p ∧ Blocked K s p)

/-- The main thread begins to stop a client only when nobody is in `msgsnd` on a
full queue, and until the client's closed message is queued the mutex is taken
only when the queue is not full. -/
def RoomToClose (K : Nat) (s : System) : Act → Prop
  | .main _ => s.main.disconnects = true → ∀ p ∈ s.queueMutex, (s.post p).enqueues = true →
      s.queue.length < K
  | .post p => s.closing = true → (s.post p).wants = true → s.queue.length < K
  | _ => True

instance (K : Nat) (s : System) : (act : Act) → Decidable (RoomToClose K s act)
  | .main _ => inferInstanceAs (Decidable (_ → ∀ p ∈ s.queueMutex, _))
  | .post _ => inferInstanceAs (Decidable (_ → _ → _))
  | .server _ | .receive _ _ | .timer | .spurious | .send _ _ | .callback _ _ _ | .disconnect =>
    isTrue trivial

/-- Who is in `msgsnd`, or just out of it, has the queue mutex. -/
def Holder (s : System) : Prop := ∀ p, (s.post p).holds = true → s.queueMutex = some p

variable {s s' : System}

-- ---------------------------------------------------------------------------
-- The queue mutex
-- ---------------------------------------------------------------------------

theorem Holder.excludes (hi : Holder s) : Mutex.Excludes PostPc.holds s.post s.queueMutex := hi

theorem Holder.post (hi : Holder s) (h : PostMove K s p s') : Holder s' := by
  cases h with
  | lock _ hfree => exact hi.excludes.lock hfree
  | msgsnd hpc => exact hi.excludes.move fun _ => by rw [hpc]; rfl
  | unlock hpc => exact hi.excludes.unlock (by rw [hpc]; rfl) rfl

theorem Holder.want (hi : Holder s) (p : Poster) (type : MsgType) (origin : Origin) :
    ∀ q, (update s.post p (.want type origin) q).holds = true → s.queueMutex = some q :=
  hi.excludes.move nofun

theorem Holder.step (hi : Holder s) (h : (adapter K).step s act = some s') : Holder s' := by
  obtain ⟨-, hmove⟩ := step_move h
  cases hmove with
  | post h => exact hi.post h
  | server h =>
    cases h with
    | post => exact hi.want _ _ _
    | _ => exact hi
  | receive h =>
    cases h with
    | message | close => exact hi.want _ _ _
    | _ => exact hi
  | timer h =>
    cases h with
    | timeout | postStop => exact hi.want _ _ _
    | _ => exact hi
  | main h => cases h <;> exact hi
  | send h => cases h <;> exact hi
  | spurious | broker | dma | disconnect => exact hi

theorem holder (h : (adapter K).ReachesUnder C s) : Holder s :=
  h.invariant (I := Holder) (fun _ => nofun) fun _ _ _ _ hi _ hs => hi.step hs

-- ---------------------------------------------------------------------------
-- Room for the closed message
-- ---------------------------------------------------------------------------

/-- While a client is being stopped, nobody is in `msgsnd` on a full queue. -/
def Room (K : Nat) (s : System) : Prop :=
  s.closing = true → ∀ p, (s.post p).enqueues = true → s.queue.length < K

theorem Room.post (hi : Room K s) (hh : Holder s) (hc : RoomToClose K s (.post p))
    (h : PostMove K s p s') : Room K s' := by
  intro hclosing q hq
  have hold := closing_post h hclosing
  cases h with
  | lock hpc => exact hc hold (by rw [hpc]; rfl)
  | msgsnd hpc =>
    have hqp : q ≠ p := by
      rintro rfl
      simp [PostPc.enqueues] at hq
    have hholds : (s.post q).holds = true :=
      PostPc.holds_of_enqueues (by simpa [hqp] using hq)
    exact absurd (hh.excludes.unique hholds (by rw [hpc]; rfl)) hqp
  | unlock hpc =>
    have hqp : q ≠ p := by
      rintro rfl
      simp [PostPc.enqueues] at hq
    exact hi hold q (by simpa [hqp] using hq)

theorem disconnects_of_closing (h : MainMove s s') (hc : s'.closing = true) :
    s.closing = true ∨ s.main.disconnects = true := by
  cases h with
  | setDisconnected hpc => exact .inr (by rw [hpc]; rfl)
  | stop hpc => exact .inl (by simp [closing, hpc])
  | crash => exact .inl hc
  | _ => cases hc

theorem Room.main (hi : Room K s) (hh : Holder s) (hc : RoomToClose K s (.main a))
    (h : MainMove s s') : Room K s' := by
  intro hclosing
  have hsame : s'.post = s.post ∧ s'.queue = s.queue := by
    cases h with
    | take => cases hclosing
    | _ => exact ⟨rfl, rfl⟩
  rw [hsame.1, hsame.2]
  intro p hp
  rcases disconnects_of_closing h hclosing with hold | hdisc
  · exact hi hold p hp
  · exact hc hdisc p (hh p (PostPc.holds_of_enqueues hp)) hp

theorem Room.congr (hi : Room K s) (hq : s'.queue = s.queue)
    (hc : s'.closing = true → s.closing = true)
    (hp : ∀ p, (s'.post p).enqueues = true → (s.post p).enqueues = true) : Room K s' := by
  intro hclosing p h
  rw [hq]
  exact hi (hc hclosing) p (hp p h)

theorem enqueues_want {p q : Poster} {type : MsgType} {origin : Origin}
    (hq : (update s.post p (.want type origin) q).enqueues = true) :
    (s.post q).enqueues = true := by
  by_cases hqp : q = p
  · subst hqp
    simp [PostPc.enqueues] at hq
  · simpa [hqp] using hq

theorem Room.step (hi : Room K s) (hh : Holder s) (hp : Posts s) (hc : RoomToClose K s act)
    (h : (adapter K).step s act = some s') : Room K s' := by
  obtain ⟨-, hmove⟩ := step_move h
  cases hmove with
  | post h => exact hi.post hh hc h
  | main h => exact hi.main hh hc h
  | server h =>
    have hclosing := closing_server hp h
    cases h with
    | post => exact hi.congr rfl hclosing fun _ => enqueues_want
    | _ => exact hi.congr rfl hclosing fun _ => id
  | receive h =>
    have hclosing := closing_receive h
    cases h with
    | message | close => exact hi.congr rfl hclosing fun _ => enqueues_want
    | _ => exact hi.congr rfl hclosing fun _ => id
  | timer h =>
    have hclosing := closing_timer h
    cases h with
    | timeout | postStop => exact hi.congr rfl hclosing fun _ => enqueues_want
    | _ => exact hi.congr rfl hclosing fun _ => id
  | send h =>
    have hclosing := closing_send h
    cases h <;> exact hi.congr rfl hclosing fun _ => id
  | spurious | broker | dma | disconnect => exact hi

theorem room (h : (adapter K).ReachesUnder (RoomToClose K) s) : Room K s :=
  h.invariant (fun _ _ => nofun) fun _ _ _ hr hi hc hs => hi.step (holder hr) (posts hr) hc hs

-- ---------------------------------------------------------------------------
-- No deadlock
-- ---------------------------------------------------------------------------

theorem closing_of_join (hp : Posts s) (hm : s.main = .join r)
    (ht : (s.post (.receive r)).type?.isSome = true) : s.closing = true := by
  cases hpc : (s.recs r).pc with
  | exited =>
    rw [hp.exited r hpc] at ht
    cases ht
  | closing =>
    simp only [closing, hm, hpc, ReceivePc.closed]
    simpa using ht
  | _ => simp [closing, hm, hpc, ReceivePc.closed]

/-- A run in which a client is stopped only with room in the queue for what its
thread still posts does not deadlock. -/
theorem no_deadlock (h : (adapter K).ReachesUnder (RoomToClose K) s) : ¬ Deadlocked K s := by
  rintro ⟨r, hm, hblocked⟩
  have hp := posts h
  have hroom := room h
  rcases hblocked with ⟨henq, hfull⟩ | ⟨hwants, p, -, henq, hfull⟩
  · refine absurd (hroom (closing_of_join hp hm ?_) _ henq) (Nat.not_lt.mpr hfull)
    cases hr : s.post (.receive r) <;> first | rfl | simp [hr, PostPc.enqueues] at henq
  · refine absurd (hroom (closing_of_join hp hm ?_) p henq) (Nat.not_lt.mpr hfull)
    cases hr : s.post (.receive r) <;> first | rfl | simp [hr, PostPc.wants] at hwants

def quietStop : List Act :=
  boot ++ acceptClient ++ mains 9 ++ tick ++ mains 6 ++ exitReceive 0 ++ mains 5

theorem quietStop_no_deadlock :
    ∃ s, (adapter 1).run quietStop = some s ∧ ¬ Deadlocked 1 s := by
  obtain ⟨s, hs, hr⟩ := Machine.exists_run (M := adapter 1) (C := RoomToClose 1)
    quietStop (by decide +kernel) (by decide +kernel)
  exact ⟨s, hs, no_deadlock hr⟩

/-- Client 0 has nine more heart beats received when it is stopped. -/
def beatsDuringStop : List Act :=
  boot ++ acceptClient ++ mains 9 ++ tick ++ [.receive 0 []] ++ mains 6 ++
    [.receive 0 (List.replicate 9 beatFrame).flatten] ++
    (List.replicate 8 (.receive 0 [] :: posted (.receive 0))).flatten ++
    [.receive 0 [], .post (.receive 0)]

theorem beatsDuringStop_deadlocked :
    ¬ ∀ K s, 0 < K → (adapter K).Reaches s → ¬ Deadlocked K s := by
  intro h
  obtain ⟨s, hs, hp⟩ := Machine.exists_reaches (M := adapter 8) (p := fun s =>
    s.main = .join 0 && (s.post (.receive 0)).enqueues && s.queue.length = 8)
    beatsDuringStop (by decide +kernel)
  simp only [Bool.and_eq_true, decide_eq_true_eq] at hp
  obtain ⟨⟨hm, henq⟩, hfull⟩ := hp
  exact h 8 s (by decide) hs ⟨0, hm, .inl ⟨henq, Nat.le_of_eq hfull.symm⟩⟩

-- ---------------------------------------------------------------------------
-- The deadlock lasts
-- ---------------------------------------------------------------------------

theorem Blocked.post (hb : Blocked K s p) (hh : Holder s) (h : PostMove K s q s') : False := by
  obtain ⟨henq, hfull⟩ := hb
  have hholds := PostPc.holds_of_enqueues henq
  cases h with
  | lock _ hfree =>
    have := hh p hholds
    rw [hfree] at this
    cases this
  | msgsnd _ hroom => exact absurd hroom (Nat.not_lt.mpr hfull)
  | unlock hpc =>
    obtain rfl : p = q := hh.excludes.unique hholds (by rw [hpc]; rfl)
    rw [hpc] at henq
    cases henq

/-- The server thread accepts a client after its last message is queued. -/
def ServerIdle (s : System) : Prop :=
  s.server = .start ∨ s.server = .accepting ∨ s.server = .exited ∨ s.post .server = .idle

theorem ServerIdle.step (hi : ServerIdle s) (h : (adapter K).step s act = some s') :
    ServerIdle s' := by
  obtain ⟨-, hmove⟩ := step_move h
  cases hmove with
  | server h =>
    cases h with
    | listen => exact .inr (.inl rfl)
    | giveUp => exact .inr (.inr (.inl rfl))
    | create _ hpost => exact .inr (.inr (.inr hpost))
    | install hpc | connect hpc => exact .inr (.inr (.inr (by simpa [ServerIdle, hpc] using hi)))
    | post => exact .inr (.inl rfl)
  | post h =>
    have hs : s'.server = s.server := by cases h <;> rfl
    rw [ServerIdle, hs]
    exact hi.imp_right (Or.imp_right (Or.imp_right h.idle))
  | receive h => cases h <;> simpa [ServerIdle] using hi
  | timer h => cases h <;> simpa [ServerIdle] using hi
  | main h => cases h <;> exact hi
  | send h => cases h <;> exact hi
  | spurious | broker | dma | disconnect => exact hi

theorem serverIdle (h : (adapter K).ReachesUnder C s) : ServerIdle s :=
  h.invariant (I := ServerIdle) (.inl rfl) fun _ _ _ _ hi _ hs => hi.step hs

theorem Deadlocked.congr (hd : Deadlocked K s) (hm : s'.main = s.main) (hq : s'.queue = s.queue)
    (hx : s'.queueMutex = s.queueMutex) (hp : ∀ p, s.post p ≠ .idle → s'.post p = s.post p) :
    Deadlocked K s' := by
  have hb : ∀ p, Blocked K s p → Blocked K s' p := by
    rintro p ⟨henq, hfull⟩
    refine ⟨?_, by rwa [hq]⟩
    rw [hp p (by intro h; rw [h] at henq; cases henq)]
    exact henq
  obtain ⟨r, hjoin, hblocked | ⟨hwants, p, hmutex, hblocked⟩⟩ := hd
  · exact ⟨r, hm.trans hjoin, .inl (hb _ hblocked)⟩
  · refine ⟨r, hm.trans hjoin, .inr ⟨?_, p, hx.trans hmutex, hb p hblocked⟩⟩
    rw [hp _ (by intro h; rw [h] at hwants; cases hwants)]
    exact hwants

theorem post_of_idle {p q : Poster} {pc : PostPc} (hidle : s.post p = .idle)
    (hq : s.post q ≠ .idle) : update s.post p pc q = s.post q :=
  Function.update_of_ne (by rintro rfl; exact hq hidle) _ _

theorem Deadlocked.main (hd : Deadlocked K s) (hp : Posts s) (h : MainMove s s') : False := by
  obtain ⟨r, hm, hblocked⟩ := hd
  cases h with
  | @join q hpc hexit =>
    obtain rfl := MainPc.join.inj (hm.symm.trans hpc)
    have hidle := hp.exited r hexit
    rcases hblocked with ⟨henq, -⟩ | ⟨hwants, -⟩
    · rw [hidle] at henq
      cases henq
    · rw [hidle] at hwants
      cases hwants
  | crash hpc =>
    rw [hm] at hpc
    cases hpc
  | _ => simp_all

theorem Deadlocked.step (hd : Deadlocked K s) (hh : Holder s) (hp : Posts s) (hi : ServerIdle s)
    (h : (adapter K).step s act = some s') : Deadlocked K s' := by
  obtain ⟨-, hmove⟩ := step_move h
  cases hmove with
  | post h =>
    obtain ⟨p, hb⟩ : ∃ p, Blocked K s p := by
      obtain ⟨r, -, hb | ⟨-, p, -, hb⟩⟩ := hd
      exacts [⟨_, hb⟩, ⟨p, hb⟩]
    exact (hb.post hh h).elim
  | main h => exact (hd.main hp h).elim
  | server h =>
    cases h with
    | post hpc =>
      have hidle : s.post .server = .idle := by simpa [ServerIdle, hpc] using hi
      exact hd.congr rfl rfl rfl fun _ => post_of_idle hidle
    | _ => exact hd.congr rfl rfl rfl fun _ _ => rfl
  | receive h =>
    cases h with
    | message _ hidle | close hidle =>
      exact hd.congr rfl rfl rfl fun _ => post_of_idle hidle
    | _ => exact hd.congr rfl rfl rfl fun _ _ => rfl
  | timer h =>
    cases h with
    | timeout hidle | postStop hidle =>
      exact hd.congr rfl rfl rfl fun _ => post_of_idle hidle
    | _ => exact hd.congr rfl rfl rfl fun _ _ => rfl
  | send h => cases h <;> exact hd.congr rfl rfl rfl fun _ _ => rfl
  | spurious | broker | dma | disconnect => exact hd.congr rfl rfl rfl fun _ _ => rfl

theorem Deadlocked.queue (hd : Deadlocked K s) (hh : Holder s) (hp : Posts s)
    (h : (adapter K).step s act = some s') : s'.main = s.main ∧ s'.queue = s.queue := by
  obtain ⟨-, hmove⟩ := step_move h
  cases hmove with
  | post h =>
    obtain ⟨p, hb⟩ : ∃ p, Blocked K s p := by
      obtain ⟨r, -, hb | ⟨-, p, -, hb⟩⟩ := hd
      exacts [⟨_, hb⟩, ⟨p, hb⟩]
    exact (hb.post hh h).elim
  | main h => exact (hd.main hp h).elim
  | server h => cases h <;> exact ⟨rfl, rfl⟩
  | receive h => cases h <;> exact ⟨rfl, rfl⟩
  | timer h => cases h <;> exact ⟨rfl, rfl⟩
  | send h => cases h <;> exact ⟨rfl, rfl⟩
  | spurious | broker | dma | disconnect => exact ⟨rfl, rfl⟩

/-- No thread ever gets a deadlocked program out of it, and no message is handled
or queued any more. -/
theorem deadlocked_runFrom (hr : (adapter K).Reaches s) (hd : Deadlocked K s)
    (hs : (adapter K).runFrom s acts = some s') :
    Deadlocked K s' ∧ s'.main = s.main ∧ s'.queue = s.queue := by
  refine (Machine.runFrom_keeps (I := fun t => (adapter K).Reaches t ∧ Deadlocked K t ∧
    t.main = s.main ∧ t.queue = s.queue) ?_ ⟨hr, hd, rfl, rfl⟩ hs).2
  rintro t act t' ⟨hr, hd, hm, hq⟩ h
  have hkept := hd.queue (holder hr) (posts hr) h
  refine ⟨.step hr trivial h, hd.step (holder hr) (posts hr) (serverIdle hr) h, ?_, ?_⟩
  · exact hkept.1.trans hm
  · exact hkept.2.trans hq

def afterwards : List Act := [.timer, .timer, .disconnect]

theorem beatsDuringStop_lasts : ∃ s s', (adapter 8).run beatsDuringStop = some s ∧
    (adapter 8).runFrom s afterwards = some s' ∧
    Deadlocked 8 s' ∧ s'.main = s.main ∧ s'.queue = s.queue := by
  obtain ⟨s, hs, hr⟩ := Machine.exists_run (M := adapter 8) (C := Machine.Always)
    beatsDuringStop (by decide +kernel) (Machine.along_always _ _)
  obtain ⟨s', hs'⟩ : ∃ s', (adapter 8).runFrom s afterwards = some s' := by
    have hsome : ((adapter 8).run beatsDuringStop).any
        (fun s => ((adapter 8).runFrom s afterwards).isSome) = true := by decide +kernel
    rw [hs] at hsome
    exact Option.isSome_iff_exists.mp hsome
  have hblocked : ((adapter 8).run beatsDuringStop).any (fun s =>
      s.main = .join 0 && (s.post (.receive 0)).enqueues && s.queue.length = 8) = true := by
    decide +kernel
  rw [hs] at hblocked
  simp only [Option.any_some, Bool.and_eq_true, decide_eq_true_eq] at hblocked
  obtain ⟨⟨hm, henq⟩, hfull⟩ := hblocked
  have hd : Deadlocked 8 s := ⟨0, hm, .inl ⟨henq, Nat.le_of_eq hfull.symm⟩⟩
  exact ⟨s, s', hs, hs', deadlocked_runFrom hr hd hs'⟩

end System

end DevAdapter

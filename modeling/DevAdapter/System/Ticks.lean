import DevAdapter.System.MissingClient
import DevAdapter.System.Posts

/-!
# Timeouts and the clients they stop

A timeout carries nothing that says which sleep of the timer it ends. The ticks
that are on their way, from the main thread back to the sleeping timer thread,
are in the order of their sleeps. A client is not stopped by a tick older than
itself, or in spite of a heart beat, as long as it is not installed while
another one is being stopped, a tick older than its accept message finds a heart
beat, and a timeout takes back no heart beat of the next sleep.
-/

namespace DevAdapter

open Function (update)
open Transition

def Msg.tick (m : Msg) : List Nat := if m.type = .timeout then [m.origin.sleep] else []

def MainPc.ticks : MainPc → List Nat
  | .handle m => m.tick
  | .checkConnected n | .resetConnected n | .closeStreams n | .setDisconnected n
  | .stopReceive n => [n]
  | _ => []

def PostPc.ticks : PostPc → List Nat
  | .want type origin => if type = .timeout then [origin.sleep] else []
  | .msgsnd m => m.tick
  | .idle | .unlock => []

def TimerPc.ticks : TimerPc → List Nat
  | .sleeping n => [n]
  | _ => []

/-- The sleep whose timeout looks at `connected`. -/
def MainPc.checks : MainPc → Option Nat
  | .checkConnected n => some n
  | _ => none

/-- The sleep whose timeout clears `connected`. -/
def MainPc.resets : MainPc → Option Nat
  | .resetConnected n => some n
  | _ => none

/-- The sleep whose timeout has found a client silent. -/
def MainPc.stopsFor : MainPc → Option Nat
  | .closeStreams n | .setDisconnected n | .stopReceive n => some n
  | _ => none

/-- The client that the server thread installs next. -/
def ServerPc.created? : ServerPc → Option Nat
  | .created r => some r
  | _ => none

/-- The main thread has found no heart beat of the client that `r` is. -/
def MainPc.condemns (gReceive : Option Nat) : MainPc → Nat → Prop
  | .closeStreams _, r | .setDisconnected _, r | .stopReceive _, r => gReceive = some r
  | .join q, r | .free q, r => q = r
  | _, _ => False

/-- What a timeout goes by in a record. -/
def ReceivePara.credit (g : ReceivePara) : Bool × Option Nat × Option Nat :=
  (g.connected, g.acceptedIn, g.beatIn)

namespace System

/-- The sleeps whose timeout is not dealt with, the oldest first. -/
def ticks (s : System) : List Nat :=
  s.main.ticks ++ s.queue.flatMap Msg.tick ++ (s.post .timer).ticks ++ s.timer.ticks

variable {s s' : System}

-- ---------------------------------------------------------------------------
-- Ticks keep their order
-- ---------------------------------------------------------------------------

theorem Posts.poster_of_timeout (hi : Posts s) (ht : (s.post p).type? = some .timeout) :
    p = .timer := by
  cases p with
  | timer => rfl
  | server => cases hi.server _ ht
  | receive r => rcases hi.receive r _ ht with h | ⟨h, -⟩ <;> cases h

theorem ticks_post (hp : Posts s) (h : PostMove K s p s') : s'.ticks = s.ticks := by
  by_cases ht : p = .timer
  · subst ht
    cases h with
    | lock hpc => simp [ticks, hpc, PostPc.ticks, Msg.tick]
    | msgsnd hpc => simp [ticks, hpc, PostPc.ticks]
    | unlock hpc => simp [ticks, hpc, PostPc.ticks]
  · cases h with
    | lock => simp [ticks, Ne.symm ht]
    | unlock => simp [ticks, Ne.symm ht]
    | @msgsnd m hpc =>
      have hm : m.type ≠ .timeout := by
        intro hm
        exact ht (hp.poster_of_timeout (by rw [hpc, PostPc.type?, hm]))
      simp [ticks, Ne.symm ht, Msg.tick, hm]

theorem ticks_main (h : MainMove s s') : s'.ticks.Sublist s.ticks := by
  cases h with
  | take hpc hqueue => simp [ticks, hpc, hqueue, MainPc.ticks]
  | timeout hpc htype => simp [ticks, hpc, MainPc.ticks, Msg.tick, htype]
  | seen hpc | missed hpc | closeStreams _ _ hpc | setDisconnected hpc =>
    simp [ticks, hpc, MainPc.ticks]
  | startSignal hpc =>
    have : s.timer.signal.ticks = s.timer.ticks := by
      cases s.timer <;> rfl
    simp [ticks, MainPc.ticks, this]
  | crash => exact List.Sublist.refl _
  | _ => simp [ticks, MainPc.ticks]

theorem ticks_timer (h : TimerMove s s') : s'.ticks = s.ticks ∧ s'.sleeps = s.sleeps ∨
    s.timer = .sleep ∧ s'.ticks = s.ticks ++ [s.sleeps + 1] ∧ s'.sleeps = s.sleeps + 1 := by
  cases h with
  | sleep hidle hpc =>
    exact .inr ⟨hpc, by simp [ticks, hpc, TimerPc.ticks, hidle, PostPc.ticks], rfl⟩
  | _ => exact .inl ⟨by simp_all [ticks, TimerPc.ticks, PostPc.ticks, Origin.sleep], rfl⟩

/-- No client is installed while another one is being stopped, or after a heart
beat that a tick on its way is older than; a timeout whose sleep began before the
accept message of the installed client was handled comes after a heart beat of it
that was handled since; and no timeout takes back a heart beat that was handled
in a later sleep. -/
def TicksSettled (s : System) : Act → Prop
  | .server _ => ∀ r ∈ s.server.created?, s.main.stopsFor = none ∧
      ∀ n ∈ s.ticks, ∀ b ∈ (s.recs r).beatIn, b < n
  | .main _ => (∀ n ∈ s.main.checks, ∀ r ∈ s.gReceive,
        (∃ a ∈ (s.recs r).acceptedIn, a < n) ∨ ∃ b ∈ (s.recs r).beatIn, n ≤ b) ∧
      ∀ n ∈ s.main.resets, ∀ r ∈ s.gReceive, ∀ b ∈ (s.recs r).beatIn, b ≤ n
  | _ => True

instance (s : System) : (act : Act) → Decidable (TicksSettled s act)
  | .server _ => inferInstanceAs (Decidable (∀ r ∈ s.server.created?, _))
  | .main _ => inferInstanceAs (Decidable ((∀ n ∈ s.main.checks, _) ∧ ∀ n ∈ s.main.resets, _))
  | .receive _ _ | .post _ | .timer | .spurious | .send _ _ | .callback _ _ _ | .disconnect =>
    isTrue trivial

-- ---------------------------------------------------------------------------
-- What a tick is older than
-- ---------------------------------------------------------------------------

structure Timely (s : System) : Prop where
  sorted : s.ticks.Pairwise (· < ·)
  slept : ∀ n ∈ s.ticks, n ≤ s.sleeps
  acceptedIn : ∀ r a, (s.recs r).acceptedIn = some a → a ≤ s.sleeps
  beatIn : ∀ r b, (s.recs r).beatIn = some b → b ≤ s.sleeps
  accepted : ∀ n ∈ s.main.stopsFor, ∀ r, s.gReceive = some r →
    ∃ a, (s.recs r).acceptedIn = some a ∧ a < n
  beats : ∀ n ∈ s.ticks, ∀ r, s.gReceive = some r → (s.recs r).connected = false →
    ∀ b, (s.recs r).beatIn = some b → b < n
  condemned : ∀ r, s.main.condemns s.gReceive r → (s.recs r).connected = false

theorem timely_init : Timely .init where
  sorted := List.Pairwise.nil
  slept _ := nofun
  acceptedIn _ _ := nofun
  beatIn _ _ := nofun
  accepted _ := nofun
  beats _ := nofun
  condemned _ := nofun

theorem Timely.congr (hi : Timely s) (ht : s'.ticks.Sublist s.ticks) (hs : s'.sleeps = s.sleeps)
    (hg : s'.gReceive = s.gReceive) (hr : ∀ r, (s'.recs r).credit = (s.recs r).credit)
    (hstops : ∀ n ∈ s'.main.stopsFor, n ∈ s.main.stopsFor)
    (hc : ∀ r, s'.main.condemns s'.gReceive r → (s.recs r).connected = false) : Timely s' := by
  simp only [ReceivePara.credit, Prod.mk.injEq] at hr
  have hconn r := (hr r).1
  have hacc r := (hr r).2.1
  have hbeat r := (hr r).2.2
  refine ⟨hi.sorted.sublist ht, ?_, ?_, ?_, ?_, ?_, ?_⟩
  · rw [hs]
    exact fun n hn => hi.slept n (ht.subset hn)
  · simpa only [hacc, hs] using hi.acceptedIn
  · simpa only [hbeat, hs] using hi.beatIn
  · simp only [hacc, hg]
    exact fun n hn => hi.accepted n (hstops n hn)
  · simp only [hconn, hbeat, hg]
    exact fun n hn => hi.beats n (ht.subset hn)
  · simpa only [hconn] using hc

theorem Timely.create (hi : Timely s) (hb : Below s) :
    Timely { s with
      recs := update s.recs s.accepted .init
      accepted := s.accepted + 1
      server := .created s.accepted } := by
  have hold : ∀ r, s.gReceive = some r → update s.recs s.accepted .init r = s.recs r :=
    fun r h => Function.update_of_ne (Nat.ne_of_lt (hb r (.inl h))) _ _
  refine ⟨hi.sorted, hi.slept, ?_, ?_, ?_, ?_, ?_⟩
  · rw [Function.forall_update_iff s.recs fun _ g => ∀ a, g.acceptedIn = some a → a ≤ s.sleeps]
    exact ⟨fun _ => nofun, fun r _ => hi.acceptedIn r⟩
  · rw [Function.forall_update_iff s.recs fun _ g => ∀ b, g.beatIn = some b → b ≤ s.sleeps]
    exact ⟨fun _ => nofun, fun r _ => hi.beatIn r⟩
  · intro n hn r hg
    simpa only [hold r hg] using hi.accepted n hn r hg
  · intro n hn r hg
    simpa only [hold r hg] using hi.beats n hn r hg
  · intro r hr
    by_cases ha : r = s.accepted
    · subst ha
      simp [ReceivePara.init, ReceivePara.absent]
    · simpa [ha] using hi.condemned r hr

theorem condemns_of_stopsFor {g : Option Nat} (h : s.main.stopsFor = none)
    (hc : s.main.condemns g r) : s.main.condemns s.gReceive r := by
  cases hm : s.main with
  | closeStreams | setDisconnected | stopReceive =>
    rw [hm] at h
    cases h
  | _ => rwa [hm] at hc

theorem Timely.install (hi : Timely s) (hnone : s.main.stopsFor = none) (r : Nat)
    (hbeat : ∀ n ∈ s.ticks, ∀ b ∈ (s.recs r).beatIn, b < n) :
    Timely { s with
      recs := update s.recs r { s.recs r with installed := true }
      gReceive := some r
      server := .installed r } := by
  have hcredit : ∀ q, (update s.recs r { s.recs r with installed := true } q).credit =
      (s.recs q).credit := fun q => map_update ReceivePara.credit q rfl
  simp only [ReceivePara.credit, Prod.mk.injEq] at hcredit
  refine ⟨hi.sorted, hi.slept, ?_, ?_, ?_, ?_, ?_⟩
  · intro q a h
    exact hi.acceptedIn q a ((hcredit q).2.1 ▸ h)
  · intro q b h
    exact hi.beatIn q b ((hcredit q).2.2 ▸ h)
  · intro n hn
    rw [show s.main.stopsFor = some n from hn] at hnone
    cases hnone
  · intro n hn q hq _ b hb
    obtain rfl := Option.some.inj hq
    exact hbeat n hn b ((hcredit r).2.2 ▸ hb)
  · intro q hq
    exact (hcredit q).1.trans (hi.condemned q (condemns_of_stopsFor hnone hq))

-- ---------------------------------------------------------------------------
-- One lemma for each thread
-- ---------------------------------------------------------------------------

theorem Timely.server (hi : Timely s) (hb : Below s) (hc : TicksSettled s (.server listening))
    (h : ServerMove s s') : Timely s' := by
  cases h with
  | create => exact hi.create hb
  | @install r hpc =>
    obtain ⟨hnone, hbeat⟩ := hc r (by rw [hpc]; rfl)
    exact hi.install hnone r hbeat
  | post =>
    refine hi.congr ?_ rfl rfl (fun _ => rfl) (fun _ => id) hi.condemned
    simp [ticks]
  | _ => exact hi.congr (List.Sublist.refl _) rfl rfl (fun _ => rfl) (fun _ => id) hi.condemned

theorem Timely.accept (hi : Timely s) (origin : Origin) {pc : MainPc}
    (ht : ((s.traceAccepted origin).goto pc).ticks.Sublist s.ticks) (hnone : pc.stopsFor = none)
    (hc : ∀ r, ¬ pc.condemns s.gReceive r) : Timely ((s.traceAccepted origin).goto pc) := by
  have hstamp : ∀ r, ((s.traceAccepted origin).recs r).acceptedIn = (s.recs r).acceptedIn ∨
      (s.recs r).acceptedIn = none ∧
        ((s.traceAccepted origin).recs r).acceptedIn = some s.sleeps := by
    intro r
    cases hr : (s.recs r).acceptedIn <;> simp only [traceAccepted] <;> split <;> simp [hr]
  have hconn := traceAccepted_keeps ReceivePara.connected (fun _ _ => rfl) s origin
  have hbeat := traceAccepted_keeps ReceivePara.beatIn (fun _ _ => rfl) s origin
  refine ⟨hi.sorted.sublist ht, fun n hn => hi.slept n (ht.subset hn), ?_, ?_, ?_, ?_,
    fun r hr => absurd hr (hc r)⟩
  · intro r a h
    rcases hstamp r with heq | ⟨-, heq⟩
    · exact hi.acceptedIn r a (heq ▸ h)
    · have hsame : some s.sleeps = some a := heq.symm.trans h
      exact Nat.le_of_eq (Option.some.inj hsame).symm
  · exact fun r b h => hi.beatIn r b (hbeat r ▸ h)
  · intro n hn
    rw [goto, hnone] at hn
    cases hn
  · intro n hn r hg h b hb
    exact hi.beats n (ht.subset hn) r hg (hconn r ▸ h) b (hbeat r ▸ hb)

theorem Timely.heartBeat (hi : Timely s) (hg : s.gReceive = some r) (origin : Origin)
    (ht : (((s.setRec r { s.recs r with connected := true }).traceBeat origin).goto
      .idle).ticks.Sublist s.ticks) :
    Timely (((s.setRec r { s.recs r with connected := true }).traceBeat origin).goto .idle) := by
  have hold : ∀ q, (update s.recs r { s.recs r with connected := true } q).beatIn =
      (s.recs q).beatIn := fun q => map_update ReceivePara.beatIn q rfl
  have hacc := heartBeat_keeps ReceivePara.acceptedIn (fun _ _ _ => rfl) s r origin
  have hbeat : ∀ q, (((s.setRec r { s.recs r with connected := true }).traceBeat origin).recs
      q).beatIn = some s.sleeps ∨ (((s.setRec r { s.recs r with connected := true }).traceBeat
        origin).recs q).beatIn = (s.recs q).beatIn := by
    intro q
    rw [← hold q]
    simp only [traceBeat, setRec]
    split
    · exact .inl rfl
    · exact .inr rfl
  have hconn : (((s.setRec r { s.recs r with connected := true }).traceBeat origin).recs
      r).connected = true := by
    simp only [traceBeat, setRec]
    split <;> simp
  refine ⟨hi.sorted.sublist ht, fun n hn => hi.slept n (ht.subset hn), ?_, ?_, ?_, ?_,
    fun _ => nofun⟩
  · exact fun q a h => hi.acceptedIn q a (hacc q ▸ h)
  · intro q b h
    rcases hbeat q with heq | heq
    · have hsame : some s.sleeps = some b := heq.symm.trans h
      exact Nat.le_of_eq (Option.some.inj hsame).symm
    · exact hi.beatIn q b (heq ▸ h)
  · exact fun _ => nofun
  · intro n _ q hq h
    -- the client whose heart beat counts is the one installed
    obtain rfl := Option.some.inj (hg.symm.trans hq)
    exact absurd (hconn.symm.trans h) nofun

theorem Timely.reset (hi : Timely s) (hpc : s.main = .resetConnected n)
    (hg : s.gReceive = some r) (hb : ∀ b, (s.recs r).beatIn = some b → b ≤ n) :
    Timely ((s.setRec r { s.recs r with connected := false }).goto .idle) := by
  have hacc : ∀ q, (update s.recs r { s.recs r with connected := false } q).acceptedIn =
      (s.recs q).acceptedIn := fun q => map_update ReceivePara.acceptedIn q rfl
  have hbeat : ∀ q, (update s.recs r { s.recs r with connected := false } q).beatIn =
      (s.recs q).beatIn := fun q => map_update ReceivePara.beatIn q rfl
  have hticks : s.ticks =
      n :: ((s.setRec r { s.recs r with connected := false }).goto .idle).ticks := by
    simp [ticks, hpc, MainPc.ticks]
  have hsorted := hi.sorted
  rw [hticks] at hsorted
  obtain ⟨hlater, hsorted⟩ := List.pairwise_cons.mp hsorted
  have ht : ∀ k ∈ ((s.setRec r { s.recs r with connected := false }).goto .idle).ticks,
      k ∈ s.ticks := fun k hk => by rw [hticks]; exact List.mem_cons_of_mem _ hk
  refine ⟨hsorted, fun k hk => hi.slept k (ht k hk), ?_, ?_, ?_, ?_, fun _ => nofun⟩
  · exact fun q a h => hi.acceptedIn q a (hacc q ▸ h)
  · exact fun q b h => hi.beatIn q b (hbeat q ▸ h)
  · exact fun _ => nofun
  · intro k hk q hq _ b h
    obtain rfl := Option.some.inj (hg.symm.trans hq)
    exact Nat.lt_of_le_of_lt (hb b (hbeat _ ▸ h)) (hlater k hk)

theorem Timely.main (hi : Timely s) (hc : TicksSettled s (.main a)) (h : MainMove s s') :
    Timely s' := by
  have ht := ticks_main h
  cases h with
  | acceptFirst | accept => exact hi.accept _ ht rfl fun _ => nofun
  | heartBeat hpc htype hg => exact hi.heartBeat hg _ ht
  | reset hpc hg => exact hi.reset hpc hg (hc.2 _ (by rw [hpc]; rfl) _ hg)
  | @missed n r hpc hg hconn =>
    refine ⟨hi.sorted.sublist ht, fun k hk => hi.slept k (ht.subset hk), hi.acceptedIn, hi.beatIn,
      fun k hk q hq => ?_, fun k hk => hi.beats k (ht.subset hk), fun q hq => ?_⟩
    · obtain rfl := Option.some.inj hk
      obtain rfl := Option.some.inj (hg.symm.trans hq)
      -- a timeout that finds the client silent is younger than it
      refine (hc.1 n (by rw [hpc]; rfl) r hg).resolve_right ?_
      rintro ⟨b, hb, hle⟩
      have hn : n ∈ s.ticks := by simp [ticks, hpc, MainPc.ticks]
      exact absurd (hi.beats n hn r hg hconn b hb) (Nat.not_lt.mpr hle)
    · rw [Option.some.inj (hg.symm.trans hq)] at hconn
      exact hconn
  | @stop n r hpc hg =>
    refine hi.congr ht rfl rfl (fun q => map_update ReceivePara.credit q rfl) (fun _ => nofun)
      fun q hq => ?_
    rw [← show r = q from hq]
    exact hi.condemned r (by rw [hpc]; exact hg)
  | @free r hpc =>
    have hconn : (s.recs r).connected = false := hi.condemned r (by rw [hpc]; rfl)
    refine hi.congr ht rfl rfl (fun q => map_update ReceivePara.credit q ?_) (fun _ => nofun)
      fun _ => nofun
    simp [ReceivePara.credit, hconn]
  | clear =>
    exact ⟨hi.sorted.sublist ht, fun n hn => hi.slept n (ht.subset hn), hi.acceptedIn, hi.beatIn,
      fun _ _ _ => nofun, fun _ _ _ => nofun, fun _ => nofun⟩
  | closeStreams _ _ hpc | setDisconnected hpc =>
    exact hi.congr ht rfl rfl (fun _ => rfl) (fun n hn => by rw [hpc]; exact hn)
      fun q hq => hi.condemned q (by rw [hpc]; exact hq)
  | join hpc =>
    exact hi.congr ht rfl rfl (fun _ => rfl) (fun _ => nofun)
      fun q hq => hi.condemned q (by rw [hpc]; exact hq)
  | crash => exact hi.congr ht rfl rfl (fun _ => rfl) (fun _ => id) hi.condemned
  | _ => exact hi.congr ht rfl rfl (fun _ => rfl) (fun _ => nofun) fun _ => nofun

theorem Timely.timer (hi : Timely s) (h : TimerMove s s') : Timely s' := by
  have hsame : s'.recs = s.recs ∧ s'.gReceive = s.gReceive ∧ s'.main = s.main := by
    cases h <;> exact ⟨rfl, rfl, rfl⟩
  obtain ⟨hr, hg, hm⟩ := hsame
  rcases ticks_timer h with ⟨ht, hs⟩ | ⟨hpc, ht, hs⟩
  · exact hi.congr (ht ▸ List.Sublist.refl _) hs hg (fun r => by rw [hr])
      (by rw [hm]; exact fun _ => id) (by rw [hm, hg]; exact hi.condemned)
  · have hmem : ∀ n, n ∈ s'.ticks → n ∈ s.ticks ∨ n = s.sleeps + 1 := by
      simp [ht]
    refine ⟨?_, ?_, ?_, ?_, ?_, ?_, ?_⟩
    · rw [ht, List.pairwise_append]
      refine ⟨hi.sorted, List.pairwise_singleton _ _, fun a ha b hb => ?_⟩
      rw [List.mem_singleton.mp hb]
      exact Nat.lt_succ_of_le (hi.slept a ha)
    · intro n hn
      rcases hmem n hn with hn | rfl
      · have := hi.slept n hn
        omega
      · exact Nat.le_of_eq hs.symm
    · rw [hr, hs]
      exact fun r a h => Nat.le_succ_of_le (hi.acceptedIn r a h)
    · rw [hr, hs]
      exact fun r b h => Nat.le_succ_of_le (hi.beatIn r b h)
    · rw [hr, hm, hg]
      exact hi.accepted
    · rw [hr, hg]
      intro n hn r hgr hconn b hb
      rcases hmem n hn with hn | rfl
      · exact hi.beats n hn r hgr hconn b hb
      · exact Nat.lt_succ_of_le (hi.beatIn r b hb)
    · rw [hr, hm, hg]
      exact hi.condemned

theorem Timely.step (hi : Timely s) (hb : Below s) (hp : Posts s) (hc : TicksSettled s act)
    (h : (adapter K).step s act = some s') : Timely s' := by
  obtain ⟨-, hmove⟩ := step_move h
  cases hmove with
  | server h => exact hi.server hb hc h
  | timer h => exact hi.timer h
  | main h => exact hi.main hc h
  | post h =>
    have ht := ticks_post hp h
    cases h <;> exact hi.congr (ht ▸ List.Sublist.refl _) rfl rfl (fun _ => rfl) (fun _ => id)
      hi.condemned
  | receive h =>
    have ht : s'.ticks = s.ticks := by cases h <;> simp [ticks]
    cases h <;> exact hi.congr (ht ▸ List.Sublist.refl _) rfl rfl
      (fun q => map_update ReceivePara.credit q rfl) (fun _ => id) hi.condemned
  | send h =>
    cases h with
    | full | short =>
      exact hi.congr (List.Sublist.refl _) rfl rfl
        (fun q => map_update ReceivePara.credit q rfl) (fun _ => id) hi.condemned
    | _ =>
      exact hi.congr (List.Sublist.refl _) rfl rfl (fun _ => rfl) (fun _ => id) hi.condemned
  | spurious hpc =>
    have ht : ({ s with timer := .waiting true } : System).ticks = s.ticks := by
      simp [ticks, hpc, TimerPc.ticks]
    exact hi.congr (ht ▸ List.Sublist.refl _) rfl rfl (fun _ => rfl) (fun _ => id) hi.condemned
  | broker | dma | disconnect =>
    exact hi.congr (List.Sublist.refl _) rfl rfl (fun _ => rfl) (fun _ => id) hi.condemned

theorem timely (h : (adapter K).ReachesUnder TicksSettled s) : Timely s :=
  h.invariant timely_init fun _ _ _ hr hi hc hs => hi.step (below hr) (posts hr) hc hs

-- ---------------------------------------------------------------------------
-- Runs
-- ---------------------------------------------------------------------------

/-- The client that `freeReceThread` is about to stop for the timeout of sleep
`n` had its accept message handled before that sleep began, and no heart beat
of it was handled since. -/
def StoppedInTime (s : System) : Prop :=
  ∀ n r, s.main = .stopReceive n → s.gReceive = some r →
    (∃ a, (s.recs r).acceptedIn = some a ∧ a < n) ∧ ∀ b, (s.recs r).beatIn = some b → b < n

theorem stopped_in_time (h : (adapter K).ReachesUnder TicksSettled s) : StoppedInTime s := by
  have hi := timely h
  intro n r hm hg
  have hn : n ∈ s.ticks := by simp [ticks, hm, MainPc.ticks]
  have hconn := hi.condemned r (by rw [hm]; exact hg)
  exact ⟨hi.accepted n (by rw [hm]; rfl) r hg, hi.beats n hn r hg hconn⟩

def silentClient : List Act := boot ++ acceptClient ++ mains 9 ++ tick ++ mains 5

/-- Client 1 connects while the timer thread is still in the sleep it began after
that timeout, and beats once. -/
def reconnect : List Act :=
  silentClient ++ List.replicate 2 .timer ++ mains 1 ++ exitReceive 0 ++ mains 5 ++ acceptClient ++
    mains 12 ++ beat 1 ++ mains 2 ++ [.timer] ++ posted .timer ++ mains 4 ++
    List.replicate 3 .timer ++ posted .timer ++ mains 5

theorem reconnect_in_time : ∃ s, (adapter 8).run reconnect = some s ∧
    s.main = .stopReceive 3 ∧ s.gReceive = some 1 ∧ StoppedInTime s := by
  obtain ⟨s, hs, hp⟩ := (Option.any_eq_true _ _).mp (show ((adapter 8).run reconnect).any
    (fun s => s.main = .stopReceive 3 ∧ s.gReceive = some 1) = true by decide +kernel)
  obtain ⟨hm, hg⟩ := of_decide_eq_true hp
  have hr : (adapter 8).ReachesUnder TicksSettled s :=
    Machine.run_reachesUnder (by decide +kernel) hs
  exact ⟨s, hs, hm, hg, stopped_in_time hr⟩

/-- The timer goes on while client 0 is stopped, and its next timeout stops the
client accepted after it. -/
def staleTick : List Act :=
  silentClient ++ mains 1 ++ exitReceive 0 ++ mains 5 ++ acceptClient ++
    List.replicate 3 .timer ++ posted .timer ++ mains 12 ++ mains 5

theorem staleTick_too_early : ¬ ∀ K s, 0 < K → (adapter K).Reaches s → StoppedInTime s := by
  intro h
  obtain ⟨s, hs, hp⟩ := Machine.exists_reaches (M := adapter 8) (p := fun s =>
    s.main = .stopReceive 2 && s.gReceive = some 1 && (s.recs 1).acceptedIn = some 2)
    staleTick (by decide +kernel)
  simp only [Bool.and_eq_true, decide_eq_true_eq] at hp
  obtain ⟨⟨hm, hg⟩, hacc⟩ := hp
  obtain ⟨⟨a, ha, hlt⟩, -⟩ := h 8 s (by decide) hs 2 1 hm hg
  rw [hacc] at ha
  cases ha
  exact absurd hlt (by decide)

end System

end DevAdapter

import DevAdapter.System.Moves

/-!
# Before the first client

As long as `waiting` is `STATE_STARTUP` no accept message has been posted, so
the timer has not been started and no timeout is posted, queued or handled.
-/

namespace DevAdapter

open Function (update)

def TimerPc.parked : TimerPc → Bool
  | .lock | .test | .park | .waiting _ => true
  | _ => false

def MsgType.early (type : MsgType) : Bool :=
  type.fromClient || type == .receiveThreadClosed

/-- A place of the main thread that no accept message or timeout leads to. -/
def MainPc.early : MainPc → Bool
  | .handle m => m.type.early
  | .idle | .inquiry _ | .sending | .stopTimer | .clearTimer => true
  | _ => false

def ServerPc.early : ServerPc → Bool
  | .start | .accepting | .created _ | .installed _ => true
  | _ => false

def PostPc.early : PostPc → Bool
  | .want type _ => type.early
  | .msgsnd m => m.type.early
  | _ => true

namespace System

structure DormantAt (server : ServerPc) (main : MainPc) (timer : TimerPc) (running : Bool)
    (queue : List Msg) (post : Poster → PostPc) : Prop where
  server : server.early = true
  main : main.early = true
  timer : timer.parked = true
  running : running = false
  queue : ∀ m ∈ queue, m.type.early = true
  post : ∀ p, (post p).early = true

/-- What holds until the first client. -/
structure StartupAt (waiting : Waiting) (server : ServerPc) (main : MainPc) (timer : TimerPc)
    (running : Bool) (queue : List Msg) (post : Poster → PostPc) : Prop where
  start : server = .start → waiting = .startup
  dormant : waiting = .startup → DormantAt server main timer running queue post

abbrev Startup (s : System) : Prop :=
  StartupAt s.waiting s.server s.main s.timer s.running s.queue s.post

theorem startup_init : Startup .init where
  start _ := rfl
  dormant _ := by constructor <;> simp [System.init, ServerPc.early, MainPc.early, TimerPc.parked, PostPc.early]

variable {s s' : System}

-- ---------------------------------------------------------------------------
-- Steps before the first client
-- ---------------------------------------------------------------------------

theorem StartupAt.imp {main main' : MainPc} {timer timer' : TimerPc} {running running' : Bool}
    {queue queue' : List Msg} {post post' : Poster → PostPc}
    (hi : StartupAt w sv main timer running queue post)
    (h : DormantAt sv main timer running queue post →
      DormantAt sv main' timer' running' queue' post') :
    StartupAt w sv main' timer' running' queue' post' :=
  ⟨hi.start, fun hw => h (hi.dormant hw)⟩

theorem Startup.main (hi : Startup s) (h : MainMove s s') : Startup s' := by
  cases h with
  | take hpc hqueue =>
    refine hi.imp fun hd => ?_
    have hearly := hd.queue
    rw [hqueue] at hearly
    exact { hd with
      main := hearly _ (by simp)
      queue := fun m hm => hearly m (by simp [hm]) }
  | setDisconnected hpc =>
    refine ⟨fun hs => ?_, fun hw => by cases hw⟩
    have := (hi.dormant (hi.start hs)).main
    simp [hpc, MainPc.early] at this
  | _ =>
    refine hi.imp fun hd => ?_
    have hmain := hd.main
    -- the main thread goes on at an early place, or its place was none
    first
      | exact { hd with main := rfl }
      | simp_all [MainPc.early, MsgType.early, MsgType.fromClient]

theorem Startup.connected_of_timeout (hi : Startup s) (hpc : s.main = .handle m)
    (htype : m.type = .timeout) (hw : s.waiting ≠ .disconnected) : s.waiting = .connected := by
  cases hs : s.waiting with
  | disconnected => exact absurd hs hw
  | connected => rfl
  | startup =>
    have := (hi.dormant hs).main
    simp [hpc, MainPc.early, MsgType.early, htype, MsgType.fromClient] at this

theorem Startup.timer (hi : Startup s) (h : TimerMove s s') : Startup s' := by
  cases h with
  | lock | stay | park | wake => exact hi.imp fun hd => { hd with timer := rfl }
  | goOn _ _ hrun =>
    refine hi.imp fun hd => ?_
    have hnot := hd.running
    rw [hrun] at hnot
    cases hnot
  | unlock _ hpc | sleep _ hpc | timeout _ hpc | again _ hpc | close _ hpc | clearRunning _ hpc
    | postStop _ hpc =>
    refine hi.imp fun hd => ?_
    have hparked := hd.timer
    rw [hpc] at hparked
    cases hparked

theorem Startup.server (hi : Startup s) (h : ServerMove s s') : Startup s' := by
  cases h with
  | listen hpc =>
    have hd := hi.dormant (hi.start hpc)
    exact ⟨fun _ => rfl, fun _ => { hd with server := rfl }⟩
  | giveUp | connect => exact ⟨fun h => (by cases h), fun h => (by cases h)⟩
  | post hpc =>
    refine ⟨fun h => (by cases h), fun hw => ?_⟩
    have := (hi.dormant hw).server
    simp [hpc, ServerPc.early] at this
  | create | install =>
    exact ⟨fun h => (by cases h), fun hw => { hi.dormant hw with server := rfl }⟩

theorem early_update {post : Poster → PostPc} {pc : PostPc} (h : ∀ p, (post p).early = true)
    (p : Poster) (hpc : pc.early = true) : ∀ q, (update post p pc q).early = true := by
  rw [Function.forall_update_iff post fun _ pc => pc.early = true]
  exact ⟨hpc, fun q _ => h q⟩

theorem Startup.post (hi : Startup s) (h : PostMove K s p s') : Startup s' := by
  cases h with
  | lock hpc =>
    refine hi.imp fun hd => ?_
    have hearly := hd.post p
    rw [hpc] at hearly
    exact { hd with post := early_update hd.post p hearly }
  | @msgsnd m hpc =>
    refine hi.imp fun hd => ?_
    have hearly := hd.post p
    rw [hpc] at hearly
    refine { hd with queue := fun m' hm' => ?_, post := early_update hd.post p rfl }
    rcases List.mem_append.mp hm' with h | h
    · exact hd.queue m' h
    · rw [List.mem_singleton.mp h]
      exact hearly
  | unlock => exact hi.imp fun hd => { hd with post := early_update hd.post p rfl }

theorem Startup.receive (hi : Startup s) (h : ReceiveMove s r s') : Startup s' := by
  cases h with
  | quiet | exit => exact hi
  | message _ _ _ _ htype =>
    refine hi.imp fun hd => { hd with post := early_update hd.post _ ?_ }
    simp [PostPc.early, MsgType.early, htype]
  | close => exact hi.imp fun hd => { hd with post := early_update hd.post _ rfl }

theorem Startup.step (hi : Startup s) (h : (adapter K).step s act = some s') : Startup s' := by
  obtain ⟨-, hmove⟩ := step_move h
  cases hmove with
  | post h => exact hi.post h
  | server h => exact hi.server h
  | receive h => exact hi.receive h
  | timer h => exact hi.timer h
  | spurious => exact hi.imp fun hd => { hd with timer := rfl }
  | main h => exact hi.main h
  | send h => cases h <;> exact hi
  | broker | dma | disconnect => exact hi

theorem startup (h : (adapter K).ReachesUnder C s) : Startup s :=
  h.invariant startup_init fun _ _ _ _ hi _ hs => hi.step hs

end System

end DevAdapter

import DevAdapter.System.Moves

/-!
# Which records exist, and who posts what

The server thread posts accept messages, the timer thread timeouts and stop
messages, a receive thread what its client asks for and, once it is stopped,
one `MSG_RECEIVE_THREAD_CLOSED`. A receive thread that is stopped and has not
got that message into the queue has the main thread waiting in its join.
-/

namespace DevAdapter

open Function (update)
open Transition

/-- The type of the message that is not in the queue yet. -/
def PostPc.type? : PostPc → Option MsgType
  | .want type _ => some type
  | .msgsnd m => some m.type
  | .idle | .unlock => none

def PostPc.enqueues : PostPc → Bool
  | .msgsnd _ => true
  | _ => false

/-- The thread has put its `MSG_RECEIVE_THREAD_CLOSED` into the queue. -/
def ReceivePc.closed (post : PostPc) : ReceivePc → Bool
  | .closing => post.type?.isNone
  | .exited => true
  | _ => false

theorem ReceivePc.not_closed_of_working {pc : ReceivePc} (h : pc.working = true) (post : PostPc) :
    pc.closed post = false := by
  cases pc <;> first | rfl | cases h

theorem ReceivePc.ne_absent_of_working {pc : ReceivePc} (h : pc.working = true) :
    pc ≠ .absent := by
  rintro rfl
  cases h

theorem ReceivePc.closed_mono {pc : ReceivePc} {post post' : PostPc}
    (h : ∀ type, post'.type? = some type → post.type? = some type)
    (hc : pc.closed post' = false) : pc.closed post = false := by
  cases pc with
  | closing =>
    cases ht : post'.type? with
    | none => simp [ReceivePc.closed, ht] at hc
    | some type => simp [ReceivePc.closed, h type ht]
  | exited => cases hc
  | _ => rfl

def ReceivePara.life (g : ReceivePara) : ReceivePc × Bool := (g.pc, g.receiveRunning)

namespace System

-- ---------------------------------------------------------------------------
-- Records exist before they are installed
-- ---------------------------------------------------------------------------

def Below (s : System) : Prop :=
  ∀ r, s.gReceive = some r ∨ s.server = .created r → r < s.accepted

theorem Below.step {s s' : System} (hi : Below s) (h : (adapter K).step s act = some s') :
    Below s' := by
  obtain ⟨-, hmove⟩ := step_move h
  cases hmove with
  | server h =>
    cases h with
    | create =>
      rintro r (h | h)
      · exact Nat.lt_succ_of_lt (hi r (.inl h))
      · rw [← ServerPc.created.inj h]
        exact Nat.lt_succ_self _
    | install hpc =>
      rintro r (h | h)
      · rw [← Option.some.inj h]
        exact hi _ (.inr hpc)
      · cases h
    | _ => exact fun r h => hi r (h.imp id nofun)
  | main h =>
    cases h with
    | clear => exact fun r h => hi r (h.imp nofun id)
    | _ => exact hi
  | post h => cases h <;> exact hi
  | receive h => cases h <;> exact hi
  | timer h => cases h <;> exact hi
  | send h => cases h <;> exact hi
  | spurious | broker | dma | disconnect => exact hi

theorem below {s : System} (h : (adapter K).ReachesUnder C s) : Below s :=
  h.invariant (I := Below) (fun r h => by rcases h with h | h <;> cases h)
    fun _ _ _ _ hi _ hs => hi.step hs

-- ---------------------------------------------------------------------------
-- Who posts what
-- ---------------------------------------------------------------------------

structure PostsAt (recs : Nat → ReceivePara) (accepted : Nat) (post : Poster → PostPc)
    (main : MainPc) : Prop where
  fresh : ∀ r, accepted ≤ r → (recs r).pc = .absent
  server : ∀ type, (post .server).type? = some type → type = .acceptNewClient
  timer : ∀ type, (post .timer).type? = some type → type = .timeout ∨ type = .stopTimer
  receive : ∀ r type, (post (.receive r)).type? = some type →
    type.fromClient = true ∨ type = .receiveThreadClosed ∧ (recs r).pc = .closing
  exited : ∀ r, (recs r).pc = .exited → post (.receive r) = .idle
  closing : ∀ r, (recs r).pc = .closing → (recs r).receiveRunning = false
  joined : ∀ r, (recs r).pc ≠ .absent → (recs r).receiveRunning = false →
    (recs r).pc.closed (post (.receive r)) = false → main = .join r

abbrev Posts (s : System) : Prop := PostsAt s.recs s.accepted s.post s.main

theorem posts_init : Posts .init where
  fresh _ _ := rfl
  server _ := nofun
  timer _ := nofun
  receive _ _ := nofun
  exited _ := nofun
  closing _ := nofun
  joined _ h := absurd rfl h

variable {s s' : System}

theorem PostMove.type? (h : PostMove K s p s') {q : Poster} {type : MsgType}
    (hq : (s'.post q).type? = some type) : (s.post q).type? = some type := by
  by_cases hqp : q = p
  · subst hqp
    cases h with
    | lock hpc =>
      rw [hpc]
      simpa [PostPc.type?] using hq
    | msgsnd hpc => simp [PostPc.type?] at hq
    | unlock hpc => simp [PostPc.type?] at hq
  · cases h <;> simpa [hqp] using hq

theorem PostMove.idle (h : PostMove K s p s') {q : Poster} (hq : s.post q = .idle) :
    s'.post q = .idle := by
  have hqp : q ≠ p := by
    rintro rfl
    cases h <;> simp_all
  cases h <;> simpa [hqp] using hq

theorem Posts.post (hi : Posts s) (h : PostMove K s p s') : Posts s' := by
  have hsame : s'.recs = s.recs ∧ s'.accepted = s.accepted ∧ s'.main = s.main := by
    cases h <;> exact ⟨rfl, rfl, rfl⟩
  obtain ⟨hr, ha, hm⟩ := hsame
  rw [Posts, hr, ha, hm]
  exact ⟨hi.fresh, fun type ht => hi.server type (h.type? ht), fun type ht => hi.timer type (h.type? ht),
    fun r type ht => hi.receive r type (h.type? ht), fun r hpc => h.idle (hi.exited r hpc), hi.closing,
    fun r hpc hrun hc => hi.joined r hpc hrun (ReceivePc.closed_mono (fun _ => h.type?) hc)⟩

-- ---------------------------------------------------------------------------
-- Steps of a receive thread
-- ---------------------------------------------------------------------------

theorem forall_update_receive {P : Nat → ReceivePara → PostPc → Prop} {r : Nat} {g : ReceivePara}
    {pc : PostPc} (hnew : P r g pc) (hold : ∀ q, P q (s.recs q) (s.post (.receive q))) (q : Nat) :
    P q (update s.recs r g q) (update s.post (.receive r) pc (.receive q)) := by
  by_cases hq : q = r
  · subst hq
    simpa using hnew
  · simpa [hq] using hold q

theorem Posts.setReceive (hi : Posts s) {r : Nat} (buf : ReceiveBuf) (pc : ReceivePc)
    (post : PostPc) (hold : (s.recs r).pc ≠ .absent)
    (hpost : ∀ type, post.type? = some type →
      type.fromClient = true ∨ type = .receiveThreadClosed ∧ pc = .closing)
    (hexited : pc = .exited → post = .idle)
    (hclosing : pc = .closing → (s.recs r).receiveRunning = false)
    (hjoined : (s.recs r).receiveRunning = false → pc.closed post = false → s.main = .join r) :
    PostsAt (update s.recs r { s.recs r with buf := buf, pc := pc }) s.accepted
      (update s.post (.receive r) post) s.main := by
  refine ⟨?_, by simpa using hi.server, by simpa using hi.timer, ?_, ?_, ?_, ?_⟩
  · rw [Function.forall_update_iff s.recs fun q g => s.accepted ≤ q → g.pc = .absent]
    exact ⟨fun hle => absurd (hi.fresh r hle) hold, fun q _ => hi.fresh q⟩
  · exact forall_update_receive (P := fun _ g post => ∀ type, post.type? = some type →
      type.fromClient = true ∨ type = .receiveThreadClosed ∧ g.pc = .closing) hpost hi.receive
  · exact forall_update_receive (P := fun _ g post => g.pc = .exited → post = .idle)
      hexited hi.exited
  · rw [Function.forall_update_iff s.recs fun _ g => g.pc = .closing → g.receiveRunning = false]
    exact ⟨hclosing, fun q _ => hi.closing q⟩
  · exact forall_update_receive (P := fun q g post => g.pc ≠ .absent → g.receiveRunning = false →
      g.pc.closed post = false → s.main = .join q) (fun _ => hjoined) hi.joined

theorem Posts.working (hi : Posts s) (h : (s.recs r).pc.working = true)
    (hrun : (s.recs r).receiveRunning = false) : s.main = .join r :=
  hi.joined r (ReceivePc.ne_absent_of_working h) hrun (ReceivePc.not_closed_of_working h _)

theorem Posts.receive_step (hi : Posts s) (h : ReceiveMove s r s') : Posts s' := by
  cases h with
  | @quiet buf pc hidle hold hnew =>
    have := hi.setReceive buf pc .idle (ReceivePc.ne_absent_of_working hold) nofun
      (fun _ => rfl) (by rintro rfl; cases hnew) fun hrun _ => hi.working hold hrun
    rwa [← hidle, Function.update_eq_self] at this
  | @message buf pc type hidle hold hnew htype =>
    refine hi.setReceive buf _ _ (ReceivePc.ne_absent_of_working hold) ?_ ?_ ?_ ?_
    · rintro t h
      cases h
      exact .inl htype
    · rintro rfl
      cases hnew
    · rintro rfl
      cases hnew
    · exact fun hrun _ => hi.working hold hrun
  | close hidle hpc hstopped =>
    refine hi.setReceive _ _ _ (by rw [hpc]; exact nofun) ?_ nofun (fun _ => hstopped) ?_
    · rintro type h
      cases h
      exact .inr ⟨rfl, rfl⟩
    · exact fun _ _ => hi.working (by rw [hpc]; rfl) hstopped
  | exit hidle hpc =>
    have := hi.setReceive (s.recs r).buf .exited .idle (by rw [hpc]; exact nofun) nofun
      (fun _ => rfl) nofun (fun _ => nofun)
    rwa [← hidle, Function.update_eq_self] at this

-- ---------------------------------------------------------------------------
-- Steps of the main and the server thread
-- ---------------------------------------------------------------------------

theorem Posts.congr (hi : Posts s) {recs : Nat → ReceivePara} (main : MainPc)
    (hr : ∀ r, (recs r).life = (s.recs r).life) (hm : main = s.main ∨ ∀ r, s.main ≠ .join r) :
    PostsAt recs s.accepted s.post main := by
  simp only [ReceivePara.life, Prod.mk.injEq] at hr
  have hpc r := (hr r).1
  have hrun r := (hr r).2
  refine ⟨?_, hi.server, hi.timer, ?_, ?_, ?_, ?_⟩
  · simpa only [hpc] using hi.fresh
  · simpa only [hpc] using hi.receive
  · simpa only [hpc] using hi.exited
  · simpa only [hpc, hrun] using hi.closing
  · simp only [hpc, hrun]
    intro r h1 h2 h3
    rcases hm with rfl | hm
    · exact hi.joined r h1 h2 h3
    · exact absurd (hi.joined r h1 h2 h3) (hm r)

theorem Posts.stop (hi : Posts s) (hpc : s.main = .stopReceive n) (r : Nat) :
    PostsAt (update s.recs r { s.recs r with
      receiveRunning := false, stops := (s.recs r).stops + 1 }) s.accepted s.post (.join r) := by
  have hplace := map_update (f := s.recs) (a := r) (b := { s.recs r with
    receiveRunning := false, stops := (s.recs r).stops + 1 }) ReceivePara.pc
  refine ⟨?_, hi.server, hi.timer, ?_, ?_, ?_, ?_⟩
  · simpa only [hplace _ rfl] using hi.fresh
  · simpa only [hplace _ rfl] using hi.receive
  · simpa only [hplace _ rfl] using hi.exited
  · rw [Function.forall_update_iff s.recs fun _ g => g.pc = .closing → g.receiveRunning = false]
    exact ⟨fun _ => rfl, fun q _ => hi.closing q⟩
  · rw [Function.forall_update_iff s.recs fun q g => g.pc ≠ .absent → g.receiveRunning = false →
      g.pc.closed (s.post (.receive q)) = false → MainPc.join r = .join q]
    refine ⟨fun _ _ _ => rfl, fun q _ h1 h2 h3 => ?_⟩
    have hold := hi.joined q h1 h2 h3
    rw [hpc] at hold
    cases hold

theorem Posts.join (hi : Posts s) (hpc : s.main = .join r) (hexit : (s.recs r).pc = .exited) :
    PostsAt s.recs s.accepted s.post (.free r) := by
  refine ⟨hi.fresh, hi.server, hi.timer, hi.receive, hi.exited, hi.closing, fun q h1 h2 h3 => ?_⟩
  have hq := hi.joined q h1 h2 h3
  rw [hpc] at hq
  obtain rfl := MainPc.join.inj hq
  rw [hexit] at h3
  cases h3

theorem Posts.main_step (hi : Posts s) (h : MainMove s s') : Posts s' := by
  cases h with
  | stop hpc => exact hi.stop hpc _
  | join hpc hexit => exact hi.join hpc hexit
  | acceptFirst hpc | accept hpc =>
    exact hi.congr _ (traceAccepted_keeps ReceivePara.life (fun _ _ => rfl) s _)
      (.inr (by rw [hpc]; exact fun _ => nofun))
  | heartBeat hpc =>
    exact hi.congr _ (heartBeat_keeps ReceivePara.life (fun _ _ _ => rfl) s _ _)
      (.inr (by rw [hpc]; exact fun _ => nofun))
  | reset hpc | free hpc =>
    exact hi.congr _ (fun r => map_update ReceivePara.life r rfl)
      (.inr (by rw [hpc]; exact fun _ => nofun))
  | crash => exact hi
  | _ => exact hi.congr _ (fun _ => rfl) (.inr (by rw [‹s.main = _›]; exact fun _ => nofun))

theorem Posts.create (hi : Posts s) :
    PostsAt (update s.recs s.accepted .init) (s.accepted + 1) s.post s.main := by
  refine ⟨?_, hi.server, hi.timer, ?_, ?_, ?_, ?_⟩
  · rw [Function.forall_update_iff s.recs fun q g => s.accepted + 1 ≤ q → g.pc = .absent]
    exact ⟨fun h => absurd h (Nat.not_succ_le_self _),
      fun q _ h => hi.fresh q (Nat.le_of_succ_le h)⟩
  · rw [Function.forall_update_iff s.recs fun q g => ∀ type,
      (s.post (.receive q)).type? = some type →
        type.fromClient = true ∨ type = .receiveThreadClosed ∧ g.pc = .closing]
    refine ⟨fun type ht => .inl ?_, fun q _ => hi.receive q⟩
    refine (hi.receive _ type ht).resolve_right fun h => ?_
    -- the record that is created had no thread that could be closing
    rw [hi.fresh s.accepted (Nat.le_refl _)] at h
    cases h.2
  · rw [Function.forall_update_iff s.recs fun q g => g.pc = .exited → s.post (.receive q) = .idle]
    exact ⟨nofun, fun q _ => hi.exited q⟩
  · rw [Function.forall_update_iff s.recs fun _ g => g.pc = .closing → g.receiveRunning = false]
    exact ⟨nofun, fun q _ => hi.closing q⟩
  · rw [Function.forall_update_iff s.recs fun q g => g.pc ≠ .absent → g.receiveRunning = false →
      g.pc.closed (s.post (.receive q)) = false → s.main = .join q]
    exact ⟨fun _ => nofun, fun q _ => hi.joined q⟩

theorem Posts.server_step (hi : Posts s) (h : ServerMove s s') : Posts s' := by
  cases h with
  | create => exact hi.create
  | install =>
    exact hi.congr _ (fun r => map_update ReceivePara.life r rfl) (.inl rfl)
  | post hpc =>
    refine ⟨hi.fresh, ?_, by simpa using hi.timer, by simpa using hi.receive,
      by simpa using hi.exited, hi.closing, by simpa using hi.joined⟩
    intro type h
    simpa [PostPc.type?, eq_comm] using h
  | _ => exact hi

theorem Posts.timer_step (hi : Posts s) (h : TimerMove s s') : Posts s' := by
  cases h with
  | timeout hpc | postStop hpc =>
    refine ⟨hi.fresh, by simpa using hi.server, ?_, by simpa using hi.receive,
      by simpa using hi.exited, hi.closing, by simpa using hi.joined⟩
    intro type h
    simp [PostPc.type?] at h
    simp [h]
  | _ => exact hi

theorem Posts.step (hi : Posts s) (h : (adapter K).step s act = some s') : Posts s' := by
  obtain ⟨-, hmove⟩ := step_move h
  cases hmove with
  | post h => exact hi.post h
  | server h => exact hi.server_step h
  | receive h => exact hi.receive_step h
  | timer h => exact hi.timer_step h
  | main h => exact hi.main_step h
  | send h =>
    cases h with
    | full | short => exact hi.congr _ (fun r => map_update ReceivePara.life r rfl) (.inl rfl)
    | _ => exact hi
  | spurious | broker | dma | disconnect => exact hi

theorem posts (h : (adapter K).ReachesUnder C s) : Posts s :=
  h.invariant posts_init fun _ _ _ _ hi _ hs => hi.step hs

-- ---------------------------------------------------------------------------
-- Clients that are being stopped
-- ---------------------------------------------------------------------------

/-- The main thread is stopping a client whose closed message is not queued. -/
def closing (s : System) : Bool :=
  match s.main with
  | .stopReceive _ => true
  | .join r => !(s.recs r).pc.closed (s.post (.receive r))
  | _ => false

theorem closing_of (hm : s'.main = s.main) (hc : ∀ r,
      (s.recs r).pc.closed (s.post (.receive r)) = true →
      (s'.recs r).pc.closed (s'.post (.receive r)) = true)
    (h : s'.closing = true) : s.closing = true := by
  simp only [closing, hm] at h ⊢
  split at h
  · rfl
  · rename_i r _
    by_contra hopen
    rw [hc r (by simpa using hopen)] at h
    cases h
  · cases h

theorem closing_post (h : PostMove K s p s') (hc : s'.closing = true) : s.closing = true := by
  have hm : s'.main = s.main ∧ s'.recs = s.recs := by cases h <;> exact ⟨rfl, rfl⟩
  simp only [closing, hm.1, hm.2] at hc ⊢
  split at hc
  · rfl
  · simp only [Bool.not_eq_true'] at hc ⊢
    exact ReceivePc.closed_mono (fun _ => h.type?) hc
  · cases hc

theorem closing_server (hp : Posts s) (h : ServerMove s s') (hc : s'.closing = true) :
    s.closing = true := by
  refine closing_of (by cases h <;> rfl) (fun q hq => ?_) hc
  cases h with
  | create =>
    have hold : q ≠ s.accepted := by
      rintro rfl
      rw [hp.fresh _ (Nat.le_refl _)] at hq
      cases hq
    simpa [hold] using hq
  | @install r =>
    have hsame : (update s.recs r { s.recs r with installed := true } q).pc = (s.recs q).pc :=
      map_update ReceivePara.pc q rfl
    simpa only [hsame] using hq
  | post => simpa using hq
  | _ => exact hq

theorem closing_receive (h : ReceiveMove s r s') (hc : s'.closing = true) :
    s.closing = true := by
  refine closing_of (by cases h <;> rfl) (fun q hq => ?_) hc
  by_cases hqr : q = r
  · subst hqr
    cases h with
    | quiet _ _ hold | message _ _ hold =>
      rw [ReceivePc.not_closed_of_working hold] at hq
      cases hq
    | close _ hpc =>
      rw [hpc] at hq
      cases hq
    | exit => simp [ReceivePc.closed]
  · cases h <;> simpa [hqr] using hq

theorem closing_timer (h : TimerMove s s') (hc : s'.closing = true) : s.closing = true :=
  closing_of (by cases h <;> rfl) (fun q hq => by cases h <;> simpa using hq) hc

theorem closing_send (h : SendMove s x ret s') (hc : s'.closing = true) : s.closing = true := by
  refine closing_of (by cases h <;> rfl) (fun q hq => ?_) hc
  have hpc : (s'.recs q).pc = (s.recs q).pc := by
    cases h <;> first | rfl | exact map_update ReceivePara.pc q rfl
  have hpost : s'.post = s.post := by cases h <;> rfl
  rwa [hpc, hpost]

end System

end DevAdapter

import DevAdapter.ProducedFrames
import DevAdapter.System.SendStream

/-!
# What the client reads

The callers of `sendToPc` hand it the buffers of the producers, any number of
threads at once. A client that splits what it reads by the length words gets
these buffers back, whole and in the order of the sends, and at the end at most
the beginning of one more. RSSI is left out: its frames are all built in
`shareInfo->buf_`, so what `send` gets may be another message's by then, which
`DevAdapter.Rssi` is about.
-/

namespace DevAdapter

open Function (update)
open Framing Transition

def SendPc.buf? : SendPc → Option (List UInt8)
  | .exception buf | .enter buf | .check _ buf | .lock _ buf | .test _ buf | .send _ buf => some buf
  | .idle | .fail _ | .unlock => none

/-- The call has a buffer of its own. -/
def Product.Apart : Product → Prop
  | .rssi _ _ => False
  | .stateInquiry _ _ _ _ | .rfMfState _ _ _ | .iq _ _ _ => True

def MainPc.answers : MainPc → Bool
  | .handle m => m.type = .rfMfState
  | .inquiry _ => true
  | _ => false

-- ---------------------------------------------------------------------------
-- The bytes on one connection
-- ---------------------------------------------------------------------------

theorem Intact.cut {sent : List Sent} (h : Intact sent) : ∃ whole cut, sent = whole ++ cut ∧
    cut.length ≤ 1 ∧ (∀ e ∈ whole, e.bytes = e.buf) ∧
    ∀ e ∈ cut, e.bytes.length < e.buf.length := by
  rcases List.eq_nil_or_concat' sent with rfl | ⟨sent, e, rfl⟩
  · exact ⟨[], [], rfl, Nat.zero_le 1, nofun, nofun⟩
  · have hfull : ∀ e ∈ sent, e.full = true := by simpa [Intact] using h
    have hwhole : ∀ e ∈ sent, e.bytes = e.buf := fun e he => Sent.bytes_of_full (hfull e he)
    by_cases hlt : e.bytes.length < e.buf.length
    · exact ⟨sent, [e], rfl, Nat.le_refl 1, hwhole, by simpa using hlt⟩
    · have hlast : e.bytes = e.buf :=
        (List.take_prefix _ _).eq_of_length_le (Nat.not_lt.mp hlt)
      refine ⟨sent ++ [e], [], (List.append_nil _).symm, Nat.zero_le 1, ?_, nofun⟩
      rintro e' he'
      rcases List.mem_append.mp he' with he' | he'
      · exact hwhole e' he'
      · rw [List.mem_singleton.mp he']
        exact hlast

theorem frames_of_produced {sent : List Sent} (h : ∀ e ∈ sent, Produced e.buf) :
    ∃ fs : List Frame, sent.map Sent.buf = fs.map Frame.encode ∧
      ∀ f ∈ fs, f.encode.length < 2 ^ 31 := by
  induction sent with
  | nil => exact ⟨[], rfl, nofun⟩
  | cons e sent ih =>
    obtain ⟨f, hf, hsmall⟩ := (h e (by simp)).frame
    obtain ⟨fs, hfs, hall⟩ := ih fun e' he' => h e' (List.mem_cons_of_mem _ he')
    exact ⟨f :: fs, by simp [hf, hfs], List.forall_mem_cons.mpr ⟨hsmall, hall⟩⟩

theorem nextLength_cut {cut : List Sent} (hone : cut.length ≤ 1) (h : ∀ e ∈ cut, Produced e.buf)
    (hlt : ∀ e ∈ cut, e.bytes.length < e.buf.length) : nextLength (written cut) = none := by
  match cut, hone with
  | [], _ => rfl
  | [e], _ =>
    obtain ⟨f, hf, hsmall⟩ := (h e (by simp)).frame
    have hcut := hlt e (by simp)
    have hbytes : written [e] = e.bytes := by simp [written]
    rw [hbytes]
    refine nextLength_incomplete hsmall ?_ (hf ▸ hcut)
    rw [hf]
    exact List.take_prefix _ _

theorem Intact.split {sent : List Sent} (hi : Intact sent) (hp : ∀ e ∈ sent, Produced e.buf) :
    ∃ whole cut, sent = whole ++ cut ∧ cut.length ≤ 1 ∧ ∀ fuel, whole.length < fuel →
      splitFrames fuel (written sent) = some (whole.map Sent.buf, written cut) := by
  obtain ⟨whole, cut, rfl, hone, hwhole, hcut⟩ := hi.cut
  refine ⟨whole, cut, rfl, hone, fun fuel hfuel => ?_⟩
  obtain ⟨fs, hfs, hsmall⟩ :=
    frames_of_produced fun e he => hp e (List.mem_append_left _ he)
  have hlen : whole.length = fs.length := by
    simpa only [List.length_map] using congrArg List.length hfs
  have hbytes : written whole = stream Frame.encode fs := by
    rw [written, stream, List.flatMap_def, List.flatMap_def, ← hfs]
    exact congrArg List.flatten (List.map_congr_left hwhole)
  have hleft := nextLength_cut hone (fun e he => hp e (List.mem_append_right _ he)) hcut
  have hsplit : written (whole ++ cut) = stream Frame.encode fs ++ written cut := by
    rw [← hbytes]
    exact List.flatMap_append
  rw [hsplit, hfs]
  exact splitFrames_stream_append hsmall hleft (by omega)

namespace System

-- ---------------------------------------------------------------------------
-- Whose buffers these are
-- ---------------------------------------------------------------------------

def Hands (P : List UInt8 → Prop) (s : System) : Act → Prop
  | .callback _ _ buf => P buf
  | .main a => s.main.answers = true → P a.frame
  | _ => True

structure Carries (P : List UInt8 → Prop) (s : System) : Prop where
  carried : ∀ x buf, (s.snd x).buf? = some buf → P buf
  sent : ∀ r, ∀ e ∈ (s.recs r).sent, P e.buf

variable {s s' : System} {P : List UInt8 → Prop}

theorem Carries.put (hi : Carries P s) (x : Sender) (pc : SendPc)
    (hpc : ∀ buf, pc.buf? = some buf → P buf) : Carries P (s.setSnd x pc) := by
  refine ⟨?_, hi.sent⟩
  rw [setSnd, Function.forall_update_iff s.snd fun _ pc => ∀ buf, pc.buf? = some buf → P buf]
  exact ⟨hpc, fun y _ => hi.carried y⟩

theorem Carries.congr (hi : Carries P s) (hsnd : s'.snd = s.snd)
    (hsent : ∀ r, (s'.recs r).sent = (s.recs r).sent) : Carries P s' :=
  ⟨by rw [hsnd]; exact hi.carried, by simp only [hsent]; exact hi.sent⟩

theorem mainStep_snd (hs : s.mainStep a = some s') : s'.snd = s.snd ∨
    s.main.answers = true ∧ s'.snd = update s.snd .main (.enter a.frame) := by
  have hmove := mainStep_move hs
  cases hmove with
  | rfMf frame hpc htype =>
    refine .inr ⟨by simp [hpc, MainPc.answers, htype], ?_⟩
    have hsnd := congrArg (Option.map System.snd) hs
    simpa [mainStep, hpc, dispatch, htype] using hsnd.symm
  | inquirySend frame hpc =>
    refine .inr ⟨by simp [hpc, MainPc.answers], ?_⟩
    have hmain := congrArg (Option.map System.main) hs
    have hsnd := congrArg (Option.map System.snd) hs
    simp only [mainStep, hpc] at hmain hsnd
    split_ifs at hmain hsnd
    · simpa using hsnd.symm
    · simp at hmain
  | _ => exact .inl rfl

theorem mainMove_sent (h : MainMove s s') (r : Nat) : (s'.recs r).sent = (s.recs r).sent := by
  cases h with
  | acceptFirst | accept => exact traceAccepted_keeps ReceivePara.sent (fun _ _ => rfl) s _ r
  | heartBeat => exact heartBeat_keeps ReceivePara.sent (fun _ _ _ => rfl) s _ _ r
  | reset | stop | free => exact map_update ReceivePara.sent r rfl
  | _ => rfl

theorem Carries.send (hi : Carries P s) (h : SendMove s x ret s') : Carries P s' := by
  have hcarry : ∀ {pc pc' : SendPc}, s.snd x = pc → pc'.buf? = pc.buf? →
      ∀ buf, pc'.buf? = some buf → P buf := by
    intro pc pc' hpc hbuf buf hb
    refine hi.carried x buf ?_
    rw [hpc, ← hbuf, hb]
  have happend : ∀ {r buf ret}, s.snd x = .send r buf → ∀ {pc : SendPc}, pc.buf? = none →
      Carries P ((s.setRec r { s.recs r with sent := (s.recs r).sent ++ [⟨buf, ret⟩] }).setSnd x
        pc) := by
    intro r buf ret hpc pc hnone
    have hrec : Carries P
        (s.setRec r { s.recs r with sent := (s.recs r).sent ++ [⟨buf, ret⟩] }) := by
      refine ⟨hi.carried, ?_⟩
      rw [setRec, Function.forall_update_iff s.recs fun _ g => ∀ e ∈ g.sent, P e.buf]
      refine ⟨fun e he => ?_, fun q _ => hi.sent q⟩
      rcases List.mem_append.mp he with he | he
      · exact hi.sent r e he
      · rw [List.mem_singleton.mp he]
        exact hi.carried x buf (by rw [hpc]; rfl)
    exact hrec.put x pc (by rw [hnone]; exact fun _ => nofun)
  cases h with
  | refuse | disabled | closed => exact hi.put x _ fun _ => nofun
  | exception hpc => exact hi.put x _ (hcarry hpc rfl)
  | enter hpc => exact hi.put x _ (hcarry hpc rfl)
  | check hpc => exact hi.put x _ (hcarry hpc rfl)
  | lock hpc => exact (hi.put x (.test _ _) (hcarry hpc rfl)).congr rfl fun _ => rfl
  | enabled hpc => exact hi.put x _ (hcarry hpc rfl)
  | full hpc => exact happend hpc rfl
  | short hpc => exact happend hpc rfl
  | fail => exact (hi.put x .unlock fun _ => nofun).congr rfl fun _ => rfl
  | unlock => exact (hi.put x .idle fun _ => nofun).congr rfl fun _ => rfl
  | crash => exact hi.congr rfl fun _ => rfl

theorem Carries.step (hi : Carries P s) (hc : Hands P s act)
    (h : (adapter K).step s act = some s') : Carries P s' := by
  obtain ⟨hfault, hmove⟩ := step_move h
  cases hmove with
  | @main a _ hm =>
    have hs : s.mainStep a = some s' := by simpa [adapter, System.step, hfault] using h
    have hsent := mainMove_sent hm
    rcases mainStep_snd hs with hsnd | ⟨hanswers, hsnd⟩
    · exact hi.congr hsnd hsent
    · have hput : Carries P (s.setSnd .main (.enter a.frame)) := by
        refine hi.put _ _ ?_
        rintro buf ⟨⟩
        exact hc hanswers
      exact hput.congr hsnd hsent
  | send h => exact hi.send h
  | server h =>
    cases h with
    | create =>
      refine ⟨hi.carried, ?_⟩
      rw [Function.forall_update_iff s.recs fun _ g => ∀ e ∈ g.sent, P e.buf]
      exact ⟨fun e he => absurd he List.not_mem_nil, fun q _ => hi.sent q⟩
    | install => exact hi.congr rfl fun r => map_update ReceivePara.sent r rfl
    | _ => exact hi.congr rfl fun _ => rfl
  | receive h => cases h <;> exact hi.congr rfl fun r => map_update ReceivePara.sent r rfl
  | broker buf | dma buf =>
    refine hi.put _ _ ?_
    rintro buf ⟨⟩
    exact hc
  | post h => cases h <;> exact hi.congr rfl fun _ => rfl
  | timer h => cases h <;> exact hi.congr rfl fun _ => rfl
  | spurious | disconnect => exact hi.congr rfl fun _ => rfl

instance (P : List UInt8 → Prop) [DecidablePred P] (s : System) : (act : Act) →
    Decidable (Hands P s act)
  | .callback _ _ buf => inferInstanceAs (Decidable (P buf))
  | .main a => inferInstanceAs (Decidable (_ → P a.frame))
  | .server _ | .receive _ _ | .post _ | .timer | .spurious | .send _ _ | .disconnect =>
    isTrue trivial

theorem Hands.mono {Q : List UInt8 → Prop} (h : Hands P s act) (hPQ : ∀ buf, P buf → Q buf) :
    Hands Q s act := by
  cases act with
  | callback _ _ buf => exact hPQ buf h
  | main a => exact fun hanswers => hPQ _ (h hanswers)
  | _ => trivial

end System

end DevAdapter

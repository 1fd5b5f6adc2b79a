import DevAdapter.Broker.Transfer
import DevAdapter.Lib.Ring
import Mathlib.Data.List.Nodup

/-!
# The list of requests as pointers

As long as the connection lasts, the list that `waite_ack_init` and
`waite_ack_timeout` keep by storing pointers is the list of the calls that wait
for a response, and the first of them is the one that the head points at.
-/

namespace DevAdapter.Broker

open Function (update)
open LinkedList Transition

def TransferPc.linked : TransferPc → Bool
  | .absent | .returned _ => false
  | .publish | .ack | .lock | .waiting | .unlink _ => true

namespace Transfers

structure Listed (srvList : List Nat) (calls : Nat → Transfer) (called : Nat) : Prop where
  nodup : srvList.Nodup
  mem : ∀ c, c ∈ srvList ↔ (calls c).pc.linked = true
  uncalled : ∀ c, called ≤ c → (calls c).pc.linked = false

variable {matchesSub : List Char → List Char → Bool} {src : List Char} {s s' : Transfers}
  {l : List Nat} {calls : Nat → Transfer} {t : Transfer}

theorem listed_init : Listed init.srvList init.calls init.called where
  nodup := .nil
  mem _ := by simp [init, Transfer.absent, TransferPc.linked]
  uncalled _ _ := rfl

theorem Listed.not_mem (hi : Listed l calls n) : n ∉ l := by
  intro hmem
  have hlinked := (hi.mem n).mp hmem
  rw [hi.uncalled n (Nat.le_refl n)] at hlinked
  cases hlinked

theorem Listed.move (hi : Listed l calls n) (h : t.pc.linked = (calls c).pc.linked) :
    Listed l (update calls c t) n := by
  have hsame : ∀ d, (update calls c t d).pc.linked = (calls d).pc.linked := fun d =>
    map_update (fun t : Transfer => t.pc.linked) d h
  exact ⟨hi.nodup, fun d => by rw [hsame, hi.mem], fun d hd => by rw [hsame, hi.uncalled d hd]⟩

theorem Listed.call (hi : Listed l calls n) (ht : t.pc.linked = true) :
    Listed (l ++ [n]) (update calls n t) (n + 1) := by
  refine ⟨?_, ?_, fun c hc => ?_⟩
  · rw [← List.concat_eq_append]
    exact .concat hi.not_mem hi.nodup
  · refine (Function.forall_update_iff calls fun c t => c ∈ l ++ [n] ↔ t.pc.linked = true).mpr
      ⟨?_, fun c hc => ?_⟩
    · simp [ht]
    · simp [hc, hi.mem]
  · have hcn : c ≠ n := Nat.ne_of_gt hc
    simpa [hcn] using hi.uncalled c (Nat.le_of_succ_le hc)

theorem Listed.unlink (hi : Listed l calls n) (ht : t.pc.linked = false) :
    Listed (l.erase c) (update calls c t) n := by
  refine ⟨hi.nodup.erase c, ?_, ?_⟩
  · refine (Function.forall_update_iff calls fun d t => d ∈ l.erase c ↔ t.pc.linked = true).mpr
      ⟨?_, fun d hdc => ?_⟩
    · simp [ht, hi.nodup.mem_erase_iff]
    · simp [hdc, hi.nodup.mem_erase_iff, hi.mem]
  · exact (Function.forall_update_iff calls fun d t => n ≤ d → t.pc.linked = false).mpr
      ⟨fun _ => ht, fun d _ => hi.uncalled d⟩

/-- What the steps store to the pointers of the list. -/
def storeLinks (s : Transfers) (act : TransferAct) (links : Pointers (Option Nat)) :
    Pointers (Option Nat) :=
  match act with
  | .call _ _ => links.addTail (some s.called) none
  | .unlink c => links.del (some c)
  | _ => links

inductive ListStep (s : Transfers) : TransferAct → Transfers → Prop
  | call (dst : List Char) (reused : Bool) (waking : Option Nat) :
    ListStep s (.call dst reused) { s.call dst with waking := waking }
  | idle {act s'} (hstore : ∀ links, storeLinks s act links = links) (hlist : s'.srvList = s.srvList)
      (hcalls : s'.calls = s.calls) (hcalled : s'.called = s.called) : ListStep s act s'
  | move {act s'} {c : Nat} {t : Transfer} (hstore : ∀ links, storeLinks s act links = links)
      (hlist : s'.srvList = s.srvList) (hcalls : s'.calls = update s.calls c t)
      (hcalled : s'.called = s.called) (hlinked : t.pc.linked = (s.calls c).pc.linked) :
    ListStep s act s'
  | unlink {c : Nat} {t : Transfer} (hpc : (s.calls c).pc.linked = true)
      (ht : t.pc.linked = false) :
    ListStep s (.unlink c) { s.setCall c t with srvList := s.srvList.erase c }

theorem step_list (h : (transfers matchesSub src).step s act = some s') : ListStep s act s' := by
  cases act with
  | call dst reused =>
    simp only [transfers, step, start] at h
    split_ifs at h <;> cases h
    · exact .call dst _ _
    · exact .call dst _ _
  | publish c =>
    simp only [transfers, step, Transfers.publish] at h
    split at h <;> cases h
    rename_i hpc
    exact .move (fun _ => rfl) rfl rfl rfl (by rw [hpc]; rfl)
  | sent c ok =>
    simp only [transfers, step, Transfers.sent] at h
    split at h <;> cases h <;> rename_i hpc <;>
      exact .move (fun _ => rfl) rfl rfl rfl (by rw [hpc]; rfl)
  | lock c =>
    simp only [transfers, step, Transfers.lock] at h
    split at h <;> cases h
    rename_i hpc
    refine .move (fun _ => rfl) rfl rfl rfl ?_
    rw [hpc]
    by_cases hmid : (s.calls c).mid = 0
    · rw [if_pos hmid]
      rfl
    · rw [if_neg hmid]
      rfl
  | awake c timedOut =>
    simp only [transfers, step, Transfers.awake] at h
    split at h <;> cases h
    rename_i hpc
    exact .move (fun _ => rfl) rfl rfl rfl (by rw [hpc]; rfl)
  | unlink c =>
    simp only [transfers, step, Transfers.unlink] at h
    split at h <;> cases h
    rename_i hpc
    exact .unlink (by rw [hpc]; rfl) rfl
  | respond c payload =>
    simp only [transfers, step, Transfers.respond] at h
    split at h <;> cases h
    exact .idle (fun _ => rfl) rfl rfl rfl
  | message i alloc =>
    simp only [transfers, step, Transfers.message] at h
    split at h
    · split at h
      · cases h
        exact .idle (fun _ => rfl) rfl rfl rfl
      · cases h
        exact .move (fun _ => rfl) rfl rfl rfl rfl
    · cases h
  | wake =>
    simp only [transfers, step, Transfers.wake] at h
    split at h <;> cases h
    exact .move (fun _ => rfl) rfl rfl rfl rfl

def emptyList : Pointers (Option Nat) := Pointers.initHead ⟨fun _ => none, fun _ => none⟩ none

/-- The pointers make the list that the calls wait in. -/
structure InMemory (p : Transfers × Pointers (Option Nat)) : Prop where
  listed : Listed p.1.srvList p.1.calls p.1.called
  ring : Ring p.2 none (p.1.srvList.map some)

theorem InMemory.step {links : Pointers (Option Nat)} (hi : InMemory (s, links))
    (h : ListStep s act s') : InMemory (s', storeLinks s act links) := by
  obtain ⟨hlisted, hring⟩ := hi
  cases h with
  | call dst =>
    refine ⟨hlisted.call rfl, ?_⟩
    have hnew : some s.called ∉ none :: s.srvList.map some := by simpa using hlisted.not_mem
    simpa [Transfers.call, storeLinks] using hring.addTail hnew
  | idle hstore hlist hcalls hcalled =>
    rw [hstore]
    refine ⟨?_, by rwa [hlist]⟩
    rw [hlist, hcalls, hcalled]
    exact hlisted
  | move hstore hlist hcalls hcalled hlinked =>
    rw [hstore]
    refine ⟨?_, by rwa [hlist]⟩
    rw [hlist, hcalls, hcalled]
    exact hlisted.move hlinked
  | @unlink c t hpc ht =>
    refine ⟨hlisted.unlink ht, ?_⟩
    have hmem : c ∈ s.srvList := (hlisted.mem c).mpr hpc
    change Ring (links.del (some c)) none ((s.srvList.erase c).map some)
    rw [List.map_erase fun _ _ => Option.some.inj]
    exact hring.del (List.mem_map_of_mem hmem)

theorem inMemory {p : Transfers × Pointers (Option Nat)}
    (h : ((transfers matchesSub src).withHistory emptyList storeLinks).Reaches p) : InMemory p := by
  refine h.invariant (I := InMemory) ⟨listed_init, ring_initHead _ _⟩ ?_
  rintro ⟨s, links⟩ act _ _ hi _ hs
  obtain ⟨s', ha, rfl⟩ := Option.map_eq_some_iff.mp hs
  exact hi.step (step_list ha)

theorem ordered (h : (transfers matchesSub src).Reaches s) :
    s.srvList.Pairwise (· < ·) ∧ ∀ c ∈ s.srvList, c < s.called := by
  refine h.invariant (I := fun s => s.srvList.Pairwise (· < ·) ∧ ∀ c ∈ s.srvList, c < s.called)
    ⟨.nil, nofun⟩ ?_
  rintro s act s' - ⟨hsorted, hcalled⟩ - hs
  cases step_list hs with
  | call dst =>
    refine ⟨List.pairwise_append.mpr ⟨hsorted, List.pairwise_singleton _ _, ?_⟩, ?_⟩
    · intro c hc d hd
      rw [List.mem_singleton.mp hd]
      exact hcalled c hc
    · intro c hc
      rcases List.mem_append.mp hc with hc | hc
      · exact Nat.lt_succ_of_lt (hcalled c hc)
      · rw [List.mem_singleton.mp hc]
        exact Nat.lt_succ_self _
  | idle _ hlist _ hcount | move _ hlist _ hcount =>
    rw [hlist, hcount]
    exact ⟨hsorted, hcalled⟩
  | unlink =>
    exact ⟨hsorted.sublist List.erase_sublist, fun c hc => hcalled c (List.mem_of_mem_erase hc)⟩

/-- In every run the pointers that `list_add_tail` and `list_del` have stored make
`srv_list` a ring, both ways, of the calls that wait for a response, in the order
of the calls; the first of them is the one that `message_callback` comes to. -/
theorem srvList_in_memory {p : Transfers × Pointers (Option Nat)}
    (h : ((transfers matchesSub src).withHistory emptyList storeLinks).Reaches p) :
    Ring p.2 none (p.1.srvList.map some) ∧ p.1.srvList.Pairwise (· < ·) ∧
      (∀ c, c ∈ p.1.srvList ↔ (p.1.calls c).pc.linked = true) ∧
      p.2.next none = p.1.srvList.head? := by
  have hi := inMemory h
  have hring := hi.ring
  refine ⟨hring, (ordered (Machine.ReachesUnder.fst (C := Machine.Always) h)).1, hi.listed.mem, ?_⟩
  cases hlist : p.1.srvList with
  | nil =>
    rw [hlist] at hring
    exact hring.next_head_nil
  | cons c l =>
    rw [hlist] at hring
    exact hring.next_head

def middleGivesUp : List TransferAct :=
  [.call ['a'] false, .call ['b'] false, .call ['c'] false, .sent 1 false, .unlink 1]

theorem middleGivesUp_in_memory : ∃ p,
    ((transfers Mqtt.topicMatches ['m']).withHistory emptyList storeLinks).run middleGivesUp =
      some p ∧
    Ring p.2 none (p.1.srvList.map some) ∧ p.1.srvList.Pairwise (· < ·) ∧
    (∀ c, c ∈ p.1.srvList ↔ (p.1.calls c).pc.linked = true) ∧
    p.2.next none = p.1.srvList.head? := by
  obtain ⟨p, hp, hr⟩ := Machine.exists_run
    (M := (transfers Mqtt.topicMatches ['m']).withHistory emptyList storeLinks)
    (C := Machine.Always) middleGivesUp (by decide +kernel) (Machine.along_always _ _)
  exact ⟨p, hp, srvList_in_memory hr⟩

end Transfers

end DevAdapter.Broker

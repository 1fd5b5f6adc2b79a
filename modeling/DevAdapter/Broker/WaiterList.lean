import DevAdapter.Lib.Machine
import DevAdapter.Lib.Ring

/-!
# The list of waiters

`srv_list` as the pointers that `list.h` stores. A call of `dev_transfer` links
its node and unlinks it when its wait is over, however that ends; `clean_list`
unlinks what it finds after a disconnect, and `init_broker` makes the head anew.
Neither asks whether a call still has its node on the list. A node is named by
the number of nodes linked before it, the head is `none`.
-/

namespace DevAdapter.Broker

open Function (update)
open LinkedList Transition

structure Waiters where
  -- `g_broker.srv_list` and the `waite.next` of every `struct dev_priv`
  links : Pointers (Option Nat)
  -- how many calls have linked their node, and which have unlinked it
  linked : Nat
  left : Nat → Bool
  -- the waiters that `message_callback` has woken
  woken : Nat → Bool
  -- `connect_stat` is 0
  connected : Bool
  -- `pos` and `n` of the loop of `clean_list`
  cleaning : Option (Option Nat × Option Nat)
  -- trace: how often a node was unlinked
  unlinks : Nat → Nat

/-- A call links or unlinks its node, a response comes in, the connection ends,
one test of the loop of `clean_list`, and `init_broker` up to its thread and from
`connect_callback` on. -/
inductive WaiterAct
  | link
  | unlink (c : Nat)
  | response
  | disconnect
  | clean
  | initBroker
  | connect
  deriving DecidableEq, Repr

namespace Waiters

def init : Waiters where
  links := Pointers.initHead ⟨fun _ => none, fun _ => none⟩ none
  linked := 0
  left := fun _ => false
  woken := fun _ => false
  connected := true
  cleaning := none
  unlinks := fun _ => 0

def del (s : Waiters) (c : Nat) : Waiters :=
  { s with links := s.links.del (some c), unlinks := update s.unlinks c (s.unlinks c + 1) }

/-- `message_callback` takes the first waiter, if there is one. -/
def response (s : Waiters) : Option Waiters :=
  if s.connected && s.cleaning.isNone then
    match s.links.next none with
    | none => some s
    | some c => some { s with woken := update s.woken c true }
  else none

/-- One test of the loop of `clean_list`, and the pass that follows it. -/
def clean (s : Waiters) : Option Waiters :=
  match s.cleaning with
  | none => none
  | some (none, _) => some { s with cleaning := none, connected := false }
  | some (some c, n) =>
    let s' := s.del c
    some { s' with cleaning := some (n, s'.links.next n) }

def step (s : Waiters) : WaiterAct → Option Waiters
  | .link =>
    some { s with links := s.links.addTail (some s.linked) none, linked := s.linked + 1 }
  | .unlink c =>
    if c < s.linked ∧ s.left c = false then
      some { s.del c with left := update s.left c true }
    else none
  | .response => s.response
  | .disconnect =>
    if s.cleaning.isNone then
      some { s with cleaning := some (s.links.next none, s.links.next (s.links.next none)) }
    else none
  | .clean => s.clean
  | .initBroker =>
    if s.connected then none else some { s with links := s.links.initHead none }
  | .connect => if s.cleaning.isNone then some { s with connected := true } else none

end Waiters

def waiters : Machine Waiters WaiterAct := ⟨Waiters.init, Waiters.step⟩

namespace Waiters

/-- The nodes of the calls that have linked theirs and not unlinked it, in the
order in which they were linked. -/
def present (s : Waiters) : List Nat := (List.range s.linked).filter (!s.left ·)

/-- The list is exact, and a node is unlinked by its own call only. -/
structure Exact (s : Waiters) : Prop where
  ring : Ring s.links none (s.present.map some)
  once : ∀ c, s.unlinks c = (s.left c).toNat

/-- `clean_list` finds no node, and `init_broker` makes the head anew only while
no call has its node on the list. -/
def Undisturbed (s : Waiters) : WaiterAct → Prop
  | .clean => ∀ loop ∈ s.cleaning, loop.1 = none
  | .initBroker => s.present = []
  | .link | .unlink _ | .response | .disconnect | .connect => True

instance (s : Waiters) : (act : WaiterAct) → Decidable (Undisturbed s act)
  | .clean => inferInstanceAs (Decidable (∀ loop ∈ s.cleaning, loop.1 = none))
  | .initBroker => inferInstanceAs (Decidable (_ = _))
  | .link | .unlink _ | .response | .disconnect | .connect => isTrue trivial

variable {s s' : Waiters}

-- ---------------------------------------------------------------------------
-- What a step can do
-- ---------------------------------------------------------------------------

inductive Move (s : Waiters) : WaiterAct → Waiters → Prop
  | link : Move s .link
      { s with links := s.links.addTail (some s.linked) none, linked := s.linked + 1 }
  | unlink {c} (hc : c < s.linked) (hleft : s.left c = false) :
    Move s (.unlink c) { s.del c with left := update s.left c true }
  | nobody (hlinks : s.links.next none = none) : Move s .response s
  | wake {c} (hlinks : s.links.next none = some c) :
    Move s .response { s with woken := update s.woken c true }
  | disconnect (hidle : s.cleaning = none) :
    Move s .disconnect
      { s with cleaning := some (s.links.next none, s.links.next (s.links.next none)) }
  | cleaned {n} (hloop : s.cleaning = some (none, n)) :
    Move s .clean { s with cleaning := none, connected := false }
  | clean {c n} (hloop : s.cleaning = some (some c, n)) :
    Move s .clean { s.del c with cleaning := some (n, (s.del c).links.next n) }
  | initBroker (hclosed : s.connected = false) :
    Move s .initBroker { s with links := s.links.initHead none }
  | connect (hidle : s.cleaning = none) : Move s .connect { s with connected := true }

theorem step_move (h : waiters.step s act = some s') : Move s act s' := by
  cases act with
  | link =>
    cases h
    exact .link
  | unlink c =>
    simp only [waiters, step] at h
    split at h <;> cases h
    rename_i hc
    exact .unlink hc.1 hc.2
  | response =>
    simp only [waiters, step, response] at h
    split at h
    · split at h <;> cases h
      · rename_i hlinks
        exact .nobody hlinks
      · rename_i hlinks
        exact .wake hlinks
    · cases h
  | disconnect =>
    simp only [waiters, step] at h
    split at h <;> cases h
    rename_i hidle
    exact .disconnect (Option.isNone_iff_eq_none.mp hidle)
  | clean =>
    simp only [waiters, step, Waiters.clean] at h
    split at h <;> cases h
    · rename_i hloop
      exact .cleaned hloop
    · rename_i hloop
      exact .clean hloop
  | initBroker =>
    simp only [waiters, step] at h
    split at h <;> cases h
    rename_i hopen
    exact .initBroker (by simpa using hopen)
  | connect =>
    simp only [waiters, step] at h
    split at h <;> cases h
    rename_i hidle
    exact .connect (Option.isNone_iff_eq_none.mp hidle)

-- ---------------------------------------------------------------------------
-- Exactness
-- ---------------------------------------------------------------------------

theorem mem_present : c ∈ s.present ↔ c < s.linked ∧ s.left c = false := by
  simp [present]

theorem nodup_present (s : Waiters) : s.present.Nodup := List.nodup_range.filter _

theorem some_mem (l : List Nat) (c : Nat) : some c ∈ none :: l.map some ↔ c ∈ l := by simp

/-- Only calls that have linked their node have unlinked it. -/
def Began (s : Waiters) : Prop := ∀ c, s.left c = true → c < s.linked

theorem Began.step (hi : Began s) (h : Move s act s') : Began s' := by
  cases h with
  | link => exact fun c hc => Nat.lt_succ_of_lt (hi c hc)
  | @unlink c hc =>
    intro d hd
    rcases eq_or_ne d c with rfl | hdc
    · exact hc
    · exact hi d (by simpa [hdc] using hd)
  | nobody | wake | disconnect | cleaned | clean | initBroker | connect => exact hi

theorem present_link (hi : Began s) :
    (List.range (s.linked + 1)).filter (!s.left ·) = s.present ++ [s.linked] := by
  have hnew : s.left s.linked = false := by
    cases hleft : s.left s.linked with
    | false => rfl
    | true => exact absurd (hi _ hleft) (Nat.lt_irrefl _)
  simp [List.range_succ, List.filter_append, present, hnew]

theorem present_unlink (s : Waiters) (c : Nat) :
    (List.range s.linked).filter (!update s.left c true ·) = s.present.erase c := by
  rw [(nodup_present s).erase_eq_filter, present, List.filter_filter]
  refine List.filter_congr fun d _ => ?_
  by_cases hdc : d = c
  · simp [hdc]
  · simp [hdc]

theorem exact_init : Exact init := ⟨ring_initHead _ _, fun _ => rfl⟩

theorem Exact.step (hi : Exact s) (hb : Began s) (hc : Undisturbed s act) (h : Move s act s') :
    Exact s' := by
  cases h with
  | link =>
    refine ⟨?_, hi.once⟩
    have hnew : s.linked ∉ s.present := fun hmem => Nat.lt_irrefl _ (mem_present.mp hmem).1
    rw [present, present_link hb, List.map_append]
    exact hi.ring.addTail (mt (some_mem _ _).mp hnew)
  | @unlink c hlinked hleft =>
    refine ⟨?_, fun d => ?_⟩
    · have hmem : c ∈ s.present := mem_present.mpr ⟨hlinked, hleft⟩
      change Ring (s.links.del (some c)) none
        (((List.range s.linked).filter (!update s.left c true ·)).map some)
      rw [present_unlink, List.map_erase fun _ _ => Option.some.inj]
      exact hi.ring.del (List.mem_map_of_mem hmem)
    · rcases eq_or_ne d c with rfl | hdc
      · simp [del, hi.once, hleft]
      · simp [del, hdc, hi.once]
  | clean hloop => cases hc _ hloop
  | initBroker =>
    have hempty : s.present = [] := hc
    refine ⟨?_, hi.once⟩
    change Ring _ none (s.present.map some)
    rw [hempty]
    exact ring_initHead _ _
  | nobody => exact hi
  | wake | disconnect | cleaned | connect => exact ⟨hi.ring, hi.once⟩

theorem not_exact (hi : Exact s) (hc : ¬ Undisturbed s act) (h : Move s act s') : ¬ Exact s' := by
  intro hs'
  cases h with
  | link | unlink | nobody | wake | disconnect | connect => exact hc trivial
  | cleaned hloop =>
    refine hc fun loop hmem => ?_
    rw [hloop] at hmem
    cases hmem
    rfl
  | @clean c n hloop =>
    have hcount := hs'.once c
    simp [del, hi.once] at hcount
  | initBroker =>
    have hempty := (ring_initHead s.links none).unique hs'.ring
    exact hc (List.map_eq_nil_iff.mp hempty.symm)

/-- The list of waiters is exact in the runs in which the clean-up finds no
waiter and no head is made anew over one, and in no others. -/
theorem exact_iff (hs : waiters.run acts = some s) :
    waiters.Throughout Exact .init acts ↔ waiters.Along Undisturbed .init acts :=
  have keep : ∀ {s}, waiters.ReachesUnder Undisturbed s → Began s ∧ Exact s := by
    intro s hr
    refine hr.invariant (I := fun s => Began s ∧ Exact s) ⟨nofun, exact_init⟩ ?_
    rintro _ _ _ _ ⟨hb, hi⟩ hc hs
    exact ⟨hb.step (step_move hs), hi.step hb hc (step_move hs)⟩
  Machine.run_throughout_iff (fun _ hr => (keep hr).2)
    (fun _ _ _ hr hc hs => not_exact (keep hr).2 hc (step_move hs)) hs

def twoCalls : List WaiterAct :=
  [.link, .link, .response, .unlink 1, .unlink 0, .disconnect, .clean, .initBroker, .connect, .link]

theorem twoCalls_exact : waiters.Throughout Exact .init twoCalls := by
  obtain ⟨s, hs⟩ := Option.isSome_iff_exists.mp
    (show (waiters.run twoCalls).isSome = true by decide +kernel)
  exact (exact_iff hs).mpr (by decide +kernel)

/-- A call is still waiting when the connection ends. After the reconnection
another call links its node, which the first one's `list_del` takes off. -/
def waitingAtDisconnect : List WaiterAct :=
  [.link, .disconnect, .clean, .clean, .initBroker, .connect, .link, .unlink 0]

theorem waitingAtDisconnect_lost : ¬ ∀ s, waiters.Reaches s → Exact s := by
  intro h
  obtain ⟨s, hs, hp⟩ := Machine.exists_reaches (M := waiters)
    (p := fun s => decide (s.present = [1] ∧ s.links.next none = none)) waitingAtDisconnect
    (by decide +kernel)
  obtain ⟨hpresent, hnext⟩ := of_decide_eq_true hp
  have hring := (h s hs).ring
  rw [hpresent] at hring
  have hfirst := hring.next_head
  rw [hnext] at hfirst
  cases hfirst

end Waiters

end DevAdapter.Broker

import DevAdapter.Broker.Dispatch
import DevAdapter.Broker.Topics

/-!
# Registering callbacks

`register_callback` and `unregister_callback` as functions of `cb_list`, with
the outcomes of the mosquitto library and of the wait for its acknowledgement.
The list holds one entry a topic, and the calls act on it as on a map, as long
as `found_cb`, which compares `src` instead of the topic it has built, finds
the entries that are there, and no absent topic is unregistered.
-/

namespace DevAdapter.Broker

open Function (update)
open Transition

def einval : Int := 22

def enotempty : Int := 39

/-- `TOPIC_TYPE`, or `TOPIC_ACK` without a type. -/
def callbackTopic (src : List Char) : Option (List Char) → List Char
  | some type => snprintf256 ('+' :: '/' :: src ++ ['/', 'p', 'u', 'b', '/'] ++ type)
  | none => snprintf256 ('+' :: '/' :: src ++ ['/', 'a', 'c', 'k', '/', '#'])

/-- What one call of the mosquitto library and the wait after it come to. -/
structure Ack where
  -- the result of `mosquitto_subscribe` or `mosquitto_unsubscribe`
  ret : Int
  -- `mid` of the waiter when the wait begins, 0 once it is acknowledged
  mid : Int
  -- the result of `pthread_cond_timedwait`, an error number
  wait : Nat
  deriving DecidableEq, Repr

def waiteAckTimeout (a : Ack) : Int :=
  if a.ret = 0 then (if a.mid ≠ 0 then a.wait else 0) else -einval

-- ---------------------------------------------------------------------------
-- `register_callback` and `unregister_callback`
-- ---------------------------------------------------------------------------

/-- `found_cb`, which has built the topic and does not look at it. -/
def foundCb (cbList : List Entry) (src : List Char) : Option Entry :=
  cbList.find? fun dev => src = dev.topic

/-- A pointer that may be `NULL` is an `Option`. -/
def registerCbCommon (cbList : List Entry) (src : Option (List Char)) (cb : Option Nat)
    (type : Option (List Char)) (ack : Ack) : Int × List Entry :=
  match src, cb with
  | some src, some cb =>
    if (foundCb cbList src).isSome then (-enotempty, cbList)
    else
      let newDev : Entry := ⟨callbackTopic src type, cb⟩
      let ret := waiteAckTimeout ack
      -- the entry at the tail is taken out again
      if ret ≠ 0 then (ret, cbList) else (ret, cbList ++ [newDev])
  | _, _ => (-einval, cbList)

/-- The loop of `unregister_cb_common` from the `i`-th entry on. An entry with
the topic that is not acknowledged stays, and the loop goes on behind it. -/
def unregisterLoop (topic : List Char) (acks : Nat → Ack) :
    Int → Nat → List Entry → Int × List Entry
  | ret, _, [] => (ret, [])
  | ret, i, dev :: rest =>
    if topic = dev.topic then
      let ret := waiteAckTimeout (acks i)
      if ret = 0 then (ret, rest)
      else
        let (ret, rest) := unregisterLoop topic acks ret (i + 1) rest
        (ret, dev :: rest)
    else
      let (ret, rest) := unregisterLoop topic acks ret (i + 1) rest
      (ret, dev :: rest)

def unregisterCbCommon (cbList : List Entry) (src : Option (List Char))
    (type : Option (List Char)) (acks : Nat → Ack) : Int × List Entry :=
  match src with
  | some src => unregisterLoop (callbackTopic src type) acks 0 0 cbList
  | none => (-einval, cbList)

inductive Call
  | register (src : Option (List Char)) (cb : Option Nat) (type : Option (List Char)) (ack : Ack)
  | unregister (src : Option (List Char)) (type : Option (List Char)) (acks : Nat → Ack)

def Call.run (cbList : List Entry) : Call → Int × List Entry
  | .register src cb type ack => registerCbCommon cbList src cb type ack
  | .unregister src type acks => unregisterCbCommon cbList src type acks

structure Done where
  before : List Entry
  call : Call
  ret : Int

structure Registry where
  cbList : List Entry
  -- trace: the last call
  last : Option Done

def Registry.step (s : Registry) (call : Call) : Option Registry :=
  let (ret, cbList) := call.run s.cbList
  some ⟨cbList, some ⟨s.cbList, call, ret⟩⟩

def registry : Machine Registry Call := ⟨⟨[], none⟩, Registry.step⟩

namespace Registry

-- ---------------------------------------------------------------------------
-- What the calls are for
-- ---------------------------------------------------------------------------

structure Registered (before : List Entry) (topic : List Char) (cb : Nat) (ret : Int)
    (after : List Entry) : Prop where
  present : topic ∈ before.map Entry.topic → ret = -enotempty ∧ after = before
  failed : ret ≠ 0 → after = before
  added : ret = 0 → after = before ++ [⟨topic, cb⟩]

structure Unregistered (before : List Entry) (topic : List Char) (ret : Int)
    (after : List Entry) : Prop where
  removed : ret = 0 → ∃ pre dev post,
    before = pre ++ dev :: post ∧ dev.topic = topic ∧ after = pre ++ post
  failed : ret ≠ 0 → after = before

/-- What a call with no `NULL` but for the type promises. -/
def Correct (d : Done) (after : List Entry) : Prop :=
  match d.call with
  | .register (some src) (some cb) type _ =>
    Registered d.before (callbackTopic src type) cb d.ret after
  | .unregister (some src) type _ => Unregistered d.before (callbackTopic src type) d.ret after
  | _ => d.ret ≠ 0 ∧ after = d.before

/-- The callbacks by topic. -/
def mapOf (cbList : List Entry) (topic : List Char) : Option Nat :=
  (cbList.find? fun dev => dev.topic = topic).map Entry.recvCallback

def MapStep (m m' : List Char → Option Nat) (ret : Int) : Call → Prop
  | .register (some src) (some cb) type _ =>
    let topic := callbackTopic src type
    ((m topic).isSome → ret = -enotempty) ∧ (ret ≠ 0 → m' = m) ∧
      (ret = 0 → m topic = none ∧ m' = update m topic (some cb))
  | .unregister (some src) type _ =>
    let topic := callbackTopic src type
    (ret = 0 → (m topic).isSome ∧ m' = update m topic none) ∧ (ret ≠ 0 → m' = m)
  | _ => ret ≠ 0 ∧ m' = m

/-- No topic is in the list twice, the last call did what it is for, and on the
map of the callbacks too. -/
structure Keyed (s : Registry) : Prop where
  nodup : (s.cbList.map Entry.topic).Nodup
  correct : ∀ d ∈ s.last, Correct d s.cbList
  refines : ∀ d ∈ s.last, MapStep (mapOf d.before) (mapOf s.cbList) d.ret d.call

/-- Where the topic of a register call is in the list, so is the text of its
`src`; a topic that is unregistered is in the list. -/
def Found (s : Registry) : Call → Prop
  | .register (some src) (some _) type _ =>
    callbackTopic src type ∈ s.cbList.map Entry.topic → src ∈ s.cbList.map Entry.topic
  | .unregister (some src) type _ => callbackTopic src type ∈ s.cbList.map Entry.topic
  | _ => True

instance (s : Registry) : (call : Call) → Decidable (Found s call)
  | .register (some _) (some _) _ _ => inferInstanceAs (Decidable (_ → _))
  | .unregister (some _) _ _ => inferInstanceAs (Decidable (_ ∈ _))
  | .register none _ _ _ | .register (some _) none _ _ | .unregister none _ _ => isTrue trivial

-- ---------------------------------------------------------------------------
-- The list as a map
-- ---------------------------------------------------------------------------

theorem mapOf_isSome {l : List Entry} {topic : List Char} :
    (mapOf l topic).isSome = true ↔ topic ∈ l.map Entry.topic := by
  simp [mapOf, List.find?_isSome]

theorem mapOf_eq_none {l : List Entry} {topic : List Char} (h : topic ∉ l.map Entry.topic) :
    mapOf l topic = none := by
  rw [← mapOf_isSome] at h
  simpa using h

theorem mapOf_append (l l' : List Entry) (topic : List Char) :
    mapOf (l ++ l') topic = (mapOf l topic).or (mapOf l' topic) := by
  simp [mapOf, List.find?_append, Option.map_or]

theorem mapOf_cons (dev : Entry) (l : List Entry) (topic : List Char) :
    mapOf (dev :: l) topic = if dev.topic = topic then some dev.recvCallback else mapOf l topic := by
  unfold mapOf
  by_cases h : dev.topic = topic
  · simp [h]
  · simp [h, List.find?_cons_of_neg]

theorem mapOf_added {l : List Entry} {topic : List Char} {cb : Nat}
    (h : topic ∉ l.map Entry.topic) :
    mapOf (l ++ [⟨topic, cb⟩]) = update (mapOf l) topic (some cb) := by
  funext t
  rw [mapOf_append, mapOf_cons]
  by_cases ht : t = topic
  · subst ht
    simp [mapOf_eq_none h]
  · simp [Ne.symm ht, ht, mapOf]

theorem mapOf_removed {pre post : List Entry} {dev : Entry}
    (h : ((pre ++ dev :: post).map Entry.topic).Nodup) :
    mapOf (pre ++ post) = update (mapOf (pre ++ dev :: post)) dev.topic none := by
  rw [List.map_append, List.map_cons, List.perm_middle.nodup_iff, List.nodup_cons,
    List.mem_append, not_or] at h
  funext t
  by_cases ht : t = dev.topic
  · subst ht
    rw [Function.update_self, mapOf_append, mapOf_eq_none h.1.1, mapOf_eq_none h.1.2]
    rfl
  · rw [Function.update_of_ne ht, mapOf_append, mapOf_append, mapOf_cons, if_neg (Ne.symm ht)]

-- ---------------------------------------------------------------------------
-- The two calls
-- ---------------------------------------------------------------------------

theorem foundCb_isSome {l : List Entry} {src : List Char} :
    (foundCb l src).isSome = true ↔ src ∈ l.map Entry.topic := by
  simp only [foundCb, List.find?_isSome, decide_eq_true_eq, List.mem_map]
  exact exists_congr fun dev => and_congr_right fun _ => eq_comm

theorem waiteAckTimeout_ne (a : Ack) : waiteAckTimeout a ≠ -enotempty := by
  unfold waiteAckTimeout einval enotempty
  split
  · split <;> omega
  · omega

theorem registerCbCommon_found {l : List Entry} {src : List Char} (h : src ∈ l.map Entry.topic)
    (cb : Nat) (type : Option (List Char)) (ack : Ack) :
    registerCbCommon l (some src) (some cb) type ack = (-enotempty, l) :=
  if_pos (foundCb_isSome.mpr h)

theorem registerCbCommon_missed {l : List Entry} {src : List Char} (h : src ∉ l.map Entry.topic)
    (cb : Nat) (type : Option (List Char)) (ack : Ack) :
    registerCbCommon l (some src) (some cb) type ack = (waiteAckTimeout ack,
      if waiteAckTimeout ack = 0 then l ++ [⟨callbackTopic src type, cb⟩] else l) := by
  have hnone : ¬ (foundCb l src).isSome = true := fun hf => h (foundCb_isSome.mp hf)
  by_cases hack : waiteAckTimeout ack = 0 <;>
    simp [registerCbCommon, hnone, hack]

theorem registerCbCommon_spec {l : List Entry} {src : List Char}
    {type : Option (List Char)} (cb : Nat) (ack : Ack)
    (hfound : callbackTopic src type ∈ l.map Entry.topic → src ∈ l.map Entry.topic) :
    Registered l (callbackTopic src type) cb (registerCbCommon l (some src) (some cb) type ack).1
      (registerCbCommon l (some src) (some cb) type ack).2 := by
  by_cases hsrc : src ∈ l.map Entry.topic
  · rw [registerCbCommon_found hsrc]
    exact ⟨fun _ => ⟨rfl, rfl⟩, fun _ => rfl, nofun⟩
  · rw [registerCbCommon_missed hsrc]
    exact ⟨fun h => absurd (hfound h) hsrc, fun h => if_neg h, fun h => if_pos h⟩

theorem unregisterLoop_absent {topic : List Char} (acks : Nat → Ack) {l : List Entry}
    (h : topic ∉ l.map Entry.topic) (ret : Int) (i : Nat) :
    unregisterLoop topic acks ret i l = (ret, l) := by
  induction l generalizing i with
  | nil => rfl
  | cons dev l ih =>
    simp only [List.map_cons, List.mem_cons, not_or] at h
    simp only [unregisterLoop, h.1, if_false, ih h.2]

theorem unregisterLoop_spec (topic : List Char) (acks : Nat → Ack) (l : List Entry) (ret : Int)
    (i : Nat) (hret : ret = 0 → topic ∈ l.map Entry.topic) :
    Unregistered l topic (unregisterLoop topic acks ret i l).1
      (unregisterLoop topic acks ret i l).2 := by
  induction l generalizing ret i with
  | nil => exact ⟨fun h => absurd (hret h) List.not_mem_nil, fun _ => rfl⟩
  | cons dev l ih =>
    have hcons : ∀ {ret' : Int} {after : List Entry}, Unregistered l topic ret' after →
        Unregistered (dev :: l) topic ret' (dev :: after) := by
      rintro ret' after ⟨hremoved, hfailed⟩
      refine ⟨fun h => ?_, fun h => by rw [hfailed h]⟩
      obtain ⟨pre, dev', post, rfl, htopic, rfl⟩ := hremoved h
      exact ⟨dev :: pre, dev', post, rfl, htopic, rfl⟩
    by_cases htopic : topic = dev.topic
    · by_cases hack : waiteAckTimeout (acks i) = 0
      · simp only [unregisterLoop, htopic, hack, if_true]
        exact ⟨fun _ => ⟨[], dev, l, rfl, rfl, rfl⟩, fun h => absurd rfl h⟩
      · have hrest := hcons (ih (waiteAckTimeout (acks i)) (i + 1) fun h => absurd h hack)
        simpa only [unregisterLoop, if_pos htopic, hack, if_false] using hrest
    · have hrest := hcons (ih ret (i + 1) fun h => by
        simpa [htopic] using hret h)
      simpa only [unregisterLoop, if_neg htopic] using hrest

-- ---------------------------------------------------------------------------
-- Runs
-- ---------------------------------------------------------------------------

theorem Registered.mapStep {before after : List Entry} {src : List Char} {cb : Nat}
    {type : Option (List Char)} {ack : Ack} {ret : Int}
    (h : Registered before (callbackTopic src type) cb ret after) :
    MapStep (mapOf before) (mapOf after) ret (.register (some src) (some cb) type ack) := by
  refine ⟨fun hp => (h.present (mapOf_isSome.mp hp)).1, fun hr => by rw [h.failed hr], fun hr => ?_⟩
  have hfresh : callbackTopic src type ∉ before.map Entry.topic := fun hp => by
    have := (h.present hp).1
    rw [hr] at this
    cases this
  exact ⟨mapOf_eq_none hfresh, by rw [h.added hr, mapOf_added hfresh]⟩

theorem Unregistered.mapStep {before after : List Entry} {src : List Char}
    {type : Option (List Char)} {acks : Nat → Ack} {ret : Int}
    (h : Unregistered before (callbackTopic src type) ret after)
    (hnodup : (before.map Entry.topic).Nodup) :
    MapStep (mapOf before) (mapOf after) ret (.unregister (some src) type acks) := by
  refine ⟨fun hr => ?_, fun hr => by rw [h.failed hr]⟩
  obtain ⟨pre, dev, post, rfl, htopic, rfl⟩ := h.removed hr
  exact ⟨mapOf_isSome.mpr (by simp [htopic]), by rw [mapOf_removed hnodup, htopic]⟩

theorem Registered.nodup {before after : List Entry} {topic : List Char} {cb : Nat} {ret : Int}
    (h : Registered before topic cb ret after) (hnodup : (before.map Entry.topic).Nodup) :
    (after.map Entry.topic).Nodup := by
  by_cases hr : ret = 0
  · have hfresh : topic ∉ before.map Entry.topic := fun hp => by
      have := (h.present hp).1
      rw [hr] at this
      cases this
    rw [h.added hr, List.map_append]
    exact List.nodup_append.mpr ⟨hnodup, by simp, by simpa using fun e he h => hfresh (by
      rw [← h]; exact List.mem_map_of_mem he)⟩
  · rwa [h.failed hr]

theorem Unregistered.nodup {before after : List Entry} {topic : List Char} {ret : Int}
    (h : Unregistered before topic ret after) (hnodup : (before.map Entry.topic).Nodup) :
    (after.map Entry.topic).Nodup := by
  by_cases hr : ret = 0
  · obtain ⟨pre, dev, post, rfl, -, rfl⟩ := h.removed hr
    refine hnodup.sublist (List.Sublist.map _ ?_)
    exact List.Sublist.append_left (List.sublist_cons_self _ _) _
  · rwa [h.failed hr]

variable {s s' : Registry}

theorem step_eq {call : Call} (h : registry.step s call = some s') :
    s' = ⟨(call.run s.cbList).2, some ⟨s.cbList, call, (call.run s.cbList).1⟩⟩ :=
  (Option.some.inj h).symm

theorem Keyed.step (hi : Keyed s) (hc : Found s call) (h : registry.step s call = some s') :
    Keyed s' := by
  obtain rfl := step_eq h
  cases call with
  | register src cb type ack =>
    cases src with
    | none => exact ⟨hi.nodup, by simp [Correct, Call.run, registerCbCommon, einval],
        by simp [MapStep, Call.run, registerCbCommon, einval]⟩
    | some src =>
      cases cb with
      | none => exact ⟨hi.nodup, by simp [Correct, Call.run, registerCbCommon, einval],
          by simp [MapStep, Call.run, registerCbCommon, einval]⟩
      | some cb =>
        have hspec := registerCbCommon_spec cb ack hc
        refine ⟨hspec.nodup hi.nodup, fun d hd => ?_, fun d hd => ?_⟩
        · obtain rfl := Option.some.inj hd
          exact hspec
        · obtain rfl := Option.some.inj hd
          exact hspec.mapStep
  | unregister src type acks =>
    cases src with
    | none => exact ⟨hi.nodup, by simp [Correct, Call.run, unregisterCbCommon, einval],
        by simp [MapStep, Call.run, unregisterCbCommon, einval]⟩
    | some src =>
      have hspec := unregisterLoop_spec (callbackTopic src type) acks s.cbList 0 0 fun _ => hc
      refine ⟨hspec.nodup hi.nodup, fun d hd => ?_, fun d hd => ?_⟩
      · obtain rfl := Option.some.inj hd
        exact hspec
      · obtain rfl := Option.some.inj hd
        exact hspec.mapStep hi.nodup

theorem keyed (h : registry.ReachesUnder Found s) : Keyed s :=
  h.invariant (I := Keyed) ⟨List.nodup_nil, nofun, nofun⟩ fun _ _ _ _ hi hc hs => hi.step hc hs

theorem not_keyed_of_not_found (hc : ¬ Found s call) (h : registry.step s call = some s') :
    ¬ Keyed s' := by
  obtain rfl := step_eq h
  intro hk
  have hcorrect := hk.correct _ rfl
  cases call with
  | register src cb type ack =>
    cases src <;> cases cb <;> try exact hc trivial
    obtain ⟨htopic, hsrc⟩ := Classical.not_imp.mp hc
    have hret := (Registered.present hcorrect htopic).1
    simp only [Call.run, registerCbCommon_missed hsrc] at hret
    exact waiteAckTimeout_ne ack hret
  | unregister src type acks =>
    cases src with
    | none => exact hc trivial
    | some src =>
      have habsent := unregisterLoop_absent acks (show callbackTopic src type ∉ _ from hc) 0 0
      obtain ⟨pre, dev, post, hbefore, htopic, -⟩ :=
        Unregistered.removed hcorrect (by simp [Call.run, unregisterCbCommon, habsent])
      refine hc ?_
      simp [Found, show s.cbList = _ from hbefore, htopic]

/-- In a run of calls, the list stays a map by topic in every state if and only
if every topic that is registered again is found and no absent one is
unregistered. -/
theorem keyed_iff (h : registry.run calls = some s) :
    registry.Throughout Keyed registry.init calls ↔ registry.Along Found registry.init calls :=
  Machine.run_throughout_iff (fun _ => keyed) (fun _ _ _ _ => not_keyed_of_not_found) h

def acked : Ack := ⟨0, 0, 0⟩

def timedOut : Ack := ⟨0, 1, 110⟩

def registerAndBack : List Call :=
  [.register (some ['a']) (some 1) none acked, .register (some ['b']) (some 2) (some ['e']) timedOut,
    .unregister (some ['a']) none fun _ => acked]

theorem registerAndBack_keyed : registry.Throughout Keyed registry.init registerAndBack := by
  obtain ⟨s, hs⟩ := Option.isSome_iff_exists.mp
    (show (registry.run registerAndBack).isSome = true by decide +kernel)
  exact (keyed_iff hs).mpr (by decide +kernel)

def registerTwice : List Call :=
  [.register (some ['a']) (some 1) none acked, .register (some ['a']) (some 2) none acked]

theorem registerTwice_unkeyed : ¬ ∀ calls s, registry.run calls = some s →
    registry.Throughout Keyed registry.init calls := by
  intro h
  have hlast := (h registerTwice _ rfl).2.2.nodup
  revert hlast
  decide +kernel

end Registry

end DevAdapter.Broker

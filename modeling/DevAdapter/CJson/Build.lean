import DevAdapter.CJson.Members
import DevAdapter.ClientJson.CloseRssi
import DevAdapter.RfMf

/-!
# Building a tree

`i2cset`, `i2cget`, `close_rssi` and `inquiry_rf_and_mf` build their trees with
calls that link items in memory, of which any allocation may fail. If none
fails, what lies at `root` is the tree that the handlers print, and
`cJSON_Delete` takes it away again.
-/

namespace DevAdapter.CJson.Build

open Blocks (Block Kind Item Cell Content link stringBlocks)
open Store (Turns Denied)

section

-- whether call `n` of `allocate` succeeds
variable (granted : Nat → Bool) (steps : Nat)

-- ---------------------------------------------------------------------------
-- `procBroker.c`
-- ---------------------------------------------------------------------------

/-- Names and strings for `cJSON_AddStringToObject`, of which a string may be `NULL`. -/
abbrev Fields := List (List UInt8 × Option (List UInt8))

def addStrings (object : Option Nat) : Fields → Use Unit
  | [] => pure ()
  | (name, text) :: fields => do
    let _ ← addStringToObject granted steps object (some name) text
    addStrings object fields

def addCommand (array : Option Nat) (command : Fields) : Use Unit := do
  let arrayobj ← createObject granted
  let _ ← addItemToArray steps array arrayobj
  addStrings granted steps arrayobj command

def buildRequest (fields command : Fields) : Use (Option Nat) := do
  let root ← createObject granted
  addStrings granted steps root fields
  let array ← createArray granted
  let _ ← addItemToObject granted steps root (some (bytes "op_cmd")) array
  addCommand granted steps array command
  return root

def i2cFields (dev addr : List UInt8) : Fields := [
  (bytes "dev", some dev),
  (bytes "addr", some addr),
  (bytes "force", some (bytes "0x1")),
  (bytes "dst", some (bytes "rf"))]

def setCommand (reg : List UInt8) (size : Int) (data : Option (List UInt8)) : Fields :=
  [(bytes "_comment", some (bytes "R0")), (bytes "cmd", some (bytes "1")), (bytes "reg", some reg)] ++
    if size = 0 then [(bytes "size", some (bytes "0"))]
    else if size = 1 then [(bytes "size", some (bytes "1")), (bytes "data", data)]
    else []

def buildSet (dev addr reg : List UInt8) (size : Int) (data : Option (List UInt8)) :
    Use (Option Nat) :=
  buildRequest granted steps (i2cFields dev addr) (setCommand reg size data)

def getCommand (reg : List UInt8) (size : Int) : Fields :=
  [(bytes "_comment", some (bytes "R0")), (bytes "cmd", some (bytes "0")), (bytes "reg", some reg)] ++
    if size = 1 then [(bytes "size", some (bytes "1"))]
    else if size = 2 then [(bytes "size", some (bytes "2"))]
    else []

def buildGet (dev addr reg : List UInt8) (size : Int) : Use (Option Nat) :=
  buildRequest granted steps (i2cFields dev addr) (getCommand reg size)

def buildClose : Use (Option Nat) :=
  buildRequest granted steps [
    (bytes "dev", some (bytes "/dev/i2c-0")),
    (bytes "addr", some (bytes "0x4a")),
    (bytes "force", some (bytes "0x1")),
    (bytes "type", some (bytes "rssi")),
    (bytes "timer", some (bytes "0")),
    (bytes "pub_no", some (bytes "1")),
    (bytes "dst", some (bytes "rf"))] [
    (bytes "_comment", some (bytes "rssi")),
    (bytes "cmd", some (bytes "0")),
    (bytes "reg", some (bytes "0x0a")),
    (bytes "size", some (bytes "1"))]

def buildReport (temperatureAd7417 low high : Option (List UInt8)) : Use (Option Nat) := do
  let root ← createObject granted
  addStrings granted steps root [
    (bytes "ad7417_temper", temperatureAd7417),
    (bytes "rf_cur_low", low),
    (bytes "rf_cur_high", high)]
  return root

end

variable {node node' : Nat → Option Node} {prev : Option Nat} {m m' : Memory} {kids : Nat → List Nat}
  {p q : Nat} {n : Node} {steps : Nat} {granted : Nat → Bool} {string : Option (List UInt8)}

-- ---------------------------------------------------------------------------
-- Members
-- ---------------------------------------------------------------------------

def members (fields : Fields) : List (List UInt8 × CJson) :=
  fields.flatMap fun (name, text) => (text.map fun s => (cstr name, CJson.string (cstr s))).toList

/-- Strings that were added to an item, all of the fields if no allocation has failed. -/
structure Strings (granted : Nat → Bool) (m m' : Memory) (kids : Nat → List Nat) (p : Nat)
    (fields : Fields) (cells : List Cell) : Prop where
  forest : Forest m' (Function.update kids p (kids p ++ cells.map Cell.self))
  cell : ∀ c ∈ cells, m.node c.self = none ∧ ∃ text key, c = stringCell c.self text key ∧
    (m'.node c.self).map Node.label = some (.string, some text, some key)
  label : ∀ q, m.node q ≠ none → (m'.node q).map Node.label = (m.node q).map Node.label
  turns : Turns [] (cells.flatMap Cell.blocks) m.store m'.store
  length : cells.length ≤ fields.length
  entries : cells.map Cell.entry = members fields ∨ Denied granted m.store m'.store

theorem label_known (h : (m'.node q).map Node.label = (m.node q).map Node.label) :
    m'.node q = none ↔ m.node q = none := by
  rw [← Option.map_eq_none_iff, h, Option.map_eq_none_iff]

theorem known_of_label {l : Kind × Option Block × Option Block}
    (h : (m.node q).map Node.label = some l) : m.node q ≠ none := by
  intro hnone
  rw [hnone] at h
  cases h

theorem Strings.nil (h : Forest m kids) : Strings granted m m kids p [] [] := by
  refine ⟨?_, fun c hc => absurd hc List.not_mem_nil, fun _ _ => rfl, .refl _ _, Nat.le_refl _, .inl rfl⟩
  rw [List.map_nil, List.append_nil, Function.update_eq_self]
  exact h

variable {m₁ : Memory} {name : List UInt8} {fields : Fields} {cells : List Cell}

theorem Strings.ne (hs : Strings granted m m₁ kids p fields cells) (hp : m.node p ≠ none) {c : Cell}
    (hc : c ∈ cells) : c.self ≠ p :=
  fun heq => hp (heq ▸ (hs.cell c hc).1)

theorem Strings.skip (hs : Strings granted m₁ m' kids p fields cells) (node : m₁.node = m.node)
    (turns : Turns [] [] m.store m₁.store)
    (why : string = none ∨ Denied granted m.store m₁.store) :
    Strings granted m m' kids p ((name, string) :: fields) cells := by
  refine ⟨hs.forest, node ▸ hs.cell, node ▸ hs.label, turns.trans hs.turns,
    Nat.le_succ_of_le hs.length, ?_⟩
  rcases why with rfl | hdenied
  · exact hs.entries.imp_right (·.earlier turns.calls)
  · exact .inr (hdenied.later hs.turns.calls)

theorem Strings.add {i : Nat} {s : List UInt8} {text key : Block}
    (hs : Strings granted m₁ m' (Function.update kids p (kids p ++ [i])) p fields cells)
    (copied : text.text = cstr s) (named : key.text = cstr name) (fresh : m.node i = none)
    (label : ∀ q, (m₁.node q).map Node.label =
      if q = i then some (.string, some text, some key) else (m.node q).map Node.label)
    (turns : Turns [] (stringCell i text key).blocks m.store m₁.store) :
    Strings granted m m' kids p ((name, some s) :: fields) (stringCell i text key :: cells) := by
  have hlabeli : (m₁.node i).map Node.label = some (.string, some text, some key) := by
    rw [label i, if_pos rfl]
  have hi : m₁.node i ≠ none := by
    intro hnone
    rw [hnone] at hlabeli
    cases hlabeli
  have hlabel : ∀ {q}, m.node q ≠ none →
      (m₁.node q).map Node.label = (m.node q).map Node.label := by
    intro q hq
    have hqi : q ≠ i := fun heq => hq (heq ▸ fresh)
    rw [label q, if_neg hqi]
  have hknown : ∀ {q}, m.node q ≠ none → m₁.node q ≠ none := fun hq =>
    mt (label_known (hlabel hq)).mp hq
  refine ⟨?_, List.forall_mem_cons.mpr ⟨⟨fresh, text, key, rfl, (hs.label i hi).trans hlabeli⟩,
    fun c hc => ?_⟩, fun q hq => (hs.label q (hknown hq)).trans (hlabel hq), ?_,
    Nat.succ_le_succ hs.length, ?_⟩
  · have hforest := hs.forest
    rw [Function.update_idem, Function.update_self, List.append_assoc] at hforest
    exact hforest
  · obtain ⟨hfresh, hcell⟩ := hs.cell c hc
    exact ⟨Classical.not_not.mp fun hne => hknown hne hfresh, hcell⟩
  · have hframe := hs.turns.frame_left (stringCell i text key).blocks
    rw [List.append_nil] at hframe
    exact turns.trans hframe
  · refine hs.entries.imp (fun heq => ?_) (·.earlier turns.calls)
    have hentry : (stringCell i text key).entry = (cstr name, .string (cstr s)) := by
      rw [← copied, ← named]
      rfl
    rw [List.map_cons, heq, hentry]
    rfl

theorem addStrings_returns (h : Forest m kids) (hp : m.node p ≠ none) (hsteps : 0 < steps)
    (fields : Fields) (hlen : (kids p).length + fields.length ≤ steps) :
    Returns (addStrings granted steps (some p) fields) m fun _ m' =>
      ∃ cells, Strings granted m m' kids p fields cells := by
  induction fields generalizing m kids with
  | nil => exact .ret ⟨[], .nil h⟩
  | cons field fields ih =>
    obtain ⟨name, text⟩ := field
    rw [List.length_cons] at hlen
    have hobject : ∀ q, some p = some q → m.node q ≠ none ∧ (kids q).length ≤ steps := by
      rintro q ⟨⟩
      exact ⟨hp, by omega⟩
    refine .bind (addStringToObject_returns h hobject hsteps name text) fun r m₁ hr => ?_
    cases hr with
    | kept node forest turns why =>
      refine (ih forest (node ▸ hp) (by omega)).imp fun _ m' hs => ?_
      obtain ⟨cells, hs⟩ := hs
      exact ⟨cells, hs.skip node turns (why.resolve_left (Option.some_ne_none p))⟩
    | @added m₁ p' i s text key into given copied named fresh forest label turns =>
      obtain rfl : p = p' := Option.some.inj into
      obtain rfl := given
      have hp₁ : m₁.node p ≠ none := by
        have hpi : p ≠ i := fun heq => hp (heq ▸ fresh)
        have hlabel := label p
        rw [if_neg hpi] at hlabel
        exact mt (label_known hlabel).mp hp
      refine (ih forest hp₁ ?_).imp fun _ m' hs => ?_
      · simp only [Function.update_self, List.length_append, List.length_singleton]
        omega
      · obtain ⟨cells, hs⟩ := hs
        exact ⟨_, hs.add copied named fresh label turns⟩

-- ---------------------------------------------------------------------------
-- The tree that lies in memory
-- ---------------------------------------------------------------------------

/-- What lies at `p`, behind `prev`. -/
def Lies (node : Nat → Option Node) : Option Nat → Option Nat → Item → Prop
  | _, p, .null => p = none
  | prev, p, .node self next child type text name =>
    p = some self ∧ ∃ n, node self = some n ∧ n.prev = prev ∧ n.label = (type, text, name) ∧
      Lies node (some self) n.next next ∧ Lies node none n.child child

def selves : Item → List Nat
  | .null => []
  | .node self next child _ _ _ => selves child ++ self :: selves next

theorem Lies.congr {x : Item} {p : Option Nat} (h : Lies node prev p x)
    (hsame : ∀ q ∈ selves x, node' q = node q) : Lies node' prev p x := by
  induction x generalizing prev p with
  | null => exact h
  | node self next child type text name ihnext ihchild =>
    obtain ⟨hp, n, hn, hprev, hlabel, hnext, hchild⟩ := h
    rw [selves] at hsame
    obtain ⟨hsamechild, hsamerest⟩ := List.forall_mem_append.mp hsame
    obtain ⟨hself, hsamenext⟩ := List.forall_mem_cons.mp hsamerest
    exact ⟨hp, n, hself.trans hn, hprev, hlabel, ihnext hnext hsamenext, ihchild hchild hsamechild⟩

theorem selves_sublist (x : Item) : (selves x).Sublist x.blocks := by
  induction x with
  | null => exact .slnil
  | node self next child type text name ihnext ihchild =>
    refine ihchild.append ?_
    refine .trans (.cons_cons _ ihnext) (.trans (List.sublist_append_right (stringBlocks name) _) ?_)
    exact List.sublist_append_right _ _

/-- `cJSON_Delete` takes every item away and frees what it holds. -/
theorem delete_run {x : Item} {p : Option Nat} (h : Lies m.node prev p x) (honce : (selves x).Nodup)
    (hsteps : (selves x).length ≤ steps) : (delete steps p).run m =
      some ((), ⟨fun q => if q ∈ selves x then none else m.node q, Blocks.delete x m.store⟩) := by
  induction x generalizing m prev p steps with
  | null =>
    obtain rfl : p = none := h
    cases steps <;> simp [delete, selves, Blocks.delete]
  | node self next child type text name ihnext ihchild =>
    obtain ⟨rfl, n, hn, -, hlabel, hnext, hchild⟩ := h
    rw [selves, List.length_append, List.length_cons] at hsteps
    obtain ⟨steps, rfl⟩ : ∃ k, steps = k + 1 := ⟨steps - 1, by omega⟩
    obtain ⟨honcechild, honcerest, hapart⟩ := List.nodup_append.mp honce
    obtain ⟨hself, honcenext⟩ := List.nodup_cons.mp honcerest
    have hselfchild : self ∉ selves child := fun hmem =>
      hapart self hmem self List.mem_cons_self rfl
    have hnextchild : ∀ q ∈ selves next, q ∉ selves child := fun q hq hmem =>
      hapart q hmem q (List.mem_cons_of_mem _ hq) rfl
    have htext : n.valuestring = text := congrArg (·.2.1) hlabel
    have hname : n.string = name := congrArg (·.2.2) hlabel
    let node₁ : Nat → Option Node := fun q => if q ∈ selves child then none else m.node q
    let node₂ : Nat → Option Node := Function.update node₁ self none
    have hn₁ : node₁ self = some n := (if_neg hselfchild).trans hn
    have hload : ∀ st, (load self).run ⟨node₁, st⟩ = some (n, ⟨node₁, st⟩) := fun st =>
      load_run (m := ⟨node₁, st⟩) hn₁
    have hfree : ∀ st, (deallocateItem self).run ⟨node₁, st⟩ =
        some ((), ⟨node₂, st.deallocate self⟩) := by
      intro st
      simp [StateT.run, deallocateItem, hn₁, node₂]
    have hdealloc : ∀ (text : Option Block) (m : Memory), (deallocateString text).run m =
        some ((), { m with store := Blocks.deallocateString text m.store }) := by
      intro text m
      cases text <;> rfl
    have hnext₂ : Lies node₂ (some self) n.next next := hnext.congr fun q hq => by
      have hq' : q ≠ self := fun heq => hself (heq ▸ hq)
      rw [show node₂ q = node₁ q from Function.update_of_ne hq' .., show node₁ q = m.node q from
        if_neg (hnextchild q hq)]
    have hchildrun : (delete steps n.child).run m =
        some ((), ⟨node₁, Blocks.delete child m.store⟩) := ihchild hchild honcechild (by omega)
    have hnextrun : ∀ st, (delete steps n.next).run ⟨node₂, st⟩ = some ((),
        ⟨fun q => if q ∈ selves next then none else node₂ q, Blocks.delete next st⟩) := fun st =>
      ihnext (m := ⟨node₂, st⟩) hnext₂ honcenext (by omega)
    have hnode : (fun q => if q ∈ selves next then none else node₂ q) =
        fun q => if q ∈ selves (.node self next child type text name) then none else m.node q := by
      funext q
      by_cases hq : q = self
      · subst hq
        simp [selves, node₂]
      · simp only [selves, List.mem_append, List.mem_cons, hq, false_or, node₂, node₁,
          Function.update_of_ne hq]
        by_cases hqchild : q ∈ selves child <;> simp [hqchild]
    simp only [delete, StateT.run_bind, load_run hn, Option.bind_eq_bind, Option.bind_some,
      hchildrun, hload, hdealloc, hfree, hnextrun, htext, hname, hnode, Blocks.delete]

-- ---------------------------------------------------------------------------
-- The calls of a builder
-- ---------------------------------------------------------------------------

def cellLabel (c : Cell) : Kind × Option Block × Option Block :=
  (c.content.type, c.content.valuestring, c.string)

theorem lies_link (cells : List Cell) (h : Linked node prev (cells.map Cell.self))
    (hcell : ∀ c ∈ cells, (node c.self).map Node.label = some (cellLabel c) ∧
      ∀ n, node c.self = some n → Lies node none n.child c.content.child) :
    Lies node prev (cells.map Cell.self).head? (link cells) := by
  induction cells generalizing prev with
  | nil => rfl
  | cons c cells ih =>
    obtain ⟨hplace, hrest⟩ := h
    obtain ⟨⟨hlabel, hchild⟩, hcells⟩ := List.forall_mem_cons.mp hcell
    obtain ⟨n, hn, hplace⟩ := Option.map_eq_some_iff.mp hplace
    rw [hn] at hlabel
    have hnext : n.next = (cells.map Cell.self).head? := congrArg Prod.snd hplace
    refine ⟨rfl, n, hn, congrArg Prod.fst hplace, Option.some.inj hlabel, ?_, hchild n hn⟩
    rw [hnext]
    exact ih hrest hcells

theorem object_lies {cells : List Cell} (hlinked : Linked node none [p])
    (hlabel : (node p).map Node.label = some (.object, none, none))
    (hchild : ∀ n, node p = some n → n.child = (cells.map Cell.self).head?)
    (hcells : Linked node none (cells.map Cell.self))
    (hcell : ∀ c ∈ cells, (node c.self).map Node.label = some (cellLabel c) ∧
      ∀ n, node c.self = some n → Lies node none n.child c.content.child) :
    Lies node none (some p) (link [⟨p, ⟨.object, link cells, none⟩, none⟩]) := by
  refine lies_link [⟨p, ⟨.object, link cells, none⟩, none⟩] hlinked fun c hc => ?_
  obtain rfl := List.mem_singleton.mp hc
  refine ⟨hlabel, fun n hn => ?_⟩
  rw [hchild n hn]
  exact lies_link cells hcells hcell

theorem Forest.stringLies (h : Forest m kids) {c : Cell} (hkids : kids c.self = [])
    (hcell : ∃ text key, c = stringCell c.self text key ∧
      (m.node c.self).map Node.label = some (.string, some text, some key)) :
    (m.node c.self).map Node.label = some (cellLabel c) ∧
      ∀ n, m.node c.self = some n → Lies m.node none n.child c.content.child := by
  obtain ⟨text, key, hc, hlabel⟩ := hcell
  refine ⟨?_, fun n hn => ?_⟩
  · rw [hlabel, hc]
    rfl
  · rw [h.child hn, hkids, hc]
    rfl

/-- What a call leaves of the items that were there: their labels, and the
children of all but `p`. -/
structure Keeps (m m' : Memory) (kids kids' : Nat → List Nat) (p : Nat) : Prop where
  label : ∀ q, m.node q ≠ none → (m'.node q).map Node.label = (m.node q).map Node.label
  children : ∀ q, m.node q ≠ none → q ≠ p → kids' q = kids q
  new : ∀ q i, i ∈ kids' q → i ∈ kids q ∨ m.node i = none

theorem addStrings_none (h : Forest m kids) (hsteps : 0 < steps) (fields : Fields) :
    Returns (addStrings granted steps none fields) m fun _ m' =>
      Forest m' kids ∧ m'.node = m.node ∧ m.store.calls ≤ m'.store.calls := by
  induction fields generalizing m with
  | nil => exact .ret ⟨h, rfl, Nat.le_refl _⟩
  | cons field fields ih =>
    refine .bind (addStringToObject_returns h (fun p hp => by cases hp) hsteps field.1 field.2) fun r m₁ hr => ?_
    cases hr with
    | kept node forest turns why =>
      refine (ih forest).imp fun _ m' hrest => ?_
      obtain ⟨hforest, hnode, hcalls⟩ := hrest
      exact ⟨hforest, hnode.trans node, turns.calls.trans hcalls⟩
    | added into => cases into

/-- The tree of one command, at the head of the array's children. -/
structure Commanded (m m' : Memory) (kids kids' : Nat → List Nat) (a : Nat) (command : Fields)
    (x : Item) : Prop where
  lies : Lies m'.node none (kids' a).head? x
  entries : x.entries = [([], .object (members command))]
  turns : Turns [] x.blocks m.store m'.store
  keeps : Keeps m m' kids kids' a

theorem addCommand_returns (h : Forest m kids) {array : Option Nat} {command : Fields}
    (harray : ∀ a, array = some a → m.node a ≠ none ∧ kids a = []) (hsteps : 0 < steps)
    (hlen : command.length ≤ steps) :
    Returns (addCommand granted steps array command) m fun _ m' => ∃ kids', Forest m' kids' ∧
      m.store.calls ≤ m'.store.calls ∧ ∀ a, array = some a →
        Denied granted m.store m'.store ∨ ∃ x, Commanded m m' kids kids' a command x := by
  refine .bind (create_returns h .object) fun r m₁ hr => ?_
  cases hr with
  | denied node forest turns reason =>
    have hnone : (addItemToArray steps array none).run m₁ = some (false, m₁) := by
      cases array <;> rfl
    refine .step hnone ((addStrings_none forest hsteps command).imp fun _ m' hrest => ?_)
    obtain ⟨hforest, -, hcalls⟩ := hrest
    exact ⟨kids, hforest, turns.calls.trans hcalls, fun _ _ =>
      .inl ((reason.resolve_left id).later hcalls)⟩
  | @given m₁ obj fresh node forest turns =>
    have hobj : m₁.node obj = some ⟨none, none, none, .object, none, none⟩ := by
      rw [node]
      exact Function.update_self ..
    have hold : ∀ {q}, m.node q ≠ none → m₁.node q = m.node q := by
      intro q hq
      have hqobj : q ≠ obj := fun heq => hq (heq ▸ fresh)
      rw [node]
      exact Function.update_of_ne hqobj ..
    have hobj₁ : m₁.node obj ≠ none := by simp [hobj]
    have hkidsobj : kids obj = [] := h.childless fresh
    cases array with
    | none =>
      refine .step (v := false) rfl ((addStrings_returns forest hobj₁ hsteps command ?_).imp ?_)
      · rw [hkidsobj]
        simpa using hlen
      · rintro _ m' ⟨cells, hs⟩
        exact ⟨_, hs.forest, turns.calls.trans hs.turns.calls, fun a ha => by cases ha⟩
    | some a =>
      obtain ⟨ha, hkidsa⟩ := harray a rfl
      have hane : a ≠ obj := fun heq => ha (heq ▸ fresh)
      refine .bind (addItemToArray_returns forest (by rwa [hold ha]) hobj₁ (h.alone fresh)
        (by simp [hkidsa])) ?_
      rintro added m₂ ⟨-, forest₂, hstore, hlabel₂⟩
      have hknown₂ : ∀ {q}, m₁.node q ≠ none → m₂.node q ≠ none := fun hq =>
        mt (label_known (hlabel₂ _)).mp hq
      have hkids₂ : Function.update kids a (kids a ++ [obj]) obj = [] := by
        rw [Function.update_of_ne hane.symm, hkidsobj]
      refine (addStrings_returns forest₂ (hknown₂ hobj₁) hsteps command ?_).imp ?_
      · rw [hkids₂]
        simpa using hlen
      rintro _ m₃ ⟨cells, hs⟩
      refine ⟨_, hs.forest, ?_, fun a' ha' => ?_⟩
      · exact turns.calls.trans (hstore ▸ hs.turns.calls)
      obtain rfl : a = a' := Option.some.inj ha'
      rcases hs.entries with hentries | hdenied
      swap
      · exact .inl (hstore ▸ hdenied |>.earlier turns.calls)
      let kids₂ := Function.update kids a (kids a ++ [obj])
      let kids₃ := Function.update kids₂ obj (kids₂ obj ++ cells.map Cell.self)
      let x := link [⟨obj, ⟨.object, link cells, none⟩, none⟩]
      have hforest : Forest m₃ kids₃ := hs.forest
      have hkidsa₃ : kids₃ a = [obj] := by
        simp only [kids₃, kids₂, Function.update_of_ne hane, Function.update_self, hkidsa,
          List.nil_append]
      have hkidsobj₃ : kids₃ obj = cells.map Cell.self := by
        simp only [kids₃, kids₂, Function.update_self, hkids₂, List.nil_append]
      have hlabel : ∀ q, m₁.node q ≠ none →
          (m₃.node q).map Node.label = (m₁.node q).map Node.label := fun q hq =>
        (hs.label q (hknown₂ hq)).trans (hlabel₂ q)
      have hlies : Lies m₃.node none (kids₃ a).head? x := by
        have hone : Linked m₃.node none [obj] := hkidsa₃ ▸ hforest.linked a
        rw [hkidsa₃]
        refine object_lies hone ((hlabel obj hobj₁).trans (by rw [hobj]; rfl))
          (fun n hn => hkidsobj₃ ▸ hforest.child hn) (hkidsobj₃ ▸ hforest.linked obj) fun c hc => ?_
        obtain ⟨hfresh, hcell⟩ := hs.cell c hc
        refine hforest.stringLies ?_ hcell
        exact (Function.update_of_ne (hs.ne (hknown₂ hobj₁) hc) ..).trans (forest₂.childless hfresh)
      have hturns : Turns [] x.blocks m.store m₃.store := by
        have hframe := (hstore ▸ hs.turns).frame_left [obj]
        refine (turns.trans hframe).perm ?_
        simp only [x, Blocks.blocks_link, List.flatMap_singleton, Cell.blocks, Content.blocks,
          stringBlocks, Option.map_none, Option.toList_none, List.append_nil, List.nil_append]
        exact List.perm_append_comm
      refine .inr ⟨x, hlies, ?_, hturns, ⟨fun q hq => ?_, fun q hq hqa => ?_, fun q i hi => ?_⟩⟩
      · simp only [x, Blocks.entries_link, List.map_cons, List.map_nil, Cell.entry, Content.tree,
          Blocks.Kind.tree, hentries, Option.elim_none]
      · exact (hlabel q (by rwa [hold hq])).trans (by rw [hold hq])
      · have hqobj : q ≠ obj := fun heq => hq (heq ▸ fresh)
        rw [Function.update_of_ne hqobj, Function.update_of_ne hqa]
      · by_cases hqobj : q = obj
        · subst hqobj
          rw [show Function.update kids₂ q _ q = kids₃ q from rfl, hkidsobj₃] at hi
          obtain ⟨c, hc, rfl⟩ := List.mem_map.mp hi
          refine .inr (Classical.not_not.mp fun hne => ?_)
          exact hknown₂ (by rwa [hold hne]) (hs.cell c hc).1
        · by_cases hqa : q = a
          · subst hqa
            rw [show Function.update kids₂ obj _ q = kids₃ q from rfl, hkidsa₃] at hi
            exact .inr (List.mem_singleton.mp hi ▸ fresh)
          · rw [Function.update_of_ne hqobj, Function.update_of_ne hqa] at hi
            exact .inl hi

/-- A tree lies at `root`, alone in what was allocated, or an allocation has
failed; in both cases the children of every item are linked. -/
def Made (granted : Nat → Bool) (m : Memory) (tree : CJson) (root : Option Nat) (m' : Memory) :
    Prop :=
  (∃ kids', Forest m' kids') ∧ (Denied granted m.store m'.store ∨
    ∃ x, Lies m'.node none root x ∧ x.tree? = some tree ∧ Turns [] x.blocks m.store m'.store)

def requestItem (root arr : Nat) (cells : List Cell) (key : Block) (x : Item) : Item :=
  link [⟨root, ⟨.object, link (cells ++ [⟨arr, ⟨.array, x, none⟩, some key⟩]), none⟩, none⟩]

theorem requestItem_tree {root arr : Nat} {key : Block} {x : Item} {command : Fields}
    (hcells : cells.map Cell.entry = members fields) (hkey : key.text = cstr (bytes "op_cmd"))
    (hx : x.entries = [([], .object (members command))]) :
    (requestItem root arr cells key x).tree? = some (.object (members fields ++
      [(cstr (bytes "op_cmd"), .array [.object (members command)])])) := by
  simp only [requestItem, Item.tree?, Blocks.entries_link, List.map_cons, List.map_append, hcells,
    List.map_nil, Cell.entry, Content.tree, Blocks.Kind.tree, hx, Option.elim_some, hkey,
    List.head?_cons, Option.map_some]

theorem requestItem_blocks (root arr : Nat) (cells : List Cell) (key : Block) (x : Item) :
    ([root] ++ cells.flatMap Cell.blocks ++ [arr] ++ [key.number] ++ x.blocks).Perm
      (requestItem root arr cells key x).blocks := by
  simp only [requestItem, Blocks.blocks_link, List.flatMap_append, List.flatMap_singleton,
    Cell.blocks, Content.blocks, stringBlocks, Option.map_none, Option.toList_none, Option.map_some,
    Option.toList_some, List.append_nil, List.nil_append]
  rw [List.append_assoc, List.append_assoc, List.append_assoc]
  refine List.perm_append_comm.trans (.append_right _ (.append_left _ ?_))
  have harr : ([arr] ++ ([key.number] ++ x.blocks)).Perm ([key.number] ++ x.blocks ++ [arr]) :=
    List.perm_append_comm
  have hkey : ([key.number] ++ x.blocks).Perm (x.blocks ++ [key.number]) := List.perm_append_comm
  exact harr.trans ((hkey.append_right [arr]).trans (.of_eq (List.append_assoc ..)))

theorem request_lies {m₂ m₃ m₄ : Memory} {kids₄ : Nat → List Nat} {root arr : Nat} {key : Block}
    {x : Item} {command : Fields} (forest₁ : Forest m₁ kids)
    (hroot : (m₁.node root).map Node.label = some (.object, none, none))
    (halone : ∀ q, root ∉ kids q) (hkidsroot : kids root = [])
    (hs : Strings granted m₁ m₂ kids root fields cells) (fresh : m₂.node arr = none)
    (hlabel : ∀ {q}, m₂.node q ≠ none → (m₃.node q).map Node.label = (m₂.node q).map Node.label)
    (harr : (m₃.node arr).map Node.label = some (.array, none, some key))
    (forest₄ : Forest m₄ kids₄)
    (hx : Commanded m₃ m₄ (Function.update (Function.update kids root
      (kids root ++ cells.map Cell.self)) root (Function.update kids root
      (kids root ++ cells.map Cell.self) root ++ [arr])) kids₄ arr command x) :
    Lies m₄.node none (some root) (requestItem root arr cells key x) := by
  rw [Function.update_idem, Function.update_self, hkidsroot, List.nil_append] at hx
  have hroot₂ : (m₂.node root).map Node.label = some (.object, none, none) :=
    (hs.label root (known_of_label hroot)).trans hroot
  have hroot₃ := (hlabel (known_of_label hroot₂)).trans hroot₂
  have hne : root ≠ arr := fun heq => known_of_label hroot₂ (heq ▸ fresh)
  have hcellknown : ∀ c ∈ cells, m₂.node c.self ≠ none ∧ c.self ≠ root ∧ c.self ≠ arr := by
    intro c hc
    obtain ⟨-, text, key, -, hl⟩ := hs.cell c hc
    have hc₂ := known_of_label hl
    exact ⟨hc₂, hs.ne (known_of_label hroot) hc, fun heq => hc₂ (heq ▸ fresh)⟩
  have hkids : kids₄ root =
      (cells ++ [(⟨arr, ⟨.array, x, none⟩, some key⟩ : Cell)]).map Cell.self := by
    rw [hx.keeps.children root (known_of_label hroot₃) hne, Function.update_self, List.map_append]
    rfl
  have hrootalone : ∀ q, root ∉ kids₄ q := by
    intro q hmem
    rcases hx.keeps.new q root hmem with hmem | hnone
    · by_cases hq : q = root
      · subst hq
        rw [Function.update_self, List.mem_append, List.mem_map, List.mem_singleton] at hmem
        rcases hmem with ⟨c, hc, heq⟩ | heq
        · exact (hcellknown c hc).2.1 heq
        · exact hne heq
      · rw [Function.update_of_ne hq] at hmem
        exact halone q hmem
    · exact known_of_label hroot₃ hnone
  have hroot₄ := (hx.keeps.label root (known_of_label hroot₃)).trans hroot₃
  obtain ⟨n, hn⟩ := Option.ne_none_iff_exists'.mp (known_of_label hroot₄)
  refine object_lies ⟨?_, trivial⟩ hroot₄ (fun k hk => hkids ▸ forest₄.child hk)
    (hkids ▸ forest₄.linked root) (List.forall_mem_append.mpr ⟨fun c hc => ?_, fun c hc => ?_⟩)
  · rw [hn, Option.map_some, forest₄.top hn hrootalone]
    rfl
  · obtain ⟨hfresh, text, key, heq, hl⟩ := hs.cell c hc
    obtain ⟨hc₂, hcroot, hcarr⟩ := hcellknown c hc
    have hc₃ := hlabel hc₂
    have hc₃known : m₃.node c.self ≠ none := mt (label_known hc₃).mp hc₂
    refine forest₄.stringLies ?_ ⟨text, key, heq, ?_⟩
    · rw [hx.keeps.children c.self hc₃known hcarr, Function.update_of_ne hcroot]
      exact forest₁.childless hfresh
    · exact (hx.keeps.label c.self hc₃known).trans (hc₃.trans hl)
  · obtain rfl := List.mem_singleton.mp hc
    refine ⟨(hx.keeps.label arr (known_of_label harr)).trans harr, fun k hk => ?_⟩
    rw [forest₄.child hk]
    exact hx.lies

theorem turns_more {pre mid post : List Nat} {st₁ st₂ st₃ : Store} (h : Turns pre mid st₁ st₂)
    (h' : Turns [] post st₂ st₃) : Turns pre (mid ++ post) st₁ st₃ := by
  have hframe := h'.frame_left mid
  rw [List.append_nil] at hframe
  exact h.trans hframe

theorem buildRequest_returns (h : Forest m kids) {fields command : Fields}
    (hfields : fields.length < steps) (hcommand : command.length ≤ steps) :
    Returns (buildRequest granted steps fields command) m (Made granted m (.object (members fields ++
      [(cstr (bytes "op_cmd"), .array [.object (members command)])]))) := by
  have hsteps : 0 < steps := Nat.zero_lt_of_lt hfields
  refine .bind (create_returns h .object) fun root m₁ hroot => ?_
  cases hroot with
  | denied node₁ forest₁ turns₁ reason₁ =>
    have hdenied₁ := reason₁.resolve_left id
    refine .bind (addStrings_none forest₁ hsteps fields) ?_
    rintro _ m₂ ⟨forest₂, -, hcalls₂⟩
    refine .bind (create_returns forest₂ .array) fun array m₃ harray => ?_
    have hnone : (addItemToObject granted steps none (some (bytes "op_cmd")) array).run m₃ =
        some (false, m₃) := by
      cases array <;> rfl
    have hready : Forest m₃ kids ∧ m₂.store.calls ≤ m₃.store.calls ∧
        ∀ a, array = some a → m₃.node a ≠ none ∧ kids a = [] := by
      cases harray with
      | denied node forest turns reason => exact ⟨forest, turns.calls, fun a ha => by cases ha⟩
      | given fresh node forest turns =>
        refine ⟨forest, turns.calls, ?_⟩
        rintro a ⟨⟩
        exact ⟨by simp [node], forest₂.childless fresh⟩
    obtain ⟨forest₃, hcalls₃, harray₃⟩ := hready
    refine .step hnone (.bind (addCommand_returns forest₃ harray₃ hsteps hcommand) ?_)
    rintro _ m₄ ⟨kids', forest₄, hcalls₄, -⟩
    exact .ret ⟨⟨kids', forest₄⟩, .inl (hdenied₁.later (hcalls₂.trans (hcalls₃.trans hcalls₄)))⟩
  | @given m₁ root fresh₁ node₁ forest₁ turns₁ =>
    have hroot₁ : m₁.node root = some ⟨none, none, none, .object, none, none⟩ := by
      rw [node₁]
      exact Function.update_self ..
    have hkidsroot : kids root = [] := h.childless fresh₁
    refine .bind (addStrings_returns forest₁ (by simp [hroot₁]) hsteps fields ?_) ?_
    · rw [hkidsroot]
      simpa using hfields.le
    rintro _ m₂ ⟨cells, hs⟩
    let kids₂ := Function.update kids root (kids root ++ cells.map Cell.self)
    have hkids₂ : kids₂ root = cells.map Cell.self := by
      simp only [kids₂, Function.update_self, hkidsroot, List.nil_append]
    have forest₂ : Forest m₂ kids₂ := hs.forest
    have hlabel₂ := hs.label root (by simp [hroot₁])
    refine .bind (create_returns forest₂ .array) fun array m₃ harray => ?_
    cases harray with
    | denied node₃ forest₃ turns₃ reason₃ =>
      refine .step (v := false) rfl
        (.bind (addCommand_returns forest₃ (fun a ha => by cases ha) hsteps hcommand) ?_)
      rintro _ m₄ ⟨kids', forest₄, hcalls₄, -⟩
      exact .ret ⟨⟨kids', forest₄⟩, .inl (((reason₃.resolve_left id).earlier
        (turns₁.calls.trans hs.turns.calls)).later hcalls₄)⟩
    | @given m₃ arr fresh₃ node₃ forest₃ turns₃ =>
      have harr₃ : m₃.node arr = some ⟨none, none, none, .array, none, none⟩ := by
        rw [node₃]
        exact Function.update_self ..
      have hold₃ : ∀ {q}, q ≠ arr → m₃.node q = m₂.node q := by
        intro q hq
        rw [node₃]
        exact Function.update_of_ne hq ..
      have hroot₂ : m₂.node root ≠ none := mt (label_known hlabel₂).mp (by simp [hroot₁])
      have hne : root ≠ arr := fun heq => hroot₂ (heq ▸ fresh₃)
      have hkidsarr : kids₂ arr = [] := forest₂.childless fresh₃
      have hcalls₃ := turns₁.calls.trans (hs.turns.calls.trans turns₃.calls)
      refine .bind (addItemToObject_returns forest₃ (by rwa [hold₃ hne]) harr₃ rfl
        (forest₂.alone fresh₃) ?_ (bytes "op_cmd")) fun joined m₄ hjoined => ?_
      · rw [hkids₂, List.length_map]
        exact hs.length.trans hfields.le
      cases hjoined with
      | kept forest₄ turns₄ why₄ =>
        refine .bind (addCommand_returns forest₄ ?_ hsteps hcommand) ?_
        · rintro a ⟨⟩
          exact ⟨by simp [harr₃], hkidsarr⟩
        · rintro _ m₅ ⟨kids', forest₅, hcalls₅, -⟩
          exact .ret ⟨⟨kids', forest₅⟩, .inl ((why₄.earlier hcalls₃).later hcalls₅)⟩
      | @joined m₄ key named forest₄ label₄ turns₄ =>
        let kids₄ := Function.update kids₂ root (kids₂ root ++ [arr])
        have hlabelarr : (m₄.node arr).map Node.label = some (.array, none, some key) := by
          rw [label₄ arr, if_pos rfl, harr₃]
          rfl
        have harr₄ : m₄.node arr ≠ none := known_of_label hlabelarr
        have hlabel₄ : ∀ {q}, m₂.node q ≠ none →
            (m₄.node q).map Node.label = (m₂.node q).map Node.label := by
          intro q hq
          have hqarr : q ≠ arr := fun heq => hq (heq ▸ fresh₃)
          rw [label₄ q, if_neg hqarr, hold₃ hqarr]
        have hknown₄ : ∀ {q}, m₂.node q ≠ none → m₄.node q ≠ none := fun hq =>
          mt (label_known (hlabel₄ hq)).mp hq
        have hkidsarr₄ : kids₄ arr = [] := (Function.update_of_ne hne.symm ..).trans hkidsarr
        refine .bind (addCommand_returns forest₄ ?_ hsteps hcommand) ?_
        · rintro a ⟨⟩
          exact ⟨harr₄, hkidsarr₄⟩
        rintro _ m₅ ⟨kids₅, forest₅, hcalls₅, hcmd⟩
        refine .ret ⟨⟨kids₅, forest₅⟩, ?_⟩
        rcases hcmd arr rfl with hdenied | ⟨x, hx⟩
        · exact .inl (hdenied.earlier (hcalls₃.trans turns₄.calls))
        rcases hs.entries with hentries | hdenied
        swap
        · exact .inl ((hdenied.earlier turns₁.calls).later
            (turns₃.calls.trans (turns₄.calls.trans hcalls₅)))
        refine .inr ⟨requestItem root arr cells key x, ?_, requestItem_tree hentries named hx.entries,
          (turns_more (turns_more (turns_more (turns_more turns₁ hs.turns) turns₃) turns₄)
            hx.turns).perm (requestItem_blocks root arr cells key x)⟩
        exact request_lies forest₁ (by rw [hroot₁]; rfl) (h.alone fresh₁) hkidsroot hs fresh₃ hlabel₄
          hlabelarr forest₅ hx

theorem addStrings_made (h : Forest m kids) {fields : Fields} (hfields : fields.length < steps) :
    Returns (do let root ← createObject granted; addStrings granted steps root fields; return root)
      m (Made granted m (.object (members fields))) := by
  have hsteps : 0 < steps := Nat.zero_lt_of_lt hfields
  refine .bind (create_returns h .object) fun root m₁ hroot => ?_
  cases hroot with
  | denied node₁ forest₁ turns₁ reason₁ =>
    refine .bind (addStrings_none forest₁ hsteps fields) ?_
    rintro _ m₂ ⟨forest₂, -, hcalls₂⟩
    exact .ret ⟨⟨kids, forest₂⟩, .inl ((reason₁.resolve_left id).later hcalls₂)⟩
  | @given m₁ root fresh₁ node₁ forest₁ turns₁ =>
    have hroot₁ : m₁.node root = some ⟨none, none, none, .object, none, none⟩ := by
      rw [node₁]
      exact Function.update_self ..
    have hkidsroot : kids root = [] := h.childless fresh₁
    refine .bind (addStrings_returns forest₁ (by simp [hroot₁]) hsteps fields ?_) ?_
    · rw [hkidsroot]
      simpa using hfields.le
    rintro _ m₂ ⟨cells, hs⟩
    refine .ret ⟨⟨_, hs.forest⟩, ?_⟩
    rcases hs.entries with hentries | hdenied
    swap
    · exact .inl (hdenied.earlier turns₁.calls)
    have hlabel := hs.label root (by simp [hroot₁])
    obtain ⟨n, hn⟩ := Option.ne_none_iff_exists'.mp (mt (label_known hlabel).mp (by simp [hroot₁]))
    have hcellne : ∀ c ∈ cells, c.self ≠ root := fun c hc => hs.ne (by simp [hroot₁]) hc
    have hforest := hs.forest
    rw [hkidsroot, List.nil_append] at hforest
    have hkids : Function.update kids root (cells.map Cell.self) root = cells.map Cell.self :=
      Function.update_self ..
    have halone : ∀ q, root ∉ Function.update kids root (cells.map Cell.self) q := by
      intro q hmem
      by_cases hq : q = root
      · rw [hq, hkids, List.mem_map] at hmem
        obtain ⟨c, hc, heq⟩ := hmem
        exact hcellne c hc heq
      · rw [Function.update_of_ne hq] at hmem
        exact h.alone fresh₁ q hmem
    refine .inr ⟨link [⟨root, ⟨.object, link cells, none⟩, none⟩], ?_, ?_, ?_⟩
    · refine object_lies ⟨?_, trivial⟩ (hlabel.trans (by rw [hroot₁]; rfl))
        (fun k hk => hkids ▸ hforest.child hk) (hkids ▸ hforest.linked root) fun c hc => ?_
      · rw [hn, Option.map_some, hforest.top hn halone]
        rfl
      · obtain ⟨hfresh, hcell⟩ := hs.cell c hc
        refine hforest.stringLies ?_ hcell
        rw [Function.update_of_ne (hcellne c hc)]
        exact forest₁.childless hfresh
    · simp only [Item.tree?, Blocks.entries_link, List.map_cons, List.map_nil, Cell.entry,
        Content.tree, Blocks.Kind.tree, hentries, List.head?_cons, Option.map_some]
    · refine (turns_more turns₁ hs.turns).perm ?_
      simp only [Blocks.blocks_link, List.flatMap_singleton, Cell.blocks, Content.blocks,
        stringBlocks, Option.map_none, Option.toList_none, List.append_nil, List.nil_append]
      exact List.perm_append_comm

-- ---------------------------------------------------------------------------
-- The trees of the handlers
-- ---------------------------------------------------------------------------

inductive Form
  | set (dev addr reg : List UInt8) (size : Int) (data : Option (List UInt8))
  | get (dev addr reg : List UInt8) (size : Int)
  | close
  | report (temperatureAd7417 low high : Option (List UInt8))

def Form.build (granted : Nat → Bool) (steps : Nat) : Form → Use (Option Nat)
  | .set dev addr reg size data => buildSet granted steps dev addr reg size data
  | .get dev addr reg size => buildGet granted steps dev addr reg size
  | .close => buildClose granted steps
  | .report temperatureAd7417 low high => buildReport granted steps temperatureAd7417 low high

def Form.tree : Form → CJson
  | .set dev addr reg size data => I2c.setTree dev addr reg size data
  | .get dev addr reg size => I2c.getTree dev addr reg size
  | .close => ClientJson.closeTree
  | .report temperatureAd7417 low high =>
    .object (I2c.stringMember "ad7417_temper" temperatureAd7417 ++
      I2c.stringMember "rf_cur_low" low ++ I2c.stringMember "rf_cur_high" high)

theorem setTree_members (dev addr reg : List UInt8) (size : Int) (data : Option (List UInt8)) :
    .object (members (i2cFields dev addr) ++ [(cstr (bytes "op_cmd"),
      .array [.object (members (setCommand reg size data))])]) =
      cut (I2c.setTree dev addr reg size data) := by
  unfold setCommand I2c.setTree
  split
  · rfl
  · split
    · cases data <;> rfl
    · rfl

theorem getTree_members (dev addr reg : List UInt8) (size : Int) :
    .object (members (i2cFields dev addr) ++ [(cstr (bytes "op_cmd"),
      .array [.object (members (getCommand reg size))])]) = cut (I2c.getTree dev addr reg size) := by
  unfold getCommand I2c.getTree
  split
  · rfl
  · split <;> rfl

theorem Form.made (f : Form) (h : Forest m kids) (hsteps : 8 ≤ steps) :
    Returns (f.build granted steps) m (Made granted m (cut f.tree)) := by
  cases f with
  | set dev addr reg size data =>
    rw [Form.tree, ← setTree_members]
    refine buildRequest_returns h (Nat.lt_of_lt_of_le (by decide : 4 < 8) hsteps) (.trans ?_ hsteps)
    unfold setCommand
    split
    · exact (by decide : 4 ≤ 8)
    · split
      · exact (by decide : 5 ≤ 8)
      · exact (by decide : 3 ≤ 8)
  | get dev addr reg size =>
    rw [Form.tree, ← getTree_members]
    refine buildRequest_returns h (Nat.lt_of_lt_of_le (by decide : 4 < 8) hsteps) (.trans ?_ hsteps)
    unfold getCommand
    split
    · exact (by decide : 4 ≤ 8)
    · split
      · exact (by decide : 4 ≤ 8)
      · exact (by decide : 3 ≤ 8)
  | close =>
    exact buildRequest_returns h (Nat.lt_of_lt_of_le (by decide : 7 < 8) hsteps)
      (.trans (by decide : 4 ≤ 8) hsteps)
  | report temperatureAd7417 low high =>
    have hmembers : .object (members [(bytes "ad7417_temper", temperatureAd7417),
        (bytes "rf_cur_low", low), (bytes "rf_cur_high", high)]) =
        cut (Form.report temperatureAd7417 low high).tree := by
      cases temperatureAd7417 <;> cases low <;> cases high <;> rfl
    rw [← hmembers]
    exact addStrings_made h (Nat.lt_of_lt_of_le (by decide : 3 < 8) hsteps)

/-- Whichever allocations fail, the calls of a handler end without an access to
what is no item, and leave the children of every item linked both ways. If none
fails, the tree that the handler prints lies at `root`, what was allocated are
its blocks, and `cJSON_Delete` takes all of it away and frees each block once. -/
theorem Form.built (f : Form) (h : Forest m kids) {live : List Nat} (hl : m.store.heap.Live live)
    (hsteps : 8 ≤ steps) :
    Returns (f.build granted steps) m fun root m' => (∃ kids', Forest m' kids') ∧
      (Denied granted m.store m'.store ∨ ∃ x, Lies m'.node none root x ∧
        x.tree? = some (cut f.tree) ∧ m'.store.heap.Live (x.blocks ++ live) ∧
        ∀ passes, x.blocks.length ≤ passes → ∃ m'', (delete passes root).run m' = some ((), m'') ∧
          m''.store.heap.Live live ∧ ∀ q, m''.node q = if q ∈ selves x then none else m'.node q) := by
  refine (f.made h hsteps).imp fun root m' hmade => ?_
  obtain ⟨hforest, hdenied | ⟨x, hlies, htree, hturns⟩⟩ := hmade
  · exact ⟨hforest, .inl hdenied⟩
  have hlive := hturns.live live hl
  have honce : x.blocks.Nodup := by
    have hall := hlive.nodup_iff.mpr List.nodup_range
    exact (List.nodup_append.mp (List.nodup_append.mp hall).2.1).1
  refine ⟨hforest, .inr ⟨x, hlies, htree, hlive, fun passes hpasses => ?_⟩⟩
  have hsub := selves_sublist x
  refine ⟨_, delete_run hlies (honce.sublist hsub) (hsub.length_le.trans hpasses), ?_, fun q => rfl⟩
  exact (Blocks.turns_delete x m'.store).live live hlive

theorem forest_empty : Forest ⟨fun _ => none, ⟨.empty, 0⟩⟩ fun _ => [] := by
  refine ⟨?_, fun _ => rfl, fun _ => trivial, fun _ => .nil, ?_, ?_, fun _ => rfl⟩
  · rintro _ _ ⟨⟩
  · rintro _ _ _ ⟨⟩
  · rintro _ _ ⟨⟩

/-- A request from an empty memory, with every allocation granted. -/
theorem closeRequest_built : Returns (Form.close.build (fun _ => true) 8)
    ⟨fun _ => none, ⟨.empty, 0⟩⟩ fun root m' => (∃ kids', Forest m' kids') ∧
      (Denied (fun _ => true) ⟨.empty, 0⟩ m'.store ∨ ∃ x, Lies m'.node none root x ∧
        x.tree? = some (cut Form.close.tree) ∧ m'.store.heap.Live (x.blocks ++ []) ∧
        ∀ passes, x.blocks.length ≤ passes → ∃ m'', (delete passes root).run m' = some ((), m'') ∧
          m''.store.heap.Live [] ∧ ∀ q, m''.node q = if q ∈ selves x then none else m'.node q) :=
  Form.close.built forest_empty Heap.live_empty (Nat.le_refl 8)

end DevAdapter.CJson.Build

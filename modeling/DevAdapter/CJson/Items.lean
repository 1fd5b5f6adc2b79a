import DevAdapter.CJson.ParseBlocks
import DevAdapter.Lib.Returns
import Mathlib.Data.List.Nodup

/-!
# Items in memory

The items of `cJSON` with their pointers, and the functions that build a tree of
them, of which any allocation may fail. The children of every item are linked
both ways, and an item that is added becomes the last of them. The flags for
references and constant names are set by none of the functions and left out.
-/

namespace DevAdapter.CJson.Build

open Blocks (Block Kind Item Cell Content link stringBlocks)

-- ---------------------------------------------------------------------------
-- Items in memory
-- ---------------------------------------------------------------------------

/-- A `struct cJSON`; a number has its text in `type`. -/
structure Node where
  next : Option Nat
  prev : Option Nat
  child : Option Nat
  type : Kind
  valuestring : Option Block
  string : Option Block

/-- What the `memset` of `cJSON_New_Item` leaves. -/
def Node.zero : Node := ⟨none, none, none, .invalid, none, none⟩

/-- Which item lies at an address, and the allocator. -/
structure Memory where
  node : Nat → Option Node
  store : Store

/-- Code that stops at an access to no item, or when a loop takes more passes
than it may. -/
abbrev Use := StateT Memory Option

def load (p : Nat) : Use Node := fun m => (m.node p).map (·, m)

def change (p : Nat) (f : Node → Node) : Use Unit := fun m =>
  (m.node p).map fun n => ((), { m with node := Function.update m.node p (some (f n)) })

def deallocate (b : Nat) : Use Unit := fun m =>
  some ((), { m with store := m.store.deallocate b })

def deallocateItem (p : Nat) : Use Unit := fun m =>
  (m.node p).map fun _ => ((), ⟨Function.update m.node p none, m.store.deallocate p⟩)

def deallocateString : Option Block → Use Unit
  | none => pure ()
  | some block => deallocate block.number

/-- `cJSON_Delete`, `steps` items deep and long at most. -/
def delete : Nat → Option Nat → Use Unit
  | _, none => pure ()
  | 0, some _ => failure
  | steps + 1, some item => do
    let next := (← load item).next
    delete steps (← load item).child
    deallocateString (← load item).valuestring
    deallocateString (← load item).string
    deallocateItem item
    delete steps next

/-- The loop of `add_item_to_array`. -/
def lastItem : Nat → Nat → Use Nat
  | 0, _ => failure
  | steps + 1, child => do
    match (← load child).next with
    | some next => lastItem steps next
    | none => return child

def suffixObject (prev item : Nat) : Use Unit := do
  change prev fun n => { n with next := some item }
  change item fun n => { n with prev := some prev }

/-- `add_item_to_array`, of `steps` items at most. -/
def addItemToArray (steps : Nat) (array item : Option Nat) : Use Bool :=
  match item, array with
  | some item, some array => do
    match (← load array).child with
    | none => change array fun n => { n with child := some item }
    | some child => suffixObject (← lastItem steps child) item
    return true
  | _, _ => pure false

section

-- whether call `n` of `allocate` succeeds
variable (granted : Nat → Bool)

def allocate : Use (Option Nat) := fun m =>
  let (b, st) := m.store.allocate granted
  some (b, { m with store := st })

def newItem : Use (Option Nat) := do
  match ← allocate granted with
  | none => return none
  | some node =>
    modify fun m => { m with node := Function.update m.node node (some .zero) }
    return some node

def strdup (string : Option (List UInt8)) : Use (Option Block) :=
  match string with
  | none => pure none
  | some string => do
    match ← allocate granted with
    | none => return none
    | some copy => return some ⟨copy, cstr string⟩

/-- `cJSON_CreateArray` and `cJSON_CreateObject`. -/
def create (type : Kind) : Use (Option Nat) := do
  let item ← newItem granted
  if let some item := item then change item fun n => { n with type := type }
  return item

def createArray : Use (Option Nat) := create granted .array

def createObject : Use (Option Nat) := create granted .object

variable (steps : Nat)

def createString (string : Option (List UInt8)) : Use (Option Nat) := do
  match ← newItem granted with
  | none => return none
  | some item =>
    change item fun n => { n with type := .string }
    match ← strdup granted string with
    | none =>
      delete steps (some item)
      return none
    | some copy =>
      change item fun n => { n with valuestring := some copy }
      return some item

/-- `add_item_to_object` with a key that is not constant. -/
def addItemToObject (object : Option Nat) (string : Option (List UInt8)) (item : Option Nat) :
    Use Bool :=
  match object, string, item with
  | some object, some string, some item => do
    match ← strdup granted (some string) with
    | none => return false
    | some newKey =>
      deallocateString (← load item).string
      change item fun n => { n with string := some newKey }
      addItemToArray steps (some object) (some item)
  | _, _, _ => pure false

def addStringToObject (object : Option Nat) (name string : Option (List UInt8)) :
    Use (Option Nat) := do
  let stringItem ← createString granted steps string
  if ← addItemToObject granted steps object name stringItem then return stringItem
  delete steps stringItem
  return none

end

-- ---------------------------------------------------------------------------
-- Children linked both ways
-- ---------------------------------------------------------------------------

def Node.place (n : Node) : Option Nat × Option Nat := (n.prev, n.next)

def Node.label (n : Node) : Kind × Option Block × Option Block := (n.type, n.valuestring, n.string)

/-- The items follow each other, the first one behind `prev`. -/
def Linked (node : Nat → Option Node) : Option Nat → List Nat → Prop
  | _, [] => True
  | prev, p :: rest => (node p).map Node.place = some (prev, rest.head?) ∧ Linked node (some p) rest

variable {node node' : Nat → Option Node} {prev : Option Nat} {ps front : List Nat} {item last : Nat}

theorem Linked.congr (h : Linked node prev ps)
    (hsame : ∀ p ∈ ps, (node' p).map Node.place = (node p).map Node.place) :
    Linked node' prev ps := by
  induction ps generalizing prev with
  | nil => trivial
  | cons p rest ih =>
    obtain ⟨hp, hrest⟩ := h
    obtain ⟨hsamep, hsamerest⟩ := List.forall_mem_cons.mp hsame
    exact ⟨hsamep.trans hp, ih hrest hsamerest⟩

theorem Linked.known (h : Linked node prev ps) : ∀ p ∈ ps, node p ≠ none := by
  induction ps generalizing prev with
  | nil => exact fun p hp => absurd hp List.not_mem_nil
  | cons p rest ih =>
    obtain ⟨hp, hrest⟩ := h
    refine List.forall_mem_cons.mpr ⟨fun hnone => ?_, ih hrest⟩
    rw [hnone] at hp
    cases hp

theorem Linked.concat (h : Linked node prev (front ++ [last]))
    (hsame : ∀ p ∈ front, (node' p).map Node.place = (node p).map Node.place)
    (hlast : ∀ n, node last = some n → (node' last).map Node.place = some (n.prev, some item))
    (hitem : (node' item).map Node.place = some (some last, none)) :
    Linked node' prev (front ++ [last] ++ [item]) := by
  induction front generalizing prev with
  | nil =>
    obtain ⟨n, hn, hplace⟩ := Option.map_eq_some_iff.mp h.1
    obtain rfl : n.prev = prev := congrArg Prod.fst hplace
    exact ⟨hlast n hn, hitem, trivial⟩
  | cons p front ih =>
    obtain ⟨hp, hrest⟩ := h
    obtain ⟨hsamep, hsamefront⟩ := List.forall_mem_cons.mp hsame
    refine ⟨hsamep.trans (hp.trans ?_), ih hrest hsamefront⟩
    cases front <;> rfl

/-- `kids` are the children of every item: what `child` and `next` lead to, and
`prev` back. -/
structure Forest (m : Memory) (kids : Nat → List Nat) : Prop where
  child : ∀ {p n}, m.node p = some n → n.child = (kids p).head?
  childless : ∀ {p}, m.node p = none → kids p = []
  linked : ∀ p, Linked m.node none (kids p)
  once : ∀ p, (kids p).Nodup
  apart : ∀ {p q i}, i ∈ kids p → i ∈ kids q → p = q
  top : ∀ {p n}, m.node p = some n → (∀ q, p ∉ kids q) → n.place = (none, none)
  fresh : ∀ {p}, m.store.heap.allocated ≤ p → m.node p = none

def Memory.put (m : Memory) (p : Nat) (n : Option Node) : Memory :=
  { m with node := Function.update m.node p n }

variable {m m' : Memory} {kids : Nat → List Nat} {array p q : Nat} {n new : Node}

@[simp] theorem put_self (n : Option Node) : (m.put p n).node p = n := Function.update_self ..

theorem put_other (n : Option Node) (hq : q ≠ p) : (m.put p n).node q = m.node q :=
  Function.update_of_ne hq ..

theorem put_map {f : Node → β} (hp : m.node p = some n) (hf : f new = f n) (q : Nat) :
    ((m.put p (some new)).node q).map f = (m.node q).map f := by
  by_cases hq : q = p
  · subst hq
    rw [put_self, hp, Option.map_some, Option.map_some, hf]
  · rw [put_other _ hq]

theorem put_none_iff (hp : m.node p = some n) : (m.put p (some new)).node q = none ↔
    m.node q = none := by
  have hsame : ((m.put p (some new)).node q).map (fun _ => ()) = (m.node q).map fun _ => () :=
    put_map hp (show (fun _ : Node => ()) new = (fun _ => ()) n from rfl) q
  rw [← Option.map_eq_none_iff, hsame, Option.map_eq_none_iff]

theorem Forest.known (h : Forest m kids) (hq : q ∈ kids p) : m.node q ≠ none :=
  (h.linked p).known q hq

theorem Forest.alone (h : Forest m kids) (hp : m.node p = none) (q : Nat) : p ∉ kids q :=
  fun hmem => h.known hmem hp

/-- What the forest says of the nodes does not depend on what they are labelled with. -/
theorem Forest.relabel (h : Forest m kids) (hp : m.node p = some n) (hplace : new.place = n.place)
    (hchild : new.child = n.child) : Forest (m.put p (some new)) kids := by
  have hsame : ∀ q, ((m.put p (some new)).node q).map (fun n => (n.place, n.child)) =
      (m.node q).map fun n => (n.place, n.child) :=
    put_map hp (by rw [hplace, hchild])
  have hold : ∀ {q k}, (m.put p (some new)).node q = some k →
      ∃ k', m.node q = some k' ∧ k'.place = k.place ∧ k'.child = k.child := by
    intro q k hk
    have heq := hsame q
    rw [hk] at heq
    obtain ⟨k', hk', hpair⟩ := Option.map_eq_some_iff.mp heq.symm
    exact ⟨k', hk', congrArg Prod.fst hpair, congrArg Prod.snd hpair⟩
  refine ⟨fun hk => ?_, fun hk => h.childless ((put_none_iff hp).mp hk),
    fun q => (h.linked q).congr fun i _ => put_map hp hplace i, h.once, h.apart,
    fun hk hroot => ?_, fun hq => (put_none_iff hp).mpr (h.fresh hq)⟩
  · obtain ⟨k', hk', -, hkchild⟩ := hold hk
    exact hkchild.symm.trans (h.child hk')
  · obtain ⟨k', hk', hkplace, -⟩ := hold hk
    exact hkplace.symm.trans (h.top hk' hroot)

theorem Forest.later (h : Forest m kids) {st : Store}
    (hle : m.store.heap.allocated ≤ st.heap.allocated) : Forest { m with store := st } kids :=
  ⟨h.child, h.childless, h.linked, h.once, h.apart, h.top, fun hp => h.fresh (hle.trans hp)⟩

theorem Forest.insert (h : Forest m kids) (hp : m.node p = none) (hplace : n.place = (none, none))
    (hchild : n.child = none) {st : Store} (hle : m.store.heap.allocated ≤ st.heap.allocated)
    (hlt : p < st.heap.allocated) : Forest { m.put p (some n) with store := st } kids := by
  have hnew : (m.put p (some n)).node p = some n := put_self _
  have hold : ∀ {q}, q ≠ p → (m.put p (some n)).node q = m.node q := put_other _
  refine ⟨?_, ?_, fun q => (h.linked q).congr fun i hi => ?_, h.once, h.apart, ?_, ?_⟩
  · intro q k hk
    by_cases hq : q = p
    · subst hq
      obtain rfl : n = k := Option.some.inj (hnew.symm.trans hk)
      rw [hchild, h.childless hp]
      rfl
    · exact h.child ((hold hq).symm.trans hk)
  · intro q hnone
    by_cases hq : q = p
    · subst hq
      cases hnew.symm.trans hnone
    · exact h.childless ((hold hq).symm.trans hnone)
  · rw [hold fun heq => h.alone hp q (heq ▸ hi)]
  · intro q k hk hroot
    by_cases hq : q = p
    · subst hq
      obtain rfl : n = k := Option.some.inj (hnew.symm.trans hk)
      exact hplace
    · exact h.top ((hold hq).symm.trans hk) hroot
  · intro q hq
    exact (hold (Nat.ne_of_gt (Nat.lt_of_lt_of_le hlt hq))).trans (h.fresh (hle.trans hq))

theorem Forest.remove (h : Forest m kids) (hroot : ∀ q, p ∉ kids q) (hkids : kids p = []) :
    Forest (m.put p none) kids := by
  have hold : ∀ {q}, q ≠ p → (m.put p none).node q = m.node q := put_other _
  have hsome : ∀ {q k}, (m.put p none).node q = some k → m.node q = some k := by
    intro q k hk
    by_cases hq : q = p
    · subst hq
      cases (put_self none).symm.trans hk
    · exact (hold hq).symm.trans hk
  refine ⟨fun hk => h.child (hsome hk), ?_, fun q => (h.linked q).congr fun i hi => ?_, h.once,
    h.apart, fun hk => h.top (hsome hk), ?_⟩
  · intro q hnone
    by_cases hq : q = p
    · exact hq ▸ hkids
    · exact h.childless ((hold hq).symm.trans hnone)
  · rw [hold fun heq => hroot q (heq ▸ hi)]
  · intro q hq
    by_cases heq : q = p
    · subst heq
      exact put_self none
    · exact (hold heq).trans (h.fresh hq)

theorem Forest.graft (h : Forest m kids) (hroot : ∀ q, item ∉ kids q)
    (hlinked : Linked m'.node none (kids array ++ [item]))
    (hhead : ∀ n, m'.node array = some n → n.child = (kids array ++ [item]).head?)
    (hplace : ∀ p, p ∉ kids array ++ [item] → (m'.node p).map Node.place = (m.node p).map Node.place)
    (hchild : ∀ p, p ≠ array → (m'.node p).map Node.child = (m.node p).map Node.child)
    (hnone : ∀ p, m'.node p = none ↔ m.node p = none) (harray : m.node array ≠ none)
    (hstore : m'.store = m.store) :
    Forest m' (Function.update kids array (kids array ++ [item])) := by
  have hself : Function.update kids array (kids array ++ [item]) array = kids array ++ [item] :=
    Function.update_self ..
  have hother : ∀ {p}, p ≠ array →
      Function.update kids array (kids array ++ [item]) p = kids p := fun hp =>
    Function.update_of_ne hp ..
  have happart : ∀ {p i}, p ≠ array → i ∈ kids array ++ [item] → i ∉ kids p := by
    intro p i hp hi hmem
    rcases List.mem_append.mp hi with hi | hi
    · exact hp (h.apart hmem hi)
    · exact hroot p (List.mem_singleton.mp hi ▸ hmem)
  refine ⟨?_, ?_, ?_, ?_, ?_, ?_, ?_⟩
  · intro p n hn
    by_cases hp : p = array
    · subst hp
      rw [hself]
      exact hhead n hn
    · have hsame := hchild p hp
      rw [hn] at hsame
      obtain ⟨k, hk, heq⟩ := Option.map_eq_some_iff.mp hsame.symm
      rw [hother hp, ← h.child hk, heq]
  · intro p hp
    have hne : p ≠ array := fun heq => harray (heq ▸ (hnone p).mp hp)
    rw [hother hne]
    exact h.childless ((hnone p).mp hp)
  · intro p
    by_cases hp : p = array
    · subst hp
      rwa [hself]
    · rw [hother hp]
      exact (h.linked p).congr fun i hi => hplace i fun hmem => happart hp hmem hi
  · intro p
    by_cases hp : p = array
    · subst hp
      rw [hself]
      exact List.nodup_append.mpr ⟨h.once p, List.nodup_singleton _, fun i hi j hj heq =>
        hroot p (List.mem_singleton.mp hj ▸ heq ▸ hi)⟩
    · rw [hother hp]
      exact h.once p
  · intro p q i hi hj
    by_cases hp : p = array
    · by_cases hq : q = array
      · exact hp.trans hq.symm
      · subst hp
        rw [hself] at hi
        rw [hother hq] at hj
        exact absurd hj (happart hq hi)
    · rw [hother hp] at hi
      by_cases hq : q = array
      · subst hq
        rw [hself] at hj
        exact absurd hi (happart hp hj)
      · rw [hother hq] at hj
        exact h.apart hi hj
  · intro p n hn hp
    have hnot : p ∉ kids array ++ [item] := hself ▸ hp array
    have hsame := hplace p hnot
    rw [hn] at hsame
    obtain ⟨k, hk, heq⟩ := Option.map_eq_some_iff.mp hsame.symm
    refine heq.symm.trans (h.top hk fun q hmem => ?_)
    by_cases hq : q = array
    · subst hq
      exact hnot (List.mem_append_left _ hmem)
    · exact hp q ((hother hq).symm ▸ hmem)
  · intro p hp
    rw [hstore] at hp
    exact (hnone p).mpr (h.fresh hp)

-- ---------------------------------------------------------------------------
-- Appending a child
-- ---------------------------------------------------------------------------

variable {steps : Nat} {child : Nat} {α : Type} {post : α → Memory → Prop}

theorem load_run (hp : m.node p = some n) : (load p).run m = some (n, m) := by
  simp [StateT.run, load, hp]

theorem change_run (hp : m.node p = some n) (f : Node → Node) :
    (change p f).run m = some ((), m.put p (some (f n))) := by
  simp [StateT.run, change, hp, Memory.put]

theorem lastItem_run (h : Linked m.node prev (front ++ [last])) (hsteps : front.length < steps)
    (hchild : (front ++ [last]).head? = some child) :
    (lastItem steps child).run m = some (last, m) := by
  induction front generalizing prev steps child with
  | nil =>
    obtain ⟨steps, rfl⟩ := Nat.exists_eq_succ_of_ne_zero (Nat.ne_of_gt hsteps)
    obtain rfl : last = child := Option.some.inj hchild
    obtain ⟨n, hn, hplace⟩ := Option.map_eq_some_iff.mp h.1
    have hnext : n.next = none := congrArg Prod.snd hplace
    rw [lastItem, StateT.run_bind, load_run hn]
    simp [hnext]
  | cons p front ih =>
    obtain ⟨steps, rfl⟩ := Nat.exists_eq_succ_of_ne_zero (Nat.ne_of_gt (Nat.zero_lt_of_lt hsteps))
    obtain rfl : p = child := Option.some.inj hchild
    obtain ⟨n, hn, hplace⟩ := Option.map_eq_some_iff.mp h.1
    have hnext : n.next = (front ++ [last]).head? := congrArg Prod.snd hplace
    obtain ⟨next, hhead⟩ : ∃ next, (front ++ [last]).head? = some next := by
      cases front <;> exact ⟨_, rfl⟩
    rw [lastItem, StateT.run_bind, load_run hn]
    simp only [hnext, hhead, Option.bind_eq_bind, Option.bind_some]
    exact ih h.2 (Nat.lt_of_succ_lt_succ hsteps) hhead

variable {a : Node}

theorem first_added (h : Forest m kids) (ha : m.node array = some a) (hn : m.node item = some n)
    (hroot : ∀ q, item ∉ kids q) (hkids : kids array = []) :
    Forest (m.put array (some { a with child := some item }))
      (Function.update kids array (kids array ++ [item])) := by
  have hplace : ∀ p, ((m.put array (some { a with child := some item })).node p).map Node.place =
      (m.node p).map Node.place := put_map ha rfl
  refine h.graft hroot ?_ ?_ (fun p _ => hplace p) (fun p hp => by rw [put_other _ hp])
    (fun p => put_none_iff ha) (by simp [ha]) rfl
  · rw [hkids]
    refine ⟨(hplace item).trans ?_, trivial⟩
    rw [hn, Option.map_some, h.top hn hroot]
    rfl
  · intro k hk
    obtain rfl := Option.some.inj ((put_self _).symm.trans hk)
    rw [hkids]
    rfl

theorem suffix_added {l : Node} (h : Forest m kids) (ha : m.node array = some a)
    (hn : m.node item = some n) (hroot : ∀ q, item ∉ kids q)
    (hkids : kids array = front ++ [last]) (hl : m.node last = some l) :
    ∃ m', (suffixObject last item).run m = some ((), m') ∧
      Forest m' (Function.update kids array (kids array ++ [item])) ∧ m'.store = m.store ∧
      ∀ p, (m'.node p).map Node.label = (m.node p).map Node.label := by
  have hlinked : Linked m.node none (front ++ [last]) := hkids ▸ h.linked array
  have hlast : last ∈ kids array := hkids ▸ List.mem_append_right _ (List.mem_singleton_self _)
  have hfront : last ∉ front := by
    have honce := h.once array
    rw [hkids, List.nodup_append] at honce
    exact fun hmem => honce.2.2 last hmem last (List.mem_singleton_self _) rfl
  have hne : item ≠ last := fun heq => hroot array (heq ▸ hlast)
  let m₁ := m.put last (some { l with next := some item })
  let m₂ := m₁.put item (some { n with prev := some last })
  have hn₁ : m₁.node item = some n := (put_other _ hne).trans hn
  have hmap : ∀ {β : Type} {f : Node → β}, f { l with next := some item } = f l →
      f { n with prev := some last } = f n → ∀ q, (m₂.node q).map f = (m.node q).map f :=
    fun hfl hfn q => (put_map hn₁ hfn q).trans (put_map hl hfl q)
  have hother : ∀ q, q ≠ last → q ≠ item → m₂.node q = m.node q := fun q hq hq' =>
    (put_other _ hq').trans (put_other _ hq)
  refine ⟨m₂, ?_, ?_, rfl, hmap rfl rfl⟩
  · rw [suffixObject, StateT.run_bind, change_run hl]
    exact change_run hn₁ _
  refine h.graft hroot ?_ ?_ ?_ (fun p _ => hmap rfl rfl p) (fun p => ?_) (by simp [ha]) rfl
  · rw [hkids]
    refine hlinked.concat (fun p hp => ?_) (fun k hk => ?_) ?_
    · have hmem : p ∈ kids array := hkids ▸ List.mem_append_left _ hp
      rw [hother p (fun heq => hfront (heq ▸ hp)) fun heq => hroot array (heq ▸ hmem)]
    · obtain rfl := Option.some.inj (hl.symm.trans hk)
      rw [put_other _ hne.symm, put_self]
      rfl
    · rw [put_self, Option.map_some]
      have hnext : n.next = none := congrArg Prod.snd (h.top hn hroot)
      rw [← hnext]
      rfl
  · intro k hk
    have hkept := hmap (f := Node.child) rfl rfl array
    rw [hk, ha, Option.map_some, Option.map_some] at hkept
    rw [Option.some.inj hkept, h.child ha, hkids]
    cases front <;> rfl
  · intro p hp
    rw [hother p (fun heq => hp (List.mem_append_left _ (heq ▸ hlast)))
      fun heq => hp (List.mem_append_right _ (heq ▸ List.mem_singleton_self _))]
  · rw [put_none_iff hn₁, put_none_iff hl]

theorem addItemToArray_returns (h : Forest m kids) (harray : m.node array ≠ none)
    (hitem : m.node item ≠ none) (hroot : ∀ q, item ∉ kids q)
    (hsteps : (kids array).length ≤ steps) :
    Returns (addItemToArray steps (some array) (some item)) m fun added m' => added = true ∧
      Forest m' (Function.update kids array (kids array ++ [item])) ∧ m'.store = m.store ∧
      ∀ p, (m'.node p).map Node.label = (m.node p).map Node.label := by
  obtain ⟨a, ha⟩ := Option.ne_none_iff_exists'.mp harray
  obtain ⟨n, hn⟩ := Option.ne_none_iff_exists'.mp hitem
  have hchild := h.child ha
  simp only [addItemToArray]
  refine .step (load_run ha) ?_
  rcases List.eq_nil_or_concat (kids array) with hkids | ⟨front, last, hkids⟩
  · have hadded := first_added h ha hn hroot hkids
    rw [hkids] at hchild
    rw [hchild]
    exact .step (change_run ha _) (.ret ⟨rfl, hadded, rfl, put_map ha rfl⟩)
  · rw [List.concat_eq_append] at hkids
    have hlast : last ∈ kids array := hkids ▸ List.mem_append_right _ (List.mem_singleton_self _)
    obtain ⟨l, hl⟩ := Option.ne_none_iff_exists'.mp (h.known hlast)
    obtain ⟨c, hc⟩ : ∃ c, (front ++ [last]).head? = some c := by
      cases front <;> exact ⟨_, rfl⟩
    have hlt : front.length < steps := by
      rw [hkids, List.length_append] at hsteps
      exact hsteps
    obtain ⟨m', hsuffix, hadded⟩ := suffix_added h ha hn hroot hkids hl
    rw [hkids, hc] at hchild
    rw [hchild]
    exact .step (lastItem_run (hkids ▸ h.linked array) hlt hc) (.step hsuffix (.ret ⟨rfl, hadded⟩))

end DevAdapter.CJson.Build

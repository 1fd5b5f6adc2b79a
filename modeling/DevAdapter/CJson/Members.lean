import DevAdapter.CJson.Items

/-!
# Adding members

What `cJSON_CreateObject`, `cJSON_CreateString`, `cJSON_AddItemToObject` and
`cJSON_AddStringToObject` leave when any allocation may fail: the item they were
called for, or every item as it was and nothing allocated.
-/

namespace DevAdapter.CJson.Build

open Blocks (Block Kind Item Cell Content link stringBlocks)

variable {node : Nat → Option Node} {item : Nat} {m m' : Memory} {kids : Nat → List Nat} {p q : Nat}
  {n : Node} {steps : Nat}

-- ---------------------------------------------------------------------------
-- Making an item
-- ---------------------------------------------------------------------------

open Store (Turns Denied allocation turns_deallocate)

variable {granted : Nat → Bool} {string : Option (List UInt8)} {b : Option Nat} {st : Store}

/-- A call of the allocator; a block that it gives is no item yet. -/
inductive Allocated (granted : Nat → Bool) (m : Memory) (kids : Nat → List Nat) :
    Option Nat → Memory → Prop
  | denied {st : Store} (forest : Forest { m with store := st } kids) (turns : Turns [] [] m.store st)
    (why : Denied granted m.store st) : Allocated granted m kids none { m with store := st }
  | given {st : Store} {p : Nat} (fresh : m.node p = none) (bound : p < st.heap.allocated)
    (forest : Forest { m with store := st } kids) (turns : Turns [] [p] m.store st) :
    Allocated granted m kids (some p) { m with store := st }

theorem allocate_returns (h : Forest m kids) :
    Returns (allocate granted) m (Allocated granted m kids) := by
  have hall := allocation granted m.store
  refine ⟨(m.store.allocate granted).1, { m with store := (m.store.allocate granted).2 }, rfl, ?_⟩
  cases hgranted : granted m.store.calls with
  | true =>
    have hcall : m.store.allocate granted =
        (some m.store.heap.allocated, ⟨m.store.heap.malloc 1, m.store.calls + 1⟩) := if_pos hgranted
    rw [hcall] at hall ⊢
    cases hall with
    | given turns =>
      exact .given (h.fresh (Nat.le_refl _)) (Nat.lt_succ_self _) (h.later (Nat.le_succ _)) turns
  | false =>
    have hcall : m.store.allocate granted = (none, { m.store with calls := m.store.calls + 1 }) :=
      if_neg (by simp [hgranted])
    rw [hcall] at hall ⊢
    cases hall with
    | denied turns why => exact .denied (h.later (Nat.le_refl _)) turns why

/-- An item of which only `type` and `valuestring` are set, with its blocks, or
nothing is allocated. -/
inductive Created (granted : Nat → Bool) (m : Memory) (kids : Nat → List Nat) (why : Prop)
    (type : Kind) (text : Option Block) : Option Nat → Memory → Prop
  | denied {m' : Memory} (node : m'.node = m.node) (forest : Forest m' kids)
    (turns : Turns [] [] m.store m'.store) (reason : why ∨ Denied granted m.store m'.store) :
    Created granted m kids why type text none m'
  | given {m' : Memory} {p : Nat} (fresh : m.node p = none)
    (node : m'.node = Function.update m.node p (some ⟨none, none, none, type, text, none⟩))
    (forest : Forest m' kids) (turns : Turns [] (stringBlocks text ++ [p]) m.store m'.store) :
    Created granted m kids why type text (some p) m'

theorem newItem_returns (h : Forest m kids) :
    Returns (newItem granted) m (Created granted m kids False .invalid none) := by
  refine .bind (allocate_returns h) fun b m' hb => ?_
  cases hb with
  | denied forest turns why => exact .ret (.denied rfl forest turns (.inr why))
  | given fresh bound forest turns =>
    refine .step rfl (.ret (.given fresh rfl ?_ turns))
    exact forest.insert fresh rfl rfl (Nat.le_refl _) bound

theorem create_returns (h : Forest m kids) (type : Kind) :
    Returns (create granted type) m (Created granted m kids False type none) := by
  refine .bind (newItem_returns h) fun b m' hb => ?_
  cases hb with
  | denied node forest turns reason => exact .ret (.denied node forest turns reason)
  | @given m' p fresh node forest turns =>
    have hp : m'.node p = some Node.zero := by
      rw [node]
      exact Function.update_self ..
    refine .step (change_run hp _) (.ret (.given fresh ?_ (forest.relabel hp rfl rfl) turns))
    rw [Memory.put, node]
    exact Function.update_idem ..

/-- The copy of a string; `name` and `NULL` have none. -/
inductive Copied (granted : Nat → Bool) (m : Memory) (kids : Nat → List Nat)
    (string : Option (List UInt8)) : Option Block → Memory → Prop
  | none {st : Store} (forest : Forest { m with store := st } kids) (turns : Turns [] [] m.store st)
    (why : string = none ∨ Denied granted m.store st) :
    Copied granted m kids string none { m with store := st }
  | copy {st : Store} {s : List UInt8} {copy : Nat} (given : string = some s)
    (forest : Forest { m with store := st } kids) (turns : Turns [] [copy] m.store st) :
    Copied granted m kids string (some ⟨copy, cstr s⟩) { m with store := st }

theorem strdup_returns (h : Forest m kids) (string : Option (List UInt8)) :
    Returns (strdup granted string) m (Copied granted m kids string) := by
  cases string with
  | none => exact .ret (.none h (.refl _ _) (.inl rfl))
  | some s =>
    refine .bind (allocate_returns h) fun b m' hb => ?_
    cases hb with
    | denied forest turns why => exact .ret (.none forest turns (.inr why))
    | given fresh bound forest turns => exact .ret (.copy rfl forest turns)

theorem delete_leaf (hp : m.node p = some n) (hchild : n.child = none) (hnext : n.next = none)
    (hsteps : 0 < steps) : ∃ st, (delete steps (some p)).run m = some ((), ⟨(m.put p none).node, st⟩) ∧
      st.heap.allocated = m.store.heap.allocated ∧
      Turns (stringBlocks n.valuestring ++ (stringBlocks n.string ++ [p])) [] m.store st := by
  obtain ⟨steps, rfl⟩ := Nat.exists_eq_succ_of_ne_zero (Nat.ne_of_gt hsteps)
  have hdealloc : ∀ (text : Option Block) (m : Memory), (deallocateString text).run m =
      some ((), { m with store := Blocks.deallocateString text m.store }) := by
    intro text m
    cases text <;> rfl
  have halloc : ∀ (text : Option Block) (st : Store),
      (Blocks.deallocateString text st).heap.allocated = st.heap.allocated := by
    intro text st
    cases text <;> rfl
  let st := Blocks.deallocateString n.string (Blocks.deallocateString n.valuestring m.store)
  refine ⟨st.deallocate p, ?_, ?_, Blocks.turns_delete (.node p .null .null n.type n.valuestring n.string) _⟩
  · have hfree : (deallocateItem p).run { m with store := st } =
        some ((), ⟨(m.put p none).node, st.deallocate p⟩) := by
      simp [StateT.run, deallocateItem, hp, Memory.put]
    have hload : ∀ st, (load p).run { m with store := st } = some (n, { m with store := st }) :=
      fun st => load_run (m := { m with store := st }) hp
    have hload₀ := load_run hp
    simp only [delete, StateT.run_bind, StateT.run_pure, hload₀, hload, hchild, hnext, hdealloc,
      Option.bind_eq_bind, Option.bind_some, Option.pure_def]
    exact congrArg (Option.bind · _) hfree
  · exact (halloc _ _).trans (halloc _ _)

theorem createString_returns (h : Forest m kids) (hsteps : 0 < steps)
    (string : Option (List UInt8)) :
    Returns (createString granted steps string) m fun r m' => ∃ text,
      Created granted m kids (string = none) .string text r m' ∧
      (r ≠ none → ∃ s b, string = some s ∧ text = some ⟨b, cstr s⟩) := by
  refine .bind (newItem_returns h) fun r m₁ hr => ?_
  cases hr with
  | denied node forest turns reason =>
    exact .ret ⟨none, .denied node forest turns (.inr (reason.resolve_left id)),
      fun hr => absurd rfl hr⟩
  | @given m₁ p fresh node forest turns =>
    have hp : m₁.node p = some Node.zero := by
      rw [node]
      exact Function.update_self ..
    let item : Node := { Node.zero with type := .string }
    have hput : ∀ n, ((m₁.put p (some item)).put p n).node = Function.update m.node p n := by
      intro n
      simp only [Memory.put, node, Function.update_idem]
    have hp₂ : (m₁.put p (some item)).node p = some item := put_self _
    have hforest : Forest (m₁.put p (some item)) kids := forest.relabel hp rfl rfl
    refine .step (change_run hp _) ?_
    refine .bind (strdup_returns hforest string) fun copy m₂ hcopy => ?_
    cases hcopy with
    | @none st forest₂ turns₂ why =>
      obtain ⟨st', hrun, halloc, hturns⟩ :=
        delete_leaf (m := { m₁.put p (some item) with store := st }) hp₂ rfl rfl hsteps
      refine .step hrun (.ret ⟨none, .denied ?_ ?_ ?_ ?_, fun hr => absurd rfl hr⟩)
      · refine (hput none).trans ?_
        rw [← fresh]
        exact Function.update_eq_self ..
      · exact (forest₂.remove (h.alone fresh) (h.childless fresh)).later (Nat.le_of_eq halloc.symm)
      · exact turns.trans ((turns₂.frame_left [p]).trans hturns)
      · exact why.imp_right fun hdenied => (hdenied.earlier turns.calls).later hturns.calls
    | @copy st s copy given forest₂ turns₂ =>
      have hp₃ : ({ m₁.put p (some item) with store := st } : Memory).node p = some item := hp₂
      refine .step (change_run hp₃ _) (.ret ⟨some ⟨copy, cstr s⟩, .given fresh ?_
        (forest₂.relabel hp₃ rfl rfl) ?_, fun _ => ⟨s, copy, given, rfl⟩⟩)
      · exact hput (some { item with valuestring := some ⟨copy, cstr s⟩ })
      · exact (turns.trans (turns₂.frame_left [p])).perm List.perm_append_comm

-- ---------------------------------------------------------------------------
-- Adding a member
-- ---------------------------------------------------------------------------

/-- The item is a child under a copy of the name, or nothing is allocated. -/
inductive Joined (granted : Nat → Bool) (m : Memory) (kids : Nat → List Nat) (p i : Nat)
    (name : List UInt8) : Bool → Memory → Prop
  | kept {st : Store} (forest : Forest { m with store := st } kids) (turns : Turns [] [] m.store st)
    (why : Denied granted m.store st) : Joined granted m kids p i name false { m with store := st }
  | joined {m' : Memory} {key : Block} (named : key.text = cstr name)
    (forest : Forest m' (Function.update kids p (kids p ++ [i])))
    (label : ∀ q, (m'.node q).map Node.label = if q = i then
      (m.node i).map fun n => (n.type, n.valuestring, some key) else (m.node q).map Node.label)
    (turns : Turns [] [key.number] m.store m'.store) : Joined granted m kids p i name true m'

theorem addItemToObject_returns (h : Forest m kids) (hp : m.node p ≠ none)
    (hitem : m.node item = some n) (hstring : n.string = none) (hroot : ∀ q, item ∉ kids q)
    (hsteps : (kids p).length ≤ steps) (name : List UInt8) :
    Returns (addItemToObject granted steps (some p) (some name) (some item)) m
      (Joined granted m kids p item name) := by
  refine .bind (strdup_returns h (some name)) fun copy m₁ hcopy => ?_
  cases hcopy with
  | none forest turns why => exact .ret (.kept forest turns (why.resolve_left (Option.some_ne_none name)))
  | @copy st s copy given forest turns =>
    obtain rfl : name = s := Option.some.inj given
    have hitem₁ : ({ m with store := st } : Memory).node item = some n := hitem
    let new : Node := { n with string := some ⟨copy, cstr name⟩ }
    refine .step (load_run hitem₁) ?_
    rw [hstring]
    refine .step rfl (.step (change_run hitem₁ _) ?_)
    have hp₂ : (Memory.put { m with store := st } item (some new)).node p ≠ none :=
      mt (put_none_iff hitem₁).mp hp
    have hforest : Forest (Memory.put { m with store := st } item (some new)) kids :=
      forest.relabel hitem₁ rfl rfl
    refine (addItemToArray_returns hforest hp₂ (by simp) hroot hsteps).imp ?_
    rintro added m' ⟨rfl, hforest, hstore, hlabel⟩
    have hnamed : (⟨copy, cstr name⟩ : Block).text = cstr name := rfl
    refine .joined hnamed hforest (fun q => (hlabel q).trans ?_) ?_
    · split
      · rename_i hq
        rw [hq, put_self, hitem]
        rfl
      · rename_i hq
        rw [put_other _ hq]
    · rw [hstore]
      exact turns

def stringCell (i : Nat) (text key : Block) : Cell := ⟨i, ⟨.string, .null, some text⟩, some key⟩

/-- A string is the last member, or nothing is allocated and every item stays. -/
inductive Added (granted : Nat → Bool) (m : Memory) (kids : Nat → List Nat) (object : Option Nat)
    (name : List UInt8) (string : Option (List UInt8)) : Option Nat → Memory → Prop
  | kept {m' : Memory} (node : m'.node = m.node) (forest : Forest m' kids)
    (turns : Turns [] [] m.store m'.store)
    (why : object = none ∨ string = none ∨ Denied granted m.store m'.store) :
    Added granted m kids object name string none m'
  | added {m' : Memory} {p i : Nat} {s : List UInt8} {text key : Block} (into : object = some p)
    (given : string = some s) (copied : text.text = cstr s) (named : key.text = cstr name)
    (fresh : m.node i = none) (forest : Forest m' (Function.update kids p (kids p ++ [i])))
    (label : ∀ q, (m'.node q).map Node.label =
      if q = i then some (.string, some text, some key) else (m.node q).map Node.label)
    (turns : Turns [] (stringCell i text key).blocks m.store m'.store) :
    Added granted m kids object name string (some i) m'

theorem addStringToObject_returns (h : Forest m kids) {object : Option Nat}
    (hobject : ∀ p, object = some p → m.node p ≠ none ∧ (kids p).length ≤ steps)
    (hsteps : 0 < steps) (name : List UInt8) (string : Option (List UInt8)) :
    Returns (addStringToObject granted steps object (some name) string) m
      (Added granted m kids object name string) := by
  refine .bind (createString_returns h hsteps string) fun r m₁ hr => ?_
  obtain ⟨text, hmade, htext⟩ := hr
  cases hmade with
  | denied node forest turns reason =>
    have hnone : (addItemToObject granted steps object (some name) none).run m₁ =
        some (false, m₁) := by
      cases object <;> rfl
    have hdelete : (delete steps none).run m₁ = some ((), m₁) := by
      cases steps <;> rfl
    exact .step hnone (.step hdelete (.ret (.kept node forest turns (.inr reason))))
  | @given m₁ i fresh node forest turns =>
    obtain ⟨s, b, hs, rfl⟩ := htext (Option.some_ne_none i)
    have hi : m₁.node i = some ⟨none, none, none, .string, some ⟨b, cstr s⟩, none⟩ := by
      rw [node]
      exact Function.update_self ..
    have hother : ∀ {q}, q ≠ i → m₁.node q = m.node q := by
      intro q hq
      rw [node]
      exact Function.update_of_ne hq ..
    -- what is left of the item when it could not be added
    have hback : ∀ {st : Store}, Forest { m₁ with store := st } kids →
        Turns [] [] m₁.store st → (object = none ∨ Denied granted m₁.store st) →
        Returns (do delete steps (some i); return none) { m₁ with store := st }
          (Added granted m kids object name string) := by
      intro st hforest hturns hwhy
      obtain ⟨st', hrun, halloc, hfreed⟩ :=
        delete_leaf (m := { m₁ with store := st }) hi rfl rfl hsteps
      refine .step hrun (.ret (.kept ?_ ?_ ?_ ?_))
      · show Function.update m₁.node i none = m.node
        rw [node, Function.update_idem, ← fresh]
        exact Function.update_eq_self ..
      · exact (hforest.remove (h.alone fresh) (h.childless fresh)).later (Nat.le_of_eq halloc.symm)
      · exact turns.trans ((hturns.frame_left [b, i]).trans hfreed)
      · exact hwhy.imp_right fun hdenied =>
          .inr ((hdenied.earlier turns.calls).later hfreed.calls)
    cases object with
    | none => exact .step rfl (hback forest (.refl _ _) (.inl rfl))
    | some p =>
      obtain ⟨hp, hlen⟩ := hobject p rfl
      have hpi : p ≠ i := fun heq => hp (heq ▸ fresh)
      refine .bind (addItemToObject_returns forest (by rwa [hother hpi]) hi rfl (h.alone fresh) hlen
        name) fun added m₂ hadded => ?_
      cases hadded with
      | kept forest₂ turns₂ why => exact hback forest₂ turns₂ (.inr why)
      | @joined m₂ key named forest₂ label turns₂ =>
        let text : Block := ⟨b, cstr s⟩
        have hcopied : text.text = cstr s := rfl
        refine .ret (.added rfl hs hcopied named fresh forest₂ (fun q => (label q).trans ?_) ?_)
        · split
          · rw [hi]
            rfl
          · rename_i hq
            rw [hother hq]
        · exact (turns.trans (turns₂.frame_left [b, i])).perm (.cons b (.swap key.number i []))

end DevAdapter.CJson.Build

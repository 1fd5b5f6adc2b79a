import DevAdapter.Lib.CString
import DevAdapter.MsgQueue

/-!
# The client id

`client_id_generate` prints the id into the `MOSQ_MQTT_ID_MAX_LENGTH + 1` bytes
of `id` with a bound that it takes from the lengths of the name and the host,
then cuts what stands there at `MOSQ_MQTT_ID_MAX_LENGTH` characters.
-/

namespace DevAdapter.Broker

open Function (update)
open OffsetMemory CString
open Word32 (wrap32)

/-- `MOSQ_MQTT_ID_MAX_LENGTH`, as `mosquitto.h` has it. -/
def mosqMqttIdMaxLength : Nat := 23

/-- The memory from `id` on, with the stores made to it: an offset and a number
of bytes. -/
structure IdBuf where
  mem : Mem Char
  stores : List (Int × Nat)

namespace IdBuf

def snprintf (b : IdBuf) (size : Nat) (text : List Char) : IdBuf :=
  if size = 0 then b
  else
    let printed := text.take (size - 1) ++ ['\x00']
    { mem := b.mem.write 0 printed, stores := b.stores ++ [(0, printed.length)] }

def put (b : IdBuf) (off : Int) (c : Char) : IdBuf where
  mem := update b.mem off c
  stores := b.stores ++ [(off, 1)]

def enforceMaximum (b : IdBuf) (strlen : Nat) : IdBuf :=
  if strlen > mosqMqttIdMaxLength then b.put mosqMqttIdMaxLength '\x00' else b

/-- The print and the cut; `strlen` looks for a NUL in the next `fuel` bytes. -/
def printId (fuel size : Nat) (text : List Char) (id : Mem Char) : Option IdBuf :=
  let brk := IdBuf.snprintf ⟨id, []⟩ size text
  (cstring fuel brk.mem 0).map fun printed => brk.enforceMaximum printed.length

def Inside (b : IdBuf) : Prop :=
  ∀ st ∈ b.stores, 0 ≤ st.1 ∧ st.1 + st.2 ≤ mosqMqttIdMaxLength + 1

end IdBuf

/-- What `gethostname` and the NUL in the last byte leave of the host's name. -/
def hostname (name : List Char) : List Char := name.take 255

def clientId (idBase : List Char) (pid : Nat) (hostname : List Char) : List Char :=
  idBase ++ '|' :: (Nat.toDigits 10 pid ++ '-' :: hostname)

/-- `len`, whose conversion is the size that `snprintf` gets. -/
def clientIdLen (idBase hostname : List Char) : Int :=
  wrap32 (idBase.length + 2 + 6 + hostname.length)

def clientIdGenerate (fuel : Nat) (idBase : List Char) (pid : Nat) (name : List Char)
    (id : Mem Char) : Option IdBuf :=
  let hostname := hostname name
  let len := clientIdLen idBase hostname
  IdBuf.printId fuel (sizeT len) (clientId idBase pid hostname) id

/-- From whatever memory, `generate` stores the longest prefix of `text` that fits,
and nothing outside the array. -/
def StoresPrefix (generate : Mem Char → Option IdBuf) (text : List Char) : Prop :=
  ∀ id, ∃ brk, generate id = some brk ∧
    Holds brk.mem 0 (text.take mosqMqttIdMaxLength) ∧ brk.Inside

/-- A print with this size lets as much of a text through as the array takes, and
no more. -/
def Lets (size length : Nat) : Prop :=
  size ≠ 0 ∧ min (size - 1) length ≤ mosqMqttIdMaxLength ∧
    min (min mosqMqttIdMaxLength (size - 1)) length = min mosqMqttIdMaxLength length

instance (size length : Nat) : Decidable (Lets size length) := inferInstanceAs (Decidable (_ ∧ _))

variable {fuel pid size : Nat} {idBase name text : List Char} {id : Mem Char}

-- ---------------------------------------------------------------------------
-- What a print and the cut leave
-- ---------------------------------------------------------------------------

theorem IdBuf.snprintf_holds (b : IdBuf) (hnul : '\x00' ∉ text) (hsize : size ≠ 0) :
    Holds (b.snprintf size text).mem 0 (text.take (size - 1)) ∧
      (b.snprintf size text).stores = b.stores ++ [(0, (text.take (size - 1)).length + 1)] := by
  rw [snprintf, if_neg hsize]
  refine ⟨Holds.write b.mem 0 fun hmem => hnul (List.mem_of_mem_take hmem), ?_⟩
  simp only [List.length_append, List.length_singleton]

theorem holds_cut {m : Mem Char} (h : Holds m 0 text) (hlong : k < text.length) :
    Holds (update m k '\x00') 0 (text.take k) := by
  have hsplit : text.take k ++ text[k] :: text.drop (k + 1) = text := by
    rw [← List.drop_eq_getElem_cons hlong, List.take_append_drop]
  have hk : (0 : Int) + (text.take k).length = k := by
    rw [List.length_take_of_le (Nat.le_of_lt hlong)]
    exact Int.zero_add _
  rw [← hsplit] at h
  rw [← hk]
  exact h.cut

theorem IdBuf.enforceMaximum_holds {b : IdBuf} (h : Holds b.mem 0 text) :
    Holds (b.enforceMaximum text.length).mem 0 (text.take mosqMqttIdMaxLength) := by
  rw [enforceMaximum]
  split
  · exact holds_cut h ‹_›
  · rwa [List.take_of_length_le (Nat.not_lt.mp ‹_›)]

theorem IdBuf.enforceMaximum_inside (b : IdBuf) (strlen : Nat) :
    (b.enforceMaximum strlen).Inside ↔ b.Inside := by
  rw [enforceMaximum]
  split
  · simp only [Inside, put, List.forall_mem_append, List.forall_mem_singleton]
    exact and_iff_left (by decide)
  · exact Iff.rfl

theorem clientId_length : (clientId idBase pid name).length =
    idBase.length + (Nat.toDigits 10 pid).length + name.length + 2 := by
  simp only [clientId, List.length_append, List.length_cons]
  omega

theorem hostname_of_le (h : name.length ≤ 255) : hostname name = name :=
  List.take_of_length_le h

theorem sizeT_clientIdLen :
    sizeT (clientIdLen idBase name) = (idBase.length + name.length + 8) % 2 ^ 32 := by
  have hmod : wrap32 (idBase.length + 2 + 6 + name.length) % 2 ^ 32 =
      (idBase.length + 2 + 6 + name.length) % 2 ^ 32 := Int.bmod_emod
  rw [sizeT, clientIdLen, hmod]
  omega

theorem IdBuf.printId_run (id : Mem Char) (hnul : '\x00' ∉ text) (hsize : size ≠ 0)
    (hfuel : text.length < fuel) :
    ∃ brk, printId fuel size text id = some brk ∧
      Holds brk.mem 0 ((text.take (size - 1)).take mosqMqttIdMaxLength) ∧
      (brk.Inside ↔ (text.take (size - 1)).length ≤ mosqMqttIdMaxLength) := by
  obtain ⟨hholds, hstores⟩ := IdBuf.snprintf_holds ⟨id, []⟩ hnul hsize
  have hread := cstring_eq hholds (Nat.lt_of_le_of_lt (List.length_take_le' ..) hfuel)
  refine ⟨(IdBuf.snprintf ⟨id, []⟩ size text).enforceMaximum (text.take (size - 1)).length, ?_,
    enforceMaximum_holds hholds, ?_⟩
  · simp only [printId, hread, Option.map_some]
  · rw [enforceMaximum_inside, Inside, hstores]
    simp only [List.nil_append, List.forall_mem_singleton]
    omega

theorem IdBuf.printId_zero (hfuel : 0 < fuel) : printId fuel 0 text (fun _ => '\x00') =
    some ⟨fun _ => '\x00', []⟩ := by
  have hempty : Holds (fun _ => '\x00') 0 [] := rfl
  simp only [printId, snprintf, ↓reduceIte, cstring_eq hempty hfuel, Option.map_some]
  rfl

theorem IdBuf.printId_iff (hnul : '\x00' ∉ text) (hne : text ≠ []) (hfuel : text.length < fuel) :
    StoresPrefix (printId fuel size text) text ↔ Lets size text.length := by
  constructor
  · intro h
    obtain ⟨brk, hrun, hheld, hin⟩ := h fun _ => '\x00'
    have hsize : size ≠ 0 := by
      rintro rfl
      rw [printId_zero (Nat.zero_lt_of_lt hfuel)] at hrun
      obtain rfl := Option.some.inj hrun
      have hempty := congrArg List.length (hheld.unique (show Holds _ 0 [] from rfl))
      have hpos := List.length_pos_iff.mpr hne
      rw [List.length_take, mosqMqttIdMaxLength, List.length_nil] at hempty
      omega
    obtain ⟨brk', hrun', hholds, hinside⟩ := printId_run (fun _ => '\x00') hnul hsize hfuel
    obtain rfl : brk' = brk := Option.some.inj (hrun'.symm.trans hrun)
    have htext := hholds.unique hheld
    rw [List.take_take, List.take_eq_take_iff] at htext
    rw [List.length_take] at hinside
    exact ⟨hsize, hinside.mp hin, htext⟩
  · rintro ⟨hsize, hprinted, htext⟩ id
    obtain ⟨brk, hrun, hholds, hinside⟩ := printId_run id hnul hsize hfuel
    rw [List.length_take] at hinside
    rw [List.take_take, List.take_eq_take_iff.mpr htext] at hholds
    exact ⟨brk, hrun, hholds, hinside.mpr hprinted⟩

-- ---------------------------------------------------------------------------
-- When the id is what it should be
-- ---------------------------------------------------------------------------

/-- The whole id fits and the number of the process has no more digits than the
bound allows for, or the bound is by chance the size of the array. -/
def BoundFits (idBase : List Char) (pid : Nat) (name : List Char) : Prop :=
  let total := (clientId idBase pid name).length
  total ≤ mosqMqttIdMaxLength ∧ (Nat.toDigits 10 pid).length ≤ 5 ∨
    mosqMqttIdMaxLength < total ∧ sizeT (clientIdLen idBase name) = mosqMqttIdMaxLength + 1

instance : Decidable (BoundFits idBase pid name) := inferInstanceAs (Decidable (_ ∨ _))

theorem not_nul_mem_clientId (hbase : '\x00' ∉ idBase) (hname : '\x00' ∉ name) :
    '\x00' ∉ clientId idBase pid name := by
  have hdigits : '\x00' ∉ Nat.toDigits 10 pid := fun hmem => by
    have hdigit := Nat.isDigit_of_mem_toDigits (by decide) (by decide) hmem
    revert hdigit
    decide
  simp [clientId, hbase, hname, hdigits]

theorem clientIdGenerate_iff (hbase : '\x00' ∉ idBase) (hname : '\x00' ∉ name)
    (hlen : name.length ≤ 255) (hfuel : (clientId idBase pid name).length < fuel) :
    StoresPrefix (clientIdGenerate fuel idBase pid name) (clientId idBase pid name) ↔
      Lets (sizeT (clientIdLen idBase name)) (clientId idBase pid name).length := by
  have hne : clientId idBase pid name ≠ [] := by simp [clientId]
  have hgenerate : clientIdGenerate fuel idBase pid name =
      IdBuf.printId fuel (sizeT (clientIdLen idBase name)) (clientId idBase pid name) := by
    funext id
    rw [clientIdGenerate, hostname_of_le hlen]
  rw [hgenerate, IdBuf.printId_iff (not_nul_mem_clientId hbase hname) hne hfuel]

theorem boundFits_iff : BoundFits idBase pid name ↔
    Lets (sizeT (clientIdLen idBase name)) (clientId idBase pid name).length := by
  simp only [BoundFits, Lets, clientId_length, sizeT_clientIdLen, mosqMqttIdMaxLength]
  omega

/-- The array holds the longest prefix of the id that fits and nothing is stored
outside, if and only if the bound on the print fits. -/
theorem client_id_iff (hbase : '\x00' ∉ idBase) (hname : '\x00' ∉ name)
    (hlen : name.length ≤ 255) (hfuel : (clientId idBase pid name).length < fuel) :
    StoresPrefix (clientIdGenerate fuel idBase pid name) (clientId idBase pid name) ↔
      BoundFits idBase pid name :=
  (clientIdGenerate_iff hbase hname hlen hfuel).trans boundFits_iff.symm

theorem shortNames_stored : StoresPrefix (clientIdGenerate 24 ['m', 'o', 'n'] 4711 ['p', 'c'])
    (clientId ['m', 'o', 'n'] 4711 ['p', 'c']) :=
  (client_id_iff (by decide) (by decide) (by decide) (by decide)).mpr (by decide)

/-- The id of `devAdapter` on `localhost` has 25 characters, and the print
stores them all. -/
theorem localhost_overflows : ¬ ∀ fuel idBase pid name, '\x00' ∉ idBase → '\x00' ∉ name →
    name.length ≤ 255 → (clientId idBase pid name).length < fuel →
    StoresPrefix (clientIdGenerate fuel idBase pid name) (clientId idBase pid name) := by
  intro h
  have hlets := (clientIdGenerate_iff (by decide) (by decide) (by decide) (by decide)).mp
    (h 26 ['d', 'e', 'v', 'A', 'd', 'a', 'p', 't', 'e', 'r'] 1234
      ['l', 'o', 'c', 'a', 'l', 'h', 'o', 's', 't'] (by decide) (by decide) (by decide) (by decide))
  revert hlets
  decide

end DevAdapter.Broker

import DevAdapter.Lib.Memory
import DevAdapter.Lib.Word

/-!
# Registers through `/dev/mem`

`regdev_open` maps the pages that hold the physical base address, and one more
where the registers may reach into it. `regdev_read` and `regdev_write` check a
register against 64 KiB and take it as an offset from the mapping, which begins
at the page and not at the base address.
-/

namespace DevAdapter.Regdev

open OffsetMemory Word32

def einval : Int := 22

def eio : Int := 5

/-- What `getpagesize` gives: a power of two, 4 KiB or more. -/
structure PageSize where
  shift : Nat
  le_shift : 12 ≤ shift
  shift_lt : shift < 32

def PageSize.word (p : PageSize) : BitVec 32 := BitVec.twoPow 32 p.shift

/-- What `mmap` has mapped: an offset in `/dev/mem`, and the length asked for. -/
structure Mapping where
  offset : BitVec 32
  length : BitVec 32
  deriving DecidableEq, Repr

/-- `struct mem_map_s`; a `map_base` of `MAP_FAILED` is `none`. -/
structure MemMap where
  fd : Int
  phyAddr : BitVec 32
  mapBase : Option Mapping
  memmapSize : BitVec 32
  deriving DecidableEq, Repr

def regdevInit : MemMap where
  fd := -1
  phyAddr := 0#32
  mapBase := none
  memmapSize := 0#32

def regdevSetPara (mp : MemMap) (phyAddr mapSize : BitVec 32) : MemMap :=
  { mp with phyAddr := phyAddr, memmapSize := mapSize }

/-- `8 * sizeof(int)` -/
def width : BitVec 32 := 32#32

def offsetInPage (page : PageSize) (phyAddr : BitVec 32) : BitVec 32 :=
  phyAddr &&& (page.word - 1#32)

/-- The length that `regdev_open` maps, with a second page where it spans pages. -/
def mappedSize (page : PageSize) (mp : MemMap) : BitVec 32 :=
  if page.word < offsetInPage page mp.phyAddr + width then mp.memmapSize + page.word
  else mp.memmapSize

/-- `regdev_open`, with what `open` returns and whether `mmap` maps. -/
def regdevOpen (page : PageSize) (fd : Int) (mapped : Bool) : Option MemMap → Int × Option MemMap
  | none => (-einval, none)
  | some mp =>
    if fd < 0 then (fd, some { mp with fd := fd })
    else if mapped then
      let size := mappedSize page mp
      (0, some {
        fd := fd
        phyAddr := mp.phyAddr
        mapBase := some ⟨mp.phyAddr &&& ~~~(page.word - 1#32), size⟩
        memmapSize := size })
    else (-einval, some { mp with fd := fd, mapBase := none })

/-- What a call returns and leaves, and the bytes it touches: an offset from
`map_base` and their number. -/
structure RegCall (α : Type) where
  ret : Int
  touched : List (Int × Nat)
  out : α

/-- The check of a register and the access at `virt_addr`. -/
def regAccess (reg : BitVec 32) (unchanged : α) (access : Int → α) : RegCall α :=
  if reg.toInt > 0xFFFB then ⟨-eio, [], unchanged⟩
  else ⟨0, [(reg.toInt, 4)], access reg.toInt⟩

/-- `regdev_read`, with the memory around `map_base` and the value in `val`. -/
def regdevRead (m : Mem UInt8) (reg : BitVec 32) (val : Int) : RegCall Int :=
  regAccess reg val fun virtAddr => ofLe32 (m.read virtAddr 4)

/-- `regdev_write`; what it leaves is the memory. -/
def regdevWrite (m : Mem UInt8) (reg : BitVec 32) (val : Int) : RegCall (Mem UInt8) :=
  regAccess reg m fun virtAddr => m.write virtAddr (le32 val)

def PageSize.roundUp (p : PageSize) (n : Nat) : Nat :=
  (n + 2 ^ p.shift - 1) / 2 ^ p.shift * 2 ^ p.shift

/-- A call that succeeds touches the four bytes `reg` bytes behind the base
address, inside the mapping and inside the map size, any other nothing. -/
structure HitsRegister (page : PageSize) (phyAddr mapSize : BitVec 32) (base : Mapping)
    (reg : BitVec 32) (c : RegCall α) : Prop where
  hit : c.ret = 0 → ∃ off : Int, c.touched = [(off, 4)] ∧
    (base.offset.toNat : Int) + off = phyAddr.toNat + reg.toInt ∧
    0 ≤ off ∧ off + 4 ≤ page.roundUp base.length.toNat ∧
    0 ≤ reg.toInt ∧ reg.toInt ≤ mapSize.toInt - 4
  refused : c.ret ≠ 0 → c.touched = []

variable {page : PageSize} {phyAddr mapSize reg : BitVec 32} {base : Mapping} {mp₀ mp : MemMap}

-- ---------------------------------------------------------------------------
-- Pages
-- ---------------------------------------------------------------------------

theorem PageSize.toNat_word (p : PageSize) : p.word.toNat = 2 ^ p.shift := by
  rw [word, BitVec.toNat_twoPow_of_lt p.shift_lt]

theorem PageSize.le_word (p : PageSize) : 4096 ≤ p.word.toNat := by
  rw [p.toNat_word]
  exact Nat.pow_le_pow_right (n := 2) (by decide) p.le_shift

theorem PageSize.le_roundUp (p : PageSize) (n : Nat) : n ≤ p.roundUp n := by
  have hpos : 0 < 2 ^ p.shift := Nat.two_pow_pos p.shift
  have hdiv := Nat.lt_div_mul_add hpos (a := n + 2 ^ p.shift - 1)
  unfold roundUp
  omega

theorem and_not_eq_self_iff (x mask : BitVec 32) : x &&& ~~~mask = x ↔ x &&& mask = 0#32 := by
  constructor
  · intro h
    rw [← h, BitVec.and_assoc, BitVec.not_and_self]
    exact BitVec.and_zero
  · intro h
    ext i hi
    have hbit := congrArg (·[i]) h
    simp only [BitVec.getElem_and, BitVec.getElem_zero] at hbit
    simp only [BitVec.getElem_and, BitVec.getElem_not]
    revert hbit
    cases x[i] <;> cases mask[i] <;> decide

theorem mappedSize_of_aligned (h : offsetInPage page mp.phyAddr = 0#32) :
    mappedSize page mp = mp.memmapSize := by
  rw [mappedSize, h, if_neg]
  have hpage := page.le_word
  rw [BitVec.not_lt, BitVec.le_def]
  exact Nat.le_trans (by decide) hpage

-- ---------------------------------------------------------------------------
-- Accesses
-- ---------------------------------------------------------------------------

theorem regdevOpen_base (hopen : regdevOpen page fd mapped (some mp₀) = (0, some mp))
    (hbase : mp.mapBase = some base) :
    base = ⟨mp₀.phyAddr &&& ~~~(page.word - 1#32), mappedSize page mp₀⟩ := by
  rw [regdevOpen] at hopen
  split at hopen
  · have hret := (Prod.mk.inj hopen).1
    omega
  · split at hopen
    · obtain rfl := Option.some.inj (Prod.mk.inj hopen).2
      exact (Option.some.inj hbase).symm
    · cases (Prod.mk.inj hopen).1

theorem regAccess_iff (unchanged : α) (access : Int → α) :
    HitsRegister page phyAddr mapSize base reg (regAccess reg unchanged access) ↔
      0xFFFB < reg.toInt ∨ base.offset.toNat = phyAddr.toNat ∧
        reg.toInt + 4 ≤ page.roundUp base.length.toNat ∧
        0 ≤ reg.toInt ∧ reg.toInt ≤ mapSize.toInt - 4 := by
  by_cases hreg : reg.toInt > 0xFFFB
  · rw [regAccess, if_pos hreg]
    exact ⟨fun _ => .inl hreg, fun _ => ⟨nofun, fun _ => rfl⟩⟩
  · rw [regAccess, if_neg hreg]
    constructor
    · rintro ⟨hhit, -⟩
      obtain ⟨off, htouched, hphys, -, hinside, hlow, hhigh⟩ := hhit rfl
      obtain rfl := (Prod.mk.inj (List.cons.inj htouched).1).1
      exact .inr ⟨by omega, hinside, hlow, hhigh⟩
    · rintro (hhigh | ⟨hbase, hinside, hlow, hhigh⟩)
      · exact absurd hhigh hreg
      · refine ⟨fun _ => ⟨_, rfl, ?_, hlow, hinside, hlow, hhigh⟩, fun hret => absurd rfl hret⟩
        rw [hbase]

theorem offset_iff (hbase : base = ⟨phyAddr &&& ~~~(page.word - 1#32), size⟩) :
    base.offset.toNat = phyAddr.toNat ↔ offsetInPage page phyAddr = 0#32 := by
  rw [hbase, BitVec.toNat_inj]
  exact and_not_eq_self_iff phyAddr _

theorem inside_of_aligned (halign : offsetInPage page phyAddr = 0#32) (hlow : 0 ≤ reg.toInt)
    (hhigh : reg.toInt ≤ mapSize.toInt - 4) :
    reg.toInt + 4 ≤ page.roundUp (mappedSize page (regdevSetPara mp₀ phyAddr mapSize)).toNat := by
  rw [mappedSize_of_aligned halign]
  have hround := page.le_roundUp mapSize.toNat
  have hsize := BitVec.toInt_eq_toNat_cond mapSize
  split at hsize <;> simp only [regdevSetPara] <;> omega

/-- A call with a register hits it if and only if the register is refused, or the
base address is that of a page and the register lies within the map size. -/
theorem register_iff
    (hopen : regdevOpen page fd mapped (some (regdevSetPara mp₀ phyAddr mapSize)) = (0, some mp))
    (hbase : mp.mapBase = some base) (m : Mem UInt8) (val : Int) :
    (HitsRegister page phyAddr mapSize base reg (regdevRead m reg val) ∧
        HitsRegister page phyAddr mapSize base reg (regdevWrite m reg val)) ↔
      0xFFFB < reg.toInt ∨ offsetInPage page phyAddr = 0#32 ∧
        0 ≤ reg.toInt ∧ reg.toInt ≤ mapSize.toInt - 4 := by
  have hopened : base = ⟨phyAddr &&& ~~~(page.word - 1#32),
      mappedSize page (regdevSetPara mp₀ phyAddr mapSize)⟩ := regdevOpen_base hopen hbase
  rw [regdevRead, regdevWrite, regAccess_iff, regAccess_iff, and_self, offset_iff hopened]
  refine or_congr_right (and_congr_right fun halign => ⟨And.right, fun hreg => ⟨?_, hreg⟩⟩)
  rw [hopened]
  exact inside_of_aligned halign hreg.1 hreg.2

def regPhyAddr : BitVec 32 := 0x43C20000#32

def regMapSize : BitVec 32 := 0x10000#32

def page4K : PageSize := ⟨12, by decide, by decide⟩

theorem firstRegister_hit :
    HitsRegister page4K regPhyAddr regMapSize ⟨regPhyAddr, regMapSize⟩ 0#32
        (regdevRead (fun _ => 0) 0#32 7) ∧
      HitsRegister page4K regPhyAddr regMapSize ⟨regPhyAddr, regMapSize⟩ 0#32
        (regdevWrite (fun _ => 0) 0#32 7) :=
  have hopen : regdevOpen page4K 3 true (some (regdevSetPara regdevInit regPhyAddr regMapSize)) =
      (0, some ⟨3, regPhyAddr, some ⟨regPhyAddr, regMapSize⟩, regMapSize⟩) := by decide
  (register_iff hopen rfl _ _).mpr (by decide)

/-- The register at -4 is not refused, and lies in front of the mapping. -/
theorem negativeRegister_missed :
    ¬ ∀ page phyAddr mapSize fd mapped mp base reg (m : Mem UInt8) val,
      regdevOpen page fd mapped (some (regdevSetPara regdevInit phyAddr mapSize)) = (0, some mp) →
      mp.mapBase = some base →
      HitsRegister page phyAddr mapSize base reg (regdevRead m reg val) := by
  intro h
  have hread := h page4K regPhyAddr regMapSize 3 true _ _ (-4#32) (fun _ => 0) 7 rfl rfl
  rw [regdevRead, regAccess_iff] at hread
  revert hread
  decide

end DevAdapter.Regdev

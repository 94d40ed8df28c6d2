/-
Clusters and the file allocation table of `fat12.c`: cluster addresses and transfers, the packed
12-bit entries of the cached FAT, allocation, freeing, and the two flush loops.
-/
import AltoniumOS.Fat12.State

namespace AltoniumOS.Fat12

open AltoniumOS.Lib

/-! ## Clusters -/

/-- `fat12_cluster_to_lba` -/
def clusterToLba (fs : Fs) (cluster : Nat) : Nat :=
  if cluster < 2 then fs.dataStartLba else fs.dataStartLba + (cluster - 2) * fs.sectorsPerCluster

/-- `fat12_read_cluster(cluster, g_cluster_buffer)`: success, and the buffer afterwards. -/
def readCluster (cluster : Nat) : M (Bool × Buf) := do
  let c ← getCore
  let buffer ← getClusterBuffer
  let (ok, buffer) ← diskReadSectors (lbaAdd c.fs.baseLba (clusterToLba c.fs cluster)) buffer 0
    c.fs.sectorsPerCluster
  setClusterBuffer buffer
  pure (ok, buffer)

/-- `fat12_write_cluster(cluster, buffer)` -/
def writeCluster (cluster : Nat) (buffer : Buf) : M Bool := do
  let c ← getCore
  diskWriteSectors (lbaAdd c.fs.baseLba (clusterToLba c.fs cluster)) buffer c.fs.sectorsPerCluster

/-- The bytes of a cluster on the disk. -/
def Core.clusterBytes (c : Core) (cluster : Nat) : Buf :=
  sectorBytes c.sectors (lbaAdd c.fs.baseLba (clusterToLba c.fs cluster))

/-- `c` after a whole cluster was written. -/
def Core.putCluster (c : Core) (cluster : Nat) (buffer : Buf) : Core :=
  { c with
    sectors := putSectors c.sectors (lbaAdd c.fs.baseLba (clusterToLba c.fs cluster)) buffer
      c.fs.sectorsPerCluster }

/-- Reading a cluster and going on with its bytes. -/
theorem gives_readCluster {α : Type} {cluster : Nat} {k : Bool × Buf → M α} {c c' : Core} {a : α}
    (hn : c.fs.sectorsPerCluster ≠ 0)
    (h : ∀ b : Buf, (∀ i < sectorSize * c.fs.sectorsPerCluster, b i = c.clusterBytes cluster i) →
      Gives (k (true, b)) c a c') : Gives (readCluster cluster >>= k) c a c' := by
  intro s hs g
  have hread : Gives (diskReadSectors (lbaAdd c.fs.baseLba (clusterToLba c.fs cluster)) s.clusterBuffer 0
      c.fs.sectorsPerCluster) c _ c := gives_diskReadSectors hn c
  obtain ⟨s₁, h1, p1, g1⟩ := hread s hs g
  have e1 : getCore s = .ok c s := by rw [← hs]; rfl
  have e2 : getClusterBuffer s = .ok s.clusterBuffer s := rfl
  have hrun : readCluster cluster s =
      .ok (true, s.clusterBuffer.blit 0 (c.clusterBytes cluster) (sectorSize * c.fs.sectorsPerCluster))
        { s₁ with
          clusterBuffer :=
            s.clusterBuffer.blit 0 (c.clusterBytes cluster) (sectorSize * c.fs.sectorsPerCluster) } := by
    unfold readCluster
    rw [bind_ok e1, bind_ok e2, bind_ok h1]
    rfl
  rw [bind_ok hrun]
  refine h _ (fun i hi => ?_) _ p1 g1
  rw [show i = 0 + i by omega]
  exact (Buf.blit_in hi).trans (by rw [Nat.zero_add])

/-- Writing a cluster stores as many bytes of the buffer as a cluster has. -/
theorem gives_writeCluster {cluster : Nat} {buffer b : Buf} (c : Core) (hn : c.fs.sectorsPerCluster ≠ 0)
    (hb : ∀ i < sectorSize * c.fs.sectorsPerCluster, buffer i = b i) :
    Gives (writeCluster cluster buffer) c true (c.putCluster cluster b) := by
  unfold writeCluster
  refine (gives_getCore c).bind ?_
  rw [Core.putCluster, ← putSectors_congr hb]
  exact gives_diskWriteSectors hn c

/-! ## The packed entries -/

/-- `fat12_get_fat_entry` -/
def getFatEntry (c : Core) (cluster : Nat) : Nat :=
  let index := cluster + cluster / 2
  if index + 1 ≥ c.fs.fatSizeBytes then clusterEoc
  else
    let b0 := (c.fatPrimary index).toNat
    let b1 := (c.fatPrimary (index + 1)).toNat
    let value := if cluster &&& 1 = 0 then b0 ||| ((b1 &&& 0x0F) <<< 8) else ((b0 &&& 0xF0) >>> 4) ||| (b1 <<< 4)
    value &&& 0x0FFF

/-- The FAT bytes after `fat12_set_fat_entry(cluster, value)`. -/
def setFatBytes (fat : Buf) (cluster value : Nat) : Buf :=
  let index := cluster + cluster / 2
  let value := value &&& 0x0FFF
  let b0 := (fat index).toNat
  let b1 := (fat (index + 1)).toNat
  if cluster &&& 1 = 0 then
    Function.update (Function.update fat index (.ofNat (value &&& 0xFF)))
      (index + 1) (.ofNat ((b1 &&& 0xF0) ||| ((value >>> 8) &&& 0x0F)))
  else
    Function.update (Function.update fat index (.ofNat ((b0 &&& 0x0F) ||| ((value &&& 0x0F) <<< 4))))
      (index + 1) (.ofNat ((value >>> 4) &&& 0xFF))

/-- `c` after `fat12_set_fat_entry(cluster, value)`. -/
def Core.setFat (c : Core) (cluster value : Nat) : Core :=
  { c with fatPrimary := setFatBytes c.fatPrimary cluster value, fatDirty := true }

/-- `fat12_set_fat_entry` -/
def setFatEntry (cluster value : Nat) : M Unit := modifyCore fun c => c.setFat cluster value

theorem gives_setFatEntry (cluster value : Nat) (c : Core) :
    Gives (setFatEntry cluster value) c () (c.setFat cluster value) := gives_modifyCore _ c

theorem or_shiftLeft {a k : Nat} (b : Nat) (h : a < 2 ^ k) : a ||| b <<< k = a + b * 2 ^ k := by
  rw [Nat.or_comm, ← Nat.shiftLeft_add_eq_or_of_lt h, Nat.shiftLeft_eq, Nat.add_comm]

theorem and_low (x : Nat) : x &&& 0x0F = x % 16 := Nat.and_two_pow_sub_one_eq_mod x 4

theorem and_byte (x : Nat) : x &&& 0xFF = x % 256 := Nat.and_two_pow_sub_one_eq_mod x 8

theorem and_cell (x : Nat) : x &&& 0x0FFF = x % 4096 := Nat.and_two_pow_sub_one_eq_mod x 12

theorem and_high {x : Nat} (h : x < 256) : x &&& 0xF0 = x / 16 * 16 := by
  have : ∀ y : Fin 256, y.val &&& 0xF0 = y.val / 16 * 16 := by decide +kernel
  exact this ⟨x, h⟩

/-- Inside the cached FAT an entry is the cell of its cluster. -/
theorem getFatEntry_eq {c : Core} {cluster : Nat} (h : cluster + cluster / 2 + 1 < c.fs.fatSizeBytes) :
    getFatEntry c cluster = cell c.fatPrimary cluster := by
  have h0 := (c.fatPrimary (cluster + cluster / 2)).toNat_lt
  have h1 := (c.fatPrimary (cluster + cluster / 2 + 1)).toNat_lt
  have e0 := byte_eq_nibs c.fatPrimary (cluster + cluster / 2)
  have e1 := byte_eq_nibs c.fatPrimary (cluster + cluster / 2 + 1)
  have n0 := nib_even c.fatPrimary (cluster + cluster / 2)
  have n1 := nib_odd c.fatPrimary (cluster + cluster / 2)
  have n2 := nib_even c.fatPrimary (cluster + cluster / 2 + 1)
  unfold getFatEntry
  simp only [if_neg (Nat.not_le.2 h), Nat.and_one_is_mod, and_cell]
  by_cases hc : cluster % 2 = 0
  · rw [if_pos hc, and_low, or_shiftLeft _ (by omega)]
    unfold cell
    rw [show 3 * cluster = 2 * (cluster + cluster / 2) by omega,
      show 2 * (cluster + cluster / 2) + 2 = 2 * (cluster + cluster / 2 + 1) by omega]
    omega
  · rw [if_neg hc, and_high (by omega), Nat.shiftRight_eq_div_pow, or_shiftLeft _ (by omega)]
    unfold cell
    rw [show 3 * cluster = 2 * (cluster + cluster / 2) + 1 by omega,
      show 2 * (cluster + cluster / 2) + 1 + 1 = 2 * (cluster + cluster / 2 + 1) by omega,
      show 2 * (cluster + cluster / 2) + 1 + 2 = 2 * (cluster + cluster / 2 + 1) + 1 by omega]
    omega

theorem getFatEntry_outside {c : Core} {cluster : Nat} (h : c.fs.fatSizeBytes ≤ cluster + cluster / 2 + 1) :
    getFatEntry c cluster = clusterEoc := if_pos h

/-- `fat12_set_fat_entry` sets one cell and keeps every other nibble. -/
theorem cellSet_setFatBytes (fat : Buf) (cluster value : Nat) :
    CellSet fat (setFatBytes fat cluster value) cluster (value % 4096) := by
  have h0 := (fat (cluster + cluster / 2)).toNat_lt
  have h1 := (fat (cluster + cluster / 2 + 1)).toNat_lt
  generalize hi : cluster + cluster / 2 = i at h0 h1
  -- the two bytes written, and the bytes kept
  have hbytes : ∀ x y : UInt8, (∀ j, j ≠ i → j ≠ i + 1 →
        Function.update (Function.update fat i x) (i + 1) y j = fat j) ∧
      Function.update (Function.update fat i x) (i + 1) y i = x ∧
      Function.update (Function.update fat i x) (i + 1) y (i + 1) = y := fun x y =>
    ⟨fun j h1 h2 => by rw [Function.update_of_ne h2, Function.update_of_ne h1],
      by rw [Function.update_of_ne (by omega), Function.update_self], Function.update_self ..⟩
  unfold setFatBytes
  simp only [hi, Nat.and_one_is_mod, and_cell, and_low, and_byte, Nat.shiftRight_eq_div_pow]
  by_cases hc : cluster % 2 = 0
  · rw [if_pos hc, and_high h1]
    obtain ⟨ho, e0, e1⟩ :=
      hbytes (.ofNat (value % 4096 % 256)) (.ofNat ((fat (i + 1)).toNat / 16 * 16 ||| value % 4096 / 2 ^ 8 % 16))
    generalize Function.update _ (i + 1) _ = b at ho e0 e1
    have hor : (fat (i + 1)).toNat / 16 * 16 ||| value % 4096 / 2 ^ 8 % 16 =
        value % 4096 / 256 % 16 + (fat (i + 1)).toNat / 16 * 16 := by
      rw [Nat.or_comm]
      have := or_shiftLeft (k := 4) (a := value % 4096 / 2 ^ 8 % 16) ((fat (i + 1)).toNat / 16) (by omega)
      rwa [Nat.shiftLeft_eq] at this
    have t0 : (b i).toNat = value % 4096 % 256 := by rw [e0, UInt8.toNat_ofNat']; omega
    have t1 : (b (i + 1)).toNat = value % 4096 / 256 % 16 + (fat (i + 1)).toNat / 16 * 16 := by
      rw [e1, hor, UInt8.toNat_ofNat']; omega
    refine ⟨?_, fun j hj => ?_⟩
    · unfold cell
      rw [show 3 * cluster = 2 * i by omega, show 2 * i + 2 = 2 * (i + 1) by
        omega, nib_even, nib_odd, nib_even, t0, t1]
      omega
    · by_cases hj2 : j = 2 * (i + 1) + 1
      · rw [hj2, nib_odd, nib_odd, t1]; omega
      · exact nib_congr (ho _ (by omega) (by omega))
  · rw [if_neg hc]
    have hor : (fat i).toNat % 16 ||| (value % 4096 % 16) <<< 4 = (fat i).toNat % 16 + value % 4096 % 16 * 16 :=
      or_shiftLeft _ (by omega)
    rw [hor]
    obtain ⟨ho, e0, e1⟩ :=
      hbytes (.ofNat ((fat i).toNat % 16 + value % 4096 % 16 * 16)) (.ofNat (value % 4096 / 2 ^ 4 % 256))
    generalize Function.update _ (i + 1) _ = b at ho e0 e1
    have t0 : (b i).toNat = (fat i).toNat % 16 + value % 4096 % 16 * 16 := by rw [e0, UInt8.toNat_ofNat']; omega
    have t1 : (b (i + 1)).toNat = value % 4096 / 16 % 256 := by rw [e1, UInt8.toNat_ofNat']; omega
    refine ⟨?_, fun j hj => ?_⟩
    · unfold cell
      rw [show 3 * cluster = 2 * i + 1 by omega, show 2 * i + 1 + 1 = 2 * (i + 1) by omega,
        show 2 * i + 1 + 2 = 2 * (i + 1) + 1 by omega, nib_even, nib_odd, nib_odd, t0, t1]
      omega
    · by_cases hj2 : j = 2 * i
      · rw [hj2, nib_even, nib_even, t0]; omega
      · exact nib_congr (ho _ (by omega) (by omega))

theorem getFatEntry_setFat_self {c : Core} {cluster value : Nat}
    (h : cluster + cluster / 2 + 1 < c.fs.fatSizeBytes) :
    getFatEntry (c.setFat cluster value) cluster = value % 4096 := by
  rw [getFatEntry_eq (c := c.setFat cluster value) h]
  exact (cellSet_setFatBytes c.fatPrimary cluster value).self

theorem getFatEntry_setFat_ne {c : Core} {cluster value x : Nat} (hx : x ≠ cluster) :
    getFatEntry (c.setFat cluster value) x = getFatEntry c x := by
  by_cases h : x + x / 2 + 1 < c.fs.fatSizeBytes
  · rw [getFatEntry_eq h, getFatEntry_eq (c := c.setFat cluster value) h]
    exact (cellSet_setFatBytes c.fatPrimary cluster value).cell_ne hx
  · have h : c.fs.fatSizeBytes ≤ x + x / 2 + 1 := by omega
    rw [getFatEntry_outside (c := c.setFat cluster value) h, getFatEntry_outside h]

/-- Entries of different clusters may be set in either order. -/
theorem setFat_comm (c : Core) {x y : Nat} (v w : Nat) (hxy : x ≠ y) :
    (c.setFat x v).setFat y w = (c.setFat y w).setFat x v := by
  have hbytes : setFatBytes (setFatBytes c.fatPrimary x v) y w = setFatBytes (setFatBytes c.fatPrimary y w) x v :=
    CellSet.comm hxy (cellSet_setFatBytes _ x v) (cellSet_setFatBytes _ y w) (cellSet_setFatBytes _ y w)
      (cellSet_setFatBytes _ x v)
  show { c with fatPrimary := _, fatDirty := true } = { c with fatPrimary := _, fatDirty := true }
  rw [show (c.setFat x v).fatPrimary = setFatBytes c.fatPrimary x v from rfl,
    show (c.setFat y w).fatPrimary = setFatBytes c.fatPrimary y w from rfl, hbytes]

theorem getFatEntry_lt (c : Core) (cluster : Nat) : getFatEntry c cluster < 4096 := by
  by_cases h : cluster + cluster / 2 + 1 < c.fs.fatSizeBytes
  · rw [getFatEntry_eq h]; exact cell_lt _ _
  · rw [getFatEntry_outside (by omega)]; decide

/-! ## Allocation -/

/-- `cluster >= 2 && cluster < FAT12_CLUSTER_EOC` -/
def inChain (cluster : Nat) : Bool := 2 ≤ cluster && cluster < clusterEoc

/-- The first cluster `fat12_allocate_cluster` finds free. -/
def firstFree (c : Core) : Option Nat :=
  ((List.range c.fs.totalClusters).map (· + 2)).find? fun cluster => getFatEntry c cluster == clusterFree

/-- `fat12_allocate_cluster` -/
def allocateCluster : M Nat := do
  let c ← getCore
  match firstFree c with
  | none => pure 0
  | some cluster =>
    setFatEntry cluster clusterEoc
    let buffer ← getClusterBuffer
    let buffer := buffer.fill 0 c.fs.clusterSizeBytes
    setClusterBuffer buffer
    if ← writeCluster cluster buffer then pure cluster
    else
      setFatEntry cluster clusterFree
      pure 0

/-- One round of `fat12_free_chain`. -/
def freeChainRound (cluster : Nat) : M (Nat ⊕ Unit) :=
  if inChain cluster then do
    let c ← getCore
    setFatEntry cluster clusterFree
    pure (.inl (getFatEntry c cluster))
  else pure (.inr ())

/-- `fat12_free_chain` -/
def freeChain (fuel : Nat) (startCluster : Nat) : M Unit := loop freeChainRound fuel startCluster

/-! ## Flushing -/

/-- Sectors `i` to `i + n` of `buffer` written one by one to the area at `lba`, up to a failure. -/
def writeArea (lba : Nat) (buffer : Buf) (i : Nat) : Nat → M Bool
  | 0 => pure true
  | n + 1 => do
    if ← diskWriteSector (lbaAdd lba i) (sectorOf buffer i) then writeArea lba buffer (i + 1) n
    else pure false

/-- `fat12_flush_root` -/
def flushRoot : M Code := do
  let c ← getCore
  if !c.rootDirty then pure .ok
  else if ← writeArea (lbaAdd c.fs.baseLba c.fs.rootDirStartLba) c.rootDir 0 c.fs.rootDirSectors then
    modifyCore fun c => { c with rootDirty := false }
    pure .ok
  else pure .errIo

/-- The FAT copies `k` to `k + n` written one after the other, up to a failure. -/
def writeFatCopies (c : Core) (k : Nat) : Nat → M Bool
  | 0 => pure true
  | n + 1 => do
    if ← writeArea (lbaAdd c.fs.baseLba (c.fs.fatStartLba + k * c.fs.sectorsPerFat)) c.fatPrimary 0
      c.fs.sectorsPerFat then
      writeFatCopies c (k + 1) n
    else pure false

/-- `fat12_flush_fats` -/
def flushFats : M Code := do
  let c ← getCore
  if !c.fatDirty then pure .ok
  else if ← writeFatCopies c 0 c.fs.numFats then
    modifyCore fun c => { c with fatDirty := false }
    pure .ok
  else pure .errIo

end AltoniumOS.Fat12

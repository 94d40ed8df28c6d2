/-
Where things are on the disk: the layout a successful mount computes, the disjoint sectors of the
clusters, and what writing a FAT entry, a cluster or a directory slot does to the volume.
-/
import AltoniumOS.Volume.Trail

namespace AltoniumOS.Fat12

open AltoniumOS.Lib

/-- The layout of a mounted volume, as the checks of `fat12_init` leave it. -/
structure Fs.Accepted (fs : Fs) : Prop where
  spc : 1 ≤ fs.sectorsPerCluster ∧ fs.sectorsPerCluster ≤ maxSectorsPerCluster
  spf : 1 ≤ fs.sectorsPerFat ∧ fs.sectorsPerFat ≤ maxFatSectors
  reserved_lt : fs.reservedSectors < 65536
  numFats_lt : fs.numFats < 256
  fatSize : fs.fatSizeBytes = fs.sectorsPerFat * sectorSize
  rootSectors : fs.rootDirSectors = (fs.rootEntryCount * dirEntrySize + (sectorSize - 1)) / sectorSize
  rootSectors_le : fs.rootDirSectors ≤ maxRootDirSectors
  fatStart : fs.fatStartLba = fs.reservedSectors
  rootStart : fs.rootDirStartLba = fs.reservedSectors + fs.numFats * fs.sectorsPerFat
  dataStart : fs.dataStartLba = fs.reservedSectors + fs.numFats * fs.sectorsPerFat + fs.rootDirSectors
  clusters : 1 ≤ fs.totalClusters ∧ fs.totalClusters ≤ 4084
  clusterSize : fs.clusterSizeBytes = fs.sectorsPerCluster * sectorSize

/-- A mounted driver: its areas on the disk are there, one behind the other. -/
structure Mounted (c : Core) : Prop where
  ready : c.fsReady = true
  accepted : c.fs.Accepted
  reserved : 1 ≤ c.fs.reservedSectors
  fats : 1 ≤ c.fs.numFats

namespace Fs.Accepted

variable {fs : Fs}

theorem spc_ne (h : fs.Accepted) : fs.sectorsPerCluster ≠ 0 := by
  have := h.spc.1
  omega

theorem dataStart_lt (h : fs.Accepted) : fs.dataStartLba < 100000 := by
  have h1 := h.reserved_lt
  have h2 := h.numFats_lt
  have h3 := h.spf.2
  have h4 := h.rootSectors_le
  have h5 : fs.numFats * fs.sectorsPerFat ≤ 255 * 64 := Nat.mul_le_mul (by omega) h3
  unfold maxRootDirSectors at h4
  rw [h.dataStart]
  omega

theorem clusterSize_eq (h : fs.Accepted) : fs.clusterSizeBytes = sectorSize * fs.sectorsPerCluster := by
  rw [h.clusterSize, Nat.mul_comm]

theorem clusterSize_pos (h : fs.Accepted) : 0 < fs.clusterSizeBytes := by
  rw [h.clusterSize]
  exact Nat.mul_pos h.spc.1 (by decide)

theorem clusterSize_le (h : fs.Accepted) : fs.clusterSizeBytes ≤ 16384 := by
  have := h.spc.2
  rw [h.clusterSize]
  unfold sectorSize
  unfold maxSectorsPerCluster at this
  omega

theorem entriesPerCluster (h : fs.Accepted) : fs.entriesPerCluster = 16 * fs.sectorsPerCluster := by
  unfold Fs.entriesPerCluster dirEntrySize
  rw [h.clusterSize_eq]
  unfold sectorSize
  omega

end Fs.Accepted

theorem volume_perCluster (c : Core) : c.volume.perCluster = c.fs.entriesPerCluster := rfl

theorem Fs.Accepted.geom {c : Core} (h : c.fs.Accepted) : c.volume.Geom := by
  have h1 := h.entriesPerCluster
  have h2 := h.spc.1
  refine ⟨h.clusters.2, by rw [volume_perCluster]; omega, ?_⟩
  show c.fs.clusterSizeBytes = _
  rw [volume_perCluster, h1, h.clusterSize_eq]
  unfold sectorSize dirEntrySize
  omega

theorem Mounted.geom {c : Core} (h : Mounted c) : c.volume.Geom := h.accepted.geom

/-- Most of the driver asks for the layout only. -/
instance {c : Core} : CoeOut (Mounted c) c.fs.Accepted := ⟨Mounted.accepted⟩

/-! ## The sectors of the clusters -/

/-- Sector `j` of cluster `k`, counted from the start of the volume. -/
def Fs.sectorIndex (fs : Fs) (k j : Nat) : Nat := fs.dataStartLba + (k - 2) * fs.sectorsPerCluster + j

theorem lba_cluster (fs : Fs) {k : Nat} (hk : 2 ≤ k) (j : Nat) :
    lbaAdd (lbaAdd fs.baseLba (clusterToLba fs k)) j = lbaAdd fs.baseLba (fs.sectorIndex k j) := by
  rw [lbaAdd_lbaAdd, clusterToLba, if_neg (by omega)]
  rfl

theorem Fs.Accepted.sectorIndex_lt {fs : Fs} (h : fs.Accepted) {k j : Nat} (hk : k < 65536)
    (hj : j < fs.sectorsPerCluster) : fs.sectorIndex k j < 4294967296 := by
  have h1 := h.dataStart_lt
  have h2 := h.spc.2
  have h3 : (k - 2) * fs.sectorsPerCluster ≤ 65534 * 32 := Nat.mul_le_mul (by omega) h2
  unfold maxSectorsPerCluster at h2
  unfold Fs.sectorIndex
  omega

/-- Different clusters have different sectors. -/
theorem Fs.Accepted.sectorIndex_ne {fs : Fs} {k k' j j' : Nat} (hk : 2 ≤ k) (hk' : 2 ≤ k')
    (hj : j < fs.sectorsPerCluster) (hj' : j' < fs.sectorsPerCluster) (hne : k ≠ k') :
    fs.sectorIndex k j ≠ fs.sectorIndex k' j' := by
  have key : ∀ {a b : Nat}, a < b → (a + 1) * fs.sectorsPerCluster ≤ b * fs.sectorsPerCluster := fun hab =>
    Nat.mul_le_mul_right _ hab
  unfold Fs.sectorIndex
  rcases Nat.lt_or_gt_of_ne hne with h | h
  · have := key (show k - 2 < k' - 2 by omega)
    rw [Nat.succ_mul] at this
    omega
  · have := key (show k' - 2 < k - 2 by omega)
    rw [Nat.succ_mul] at this
    omega

theorem clusterBytes_putCluster_self {c : Core} (h : c.fs.Accepted) {k i : Nat} {b : Buf}
    (hi : i < c.fs.clusterSizeBytes) : (c.putCluster k b).clusterBytes k i = b i := by
  have := h.spc.2
  rw [h.clusterSize_eq] at hi
  exact sectorBytes_putSectors hi (by unfold maxSectorsPerCluster at this; omega)

/-- The bytes of the other clusters, after a cluster was overwritten, in whole or in part. -/
theorem clusterBytes_written {c : Core} (h : c.fs.Accepted) {k k' i m : Nat} {b : Buf} (hk : 2 ≤ k) (hk' : 2 ≤ k')
    (hlt : k < 65536) (hlt' : k' < 65536) (hne : k' ≠ k) (hm : m ≤ c.fs.sectorsPerCluster)
    (hi : i < sectorSize * c.fs.sectorsPerCluster) :
    sectorBytes (putSectors c.sectors (lbaAdd c.fs.baseLba (clusterToLba c.fs k)) b m)
      (lbaAdd c.fs.baseLba (clusterToLba c.fs k')) i = c.clusterBytes k' i := by
  have hj' : i / sectorSize < c.fs.sectorsPerCluster := Nat.div_lt_of_lt_mul hi
  refine congrFun (putSectors_other fun j hj he => ?_) _
  rw [lba_cluster c.fs hk, lba_cluster c.fs hk'] at he
  refine Fs.Accepted.sectorIndex_ne hk' hk hj' (show j < _ by omega) hne ?_
  exact lbaAdd_inj (h.sectorIndex_lt hlt' hj') (h.sectorIndex_lt hlt (by omega)) he

theorem clusterBytes_putCluster_ne {c : Core} (h : c.fs.Accepted) {k k' i : Nat} {b : Buf} (hk : 2 ≤ k)
    (hk' : 2 ≤ k') (hlt : k < 65536) (hlt' : k' < 65536) (hne : k' ≠ k) (hi : i < c.fs.clusterSizeBytes) :
    (c.putCluster k b).clusterBytes k' i = c.clusterBytes k' i := by
  rw [h.clusterSize_eq] at hi
  exact clusterBytes_written h hk hk' hlt hlt' hne (Nat.le_refl _) hi

/-! ## The volume after a change -/

namespace Volume

/-- `V` with the entry of cluster `k` in the FAT set. -/
def setFat (V : Volume) (k v : Nat) : Volume := { V with fat := Function.update V.fat k v }

/-- `V` with cluster `k` overwritten. -/
def setData (V : Volume) (k : Nat) (b : Buf) : Volume :=
  { V with data := Function.update V.data k fun i => if i < V.clusterSize then b i else 0 }

end Volume

/-- `c` after an entry was stored in the slot `p`. -/
def Core.putEntry (c : Core) (p : Loc) (e : RawDirEntry) : Core :=
  if p.1 = 0 then c.putRootEntry p.2 e
  else c.putCluster p.1 ((c.clusterBytes p.1).blit (dirEntrySize * p.2) e.bytes dirEntrySize)

theorem volume_setFat {c : Core} {k : Nat} (v : Nat) (h : k + k / 2 + 1 < c.fs.fatSizeBytes) :
    (c.setFat k v).volume = c.volume.setFat k (v % 4096) := by
  have hf : getFatEntry (c.setFat k v) = Function.update (getFatEntry c) k (v % 4096) := by
    funext x
    by_cases hx : x = k
    · rw [hx, Function.update_self, getFatEntry_setFat_self h]
    · rw [Function.update_of_ne hx, getFatEntry_setFat_ne hx]
  unfold Volume.setFat
  rw [show (c.setFat k v).volume = { c.volume with fat := getFatEntry (c.setFat k v) } from rfl, hf]
  rfl

theorem volume_putCluster {c : Core} (h : c.fs.Accepted) {k : Nat} (b : Buf) (hk : 2 ≤ k)
    (hlt : k < c.fs.totalClusters + 2) : (c.putCluster k b).volume = c.volume.setData k b := by
  have hc := h.clusters.2
  have hd : (c.putCluster k b).volume.data =
      Function.update c.volume.data k fun i => if i < c.volume.clusterSize then b i else 0 := by
    funext x i
    show (if 2 ≤ x ∧ x < c.fs.totalClusters + 2 ∧ i < c.fs.clusterSizeBytes
      then (c.putCluster k b).clusterBytes x i else 0) = _
    by_cases hx : x = k
    · subst hx
      rw [Function.update_self]
      by_cases hi : i < c.fs.clusterSizeBytes
      · rw [if_pos ⟨hk, hlt, hi⟩, clusterBytes_putCluster_self h hi]
        exact (if_pos hi).symm
      · rw [if_neg fun hc => hi hc.2.2]
        exact (if_neg hi).symm
    · rw [Function.update_of_ne hx]
      show _ = if 2 ≤ x ∧ x < c.fs.totalClusters + 2 ∧ i < c.fs.clusterSizeBytes then c.clusterBytes x i else 0
      split
      · rename_i hr
        exact clusterBytes_putCluster_ne h hk hr.1 (by omega) (by omega) hx hr.2.2
      · rfl
  unfold Volume.setData
  rw [show (c.putCluster k b).volume = { c.volume with data := (c.putCluster k b).volume.data } from rfl, hd]

theorem volume_data {c : Core} {k i : Nat} (hk : 2 ≤ k) (hlt : k < c.fs.totalClusters + 2)
    (hi : i < c.fs.clusterSizeBytes) : c.volume.data k i = c.clusterBytes k i := if_pos ⟨hk, hlt, hi⟩

theorem volume_data_out {c : Core} {k i : Nat} (hi : c.fs.clusterSizeBytes ≤ i) : c.volume.data k i = 0 :=
  if_neg fun h => by omega

/-- The slots of a directory: in the root table, or in a cluster of the volume. -/
def Core.IsSlot (c : Core) (p : Loc) : Prop :=
  (p.1 = 0 ∧ p.2 < c.fs.rootEntryCount) ∨
    (2 ≤ p.1 ∧ p.1 < c.fs.totalClusters + 2 ∧ p.2 < c.fs.entriesPerCluster)

theorem volume_putEntry {c : Core} (h : c.fs.Accepted) {p : Loc} (e : RawDirEntry) (hp : c.IsSlot p) :
    (c.putEntry p e).volume = c.volume.putSlot p e := by
  obtain ⟨o, i⟩ := p
  unfold Core.putEntry Volume.putSlot
  rcases hp with ⟨h0, hi⟩ | ⟨h2, hlt, hi⟩
  · obtain rfl : o = 0 := h0
    rw [if_pos rfl, if_pos rfl]
    have hr : (c.putRootEntry i e).volume.root = Function.update c.volume.root i e := by
      funext x
      show (if x < c.fs.rootEntryCount
        then slotAt (c.rootDir.blit (dirEntrySize * i) e.bytes dirEntrySize) x else _) = _
      by_cases hx : x = i
      · subst hx
        rw [Function.update_self, if_pos hi]
        exact decodeEntry_bytes fun k hk => Buf.blit_in hk
      · rw [Function.update_of_ne hx]
        show _ = if x < c.fs.rootEntryCount then slotAt c.rootDir x else _
        split
        · exact decodeEntry_congr fun k hk => Buf.blit_out (by unfold dirEntrySize; omega)
        · rfl
    rw [show (c.putRootEntry i e).volume = { c.volume with root := (c.putRootEntry i e).volume.root } from rfl, hr]
  · have h2 : 2 ≤ o := h2
    rw [if_neg (show o ≠ 0 by omega), if_neg (show o ≠ 0 by omega), volume_putCluster h _ h2 hlt]
    unfold Volume.setData
    congr 2
    funext x
    have hcs : c.fs.clusterSizeBytes = dirEntrySize * c.fs.entriesPerCluster := h.geom.clusterSize_eq
    show (if x < c.fs.clusterSizeBytes then _ else _) = _
    by_cases hx : x < c.fs.clusterSizeBytes
    · rw [if_pos hx]
      unfold Buf.blit
      split
      · rfl
      · exact (volume_data h2 hlt hx).symm
    · have hi : i < c.fs.entriesPerCluster := hi
      have : dirEntrySize * (i + 1) ≤ c.fs.clusterSizeBytes := by rw [hcs]; exact Nat.mul_le_mul_left _ hi
      rw [Nat.mul_succ] at this
      have hout : x < dirEntrySize * i ∨ dirEntrySize * i + dirEntrySize ≤ x := by omega
      rw [if_neg hx, Buf.blit_out hout, volume_data_out (by omega)]

/-! ## Reading slots -/

/-- The entry in a slot, of any cluster number. -/
def Core.slotIn (c : Core) (p : Loc) : RawDirEntry :=
  if p.1 = 0 then slotAt c.rootDir p.2 else slotAt (c.clusterBytes p.1) p.2

/-- Slots read from a buffer that holds the cluster. -/
theorem slotAt_eq {c : Core} (h : c.fs.Accepted) {k i : Nat} {b : Buf}
    (hb : ∀ x < sectorSize * c.fs.sectorsPerCluster, b x = c.clusterBytes k x) (hi : i < c.fs.entriesPerCluster) :
    slotAt b i = slotAt (c.clusterBytes k) i := by
  have hepc := h.entriesPerCluster
  refine decodeEntry_congr fun x hx => hb _ ?_
  unfold dirEntrySize sectorSize
  omega

/-- A slot of the volume is the entry in it. -/
theorem slot_eq {c : Core} (h : c.fs.Accepted) {p : Loc} (hp : c.IsSlot p) : c.volume.slot p = c.slotIn p := by
  obtain ⟨k, i⟩ := p
  unfold Volume.slot Core.slotIn
  rcases hp with ⟨h0, hi⟩ | ⟨h2, hlt, hi⟩
  · obtain rfl : k = 0 := h0
    rw [if_pos rfl, if_pos rfl]
    exact if_pos hi
  · have h2 : 2 ≤ k := h2
    have hcs : c.fs.clusterSizeBytes = dirEntrySize * c.fs.entriesPerCluster := h.geom.clusterSize_eq
    have hle : dirEntrySize * (i + 1) ≤ c.fs.clusterSizeBytes := by rw [hcs]; exact Nat.mul_le_mul_left _ hi
    rw [Nat.mul_succ] at hle
    rw [if_neg (show k ≠ 0 by omega), if_neg (show k ≠ 0 by omega)]
    refine decodeEntry_congr fun x hx => volume_data h2 hlt ?_
    have hx : x < dirEntrySize := hx
    show dirEntrySize * i + x < _
    omega

/-- A slot of the volume, read from a buffer holding its cluster. -/
theorem slotAt_buffer {c : Core} (h : c.fs.Accepted) {b : Buf} {k i : Nat} (hk : 2 ≤ k)
    (hlt : k < c.fs.totalClusters + 2) (hb : ∀ x < sectorSize * c.fs.sectorsPerCluster, b x = c.clusterBytes k x)
    (hi : i < c.fs.entriesPerCluster) : slotAt b i = c.volume.slot (k, i) := by
  rw [slot_eq h (.inr ⟨hk, hlt, hi⟩), slotAt_eq h hb hi]
  exact (if_neg (show ¬ k = 0 by omega)).symm

end AltoniumOS.Fat12

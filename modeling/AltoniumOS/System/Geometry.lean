/-
The layouts `fat12_init` accepts: which of them are consistent, by the fields of the boot sector.
-/
import AltoniumOS.System.Blank

namespace AltoniumOS.Fat12

open AltoniumOS.Lib

/-- The parts of a volume behind its boot sector. -/
inductive Area where
  | fats
  | root
  | cluster (k : Nat)
  deriving DecidableEq

namespace Fs

/-- The parts the layout has. -/
def HasArea (fs : Fs) : Area → Prop
  | .cluster k => 2 ≤ k ∧ k < fs.totalClusters + 2
  | _ => True

/-- The first sector of a part, counted from the boot sector. -/
def areaStart (fs : Fs) : Area → Nat
  | .fats => fs.fatStartLba
  | .root => fs.rootDirStartLba
  | .cluster k => clusterToLba fs k

/-- How many sectors it takes. -/
def areaSize (fs : Fs) : Area → Nat
  | .fats => fs.numFats * fs.sectorsPerFat
  | .root => fs.rootDirSectors
  | .cluster _ => fs.sectorsPerCluster

/-- Sector `l` belongs to the part. -/
def Holds (fs : Fs) (a : Area) (l : Nat) : Prop := fs.areaStart a ≤ l ∧ l < fs.areaStart a + fs.areaSize a

/-- A layout that can be worked with: a FAT, the boot sector outside of it, no sector in two parts, the clusters
within the volume, every cached area within its buffer, and an entry of the FAT for every cluster. -/
structure Consistent (fs : Fs) : Prop where
  fats : 1 ≤ fs.numFats
  boot : ¬ fs.Holds .fats 0
  apart : ∀ a b, fs.HasArea a → fs.HasArea b → a ≠ b → ∀ l, ¬ (fs.Holds a l ∧ fs.Holds b l)
  inside : fs.dataStartLba + fs.totalClusters * fs.sectorsPerCluster ≤ fs.totalSectors ∧
    fs.totalSectors < 4294967296
  buffers : fs.fatSizeBytes ≤ maxFatSectors * sectorSize ∧ fs.sectorsPerFat * sectorSize ≤ fs.fatSizeBytes ∧
    fs.rootDirSectors * sectorSize ≤ maxRootDirSectors * sectorSize ∧
    fs.rootEntryCount * dirEntrySize ≤ fs.rootDirSectors * sectorSize ∧
    fs.clusterSizeBytes ≤ maxSectorsPerCluster * sectorSize
  entries : ∀ k, 2 ≤ k → k < fs.totalClusters + 2 → k + k / 2 + 1 < fs.fatSizeBytes

variable {fs : Fs}

/-! ## What every accepted layout has -/

/-- The areas follow each other, and the clusters do. -/
theorem Accepted.apart (h : fs.Accepted) (a b : Area) (ha : fs.HasArea a) (hb : fs.HasArea b) (hab : a ≠ b)
    (l : Nat) : ¬ (fs.Holds a l ∧ fs.Holds b l) := by
  rintro ⟨h1, h2⟩
  have hfat := h.fatStart
  have hroot := h.rootStart
  have hdata := h.dataStart
  unfold Holds at h1 h2
  -- where the parts lie, counted in sectors
  have hcluster : ∀ k, 2 ≤ k → clusterToLba fs k = fs.dataStartLba + (k - 2) * fs.sectorsPerCluster :=
    fun k hk => by
    unfold clusterToLba
    rw [if_neg (by omega)]
  cases a with
  | fats =>
    cases b with
    | fats => exact hab rfl
    | root =>
      simp only [areaStart, areaSize] at h1 h2
      omega
    | cluster k =>
      simp only [areaStart, areaSize, hcluster k hb.1] at h1 h2
      omega
  | root =>
    cases b with
    | fats =>
      simp only [areaStart, areaSize] at h1 h2
      omega
    | root => exact hab rfl
    | cluster k =>
      simp only [areaStart, areaSize, hcluster k hb.1] at h1 h2
      omega
  | cluster k =>
    simp only [areaStart, areaSize, hcluster k ha.1] at h1
    cases b with
    | fats =>
      simp only [areaStart, areaSize] at h2
      omega
    | root =>
      simp only [areaStart, areaSize] at h2
      omega
    | cluster m =>
      simp only [areaStart, areaSize, hcluster m hb.1] at h2
      -- the earlier of two clusters ends where the next one begins
      have hstep : ∀ i j : Nat, i < j → (i + 1) * fs.sectorsPerCluster ≤ j * fs.sectorsPerCluster :=
        fun i j hij => Nat.mul_le_mul_right _ hij
      have hk := ha.1
      have hm := hb.1
      rcases Nat.lt_or_gt_of_ne (fun he : k = m => hab (by rw [he])) with hlt | hlt
      · have := hstep (k - 2) (m - 2) (by omega)
        rw [Nat.succ_mul] at this
        omega
      · have := hstep (m - 2) (k - 2) (by omega)
        rw [Nat.succ_mul] at this
        omega

theorem Accepted.buffers (h : fs.Accepted) :
    fs.fatSizeBytes ≤ maxFatSectors * sectorSize ∧
      fs.sectorsPerFat * sectorSize ≤ fs.fatSizeBytes ∧
      fs.rootDirSectors * sectorSize ≤ maxRootDirSectors * sectorSize ∧
      fs.rootEntryCount * dirEntrySize ≤ fs.rootDirSectors * sectorSize ∧
      fs.clusterSizeBytes ≤ maxSectorsPerCluster * sectorSize := by
  have hroot := h.rootSectors
  refine ⟨?_, h.fatSize.ge, Nat.mul_le_mul_right _ h.rootSectors_le, ?_, ?_⟩
  · rw [h.fatSize]
    exact Nat.mul_le_mul_right _ h.spf.2
  · unfold sectorSize at *
    omega
  · rw [h.clusterSize]
    exact Nat.mul_le_mul_right _ h.spc.2

/-- What the checks leave open: a FAT at all, a sector before it, and room in it for the last cluster. -/
theorem Accepted.consistent_iff (h : fs.Accepted)
    (hin : fs.dataStartLba + fs.totalClusters * fs.sectorsPerCluster ≤ fs.totalSectors ∧
      fs.totalSectors < 4294967296) :
    fs.Consistent ↔ 1 ≤ fs.numFats ∧ 1 ≤ fs.reservedSectors ∧
      fs.totalClusters + 1 + (fs.totalClusters + 1) / 2 + 1 < fs.sectorsPerFat * sectorSize := by
  have hclusters := h.clusters.1
  have hstart : fs.areaStart .fats = fs.reservedSectors := h.fatStart
  constructor
  · intro hc
    have hsize : 1 ≤ fs.areaSize .fats := Nat.mul_le_mul hc.fats h.spf.1
    have hboot := hc.boot
    unfold Holds at hboot
    refine ⟨hc.fats, by omega, ?_⟩
    rw [← h.fatSize]
    exact hc.entries (fs.totalClusters + 1) (by omega) (by omega)
  · rintro ⟨hfats, hreserved, hlast⟩
    refine ⟨hfats, fun hb => ?_, h.apart, hin, h.buffers, fun k _ hk => ?_⟩
    · have := hb.1
      omega
    · rw [h.fatSize]
      omega

end Fs

/-! ## By the fields of the boot sector -/

/-- The number of sectors a boot sector gives its volume. -/
def bootSectors (sector : Buf) : Nat := if sector.le 19 2 ≠ 0 then sector.le 19 2 else sector.le 32 4

/-- The number of clusters that is left of them behind the reserved sectors, the FATs and the root directory. -/
def bootClusters (sector : Buf) : Nat :=
  (bootSectors sector - (sector.le 14 2 + sector.le 16 1 * sector.le 22 2 +
    (sector.le 17 2 * dirEntrySize + (sectorSize - 1)) / sectorSize)) / sector.le 13 1

/-- A boot sector with a FAT, a reserved sector, and an entry in the FAT for its last cluster. -/
structure Complete (sector : Buf) : Prop where
  fats : sector.le 16 1 ≠ 0
  reserved : sector.le 14 2 ≠ 0
  entries : bootClusters sector + 1 + (bootClusters sector + 1) / 2 + 1 < sector.le 22 2 * sectorSize

theorem totalClusters_ofBoot {sector : Buf} {baseLba : Nat} (h : Mountable sector baseLba) :
    (Fs.ofBoot sector baseLba).totalClusters = bootClusters sector := by
  have hdata := h.dataSectors
  have hstart := h.accepted.dataStart
  show (Fs.ofBoot sector baseLba).totalDataSectors / sector.le 13 1 = bootClusters sector
  unfold bootClusters
  have htotal : (Fs.ofBoot sector baseLba).totalSectors = bootSectors sector := rfl
  have hareas : (Fs.ofBoot sector baseLba).dataStartLba =
      sector.le 14 2 + sector.le 16 1 * sector.le 22 2 +
        (sector.le 17 2 * dirEntrySize + (sectorSize - 1)) / sectorSize := rfl
  rw [← htotal, ← hareas, ← hdata, Nat.add_sub_cancel_left]

/-- A mount that succeeds leaves a consistent layout if and only if the boot sector it read is complete. -/
theorem mount_consistent_iff {baseLba : Nat} {s₀ s : State} (h : init baseLba s₀ = .ok .ok s) :
    s.fs.Consistent ↔ Complete (s₀.toCore.bootSector baseLba) := by
  obtain ⟨hm, hfs⟩ := init_sector h
  rw [hfs, hm.accepted.consistent_iff ⟨hm.fits, hm.totalSectors_lt⟩, totalClusters_ofBoot hm]
  constructor
  · rintro ⟨h1, h2, h3⟩
    exact ⟨Nat.one_le_iff_ne_zero.1 h1, Nat.one_le_iff_ne_zero.1 h2, h3⟩
  · rintro ⟨h1, h2, h3⟩
    exact ⟨Nat.one_le_iff_ne_zero.2 h1, Nat.one_le_iff_ne_zero.2 h2, h3⟩

theorem mount_consistent_iff_blank : blankBooted.fs.Consistent ↔ Complete (blankState.toCore.bootSector 0) :=
  mount_consistent_iff blank_booted

/-- The boot sector of the blank disk, with no FAT. -/
def noFatBoot : Buf := fun i => if i = 16 then 0 else blankBoot i

/-- The driver before its first mount, on a disk with nothing but that boot sector. -/
def noFatState : State := .initial fun l => if l = 0 then noFatBoot else fun _ => 0

/-- A volume without a FAT is mounted. -/
theorem mount_not_consistent :
    ¬ ∀ (baseLba : Nat) (s₀ s : State), init baseLba s₀ = .ok .ok s → s.fs.Consistent := by
  intro h
  have hm : Mountable (noFatState.toCore.bootSector 0) 0 := by
    constructor <;> decide
  obtain ⟨s, hs, -⟩ := gives_mount hm noFatState rfl fun _ => rfl
  have hfats := (h 0 noFatState s hs).fats
  rw [(init_sector hs).2] at hfats
  exact absurd hfats (by decide)

end AltoniumOS.Fat12

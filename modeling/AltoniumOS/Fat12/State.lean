/-
The static variables of `fat12.c` as one state, over the disk the driver talks to, and the four
disk calls it makes.

The disk is a map from 32-bit sector addresses to bytes. Whether a call succeeds is decided by
`faults`, the outcomes of the calls still to come: `none` succeeds, `some k` reports an error
after the first `k` sectors were transferred. `Core` is what the driver's results rest on;
the scratch buffers, the outcomes to come and the log of write calls stay outside it.
-/
import AltoniumOS.Lib.Exec
import AltoniumOS.Fat12.Entry

namespace AltoniumOS.Fat12

open AltoniumOS.Lib

/-- `fat12_fs_t` -/
structure Fs where
  bytesPerSector : Nat := 0
  sectorsPerCluster : Nat := 0
  reservedSectors : Nat := 0
  numFats : Nat := 0
  rootEntryCount : Nat := 0
  rootDirSectors : Nat := 0
  totalSectors : Nat := 0
  sectorsPerFat : Nat := 0
  fatStartLba : Nat := 0
  rootDirStartLba : Nat := 0
  dataStartLba : Nat := 0
  totalDataSectors : Nat := 0
  totalClusters : Nat := 0
  clusterSizeBytes : Nat := 0
  baseLba : Nat := 0
  fatSizeBytes : Nat := 0
  deriving DecidableEq

/-- `g_path_stack`, `g_path_names` and `g_path_depth`: the levels in use, outermost first. -/
@[ext] structure PathStack where
  levels : List (Nat × List UInt8)
  bounded : levels.length ≤ maxPathDepth

namespace PathStack

def empty : PathStack := ⟨[], by decide⟩

/-- `g_path_depth` -/
def depth (p : PathStack) : Nat := p.levels.length

/-- `g_path_stack[0 .. depth)` -/
def clusters (p : PathStack) : List Nat := p.levels.map (·.1)

/-- `g_path_names[0 .. depth)` -/
def names (p : PathStack) : List (List UInt8) := p.levels.map (·.2)

end PathStack

/-- The variables the results of the driver depend on, and the sectors of the disk. -/
structure Core where
  fs : Fs
  fatPrimary : Buf
  rootDir : Buf
  fsReady : Bool
  fatDirty : Bool
  rootDirty : Bool
  currentDirCluster : Nat
  pathStack : PathStack
  cwd : List UInt8
  sectors : Nat → Buf

structure State extends Core where
  fatSecondary : Buf
  clusterBuffer : Buf
  /-- The outcomes of the disk calls to come. -/
  faults : Nat → Option Nat
  /-- The write calls made so far: the first sector, and the sectors passed. -/
  writes : List (Nat × List Buf)

/-- The static variables as the program starts, on a disk that holds `sectors` and does not fail. -/
def State.initial (sectors : Nat → Buf) : State where
  fs := {}
  fatPrimary := fun _ => 0
  rootDir := fun _ => 0
  fsReady := false
  fatDirty := false
  rootDirty := false
  currentDirCluster := 0
  pathStack := .empty
  cwd := [slash]
  sectors := sectors
  fatSecondary := fun _ => 0
  clusterBuffer := fun _ => 0
  faults := fun _ => none
  writes := []

abbrev M := Exec State

/-- No disk call will fail. -/
def Reliable (s : State) : Prop := ∀ k, s.faults k = none

/-- `m` takes the core `c` to `c'` and returns `a`, when no disk call fails. -/
abbrev Gives {α : Type} (m : M α) (c : Core) (a : α) (c' : Core) : Prop := Yields State.toCore Reliable m c a c'

/-! ## Access to the state -/

def getCore : M Core := fun s => .ok s.toCore s

def modifyCore (f : Core → Core) : M Unit := fun s => .ok () { s with toCore := f s.toCore }

def getClusterBuffer : M Buf := fun s => .ok s.clusterBuffer s

def setClusterBuffer (b : Buf) : M Unit := fun s => .ok () { s with clusterBuffer := b }

def setFatSecondary (b : Buf) : M Unit := fun s => .ok () { s with fatSecondary := b }

/-- The outcome of the disk call made now. -/
def nextFault : M (Option Nat) := fun s => .ok (s.faults 0) { s with faults := fun k => s.faults (k + 1) }

def logWrite (lba : Nat) (passed : List Buf) : M Unit :=
  fun s => .ok () { s with writes := s.writes ++ [(lba, passed)] }

theorem gives_getCore (c : Core) : Gives getCore c c c := fun s h g => ⟨s, by rw [← h]; rfl, h, g⟩

theorem gives_modifyCore (f : Core → Core) (c : Core) : Gives (modifyCore f) c () (f c) :=
  fun s h g => ⟨_, rfl, by rw [← h], g⟩

theorem gives_setClusterBuffer (b : Buf) (c : Core) : Gives (setClusterBuffer b) c () c :=
  fun _ h g => ⟨_, rfl, h, g⟩

/-! ## The disk -/

/-- A 32-bit sector address plus an offset, as `uint32_t` adds them. -/
def lbaAdd (lba i : Nat) : Nat := (lba + i) % 4294967296

/-- How many of `n` sectors a call with this outcome transfers. -/
def transferred (fault : Option Nat) (n : Nat) : Nat :=
  match fault with
  | none => n
  | some k => min k n

theorem transferred_le (fault : Option Nat) (n : Nat) : transferred fault n ≤ n := by
  unfold transferred
  split
  · exact Nat.le_refl _
  · exact Nat.min_le_right ..

/-- `n` sectors from `lba` on, as one run of bytes. -/
def sectorBytes (sectors : Nat → Buf) (lba : Nat) : Buf :=
  fun i => sectors (lbaAdd lba (i / sectorSize)) (i % sectorSize)

/-- Sector `n` of a buffer. -/
def sectorOf (buffer : Buf) (n : Nat) : Buf := fun o => if o < sectorSize then buffer (sectorSize * n + o) else 0

/-- The first `n` sectors of a buffer. -/
def sectorsOf (buffer : Buf) (n : Nat) : List Buf := (List.range n).map (sectorOf buffer)

/-- The disk after writing the first `n` sectors of `buffer` at `lba`, sector after sector. -/
def putSectors (sectors : Nat → Buf) (lba : Nat) (buffer : Buf) : Nat → (Nat → Buf)
  | 0 => sectors
  | n + 1 => Function.update (putSectors sectors lba buffer n) (lbaAdd lba n) (sectorOf buffer n)

/-- `disk_read_sectors(lba, buffer + off, n)`: success, and the buffer afterwards. -/
def diskReadSectors (lba : Nat) (buffer : Buf) (off n : Nat) : M (Bool × Buf) := do
  if n = 0 then pure (false, buffer)
  else
    let fault ← nextFault
    let c ← getCore
    pure (fault.isNone, buffer.blit off (sectorBytes c.sectors lba) (sectorSize * transferred fault n))

/-- `disk_write_sectors(lba, buffer, n)` -/
def diskWriteSectors (lba : Nat) (buffer : Buf) (n : Nat) : M Bool := do
  if n = 0 then pure false
  else
    logWrite lba (sectorsOf buffer n)
    let fault ← nextFault
    modifyCore fun c => { c with sectors := putSectors c.sectors lba buffer (transferred fault n) }
    pure fault.isNone

/-- `disk_read_sector(lba, buffer + off)` -/
def diskReadSector (lba : Nat) (buffer : Buf) (off : Nat) : M (Bool × Buf) := diskReadSectors lba buffer off 1

/-- `disk_write_sector(lba, buffer)` -/
def diskWriteSector (lba : Nat) (buffer : Buf) : M Bool := diskWriteSectors lba buffer 1

theorem gives_diskReadSectors {lba off n : Nat} {buffer : Buf} (hn : n ≠ 0) (c : Core) :
    Gives (diskReadSectors lba buffer off n) c
      (true, buffer.blit off (sectorBytes c.sectors lba) (sectorSize * n)) c := by
  intro s h g
  refine ⟨{ s with faults := fun k => s.faults (k + 1) }, ?_, h, fun k => g (k + 1)⟩
  subst h
  unfold diskReadSectors
  rw [if_neg hn]
  show EStateM.Result.ok ((s.faults 0).isNone, _) _ = _
  rw [g 0]; rfl

theorem gives_diskWriteSectors {lba n : Nat} {buffer : Buf} (hn : n ≠ 0) (c : Core) :
    Gives (diskWriteSectors lba buffer n) c true { c with sectors := putSectors c.sectors lba buffer n } := by
  intro s h g
  refine ⟨{ s with
    toCore := { s.toCore with sectors := putSectors s.sectors lba buffer n }
    faults := fun k => s.faults (k + 1)
    writes := s.writes ++ [(lba, sectorsOf buffer n)] }, ?_, by rw [← h], fun k => g (k + 1)⟩
  unfold diskWriteSectors
  rw [if_neg hn]
  show EStateM.Result.ok (s.faults 0).isNone _ = _
  rw [g 0]; rfl

/-! ## Parts that return from every state -/

theorem total_getCore : Total getCore := fun s => ⟨_, s, rfl⟩

theorem total_modifyCore (f : Core → Core) : Total (modifyCore f) := fun _ => ⟨_, _, rfl⟩

theorem total_getClusterBuffer : Total getClusterBuffer := fun s => ⟨_, s, rfl⟩

theorem total_setClusterBuffer (b : Buf) : Total (setClusterBuffer b) := fun _ => ⟨_, _, rfl⟩

theorem total_setFatSecondary (b : Buf) : Total (setFatSecondary b) := fun _ => ⟨_, _, rfl⟩

theorem total_nextFault : Total nextFault := fun _ => ⟨_, _, rfl⟩

theorem total_diskReadSectors (lba : Nat) (buffer : Buf) (off n : Nat) :
    Total (diskReadSectors lba buffer off n) := by
  unfold diskReadSectors
  split
  · exact .pure _
  · exact total_nextFault.bind fun _ => total_getCore.bind fun _ => .pure _

theorem total_diskWriteSectors (lba : Nat) (buffer : Buf) (n : Nat) : Total (diskWriteSectors lba buffer n) := by
  unfold diskWriteSectors
  split
  · exact .pure _
  · exact Total.bind (fun _ => ⟨_, _, rfl⟩) fun _ => total_nextFault.bind fun _ =>
      (total_modifyCore _).bind fun _ => .pure _

/-! ## What a write changes -/

theorem putSectors_other {sectors : Nat → Buf} {lba l : Nat} {buffer : Buf} :
    ∀ {n : Nat}, (∀ k < n, l ≠ lbaAdd lba k) → putSectors sectors lba buffer n l = sectors l
  | 0, _ => rfl
  | n + 1, h => by
    rw [putSectors, Function.update_of_ne (h n (by omega))]
    exact putSectors_other fun k hk => h k (by omega)

theorem lbaAdd_inj {lba i j : Nat} (hi : i < 4294967296) (hj : j < 4294967296) (h : lbaAdd lba i = lbaAdd lba j) :
    i = j := by
  unfold lbaAdd at h; omega

theorem lbaAdd_lbaAdd (lba i j : Nat) : lbaAdd (lbaAdd lba i) j = lbaAdd lba (i + j) := by
  unfold lbaAdd; omega

theorem putSectors_at {sectors : Nat → Buf} {lba : Nat} {buffer : Buf} :
    ∀ {n k : Nat}, k < n → n ≤ 4294967296 → putSectors sectors lba buffer n (lbaAdd lba k) = sectorOf buffer k
  | n + 1, k, hk, hn => by
    rw [putSectors]
    by_cases h : k = n
    · subst h; rw [Function.update_self]
    · rw [Function.update_of_ne fun he => h (lbaAdd_inj (by omega) (by omega) he)]
      exact putSectors_at (by omega) (by omega)

/-- Reading back what was written. -/
theorem sectorBytes_putSectors {sectors : Nat → Buf} {lba i n : Nat} {buffer : Buf} (hi : i < sectorSize * n)
    (hn : n ≤ 4294967296) : sectorBytes (putSectors sectors lba buffer n) lba i = buffer i := by
  unfold sectorBytes
  have h : i / sectorSize < n := by unfold sectorSize at *; omega
  rw [putSectors_at h hn, sectorOf, if_pos (Nat.mod_lt _ (by decide))]
  exact congrArg buffer (Nat.div_add_mod ..)

/-- The sectors behind those written read as before. -/
theorem sectorBytes_putSectors_out {sectors : Nat → Buf} {lba i n : Nat} {buffer : Buf} (hi : sectorSize * n ≤ i)
    (hlt : i < 4294967296) : sectorBytes (putSectors sectors lba buffer n) lba i = sectorBytes sectors lba i := by
  refine congrFun (putSectors_other fun k hk he => ?_) _
  have := lbaAdd_inj (by unfold sectorSize; omega) (by unfold sectorSize at hi; omega) he
  unfold sectorSize at *
  omega

/-- Only the bytes of the sectors written matter. -/
theorem putSectors_congr {sectors : Nat → Buf} {lba : Nat} {a b : Buf} :
    ∀ {n : Nat}, (∀ i < sectorSize * n, a i = b i) → putSectors sectors lba a n = putSectors sectors lba b n
  | 0, _ => rfl
  | n + 1, h => by
    have hs : sectorOf a n = sectorOf b n := funext fun o => by
      unfold sectorOf
      split
      · exact h _ (by rw [Nat.mul_succ]; omega)
      · rfl
    rw [putSectors, putSectors, putSectors_congr fun i hi => h i (by rw [Nat.mul_succ]; omega), hs]

end AltoniumOS.Fat12

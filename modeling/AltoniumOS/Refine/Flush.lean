/-
Flushing, under any faults. The two flush loops are lists of sector writes, cut short at the first
call that fails; a sector of the disk is in step with its cache afterwards if and only if it was
written or was in step before.
-/
import AltoniumOS.Lib.Writes
import AltoniumOS.Refine.Entry

namespace AltoniumOS.Fat12

open AltoniumOS.Lib

/-! ## Lists of sector writes -/

/-- A list of sector writes, up to a failure. -/
def writeAll : List (Nat × Buf) → M Bool
  | [] => pure true
  | w :: ws => do
    if ← diskWriteSector w.1 w.2 then writeAll ws else pure false

/-- The writes that reach the disk: all before the first failure, and the failing one if its sector was
transferred all the same. -/
def done (faults : Nat → Option Nat) : List (Nat × Buf) → List (Nat × Buf)
  | [] => []
  | w :: ws =>
    match faults 0 with
    | none => w :: done (later faults 1) ws
    | some 0 => []
    | some (_ + 1) => [w]

/-- The writes that do not. -/
def undone (faults : Nat → Option Nat) : List (Nat × Buf) → List (Nat × Buf)
  | [] => []
  | w :: ws =>
    match faults 0 with
    | none => undone (later faults 1) ws
    | some 0 => w :: ws
    | some (_ + 1) => ws

/-- The calls made. -/
def spent (faults : Nat → Option Nat) : List (Nat × Buf) → Nat
  | [] => 0
  | _ :: ws =>
    match faults 0 with
    | none => spent (later faults 1) ws + 1
    | some _ => 1

/-- No call fails. -/
def succeeds (faults : Nat → Option Nat) : List (Nat × Buf) → Bool
  | [] => true
  | _ :: ws =>
    match faults 0 with
    | none => succeeds (later faults 1) ws
    | some _ => false

theorem done_append_undone :
    ∀ (faults : Nat → Option Nat) (ws : List (Nat × Buf)), done faults ws ++ undone faults ws = ws
  | _, [] => rfl
  | faults, w :: ws => by
    rw [done, undone]
    split
    · rw [List.cons_append, done_append_undone]
    · rfl
    · rfl

theorem done_reliable :
    ∀ {faults : Nat → Option Nat} {ws : List (Nat × Buf)}, (∀ k, faults k = none) → done faults ws = ws
  | _, [], _ => rfl
  | faults, w :: ws, h => by
    rw [done, h 0]
    exact congrArg _ (done_reliable fun k => h (k + 1))

theorem succeeds_iff :
    ∀ {faults : Nat → Option Nat} {ws : List (Nat × Buf)}, succeeds faults ws = true ↔
      ∀ k < ws.length, faults k = none
  | _, [] => iff_of_true rfl fun _ hk => nomatch hk
  | faults, w :: ws => by
    rw [succeeds]
    cases h0 : faults 0 with
    | none =>
      dsimp only
      rw [succeeds_iff]
      constructor
      · intro h k hk
        cases k with
        | zero => exact h0
        | succ k => exact h k (Nat.lt_of_succ_lt_succ hk)
      · exact fun h k hk => h (k + 1) (Nat.succ_lt_succ hk)
    | some m =>
      refine iff_of_false Bool.false_ne_true fun h => ?_
      rw [h 0 (Nat.succ_pos _)] at h0
      cases h0

/-- Then all of them are made, and nothing is left undone. -/
theorem spent_of_succeeds :
    ∀ {faults : Nat → Option Nat} {ws : List (Nat × Buf)}, (∀ k < ws.length, faults k = none) →
      spent faults ws = ws.length ∧ undone faults ws = []
  | _, [], _ => ⟨rfl, rfl⟩
  | faults, w :: ws, h => by
    have hlater : ∀ k < ws.length, later faults 1 k = none := fun k hk => h (k + 1) (Nat.succ_lt_succ hk)
    obtain ⟨h1, h2⟩ := spent_of_succeeds hlater
    rw [spent, undone, h 0 (Nat.succ_pos _)]
    exact ⟨congrArg Nat.succ h1, h2⟩

theorem undone_reliable {faults : Nat → Option Nat} {ws : List (Nat × Buf)} (h : ∀ k, faults k = none) :
    undone faults ws = [] :=
  (spent_of_succeeds fun k _ => h k).2

theorem succeeds_reliable {faults : Nat → Option Nat} {ws : List (Nat × Buf)} (h : ∀ k, faults k = none) :
    succeeds faults ws = true :=
  succeeds_iff.2 fun k _ => h k

/-- A write of one whole sector to a valid address. -/
def IsSectorWrite (w : Nat × Buf) : Prop := w.1 < 4294967296 ∧ sectorOf w.2 0 = w.2

theorem sectorOf_sectorOf (b : Buf) (i : Nat) : sectorOf (sectorOf b i) 0 = sectorOf b i := by
  funext o
  unfold sectorOf
  split
  · rename_i h
    rw [Nat.mul_zero, Nat.zero_add, if_pos h]
  · rfl

/-- How a list of sector writes runs. -/
theorem writeAll_run : ∀ (ws : List (Nat × Buf)) (s : State), (∀ w ∈ ws, IsSectorWrite w) →
    ∃ s', writeAll ws s = .ok (succeeds s.faults ws) s' ∧
      s'.toCore = { s.toCore with sectors := applyWrites s.sectors (done s.faults ws) } ∧
      s'.faults = later s.faults (spent s.faults ws)
  | [], s, _ => ⟨s, rfl, rfl, rfl⟩
  | w :: ws, s, h => by
    obtain ⟨hlt, hsec⟩ := h w (List.mem_cons_self ..)
    have hput : ∀ S : Nat → Buf, putSectors S w.1 w.2 1 = Function.update S w.1 w.2 := fun S => by
      rw [putSectors, putSectors, hsec, lbaAdd, Nat.add_zero, Nat.mod_eq_of_lt hlt]
    have hrun : diskWriteSector w.1 w.2 s = .ok (s.faults 0).isNone
        { s with
          toCore := { s.toCore with sectors := putSectors s.sectors w.1 w.2 (transferred (s.faults 0) 1) }
          faults := later s.faults 1
          writes := s.writes ++ [(w.1, sectorsOf w.2 1)] } := rfl
    rw [writeAll, done, spent, succeeds]
    cases hf : s.faults 0 with
    | none =>
      rw [hf] at hrun
      obtain ⟨s', h1, h2, h3⟩ := writeAll_run ws _ fun v hv => h v (List.mem_cons_of_mem _ hv)
      refine ⟨s', (bind_ok hrun).trans h1, ?_, h3.trans ?_⟩
      · rw [h2]
        simp only [transferred, hput]
        rfl
      · simp only [later_later]
    | some k =>
      rw [hf] at hrun
      refine ⟨_, bind_ok hrun, ?_, rfl⟩
      cases k with
      | zero => rfl
      | succ k => simp only [transferred, Nat.min_eq_right (Nat.le_add_left 1 k), hput]; rfl

theorem writeAll_append : ∀ (ws vs : List (Nat × Buf)),
    writeAll (ws ++ vs) = writeAll ws >>= fun ok => if ok then writeAll vs else pure false
  | [], vs => rfl
  | w :: ws, vs => by
    rw [List.cons_append, writeAll, writeAll, bind_assoc]
    refine bind_congr fun ok => ?_
    cases ok with
    | true => exact writeAll_append ws vs
    | false => rfl

/-! ## The flush loops as lists -/

/-- The sectors of `buffer` for the area at `lba`. -/
def areaWrites (lba : Nat) (buffer : Buf) (i n : Nat) : List (Nat × Buf) :=
  (List.range' i n).map fun i => (lbaAdd lba i, sectorOf buffer i)

theorem writeArea_eq (lba : Nat) (buffer : Buf) :
    ∀ (n i : Nat), writeArea lba buffer i n = writeAll (areaWrites lba buffer i n)
  | 0, _ => rfl
  | n + 1, i => by
    rw [writeArea, areaWrites, List.range'_succ, List.map_cons, writeAll]
    refine bind_congr fun ok => ?_
    rw [writeArea_eq lba buffer n (i + 1)]
    rfl

/-- The sectors of the root directory, as cached. -/
def Core.rootImage (c : Core) : List (Nat × Buf) :=
  areaWrites (lbaAdd c.fs.baseLba c.fs.rootDirStartLba) c.rootDir 0 c.fs.rootDirSectors

/-- The sectors of one copy of the FAT, as cached. -/
def Core.copyImage (c : Core) (k : Nat) : List (Nat × Buf) :=
  areaWrites (lbaAdd c.fs.baseLba (c.fs.fatStartLba + k * c.fs.sectorsPerFat)) c.fatPrimary 0 c.fs.sectorsPerFat

/-- The sectors of all copies. -/
def Core.fatImage (c : Core) : List (Nat × Buf) := (List.range' 0 c.fs.numFats).flatMap c.copyImage

theorem writeFatCopies_eq (c : Core) :
    ∀ (n k : Nat), writeFatCopies c k n = writeAll ((List.range' k n).flatMap c.copyImage)
  | 0, _ => rfl
  | n + 1, k => by
    rw [writeFatCopies, List.range'_succ, List.flatMap_cons, writeAll_append, writeArea_eq]
    refine bind_congr fun ok => ?_
    rw [writeFatCopies_eq c n (k + 1)]

/-- The writes a flush of the root directory makes. -/
def Core.rootWrites (c : Core) : List (Nat × Buf) := if c.rootDirty then c.rootImage else []

/-- The writes a flush of the FAT makes. -/
def Core.fatWrites (c : Core) : List (Nat × Buf) := if c.fatDirty then c.fatImage else []

theorem length_areaWrites (lba : Nat) (b : Buf) (i n : Nat) : (areaWrites lba b i n).length = n := by
  rw [areaWrites, List.length_map, List.length_range']

theorem length_rootWrites (c : Core) :
    c.rootWrites.length = if c.rootDirty = true then c.fs.rootDirSectors else 0 := by
  unfold Core.rootWrites
  split
  · exact length_areaWrites ..
  · rfl

theorem length_fatWrites (c : Core) :
    c.fatWrites.length = if c.fatDirty = true then c.fs.numFats * c.fs.sectorsPerFat else 0 := by
  unfold Core.fatWrites
  split
  · unfold Core.fatImage Core.copyImage
    simp [List.length_flatMap, length_areaWrites]
  · rfl

theorem isSectorWrite_area {lba i n : Nat} {b : Buf} {w : Nat × Buf} (h : w ∈ areaWrites lba b i n) :
    IsSectorWrite w := by
  obtain ⟨j, -, rfl⟩ := List.mem_map.1 h
  exact ⟨Nat.mod_lt _ (by decide), sectorOf_sectorOf b j⟩

theorem isSectorWrite_root {c : Core} : ∀ w ∈ c.rootWrites, IsSectorWrite w := by
  intro w hw
  unfold Core.rootWrites at hw
  split at hw
  · exact isSectorWrite_area hw
  · cases hw

theorem isSectorWrite_fat {c : Core} : ∀ w ∈ c.fatWrites, IsSectorWrite w := by
  intro w hw
  unfold Core.fatWrites at hw
  split at hw
  · obtain ⟨k, -, hk⟩ := List.mem_flatMap.1 hw
    exact isSectorWrite_area hk
  · cases hw

/-- How `fat12_flush_root` runs. -/
theorem flushRoot_run (s : State) :
    ∃ s', flushRoot s = .ok (if succeeds s.faults s.rootWrites then .ok else .errIo) s' ∧
      s'.toCore = { s.toCore with
        sectors := applyWrites s.sectors (done s.faults s.rootWrites)
        rootDirty := s.rootDirty && !succeeds s.faults s.rootWrites } ∧
      s'.faults = later s.faults (spent s.faults s.rootWrites) := by
  unfold flushRoot
  rw [bind_ok (show getCore s = .ok s.toCore s from rfl), writeArea_eq]
  cases hd : s.rootDirty with
  | false =>
    have hw : s.toCore.rootWrites = [] := by unfold Core.rootWrites; rw [hd]; rfl
    rw [hw]
    refine ⟨s, rfl, ?_, rfl⟩
    rw [Bool.false_and, ← hd]
    rfl
  | true =>
    have hw : s.toCore.rootWrites = s.toCore.rootImage := by unfold Core.rootWrites; rw [hd]; rfl
    obtain ⟨s₁, h1, h2, h3⟩ := writeAll_run s.toCore.rootWrites s isSectorWrite_root
    rw [Bool.not_true, if_neg (by simp)]
    rw [hw] at h1 h2 h3 ⊢
    rw [show areaWrites (lbaAdd s.fs.baseLba s.fs.rootDirStartLba) s.rootDir 0 s.fs.rootDirSectors =
      s.toCore.rootImage from rfl, bind_ok h1]
    cases hs : succeeds s.faults s.toCore.rootImage with
    | true =>
      refine ⟨{ s₁ with toCore := { s₁.toCore with rootDirty := false } }, rfl, ?_, h3⟩
      show { s₁.toCore with rootDirty := false } = _
      rw [h2]
      rfl
    | false =>
      refine ⟨s₁, rfl, ?_, h3⟩
      rw [h2, ← hd]
      simp

/-- How `fat12_flush_fats` runs. -/
theorem flushFats_run (s : State) :
    ∃ s', flushFats s = .ok (if succeeds s.faults s.fatWrites then .ok else .errIo) s' ∧
      s'.toCore = { s.toCore with
        sectors := applyWrites s.sectors (done s.faults s.fatWrites)
        fatDirty := s.fatDirty && !succeeds s.faults s.fatWrites } ∧
      s'.faults = later s.faults (spent s.faults s.fatWrites) := by
  unfold flushFats
  rw [bind_ok (show getCore s = .ok s.toCore s from rfl), writeFatCopies_eq]
  cases hd : s.fatDirty with
  | false =>
    have hw : s.toCore.fatWrites = [] := by unfold Core.fatWrites; rw [hd]; rfl
    rw [hw]
    refine ⟨s, rfl, ?_, rfl⟩
    rw [Bool.false_and, ← hd]
    rfl
  | true =>
    have hw : s.toCore.fatWrites = s.toCore.fatImage := by unfold Core.fatWrites; rw [hd]; rfl
    obtain ⟨s₁, h1, h2, h3⟩ := writeAll_run s.toCore.fatWrites s isSectorWrite_fat
    rw [Bool.not_true, if_neg (by simp)]
    rw [hw] at h1 h2 h3 ⊢
    rw [show (List.range' 0 s.fs.numFats).flatMap s.toCore.copyImage = s.toCore.fatImage from rfl, bind_ok h1]
    cases hs : succeeds s.faults s.toCore.fatImage with
    | true =>
      refine ⟨{ s₁ with toCore := { s₁.toCore with fatDirty := false } }, rfl, ?_, h3⟩
      show { s₁.toCore with fatDirty := false } = _
      rw [h2]
      rfl
    | false =>
      refine ⟨s₁, rfl, ?_, h3⟩
      rw [h2, ← hd]
      simp

/-- The end of every change, when no call fails: the dirty areas are written, and nothing is dirty. -/
def Core.flushed (c : Core) : Core :=
  { c with
    sectors := applyWrites c.sectors (c.rootWrites ++ c.fatWrites)
    rootDirty := false
    fatDirty := false }

/-- Both flushes, when no call fails. -/
theorem flushes {s : State} (hg : Reliable s) : ∃ s₁ s₂, flushRoot s = .ok .ok s₁ ∧ flushFats s₁ = .ok .ok s₂ ∧
    s₂.toCore = s.toCore.flushed ∧ Reliable s₂ := by
  obtain ⟨s₁, h1, h2, h3⟩ := flushRoot_run s
  obtain ⟨s₂, h4, h5, h6⟩ := flushFats_run s₁
  have hg1 : ∀ k, s₁.faults k = none := fun k => by rw [h3]; exact hg _
  rw [succeeds_reliable hg] at h1
  rw [succeeds_reliable hg1] at h4
  rw [done_reliable hg, succeeds_reliable hg] at h2
  rw [done_reliable hg1, succeeds_reliable hg1] at h5
  have hw : s₁.toCore.fatWrites = s.toCore.fatWrites := by rw [h2]; rfl
  refine ⟨s₁, s₂, h1, h4, ?_, fun k => by rw [h6]; exact hg1 _⟩
  rw [h5, hw, h2]
  unfold Core.flushed
  rw [applyWrites_append]
  simp

theorem gives_flushAll (c : Core) : Gives flushAll c .ok c.flushed := by
  intro s hs hg
  obtain ⟨s₁, s₂, h1, h2, h3, h4⟩ := flushes hg
  refine ⟨s₂, ?_, by rw [h3, hs], h4⟩
  unfold flushAll
  rw [bind_ok h1, bind_ok h2]
  rfl

/-- `fat12_flush` -/
theorem gives_flush {c : Core} (hr : c.fsReady = true) : Gives flush c .ok c.flushed := by
  intro s hs hg
  obtain ⟨s₁, s₂, h1, h2, h3, h4⟩ := flushes hg
  refine ⟨s₂, ?_, by rw [h3, hs], h4⟩
  have hready : s.fsReady = true := by rw [← hr, ← hs]
  unfold flush
  rw [bind_ok (show getCore s = .ok s.toCore s from rfl), hready, Bool.not_true,
    if_neg Bool.false_ne_true, bind_ok h1]
  exact h2

/-! ## The sectors written -/

theorem mem_areaWrites {lba n : Nat} {b : Buf} {w : Nat × Buf} :
    w ∈ areaWrites lba b 0 n ↔ ∃ j < n, w = (lbaAdd lba j, sectorOf b j) := by
  simp only [areaWrites, List.mem_map, List.mem_range'_1, Nat.zero_le, Nat.zero_add, true_and]
  exact exists_congr fun j => and_congr_right fun _ => eq_comm

section

variable {c : Core}

/-- The root directory lies behind the FAT copies and before the clusters. -/
theorem rootImage_address (h : c.fs.Accepted) {w : Nat × Buf} (hw : w ∈ c.rootImage) :
    ∃ i, c.fs.rootDirStartLba ≤ i ∧ i < c.fs.dataStartLba ∧ w.1 = lbaAdd c.fs.baseLba i := by
  obtain ⟨j, hj, rfl⟩ := mem_areaWrites.1 hw
  refine ⟨c.fs.rootDirStartLba + j, Nat.le_add_right .., ?_, lbaAdd_lbaAdd ..⟩
  rw [h.dataStart, ← h.rootStart]
  omega

theorem copy_le {fs : Fs} {k j : Nat} (hk : k < fs.numFats) (hj : j < fs.sectorsPerFat) :
    k * fs.sectorsPerFat + j < fs.numFats * fs.sectorsPerFat := by
  have : (k + 1) * fs.sectorsPerFat ≤ fs.numFats * fs.sectorsPerFat := Nat.mul_le_mul_right _ hk
  rw [Nat.succ_mul] at this
  omega

theorem mem_fatImage {w : Nat × Buf} : w ∈ c.fatImage ↔ ∃ k < c.fs.numFats, w ∈ c.copyImage k := by
  simp only [Core.fatImage, List.mem_flatMap, List.mem_range'_1, Nat.zero_le, Nat.zero_add, true_and]

/-- The FAT copies lie behind the reserved sectors and before the root directory. -/
theorem fatImage_address (h : c.fs.Accepted) {w : Nat × Buf} (hw : w ∈ c.fatImage) :
    ∃ i, c.fs.reservedSectors ≤ i ∧ i < c.fs.rootDirStartLba ∧ w.1 = lbaAdd c.fs.baseLba i := by
  obtain ⟨k, hk, hw⟩ := mem_fatImage.1 hw
  obtain ⟨j, hj, rfl⟩ := mem_areaWrites.1 hw
  have := copy_le hk hj
  refine ⟨c.fs.fatStartLba + k * c.fs.sectorsPerFat + j, ?_, ?_, lbaAdd_lbaAdd ..⟩
  · rw [h.fatStart]; omega
  · rw [h.fatStart, h.rootStart]; omega

theorem rootWrites_sub {w : Nat × Buf} (hw : w ∈ c.rootWrites) : w ∈ c.rootImage := by
  unfold Core.rootWrites at hw
  split at hw
  · exact hw
  · cases hw

theorem fatWrites_sub {w : Nat × Buf} (hw : w ∈ c.fatWrites) : w ∈ c.fatImage := by
  unfold Core.fatWrites at hw
  split at hw
  · exact hw
  · cases hw

/-- A flush writes between the reserved sectors and the clusters. -/
theorem flush_address (h : c.fs.Accepted) {w : Nat × Buf} (hw : w ∈ c.rootWrites ++ c.fatWrites) :
    ∃ i, c.fs.reservedSectors ≤ i ∧ i < c.fs.dataStartLba ∧ w.1 = lbaAdd c.fs.baseLba i := by
  have h1 := h.rootStart
  have h2 := h.dataStart
  rcases List.mem_append.1 hw with hw | hw
  · obtain ⟨i, h3, h4, h5⟩ := rootImage_address h (rootWrites_sub hw)
    exact ⟨i, by omega, h4, h5⟩
  · obtain ⟨i, h3, h4, h5⟩ := fatImage_address h (fatWrites_sub hw)
    exact ⟨i, h3, by omega, h5⟩

/-- No sector of a cluster lies before the data area. -/
theorem cluster_address_ne {fs : Fs} (h : fs.Accepted) {k i j : Nat} (hk : 2 ≤ k) (hlt : k < 65536)
    (hj : j < fs.sectorsPerCluster) (hi : i < fs.dataStartLba) :
    lbaAdd fs.baseLba i ≠ lbaAdd (lbaAdd fs.baseLba (clusterToLba fs k)) j := by
  rw [lba_cluster fs hk]
  intro he
  have h1 := lbaAdd_inj (by have := h.dataStart_lt; omega) (h.sectorIndex_lt hlt hj) he
  have h2 : fs.dataStartLba ≤ fs.sectorIndex k j := by
    unfold Fs.sectorIndex
    rw [Nat.add_assoc]
    exact Nat.le_add_right ..
  omega

/-- Writes before the data area change no cluster, so nothing of the volume. -/
theorem volume_written (h : c.fs.Accepted) {c' : Core} {ws : List (Nat × Buf)} (hfs : c'.fs = c.fs)
    (hfat : c'.fatPrimary = c.fatPrimary) (hroot : c'.rootDir = c.rootDir)
    (hsec : c'.sectors = applyWrites c.sectors ws)
    (hws : ∀ w ∈ ws, ∃ i < c.fs.dataStartLba, w.1 = lbaAdd c.fs.baseLba i) : c'.volume = c.volume := by
  obtain ⟨fs, fat, root, _, _, _, _, _, _, sectors⟩ := c'
  dsimp only at hfs hfat hroot hsec
  subst hfs hfat hroot hsec
  have hdata : ∀ k i, 2 ≤ k → k < c.fs.totalClusters + 2 → i < c.fs.clusterSizeBytes →
      sectorBytes (applyWrites c.sectors ws) (lbaAdd c.fs.baseLba (clusterToLba c.fs k)) i =
      c.clusterBytes k i := by
    intro k i hk hlt hi
    have h1 := h.clusters
    rw [h.clusterSize_eq] at hi
    refine congrFun (applyWrites_other fun w hw => ?_) _
    obtain ⟨i', hi', hw'⟩ := hws w hw
    rw [hw']
    exact cluster_address_ne h hk (by omega) (Nat.div_lt_of_lt_mul hi) hi'
  show Volume.mk .. = Volume.mk ..
  congr 1
  funext k i
  by_cases hki : 2 ≤ k ∧ k < c.fs.totalClusters + 2 ∧ i < c.fs.clusterSizeBytes
  · rw [if_pos hki, if_pos hki]
    exact hdata k i hki.1 hki.2.1 hki.2.2
  · rw [if_neg hki, if_neg hki]

theorem volume_flushed (h : c.fs.Accepted) : c.flushed.volume = c.volume :=
  volume_written h rfl rfl rfl rfl fun _ hw => by
    obtain ⟨i, -, hi, he⟩ := flush_address h hw
    exact ⟨i, hi, he⟩

theorem env_flushed (c : Core) : SameEnv c c.flushed := ⟨rfl, rfl, rfl, rfl, rfl⟩

end

end AltoniumOS.Fat12

/-
Caches and disk. `Synced`: every copy of the FAT and the root directory on the disk are what the caches
hold. Up to its flush a change writes clusters only and marks the caches it alters (`Behind`), under
any faults; so whether it ends in step is decided by which sectors the flush does not write.
-/
import AltoniumOS.Refine.Slots
import AltoniumOS.Refine.Operations

namespace AltoniumOS.Fat12

open AltoniumOS.Lib

/-- The FAT copies and the root directory on the disk are those cached. -/
structure Synced (c : Core) : Prop where
  root : ∀ i < sectorSize * c.fs.rootDirSectors,
    sectorBytes c.sectors (lbaAdd c.fs.baseLba c.fs.rootDirStartLba) i = c.rootDir i
  fat : ∀ k < c.fs.numFats, ∀ i < sectorSize * c.fs.sectorsPerFat,
    sectorBytes c.sectors (lbaAdd c.fs.baseLba (c.fs.fatStartLba + k * c.fs.sectorsPerFat)) i = c.fatPrimary i

/-! ## Sectors of the disk -/

/-- The disk, sector by sector. -/
def Core.media (c : Core) : Nat → Buf := fun l => sectorOf (c.sectors l) 0

section

variable {c c₀ : Core}

/-- An area holds the bytes of a buffer when its sectors are the buffer's. -/
theorem area_iff (c : Core) (lba n : Nat) (b : Buf) :
    (∀ i < sectorSize * n, sectorBytes c.sectors lba i = b i) ↔ Holds c.media (areaWrites lba b 0 n) := by
  have hat : ∀ j o, o < sectorSize → sectorBytes c.sectors lba (sectorSize * j + o) = c.sectors (lbaAdd lba j) o :=
    fun j o ho => by
    unfold sectorBytes sectorSize at *
    rw [show (512 * j + o) / 512 = j by omega, show (512 * j + o) % 512 = o by omega]
  constructor
  · intro h w hw
    obtain ⟨j, hj, rfl⟩ := mem_areaWrites.1 hw
    funext o
    show sectorOf (c.sectors (lbaAdd lba j)) 0 o = sectorOf b j o
    unfold sectorOf
    split
    · rename_i ho
      rw [Nat.mul_zero, Nat.zero_add, ← hat j o ho]
      exact h _ (by unfold sectorSize at *; omega)
    · rfl
  · intro h i hi
    have ho : i % sectorSize < sectorSize := Nat.mod_lt _ (by decide)
    have hi' : sectorSize * (i / sectorSize) + i % sectorSize = i := Nat.div_add_mod ..
    have hsec : sectorOf (c.sectors (lbaAdd lba (i / sectorSize))) 0 (i % sectorSize) =
        sectorOf b (i / sectorSize) (i % sectorSize) :=
      congrFun (h _ (mem_areaWrites.2 ⟨i / sectorSize, Nat.div_lt_of_lt_mul hi, rfl⟩)) (i % sectorSize)
    unfold sectorOf at hsec
    rw [if_pos ho, if_pos ho, Nat.mul_zero, Nat.zero_add, hi'] at hsec
    rw [← hsec, ← hat _ _ ho, hi']

theorem synced_iff (c : Core) : Synced c ↔ Holds c.media c.rootImage ∧ Holds c.media c.fatImage := by
  have hfat : Holds c.media c.fatImage ↔ ∀ k < c.fs.numFats, Holds c.media (c.copyImage k) := by
    constructor
    · exact fun h k hk w hw => h w (mem_fatImage.2 ⟨k, hk, hw⟩)
    · intro h w hw
      obtain ⟨k, hk, hw⟩ := mem_fatImage.1 hw
      exact h k hk w hw
  rw [hfat]
  constructor
  · exact fun h => ⟨(area_iff ..).1 h.root, fun k hk => (area_iff ..).1 (h.fat k hk)⟩
  · exact fun h => ⟨(area_iff ..).2 h.1, fun k hk => (area_iff ..).2 (h.2 k hk)⟩

theorem media_applyWrites : ∀ {ws : List (Nat × Buf)} {S : Nat → Buf}, (∀ w ∈ ws, IsSectorWrite w) →
    (fun l => sectorOf (applyWrites S ws l) 0) = applyWrites (fun l => sectorOf (S l) 0) ws
  | [], _, _ => rfl
  | w :: ws, S, h => by
    have hupd : (fun l => sectorOf (Function.update S w.1 w.2 l) 0) =
        Function.update (fun l => sectorOf (S l) 0) w.1 w.2 := by
      funext l
      by_cases hl : l = w.1
      · subst hl
        rw [Function.update_self, Function.update_self]
        exact (h w (List.mem_cons_self ..)).2
      · rw [Function.update_of_ne hl, Function.update_of_ne hl]
    show (fun l => sectorOf (applyWrites (Function.update S w.1 w.2) ws l) 0) =
      applyWrites (Function.update _ w.1 w.2) ws
    rw [media_applyWrites fun v hv => h v (List.mem_cons_of_mem _ hv), hupd]

/-! ## No sector twice -/

theorem nodup_area {lba n : Nat} {b : Buf} (hn : n < 4294967296) : ((areaWrites lba b 0 n).map Prod.fst).Nodup := by
  unfold areaWrites
  rw [List.map_map]
  refine List.Nodup.map_on (fun i hi j hj h => ?_) (List.nodup_range' (s := 0) (n := n))
  have h1 := (List.mem_range'_1.1 hi).2
  have h2 := (List.mem_range'_1.1 hj).2
  exact lbaAdd_inj (by omega) (by omega) h

theorem nodup_rootImage (h : c.fs.Accepted) : (c.rootImage.map Prod.fst).Nodup := by
  have := h.rootSectors_le
  exact nodup_area (by unfold maxRootDirSectors at this; omega)

theorem nodup_fatImage (h : c.fs.Accepted) : (c.fatImage.map Prod.fst).Nodup := by
  have hspf := h.spf.2
  unfold maxFatSectors at hspf
  unfold Core.fatImage
  rw [List.map_flatMap, List.nodup_flatMap]
  refine ⟨fun k _ => nodup_area (by omega),
    List.Pairwise.imp_of_mem (fun {k k'} hk hk' hlt => ?_) (List.pairwise_lt_range' 1)⟩
  intro a ha ha'
  obtain ⟨w, hw, rfl⟩ := List.mem_map.1 ha
  obtain ⟨w', hw', he⟩ := List.mem_map.1 ha'
  obtain ⟨j, hj, rfl⟩ := mem_areaWrites.1 hw
  obtain ⟨j', hj', rfl⟩ := mem_areaWrites.1 hw'
  have hk := (List.mem_range'_1.1 hk).2
  have hk' := (List.mem_range'_1.1 hk').2
  have h1 := copy_le (by omega : k < c.fs.numFats) hj
  have h2 := copy_le (by omega : k' < c.fs.numFats) hj'
  have h3 := h.dataStart_lt
  have h4 := h.dataStart
  have h5 := h.fatStart
  have he : lbaAdd (lbaAdd c.fs.baseLba (c.fs.fatStartLba + k' * c.fs.sectorsPerFat)) j' =
    lbaAdd (lbaAdd c.fs.baseLba (c.fs.fatStartLba + k * c.fs.sectorsPerFat)) j := he
  rw [lbaAdd_lbaAdd, lbaAdd_lbaAdd] at he
  have := lbaAdd_inj (by omega) (by omega) he
  have h6 : (k + 1) * c.fs.sectorsPerFat ≤ k' * c.fs.sectorsPerFat := Nat.mul_le_mul_right _ hlt
  rw [Nat.succ_mul] at h6
  omega

/-- The root directory and the FAT copies share no sector. -/
theorem images_disjoint (h : c.fs.Accepted) {w v : Nat × Buf} (hw : w ∈ c.rootImage)
    (hv : v ∈ c.fatImage) : w.1 ≠ v.1 := by
  obtain ⟨i, h1, h2, h3⟩ := rootImage_address h hw
  obtain ⟨j, h4, h5, h6⟩ := fatImage_address h hv
  rw [h3, h6]
  intro he
  have h7 := h.dataStart_lt
  have h8 := h.dataStart
  have h9 := h.rootStart
  have := lbaAdd_inj (by omega) (by omega) he
  omega

/-! ## Flushing -/

/-- The writes a flush from this state would make and does not get done. -/
def State.unflushed (s : State) : List (Nat × Buf) :=
  undone s.faults s.rootWrites ++ undone (later s.faults (spent s.faults s.rootWrites)) s.fatWrites

/-- How the end of a change runs: it returns, and all it alters of the caches is their marks. -/
theorem flushAll_run (s : State) :
    ∃ s', flushAll s = .ok .ok s' ∧ SameEnv s.toCore s'.toCore ∧ s'.fatPrimary = s.fatPrimary ∧
      s'.rootDir = s.rootDir ∧ s'.sectors = applyWrites (applyWrites s.sectors (done s.faults s.rootWrites))
        (done (later s.faults (spent s.faults s.rootWrites)) s.fatWrites) := by
  obtain ⟨s₁, h1, h2, h3⟩ := flushRoot_run s
  obtain ⟨s₂, h4, h5, h6⟩ := flushFats_run s₁
  have hw : s₁.toCore.fatWrites = s.toCore.fatWrites := by rw [h2]; rfl
  rw [hw, h3, h2] at h5
  refine ⟨s₂, ?_, by rw [h5]; exact ⟨rfl, rfl, rfl, rfl, rfl⟩, by rw [h5], by rw [h5], by rw [h5]⟩
  unfold flushAll
  rw [bind_ok h1, bind_ok h4]
  rfl

theorem done_sub {faults : Nat → Option Nat} {ws : List (Nat × Buf)} {w : Nat × Buf}
    (h : w ∈ done faults ws) : w ∈ ws := by
  rw [← done_append_undone faults ws]
  exact List.mem_append_left _ h

/-- Whatever becomes of a flush, the volume stays what it was. -/
theorem flushAll_volume {s s' : State} {r : Code} (h : s.fs.Accepted) (hrun : flushAll s = .ok r s') :
    SameEnv s.toCore s'.toCore ∧ s'.toCore.volume = s.toCore.volume := by
  obtain ⟨s₁, h1, henv, hfat, hroot, hsec⟩ := flushAll_run s
  rw [h1] at hrun
  cases hrun
  rw [← applyWrites_append] at hsec
  refine ⟨henv, volume_written h henv.fs hfat hroot hsec fun w hw => ?_⟩
  have hmem : w ∈ s.toCore.rootWrites ++ s.toCore.fatWrites := by
    rcases List.mem_append.1 hw with hw | hw
    · exact List.mem_append_left _ (done_sub hw)
    · exact List.mem_append_right _ (done_sub hw)
  obtain ⟨i, -, hi, he⟩ := flush_address h hmem
  exact ⟨i, hi, he⟩

/-- An image after its writes were cut short: it is in step where it was written, and elsewhere as before. -/
theorem holds_image {d : Nat → Buf} {image : List (Nat × Buf)} (hnd : (image.map Prod.fst).Nodup) (dirty : Bool)
    (hclean : dirty = false → Holds d image) (faults : Nat → Option Nat) :
    Holds (applyWrites d (done faults (if dirty then image else []))) image ↔
      Holds d (undone faults (if dirty then image else [])) := by
  cases dirty with
  | true =>
    rw [if_pos rfl]
    have : Holds (applyWrites d (done faults image)) (done faults image ++ undone faults image) ↔
        Holds d (undone faults image) :=
      holds_cut (by rw [done_append_undone]; exact hnd)
    rwa [done_append_undone] at this
  | false => exact iff_of_true (hclean rfl) fun w hw => nomatch hw

theorem undone_sub {faults : Nat → Option Nat} {ws : List (Nat × Buf)} {w : Nat × Buf}
    (h : w ∈ undone faults ws) : w ∈ ws := by
  rw [← done_append_undone faults ws]
  exact List.mem_append_right _ h

/-- After a flush caches and disk are in step if and only if every sector it did not get to write was in
step before. -/
theorem synced_flush {s s' : State} {r : Code} (h : s.fs.Accepted)
    (hroot : s.rootDirty = false → Holds s.media s.rootImage) (hfat : s.fatDirty = false → Holds s.media s.fatImage)
    (hrun : flushAll s = .ok r s') : Synced s'.toCore ↔ Holds s.media s.unflushed := by
  obtain ⟨s₁, h1, henv, hfp, hrd, hsec⟩ := flushAll_run s
  have hfs := henv.fs
  rw [hrun] at h1
  cases h1
  have hmedia : s'.toCore.media = applyWrites (applyWrites s.media (done s.faults s.rootWrites))
      (done (later s.faults (spent s.faults s.rootWrites)) s.fatWrites) := by
    unfold Core.media
    rw [hsec, media_applyWrites fun w hw => isSectorWrite_fat w (done_sub hw),
      media_applyWrites fun w hw => isSectorWrite_root w (done_sub hw)]
  have hri : s'.toCore.rootImage = s.toCore.rootImage := by unfold Core.rootImage; rw [hfs, hrd]
  have hfi : s'.toCore.fatImage = s.toCore.fatImage := by unfold Core.fatImage Core.copyImage; rw [hfs, hfp]
  rw [synced_iff, hmedia, hri, hfi, State.unflushed, holds_append]
  refine and_congr ?_ ?_
  · -- the FAT writes are elsewhere
    rw [holds_applyWrites_other fun w hw v hv => (images_disjoint h hv (fatWrites_sub (done_sub hw))).symm]
    exact holds_image (nodup_rootImage h) _ hroot _
  · have hkeep : ∀ vs : List (Nat × Buf), (∀ v ∈ vs, v ∈ s.toCore.fatImage) →
        (Holds (applyWrites s.media (done s.faults s.rootWrites)) vs ↔ Holds s.media vs) := fun vs hvs =>
      holds_applyWrites_other fun w hw v hv => images_disjoint h (rootWrites_sub (done_sub hw)) (hvs v hv)
    rw [← hkeep _ fun v hv => fatWrites_sub (undone_sub hv)]
    exact holds_image (nodup_fatImage h) _ (fun hd => (hkeep _ fun v hv => hv).2 (hfat hd)) _

/-- The two flushes at the end of a change both succeed. -/
def FlushSucceeds (s : State) : Prop := ∃ s₁ s₂, flushRoot s = .ok .ok s₁ ∧ flushFats s₁ = .ok .ok s₂

/-- They do if all of their writes do. -/
theorem flushSucceeds_iff (s : State) :
    FlushSucceeds s ↔ ∀ k < s.rootWrites.length + s.fatWrites.length, s.faults k = none := by
  obtain ⟨s₁, h1, h2, h3⟩ := flushRoot_run s
  obtain ⟨s₂, h4, -, -⟩ := flushFats_run s₁
  have hw : s₁.toCore.fatWrites = s.toCore.fatWrites := by rw [h2]; rfl
  rw [hw] at h4
  constructor
  · rintro ⟨t₁, t₂, ht, ht'⟩
    rw [h1] at ht
    split at ht
    · rename_i hroot
      cases ht
      rw [h4] at ht'
      split at ht'
      · rename_i hfat
        have hroot := succeeds_iff.1 hroot
        have hfat := succeeds_iff.1 hfat
        rw [h3, (spent_of_succeeds hroot).1] at hfat
        exact succeeds_append hroot hfat
      · cases ht'
    · cases ht
  · intro h
    have hroot : ∀ k < s.rootWrites.length, s.faults k = none := fun k hk => h k (by omega)
    have hfat : ∀ k < s.fatWrites.length, later s.faults s.rootWrites.length k = none :=
      fun k hk => h (k + s.rootWrites.length) (by omega)
    rw [if_pos (succeeds_iff.2 hroot)] at h1
    rw [h3, (spent_of_succeeds hroot).1, if_pos (succeeds_iff.2 hfat)] at h4
    exact ⟨s₁, s₂, h1, h4⟩

/-- Then nothing is left undone. -/
theorem FlushSucceeds.unflushed {s : State} (h : FlushSucceeds s) : s.unflushed = [] := by
  have h := (flushSucceeds_iff s).1 h
  have hroot : ∀ k < s.rootWrites.length, s.faults k = none := fun k hk => h k (by omega)
  have hfat : ∀ k < s.fatWrites.length, later s.faults s.rootWrites.length k = none :=
    fun k hk => h (k + s.rootWrites.length) (by omega)
  unfold State.unflushed
  rw [(spent_of_succeeds hroot).2, (spent_of_succeeds hroot).1, (spent_of_succeeds hfat).2]
  rfl

/-! ## Before the flush -/

/-- `c` comes from `c₀` by changes to the caches, marked as such, and writes to clusters. -/
structure Behind (c₀ c : Core) : Prop where
  fs : c.fs = c₀.fs
  kept : ∀ i < c₀.fs.dataStartLba, c.sectors (lbaAdd c₀.fs.baseLba i) = c₀.sectors (lbaAdd c₀.fs.baseLba i)
  root : c.rootDirty = false → c.rootDir = c₀.rootDir
  fat : c.fatDirty = false → c.fatPrimary = c₀.fatPrimary

theorem Behind.refl (c : Core) : Behind c c := ⟨rfl, fun _ _ => rfl, fun _ => rfl, fun _ => rfl⟩

/-- The sectors before the data area are those of `c₀`. -/
theorem Behind.media (b : Behind c₀ c) {l : Nat} (h : ∃ i < c₀.fs.dataStartLba, l = lbaAdd c₀.fs.baseLba i) :
    c.media l = c₀.media l := by
  obtain ⟨i, hi, rfl⟩ := h
  unfold Core.media
  rw [b.kept i hi]

/-- A root directory that was in step and did not change is in step. -/
theorem Behind.holds_root (h : c₀.fs.Accepted) (b : Behind c₀ c) (hs : Synced c₀) (hr : c.rootDir = c₀.rootDir) :
    Holds c.media c.rootImage := by
  have him : c.rootImage = c₀.rootImage := by unfold Core.rootImage; rw [b.fs, hr]
  rw [him]
  intro w hw
  obtain ⟨i, -, hi, hwi⟩ := rootImage_address h hw
  rw [b.media ⟨i, hi, hwi⟩]
  exact ((synced_iff c₀).1 hs).1 w hw

/-- So is a FAT. -/
theorem Behind.holds_fat (h : c₀.fs.Accepted) (b : Behind c₀ c) (hs : Synced c₀)
    (hf : c.fatPrimary = c₀.fatPrimary) : Holds c.media c.fatImage := by
  have him : c.fatImage = c₀.fatImage := by unfold Core.fatImage Core.copyImage; rw [b.fs, hf]
  rw [him]
  intro w hw
  obtain ⟨i, -, hi, hwi⟩ := fatImage_address h hw
  have := h.dataStart
  have := h.rootStart
  rw [b.media ⟨i, by omega, hwi⟩]
  exact ((synced_iff c₀).1 hs).2 w hw

/-- What was in step and is not marked is in step. -/
theorem Behind.clean (h : c₀.fs.Accepted) (b : Behind c₀ c) (hs : Synced c₀) :
    (c.rootDirty = false → Holds c.media c.rootImage) ∧ (c.fatDirty = false → Holds c.media c.fatImage) :=
  ⟨fun hc => b.holds_root h hs (b.root hc), fun hc => b.holds_fat h hs (b.fat hc)⟩

/-- With both caches as they were, all is in step as it was. -/
theorem Behind.synced (h : c₀.fs.Accepted) (b : Behind c₀ c) (hs : Synced c₀) (hr : c.rootDir = c₀.rootDir)
    (hf : c.fatPrimary = c₀.fatPrimary) : Synced c :=
  (synced_iff c).2 ⟨b.holds_root h hs hr, b.holds_fat h hs hf⟩

/-- Up to its flush: every run stays behind `c₀`, and returns something in `Q`. -/
abbrev Stays {α : Type} (c₀ : Core) (Q : α → Prop) (m : M α) : Prop := Ensures (fun s => Behind c₀ s.toCore) Q m

/-- What the changes do up to the flush stays behind `c₀`: FAT entries are marked, and no cluster shares a
sector with the areas before them. -/
theorem kept_behind (h : c₀.fs.Accepted) :
    Kept c₀.fs (fun k => 2 ≤ k ∧ k < 65536) (fun s => Behind c₀ s.toCore) (fun s => Behind c₀ s.toCore) := by
  have hfat : ∀ (s : State) (k v : Nat), Behind c₀ s.toCore → Behind c₀ (s.withCore (·.setFat k v)).toCore :=
    fun s k v b =>
    ⟨b.fs, b.kept, b.root, fun hc => nomatch hc⟩
  have hstore : ∀ (s : State) (k : Nat) (b : Buf) (m : Nat), Behind c₀ s.toCore → 2 ≤ k ∧ k < 65536 →
      m ≤ c₀.fs.sectorsPerCluster →
      Behind c₀ (s.wrote (lbaAdd c₀.fs.baseLba (clusterToLba c₀.fs k)) b c₀.fs.sectorsPerCluster m).toCore := by
    intro s k b m hs hk hm
    refine ⟨hs.fs, fun i hi => ?_, hs.root, hs.fat⟩
    exact (putSectors_other fun j hj => cluster_address_ne h hk.1 hk.2 (by omega) hi).trans (hs.kept i hi)
  have hvol : ∀ k, c₀.fs.HasCluster k → 2 ≤ k ∧ k < 65536 := fun k hk => by
    have := h.clusters.2
    exact ⟨hk.1, by have := hk.2; omega⟩
  have hblind : Blind fun s => Behind c₀ s.toCore := fun s s' h1 _ hs => show Behind c₀ s'.toCore by
    rw [h1]; exact hs
  exact {
    accepted := h
    blind := hblind
    blind' := hblind
    weaken := fun _ hs => hs
    layout := fun _ hs => hs.fs
    unlink := fun s k v hs _ _ => hfat s k v hs
    unlink' := fun s k v hs _ _ => hfat s k v hs
    link := fun s k v hs _ _ _ => hfat s k v hs
    fill := fun s k b m hs hk _ hm => hstore s k b m hs (hvol k hk) hm
    root := fun _ _ _ hs => ⟨hs.fs, hs.kept, fun hc => (nomatch hc), hs.fat⟩
    store := hstore
    own := hvol }

/-- A change that keeps these stays behind `c₀`, from whatever state it is made. -/
theorem Stays.of_kept (h : c₀.fs.Accepted) {m : M Code}
    (hm : ∀ s : State, s.fs = c₀.fs → (∀ s', Still s.toCore s.writes s' → Behind c₀ s'.toCore) →
      Carries (At s.toCore s.writes s.faults 0) (fun s => Behind c₀ s.toCore) (fun _ s => Behind c₀ s.toCore) m) :
    Stays c₀ (fun _ => True) m :=
  fun s hs => ⟨(hm s hs.fs (fun _ => (kept_behind h).still hs) s (.start s)).1, fun _ _ _ => trivial⟩

theorem owner_open {p : Loc} (hp : p.1 = 0 ∨ inChain p.1 = true) : Kept.Open (fun k => 2 ≤ k ∧ k < 65536) p :=
  hp.imp_right fun hin => by
    have := inChain_iff.1 hin
    omega

/-- `fat12_write_file` up to its flush. -/
theorem stays_writeFileBody (h : c₀.fs.Accepted) (fuel : Nat) (name : List UInt8) (data : Option Buf) (size : Nat) :
    Stays c₀ (fun _ => True) (writeFileBody fuel name data size) :=
  .of_kept h fun _ hfs hI => (kept_behind h).carries_writeFileBody hfs hI fuel fun _ hp => owner_open hp.owner

/-- `fat12_create_directory` up to its flush. -/
theorem stays_createDirectoryBody (h : c₀.fs.Accepted) (fuel : Nat) (name : List UInt8) :
    Stays c₀ (fun _ => True) (createDirectoryBody fuel name) :=
  .of_kept h fun _ hfs hI => (kept_behind h).carries_createDirectoryBody hfs hI fuel fun _ hp => owner_open hp.owner

/-- `fat12_delete_file` up to its flush. -/
theorem stays_deleteFileBody (h : c₀.fs.Accepted) (fuel : Nat) (name : List UInt8) :
    Stays c₀ (fun _ => True) (deleteFileBody fuel name) :=
  .of_kept h fun _ hfs hI => (kept_behind h).carries_deleteFileBody hfs hI fuel fun _ hp => owner_open hp.owner

end

end AltoniumOS.Fat12

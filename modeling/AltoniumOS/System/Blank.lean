/-
Well-formed driver states, and the first of them: a freshly formatted volume, with nothing in its FAT and
nothing in its root directory, just mounted.
-/
import AltoniumOS.Refine.Mount
import AltoniumOS.Refine.Operations

namespace AltoniumOS.Fat12

open AltoniumOS.Lib

/-- A mounted driver in a directory of a well-formed volume. -/
structure Core.WellFormed (c : Core) : Prop where
  mounted : Mounted c
  wf : c.volume.WF ∅
  settled : c.Settled

/-- The stack of the driver leads to its current directory, or is full and leads to one above it. -/
def Core.Anchored (c : Core) : Prop := c.volume.Anchored c.currentDirCluster c.pathStack

/-! ## After a mount -/

/-- A mount leaves the driver in the root directory, in step with whatever volume there is. -/
theorem mount_wellFormed {c : Core} {baseLba : Nat} (h : Mountable (c.bootSector baseLba) baseLba)
    (hr : 1 ≤ (c.mount baseLba).fs.reservedSectors) (hn : 1 ≤ (c.mount baseLba).fs.numFats)
    (hw : (c.mount baseLba).volume.WF ∅) : (c.mount baseLba).WellFormed ∧ (c.mount baseLba).Anchored :=
  ⟨⟨⟨rfl, h.accepted, hr, hn⟩, hw, Volume.dir_root, fun _ hk => nomatch hk⟩, .root _⟩

/-! ## Volumes with nothing on them -/

namespace Volume

/-- No link and no entry. -/
structure Blank (V : Volume) : Prop where
  geom : V.Geom
  fat : ∀ k, V.InRange k → V.fat k = clusterFree
  root : ∀ i < V.rootEntryCount, (V.root i).name.first = nameEnd

variable {V : Volume}

theorem Blank.not_entryAt (b : V.Blank) (p : Loc) : ¬ V.EntryAt 0 p := fun he => by
  obtain ⟨h1, h2⟩ := mem_locs_root.1 he.mem
  refine not_live_of_end ?_ he.live
  unfold slot
  rw [if_pos h1]
  exact b.root _ h2

theorem Blank.isDir (b : V.Blank) {d q : Nat} (h : V.IsDir d q) : d = 0 ∧ q = 0 := by
  induction h with
  | root => exact ⟨rfl, rfl⟩
  | sub _ he _ ih =>
    rw [ih.1] at he
    exact absurd he (b.not_entryAt _)

theorem Blank.not_entry (b : V.Blank) (p : Loc) : ¬ V.Entry p := by
  rintro ⟨d, q, hd, he⟩
  rw [(b.isDir hd).1] at he
  exact b.not_entryAt p he

theorem Blank.wf (b : V.Blank) : V.WF ∅ := by
  have hend : ∀ p ∈ V.locs 0, (V.slot p).name.first = nameEnd := fun p hp => by
    obtain ⟨h1, h2⟩ := mem_locs_root.1 hp
    unfold slot
    rw [if_pos h1]
    exact b.root _ h2
  refine ⟨b.geom, fun d q hd => ?_, fun p hp => absurd hp (b.not_entry p), fun p hp => absurd hp (b.not_entry p),
    fun p _ hp => absurd hp (b.not_entry p), fun k hk => hk.elim, fun k hk hf => absurd (b.fat k hk) hf⟩
  obtain ⟨rfl, rfl⟩ := b.isDir hd
  refine ⟨fun p hp hl => absurd hl (not_live_of_end (hend p hp)), fun h0 => absurd rfl h0, ?_, ?_⟩
  · exact List.pairwise_of_forall_mem_list fun a ha _ _ hl => absurd hl (not_live_of_end (hend a ha))
  · exact List.pairwise_of_forall_mem_list fun _ _ b hb _ => hend b hb

/-- Nothing is found on it. -/
theorem Blank.find (b : V.Blank) (n : ShortName) : V.find 0 n = none :=
  (b.wf.find_none dir_root).2 fun e he hl => by
    obtain ⟨p, hp, rfl⟩ := List.mem_map.1 he
    obtain ⟨h1, h2⟩ := mem_locs_root.1 hp
    refine absurd hl (not_live_of_end ?_)
    unfold slot
    rw [if_pos h1]
    exact b.root _ h2

end Volume

/-! ## The blank disk -/

/-- The driver on the blank disk, mounted. -/
def blankMounted : State := { blankState with toCore := blankState.toCore.mount 0 }

theorem blank_mountable : Mountable (blankState.toCore.bootSector 0) 0 := by
  constructor <;> decide

theorem blank_fs : blankMounted.fs = Fs.ofBoot blankBoot 0 := by decide

/-- Everything but the boot sector loads as zeros. -/
theorem loaded_blank {lba n : Nat} (h : ∀ i < n, lbaAdd lba i ≠ 0) :
    loaded blankState.sectors lba (fun _ => 0) n = fun _ => 0 := by
  funext i
  by_cases hi : i < sectorSize * n
  · rw [loaded_lt hi]
    exact congrFun (if_neg (h _ (Nat.div_lt_of_lt_mul hi))) _
  · unfold loaded Buf.blit
    exact if_neg (by omega)

theorem blank_fat : blankMounted.fatPrimary = fun _ => 0 := loaded_blank (by decide)

theorem blank_root : blankMounted.rootDir = fun _ => 0 := loaded_blank (by decide)

theorem blank_reliable : Reliable blankState := fun _ => rfl

theorem blank_mounted : Mounted blankMounted.toCore := ⟨rfl, blank_mountable.accepted, by decide, by decide⟩

theorem blank_volume : blankMounted.toCore.volume.Blank where
  geom := blank_mounted.geom
  fat := fun k hk => by
    rw [fat_eq_cell hk, blank_fat]
    have hn : ∀ j, nib (fun _ => 0) j = 0 := by
      intro j
      unfold nib
      split
      · exact (by decide : (0 : UInt8).toNat % 16 = 0)
      · exact (by decide : (0 : UInt8).toNat / 16 = 0)
    unfold cell
    rw [hn, hn, hn]
    rfl
  root := fun i hi => by
    show (if i < blankMounted.fs.rootEntryCount then slotAt blankMounted.rootDir i
      else slotAt (fun _ => 0) 0).name.first = nameEnd
    rw [blank_root]
    split <;> rfl

theorem blank_wellFormed : blankMounted.toCore.WellFormed ∧ blankMounted.toCore.Anchored :=
  mount_wellFormed blank_mountable blank_mounted.reserved blank_mounted.fats blank_volume.wf

/-- Mounting the blank disk. -/
theorem init_blank : ∃ s, init 0 blankState = .ok .ok s ∧ s.toCore = blankMounted.toCore ∧ Reliable s :=
  gives_mount blank_mountable blankState rfl blank_reliable

/-- The blank disk, mounted as the driver does it. -/
def blankBooted : State := endState (init 0 blankState)

/-- The blank disk, refusing every other call once it is mounted. -/
def blankFailing : State :=
  { blankState with faults := fun k => if k < 5 then none else if k % 2 = 0 then some 0 else none }

/-- A name without an extension. -/
theorem no_extension : ([] : List UInt8).length ≤ 3 := by decide

/-- A file `A` of two clusters written to the blank volume. -/
def blankWritten : State := endState (writeFile 4096 [65] (some fun _ => 7) 600 blankMounted)

/-- And deleted again. -/
def blankDeleted : State := endState (deleteFile 4096 [65] blankWritten)

/-- A directory `D` made on the blank volume. -/
def blankMade : State := endState (createDirectory 4096 [68] blankMounted)

/-- Each of these calls is a success. -/
theorem blank_runs :
    returned (init 0 blankState) = some .ok ∧ returned (init 0 blankFailing) = some .ok ∧
      returned (writeFile 4096 [65] (some fun _ => 7) 600 blankMounted) = some .ok ∧
      returned (deleteFile 4096 [65] blankWritten) = some .ok ∧
      returned (createDirectory 4096 [68] blankMounted) = some .ok := by
  decide +kernel

theorem blank_layouts :
    blankBooted.fs = Fs.ofBoot blankBoot 0 ∧ (endState (init 0 blankFailing)).fs = Fs.ofBoot blankBoot 0 ∧
      (blankBooted.toCore.start [65]).1 = 0 := by decide +kernel

theorem blank_booted : init 0 blankState = .ok .ok blankBooted := eq_ok_of_returned blank_runs.1

theorem blank_failing : init 0 blankFailing = .ok .ok (endState (init 0 blankFailing)) :=
  eq_ok_of_returned blank_runs.2.1

theorem blank_written : writeFile 4096 [65] (some fun _ => 7) 600 blankMounted = .ok .ok blankWritten :=
  eq_ok_of_returned blank_runs.2.2.1

theorem blank_deleted : deleteFile 4096 [65] blankWritten = .ok .ok blankDeleted :=
  eq_ok_of_returned blank_runs.2.2.2.1

theorem blank_made : createDirectory 4096 [68] blankMounted = .ok .ok blankMade :=
  eq_ok_of_returned blank_runs.2.2.2.2

end AltoniumOS.Fat12

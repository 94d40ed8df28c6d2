/-
Where the driver writes, whatever the FAT, the directories and the disk do. No call writes a sector
before the FAT copies, or touches the first two entries of the FAT. The other end does not hold: links
and first clusters are never compared with the size of the volume. It holds along every run of calls
whose changes have no slot to write outside the volume.
-/
import AltoniumOS.System.Calls

namespace AltoniumOS.Fat12

open AltoniumOS.Lib

/-- Every sector written between two states has an address from `lo` on and below `hi`. -/
def WritesIn (lo hi : Nat) (s s' : State) : Prop :=
  ∃ ws, s'.writes = s.writes ++ ws ∧ ∀ w ∈ ws, ∀ i < w.2.length, lo ≤ lbaAdd w.1 i ∧ lbaAdd w.1 i < hi

/-- Since `s₀`, all was written inside these bounds, and the first two FAT entries are the same. -/
structure Bounded (lo hi : Nat) (s₀ s : State) : Prop where
  layout : s.fs = s₀.fs
  writes : WritesIn lo hi s₀ s
  media : ∀ k < 2, cell s.fatPrimary k = cell s₀.fatPrimary k

/-- The sectors from `lba` on lie inside the bounds. -/
def AreaIn (lo hi lba n : Nat) : Prop := ∀ i < n, lo ≤ lbaAdd lba i ∧ lbaAdd lba i < hi

/-- The clusters of `O` lie inside the bounds, and so do the FAT copies and the root directory. -/
structure FitsIn (lo hi : Nat) (fs : Fs) (O : Nat → Prop) : Prop where
  accepted : fs.Accepted
  addressed : hi ≤ 4294967296
  low : lo ≤ fs.baseLba + fs.reservedSectors
  areas : fs.baseLba + fs.dataStartLba ≤ hi
  own : ∀ k, fs.HasCluster k → O k
  clusters : ∀ k, O k → 2 ≤ k ∧ fs.baseLba + fs.dataStartLba + (k - 1) * fs.sectorsPerCluster ≤ hi

section

variable {lo hi : Nat} {s₀ s : State} {O : Nat → Prop}

theorem Bounded.refl (lo hi : Nat) (s : State) : Bounded lo hi s s := ⟨rfl, ⟨[], by simp, by simp⟩, fun _ _ => rfl⟩

theorem blind_bounded : Blind (Bounded lo hi s₀) := by
  rintro s s' h1 h2 ⟨h3, ⟨ws, h4, h5⟩, h6⟩
  exact ⟨by rw [h1]; exact h3, ⟨ws, h2.trans h4, h5⟩, by rw [h1]; exact h6⟩

theorem length_sectorsOf (b : Buf) (n : Nat) : (sectorsOf b n).length = n := by simp [sectorsOf]

/-- One write call more. -/
theorem Bounded.wrote {lba n : Nat} (h : Bounded lo hi s₀ s) (ha : AreaIn lo hi lba n) (b : Buf) (m : Nat) :
    Bounded lo hi s₀ (s.wrote lba b n m) := by
  obtain ⟨ws, h1, h2⟩ := h.writes
  refine ⟨h.layout, ⟨ws ++ [(lba, sectorsOf b n)], ?_, ?_⟩, h.media⟩
  · rw [← List.append_assoc, ← h1]
    rfl
  · rw [List.forall_mem_append]
    refine ⟨h2, fun w hw i hi => ?_⟩
    rw [List.mem_singleton.1 hw] at hi ⊢
    exact ha i (by rwa [length_sectorsOf] at hi)

theorem Bounded.setFat {k v : Nat} (h : Bounded lo hi s₀ s) (hk : 2 ≤ k) :
    Bounded lo hi s₀ (s.withCore (·.setFat k v)) :=
  ⟨h.layout, h.writes, fun j hj => ((cellSet_setFatBytes s.fatPrimary k v).cell_ne (by omega)).trans (h.media j hj)⟩

/-! ## Clusters -/

theorem FitsIn.cluster {fs : Fs} (h : FitsIn lo hi fs O) {k : Nat} (hk : O k) :
    AreaIn lo hi (lbaAdd fs.baseLba (clusterToLba fs k)) fs.sectorsPerCluster := by
  intro i hlt
  obtain ⟨h2, hle⟩ := h.clusters k hk
  have hlow := h.low
  have haddr := h.addressed
  have hdata : fs.reservedSectors ≤ fs.dataStartLba := by rw [h.accepted.dataStart]; omega
  have hk1 : (k - 1) * fs.sectorsPerCluster = (k - 2) * fs.sectorsPerCluster + fs.sectorsPerCluster := by
    rw [show k - 1 = k - 2 + 1 by omega, Nat.succ_mul]
  rw [lba_cluster fs h2, lbaAdd, Fs.sectorIndex, Nat.mod_eq_of_lt (by omega)]
  omega

/-- What a change keeps: the bounds. -/
theorem kept_bounded {fs : Fs} (h : FitsIn lo hi fs O) (hs₀ : s₀.fs = fs) :
    Kept fs O (Bounded lo hi s₀) (Bounded lo hi s₀) where
  accepted := h.accepted
  blind := blind_bounded
  blind' := blind_bounded
  weaken := fun _ hs => hs
  layout := fun _ hs => hs.layout.trans hs₀
  unlink := fun _ _ _ hs hk _ => hs.setFat hk
  unlink' := fun _ _ _ hs hk _ => hs.setFat hk
  link := fun _ _ _ hs hk _ _ => hs.setFat hk
  fill := fun _ k b m hs hk _ _ => hs.wrote (h.cluster (h.own k hk)) b m
  root := fun _ _ _ hs => ⟨hs.layout, hs.writes, hs.media⟩
  store := fun _ k b m hs hk _ => hs.wrote (h.cluster hk) b m
  own := h.own

/-! ## Flushing -/

theorem keeps_writeAll (hhi : hi ≤ 4294967296) :
    ∀ ws : List (Nat × Buf), (∀ w ∈ ws, lo ≤ w.1 ∧ w.1 < hi) → Keeps (Bounded lo hi s₀) (writeAll ws)
  | [], _ => .pure trivial
  | w :: ws, h => by
    have harea : AreaIn lo hi w.1 1 := fun i hi => by
      have := h w (List.mem_cons_self ..)
      rw [Nat.lt_one_iff.1 hi, lbaAdd, Nat.add_zero, Nat.mod_eq_of_lt (by omega)]
      exact this
    have hone : Keeps (Bounded lo hi s₀) (diskWriteSector w.1 w.2) :=
      (carries_diskWriteSectors (fun s hs => hs) blind_bounded (fun s hs => hs) fun s m hs _ =>
        hs.wrote harea w.2 m).keeps
    rw [writeAll]
    refine hone.bind fun ok => ?_
    split
    · exact keeps_writeAll hhi ws fun v hv => h v (List.mem_cons_of_mem _ hv)
    · exact .pure trivial

/-- The caches are flushed to their areas. -/
theorem keeps_flushes {fs : Fs} (h : FitsIn lo hi fs O) (hs₀ : s₀.fs = fs) :
    Keeps (Bounded lo hi s₀) flushRoot ∧ Keeps (Bounded lo hi s₀) flushFats := by
  have hcore : Ensures (Bounded lo hi s₀) (fun c => c.fs = fs) getCore :=
    fun s hs => ⟨hs, fun c s' hr => by cases hr; exact hs.layout.trans hs₀⟩
  have haddr : ∀ {l : Nat}, (∃ i, fs.reservedSectors ≤ i ∧ i < fs.dataStartLba ∧ l = lbaAdd fs.baseLba i) → lo ≤ l ∧
      l < hi := by
    rintro l ⟨i, h1, h2, rfl⟩
    have h3 := h.low
    have h4 := h.areas
    have h5 := h.addressed
    rw [lbaAdd, Nat.mod_eq_of_lt (by omega)]
    omega
  have hroot := h.accepted.rootStart
  have hdata := h.accepted.dataStart
  constructor
  · unfold flushRoot
    refine hcore.bind fun c hc => ?_
    subst hc
    split
    · exact .pure trivial
    · rw [writeArea_eq]
      refine (keeps_writeAll h.addressed _ fun w hw => haddr ?_).bind fun ok => ?_
      · obtain ⟨i, h1, h2, h3⟩ := rootImage_address h.accepted hw
        exact ⟨i, by omega, h2, h3⟩
      · split
        · exact Keeps.bind (fun s hs => ⟨⟨hs.layout, hs.writes, hs.media⟩, fun _ _ _ => trivial⟩) fun _ =>
            .pure trivial
        · exact .pure trivial
  · unfold flushFats
    refine hcore.bind fun c hc => ?_
    subst hc
    split
    · exact .pure trivial
    · rw [writeFatCopies_eq]
      refine (keeps_writeAll h.addressed _ fun w hw => haddr ?_).bind fun ok => ?_
      · obtain ⟨i, h1, h2, h3⟩ := fatImage_address h.accepted hw
        exact ⟨i, h1, by omega, h3⟩
      · split
        · exact Keeps.bind (fun s hs => ⟨⟨hs.layout, hs.writes, hs.media⟩, fun _ _ _ => trivial⟩) fun _ =>
            .pure trivial
        · exact .pure trivial

/-! ## Runs -/

/-- The change, made in the state `s`, writes the slot `p`. -/
def Change.Writes (s : State) (p : Loc) : Change → Prop
  | .writeFile name data size => s.toCore.FileSlot s.faults name data size p
  | .createDirectory name => s.toCore.DirectorySlot s.faults name p
  | .deleteFile name => s.toCore.DeletedSlot s.faults name p

theorem Change.Writes.owner {p : Loc} : ∀ {x : Change}, x.Writes s p → p.1 = 0 ∨ inChain p.1 = true
  | .writeFile _ _ _, h => Core.FileSlot.owner h
  | .createDirectory _, h => Core.DirectorySlot.owner h
  | .deleteFile _, h => Core.DeletedSlot.owner h

/-- The slot a call writes, if it writes one, lies in the root table or in a cluster of `O`. -/
def targeting (O : Nat → Prop) (s : State) (x : Call) : Prop :=
  ∀ y p, x = .change y → y.Writes s p → p.1 = 0 ∨ O p.1

theorem Change.carries_body {fs : Fs} (h : FitsIn lo hi fs O) (hs₀ : s₀.fs = fs) (fuel : Nat) (x : Change)
    (hs : Bounded lo hi s₀ s) (hx : ∀ p, x.Writes s p → p.1 = 0 ∨ O p.1) :
    Carries (· = s) (Bounded lo hi s₀) (fun _ s => Bounded lo hi s₀ s) (x.body fuel) := by
  have K := kept_bounded h hs₀
  have hfs : s.fs = fs := K.layout s hs
  have hI : ∀ s', Still s.toCore s.writes s' → Bounded lo hi s₀ s' := fun s' => K.still hs
  have hstart : ∀ s', s' = s → At s.toCore s.writes s.faults 0 s' := fun s' he => he ▸ .start s'
  cases x with
  | writeFile name data size => exact (K.carries_writeFileBody hfs hI fuel hx).pre hstart
  | createDirectory name => exact (K.carries_createDirectoryBody hfs hI fuel hx).pre hstart
  | deleteFile name => exact (K.carries_deleteFileBody hfs hI fuel hx).pre hstart

/-- One call keeps the bounds. -/
theorem Call.bounded {fs : Fs} (h : FitsIn lo hi fs O) (hs₀ : s₀.fs = fs) (x : Call) (fuel : Nat)
    (hs : Bounded lo hi s₀ s) (hk : targeting O s x) : Bounded lo hi s₀ (endState (x.exec fuel s)) := by
  have ⟨hroot, hfats⟩ : Keeps (Bounded lo hi s₀) flushRoot ∧ Keeps (Bounded lo hi s₀) flushFats :=
    keeps_flushes h hs₀
  exact x.keeps blind_bounded (fun _ _ _ hs => ⟨hs.layout, hs.writes, hs.media⟩) hroot hfats (P := (· = s))
    (fun _ he => he ▸ hs) (fun y hy => y.carries_body h hs₀ fuel hs fun p => hk y p hy) s rfl

/-- So do calls one after the other. -/
theorem Trace.bounded {fs : Fs} (h : FitsIn lo hi fs O) {K : State → Call → Prop}
    (hK : ∀ s x, s.fs = fs → K s x → targeting O s x) {s s' : State} (hs : s.fs = fs) (hr : Trace K s s') :
    Bounded lo hi s s' :=
  hr.invariant (fun t x fuel hb hk => x.bounded h hs fuel hb (hK t x (hb.layout.trans hs) hk)) (.refl lo hi s)

end

/-! ## The areas before the clusters -/

/-- Whatever the FAT, the directories, the arguments and the disk: no call writes a sector below the
reserved ones, or changes the first two entries of the FAT. -/
theorem reserved_kept {baseLba : Nat} {s₀ s s' : State} (hinit : init baseLba s₀ = .ok .ok s)
    (hfit : baseLba + s.fs.reservedSectors + s.fs.totalSectors + 2 ^ 17 < 2 ^ 28) (hr : Trace anyCalls s s') :
    WritesIn (baseLba + s.fs.reservedSectors) (2 ^ 28) s s' ∧
      ∀ k < 2, cell s'.fatPrimary k = cell s.fatPrimary k := by
  obtain ⟨hm, hfs⟩ := init_sector hinit
  have hacc : s.fs.Accepted := hfs ▸ hm.accepted
  have hbase : s.fs.baseLba = baseLba := by rw [hfs]; rfl
  have hle : s.fs.dataStartLba + s.fs.totalClusters * s.fs.sectorsPerCluster ≤ s.fs.totalSectors := hfs ▸ hm.fits
  have hfits : FitsIn (baseLba + s.fs.reservedSectors) (2 ^ 28) s.fs fun k => inChain k = true := by
    refine ⟨hacc, by decide, by rw [hbase], by rw [hbase]; omega, fun k hk => ?_, fun k hk => ?_⟩
    · have := hacc.clusters.2
      have := hk.1
      have := hk.2
      exact inChain_iff.2 ⟨hk.1, by omega⟩
    · have hk := inChain_iff.1 hk
      -- the links a chain may hold end 2^17 sectors behind the start of the data area at the latest
      have : (k - 1) * s.fs.sectorsPerCluster ≤ 4086 * 32 := Nat.mul_le_mul (by omega) hacc.spc.2
      rw [hbase]
      omega
  have hb := hr.bounded hfits (fun t x _ _ y p _ hp => hp.owner) rfl
  exact ⟨hb.writes, hb.media⟩

theorem reserved_kept_failing :
    WritesIn (0 + (endState (init 0 blankFailing)).fs.reservedSectors) (2 ^ 28) (endState (init 0 blankFailing))
        (endState ((Call.change (.writeFile [65] (some fun _ => 7) 600)).exec 4096
          (endState (init 0 blankFailing)))) ∧
      ∀ k < 2, cell (endState
        ((Call.change (.writeFile [65] (some fun _ => 7) 600)).exec 4096
          (endState (init 0 blankFailing)))).fatPrimary k =
        cell (endState (init 0 blankFailing)).fatPrimary k :=
  reserved_kept blank_failing (by rw [blank_layouts.2.1]; decide) (.step 4096 (.refl _) trivial)

/-! ## The end of the volume -/

/-- Calls that write no slot outside the root table and the clusters of the volume. -/
def slotsInside (s : State) (x : Call) : Prop := targeting s.fs.HasCluster s x

/-- Along every run of such changes, and of any other calls, no sector behind the volume is written. -/
theorem volume_kept {baseLba : Nat} {s₀ s s' : State} (hinit : init baseLba s₀ = .ok .ok s)
    (hfit : baseLba + s.fs.totalSectors + 2 ^ 17 ≤ 2 ^ 32) (hr : Trace slotsInside s s') :
    WritesIn 0 (baseLba + s.fs.totalSectors) s s' := by
  obtain ⟨hm, hfs⟩ := init_sector hinit
  have hacc : s.fs.Accepted := hfs ▸ hm.accepted
  have hbase : s.fs.baseLba = baseLba := by rw [hfs]; rfl
  have hle : s.fs.dataStartLba + s.fs.totalClusters * s.fs.sectorsPerCluster ≤ s.fs.totalSectors := hfs ▸ hm.fits
  have hfits : FitsIn 0 (baseLba + s.fs.totalSectors) s.fs s.fs.HasCluster := by
    refine ⟨hacc, by omega, by omega, by rw [hbase]; omega, fun k hk => hk, fun k hk => ⟨hk.1, ?_⟩⟩
    have : (k - 1) * s.fs.sectorsPerCluster ≤ s.fs.totalClusters * s.fs.sectorsPerCluster :=
      Nat.mul_le_mul_right _ (by have := hk.1; have := hk.2; omega)
    rw [hbase]
    omega
  exact (hr.bounded hfits (fun t x ht hk => by rw [← ht]; exact hk) rfl).writes

/-- A name in the root directory is looked for, and given a slot, there. -/
theorem slotsInside_root (s : State) {path last : List UInt8} (habs : isAbsolute path = true)
    (hcs : components path = [last]) {x : Change} (hx : x.path = path) : slotsInside s (.change x) := by
  have hstart : (s.start path).1 = 0 := by
    unfold Core.start
    rw [if_pos habs]
  intro y p hy hp
  cases hy
  have hnames : ∀ {r d n}, s.Names x.path r d n → d = 0 := by
    rintro r d n ⟨cs, last', h1, -, h2⟩
    rw [hx] at h1 h2
    rw [hcs] at h1
    obtain ⟨rfl, -⟩ : cs = [] ∧ last = last' := by
      cases cs with
      | nil => exact ⟨rfl, by simpa using h1⟩
      | cons a l => simp at h1
    cases h2
    exact hstart
  have hslot : ∀ {f given m n}, s.EntrySlot f given m 0 n p → p.1 = 0 := fun h => by
    cases h with
    | found h _ => exact h.root
    | free _ _ h _ => exact h.root
  refine .inl ?_
  cases x with
  | writeFile name data size =>
    obtain ⟨r, d, n, a, o, hn, -, -, -, -, h⟩ := hp
    cases hnames hn
    exact hslot h
  | createDirectory name =>
    obtain ⟨r, d, n, i, hn, -, -, h⟩ := hp
    cases hnames hn
    exact hslot h
  | deleteFile name =>
    obtain ⟨r, d, n, a, hn, h, -⟩ := hp
    cases hnames hn
    exact h.root

/-- Where the next disk call fails, a write stores nothing outside. -/
theorem slotsInside_failing {s : State} (h0 : s.faults 0 ≠ none) (name : List UInt8) (data : Option Buf)
    (size : Nat) : slotsInside s (.change (.writeFile name data size)) := by
  intro y p hy hp
  cases hy
  obtain ⟨r, d, n, a, o, -, -, -, -, -, h⟩ := hp
  cases h with
  | found _ hok => exact absurd (hok 0 (Nat.succ_pos _)) h0
  | free _ _ _ hok => exact absurd (hok 0 (Nat.succ_pos _)) h0

/-- The blank disk with one entry in its root directory: a directory `D` whose first cluster, 4000, lies
far behind the 64 clusters of the volume. -/
def strayState : State := .initial fun l =>
  if l = 0 then blankBoot
  else if l = 3
    then Buf.blit (fun _ => 0) 0
      (fillDirEntry (padName [68] [] (by decide) no_extension) attrDirectory 4000 0).bytes 32
  else fun _ => 0

def strayBooted : State := endState (init 0 strayState)

/-- `mkdir D/X` stores its entry at the sector 4002 of a disk where the volume has 68. -/
theorem stray_runs : returned (init 0 strayState) = some .ok ∧ strayBooted.fs = Fs.ofBoot blankBoot 0 ∧
    strayBooted.writes.map (fun w => w.1) = [] ∧
    (endState (createDirectory 4096 [68, 47, 88] strayBooted)).writes.map (fun w => (w.1, w.2.length)) =
      [(4, 1), (4, 1), (4002, 1), (1, 1), (2, 1)] := by decide +kernel

theorem stray_booted : init 0 strayState = .ok .ok strayBooted := eq_ok_of_returned stray_runs.1

/-- This disk, where the twelfth call fails. -/
@[irreducible] def strayMounted : State := endState (init 0 { strayState with faults := failingAt 11 })

/-- With a file `A` in its root directory. -/
@[irreducible] def strayWritten : State :=
  endState ((Call.change (.writeFile [47, 65] (some fun _ => 7) 600)).exec 4096 strayMounted)

/-- After `mkdir /D`. -/
@[irreducible] def strayMade : State := endState ((Call.change (.createDirectory [47, 68])).exec 4096 strayWritten)

/-- The file is written with seven calls, `mkdir /D` is refused with none, and the next call fails. -/
theorem stray_fails :
    returned (init 0 { strayState with faults := failingAt 11 }) = some .ok ∧
      strayMounted.fs = Fs.ofBoot blankBoot 0 ∧ strayWritten.writes.map (fun w => w.1) = [4, 4, 5, 5, 3, 1, 2] ∧
      returned (createDirectory 4096 [47, 68] strayWritten) = some .errAlreadyExists ∧
      strayMade.faults 0 ≠ none := by
  unfold strayMade strayWritten strayMounted
  decide +kernel

/-- A file in the root directory, a directory that exists, and a file in the directory that lies outside, which
cannot be read now. -/
theorem volume_kept_stray : WritesIn 0 (0 + strayMounted.fs.totalSectors) strayMounted
    (endState ((Call.change (.writeFile [47, 68, 47, 88] (some fun _ => 7) 600)).exec 4096 strayMade)) := by
  have hinit : init 0 { strayState with faults := failingAt 11 } = .ok .ok strayMounted := by
    have := eq_ok_of_returned stray_fails.1
    unfold strayMounted
    exact this
  have hmade : Trace slotsInside strayMounted strayMade := by
    have hwrite : Trace slotsInside strayMounted strayWritten := by
      unfold strayWritten
      exact .step 4096 (.refl _) (slotsInside_root _ (by decide) (by decide : components [47, 65] = [[65]]) rfl)
    unfold strayMade
    exact .step 4096 hwrite (slotsInside_root _ (by decide) (by decide : components [47, 68] = [[68]]) rfl)
  exact volume_kept hinit (by rw [stray_fails.2.1]; decide)
    (.step 4096 hmade (slotsInside_failing stray_fails.2.2.2.2 _ _ _))

theorem volume_not_kept :
    ¬ ∀ (baseLba : Nat) (s₀ s s' : State), init baseLba s₀ = .ok .ok s →
      baseLba + s.fs.totalSectors + 2 ^ 17 ≤ 2 ^ 32 → Trace anyCalls s s' →
      WritesIn 0 (baseLba + s.fs.totalSectors) s s' := by
  intro h
  obtain ⟨ws, hw, hin⟩ := h 0 strayState strayBooted _ stray_booted (by rw [stray_runs.2.1]; decide)
    (.step (x := .change (.createDirectory [68, 47, 88])) 4096 (.refl _) trivial)
  have hnone : strayBooted.writes = [] := List.map_eq_nil_iff.1 stray_runs.2.2.1
  rw [hnone, List.nil_append] at hw
  have hmem : (4002, 1) ∈ ws.map fun w => (w.1, w.2.length) := by
    rw [← hw]
    exact stray_runs.2.2.2 ▸ (by decide : ((4002, 1) : Nat × Nat) ∈ [(4, 1), (4, 1), (4002, 1), (1, 1), (2, 1)])
  obtain ⟨w, hmem, he⟩ := List.mem_map.1 hmem
  obtain ⟨h1, h2⟩ := Prod.mk.injEq .. ▸ he
  have := (hin w hmem 0 (by omega)).2
  rw [h1, stray_runs.2.1] at this
  exact absurd this (by decide)

end AltoniumOS.Fat12

/-
Two drivers that differ in their scratch only, the cluster buffer and the second FAT, run side by side.
Every use of the buffer is behind a read that filled it, or a fill of its own, on every path: so no call
tells them apart, whatever the disk answers, in what it returns, what it writes and the state it leaves.
-/
import AltoniumOS.Lib.Twins
import AltoniumOS.System.Calls

namespace AltoniumOS.Fat12

open AltoniumOS.Lib

/-- Equal but for the cluster buffer and the second FAT. -/
structure Alike (s t : State) : Prop where
  core : s.toCore = t.toCore
  faults : s.faults = t.faults
  writes : s.writes = t.writes

/-- Alike, on a volume of this layout. -/
def AlikeOn (fs : Fs) (s t : State) : Prop := Alike s t ∧ s.fs = fs

/-- Drivers that are alike are alike after `m`, and it returns the same. -/
abbrev Unseen {α : Type} (fs : Fs) (m : M α) : Prop := Twins (AlikeOn fs) Eq m m

section

variable {α : Type} {fs : Fs}

/-! ## State and disk -/

theorem twins_getCore : Twins (AlikeOn fs) (fun c c' => c = c' ∧ c.fs = fs) getCore getCore :=
  fun _ _ hs => .ok ⟨hs.1.core, hs.2⟩ hs

/-- The core read, and gone on with. -/
theorem unseen_core {f : Core → M α} (h : ∀ c, c.fs = fs → Unseen fs (f c)) : Unseen fs (getCore >>= f) :=
  twins_getCore.bind fun c c' hc => by
    obtain ⟨rfl, hfs⟩ := hc
    exact h c hfs

theorem unseen_modifyCore {f : Core → Core} (h : ∀ c, (f c).fs = c.fs) : Unseen fs (modifyCore f) := by
  rintro s t ⟨⟨h1, h2, h3⟩, h4⟩
  exact .ok rfl ⟨⟨congrArg f h1, h2, h3⟩, (h s.toCore).trans h4⟩

theorem twins_setClusterBuffer (b b' : Buf) : Twins (AlikeOn fs) Eq (setClusterBuffer b) (setClusterBuffer b') :=
  fun _ _ hs => .ok rfl ⟨⟨hs.1.core, hs.1.faults, hs.1.writes⟩, hs.2⟩

theorem twins_getClusterBuffer : Twins (AlikeOn fs) (fun _ _ => True) getClusterBuffer getClusterBuffer :=
  fun _ _ hs => .ok trivial hs

/-- A read that succeeds fills both buffers with the same. -/
theorem twins_readCluster (k : Nat) :
    Twins (AlikeOn fs) (fun r r' => r.1 = r'.1 ∧
      (r.1 = true → ∀ i < sectorSize * fs.sectorsPerCluster, r.2 i = r'.2 i)) (readCluster k) (readCluster k) := by
  unfold readCluster
  refine twins_getCore.bind fun c c' hc => ?_
  obtain ⟨rfl, hfs⟩ := hc
  refine twins_getClusterBuffer.bind fun b b' _ => ?_
  have hread : Twins (AlikeOn fs) (fun r r' => r.1 = r'.1 ∧
      (r.1 = true → ∀ i < sectorSize * fs.sectorsPerCluster, r.2 i = r'.2 i))
        (diskReadSectors (lbaAdd c.fs.baseLba (clusterToLba c.fs k)) b 0 c.fs.sectorsPerCluster)
      (diskReadSectors (lbaAdd c.fs.baseLba (clusterToLba c.fs k)) b' 0 c.fs.sectorsPerCluster) := by
    rintro s t ⟨⟨h1, h2, h3⟩, h4⟩
    unfold diskReadSectors
    split
    · exact .ok ⟨rfl, fun h => nomatch h⟩ ⟨⟨h1, h2, h3⟩, h4⟩
    · refine .ok ⟨congrArg (fun f => (f 0).isNone) h2, fun hok i hi => ?_⟩
        ⟨⟨h1, congrArg (fun f k => f (k + 1)) h2, h3⟩, h4⟩
      have hs : s.faults 0 = none := by simpa using hok
      have ht : t.faults 0 = none := h2 ▸ hs
      show Buf.blit b 0 (sectorBytes s.sectors _) (sectorSize * transferred (s.faults 0) _) i =
        Buf.blit b' 0 (sectorBytes t.sectors _) (sectorSize * transferred (t.faults 0) _) i
      rw [hs, ht, hfs]
      show Buf.blit b 0 _ (sectorSize * fs.sectorsPerCluster) i =
        Buf.blit b' 0 _ (sectorSize * fs.sectorsPerCluster) i
      rw [show i = 0 + i by omega, Buf.blit_in hi, Buf.blit_in hi, congrArg Core.sectors h1]
  refine hread.bind fun r r' hr => ?_
  exact (twins_setClusterBuffer _ _).bind fun _ _ _ => .pure hr

theorem sectorsOf_congr {b b' : Buf} {n : Nat} (h : ∀ i < sectorSize * n, b i = b' i) :
    sectorsOf b n = sectorsOf b' n := by
  refine List.map_congr_left fun j hj => funext fun o => ?_
  have hj := List.mem_range.1 hj
  unfold sectorOf
  split
  · refine h _ ?_
    unfold sectorSize at *
    omega
  · rfl

/-- A write call depends on the bytes it passes only. -/
theorem diskWriteSectors_congr {lba n : Nat} {b b' : Buf} (h : ∀ i < sectorSize * n, b i = b' i) :
    diskWriteSectors lba b n = diskWriteSectors lba b' n := by
  have hput : ∀ (fault : Option Nat) (S : Nat → Buf),
      putSectors S lba b (transferred fault n) = putSectors S lba b' (transferred fault n) := by
    intro fault S
    have hm : transferred fault n ≤ n := by
      unfold transferred
      split
      · exact Nat.le_refl n
      · exact Nat.min_le_right ..
    exact putSectors_congr fun i hi => h i (Nat.lt_of_lt_of_le hi (Nat.mul_le_mul_left _ hm))
  unfold diskWriteSectors
  simp only [sectorsOf_congr h, hput]

theorem unseen_diskWriteSectors (lba : Nat) (b : Buf) (n : Nat) : Unseen fs (diskWriteSectors lba b n) := by
  have hlog : ∀ passed, Unseen fs (logWrite lba passed) := fun passed s t ⟨⟨h1, h2, h3⟩, h4⟩ =>
    .ok rfl ⟨⟨h1, h2, congrArg (· ++ [(lba, passed)]) h3⟩, h4⟩
  have hfault : Unseen fs nextFault := fun s t ⟨⟨h1, h2, h3⟩, h4⟩ =>
    .ok (congrArg (fun f => f 0) h2) ⟨⟨h1, congrArg (fun f k => f (k + 1)) h2, h3⟩, h4⟩
  unfold diskWriteSectors
  split
  · exact .pure rfl
  · refine (hlog _).bind_eq fun _ => hfault.bind_eq fun fault => ?_
    refine Twins.bind_eq ?_ fun _ => .pure rfl
    exact unseen_modifyCore fun _ => rfl

theorem twins_writeCluster (k : Nat) {b b' : Buf} (hb : ∀ i < sectorSize * fs.sectorsPerCluster, b i = b' i) :
    Twins (AlikeOn fs) Eq (writeCluster k b) (writeCluster k b') := by
  unfold writeCluster
  refine twins_getCore.bind fun c c' hc => ?_
  obtain ⟨rfl, rfl⟩ := hc
  rw [diskWriteSectors_congr hb]
  exact unseen_diskWriteSectors _ _ _

theorem unseen_setFatEntry (k v : Nat) : Unseen fs (setFatEntry k v) := unseen_modifyCore fun _ => rfl

/-! ## The walkers -/

/-- A cluster read and gone on with: a failure, or bytes that are the same. -/
theorem unseen_readCluster {k : Nat} {f : Bool × Buf → M α}
    (hfail : ∀ b b', Twins (AlikeOn fs) Eq (f (false, b)) (f (false, b')))
    (hok : ∀ b b' : Buf, (∀ i < sectorSize * fs.sectorsPerCluster, b i = b' i) →
      Twins (AlikeOn fs) Eq (f (true, b)) (f (true, b'))) :
    Unseen fs (readCluster k >>= f) := by
  refine (twins_readCluster k).bind fun r r' hr => ?_
  obtain ⟨ok, b⟩ := r
  obtain ⟨ok', b'⟩ := r'
  obtain ⟨rfl, hb⟩ := hr
  cases ok with
  | true => exact hok b b' (hb rfl)
  | false => exact hfail b b'

theorem slotAt_twin (h : fs.Accepted) {b b' : Buf} (hb : ∀ i < sectorSize * fs.sectorsPerCluster, b i = b' i)
    {i : Nat} (hi : i < fs.entriesPerCluster) : slotAt b i = slotAt b' i := by
  have hepc := h.entriesPerCluster
  refine decodeEntry_congr fun x hx => hb _ ?_
  unfold dirEntrySize sectorSize
  omega

theorem unseen_findEntry (h : fs.Accepted) (fuel d : Nat) (n : ShortName) : Unseen fs (findEntry fuel d n) := by
  unfold findEntry
  refine unseen_core fun c hc => ?_
  split
  · split <;> exact .pure rfl
  · refine Twins.loop_eq (fun k => ?_) fuel d
    unfold findRound
    split
    · refine unseen_readCluster (fun b b' => .pure rfl) fun b b' hb => ?_
      dsimp only
      rw [if_pos rfl]
      refine twins_getCore.bind fun c c' hc => ?_
      obtain ⟨rfl, hfs⟩ := hc
      have hslot : ∀ i < c.fs.entriesPerCluster, slotAt b i = slotAt b' i := fun i hi => slotAt_twin h hb (hfs ▸ hi)
      rw [scan_congr (g := fun i => findVerdict n (slotAt b' i)) fun i hi => by rw [hslot i (List.mem_range.1 hi)]]
      split
      · rename_i i hi
        rw [hslot i (List.mem_range.1 (scan_hit_mem hi).1)]
        exact .pure rfl
      · exact .pure rfl
      · exact .pure rfl
    · exact .pure rfl

theorem unseen_iterateDirectoryInternal {κ : Type} (h : fs.Accepted) (fuel d : Nat)
    (cb : κ → DirEntryInfo → Bool × κ) (ctx : κ) : Unseen fs (iterateDirectoryInternal fuel d cb ctx) := by
  unfold iterateDirectoryInternal
  refine unseen_core fun c hc => ?_
  split
  · exact .pure rfl
  · refine Twins.loop_eq (fun i => ?_) fuel _
    obtain ⟨k, ctx⟩ := i
    rw [iterateRound]
    split
    · refine unseen_readCluster (fun b b' => .pure rfl) fun b b' hb => ?_
      dsimp only
      rw [if_pos rfl]
      refine twins_getCore.bind fun c c' hc => ?_
      obtain ⟨rfl, hfs⟩ := hc
      rw [iterateSlots_congr fun i hi => slotAt_twin h hb (hfs ▸ List.mem_range.1 hi)]
      generalize iterateSlots cb (slotAt b') (List.range c.fs.entriesPerCluster) ctx = r
      obtain ⟨stop, ctx⟩ := r
      cases stop <;> exact .pure rfl
    · exact .pure rfl

theorem unseen_freeLoop (h : fs.Accepted) (fuel d : Nat) : Unseen fs (loop freeRound fuel (d, 0)) := by
  refine Twins.loop_eq (fun i => ?_) fuel _
  obtain ⟨k, previous⟩ := i
  rw [freeRound]
  split
  · refine unseen_readCluster (fun b b' => .pure rfl) fun b b' hb => ?_
    dsimp only
    rw [if_pos rfl]
    refine twins_getCore.bind fun c c' hc => ?_
    obtain ⟨rfl, hfs⟩ := hc
    rw [scan_congr (g := fun i => freeVerdict (slotAt b' i)) fun i hi => by
      rw [slotAt_twin h hb (hfs ▸ List.mem_range.1 hi)]]
    split <;> exact .pure rfl
  · exact .pure rfl

theorem unseen_changeLoop (h : fs.Accepted) (fuel : Nat) : ∀ (cs : List (List UInt8)) (d : Nat) (stack : PathStack),
    Unseen fs (changeLoop fuel d stack cs)
  | [], _, _ => .pure rfl
  | component :: rest, d, stack => by
    rw [changeLoop]
    split
    · exact unseen_changeLoop h fuel rest _ _
    · split
      · exact unseen_changeLoop h fuel rest _ _
      · split
        · exact .pure rfl
        · refine (unseen_findEntry h fuel d _).bind_eq fun r => ?_
          split
          · exact .pure rfl
          · split
            · exact .pure rfl
            · exact unseen_changeLoop h fuel rest _ _

theorem unseen_locateLoop (h : fs.Accepted) (fuel : Nat) : ∀ (cs : List (List UInt8)) (d : Nat) (stack : List Nat),
    Unseen fs (locateLoop fuel d stack cs)
  | [], _, _ => .pure rfl
  | component :: rest, d, stack => by
    rw [locateLoop]
    split
    · exact unseen_locateLoop h fuel rest _ _
    · split
      · exact unseen_locateLoop h fuel rest _ _
      · split
        · exact .pure rfl
        · refine (unseen_findEntry h fuel d _).bind_eq fun r => ?_
          split
          · exact .pure rfl
          · split
            · exact .pure rfl
            · exact unseen_locateLoop h fuel rest _ _

theorem unseen_locateDirectory (h : fs.Accepted) (fuel : Nat) (path : List UInt8) :
    Unseen fs (locateDirectory fuel path) := by
  unfold locateDirectory
  refine unseen_core fun c hc => ?_
  split
  · exact .pure rfl
  · split <;> exact unseen_locateLoop h fuel _ _ _

theorem unseen_resolveParentAndName (h : fs.Accepted) (fuel : Nat) (path : List UInt8) :
    Unseen fs (resolveParentAndName fuel path) := by
  have hloop : ∀ (cs : List (List UInt8)) (d : Nat) (stack : List Nat),
      Unseen fs (resolveLoop fuel d stack cs) := by
    intro cs d stack
    rcases List.eq_nil_or_concat cs with rfl | ⟨cs, last, rfl⟩
    · exact .pure rfl
    · rw [List.concat_eq_append, resolveLoop_eq]
      exact (unseen_locateLoop h fuel cs d stack).bind_eq fun r => .pure rfl
  unfold resolveParentAndName
  refine unseen_core fun c hc => ?_
  split
  · exact .pure rfl
  · split <;> exact hloop _ _ _

/-! ## Allocation and slots -/

theorem fill_twin (h : fs.Accepted) (b b' : Buf) :
    ∀ i < sectorSize * fs.sectorsPerCluster, b.fill 0 fs.clusterSizeBytes i = b'.fill 0 fs.clusterSizeBytes i := by
  intro i hi
  rw [h.clusterSize_eq, Buf.fill_lt hi, Buf.fill_lt hi]

theorem unseen_allocateCluster (h : fs.Accepted) : Unseen fs allocateCluster := by
  unfold allocateCluster
  refine unseen_core fun c hc => ?_
  subst hc
  split
  · exact .pure rfl
  · rename_i k hk
    refine (unseen_setFatEntry k _).bind_eq fun _ => ?_
    refine twins_getClusterBuffer.bind fun b b' _ => (twins_setClusterBuffer _ _).bind fun _ _ _ => ?_
    refine (twins_writeCluster k (fill_twin h b b')).bind fun ok ok' hok => ?_
    subst hok
    split
    · exact .pure rfl
    · exact (unseen_setFatEntry k _).bind_eq fun _ => .pure rfl

theorem unseen_freeChain (fuel k : Nat) : Unseen fs (freeChain fuel k) := by
  refine Twins.loop_eq (fun i => ?_) fuel k
  unfold freeChainRound
  split
  · exact unseen_core fun c _ => (unseen_setFatEntry i _).bind_eq fun _ => .pure rfl
  · exact .pure rfl

theorem unseen_freeFrom (fuel k : Nat) : Unseen fs (freeFrom fuel k) := by
  unfold freeFrom
  split
  · exact unseen_freeChain fuel k
  · exact .pure rfl

theorem unseen_findFreeEntry (h : fs.Accepted) (fuel d : Nat) : Unseen fs (findFreeEntry fuel d) := by
  unfold findFreeEntry
  refine unseen_core fun c hc => ?_
  split
  · split <;> exact .pure rfl
  · refine (unseen_freeLoop h fuel d).bind_eq fun r => ?_
    split
    · exact .pure rfl
    · refine (unseen_allocateCluster h).bind_eq fun k => ?_
      split
      · exact .pure rfl
      · refine Twins.bind_eq ?_ fun _ => .pure rfl
        unfold linkCluster
        split
        · exact (unseen_setFatEntry _ _).bind_eq fun _ => unseen_setFatEntry _ _
        · exact .pure rfl

/-- The slot is put into bytes just read. -/
theorem unseen_writeEntry (p : Loc) (e : RawDirEntry) : Unseen fs (writeEntry p e) := by
  unfold writeEntry
  refine unseen_core fun c hc => ?_
  split
  · split
    · exact .pure rfl
    · refine Twins.bind_eq ?_ fun _ => .pure rfl
      exact unseen_modifyCore fun _ => rfl
  · refine unseen_readCluster (fun b b' => .pure rfl) fun b b' hb => ?_
    dsimp only
    rw [if_neg (by decide)]
    split
    · exact .pure rfl
    · refine (twins_setClusterBuffer _ _).bind fun _ _ _ => ?_
      refine Twins.bind (R := Eq) (twins_writeCluster p.1 fun i hi => ?_) fun ok ok' hok => ?_
      · unfold Buf.blit
        split
        · rfl
        · exact hb i hi
      · subst hok
        split <;> exact .pure rfl

theorem unseen_writeDirectoryEntry (h : fs.Accepted) (fuel d : Nat) (n : ShortName) (e : RawDirEntry) :
    Unseen fs (writeDirectoryEntry fuel d n e) := by
  unfold writeDirectoryEntry
  refine (unseen_findEntry h fuel d n).bind_eq fun r => ?_
  split
  · exact unseen_writeEntry _ e
  · refine (unseen_findFreeEntry h fuel d).bind_eq fun r => ?_
    split
    · exact unseen_writeEntry _ e
    · exact .pure rfl
  · exact .pure rfl

theorem unseen_markEntryDeleted (h : fs.Accepted) (fuel d : Nat) (n : ShortName) :
    Unseen fs (markEntryDeleted fuel d n) := by
  unfold markEntryDeleted
  refine (unseen_findEntry h fuel d n).bind_eq fun r => ?_
  split
  · exact unseen_writeEntry _ _
  · exact .pure rfl

/-! ## The changes -/

/-- The data goes into a buffer filled with zeros. -/
theorem unseen_writeLoop (h : fs.Accepted) (fuel : Nat) (data : Buf) (size : Nat) :
    Unseen fs (writeLoop fuel data size) := by
  refine Twins.loop_eq (fun i => ?_) fuel _
  obtain ⟨first, prev, written⟩ := i
  rw [writeRound]
  split
  · refine (unseen_allocateCluster h).bind_eq fun k => ?_
    split
    · exact (unseen_freeFrom fuel first).bind_eq fun _ => .pure rfl
    · have hlink : Unseen fs (linkPrevious prev k) := by
        unfold linkPrevious
        split
        · exact unseen_setFatEntry _ _
        · exact .pure rfl
      refine hlink.bind_eq fun _ => (unseen_setFatEntry k _).bind_eq fun _ => unseen_core fun c hc => ?_
      subst hc
      refine twins_getClusterBuffer.bind fun b b' _ => (twins_setClusterBuffer _ _).bind fun _ _ _ => ?_
      refine Twins.bind (R := Eq) (twins_writeCluster k fun i hi => ?_) fun ok ok' hok => ?_
      · unfold Buf.blit
        split
        · rfl
        · exact fill_twin h b b' i hi
      · subst hok
        split
        · exact .pure rfl
        · exact (unseen_freeChain fuel _).bind_eq fun _ => .pure rfl
  · exact .pure rfl

theorem unseen_commitFile (h : fs.Accepted) (fuel d : Nat) (n : ShortName) (old : Option Nat) (first size : Nat) :
    Unseen fs (commitFile fuel d n old first size) := by
  unfold commitFile
  refine (unseen_writeDirectoryEntry h fuel d n _).bind_eq fun r => ?_
  split
  · split
    · exact .pure rfl
    · split
      · exact (unseen_freeChain fuel _).bind_eq fun _ => .pure rfl
      · exact .pure rfl
  · exact (unseen_freeFrom fuel _).bind_eq fun _ => .pure rfl

theorem unseen_storeFile (h : fs.Accepted) (fuel : Nat) (data : Buf) (size d : Nat) (n : ShortName)
    (old : Option Nat) : Unseen fs (do match ← writeLoop fuel data size with
    | .error e => pure e
    | .ok firstCluster => commitFile fuel d n old firstCluster size) := by
  refine (unseen_writeLoop h fuel _ size).bind_eq fun r => ?_
  split
  · exact .pure rfl
  · exact unseen_commitFile h fuel d n old _ size

theorem unseen_writeFileBody (h : fs.Accepted) (fuel : Nat) (name : List UInt8) (data : Option Buf) (size : Nat) :
    Unseen fs (writeFileBody fuel name data size) := by
  unfold writeFileBody
  refine unseen_core fun c _ => ?_
  split
  · exact .pure rfl
  · split
    · exact .pure rfl
    · refine (unseen_resolveParentAndName h fuel name).bind_eq fun r => ?_
      split
      · exact .pure rfl
      · refine (unseen_findEntry h fuel _ _).bind_eq fun r => ?_
        split
        · split
          · exact .pure rfl
          · exact unseen_storeFile h fuel _ _ _ _ _
        · exact unseen_storeFile h fuel _ _ _ _ _
        · exact .pure rfl

/-- The dot entries are put into a buffer filled with zeros. -/
theorem unseen_createDirectoryBody (h : fs.Accepted) (fuel : Nat) (name : List UInt8) :
    Unseen fs (createDirectoryBody fuel name) := by
  unfold createDirectoryBody
  refine unseen_core fun c hc => ?_
  split
  · exact .pure rfl
  · refine (unseen_resolveParentAndName h fuel name).bind_eq fun r => ?_
    split
    · exact .pure rfl
    · rename_i d n
      refine (unseen_findEntry h fuel d n).bind_eq fun r => ?_
      split
      · exact .pure rfl
      · refine (unseen_allocateCluster h).bind_eq fun k => ?_
        split
        · exact .pure rfl
        · refine twins_getClusterBuffer.bind fun b b' _ => (twins_setClusterBuffer _ _).bind fun _ _ _ => ?_
          refine Twins.bind (R := Eq) (twins_writeCluster k fun i hi => ?_) fun ok ok' hok => ?_
          · subst hc
            unfold dotBuffer Buf.blit
            split
            · rfl
            · split
              · rfl
              · exact fill_twin h b b' i hi
          · subst hok
            split
            · refine (unseen_writeDirectoryEntry h fuel d n _).bind_eq fun r => ?_
              split
              · exact .pure rfl
              · exact (unseen_freeChain fuel k).bind_eq fun _ => .pure rfl
            · exact (unseen_freeChain fuel k).bind_eq fun _ => .pure rfl

theorem unseen_deleteFileBody (h : fs.Accepted) (fuel : Nat) (name : List UInt8) :
    Unseen fs (deleteFileBody fuel name) := by
  unfold deleteFileBody
  refine unseen_core fun c _ => ?_
  split
  · exact .pure rfl
  · refine (unseen_resolveParentAndName h fuel name).bind_eq fun r => ?_
    split
    · exact .pure rfl
    · refine (unseen_findEntry h fuel _ _).bind_eq fun r => ?_
      split
      · exact .pure rfl
      · split
        · exact .pure rfl
        · exact (unseen_freeFrom fuel _).bind_eq fun _ => unseen_markEntryDeleted h fuel _ _

/-! ## Flushing -/

theorem unseen_writeAll : ∀ ws : List (Nat × Buf), Unseen fs (writeAll ws)
  | [] => .pure rfl
  | w :: ws => by
    rw [writeAll]
    refine (unseen_diskWriteSectors w.1 w.2 1).bind_eq fun ok => ?_
    split
    · exact unseen_writeAll ws
    · exact .pure rfl

theorem unseen_flushRoot : Unseen fs flushRoot := by
  unfold flushRoot
  refine unseen_core fun c _ => ?_
  split
  · exact .pure rfl
  · rw [writeArea_eq]
    refine (unseen_writeAll _).bind_eq fun ok => ?_
    split
    · refine Twins.bind_eq ?_ fun _ => .pure rfl
      exact unseen_modifyCore fun _ => rfl
    · exact .pure rfl

theorem unseen_flushFats : Unseen fs flushFats := by
  unfold flushFats
  refine unseen_core fun c _ => ?_
  split
  · exact .pure rfl
  · rw [writeFatCopies_eq]
    refine (unseen_writeAll _).bind_eq fun ok => ?_
    split
    · refine Twins.bind_eq ?_ fun _ => .pure rfl
      exact unseen_modifyCore fun _ => rfl
    · exact .pure rfl

theorem unseen_change (h : fs.Accepted) (fuel : Nat) (x : Change) : Unseen fs (x.exec fuel) := by
  have hbody : Unseen fs (x.body fuel) := by
    cases x with
    | writeFile name data size => exact unseen_writeFileBody h fuel name data size
    | createDirectory name => exact unseen_createDirectoryBody h fuel name
    | deleteFile name => exact unseen_deleteFileBody h fuel name
  rw [x.exec_eq]
  unfold committing flushAll
  refine hbody.bind_eq fun r => ?_
  split
  · exact unseen_flushRoot.bind_eq fun _ => unseen_flushFats.bind_eq fun _ => .pure rfl
  · exact .pure rfl

/-! ## Reading -/

/-- The bytes copied out are bytes just read. -/
theorem unseen_readRound (h : fs.Accepted) (size : Nat) (i : Nat × Nat × Buf) : Unseen fs (readRound size i) := by
  obtain ⟨cluster, cursor, buffer⟩ := i
  rw [readRound]
  split
  · refine unseen_readCluster (fun b b' => .pure rfl) fun b b' hb => ?_
    dsimp only
    rw [if_pos rfl]
    refine twins_getCore.bind fun c c' hc => ?_
    obtain ⟨rfl, rfl⟩ := hc
    have hcopy : buffer.blit cursor b (min c.fs.clusterSizeBytes (size - cursor)) =
        buffer.blit cursor b' (min c.fs.clusterSizeBytes (size - cursor)) := by
      funext i
      unfold Buf.blit
      split
      · exact hb _ (by rw [← h.clusterSize_eq]; omega)
      · rfl
    rw [hcopy]
    exact .pure rfl
  · exact .pure rfl

theorem unseen_readFile (h : fs.Accepted) (fuel : Nat) (path : List UInt8) (buffer : Option Buf) (maxSize : Nat) :
    Unseen fs (readFile fuel path buffer maxSize) := by
  unfold readFile
  refine unseen_core fun c _ => ?_
  split
  · exact .pure rfl
  · split
    · exact .pure rfl
    · refine (unseen_resolveParentAndName h fuel path).bind_eq fun r => ?_
      split
      · exact .pure rfl
      · refine (unseen_findEntry h fuel _ _).bind_eq fun r => ?_
        split
        · exact .pure rfl
        · split
          · exact .pure rfl
          · split
            · exact .pure rfl
            · exact (Twins.loop_eq (unseen_readRound h _) fuel _).bind_eq fun r => .pure rfl

theorem unseen_iterateCurrentDirectory {κ : Type} (h : fs.Accepted) (fuel : Nat) (cb : κ → DirEntryInfo → Bool × κ)
    (ctx : κ) : Unseen fs (iterateCurrentDirectory fuel cb ctx) := by
  unfold iterateCurrentDirectory
  refine unseen_core fun c _ => ?_
  split
  · exact .pure rfl
  · exact unseen_iterateDirectoryInternal h fuel _ cb ctx

theorem unseen_iteratePath {κ : Type} (h : fs.Accepted) (fuel : Nat) (path : List UInt8)
    (cb : κ → DirEntryInfo → Bool × κ) (ctx : κ) : Unseen fs (iteratePath fuel path cb ctx) := by
  unfold iteratePath
  refine unseen_core fun c _ => ?_
  split
  · exact .pure rfl
  · split
    · exact unseen_iterateCurrentDirectory h fuel cb ctx
    · refine (unseen_locateDirectory h fuel path).bind_eq fun r => ?_
      split
      · exact .pure rfl
      · exact unseen_iterateDirectoryInternal h fuel _ cb ctx

theorem unseen_changeDirectory (h : fs.Accepted) (fuel : Nat) (path : List UInt8) :
    Unseen fs (changeDirectory fuel path) := by
  unfold changeDirectory
  refine unseen_core fun c _ => ?_
  split
  · exact .pure rfl
  · split
    · exact .pure rfl
    · refine (unseen_changeLoop h fuel _ _ _).bind_eq fun r => ?_
      split
      · exact .pure rfl
      · refine Twins.bind_eq ?_ fun _ => .pure rfl
        exact unseen_modifyCore fun _ => rfl

theorem unseen_flush : Unseen fs flush := by
  unfold flush
  refine unseen_core fun c _ => ?_
  split
  · exact .pure rfl
  · refine unseen_flushRoot.bind_eq fun r => ?_
    split
    · exact unseen_flushFats
    · exact .pure rfl

/-- Drivers that are alike, on a mounted volume, answer every call alike: it returns the same, result and
bytes, after the same writes, and leaves them alike. -/
theorem Call.unseen (h : fs.Accepted) (fuel : Nat) : ∀ x : Call, Unseen fs (x.exec fuel)
  | .iterateCurrentDirectory cb ctx => unseen_iterateCurrentDirectory h fuel cb ctx
  | .iteratePath path cb ctx => unseen_iteratePath h fuel path cb ctx
  | .changeDirectory path => unseen_changeDirectory h fuel path
  | .getCwd => unseen_core fun _ _ => .pure rfl
  | .readFile path buffer maxSize => unseen_readFile h fuel path buffer maxSize
  | .change x => unseen_change h fuel x
  | .flush => unseen_flush

end

/-! ## Mounting -/

section

variable {α : Type}

theorem twins_init_core {f : Core → M α} (h : ∀ c, Twins Alike Eq (f c) (f c)) :
    Twins Alike Eq (getCore >>= f) (getCore >>= f) :=
  Twins.bind (R := Eq) (fun _ _ hs => .ok hs.core hs) fun c c' hc => by
    subst hc
    exact h c

theorem twins_init_modify {f : Core → Core} {g : M α} (h : Twins Alike Eq g g) :
    Twins Alike Eq (modifyCore f >>= fun _ => g) (modifyCore f >>= fun _ => g) :=
  Twins.bind_eq (fun _ _ hs => .ok rfl ⟨congrArg f hs.core, hs.faults, hs.writes⟩) fun _ => h

/-- Reading an area succeeds or fails whatever the buffer held, and into the same buffer it reads the same. -/
theorem twins_readArea (lba : Nat) : ∀ (n i : Nat) (b b' : Buf),
    Twins Alike (fun r r' => r.1 = r'.1 ∧ (b = b' → r.2 = r'.2)) (readArea lba b i n) (readArea lba b' i n)
  | 0, _, _, _ => .pure ⟨rfl, id⟩
  | n + 1, i, b, b' => by
    have hread : Twins Alike (fun r r' => r.1 = r'.1 ∧ (b = b' → r.2 = r'.2))
        (diskReadSector (lbaAdd lba i) b (sectorSize * i)) (diskReadSector (lbaAdd lba i) b' (sectorSize * i)) := by
      rintro s t ⟨h1, h2, h3⟩
      refine .ok ⟨congrArg (fun f => (f 0).isNone) h2, ?_⟩ ⟨h1, congrArg (fun f k => f (k + 1)) h2, h3⟩
      rintro rfl
      show Buf.blit b _ (sectorBytes s.sectors _) (sectorSize * transferred (s.faults 0) 1) =
        Buf.blit b _ (sectorBytes t.sectors _) (sectorSize * transferred (t.faults 0) 1)
      rw [h1, h2]
    rw [readArea, readArea]
    refine hread.bind fun r r' hr => ?_
    obtain ⟨ok, b₁⟩ := r
    obtain ⟨ok', b₁'⟩ := r'
    obtain ⟨rfl, hb⟩ := hr
    cases ok with
    | true => exact (twins_readArea lba n (i + 1) b₁ b₁').mono fun r r' h => ⟨h.1, fun he => h.2 (hb he)⟩
    | false => exact .pure ⟨rfl, hb⟩

/-- An area read into a buffer of the core. -/
theorem twins_init_area {lba n : Nat} {b : Buf} {f : Bool × Buf → M α} (h : ∀ r, Twins Alike Eq (f r) (f r)) :
    Twins Alike Eq (readArea lba b 0 n >>= f) (readArea lba b 0 n >>= f) := by
  refine (twins_readArea lba n 0 b b).bind fun r r' hr => ?_
  obtain rfl : r = r' := Prod.ext hr.1 (hr.2 rfl)
  exact h r

theorem twins_loadRoot (ok : Bool) (lba : Nat) (buffer : Buf) (n : Nat) : Twins Alike Eq (do
    if !ok then pure false
    else
      let (ok, root) ← readArea lba buffer 0 n
      modifyCore fun c => { c with rootDir := root }
      pure ok) (do
    if !ok then pure false
    else
      let (ok, root) ← readArea lba buffer 0 n
      modifyCore fun c => { c with rootDir := root }
      pure ok) := by
  split
  · exact .pure rfl
  · exact twins_init_area fun r => twins_init_modify (.pure rfl)

theorem twins_loadCaches : Twins Alike Eq loadCaches loadCaches := by
  unfold loadCaches
  refine twins_init_core fun c => twins_init_area fun r => twins_init_modify ?_
  split
  · exact .pure rfl
  · dsimp only
    split
    · -- the second FAT is read into scratch: the success of the reads is all that is seen
      refine Twins.bind (R := fun s t => Alike s t) (fun s t hs => .ok hs hs) fun s t _ => ?_
      refine (twins_readArea _ _ 0 s.fatSecondary t.fatSecondary).bind fun r r' hr => ?_
      obtain ⟨ok, b⟩ := r
      obtain ⟨ok', b'⟩ := r'
      obtain ⟨rfl, -⟩ := hr
      refine Twins.bind (R := fun _ _ => True) (fun s t hs => .ok trivial ⟨hs.core, hs.faults, hs.writes⟩)
        fun _ _ _ => ?_
      exact twins_loadRoot _ _ _ _
    · rw [pure_bind]
      exact twins_loadRoot _ _ _ _

theorem twins_init (baseLba : Nat) : Twins Alike Eq (init baseLba) (init baseLba) := by
  have hsector :
      Twins Alike Eq (diskReadSector baseLba (fun _ => 0) 0) (diskReadSector baseLba (fun _ => 0) 0) := by
    rintro s t ⟨h1, h2, h3⟩
    refine .ok ?_ ⟨h1, congrArg (fun f k => f (k + 1)) h2, h3⟩
    show ((s.faults 0).isNone,
      Buf.blit (fun _ => 0) 0 (sectorBytes s.sectors baseLba) (sectorSize * transferred (s.faults 0) 1)) =
        ((t.faults 0).isNone,
          Buf.blit (fun _ => 0) 0 (sectorBytes t.sectors baseLba) (sectorSize * transferred (t.faults 0) 1))
    rw [h1, h2]
  unfold init
  refine hsector.bind_eq fun r => ?_
  dsimp only
  split
  · exact .pure rfl
  split
  · exact .pure rfl
  refine twins_init_modify (twins_init_core fun c => ?_)
  split
  · exact .pure rfl
  split
  · exact .pure rfl
  refine twins_init_modify (twins_init_core fun c => ?_)
  split
  · exact .pure rfl
  refine twins_init_modify (twins_init_core fun c => ?_)
  split
  · exact .pure rfl
  refine twins_loadCaches.bind_eq fun ok => ?_
  split
  · exact twins_init_modify (.pure rfl)
  · exact .pure rfl

end

/-! ## Leftovers -/

/-- What is left in the cluster buffer and in the second FAT decides nothing: two drivers on a volume that
differ there only return the same, result and bytes, make the same writes, and differ there only again. -/
theorem leftovers_unseen {s t : State} (hs : s.fs.Accepted) (h : Alike s t) (fuel : Nat) :
    (∀ x : Call, Paired Alike Eq (x.exec fuel s) (x.exec fuel t)) ∧
      ∀ baseLba, Paired Alike Eq (init baseLba s) (init baseLba t) := by
  refine ⟨fun x => ?_, fun baseLba => twins_init baseLba s t h⟩
  have hx := x.unseen hs fuel s t ⟨h, rfl⟩
  generalize x.exec fuel s = r at hx ⊢
  generalize x.exec fuel t = r' at hx ⊢
  cases hx with
  | ok ha hs' => exact .ok ha hs'.1
  | error hs' => exact .error hs'.1

theorem alike_littered (s : State) (b b' : Buf) : Alike s { s with clusterBuffer := b, fatSecondary := b' } :=
  ⟨rfl, rfl, rfl⟩

theorem leftovers_unseen_blank : Paired Alike Eq
    ((Call.change (.writeFile [65] (some fun _ => 7) 600)).exec 4096 (endState (init 0 blankFailing)))
    ((Call.change (.writeFile [65] (some fun _ => 7) 600)).exec 4096
      { endState (init 0 blankFailing) with clusterBuffer := fun _ => 1, fatSecondary := fun _ => 2 }) := by
  obtain ⟨hm, hfs⟩ := init_sector blank_failing
  have hacc : (endState (init 0 blankFailing)).fs.Accepted := hfs.symm ▸ hm.accepted
  generalize endState (init 0 blankFailing) = s at hacc ⊢
  exact (leftovers_unseen hacc (alike_littered s _ _) 4096).1 _

end AltoniumOS.Fat12

/-
The layout the builder makes, in the terms of the driver: its names and FAT entries are those of
`fat12.c`, a file gets the clusters behind those of the files before it, and its entry the next slot of
the root directory. `Built done b` says this of all the files laid out so far.
-/
import AltoniumOS.Image.Builder
import AltoniumOS.Fat12.Names
import AltoniumOS.Fat12.Table

namespace AltoniumOS.Image

open AltoniumOS.Lib
open AltoniumOS.Fat12 (ShortName makeShortName setFatBytes cellSet_setFatBytes dot toUpper pad)

theorem clusterSize_eq : clusterSize = 4096 := rfl

theorem totalClusters_eq : totalClusters = 2540 := rfl

theorem put_out {b : Buf} {off i : Nat} {data : List UInt8} (h : i < off ∨ off + data.length ≤ i) :
    put b off data i = b i := Buf.blit_out h

theorem put_in {b : Buf} {off i : Nat} {data : List UInt8} (h : i < data.length) :
    put b off data (off + i) = data.getD i 0 := Buf.blit_in h

/-! ## The encoders agree -/

/-- On the names the driver accepts, both encoders give the same 11 bytes. -/
theorem toShortName_eq {name : List UInt8} {n : ShortName} (h : makeShortName name = .ok n) :
    toShortName name = n.1 := by
  obtain ⟨base, ext, hname, -, hb8, he3, ⟨hb, he⟩, -, hn⟩ := Fat12.makeShortName_ok h
  rw [hn]
  unfold toShortName
  have htake : base.take 8 = base := List.take_of_length_le hb8
  have htake' : ext.take 3 = ext := List.take_of_length_le he3
  obtain ⟨rfl, rfl⟩ | rfl := hname
  · rw [List.splitOn_eq_singleton hb]
    simp [htake]
  · rw [List.splitOn_append_cons_self, List.splitOn_eq_singleton hb, List.splitOn_eq_singleton he]
    simp [htake, htake']

/-- Both set a FAT entry to the same bytes. -/
theorem setFatEntry_eq (fat : Buf) (cluster value : Nat) :
    setFatEntry fat cluster value = setFatBytes fat cluster value := by
  have hne : cluster + cluster / 2 + 1 ≠ cluster + cluster / 2 := by omega
  unfold setFatEntry setFatBytes
  simp only [Nat.and_one_is_mod, Function.update_of_ne hne, UInt8.ofNat_or, UInt8.ofNat_and, UInt8.ofNat_toNat]
  rfl

/-- A FAT entry is a cell of its own: it reads back what was set in it, setting it changes its two bytes but no
other entry, entries may be set in either order, and the builder's bytes are the driver's. -/
theorem entries_independent (c : Fat12.Core) (cluster value : Nat)
    (h : cluster + cluster / 2 + 1 < c.fs.fatSizeBytes) :
    Fat12.getFatEntry (c.setFat cluster value) cluster = value &&& 0xFFF ∧
      (∀ cluster₂, cluster₂ ≠ cluster →
        Fat12.getFatEntry (c.setFat cluster value) cluster₂ = Fat12.getFatEntry c cluster₂) ∧
      (∀ i, i ≠ cluster + cluster / 2 → i ≠ cluster + cluster / 2 + 1 →
        (c.setFat cluster value).fatPrimary i = c.fatPrimary i) ∧
      (∀ cluster₂ value₂, cluster₂ ≠ cluster →
        (c.setFat cluster value).setFat cluster₂ value₂ = (c.setFat cluster₂ value₂).setFat cluster value) ∧
      setFatEntry c.fatPrimary cluster value = (c.setFat cluster value).fatPrimary := by
  refine ⟨?_, ?_, ?_, ?_, setFatEntry_eq c.fatPrimary cluster value⟩
  · rw [Fat12.and_cell]
    exact Fat12.getFatEntry_setFat_self h
  · intro cluster₂ hne
    exact Fat12.getFatEntry_setFat_ne hne
  · intro i h0 h1
    exact (cellSet_setFatBytes c.fatPrimary cluster value).byte_ne h0 h1
  · intro cluster₂ value₂ hne
    exact Fat12.setFat_comm c value value₂ (Ne.symm hne)

/-- A FAT of one sector. -/
def oneSectorFat : Fat12.Core := { (Fat12.State.initial fun _ _ => 0).toCore with fs := { fatSizeBytes := 512 } }

theorem entries_independent_two :
    Fat12.getFatEntry (oneSectorFat.setFat 3 0xFABC) 3 = 0xABC ∧
      Fat12.getFatEntry (oneSectorFat.setFat 3 0xFABC) 2 = Fat12.getFatEntry oneSectorFat 2 := by
  obtain ⟨hself, hother, -⟩ := entries_independent oneSectorFat 3 0xFABC (by decide)
  exact ⟨hself, hother 2 (by decide)⟩

/-! ## Taking and linking clusters -/

theorem takeClusters_ok : ∀ {count next : Nat} {r : List Nat × Nat}, takeClusters count next = .ok r →
    r = (List.range' next count, next + count) ∧ (count ≠ 0 → next + count ≤ totalClusters + 2)
  | 0, next, r, h => by
    cases h
    exact ⟨rfl, fun h => absurd rfl h⟩
  | count + 1, next, r, h => by
    rw [takeClusters] at h
    split at h
    · cases h
    · rename_i hroom
      cases ht : takeClusters count (next + 1) with
      | error e =>
        rw [ht] at h
        cases h
      | ok t =>
        rw [ht] at h
        cases h
        obtain ⟨rfl, hle⟩ := takeClusters_ok ht
        refine ⟨by rw [List.range'_succ, Nat.add_assoc, Nat.add_comm 1], fun _ => ?_⟩
        by_cases h0 : count = 0
        · subst h0
          omega
        · have := hle h0
          omega

/-- Clusters in a row become one chain. -/
theorem linkClusters_cell : ∀ {n a : Nat} (fat : Buf), a + n < 4095 →
    (∀ k, k < a ∨ a + n < k → cell (linkClusters (List.range' a (n + 1)) fat) k = cell fat k) ∧
    ∀ k, a ≤ k → k ≤ a + n → cell (linkClusters (List.range' a (n + 1)) fat) k = if k = a + n then eoc else k + 1
  | 0, a, fat, _ => by
    have hset := cellSet_setFatBytes fat a eoc
    rw [← setFatEntry_eq] at hset
    constructor
    · intro k hk
      exact hset.cell_ne (by omega)
    · intro k h1 h2
      obtain rfl : k = a := by omega
      exact hset.self.trans (if_pos rfl).symm
  | n + 1, a, fat, hlt => by
    have hset := cellSet_setFatBytes fat a (a + 1)
    rw [← setFatEntry_eq, Nat.mod_eq_of_lt (by omega)] at hset
    have hstep : linkClusters (List.range' a (n + 1 + 1)) fat =
      linkClusters (List.range' (a + 1) (n + 1)) (setFatEntry fat a (a + 1)) := rfl
    obtain ⟨hother, hself⟩ := linkClusters_cell (n := n) (a := a + 1) (setFatEntry fat a (a + 1)) (by omega)
    rw [hstep]
    constructor
    · intro k hk
      rw [hother k (by omega)]
      exact hset.cell_ne (by omega)
    · intro k h1 h2
      by_cases hk : k = a
      · subst hk
        rw [hother k (by omega), hset.self, if_neg (by omega)]
      · rw [hself k (by omega) (by omega), show a + 1 + n = a + (n + 1) by omega]

/-! ## Storing a file -/

/-- The clusters `size` bytes take. -/
def need (size : Nat) : Nat := (size + clusterSize - 1) / clusterSize

/-- Where the bytes of a cluster are in the image. -/
def offset (cluster : Nat) : Nat := dataStartSector * bytesPerSector + clusterSize * (cluster - 2)

theorem clusterToOffset_eq {cluster : Nat} (h : 2 ≤ cluster) : clusterToOffset cluster = offset cluster := by
  unfold clusterToOffset offset sectorsPerCluster dataStartSector bytesPerSector clusterSize
  unfold reservedSectors numFats sectorsPerFat rootDirSectors bytesPerSector sectorsPerCluster
  omega

theorem offset_eq (cluster : Nat) : offset cluster = 81920 + 4096 * (cluster - 2) := rfl

/-- A cluster is written to its own place. -/
theorem writeCluster_out {image data : Buf} {cluster len o : Nat} (h : 2 ≤ cluster)
    (ho : o < offset cluster ∨ offset cluster + clusterSize ≤ o) :
    writeCluster image cluster data len o = image o := by
  unfold writeCluster
  rw [clusterToOffset_eq h, Int.toNat_natCast]
  exact Buf.blit_out ho

theorem writeCluster_in {image data : Buf} {cluster len i : Nat} (h : 2 ≤ cluster) (hi : i < clusterSize) :
    writeCluster image cluster data len (offset cluster + i) = if i < len then data i else 0 := by
  unfold writeCluster
  rw [clusterToOffset_eq h, Int.toNat_natCast]
  exact Buf.blit_in hi

/-- The loop over the clusters of a file, from chunk `i` on. -/
theorem writeChunks_spec (data : List UInt8) : ∀ {n a i : Nat} (image : Buf), 2 ≤ a →
    (∀ o, o < offset a ∨ offset (a + n) ≤ o → writeChunks data (List.range' a n) i image o = image o) ∧
    ∀ t < n, ∀ k < clusterSize, (i + t) * clusterSize + k < data.length →
      writeChunks data (List.range' a n) i image (offset (a + t) + k) = data.getD ((i + t) * clusterSize + k) 0
  | 0, a, i, image, _ => ⟨fun _ _ => rfl, fun t ht => absurd ht (Nat.not_lt_zero t)⟩
  | n + 1, a, i, image, ha => by
    set chunk := (data.drop (i * clusterSize)).take clusterSize with hchunk
    have hstep : writeChunks data (List.range' a (n + 1)) i image =
        writeChunks data (List.range' (a + 1) n) (i + 1)
        (writeCluster image a (fun k => chunk.getD k 0) chunk.length) := rfl
    obtain ⟨hother, hself⟩ := writeChunks_spec data (n := n) (a := a + 1) (i := i + 1)
      (writeCluster image a (fun k => chunk.getD k 0) chunk.length) (by omega)
    rw [hstep]
    have hnext : offset (a + 1) = offset a + clusterSize := by
      rw [offset_eq, offset_eq, clusterSize_eq]
      omega
    have hend : offset a + clusterSize ≤ offset (a + (n + 1)) := by
      rw [offset_eq, offset_eq, clusterSize_eq]
      omega
    constructor
    · intro o ho
      rw [hother o (by rw [show a + 1 + n = a + (n + 1) by omega]; omega)]
      exact writeCluster_out ha (by omega)
    · intro t ht k hk hlen
      cases t with
      | zero =>
        simp only [Nat.add_zero] at hlen ⊢
        have hget : chunk[k]? = data[i * clusterSize + k]? := by
          rw [hchunk, List.getElem?_take_of_lt hk, List.getElem?_drop]
        have hlt : k < chunk.length := by
          rw [hchunk, List.length_take, List.length_drop]
          omega
        rw [hother _ (by omega), writeCluster_in ha hk, if_pos hlt, List.getD_eq_getElem?_getD, hget,
          List.getD_eq_getElem?_getD]
      | succ t =>
        rw [show i + (t + 1) = i + 1 + t by omega] at hlen ⊢
        rw [show a + (t + 1) = a + 1 + t by omega]
        exact hself t (by omega) k hk hlen

/-- What storing a file does: its clusters are the next ones, linked in a row and filled with its bytes. -/
structure Stored (b b' : Build) (data : List UInt8) (first : Nat) : Prop where
  first : first = if data = [] then 0 else b.nextCluster
  rootDir : b'.rootDir = b.rootDir
  rootIndex : b'.rootIndex = b.rootIndex
  next : b'.nextCluster = b.nextCluster + need data.length
  next_le : b.nextCluster ≤ totalClusters + 2 → b'.nextCluster ≤ totalClusters + 2
  fatOut : ∀ k, k < b.nextCluster ∨ b'.nextCluster ≤ k → cell b'.fat k = cell b.fat k
  imageOut : ∀ o, o < offset b.nextCluster → b'.image o = b.image o
  links : ∀ k, b.nextCluster ≤ k → k < b'.nextCluster → cell b'.fat k = if k + 1 = b'.nextCluster
    then eoc else k + 1
  bytes : ∀ k, b.nextCluster ≤ k → k < b'.nextCluster → ∀ i < clusterSize,
    (k - b.nextCluster) * clusterSize + i < data.length →
    b'.image (offset k + i) = data.getD ((k - b.nextCluster) * clusterSize + i) 0

theorem writeFile_stored {b b' : Build} {data : List UInt8} {first : Nat} (h : writeFile b data = .ok (first, b'))
    (h2 : 2 ≤ b.nextCluster) : Stored b b' data first := by
  unfold writeFile at h
  split at h
  · rename_i hdata
    cases h
    have hneed : need data.length = 0 := by
      rw [hdata]
      rfl
    refine ⟨(if_pos hdata).symm, rfl, rfl, by rw [hneed]; rfl, id, fun _ _ => rfl, fun _ _ => rfl, ?_, ?_⟩
    · intro k h1 h2
      omega
    · intro k h1 h2
      omega
  · rename_i hdata
    have hpos : 0 < data.length := List.length_pos_iff.2 hdata
    obtain ⟨n, hn⟩ : ∃ n, need data.length = n + 1 := by
      refine ⟨need data.length - 1, ?_⟩
      have : 0 < need data.length := Nat.div_pos (by omega) (by decide)
      omega
    have hneed : (data.length + clusterSize - 1) / clusterSize = n + 1 := hn
    unfold allocate at h
    dsimp only at h
    rw [hneed] at h
    cases ht : takeClusters (n + 1) b.nextCluster with
    | error e =>
      rw [ht] at h
      cases h
    | ok t =>
      rw [ht] at h
      obtain ⟨rfl, hle⟩ := takeClusters_ok ht
      have hle := hle (by omega)
      rw [totalClusters_eq] at hle
      cases h
      obtain ⟨hfat, hlinks⟩ := linkClusters_cell (n := n) (a := b.nextCluster) b.fat (by omega)
      obtain ⟨himage, hbytes⟩ := writeChunks_spec data (n := n + 1) (a := b.nextCluster) (i := 0) b.image h2
      refine ⟨(if_neg hdata).symm, rfl, rfl, by rw [hn], fun _ => by
        rw [totalClusters_eq]; exact hle, ?_, ?_, ?_, ?_⟩
      · intro k hk
        exact hfat k (by dsimp only at hk; omega)
      · intro o ho
        exact himage o (.inl ho)
      · intro k h1 h2
        dsimp only at h2 ⊢
        rw [hlinks k h1 (by omega)]
        congr 1
        exact propext (by omega)
      · intro k h1 h2 i hi hlen
        dsimp only at h2 ⊢
        have hk := hbytes (k - b.nextCluster) (by omega) i hi (by rwa [Nat.zero_add])
        rwa [Nat.zero_add, show b.nextCluster + (k - b.nextCluster) = k by omega] at hk

/-! ## All the files -/

abbrev Files := List (List UInt8 × List UInt8)

/-- The first of the clusters behind the first `j` files. -/
def startOf (files : Files) (j : Nat) : Nat := 2 + ((files.take j).map fun f => need f.2.length).sum

theorem startOf_zero (files : Files) : startOf files 0 = 2 := rfl

theorem startOf_succ {files : Files} {j : Nat} {f : List UInt8 × List UInt8} (h : files[j]? = some f) :
    startOf files (j + 1) = startOf files j + need f.2.length := by
  unfold startOf
  rw [List.take_add_one, h]
  simp [Nat.add_assoc]

theorem startOf_append {files more : Files} {j : Nat} (h : j ≤ files.length) :
    startOf (files ++ more) j = startOf files j := by
  unfold startOf
  rw [List.take_append_of_le_length h]

theorem startOf_mono (files : Files) {i j : Nat} (h : i ≤ j) : startOf files i ≤ startOf files j := by
  unfold startOf
  have hsub : (files.take i).Sublist (files.take j) := List.take_sublist_take_left h
  have := (hsub.map fun f => need f.2.length).sum_le_sum fun _ _ => Nat.zero_le _
  omega

/-- The file in slot `j` of the root directory, with its clusters from `start` on. -/
structure FileAt (b : Build) (j start : Nat) (f : List UInt8 × List UInt8) : Prop where
  entry : ∀ k < 32,
    b.rootDir (32 * j + k) = buildDirEntry (toShortName f.1) 0x20 (if f.2 = [] then 0 else start) f.2.length k
  links : ∀ k, start ≤ k → k < start + need f.2.length → cell b.fat k = if k + 1 = start + need f.2.length
    then eoc else k + 1
  bytes : ∀ k, start ≤ k → k < start + need f.2.length → ∀ i < clusterSize,
    (k - start) * clusterSize + i < f.2.length → b.image (offset k + i) = f.2.getD ((k - start) * clusterSize + i) 0

/-- What has been built when these files are laid out. -/
structure Built (done : Files) (b : Build) : Prop where
  count : b.rootIndex = done.length
  count_le : done.length ≤ rootEntries
  next : b.nextCluster = startOf done done.length
  next_le : b.nextCluster ≤ totalClusters + 2
  free : ∀ k, b.nextCluster ≤ k → cell b.fat k = 0
  blank : ∀ i, 32 * done.length ≤ i → b.rootDir i = 0
  file : ∀ j f, done[j]? = some f → FileAt b j (startOf done j) f

theorem built_start (image : Buf) : Built [] (start image) where
  count := rfl
  count_le := by decide
  next := rfl
  next_le := (by decide : 2 ≤ totalClusters + 2)
  free := by
    intro k hk
    have hbyte : ∀ i, 3 ≤ i → (start image).fat i = 0 := by
      intro i hi
      unfold start put Buf.blit
      exact if_neg (by simp; omega)
    have hk2 : 2 ≤ k := hk
    have hnib : ∀ j, 6 ≤ j → nib (start image).fat j = 0 := by
      intro j hj
      unfold nib
      rw [hbyte (j / 2) (by omega)]
      split <;> rfl
    unfold cell
    rw [hnib _ (by omega), hnib _ (by omega), hnib _ (by omega)]
  blank := fun _ _ => rfl
  file := fun _ _ h => nomatch h

/-- One file more. -/
theorem addFile_built {done : Files} {b b' : Build} {f : List UInt8 × List UInt8} (hb : Built done b)
    (h : addFile b f.1 f.2 = .ok b') : Built (done ++ [f]) b' ∧ ∀ o < offset 2, b'.image o = b.image o := by
  have h2 : 2 ≤ b.nextCluster := by
    rw [hb.next]
    exact Nat.le_add_right 2 _
  unfold addFile at h
  cases hw : writeFile b f.2 with
  | error e =>
    rw [hw] at h
    cases h
  | ok r =>
    obtain ⟨first, b₁⟩ := r
    rw [hw] at h
    obtain ⟨hfirst, hroot, hindex, hnext, hnextle, hfat, himage, hlinks, hbytes⟩ := writeFile_stored hw h2
    replace h : addRootEntry b₁ f.1 0x20 first f.2.length = .ok b' := h
    unfold addRootEntry at h
    split at h
    · cases h
    rename_i hroom
    cases h
    rw [hindex, hb.count] at hroom
    have hlast : (done ++ [f])[done.length]? = some f := by simp
    refine ⟨⟨?_, ?_, ?_, hnextle hb.next_le, ?_, ?_, ?_⟩, ?_⟩
    · rw [List.length_append, ← hb.count, ← hindex]
      rfl
    · rw [List.length_append]
      exact Nat.lt_of_not_le hroom
    · show b₁.nextCluster = _
      rw [List.length_append, List.length_singleton, startOf_succ hlast, startOf_append (le_refl _), hnext, hb.next]
    · intro k hk
      rw [hfat k (.inr hk)]
      exact hb.free k (by dsimp only at hk; omega)
    · intro i hi
      rw [List.length_append, List.length_singleton] at hi
      dsimp only
      rw [Buf.blit_out (by rw [hindex, hb.count]; omega), hroot]
      exact hb.blank i (by omega)
    · intro j g hj
      rcases Nat.lt_or_ge j done.length with hlt | hge
      · -- a file laid out before: its slot, links and clusters are as they were
        rw [List.getElem?_append_left hlt] at hj
        obtain ⟨he, hl, hd⟩ := hb.file j g hj
        have hend : startOf done j + need g.2.length ≤ b.nextCluster := by
          rw [← startOf_succ hj, hb.next]
          exact startOf_mono done hlt
        have hstart : 2 ≤ startOf done j := Nat.le_add_right 2 _
        rw [startOf_append (by omega)]
        refine ⟨?_, ?_, ?_⟩
        · intro k hk
          dsimp only
          rw [Buf.blit_out (by rw [hindex, hb.count]; omega), hroot]
          exact he k hk
        · intro k h1 h2
          rw [hfat k (.inl (by omega))]
          exact hl k h1 h2
        · intro k h1 h2 i hi hlen
          have hlow : offset k + i < offset b.nextCluster := by
            rw [offset_eq, offset_eq]
            rw [clusterSize_eq] at hi
            omega
          exact (himage _ hlow).trans (hd k h1 h2 i hi hlen)
      · -- the new file
        obtain rfl : j = done.length := by
          have hlt := (List.getElem?_eq_some_iff.1 hj).1
          rw [List.length_append, List.length_singleton] at hlt
          omega
        rw [hlast] at hj
        cases hj
        rw [startOf_append (le_refl _), ← hb.next]
        rw [hnext] at hlinks hbytes
        refine ⟨?_, hlinks, hbytes⟩
        intro k hk
        dsimp only
        rw [hindex, hb.count, Nat.mul_comm done.length, Buf.blit_in hk, hfirst]
    · intro o ho
      refine himage o ?_
      rw [offset_eq] at ho ⊢
      omega

/-- All of them. -/
theorem addFiles_built : ∀ {files done : Files} {b b' : Build}, Built done b → addFiles files b = .ok b' →
    Built (done ++ files) b' ∧ ∀ o < offset 2, b'.image o = b.image o
  | [], done, b, b', hb, h => by
    cases h
    rw [List.append_nil]
    exact ⟨hb, fun _ _ => rfl⟩
  | f :: files, done, b, b', hb, h => by
    rw [addFiles] at h
    cases ha : addFile b f.1 f.2 with
    | error e =>
      rw [ha] at h
      cases h
    | ok b₁ =>
      rw [ha] at h
      obtain ⟨h1, h2⟩ := addFile_built hb ha
      obtain ⟨h3, h4⟩ := addFiles_built h1 h
      rw [List.append_assoc] at h3
      exact ⟨h3, fun o ho => (h4 o ho).trans (h2 o ho)⟩

/-! ## Where the parts come to lie -/

theorem finish_low {b : Build} {o : Nat} (ho : o < 65536) : finish b o = b.image o := by
  unfold finish reservedSectors bytesPerSector numFats sectorsPerFat rootDirSectors
  rw [Buf.blit_out (by omega), Buf.blit_out (by omega), Buf.blit_out (by omega)]

theorem finish_fat {b : Build} {i : Nat} (hi : i < 4096) : finish b (65536 + i) = b.fat i := by
  unfold finish reservedSectors bytesPerSector numFats sectorsPerFat rootDirSectors
  rw [Buf.blit_out (by omega), Buf.blit_out (by omega)]
  exact Buf.blit_in hi

theorem finish_root {b : Build} {i : Nat} (hi : i < 8192) : finish b (73728 + i) = b.rootDir i := Buf.blit_in hi

theorem finish_data {b : Build} {o : Nat} (ho : 81920 ≤ o) : finish b o = b.image o := by
  unfold finish reservedSectors bytesPerSector numFats sectorsPerFat rootDirSectors
  rw [Buf.blit_out (by omega), Buf.blit_out (by omega), Buf.blit_out (by omega)]

/-! ## The reserved area -/

/-- A step of a computation that succeeds. -/
theorem ok_of_bind {ε α β : Type} {x : Except ε α} {f : α → Except ε β} {r : β} (h : x >>= f = .ok r) :
    ∃ a, x = .ok a ∧ f a = .ok r := by
  cases x with
  | error e => cases h
  | ok a => exact ⟨a, rfl, h⟩

theorem addRootEntry_image {b b' : Build} {name : List UInt8} {attr : UInt8} {first size : Nat}
    (h : addRootEntry b name attr first size = .ok b') : b'.nextCluster = b.nextCluster ∧ b'.image = b.image := by
  unfold addRootEntry at h
  split at h
  · cases h
  · cases h
    exact ⟨rfl, rfl⟩

theorem addFile_low {b b' : Build} {name data : List UInt8} (h : addFile b name data = .ok b')
    (h2 : 2 ≤ b.nextCluster) : 2 ≤ b'.nextCluster ∧ ∀ o < 81920, b'.image o = b.image o := by
  obtain ⟨⟨first, b₁⟩, hw, hr⟩ := ok_of_bind h
  obtain ⟨hnext, himage⟩ := addRootEntry_image hr
  have hst := writeFile_stored hw h2
  constructor
  · rw [hnext, hst.next]
    omega
  · intro o ho
    rw [himage, hst.imageOut o (by rw [offset_eq]; omega)]

/-- The seeds go to clusters. -/
theorem seed_low {b b' : Build} (h : seed b = .ok b') (h2 : 2 ≤ b.nextCluster) :
    ∀ o < 81920, b'.image o = b.image o := by
  obtain ⟨b₁, h₁, h⟩ := ok_of_bind h
  obtain ⟨hn₁, hi₁⟩ := addFile_low h₁ h2
  obtain ⟨b₂, h₂, h⟩ := ok_of_bind h
  obtain ⟨hn₂, hi₂⟩ := addFile_low h₂ hn₁
  obtain ⟨⟨clusters, b₃⟩, h₃, h⟩ := ok_of_bind h
  obtain ⟨t, ht, h₃⟩ := ok_of_bind h₃
  obtain ⟨rfl, -⟩ := takeClusters_ok ht
  cases h₃
  obtain ⟨⟨info, b₄⟩, h₄, h⟩ := ok_of_bind h
  have hst := writeFile_stored h₄ (show 2 ≤ b₂.nextCluster + 1 by omega)
  obtain ⟨-, himage⟩ := addRootEntry_image h
  intro o ho
  rw [himage]
  show writeCluster b₄.image b₂.nextCluster _ clusterSize o = _
  rw [writeCluster_out hn₂ (.inl (by rw [offset_eq]; omega)), hst.imageOut o (by rw [offset_eq]; omega)]
  exact (hi₂ o ho).trans (hi₁ o ho)

/-- The area before the FATs. -/
theorem buildImage_reserved {bootSector kernel stage2 : List UInt8} {image : Buf}
    (h : buildImage bootSector kernel (some stage2) = .ok image) :
    bootSector.length = 512 ∧ stage2.length ≤ 512 ∧ kernel.length ≤ 126 * 512 ∧
    ∀ o < 65536, image o = put (put (put (fun _ => 0) 0 bootSector) 512 stage2) 1024 kernel o := by
  obtain ⟨image₀, h₀, h⟩ := ok_of_bind h
  obtain ⟨b, hseed, h⟩ := ok_of_bind h
  cases h
  unfold reservedArea at h₀
  split at h₀
  · cases h₀
  rename_i hboot
  dsimp only at h₀
  split at h₀
  · cases h₀
  rename_i hstage2
  split at h₀
  · cases h₀
  rename_i hkernel
  cases h₀
  unfold bytesPerSector at *
  unfold reservedSectors at *
  refine ⟨by omega, by omega, by omega, ?_⟩
  intro o ho
  rw [finish_low ho, seed_low hseed (le_refl 2) o (by omega)]
  rfl

theorem seed_ok (image : Buf) : ∃ b, seed (start image) = .ok b := ⟨_, rfl⟩

/-- What the builder accepts. -/
theorem buildImage_ok (bootSector kernel stage2 : List UInt8) (hboot : bootSector.length = 512)
    (hstage2 : stage2.length ≤ 512) (hkernel : kernel.length ≤ 126 * 512) :
    ∃ image, buildImage bootSector kernel (some stage2) = .ok image := by
  have hreserved : ∃ image, reservedArea bootSector kernel (some stage2) = .ok image := by
    unfold reservedArea bytesPerSector reservedSectors
    dsimp only
    rw [if_neg (by omega), if_neg (by omega), if_neg (by omega)]
    exact ⟨_, rfl⟩
  obtain ⟨image, himage⟩ := hreserved
  obtain ⟨b, hb⟩ := seed_ok image
  refine ⟨finish b, ?_⟩
  unfold buildImage
  rw [himage]
  show (seed (start image) >>= fun b => Except.ok (finish b)) = .ok (finish b)
  rw [hb]
  rfl

end AltoniumOS.Image

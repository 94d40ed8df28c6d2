/-
An image of the builder, mounted by the driver. The volume is flat: files in the slots of the root
directory, each with the clusters behind those of the file before. It is well formed, and every file on
it reads back.
-/
import AltoniumOS.Image.Layout
import AltoniumOS.System.Effects

namespace AltoniumOS.Image

open AltoniumOS.Lib
open AltoniumOS.Fat12 (ShortName makeShortName fillDirEntry attrArchive attrVolumeId RawDirEntry Volume Loc Core Fs
  State Mounted slotAt inChain clusterEoc clusterFree nameEnd nameDeleted decodeEntry sectorBytes lbaAdd slash
    backslash dot)

/-! ## Flat volumes -/

/-- The volume `V` shows these files, and nothing else. -/
structure Shows (V : Volume) (files : Files) : Prop where
  geom : V.Geom
  size : V.clusterSize = clusterSize
  accepted : ∀ f ∈ files, ∃ n, makeShortName f.1 = .ok n
  distinct : files.Pairwise fun f g => makeShortName f.1 ≠ makeShortName g.1
  count : files.length ≤ V.rootEntryCount
  entry : ∀ j f n, files[j]? = some f → makeShortName f.1 = .ok n →
    V.root j = fillDirEntry n attrArchive (if f.2 = [] then 0 else startOf files j) f.2.length
  blank : ∀ i, files.length ≤ i → i < V.rootEntryCount → (V.root i).name.first = nameEnd
  range : ∀ k, 2 ≤ k → k < startOf files files.length → V.InRange k
  links : ∀ j f, files[j]? = some f → ∀ k, startOf files j ≤ k → k < startOf files (j + 1) →
    V.fat k = if k + 1 = startOf files (j + 1) then eoc else k + 1
  free : ∀ k, V.InRange k → startOf files files.length ≤ k → V.fat k = clusterFree
  bytes : ∀ j f, files[j]? = some f → ∀ k, startOf files j ≤ k → k < startOf files (j + 1) → ∀ i < clusterSize,
    (k - startOf files j) * clusterSize + i < f.2.length →
    V.data k i = f.2.getD ((k - startOf files j) * clusterSize + i) 0

section

variable {V : Volume} {files : Files} {f : List UInt8 × List UInt8} {j : Nat}

/-- The clusters of the file in slot `j`. -/
def clustersOf (files : Files) (j : Nat) (f : List UInt8 × List UInt8) : List Nat :=
  List.range' (startOf files j) (need f.2.length)

theorem mem_clustersOf (hj : files[j]? = some f) {k : Nat} :
    k ∈ clustersOf files j f ↔ startOf files j ≤ k ∧ k < startOf files (j + 1) := by
  unfold clustersOf
  rw [startOf_succ hj, List.mem_range'_1]

theorem need_pos {data : List UInt8} (h : data ≠ []) : 0 < need data.length := by
  have := List.length_pos_iff.2 h
  exact Nat.div_pos (by omega) (by decide)

theorem Shows.slot (h : Shows V files) (hj : files[j]? = some f) : ∃ n, makeShortName f.1 = .ok n ∧
    V.slot (0, j) = fillDirEntry n attrArchive (if f.2 = [] then 0 else startOf files j) f.2.length := by
  obtain ⟨n, hn⟩ := h.accepted f (List.mem_of_getElem? hj)
  refine ⟨n, hn, ?_⟩
  show (if (0 : Nat) = 0 then V.root j else _) = _
  rw [if_pos rfl, h.entry j f n hj hn]

theorem Shows.startOf_le (h : Shows V files) {i : Nat} (hi : i ≤ files.length) :
    startOf files i ≤ V.totalClusters + 2 := by
  by_contra hlt
  have hmono := startOf_mono files hi
  have := (h.range (V.totalClusters + 2) (by omega) (by omega)).2.1
  omega

/-- The first cluster in the entry. -/
theorem Shows.cluster (h : Shows V files) (hj : files[j]? = some f) :
    (V.slot (0, j)).cluster = if f.2 = [] then 0 else startOf files j := by
  obtain ⟨n, -, he⟩ := h.slot hj
  have hle := h.startOf_le (i := j) (by have := (List.getElem?_eq_some_iff.1 hj).1; omega)
  have := h.geom.clusters_le
  rw [he]
  refine Fat12.fillDirEntry_cluster ?_
  split <;> omega

theorem Shows.chain (h : Shows V files) (hj : files[j]? = some f) (hf : f.2 ≠ []) :
    V.Chain (startOf files j) (clustersOf files j f) := by
  have hpos := need_pos hf
  have hsucc := startOf_succ hj
  obtain ⟨n, hn⟩ : ∃ n, need f.2.length = n + 1 := ⟨need f.2.length - 1, by omega⟩
  have hlt := (List.getElem?_eq_some_iff.1 hj).1
  refine ⟨?_, List.nodup_range', ?_, eoc, ?_, by decide⟩
  · unfold clustersOf
    rw [hn]
    simp
  · intro k hk
    obtain ⟨h1, h2⟩ := (mem_clustersOf hj).1 hk
    have h3 : 2 ≤ startOf files j := Nat.le_add_right 2 _
    have h4 := startOf_mono files (show j + 1 ≤ files.length by omega)
    exact h.range k (by omega) (by omega)
  · unfold clustersOf
    rw [hn, List.range'_1_concat, linked_snoc]
    constructor
    · refine linked_range' fun k h1 h2 => ?_
      rw [h.links j f hj k h1 (by omega), if_neg (by omega)]
    · rw [h.links j f hj _ (by omega) (by omega), if_pos (by omega)]

/-! ## Their entries -/

theorem Shows.entryAt_iff (h : Shows V files) {p : Loc} :
    V.EntryAt 0 p ↔ ∃ j f, files[j]? = some f ∧ p = (0, j) := by
  constructor
  · rintro ⟨hmem, -, hlive⟩
    obtain ⟨o, i⟩ := p
    obtain ⟨h1, h2⟩ := Volume.mem_locs_root.1 hmem
    obtain rfl : o = 0 := h1
    rcases Nat.lt_or_ge i files.length with hlt | hge
    · exact ⟨i, files[i], List.getElem?_eq_getElem hlt, rfl⟩
    · have hend : (V.slot (0, i)).name.first = nameEnd := by
        show (if (0 : Nat) = 0 then V.root i else _).name.first = _
        rw [if_pos rfl, h.blank i hge h2]
      exact absurd hlive (Volume.not_live_of_end hend)
  · rintro ⟨j, f, hj, rfl⟩
    have hlt := (List.getElem?_eq_some_iff.1 hj).1
    have hcount := h.count
    obtain ⟨n, hn, he⟩ := h.slot hj
    refine ⟨Volume.mem_locs_root.2 ⟨rfl, by dsimp only; omega⟩, fun hdot => hdot.1 rfl, ?_⟩
    rw [he]
    exact Fat12.fillDirEntry_live (Fat12.makeShortName_proper hn)

theorem Shows.isFile (h : Shows V files) (hj : files[j]? = some f) : (V.slot (0, j)).isDirectory = false := by
  obtain ⟨n, -, he⟩ := h.slot hj
  rw [he]
  exact (by decide : (attrArchive &&& Fat12.attrDirectory != 0) = false)

/-- There are no subdirectories. -/
theorem Shows.isDir (h : Shows V files) {d q : Nat} (hd : V.IsDir d q) : d = 0 ∧ q = 0 := by
  induction hd with
  | root => exact ⟨rfl, rfl⟩
  | sub _ he hi ih =>
    rw [ih.1] at he
    obtain ⟨j, f, hj, rfl⟩ := h.entryAt_iff.1 he
    rw [h.isFile hj] at hi
    cases hi

theorem Shows.entry_iff (h : Shows V files) {p : Loc} : V.Entry p ↔ ∃ j f, files[j]? = some f ∧ p = (0, j) := by
  constructor
  · rintro ⟨d, q, hd, he⟩
    rw [(h.isDir hd).1] at he
    exact h.entryAt_iff.1 he
  · intro hp
    exact ⟨0, 0, .root, h.entryAt_iff.2 hp⟩

theorem Shows.owned (h : Shows V files) (hj : files[j]? = some f) : V.owned (0, j) = clustersOf files j f := by
  unfold Volume.owned
  rw [h.cluster hj]
  split
  · rename_i hf
    rw [Volume.chain_zero, clustersOf, hf]
    rfl
  · rename_i hf
    exact (h.chain hj hf).eq h.geom

theorem length_le_need (n : Nat) : n ≤ clusterSize * need n := by
  unfold need
  rw [clusterSize_eq]
  omega

/-- The size in the entry. -/
theorem Shows.fileSize (h : Shows V files) (hj : files[j]? = some f) : (V.slot (0, j)).size = f.2.length := by
  obtain ⟨n, -, he⟩ := h.slot hj
  have hle := h.startOf_le (i := j + 1) (by have := (List.getElem?_eq_some_iff.1 hj).1; omega)
  have hclusters := h.geom.clusters_le
  have hneed := length_le_need f.2.length
  rw [startOf_succ hj] at hle
  rw [clusterSize_eq] at hneed
  rw [he]
  exact Fat12.fillDirEntry_size (by omega)

/-- Every cluster below the end belongs to a file. -/
theorem exists_file {k : Nat} (h2 : 2 ≤ k) : ∀ {n : Nat}, n ≤ files.length → k < startOf files n →
    ∃ j f, files[j]? = some f ∧ startOf files j ≤ k ∧ k < startOf files (j + 1)
  | 0, _, hk => by
    rw [startOf_zero] at hk
    omega
  | n + 1, hn, hk => by
    rcases Nat.lt_or_ge k (startOf files n) with hlt | hge
    · exact exists_file h2 (by omega) hlt
    · exact ⟨n, files[n], List.getElem?_eq_getElem (by omega), hge, hk⟩

/-! ## Well-formed -/

theorem Shows.dirOk (h : Shows V files) : V.DirOk 0 0 := by
  have hlive : ∀ {p}, p ∈ V.locs 0 → (V.slot p).Live → ∃ j f, files[j]? = some f ∧ p = (0, j) :=
    fun hp hl => h.entryAt_iff.1 ⟨hp, fun hdot => hdot.1 rfl, hl⟩
  have hlocs : V.locs 0 = (List.range V.rootEntryCount).map (0, ·) := if_pos rfl
  refine ⟨?_, fun h0 => absurd rfl h0, ?_, ?_⟩
  · intro p hp hl
    obtain ⟨j, f, hj, rfl⟩ := hlive hp hl
    obtain ⟨n, -, he⟩ := h.slot hj
    rw [he]
    exact (by decide : attrArchive &&& attrVolumeId = 0)
  · rw [hlocs, List.pairwise_map]
    refine List.pairwise_lt_range.imp_of_mem fun {a b} ha hb hab hla hlb hname => ?_
    obtain ⟨j, f, hj, hja⟩ := hlive (Volume.mem_locs_root.2 ⟨rfl, List.mem_range.1 ha⟩) hla
    obtain ⟨i, g, hi, hib⟩ := hlive (Volume.mem_locs_root.2 ⟨rfl, List.mem_range.1 hb⟩) hlb
    cases hja
    cases hib
    obtain ⟨n, hn, he⟩ := h.slot hj
    obtain ⟨m, hm, he'⟩ := h.slot hi
    rw [he, he'] at hname
    obtain ⟨h1, rfl⟩ := List.getElem?_eq_some_iff.1 hj
    obtain ⟨h2, rfl⟩ := List.getElem?_eq_some_iff.1 hi
    refine List.pairwise_iff_getElem.1 h.distinct a b h1 h2 hab ?_
    rw [hn, hm]
    exact congrArg _ hname
  · rw [hlocs, List.pairwise_map]
    refine List.pairwise_lt_range.imp_of_mem fun {a b} ha hb hab hend => ?_
    have hge : files.length ≤ a := by
      by_contra hlt
      obtain ⟨-, -, hl⟩ := h.entryAt_iff.2 ⟨a, files[a], List.getElem?_eq_getElem (by omega), rfl⟩
      exact Volume.not_live_of_end hend hl
    show (if (0 : Nat) = 0 then V.root b else _).name.first = _
    rw [if_pos rfl]
    exact h.blank b (by omega) (List.mem_range.1 hb)

theorem Shows.wf (h : Shows V files) : V.WF ∅ where
  geom := h.geom
  dirOk := by
    intro d q hd
    obtain ⟨rfl, rfl⟩ := h.isDir hd
    exact h.dirOk
  file := by
    intro p hp _
    obtain ⟨j, f, hj, rfl⟩ := h.entry_iff.1 hp
    have hcluster := h.cluster hj
    by_cases hf : f.2 = []
    · left
      rw [hcluster, h.fileSize hj, hf]
      exact ⟨rfl, rfl⟩
    · right
      refine ⟨clustersOf files j f, ?_, ?_⟩
      · rw [hcluster, if_neg hf]
        exact h.chain hj hf
      · rw [h.fileSize hj, clustersOf, List.length_range', Volume.clustersFor, h.size]
        rfl
  dir := by
    intro p hp hi
    obtain ⟨j, f, hj, rfl⟩ := h.entry_iff.1 hp
    rw [h.isFile hj] at hi
    cases hi
  disjoint := by
    intro p q hp hq hne k hk hk'
    obtain ⟨j, f, hj, rfl⟩ := h.entry_iff.1 hp
    obtain ⟨i, g, hi, rfl⟩ := h.entry_iff.1 hq
    rw [h.owned hj, mem_clustersOf hj] at hk
    rw [h.owned hi, mem_clustersOf hi] at hk'
    have hij : j ≠ i := fun hji => hne (by rw [hji])
    rcases Nat.lt_or_gt_of_ne hij with hlt | hgt
    · have := startOf_mono files (show j + 1 ≤ i from hlt)
      omega
    · have := startOf_mono files (show i + 1 ≤ j from hgt)
      omega
  pending := fun k hk => hk.elim
  noLost := by
    intro k hk hne _
    left
    have hlt : k < startOf files files.length := by
      by_contra hge
      exact hne (h.free k hk (by omega))
    obtain ⟨j, f, hj, h1, h2⟩ := exists_file hk.1 (le_refl _) hlt
    refine ⟨(0, j), h.entry_iff.2 ⟨j, f, hj, rfl⟩, ?_⟩
    rw [h.owned hj, mem_clustersOf hj]
    exact ⟨h1, h2⟩

/-! ## Reading -/

/-- The bytes of a file. -/
theorem Shows.content (h : Shows V files) (hj : files[j]? = some f) {i : Nat} (hi : i < f.2.length) :
    V.content (V.slot (0, j)).cluster i = f.2.getD i 0 := by
  have hf : f.2 ≠ [] := by
    rintro hnil
    rw [hnil] at hi
    cases hi
  have hneed : i / clusterSize < need f.2.length := by
    unfold need
    rw [clusterSize_eq]
    omega
  have hget : (clustersOf files j f)[i / clusterSize]? = some (startOf files j + i / clusterSize) := by
    unfold clustersOf
    rw [List.getElem?_range' hneed, Nat.one_mul]
  unfold Volume.content
  rw [h.cluster hj, if_neg hf, (h.chain hj hf).eq h.geom, h.size, hget]
  dsimp only
  have hdiv := Nat.div_add_mod i clusterSize
  have hbyte := h.bytes j f hj (startOf files j + i / clusterSize) (Nat.le_add_right ..)
    (by rw [startOf_succ hj]; exact Nat.add_lt_add_left hneed _) (i % clusterSize) (Nat.mod_lt _ (by decide))
  rw [Nat.add_sub_cancel_left, Nat.mul_comm, hdiv] at hbyte
  exact hbyte hi

theorem Shows.find (h : Shows V files) (hj : files[j]? = some f) {n : ShortName} (hn : makeShortName f.1 = .ok n) :
    V.find 0 n = some (V.slot (0, j)) := by
  obtain ⟨m, hm, he⟩ := h.slot hj
  obtain ⟨hmem, -, hlive⟩ := h.entryAt_iff.2 ⟨j, f, hj, rfl⟩
  refine (h.wf.find_iff Volume.dir_root).2 ⟨List.mem_map_of_mem hmem, hlive, ?_⟩
  rw [hn] at hm
  cases hm
  rw [he]
  rfl

/-- A name behind a separator is one component. -/
theorem components_slash {name : List UInt8} {n : ShortName} (hn : makeShortName name = .ok n) :
    Fat12.components (slash :: name) = [name] := by
  obtain ⟨base, ext, hp⟩ := Fat12.makeShortName_ok hn
  have hsep : ∀ c, Fat12.isSeparator c = true → Fat12.isValidChar (Fat12.toUpper c) = false := by
    intro c hc
    unfold Fat12.isSeparator at hc
    rcases Bool.or_eq_true_iff.1 hc with hc | hc
    · rw [eq_of_beq hc]
      rfl
    · rw [eq_of_beq hc]
      rfl
  have hchar : ∀ c ∈ base ++ ext, Fat12.isSeparator c = false := by
    intro c hc
    by_contra hs
    have hv := hp.valid c hc
    rw [hsep c (by simpa using hs)] at hv
    cases hv
  have hne : name ≠ [] ∧ name.length ≤ 31 ∧ ∀ c ∈ name, Fat12.isSeparator c = false := by
    have hb := hp.base_ne
    have hb8 := hp.base_le
    have he3 := hp.ext_le
    obtain ⟨rfl, -⟩ | rfl := hp.input
    · exact ⟨hb, by omega, fun c hc => hchar c (List.mem_append_left _ hc)⟩
    · refine ⟨by simp, by rw [List.length_append, List.length_cons]; omega, fun c hc => ?_⟩
      rcases List.mem_append.1 hc with hc | hc
      · exact hchar c (List.mem_append_left _ hc)
      · rcases List.mem_cons.1 hc with rfl | hc
        · rfl
        · exact hchar c (List.mem_append_right _ hc)
  obtain ⟨h1, h2, h3⟩ := hne
  have hlast : Fat12.components (name ++ []) = [name.take 31] :=
    Fat12.components_last h1 h3 fun _ hc => absurd hc List.not_mem_nil
  rw [List.append_nil, List.take_of_length_le h2] at hlast
  have hskip := Fat12.components_skip (slash :: name)
  have hdrop : Fat12.skipSeparators (slash :: name) = Fat12.skipSeparators name := rfl
  rw [hdrop, Fat12.components_skip, hlast] at hskip
  exact hskip.symm

theorem Shows.resolve {n : ShortName} {name : List UInt8} (hn : makeShortName name = .ok n)
    (stack : Fat12.PathStack) : V.resolve 0 stack [name] = .ok (0, n) := by
  have hdots : ¬ (name = [dot] ∨ name = [dot, dot]) := by
    rintro (rfl | rfl) <;> cases hn
  show Fat12.nameIn 0 name = _
  unfold Fat12.nameIn
  rw [if_neg hdots, hn]
  rfl

end

/-! ## The image on the disk -/

/-- The BIOS parameter block of `boot.asm`, from "Bytes per sector" on. -/
def bpb : List UInt8 :=
  [0x00, 0x02, 8, 0x80, 0x00, 2, 0x00, 0x01, 0x00, 0x50, 0xF8, 0x08, 0x00, 0x3F, 0x00, 0x10, 0x00, 0, 0, 0,
    0, 0, 0, 0, 0]

/-- The boot sector of the image carries it. -/
def CarriesBpb (image : Buf) : Prop := ∀ i < 25, image (11 + i) = bpb.getD i 0

/-- The layout of the volume it describes. -/
def bootFs (baseLba : Nat) : Fs where
  bytesPerSector := bytesPerSector
  sectorsPerCluster := sectorsPerCluster
  reservedSectors := reservedSectors
  numFats := numFats
  rootEntryCount := rootEntries
  rootDirSectors := rootDirSectors
  totalSectors := totalSectors
  sectorsPerFat := sectorsPerFat
  fatStartLba := reservedSectors
  rootDirStartLba := reservedSectors + numFats * sectorsPerFat
  dataStartLba := dataStartSector
  totalDataSectors := totalDataSectors
  totalClusters := totalClusters
  clusterSizeBytes := clusterSize
  baseLba := baseLba
  fatSizeBytes := sectorsPerFat * bytesPerSector

/-- The constants of the builder are what the driver computes from the boot sector. -/
theorem ofBoot_eq {sector : Buf} (h : CarriesBpb sector) (baseLba : Nat) :
    Fs.ofBoot sector baseLba = bootFs baseLba ∧ sector.le 11 2 = 512 := by
  have hle : ∀ off n, off + n ≤ 25 → sector.le (11 + off) n = Buf.le (fun i => bpb.getD i 0) off n := by
    intro off n hn
    refine Buf.le_congr n _ _ fun k hk => ?_
    rw [Nat.add_assoc]
    exact h (off + k) (by omega)
  have h512 : sector.le 11 2 = 512 := (hle 0 2 (by decide)).trans (by decide)
  have hspc : sector.le 13 1 = 8 := (hle 2 1 (by decide)).trans (by decide)
  have hreserved : sector.le 14 2 = 128 := (hle 3 2 (by decide)).trans (by decide)
  have hfats : sector.le 16 1 = 2 := (hle 5 1 (by decide)).trans (by decide)
  have hroot : sector.le 17 2 = 256 := (hle 6 2 (by decide)).trans (by decide)
  have htotal : sector.le 19 2 = 20480 := (hle 8 2 (by decide)).trans (by decide)
  have hspf : sector.le 22 2 = 8 := (hle 11 2 (by decide)).trans (by decide)
  refine ⟨?_, h512⟩
  unfold Fs.ofBoot Fs.ofBpb
  rw [h512, hspc, hreserved, hfats, hroot, htotal, hspf, if_pos (by decide)]
  simp [Fs.sized, Fs.laidOut, bootFs, bytesPerSector, sectorsPerCluster, reservedSectors, numFats, rootEntries,
    rootDirSectors, totalSectors, sectorsPerFat, dataStartSector, totalDataSectors, totalClusters, clusterSize,
    Fat12.dirEntrySize, Fat12.sectorSize]

/-- The sectors from `baseLba` on hold the image. -/
def Holds (sectors : Nat → Buf) (baseLba : Nat) (image : Buf) : Prop :=
  ∀ i < totalSectors * bytesPerSector, sectorBytes sectors baseLba i = image i

theorem sectorBytes_lbaAdd (sectors : Nat → Buf) (lba n i : Nat) :
    sectorBytes sectors (lbaAdd lba n) i = sectorBytes sectors lba (512 * n + i) := by
  unfold sectorBytes Fat12.sectorSize
  rw [Fat12.lbaAdd_lbaAdd, show n + i / 512 = (512 * n + i) / 512 by
    omega, show (512 * n + i) % 512 = i % 512 by omega]

theorem getD_packLe {n v i : Nat} (h : i < n) : (packLe n v).getD i 0 = leByte v i := by
  unfold packLe
  rw [List.getD_eq_getElem?_getD, List.getElem?_map, List.getElem?_range h]
  rfl

theorem length_packLe (n v : Nat) : (packLe n v).length = n := by
  unfold packLe
  rw [List.length_map, List.length_range]

/-- The builder's directory entry is the driver's. -/
theorem buildDirEntry_eq (n : ShortName) (attr : UInt8) {first size : Nat} (hfirst : first < 65536)
    (hsize : size < 4294967296) :
    ∀ k < 32, buildDirEntry n.1 attr first size k = (fillDirEntry n attr first size).bytes k := by
  intro k hk
  have hn := n.2
  have h2 := length_packLe 2 first
  have h4 := length_packLe 4 size
  have hzero : ∀ i, leByte 0 i = 0 := by
    intro i
    unfold leByte
    rw [Nat.zero_div]
    rfl
  unfold buildDirEntry
  rcases (by omega : k < 11 ∨ k = 11 ∨ 12 ≤ k ∧ k < 26 ∨ 26 ≤ k ∧ k < 28 ∨ 28 ≤ k)
    with h | rfl | ⟨hlo, hhi⟩ | ⟨hlo, hhi⟩ | h
  · rw [put_out (by omega), put_out (by omega), Function.update_of_ne (by omega)]
    have hin : put (fun _ => 0) 0 n.1 (0 + k) = n.1.getD k 0 := put_in (by omega)
    rw [Nat.zero_add] at hin
    rw [hin, RawDirEntry.bytes, if_pos h]
    rfl
  · rw [put_out (by omega), put_out (by omega), Function.update_self]
    rfl
  · rw [put_out (by omega), put_out (by omega), Function.update_of_ne (by omega), put_out (by omega)]
    unfold RawDirEntry.bytes fillDirEntry
    rw [if_neg (by omega), if_neg (by omega)]
    repeat' split
    all_goals first | rfl | exact (hzero _).symm
  · obtain ⟨i, rfl⟩ : ∃ i, k = 26 + i := ⟨k - 26, by omega⟩
    rw [put_out (by omega), put_in (by omega), getD_packLe (by omega)]
    unfold RawDirEntry.bytes fillDirEntry
    dsimp only
    rw [if_neg (by omega), if_neg (by omega), if_neg (by omega), if_neg (by omega), if_neg (by omega),
      if_neg (by omega), if_neg (by omega), if_neg (by omega), if_neg (by omega), if_neg (by omega),
      if_pos (by omega), UInt16.toNat_ofNat_of_lt' hfirst, Nat.add_sub_cancel_left]
  · obtain ⟨i, rfl⟩ : ∃ i, k = 28 + i := ⟨k - 28, by omega⟩
    rw [put_in (by omega), getD_packLe (by omega)]
    unfold RawDirEntry.bytes fillDirEntry
    dsimp only
    rw [if_neg (by omega), if_neg (by omega), if_neg (by omega), if_neg (by omega), if_neg (by omega),
      if_neg (by omega), if_neg (by omega), if_neg (by omega), if_neg (by omega), if_neg (by omega),
      if_neg (by omega), UInt32.toNat_ofNat_of_lt' hsize, Nat.add_sub_cancel_left]

section

variable {files : Files} {b : Build} {c : Core} {baseLba : Nat}

theorem holds_boot (hboot : CarriesBpb b.image) (hdisk : Holds c.sectors baseLba (finish b)) :
    CarriesBpb (c.bootSector baseLba) := by
  intro i hi
  rw [← hboot i hi, ← finish_low (show 11 + i < 65536 by omega),
    ← hdisk (11 + i) (by rw [show totalSectors * bytesPerSector = 10485760 from rfl]; omega)]
  show Buf.blit _ 0 _ (512 * 1) (11 + i) = _
  rw [← Nat.zero_add (11 + i), Buf.blit_in (by omega), Nat.zero_add]

theorem holds_mountable (hboot : CarriesBpb b.image) (hdisk : Holds c.sectors baseLba (finish b)) :
    Fat12.Mountable (c.bootSector baseLba) baseLba ∧ (c.mount baseLba).fs = bootFs baseLba := by
  obtain ⟨hfs, h512⟩ := ofBoot_eq (holds_boot hboot hdisk) baseLba
  refine ⟨⟨h512, ?_, ?_, ?_, ?_⟩, hfs⟩ <;> rw [hfs]
  · exact (by decide : ¬ (sectorsPerCluster = 0 ∨ sectorsPerCluster > Fat12.maxSectorsPerCluster))
  · exact (by decide : ¬ (sectorsPerFat = 0 ∨ sectorsPerFat > Fat12.maxFatSectors))
  · exact (by decide : ¬ rootDirSectors > Fat12.maxRootDirSectors)
  · exact (by decide : ¬ (totalClusters < 1 ∨ totalClusters > 4084))

/-- The bytes of the image, where the driver sees them. -/
theorem mount_bytes (hboot : CarriesBpb b.image) (hdisk : Holds c.sectors baseLba (finish b)) :
    (∀ i < 4096, (c.mount baseLba).fatPrimary i = b.fat i) ∧
      (∀ i < 8192, (c.mount baseLba).rootDir i = b.rootDir i) ∧
    ∀ k, 2 ≤ k → k < totalClusters + 2 → ∀ i < clusterSize,
      (c.mount baseLba).volume.data k i = b.image (offset k + i) := by
  obtain ⟨-, hfs⟩ := holds_mountable hboot hdisk
  have hsize : totalSectors * bytesPerSector = 10485760 := rfl
  have harea : ∀ n i, 512 * n + i < 10485760 →
      sectorBytes c.sectors (lbaAdd baseLba n) i = finish b (512 * n + i) := by
    intro n i hi
    rw [sectorBytes_lbaAdd, hdisk _ (by rw [hsize]; exact hi)]
  refine ⟨?_, ?_, ?_⟩
  · intro i hi
    have hload : (c.mount baseLba).fatPrimary =
      Fat12.loaded c.sectors (lbaAdd baseLba (c.mount baseLba).fs.fatStartLba) c.fatPrimary
      (c.mount baseLba).fs.sectorsPerFat := rfl
    rw [hload, hfs]
    refine (Fat12.loaded_lt (show i < 512 * 8 from hi)).trans ?_
    exact (harea 128 i (by omega)).trans (finish_fat hi)
  · intro i hi
    have hload : (c.mount baseLba).rootDir =
      Fat12.loaded c.sectors (lbaAdd baseLba (c.mount baseLba).fs.rootDirStartLba) c.rootDir
      (c.mount baseLba).fs.rootDirSectors := rfl
    rw [hload, hfs]
    refine (Fat12.loaded_lt (show i < 512 * 16 from hi)).trans ?_
    exact (harea 144 i (by omega)).trans (finish_root hi)
  · intro k h2 hk i hi
    rw [Fat12.volume_data h2 (by rw [hfs]; exact hk) (by rw [hfs]; exact hi)]
    rw [totalClusters_eq] at hk
    rw [clusterSize_eq] at hi
    unfold Core.clusterBytes Fat12.clusterToLba
    rw [hfs, if_neg (by omega)]
    show sectorBytes c.sectors (lbaAdd baseLba (160 + (k - 2) * 8)) i = _
    rw [harea _ i (by omega), offset_eq, show 512 * (160 + (k - 2) * 8) + i = 81920 + 4096 * (k - 2) + i by omega]
    exact finish_data (by omega)

/-- The mounted volume shows the files. -/
theorem mount_shows (hb : Built files b) (haccepted : ∀ f ∈ files, ∃ n, makeShortName f.1 = .ok n)
    (hdistinct : files.Pairwise fun f g => makeShortName f.1 ≠ makeShortName g.1) (hboot : CarriesBpb b.image)
    (hdisk : Holds c.sectors baseLba (finish b)) : Shows (c.mount baseLba).volume files := by
  obtain ⟨hmountable, hfs⟩ := holds_mountable hboot hdisk
  obtain ⟨hfat, hroot, hdata⟩ := mount_bytes hboot hdisk
  have hmounted : Mounted (c.mount baseLba) :=
    ⟨rfl, hmountable.accepted, by rw [hfs]; exact (by decide : 1 ≤ reservedSectors), by
      rw [hfs]; exact (by decide : 1 ≤ numFats)⟩
  have hnext := hb.next_le
  rw [hb.next, totalClusters_eq] at hnext
  have hcount := hb.count_le
  have hentries : (c.mount baseLba).volume.rootEntryCount = 256 := by
    show (c.mount baseLba).fs.rootEntryCount = _
    rw [hfs]
    rfl
  -- the geometry of `build_image.py`, 2540 clusters and 256 root entries
  have hrange : ∀ k, (c.mount baseLba).volume.InRange k ↔ 2 ≤ k ∧ k < 2542 := by
    intro k
    show 2 ≤ k ∧ k < (c.mount baseLba).fs.totalClusters + 2 ∧ k + k / 2 + 1 < (c.mount baseLba).fs.fatSizeBytes ↔ _
    rw [hfs]
    show 2 ≤ k ∧ k < 2542 ∧ k + k / 2 + 1 < 4096 ↔ _
    omega
  -- what the mount read back is what the builder laid out
  have hcell : ∀ k, 2 ≤ k → k < 2542 → (c.mount baseLba).volume.fat k = cell b.fat k := by
    intro k h2 hk
    rw [Fat12.fat_eq_cell ((hrange k).2 ⟨h2, hk⟩)]
    exact cell_congr fun j hj => nib_congr (hfat _ (by omega))
  have hslot : ∀ i, i < 256 → (c.mount baseLba).volume.root i = decodeEntry b.rootDir (32 * i) := by
    intro i hi
    show (if i < (c.mount baseLba).fs.rootEntryCount then slotAt (c.mount baseLba).rootDir i else _) = _
    rw [if_pos (by rw [hfs]; exact hi)]
    exact Fat12.decodeEntry_congr fun k hk => hroot (32 * i + k) (by omega)
  have hlast : ∀ {j f}, files[j]? = some f → 2 ≤ startOf files j ∧ startOf files (j + 1) ≤ 2542 := by
    intro j f hj
    have hlt := (List.getElem?_eq_some_iff.1 hj).1
    have := startOf_mono files (show j + 1 ≤ files.length by omega)
    exact ⟨Nat.le_add_right 2 _, by omega⟩
  refine ⟨hmounted.geom, ?_, haccepted, hdistinct, ?_, ?_, ?_, ?_, ?_, ?_, ?_⟩
  · show (c.mount baseLba).fs.clusterSizeBytes = _
    rw [hfs]
    rfl
  · rw [hentries]
    exact hcount
  · intro j f n hj hn
    have hfile := hb.file j f hj
    have hlt := (List.getElem?_eq_some_iff.1 hj).1
    obtain ⟨h2, hle⟩ := hlast hj
    have hneed := length_le_need f.2.length
    rw [startOf_succ hj] at hle
    rw [clusterSize_eq] at hneed
    rw [hslot j (lt_of_lt_of_le hlt hcount)]
    refine Fat12.decodeEntry_bytes fun k hk => ?_
    rw [hfile.entry k hk, toShortName_eq hn]
    refine buildDirEntry_eq n 0x20 ?_ (by omega) k hk
    split <;> omega
  · intro i h1 h2
    rw [hentries] at h2
    rw [hslot i h2]
    exact hb.blank (32 * i + 0) (by omega)
  · intro k h1 h2
    exact (hrange k).2 ⟨h1, by omega⟩
  · intro j f hj k h1 h2
    obtain ⟨h3, h4⟩ := hlast hj
    rw [hcell k (by omega) (by omega), startOf_succ hj]
    rw [startOf_succ hj] at h2
    exact (hb.file j f hj).links k h1 h2
  · intro k hk h1
    obtain ⟨h2, h3⟩ := (hrange k).1 hk
    rw [hcell k h2 h3]
    exact hb.free k (by rw [hb.next]; exact h1)
  · intro j f hj k h1 h2 i hi hlen
    obtain ⟨h3, h4⟩ := hlast hj
    rw [hdata k (by omega) (by rw [totalClusters_eq]; omega) i hi]
    rw [startOf_succ hj] at h2
    exact (hb.file j f hj).bytes k h1 h2 i hi hlen

/-! ## Reading an image -/

/-- Setting a FAT entry and getting it are inverse. -/
theorem get_set_fat {c : Core} {cluster value : Nat} (h : cluster + cluster / 2 + 1 < c.fs.fatSizeBytes)
    (hv : value < 4096) :
    Fat12.getFatEntry { c with fatPrimary := setFatEntry c.fatPrimary cluster value } cluster = value := by
  rw [Fat12.getFatEntry_eq (c := { c with fatPrimary := setFatEntry c.fatPrimary cluster value }) h, setFatEntry_eq]
  exact (Fat12.cellSet_setFatBytes c.fatPrimary cluster value).self.trans (Nat.mod_eq_of_lt hv)

theorem set_get_fat {c : Core} {cluster : Nat} (h : cluster + cluster / 2 + 1 < c.fs.fatSizeBytes) :
    setFatEntry c.fatPrimary cluster (Fat12.getFatEntry c cluster) = c.fatPrimary := by
  have hset := Fat12.cellSet_setFatBytes c.fatPrimary cluster (Fat12.getFatEntry c cluster)
  rw [setFatEntry_eq]
  refine hset.unique ⟨?_, fun _ _ => rfl⟩
  rw [Nat.mod_eq_of_lt (Fat12.getFatEntry_lt c cluster), Fat12.getFatEntry_eq h]

/-- A cluster is at the same place for both. -/
theorem offset_lba {sector : Buf} (h : CarriesBpb sector) (baseLba : Nat) {cluster : Nat} (h2 : 2 ≤ cluster) :
    clusterToOffset cluster = 512 * Fat12.clusterToLba (Fs.ofBoot sector baseLba) cluster := by
  rw [clusterToOffset_eq h2, (ofBoot_eq h baseLba).1, Fat12.clusterToLba, if_neg (by omega), offset_eq]
  show ((81920 + 4096 * (cluster - 2) : Nat) : Int) = 512 * ((160 + (cluster - 2) * 8 : Nat) : Int)
  omega

variable {image : Buf} {fuel : Nat} {s : State}

/-- The driver mounts an image of the builder and reads every file as it was laid out; in particular the
two agree on names, FAT entries and the places of clusters. -/
theorem image_reads (hf : 4096 ≤ fuel) (haccepted : ∀ f ∈ files, ∃ n, makeShortName f.1 = .ok n)
    (hdistinct : files.Pairwise fun f g => makeShortName f.1 ≠ makeShortName g.1) (hboot : CarriesBpb image)
    (hbuild : addFiles files (start image) = .ok b) (hs : Fat12.Reliable s)
    (hdisk : Holds s.sectors baseLba (finish b)) :
    (∃ s', Fat12.init baseLba s = .ok .ok s' ∧ ∀ f ∈ files, ∀ buffer maxSize, f.2.length ≤ maxSize →
      ∃ out, Fat12.Answers (Fat12.readFile fuel (slash :: f.1) (some buffer) maxSize) s'
        (.ok, some out, some f.2.length) ∧ ∀ i < f.2.length, out i = f.2.getD i 0) ∧
    (∀ name n, makeShortName name = .ok n → toShortName name = n.1) ∧
    (∀ (c : Core) (cluster : Nat), cluster + cluster / 2 + 1 < c.fs.fatSizeBytes →
      (∀ value < 4096,
        Fat12.getFatEntry { c with fatPrimary := setFatEntry c.fatPrimary cluster value } cluster = value) ∧
      setFatEntry c.fatPrimary cluster (Fat12.getFatEntry c cluster) = c.fatPrimary) ∧
    ∀ cluster : Nat, 2 ≤ cluster →
    clusterToOffset cluster = 512 * Fat12.clusterToLba (Fs.ofBoot image baseLba) cluster := by
  obtain ⟨hb, himage⟩ := addFiles_built (built_start image) hbuild
  rw [List.nil_append] at hb
  have hboot' : CarriesBpb b.image := by
    intro i hi
    rw [himage (11 + i) (by rw [offset_eq]; omega)]
    exact hboot i hi
  have hshows := mount_shows hb haccepted hdistinct hboot' hdisk
  obtain ⟨hmountable, hfs⟩ := holds_mountable hboot' hdisk
  obtain ⟨hwell, -⟩ := Fat12.mount_wellFormed hmountable (by rw [hfs]; exact (by decide : 1 ≤ reservedSectors))
    (by rw [hfs]; exact (by decide : 1 ≤ numFats)) hshows.wf
  refine ⟨?_, fun name n hn => toShortName_eq hn, fun c cluster h =>
    ⟨fun value hv => get_set_fat h hv, set_get_fat h⟩,
    fun cluster h2 => offset_lba hboot baseLba h2⟩
  obtain ⟨s', hinit, hcore, hs'⟩ := Fat12.gives_mount hmountable s rfl hs
  refine ⟨s', hinit, ?_⟩
  intro f hfile buffer maxSize hmax
  obtain ⟨j, hj⟩ := List.mem_iff_getElem?.1 hfile
  obtain ⟨n, hn, he⟩ := hshows.slot hj
  rw [← hcore] at hshows hwell
  have hread := Fat12.answers_read hf hs' hwell (slash :: f.1) buffer maxSize
  have hstart : s'.toCore.start (slash :: f.1) = (0, .empty) := if_pos rfl
  rw [hstart, components_slash hn] at hread
  unfold Volume.read at hread
  rw [Shows.resolve hn] at hread
  dsimp only at hread
  rw [hshows.find hj hn] at hread
  dsimp only at hread
  rw [hshows.isFile hj, if_neg (by decide), hshows.fileSize hj, if_neg (by omega)] at hread
  refine ⟨_, hread, ?_⟩
  intro i hi
  rw [if_pos hi]
  exact hshows.content hj hi

end

/-- A disk that holds an image from its first sector on. -/
theorem holds_initial (image : Buf) : Holds (State.initial fun l o => image (512 * l + o)).sectors 0 image := by
  intro i hi
  have hlt : totalSectors * bytesPerSector = 10485760 := rfl
  show image (512 * lbaAdd 0 (i / 512) + i % 512) = image i
  unfold lbaAdd
  rw [show 512 * ((0 + i / 512) % 4294967296) + i % 512 = i by omega]

/-- An image with a boot sector, before any file. -/
def blankImage : Buf := fun i => if 11 ≤ i then bpb.getD (i - 11) 0 else 0

theorem carriesBpb_blank : CarriesBpb blankImage := by
  intro i hi
  unfold blankImage
  rw [if_pos (by omega), Nat.add_sub_cancel_left]

theorem image_reads_two :
    ∃ b s', addFiles [([0x61, 0x2E, 0x62], [7, 8, 9]), ([0x43], [])] (start blankImage) = .ok b ∧
      Fat12.init 0 (State.initial fun l o => finish b (512 * l + o)) = .ok .ok s' ∧
      ∃ out, Fat12.Answers (Fat12.readFile 4096 [0x2F, 0x61, 0x2E, 0x62] (some fun _ => 0) 5000) s'
        (.ok, some out, some 3) ∧ out 2 = 9 := by
  obtain ⟨b, hb⟩ : ∃ b, addFiles [([0x61, 0x2E, 0x62], [7, 8, 9]), ([0x43], [])] (start blankImage) = .ok b :=
    ⟨_, rfl⟩
  have haccepted : ∀ f ∈ ([([0x61, 0x2E, 0x62], [7, 8, 9]), ([0x43], [])] : Files), ∃ n,
      makeShortName f.1 = .ok n := by
    intro f hf
    rcases List.mem_cons.1 hf with rfl | hf
    · exact ⟨_, rfl⟩
    · rcases List.mem_singleton.1 hf with rfl
      exact ⟨_, rfl⟩
  obtain ⟨⟨s', hinit, hread⟩, -⟩ :=
    image_reads (le_refl 4096) haccepted (by decide) carriesBpb_blank hb (fun _ => rfl) (holds_initial _)
  obtain ⟨out, hanswer, hout⟩ := hread _ (List.mem_cons_self ..) (fun _ => 0) 5000 (by decide)
  exact ⟨b, s', hb, hinit, out, hanswer, hout 2 (by decide)⟩

end AltoniumOS.Image

/-
What a FAT12 volume is, apart from its bytes: a table of links, a root table of entries, and the
contents of the clusters. Over it: chains, the slots of a directory in either storage layout, the
directory tree, and well-formedness.

`WF V P` allows for clusters `P` that are allocated and not yet (or no longer) part of a file or
directory, as there are in the middle of an operation; a well-formed volume at rest is `WF V ∅`.
-/
import AltoniumOS.Lib.Links
import AltoniumOS.Fat12.File

namespace AltoniumOS.Fat12

open AltoniumOS.Lib

structure Volume where
  totalClusters : Nat
  fatSizeBytes : Nat
  rootEntryCount : Nat
  clusterSize : Nat
  fat : Nat → Nat
  root : Nat → RawDirEntry
  data : Nat → Buf

/-- The volume of a driver state: the cached FAT and root directory, and the clusters on the disk.
Slots past the root table and bytes outside the clusters of the volume count as zero. -/
def Core.volume (c : Core) : Volume where
  totalClusters := c.fs.totalClusters
  fatSizeBytes := c.fs.fatSizeBytes
  rootEntryCount := c.fs.rootEntryCount
  clusterSize := c.fs.clusterSizeBytes
  fat := getFatEntry c
  root := fun i => if i < c.fs.rootEntryCount then slotAt c.rootDir i else slotAt (fun _ => 0) 0
  data := fun k i => if 2 ≤ k ∧ k < c.fs.totalClusters + 2 ∧ i < c.fs.clusterSizeBytes
    then c.clusterBytes k i else 0

/-- A live slot, neither never used nor deleted. -/
def RawDirEntry.Live (e : RawDirEntry) : Prop := isFreeEntry e = false

instance (e : RawDirEntry) : Decidable e.Live := inferInstanceAs (Decidable (_ = _))

theorem RawDirEntry.live_iff (e : RawDirEntry) : e.Live ↔ e.name.first ≠ nameEnd ∧ e.name.first ≠ nameDeleted := by
  unfold RawDirEntry.Live isFreeEntry
  simp

namespace Volume

variable (V : Volume)

def perCluster : Nat := V.clusterSize / dirEntrySize

/-- Sizes as a mounted volume has them. -/
structure Geom : Prop where
  clusters_le : V.totalClusters ≤ 4084
  perCluster_ge : 2 ≤ V.perCluster
  clusterSize_eq : V.clusterSize = dirEntrySize * V.perCluster

/-- A cluster of the volume with its entry inside the FAT. -/
def InRange (k : Nat) : Prop := 2 ≤ k ∧ k < V.totalClusters + 2 ∧ k + k / 2 + 1 < V.fatSizeBytes

/-! ## Chains -/

/-- The clusters met from `k` on. -/
def chain (k : Nat) : List Nat := follow V.fat inChain 4096 k

/-- `l` is a proper chain from `k`: clusters of the volume, none twice, up to an end mark. -/
structure Chain (k : Nat) (l : List Nat) : Prop where
  ne : l ≠ []
  nodup : l.Nodup
  range : ∀ x ∈ l, V.InRange x
  linked : ∃ z, Linked V.fat k l z ∧ clusterEoc ≤ z

/-! ## Directories -/

/-- The slots of a directory in order: the root table (0), or the clusters of its chain. -/
def locs (d : Nat) : List Loc :=
  if d = 0 then (List.range V.rootEntryCount).map (0, ·)
  else (V.chain d).flatMap fun k => (List.range V.perCluster).map (k, ·)

def slot (p : Loc) : RawDirEntry := if p.1 = 0 then V.root p.2 else slotAt (V.data p.1) p.2

/-- The entries of a directory slot by slot. -/
def slots (d : Nat) : List RawDirEntry := (V.locs d).map V.slot

/-- The first two slots of a subdirectory. -/
def DotLoc (d : Nat) (p : Loc) : Prop := d ≠ 0 ∧ p.1 = d ∧ p.2 < 2

instance (d : Nat) (p : Loc) : Decidable (DotLoc d p) := inferInstanceAs (Decidable (_ ∧ _))

/-- `p` is a live entry of the directory `d`, not counting the dot slots. -/
structure EntryAt (d : Nat) (p : Loc) : Prop where
  mem : p ∈ V.locs d
  notDot : ¬ DotLoc d p
  live : (V.slot p).Live

/-- `d` is a directory of the tree, in the directory `parent` (the root counts as its own). -/
inductive IsDir : Nat → Nat → Prop
  | root : IsDir 0 0
  | sub {d parent : Nat} {p : Loc} : IsDir d parent → V.EntryAt d p → (V.slot p).isDirectory = true →
      IsDir (V.slot p).cluster d

/-- `p` is a live entry of some directory of the tree. -/
def Entry (p : Loc) : Prop := ∃ d parent, V.IsDir d parent ∧ V.EntryAt d p

/-- The clusters an entry owns. -/
def owned (p : Loc) : List Nat := V.chain (V.slot p).cluster

/-- Some entry owns the cluster. -/
def Used (k : Nat) : Prop := ∃ p, V.Entry p ∧ k ∈ V.owned p

/-- `size` bytes take this many clusters. -/
def clustersFor (size : Nat) : Nat := (size + V.clusterSize - 1) / V.clusterSize

/-! ## Well-formed volumes -/

/-- The dot slots of the subdirectory `d` in `parent`. -/
structure Dots (d parent : Nat) : Prop where
  dotName : (V.slot (d, 0)).name = Fat12.dotName
  dotDir : (V.slot (d, 0)).isDirectory = true
  dotCluster : (V.slot (d, 0)).cluster = d
  dotDotName : (V.slot (d, 1)).name = Fat12.dotDotName
  dotDotDir : (V.slot (d, 1)).isDirectory = true
  dotDotCluster : (V.slot (d, 1)).cluster = parent

/-- What a live file entry owns: nothing when it is empty, else a chain as long as its size asks. -/
def FileChain (e : RawDirEntry) : Prop :=
  (e.size = 0 ∧ e.cluster = 0) ∨ ∃ l, V.Chain e.cluster l ∧ l.length = V.clustersFor e.size

/-- What holds of the slots of the directory `d` in `parent`. -/
structure DirOk (d parent : Nat) : Prop where
  noLabel : ∀ p ∈ V.locs d, (V.slot p).Live → (V.slot p).attr &&& attrVolumeId = 0
  dots : d ≠ 0 → V.Dots d parent
  unique : (V.locs d).Pairwise fun p p' => (V.slot p).Live → (V.slot p').Live → (V.slot p).name ≠ (V.slot p').name
  zeros : (V.locs d).Pairwise fun p p' => (V.slot p).name.first = nameEnd → (V.slot p').name.first = nameEnd

/-- A directory to be searched by name: nothing follows the slots never used, and no two live slots share a
name. -/
structure Tidy (d : Nat) : Prop where
  unique : (V.locs d).Pairwise fun p p' => (V.slot p).Live → (V.slot p').Live → (V.slot p).name ≠ (V.slot p').name
  zeros : (V.locs d).Pairwise fun p p' => (V.slot p).name.first = nameEnd → (V.slot p').name.first = nameEnd

structure WF (P : Set Nat) : Prop where
  geom : V.Geom
  dirOk : ∀ d q, V.IsDir d q → V.DirOk d q
  file : ∀ p, V.Entry p → (V.slot p).isDirectory = false → V.FileChain (V.slot p)
  dir : ∀ p, V.Entry p → (V.slot p).isDirectory = true → ∃ l, V.Chain (V.slot p).cluster l
  disjoint : ∀ p q, V.Entry p → V.Entry q → p ≠ q → List.Disjoint (V.owned p) (V.owned q)
  pending : ∀ k ∈ P, ¬ V.Used k
  noLost : ∀ k, V.InRange k → V.fat k ≠ clusterFree → V.fat k ≠ 0xFF7 → V.Used k ∨ k ∈ P

end Volume

/-! ## Chains -/

namespace Volume

variable {V : Volume}

theorem InRange.inChain (hg : V.Geom) {k : Nat} (h : V.InRange k) : Fat12.inChain k = true := by
  obtain ⟨h1, h2, -⟩ := h
  have := hg.clusters_le
  unfold Fat12.inChain clusterEoc
  rw [Bool.and_eq_true, decide_eq_true_eq, decide_eq_true_eq]
  exact ⟨h1, by omega⟩

theorem inChain_of_eoc {z : Nat} (h : clusterEoc ≤ z) : inChain z = false := by
  unfold inChain
  simp [Nat.not_lt.2 h]

theorem Chain.length_lt (hg : V.Geom) {k : Nat} {l : List Nat} (h : V.Chain k l) : l.length < 4095 := by
  have hsub : l ⊆ (List.range 4084).map (· + 2) := fun x hx => by
    obtain ⟨h1, h2, -⟩ := h.range x hx
    have := hg.clusters_le
    exact List.mem_map.2 ⟨x - 2, List.mem_range.2 (by omega), by omega⟩
  have := (h.nodup.subperm hsub).length_le
  simp only [List.length_map, List.length_range] at this
  omega

/-- A proper chain is what the links lead through. -/
theorem Chain.eq (hg : V.Geom) {k : Nat} {l : List Nat} (h : V.Chain k l) : V.chain k = l := by
  obtain ⟨z, hl, hz⟩ := h.linked
  exact follow_eq hl (fun x hx => (h.range x hx).inChain hg) (inChain_of_eoc hz) (by have := h.length_lt hg; omega)

theorem Chain.head_mem {k : Nat} {l : List Nat} (h : V.Chain k l) : k ∈ l := by
  obtain ⟨z, hl, -⟩ := h.linked
  exact hl.head_mem h.ne

theorem Chain.start (h : V.Chain k l) : V.InRange k := h.range k h.head_mem

/-- No cluster of a chain is free. -/
theorem Chain.fat_ge {k x : Nat} {l : List Nat} (h : V.Chain k l) (hx : x ∈ l) : 2 ≤ V.fat x := by
  obtain ⟨z, hl, hz⟩ := h.linked
  rcases hl.next_mem hx with h1 | h1
  · exact (h.range _ h1).1
  · unfold clusterEoc at hz; omega

theorem Chain.congr {W : Volume} {k : Nat} {l : List Nat} (h : V.Chain k l)
    (hr : ∀ x ∈ l, V.InRange x → W.InRange x) (hf : ∀ x ∈ l, W.fat x = V.fat x) : W.Chain k l := by
  obtain ⟨z, hl, hz⟩ := h.linked
  exact ⟨h.ne, h.nodup, fun x hx => hr x hx (h.range x hx), z, hl.congr hf, hz⟩

theorem chain_zero : V.chain 0 = [] := follow_dead rfl

theorem chain_congr {W : Volume} {k : Nat} (h : ∀ x ∈ V.chain k, W.fat x = V.fat x) : W.chain k = V.chain k :=
  follow_congr h

/-! ## Slots -/

theorem mem_locs_root {p : Loc} : p ∈ V.locs 0 ↔ p.1 = 0 ∧ p.2 < V.rootEntryCount := by
  obtain ⟨o, i⟩ := p
  simp only [locs, if_pos, List.mem_map, List.mem_range, Prod.mk.injEq]
  constructor
  · rintro ⟨j, hj, rfl, rfl⟩; exact ⟨rfl, hj⟩
  · rintro ⟨rfl, hi⟩; exact ⟨i, hi, rfl, rfl⟩

theorem mem_locs_sub {d : Nat} {p : Loc} (hd : d ≠ 0) : p ∈ V.locs d ↔ p.1 ∈ V.chain d ∧ p.2 < V.perCluster := by
  obtain ⟨o, i⟩ := p
  simp only [locs, if_neg hd, List.mem_flatMap, List.mem_map, List.mem_range, Prod.mk.injEq]
  constructor
  · rintro ⟨k, hk, j, hj, rfl, rfl⟩; exact ⟨hk, hj⟩
  · rintro ⟨hk, hi⟩; exact ⟨o, hk, i, hi, rfl, rfl⟩

theorem nodup_locs_root : (V.locs 0).Nodup := by
  rw [locs, if_pos rfl]
  exact List.Nodup.map (fun a b h => (Prod.mk.inj h).2) List.nodup_range

theorem nodup_locs_sub {d : Nat} (hd : d ≠ 0) (h : (V.chain d).Nodup) : (V.locs d).Nodup := by
  rw [locs, if_neg hd]
  refine List.nodup_flatMap.2 ⟨fun k _ => List.Nodup.map (fun a b h => (Prod.mk.inj h).2) List.nodup_range, ?_⟩
  refine h.imp fun {a b} hab => ?_
  intro p hp hq
  obtain ⟨i, -, rfl⟩ := List.mem_map.1 hp
  obtain ⟨j, -, hj⟩ := List.mem_map.1 hq
  exact hab (Prod.mk.inj hj).1.symm

/-! ## The tree of a well-formed volume -/

theorem EntryAt.entry {d q : Nat} {p : Loc} (h : V.EntryAt d p) (hd : V.IsDir d q) : V.Entry p := ⟨d, q, hd, h⟩

/-- A directory is the root, or the directory of an entry. -/
theorem IsDir.cases_entry {d q : Nat} (h : V.IsDir d q) :
    (d = 0 ∧ q = 0) ∨ ∃ p, V.Entry p ∧ V.EntryAt q p ∧ (V.slot p).isDirectory = true ∧ (V.slot p).cluster = d := by
  cases h with
  | root => exact .inl ⟨rfl, rfl⟩
  | sub hd he hp => exact .inr ⟨_, he.entry hd, he, hp, rfl⟩

namespace WF

variable {P : Set Nat}

/-- Every entry owns a chain, or is an empty file owning nothing. -/
theorem owned_cases (h : V.WF P) {p : Loc} (hp : V.Entry p) :
    (V.owned p = [] ∧ (V.slot p).isDirectory = false ∧ (V.slot p).size = 0 ∧ (V.slot p).cluster = 0) ∨
      V.Chain (V.slot p).cluster (V.owned p) := by
  unfold owned
  cases hd : (V.slot p).isDirectory with
  | true =>
    obtain ⟨l, hl⟩ := h.dir p hp hd
    exact .inr (by rw [hl.eq h.geom]; exact hl)
  | false =>
    rcases h.file p hp hd with ⟨h1, h2⟩ | ⟨l, hl, -⟩
    · exact .inl ⟨by rw [h2, chain_zero], rfl, h1, h2⟩
    · exact .inr (by rw [hl.eq h.geom]; exact hl)

theorem owned_range (h : V.WF P) {p : Loc} (hp : V.Entry p) {k : Nat} (hk : k ∈ V.owned p) : V.InRange k := by
  rcases h.owned_cases hp with ⟨h1, -⟩ | h1
  · rw [h1] at hk; cases hk
  · exact h1.range k hk

theorem owned_fat_ge (h : V.WF P) {p : Loc} (hp : V.Entry p) {k : Nat} (hk : k ∈ V.owned p) : 2 ≤ V.fat k := by
  rcases h.owned_cases hp with ⟨h1, -⟩ | h1
  · rw [h1] at hk; cases hk
  · exact h1.fat_ge hk

/-- A free cluster is used by nobody. -/
theorem not_used_of_free (h : V.WF P) {k : Nat} (hk : V.fat k = clusterFree) : ¬ V.Used k := by
  rintro ⟨p, hp, hk'⟩
  have := h.owned_fat_ge hp hk'
  unfold clusterFree at hk
  omega

/-- A subdirectory has a chain, all of it used. -/
theorem dir_chain (h : V.WF P) {d q : Nat} (hd : V.IsDir d q) (h0 : d ≠ 0) :
    V.Chain d (V.chain d) ∧ ∃ p, V.Entry p ∧ V.EntryAt q p ∧ (V.slot p).isDirectory = true ∧
      (V.slot p).cluster = d := by
  rcases hd.cases_entry with ⟨h1, -⟩ | ⟨p, hp, he, hi, rfl⟩
  · exact absurd h1 h0
  · obtain ⟨l, hl⟩ := h.dir p hp hi
    exact ⟨by rw [hl.eq h.geom]; exact hl, p, hp, he, hi, rfl⟩

theorem tidy (h : V.WF P) {d q : Nat} (hd : V.IsDir d q) : V.Tidy d :=
  ⟨(h.dirOk d q hd).unique, (h.dirOk d q hd).zeros⟩

theorem dir_used (h : V.WF P) {d q k : Nat} (hd : V.IsDir d q) (h0 : d ≠ 0) (hk : k ∈ V.chain d) : V.Used k := by
  obtain ⟨-, p, hp, -, -, rfl⟩ := h.dir_chain hd h0
  exact ⟨p, hp, hk⟩

/-- A directory cluster below the root is a cluster of the volume. -/
theorem dir_range (h : V.WF P) {d q : Nat} (hd : V.IsDir d q) (h0 : d ≠ 0) : V.InRange d :=
  (h.dir_chain hd h0).1.start

theorem nodup_locs (h : V.WF P) {d q : Nat} (hd : V.IsDir d q) : (V.locs d).Nodup := by
  by_cases h0 : d = 0
  · subst h0; exact nodup_locs_root
  · exact nodup_locs_sub h0 (h.dir_chain hd h0).1.nodup

/-- The owning cluster of a slot: 0 in the root, a used cluster elsewhere. -/
theorem loc_owner (h : V.WF P) {d q : Nat} {p : Loc} (hd : V.IsDir d q) (hp : p ∈ V.locs d) :
    (d = 0 ∧ p.1 = 0 ∧ p.2 < V.rootEntryCount) ∨
      (d ≠ 0 ∧ p.1 ∈ V.chain d ∧ V.InRange p.1 ∧ p.2 < V.perCluster) := by
  by_cases h0 : d = 0
  · subst h0; exact .inl ⟨rfl, mem_locs_root.1 hp⟩
  · obtain ⟨h1, h2⟩ := (mem_locs_sub h0).1 hp
    exact .inr ⟨h0, h1, (h.dir_chain hd h0).1.range _ h1, h2⟩

/-- Two entries with a cluster in common are the same. -/
theorem entry_unique (h : V.WF P) {p p' : Loc} {k : Nat} (hp : V.Entry p) (hp' : V.Entry p') (hk : k ∈ V.owned p)
    (hk' : k ∈ V.owned p') : p = p' := by
  by_contra hne
  exact h.disjoint p p' hp hp' hne hk hk'

/-- Entries of subdirectories with the same first cluster are the same. -/
theorem entry_unique_of_cluster (h : V.WF P) {p p' : Loc} (hp : V.Entry p) (hp' : V.Entry p')
    (hi : (V.slot p).isDirectory = true) (he : (V.slot p').cluster = (V.slot p).cluster) : p = p' := by
  obtain ⟨l, hl⟩ := h.dir p hp hi
  have hk : (V.slot p).cluster ∈ V.owned p := by unfold owned; rw [hl.eq h.geom]; exact hl.head_mem
  exact h.entry_unique hp hp' hk (by unfold owned at hk ⊢; rwa [he])

/-- A slot belongs to one directory. -/
theorem loc_unique (h : V.WF P) {d q d' q' : Nat} {p : Loc} (hd : V.IsDir d q) (hd' : V.IsDir d' q')
    (hp : p ∈ V.locs d) (hp' : p ∈ V.locs d') : d = d' := by
  rcases h.loc_owner hd hp with ⟨h0, h1, -⟩ | ⟨h0, h1, h2, -⟩ <;>
    rcases h.loc_owner hd' hp' with ⟨h0', h1', -⟩ | ⟨h0', h1', h2', -⟩
  · rw [h0, h0']
  · have := h2'.1; omega
  · have := h2.1; omega
  · obtain ⟨-, e, he, -, hi, rfl⟩ := h.dir_chain hd h0
    obtain ⟨-, e', he', -, -, rfl⟩ := h.dir_chain hd' h0'
    rw [h.entry_unique he he' h1 h1']

/-- A directory has one parent. -/
theorem parent_unique (h : V.WF P) {d q q' : Nat} (hd : V.IsDir d q) (hd' : V.IsDir d q') : q = q' := by
  rcases hd.cases_entry with ⟨h0, h1⟩ | ⟨p, hp, he, hi, hc⟩ <;>
    rcases hd'.cases_entry with ⟨h0', h1'⟩ | ⟨p', hp', he', hi', hc'⟩
  · rw [h1, h1']
  · obtain ⟨l, hl⟩ := h.dir p' hp' hi'
    have := hl.start.1; omega
  · obtain ⟨l, hl⟩ := h.dir p hp hi
    have := hl.start.1; omega
  · obtain rfl : p = p' := h.entry_unique_of_cluster hp hp' hi (by rw [hc, hc'])
    obtain ⟨a, ha⟩ : ∃ a, V.IsDir q a := by cases hd with
      | root => exact ⟨0, .root⟩
      | sub hq => exact ⟨_, hq⟩
    obtain ⟨b, hb⟩ : ∃ b, V.IsDir q' b := by cases hd' with
      | root => exact ⟨0, .root⟩
      | sub hq => exact ⟨_, hq⟩
    exact h.loc_unique ha hb he.mem he'.mem

end WF

end Volume

end AltoniumOS.Fat12

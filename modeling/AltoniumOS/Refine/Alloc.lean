/-
Taking and giving back clusters. `Took c c' l` says that `c'` is `c` with the free clusters `l`
taken and anything done to them; giving them back leaves the FAT byte for byte as it was, which is
how the driver undoes a change that could not be finished.
-/
import AltoniumOS.Refine.Search

namespace AltoniumOS.Fat12

open AltoniumOS.Lib

theorem inChain_iff {k : Nat} : inChain k = true ↔ 2 ≤ k ∧ k < 4088 := by
  unfold inChain clusterEoc
  rw [Bool.and_eq_true, decide_eq_true_eq, decide_eq_true_eq]

/-- What no operation on files changes: the layout and the current directory. -/
structure SameEnv (c c' : Core) : Prop where
  fs : c'.fs = c.fs
  ready : c'.fsReady = c.fsReady
  current : c'.currentDirCluster = c.currentDirCluster
  stack : c'.pathStack = c.pathStack
  cwd : c'.cwd = c.cwd

namespace SameEnv

variable {c c' c'' : Core}

theorem refl (c : Core) : SameEnv c c := ⟨rfl, rfl, rfl, rfl, rfl⟩

theorem trans (h : SameEnv c c') (h' : SameEnv c' c'') : SameEnv c c'' :=
  ⟨h'.1.trans h.1, h'.2.trans h.2, h'.3.trans h.3, h'.4.trans h.4, h'.5.trans h.5⟩

theorem mounted (h : SameEnv c c') (hm : Mounted c) : Mounted c' :=
  ⟨by rw [h.ready]; exact hm.ready, by rw [h.fs]; exact hm.accepted, by rw [h.fs]; exact hm.reserved,
    by rw [h.fs]; exact hm.fats⟩

theorem accepted (h : SameEnv c c') (hm : c.fs.Accepted) : c'.fs.Accepted := by
  rw [h.fs]
  exact hm

theorem sizes (h : SameEnv c c') : Volume.SameSizes c.volume c'.volume :=
  ⟨congrArg Fs.totalClusters h.fs, congrArg Fs.fatSizeBytes h.fs, congrArg Fs.rootEntryCount h.fs,
    congrArg Fs.clusterSizeBytes h.fs⟩

theorem start (h : SameEnv c c') (path : List UInt8) : c'.start path = c.start path := by
  unfold Core.start
  rw [h.current, h.stack]

theorem root (h : SameEnv c c') (hr : c'.rootDir = c.rootDir) : c'.volume.root = c.volume.root := by
  unfold Core.volume
  rw [h.fs, hr]

theorem fat (h : SameEnv c c') (hf : c'.fatPrimary = c.fatPrimary) : c'.volume.fat = c.volume.fat := by
  show getFatEntry c' = getFatEntry c
  unfold getFatEntry
  rw [h.fs, hf]

end SameEnv

section

variable {c c' : Core}

/-! ## The entries of the FAT -/

/-- Inside the cached FAT, an entry is a cell of its bytes. -/
theorem fat_eq_cell {k : Nat} (h : c.volume.InRange k) : c.volume.fat k = cell c.fatPrimary k :=
  getFatEntry_eq h.2.2

theorem fat_congr (he : c'.fs = c.fs) {k : Nat} (h : ∀ j, j / 3 = k → nib c'.fatPrimary j = nib c.fatPrimary j) :
    c'.volume.fat k = c.volume.fat k := by
  by_cases hk : k + k / 2 + 1 < c.fs.fatSizeBytes
  · rw [show c'.volume.fat k = cell c'.fatPrimary k from getFatEntry_eq (by rw [he]; exact hk),
      show c.volume.fat k = cell c.fatPrimary k from getFatEntry_eq hk]
    exact cell_congr h
  · rw [show c'.volume.fat k = clusterEoc from getFatEntry_outside (by rw [he]; omega),
      show c.volume.fat k = clusterEoc from getFatEntry_outside (by omega)]

theorem fat_setFat {k v : Nat} (h : c.volume.InRange k) (x : Nat) :
    (c.setFat k v).volume.fat x = if x = k then v % 4096 else c.volume.fat x := by
  rw [volume_setFat v h.2.2]
  exact Function.update_apply ..

theorem nib_setFat {k v j : Nat} (h : j / 3 ≠ k) : nib (c.setFat k v).fatPrimary j = nib c.fatPrimary j :=
  (cellSet_setFatBytes c.fatPrimary k v).other j h

theorem env_setFat (c : Core) (k v : Nat) : SameEnv c (c.setFat k v) := ⟨rfl, rfl, rfl, rfl, rfl⟩

theorem env_putCluster (c : Core) (k : Nat) (b : Buf) : SameEnv c (c.putCluster k b) := ⟨rfl, rfl, rfl, rfl, rfl⟩

theorem fat_putCluster (c : Core) (k : Nat) (b : Buf) : (c.putCluster k b).volume.fat = c.volume.fat := rfl

theorem data_putCluster (hm : c.fs.Accepted) {k : Nat} {b : Buf} (hk : c.volume.InRange k) (x : Nat) :
    (c.putCluster k b).volume.data x =
      if x = k then fun i => if i < c.fs.clusterSizeBytes then b i else 0 else c.volume.data x := by
  rw [volume_putCluster hm b hk.1 hk.2.1]
  exact Function.update_apply ..

/-- Writing part of a cluster changes no other one. -/
theorem data_putPart_ne (hm : c.fs.Accepted) {k m : Nat} {b : Buf} (hk : c.volume.InRange k)
    (hle : m ≤ c.fs.sectorsPerCluster) {x : Nat} (hx : x ≠ k) :
    (c.putPart k b m).volume.data x = c.volume.data x := by
  have hc := hm.clusters.2
  have hlt : k < c.fs.totalClusters + 2 := hk.2.1
  funext i
  by_cases hr : 2 ≤ x ∧ x < c.fs.totalClusters + 2 ∧ i < c.fs.clusterSizeBytes
  · have hi := hr.2.2
    rw [hm.clusterSize_eq] at hi
    have hbytes : (c.putPart k b m).clusterBytes x i = c.clusterBytes x i :=
      clusterBytes_written hm hk.1 hr.1 (by omega) (by omega) hx hle hi
    exact (if_pos hr).trans (hbytes.trans (if_pos hr).symm)
  · exact (if_neg hr).trans (if_neg hr).symm

theorem env_putPart (c : Core) (k : Nat) (b : Buf) (m : Nat) : SameEnv c (c.putPart k b m) :=
  ⟨rfl, rfl, rfl, rfl, rfl⟩

/-! ## Free clusters -/

/-- The free clusters of a volume. -/
def Volume.freeClusters (V : Volume) : Finset Nat :=
  (Finset.range (V.totalClusters + 2)).filter fun k => 2 ≤ k ∧ V.fat k = clusterFree

/-- A free cluster has its entry inside the FAT: outside, an entry reads as an end mark. -/
theorem mem_freeClusters {k : Nat} :
    k ∈ c.volume.freeClusters ↔ c.volume.InRange k ∧ c.volume.fat k = clusterFree := by
  unfold Volume.freeClusters Volume.InRange
  rw [Finset.mem_filter, Finset.mem_range]
  constructor
  · rintro ⟨h1, h2, h3⟩
    refine ⟨⟨h2, h1, ?_⟩, h3⟩
    by_contra hlt
    have : c.volume.fat k = clusterEoc := getFatEntry_outside (Nat.not_lt.1 hlt)
    rw [this] at h3
    cases h3
  · rintro ⟨⟨h1, h2, -⟩, h3⟩
    exact ⟨h2, h1, h3⟩

theorem firstFree_some {k : Nat} (h : firstFree c = some k) : k ∈ c.volume.freeClusters := by
  unfold firstFree at h
  have h1 := List.mem_of_find?_eq_some h
  have h2 := List.find?_some h
  obtain ⟨i, hi, rfl⟩ := List.mem_map.1 h1
  unfold Volume.freeClusters
  rw [Finset.mem_filter, Finset.mem_range]
  exact ⟨by have := List.mem_range.1 hi; show _ < c.fs.totalClusters + 2; omega, by omega, beq_iff_eq.1 h2⟩

/-- The clusters before it are not free. -/
theorem firstFree_le {k x : Nat} (h : firstFree c = some k) (hx : x ∈ c.volume.freeClusters) : k ≤ x := by
  unfold firstFree at h
  obtain ⟨-, l, r, hl, hnot⟩ := List.find?_eq_some_iff_append.1 h
  have hsorted : ((List.range c.fs.totalClusters).map (· + 2)).Pairwise (· < ·) :=
    List.pairwise_map.2 (List.pairwise_lt_range.imp fun h => by omega)
  unfold Volume.freeClusters at hx
  rw [Finset.mem_filter, Finset.mem_range] at hx
  have hmem : x ∈ (List.range c.fs.totalClusters).map (· + 2) :=
    List.mem_map.2 ⟨x - 2, List.mem_range.2 (by have : x < c.fs.totalClusters + 2 := hx.1; omega), by omega⟩
  rw [hl] at hmem hsorted
  rcases List.mem_append.1 hmem with hxl | hxr
  · have := hnot x hxl
    rw [show getFatEntry c x = clusterFree from hx.2.2] at this
    cases this
  · rcases List.mem_cons.1 hxr with rfl | hxr
    · exact Nat.le_refl _
    · exact Nat.le_of_lt ((List.pairwise_cons.1 (List.pairwise_append.1 hsorted).2.1).1 x hxr)

theorem firstFree_none (h : firstFree c = none) : c.volume.freeClusters = ∅ := by
  unfold firstFree at h
  rw [List.find?_eq_none] at h
  rw [Finset.eq_empty_iff_forall_notMem]
  intro k hk
  unfold Volume.freeClusters at hk
  rw [Finset.mem_filter, Finset.mem_range] at hk
  refine h k (List.mem_map.2 ⟨k - 2, List.mem_range.2 ?_, by omega⟩) (beq_iff_eq.2 hk.2.2)
  have : k < c.fs.totalClusters + 2 := hk.1
  omega

theorem exists_firstFree (h : 0 < c.volume.freeClusters.card) : ∃ k, firstFree c = some k := by
  cases hk : firstFree c with
  | some k => exact ⟨k, rfl⟩
  | none => exact absurd (firstFree_none hk) (Finset.card_pos.1 h).ne_empty

/-- `c` after `fat12_allocate_cluster` took `k`: marked as a last cluster and zeroed. -/
def Core.alloc (c : Core) (k : Nat) : Core := (c.setFat k clusterEoc).putCluster k fun _ => 0

theorem gives_clusterBuffer {α : Type} {k : Buf → M α} {a : α} (h : ∀ b, Gives (k b) c a c') :
    Gives (getClusterBuffer >>= k) c a c' := fun s hs hg => h s.clusterBuffer s hs hg

/-- `fat12_allocate_cluster` takes the first free cluster; if it cannot be zeroed, it is given back. -/
theorem runs_allocateCluster_some (hm : c.fs.Accepted) {k : Nat} (hk : firstFree c = some k)
    (f : Nat → Option Nat) :
    Runs allocateCluster c f (if (f 0).isNone then k else 0)
      (if (f 0).isNone then c.alloc k
        else ((c.setFat k clusterEoc).putPart k (fun _ => 0) (transferred (f 0) c.fs.sectorsPerCluster)).setFat k
          clusterFree)
      (later f 1) := by
  unfold allocateCluster
  apply runs_core
  rw [hk]
  refine Yields.bind (runs_setFatEntry k clusterEoc c f) (runs_clusterBuffer fun b => ?_)
  refine Yields.bind (runs_setClusterBuffer _ _ f) ?_
  have hz : ∀ i < sectorSize * (c.setFat k clusterEoc).fs.sectorsPerCluster, b.fill 0 c.fs.clusterSizeBytes i = 0 :=
    fun i hi => Buf.fill_lt (by rw [hm.clusterSize_eq]; exact hi)
  refine Yields.bind (runs_writeCluster (c.setFat k clusterEoc) f hm.spc_ne hz) ?_
  cases h0 : f 0 with
  | none => exact Yields.pure _
  | some j => exact Yields.bind (runs_setFatEntry k clusterFree _ _) (Yields.pure _)

theorem runs_allocateCluster_none (hk : firstFree c = none) (f : Nat → Option Nat) :
    Runs allocateCluster c f 0 c f := by
  unfold allocateCluster
  apply runs_core
  rw [hk]
  exact Yields.pure _

theorem gives_allocateCluster_some (hm : c.fs.Accepted) {k : Nat} (hk : firstFree c = some k) :
    Gives allocateCluster c k (c.alloc k) :=
  Runs.gives fun f hf => ⟨1, by simpa [hf 0] using runs_allocateCluster_some hm hk f⟩

theorem gives_allocateCluster_none (hk : firstFree c = none) : Gives allocateCluster c 0 c :=
  Runs.gives fun f _ => ⟨0, runs_allocateCluster_none hk f⟩

/-! ## Giving clusters back -/

/-- `c` with the clusters `l` freed, in order. -/
def Core.freeAll (c : Core) (l : List Nat) : Core := l.foldl (fun c k => c.setFat k clusterFree) c

theorem freeAll_cons (c : Core) (k : Nat) (l : List Nat) :
    c.freeAll (k :: l) = (c.setFat k clusterFree).freeAll l := rfl

/-- Freeing changes the FAT and its dirty mark only. -/
theorem freeAll_eq : ∀ (l : List Nat) (c : Core),
    c.freeAll l = { c with fatPrimary := (c.freeAll l).fatPrimary, fatDirty := (c.freeAll l).fatDirty }
  | [], _ => rfl
  | k :: l, c => by
    rw [freeAll_cons, freeAll_eq l (c.setFat k clusterFree)]
    rfl

theorem env_freeAll (c : Core) (l : List Nat) : SameEnv c (c.freeAll l) := by
  rw [freeAll_eq]
  exact ⟨rfl, rfl, rfl, rfl, rfl⟩

theorem rootDir_freeAll (c : Core) (l : List Nat) : (c.freeAll l).rootDir = c.rootDir := by rw [freeAll_eq]

theorem data_freeAll (c : Core) (l : List Nat) : (c.freeAll l).volume.data = c.volume.data := by
  rw [freeAll_eq]; rfl

theorem nib_freeAll :
    ∀ {l : List Nat} {c : Core} {j : Nat}, j / 3 ∉ l → nib (c.freeAll l).fatPrimary j = nib c.fatPrimary j
  | [], _, _, _ => rfl
  | k :: l, c, j, h => by
    rw [freeAll_cons, nib_freeAll fun hm => h (List.mem_cons_of_mem _ hm),
      nib_setFat fun he => h (he ▸ List.mem_cons_self ..)]

theorem fat_freeAll_ne {l : List Nat} {k : Nat} (h : k ∉ l) : (c.freeAll l).volume.fat k = c.volume.fat k :=
  fat_congr (env_freeAll c l).fs fun j hj => nib_freeAll (by rw [hj]; exact h)

theorem fat_freeAll_mem : ∀ {l : List Nat} {c : Core} {k : Nat}, (∀ x ∈ l, c.volume.InRange x) → k ∈ l →
    (c.freeAll l).volume.fat k = clusterFree
  | x :: l, c, k, hr, hk => by
    rw [freeAll_cons]
    by_cases hkl : k ∈ l
    · exact fat_freeAll_mem (fun y hy => hr y (List.mem_cons_of_mem _ hy)) hkl
    · obtain rfl : k = x := (List.mem_cons.1 hk).resolve_right hkl
      rw [fat_freeAll_ne hkl, fat_setFat (hr k (List.mem_cons_self ..)), if_pos rfl]
      rfl

theorem freeClusters_freeAll {l : List Nat} (hr : ∀ x ∈ l, c.volume.InRange x) :
    (c.freeAll l).volume.freeClusters = c.volume.freeClusters ∪ l.toFinset := by
  ext k
  rw [Finset.mem_union, mem_freeClusters, mem_freeClusters, (env_freeAll c l).sizes.inRange, List.mem_toFinset]
  by_cases hk : k ∈ l
  · simp [fat_freeAll_mem hr hk, hr k hk, hk]
  · simp [fat_freeAll_ne hk, hk]

/-- One round of `fat12_free_chain` inside a chain. -/
theorem freeChainRound_run {k : Nat} (hk : inChain k = true) (s : State) :
    freeChainRound k s =
      .ok (.inl (getFatEntry s.toCore k)) { s with toCore := s.toCore.setFat k clusterFree } := by
  rw [freeChainRound, if_pos hk]
  rfl

/-- `fat12_free_chain` frees what the links lead through. -/
theorem freeChain_run : ∀ {l : List Nat} {c : Core} {k fuel : Nat}, c.fs.Accepted → c.volume.Tail k l → l.Nodup →
    l.length < fuel → ∀ s : State, s.toCore = c → freeChain fuel k s = .ok () { s with toCore := c.freeAll l }
  | [], c, k, fuel + 1, hm, ht, _, _, s, hs => by
    subst hs
    refine loop_done ?_
    rw [freeChainRound, if_neg (by rw [ht.nil]; simp)]
    rfl
  | x :: l, c, k, fuel + 1, hm, ht, hnd, hlt, s, hs => by
    obtain ⟨rfl, hk, ht'⟩ := ht.cons
    obtain ⟨hkl, hnd⟩ := List.nodup_cons.1 hnd
    have hother : ∀ y ∈ l, (c.setFat k clusterFree).volume.fat y = c.volume.fat y := fun y hy => by
      rw [fat_setFat hk, if_neg fun hyk : y = k => hkl (hyk ▸ hy)]
    obtain ⟨z, hl, hz⟩ := ht'.linked
    have htail : (c.setFat k clusterFree).volume.Tail (getFatEntry c k) l :=
      ⟨fun y hy => (env_setFat c k clusterFree).sizes.inRange.2 (ht'.range y hy), z, hl.congr hother, hz⟩
    have hround := freeChainRound_run (hk.inChain hm.geom) s
    rw [hs] at hround
    unfold freeChain
    rw [loop_next hround]
    exact freeChain_run ((env_setFat c k clusterFree).accepted hm) htail hnd (by simpa using hlt) _ rfl

theorem gives_freeChain {l : List Nat} {k fuel : Nat} (hm : c.fs.Accepted) (ht : c.volume.Tail k l) (hnd : l.Nodup)
    (hlt : l.length < fuel) : Gives (freeChain fuel k) c () (c.freeAll l) :=
  fun s hs hg => ⟨_, freeChain_run hm ht hnd hlt s hs, rfl, hg⟩

theorem runs_freeChain {l : List Nat} {k fuel : Nat} (hm : c.fs.Accepted) (ht : c.volume.Tail k l) (hnd : l.Nodup)
    (hlt : l.length < fuel) (f : Nat → Option Nat) : Runs (freeChain fuel k) c f () (c.freeAll l) f :=
  .of_run fun s hs hf => ⟨_, freeChain_run hm ht hnd hlt s hs, rfl, hf⟩

/-- The numbers that may stand in a chain whose entry does not read free. -/
def busy (c : Core) : Finset Nat := (Finset.Ico 2 clusterEoc).filter fun k => getFatEntry c k ≠ clusterFree

/-- Freeing a cluster that is linked on leaves one busy cluster less. -/
theorem card_busy {k : Nat} (hk : inChain k = true) (hnext : inChain (getFatEntry c k) = true) :
    (busy (c.setFat k clusterFree)).card < (busy c).card := by
  have hin : k + k / 2 + 1 < c.fs.fatSizeBytes := by
    by_contra hout
    rw [getFatEntry_outside (Nat.not_lt.1 hout)] at hnext
    exact absurd hnext (by decide)
  have hmem : k ∈ busy c := by
    have h2 : getFatEntry c k ≠ clusterFree := fun h0 => by
      rw [h0] at hnext
      exact absurd hnext (by decide)
    unfold inChain at hk
    rw [Bool.and_eq_true, decide_eq_true_eq, decide_eq_true_eq] at hk
    exact Finset.mem_filter.2 ⟨Finset.mem_Ico.2 hk, h2⟩
  refine Finset.card_lt_card ((Finset.ssubset_iff_of_subset fun x hx => ?_).2 ⟨k, hmem, fun hx => ?_⟩)
  · obtain ⟨h1, h2⟩ := Finset.mem_filter.1 hx
    have hne : x ≠ k := by
      rintro rfl
      rw [getFatEntry_setFat_self hin] at h2
      exact h2 rfl
    rw [getFatEntry_setFat_ne hne] at h2
    exact Finset.mem_filter.2 ⟨h1, h2⟩
  · have h2 := (Finset.mem_filter.1 hx).2
    rw [getFatEntry_setFat_self hin] at h2
    exact h2 rfl

theorem card_busy_le (c : Core) : (busy c).card ≤ 4086 := by
  refine (Finset.card_filter_le ..).trans ?_
  rw [Nat.card_Ico]
  exact Nat.le_refl _

/-! ## Clusters taken, and given back -/

structure Took (c c' : Core) (l : List Nat) : Prop where
  env : SameEnv c c'
  root : c'.rootDir = c.rootDir
  nodup : l.Nodup
  free : ∀ k ∈ l, k ∈ c.volume.freeClusters
  taken : ∀ k ∈ l, c'.volume.fat k ≠ clusterFree
  nibs : ∀ j, j / 3 ∉ l → nib c'.fatPrimary j = nib c.fatPrimary j
  data : ∀ k, k ∉ l → c'.volume.data k = c.volume.data k

/-- `c'` is `c` up to the contents of free clusters: what a call that failed leaves behind. -/
structure Unchanged (c c' : Core) : Prop where
  env : SameEnv c c'
  root : c'.rootDir = c.rootDir
  fat : c'.fatPrimary = c.fatPrimary
  data : ∀ k, k ∉ c.volume.freeClusters → c'.volume.data k = c.volume.data k

theorem Unchanged.refl (c : Core) : Unchanged c c := ⟨.refl c, rfl, rfl, fun _ _ => rfl⟩

namespace Took

variable {l : List Nat}

theorem refl (c : Core) : Took c c [] :=
  ⟨.refl c, rfl, List.nodup_nil, fun _ h => (nomatch h), fun _ h => (nomatch h), fun _ _ => rfl, fun _ _ => rfl⟩

theorem range (t : Took c c' l) {k : Nat} (hk : k ∈ l) : c.volume.InRange k := (mem_freeClusters.1 (t.free k hk)).1

theorem fat_ne (t : Took c c' l) {k : Nat} (hk : k ∉ l) : c'.volume.fat k = c.volume.fat k :=
  fat_congr t.env.fs fun j hj => t.nibs j (by rw [hj]; exact hk)

/-- The clusters still free. -/
theorem freeClusters (t : Took c c' l) : c'.volume.freeClusters = c.volume.freeClusters \ l.toFinset := by
  ext k
  rw [Finset.mem_sdiff, mem_freeClusters, mem_freeClusters, t.env.sizes.inRange, List.mem_toFinset]
  by_cases hk : k ∈ l
  · simp [t.taken k hk, hk]
  · simp [t.fat_ne hk, hk]

theorem card (t : Took c c' l) : c'.volume.freeClusters.card + l.length = c.volume.freeClusters.card := by
  have hsub : l.toFinset ⊆ c.volume.freeClusters := fun k hk => t.free k (List.mem_toFinset.1 hk)
  rw [t.freeClusters, Finset.card_sdiff_of_subset hsub, List.toFinset_card_of_nodup t.nodup]
  have := Finset.card_le_card hsub
  rw [List.toFinset_card_of_nodup t.nodup] at this
  omega

theorem length_le (t : Took c c' l) (hm : c.fs.Accepted) : l.length ≤ 4086 := by
  have h1 := t.card
  have h2 : c.volume.freeClusters.card ≤ c.fs.totalClusters + 2 := by
    unfold Volume.freeClusters
    exact (Finset.card_filter_le ..).trans (by rw [Finset.card_range]; exact Nat.le_refl _)
  have h3 := hm.clusters.2
  omega

/-- Anything may be done to the entry of a cluster taken, short of freeing it. -/
theorem setFat (t : Took c c' l) {k v : Nat} (hk : k ∈ l) (hv : v % 4096 ≠ 0) : Took c (c'.setFat k v) l := by
  have hr : c'.volume.InRange k := t.env.sizes.inRange.2 (t.range hk)
  refine ⟨t.env.trans (env_setFat c' k v), t.root, t.nodup, t.free, fun x hx => ?_, fun j hj => ?_, t.data⟩
  · rw [fat_setFat hr]
    split
    · exact hv
    · exact t.taken x hx
  · rw [nib_setFat fun hjk => hj (hjk ▸ hk)]
    exact t.nibs j hj

/-- And to its contents. -/
theorem putPart (t : Took c c' l) (hm : c.fs.Accepted) {k m : Nat} (hk : k ∈ l) (b : Buf)
    (hle : m ≤ c.fs.sectorsPerCluster) : Took c (c'.putPart k b m) l := by
  have hr : c'.volume.InRange k := t.env.sizes.inRange.2 (t.range hk)
  refine ⟨t.env.trans (env_putPart c' k b m), t.root, t.nodup, t.free, t.taken, t.nibs, fun x hx => ?_⟩
  rw [data_putPart_ne (t.env.accepted hm) hr (by rw [t.env.fs]; exact hle) fun hxk : x = k => hx (hxk ▸ hk)]
  exact t.data x hx

theorem putCluster (t : Took c c' l) (hm : c.fs.Accepted) {k : Nat} (hk : k ∈ l) (b : Buf) :
    Took c (c'.putCluster k b) l :=
  t.putPart hm hk b (by rw [t.env.fs])

/-- Taking one cluster more. -/
theorem mark (t : Took c c' l) {k : Nat} (hk : k ∈ c'.volume.freeClusters) :
    Took c (c'.setFat k clusterEoc) (l ++ [k]) := by
  have hkl : k ∈ c.volume.freeClusters ∧ k ∉ l := by
    rw [t.freeClusters, Finset.mem_sdiff, List.mem_toFinset] at hk
    exact hk
  have hr : c'.volume.InRange k := (mem_freeClusters.1 hk).1
  refine ⟨t.env.trans (env_setFat c' k _), t.root, List.nodup_append.2 ⟨t.nodup, by simp, fun a ha b hb => ?_⟩,
    fun x hx => ?_,
    fun x hx => ?_, fun j hj => ?_, fun x hx => ?_⟩
  · rw [List.mem_singleton.1 hb]
    exact fun hab => hkl.2 (hab ▸ ha)
  · rcases List.mem_append.1 hx with hx | hx
    · exact t.free x hx
    · rw [List.mem_singleton.1 hx]
      exact hkl.1
  · rw [fat_setFat hr]
    split
    · decide
    · rename_i hne
      exact t.taken x ((List.mem_append.1 hx).resolve_right fun hx => hne (List.mem_singleton.1 hx))
  · rw [nib_setFat fun hjk => hj (by simp [hjk])]
    exact t.nibs j fun hm => hj (List.mem_append_left _ hm)
  · exact t.data x fun hm => hx (List.mem_append_left _ hm)

theorem alloc (t : Took c c' l) (hm : c.fs.Accepted) {k : Nat} (hk : k ∈ c'.volume.freeClusters) :
    Took c (c'.alloc k) (l ++ [k]) :=
  (t.mark hk).putCluster hm (List.mem_append_right _ (List.mem_singleton.2 rfl)) _

/-- Giving all of them back restores every byte of the FAT. -/
theorem freeAll (t : Took c c' l) : Unchanged c (c'.freeAll l) := by
  have hr : ∀ x ∈ l, c'.volume.InRange x := fun x hx => t.env.sizes.inRange.2 (t.range hx)
  have key : ∀ j, nib (c'.freeAll l).fatPrimary j = nib c.fatPrimary j := fun j => by
    by_cases hj : j / 3 ∈ l
    · refine nib_of_cell_eq ?_ rfl
      have hr' := t.range hj
      rw [← fat_eq_cell hr', ← fat_eq_cell ((env_freeAll c' l).sizes.inRange.2 (hr _ hj)), fat_freeAll_mem hr hj,
        (mem_freeClusters.1 (t.free _ hj)).2]
    · rw [nib_freeAll hj, t.nibs j hj]
  refine ⟨t.env.trans (env_freeAll c' l), (rootDir_freeAll c' l).trans t.root,
    funext fun i => byte_congr (key _) (key _), fun k hk => ?_⟩
  rw [data_freeAll]
  exact t.data k fun hm => hk (t.free k hm)

variable {P : Set Nat}

/-- A cluster of the volume in use is not among those taken. -/
theorem not_used (t : Took c c' l) (h : c.volume.WF P) {k : Nat} (hk : k ∈ l) : ¬ c.volume.Used k :=
  h.not_used_of_free (mem_freeClusters.1 (t.free k hk)).2

theorem agree (t : Took c c' l) (h : c.volume.WF P) : Volume.Agree c.volume c'.volume :=
  ⟨t.env.sizes, t.env.root t.root, fun _ hu => t.fat_ne fun hk => t.not_used h hk hu,
    fun _ hu => t.data _ fun hk => t.not_used h hk hu⟩

theorem wf (t : Took c c' l) (h : c.volume.WF P) : c'.volume.WF (P ∪ {k | k ∈ l}) := by
  refine (t.agree h).wf h (fun k hk hu => ?_) fun k hk h1 h2 => ?_
  · rcases hk with hk | hk
    · exact h.pending k hk hu
    · exact t.not_used h hk hu
  · by_cases hkl : k ∈ l
    · exact .inr (.inr hkl)
    · rw [t.fat_ne hkl] at h1 h2
      exact (h.noLost k hk h1 h2).imp id .inl

end Took

namespace Unchanged

variable {P : Set Nat}

theorem agree (u : Unchanged c c') (h : c.volume.WF P) : Volume.Agree c.volume c'.volume :=
  ⟨u.env.sizes, u.env.root u.root, fun k _ => congrFun (u.env.fat u.fat) k, fun k hu => u.data k fun hk =>
    h.not_used_of_free (mem_freeClusters.1 hk).2 hu⟩

theorem wf (u : Unchanged c c') (h : c.volume.WF P) : c'.volume.WF P :=
  (u.agree h).wf h h.pending fun k hk h1 h2 => by
    rw [u.env.fat u.fat] at h1 h2
    exact h.noLost k hk h1 h2

end Unchanged

end

end AltoniumOS.Fat12

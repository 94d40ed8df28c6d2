/-
Storing an entry in a directory: in the slot of its name, in the first free slot, or in a cluster the
directory is grown by. On the volume it is one edit, or nothing at all when there is no room.
-/
import AltoniumOS.Refine.Write

namespace AltoniumOS.Fat12

open AltoniumOS.Lib

/-- The first free slot of a directory. -/
def Volume.freeSlot (V : Volume) (d : Nat) : Option Loc :=
  match scan (fun p => freeVerdict (V.slot p)) (V.locs d) with
  | .hit p => some p
  | _ => none

namespace Volume

variable {V : Volume} {P : Set Nat}

/-- The free slot found is behind live slots only. -/
theorem freeSlot_some {d : Nat} {p : Loc} (h : V.freeSlot d = some p) :
    p ∈ V.locs d ∧ ¬ (V.slot p).Live ∧ ∃ pre post, V.locs d = pre ++ p :: post ∧ ∀ p' ∈ pre, (V.slot p').Live := by
  unfold freeSlot at h
  split at h
  · rename_i p' hs
    cases h
    obtain ⟨h1, h2⟩ := scan_hit_mem hs
    obtain ⟨pre, post, h3, h4⟩ := scan_hit_split hs
    exact ⟨h1, freeVerdict_hit.1 h2, pre, post, h3, fun p' hp => freeVerdict_skip.1 (h4 p' hp)⟩
  · cases h

/-- Without a free slot every slot is live. -/
theorem freeSlot_none {d : Nat} (h : V.freeSlot d = none) : ∀ p ∈ V.locs d, (V.slot p).Live := by
  unfold freeSlot at h
  intro p hp
  cases hs : scan (fun p => freeVerdict (V.slot p)) (V.locs d) with
  | hit p' => rw [hs] at h; cases h
  | stopped => exact absurd hs (scan_ne_stopped fun p => freeVerdict_ne_stop _)
  | ranOff => exact freeVerdict_skip.1 (scan_ranOff_iff.1 hs p hp)

/-- A live slot comes before every slot never used. -/
theorem Tidy.before {d : Nat} (t : V.Tidy d) {p : Loc} (hl : (V.slot p).name.first ≠ nameEnd) :
    (V.locs d).Pairwise fun a b => b = p → (V.slot a).name.first ≠ nameEnd :=
  t.zeros.imp fun {_ b} hab (hbp : b = p) h0 => hl (hbp ▸ hab h0)

/-- And the first free slot has only live slots before it. -/
theorem before_free {d : Nat} (hnd : (V.locs d).Nodup) {p : Loc} (hp : V.freeSlot d = some p) :
    (V.locs d).Pairwise fun a b => b = p → (V.slot a).name.first ≠ nameEnd := by
  obtain ⟨-, -, pre, post, hsplit, hpre⟩ := freeSlot_some hp
  exact pairwise_before hsplit hnd fun p' hp' => ((V.slot p').live_iff.1 (hpre p' hp')).1

/-- A slot that is not live is no dot slot. -/
theorem WF.not_dotLoc (h : V.WF P) {d q : Nat} (hd : V.IsDir d q) {p : Loc}
    (hl : ¬ (V.slot p).Live) : ¬ DotLoc d p := by
  rintro ⟨h0, ho, hi⟩
  obtain ⟨o, i⟩ := p
  obtain rfl : o = d := ho
  have hdots := (h.dirOk o q hd).dots h0
  refine hl ((RawDirEntry.live_iff _).2 ?_)
  rcases (by have hi : i < 2 := hi; omega : i = 0 ∨ i = 1) with rfl | rfl
  · rw [hdots.dotName]; decide
  · rw [hdots.dotDotName]; decide

/-- An entry that may be stored under the name `n` in the directory `d`. -/
structure NewEntry (V : Volume) (P : Set Nat) (d : Nat) (n : ShortName) (e : RawDirEntry) : Prop where
  live : e.Live
  name : e.name = n
  label : e.attr &&& attrVolumeId = 0
  file : e.isDirectory = false → V.FileChain e
  dir : e.isDirectory = true → V.Fresh e.cluster d
  pending : ∀ k ∈ V.chain e.cluster, k ∈ P

/-- Storing it over the old entry of its name. -/
theorem NewEntry.put_over (h : V.WF P) {d q : Nat} (hd : V.IsDir d q) {n : ShortName} (hn : n.Proper)
    {e : RawDirEntry} (ne : V.NewEntry P d n e) {p : Loc} (hp : V.lookup d n = some p)
    (hi : (V.slot p).isDirectory = false) : V.Put P d p e := by
  obtain ⟨h1, h2, h3⟩ := lookup_some hp
  refine ⟨h1, (h.lookup_entryAt ⟨q, hd⟩ hn hp).notDot, fun _ => hi, ?_,
    (h.tidy hd).before ((V.slot p).live_iff.1 h2).1,
    fun _ p' hp' hne hl hname => hne ?_, fun _ => ne.label, fun _ => ne.file, fun _ => ne.dir, fun _ => ne.pending⟩
  · exact (e.live_iff.1 ne.live).1
  · have := (h.lookup_iff ⟨q, hd⟩).2 ⟨hp', hl, hname.trans ne.name⟩
    rw [hp] at this
    exact (Option.some.inj this).symm

/-- Storing it in a slot that is not live. -/
theorem NewEntry.put_free (h : V.WF P) {d q : Nat} (hd : V.IsDir d q) {n : ShortName} {e : RawDirEntry}
    (ne : V.NewEntry P d n e) (hnone : V.lookup d n = none) {p : Loc} (hp : p ∈ V.locs d) (hl : ¬ (V.slot p).Live)
    (hbefore : (V.locs d).Pairwise fun a b => b = p → (V.slot a).name.first ≠ nameEnd) : V.Put P d p e :=
  ⟨hp, h.not_dotLoc hd hl, fun hc => absurd hc hl, (e.live_iff.1 ne.live).1, hbefore,
    fun _ p' hp' _ hl' hname => (h.lookup_none ⟨q, hd⟩).1 hnone p' hp' hl' (hname.trans ne.name),
    fun _ => ne.label, fun _ => ne.file, fun _ => ne.dir, fun _ => ne.pending⟩

end Volume

section

variable {c c' : Core} {P : Set Nat}

theorem isSlot_of_mem (h : c.volume.WF P) {d q : Nat} (hd : c.volume.IsDir d q) {p : Loc}
    (hp : p ∈ c.volume.locs d) : c.IsSlot p := (h.walkable ⟨q, hd⟩).isSlot hp

theorem env_putEntry (c : Core) (p : Loc) (e : RawDirEntry) : SameEnv c (c.putEntry p e) := by
  unfold Core.putEntry
  split
  · exact ⟨rfl, rfl, rfl, rfl, rfl⟩
  · exact env_putCluster ..

/-! ## Storing a slot -/

/-- `c` after the first `m` sectors of the cluster of `p` were written back, with `e` in the slot. -/
def Core.putEntryPart (c : Core) (p : Loc) (e : RawDirEntry) (m : Nat) : Core :=
  c.putPart p.1 ((c.clusterBytes p.1).blit (dirEntrySize * p.2) e.bytes dirEntrySize) m

theorem env_putEntryPart (c : Core) (p : Loc) (e : RawDirEntry) (m : Nat) : SameEnv c (c.putEntryPart p e m) :=
  env_putPart ..

section

variable {p : Loc} {f : Nat → Option Nat}

/-- The slot of an entry is its own if its sector, of 16 slots, was written. -/
theorem slot_putEntryPart (hm : c.fs.Accepted) (hp : 2 ≤ p.1) (hlt : p.1 < c.fs.totalClusters + 2)
    (hi : p.2 < c.fs.entriesPerCluster) (e : RawDirEntry) {m : Nat} (hle : m ≤ c.fs.sectorsPerCluster) :
    (c.putEntryPart p e m).volume.slot p = if p.2 / 16 < m then e else c.volume.slot p := by
  have hs : c.IsSlot p := .inr ⟨hp, hlt, hi⟩
  have hs' : (c.putEntryPart p e m).IsSlot p := hs
  have hepc := hm.entriesPerCluster
  have hspc := hm.spc.2
  unfold maxSectorsPerCluster at hspc
  have hin : ∀ c : Core, c.slotIn p = slotAt (c.clusterBytes p.1) p.2 := fun c => if_neg (by omega)
  rw [slot_eq hm hs, slot_eq (c := c.putEntryPart p e m) hm hs', hin, hin]
  split
  · refine decodeEntry_bytes fun x hx => ?_
    refine (sectorBytes_putSectors ?_ (by omega)).trans (Buf.blit_in hx)
    unfold dirEntrySize sectorSize
    omega
  · refine decodeEntry_congr fun x hx => sectorBytes_putSectors_out ?_ ?_
    · unfold dirEntrySize sectorSize
      omega
    · unfold dirEntrySize
      omega

/-- `fat12_write_entry` in the root table, which is cached. -/
theorem runs_writeEntry_root (h0 : p.1 = 0) (hi : p.2 < c.fs.rootEntryCount) (e : RawDirEntry)
    (f : Nat → Option Nat) : Runs (writeEntry p e) c f .ok (c.putEntry p e) f := by
  unfold writeEntry Core.putEntry
  apply runs_core
  rw [if_pos h0, if_pos h0, if_neg (by omega)]
  exact Yields.bind (runs_modifyCore _ c f) (Yields.pure _)

/-- `fat12_write_entry` in a cluster: it is read and written back, in whole or in part. -/
theorem runs_writeEntry_sub (hm : c.fs.Accepted) (hp : 2 ≤ p.1) (hi : p.2 < c.fs.entriesPerCluster)
    (e : RawDirEntry) (h0 : f 0 = none) :
    Runs (writeEntry p e) c f (if (f 1).isNone then .ok else .errIo)
      (c.putEntryPart p e (transferred (f 1) c.fs.sectorsPerCluster)) (later f 2) := by
  unfold writeEntry
  apply runs_core
  rw [if_neg (by omega)]
  refine runs_readCluster_ok hm.spc_ne h0 fun b hb => ?_
  dsimp only
  rw [if_neg (by simp), if_neg (by omega)]
  have hbuf : ∀ x < sectorSize * c.fs.sectorsPerCluster, b.blit (dirEntrySize * p.2) e.bytes dirEntrySize x =
      (c.clusterBytes p.1).blit (dirEntrySize * p.2) e.bytes dirEntrySize x := fun x hx => by
    unfold Buf.blit
    split
    · rfl
    · exact hb x hx
  have hwrite := @runs_writeCluster p.1 _ _ c (later f 1) hm.spc_ne hbuf
  rw [later_later] at hwrite
  refine Yields.bind (runs_setClusterBuffer _ c (later f 1)) (Yields.bind hwrite ?_)
  change Runs (if (f 1).isNone = true then pure Code.ok else pure Code.errIo) _ _ _ _ _
  split
  · exact Yields.pure _
  · exact Yields.pure _

/-- `fat12_write_entry` in a cluster that cannot be read. -/
theorem runs_writeEntry_unread (hm : c.fs.Accepted) (hp : 2 ≤ p.1) (e : RawDirEntry) (h0 : f 0 ≠ none) :
    Runs (writeEntry p e) c f .errIo c (later f 1) := by
  unfold writeEntry
  apply runs_core
  rw [if_neg (by omega)]
  exact runs_readCluster_fail hm.spc_ne h0 fun b => Yields.pure _

/-- `fat12_write_entry` -/
theorem gives_writeEntry (hm : c.fs.Accepted) (hp : c.IsSlot p) (e : RawDirEntry) :
    Gives (writeEntry p e) c .ok (c.putEntry p e) := by
  refine Runs.gives fun f hf => ?_
  rcases hp with ⟨h0, hi⟩ | ⟨h2, hlt, hi⟩
  · exact ⟨0, runs_writeEntry_root h0 hi e f⟩
  · have h := runs_writeEntry_sub hm h2 hi e (hf 0)
    rw [hf 1] at h
    refine ⟨2, ?_⟩
    unfold Core.putEntry
    rw [if_neg (by omega)]
    exact h

end

/-! ## The search for a free slot -/

/-- How many clusters a search for a free slot in the directory `d` reads. -/
def Core.freeReads (c : Core) (d : Nat) : Nat := if d = 0 then 0 else c.searchReads freeVerdict (c.volume.chain d)

theorem looks_findFree_some (hm : c.fs.Accepted) {fuel : Nat} (hf : 4096 ≤ fuel) {d : Nat}
    (hd : c.volume.Walkable d) {p : Loc} (hp : c.volume.freeSlot d = some p) :
    Looks (findFreeEntry fuel d) c (c.freeReads d) (.ok p) (.error .errIo) := by
  unfold Volume.freeSlot at hp
  rw [← hd.scan hm] at hp
  unfold findFreeEntry Core.freeReads
  apply Looks.core
  by_cases h0 : d = 0
  · subst h0
    have hscan : scan (fun p => freeVerdict (c.slotIn p)) (c.volume.locs 0) = _ := scan_root freeVerdict
    rw [hscan] at hp
    rw [if_pos rfl, if_pos rfl]
    cases hs : scan (fun i => freeVerdict (slotAt c.rootDir i)) (List.range c.fs.rootEntryCount) with
    | hit i =>
      rw [hs] at hp
      cases hp
      exact .pure _ _
    | stopped => rw [hs] at hp; cases hp
    | ranOff => rw [hs] at hp; cases hp
  · have hc := hd.resolve_left h0
    have hloop := looks_freeLoop hm 0 (hc.links hm) (length_chain_lt hm hf hc)
    rw [← Volume.locs_of_ne h0] at hloop
    rw [if_neg h0, if_neg h0, ← Nat.add_zero (c.searchReads _ _)]
    refine hloop.bind ?_ fun _ => Yields.pure _
    cases hs : scan (fun p => freeVerdict (c.slotIn p)) (c.volume.locs d) with
    | hit p' =>
      rw [hs] at hp
      cases hp
      exact .pure _ _
    | stopped => rw [hs] at hp; cases hp
    | ranOff => rw [hs] at hp; cases hp

theorem looks_findFree_root (hm : c.fs.Accepted) (hnone : c.volume.freeSlot 0 = none) (fuel : Nat) :
    Looks (findFreeEntry fuel 0) c 0 (.error .errDirFull) (.error .errIo) := by
  unfold Volume.freeSlot at hnone
  rw [← Volume.Walkable.scan hm (.inl rfl)] at hnone
  unfold findFreeEntry
  apply Looks.core
  have hscan : scan (fun p => freeVerdict (c.slotIn p)) (c.volume.locs 0) = _ := scan_root freeVerdict
  rw [hscan] at hnone
  rw [if_pos rfl]
  cases hs : scan (fun i => freeVerdict (slotAt c.rootDir i)) (List.range c.fs.rootEntryCount) with
  | hit i => rw [hs] at hnone; cases hnone
  | stopped => exact .pure _ _
  | ranOff => exact .pure _ _

/-- In a full subdirectory the search ends at the last cluster. -/
theorem looks_freeLoop_full (hm : c.fs.Accepted) {fuel : Nat} (hf : 4096 ≤ fuel) {d : Nat} (h0 : d ≠ 0)
    {l : List Nat} {x : Nat} (hd : c.volume.Chain d (l ++ [x])) (hnone : c.volume.freeSlot d = none) :
    Looks (loop freeRound fuel (d, 0)) c (c.freeReads d) (.inr x) (.inl (.error .errIo)) := by
  have hwalk : c.volume.Walkable d := .inr (by rw [hd.eq hm.geom]; exact hd)
  have hloop := looks_freeLoop hm 0 (hd.links hm) (length_chain_lt hm hf hd)
  rw [← hd.eq hm.geom, ← Volume.locs_of_ne h0, hd.eq hm.geom, hwalk.scan hm] at hloop
  have hran : scan (fun p => freeVerdict (c.volume.slot p)) (c.volume.locs d) = .ranOff :=
    scan_ranOff_iff.2 fun p hp => freeVerdict_skip.2 (Volume.freeSlot_none hnone p hp)
  rw [hran] at hloop
  unfold Core.freeReads
  rw [if_neg h0, hd.eq hm.geom]
  simpa using hloop

/-- In a full subdirectory the search ends at the last cluster and takes a new one. -/
theorem gives_findFree_sub (hm : c.fs.Accepted) {fuel : Nat} (hf : 4096 ≤ fuel) {d : Nat} (h0 : d ≠ 0)
    {l : List Nat} {x : Nat} (hd : c.volume.Chain d (l ++ [x])) (hnone : c.volume.freeSlot d = none) :
    Gives (findFreeEntry fuel d) c
      (match firstFree c with
        | none => .error .errNoFreeCluster
        | some z => .ok (z, 0))
      (match firstFree c with
        | none => c
        | some z => c.grow x z) := by
  have hx := (hd.range x (by simp)).1
  have hlast : Gives (loop freeRound fuel (d, 0)) c (.inr x) c := (looks_freeLoop_full hm hf h0 hd hnone).gives
  unfold findFreeEntry
  refine gives_core ?_
  rw [if_neg h0]
  refine hlast.bind ?_
  dsimp only
  cases hk : firstFree c with
  | none => exact (gives_allocateCluster_none hk).bind (.pure _)
  | some z =>
    have hz := (mem_freeClusters.1 (firstFree_some hk)).1.1
    refine (gives_allocateCluster_some hm hk).bind ?_
    have hlink : Gives (linkCluster x z) (c.alloc z) () (c.grow x z) := by
      unfold linkCluster Core.grow Core.link
      rw [if_pos (by omega), if_pos hx]
      exact (gives_setFatEntry _ _ _).bind (gives_setFatEntry _ _ _)
    rw [if_neg (by omega)]
    exact hlink.bind (.pure _)

/-- Growing a directory takes one cluster. -/
theorem freeClusters_grow (hm : c.fs.Accepted) {x z : Nat} (hxr : c.volume.InRange x) (hx : 2 ≤ c.volume.fat x)
    (hz : z ∈ c.volume.freeClusters) : (c.grow x z).volume.freeClusters = c.volume.freeClusters.erase z := by
  have hzr := (mem_freeClusters.1 hz).1
  ext k
  rw [Finset.mem_erase, mem_freeClusters, mem_freeClusters, (env_grow c x z).sizes.inRange,
    fat_grow hm hzr (.inr hxr)]
  by_cases hkz : k = z
  · simp [hkz, clusterEoc, clusterFree]
  · rw [if_neg hkz]
    by_cases hkx : k = x
    · have h2 := hzr.1
      rw [if_pos ⟨hkx, hxr.1⟩, hkx]
      unfold clusterFree
      constructor
      · rintro ⟨-, h3⟩; omega
      · rintro ⟨-, -, h3⟩; omega
    · rw [if_neg fun hh : k = x ∧ 2 ≤ x => hkx hh.1]
      simp [hkz]

/-- Growing a full directory by a free cluster, seen on the volume. -/
theorem grown_grow (hm : c.fs.Accepted) (h : c.volume.WF P) {d q : Nat} (hd : c.volume.IsDir d q) (h0 : d ≠ 0)
    {l : List Nat} {x z : Nat} (hc : c.volume.Chain d (l ++ [x])) (hnone : c.volume.freeSlot d = none)
    (hz : z ∈ c.volume.freeClusters) :
    Took c (c.alloc z) [z] ∧ Volume.Grown (c.alloc z).volume (c.grow x z).volume (P ∪ {k | k ∈ [z]}) d x z := by
  have hzr := (mem_freeClusters.1 hz).1
  have took : Took c (c.alloc z) [z] := (Took.refl c).alloc hm hz
  have ha := took.agree h
  have hxr := hc.range x (by simp)
  have hxz : x ≠ z := fun hxz => by
    have := hc.fat_ge (x := x) (by simp)
    rw [hxz, (mem_freeClusters.1 hz).2] at this
    unfold clusterFree at this
    omega
  have hlocs := ha.locs h hd
  have hfat := fat_grow hm hzr (.inr hxr)
  refine ⟨took, ⟨?_, ?_, data_grow c x z, h0, ⟨l, ?_⟩, ?_, ?_, fun k hkx hkz => ?_, took.env.sizes.inRange.2 hzr,
    .inr (by simp), fun i hi => ?_, fun p hp => ?_⟩⟩
  · exact ((env_link (c.alloc z) x z).trans (env_setFat ..)).sizes
  · refine ((env_link (c.alloc z) x z).trans (env_setFat ..)).root ?_
    show ((c.alloc z).link x z).rootDir = (c.alloc z).rootDir
    unfold Core.link
    split <;> rfl
  · refine took.env.sizes.chain hc fun k hk => took.fat_ne fun hkz => ?_
    have := hc.fat_ge hk
    rw [List.mem_singleton.1 hkz, (mem_freeClusters.1 hz).2] at this
    unfold clusterFree at this
    omega
  · rw [hfat, if_neg hxz, if_pos ⟨rfl, hxr.1⟩]
  · rw [hfat, if_pos rfl]
  · rw [hfat, if_neg hkz, if_neg fun hh : k = x ∧ 2 ≤ x => hkx hh.1, fat_alloc hzr, if_neg hkz]
  · unfold Volume.slot
    rw [if_neg (show z ≠ 0 by have := hzr.1; omega), data_alloc hm hzr, if_pos rfl]
    rfl
  · rw [hlocs] at hp
    rw [ha.slot h hd hp]
    exact ((RawDirEntry.live_iff _).1 (Volume.freeSlot_none hnone p hp)).1

/-! ## Storing the entry -/

/-- `c'` is `c` with the entry `n` of the directory `d` changed from `o` to `e`. -/
structure Placed (c c' : Core) (P : Set Nat) (d : Nat) (n : ShortName) (o e : RawDirEntry) : Prop where
  env : SameEnv c c'
  wf : c'.volume.WF {k | (k ∈ P ∧ k ∉ c.volume.chain e.cluster) ∨ (o.Live ∧ k ∈ c.volume.chain o.cluster)}
  edit : Volume.Edit c.volume c'.volume d n o e
  old : (o.Live ∧ c.volume.find d n = some o) ∨ (¬ o.Live ∧ c.volume.find d n = none)
  fat : ∀ k, k ∈ P ∨ (o.Live ∧ k ∈ c.volume.chain o.cluster) → c'.volume.fat k = c.volume.fat k
  data : ∀ k ∈ P, c'.volume.data k = c.volume.data k
  free : (c'.volume.freeClusters = c.volume.freeClusters ∧ (o.Live ∨ c.volume.freeSlot d ≠ none)) ∨
    ∃ z ∈ c.volume.freeClusters, c'.volume.freeClusters = c.volume.freeClusters.erase z ∧ d ≠ 0 ∧
      c.volume.find d n = none ∧ c.volume.freeSlot d = none

theorem find_none_iff {d : Nat} {n : ShortName} : c.volume.find d n = none ↔ c.volume.lookup d n = none := by
  rw [Volume.find_eq, Option.map_eq_none_iff]

theorem freeClusters_congr (he : SameEnv c c') (hf : c'.volume.fat = c.volume.fat) :
    c'.volume.freeClusters = c.volume.freeClusters := by
  unfold Volume.freeClusters
  rw [hf, he.sizes.totalClusters]

/-- The slot of a directory is not in a pending cluster. -/
theorem slot_not_pending (h : c.volume.WF P) {d q : Nat} (hd : c.volume.IsDir d q) {p : Loc}
    (hp : p ∈ c.volume.locs d) {k : Nat} (hk : k ∈ P) (hk2 : 2 ≤ k) : k ≠ p.1 := by
  rintro rfl
  rcases h.loc_owner hd hp with ⟨-, h1, -⟩ | ⟨h0, h1, -⟩
  · omega
  · exact h.pending _ hk (h.dir_used hd h0 h1)

/-- Storing an entry in a slot of the directory as it is. -/
theorem placed_put (hm : c.fs.Accepted) (h : c.volume.WF P) (hP : ∀ k ∈ P, 2 ≤ k) {d q : Nat}
    (hd : c.volume.IsDir d q) {n : ShortName} {e : RawDirEntry} (ne : c.volume.NewEntry P d n e) {p : Loc}
    (u : c.volume.Put P d p e)
    (ho : ((c.volume.slot p).Live ∧ c.volume.find d n = some (c.volume.slot p)) ∨
      (¬ (c.volume.slot p).Live ∧ c.volume.find d n = none)) :
    Placed c (c.putEntry p e) P d n (c.volume.slot p) e := by
  have hv := volume_putEntry hm e (isSlot_of_mem h hd u.mem)
  refine ⟨env_putEntry c p e, ?_, ?_, ho, fun k _ => by rw [hv, Volume.putSlot_fat], fun k hk => ?_, .inl ⟨?_, ?_⟩⟩
  · rw [hv]
    have hset : Volume.Put.rest c.volume P p e =
        {k | (k ∈ P ∧ k ∉ c.volume.chain e.cluster) ∨ ((c.volume.slot p).Live ∧
          k ∈ c.volume.chain (c.volume.slot p).cluster)} := by
      unfold Volume.Put.rest
      ext k
      have : e.Live := ne.live
      simp [this, Volume.owned]
    rw [← hset]
    exact u.wf h hd
  · rw [hv]
    refine Volume.Edit.of_put h hd u (fun hl => ?_) (fun _ => ne.name) fun e' he' => ?_
    · rcases ho with ⟨-, ho⟩ | ⟨ho, -⟩
      · exact ((h.find_iff ⟨q, hd⟩).1 ho).2.2
      · exact absurd hl ho
    · rcases ho with ⟨hl, ho⟩ | ⟨-, ho⟩
      · rw [ho] at he'
        cases he'
        exact ⟨rfl, u.old hl⟩
      · rw [ho] at he'
        cases he'
  · rw [hv]
    exact Volume.putSlot_data_ne _ e (slot_not_pending h hd u.mem hk (hP k hk))
  · exact freeClusters_congr (env_putEntry c p e) (by rw [hv, Volume.putSlot_fat])
  · by_cases hl : (c.volume.slot p).Live
    · exact .inl hl
    · exact .inr fun hs => hl (Volume.freeSlot_none hs p u.mem)

theorem NewEntry.agree (h : c.volume.WF P) {d : Nat} {n : ShortName} {e : RawDirEntry} {W : Volume} {Q : Set Nat}
    (ne : c.volume.NewEntry P d n e) (hz : Volume.SameSizes c.volume W) (hf : ∀ k ∈ P, W.fat k = c.volume.fat k)
    (hdata : ∀ k ∈ P, W.data k = c.volume.data k) (hPQ : P ⊆ Q) : W.NewEntry Q d n e := by
  have hchain : W.chain e.cluster = c.volume.chain e.cluster :=
    Volume.chain_congr fun k hk => hf k (ne.pending k hk)
  refine ⟨ne.live, ne.name, ne.label, fun hi => ?_, fun hi => ?_, fun k hk => hPQ (ne.pending k (hchain ▸ hk))⟩
  · rcases ne.file hi with hc | ⟨l, hl, hlen⟩
    · exact .inl hc
    · refine .inr ⟨l, hz.chain hl fun k hk => hf k (ne.pending k ?_), by rw [hlen, hz.clustersFor]⟩
      rwa [hl.eq h.geom]
  · have hfr := ne.dir hi
    have hmem : e.cluster ∈ P := ne.pending _ (by rw [hfr.chain.eq h.geom]; simp)
    have hslot : ∀ i, W.slot (e.cluster, i) = c.volume.slot (e.cluster, i) := fun i => by
      have := hfr.range.1
      unfold Volume.slot
      rw [if_neg (show e.cluster ≠ 0 by omega), if_neg (show e.cluster ≠ 0 by omega), hdata _ hmem]
    refine ⟨hz.inRange.2 hfr.range, by
      rw [hf _ hmem]; exact hfr.stop, hfr.dots.congr (hslot 0) (hslot 1), fun i hi => ?_,
      fun i hi hi2 => ?_⟩
    · rw [hslot]; exact hfr.label i hi
    · rw [hslot]; rw [hz.perCluster] at hi; exact hfr.blank i hi hi2

/-- Storing an entry in a full subdirectory, grown by a free cluster. -/
theorem placed_grow (hm : c.fs.Accepted) (h : c.volume.WF P) (hP : ∀ k ∈ P, 2 ≤ k ∧ k ∉ c.volume.freeClusters)
    {d q : Nat} (hd : c.volume.IsDir d q) (h0 : d ≠ 0) {n : ShortName} {e : RawDirEntry}
    (ne : c.volume.NewEntry P d n e) (hnone : c.volume.find d n = none) (hfull : c.volume.freeSlot d = none)
    {l : List Nat} {x z : Nat} (hc : c.volume.Chain d (l ++ [x])) (hz : z ∈ c.volume.freeClusters) :
    (c.grow x z).IsSlot (z, 0) ∧ ∃ o, Placed c ((c.grow x z).putEntry (z, 0) e) P d n o e := by
  obtain ⟨took, g⟩ := grown_grow hm h hd h0 hc hfull hz
  have hzr := (mem_freeClusters.1 hz).1
  have ha := took.agree h
  have hwa := took.wf h
  have hda := (ha.isDir h).2 hd
  have hwg := g.wf hwa hda
  have hdg := (g.isDir hwa hda).2 hda
  have henv := env_grow c x z
  have hmg := henv.accepted hm
  have hxr := hc.range x (by simp)
  have hPz : ∀ k ∈ P, k ≠ z := fun k hk hkz => (hP k hk).2 (hkz ▸ hz)
  have hPx : ∀ k ∈ P, k ≠ x := fun k hk hkx => h.pending k hk (h.dir_used hd h0 (by rw [hc.eq h.geom, hkx]; simp))
  have hfat := fat_grow hm hzr (.inr hxr)
  have hfatP : ∀ k, k ≠ z → k ≠ x → (c.grow x z).volume.fat k = c.volume.fat k := fun k h1 h2 => by
    rw [hfat, if_neg h1, if_neg fun hh : k = x ∧ 2 ≤ x => h2 hh.1]
  have hdataP : ∀ k ∈ P, (c.grow x z).volume.data k = c.volume.data k := fun k hk => by
    rw [data_grow, data_alloc hm hzr, if_neg (hPz k hk)]
  -- the entry may be stored in the grown volume as it might in the old one
  have hset : (P ∪ {k | k ∈ [z]}) \ {z} = P := by
    ext k
    simp only [Set.mem_sdiff, Set.mem_union, Set.mem_ofPred_eq, List.mem_singleton, Set.mem_singleton_iff]
    exact ⟨fun hk => hk.1.resolve_right hk.2, fun hk => ⟨.inl hk, hPz k hk⟩⟩
  rw [hset] at hwg
  have ne' : (c.grow x z).volume.NewEntry P d n e :=
    NewEntry.agree h ne henv.sizes (fun k hk => hfatP k (hPz k hk) (hPx k hk)) hdataP (subset_refl P)
  have hslots : (c.grow x z).volume.slots d = c.volume.slots d ++ (List.range c.volume.perCluster).map fun i =>
      (c.alloc z).volume.slot (z, i) := by
    rw [g.slots_self hwa hda, ha.slots h hd, took.env.sizes.perCluster]
  have hblank : ∀ i < c.volume.perCluster, ((c.grow x z).volume.slot (z, i)).name.first = nameEnd := fun i hi => by
    rw [g.slot]
    exact g.blank i (by rw [took.env.sizes.perCluster]; exact hi)
  have hnone' : (c.grow x z).volume.find d n = none := by
    rw [hwg.find_none ⟨q, hdg⟩, hslots]
    intro s hs hl
    rcases List.mem_append.1 hs with hs | hs
    · exact (h.find_none ⟨q, hd⟩).1 hnone s hs hl
    · obtain ⟨i, hi, rfl⟩ := List.mem_map.1 hs
      exact absurd hl
        (Volume.not_live_of_end (g.blank i (by rw [took.env.sizes.perCluster]; exact List.mem_range.1 hi)))
  have hpc : 0 < c.volume.perCluster := by have := h.geom.perCluster_ge; omega
  have hlocs : (c.grow x z).volume.locs d = c.volume.locs d ++ (List.range c.volume.perCluster).map (z, ·) := by
    rw [g.locs_self hwa hda, ha.locs h hd, took.env.sizes.perCluster]
  have hmem : (z, 0) ∈ (c.grow x z).volume.locs d := by
    rw [hlocs]
    exact List.mem_append_right _ (List.mem_map.2 ⟨0, List.mem_range.2 hpc, rfl⟩)
  have hold : ¬ ((c.grow x z).volume.slot (z, 0)).Live := Volume.not_live_of_end (hblank 0 hpc)
  have hbefore : ((c.grow x z).volume.locs d).Pairwise fun a b => b = (z, 0) →
      ((c.grow x z).volume.slot a).name.first ≠ nameEnd := by
    have hfirst : ∀ p ∈ c.volume.locs d, ((c.grow x z).volume.slot p).name.first ≠ nameEnd := fun p hp => by
      rw [g.slot, ha.slot h hd hp]
      exact ((RawDirEntry.live_iff _).1 (Volume.freeSlot_none hfull p hp)).1
    rw [hlocs, List.pairwise_append]
    refine ⟨List.pairwise_of_forall_mem_list fun a ha _ _ _ => hfirst a ha, ?_, fun a ha _ _ _ => hfirst a ha⟩
    rw [List.pairwise_map]
    refine List.pairwise_lt_range.imp fun {i j} hij hj => ?_
    have : j = 0 := (Prod.mk.inj hj).2
    omega
  have u := ne'.put_free hwg hdg (find_none_iff.1 hnone') hmem hold hbefore
  have hpl := placed_put hmg hwg (fun k hk => (hP k hk).1) hdg ne' u (.inr ⟨hold, hnone'⟩)
  have hchain : (c.grow x z).volume.chain e.cluster = c.volume.chain e.cluster := Volume.chain_congr fun k hk =>
    hfatP k (hPz k (ne.pending k hk)) (hPx k (ne.pending k hk))
  refine ⟨isSlot_of_mem hwg hdg hmem, _, henv.trans hpl.env, ?_, ?_, .inr ⟨hold, hnone⟩, fun k hk => ?_, fun k hk =>
    ?_, .inr ⟨z, hz, ?_⟩⟩
  · have := hpl.wf
    rw [hchain] at this
    simpa [hold] using this
  · exact Volume.Edit.agree_left h ha hd (Volume.Edit.grown_left hwa hda g hpl.edit)
  · have hk := hk.resolve_right fun hk => hold hk.1
    rw [hpl.fat k (.inl hk), hfatP k (hPz k hk) (hPx k hk)]
  · rw [hpl.data k hk, hdataP k hk]
  · refine ⟨?_, h0, hnone, hfull⟩
    have hfree := freeClusters_grow hm hxr (hc.fat_ge (x := x) (by simp)) hz
    rcases hpl.free with ⟨h1, -⟩ | ⟨z', -, -, -, -, h2⟩
    · rw [h1, hfree]
    · exact absurd (Volume.freeSlot_none h2 _ hmem) hold

/-- `fat12_write_directory_entry`: the entry is stored, or there is no room and nothing changed. -/
theorem gives_writeDirectoryEntry (hm : c.fs.Accepted) (h : c.volume.WF P)
    (hP : ∀ k ∈ P, 2 ≤ k ∧ k ∉ c.volume.freeClusters) {fuel : Nat} (hf : 4096 ≤ fuel) {d q : Nat}
    (hd : c.volume.IsDir d q) {n : ShortName} (hn : n.Proper) {e : RawDirEntry} (ne : c.volume.NewEntry P d n e)
    (hold : ∀ o, c.volume.find d n = some o → o.isDirectory = false) :
    (∃ c' o, Gives (writeDirectoryEntry fuel d n e) c .ok c' ∧ Placed c c' P d n o e) ∨
    (Gives (writeDirectoryEntry fuel d n e) c .errDirFull c ∧ d = 0 ∧ c.volume.find d n = none ∧
      c.volume.freeSlot d = none) ∨
    (Gives (writeDirectoryEntry fuel d n e) c .errNoFreeCluster c ∧ d ≠ 0 ∧ c.volume.find d n = none ∧
      c.volume.freeSlot d = none ∧ c.volume.freeClusters = ∅) := by
  have hwalk := h.walkable ⟨q, hd⟩
  have hfind := gives_findEntry hm hf hwalk n
  unfold writeDirectoryEntry
  cases hp : c.volume.lookup d n with
  | some p =>
    rw [hp] at hfind
    have hfs : c.volume.find d n = some (c.volume.slot p) := by rw [Volume.find_eq, hp]; rfl
    have u := ne.put_over h hd hn hp (hold _ hfs)
    have hl := (Volume.lookup_some hp).2.1
    refine .inl ⟨c.putEntry p e, c.volume.slot p, hfind.bind ?_,
      placed_put hm h (fun k hk => (hP k hk).1) hd ne u (.inl ⟨hl, hfs⟩)⟩
    exact gives_writeEntry hm (isSlot_of_mem h hd u.mem) e
  | none =>
    rw [hp] at hfind
    have hfn := find_none_iff.2 hp
    cases hs : c.volume.freeSlot d with
    | some p =>
      obtain ⟨hmem, hl, -⟩ := Volume.freeSlot_some hs
      have u := ne.put_free h hd hp hmem hl (Volume.before_free (h.nodup_locs hd) hs)
      refine .inl ⟨c.putEntry p e, c.volume.slot p, hfind.bind ?_,
        placed_put hm h (fun k hk => (hP k hk).1) hd ne u (.inr ⟨hl, hfn⟩)⟩
      exact (looks_findFree_some hm hf hwalk hs).gives.bind (gives_writeEntry hm (isSlot_of_mem h hd u.mem) e)
    | none =>
      by_cases h0 : d = 0
      · subst h0
        exact .inr (.inl ⟨hfind.bind ((looks_findFree_root hm hs fuel).gives.bind (.pure _)), rfl, hfn, rfl⟩)
      · have hc := (h.dir_chain hd h0).1
        obtain ⟨l, x, hlx⟩ : ∃ l x, c.volume.chain d = l ++ [x] := ⟨_, _, (List.dropLast_append_getLast hc.ne).symm⟩
        rw [hlx] at hc
        have hfree := gives_findFree_sub hm hf h0 hc hs
        cases hk : firstFree c with
        | none =>
          rw [hk] at hfree
          exact .inr (.inr ⟨hfind.bind (hfree.bind (.pure _)), h0, hfn, rfl, firstFree_none hk⟩)
        | some z =>
          rw [hk] at hfree
          obtain ⟨hslot, o, hpl⟩ := placed_grow hm h hP hd h0 ne hfn hs hc (firstFree_some hk)
          exact .inl ⟨_, o, hfind.bind (hfree.bind (gives_writeEntry ((env_grow c x z).accepted hm) hslot e)), hpl⟩

end

end AltoniumOS.Fat12

/-
Deleting and creating on a disk that fails: at which call the change stops, and what it leaves behind then.
Both look their name up, and do so a second time before they store; between the two searches a deletion has
given the file's clusters back already, and a creation does not ask why the first one failed.
-/
import AltoniumOS.Refine.Failing

namespace AltoniumOS.Fat12

open AltoniumOS.Lib

/-- The path denotes the name `n` in the directory `d`, where the slot `p` has it. -/
structure Core.Denotes (c : Core) (path : List UInt8) (d : Nat) (n : ShortName) (p : Loc) : Prop where
  resolve : c.volume.resolve (c.start path).1 (c.start path).2 (components path) = .ok (d, n)
  lookup : c.volume.lookup d n = some p

section

variable {c c' : Core} {f f' : Nat → Option Nat} {fuel d q i : Nat} {n : ShortName} {p : Loc} {path : List UInt8}

theorem Core.Denotes.entryAt (x : c.Denotes path d n p) (h : c.volume.WF ∅) (hs : c.Settled) :
    ∃ q, c.volume.IsDir d q ∧ n.Proper ∧ c.volume.EntryAt d p := by
  obtain ⟨⟨q, hd⟩, hn⟩ := resolve_dir h hs x.resolve
  exact ⟨q, hd, hn, h.lookup_entryAt ⟨q, hd⟩ hn x.lookup⟩

theorem Core.Denotes.looks_resolve (x : c.Denotes path d n p) (hm : Mounted c) (h : c.volume.WF ∅) (hs : c.Settled)
    (hf : 4096 ≤ fuel) :
    Looks (resolveParentAndName fuel path) c (c.resolveReads path) (.ok (d, n)) (.error .errIo) := by
  have := Fat12.looks_resolve hm h hf hs path
  rwa [x.resolve] at this

theorem Core.Denotes.looks_find (x : c.Denotes path d n p) (hm : Mounted c) (h : c.volume.WF ∅) (hs : c.Settled)
    (hf : 4096 ≤ fuel) :
    Looks (findEntry fuel d n) c (c.lookupReads d n) (.ok (c.volume.slot p, p)) (.error .errIo) := by
  obtain ⟨q, hd, -⟩ := x.entryAt h hs
  have := looks_findEntry hm.accepted hf (h.walkable ⟨q, hd⟩) n
  rwa [x.lookup] at this

/-! ## Deleting a file -/

/-- A deletion that cannot read its way to the file stops there. -/
theorem runs_delete_unread (hm : Mounted c) (h : c.volume.WF ∅) (hs : c.Settled) (hf : 4096 ≤ fuel)
    (x : c.Denotes path d n p) (hi : i < c.resolveReads path + c.lookupReads d n) (hfail : FailsAt f i) :
    Runs (deleteFileBody fuel path) c f .errIo c (later f (i + 1)) := by
  have hres := x.looks_resolve hm h hs hf
  unfold deleteFileBody
  apply runs_core
  rw [hm.ready, if_neg (by decide)]
  by_cases hlt : i < c.resolveReads path
  · exact Yields.bind (hres.fails f i hlt hfail) (Yields.pure _)
  · have hle : c.resolveReads path ≤ i := by omega
    have hfind := (x.looks_find hm h hs hf).fails _ (i - c.resolveReads path) (by omega) (hfail.later hle)
    rw [later_later, show i - c.resolveReads path + 1 + c.resolveReads path = i + 1 by omega] at hfind
    exact Yields.bind (hres.finds f fun k hk => hfail.1 k (by omega)) (Yields.bind hfind (Yields.pure _))

/-- One that finds the file gives its chain back, and then marks the slot. -/
theorem runs_delete_found (hm : Mounted c) (h : c.volume.WF ∅) (hs : c.Settled) (hf : 4096 ≤ fuel)
    (x : c.Denotes path d n p) (hfile : (c.volume.slot p).isDirectory = false)
    (hok : ∀ k < c.resolveReads path + c.lookupReads d n, f k = none) {r : Code}
    (hmark : Runs (markEntryDeleted fuel d n) (c.freeAll (c.volume.owned p))
      (later f (c.resolveReads path + c.lookupReads d n)) r c' f') :
    Runs (deleteFileBody fuel path) c f r c' f' := by
  obtain ⟨q, hd, -, hp⟩ := x.entryAt h hs
  have hres := (x.looks_resolve hm h hs hf).finds f fun k hk => hok k (by omega)
  have hfind := (x.looks_find hm h hs hf).finds (later f (c.resolveReads path)) fun k hk =>
    hok (k + c.resolveReads path) (by omega)
  rw [later_later, Nat.add_comm] at hfind
  unfold deleteFileBody
  apply runs_core
  rw [hm.ready, if_neg (by decide)]
  refine Yields.bind hres (Yields.bind hfind ?_)
  dsimp only
  rw [hfile, if_neg (by decide)]
  exact Yields.bind (runs_freeFile hm h hf (hp.entry hd) _) hmark

/-- The slot is marked when it is in the root directory, or nothing fails. -/
theorem runs_mark_ok (hm : Mounted c) (h : c.volume.WF ∅) (hs : c.Settled) (hf : 4096 ≤ fuel)
    (x : c.Denotes path d n p) (hfile : (c.volume.slot p).isDirectory = false)
    (hok : d = 0 ∨ ∀ k < c.lookupReads d n + 2, f k = none) :
    ∃ c' f', Runs (markEntryDeleted fuel d n) (c.freeAll (c.volume.owned p)) f .ok c' f' := by
  obtain ⟨q, hd, -, hp⟩ := x.entryAt h hs
  have henv := env_freeAll c (c.volume.owned p)
  have hacc := henv.accepted hm.accepted
  have hlook := looks_findFreed hm h hf hd hp hfile x.lookup
  have hfind := hlook.finds f fun k hk => by
    rcases hok with h0 | hok
    · rw [Core.lookupReads, if_pos h0] at hk
      exact absurd hk (Nat.not_lt_zero k)
    · exact hok k (by omega)
  unfold markEntryDeleted
  rcases h.loc_owner hd hp.mem with ⟨h0, h1, h2⟩ | ⟨h0, -, h1, h2⟩
  · have hwrite :=
      runs_writeEntry_root h1 (by rw [henv.fs]; exact h2) (deletedEntry (c.volume.slot p))
        (later f (c.lookupReads d n))
    exact ⟨_, _, Yields.bind hfind hwrite⟩
  · have hok := hok.resolve_left h0
    have hwrite := runs_writeEntry_sub hacc h1.1 (by rw [henv.fs]; exact h2) (deletedEntry (c.volume.slot p))
      (show later f (c.lookupReads d n) 0 = none from hok _ (by omega))
    rw [show later f (c.lookupReads d n) 1 = none from hok _ (by omega)] at hwrite
    exact ⟨_, _, Yields.bind hfind hwrite⟩

/-- Else the clusters stay given back, and the slot stays as it was. -/
theorem runs_mark_fails (hm : Mounted c) (h : c.volume.WF ∅) (hs : c.Settled) (hf : 4096 ≤ fuel)
    (x : c.Denotes path d n p) (hfile : (c.volume.slot p).isDirectory = false) (h0 : d ≠ 0) (hclean : Clean f)
    (hi : i < c.lookupReads d n + 2) (hfail : FailsAt f i) :
    Runs (markEntryDeleted fuel d n) (c.freeAll (c.volume.owned p)) f .errIo (c.freeAll (c.volume.owned p))
      (later f (i + 1)) := by
  obtain ⟨q, hd, -, hp⟩ := x.entryAt h hs
  have henv := env_freeAll c (c.volume.owned p)
  have hacc := henv.accepted hm.accepted
  have hlook := looks_findFreed hm h hf hd hp hfile x.lookup
  unfold markEntryDeleted
  by_cases hlt : i < c.lookupReads d n
  · exact Yields.bind (hlook.fails f i hlt hfail) (Yields.pure _)
  · refine Yields.bind (hlook.finds f fun k hk => hfail.1 k (by omega)) ?_
    rcases h.loc_owner hd hp.mem with ⟨h1, -⟩ | ⟨-, -, h1, h2⟩
    · exact absurd h1 h0
    · dsimp only
      rcases (by omega : i = c.lookupReads d n ∨ i = c.lookupReads d n + 1) with rfl | rfl
      · -- the cluster of the slot is not read
        have hwrite :=
          runs_writeEntry_unread hacc h1.1 (deletedEntry (c.volume.slot p)) (f := later f (c.lookupReads d n))
            (by rw [show later f (c.lookupReads d n) 0 =
              f (c.lookupReads d n) from congrArg f (Nat.zero_add _)]; exact hfail.2)
        rw [later_later, Nat.add_comm] at hwrite
        exact hwrite
      · -- it is not written back
        have hwrite := runs_writeEntry_sub hacc h1.1 (by rw [henv.fs]; exact h2) (deletedEntry (c.volume.slot p))
          (show later f (c.lookupReads d n) 0 = none from
            (congrArg f (Nat.zero_add _)).trans (hfail.1 _ (by omega)))
        have h3 : later f (c.lookupReads d n) 1 = some 0 := by
          have h4 : later f (c.lookupReads d n) 1 = f (c.lookupReads d n + 1) := congrArg f (Nat.add_comm ..)
          rw [h4]
          exact (hclean _).resolve_left hfail.2
        rw [h3, later_later] at hwrite
        rw [show c.lookupReads d n + 1 + 1 = 2 + c.lookupReads d n by omega]
        exact hwrite

/-! ## Creating a directory -/

/-- A name that was found is not made again. -/
theorem runs_create_found (hm : Mounted c) (h : c.volume.WF ∅) (hs : c.Settled) (hf : 4096 ≤ fuel)
    (x : c.Denotes path d n p) (hok : ∀ k < c.resolveReads path + c.lookupReads d n, f k = none) :
    Runs (createDirectoryBody fuel path) c f .errAlreadyExists c
      (later f (c.resolveReads path + c.lookupReads d n)) := by
  have hres := (x.looks_resolve hm h hs hf).finds f fun k hk => hok k (by omega)
  have hfind := (x.looks_find hm h hs hf).finds (later f (c.resolveReads path)) fun k hk =>
    hok (k + c.resolveReads path) (by omega)
  rw [later_later, Nat.add_comm] at hfind
  unfold createDirectoryBody
  apply runs_core
  rw [hm.ready, if_neg (by decide)]
  exact Yields.bind hres (Yields.bind hfind (Yields.pure _))

/-- A path that cannot be read to its end leads nowhere. -/
theorem runs_create_unresolved (hm : Mounted c) (h : c.volume.WF ∅) (hs : c.Settled) (hf : 4096 ≤ fuel)
    (x : c.Denotes path d n p) (hi : i < c.resolveReads path) (hfail : FailsAt f i) :
    Runs (createDirectoryBody fuel path) c f .errIo c (later f (i + 1)) := by
  unfold createDirectoryBody
  apply runs_core
  rw [hm.ready, if_neg (by decide)]
  exact Yields.bind ((x.looks_resolve hm h hs hf).fails f i hi hfail) (Yields.pure _)

/-- A search that fails counts as one that finds nothing. -/
theorem runs_create_unread (hm : Mounted c) (h : c.volume.WF ∅) (hs : c.Settled) (hf : 4096 ≤ fuel)
    (x : c.Denotes path d n p) (hle : c.resolveReads path ≤ i) (hi : i < c.resolveReads path + c.lookupReads d n)
    (hfail : FailsAt f i) {r : Code} (hrest : Runs (createBehind fuel c.fs d n) c (later f (i + 1)) r c' f') :
    Runs (createDirectoryBody fuel path) c f r c' f' := by
  have hres := (x.looks_resolve hm h hs hf).finds f fun k hk => hfail.1 k (by omega)
  have hfind := (x.looks_find hm h hs hf).fails _ (i - c.resolveReads path) (by omega) (hfail.later hle)
  rw [later_later, show i - c.resolveReads path + 1 + c.resolveReads path = i + 1 by omega] at hfind
  unfold createDirectoryBody
  apply runs_core
  rw [hm.ready, if_neg (by decide)]
  exact Yields.bind hres (Yields.bind hfind hrest)

section

variable {k : Nat}

theorem isNone_of_ne {o : Option Nat} (h : o ≠ none) : o.isNone = false :=
  Option.isNone_eq_false_iff.2 (Option.isSome_iff_ne_none.2 h)

/-- A cluster that stands for itself is given back. -/
theorem runs_giveBack (hm : c.fs.Accepted) (hf : 4096 ≤ fuel) (hr : c.volume.InRange k)
    (hs : clusterEoc ≤ c.volume.fat k) (e : Code) :
    Runs (freeChain fuel k >>= fun _ => pure e) c f e (c.freeAll [k]) f := by
  have hlt : [k].length < fuel := by
    rw [List.length_singleton]
    omega
  exact Yields.bind (runs_freeChain hm (Volume.Chain.single hr hs).tail (List.nodup_singleton k) hlt f)
    (Yields.pure e)

/-- The new cluster is not zeroed: it is given back. -/
theorem runs_behind_unzeroed (hm : Mounted c) (hk : firstFree c = some k) (h0 : f 0 ≠ none) :
    ∃ c', Runs (createBehind fuel c.fs d n) c f .errNoFreeCluster c' (later f 1) ∧ Unchanged c c' := by
  have halloc := runs_allocateCluster_some hm.accepted hk f
  rw [isNone_of_ne h0] at halloc
  have t := ((Took.refl c).mark (firstFree_some hk)).putPart hm.accepted (List.mem_singleton.2 rfl) (fun _ => 0)
    (transferred_le (f 0) c.fs.sectorsPerCluster)
  exact ⟨_, Yields.bind halloc (Yields.pure _), t.freeAll⟩

/-- `fat12_create_directory` behind its first search, as far as the dot entries. -/
theorem runs_behind (hm : Mounted c) (hk : firstFree c = some k) (h0 : f 0 = none) {r : Code}
    (hrest : Runs (do
      if (f 1).isNone then
        match ← writeDirectoryEntry fuel d n (fillDirEntry n attrDirectory k 0) with
        | .ok => pure .ok
        | e =>
          freeChain fuel k
          pure e
      else
        freeChain fuel k
        pure .errIo)
      ((c.alloc k).putPart k (dotBuffer (fun _ => 0) c.fs.clusterSizeBytes k d)
        (transferred (f 1) c.fs.sectorsPerCluster)) (later f 2) r c' f') :
    Runs (createBehind fuel c.fs d n) c f r c' f' := by
  have hkr := (mem_freeClusters.1 (firstFree_some hk)).1
  have henv := env_alloc c k
  have halloc := runs_allocateCluster_some hm.accepted hk f
  rw [h0] at halloc
  refine Yields.bind halloc ?_
  change Runs (if k = 0 then _ else _) _ _ _ _ _
  rw [if_neg (by have := hkr.1; omega)]
  refine runs_clusterBuffer fun b => Yields.bind (runs_setClusterBuffer _ _ _) ?_
  have hbuf : ∀ x < sectorSize * (c.alloc k).fs.sectorsPerCluster, dotBuffer b c.fs.clusterSizeBytes k d x =
      dotBuffer (fun _ => 0) c.fs.clusterSizeBytes k d x := fun x hx => dotBuffer_congr b _ k d x (by
    rw [henv.fs, ← hm.accepted.clusterSize_eq] at hx
    exact hx)
  have hwrite := @runs_writeCluster k _ _ (c.alloc k) (later f 1) (henv.accepted hm.accepted).spc_ne hbuf
  rw [later_later] at hwrite
  exact Yields.bind hwrite hrest

/-- The dot entries are not written: the cluster is given back. -/
theorem runs_behind_undotted (hm : Mounted c) (hf : 4096 ≤ fuel) (hk : firstFree c = some k) (h0 : f 0 = none)
    (h1 : f 1 ≠ none) : ∃ c', Runs (createBehind fuel c.fs d n) c f .errIo c' (later f 2) ∧ Unchanged c c' := by
  have hkf := firstFree_some hk
  have hkr := (mem_freeClusters.1 hkf).1
  have t := ((Took.refl c).alloc hm.accepted hkf).putPart hm.accepted (List.mem_singleton.2 rfl)
    (dotBuffer (fun _ => 0) c.fs.clusterSizeBytes k d) (transferred_le (f 1) c.fs.sectorsPerCluster)
  refine ⟨_, runs_behind hm hk h0 ?_, t.freeAll⟩
  rw [isNone_of_ne h1, if_neg (by decide)]
  refine runs_giveBack (t.env.accepted hm.accepted) hf (t.env.sizes.inRange.2 hkr) ?_ _
  change clusterEoc ≤ (c.alloc k).volume.fat k
  rw [fat_alloc hkr, if_pos rfl]

/-- No cluster is free. -/
theorem runs_behind_full (hk : firstFree c = none) : Runs (createBehind fuel c.fs d n) c f .errNoFreeCluster c f :=
  Yields.bind (runs_allocateCluster_none hk f) (Yields.pure _)

/-- The entry is not stored: the cluster is given back. -/
theorem runs_behind_refused (hm : Mounted c) (hf : 4096 ≤ fuel) (hk : firstFree c = some k) (h0 : f 0 = none)
    (h1 : f 1 = none) {e : Code} (he : e ≠ .ok)
    (hw : Runs (writeDirectoryEntry fuel d n (fillDirEntry n attrDirectory k 0)) (c.dots k d) (later f 2) e c' f')
    (henv : SameEnv c c') (hs : clusterEoc ≤ c'.volume.fat k) :
    Runs (createBehind fuel c.fs d n) c f e (c'.freeAll [k]) f' := by
  have hkr := (mem_freeClusters.1 (firstFree_some hk)).1
  refine runs_behind hm hk h0 ?_
  rw [h1]
  refine Yields.bind hw ?_
  have hback :=
    fun r : Code => runs_giveBack (f := f') (henv.accepted hm.accepted) hf (henv.sizes.inRange.2 hkr) hs r
  cases e with
  | ok => exact absurd rfl he
  | _ => exact hback _

/-- It is stored. -/
theorem runs_behind_made (hm : Mounted c) (hk : firstFree c = some k) (h0 : f 0 = none) (h1 : f 1 = none)
    (hw : Runs (writeDirectoryEntry fuel d n (fillDirEntry n attrDirectory k 0)) (c.dots k d)
      (later f 2) .ok c' f') :
    Runs (createBehind fuel c.fs d n) c f .ok c' f' := by
  refine runs_behind hm hk h0 ?_
  rw [h1]
  exact Yields.bind hw (Yields.pure _)

/-- The second search finds what the first one missed, in the same slot and at the cost of the same reads. -/
theorem Core.Denotes.looks_dots (x : c.Denotes path d n p) (hm : Mounted c) (h : c.volume.WF ∅) (hs : c.Settled)
    (hf : 4096 ≤ fuel) (hk : k ∈ c.volume.freeClusters) :
    Looks (findEntry fuel d n) (c.dots k d) (c.lookupReads d n) (.ok (c.volume.slot p, p)) (.error .errIo) := by
  obtain ⟨q, hd, -, hp⟩ := x.entryAt h hs
  have t := took_dots hm hk d
  have a := t.agree h
  have hacc := t.env.accepted hm.accepted
  have hd' := (a.isDir h).2 hd
  have hwalk := (t.wf h).walkable ⟨q, hd'⟩
  have hlook := looks_findEntry hacc hf hwalk n
  have hlookup : (c.dots k d).volume.lookup d n = some p := by
    rw [← x.lookup]
    unfold Volume.lookup
    rw [a.locs h hd, scan_congr fun p hp => by rw [a.slot h hd hp]]
  rw [hlookup,
    lookupReads_congr hm.accepted hacc t.env.sizes (h.walkable ⟨q, hd⟩) hwalk (a.chain h hd) (a.locs h hd)
      (fun p hp => a.slot h hd hp) n] at hlook
  dsimp only at hlook
  rw [a.slot h hd hp.mem] at hlook
  exact hlook

end

/-! ## Making a directory over an entry -/

/-- The entry in the slot `p` is the same, and so are all links. -/
structure SlotKept (c c' : Core) (p : Loc) : Prop where
  slot : c'.volume.slot p = c.volume.slot p
  fat : c'.volume.fat = c.volume.fat

theorem Unchanged.slotKept (u : Unchanged c c') (h : c.volume.WF ∅) (hd : c.volume.IsDir d q)
    (hp : p ∈ c.volume.locs d) : SlotKept c c' p :=
  ⟨(u.agree h).slot h hd hp, u.env.fat u.fat⟩

/-- The calls behind the first search get through to the slot `p`: there is a free cluster, its two writes, the
second search and the read of the slot's cluster succeed, and the sector of the slot is written. -/
structure Core.Stores (c : Core) (f : Nat → Option Nat) (d : Nat) (n : ShortName) (p : Loc) : Prop where
  free : c.volume.freeClusters.Nonempty
  calls : ∀ k < c.lookupReads d n + 3, f k = none
  slot : p.2 / 16 < transferred (f (c.lookupReads d n + 3)) c.fs.sectorsPerCluster

section

variable {k : Nat}

/-- An entry not stored at all: everything is as it was. -/
theorem behind_unstored (hm : Mounted c) (h : c.volume.WF ∅) (hs : c.Settled) (hf : 4096 ≤ fuel)
    (x : c.Denotes path d n p) (h0 : d ≠ 0) (hk : firstFree c = some k) (hz : f 0 = none) (hdot : f 1 = none)
    (hi : i < c.lookupReads d n + 1) (hfail : FailsAt (later f 2) i) :
    ∃ c' f', Runs (createBehind fuel c.fs d n) c f .errIo c' f' ∧ Unchanged c c' := by
  obtain ⟨q, hd, -, hp⟩ := x.entryAt h hs
  have hkf := firstFree_some hk
  have t := took_dots hm hkf d
  have hlook := x.looks_dots hm h hs hf hkf
  have hw : ∃ f', Runs (writeDirectoryEntry fuel d n (fillDirEntry n attrDirectory k 0)) (c.dots k d)
      (later f 2) .errIo (c.dots k d) f' := by
    by_cases hlt : i < c.lookupReads d n
    · exact ⟨_, Yields.bind (hlook.fails _ i hlt hfail) (Yields.pure _)⟩
    · obtain rfl : i = c.lookupReads d n := by omega
      obtain ⟨h1, -⟩ | ⟨-, -, hr, -⟩ := h.loc_owner hd hp.mem
      · exact absurd h1 h0
      have hne : later (later f 2) (c.lookupReads d n) 0 ≠ none := by
        unfold later
        rw [Nat.zero_add]
        exact hfail.2
      exact ⟨_, Yields.bind (hlook.finds _ hfail.1)
        (runs_writeEntry_unread (t.env.accepted hm.accepted) hr.1 _ hne)⟩
  obtain ⟨f', hw⟩ := hw
  exact ⟨_, f', runs_behind_refused hm hf hk hz hdot (by decide) hw t.env (fresh_dots hm h hd hkf).stop, t.freeAll⟩

/-- The last call, the write of the slot's cluster, decides: it is made and succeeds, or the slot is overwritten
as far as the sectors were transferred. -/
theorem behind_last (hm : Mounted c) (h : c.volume.WF ∅) (hs : c.Settled) (hf : 4096 ≤ fuel)
    (x : c.Denotes path d n p) (h0 : d ≠ 0) (hk : firstFree c = some k)
    (hok : ∀ j < c.lookupReads d n + 3, f j = none) :
    ∃ r c' f', Runs (createBehind fuel c.fs d n) c f r c' f' ∧ (f (c.lookupReads d n + 3) = none → r = .ok) ∧
      (f (c.lookupReads d n + 3) ≠ none → r ≠ .ok ∧ c'.volume.fat = c.volume.fat ∧ c'.volume.slot p =
        if p.2 / 16 < transferred (f (c.lookupReads d n + 3)) c.fs.sectorsPerCluster
        then fillDirEntry n attrDirectory k 0 else c.volume.slot p) := by
  obtain ⟨q, hd, -, hp⟩ := x.entryAt h hs
  have hkf := firstFree_some hk
  have t := took_dots hm hkf d
  have hacc := t.env.accepted hm.accepted
  obtain ⟨h1, -⟩ | ⟨-, -, hr, hi⟩ := h.loc_owner hd hp.mem
  · exact absurd h1 h0
  have hfind := (x.looks_dots hm h hs hf hkf).finds (later f 2) fun j hj => hok (j + 2) (by omega)
  have hread : later (later f 2) (c.lookupReads d n) 0 = none := by
    rw [later_later]
    exact hok _ (by omega)
  have hwrite := runs_writeEntry_sub hacc hr.1 hi (fillDirEntry n attrDirectory k 0) hread
  have hlast : later (later f 2) (c.lookupReads d n) 1 = f (c.lookupReads d n + 3) := by
    unfold later
    exact congrArg f (by omega)
  rw [hlast] at hwrite
  have hw : Runs (writeDirectoryEntry fuel d n (fillDirEntry n attrDirectory k 0)) (c.dots k d) (later f 2) _ _ _ :=
    Yields.bind hfind hwrite
  by_cases hl : f (c.lookupReads d n + 3) = none
  · rw [hl] at hw
    exact ⟨_, _, _, runs_behind_made hm hk (hok 0 (by omega)) (hok 1 (by omega)) hw, fun _ => rfl,
      fun hne => absurd hl hne⟩
  · rw [isNone_of_ne hl] at hw
    have henv := t.env.trans (env_putEntryPart (c.dots k d) p (fillDirEntry n attrDirectory k 0)
      (transferred (f (c.lookupReads d n + 3)) (c.dots k d).fs.sectorsPerCluster))
    refine ⟨_, _, _, runs_behind_refused hm hf hk (hok 0 (by omega)) (hok 1 (by omega)) (by decide) hw henv
      (fresh_dots hm h hd hkf).stop, fun hn => absurd hn hl, fun _ => ⟨by decide, ?_, ?_⟩⟩
    · exact (henv.trans (env_freeAll _ [k])).fat t.freeAll.fat
    · rw [slot_freeAll, slot_putEntryPart hacc hr.1 hr.2.1 hi _ (transferred_le ..), (t.agree h).slot h hd hp.mem]
      rfl

end

/-- Then the directory is made over the entry. -/
theorem behind_stores (hm : Mounted c) (h : c.volume.WF ∅) (hs : c.Settled) (hf : 4096 ≤ fuel)
    (x : c.Denotes path d n p) (h0 : d ≠ 0) (hst : c.Stores f d n p) :
    ∃ k r c' f', k ∈ c.volume.freeClusters ∧ Runs (createBehind fuel c.fs d n) c f r c' f' ∧
      (r = .ok ∨ c'.volume.slot p = fillDirEntry n attrDirectory k 0) := by
  cases hk : firstFree c with
  | none =>
    obtain ⟨k, hkf⟩ := hst.free
    rw [firstFree_none hk] at hkf
    exact absurd hkf (Finset.notMem_empty k)
  | some k =>
    obtain ⟨r, c', f', hrun, h1, h2⟩ := behind_last hm h hs hf x h0 hk hst.calls
    refine ⟨k, r, c', f', firstFree_some hk, hrun, ?_⟩
    by_cases hl : f (c.lookupReads d n + 3) = none
    · exact .inl (h1 hl)
    · have hslot := (h2 hl).2.2
      rw [if_pos hst.slot] at hslot
      exact .inr hslot

/-- And else it is left as it was, and the call fails. -/
theorem behind_keeps (hm : Mounted c) (h : c.volume.WF ∅) (hs : c.Settled) (hf : 4096 ≤ fuel)
    (x : c.Denotes path d n p) (h0 : d ≠ 0) (hst : ¬ c.Stores f d n p) :
    ∃ r c' f', Runs (createBehind fuel c.fs d n) c f r c' f' ∧ r ≠ .ok ∧ SlotKept c c' p := by
  obtain ⟨q, hd, -, hp⟩ := x.entryAt h hs
  have hsame : ∀ {c'}, Unchanged c c' → SlotKept c c' p := fun u => u.slotKept h hd hp.mem
  cases hk : firstFree c with
  | none => exact ⟨_, c, f, runs_behind_full hk, by decide, rfl, rfl⟩
  | some k =>
    by_cases hz : f 0 = none
    · by_cases hdot : f 1 = none
      · rcases succeeds_or_fails (later f 2) (c.lookupReads d n + 1) with hok | ⟨i, hi, hfail⟩
        · have hok : ∀ j < c.lookupReads d n + 3, f j = none := fun j hj => by
            match j with
            | 0 => exact hz
            | 1 => exact hdot
            | j + 2 => exact hok j (by omega)
          obtain ⟨r, c', f', hrun, -, h2⟩ := behind_last hm h hs hf x h0 hk hok
          have hfree : c.volume.freeClusters.Nonempty := ⟨k, firstFree_some hk⟩
          by_cases hl : f (c.lookupReads d n + 3) = none
          · refine absurd ⟨hfree, hok, ?_⟩ hst
            rw [hl]
            obtain ⟨h1, -⟩ | ⟨-, -, -, hi⟩ := h.loc_owner hd hp.mem
            · exact absurd h1 h0
            have := hm.accepted.entriesPerCluster
            rw [volume_perCluster] at hi
            change p.2 / 16 < c.fs.sectorsPerCluster
            omega
          · obtain ⟨hne, hfat, hslot⟩ := h2 hl
            rw [if_neg fun hlt => hst ⟨hfree, hok, hlt⟩] at hslot
            exact ⟨r, c', f', hrun, hne, hslot, hfat⟩
        · obtain ⟨c', f', hrun, u⟩ := behind_unstored hm h hs hf x h0 hk hz hdot hi hfail
          exact ⟨_, c', f', hrun, by decide, hsame u⟩
      · obtain ⟨c', hrun, u⟩ : ∃ c', Runs (createBehind fuel c.fs d n) c f .errIo c' (later f 2) ∧ Unchanged c c' :=
          runs_behind_undotted hm hf hk hz hdot
        exact ⟨_, c', _, hrun, by decide, hsame u⟩
    · obtain ⟨c', hrun, u⟩ : ∃ c', Runs (createBehind fuel c.fs d n) c f .errNoFreeCluster c' (later f 1) ∧
          Unchanged c c' :=
        runs_behind_unzeroed hm hk hz
      exact ⟨_, c', _, hrun, by decide, hsame u⟩

/-- The first call that fails is a read of the first search, and those behind it get through to the slot. -/
def Core.Overwrites (c : Core) (f : Nat → Option Nat) (path : List UInt8) (d : Nat) (n : ShortName)
    (p : Loc) : Prop :=
  ∃ i, c.resolveReads path ≤ i ∧ i < c.resolveReads path + c.lookupReads d n ∧ FailsAt f i ∧
    c.Stores (later f (i + 1)) d n p

/-- The root directory is cached, and read without the disk. -/
theorem ne_root_of_reads (hr : 0 < c.lookupReads d n) : d ≠ 0 := fun h0 => by
  rw [Core.lookupReads, if_pos h0] at hr
  exact absurd hr (Nat.lt_irrefl 0)

theorem create_overwrites (hm : Mounted c) (h : c.volume.WF ∅) (hs : c.Settled) (hf : 4096 ≤ fuel)
    (x : c.Denotes path d n p) (ho : c.Overwrites f path d n p) :
    ∃ k r c' f', k ∈ c.volume.freeClusters ∧ Runs (createDirectoryBody fuel path) c f r c' f' ∧
      (r = .ok ∨ c'.volume.slot p = fillDirEntry n attrDirectory k 0) := by
  obtain ⟨i, hle, hi, hfail, hst⟩ := ho
  have hreads : 0 < c.lookupReads d n := by omega
  obtain ⟨k, r, c', f', hk, hrun, hr⟩ := behind_stores hm h hs hf x (ne_root_of_reads hreads) hst
  exact ⟨k, r, c', f', hk, runs_create_unread hm h hs hf x hle hi hfail hrun, hr⟩

theorem create_keeps (hm : Mounted c) (h : c.volume.WF ∅) (hs : c.Settled) (hf : 4096 ≤ fuel)
    (x : c.Denotes path d n p) (hno : ¬ c.Overwrites f path d n p) :
    ∃ r c' f', Runs (createDirectoryBody fuel path) c f r c' f' ∧ r ≠ .ok ∧ SlotKept c c' p := by
  rcases succeeds_or_fails f (c.resolveReads path + c.lookupReads d n) with hok | ⟨i, hi, hfail⟩
  · exact ⟨_, c, _, runs_create_found hm h hs hf x hok, by decide, rfl, rfl⟩
  · by_cases hlt : i < c.resolveReads path
    · exact ⟨_, c, _, runs_create_unresolved hm h hs hf x hlt hfail, by decide, rfl, rfl⟩
    · have hle : c.resolveReads path ≤ i := by omega
      have hst : ¬ c.Stores (later f (i + 1)) d n p := fun hst => hno ⟨i, hle, hi, hfail, hst⟩
      have hreads : 0 < c.lookupReads d n := by omega
      obtain ⟨r, c', f', hrun, hr, hkept⟩ := behind_keeps hm h hs hf x (ne_root_of_reads hreads) hst
      exact ⟨r, c', f', runs_create_unread hm h hs hf x hle hi hfail hrun, hr, hkept⟩

end

end AltoniumOS.Fat12

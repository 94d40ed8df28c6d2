/-
A directory as a finite map from short names to entries, told of the directory alone: all it takes is a
chain that can be walked, nothing behind the slots never used and no name twice. Storing an entry updates
the map at its name, wherever the slot is taken from, and deleting one removes it.
-/
import AltoniumOS.Refine.Operations

namespace AltoniumOS.Fat12

open AltoniumOS.Lib

namespace Volume

variable {V W : Volume} {d : Nat} {n : ShortName} {p : Loc} {e : RawDirEntry}

/-- A directory that can be walked and searched by name. -/
structure Directory (V : Volume) (d : Nat) : Prop where
  walk : V.Walkable d
  tidy : V.Tidy d

/-- What a directory maps a name to: the entry, and the slot it is kept in. -/
def entries (V : Volume) (d : Nat) (n : ShortName) : Option (RawDirEntry × Loc) :=
  (V.lookup d n).map fun p => (V.slot p, p)

theorem Tidy.entries_iff (t : V.Tidy d) {x : RawDirEntry × Loc} :
    V.entries d n = some x ↔ x.2 ∈ V.locs d ∧ V.slot x.2 = x.1 ∧ x.1.Live ∧ x.1.name = n := by
  unfold entries
  rw [Option.map_eq_some_iff]
  constructor
  · rintro ⟨p, hp, rfl⟩
    obtain ⟨h1, h2, h3⟩ := t.lookup_iff.1 hp
    exact ⟨h1, rfl, h2, h3⟩
  · rintro ⟨h1, h2, h3⟩
    rw [← h2] at h3
    exact ⟨x.2, t.lookup_iff.2 ⟨h1, h3⟩, by rw [h2]⟩

theorem entries_none (V : Volume) (d : Nat) (n : ShortName) : V.entries d n = none ↔ V.lookup d n = none :=
  Option.map_eq_none_iff

theorem Walkable.nodup_locs (h : V.Walkable d) : (V.locs d).Nodup := by
  by_cases h0 : d = 0
  · subst h0
    exact nodup_locs_root
  · exact nodup_locs_sub h0 (h.resolve_left h0).nodup

/-! ## Slots to store in -/

/-- The slot `p` may take the entry of the name `n`: no other slot has the name, and no slot never used comes
before it. -/
structure Takes (V : Volume) (d : Nat) (n : ShortName) (p : Loc) : Prop where
  mem : p ∈ V.locs d
  old : (V.slot p).Live → (V.slot p).name = n
  other : ∀ p' ∈ V.locs d, p' ≠ p → (V.slot p').Live → (V.slot p').name ≠ n
  before : (V.locs d).Pairwise fun a b => b = p → (V.slot a).name.first ≠ nameEnd

/-- The slot found under the name may. -/
theorem Directory.takes_found (h : V.Directory d) (hp : V.lookup d n = some p) : V.Takes d n p := by
  obtain ⟨h1, h2, h3⟩ := lookup_some hp
  refine ⟨h1, fun _ => h3, fun p' hp' hne hl hn => hne ?_, h.tidy.before ((V.slot p).live_iff.1 h2).1⟩
  have := h.tidy.lookup_iff.2 ⟨hp', hl, hn⟩
  rw [hp] at this
  exact (Option.some.inj this).symm

/-- The first free slot may, when the name is not found. -/
theorem Directory.takes_free (h : V.Directory d) (hnone : V.lookup d n = none)
    (hp : V.freeSlot d = some p) : V.Takes d n p := by
  obtain ⟨h1, h2, -⟩ := freeSlot_some hp
  exact ⟨h1, fun hl => absurd hl h2, fun p' hp' _ hl => h.tidy.lookup_none.1 hnone p' hp' hl,
    before_free h.walk.nodup_locs hp⟩

/-- Storing an entry in such a slot leaves a directory. -/
theorem Takes.directory (h : V.Directory d) (u : V.Takes d n p) (hfirst : e.name.first ≠ nameEnd)
    (he : e.Live → e.name = n) : (V.putSlot p e).Directory d := by
  constructor
  · have hz := putSlot_sizes V p e
    refine h.walk.imp_right fun hc => ?_
    rw [putSlot_chain]
    exact hz.chain hc fun x _ => congrFun (putSlot_fat V p e) x
  · exact h.tidy.putSlot h.walk.nodup_locs hfirst u.before fun hl p' hp' hne hl' => by
      rw [he hl]; exact u.other p' hp' hne hl'

/-- And is an update of the map. -/
theorem Takes.entries (h : V.Directory d) (u : V.Takes d n p) (hfirst : e.name.first ≠ nameEnd)
    (he : e.Live → e.name = n) :
    (V.putSlot p e).entries d = Function.update (V.entries d) n (if e.Live then some (e, p) else none) := by
  have h' := u.directory h hfirst he
  have hslot : ∀ p', (V.putSlot p e).slot p' = if p' = p then e else V.slot p' := fun p' => by
    split
    · rename_i hp
      rw [hp, putSlot_slot_self]
    · rename_i hp
      exact putSlot_slot_ne V e hp
  funext m
  refine Option.ext fun x => ?_
  rw [h'.tidy.entries_iff, putSlot_locs, hslot]
  by_cases hm : m = n
  · -- under the name there is the slot stored in, or nothing
    subst hm
    rw [Function.update_self]
    have hmem := u.mem
    by_cases hx : x.2 = p
    · rw [if_pos hx, hx]
      split
      · rename_i hl
        have := he hl
        constructor
        · rintro ⟨-, h1, -, -⟩
          rw [h1, ← hx]
        · intro hs
          cases hs
          exact ⟨hmem, rfl, hl, this⟩
      · rename_i hl
        refine iff_of_false ?_ (by simp)
        rintro ⟨-, h1, h2, -⟩
        exact hl (h1 ▸ h2)
    · rw [if_neg hx]
      refine iff_of_false ?_ fun hs => ?_
      · rintro ⟨h1, h2, h3, h4⟩
        rw [← h2] at h3 h4
        exact u.other x.2 h1 hx h3 h4
      · split at hs
        · cases hs
          exact hx rfl
        · cases hs
  · rw [Function.update_of_ne hm, h.tidy.entries_iff]
    by_cases hx : x.2 = p
    · rw [if_pos hx, hx]
      refine iff_of_false ?_ ?_
      · rintro ⟨-, rfl, h2, h3⟩
        exact hm (h3.symm.trans (he h2))
      · rintro ⟨-, h1, h2, h3⟩
        rw [← h1] at h2 h3
        exact hm (h3.symm.trans (u.old h2))
    · rw [if_neg hx]

/-! ## A directory grown -/

/-- Slots never used behind a directory do not change what it maps. -/
theorem Directory.grow (h : V.Directory d) (hw : W.Walkable d) {new : List Loc} (hlocs : W.locs d = V.locs d ++ new)
    (hslot : ∀ p ∈ V.locs d, W.slot p = V.slot p) (hblank : ∀ p ∈ new, (W.slot p).name.first = nameEnd) :
    W.Directory d ∧ W.entries d = V.entries d := by
  have t := h.tidy.grow hlocs hslot hblank
  refine ⟨⟨hw, t⟩, funext fun m => Option.ext fun x => ?_⟩
  rw [t.entries_iff, h.tidy.entries_iff, hlocs, List.mem_append]
  constructor
  · rintro ⟨hp | hp, h2, h3⟩
    · exact ⟨hp, by rw [← hslot _ hp, h2], h3⟩
    · rw [← h2] at h3
      exact absurd h3.1 (not_live_of_end (hblank _ hp))
  · rintro ⟨hp, h2, h3⟩
    exact ⟨.inl hp, by rw [hslot _ hp, h2], h3⟩

/-- When all slots before them are live, the first new slot may take the entry of a name not there. -/
theorem Directory.takes_new (h : W.Directory d) {old new : List Loc} (hlocs : W.locs d = old ++ p :: new)
    (hlive : ∀ p' ∈ old, (W.slot p').Live) (hblank : (W.slot p).name.first = nameEnd)
    (hnone : W.lookup d n = none) : W.Takes d n p := by
  exact ⟨by rw [hlocs]; simp, fun hl => absurd hl (not_live_of_end
    hblank), fun p' hp' _ hl => h.tidy.lookup_none.1 hnone p' hp' hl,
      pairwise_before hlocs h.walk.nodup_locs fun p' hp' => ((W.slot p').live_iff.1 (hlive p' hp')).1⟩

end Volume

section

variable {c : Core} {fuel d : Nat} {n : ShortName} {p : Loc} {e : RawDirEntry}

/-- `fat12_find_entry` answers from the map. -/
theorem gives_entries (hm : c.fs.Accepted) (hf : 4096 ≤ fuel) (h : c.volume.Walkable d) (n : ShortName) :
    Gives (findEntry fuel d n) c
      (match c.volume.entries d n with
        | some x => .ok x
        | none => .error .errNotFound) c := by
  have hg := gives_findEntry hm hf h n
  unfold Volume.entries
  cases hl : c.volume.lookup d n with
  | some p => rw [hl] at hg; exact hg
  | none => rw [hl] at hg; exact hg

/-- `fat12_write_entry` of a slot that may take the name. -/
theorem gives_put (hm : c.fs.Accepted) (h : c.volume.Directory d) (u : c.volume.Takes d n p)
    (hfirst : e.name.first ≠ nameEnd) (he : e.Live → e.name = n) :
    ∃ c', Gives (writeEntry p e) c .ok c' ∧ SameEnv c c' ∧ c'.volume.Directory d ∧
      c'.volume.entries d = Function.update (c.volume.entries d) n (if e.Live then some (e, p) else none) := by
  have hp := h.walk.isSlot u.mem
  have hv := volume_putEntry hm e hp
  refine ⟨c.putEntry p e, gives_writeEntry hm hp e, env_putEntry c p e, ?_, ?_⟩
  · rw [hv]
    exact u.directory h hfirst he
  · rw [hv]
    exact u.entries h hfirst he

/-- A full subdirectory, and the cluster it is grown by. -/
theorem directory_grow (hm : c.fs.Accepted) (h : c.volume.Directory d) (h0 : d ≠ 0) {l : List Nat} {x z : Nat}
    (hc : c.volume.Chain d (l ++ [x])) (hz : z ∈ c.volume.freeClusters) (hfull : c.volume.freeSlot d = none)
    (hnone : c.volume.lookup d n = none) : (c.grow x z).volume.Directory d ∧
      (c.grow x z).volume.entries d = c.volume.entries d ∧ (c.grow x z).volume.Takes d n (z, 0) := by
  obtain ⟨hzr, hzf⟩ := mem_freeClusters.1 hz
  have hnew : ∀ y ∈ l ++ [x], y ≠ z := fun y hy hyz => by
    have := hc.fat_ge hy
    rw [hyz, hzf] at this
    unfold clusterFree at this
    omega
  have henv := env_grow c x z
  have hxr := hc.range x (by simp)
  have hfat := fat_grow hm hzr (.inr hxr)
  have hchain : (c.grow x z).volume.Chain d (l ++ [x] ++ [z]) := by
    refine hc.snoc henv.sizes hzr (fun hm => hnew z hm rfl) ?_ ?_ fun y hy => ?_
    · rw [hfat, if_neg (hnew x (by simp)), if_pos ⟨rfl, hxr.1⟩]
    · rw [hfat, if_pos rfl]
    · rw [hfat, if_neg (hnew y (by simp [hy])), if_neg fun hyx : y = x ∧ 2 ≤ x => hc.last_notMem (hyx.1 ▸ hy)]
  have hgeom := (henv.accepted hm).geom (c := c.grow x z)
  have hwalk : (c.grow x z).volume.Walkable d := .inr (by rw [hchain.eq hgeom]; exact hchain)
  have hlocs : (c.grow x z).volume.locs d = c.volume.locs d ++ c.volume.block z := by
    have hblock : (c.grow x z).volume.block = c.volume.block := funext fun k => by
      unfold Volume.block
      rw [henv.sizes.perCluster]
    rw [Volume.locs_of_ne h0, Volume.locs_of_ne h0, hchain.eq hgeom, hc.eq hm.geom, hblock, List.flatMap_append,
      List.flatMap_singleton]
  have hslot : ∀ p ∈ c.volume.locs d, (c.grow x z).volume.slot p = c.volume.slot p := fun p hp => by
    have hmem := ((Volume.mem_locs_sub h0).1 hp).1
    rw [hc.eq hm.geom] at hmem
    have := (hc.range _ hmem).1
    unfold Volume.slot
    rw [if_neg (by omega), if_neg (by omega), data_grow, data_alloc hm hzr, if_neg (hnew _ hmem)]
  have hblank : ∀ p ∈ c.volume.block z, ((c.grow x z).volume.slot p).name.first = nameEnd := fun p hp => by
    obtain ⟨i, -, rfl⟩ := List.mem_map.1 hp
    have := hzr.1
    unfold Volume.slot
    rw [if_neg (show z ≠ 0 by omega), data_grow, data_alloc hm hzr, if_pos rfl]
    rfl
  obtain ⟨hdir, hent⟩ := h.grow hwalk hlocs hslot hblank
  refine ⟨hdir, hent, ?_⟩
  -- the new cluster has a first slot
  obtain ⟨rest, hrest⟩ : ∃ rest, c.volume.block z = (z, 0) :: rest := by
    obtain ⟨m, hmm⟩ : ∃ m, c.volume.perCluster = m + 1 :=
      ⟨c.volume.perCluster - 1, by have := hm.geom.perCluster_ge; omega⟩
    unfold Volume.block
    rw [hmm, List.range_succ_eq_map]
    exact ⟨_, rfl⟩
  rw [hrest] at hlocs hblank
  refine hdir.takes_new hlocs (fun p hp => ?_) (hblank _ (List.mem_cons_self ..)) ?_
  · rw [hslot p hp]
    exact Volume.freeSlot_none hfull p hp
  · rw [← Volume.entries_none, hent, Volume.entries_none]
    exact hnone

/-- `fat12_write_directory_entry` updates the map, or there is no room and nothing changed. -/
theorem gives_insert (hm : c.fs.Accepted) (hf : 4096 ≤ fuel) (h : c.volume.Directory d) (hl : e.Live)
    (he : e.name = n) :
    (∃ c' p, Gives (writeDirectoryEntry fuel d n e) c .ok c' ∧ SameEnv c c' ∧ c'.volume.Directory d ∧
      c'.volume.entries d = Function.update (c.volume.entries d) n (some (e, p))) ∨
    ∃ code, Gives (writeDirectoryEntry fuel d n e) c code c ∧ code ≠ .ok := by
  have hfirst := ((RawDirEntry.live_iff e).1 hl).1
  have hfind := gives_findEntry hm hf h.walk n
  unfold writeDirectoryEntry
  cases hp : c.volume.lookup d n with
  | some p =>
    rw [hp] at hfind
    obtain ⟨c', hg, henv, hd', hent⟩ := gives_put hm h (h.takes_found hp) hfirst fun _ => he
    rw [if_pos hl] at hent
    exact .inl ⟨c', p, hfind.bind hg, henv, hd', hent⟩
  | none =>
    rw [hp] at hfind
    cases hs : c.volume.freeSlot d with
    | some p =>
      obtain ⟨c', hg, henv, hd', hent⟩ := gives_put hm h (h.takes_free hp hs) hfirst fun _ => he
      rw [if_pos hl] at hent
      exact .inl ⟨c', p, hfind.bind ((looks_findFree_some hm hf h.walk hs).gives.bind hg), henv, hd', hent⟩
    | none =>
      by_cases h0 : d = 0
      · subst h0
        exact .inr ⟨.errDirFull, hfind.bind ((looks_findFree_root hm hs fuel).gives.bind (.pure _)), by decide⟩
      · have hc := h.walk.resolve_left h0
        obtain ⟨l, x, hlx⟩ : ∃ l x, c.volume.chain d = l ++ [x] := ⟨_, _, (List.dropLast_append_getLast hc.ne).symm⟩
        rw [hlx] at hc
        have hfree := gives_findFree_sub hm hf h0 hc hs
        cases hk : firstFree c with
        | none =>
          rw [hk] at hfree
          exact .inr ⟨.errNoFreeCluster, hfind.bind (hfree.bind (.pure _)), by decide⟩
        | some z =>
          rw [hk] at hfree
          have henv := env_grow c x z
          obtain ⟨hd₁, hent₁, u⟩ := directory_grow hm h h0 hc (firstFree_some hk) hs hp
          obtain ⟨c', hg, henv', hd', hent⟩ := gives_put (henv.accepted hm) hd₁ u hfirst fun _ => he
          rw [if_pos hl, hent₁] at hent
          exact .inl ⟨c', (z, 0), hfind.bind (hfree.bind hg), henv.trans henv', hd', hent⟩

/-- `fat12_mark_entry_deleted` removes the name from the map, if it is there. -/
theorem gives_erase (hm : c.fs.Accepted) (hf : 4096 ≤ fuel) (h : c.volume.Directory d) (n : ShortName) :
    (∃ c', Gives (markEntryDeleted fuel d n) c .ok c' ∧ SameEnv c c' ∧ c'.volume.Directory d ∧
      c'.volume.entries d = Function.update (c.volume.entries d) n none) ∨
    Gives (markEntryDeleted fuel d n) c .errNotFound c := by
  have hfind := gives_findEntry hm hf h.walk n
  unfold markEntryDeleted
  cases hp : c.volume.lookup d n with
  | some p =>
    rw [hp] at hfind
    have hdead := deletedEntry_not_live (c.volume.slot p)
    obtain ⟨c', hg, henv, hd', hent⟩ := gives_put (e := deletedEntry (c.volume.slot p)) hm h (h.takes_found hp)
      (by rw [deletedEntry_first]; decide) fun hl => absurd hl hdead
    rw [if_neg hdead] at hent
    exact .inl ⟨c', hfind.bind hg, henv, hd', hent⟩
  | none =>
    rw [hp] at hfind
    exact .inr (hfind.bind (.pure _))

end

end AltoniumOS.Fat12

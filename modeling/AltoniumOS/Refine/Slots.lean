/-
Which slot a change writes, told from the volume, the arguments and the outcomes of the disk calls before the
call is made: the slot its last search meets, if no disk call fails up to there. From a volume whose FAT and
directories hold anything, no change writes a slot but this one and those of clusters of the volume.
-/
import AltoniumOS.Refine.Kept
import AltoniumOS.Refine.Reach

namespace AltoniumOS.Fat12

open AltoniumOS.Lib

/-- `k` is one of the first `m` free clusters. -/
def Core.Given (c : Core) (m k : Nat) : Prop :=
  k ∈ c.volume.freeClusters ∧ (c.volume.freeClusters.filter (· < k)).card < m

/-- An entry for `n` in `d` is stored in the slot `p`, when `m` disk calls are made before and the clusters
`given` are taken: in the slot that holds the name, or in a free one where none does, or the one that did is in
a cluster taken. No disk call fails up to the read of the slot's cluster. -/
inductive Core.EntrySlot (c : Core) (f : Nat → Option Nat) (given : Nat → Prop) (m d : Nat) (n : ShortName)
    (p : Loc) : Prop
  | found {a : Nat} : c.Search (findVerdict n) d a (some p) → (∀ k < m + a + 1, f k = none) →
    EntrySlot c f given m d n p
  | free {a b : Nat} {o : Option Loc} : c.Search (findVerdict n) d a o → (∀ q, o = some q → given q.1) →
      c.Search freeVerdict d b (some p) → (∀ k < m + a + b + 1, f k = none) → EntrySlot c f given m d n p

/-- `fat12_write_file` writes the slot `p`: the arguments are in order, the path leads to a directory, which has no
directory of the name, and the data fits. -/
def Core.FileSlot (c : Core) (f : Nat → Option Nat) (path : List UInt8) (data : Option Buf) (size : Nat)
    (p : Loc) : Prop :=
  ∃ r d n a o, c.Names path r d n ∧ (data = none → size = 0) ∧ c.Search (findVerdict n) d a o ∧
    (∀ q, o = some q → (c.slotIn q).isDirectory = false) ∧ c.volume.clustersFor size ≤ c.volume.freeClusters.card ∧
    c.EntrySlot f (c.Given (c.volume.clustersFor size)) (r + a + 2 * c.volume.clustersFor size) d n p

/-- `i` disk calls on, behind `r` calls, the search for `n` in `d` has ended without finding it: there is none,
or a read failed. -/
def Core.Misses (c : Core) (f : Nat → Option Nat) (r d : Nat) (n : ShortName) (i : Nat) : Prop :=
  (∃ a, i = r + a ∧ c.Search (findVerdict n) d a none ∧ ∀ k < i, f k = none) ∨
  ∃ j, i = r + j + 1 ∧ FailsAt f (r + j) ∧ ∀ a o, c.Search (findVerdict n) d a o → j < a

/-- `fat12_create_directory` writes the slot `p`: the path leads to a directory, where the name is missed, and a
cluster is free. -/
def Core.DirectorySlot (c : Core) (f : Nat → Option Nat) (path : List UInt8) (p : Loc) : Prop :=
  ∃ r d n i, c.Names path r d n ∧ c.Misses f r d n i ∧ 1 ≤ c.volume.freeClusters.card ∧
    c.EntrySlot (later f i) (c.Given 1) 2 d n p

/-- `fat12_delete_file` writes the slot `p`: the path leads to a file there, and still does when its chain is
freed. -/
def Core.DeletedSlot (c : Core) (f : Nat → Option Nat) (path : List UInt8) (p : Loc) : Prop :=
  ∃ r d n a, c.Names path r d n ∧ c.Search (findVerdict n) d a (some p) ∧ (c.slotIn p).isDirectory = false ∧
    (∀ q, c.Passes (findVerdict n) d q → ¬ c.Visited (c.slotIn p).cluster q) ∧ ∀ k < r + a + a + 1, f k = none

/-! ## The clusters taken -/

/-- The clusters `l` are free, and no other one before them is. -/
structure Core.FirstFit (c : Core) (l : List Nat) : Prop where
  nodup : l.Nodup
  free : ∀ k ∈ l, k ∈ c.volume.freeClusters
  first : ∀ x ∈ c.volume.freeClusters, x ∉ l → ∀ k ∈ l, k < x

/-- Outside the volume, a cluster holds what it held. -/
def Outside (c c' : Core) : Prop :=
  ∀ k, inChain k = true → ¬ c.fs.HasCluster k → ∀ x < sectorSize * c.fs.sectorsPerCluster,
    c'.clusterBytes k x = c.clusterBytes k x

section

variable {c c' : Core} {l : List Nat} {k : Nat}

theorem Core.FirstFit.isGiven (h : c.FirstFit l) (hk : k ∈ l) : c.Given l.length k := by
  refine ⟨h.free k hk, ?_⟩
  have hsub : c.volume.freeClusters.filter (· < k) ⊆ l.toFinset.erase k := fun x hx => by
    obtain ⟨hx, hlt⟩ := Finset.mem_filter.1 hx
    refine Finset.mem_erase.2 ⟨by omega, List.mem_toFinset.2 ?_⟩
    by_contra hxl
    have := h.first x hx hxl k hk
    omega
  have hle := Finset.card_le_card hsub
  rw [Finset.card_erase_of_mem (List.mem_toFinset.2 hk), List.toFinset_card_of_nodup h.nodup] at hle
  have := List.length_pos_of_mem hk
  omega

theorem Core.FirstFit.nil (c : Core) : c.FirstFit [] :=
  ⟨List.nodup_nil, fun _ h => (by cases h), fun _ _ _ _ h => by cases h⟩

/-- The next cluster taken is the first one free. -/
theorem Core.FirstFit.snoc (h : c.FirstFit l) (t : Took c c' l) (hk : firstFree c' = some k) :
    c.FirstFit (l ++ [k]) := by
  have hmem : ∀ x, x ∈ c'.volume.freeClusters ↔ x ∈ c.volume.freeClusters ∧ x ∉ l := fun x => by
    rw [t.freeClusters, Finset.mem_sdiff, List.mem_toFinset]
  obtain ⟨hkc, hkl⟩ := (hmem k).1 (firstFree_some hk)
  refine ⟨List.nodup_append.2 ⟨h.nodup, List.nodup_singleton k, fun a ha b hb => ?_⟩, fun x hx => ?_,
    fun x hx hxl y hy => ?_⟩
  · rw [List.mem_singleton.1 hb]
    exact fun hab => hkl (hab ▸ ha)
  · rcases List.mem_append.1 hx with hx | hx
    · exact h.free x hx
    · rw [List.mem_singleton.1 hx]
      exact hkc
  · have hx' : x ∉ l := fun hm => hxl (List.mem_append_left _ hm)
    rcases List.mem_append.1 hy with hy | hy
    · exact h.first x hx hx' y hy
    · rw [List.mem_singleton.1 hy]
      have hle := firstFree_le hk ((hmem x).2 ⟨hx, hx'⟩)
      have hne : x ≠ k := fun hxk => hxl (by simp [hxk])
      omega

theorem Outside.refl (c : Core) : Outside c c := fun _ _ _ _ _ => rfl

/-- Clusters taken one behind the other. -/
theorem Took.leaves (t : Took c c' l) (hm : c.fs.Accepted) (ho : Outside c c')
    (hends : ∀ k ∈ l, c'.volume.fat k ∈ l ∨ inChain (c'.volume.fat k) = false) : Taken c c' l := by
  refine ⟨t.env.fs, t.root, fun v k hk hkl => ?_, fun k hk => t.fat_ne hk, hends, fun k hk =>
    (mem_freeClusters.1 (t.free k hk)).2⟩
  have hb : ∀ x < sectorSize * c.fs.sectorsPerCluster, c'.clusterBytes k x = c.clusterBytes k x := fun x hx => by
    by_cases hv : c.fs.HasCluster k
    · have hr : 2 ≤ k ∧ k < c.fs.totalClusters + 2 ∧ x < c.fs.clusterSizeBytes :=
        ⟨hv.1, hv.2, by rw [hm.clusterSize_eq]; exact hx⟩
      have hx := congrFun (t.data k hkl) x
      rw [show c.volume.data k x = c.clusterBytes k x from if_pos hr,
        show c'.volume.data k x = c'.clusterBytes k x from if_pos (by rw [t.env.fs]; exact hr)] at hx
      exact hx
    · exact ho k hk hv x hx
  rw [← scan_buffer hm hb v]
  unfold Core.scanIn
  rw [t.env.fs]

end

/-! ## The owner of a slot written -/

section

variable {c : Core} {f : Nat → Option Nat} {path : List UInt8} {p : Loc}

theorem Core.EntrySlot.owner {given : Nat → Prop} {m d : Nat} {n : ShortName} (h : c.EntrySlot f given m d n p) :
    p.1 = 0 ∨ inChain p.1 = true := by
  cases h with
  | found hp _ => exact hp.owner
  | free _ _ hp _ => exact hp.owner

theorem Core.FileSlot.owner {data : Option Buf} {size : Nat} (h : c.FileSlot f path data size p) :
    p.1 = 0 ∨ inChain p.1 = true := by
  obtain ⟨_, _, _, _, _, -, -, -, -, -, h⟩ := h
  exact h.owner

theorem Core.DirectorySlot.owner (h : c.DirectorySlot f path p) : p.1 = 0 ∨ inChain p.1 = true := by
  obtain ⟨_, _, _, _, -, -, -, h⟩ := h
  exact h.owner

theorem Core.DeletedSlot.owner (h : c.DeletedSlot f path p) : p.1 = 0 ∨ inChain p.1 = true := by
  obtain ⟨_, _, _, _, -, h, -⟩ := h
  exact h.owner

end

/-! ## The changes -/

namespace Kept

variable {fs : Fs} {O : Nat → Prop} {I J : State → Prop} {c : Core} {w : List (Nat × List Buf)}
  {f : Nat → Option Nat} {N d : Nat} {n : ShortName}

/-- The clusters outside the volume are kept as well. -/
theorem outside (K : Kept fs O I J) (c : Core) (hc : c.fs = fs) :
    Kept fs O (fun s => I s ∧ Outside c s.toCore) J where
  accepted := K.accepted
  blind := fun s s' h1 h2 ⟨h3, h4⟩ => ⟨K.blind s s' h1 h2 h3, by rw [h1]; exact h4⟩
  blind' := K.blind'
  weaken := fun s hs => K.weaken s hs.1
  layout := K.layout
  unlink := fun s k v ⟨h1, h2⟩ hk hv => ⟨K.unlink s k v h1 hk hv, h2⟩
  unlink' := K.unlink'
  link := fun s k v ⟨h1, h2⟩ hk hv he => ⟨K.link s k v h1 hk hv he, h2⟩
  fill := fun s k b m ⟨h1, h2⟩ hk he hm => by
    refine ⟨K.fill s k b m h1 hk he hm, fun j hj hv x hx => ?_⟩
    have hfs := K.layout s (K.weaken s h1)
    have hj' := inChain_iff.1 hj
    have hne : j ≠ k := fun hjk => hv (by rw [hc, hjk]; exact hk)
    have hc' := K.accepted.clusters.2
    have hlt := hk.2
    rw [← h2 j hj hv x hx]
    subst hfs
    exact clusterBytes_written K.accepted hk.1 hj'.1 (by omega) (by omega) hne hm (by rw [← hc]; exact hx)
  root := K.root
  store := K.store
  own := K.own

section

variable (K : Kept fs O I J)

include K

/-- What is known of the core and the log alone, when they are known. -/
theorem still {s s' : State} (hs : I s) (h : Still s.toCore s.writes s') : I s' := K.blind s s' h.core h.log hs

/-! ### The slot -/

/-- The slot is written if its cluster is read. -/
theorem carries_store {p : Loc} (hfs : c.fs = fs) (hJ : ∀ s, Still c w s → J s)
    (hp : (∀ k < N + 1, f k = none) → Open O p) (e : RawDirEntry) :
    Carries (At c w f N) J (fun _ s => J s) (writeEntry p e) := by
  have hend : ∀ {m : M Code}, Keeps J m → Carries (At c w f N) J (fun _ s => J s) m := fun h =>
    ((h.carries fun s hs => hs).pre fun s hs => hJ s hs.toStill).post fun _ _ h => h.1
  by_cases hopen : Open O p
  · exact hend (K.keeps_writeEntry hopen e)
  · have h0 : p.1 ≠ 0 := fun h0 => hopen (.inl h0)
    have hacc : c.fs.Accepted := hfs ▸ K.accepted
    have hbind := (carries_readCluster (w := w) (f := f) (N := N) hacc p.1)
    unfold writeEntry
    refine Carries.bind (R := fun c' s => At c w f N s ∧ c' = c) (fun s hs => ?_) fun c' =>
      Carries.of_and fun hc => ?_
    · exact ⟨hJ s hs.toStill, (carries_getCore s hs).2⟩
    rw [if_neg h0]
    intro s hs
    rw [bind_run]
    obtain ⟨h1, h2⟩ := hbind s hs
    cases hr : readCluster p.1 s with
    | error e s' =>
      rw [hr] at h1
      exact ⟨hJ s' h1, fun _ _ hr => by cases hr⟩
    | ok r s' =>
      obtain ⟨-, -, hat⟩ | ⟨hfail, hb⟩ := h2 r s' hr
      · exact absurd (hp hat.ok) hopen
      · obtain ⟨ok, b⟩ := r
        cases hfail
        exact ⟨hJ s' hb.toStill, fun _ _ hr => by cases hr; exact hJ s' hb.toStill⟩

/-- A free slot, or one in a new cluster. -/
theorem carries_findFreeEntry (hfs : c.fs = fs) (hI : ∀ s, Still c w s → I s) (fuel : Nat) :
    Carries (At c w f N) J (fun r s => J s ∧ ∀ p, r = .ok p → Open O p ∨ c.Sought w f N freeVerdict d (some p) s)
      (findFreeEntry fuel d) := by
  have hJ : ∀ s, Still c w s → J s := fun s hs => K.weaken s (hI s hs)
  have hacc : c.fs.Accepted := hfs ▸ K.accepted
  unfold findFreeEntry
  refine (carries_getCore.weaken hJ).bind fun c' => Carries.of_and fun hc => ?_
  subst hc
  split
  · split
    · exact .pure fun s hs => ⟨hJ s hs.toStill, hJ s hs.toStill, fun p hp => by cases hp; exact .inl (.inl rfl)⟩
    · exact .pure fun s hs => ⟨hJ s hs.toStill, hJ s hs.toStill, fun p hp => by cases hp⟩
  · rename_i h0
    refine ((carries_freeLoop hacc h0 fuel).weaken hJ).bind fun r => ?_
    rintro s ⟨hs, hr⟩
    cases r with
    | inl r => exact ⟨hJ s hs, fun a s' he => by cases he; exact ⟨hJ s hs, fun p hp => .inr (hr p hp)⟩⟩
    | inr previous =>
      exact ((K.carries_appendCluster hr).post fun r s hs => ⟨hs.1, fun p hp => .inl (hs.2 p hp)⟩) s (hI s hs)

/-- Storing the entry, from the second search on. -/
theorem carries_writeDirectoryEntry (hfs : c.fs = fs) (hI : ∀ s, Still c w s → I s)
    (hfound : ∀ a p, c.Search (findVerdict n) d a (some p) → (∀ k < N + a + 1, f k = none) → Open O p)
    (hfree : ∀ a b p, c.Search (findVerdict n) d a none → c.Search freeVerdict d b (some p) →
      (∀ k < N + a + b + 1, f k = none) → Open O p)
    (fuel : Nat) (e : RawDirEntry) : Carries (At c w f N) J (fun _ s => J s) (writeDirectoryEntry fuel d n e) := by
  have hJ : ∀ s, Still c w s → J s := fun s hs => K.weaken s (hI s hs)
  have hacc : c.fs.Accepted := hfs ▸ K.accepted
  unfold writeDirectoryEntry
  refine ((carries_findEntry hacc fuel d n).weaken hJ).bind fun r => ?_
  rintro s (⟨p, rfl, a, hs, hp⟩ | ⟨rfl, a, hs, ha⟩ | ⟨rfl, i, hs, -⟩)
  · exact K.carries_store hfs hJ (hfound a p hp) e s hs
  · refine (show Carries (At c w f (N + a)) _ _ _ from (K.carries_findFreeEntry hfs hI fuel).bind fun r => ?_) s hs
    rintro s ⟨hs, hr⟩
    cases r with
    | error e => exact ⟨hs, fun _ _ he => by cases he; exact hs⟩
    | ok p =>
      rcases hr p rfl with hp | ⟨b, hat, hb⟩
      · exact (((K.keeps_writeEntry hp e).carries fun s hs => hs).post fun _ _ h => h.1) s hs
      · exact K.carries_store hfs hJ (hfree a b p ha hb) e s hat
  · exact ⟨hJ s hs.toStill, fun _ _ he => by cases he; exact hJ s hs.toStill⟩

/-- Behind the clusters taken, the entry is stored in the slot it would have had before, or in one of them. -/
theorem carries_entry {c₁ : Core} {w₁ : List (Nat × List Buf)} {l : List Nat} (t : Taken c c₁ l)
    (hfit : c.FirstFit l) (hfs : c.fs = fs) (hI : ∀ s, Still c₁ w₁ s → I s)
    (hslot : ∀ p, c.EntrySlot f (c.Given l.length) N d n p → Open O p) (fuel : Nat) (e : RawDirEntry) :
    Carries (At c₁ w₁ f N) J (fun _ s => J s) (writeDirectoryEntry fuel d n e) := by
  have hl : ∀ {p : Loc}, p.1 ∈ l → Open O p := fun {p} hp => by
    have hr := (mem_freeClusters.1 (hfit.free p.1 hp)).1
    exact .inr (K.own _ ⟨hr.1, by rw [← hfs]; exact hr.2.1⟩)
  refine K.carries_writeDirectoryEntry (t.fs.trans hfs) hI (fun a p hp hok => ?_) (fun a b p ha hp hok => ?_) fuel e
  · rcases t.search hp with hp | ⟨hp, -⟩
    · exact hslot p (.found hp hok)
    · exact hl (hp p rfl)
  · rcases t.search hp with hp | ⟨hp, -⟩
    · rcases t.search ha with ha | ⟨-, a', o, ha, hle, ho⟩
      · exact hslot p (.free ha (fun q hq => by cases hq) hp hok)
      · exact hslot p (.free ha (fun q hq => hfit.isGiven (ho q hq)) hp fun k hk => hok k (by omega))
    · exact hl (hp p rfl)

/-! ### Writing a file -/

/-- Between two rounds of the loop of `fat12_write_file`, `N` calls having been made before. -/
def Storing (c : Core) (f : Nat → Option Nat) (N : Nat) (data : Buf) (size : Nat) (I : State → Prop)
    (i : Nat × Nat × Nat) (s : State) : Prop :=
  I s ∧ ∃ l, Writing data size c s.toCore l i.1 i.2.1 i.2.2 ∧ c.FirstFit l ∧
    At s.toCore s.writes f (N + 2 * l.length) s

/-- Behind it. -/
def Stored (c : Core) (f : Nat → Option Nat) (N : Nat) (data : Buf) (size : Nat) (I : State → Prop)
    (s : State) : Prop :=
  ∃ i, Storing c f N data size I i s ∧ ¬ i.2.2 < size

theorem carries_writeRound_storing (hfs : c.fs = fs) (fuel : Nat) (data : Buf) (size : Nat) (i : Nat × Nat × Nat) :
    Carries (Storing c f N data size I i) J (fun r s => match r with
      | .inl i' => Storing c f N data size I i' s
      | .inr r => J s ∧ ∀ first, r = .ok first → Stored c f N data size I s) (writeRound fuel data size i) := by
  obtain ⟨first, prev, written⟩ := i
  rintro s ⟨hs, l, hw, hfit, hat⟩
  have hacc : c.fs.Accepted := hfs ▸ K.accepted
  obtain ⟨hend, hkeep⟩ := K.carries_writeRound fuel data size (first, prev, written) s hs
  refine ⟨hend, fun r s' hr => ?_⟩
  have hs' := hkeep r s' hr
  by_cases hlt : written < size
  · cases hk : firstFree s.toCore with
    | none =>
      -- no cluster is left
      rw [writeRound, if_pos hlt] at hr
      obtain ⟨k, s₁, h1, h2⟩ := bind_eq_ok hr
      obtain ⟨rfl, -, -⟩ := (runs_allocateCluster_none hk s.faults).eq_of_ok rfl trivial h1
      rw [if_pos rfl] at h2
      obtain ⟨_, s₂, -, h4⟩ := bind_eq_ok h2
      cases h4
      exact ⟨K.weaken s' hs', fun first h => by cases h⟩
    | some k =>
      have hfree := firstFree_some hk
      have hstep := hw.step hacc hlt hfree
      cases r with
      | inl i' =>
        obtain ⟨hok, hspent, hi, hcore⟩ :=
          (heeds_writeRound fuel data size (first, prev, written)).spends (spends_writeRound hacc hw fuel hlt hk) hr
          fun b hb => by cases hb
        cases hi
        refine ⟨hs', l ++ [k], hcore ▸ hstep, hfit.snoc hw.took hk, ⟨rfl, rfl⟩, ?_, ?_⟩
        · rw [hspent, hat.spent, later_later, List.length_append, List.length_singleton]
          congr 1
          omega
        · rw [hat.spent] at hok
          have h := succeeds_append hat.ok hok
          rw [List.length_append, List.length_singleton]
          exact fun k hk => h k (by omega)
      | inr r =>
        refine ⟨K.weaken s' hs', fun first' hr' => ?_⟩
        subst hr'
        have hserved : ∀ b, (Sum.inr (.ok first') : Nat × Nat × Nat ⊕ Except Code Nat) = .inr b → Served b :=
          fun b hb => by
            cases hb
            exact ⟨fun h => (by cases h), fun h => by cases h⟩
        obtain ⟨-, -, hi, -⟩ :=
          (heeds_writeRound fuel data size (first, prev, written)).spends
            (spends_writeRound hacc hw fuel hlt hk) hr hserved
        cases hi
  · rw [writeRound, if_neg hlt] at hr
    cases hr
    exact ⟨K.weaken s hs', fun first' _ => ⟨(first, prev, written), ⟨hs, l, hw, hfit, hat⟩, hlt⟩⟩

theorem carries_writeLoop (hfs : c.fs = fs) (hI : ∀ s, Still c w s → I s) (fuel : Nat) (data : Buf) (size : Nat) :
    Carries (At c w f N) J (fun r s => J s ∧ ∀ first, r = .ok first → Stored c f N data size I s)
      (writeLoop fuel data size) := by
  have hacc : c.fs.Accepted := hfs ▸ K.accepted
  refine (Carries.loop (L := Storing c f N data size I) (fun i s hs => K.weaken s hs.1) (fun r s hs => hs.1)
    (fun i => (K.carries_writeRound_storing hfs fuel data size i).post fun r s hr => ?_) fuel (0, 0, 0)).pre
      fun s hs => ?_
  · cases r with
    | inl i' => exact hr
    | inr r => exact hr
  · obtain ⟨⟨rfl, rfl⟩, h1, h2⟩ := hs
    exact ⟨hI s ⟨rfl, rfl⟩, [], .start hacc data size, .nil s.toCore, ⟨rfl, rfl⟩, h1, h2⟩

theorem carries_commitFile {c₁ : Core} {w₁ : List (Nat × List Buf)} {l : List Nat} (t : Taken c c₁ l)
    (hfit : c.FirstFit l) (hfs : c.fs = fs) (hI : ∀ s, Still c₁ w₁ s → I s)
    (hslot : ∀ p, c.EntrySlot f (c.Given l.length) N d n p → Open O p) (fuel : Nat) (old : Option Nat)
    (first size : Nat) : Carries (At c₁ w₁ f N) J (fun _ s => J s) (commitFile fuel d n old first size) := by
  have hfree : ∀ {m : M Unit} (r : Code), Keeps J m → Carries J J (fun _ s => J s) (m >>= fun _ => pure r) :=
    fun r h =>
    ((h.carries fun s hs => hs).bind fun _ => .pure fun s hs => ⟨hs.1, hs.1⟩)
  unfold commitFile
  refine (K.carries_entry t hfit hfs hI hslot fuel _).bind fun r => ?_
  split
  · split
    · exact .pure fun s hs => ⟨hs, hs⟩
    · split
      · exact hfree _ (K.keeps_freeChain fuel _)
      · exact .pure fun s hs => ⟨hs, hs⟩
  · exact hfree _ (K.keeps_freeFrom fuel _)

/-- `fat12_write_file` behind its search for the name. -/
theorem carries_storeFile (hfs : c.fs = fs) (hI : ∀ s, Still c w s → I s) (fuel : Nat) (data : Buf)
    (old : Option Nat) (size : Nat)
    (hslot : c.volume.clustersFor size ≤ c.volume.freeClusters.card → ∀ p,
      c.EntrySlot f (c.Given (c.volume.clustersFor size)) (N + 2 * c.volume.clustersFor size) d n p → Open O p) :
    Carries (At c w f N) J (fun _ s => J s) (do
      match ← writeLoop fuel data size with
      | .error e => pure e
      | .ok firstCluster => commitFile fuel d n old firstCluster size) := by
  have hacc : c.fs.Accepted := hfs ▸ K.accepted
  have K' := K.outside c hfs
  refine (K'.carries_writeLoop hfs (fun s hs => ⟨hI s hs, hs.core ▸ .refl c⟩) fuel data size).bind fun r => ?_
  rintro s ⟨hs, hr⟩
  cases r with
  | error e => exact ⟨hs, fun _ _ he => by cases he; exact hs⟩
  | ok first =>
    obtain ⟨⟨i, prev, written⟩, ⟨⟨hIs, hout⟩, l, hw, hfit, hat⟩, hdone⟩ := hr first rfl
    have hlen := hw.length_eq hacc hdone
    have t := hw.took.leaves hacc hout fun k hk => by
      rcases hw.links with ⟨rfl, -, -⟩ | ⟨l', -, hc⟩
      · cases hk
      · obtain ⟨z, hz, hle⟩ := hc.linked
        exact (hz.next_mem hk).imp_right fun he => by rw [he]; exact Volume.inChain_of_eoc hle
    have hcard := hw.took.card
    rw [← hlen] at hslot
    exact K.carries_commitFile t hfit hfs (fun s' => K.still hIs) (hslot (by omega)) fuel old first size s hat

/-! ### Making a directory, and deleting a file -/

/-- A cluster taken is the first one free. -/
theorem carries_take (hfs : c.fs = fs) (hI : ∀ s, Still c w s → I s) :
    Carries (At c w f N) J (fun k s => J s ∧
      (k ≠ 0 → firstFree c = some k ∧ Fresh fs I k s ∧ At (c.alloc k) s.writes f (N + 1) s)) allocateCluster := by
  have hacc : c.fs.Accepted := hfs ▸ K.accepted
  intro s hs
  obtain ⟨hend, hkeep⟩ := K.carries_allocateCluster s (hI s hs.toStill)
  refine ⟨hend, fun k s' hr => ?_⟩
  obtain ⟨hIs, hfresh⟩ := hkeep k s' hr
  refine ⟨K.weaken s' hIs, fun hk0 => ?_⟩
  obtain ⟨⟨rfl, rfl⟩, hspent, hok⟩ := hs
  cases hk : firstFree s.toCore with
  | none => exact absurd ((runs_allocateCluster_none hk s.faults).eq_of_ok rfl trivial hr).1 hk0
  | some z =>
    obtain ⟨h1, h2, rfl, h3⟩ := heeds_allocateCluster.spends (Spends.allocateCluster hacc hk) hr hk0
    refine ⟨rfl, hfresh hk0, ⟨h3, rfl⟩, by rw [h2, hspent, later_later, Nat.add_comm], ?_⟩
    rw [hspent] at h1
    exact succeeds_append hok h1

/-- And is filled. -/
theorem carries_put {k : Nat} {buffer b : Buf} (hfs : c.fs = fs)
    (hb : ∀ i < sectorSize * c.fs.sectorsPerCluster, buffer i = b i) :
    Carries (fun s => Fresh fs I k s ∧ At c s.writes f N s) J (fun ok s => J s ∧
      (ok = true → Fresh fs I k s ∧ At (c.putCluster k b) s.writes f (N + 1) s)) (writeCluster k buffer) := by
  have hacc : c.fs.Accepted := hfs ▸ K.accepted
  rintro s ⟨hs, ⟨rfl, -⟩, hspent, hok⟩
  obtain ⟨hend, hkeep⟩ := K.carries_fill k buffer s hs
  refine ⟨hend, fun ok s' hr => ?_⟩
  have hs' := hkeep ok s' hr
  refine ⟨K.weaken s' hs'.1, fun htrue => ?_⟩
  obtain ⟨h1, h2, -, h3⟩ := (heeds_writeCluster k buffer).spends (Spends.writeCluster hacc.spc_ne hb) hr htrue
  refine ⟨hs', ⟨h3, rfl⟩, by rw [h2, hspent, later_later, Nat.add_comm], ?_⟩
  rw [hspent] at h1
  exact succeeds_append hok h1

/-- `fat12_create_directory` behind its search for the name. -/
theorem carries_createBehind (hfs : c.fs = fs) (hI : ∀ s, Still c w s → I s) (fuel : Nat)
    (hslot : 1 ≤ c.volume.freeClusters.card → ∀ p, c.EntrySlot f (c.Given 1) (N + 2) d n p → Open O p) :
    Carries (At c w f N) J (fun _ s => J s) (createBehind fuel c.fs d n) := by
  have hacc : c.fs.Accepted := hfs ▸ K.accepted
  have K' := K.outside c hfs
  have hback : ∀ (k : Nat) (r : Code), Carries J J (fun _ s => J s) (freeChain fuel k >>= fun _ => pure r) :=
    fun k r =>
    ((K.keeps_freeChain fuel k).carries fun s hs => hs).bind fun _ => .pure fun s hs => ⟨hs.1, hs.1⟩
  unfold createBehind
  refine (K'.carries_take hfs fun s hs => ⟨hI s hs, hs.core ▸ .refl c⟩).bind fun k => ?_
  split
  · -- no cluster was free, or it could not be zeroed
    exact .pure fun s hs => ⟨hs.1, hs.1⟩
  rename_i hk0
  rintro s ⟨-, hs⟩
  obtain ⟨hk, hs⟩ := hs hk0
  have hkf := firstFree_some hk
  have hkr := (mem_freeClusters.1 hkf).1
  have henv := env_alloc c k
  -- the buffer is scratch
  refine (show Carries (fun s => Fresh fs (fun s => I s ∧ Outside c s.toCore) k s ∧
    At (c.alloc k) s.writes f (N + 1) s) J (fun _ s => J s) _ from ?_) s hs
  refine Carries.bind (R := fun _ s => Fresh fs (fun s => I s ∧ Outside c s.toCore) k s ∧
    At (c.alloc k) s.writes f (N + 1) s) (fun s hs => ⟨K.weaken s hs.1.1.1, fun b s' hr => by cases hr; exact hs⟩)
      fun b => ?_
  refine Carries.bind (R := fun _ s => Fresh fs (fun s => I s ∧ Outside c s.toCore) k s ∧
    At (c.alloc k) s.writes f (N + 1) s) (fun s ⟨h1, ⟨h2, _⟩, h3, h4⟩ => ?_) fun _ => ?_
  · have hfresh : Fresh fs (fun s => I s ∧ Outside c s.toCore) k
        { s with clusterBuffer := dotBuffer b c.fs.clusterSizeBytes k d } :=
      blind_fresh fs K'.blind k s _ rfl rfl h1
    exact ⟨K.weaken _ hfresh.1.1, fun _ s' hr => by cases hr; exact ⟨hfresh, ⟨h2, rfl⟩, h3, h4⟩⟩
  have hbuf : ∀ x < sectorSize * (c.alloc k).fs.sectorsPerCluster, dotBuffer b c.fs.clusterSizeBytes k d x =
      dotBuffer (fun _ => 0) c.fs.clusterSizeBytes k d x := fun x hx => dotBuffer_congr b _ k d x (by
    rw [henv.fs, ← hacc.clusterSize_eq] at hx
    exact hx)
  refine (K'.carries_put (henv.fs.trans hfs) hbuf).bind fun ok => ?_
  split
  · -- the dot entries are stored, and the searches see the volume with the cluster taken
    rename_i hok
    rintro s ⟨-, hs⟩
    obtain ⟨⟨⟨hIs, hout⟩, -⟩, hat⟩ := hs hok
    have hcore : s.toCore = c.dots k d := hat.core
    have t : Took c (c.dots k d) [k] := ((Took.refl c).alloc hacc hkf).putCluster hacc (List.mem_singleton.2 rfl) _
    have t' := t.leaves hacc (hcore ▸ hout) fun x hx => by
      rw [List.mem_singleton.1 hx]
      refine .inr ?_
      change inChain ((c.alloc k).volume.fat k) = false
      rw [fat_alloc hkr, if_pos rfl]
      decide
    have hfit : c.FirstFit [k] := by
      have := (Core.FirstFit.nil c).snoc (Took.refl c) hk
      exact this
    refine (show Carries (At (c.dots k d) s.writes f (N + 2)) J (fun _ s => J s) _ from
      (K.carries_entry t' hfit hfs (fun s' hs' => K.blind s s' (hs'.core.trans hcore.symm) hs'.log hIs)
        (hslot (Finset.card_pos.2 ⟨k, hkf⟩)) fuel _).bind fun r => ?_) s hat
    split
    · exact .pure fun s hs => ⟨hs, hs⟩
    · exact hback k _
  · exact (hback k _).pre fun s hs => hs.1

/-- Freeing the clusters of a file makes no disk call. -/
theorem carries_freeFile (hfs : c.fs = fs) (hI : ∀ s, Still c w s → I s) (fuel k : Nat) :
    Carries (At c w f N) J (fun _ s => I s ∧ At s.toCore s.writes f N s ∧ Freed c (c.Visited k) s.toCore ∧
      s.rootDir = c.rootDir ∧ s.sectors = c.sectors) (freeFrom fuel k) := by
  intro s hs
  obtain ⟨hend, hkeep⟩ := K.carries_freeFrom fuel k s (hI s hs.toStill)
  refine ⟨hend, fun u s' hr => ?_⟩
  have hs' := hkeep u s' hr
  obtain ⟨⟨rfl, rfl⟩, hspent, hok⟩ := hs
  unfold freeFrom at hr
  split at hr
  · -- with more fuel the loop ends as it did
    have hcard := card_busy_le s.toCore
    have hfuel : (busy s.toCore).card + 2 ≤ fuel + 4088 := by omega
    obtain ⟨fat, dirty, hrun, -, hfreed⟩ := @freeChain_freed _ k _ hfuel s rfl
    have hmore := (loop_mono 4088 hr).symm.trans hrun
    cases hmore
    exact ⟨hs', ⟨⟨rfl, rfl⟩, hspent, hok⟩, hfreed, rfl, rfl⟩
  · rename_i h2
    cases hr
    refine ⟨hs', ⟨⟨rfl, rfl⟩, hspent, hok⟩, .refl fun x => not_visited ?_ x, rfl, rfl⟩
    exact Bool.eq_false_iff.2 fun hin => h2 (inChain_iff.1 hin).1

/-- `fat12_delete_file` behind its search for the name. -/
theorem carries_removeFile (hfs : c.fs = fs) (hI : ∀ s, Still c w s → I s) (fuel k : Nat)
    (hslot : ∀ a p, c.Search (findVerdict n) d a (some p) → (∀ q, c.Passes (findVerdict n) d q → ¬ c.Visited k q) →
      (∀ j < N + a + 1, f j = none) → Open O p) : Carries (At c w f N) J (fun _ s => J s) (do
    freeFrom fuel k
    markEntryDeleted fuel d n) := by
  refine (K.carries_freeFile hfs hI fuel k).bind fun _ => ?_
  rintro s ⟨hs, hat, hfreed, hroot, hsec⟩
  have hfs' : s.fs = fs := K.layout s (K.weaken s hs)
  have hI' : ∀ s', Still s.toCore s.writes s' → I s' := fun s' => K.still hs
  have hJ : ∀ s', Still s.toCore s.writes s' → J s' := fun s' h => K.weaken s' (hI' s' h)
  have hacc : s.fs.Accepted := hfs'.symm ▸ K.accepted
  refine (show Carries (At s.toCore s.writes f N) J (fun _ s => J s) (markEntryDeleted fuel d n) from ?_) s hat
  unfold markEntryDeleted
  refine ((carries_findEntry hacc fuel d n).weaken hJ).bind fun r => ?_
  rintro s' (⟨p, rfl, a, hs', hp⟩ | ⟨rfl, a, hs', -⟩ | ⟨rfl, i, hs', -⟩)
  · obtain ⟨h1, h2⟩ := hfreed.search hroot hsec hp
    exact K.carries_store hfs' hJ (hslot a p h1 h2) _ s' hs'
  · exact ⟨hJ s' hs'.toStill, fun _ _ he => by cases he; exact hJ s' hs'.toStill⟩
  · exact ⟨hJ s' hs'.toStill, fun _ _ he => by cases he; exact hJ s' hs'.toStill⟩

/-! ### The calls up to their flush -/

/-- The path is resolved first. -/
theorem carries_named {path : List UInt8} {k : Except Code (Nat × ShortName) → M Code} (hfs : c.fs = fs)
    (hJ : ∀ s, Still c w s → J s) (fuel : Nat) (herr : ∀ e, k (.error e) = pure e)
    (hok : ∀ d n r, c.Names path r d n → Carries (At c w f (N + r)) J (fun _ s => J s) (k (.ok (d, n)))) :
    Carries (At c w f N) J (fun _ s => J s) (resolveParentAndName fuel path >>= k) := by
  have hacc : c.fs.Accepted := hfs ▸ K.accepted
  refine ((carries_resolveParentAndName hacc fuel path).weaken hJ).bind fun r => ?_
  rintro s ⟨hs, hr⟩
  cases r with
  | error e =>
    rw [herr]
    exact ⟨hJ s hs, fun _ _ he => by cases he; exact hJ s hs⟩
  | ok r =>
    obtain ⟨d, n⟩ := r
    obtain ⟨m, hat, hn⟩ := hr d n rfl
    exact hok d n m hn s hat

theorem carries_writeFileBody {path : List UInt8} {data : Option Buf} {size : Nat} (hfs : c.fs = fs)
    (hI : ∀ s, Still c w s → I s) (fuel : Nat) (hslot : ∀ p, c.FileSlot f path data size p → Open O p) :
    Carries (At c w f 0) J (fun _ s => J s) (writeFileBody fuel path data size) := by
  have hJ : ∀ s, Still c w s → J s := fun s hs => K.weaken s (hI s hs)
  have hacc : c.fs.Accepted := hfs ▸ K.accepted
  unfold writeFileBody
  refine (carries_getCore.weaken hJ).bind fun c' => Carries.of_and fun hc => ?_
  subst hc
  split
  · exact .pure fun s hs => ⟨hJ s hs.toStill, hJ s hs.toStill⟩
  · split
    · exact .pure fun s hs => ⟨hJ s hs.toStill, hJ s hs.toStill⟩
    · rename_i hdata
      have hdata : data = none → size = 0 := fun h => by
        by_contra hs
        exact hdata ⟨by rw [h]; rfl, Nat.pos_of_ne_zero hs⟩
      refine K.carries_named hfs hJ fuel (fun _ => rfl) fun d n r hn => ?_
      refine ((carries_findEntry hacc fuel d n).weaken hJ).bind fun r' => ?_
      rintro s (⟨p, rfl, a, hs, hp⟩ | ⟨rfl, a, hs, ha⟩ | ⟨rfl, i, hs, -⟩)
      · dsimp only
        split
        · exact ⟨hJ s hs.toStill, fun _ _ he => by cases he; exact hJ s hs.toStill⟩
        · rename_i hfile
          refine K.carries_storeFile hfs hI fuel _ _ size (fun hroom q hq => hslot q ?_) s hs
          refine ⟨r, d, n, a, some p, hn, hdata, hp, fun q hq => ?_, hroom, by rwa [Nat.zero_add] at hq⟩
          cases hq
          exact Bool.eq_false_iff.2 hfile
      · refine K.carries_storeFile hfs hI fuel _ _ size (fun hroom q hq => hslot q ?_) s hs
        exact ⟨r, d, n, a, none, hn, hdata, ha, fun q hq => (by cases hq), hroom, by rwa [Nat.zero_add] at hq⟩
      · exact ⟨hJ s hs.toStill, fun _ _ he => by cases he; exact hJ s hs.toStill⟩

theorem carries_createDirectoryBody {path : List UInt8} (hfs : c.fs = fs) (hI : ∀ s, Still c w s → I s) (fuel : Nat)
    (hslot : ∀ p, c.DirectorySlot f path p → Open O p) :
    Carries (At c w f 0) J (fun _ s => J s) (createDirectoryBody fuel path) := by
  have hJ : ∀ s, Still c w s → J s := fun s hs => K.weaken s (hI s hs)
  have hacc : c.fs.Accepted := hfs ▸ K.accepted
  unfold createDirectoryBody
  refine (carries_getCore.weaken hJ).bind fun c' => Carries.of_and fun hc => ?_
  subst hc
  split
  · exact .pure fun s hs => ⟨hJ s hs.toStill, hJ s hs.toStill⟩
  · refine K.carries_named hfs hJ fuel (fun _ => rfl) fun d n r hn => ?_
    rw [Nat.zero_add]
    have hbehind : ∀ i, c'.Misses f r d n i →
        Carries (At c' w (later f i) 0) J (fun _ s => J s) (createBehind fuel c'.fs d n) := fun i hi =>
      K.carries_createBehind hfs hI fuel fun hroom p hp => hslot p ⟨r, d, n, i, hn, hi, hroom, hp⟩
    refine ((carries_findEntry hacc fuel d n).weaken hJ).bind fun r' => ?_
    rintro s (⟨p, rfl, a, hs, -⟩ | ⟨rfl, a, hs, ha⟩ | ⟨rfl, i, hs, hi⟩)
    · exact ⟨hJ s hs.toStill, fun _ _ he => by cases he; exact hJ s hs.toStill⟩
    · exact hbehind (r + a) (.inl ⟨a, rfl, ha, hs.ok⟩) s ⟨hs.toStill, hs.spent, fun _ hk =>
        absurd hk (Nat.not_lt_zero _)⟩
    · exact hbehind (r + i + 1) (.inr ⟨i, rfl, hs.fails, hi⟩) s hs.restart

theorem carries_deleteFileBody {path : List UInt8} (hfs : c.fs = fs) (hI : ∀ s, Still c w s → I s) (fuel : Nat)
    (hslot : ∀ p, c.DeletedSlot f path p → Open O p) :
    Carries (At c w f 0) J (fun _ s => J s) (deleteFileBody fuel path) := by
  have hJ : ∀ s, Still c w s → J s := fun s hs => K.weaken s (hI s hs)
  have hacc : c.fs.Accepted := hfs ▸ K.accepted
  unfold deleteFileBody
  refine (carries_getCore.weaken hJ).bind fun c' => Carries.of_and fun hc => ?_
  subst hc
  split
  · exact .pure fun s hs => ⟨hJ s hs.toStill, hJ s hs.toStill⟩
  · refine K.carries_named hfs hJ fuel (fun _ => rfl) fun d n r hn => ?_
    rw [Nat.zero_add]
    refine ((carries_findEntry hacc fuel d n).weaken hJ).bind fun r' => ?_
    rintro s (⟨p, rfl, a, hs, hp⟩ | ⟨rfl, a, hs, -⟩ | ⟨rfl, i, hs, -⟩)
    · dsimp only
      split
      · exact ⟨hJ s hs.toStill, fun _ _ he => by cases he; exact hJ s hs.toStill⟩
      · rename_i hfile
        refine K.carries_removeFile hfs hI fuel _ (fun a' q hq hpass hok => ?_) s hs
        obtain ⟨rfl, he⟩ := hp.unique hq
        cases he
        exact hslot p ⟨r, d, n, a, hn, hp, Bool.eq_false_iff.2 hfile, hpass, hok⟩
    · exact ⟨hJ s hs.toStill, fun _ _ he => by cases he; exact hJ s hs.toStill⟩
    · exact ⟨hJ s hs.toStill, fun _ _ he => by cases he; exact hJ s hs.toStill⟩

end

end Kept

end AltoniumOS.Fat12

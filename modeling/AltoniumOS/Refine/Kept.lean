/-
What the changes keep, under any faults. Up to the moment it stores its directory entry a change does
three things to a volume: it unlinks clusters, links a cluster it has just allocated, and fills allocated
clusters. Then it writes one slot. An invariant of these (`Kept`) is kept by their parts, whatever the FAT
and the directories hold.
-/
import AltoniumOS.Refine.Alloc
import AltoniumOS.Fat12.File

namespace AltoniumOS.Fat12

open AltoniumOS.Lib

/-- The state after a write call passed `n` sectors of `buffer`, of which `m` were transferred. -/
def State.wrote (s : State) (lba : Nat) (buffer : Buf) (n m : Nat) : State :=
  { s with
    toCore := { s.toCore with sectors := putSectors s.sectors lba buffer m }
    writes := s.writes ++ [(lba, sectorsOf buffer n)] }

/-- The state after a change of the core. -/
def State.withCore (s : State) (f : Core → Core) : State := { s with toCore := f s.toCore }

/-- A cluster of the volume. -/
def Fs.HasCluster (fs : Fs) (k : Nat) : Prop := 2 ≤ k ∧ k < fs.totalClusters + 2

/-- What a change keeps: `I` up to the write of its slot, `J` from there on. `O` are the clusters `J` allows to
be written. -/
structure Kept (fs : Fs) (O : Nat → Prop) (I J : State → Prop) : Prop where
  accepted : fs.Accepted
  blind : Blind I
  blind' : Blind J
  weaken : ∀ s, I s → J s
  layout : ∀ s, J s → s.fs = fs
  unlink : ∀ s k v, I s → 2 ≤ k → v = clusterFree ∨ v = clusterEoc → I (s.withCore (·.setFat k v))
  unlink' : ∀ s k v, J s → 2 ≤ k → v = clusterFree ∨ v = clusterEoc → J (s.withCore (·.setFat k v))
  link : ∀ s k v, I s → 2 ≤ k → fs.HasCluster v → getFatEntry s.toCore v = clusterEoc →
    I (s.withCore (·.setFat k v))
  fill : ∀ s k b m, I s → fs.HasCluster k → getFatEntry s.toCore k = clusterEoc → m ≤ fs.sectorsPerCluster →
    I (s.wrote (lbaAdd fs.baseLba (clusterToLba fs k)) b fs.sectorsPerCluster m)
  root : ∀ s i e, J s → J (s.withCore (·.putRootEntry i e))
  store : ∀ s k b m, J s → O k → m ≤ fs.sectorsPerCluster →
    J (s.wrote (lbaAdd fs.baseLba (clusterToLba fs k)) b fs.sectorsPerCluster m)
  own : ∀ k, fs.HasCluster k → O k

/-! ## Steps of a program -/

section

variable {α : Type} {P J : State → Prop}

theorem carries_modifyCore {Q : State → Prop} {f : Core → Core} (h : ∀ s, P s → Q (s.withCore f))
    (hj : ∀ s, Q s → J s) : Carries P J (fun _ s => Q s) (modifyCore f) :=
  fun s hs => ⟨hj _ (h s hs), fun _ _ hr => by cases hr; exact h s hs⟩

theorem carries_reads {m : M α} (h : Reads m) (hb : Blind P) (hj : ∀ s, P s → J s) :
    Carries P J (fun _ s => P s) m :=
  ((h.keeps hb).carries hj).post fun _ _ hq => hq.1

/-- One write call: some of the sectors passed are transferred, and the log tells all of them. -/
theorem carries_diskWriteSectors {Q : State → Prop} {lba n : Nat} {buffer : Buf} (hp : ∀ s, P s → Q s)
    (hb : Blind Q) (hj : ∀ s, Q s → J s) (h : ∀ s m, P s → m ≤ n → Q (s.wrote lba buffer n m)) :
    Carries P J (fun _ s => Q s) (diskWriteSectors lba buffer n) := by
  intro s hs
  unfold diskWriteSectors
  split
  · exact ⟨hj _ (hp s hs), fun _ _ hr => by cases hr; exact hp s hs⟩
  · have hm := transferred_le (s.faults 0) n
    have hq : ∀ f, Q { s.wrote lba buffer n (transferred (s.faults 0) n) with faults := f } := fun f =>
      hb (s.wrote lba buffer n (transferred (s.faults 0) n)) _ rfl rfl (h s _ hs hm)
    exact ⟨hj _ (hq _), fun _ _ hr => by cases hr; exact hq _⟩

end

/-! ## A FAT entry set -/

theorem getFatEntry_setFat_eoc (c : Core) (k : Nat) : getFatEntry (c.setFat k clusterEoc) k = clusterEoc := by
  by_cases h : k + k / 2 + 1 < c.fs.fatSizeBytes
  · exact getFatEntry_setFat_self h
  · exact getFatEntry_outside (c := c.setFat k clusterEoc) (Nat.le_of_not_lt h)

/-! ## The changes -/

namespace Kept

variable {fs : Fs} {O : Nat → Prop} {I J : State → Prop}

/-- Up to the write of the slot: `k` is a cluster of the volume that ends its chain. -/
def Fresh (fs : Fs) (I : State → Prop) (k : Nat) (s : State) : Prop :=
  I s ∧ fs.HasCluster k ∧ getFatEntry s.toCore k = clusterEoc

theorem blind_fresh (fs : Fs) (hb : Blind I) (k : Nat) : Blind (Fresh fs I k) := by
  rintro s s' h1 h2 ⟨h3, h4, h5⟩
  exact ⟨hb s s' h1 h2 h3, h4, by rw [h1]; exact h5⟩

section

variable (K : Kept fs O I J)

include K

theorem carries_unlink {k v : Nat} (hk : 2 ≤ k) (hv : v = clusterFree ∨ v = clusterEoc) :
    Carries I J (fun _ s => I s) (setFatEntry k v) :=
  carries_modifyCore (fun s hs => K.unlink s k v hs hk hv) K.weaken

theorem keeps_unlink {k v : Nat} (hk : 2 ≤ k) (hv : v = clusterFree ∨ v = clusterEoc) : Keeps J (setFatEntry k v) :=
  fun s hs => ⟨K.unlink' s k v hs hk hv, fun _ _ _ => trivial⟩

/-- The entry of a cluster of the volume set to the end of a chain. -/
theorem carries_mark {k : Nat} (hk : fs.HasCluster k) :
    Carries I J (fun _ s => Fresh fs I k s) (setFatEntry k clusterEoc) :=
  carries_modifyCore (fun s hs => ⟨K.unlink s k _ hs hk.1 (.inr rfl), hk, getFatEntry_setFat_eoc _ _⟩) fun s hs =>
    K.weaken s hs.1

theorem carries_link {k v : Nat} (hk : 2 ≤ k) :
    Carries (Fresh fs I v) J (fun _ s => I s ∧ fs.HasCluster v) (setFatEntry k v) := by
  intro s ⟨h1, h2, h3⟩
  have := K.link s k v h1 hk h2 h3
  exact ⟨K.weaken _ this, fun _ _ hr => by cases hr; exact ⟨this, h2⟩⟩

theorem reads {α : Type} {m : M α} (h : Reads m) : Carries I J (fun _ s => I s) m :=
  carries_reads h K.blind K.weaken

theorem getCore : Carries I J (fun c s => (I s ∧ c = s.toCore) ∧ c.fs = fs) Fat12.getCore := by
  intro s hs
  refine ⟨K.weaken s hs, fun c s' hr => ?_⟩
  cases hr
  exact ⟨⟨hs, rfl⟩, K.layout s (K.weaken s hs)⟩

/-- Filling a fresh cluster, however much of it is transferred. -/
theorem carries_fill (k : Nat) (buffer : Buf) :
    Carries (Fresh fs I k) J (fun _ s => Fresh fs I k s) (writeCluster k buffer) := by
  have hj : ∀ s, Fresh fs I k s → J s := fun s hs => K.weaken s hs.1
  unfold writeCluster
  refine Carries.bind (R := fun c s => Fresh fs I k s ∧ c.fs = fs) (fun s hs => ⟨hj s hs, fun c s' hr => ?_⟩)
    fun c => Carries.of_and fun hc => ?_
  · cases hr
    exact ⟨hs, K.layout s (hj s hs)⟩
  · rw [hc]
    exact carries_diskWriteSectors (fun s hs => hs) (blind_fresh fs K.blind k) hj fun s m ⟨h1, h2, h3⟩ hm =>
      ⟨K.fill s k buffer m h1 h2 h3 hm, h2, h3⟩

/-- A cluster allocated is one of the volume and ends its chain. -/
theorem carries_allocateCluster : Carries I J (fun k s => I s ∧ (k ≠ 0 → Fresh fs I k s)) allocateCluster := by
  unfold allocateCluster
  refine K.getCore.bind fun c => Carries.of_and fun hc => ?_
  cases hk : firstFree c with
  | none => exact .pure fun s hs => ⟨K.weaken s hs.1, hs.1, fun h0 => absurd rfl h0⟩
  | some k =>
    have hvol : fs.HasCluster k := by
      have := (mem_freeClusters.1 (firstFree_some hk)).1
      exact ⟨this.1, hc ▸ this.2.1⟩
    refine ((K.carries_mark hvol).pre fun s hs => hs.1).bind fun _ => ?_
    have hblind := blind_fresh fs K.blind k
    have hj : ∀ s, Fresh fs I k s → J s := fun s hs => K.weaken s hs.1
    refine (carries_reads Reads.getClusterBuffer hblind hj).bind fun b => ?_
    refine (carries_reads (Reads.setClusterBuffer _) hblind hj).bind fun _ => ?_
    refine (K.carries_fill k _).bind fun ok => ?_
    split
    · exact .pure fun s hs => ⟨hj s hs, hs.1, fun _ => hs⟩
    · exact ((K.carries_unlink hvol.1 (.inl rfl)).pre fun s hs => hs.1).bind fun _ => .pure fun s hs =>
        ⟨K.weaken s hs, hs, fun h0 => absurd rfl h0⟩

theorem carries_freeChain (fuel k : Nat) : Carries I J (fun _ s => I s) (freeChain fuel k) := by
  refine Carries.loop (L := fun _ => I) (fun _ => K.weaken) (fun _ => K.weaken) (fun i => ?_) fuel k
  unfold freeChainRound
  split
  · rename_i hi
    refine (K.reads Reads.getCore).bind fun c => ?_
    exact (K.carries_unlink ((inChain_iff.1 hi).1) (.inl rfl)).bind fun _ => .pure fun s hs => ⟨K.weaken s hs, hs⟩
  · exact .pure fun s hs => ⟨K.weaken s hs, hs⟩

theorem keeps_freeChain (fuel k : Nat) : Keeps J (freeChain fuel k) := by
  refine Keeps.loop (fun i => ?_) fuel k
  unfold freeChainRound
  split
  · rename_i hi
    exact (Reads.getCore.keeps K.blind').bind fun c => (K.keeps_unlink ((inChain_iff.1 hi).1) (.inl rfl)).bind
      fun _ => .pure trivial
  · exact .pure trivial

theorem carries_freeFrom (fuel k : Nat) : Carries I J (fun _ s => I s) (freeFrom fuel k) := by
  unfold freeFrom
  split
  · exact K.carries_freeChain fuel k
  · exact .pure fun s hs => ⟨K.weaken s hs, hs⟩

theorem keeps_freeFrom (fuel k : Nat) : Keeps J (freeFrom fuel k) := by
  unfold freeFrom
  split
  · exact K.keeps_freeChain fuel k
  · exact .pure trivial

/-! ### The slot -/

/-- The slot may be written. -/
def Open (O : Nat → Prop) (p : Loc) : Prop := p.1 = 0 ∨ O p.1

theorem keeps_store {k : Nat} (hk : O k) (buffer : Buf) : Keeps J (writeCluster k buffer) := by
  unfold writeCluster
  refine Ensures.bind (R := fun c => c.fs = fs) (fun s hs => ⟨hs, fun c s' hr => ?_⟩) fun c hc => ?_
  · cases hr
    exact K.layout s hs
  · rw [hc]
    exact (carries_diskWriteSectors (fun s hs => hs) K.blind' (fun s hs => hs) fun s m hs hm =>
      K.store s k buffer m hs hk hm).keeps

theorem keeps_writeEntry {p : Loc} (hp : Open O p) (e : RawDirEntry) : Keeps J (writeEntry p e) := by
  unfold writeEntry
  refine (Reads.getCore.keeps K.blind').bind fun c => ?_
  split
  · split
    · exact .pure trivial
    · refine Keeps.bind (fun s hs => ⟨K.root s p.2 e hs, fun _ _ _ => trivial⟩) fun _ => .pure trivial
  · rename_i h0
    have hk := hp.resolve_left h0
    refine ((reads_readCluster _).keeps K.blind').bind fun r => ?_
    dsimp only
    split
    · exact .pure trivial
    · split
      · exact .pure trivial
      · refine ((Reads.setClusterBuffer _).keeps K.blind').bind fun _ => (K.keeps_store hk _).bind fun ok => ?_
        split <;> exact .pure trivial

/-- The new last cluster of a directory holds a slot that may be written. -/
theorem carries_appendCluster {previous : Nat} (hprev : previous = 0 ∨ 2 ≤ previous) :
    Carries I J (fun r s => J s ∧ ∀ p, r = .ok p → Open O p) (do
      let newCluster ← allocateCluster
      if newCluster = 0 then pure (.error .errNoFreeCluster : Except Code Loc)
      else
        linkCluster previous newCluster
        pure (.ok (newCluster, 0))) := by
  refine K.carries_allocateCluster.bind fun k => ?_
  split
  · exact .pure fun s hs => ⟨K.weaken s hs.1, K.weaken s hs.1, fun p hp => nomatch hp⟩
  · rename_i hk0
    have hadd : Carries (Fresh fs I k) J (fun _ s => I s ∧ fs.HasCluster k) (linkCluster previous k) := by
      unfold linkCluster
      split
      · rename_i hpk
        refine (K.carries_link (hprev.resolve_left hpk)).bind fun _ => Carries.of_and fun hk => ?_
        exact (K.carries_mark hk).post fun _ s hs => ⟨hs.1, hk⟩
      · exact .pure fun s hs => ⟨K.weaken s hs.1, hs.1, hs.2.1⟩
    refine (hadd.pre fun s hs => hs.2 hk0).bind fun _ => .pure fun s hs =>
      ⟨K.weaken s hs.1, K.weaken s hs.1, fun p hp => ?_⟩
    cases hp
    exact .inr (K.own k hs.2)

/-! ### Writing a file -/

theorem carries_writeRound (fuel : Nat) (data : Buf) (size : Nat) (i : Nat × Nat × Nat) :
    Carries I J (fun _ s => I s) (writeRound fuel data size i) := by
  obtain ⟨first, prev, written⟩ := i
  rw [writeRound]
  split
  · refine K.carries_allocateCluster.bind fun k => ?_
    split
    · exact ((K.carries_freeFrom fuel first).pre fun s hs => hs.1).bind fun _ => .pure fun s hs =>
        ⟨K.weaken s hs, hs⟩
    · rename_i hk0
      have hadd : Carries (Fresh fs I k) J (fun _ s => I s ∧ fs.HasCluster k) (linkPrevious prev k) := by
        unfold linkPrevious
        split
        · rename_i hp
          exact K.carries_link hp
        · exact .pure fun s hs => ⟨K.weaken s hs.1, hs.1, hs.2.1⟩
      refine (hadd.pre fun s hs => hs.2 hk0).bind fun _ => Carries.of_and fun hk => ?_
      have hblind := blind_fresh fs K.blind k
      have hj : ∀ s, Fresh fs I k s → J s := fun s hs => K.weaken s hs.1
      refine (K.carries_mark hk).bind fun _ => (carries_reads Reads.getCore hblind hj).bind fun c => ?_
      refine (carries_reads Reads.getClusterBuffer hblind hj).bind fun b =>
        (carries_reads (Reads.setClusterBuffer _) hblind hj).bind fun _ => ?_
      refine (K.carries_fill k _).bind fun ok => ?_
      split
      · exact .pure fun s hs => ⟨hj s hs, hs.1⟩
      · exact ((K.carries_freeChain fuel _).pre fun s hs => hs.1).bind fun _ => .pure fun s hs =>
          ⟨K.weaken s hs, hs⟩
  · exact .pure fun s hs => ⟨K.weaken s hs, hs⟩

end

end Kept

end AltoniumOS.Fat12

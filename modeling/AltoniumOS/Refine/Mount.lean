/-
Mounting. `fat12_init` on a disk that does not fail computes the layout from the boot sector, checks it,
and loads the FAT and the root directory; what it leaves is a function of the disk.
-/
import AltoniumOS.Refine.Flush

namespace AltoniumOS.Fat12

open AltoniumOS.Lib

/-! ## Loading an area -/

/-- `buffer` with the first `n` sectors of the area at `lba` loaded into it. -/
def loaded (sectors : Nat → Buf) (lba : Nat) (buffer : Buf) (n : Nat) : Buf :=
  buffer.blit 0 (sectorBytes sectors lba) (sectorSize * n)

theorem loaded_lt {sectors : Nat → Buf} {lba n i : Nat} {buffer : Buf} (h : i < sectorSize * n) :
    loaded sectors lba buffer n i = sectorBytes sectors lba i := by
  unfold loaded Buf.blit
  rw [if_pos ⟨Nat.zero_le _, by omega⟩, Nat.sub_zero]

theorem loaded_zero (sectors : Nat → Buf) (lba : Nat) (buffer : Buf) : loaded sectors lba buffer 0 = buffer := by
  funext i
  unfold loaded Buf.blit
  rw [if_neg (by omega)]

/-- One sector more. -/
theorem loaded_succ (sectors : Nat → Buf) (lba : Nat) (buffer : Buf) (n : Nat) :
    (loaded sectors lba buffer n).blit (sectorSize * n) (sectorBytes sectors (lbaAdd lba n)) (sectorSize * 1) =
      loaded sectors lba buffer (n + 1) := by
  funext i
  unfold loaded Buf.blit sectorBytes
  rw [Nat.mul_succ sectorSize n, Nat.mul_one]
  by_cases h1 : sectorSize * n ≤ i ∧ i < sectorSize * n + sectorSize
  · rw [if_pos h1, if_pos ⟨Nat.zero_le _, by omega⟩, lbaAdd_lbaAdd]
    unfold sectorSize at *
    rw [show n + (i - 512 * n) / 512 = (i - 0) / 512 by omega, show (i - 512 * n) % 512 = (i - 0) % 512 by omega]
  · rw [if_neg h1]
    by_cases h2 : i < sectorSize * n
    · rw [if_pos ⟨Nat.zero_le _, by omega⟩, if_pos ⟨Nat.zero_le _, by omega⟩]
    · rw [if_neg (by omega), if_neg (by omega)]

theorem gives_readArea (lba : Nat) (buffer : Buf) (c : Core) : ∀ (n i : Nat),
    Gives (readArea lba (loaded c.sectors lba buffer i) i n) c (true, loaded c.sectors lba buffer (i + n)) c
  | 0, i => .pure _
  | n + 1, i => by
    rw [readArea]
    refine (gives_diskReadSectors Nat.one_ne_zero c).bind ?_
    dsimp only
    rw [if_pos rfl, loaded_succ, show i + (n + 1) = i + 1 + n by omega]
    exact gives_readArea lba buffer c n (i + 1)

theorem gives_loadArea (lba : Nat) (buffer : Buf) (c : Core) (n : Nat) :
    Gives (readArea lba buffer 0 n) c (true, loaded c.sectors lba buffer n) c := by
  have := gives_readArea lba buffer c n 0
  rwa [loaded_zero, Nat.zero_add] at this

/-! ## The layout -/

/-- The boot sector, as `fat12_init` reads it. -/
def Core.bootSector (c : Core) (baseLba : Nat) : Buf :=
  Buf.blit (fun _ => 0) 0 (sectorBytes c.sectors baseLba) (sectorSize * 1)

/-- The layout `fat12_init` computes from a boot sector. -/
def Fs.ofBoot (sector : Buf) (baseLba : Nat) : Fs := ((({} : Fs).ofBpb sector baseLba).sized).laidOut

/-- Nothing of an earlier mount is left in the layout. -/
theorem Fs.laidOut_ofBpb (fs : Fs) (sector : Buf) (baseLba : Nat) :
    ((fs.ofBpb sector baseLba).sized).laidOut = Fs.ofBoot sector baseLba := rfl

/-- The checks of `fat12_init`. -/
structure Mountable (sector : Buf) (baseLba : Nat) : Prop where
  sectorSize : sector.le 11 2 = sectorSize
  spc : ¬ ((Fs.ofBoot sector baseLba).sectorsPerCluster = 0 ∨
    (Fs.ofBoot sector baseLba).sectorsPerCluster > maxSectorsPerCluster)
  spf : ¬ ((Fs.ofBoot sector baseLba).sectorsPerFat = 0 ∨ (Fs.ofBoot sector baseLba).sectorsPerFat > maxFatSectors)
  rootSectors : ¬ (Fs.ofBoot sector baseLba).rootDirSectors > maxRootDirSectors
  clusters : ¬ ((Fs.ofBoot sector baseLba).totalClusters < 1 ∨ (Fs.ofBoot sector baseLba).totalClusters > 4084)

theorem Mountable.accepted {sector : Buf} {baseLba : Nat} (h : Mountable sector baseLba) :
    (Fs.ofBoot sector baseLba).Accepted where
  spc := by have := h.spc; omega
  spf := by have := h.spf; omega
  reserved_lt := sector.le_lt 2 14
  numFats_lt := sector.le_lt 1 16
  fatSize := rfl
  rootSectors := rfl
  rootSectors_le := by have := h.rootSectors; omega
  fatStart := rfl
  rootStart := rfl
  dataStart := rfl
  clusters := by have := h.clusters; omega
  clusterSize := rfl

/-- The driver after a mount. -/
def Core.mount (c : Core) (baseLba : Nat) : Core :=
  let fs := Fs.ofBoot (c.bootSector baseLba) baseLba
  { fs := fs
    fatPrimary := loaded c.sectors (lbaAdd baseLba fs.fatStartLba) c.fatPrimary fs.sectorsPerFat
    rootDir := loaded c.sectors (lbaAdd baseLba fs.rootDirStartLba) c.rootDir fs.rootDirSectors
    fsReady := true
    fatDirty := false
    rootDirty := false
    currentDirCluster := 0
    pathStack := .empty
    cwd := [slash]
    sectors := c.sectors }

/-- The loads at the end of `fat12_init`. -/
theorem gives_loadCaches (c : Core) : Gives loadCaches c true
    { c with
      fatPrimary := loaded c.sectors (lbaAdd c.fs.baseLba c.fs.fatStartLba) c.fatPrimary c.fs.sectorsPerFat
      rootDir := loaded c.sectors (lbaAdd c.fs.baseLba c.fs.rootDirStartLba) c.rootDir c.fs.rootDirSectors } := by
  unfold loadCaches
  refine (gives_getCore c).bind ((gives_loadArea _ _ c _).bind ((gives_modifyCore _ c).bind ?_))
  dsimp only
  rw [if_neg (by simp)]
  have hroot : ∀ c₁ : Core, Gives (do
      let __x ← readArea (lbaAdd c.fs.baseLba c.fs.rootDirStartLba) c.rootDir 0 c.fs.rootDirSectors
      modifyCore fun c => { c with rootDir := __x.2 }
      pure __x.1) c₁ true { c₁ with
          rootDir := loaded c₁.sectors (lbaAdd c.fs.baseLba c.fs.rootDirStartLba) c.rootDir c.fs.rootDirSectors } :=
    fun c₁ => (gives_loadArea _ _ c₁ _).bind ((gives_modifyCore _ _).bind (.pure _))
  split
  · intro s hs hg
    obtain ⟨s₁, h1, h2, h3⟩ :=
      gives_loadArea (lbaAdd c.fs.baseLba (c.fs.fatStartLba + c.fs.sectorsPerFat)) s.fatSecondary { c with
        fatPrimary := loaded c.sectors (lbaAdd c.fs.baseLba c.fs.fatStartLba) c.fatPrimary c.fs.sectorsPerFat }
      c.fs.sectorsPerFat s hs hg
    obtain ⟨s₂, h4, h5⟩ := hroot _ { s₁ with
      fatSecondary :=
      (loaded c.sectors (lbaAdd c.fs.baseLba (c.fs.fatStartLba + c.fs.sectorsPerFat)) s.fatSecondary
        c.fs.sectorsPerFat) } h2 h3
    exact ⟨s₂, (bind_ok (show (get : M State) s = .ok s s from rfl)).trans ((bind_ok h1).trans h4), h5⟩
  · exact hroot _

/-- `fat12_init` succeeds on the volumes that pass its checks. -/
theorem gives_init (c : Core) (baseLba : Nat) : ∃ e c', Gives (init baseLba) c e c' ∧
    (e = .ok ↔ Mountable (c.bootSector baseLba) baseLba) ∧ (e = .ok → c' = c.mount baseLba) := by
  have hfail : ∀ {m : M Code} {e : Code} {c' : Core}, Gives m c' e c' → e ≠ .ok →
      ¬ Mountable (c.bootSector baseLba) baseLba → ∃ e c'', Gives m c' e c'' ∧
      (e = .ok ↔ Mountable (c.bootSector baseLba) baseLba) ∧ (e = .ok → c'' = c.mount baseLba) :=
    fun hg he hno => ⟨_, _, hg, ⟨fun h => absurd h he, fun h => absurd h hno⟩, fun h => absurd h he⟩
  unfold init
  refine Yields.exists_bind (gives_diskReadSectors Nat.one_ne_zero c) ?_
  dsimp only
  rw [if_neg (by decide)]
  by_cases h1 : (c.bootSector baseLba).le 11 2 = sectorSize
  swap
  · rw [if_pos (by exact h1)]
    exact hfail (.pure _) (by decide) fun h => h1 h.sectorSize
  rw [if_neg (by exact not_not.2 h1)]
  refine Yields.exists_bind (gives_modifyCore _ c) (Yields.exists_bind (gives_getCore _) ?_)
  by_cases h2 : (Fs.ofBoot (c.bootSector baseLba) baseLba).sectorsPerCluster = 0 ∨
      (Fs.ofBoot (c.bootSector baseLba) baseLba).sectorsPerCluster > maxSectorsPerCluster
  · rw [if_pos (by exact h2)]
    exact hfail (.pure _) (by decide) fun h => h.spc h2
  rw [if_neg (by exact h2)]
  by_cases h3 : (Fs.ofBoot (c.bootSector baseLba) baseLba).sectorsPerFat = 0 ∨
      (Fs.ofBoot (c.bootSector baseLba) baseLba).sectorsPerFat > maxFatSectors
  · rw [if_pos (by exact h3)]
    exact hfail (.pure _) (by decide) fun h => h.spf h3
  rw [if_neg (by exact h3)]
  refine Yields.exists_bind (gives_modifyCore _ _) (Yields.exists_bind (gives_getCore _) ?_)
  by_cases h4 : (Fs.ofBoot (c.bootSector baseLba) baseLba).rootDirSectors > maxRootDirSectors
  · rw [if_pos (by exact h4)]
    exact hfail (.pure _) (by decide) fun h => h.rootSectors h4
  rw [if_neg (by exact h4)]
  refine Yields.exists_bind (gives_modifyCore _ _) (Yields.exists_bind (gives_getCore _) ?_)
  by_cases h5 : (Fs.ofBoot (c.bootSector baseLba) baseLba).totalClusters < 1 ∨
    (Fs.ofBoot (c.bootSector baseLba) baseLba).totalClusters > 4084
  · rw [if_pos (by exact h5)]
    exact hfail (.pure _) (by decide) fun h => h.clusters h5
  rw [if_neg (by exact h5)]
  exact ⟨.ok, c.mount baseLba, (gives_loadCaches _).bind ((gives_modifyCore _ _).bind (.pure _)),
    ⟨fun _ => ⟨h1, h2, h3, h4, h5⟩, fun _ => rfl⟩, fun _ => rfl⟩

theorem gives_mount {c : Core} {baseLba : Nat} (h : Mountable (c.bootSector baseLba) baseLba) :
    Gives (init baseLba) c .ok (c.mount baseLba) := by
  obtain ⟨e, c', hg, he, hc⟩ := gives_init c baseLba
  obtain rfl := he.2 h
  rwa [hc rfl] at hg

/-- A mount that succeeded, on a disk that does not fail. -/
theorem init_ok {baseLba : Nat} {s s' : State} (hs : Reliable s) (h : init baseLba s = .ok .ok s') :
    Mountable (s.toCore.bootSector baseLba) baseLba ∧ s'.toCore = s.toCore.mount baseLba ∧ Reliable s' := by
  obtain ⟨e, c', hg, he, hc⟩ := gives_init s.toCore baseLba
  obtain ⟨rfl, h1, h2⟩ := hg.eq_of_ok rfl hs h
  exact ⟨he.1 rfl, h1.trans (hc rfl), h2⟩

/-! ## Whatever the disk answers -/

theorem keeps_readArea {fs : Fs} (lba : Nat) :
    ∀ (n i : Nat) (buffer : Buf), Keeps (fun s => s.fs = fs) (readArea lba buffer i n)
  | 0, _, _ => .pure trivial
  | n + 1, i, buffer => by
    have hread : Keeps (fun s => s.fs = fs) (diskReadSector (lbaAdd lba i) buffer (sectorSize * i)) :=
      fun s hs => ⟨hs, fun _ _ _ => trivial⟩
    rw [readArea]
    refine hread.bind fun r => ?_
    dsimp only
    split
    · exact keeps_readArea lba n (i + 1) r.2
    · exact .pure trivial

theorem keeps_modify {fs : Fs} {f : Core → Core} (hf : ∀ c, (f c).fs = c.fs) :
    Keeps (fun s : State => s.fs = fs) (modifyCore f) :=
  fun s hs => ⟨(hf s.toCore).trans hs, fun _ _ _ => trivial⟩

/-- The load of the root directory, behind that of the FAT and of its second copy. -/
theorem keeps_loadRoot {fs : Fs} (ok : Bool) (lba : Nat) (buffer : Buf) (n : Nat) :
    Keeps (fun s : State => s.fs = fs) (do
      if !ok then pure false
      else
        let (ok, root) ← readArea lba buffer 0 n
        modifyCore fun c => { c with rootDir := root }
        pure ok) := by
  split
  · exact .pure trivial
  · refine (keeps_readArea lba n 0 buffer).bind fun r => ?_
    exact Keeps.bind (keeps_modify fun _ => rfl) fun _ => .pure trivial

theorem keeps_loadCaches {fs : Fs} : Keeps (fun s => s.fs = fs) loadCaches := by
  have hget : Keeps (fun s : State => s.fs = fs) getCore := fun s hs => ⟨hs, fun _ _ _ => trivial⟩
  unfold loadCaches
  refine hget.bind fun c => (keeps_readArea _ _ _ _).bind fun r => ?_
  refine Keeps.bind (keeps_modify fun _ => rfl) fun _ => ?_
  split
  · exact .pure trivial
  · dsimp only
    split
    · refine Keeps.bind (fun s hs => ⟨hs, fun _ _ _ => trivial⟩) fun s => (keeps_readArea _ _ _ _).bind fun r => ?_
      exact Keeps.bind (fun s hs => ⟨hs, fun _ _ _ => trivial⟩) fun _ => keeps_loadRoot _ _ _ _
    · rw [pure_bind]
      exact keeps_loadRoot _ _ _ _

/-- A read that reports success has transferred everything. -/
theorem diskReadSectors_ok {lba off n : Nat} {buffer b : Buf} {s s' : State}
    (h : diskReadSectors lba buffer off n s = .ok (true, b) s') :
    b = buffer.blit off (sectorBytes s.sectors lba) (sectorSize * n) := by
  unfold diskReadSectors at h
  split at h
  · cases h
  · obtain ⟨fault, s₁, h1, h⟩ := bind_eq_ok h
    obtain ⟨rfl, rfl⟩ : s.faults 0 = fault ∧ _ = s₁ := by simpa [nextFault] using h1
    obtain ⟨c, s₂, h2, h⟩ := bind_eq_ok h
    cases h2
    cases hf : s.faults 0 with
    | none =>
      rw [hf] at h
      cases h
      rfl
    | some k =>
      rw [hf] at h
      cases h

/-- A mount that succeeded read a boot sector that passes its checks. -/
theorem init_sector {baseLba : Nat} {s₀ s : State} (h : init baseLba s₀ = .ok .ok s) :
    Mountable (s₀.toCore.bootSector baseLba) baseLba ∧ s.fs = Fs.ofBoot (s₀.toCore.bootSector baseLba) baseLba := by
  unfold init at h
  obtain ⟨⟨ok, sector⟩, s₁, hread, h⟩ := bind_eq_ok h
  dsimp only at h
  split at h
  · cases h
  rename_i hok
  obtain rfl : ok = true := by simpa using hok
  obtain rfl : sector = s₀.toCore.bootSector baseLba := diskReadSectors_ok hread
  split at h
  · cases h
  rename_i h1
  obtain ⟨_, s₂, h2, h⟩ := bind_eq_ok h
  cases h2
  obtain ⟨_, s₃, h3, h⟩ := bind_eq_ok h
  cases h3
  split at h
  · cases h
  rename_i hspc
  split at h
  · cases h
  rename_i hspf
  obtain ⟨_, s₄, h4, h⟩ := bind_eq_ok h
  cases h4
  obtain ⟨_, s₅, h5, h⟩ := bind_eq_ok h
  cases h5
  split at h
  · cases h
  rename_i hroot
  obtain ⟨_, s₆, h6, h⟩ := bind_eq_ok h
  cases h6
  obtain ⟨_, s₇, h7, h⟩ := bind_eq_ok h
  cases h7
  split at h
  · cases h
  rename_i hclusters
  obtain ⟨ok, s₈, h8, h⟩ := bind_eq_ok h
  split at h
  · obtain ⟨_, s₉, h9, h⟩ := bind_eq_ok h
    cases h9
    cases h
    exact ⟨⟨not_not.1 h1, hspc, hspf, hroot, hclusters⟩, (keeps_loadCaches.ok rfl h8).1⟩
  · cases h

theorem Mountable.totalSectors_lt {sector : Buf} {baseLba : Nat} (_ : Mountable sector baseLba) :
    (Fs.ofBoot sector baseLba).totalSectors < 4294967296 := by
  have h16 := sector.le_lt 2 19
  have h32 := sector.le_lt 4 32
  show (if sector.le 19 2 ≠ 0 then sector.le 19 2 else sector.le 32 4) < _
  split
  · exact Nat.lt_trans h16 (by decide)
  · exact h32

/-- No subtraction wrapped: the areas and the data sectors make up the volume. -/
theorem Mountable.dataSectors {sector : Buf} {baseLba : Nat} (h : Mountable sector baseLba) :
    (Fs.ofBoot sector baseLba).dataStartLba + (Fs.ofBoot sector baseLba).totalDataSectors =
      (Fs.ofBoot sector baseLba).totalSectors := by
  have hacc := h.accepted
  have hdata := hacc.dataStart
  have hlt := hacc.dataStart_lt
  have hmax := hacc.clusters.2
  have hspc := hacc.spc
  have htotal := h.totalSectors_lt
  have hsectors : (Fs.ofBoot sector baseLba).totalDataSectors =
      ((Fs.ofBoot sector baseLba).totalSectors + 4294967296 - (Fs.ofBoot sector baseLba).reservedSectors -
        (Fs.ofBoot sector baseLba).numFats * (Fs.ofBoot sector baseLba).sectorsPerFat -
      (Fs.ofBoot sector baseLba).rootDirSectors) % 4294967296 := rfl
  have hquot : (Fs.ofBoot sector baseLba).totalClusters =
      (Fs.ofBoot sector baseLba).totalDataSectors / (Fs.ofBoot sector baseLba).sectorsPerCluster := rfl
  generalize Fs.ofBoot sector baseLba = fs at *
  have hbound : fs.totalDataSectors < 4085 * 32 := by
    have hs : fs.totalDataSectors < (fs.totalClusters + 1) * fs.sectorsPerCluster := by
      rw [hquot, Nat.mul_comm]
      exact Nat.lt_mul_div_succ _ hspc.1
    have : (fs.totalClusters + 1) * fs.sectorsPerCluster ≤ 4085 * 32 := Nat.mul_le_mul (by omega) hspc.2
    omega
  -- with fewer sectors than the areas need, the subtraction would have wrapped
  omega

/-- The clusters end with the volume: the sectors before them and theirs are counted in its total. -/
theorem Mountable.fits {sector : Buf} {baseLba : Nat} (h : Mountable sector baseLba) :
    (Fs.ofBoot sector baseLba).dataStartLba + (Fs.ofBoot sector baseLba).totalClusters *
      (Fs.ofBoot sector baseLba).sectorsPerCluster ≤ (Fs.ofBoot sector baseLba).totalSectors := by
  rw [← h.dataSectors]
  exact Nat.add_le_add_left (Nat.div_mul_le_self ..) _

end AltoniumOS.Fat12

/-
A mount that fails while a volume is mounted. `fat12_init` writes the geometry before it has checked it and the
caches sector by sector, and the driver stays ready: what is left is the mounted volume only where nothing was
written that differs from it.
-/
import AltoniumOS.System.Calls
import AltoniumOS.System.Blank

namespace AltoniumOS.Fat12

open AltoniumOS.Lib

/-! ## Reads up to the first failure -/

/-- Of calls made up to the first failure, call `j` is made, and transfers its sector. -/
def Fetches (faults : Nat → Option Nat) (j : Nat) : Prop :=
  (∀ k < j, faults k = none) ∧ transferred (faults j) 1 = 1

/-- `b` is `buffer` with those of the `n` sectors at `lba` loaded into it that the calls from `off` on transfer. -/
structure Loads (faults : Nat → Option Nat) (off : Nat) (sectors : Nat → Buf) (lba : Nat) (buffer : Buf) (n : Nat)
    (b : Buf) : Prop where
  fetched : ∀ x, x / sectorSize < n → Fetches faults (off + x / sectorSize) → b x = sectorBytes sectors lba x
  kept : ∀ x, ¬ (x / sectorSize < n ∧ Fetches faults (off + x / sectorSize)) → b x = buffer x

section

variable {faults : Nat → Option Nat} {off lba n m : Nat} {sectors : Nat → Buf} {buffer b : Buf} {s : State}

theorem fetches_none (h : faults 0 = none) (j : Nat) : Fetches (later faults 1) j ↔ Fetches faults (j + 1) := by
  unfold Fetches later
  constructor
  · rintro ⟨h1, h2⟩
    refine ⟨fun k hk => ?_, h2⟩
    cases k with
    | zero => exact h
    | succ k => exact h1 k (by omega)
  · rintro ⟨h1, h2⟩
    exact ⟨fun k hk => h1 (k + 1) (by omega), h2⟩

theorem fetches_later (h : ∀ k < m, faults k = none) (j : Nat) :
    Fetches (later faults m) j ↔ Fetches faults (m + j) := by
  unfold Fetches later
  rw [Nat.add_comm j m]
  refine and_congr_left fun _ => ⟨fun h1 k hk => ?_, fun h1 k hk => h1 (k + m) (by omega)⟩
  by_cases hm : k < m
  · exact h k hm
  · have := h1 (k - m) (by omega)
    rwa [Nat.sub_add_cancel (by omega)] at this

theorem not_fetches_fail {i j : Nat} (h : faults i ≠ none) (hij : i < j) : ¬ Fetches faults j :=
  fun hf => h (hf.1 i hij)

/-- Nothing is loaded behind a failure. -/
theorem Loads.unread (h : ∃ i < off, faults i ≠ none) : Loads faults off sectors lba buffer n buffer := by
  obtain ⟨i, hi, hf⟩ := h
  exact ⟨fun x _ hx => absurd hx (not_fetches_fail hf (Nat.lt_add_right _ hi)), fun _ _ => rfl⟩

theorem Loads.shift (h : Loads (later faults m) off sectors lba buffer n b) (hm : ∀ k < m, faults k = none) :
    Loads faults (m + off) sectors lba buffer n b := by
  constructor
  · intro x hx hf
    exact h.fetched x hx ((fetches_later hm _).2 (by rwa [← Nat.add_assoc]))
  · intro x hx
    refine h.kept x fun hf => hx ⟨hf.1, ?_⟩
    have := (fetches_later hm _).1 hf.2
    rwa [← Nat.add_assoc] at this

/-- The buffer is as before when the sectors transferred are those it holds. -/
theorem Loads.same_iff (h : Loads faults off sectors lba buffer n b) :
    b = buffer ↔ ∀ x, x / sectorSize < n → Fetches faults (off + x / sectorSize) →
      buffer x = sectorBytes sectors lba x := by
  constructor
  · rintro rfl
    exact h.fetched
  · intro hsame
    funext x
    by_cases hx : x / sectorSize < n ∧ Fetches faults (off + x / sectorSize)
    · rw [h.fetched x hx.1 hx.2, hsame x hx.1 hx.2]
    · exact h.kept x hx

theorem exists_fault (h : ¬ ∀ k < n, faults k = none) : ∃ i < n, faults i ≠ none := by
  push Not at h
  exact h

theorem none_twice (h : ∀ k < n, faults k = none) (h' : ∀ k < n, later faults n k = none) :
    ∀ k < n * 2, faults k = none := by
  intro k hk
  by_cases hlt : k < n
  · exact h k hlt
  · have hk' := h' (k - n) (by omega)
    unfold later at hk'
    rwa [Nat.sub_add_cancel (by omega)] at hk'

theorem diskReadSector_run (lba : Nat) (buffer : Buf) (off : Nat) (s : State) : diskReadSector lba buffer off s =
    .ok ((s.faults 0).isNone, buffer.blit off (sectorBytes s.sectors lba) (sectorSize * transferred (s.faults 0) 1))
      { s with faults := later s.faults 1 } := rfl

/-- The buffer of a call that reads sector `i` of an area. -/
theorem blit_sector (sectors : Nat → Buf) (lba : Nat) (buffer : Buf) (i : Nat) (fault : Option Nat) :
    (∀ x, x / sectorSize = i → transferred fault 1 = 1 →
      buffer.blit (sectorSize * i) (sectorBytes sectors (lbaAdd lba i)) (sectorSize * transferred fault 1) x =
        sectorBytes sectors lba x) ∧
    ∀ x, ¬ (x / sectorSize = i ∧ transferred fault 1 = 1) →
      buffer.blit (sectorSize * i) (sectorBytes sectors (lbaAdd lba i)) (sectorSize * transferred fault 1) x =
        buffer x := by
  unfold sectorSize
  constructor
  · intro x hx ht
    rw [ht]
    unfold Buf.blit sectorBytes sectorSize
    rw [if_pos (by omega), lbaAdd_lbaAdd, show i + (x - 512 * i) / 512 = x / 512 by
      omega, show (x - 512 * i) % 512 = x % 512 by omega]
  · intro x hx
    have hle := transferred_le fault 1
    refine Buf.blit_out ?_
    by_cases ht : transferred fault 1 = 1
    · have hne : x / 512 ≠ i := fun he => hx ⟨he, ht⟩
      omega
    · omega

/-- An area is read up to the first failure: what is loaded from sector `i` on, and how many calls were made. -/
theorem readArea_run (lba : Nat) :
    ∀ (n i : Nat) (buffer : Buf) (s : State), ∃ ok b m,
      readArea lba buffer i n s = .ok (ok, b) { s with faults := later s.faults m } ∧
      (ok = true ↔ ∀ k < n, s.faults k = none) ∧ (ok = true → m = n) ∧
      (∀ x, i ≤ x / sectorSize → x / sectorSize < i + n → Fetches s.faults (x / sectorSize - i) →
        b x = sectorBytes s.sectors lba x) ∧
      ∀ x, ¬ (i ≤ x / sectorSize ∧ x / sectorSize < i + n ∧ Fetches s.faults (x / sectorSize - i)) → b x = buffer x
  | 0, i, buffer, s =>
    ⟨true, buffer, 0, rfl, by simp, fun _ => rfl, fun x h1 h2 => absurd h2 (by omega), fun _ _ => rfl⟩
  | n + 1, i, buffer, s => by
    obtain ⟨hin, hout⟩ := blit_sector s.sectors lba buffer i (s.faults 0)
    have hread := diskReadSector_run (lbaAdd lba i) buffer (sectorSize * i) s
    generalize buffer.blit (sectorSize * i) (sectorBytes s.sectors (lbaAdd lba i))
      (sectorSize * transferred (s.faults 0) 1) = b₀ at *
    unfold readArea
    rw [bind_ok hread]
    -- the first of the calls still to come is the one for sector `i`
    have hfirst : ∀ x, x / sectorSize = i → transferred (s.faults 0) 1 = 1 →
        Fetches s.faults (x / sectorSize - i) := by
      intro x hx ht
      rw [hx, Nat.sub_self]
      exact ⟨fun k hk => absurd hk (Nat.not_lt_zero k), ht⟩
    cases hf : s.faults 0 with
    | some k =>
      have hfail : s.faults 0 ≠ none := by
        rw [hf]
        exact Option.some_ne_none k
      refine ⟨false, b₀, 1, rfl, ?_, ?_, ?_, ?_⟩
      · simp only [Bool.false_eq_true, false_iff]
        exact fun h => hfail (h 0 (Nat.succ_pos n))
      · exact fun h => absurd h Bool.false_ne_true
      · intro x h1 h2 hx
        have hi : x / sectorSize = i := by
          by_contra hne
          exact not_fetches_fail hfail (by omega) hx
        rw [hi, Nat.sub_self] at hx
        exact hin x hi hx.2
      · intro x hx
        exact hout x fun hc => hx ⟨by omega, by omega, hfirst x hc.1 hc.2⟩
    | none =>
      obtain ⟨ok, b, m, hrun, hok, hm, hfetched, hkept⟩ :=
        readArea_run lba n (i + 1) b₀ { s with faults := later s.faults 1 }
      have ht : transferred (s.faults 0) 1 = 1 := by rw [hf]; rfl
      have hnext : ∀ x, i + 1 ≤ x / sectorSize →
          (Fetches (later s.faults 1) (x / sectorSize - (i + 1)) ↔ Fetches s.faults (x / sectorSize - i)) := by
        intro x hx
        rw [fetches_none hf, show x / sectorSize - (i + 1) + 1 = x / sectorSize - i by omega]
      refine ⟨ok, b, m + 1, hrun, ?_, fun h => by rw [hm h], ?_, ?_⟩
      · rw [hok]
        constructor
        · intro h k hk
          cases k with
          | zero => exact hf
          | succ k => exact h k (by omega)
        · exact fun h k hk => h (k + 1) (by omega)
      · intro x h1 h2 hx
        by_cases hi : x / sectorSize = i
        · rw [hkept x (by omega)]
          exact hin x hi ht
        · exact hfetched x (by omega) (by omega) ((hnext x (by omega)).2 hx)
      · intro x hx
        rw [hkept x fun hc => hx ⟨by omega, by omega, (hnext x hc.1).1 hc.2.2⟩]
        exact hout x fun hc => hx ⟨by omega, by omega, hfirst x hc.1 hc.2⟩

/-- An area loaded from its start. -/
theorem loadArea_run (lba : Nat) (buffer : Buf) (n : Nat) (s : State) : ∃ ok b m,
    readArea lba buffer 0 n s = .ok (ok, b) { s with faults := later s.faults m } ∧
    (ok = true ↔ ∀ k < n, s.faults k = none) ∧ (ok = true → m = n) ∧ Loads s.faults 0 s.sectors lba buffer n b := by
  obtain ⟨ok, b, m, hrun, hok, hm, hfetched, hkept⟩ := readArea_run lba n 0 buffer s
  simp only [Nat.zero_add, Nat.sub_zero] at hfetched hkept
  refine ⟨ok, b, m, hrun, hok, hm, fun x hx hf => ?_, fun x hx => hkept x fun hc => hx ?_⟩
  · rw [Nat.zero_add] at hf
    exact hfetched x (Nat.zero_le _) hx hf
  · rw [Nat.zero_add]
    exact hc.2

/-! ## The caches -/

/-- The FAT copies `fat12_init` reads. -/
def Fs.copiesRead (fs : Fs) : Nat := if fs.numFats > 1 then 2 else 1

theorem modifyCore_run (f : Core → Core) (s : State) : modifyCore f s = .ok () { s with toCore := f s.toCore } :=
  rfl

/-- The load of the root directory, at the end of the loads. -/
theorem loadRoot_run (lba : Nat) (buffer : Buf) (n : Nat) (s : State) : ∃ ok root m, (do
      let (ok, root) ← readArea lba buffer 0 n
      modifyCore fun c => { c with rootDir := root }
      pure ok) s = .ok ok { s with rootDir := root, faults := later s.faults m } ∧
    Loads s.faults 0 s.sectors lba buffer n root := by
  obtain ⟨ok, root, m, hrun, -, -, hload⟩ := loadArea_run lba buffer n s
  exact ⟨ok, root, m, bind_ok hrun, hload⟩

/-- The caches hold what was transferred before the first failure. -/
theorem loadCaches_run (s : State) :
    ∃ ok fat root s', loadCaches s = .ok ok s' ∧
      s'.toCore = { s.toCore with fatPrimary := fat, rootDir := root } ∧
      Loads s.faults 0 s.sectors (lbaAdd s.fs.baseLba s.fs.fatStartLba) s.fatPrimary s.fs.sectorsPerFat fat ∧
      Loads s.faults (s.fs.sectorsPerFat * s.fs.copiesRead) s.sectors
        (lbaAdd s.fs.baseLba s.fs.rootDirStartLba) s.rootDir s.fs.rootDirSectors root := by
  have hcore : getCore s = .ok s.toCore s := rfl
  obtain ⟨ok, fat, m, hrun, hok, hm, hfat⟩ :=
    loadArea_run (lbaAdd s.fs.baseLba s.fs.fatStartLba) s.fatPrimary s.fs.sectorsPerFat s
  unfold loadCaches
  rw [bind_ok hcore, bind_ok hrun]
  dsimp only
  rw [bind_ok (modifyCore_run _ _)]
  -- the first copy, then the second if there is one, then the root directory
  cases ok with
  | false =>
    obtain ⟨i, hi, hf⟩ := exists_fault (hok.not.1 Bool.false_ne_true)
    refine ⟨false, fat, s.rootDir, _, rfl, rfl, hfat, .unread ⟨i, ?_, hf⟩⟩
    unfold Fs.copiesRead
    split <;> omega
  | true =>
    obtain rfl := hm rfl
    have hnone := hok.1 rfl
    rw [if_neg (by decide)]
    by_cases hcopies : s.fs.numFats > 1
    · have htwo : s.fs.copiesRead = 2 := if_pos hcopies
      rw [if_pos hcopies, htwo]
      obtain ⟨ok₂, second, m₂, hrun₂, hok₂, hm₂, -⟩ :=
        loadArea_run (lbaAdd s.fs.baseLba (s.fs.fatStartLba + s.fs.sectorsPerFat)) s.fatSecondary s.fs.sectorsPerFat
          { s with fatPrimary := fat, faults := later s.faults s.fs.sectorsPerFat }
      have hget : ∀ t : State, (get : M State) t = .ok t t := fun _ => rfl
      have hset : ∀ (b : Buf) (t : State), setFatSecondary b t = .ok () { t with fatSecondary := b } :=
        fun _ _ => rfl
      have hpure : ∀ t : State, (pure ok₂ : M Bool) t = .ok ok₂ t := fun _ => rfl
      rw [bind_ok (hget _), bind_ok hrun₂]
      dsimp only
      rw [bind_ok (hset _ _), bind_ok (hpure _)]
      cases ok₂ with
      | false =>
        obtain ⟨i, hi, hf⟩ := exists_fault (hok₂.not.1 Bool.false_ne_true)
        exact ⟨false, fat, s.rootDir, _, rfl, rfl, hfat, .unread ⟨i + s.fs.sectorsPerFat, by omega, hf⟩⟩
      | true =>
        obtain rfl := hm₂ rfl
        rw [if_neg (by decide)]
        obtain ⟨ok₃, root, m₃, hrun₃, hroot⟩ :=
          loadRoot_run (lbaAdd s.fs.baseLba s.fs.rootDirStartLba) s.rootDir s.fs.rootDirSectors
            { s with
              fatPrimary := fat
              fatSecondary := second
              faults := later (later s.faults s.fs.sectorsPerFat) s.fs.sectorsPerFat }
        refine ⟨ok₃, fat, root, _, hrun₃, rfl, hfat, ?_⟩
        rw [later_later, ← Nat.mul_two] at hroot
        exact hroot.shift (none_twice hnone (hok₂.1 rfl))
    · have hone : s.fs.copiesRead = 1 := if_neg hcopies
      rw [if_neg hcopies, hone, Nat.mul_one]
      obtain ⟨ok₃, root, m₃, hrun₃, hroot⟩ :=
        loadRoot_run (lbaAdd s.fs.baseLba s.fs.rootDirStartLba) s.rootDir s.fs.rootDirSectors
          { s with fatPrimary := fat, faults := later s.faults s.fs.sectorsPerFat }
      refine ⟨ok₃, fat, root, _, hrun₃, rfl, hfat, ?_⟩
      exact hroot.shift hnone

end

/-! ## How a mount fails -/

namespace Fs

/-- The checks on the sectors of a cluster and of a FAT. -/
def UnitsFit (fs : Fs) : Prop :=
  ¬ (fs.sectorsPerCluster = 0 ∨ fs.sectorsPerCluster > maxSectorsPerCluster) ∧
    ¬ (fs.sectorsPerFat = 0 ∨ fs.sectorsPerFat > maxFatSectors)

/-- The check on the size of the root directory. -/
def RootFits (fs : Fs) : Prop := ¬ fs.rootDirSectors > maxRootDirSectors

/-- The check on the number of clusters. -/
def CountFits (fs : Fs) : Prop := ¬ (fs.totalClusters < 1 ∨ fs.totalClusters > 4084)

end Fs

/-- What `fat12_init` leaves of the state `s` where it does not succeed, exit by exit. -/
inductive FailedMount (s : State) (baseLba : Nat) : Core → Prop
  | unread : s.faults 0 ≠ none → FailedMount s baseLba s.toCore
  | sectorSize : s.faults 0 = none → (s.toCore.bootSector baseLba).le 11 2 ≠ sectorSize →
    FailedMount s baseLba s.toCore
  | units (fs : Fs) : s.faults 0 = none → (s.toCore.bootSector baseLba).le 11 2 = Fat12.sectorSize →
      fs = s.fs.ofBpb (s.toCore.bootSector baseLba) baseLba → ¬ fs.UnitsFit →
      FailedMount s baseLba { s.toCore with fs := fs }
  | rootDir (fs : Fs) : s.faults 0 = none → (s.toCore.bootSector baseLba).le 11 2 = Fat12.sectorSize →
      fs = (s.fs.ofBpb (s.toCore.bootSector baseLba) baseLba).sized → fs.UnitsFit → ¬ fs.RootFits →
      FailedMount s baseLba { s.toCore with fs := fs }
  | clusters (fs : Fs) : s.faults 0 = none → (s.toCore.bootSector baseLba).le 11 2 = Fat12.sectorSize →
      fs = (s.fs.ofBpb (s.toCore.bootSector baseLba) baseLba).sized.laidOut → fs.UnitsFit → fs.RootFits →
      ¬ fs.CountFits → FailedMount s baseLba { s.toCore with fs := fs }
  | load (fs : Fs) (fat root : Buf) : s.faults 0 = none → (s.toCore.bootSector baseLba).le 11 2 = Fat12.sectorSize →
      fs = (s.fs.ofBpb (s.toCore.bootSector baseLba) baseLba).sized.laidOut → fs.UnitsFit → fs.RootFits →
      fs.CountFits → Loads s.faults 1 s.sectors (lbaAdd baseLba fs.fatStartLba) s.fatPrimary fs.sectorsPerFat fat →
      Loads s.faults (1 + fs.sectorsPerFat * fs.copiesRead) s.sectors (lbaAdd baseLba fs.rootDirStartLba) s.rootDir
      fs.rootDirSectors root → FailedMount s baseLba { s.toCore with fs := fs, fatPrimary := fat, rootDir := root }

section

variable {s s' : State} {baseLba : Nat} {e : Code}

/-- Every exit of `fat12_init` but the last one is one of these. -/
theorem init_failed (h : init baseLba s = .ok e s') (he : e ≠ .ok) : FailedMount s baseLba s'.toCore := by
  unfold init at h
  rw [bind_ok (diskReadSector_run baseLba (fun _ => 0) 0 s)] at h
  dsimp only at h
  -- the exits in the order of the source
  split at h
  · rename_i hunread
    cases h
    refine .unread fun h0 => ?_
    rw [h0] at hunread
    cases hunread
  rename_i hread
  have h0 : s.faults 0 = none := by simpa using hread
  have hsector : Buf.blit (fun _ => 0) 0 (sectorBytes s.sectors baseLba) (sectorSize * transferred (s.faults 0) 1) =
      s.toCore.bootSector baseLba := by
    rw [h0]
    rfl
  rw [hsector] at h
  split at h
  · rename_i hsize
    cases h
    exact .sectorSize h0 hsize
  rename_i hsize
  have hboot := not_not.1 hsize
  have hcore : ∀ t : State, getCore t = .ok t.toCore t := fun _ => rfl
  rw [bind_ok (modifyCore_run _ _), bind_ok (hcore _)] at h
  split at h
  · rename_i hspc
    cases h
    exact .units _ h0 hboot rfl fun hu => hu.1 hspc
  rename_i hspc
  split at h
  · rename_i hspf
    cases h
    exact .units _ h0 hboot rfl fun hu => hu.2 hspf
  rename_i hspf
  rw [bind_ok (modifyCore_run _ _), bind_ok (hcore _)] at h
  split at h
  · rename_i hroot
    cases h
    exact .rootDir _ h0 hboot rfl ⟨hspc, hspf⟩ fun hr => hr hroot
  rename_i hroot
  rw [bind_ok (modifyCore_run _ _), bind_ok (hcore _)] at h
  split at h
  · rename_i hcount
    cases h
    exact .clusters _ h0 hboot rfl ⟨hspc, hspf⟩ hroot fun hc => hc hcount
  rename_i hcount
  obtain ⟨ok, t, hload, h⟩ := bind_eq_ok h
  split at h
  · obtain ⟨_, _, -, h⟩ := bind_eq_ok h
    cases h
    exact absurd rfl he
  · cases h
    obtain ⟨ok', fat, root, t', hrun, hcore', hfat, hrootDir⟩ := loadCaches_run { s with
      fs := (s.fs.ofBpb (s.toCore.bootSector baseLba) baseLba).sized.laidOut
      faults := later s.faults 1 }
    cases hrun.symm.trans hload
    rw [hcore']
    have hone : ∀ k < 1, s.faults k = none := by
      intro k hk
      rw [Nat.lt_one_iff.1 hk]
      exact h0
    exact .load _ fat root h0 hboot rfl ⟨hspc, hspf⟩ hroot hcount (hfat.shift hone) (hrootDir.shift hone)

/-! ## What later operations use -/

/-- The code of an answer; the current path has none. -/
def Call.code : (x : Call) → x.Answer → Option Code
  | .iterateCurrentDirectory _ _, r => some r.1
  | .iteratePath _ _ _, r => some r.1
  | .changeDirectory _, r => some r
  | .getCwd, _ => none
  | .readFile _ _ _, r => some r.1
  | .change _, r => some r
  | .flush, r => some r

/-- Every operation that returns a code returns `FAT12_ERR_NOT_INITIALIZED`. -/
def State.Refuses (s : State) : Prop :=
  ∀ (x : Call) (fuel : Nat) (r : x.Answer) (s' : State), x.exec fuel s = .ok r s' → ∀ e, x.code r = some e →
    e = .errNotInitialized

/-- What a mount that failed may leave of a mounted volume: a driver that refuses everything, or the volume,
with its geometry and its caches. -/
def Undamaged (s s' : State) : Prop :=
  s'.Refuses ∨ (s'.fs = s.fs ∧ s'.fatPrimary = s.fatPrimary ∧ s'.rootDir = s.rootDir)

/-- A driver that is ready does not refuse. -/
theorem not_refuses (h : s.fsReady = true) : ¬ s.Refuses := by
  intro hr
  have hrun : readFile 0 [] none 0 s = .ok (.errInvalidName, none, none) s := by
    unfold readFile
    rw [bind_ok (show getCore s = .ok s.toCore s from rfl), h]
    rfl
  have hcode := hr (.readFile [] none 0) 0 _ _ hrun .errInvalidName rfl
  exact absurd hcode (by decide)

/-- Nothing but a success of `fat12_init` sets the ready flag, and nothing clears it. -/
theorem FailedMount.ready {c : Core} (h : FailedMount s baseLba c) : c.fsReady = s.fsReady := by
  cases h <;> rfl

/-! ## The mounts that do no damage -/

/-- Every sector of the FAT and of the root directory that is transferred before the first failure holds what is
cached. -/
structure State.CachesAgree (s : State) (baseLba : Nat) : Prop where
  fat : ∀ x, x / sectorSize < s.fs.sectorsPerFat → Fetches s.faults (1 + x / sectorSize) →
    s.fatPrimary x = sectorBytes s.sectors (lbaAdd baseLba s.fs.fatStartLba) x
  root : ∀ x, x / sectorSize < s.fs.rootDirSectors →
    Fetches s.faults (1 + s.fs.sectorsPerFat * s.fs.copiesRead + x / sectorSize) →
    s.rootDir x = sectorBytes s.sectors (lbaAdd baseLba s.fs.rootDirStartLba) x

/-- The boot sector cannot be read, or is none of 512-byte sectors, or describes the mounted geometry once more,
as far as it is looked at, over caches that agree. -/
def State.Harmless (s : State) (baseLba : Nat) : Prop :=
  s.faults 0 ≠ none ∨ (s.toCore.bootSector baseLba).le 11 2 ≠ sectorSize ∨
    (s.fs.ofBpb (s.toCore.bootSector baseLba) baseLba = s.fs ∧
      (s.fs.UnitsFit → s.fs.sized = s.fs ∧
        (s.fs.RootFits → s.fs.laidOut = s.fs ∧ (s.fs.CountFits → s.CachesAgree baseLba))))

/-- The geometry is as before when the fields copied are, and those computed from them. -/
theorem sized_eq_iff {fs : Fs} {sector : Buf} :
    (fs.ofBpb sector baseLba).sized = fs ↔ fs.ofBpb sector baseLba = fs ∧ fs.sized = fs := by
  constructor
  · intro h
    have hbpb : ((fs.ofBpb sector baseLba).sized).ofBpb sector baseLba = (fs.ofBpb sector baseLba).sized := rfl
    have hsized : ((fs.ofBpb sector baseLba).sized).sized = (fs.ofBpb sector baseLba).sized := rfl
    rw [h] at hbpb hsized
    exact ⟨hbpb, hsized⟩
  · rintro ⟨h1, h2⟩
    rw [h1, h2]

theorem laidOut_eq_iff {fs : Fs} {sector : Buf} : (fs.ofBpb sector baseLba).sized.laidOut = fs ↔
    fs.ofBpb sector baseLba = fs ∧ fs.sized = fs ∧ fs.laidOut = fs := by
  constructor
  · intro h
    have hbpb : ((fs.ofBpb sector baseLba).sized.laidOut).ofBpb sector baseLba =
      (fs.ofBpb sector baseLba).sized.laidOut := rfl
    have hsized : ((fs.ofBpb sector baseLba).sized.laidOut).sized = (fs.ofBpb sector baseLba).sized.laidOut := rfl
    have hlaid : ((fs.ofBpb sector baseLba).sized.laidOut).laidOut = (fs.ofBpb sector baseLba).sized.laidOut := rfl
    rw [h] at hbpb hsized hlaid
    exact ⟨hbpb, hsized, hlaid⟩
  · rintro ⟨h1, h2, h3⟩
    rw [h1, h2, h3]

/-- The checks passed are checks of the mounted geometry, when its fields are those of the boot sector. -/
theorem laidOut_of_checks {fs : Fs} {sector : Buf} (h : fs.ofBpb sector baseLba = fs)
    (hu : (fs.ofBpb sector baseLba).sized.laidOut.UnitsFit) (hr : (fs.ofBpb sector baseLba).sized.laidOut.RootFits)
    (hsame : fs.UnitsFit → fs.sized = fs ∧ (fs.RootFits → fs.laidOut = fs)) :
    (fs.ofBpb sector baseLba).sized.laidOut = fs := by
  rw [h] at hu hr
  obtain ⟨h1, h2⟩ := hsame hu
  rw [h1] at hr
  exact laidOut_eq_iff.2 ⟨h, h1, h2 hr⟩

/-- What a boot sector that is read and has 512-byte sectors must say. -/
theorem harmless_iff (h0 : s.faults 0 = none) (hb : (s.toCore.bootSector baseLba).le 11 2 = sectorSize) :
    s.Harmless baseLba ↔
      s.fs.ofBpb (s.toCore.bootSector baseLba) baseLba = s.fs ∧
        (s.fs.UnitsFit → s.fs.sized = s.fs ∧
          (s.fs.RootFits → s.fs.laidOut = s.fs ∧ (s.fs.CountFits → s.CachesAgree baseLba))) := by
  unfold State.Harmless
  simp [h0, hb]

/-- The volume of before is there after a failed mount just where the mount was harmless. -/
theorem FailedMount.kept_iff {c : Core} (h : FailedMount s baseLba c) :
    (c.fs = s.fs ∧ c.fatPrimary = s.fatPrimary ∧ c.rootDir = s.rootDir) ↔ s.Harmless baseLba := by
  cases h with
  | unread h0 => exact iff_of_true ⟨rfl, rfl, rfl⟩ (.inl h0)
  | sectorSize _ hb => exact iff_of_true ⟨rfl, rfl, rfl⟩ (.inr (.inl hb))
  | units fs h0 hb hfs hbad =>
    rw [harmless_iff h0 hb]
    subst hfs
    constructor
    · rintro ⟨hsame, -, -⟩
      exact ⟨hsame, fun hu => absurd (hsame ▸ hu) hbad⟩
    · rintro ⟨hsame, -⟩
      exact ⟨hsame, rfl, rfl⟩
  | rootDir fs h0 hb hfs hu hbad =>
    rw [harmless_iff h0 hb]
    subst hfs
    constructor
    · rintro ⟨hsame, -, -⟩
      obtain ⟨h1, h2⟩ := sized_eq_iff.1 hsame
      exact ⟨h1, fun _ => ⟨h2, fun hr => absurd (hsame ▸ hr) hbad⟩⟩
    · rintro ⟨h1, h2⟩
      have hunits : (s.fs.ofBpb (s.toCore.bootSector baseLba) baseLba).UnitsFit := hu
      rw [h1] at hunits
      exact ⟨sized_eq_iff.2 ⟨h1, (h2 hunits).1⟩, rfl, rfl⟩
  | clusters fs h0 hb hfs hu hr hbad =>
    rw [harmless_iff h0 hb]
    subst hfs
    constructor
    · rintro ⟨hsame, -, -⟩
      obtain ⟨h1, h2, h3⟩ := laidOut_eq_iff.1 hsame
      exact ⟨h1, fun _ => ⟨h2, fun _ => ⟨h3, fun hc => absurd (hsame ▸ hc) hbad⟩⟩⟩
    · rintro ⟨h1, h2⟩
      exact ⟨laidOut_of_checks h1 hu hr fun hu' => ⟨(h2 hu').1, fun hr' => ((h2 hu').2 hr').1⟩, rfl, rfl⟩
  | load fs fat root h0 hb hfs hu hr hc hfat hroot =>
    rw [harmless_iff h0 hb]
    constructor
    · rintro ⟨rfl, hf, hd⟩
      obtain ⟨h1, h2, h3⟩ := laidOut_eq_iff.1 hfs.symm
      exact ⟨h1, fun _ => ⟨h2, fun _ => ⟨h3, fun _ => ⟨hfat.same_iff.1 hf, hroot.same_iff.1 hd⟩⟩⟩⟩
    · rintro ⟨h1, h2⟩
      have hsame :=
        hfs.trans (laidOut_of_checks h1 (hfs ▸ hu) (hfs ▸ hr) fun hu' =>
          ⟨(h2 hu').1, fun hr' => ((h2 hu').2 hr').1⟩)
      subst hsame
      have hagree := ((h2 hu).2 hr).2 hc
      exact ⟨rfl, hfat.same_iff.2 hagree.fat, hroot.same_iff.2 hagree.root⟩

/-- A mount that fails does no damage to a mounted volume just where it is harmless. -/
theorem failed_mount_iff (hready : s.fsReady = true) (h : init baseLba s = .ok e s') (he : e ≠ .ok) :
    Undamaged s s' ↔ s.Harmless baseLba := by
  have hfail := init_failed h he
  rw [← hfail.kept_iff]
  exact or_iff_right (not_refuses (hfail.ready.trans hready))

end

/-- The blank volume, on a disk with another boot sector, of clusters without sectors, at sector 9. -/
def twoBoots : State := .initial fun l =>
  if l = 0 then blankBoot else if l = 9 then fun i => if i = 12 then 2 else 0 else fun _ => 0

/-- It is mounted, and then the other one is tried. -/
def besideBadBoot : State := endState (init 0 twoBoots)

theorem failed_mount_blank : Undamaged blankMounted (endState (init 5 blankMounted)) :=
  (failed_mount_iff rfl (eq_ok_of_returned (by decide +kernel : returned (init 5 blankMounted) = some .errBadBpb))
    (by decide)).2 (.inr (.inl (by decide +kernel)))

/-- The second mount fails, and the driver goes on with clusters without sectors. -/
theorem mounted_volume_damaged : init 0 twoBoots = .ok .ok besideBadBoot ∧ besideBadBoot.fsReady = true ∧
    init 9 besideBadBoot = .ok .errNotFat12 (endState (init 9 besideBadBoot)) ∧
    ¬ Undamaged besideBadBoot (endState (init 9 besideBadBoot)) := by
  have hfirst : returned (init 0 twoBoots) = some .ok := by decide +kernel
  have hsecond : returned (init 9 besideBadBoot) = some .errNotFat12 := by decide +kernel
  have hready : besideBadBoot.fsReady = true ∧ (endState (init 9 besideBadBoot)).fsReady = true := by decide +kernel
  have hspc : besideBadBoot.fs.sectorsPerCluster = 1 ∧
      (endState (init 9 besideBadBoot)).fs.sectorsPerCluster = 0 := by
    decide +kernel
  refine ⟨eq_ok_of_returned hfirst, hready.1, eq_ok_of_returned hsecond, ?_⟩
  rintro (hrefuses | ⟨hfs, -⟩)
  · exact not_refuses hready.2 hrefuses
  · rw [← hfs, hspc.2] at hspc
    exact absurd hspc.1 (by decide)

end AltoniumOS.Fat12

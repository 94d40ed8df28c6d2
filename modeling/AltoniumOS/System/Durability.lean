/-
What is on the disk after a call. On a disk that does not fail the FAT copies and the root directory are in step
with the caches after every call of a run, so that a remount sees the same volume. When calls can fail, a change
says OK only with all of it stored if and only if the flush it gets to, if it does, fails nowhere.
-/
import AltoniumOS.Refine.Counting
import AltoniumOS.System.Effects
import AltoniumOS.System.Enduring

namespace AltoniumOS.Fat12

open AltoniumOS.Lib

section

variable {c c' : Core} {s s' : State} {fuel : Nat}

/-! ## In step after a mount -/

/-- The copies of the FAT on the disk are the same. -/
def Core.CopiesAgree (c : Core) : Prop :=
  ∀ k < c.fs.numFats, ∀ i < sectorSize * c.fs.sectorsPerFat,
    sectorBytes c.sectors (lbaAdd c.fs.baseLba (c.fs.fatStartLba + k * c.fs.sectorsPerFat)) i =
      sectorBytes c.sectors (lbaAdd c.fs.baseLba c.fs.fatStartLba) i

theorem Synced.copiesAgree (h : Synced c) : c.CopiesAgree := by
  intro k hk i hi
  have h0 := h.fat 0 (by omega) i hi
  rw [Nat.zero_mul, Nat.add_zero] at h0
  rw [h.fat k hk i hi, h0]

/-- What a mount loads is in step, when it finds the copies in agreement. -/
theorem mount_synced {baseLba : Nat} (h : (c.mount baseLba).CopiesAgree) : Synced (c.mount baseLba) where
  root _ hi := (loaded_lt hi).symm
  fat k hk i hi := (h k hk i hi).trans (loaded_lt hi).symm

theorem blank_synced : Synced blankMounted.toCore := by
  apply mount_synced
  have hzero : ∀ {lba n : Nat}, (∀ i < n, lbaAdd lba i ≠ 0) → ∀ i < sectorSize * n,
      sectorBytes blankState.sectors lba i = 0 := by
    intro lba n h i hi
    exact congrFun (if_neg (h _ (Nat.div_lt_of_lt_mul hi))) _
  intro k hk i hi
  have hk : k < 2 := hk
  have h1 : ∀ k < 2, ∀ i < 1, lbaAdd (lbaAdd 0 (1 + k * 1)) i ≠ 0 := by decide
  exact (hzero (h1 k hk) i hi).trans (hzero (h1 0 (by omega)) i hi).symm

/-! ## Up to the flush -/

theorem Change.stays_body (h : c.fs.Accepted) (fuel : Nat) (x : Change) :
    Stays c (fun _ => True) (x.body fuel) := by
  cases x with
  | writeFile name data size => exact stays_writeFileBody h fuel name data size
  | createDirectory name => exact stays_createDirectoryBody h fuel name
  | deleteFile name => exact stays_deleteFileBody h fuel name

/-- A change that answers OK made its flush, whatever came of it. -/
theorem Change.exec_ok (x : Change) (h : x.exec fuel s = .ok .ok s') :
    ∃ s₁, x.body fuel s = .ok .ok s₁ ∧ flushAll s₁ = .ok .ok s' := by
  rw [x.exec_eq] at h
  obtain ⟨r, s₁, hb, hf⟩ := bind_eq_ok h
  cases r with
  | ok => exact ⟨s₁, hb, hf⟩
  | _ => cases hf

/-- The reads on the way to the name and those of the search for it, `b` of them, succeed. -/
def Core.Searched (c : Core) (f : Nat → Option Nat) (path : List UInt8) (d : Nat) (n : ShortName)
    (b : Nat) : Prop :=
  b = c.resolveReads path + c.lookupReads d n ∧ ∀ k < b, f k = none

/-- Behind `b` disk calls the change has made its first search for the name `n` in `d`, and what that found and
the room on the volume let it go on. A creation goes on, too, when its search fails. -/
def Change.GoesOn (c : Core) (f : Nat → Option Nat) (d : Nat) (n : ShortName) (b : Nat) : Change → Prop
  | .writeFile path data size =>
    c.Searched f path d n b ∧ (data = none → size = 0) ∧ c.volume.storeCode size d n = .ok
  | .createDirectory path => c.Unfound f path d n b ∧ c.volume.Room d n
  | .deleteFile path => c.Searched f path d n b ∧ c.volume.deleteCode d n = .ok

/-- The disk calls from there to the flush: the zeroing and the write of each new cluster, and what the entry
takes. -/
def Change.callsLeft (c : Core) (d : Nat) (n : ShortName) : Change → Nat
  | .writeFile _ _ size => 2 * c.volume.clustersFor size + c.entryCalls d n
  | .createDirectory _ => 2 + c.entryCalls d n
  | .deleteFile _ => c.lookupReads d n + slotCalls d

/-- The change sets an entry of the FAT: for data, for a new directory or a longer one, or for a chain given
back. -/
def Change.Links (c : Core) (d : Nat) (n : ShortName) : Change → Prop
  | .writeFile _ _ size => 0 < size ∨ c.volume.Grows d n ∨ 2 ≤ c.volume.oldCluster d n
  | .createDirectory _ => True
  | .deleteFile _ => 2 ≤ c.volume.oldCluster d n

instance (c : Core) (d : Nat) (n : ShortName) : (x : Change) → Decidable (x.Links c d n)
  | .writeFile _ _ size => inferInstanceAs (Decidable (0 < size ∨ c.volume.Grows d n ∨ 2 ≤ c.volume.oldCluster d n))
  | .createDirectory _ => inferInstanceAs (Decidable True)
  | .deleteFile _ => inferInstanceAs (Decidable (2 ≤ c.volume.oldCluster d n))

/-- The writes of the flush: the root directory and the FAT copies, as far as they are dirty then. -/
def Change.flushCalls (c : Core) (d : Nat) (n : ShortName) (x : Change) : Nat :=
  (if c.rootDirty = true ∨ d = 0 then c.fs.rootDirSectors else 0) +
    if c.fatDirty = true ∨ x.Links c d n then c.fs.numFats * c.fs.sectorsPerFat else 0

/-- If the change gets as far as its flush, no write of the flush fails. -/
def Change.Stored (c : Core) (f : Nat → Option Nat) (x : Change) : Prop :=
  ∀ d n b, c.volume.resolve (c.start x.path).1 (c.start x.path).2 (components x.path) = .ok (d, n) →
    x.GoesOn c f d n b → (∀ k < x.callsLeft c d n, later f b k = none) → ∀ k < x.flushCalls c d n,
    later f (b + x.callsLeft c d n) k = none

section

variable {d b : Nat} {n : ShortName} {s₁ : State}

/-- A change that gets as far as its flush: the calls it made, and the marks it set. -/
structure Change.Reaches (s s₁ : State) (d : Nat) (n : ShortName) (b : Nat) (x : Change) : Prop where
  resolve : s.toCore.volume.resolve (s.toCore.start x.path).1 (s.toCore.start x.path).2 (components x.path) =
    .ok (d, n)
  goesOn : x.GoesOn s.toCore s.faults d n b
  calls : ∀ k < x.callsLeft s.toCore d n, later s.faults b k = none
  faults : s₁.faults = later s.faults (b + x.callsLeft s.toCore d n)
  marks : Marks s.toCore s₁.toCore (d = 0) (x.Links s.toCore d n)

/-- What stands between `b` calls and the flush, in front of which all of them succeeded. -/
theorem spends_split {m : M Code} {k l : Nat} {Q : Core → Prop}
    (h : Spends m s.toCore (k + l) fun r c' => r = .ok ∧ Q c') (hb : b = k ∧ ∀ i < b, s.faults i = none)
    (hl : ∀ i < l, later s.faults b i = none) :
    ∃ s₁, m s = .ok .ok s₁ ∧ s₁.faults = later s.faults (b + l) ∧ Q s₁.toCore := by
  obtain ⟨rfl, hb⟩ := hb
  obtain ⟨r, s₁, h1, h2, rfl, h3⟩ := h s rfl (succeeds_append hb hl)
  exact ⟨s₁, h1, h2, h3⟩

theorem denotes_of_deleteCode {path : List UInt8}
    (hr : c.volume.resolve (c.start path).1 (c.start path).2 (components path) = .ok (d, n))
    (hcode : c.volume.deleteCode d n = .ok) :
    ∃ p, c.Denotes path d n p ∧ (c.volume.slot p).isDirectory = false ∧
      c.volume.oldCluster d n = (c.volume.slot p).cluster := by
  unfold Volume.deleteCode at hcode
  cases hp : c.volume.lookup d n with
  | none =>
    rw [Volume.find_eq, hp] at hcode
    cases hcode
  | some p =>
    rw [Volume.find_eq, hp] at hcode
    dsimp only [Option.map] at hcode
    split at hcode
    · cases hcode
    · rename_i hfile
      refine ⟨p, ⟨hr, hp⟩, by simpa using hfile, ?_⟩
      unfold Volume.oldCluster
      rw [Volume.find_eq, hp]
      rfl

theorem Change.reaches_of_goesOn (hf : 4096 ≤ fuel) (h : s.toCore.WellFormed) {x : Change}
    (hr : s.toCore.volume.resolve (s.toCore.start x.path).1 (s.toCore.start x.path).2 (components x.path) =
      .ok (d, n))
    (hgo : x.GoesOn s.toCore s.faults d n b) (hcalls : ∀ k < x.callsLeft s.toCore d n, later s.faults b k = none) :
    ∃ s₁, x.body fuel s = .ok .ok s₁ ∧ x.Reaches s s₁ d n b := by
  cases x with
  | writeFile path data size =>
    obtain ⟨hb, hdata, hcode⟩ := hgo
    have hspends := spends_writeFileBody h.mounted h.wf h.settled hf hr hdata hcode
    rw [← Nat.add_assoc] at hspends
    obtain ⟨s₁, h1, h2, h3⟩ := spends_split hspends hb hcalls
    exact ⟨s₁, h1, hr, ⟨hb, hdata, hcode⟩, hcalls, h2, h3⟩
  | createDirectory path =>
    obtain ⟨hb, hroom⟩ := hgo
    obtain ⟨s₀, hc, hf₀, hrun⟩ := createDirectoryBody_behind hf h hr hb
    obtain ⟨q, hd⟩ := (resolve_dir h.wf h.settled hr).1
    have hspends := spends_createBehind h.mounted h.wf hf hd n hroom
    obtain ⟨r, s₁, h1, h2, rfl, h3⟩ := hspends s₀ hc (by rw [hf₀]; exact hcalls)
    rw [hf₀, later_later, Nat.add_comm] at h2
    exact ⟨s₁, hrun.trans h1, hr, ⟨hb, hroom⟩, hcalls, h2, h3⟩
  | deleteFile path =>
    obtain ⟨hb, hcode⟩ := hgo
    obtain ⟨p, x, hfile, hcluster⟩ := denotes_of_deleteCode hr hcode
    have hspends := spends_deleteFileBody h.mounted h.wf h.settled hf x hfile
    rw [← Nat.add_assoc, ← hcluster] at hspends
    obtain ⟨s₁, h1, h2, h3⟩ := spends_split hspends hb hcalls
    exact ⟨s₁, h1, hr, ⟨hb, hcode⟩, hcalls, h2, h3⟩

/-- A directory that was made had room. -/
theorem room_of_createBehind (hf : 4096 ≤ fuel) (h : c.WellFormed) (hd : c.volume.Dir d) (hn : n.Proper)
    (hc : s.toCore = c) (hrun : createBehind fuel c.fs d n s = .ok .ok s₁) : c.volume.Room d n := by
  cases hfind : c.volume.find d n with
  | none =>
    obtain ⟨q, hd⟩ := hd
    have hrun := (heeds_createBehind fuel c.fs d n).repaired hrun rfl
    rcases gives_createBehind h.mounted h.wf hf hd hn hfind with ⟨c', k, -, -, hcode⟩ | ⟨e, c', hg, hne, -⟩
    · unfold Volume.makeCode at hcode
      rw [if_neg (not_not.2 hfind)] at hcode
      split at hcode
      · cases hcode
      · rename_i hfree
        refine ⟨by omega, fun hg => ?_⟩
        rw [if_pos hg.2] at hcode
        split at hcode
        · cases hcode
        · rename_i h0
          split at hcode
          · cases hcode
          · exact ⟨h0, by omega⟩
    · exact absurd (hg.eq_of_ok (s := s.repaired) hc (repaired_reliable s) hrun).1.symm hne
  | some o =>
    refine ⟨?_, fun hg => by rw [hg.1] at hfind; cases hfind⟩
    cases hk : firstFree c with
    | some k => exact Finset.card_pos.2 ⟨k, firstFree_some hk⟩
    | none =>
      obtain ⟨s₂, h2, -⟩ := (@runs_behind_full c s.faults fuel d n hk).run hc rfl
      cases hrun.symm.trans h2

/-- A change that answers OK up to its flush got there so. -/
theorem Change.reaches_of_ok (hf : 4096 ≤ fuel) (h : s.toCore.WellFormed) {x : Change}
    (hx : x.body fuel s = .ok .ok s₁) : ∃ d n b, x.Reaches s s₁ d n b := by
  cases x with
  | writeFile path data size =>
    have hheeds := heeds_writeFileBody fuel path data size
    rcases gives_writeFileBody_code h.mounted h.wf h.settled hf path data size
      with ⟨c', d, n, -, hr, -, hcode, hnull⟩ | ⟨e, c', hg, hne, -⟩
    · -- an answer of OK heeds every failure, so all the calls it takes succeeded
      have hdata : data = none → size = 0 :=
        fun hd => Nat.eq_zero_of_not_pos fun hpos => hnull ⟨by rw [hd]; rfl, hpos⟩
      have hspends := spends_writeFileBody h.mounted h.wf h.settled hf hr hdata hcode
      rw [← Nat.add_assoc] at hspends
      obtain ⟨hok, hfaults, -, hmarks⟩ := hheeds.spends hspends hx rfl
      exact ⟨d, n, _, hr, ⟨⟨rfl, fun k hk => hok k (by omega)⟩, hdata, hcode⟩,
        succeeds_later (by rwa [Nat.add_comm]), hfaults, hmarks⟩
    · exact absurd (hg.eq_of_ok (repaired_toCore s) (repaired_reliable s) (hheeds.repaired hx rfl)).1.symm hne
  | createDirectory path =>
    obtain ⟨-, hne⟩ | ⟨d, n, b, s₀, hr, hb, hc, hf₀, hrun⟩ := createDirectoryBody_cases hf h hx
    · exact absurd rfl hne
    · obtain ⟨hd, hn⟩ := resolve_dir h.wf h.settled hr
      have hroom := room_of_createBehind hf h hd hn hc hrun
      obtain ⟨q, hd⟩ := hd
      have hspends := spends_createBehind h.mounted h.wf hf hd n hroom
      obtain ⟨hok, hfaults, -, hmarks⟩ :=
        (heeds_createBehind fuel s.fs d n).spends (s := s₀) (by rw [hc]; exact hspends) hrun rfl
      rw [hf₀] at hok
      rw [hf₀, later_later, Nat.add_comm] at hfaults
      exact ⟨d, n, b, hr, ⟨hb, hroom⟩, hok, hfaults, hmarks⟩
  | deleteFile path =>
    have hheeds := heeds_deleteFileBody fuel path
    rcases gives_deleteFileBody_code h.mounted h.wf h.settled hf path
      with ⟨c', d, n, o, -, hr, hdel, hfind⟩ | ⟨e, c', hg, hne, -⟩
    · have hcode : s.toCore.volume.deleteCode d n = .ok := by
        unfold Volume.deleteCode
        rw [hfind]
        exact if_neg (by rw [hdel.file]; decide)
      obtain ⟨p, x, hfile, hcluster⟩ := denotes_of_deleteCode hr hcode
      have hspends := spends_deleteFileBody h.mounted h.wf h.settled hf x hfile
      rw [← Nat.add_assoc, ← hcluster] at hspends
      obtain ⟨hok, hfaults, -, hmarks⟩ := hheeds.spends hspends hx rfl
      exact ⟨d, n, _, hr, ⟨⟨rfl, fun k hk => hok k (by omega)⟩, hcode⟩, succeeds_later (by rwa [Nat.add_comm]),
        hfaults, hmarks⟩
    · exact absurd (hg.eq_of_ok (repaired_toCore s) (repaired_reliable s) (hheeds.repaired hx rfl)).1.symm hne

/-- The flush makes the writes counted. -/
theorem Change.Reaches.flush {x : Change} (hx : x.Reaches s s₁ d n b) (hfs : s₁.fs = s.fs) :
    FlushSucceeds s₁ ↔ ∀ k < x.flushCalls s.toCore d n, later s.faults (b + x.callsLeft s.toCore d n) k = none := by
  have hlen : s₁.rootWrites.length + s₁.fatWrites.length = x.flushCalls s.toCore d n := by
    rw [length_rootWrites, length_fatWrites, hfs]
    unfold Change.flushCalls
    exact congrArg₂ _ (if_congr hx.marks.root rfl rfl) (if_congr hx.marks.fat rfl rfl)
  rw [flushSucceeds_iff, hlen, hx.faults]

end

/-- OK is said only when all is stored: the caches are on the disk, and both flushes succeeded. -/
def Change.SaysStored (fuel : Nat) (s : State) (x : Change) : Prop :=
  ∀ s', x.exec fuel s = .ok .ok s' → Synced s'.toCore ∧ ∀ s₁, x.body fuel s = .ok .ok s₁ → FlushSucceeds s₁

/-- A change says OK only when all is stored, if and only if none of the calls fails that its flush makes,
should it get there. -/
theorem change_synced_iff (hf : 4096 ≤ fuel) (h : s.toCore.WellFormed) (hs : Synced s.toCore) (x : Change) :
    x.SaysStored fuel s ↔ x.Stored s.toCore s.faults := by
  have hacc := h.mounted.accepted
  have hfs : ∀ {s₁ : State}, x.body fuel s = .ok .ok s₁ → Behind s.toCore s₁.toCore :=
    fun hb => ((x.stays_body hacc fuel).ok (.refl _) hb).1
  constructor
  · intro hstands d n b hr hgo hcalls
    obtain ⟨s₁, hb, hx⟩ := x.reaches_of_goesOn hf h hr hgo hcalls
    obtain ⟨s', hflush, -⟩ := flushAll_returns s₁
    have hexec : x.exec fuel s = .ok .ok s' := by
      rw [x.exec_eq]
      unfold committing
      rw [bind_ok hb]
      exact hflush
    exact (hx.flush (hfs hb).fs).1 ((hstands s' hexec).2 s₁ hb)
  · intro hstored s' hexec
    obtain ⟨s₁, hb, hflush⟩ := x.exec_ok hexec
    obtain ⟨d, n, b, hx⟩ := x.reaches_of_ok hf h hb
    have b := hfs hb
    have hdone : FlushSucceeds s₁ := (hx.flush b.fs).2 (hstored d n _ hx.resolve hx.goesOn hx.calls)
    obtain ⟨hroot, hfat⟩ := b.clean hacc hs
    refine ⟨(synced_flush (b.fs ▸ hacc) hroot hfat hflush).2 ?_, fun s₂ hb₂ => ?_⟩
    · rw [hdone.unflushed]
      exact fun w hw => nomatch hw
    · cases hb.symm.trans hb₂
      exact hdone

/-- A file of 600 bytes in the root directory of the blank disk: four calls for its two clusters, and the flush
behind them makes three. -/
theorem blank_counts :
    ∃ n, blankMounted.toCore.volume.resolve (blankMounted.toCore.start [65]).1 (blankMounted.toCore.start [65]).2
      (components [65]) = .ok (0, n) ∧
      blankMounted.toCore.resolveReads [65] + blankMounted.toCore.lookupReads 0 n = 0 ∧
    blankMounted.toCore.volume.storeCode 600 0 n = .ok ∧
    (Change.writeFile [65] (some fun _ => 7) 600).callsLeft blankMounted.toCore 0 n = 4 ∧
    (Change.writeFile [65] (some fun _ => 7) 600).flushCalls blankMounted.toCore 0 n = 3 :=
  ⟨_, rfl, by decide +kernel⟩

/-- The call behind the flush may fail; with one of the flush failing the write says OK and has not stored all. -/
theorem change_synced_iff_blank :
    (Change.writeFile [65] (some fun _ => 7) 600).SaysStored 4096 (blankMounted.withFaults (failingAt 7)) ∧
      ¬ (Change.writeFile [65] (some fun _ => 7) 600).SaysStored 4096 (blankMounted.withFaults (failingAt 5)) := by
  obtain ⟨n, hres, hreads, hcode, hcalls, hflush⟩ := blank_counts
  have hiff : ∀ f, (Change.writeFile [65] (some fun _ => 7) 600).SaysStored 4096 (blankMounted.withFaults f) ↔
      (Change.writeFile [65] (some fun _ => 7) 600).Stored blankMounted.toCore f := fun f =>
    change_synced_iff (s := blankMounted.withFaults f) (Nat.le_refl 4096) blank_wellFormed.1 blank_synced _
  constructor
  · refine (hiff _).2 fun d m b hr hgo _ k hk => ?_
    cases hres.symm.trans hr
    rw [hflush] at hk
    rw [hgo.1.1, hreads, hcalls]
    exact if_neg (by omega)
  · intro hstands
    have hstored :=
      (hiff _).1 hstands 0 n 0 hres ⟨⟨hreads.symm, fun k hk => nomatch hk⟩, fun h => (nomatch h), hcode⟩
    rw [hcalls, hflush] at hstored
    have hlost := hstored (fun k hk => if_neg (by omega)) 1 (by decide)
    exact absurd hlost (by decide)

/-- The driver on the blank disk, when the next disk call is to be refused. -/
def blankRefusing : State := { blankMounted with faults := fun k => if k = 0 then some 0 else none }

/-- After a file `A` of no bytes is written there: the one write made was refused. -/
def blankLost : State := endState (writeFile 4096 [65] none 0 blankRefusing)

theorem blank_lost_runs :
    returned (writeFile 4096 [65] none 0 blankRefusing) = some .ok ∧
      0 < sectorSize * blankLost.fs.rootDirSectors ∧
      sectorBytes blankLost.sectors (lbaAdd blankLost.fs.baseLba blankLost.fs.rootDirStartLba) 0 ≠
        blankLost.rootDir 0 := by
  decide +kernel

theorem blank_lost : writeFile 4096 [65] none 0 blankRefusing = .ok .ok blankLost :=
  eq_ok_of_returned blank_lost_runs.1

/-- The refused write is lost: the file is in the cached root directory and not on the disk. -/
theorem change_not_synced :
    ¬ ∀ (fuel : Nat) (x : Change) (s s' : State), 4096 ≤ fuel → s.toCore.WellFormed →
      (∀ k, s.faults k = none ∨ s.faults k = some 0) → Synced s.toCore → x.exec fuel s = .ok .ok s' →
      Synced s'.toCore := by
  intro h
  have hs := h 4096 (.writeFile [65] none 0) blankRefusing blankLost (Nat.le_refl _) blank_wellFormed.1
    (fun k => by by_cases hk : k = 0 <;> simp [blankRefusing, hk]) blank_synced blank_lost
  exact absurd (hs.root 0 blank_lost_runs.2.1) blank_lost_runs.2.2

/-! ## Calls on a disk that does not fail -/

/-- The state of a driver that was mounted from `boot` at `baseLba`, with nothing left to flush. -/
structure InStep (boot : Buf) (baseLba : Nat) (c : Core) : Prop where
  wellFormed : c.WellFormed
  synced : Synced c
  layout : c.fs = Fs.ofBoot boot baseLba
  boot : c.bootSector baseLba = boot

theorem Core.exists_reliable (c : Core) : ∃ s : State, s.toCore = c ∧ Reliable s :=
  ⟨{ State.initial c.sectors with toCore := c }, rfl, fun _ => rfl⟩

/-- What holds of every run of a call holds of the run on a disk that does not fail. -/
theorem Behind.of_gives {α : Type} {Q : α → Prop} {m : M α} {r : α} (hst : Stays c Q m)
    (hg : Gives m c r c') : Behind c c' := by
  obtain ⟨s, rfl, hs⟩ := c.exists_reliable
  obtain ⟨s', h1, rfl, -⟩ := hg s rfl hs
  exact (hst.ok (.refl _) h1).1

/-- A flush that loses nothing leaves everything in step. -/
theorem Behind.synced_flushed (h : c.fs.Accepted) (hs : Synced c) (b : Behind c c') : Synced c'.flushed := by
  obtain ⟨s, rfl, hrel⟩ := c'.exists_reliable
  obtain ⟨s', hf, hs', -⟩ := gives_flushAll s.toCore s rfl hrel
  obtain ⟨hroot, hfat⟩ := b.clean h hs
  rw [← hs', synced_flush (b.fs ▸ h) hroot hfat hf]
  unfold State.unflushed
  rw [undone_reliable hrel, undone_reliable (show ∀ k, later s.faults _ k = none from fun k => hrel _)]
  exact fun w hw => nomatch hw

/-- A flush leaves the reserved sectors alone. -/
theorem reserved_flushed (h : c.fs.Accepted) {i : Nat} (hi : i < c.fs.reservedSectors) :
    c.flushed.sectors (lbaAdd c.fs.baseLba i) = c.sectors (lbaAdd c.fs.baseLba i) := by
  refine applyWrites_other fun w hw he => ?_
  obtain ⟨j, hj, hjd, hwj⟩ := flush_address h hw
  have := h.dataStart_lt
  have := lbaAdd_inj (by omega) (by omega) (hwj.symm.trans he)
  omega

theorem bootSector_congr {baseLba : Nat} (h : c'.sectors (lbaAdd baseLba 0) = c.sectors (lbaAdd baseLba 0)) :
    c'.bootSector baseLba = c.bootSector baseLba := by
  funext i
  unfold Core.bootSector Buf.blit
  split
  · rename_i hi
    unfold sectorBytes
    have : (i - 0) / sectorSize = 0 := Nat.div_eq_of_lt (by omega)
    rw [this, h]
  · rfl

/-- Along a change nothing before the FAT copies is written. -/
theorem Behind.bootSector (h : c.fs.Accepted) (hr : 1 ≤ c.fs.reservedSectors) (b : Behind c c') :
    c'.bootSector c.fs.baseLba = c.bootSector c.fs.baseLba ∧
      c'.flushed.bootSector c.fs.baseLba = c.bootSector c.fs.baseLba := by
  have h0 : c'.sectors (lbaAdd c.fs.baseLba 0) = c.sectors (lbaAdd c.fs.baseLba 0) :=
    b.kept 0 (by have := h.dataStart; omega)
  have hf := reserved_flushed (b.fs ▸ h : c'.fs.Accepted) (b.fs ▸ hr : 0 < c'.fs.reservedSectors)
  rw [b.fs] at hf
  exact ⟨bootSector_congr h0, bootSector_congr (hf.trans h0)⟩

variable {boot : Buf} {baseLba : Nat}

theorem InStep.base (h : InStep boot baseLba c) : c.fs.baseLba = baseLba := by
  rw [h.layout]
  rfl

/-- A change leaves the driver in step: one that is made flushes, one that is rejected has put the caches
back. -/
theorem Change.inStep (hf : 4096 ≤ fuel) (h : InStep boot baseLba c) (x : Change) :
    ∃ r c', Gives (x.exec fuel) c r c' ∧ InStep boot baseLba c' := by
  have hacc := h.wellFormed.mounted.accepted
  rw [x.exec_eq]
  rcases x.gives_body hf h.wellFormed with ⟨c', d, n, o, e, hg, he⟩ | ⟨e, c', hg, hne, hu⟩
  · have b := Behind.of_gives (x.stays_body hacc fuel) hg
    have he' := he.flushed (he.env.mounted h.wellFormed.mounted)
    refine ⟨_, _, gives_committing_ok hg, he'.wellFormed h.wellFormed, b.synced_flushed hacc h.synced, ?_, ?_⟩
    · rw [he'.env.fs, h.layout]
    · have hb := (b.bootSector hacc h.wellFormed.mounted.reserved).2
      rw [h.base] at hb
      rw [hb, h.boot]
  · have b := Behind.of_gives (x.stays_body hacc fuel) hg
    refine ⟨_, _, gives_committing_error hg hne, hu.wellFormed h.wellFormed,
      b.synced hacc h.synced hu.root hu.fat, ?_, ?_⟩
    · rw [hu.env.fs, h.layout]
    · have hb := (b.bootSector hacc h.wellFormed.mounted.reserved).1
      rw [h.base] at hb
      rw [hb, h.boot]

/-- So does every call. -/
theorem Op.inStep (hf : 4096 ≤ fuel) (h : InStep boot baseLba c) (op : Op) :
    ∃ r c', Gives (op.exec fuel) c r c' ∧ InStep boot baseLba c' := by
  cases op with
  | change x => exact x.inStep hf h
  | changeDirectory path =>
    obtain ⟨r, c', hg, hw, hc⟩ := changeDirectory_returns hf h.wellFormed path
    refine ⟨r, c', hg, ?_⟩
    rcases hc with rfl | ⟨cluster, stack, rfl⟩
    · exact h
    · exact ⟨hw, ⟨h.synced.root, h.synced.fat⟩, h.layout, h.boot⟩
  | readFile path buffer maxSize =>
    obtain ⟨r, hg⟩ := readFile_returns hf h.wellFormed path buffer maxSize
    exact ⟨_, c, hg.map Prod.fst, h⟩

/-! ## Mounting again -/

theorem volume_congr (hfs : c'.fs = c.fs) (hfat : ∀ i < c.fs.fatSizeBytes, c'.fatPrimary i = c.fatPrimary i)
    (hroot : ∀ i < dirEntrySize * c.fs.rootEntryCount, c'.rootDir i = c.rootDir i) (hsec : c'.sectors = c.sectors) :
    c'.volume = c.volume := by
  have h1 : c'.volume.fat = c.volume.fat := by
    funext k
    show getFatEntry c' k = getFatEntry c k
    unfold getFatEntry
    rw [hfs]
    dsimp only
    split
    · rfl
    · rw [hfat _ (by omega), hfat _ (by omega)]
  have h2 : ∀ i < c.fs.rootEntryCount, slotAt c'.rootDir i = slotAt c.rootDir i := by
    intro i hi
    refine decodeEntry_congr fun k hk => hroot _ ?_
    unfold dirEntrySize
    omega
  have h3 : c'.volume.root = c.volume.root := by
    funext i
    show (if i < c'.fs.rootEntryCount then _ else _) = if i < c.fs.rootEntryCount then _ else _
    rw [hfs]
    split
    · exact h2 i ‹_›
    · rfl
  have h4 : c'.volume.data = c.volume.data := by
    funext k i
    show (if 2 ≤ k ∧ k < c'.fs.totalClusters + 2 ∧ i < c'.fs.clusterSizeBytes then c'.clusterBytes k i else 0) =
      if 2 ≤ k ∧ k < c.fs.totalClusters + 2 ∧ i < c.fs.clusterSizeBytes then c.clusterBytes k i else 0
    unfold Core.clusterBytes
    rw [hfs, hsec]
  calc c'.volume = ⟨c'.fs.totalClusters, c'.fs.fatSizeBytes, c'.fs.rootEntryCount, c'.fs.clusterSizeBytes,
        c'.volume.fat, c'.volume.root, c'.volume.data⟩ := rfl
    _ = c.volume := by rw [hfs, h1, h3, h4]; rfl

/-- A mount of the disk of a driver that is in step gives back the caches. -/
theorem InStep.mount (h : InStep boot baseLba c) {d : Core} (hd : d.sectors = c.sectors) :
    (d.mount baseLba).fs = c.fs ∧
      (∀ i < sectorSize * c.fs.sectorsPerFat, (d.mount baseLba).fatPrimary i = c.fatPrimary i) ∧
      (∀ i < sectorSize * c.fs.rootDirSectors, (d.mount baseLba).rootDir i = c.rootDir i) := by
  have hfs : (d.mount baseLba).fs = c.fs := by
    have hboot : d.bootSector baseLba = boot := by
      rw [← h.boot]
      exact bootSector_congr (by rw [hd])
    rw [h.layout, ← hboot]
    rfl
  have hbase : (d.mount baseLba).fs.baseLba = baseLba := rfl
  refine ⟨hfs, fun i hi => ?_, fun i hi => ?_⟩
  · have hload : (d.mount baseLba).fatPrimary i =
        sectorBytes d.sectors (lbaAdd (d.mount baseLba).fs.baseLba (d.mount baseLba).fs.fatStartLba) i :=
      loaded_lt (by show i < sectorSize * (d.mount baseLba).fs.sectorsPerFat; rw [hfs]; exact hi)
    have h0 := h.synced.fat 0 h.wellFormed.mounted.fats i hi
    rw [Nat.zero_mul, Nat.add_zero] at h0
    rw [hload, hfs, hd, h0]
  · have hload : (d.mount baseLba).rootDir i =
        sectorBytes d.sectors (lbaAdd (d.mount baseLba).fs.baseLba (d.mount baseLba).fs.rootDirStartLba) i :=
      loaded_lt (by show i < sectorSize * (d.mount baseLba).fs.rootDirSectors; rw [hfs]; exact hi)
    rw [hload, hfs, hd, h.synced.root i hi]

theorem InStep.volume_mount (h : InStep boot baseLba c) {d : Core} (hd : d.sectors = c.sectors) :
    (d.mount baseLba).volume = c.volume := by
  obtain ⟨hfs, hfat, hroot⟩ := h.mount hd
  have hacc := h.wellFormed.mounted.accepted
  refine volume_congr hfs (fun i hi => hfat i ?_) (fun i hi => hroot i ?_) hd
  · rw [hacc.fatSize] at hi
    rwa [Nat.mul_comm]
  · have := hacc.rootSectors
    unfold dirEntrySize at this hi
    unfold sectorSize at this ⊢
    omega

/-- After every call of a run on a disk that does not fail, the disk can be mounted again, by whatever
driver, and gives back the caches: absolute paths read and list as they do without the remount. -/
theorem remount_agrees (hf : 4096 ≤ fuel) {s₀ : State} (hs₀ : Reliable s₀) (hinit : init baseLba s₀ = .ok .ok s)
    (hres : 1 ≤ s.fs.reservedSectors) (hfats : 1 ≤ s.fs.numFats) (hwf : s.toCore.volume.WF ∅)
    (hcopies : s.toCore.CopiesAgree) (hrun : Run fuel anyCall s s') {t : State} (ht : Reliable t)
    (hdisk : t.sectors = s'.sectors) :
    s'.toCore.CopiesAgree ∧ ∃ t', init baseLba t = .ok .ok t' ∧ t'.fs = s'.fs ∧
      (∀ i < sectorSize * s'.fs.sectorsPerFat, t'.fatPrimary i = s'.fatPrimary i) ∧
      (∀ i < sectorSize * s'.fs.rootDirSectors, t'.rootDir i = s'.rootDir i) ∧
      ∀ path, isAbsolute path = true →
        (∀ buffer maxSize, ∃ r, Answers (readFile fuel path (some buffer) maxSize) s' r ∧
          Answers (readFile fuel path (some buffer) maxSize) t' r) ∧
        ∀ (κ : Type) (cb : κ → DirEntryInfo → Bool × κ) (ctx : κ), ∃ r,
        Answers (iteratePath fuel path cb ctx) s' r ∧
          Answers (iteratePath fuel path cb ctx) t' r := by
  obtain ⟨hm, hcore, hs⟩ := init_ok hs₀ hinit
  have hstart : InStep (s₀.toCore.bootSector baseLba) baseLba s.toCore := by
    rw [hcore] at hres hfats hwf hcopies ⊢
    exact ⟨(mount_wellFormed hm hres hfats hwf).1, mount_synced hcopies, rfl, rfl⟩
  obtain ⟨hin, hs'⟩ := hrun.invariant (fun c op hc _ => op.inStep hf hc) hs hstart
  refine ⟨hin.synced.copiesAgree, ?_⟩
  -- the boot sector is never written, so the mount succeeds again
  have hboot : t.toCore.bootSector baseLba = s₀.toCore.bootSector baseLba := by
    rw [← hin.boot]
    exact bootSector_congr (by rw [hdisk])
  obtain ⟨t', hmount, ht', hrel⟩ :=
    gives_mount (hboot ▸ hm : Mountable (t.toCore.bootSector baseLba) baseLba) t rfl ht
  obtain ⟨hfs, hfat, hroot⟩ := hin.mount hdisk
  have hvol := hin.volume_mount hdisk
  have hw' : t'.toCore.WellFormed := by
    rw [ht']
    apply (mount_wellFormed (hboot ▸ hm) _ _ _).1
    · rw [hfs]
      exact hin.wellFormed.mounted.reserved
    · rw [hfs]
      exact hin.wellFormed.mounted.fats
    · rw [hvol]
      exact hin.wellFormed.wf
  refine ⟨t', hmount, ht' ▸ hfs, ht' ▸ hfat, ht' ▸ hroot, fun path hp => ?_⟩
  -- both states have one volume, and an absolute path starts at its root in both
  have hvol' : t'.toCore.volume = s'.toCore.volume := ht' ▸ hvol
  have hpath : t'.toCore.start path = s'.toCore.start path := by
    unfold Core.start
    rw [if_pos hp, if_pos hp]
  have h := hin.wellFormed
  refine ⟨fun buffer maxSize => ⟨_, answers_read hf hs' h path buffer maxSize, ?_⟩, fun κ cb ctx => ⟨_,
    .of_gives (gives_iteratePath h.mounted h.wf hf h.settled path cb ctx) rfl hs', ?_⟩⟩
  · rw [← hvol', ← hpath]
    exact answers_read hf hrel hw' path buffer maxSize
  · rw [← hvol', ← hpath]
    exact .of_gives (gives_iteratePath hw'.mounted hw'.wf hf hw'.settled path cb ctx) rfl hrel

theorem remount_agrees_blank : ∃ s r s' t, init 0 blankState = .ok .ok s ∧
    writeFile 4096 [65] (some fun _ => 7) 600 s = .ok r s' ∧ init 0 s' = .ok .ok t ∧ t.fs = s'.fs := by
  obtain ⟨s, hs, hcore, hrel⟩ := init_blank
  have hw : s.toCore.WellFormed := hcore ▸ blank_wellFormed.1
  obtain ⟨r, c', hg, -⟩ := Op.returns (Nat.le_refl 4096) hw (.change (.writeFile [65] (some fun _ => 7) 600))
  obtain ⟨s', he, -, hrel'⟩ := hg s rfl hrel
  obtain ⟨-, t, ht, hfs, -⟩ :=
    remount_agrees (Nat.le_refl 4096) blank_reliable hs hw.mounted.reserved hw.mounted.fats hw.wf
      (by rw [hcore]; exact blank_synced.copiesAgree) (.step (.refl _) trivial he) hrel' rfl
  exact ⟨s, r, s', t, hs, he, ht, hfs⟩

end

end AltoniumOS.Fat12

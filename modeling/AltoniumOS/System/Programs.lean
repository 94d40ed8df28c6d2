/-
The functions of `fat12.c` as programs that keep their variables in memory and use the disk by calls for sectors
it has. So they can be run over any disk that takes these calls; over sectors whose calls come out in some way
they do what the functions do.
-/
import AltoniumOS.Disk.Clients
import AltoniumOS.System.Calls

namespace AltoniumOS.Fat12

open AltoniumOS.Lib
open AltoniumOS.Disk (DiskCall Store)

/-! ## Memory and disk -/

/-- The static variables of `fat12.c`. -/
structure Memory where
  fs : Fs
  fatPrimary : Buf
  rootDir : Buf
  fsReady : Bool
  fatDirty : Bool
  rootDirty : Bool
  currentDirCluster : Nat
  pathStack : PathStack
  cwd : List UInt8
  fatSecondary : Buf
  clusterBuffer : Buf

/-- The variables of a core, next to these scratch buffers. -/
def Core.memory (c : Core) (fatSecondary clusterBuffer : Buf) : Memory :=
  ⟨c.fs, c.fatPrimary, c.rootDir, c.fsReady, c.fatDirty, c.rootDirty, c.currentDirCluster, c.pathStack, c.cwd,
    fatSecondary, clusterBuffer⟩

def State.memory (s : State) : Memory := s.toCore.memory s.fatSecondary s.clusterBuffer

def Memory.core (μ : Memory) (sectors : Nat → Buf) : Core :=
  ⟨μ.fs, μ.fatPrimary, μ.rootDir, μ.fsReady, μ.fatDirty, μ.rootDirty, μ.currentDirCluster, μ.pathStack,
    μ.cwd, sectors⟩

/-- A memory and a disk with the outcomes to come are a state. -/
def Memory.on (μ : Memory) (t : Store) (faults : Nat → Option Nat) : State :=
  { μ.core t.sectors with
    fatSecondary := μ.fatSecondary, clusterBuffer := μ.clusterBuffer, faults := faults, writes := t.writes }

/-! ## Programs -/

/-- A program of disk calls that returns, or runs out of fuel, and leaves a memory. -/
abbrev Program (α : Type) := Client DiskCall DiskCall.Answer (Except OutOfFuel α × Memory)

section

variable {α β : Type}

/-- The end of a run over the sectors. -/
def ended : (Except OutOfFuel α × Memory) × Store × (Nat → Option Nat) → EStateM.Result OutOfFuel State α
  | ((.ok a, μ), t, faults) => .ok a (μ.on t faults)
  | ((.error e, μ), t, faults) => .error e (μ.on t faults)

/-- From the memory `μ`, and on any disk, `p` does what `m` does. -/
def Spells (p : Program α) (μ : Memory) (m : M α) : Prop :=
  ∀ t faults, m (μ.on t faults) = ended (p.run (Client.foretold Store.serve) (t, faults))

/-- From a layout in `P`, `m` is a program whose calls name sectors there are. What it returns, and the layout
then, are in `Q`. -/
def AsksFrom (P : Fs → Prop) (m : M α) (Q : α → Fs → Prop) : Prop :=
  ∀ μ : Memory, P μ.fs → ∃ p : Program α, p.Within DiskCall.Addressed (fun r => ∀ a, r.1 = .ok a → Q a r.2.fs) ∧
    Spells p μ m

/-- The same, of a program that leaves the layout `fs` alone. -/
abbrev Asks (fs : Fs) (m : M α) (Q : α → Prop) : Prop := AsksFrom (· = fs) m fun a fs' => fs' = fs ∧ Q a

/-- What is done behind a program that returned. -/
def Program.next (f : α → Memory → Program β) : Except OutOfFuel α × Memory → Program β
  | (.ok a, μ) => f a μ
  | (.error e, μ) => .done (.error e, μ)

variable {P : Fs → Prop} {Q : α → Fs → Prop} {R : β → Fs → Prop} {m : M α} {f : α → M β}

namespace AsksFrom

protected theorem pure {a : α} (h : ∀ fs, P fs → Q a fs) : AsksFrom P (pure a) Q := fun μ hμ => by
  refine ⟨.done (.ok a, μ), .done fun b hb => ?_, fun t faults => rfl⟩
  cases hb
  exact h _ hμ

protected theorem throw : AsksFrom P (throw .outOfFuel : M α) Q := fun μ _ =>
  ⟨.done (.error .outOfFuel, μ), .done (fun _ hb => nomatch hb), fun _ _ => rfl⟩

/-- Programs behind each other are one. -/
protected theorem bind (h : AsksFrom P m Q) (hf : ∀ a, AsksFrom (Q a) (f a) R) : AsksFrom P (m >>= f) R :=
  fun μ hμ => by
  obtain ⟨p, hp, hspell⟩ := h μ hμ
  have hnext : ∀ (a : α) (μ' : Memory), ∃ p' : Program β, Q a μ'.fs →
      p'.Within DiskCall.Addressed (fun r => ∀ b, r.1 = .ok b → R b r.2.fs) ∧ Spells p' μ' (f a) := fun a μ' => by
    by_cases hq : Q a μ'.fs
    · obtain ⟨p', hp'⟩ := hf a μ' hq
      exact ⟨p', fun _ => hp'⟩
    · exact ⟨.done (.error .outOfFuel, μ'), fun h => absurd h hq⟩
  choose g hg using hnext
  refine ⟨bind (m := Client DiskCall DiskCall.Answer) p (Program.next g), hp.bind ?_, fun t faults => ?_⟩
  · rintro ⟨a | e, μ'⟩ hr
    · exact .done fun _ hb => nomatch hb
    · exact (hg _ μ' (hr _ rfl)).1
  · have hend := hp.run (Client.foretold Store.serve) (t, faults)
    rw [bind_run, hspell t faults, Client.run_bind]
    generalize p.run (Client.foretold Store.serve) (t, faults) = r at hend
    obtain ⟨⟨e | a, μ'⟩, t', faults'⟩ := r
    · rfl
    · exact (hg a μ' (hend a rfl)).2 t' faults'

/-- Only the variables of the core are looked at. -/
theorem core {f : Core → M α} (hf : ∀ c x, f { c with sectors := x } = f c)
    (h : ∀ c : Core, P c.fs → AsksFrom (· = c.fs) (f c) Q) : AsksFrom P (getCore >>= f) Q := fun μ hμ => by
  obtain ⟨p, hp, hspell⟩ := h (μ.core fun _ _ => 0) hμ μ rfl
  refine ⟨p, hp, fun t faults => ?_⟩
  rw [← hspell t faults, ← hf _ t.sectors]
  rfl

theorem modify {g : Core → Core} {Q : Unit → Fs → Prop}
    (hg : ∀ c x, g { c with sectors := x } = { g c with sectors := x }) (h : ∀ c : Core, P c.fs → Q () (g c).fs) :
    AsksFrom P (modifyCore g) Q := fun μ hμ => by
  refine ⟨.done (.ok (), (g (μ.core fun _ _ => 0)).memory μ.fatSecondary μ.clusterBuffer), .done ?_,
    fun t faults => ?_⟩
  · rintro _ -
    exact h _ hμ
  · have hcore := hg (μ.core fun _ _ => 0) t.sectors
    show EStateM.Result.ok () { μ.on t faults with toCore := g (μ.core t.sectors) } = _
    rw [show g (μ.core t.sectors) = _ from hcore]
    rfl

theorem diskReadSectors {lba off n : Nat} {buffer : Buf} {Q : Bool × Buf → Fs → Prop} (hn : 1 ≤ n)
    (hlba : lba + n ≤ 268435456) (h : ∀ r fs, P fs → Q r fs) :
    AsksFrom P (Fat12.diskReadSectors lba buffer off n) Q := fun μ hμ => by
  refine ⟨.ask (.read lba n buffer off) fun r => .done (.ok r, μ), .ask ⟨hn, hlba⟩ fun r => .done fun _ _ =>
    h _ _ hμ, fun t faults => ?_⟩
  unfold Fat12.diskReadSectors
  rw [if_neg (by omega)]
  rfl

theorem diskWriteSectors {lba n : Nat} {buffer : Buf} {Q : Bool → Fs → Prop} (hn : 1 ≤ n)
    (hlba : lba + n ≤ 268435456) (h : ∀ r fs, P fs → Q r fs) : AsksFrom P (Fat12.diskWriteSectors lba buffer n) Q :=
  fun μ hμ => by
  refine ⟨.ask (.write lba n buffer) fun r => .done (.ok r, μ), .ask ⟨hn, hlba⟩ fun r => .done fun _ _ => h _ _ hμ,
    fun t faults => ?_⟩
  unfold Fat12.diskWriteSectors
  rw [if_neg (by omega)]
  rfl

end AsksFrom

end

/-! ## The sectors of a layout -/

/-- A layout whose sectors, and those that a 16-bit cluster number can lead to, the drive can name. -/
structure Fs.Addressable (fs : Fs) : Prop where
  accepted : fs.Accepted
  base : fs.baseLba + 4194304 ≤ 268435456

section

variable {fs : Fs} {α β : Type} {Q : α → Prop} {R : β → Prop} {m : M α} {f : α → M β} {fuel k : Nat}

theorem Fs.Addressable.area (h : fs.Addressable) {x n : Nat} (hx : x + n ≤ 4194304) :
    lbaAdd fs.baseLba x + n ≤ 268435456 := by
  have := h.base
  unfold lbaAdd
  omega

theorem Fs.Addressable.cluster (h : fs.Addressable) (hk : k < 65536) :
    lbaAdd fs.baseLba (clusterToLba fs k) + fs.sectorsPerCluster ≤ 268435456 := by
  have h1 := h.accepted.dataStart_lt
  have h2 := h.accepted.spc.2
  have h3 : (k - 2) * fs.sectorsPerCluster ≤ 65533 * 32 := Nat.mul_le_mul (by omega) h2
  unfold maxSectorsPerCluster at h2
  refine h.area ?_
  unfold clusterToLba
  split <;> omega

/-! ## The pieces of a function -/

theorem Asks.pure {a : α} (h : Q a) : Asks fs (pure a) Q := AsksFrom.pure fun _ hfs => ⟨hfs, h⟩

theorem Asks.bind (h : Asks fs m Q) (hf : ∀ a, Q a → Asks fs (f a) R) : Asks fs (m >>= f) R :=
  AsksFrom.bind h fun a μ hμ => hf a hμ.2 μ hμ.1

theorem Asks.core {f : Core → M α} (hf : ∀ c x, f { c with sectors := x } = f c)
    (h : ∀ c : Core, c.fs = fs → Asks fs (f c) Q) : Asks fs (getCore >>= f) Q := by
  refine AsksFrom.core hf fun c hc => ?_
  rw [hc]
  exact h c hc

theorem Asks.modify {g : Core → Core} (hg : ∀ c x, g { c with sectors := x } = { g c with sectors := x })
    (hfs : ∀ c : Core, (g c).fs = c.fs) : Asks fs (modifyCore g) fun _ => True :=
  AsksFrom.modify hg fun c hc => ⟨(hfs c).trans hc, trivial⟩

theorem Asks.setClusterBuffer (b : Buf) : Asks fs (setClusterBuffer b) fun _ => True := fun μ hμ =>
  ⟨.done (.ok (), { μ with clusterBuffer := b }), .done fun _ _ => ⟨hμ, trivial⟩, fun _ _ => rfl⟩

theorem Asks.getClusterBuffer : Asks fs getClusterBuffer fun _ => True := fun μ hμ =>
  ⟨.done (.ok μ.clusterBuffer, μ), .done fun _ _ => ⟨hμ, trivial⟩, fun _ _ => rfl⟩

/-- A loop asks what its rounds ask. -/
theorem Asks.loop {ι : Type} {body : ι → M (ι ⊕ α)} (h : ∀ i, Asks fs (body i) fun r => ∀ a, r = .inr a → Q a) :
    ∀ (fuel : Nat) (i : ι), Asks fs (Lib.loop body fuel i) Q
  | 0, _ => .throw
  | fuel + 1, i => (h i).bind fun r hr => by
    cases r with
    | inl i' => exact Asks.loop h fuel i'
    | inr a => exact .pure (hr a rfl)

/-! ## Clusters and the FAT -/

theorem asks_readCluster (h : fs.Addressable) (hk : k < 65536) : Asks fs (readCluster k) fun _ => True := by
  refine .core (fun _ _ => rfl) fun c hc => .bind .getClusterBuffer fun b _ => ?_
  rw [hc]
  refine Asks.bind (.diskReadSectors h.accepted.spc.1 (h.cluster hk) fun _ _ hfs => ⟨hfs, trivial⟩) fun r _ => ?_
  exact .bind (.setClusterBuffer _) fun _ _ => .pure trivial

theorem asks_writeCluster (h : fs.Addressable) (hk : k < 65536) (b : Buf) :
    Asks fs (writeCluster k b) fun _ => True := by
  refine .core (fun _ _ => rfl) fun c hc => ?_
  rw [hc]
  exact .diskWriteSectors h.accepted.spc.1 (h.cluster hk) fun _ _ hfs => ⟨hfs, trivial⟩

theorem asks_setFatEntry (k v : Nat) : Asks fs (setFatEntry k v) fun _ => True :=
  .modify (fun _ _ => rfl) fun _ => rfl

/-- What `firstFree` finds is a cluster of the volume. -/
theorem firstFree_lt (h : fs.Addressable) {c : Core} (hc : c.fs = fs) (hk : firstFree c = some k) : k < 65536 := by
  have hmem := List.mem_of_find?_eq_some hk
  obtain ⟨j, hj, rfl⟩ := List.mem_map.1 hmem
  have h1 := h.accepted.clusters.2
  have h2 := List.mem_range.1 hj
  rw [hc] at h2
  omega

theorem asks_allocateCluster (h : fs.Addressable) : Asks fs allocateCluster (· < 65536) := by
  refine .core (fun _ _ => rfl) fun c hc => ?_
  cases hk : firstFree c with
  | none => exact .pure (by decide)
  | some k =>
    have hlt := firstFree_lt h hc hk
    refine .bind (asks_setFatEntry _ _) fun _ _ => .bind .getClusterBuffer fun b _ =>
      .bind (.setClusterBuffer _) fun _ _ => ?_
    refine .bind (asks_writeCluster h hlt _) fun ok _ => ?_
    cases ok with
    | true => exact .pure hlt
    | false => exact .bind (asks_setFatEntry _ _) fun _ _ => .pure (by decide)

theorem asks_freeChain (fuel k : Nat) : Asks fs (freeChain fuel k) fun _ => True := by
  refine .loop (fun k => ?_) fuel k
  unfold freeChainRound
  split
  · exact .core (fun _ _ => rfl) fun c _ => .bind (asks_setFatEntry _ _) fun _ _ => .pure fun _ _ => trivial
  · exact .pure fun _ _ => trivial

theorem asks_freeFrom (fuel k : Nat) : Asks fs (freeFrom fuel k) fun _ => True := by
  unfold freeFrom
  split
  · exact asks_freeChain fuel k
  · exact .pure trivial

/-! ## Flushing -/

theorem asks_writeArea (h : fs.Addressable) {x : Nat} (b : Buf) : ∀ n i : Nat, x + (i + n) ≤ 4194304 →
    Asks fs (writeArea (lbaAdd fs.baseLba x) b i n) fun _ => True
  | 0, _, _ => .pure trivial
  | n + 1, i, hx => by
    have hlba : lbaAdd (lbaAdd fs.baseLba x) i + 1 ≤ 268435456 := by
      rw [lbaAdd_lbaAdd]
      exact h.area (by omega)
    refine Asks.bind (.diskWriteSectors (Nat.le_refl 1) hlba fun _ _ hfs => ⟨hfs, trivial⟩) fun ok _ => ?_
    cases ok with
    | true => exact asks_writeArea h b n (i + 1) (by omega)
    | false => exact .pure trivial

theorem asks_flushRoot (h : fs.Addressable) : Asks fs flushRoot fun _ => True := by
  refine .core (fun _ _ => rfl) fun c hc => ?_
  split
  · exact .pure trivial
  · have hroot : fs.rootDirStartLba + (0 + fs.rootDirSectors) ≤ 4194304 := by
      have := h.accepted.dataStart_lt
      rw [h.accepted.dataStart] at this
      rw [h.accepted.rootStart]
      omega
    rw [hc]
    refine .bind (asks_writeArea h c.rootDir _ _ hroot) fun ok _ => ?_
    cases ok with
    | true => exact .bind (.modify (fun _ _ => rfl) fun _ => rfl) fun _ _ => .pure trivial
    | false => exact .pure trivial

/-- The copies of the FAT lie before the root directory. -/
theorem asks_writeFatCopies (h : fs.Addressable) {c : Core} (hc : c.fs = fs) : ∀ n k : Nat, k + n ≤ fs.numFats →
    Asks fs (writeFatCopies c k n) fun _ => True
  | 0, _, _ => .pure trivial
  | n + 1, k, hk => by
    have hfat : fs.fatStartLba + k * fs.sectorsPerFat + (0 + fs.sectorsPerFat) ≤ 4194304 := by
      have h1 := h.accepted.dataStart_lt
      have h2 : (k + 1) * fs.sectorsPerFat ≤ fs.numFats * fs.sectorsPerFat := Nat.mul_le_mul_right _ (by omega)
      rw [h.accepted.dataStart] at h1
      rw [Nat.succ_mul] at h2
      rw [h.accepted.fatStart]
      omega
    unfold writeFatCopies
    rw [hc]
    refine .bind (asks_writeArea h c.fatPrimary _ _ hfat) fun ok _ => ?_
    cases ok with
    | true => exact asks_writeFatCopies h hc n (k + 1) (by omega)
    | false => exact .pure trivial

theorem writeFatCopies_sectors (c : Core) (x : Nat → Buf) :
    ∀ n k : Nat, writeFatCopies { c with sectors := x } k n = writeFatCopies c k n
  | 0, _ => rfl
  | n + 1, k => by
    unfold writeFatCopies
    rw [writeFatCopies_sectors c x n (k + 1)]

theorem asks_flushFats (h : fs.Addressable) : Asks fs flushFats fun _ => True := by
  refine .core (fun c x => ?_) fun c hc => ?_
  · rw [writeFatCopies_sectors]
  · split
    · exact .pure trivial
    · rw [hc]
      refine .bind (asks_writeFatCopies h hc _ _ (Nat.le_of_eq (Nat.zero_add _))) fun ok _ => ?_
      cases ok with
      | true => exact .bind (.modify (fun _ _ => rfl) fun _ => rfl) fun _ _ => .pure trivial
      | false => exact .pure trivial

theorem asks_flush (h : fs.Addressable) : Asks fs flush fun _ => True := by
  refine .core (fun _ _ => rfl) fun c hc => ?_
  split
  · exact .pure trivial
  · refine .bind (asks_flushRoot h) fun e _ => ?_
    cases e with
    | ok => exact asks_flushFats h
    | _ => exact .pure trivial

theorem asks_committing (h : fs.Addressable) {change : M Code} (hchange : Asks fs change fun _ => True) :
    Asks fs (committing change) fun _ => True := by
  refine .bind hchange fun e _ => ?_
  cases e with
  | ok => exact .bind (asks_flushRoot h) fun _ _ => .bind (asks_flushFats h) fun _ _ => .pure trivial
  | _ => exact .pure trivial

/-! ## Directories -/

theorem inChain_lt (hk : inChain k = true) : k < 65536 := by
  unfold inChain clusterEoc at hk
  simp only [Bool.and_eq_true, decide_eq_true_eq] at hk
  omega

/-- A slot of the root table, or of a cluster with a 16-bit number. -/
def Loc.Numbered (loc : Loc) : Prop := loc.1 < 65536

theorem asks_iterateDirectoryInternal (h : fs.Addressable) {κ : Type} (fuel dirCluster : Nat)
    (cb : κ → DirEntryInfo → Bool × κ) (ctx : κ) :
    Asks fs (iterateDirectoryInternal fuel dirCluster cb ctx) fun _ => True := by
  refine .core (fun _ _ => rfl) fun c hc => ?_
  split
  · exact .pure trivial
  · refine .loop (fun i => ?_) fuel (dirCluster, ctx)
    obtain ⟨k, ctx⟩ := i
    unfold iterateRound
    dsimp only
    split
    · rename_i hk
      refine .bind (asks_readCluster h (inChain_lt hk)) fun r _ => ?_
      obtain ⟨ok, b⟩ := r
      dsimp only
      split
      · refine .core (fun _ _ => rfl) fun c _ => ?_
        split <;> exact .pure fun _ _ => trivial
      · exact .pure fun _ _ => trivial
    · exact .pure fun _ _ => trivial

theorem asks_findEntry (h : fs.Addressable) (fuel dirCluster : Nat) (n : ShortName) :
    Asks fs (findEntry fuel dirCluster n) fun r => ∀ e loc, r = .ok (e, loc) → loc.Numbered := by
  refine .core (fun _ _ => rfl) fun c hc => ?_
  split
  · split
    · exact .pure fun e loc hr => by
        cases hr
        exact show 0 < 65536 by decide
    · exact .pure fun _ _ hr => nomatch hr
  · refine .loop (fun k => ?_) fuel dirCluster
    unfold findRound
    split
    · rename_i hk
      refine .bind (asks_readCluster h (inChain_lt hk)) fun r _ => ?_
      obtain ⟨ok, b⟩ := r
      dsimp only
      split
      · refine .core (fun _ _ => rfl) fun c _ => ?_
        split
        · exact .pure fun r hr e loc he => by
            cases hr
            cases he
            exact inChain_lt hk
        · exact .pure fun r hr e loc he => by
            cases hr
            cases he
        · exact .pure fun _ hr => nomatch hr
      · exact .pure fun r hr e loc he => by
          cases hr
          cases he
    · exact .pure fun r hr e loc he => by
        cases hr
        cases he

theorem asks_writeEntry (h : fs.Addressable) {loc : Loc} (hloc : loc.Numbered) (e : RawDirEntry) :
    Asks fs (writeEntry loc e) fun _ => True := by
  refine .core (fun _ _ => rfl) fun c hc => ?_
  split
  · split
    · exact .pure trivial
    · exact .bind (.modify (fun _ _ => rfl) fun _ => rfl) fun _ _ => .pure trivial
  · refine .bind (asks_readCluster h hloc) fun r _ => ?_
    obtain ⟨ok, b⟩ := r
    dsimp only
    split
    · exact .pure trivial
    · split
      · exact .pure trivial
      · refine .bind (.setClusterBuffer _) fun _ _ => .bind (asks_writeCluster h hloc _) fun ok _ => ?_
        split <;> exact .pure trivial

theorem asks_linkCluster (previous newCluster : Nat) : Asks fs (linkCluster previous newCluster) fun _ => True := by
  unfold linkCluster
  split
  · exact .bind (asks_setFatEntry _ _) fun _ _ => asks_setFatEntry _ _
  · exact .pure trivial

theorem asks_findFreeEntry (h : fs.Addressable) (fuel dirCluster : Nat) :
    Asks fs (findFreeEntry fuel dirCluster) fun r => ∀ loc, r = .ok loc → loc.Numbered := by
  refine .core (fun _ _ => rfl) fun c hc => ?_
  split
  · split
    · exact .pure fun loc hr => by
        cases hr
        exact show 0 < 65536 by decide
    · exact .pure fun _ hr => nomatch hr
  · have hround : ∀ i, Asks fs (freeRound i) fun r => ∀ a, r = .inr a → ∀ x, a = .inl x → ∀ loc, x = .ok loc →
        loc.Numbered := by
      rintro ⟨k, previous⟩
      unfold freeRound
      dsimp only
      split
      · rename_i hk
        refine .bind (asks_readCluster h (inChain_lt hk)) fun r _ => ?_
        obtain ⟨ok, b⟩ := r
        dsimp only
        split
        · refine .core (fun _ _ => rfl) fun c _ => ?_
          split
          · exact .pure fun a ha x hx loc hloc => by
              cases ha
              cases hx
              cases hloc
              exact inChain_lt hk
          · exact .pure fun _ ha => nomatch ha
        · exact .pure fun a ha x hx loc hloc => by
            cases ha
            cases hx
            cases hloc
      · exact .pure fun a ha x hx => by
          cases ha
          cases hx
    refine .bind (.loop hround fuel (dirCluster, 0)) fun r hr => ?_
    cases r with
    | inl x => exact .pure fun loc hloc => hr x rfl loc hloc
    | inr previous =>
      refine .bind (asks_allocateCluster h) fun k hk => ?_
      split
      · exact .pure fun _ hr => nomatch hr
      · refine .bind (asks_linkCluster _ _) fun _ _ => .pure fun loc hloc => ?_
        cases hloc
        exact hk

theorem asks_writeDirectoryEntry (h : fs.Addressable) (fuel dirCluster : Nat) (n : ShortName) (e : RawDirEntry) :
    Asks fs (writeDirectoryEntry fuel dirCluster n e) fun _ => True := by
  refine .bind (asks_findEntry h fuel dirCluster n) fun r hr => ?_
  split
  · exact asks_writeEntry h (hr _ _ rfl) e
  · refine .bind (asks_findFreeEntry h fuel dirCluster) fun r' hr' => ?_
    split
    · exact asks_writeEntry h (hr' _ rfl) e
    · exact .pure trivial
  · exact .pure trivial

theorem asks_markEntryDeleted (h : fs.Addressable) (fuel dirCluster : Nat) (n : ShortName) :
    Asks fs (markEntryDeleted fuel dirCluster n) fun _ => True := by
  refine .bind (asks_findEntry h fuel dirCluster n) fun r hr => ?_
  split
  · exact asks_writeEntry h (hr _ _ rfl) _
  · exact .pure trivial

/-! ## Paths -/

theorem asks_locateLoop (h : fs.Addressable) (fuel : Nat) : ∀ (cs : List (List UInt8)) (k : Nat) (stack : List Nat),
    Asks fs (locateLoop fuel k stack cs) fun _ => True
  | [], _, _ => .pure trivial
  | component :: rest, k, stack => by
    unfold locateLoop
    split
    · exact asks_locateLoop h fuel rest k stack
    · split
      · exact asks_locateLoop h fuel rest _ _
      · split
        · exact .pure trivial
        · refine .bind (asks_findEntry h fuel k _) fun r _ => ?_
          split
          · exact .pure trivial
          · split
            · exact .pure trivial
            · exact asks_locateLoop h fuel rest _ _

theorem asks_locateDirectory (h : fs.Addressable) (fuel : Nat) (path : List UInt8) :
    Asks fs (locateDirectory fuel path) fun _ => True := by
  refine .core (fun _ _ => rfl) fun c hc => ?_
  split
  · exact .pure trivial
  · split <;> exact asks_locateLoop h fuel _ _ _

theorem asks_changeLoop (h : fs.Addressable) (fuel : Nat) :
    ∀ (cs : List (List UInt8)) (k : Nat) (stack : PathStack), Asks fs (changeLoop fuel k stack cs) fun _ => True
  | [], _, _ => .pure trivial
  | component :: rest, k, stack => by
    unfold changeLoop
    split
    · exact asks_changeLoop h fuel rest k stack
    · split
      · exact asks_changeLoop h fuel rest _ _
      · split
        · exact .pure trivial
        · refine .bind (asks_findEntry h fuel k _) fun r _ => ?_
          split
          · exact .pure trivial
          · split
            · exact .pure trivial
            · exact asks_changeLoop h fuel rest _ _

theorem asks_changeDirectory (h : fs.Addressable) (fuel : Nat) (path : List UInt8) :
    Asks fs (changeDirectory fuel path) fun _ => True := by
  refine .core (fun _ _ => rfl) fun c hc => ?_
  split
  · exact .pure trivial
  · split
    · exact .pure trivial
    · refine .bind (asks_changeLoop h fuel _ _ _) fun r _ => ?_
      split
      · exact .pure trivial
      · exact .bind (.modify (fun _ _ => rfl) fun _ => rfl) fun _ _ => .pure trivial

theorem asks_resolveLoop (h : fs.Addressable) (fuel : Nat) :
    ∀ (cs : List (List UInt8)) (k : Nat) (stack : List Nat), Asks fs (resolveLoop fuel k stack cs) fun _ => True
  | [], _, _ => .pure trivial
  | [last], k, stack => by
    unfold resolveLoop
    split
    · exact .pure trivial
    · split <;> exact .pure trivial
  | component :: next :: rest, k, stack => by
    unfold resolveLoop
    split
    · exact asks_resolveLoop h fuel (next :: rest) k stack
    · split
      · exact asks_resolveLoop h fuel (next :: rest) _ _
      · split
        · exact .pure trivial
        · refine .bind (asks_findEntry h fuel k _) fun r _ => ?_
          split
          · exact .pure trivial
          · split
            · exact .pure trivial
            · exact asks_resolveLoop h fuel (next :: rest) _ _

theorem asks_resolveParentAndName (h : fs.Addressable) (fuel : Nat) (path : List UInt8) :
    Asks fs (resolveParentAndName fuel path) fun _ => True := by
  refine .core (fun _ _ => rfl) fun c hc => ?_
  split
  · exact .pure trivial
  · split <;> exact asks_resolveLoop h fuel _ _ _

/-! ## The operations -/

theorem asks_iterateCurrentDirectory (h : fs.Addressable) {κ : Type} (fuel : Nat) (cb : κ → DirEntryInfo → Bool × κ)
    (ctx : κ) : Asks fs (iterateCurrentDirectory fuel cb ctx) fun _ => True := by
  refine .core (fun _ _ => rfl) fun c hc => ?_
  split
  · exact .pure trivial
  · exact asks_iterateDirectoryInternal h fuel _ cb ctx

theorem asks_iteratePath (h : fs.Addressable) {κ : Type} (fuel : Nat) (path : List UInt8)
    (cb : κ → DirEntryInfo → Bool × κ) (ctx : κ) : Asks fs (iteratePath fuel path cb ctx) fun _ => True := by
  refine .core (fun _ _ => rfl) fun c hc => ?_
  split
  · exact .pure trivial
  · split
    · exact asks_iterateCurrentDirectory h fuel cb ctx
    · refine .bind (asks_locateDirectory h fuel path) fun r _ => ?_
      split
      · exact .pure trivial
      · exact asks_iterateDirectoryInternal h fuel _ cb ctx

/-- The copy loop of `fat12_read_file`. -/
theorem asks_copy (h : fs.Addressable) (size fuel : Nat) (i : Nat × Nat × Buf) :
    Asks fs (loop (readRound size) fuel i) fun _ => True := by
  refine .loop (fun i => ?_) fuel i
  obtain ⟨k, cursor, b⟩ := i
  unfold readRound
  dsimp only
  split
  · rename_i hk
    refine .bind (asks_readCluster h (inChain_lt hk.2)) fun r _ => ?_
    obtain ⟨ok, data⟩ := r
    dsimp only
    split
    · exact .core (fun _ _ => rfl) fun c _ => .pure fun _ _ => trivial
    · exact .pure fun _ _ => trivial
  · exact .pure fun _ _ => trivial

theorem asks_readFile (h : fs.Addressable) (fuel : Nat) (path : List UInt8) (buffer : Option Buf) (maxSize : Nat) :
    Asks fs (readFile fuel path buffer maxSize) fun _ => True := by
  refine .core (fun _ _ => rfl) fun c hc => ?_
  split
  · exact .pure trivial
  · split
    · exact .pure trivial
    · refine .bind (asks_resolveParentAndName h fuel path) fun r _ => ?_
      split
      · exact .pure trivial
      · refine .bind (asks_findEntry h fuel _ _) fun r _ => ?_
        split
        · exact .pure trivial
        · split
          · exact .pure trivial
          · split
            · exact .pure trivial
            · exact .bind (asks_copy h _ fuel _) fun r _ => .pure trivial

theorem asks_writeLoop (h : fs.Addressable) (fuel : Nat) (data : Buf) (size : Nat) :
    Asks fs (writeLoop fuel data size) fun _ => True := by
  refine .loop (fun i => ?_) fuel (0, 0, 0)
  obtain ⟨firstCluster, prevCluster, bytesWritten⟩ := i
  unfold writeRound
  dsimp only
  split
  · refine .bind (asks_allocateCluster h) fun k hk => ?_
    split
    · exact .bind (asks_freeFrom fuel _) fun _ _ => .pure fun _ _ => trivial
    · have hlink : Asks fs (linkPrevious prevCluster k) fun _ => True := by
        unfold linkPrevious
        split
        · exact asks_setFatEntry _ _
        · exact .pure trivial
      refine .bind hlink fun _ _ => .bind (asks_setFatEntry _ _) fun _ _ => .core (fun _ _ => rfl) fun c _ => ?_
      refine .bind .getClusterBuffer fun b _ => .bind (.setClusterBuffer _) fun _ _ =>
        .bind (asks_writeCluster h hk _) fun ok _ => ?_
      split
      · exact .pure fun _ _ => trivial
      · exact .bind (asks_freeChain fuel _) fun _ _ => .pure fun _ _ => trivial
  · exact .pure fun _ _ => trivial

theorem asks_commitFile (h : fs.Addressable) (fuel dirCluster : Nat) (n : ShortName) (oldCluster : Option Nat)
    (firstCluster size : Nat) :
    Asks fs (commitFile fuel dirCluster n oldCluster firstCluster size) fun _ => True := by
  refine .bind (asks_writeDirectoryEntry h fuel _ _ _) fun e _ => ?_
  split
  · split
    · exact .pure trivial
    · split
      · exact .bind (asks_freeChain fuel _) fun _ _ => .pure trivial
      · exact .pure trivial
  · exact .bind (asks_freeFrom fuel _) fun _ _ => .pure trivial

theorem asks_storeFile (h : fs.Addressable) (fuel : Nat) (data : Buf) (size dirCluster : Nat) (n : ShortName)
    (old : Option Nat) : Asks fs (do match ← writeLoop fuel data size with
      | .error e => pure e
      | .ok firstCluster => commitFile fuel dirCluster n old firstCluster size) fun _ => True := by
  refine .bind (asks_writeLoop h fuel _ _) fun r _ => ?_
  split
  · exact .pure trivial
  · exact asks_commitFile h fuel _ _ _ _ _

theorem asks_writeFileBody (h : fs.Addressable) (fuel : Nat) (name : List UInt8) (data : Option Buf) (size : Nat) :
    Asks fs (writeFileBody fuel name data size) fun _ => True := by
  refine .core (fun _ _ => rfl) fun c hc => ?_
  split
  · exact .pure trivial
  · split
    · exact .pure trivial
    · refine .bind (asks_resolveParentAndName h fuel name) fun r _ => ?_
      split
      · exact .pure trivial
      · refine .bind (asks_findEntry h fuel _ _) fun r _ => ?_
        split
        · split
          · exact .pure trivial
          · exact asks_storeFile h fuel _ _ _ _ _
        · exact asks_storeFile h fuel _ _ _ _ _
        · exact .pure trivial

theorem asks_createDirectoryBody (h : fs.Addressable) (fuel : Nat) (name : List UInt8) :
    Asks fs (createDirectoryBody fuel name) fun _ => True := by
  refine .core (fun _ _ => rfl) fun c hc => ?_
  split
  · exact .pure trivial
  · refine .bind (asks_resolveParentAndName h fuel name) fun r _ => ?_
    split
    · exact .pure trivial
    · refine .bind (asks_findEntry h fuel _ _) fun r _ => ?_
      split
      · exact .pure trivial
      · refine .bind (asks_allocateCluster h) fun k hk => ?_
        split
        · exact .pure trivial
        · refine .bind .getClusterBuffer fun b _ => .bind (.setClusterBuffer _) fun _ _ =>
            .bind (asks_writeCluster h hk _) fun ok _ => ?_
          split
          · refine .bind (asks_writeDirectoryEntry h fuel _ _ _) fun e _ => ?_
            split
            · exact .pure trivial
            · exact .bind (asks_freeChain fuel _) fun _ _ => .pure trivial
          · exact .bind (asks_freeChain fuel _) fun _ _ => .pure trivial

theorem asks_deleteFileBody (h : fs.Addressable) (fuel : Nat) (name : List UInt8) :
    Asks fs (deleteFileBody fuel name) fun _ => True := by
  refine .core (fun _ _ => rfl) fun c hc => ?_
  split
  · exact .pure trivial
  · refine .bind (asks_resolveParentAndName h fuel name) fun r _ => ?_
    split
    · exact .pure trivial
    · refine .bind (asks_findEntry h fuel _ _) fun r _ => ?_
      split
      · exact .pure trivial
      · split
        · exact .pure trivial
        · exact .bind (asks_freeFrom fuel _) fun _ _ => asks_markEntryDeleted h fuel _ _

/-- Every operation is a program of disk calls for sectors there are. -/
theorem Call.asks (h : fs.Addressable) (fuel : Nat) : ∀ x : Call, Asks fs (x.exec fuel) fun _ => True
  | .iterateCurrentDirectory cb ctx => asks_iterateCurrentDirectory h fuel cb ctx
  | .iteratePath path cb ctx => asks_iteratePath h fuel path cb ctx
  | .changeDirectory path => asks_changeDirectory h fuel path
  | .getCwd => Asks.core (fun _ _ => rfl) fun _ _ => .pure trivial
  | .readFile path buffer maxSize => asks_readFile h fuel path buffer maxSize
  | .change (.writeFile name data size) => asks_committing h (asks_writeFileBody h fuel name data size)
  | .change (.createDirectory name) => asks_committing h (asks_createDirectoryBody h fuel name)
  | .change (.deleteFile name) => asks_committing h (asks_deleteFileBody h fuel name)
  | .flush => asks_flush h

/-! ## The mount -/

theorem asks_readArea (h : fs.Addressable) {x : Nat} : ∀ (n i : Nat) (b : Buf), x + (i + n) ≤ 4194304 →
    Asks fs (readArea (lbaAdd fs.baseLba x) b i n) fun _ => True
  | 0, _, _, _ => .pure trivial
  | n + 1, i, b, hx => by
    have hlba : lbaAdd (lbaAdd fs.baseLba x) i + 1 ≤ 268435456 := by
      rw [lbaAdd_lbaAdd]
      exact h.area (by omega)
    refine Asks.bind (.diskReadSectors (Nat.le_refl 1) hlba fun _ _ hfs => ⟨hfs, trivial⟩) fun r _ => ?_
    obtain ⟨ok, b'⟩ := r
    dsimp only
    split
    · exact asks_readArea h n (i + 1) b' (by omega)
    · exact .pure trivial

theorem Asks.setFatSecondary (b : Buf) : Asks fs (setFatSecondary b) fun _ => True := fun μ hμ =>
  ⟨.done (.ok (), { μ with fatSecondary := b }), .done fun _ _ => ⟨hμ, trivial⟩, fun _ _ => rfl⟩

/-- Of the whole state only the buffer of the second FAT is looked at. -/
theorem Asks.get {f : Buf → M α} (h : ∀ b, Asks fs (f b) Q) :
    Asks fs (MonadState.get >>= fun s : State => f s.fatSecondary) Q := fun μ hμ =>
  h μ.fatSecondary μ hμ

theorem asks_loadRoot (h : fs.Addressable) (b : Buf) : Asks fs (do
    let (ok, root) ← readArea (lbaAdd fs.baseLba fs.rootDirStartLba) b 0 fs.rootDirSectors
    modifyCore fun c => { c with rootDir := root }
    pure ok) fun _ => True := by
  have hdata := h.accepted.dataStart_lt
  rw [h.accepted.dataStart] at hdata
  refine .bind (asks_readArea h _ 0 b (by rw [h.accepted.rootStart]; omega)) fun r _ => ?_
  obtain ⟨ok, root⟩ := r
  exact .bind (.modify (fun _ _ => rfl) fun _ => rfl) fun _ _ => .pure trivial

theorem asks_loadCaches (h : fs.Addressable) : Asks fs loadCaches fun _ => True := by
  have hdata := h.accepted.dataStart_lt
  rw [h.accepted.dataStart] at hdata
  have hspf := h.accepted.spf.2
  have hreserved := h.accepted.reserved_lt
  unfold maxFatSectors at hspf
  refine .core (fun _ _ => rfl) fun c hc => ?_
  rw [hc]
  refine .bind (asks_readArea h _ 0 _ (by rw [h.accepted.fatStart]; omega)) fun r _ => ?_
  obtain ⟨ok, fat⟩ := r
  refine .bind (.modify (fun _ _ => rfl) fun _ => rfl) fun _ _ => ?_
  split
  · exact .pure trivial
  · split
    · refine .get fun b => .bind (asks_readArea h _ 0 b (by rw [h.accepted.fatStart]; omega)) fun r _ => ?_
      obtain ⟨ok, fat⟩ := r
      refine .bind (.setFatSecondary _) fun _ _ => ?_
      rw [pure_bind]
      dsimp only
      split
      · exact .pure trivial
      · exact asks_loadRoot h _
    · exact asks_loadRoot h _

end

/-- The mount of a disk that begins low enough is one, too, and leaves a layout whose sectors can be named. -/
theorem asks_init {baseLba : Nat} (hbase : baseLba + 4194304 ≤ 268435456) :
    AsksFrom (fun _ => True) (init baseLba) fun e fs => e = .ok → fs.Addressable := by
  have hread : AsksFrom (fun _ => True) (diskReadSector baseLba (fun _ => 0) 0) fun _ _ => True :=
    .diskReadSectors (Nat.le_refl 1) (by omega) fun _ _ _ => trivial
  refine hread.bind fun r => ?_
  obtain ⟨ok, sector⟩ := r
  dsimp only
  split
  · exact .pure fun _ _ h => nomatch h
  split
  · exact .pure fun _ _ h => nomatch h
  rename_i hsize
  have hfields : AsksFrom (fun _ => True) (modifyCore fun c => { c with fs := c.fs.ofBpb sector baseLba })
      fun _ fs => ∃ fs₀ : Fs, fs = fs₀.ofBpb sector baseLba := .modify (fun _ _ => rfl) fun c _ => ⟨c.fs, rfl⟩
  refine hfields.bind fun _ => .core (fun _ _ => rfl) fun c₁ h₁ => ?_
  obtain ⟨fs₀, h₁⟩ := h₁
  split
  · exact .pure fun _ _ h => nomatch h
  rename_i hspc
  split
  · exact .pure fun _ _ h => nomatch h
  rename_i hspf
  have hsized : AsksFrom (· = c₁.fs) (modifyCore fun c => { c with fs := c.fs.sized }) fun _ fs =>
      fs = c₁.fs.sized :=
    .modify (fun _ _ => rfl) fun c hc => congrArg Fs.sized hc
  refine hsized.bind fun _ => .core (fun _ _ => rfl) fun c₂ h₂ => ?_
  split
  · exact .pure fun _ _ h => nomatch h
  rename_i hroot
  have hlaid : AsksFrom (· = c₂.fs) (modifyCore fun c => { c with fs := c.fs.laidOut }) fun _ fs =>
      fs = c₂.fs.laidOut :=
    .modify (fun _ _ => rfl) fun c hc => congrArg Fs.laidOut hc
  refine hlaid.bind fun _ => .core (fun _ _ => rfl) fun c₃ h₃ => ?_
  split
  · exact .pure fun _ _ h => nomatch h
  rename_i hclusters
  -- all checks are passed
  have hfs : c₃.fs = Fs.ofBoot sector baseLba := by rw [h₃, h₂, h₁, Fs.laidOut_ofBpb]
  have hm : Mountable sector baseLba := by
    rw [h₁] at hspc hspf
    rw [h₂, h₁] at hroot
    rw [hfs] at hclusters
    exact ⟨not_not.1 hsize, hspc, hspf, hroot, hclusters⟩
  have haddr : c₃.fs.Addressable := by
    rw [hfs]
    exact ⟨hm.accepted, hbase⟩
  refine AsksFrom.bind (asks_loadCaches haddr) fun ok => ?_
  split
  · have hend : AsksFrom (fun fs => fs = c₃.fs ∧ True) (modifyCore fun c =>
        { c with
          currentDirCluster := 0
          pathStack := .empty
          cwd := [slash]
          fsReady := true
          fatDirty := false
          rootDirty := false })
        fun _ fs => fs = c₃.fs := .modify (fun _ _ => rfl) fun c hc => hc.1
    exact hend.bind fun _ => .pure fun fs hfs _ => hfs ▸ haddr
  · exact .pure fun _ _ h => nomatch h

end AltoniumOS.Fat12

/-
Calls that notice a disk that fails. `Heeds P m`: `m` uses up some outcomes, what it returns is in `P` only if
none of them was a failure, and `m` does then what it does on every disk on which as many calls succeed. So a
result in `P` says that the call went as it would have on a disk that works.
-/
import AltoniumOS.Refine.Faults
import AltoniumOS.Fat12.File

namespace AltoniumOS.Fat12

open AltoniumOS.Lib

/-- The state with other outcomes ahead. -/
def State.withFaults (s : State) (f : Nat → Option Nat) : State := { s with faults := f }

/-- The state with a disk that works. -/
def State.repaired (s : State) : State := s.withFaults fun _ => none

@[simp] theorem withFaults_toCore (s : State) (f : Nat → Option Nat) : (s.withFaults f).toCore = s.toCore := rfl

@[simp] theorem withFaults_repaired (s : State) (f : Nat → Option Nat) : (s.withFaults f).repaired = s.repaired :=
  rfl

@[simp] theorem repaired_toCore (s : State) : s.repaired.toCore = s.toCore := rfl

theorem repaired_reliable (s : State) : Reliable s.repaired := fun _ => rfl

/-- `m` makes some disk calls, and returns a value in `P` only if they all succeeded, whatever is to come behind
them. -/
def Heeds {α : Type} (P : α → Prop) (m : M α) : Prop :=
  ∀ s a s', m s = .ok a s' → ∃ n, s'.faults = later s.faults n ∧ (P a → (∀ k < n, s.faults k = none) ∧
    ∀ g, (∀ k < n, g k = none) → m (s.withFaults g) = .ok a (s'.withFaults (later g n)))

/-- `m` makes some disk calls and never returns a value in `P`. -/
structure Fails {α : Type} (P : α → Prop) (m : M α) : Prop where
  heeds : Heeds P m
  returns : Returns (fun a => ¬ P a) m

namespace Heeds

variable {α β ι : Type} {R : α → Prop} {P Q : β → Prop} {s s' : State} {b : β}

/-- A call that heeds its failures and returned so did what it does on a disk that works. -/
theorem repaired {m : M β} (h : Heeds P m) (hm : m s = .ok b s') (hb : P b) : m s.repaired = .ok b s'.repaired := by
  obtain ⟨n, -, hg⟩ := h s b s' hm
  exact (hg hb).2 _ fun _ _ => rfl

theorem clean {m : M β} (h : Heeds P m) (hm : m s = .ok b s') (hs : Clean s.faults) : Clean s'.faults := by
  obtain ⟨n, hn, -⟩ := h s b s' hm
  rw [hn]
  exact hs.later n

theorem mono {m : M β} (h : Heeds P m) (hq : ∀ b, Q b → P b) : Heeds Q m := by
  intro s b s' hm
  obtain ⟨n, hn, hg⟩ := h s b s' hm
  exact ⟨n, hn, fun hb => hg (hq b hb)⟩

/-- A program that makes no disk call. -/
theorem of_silent {m : M β}
    (h : ∀ s g, ∃ b s', m s = .ok b s' ∧ s'.faults = s.faults ∧ m (s.withFaults g) = .ok b (s'.withFaults g)) :
    Heeds P m := by
  intro s a s' hm
  obtain ⟨b, s₁, h1, h2, -⟩ := h s s.faults
  cases hm.symm.trans h1
  refine ⟨0, h2, fun _ => ⟨fun k hk => absurd hk (Nat.not_lt_zero k), fun g _ => ?_⟩⟩
  obtain ⟨b', s₂, h3, -, h4⟩ := h s g
  cases h1.symm.trans h3
  exact h4

theorem pure (b : β) : Heeds P (Pure.pure b) := of_silent fun s _ => ⟨b, s, rfl, rfl, rfl⟩

/-- Every answer of the first part was heeded, or what follows it never answers in `P`. -/
theorem bind {x : M α} {f : α → M β} (hx : Heeds R x) (hf : ∀ a, R a ∧ Heeds P (f a) ∨ Fails P (f a)) :
    Heeds P (x >>= f) := by
  intro s b s' hm
  obtain ⟨a, s₁, h1, h2⟩ := bind_eq_ok hm
  obtain ⟨n₁, hn₁, hg₁⟩ := hx s a s₁ h1
  rcases hf a with ⟨ha, hf⟩ | hf
  · obtain ⟨n₂, hn₂, hg₂⟩ := hf s₁ b s' h2
    refine ⟨n₁ + n₂, by rw [hn₂, hn₁, later_later, Nat.add_comm], fun hb => ⟨?_, fun g hg => ?_⟩⟩
    · have h3 := (hg₂ hb).1
      rw [hn₁] at h3
      exact succeeds_append (hg₁ ha).1 h3
    · have h4 := (hg₂ hb).2 (later g n₁) fun k hk => hg (k + n₁) (by omega)
      rw [later_later, Nat.add_comm] at h4
      exact (bind_ok ((hg₁ ha).2 g fun k hk => hg k (by omega))).trans h4
  · obtain ⟨n₂, hn₂, -⟩ := hf.heeds s₁ b s' h2
    exact ⟨n₁ + n₂, by rw [hn₂, hn₁, later_later, Nat.add_comm], fun hb => absurd hb (hf.returns.ok trivial h2).2⟩

/-- A part that makes no disk call. -/
theorem step {x : M α} {f : α → M β} (hx : Heeds (fun _ => True) x) (hf : ∀ a, Heeds P (f a)) : Heeds P (x >>= f) :=
  hx.bind fun a => .inl ⟨trivial, hf a⟩

theorem core {f : Core → M β} (hf : ∀ c, Heeds P (f c)) : Heeds P (getCore >>= f) :=
  step (of_silent fun s _ => ⟨s.toCore, s, rfl, rfl, rfl⟩) hf

theorem clusterBuffer {f : Buf → M β} (hf : ∀ b, Heeds P (f b)) : Heeds P (getClusterBuffer >>= f) :=
  step (of_silent fun s _ => ⟨s.clusterBuffer, s, rfl, rfl, rfl⟩) hf

theorem fatSecondary {f : Buf → M β} (hf : ∀ b, Heeds P (f b)) :
    Heeds P (get >>= fun s : State => f s.fatSecondary) :=
  fun s b s' hm => hf s.fatSecondary s b s' hm

end Heeds

namespace Fails

variable {α β : Type} {P : β → Prop}

theorem pure {b : β} (h : ¬ P b) : Fails P (Pure.pure b) := ⟨.pure b, .pure h⟩

theorem step {x : M α} {f : α → M β} (hx : Heeds (fun _ => True) x) (hf : ∀ a, Fails P (f a)) : Fails P (x >>= f) :=
  ⟨hx.step fun a => (hf a).heeds, .bind fun a => (hf a).returns⟩

end Fails

/-- Rounds that answer in `P`, or go on, only if their calls succeeded. -/
theorem Heeds.loop {ι β : Type} {P : β → Prop} {body : ι → M (ι ⊕ β)}
    (h : ∀ i, Heeds (fun r => ∀ b, r = .inr b → P b) (body i)) :
    ∀ (fuel : Nat) (i : ι), Heeds P (Lib.loop body fuel i)
  | 0, _ => fun _ _ _ hm => by cases hm
  | fuel + 1, i => by
    rw [Lib.loop]
    refine (h i).bind fun r => ?_
    cases r with
    | inl i' => exact .inl ⟨fun _ he => (by cases he), Heeds.loop h fuel i'⟩
    | inr b =>
      by_cases hb : P b
      · exact .inl ⟨fun _ he => by cases he; exact hb, .pure b⟩
      · exact .inr (.pure hb)

/-- `m` makes some disk calls, and that is all that is said of them. -/
abbrev Calls {α : Type} (m : M α) : Prop := Heeds (fun _ => False) m

theorem Heeds.calls {β : Type} {P : β → Prop} {m : M β} (h : Heeds P m) : Calls m := h.mono fun _ hb => hb.elim

theorem Calls.bind {α β : Type} {R : α → Prop} {x : M α} {f : α → M β} (hx : Heeds R x)
    (hf : ∀ a, Calls (f a)) : Calls (x >>= f) :=
  hx.bind fun a => .inr ⟨hf a, fun _ _ => ⟨trivial, fun _ _ _ h => h⟩⟩

/-! ## The disk calls and the FAT -/

theorem heeds_modifyCore {P : Unit → Prop} (f : Core → Core) : Heeds P (modifyCore f) :=
  .of_silent fun _ _ => ⟨(), _, rfl, rfl, rfl⟩

theorem heeds_setFatEntry {P : Unit → Prop} (cluster value : Nat) : Heeds P (setFatEntry cluster value) :=
  heeds_modifyCore _

theorem heeds_setClusterBuffer {P : Unit → Prop} (b : Buf) : Heeds P (setClusterBuffer b) :=
  .of_silent fun _ _ => ⟨(), _, rfl, rfl, rfl⟩

theorem heeds_setFatSecondary {P : Unit → Prop} (b : Buf) : Heeds P (setFatSecondary b) :=
  .of_silent fun _ _ => ⟨(), _, rfl, rfl, rfl⟩

theorem heeds_diskReadSectors (lba : Nat) (buffer : Buf) (off n : Nat) :
    Heeds (·.1 = true) (diskReadSectors lba buffer off n) := by
  unfold diskReadSectors
  split
  · exact .pure _
  · intro s a s' hm
    obtain ⟨rfl, rfl⟩ := EStateM.Result.ok.inj hm
    refine ⟨1, rfl, fun ha => ?_⟩
    have h0 : s.faults 0 = none := Option.isNone_iff_eq_none.1 ha
    refine ⟨fun k hk => by rw [Nat.lt_one_iff.1 hk]; exact h0, fun g hg => ?_⟩
    show EStateM.Result.ok
      ((g 0).isNone, buffer.blit off (sectorBytes s.sectors lba) (sectorSize * transferred (g 0) n)) _ = _
    rw [hg 0 Nat.one_pos, h0]
    rfl

theorem heeds_diskWriteSectors (lba : Nat) (buffer : Buf) (n : Nat) :
    Heeds (· = true) (diskWriteSectors lba buffer n) := by
  unfold diskWriteSectors
  split
  · exact .pure _
  · intro s a s' hm
    obtain ⟨rfl, rfl⟩ := EStateM.Result.ok.inj hm
    refine ⟨1, rfl, fun ha => ?_⟩
    have h0 : s.faults 0 = none := Option.isNone_iff_eq_none.1 ha
    refine ⟨fun k hk => by rw [Nat.lt_one_iff.1 hk]; exact h0, fun g hg => ?_⟩
    show EStateM.Result.ok (g 0).isNone { s with
      toCore := { s.toCore with sectors := putSectors s.sectors lba buffer (transferred (g 0) n) }
      faults := fun k => g (k + 1)
      writes := s.writes ++ [(lba, sectorsOf buffer n)] } = _
    rw [hg 0 Nat.one_pos, h0]
    rfl

theorem heeds_readCluster (cluster : Nat) : Heeds (·.1 = true) (readCluster cluster) := by
  unfold readCluster
  refine .core fun c => .clusterBuffer fun b => (heeds_diskReadSectors _ b 0 _).bind fun (ok, buffer) => ?_
  cases ok with
  | true => exact .inl ⟨rfl, .step (heeds_setClusterBuffer buffer) fun _ => .pure _⟩
  | false => exact .inr (.step (heeds_setClusterBuffer buffer) fun _ => .pure fun h => by cases h)

theorem heeds_writeCluster (cluster : Nat) (buffer : Buf) : Heeds (· = true) (writeCluster cluster buffer) :=
  .core fun _ => heeds_diskWriteSectors _ _ _

/-- A part that reads a cluster and goes on where it was read. -/
theorem Heeds.read {β : Type} {P : β → Prop} {cluster : Nat} {f : Bool × Buf → M β}
    (hok : ∀ b, Heeds P (f (true, b))) (hfail : ∀ b, Fails P (f (false, b))) :
    Heeds P (readCluster cluster >>= f) := by
  refine (heeds_readCluster cluster).bind fun (ok, b) => ?_
  cases ok with
  | true => exact .inl ⟨rfl, hok b⟩
  | false => exact .inr (hfail b)

theorem Heeds.write {β : Type} {P : β → Prop} {cluster : Nat} {buffer : Buf} {f : Bool → M β}
    (hok : Heeds P (f true)) (hfail : Fails P (f false)) : Heeds P (writeCluster cluster buffer >>= f) := by
  refine (heeds_writeCluster cluster buffer).bind fun ok => ?_
  cases ok with
  | true => exact .inl ⟨rfl, hok⟩
  | false => exact .inr hfail

theorem heeds_allocateCluster : Heeds (· ≠ 0) allocateCluster := by
  unfold allocateCluster
  refine .core fun c => ?_
  split
  · exact .pure 0
  · refine .step (heeds_setFatEntry _ _) fun _ => .clusterBuffer fun b => .step (heeds_setClusterBuffer _) fun _ =>
      .write (.pure _) ?_
    exact .step (heeds_setFatEntry _ _) fun _ => .pure fun h => h rfl

theorem heeds_freeChain {P : Unit → Prop} (fuel k : Nat) : Heeds P (freeChain fuel k) := by
  refine .loop (fun k => ?_) fuel k
  unfold freeChainRound
  split
  · exact .core fun c => .step (heeds_setFatEntry _ _) fun _ => .pure _
  · exact .pure _

theorem heeds_freeFrom {P : Unit → Prop} (fuel k : Nat) : Heeds P (freeFrom fuel k) := by
  unfold freeFrom
  split
  · exact heeds_freeChain fuel k
  · exact .pure _

theorem heeds_linkPrevious {P : Unit → Prop} (prev k : Nat) : Heeds P (linkPrevious prev k) := by
  unfold linkPrevious
  split
  · exact heeds_setFatEntry prev k
  · exact .pure _

theorem heeds_linkCluster {P : Unit → Prop} (prev k : Nat) : Heeds P (linkCluster prev k) := by
  unfold linkCluster
  split
  · exact .step (heeds_setFatEntry prev k) fun _ => heeds_setFatEntry k clusterEoc
  · exact .pure _

/-! ## Searches and walks -/

/-- An answer other than the error of a disk that fails. -/
def Answered {α : Type} (r : Except Code α) : Prop := r ≠ .error .errIo

theorem heeds_findEntry (fuel d : Nat) (n : ShortName) : Heeds Answered (findEntry fuel d n) := by
  unfold findEntry
  refine .core fun c => ?_
  split
  · split
    · exact .pure _
    · exact .pure _
  · refine .loop (fun k => ?_) fuel d
    unfold findRound
    split
    · refine .read (fun b => .core fun c => ?_) fun b => .pure fun h => h _ rfl rfl
      split <;> exact .pure _
    · exact .pure _

/-- What follows a search is done where the search was answered; its error is passed on. -/
theorem Heeds.answered {α β : Type} {P : Except Code β → Prop} {x : M (Except Code α)}
    {f : Except Code α → M (Except Code β)} (hx : Heeds Answered x) (hio : ¬ P (.error .errIo))
    (hok : ∀ a, Heeds P (f (.ok a))) (herr : ∀ e, f (.error e) = Pure.pure (.error e)) : Heeds P (x >>= f) := by
  refine hx.bind fun r => ?_
  match r with
  | .ok a => exact .inl ⟨fun h => (by cases h), hok a⟩
  | .error e =>
    rw [herr]
    by_cases he : e = .errIo
    · rw [he]
      exact .inr (.pure hio)
    · exact .inl ⟨fun h => he (Except.error.inj h), .pure _⟩

theorem heeds_changeLoop (fuel : Nat) : ∀ (comps : List (List UInt8)) (k : Nat) (stack : PathStack),
    Heeds Answered (changeLoop fuel k stack comps)
  | [], _, _ => .pure _
  | comp :: comps, k, stack => by
    rw [changeLoop]
    split
    · exact heeds_changeLoop fuel comps _ _
    split
    · exact heeds_changeLoop fuel comps _ _
    split
    · exact .pure _
    · refine (heeds_findEntry fuel k _).answered (fun h => h rfl) (fun (e, p) => ?_) fun _ => rfl
      dsimp only
      split
      · exact .pure _
      · exact heeds_changeLoop fuel comps _ _

theorem heeds_resolveLoop (fuel : Nat) : ∀ (comps : List (List UInt8)) (k : Nat) (stack : List Nat),
    Heeds Answered (resolveLoop fuel k stack comps)
  | [], _, _ => .pure _
  | [last], k, stack => by
    rw [resolveLoop]
    split
    · exact .pure _
    · split <;> exact .pure _
  | comp :: next :: comps, k, stack => by
    rw [resolveLoop]
    · split
      · exact heeds_resolveLoop fuel (next :: comps) _ _
      split
      · exact heeds_resolveLoop fuel (next :: comps) _ _
      split
      · exact .pure _
      · refine (heeds_findEntry fuel k _).answered (fun h => h rfl) (fun (e, p) => ?_) fun _ => rfl
        dsimp only
        split
        · exact .pure _
        · exact heeds_resolveLoop fuel (next :: comps) _ _
    · exact fun h => by cases h

theorem heeds_resolveParentAndName (fuel : Nat) (path : List UInt8) :
    Heeds Answered (resolveParentAndName fuel path) := by
  unfold resolveParentAndName
  refine .core fun c => ?_
  split
  · exact .pure _
  split
  · exact heeds_resolveLoop fuel _ _ _
  · exact heeds_resolveLoop fuel _ _ _

/-- What follows a part whose error ends the call: it heeds what it returns, if the error of a failing disk is
not in `P`. -/
theorem Heeds.else {α β : Type} {P : β → Prop} {x : M (Except Code α)} {f : Except Code α → M β} {g : Code → β}
    (hx : Heeds Answered x) (hio : ¬ P (g .errIo)) (hok : ∀ a, Heeds P (f (.ok a)))
    (herr : ∀ e, f (.error e) = Pure.pure (g e)) : Heeds P (x >>= f) := by
  refine hx.bind fun r => ?_
  match r with
  | .ok a => exact .inl ⟨fun h => (by cases h), hok a⟩
  | .error e =>
    rw [herr]
    by_cases he : e = .errIo
    · rw [he]
      exact .inr (.pure hio)
    · exact .inl ⟨fun h => he (Except.error.inj h), .pure _⟩

theorem heeds_changeDirectory (fuel : Nat) (path : List UInt8) :
    Heeds (· ≠ .errIo) (changeDirectory fuel path) := by
  unfold changeDirectory
  refine .core fun c => ?_
  split
  · exact .pure _
  split
  · exact .pure _
  · refine (heeds_changeLoop fuel _ _ _).else (g := id) (fun h => h rfl) (fun (k, stack) => ?_) fun _ => rfl
    exact .step (heeds_modifyCore _) fun _ => .pure _

/-! ## Reading -/

theorem heeds_readFile (fuel : Nat) (path : List UInt8) (buffer : Option Buf) (maxSize : Nat) :
    Heeds (·.1 ≠ .errIo) (readFile fuel path buffer maxSize) := by
  unfold readFile
  refine .core fun c => ?_
  split
  · exact .pure _
  split
  · exact .pure _
  rename_i b
  refine (heeds_resolveParentAndName fuel path).else (g := fun e => (e, some b, none)) (fun h => h rfl)
    (fun (d, n) => ?_) fun _ => rfl
  refine (heeds_findEntry fuel d n).else (g := fun e => (e, some b, none)) (fun h => h rfl) (fun (e, p) => ?_)
    fun _ => rfl
  dsimp only
  split
  · exact .pure _
  split
  · exact .pure _
  · have hloop : Heeds (·.1 ≠ .errIo) (loop (readRound e.size) fuel (e.cluster, 0, b)) := by
      refine .loop (fun (k, cursor, buffer) => ?_) fuel _
      rw [readRound]
      split
      · exact .read (fun _ => .core fun _ => .pure _) fun _ => .pure fun h => h _ rfl rfl
      · exact .pure _
    refine hloop.bind fun (code, buffer, size) => ?_
    by_cases hc : code = .errIo
    · exact .inr (.pure fun h => h hc)
    · exact .inl ⟨hc, .pure _⟩

/-! ## Changes -/

theorem heeds_writeEntry (p : Loc) (e : RawDirEntry) : Heeds (· = .ok) (writeEntry p e) := by
  unfold writeEntry
  refine .core fun c => ?_
  split
  · split
    · exact .pure _
    · exact .step (heeds_modifyCore _) fun _ => .pure _
  · refine .read (fun b => ?_) fun b => .pure fun h => by cases h
    dsimp only
    split
    · exact .pure _
    split
    · exact .pure _
    · exact .step (heeds_setClusterBuffer _) fun _ => .write (.pure _) (.pure fun h => by cases h)

/-- An answer other than the two of a part that could not read, or take a cluster. -/
def Served {α : Type} (r : Except Code α) : Prop := r ≠ .error .errIo ∧ r ≠ .error .errNoFreeCluster

/-- What follows a part that takes clusters, when its error ends the call. -/
theorem Heeds.served {α : Type} {x : M (Except Code α)} {f : Except Code α → M Code} (hx : Heeds Served x)
    (hok : ∀ a, Heeds (· = .ok) (f (.ok a))) (herr : ∀ e, f (.error e) = Pure.pure e) :
    Heeds (· = .ok) (x >>= f) := by
  refine hx.bind fun r => ?_
  match r with
  | .ok a => exact .inl ⟨⟨fun h => (by cases h), fun h => by cases h⟩, hok a⟩
  | .error e =>
    rw [herr]
    by_cases he : e = .errIo ∨ e = .errNoFreeCluster
    · refine .inr (.pure fun h => ?_)
      rw [h] at he
      exact he.elim (fun h => by cases h) fun h => by cases h
    · exact .inl ⟨⟨fun h => he (.inl (Except.error.inj h)), fun h => he (.inr (Except.error.inj h))⟩, .pure _⟩

theorem heeds_findFreeEntry (fuel d : Nat) : Heeds Served (findFreeEntry fuel d) := by
  unfold findFreeEntry
  refine .core fun c => ?_
  split
  · split <;> exact .pure _
  have hloop : Heeds (fun r => r ≠ .inl (.error .errIo)) (loop freeRound fuel (d, 0)) := by
    refine .loop (fun (k, prev) => ?_) fuel _
    rw [freeRound]
    split
    · refine .read (fun b => .core fun c => ?_) fun b => .pure fun h => h _ rfl rfl
      split <;> exact .pure _
    · exact .pure _
  refine hloop.bind fun r => ?_
  match r with
  | .inl r =>
    by_cases hr : r = .error .errIo
    · rw [hr]
      exact .inr (.pure fun h => h.1 rfl)
    · exact .inl ⟨fun h => hr (Sum.inl.inj h), .pure _⟩
  | .inr prev =>
    refine .inl ⟨fun h => (by cases h), heeds_allocateCluster.bind fun k => ?_⟩
    split
    · exact .inr (.pure fun h => h.2 rfl)
    · rename_i hk
      exact .inl ⟨hk, .step (heeds_linkCluster prev k) fun _ => .pure _⟩

theorem heeds_writeDirectoryEntry (fuel d : Nat) (n : ShortName) (e : RawDirEntry) :
    Heeds (· = .ok) (writeDirectoryEntry fuel d n e) := by
  unfold writeDirectoryEntry
  refine (heeds_findEntry fuel d n).bind fun r => ?_
  split
  · exact .inl ⟨fun h => (by cases h), heeds_writeEntry _ _⟩
  · refine .inl ⟨fun h => (by cases h), ?_⟩
    exact (heeds_findFreeEntry fuel d).served (heeds_writeEntry · e) fun _ => rfl
  · rename_i code hne
    by_cases hc : code = .errIo
    · rw [hc]
      exact .inr (.pure fun h => by cases h)
    · exact .inl ⟨fun h => hc (Except.error.inj h), .pure _⟩

theorem heeds_markEntryDeleted (fuel d : Nat) (n : ShortName) : Heeds (· = .ok) (markEntryDeleted fuel d n) := by
  unfold markEntryDeleted
  refine (heeds_findEntry fuel d n).else (g := id) (fun h => by cases h) (fun (e, p) => ?_) fun _ => rfl
  exact heeds_writeEntry _ _

theorem heeds_writeRound (fuel : Nat) (data : Buf) (size : Nat) (i : Nat × Nat × Nat) :
    Heeds (fun r => ∀ b, r = .inr b → Served b) (writeRound fuel data size i) := by
  obtain ⟨first, prev, written⟩ := i
  rw [writeRound]
  split
  · refine heeds_allocateCluster.bind fun k => ?_
    split
    · exact .inr (.step (heeds_freeFrom fuel first) fun _ => .pure fun h => (h _ rfl).2 rfl)
    · rename_i hk
      refine .inl ⟨hk, .step (heeds_linkPrevious _ _) fun _ => .step (heeds_setFatEntry _ _) fun _ => .core fun c =>
        .clusterBuffer fun b => ?_⟩
      refine .step (heeds_setClusterBuffer _) fun _ => .write (.pure _) ?_
      exact .step (heeds_freeChain fuel _) fun _ => .pure fun h => (h _ rfl).1 rfl
  · exact .pure _

theorem heeds_writeLoop (fuel : Nat) (data : Buf) (size : Nat) : Heeds Served (writeLoop fuel data size) :=
  .loop (heeds_writeRound fuel data size) fuel _

theorem heeds_commitFile (fuel d : Nat) (n : ShortName) (old : Option Nat) (first size : Nat) :
    Heeds (· = .ok) (commitFile fuel d n old first size) := by
  unfold commitFile
  refine (heeds_writeDirectoryEntry fuel d n _).bind fun code => ?_
  split
  · refine .inl ⟨rfl, ?_⟩
    split
    · exact .pure _
    split
    · exact .step (heeds_freeChain fuel _) fun _ => .pure _
    · exact .pure _
  · rename_i hne
    exact .inr (.step (heeds_freeFrom fuel first) fun _ => .pure hne)

/-- `fat12_write_file` up to the flush. -/
theorem heeds_writeFileBody (fuel : Nat) (path : List UInt8) (data : Option Buf) (size : Nat) :
    Heeds (· = .ok) (writeFileBody fuel path data size) := by
  unfold writeFileBody
  refine .core fun c => ?_
  split
  · exact .pure _
  split
  · exact .pure _
  refine (heeds_resolveParentAndName fuel path).else (g := id) (fun h => by cases h) (fun (d, n) => ?_) fun _ => rfl
  refine (heeds_findEntry fuel d n).bind fun r => ?_
  split
  · refine .inl ⟨fun h => (by cases h), ?_⟩
    split
    · exact .pure _
    · exact (heeds_writeLoop fuel _ size).served (fun _ => heeds_commitFile fuel d n _ _ size) fun _ => rfl
  · exact .inl ⟨fun h => (by cases h),
      (heeds_writeLoop fuel _ size).served (fun _ => heeds_commitFile fuel d n _ _ size) fun _ => rfl⟩
  · rename_i code hne
    by_cases hc : code = .errIo
    · rw [hc]
      exact .inr (.pure fun h => by cases h)
    · exact .inl ⟨fun h => hc (Except.error.inj h), .pure _⟩

/-- `fat12_delete_file` up to the flush. -/
theorem heeds_deleteFileBody (fuel : Nat) (path : List UInt8) : Heeds (· = .ok) (deleteFileBody fuel path) := by
  unfold deleteFileBody
  refine .core fun c => ?_
  split
  · exact .pure _
  refine (heeds_resolveParentAndName fuel path).else (g := id) (fun h => by cases h) (fun (d, n) => ?_) fun _ => rfl
  refine (heeds_findEntry fuel d n).else (g := id) (fun h => by cases h) (fun (e, p) => ?_) fun _ => rfl
  dsimp only
  split
  · exact .pure _
  · exact .step (heeds_freeFrom fuel _) fun _ => heeds_markEntryDeleted fuel d n

/-! ## Mounting -/

theorem heeds_readArea (lba : Nat) :
    ∀ (n : Nat) (buffer : Buf) (i : Nat), Heeds (·.1 = true) (readArea lba buffer i n)
  | 0, _, _ => .pure _
  | n + 1, buffer, i => by
    rw [readArea]
    refine (heeds_diskReadSectors _ buffer _ 1).bind fun (ok, b) => ?_
    cases ok with
    | true => exact .inl ⟨rfl, heeds_readArea lba n b (i + 1)⟩
    | false => exact .inr (.pure fun h => by cases h)

/-- The root directory is read last. -/
theorem heeds_loadRoot (lba n : Nat) (b : Buf) : Heeds (· = true) (do
    let (ok, root) ← readArea lba b 0 n
    modifyCore fun c => { c with rootDir := root }
    pure ok) := by
  refine (heeds_readArea lba n b 0).bind fun r => ?_
  obtain ⟨ok, root⟩ := r
  cases ok with
  | true => exact .inl ⟨rfl, .step (heeds_modifyCore _) fun _ => .pure _⟩
  | false => exact .inr (.step (heeds_modifyCore _) fun _ => .pure fun h => by cases h)

theorem heeds_loadCaches : Heeds (· = true) loadCaches := by
  unfold loadCaches
  refine .core fun c => (heeds_readArea _ _ _ _).bind fun r => ?_
  obtain ⟨ok, fat⟩ := r
  cases ok with
  | false => exact .inr (.step (heeds_modifyCore _) fun _ => .pure fun h => by cases h)
  | true =>
    refine .inl ⟨rfl, .step (heeds_modifyCore _) fun _ => ?_⟩
    rw [if_neg (by decide)]
    split
    · refine Heeds.fatSecondary (f := fun b => readArea _ b 0 _ >>= _) fun b =>
        (heeds_readArea _ _ b 0).bind fun r => ?_
      obtain ⟨ok, second⟩ := r
      cases ok with
      | false => exact .inr (.step (heeds_setFatSecondary _) fun _ => .pure fun h => by cases h)
      | true => exact .inl ⟨rfl, .step (heeds_setFatSecondary _) fun _ => heeds_loadRoot _ _ _⟩
    · exact heeds_loadRoot _ _ _

/-- `fat12_init` -/
theorem heeds_init (baseLba : Nat) : Heeds (· = .ok) (init baseLba) := by
  unfold init
  refine (heeds_diskReadSectors baseLba _ 0 1).bind fun (ok, sector) => ?_
  cases ok with
  | false => exact .inr (.pure fun h => by cases h)
  | true =>
    refine .inl ⟨rfl, ?_⟩
    dsimp only
    rw [if_neg (by decide)]
    split
    · exact .pure _
    refine .step (heeds_modifyCore _) fun _ => .core fun c => ?_
    split
    · exact .pure _
    split
    · exact .pure _
    refine .step (heeds_modifyCore _) fun _ => .core fun c => ?_
    split
    · exact .pure _
    refine .step (heeds_modifyCore _) fun _ => .core fun c => ?_
    split
    · exact .pure _
    refine heeds_loadCaches.bind fun ok => ?_
    cases ok with
    | true => exact .inl ⟨rfl, .step (heeds_modifyCore _) fun _ => .pure _⟩
    | false => exact .inr (.pure fun h => by cases h)

end AltoniumOS.Fat12

/-
The file system on the drive: the functions of `fat12.c`, run as programs of disk calls over `disk.c` and the
ports of the drive. Whatever the drive does short of spoiling sectors, they end as they do over sectors whose
calls come out in some way; on a drive that keeps up they are a tree of files.
-/
import AltoniumOS.System.Files
import AltoniumOS.System.Programs
import AltoniumOS.System.Returning

namespace AltoniumOS.Fat12

open AltoniumOS.Lib
open AltoniumOS.Disk (DiskCall Store Drive DriveStep StoreStep Mirrors)

variable {α : Type} {m : M α} {μ μ' : Memory} {d d' : Drive} {r : Except OutOfFuel α} {a : α} {P : Fs → Prop}
  {Q : α → Fs → Prop}

/-! ## Running on the drive -/

/-- What a memory and a drive come to when they run `m`: a program that spells it out is run over the drive. -/
def Carried (m : M α) (k : Memory × Drive) (r : Except OutOfFuel α) (k' : Memory × Drive) : Prop :=
  ∃ p : Program α, p.Within DiskCall.Addressed (fun _ => True) ∧ Spells p k.1 m ∧
    p.Runs DriveStep k.2 (r, k'.1) k'.2

/-- They come to what `m` comes to on the sectors of the drive, with some outcomes of its calls; good ones if
the drive keeps up. -/
theorem Carried.ends {K : Prop} (h : Carried m (μ, d) r (μ', d')) (hd : d.Careful) (hK : K → d.Punctual)
    (w : List (Nat × List Buf)) :
    ∃ faults w' rest, (K → ∀ k, faults k = none) ∧ (K → ∀ k, rest k = none) ∧
      m (μ.on ⟨d.sectors, w⟩ faults) = ended ((r, μ'), ⟨d'.sectors, w'⟩, rest) ∧ d'.Careful ∧
      (K → d'.Punctual) := by
  obtain ⟨p, hp, hspell, hrun⟩ := h
  have hstart : Mirrors K d ⟨d.sectors, w⟩ := ⟨rfl, hd, hK⟩
  obtain ⟨t', hstore, hend, -⟩ := hstart.runs hp hrun
  obtain ⟨faults, hfaults, rest, htape, hrest⟩ :=
    Client.Runs.foretold (A := fun fault => K → fault = none) ⟨none, fun _ => rfl⟩ hstore
  refine ⟨faults, t'.writes, rest, fun hk k => hfaults k hk, fun hk k => hrest k hk, ?_, hend.careful,
    hend.punctual⟩
  rw [hspell, htape, ← hend.sectors]

/-- On a drive that keeps up they come to what `m` comes to where no call fails. -/
theorem Carried.reliable (h : Carried m (μ, d) r (μ', d')) (hd : d.Punctual) (w : List (Nat × List Buf)) :
    ∃ w', m (μ.on ⟨d.sectors, w⟩ fun _ => none) = ended ((r, μ'), ⟨d'.sectors, w'⟩, fun _ => none) ∧
      d'.Punctual := by
  obtain ⟨faults, w', rest, hfaults, hrest, hrun, -, hd'⟩ := h.ends (K := True) hd.careful (fun _ => hd) w
  obtain rfl : faults = fun _ => none := funext (hfaults trivial)
  obtain rfl : rest = fun _ => none := funext (hrest trivial)
  exact ⟨w', hrun, hd' trivial⟩

/-- A program of disk calls comes to something on every drive. -/
theorem AsksFrom.carried (h : AsksFrom P m Q) (hμ : P μ.fs) (hd : d.Careful) :
    ∃ r μ' d', Carried m (μ, d) r (μ', d') := by
  obtain ⟨p, hp, hspell⟩ := h μ hμ
  have hstart : Mirrors False d ⟨d.sectors, []⟩ := ⟨rfl, hd, False.elim⟩
  obtain ⟨⟨r, μ'⟩, d', hrun⟩ := hstart.exists hp
  exact ⟨r, μ', d', p, hp.mono fun _ _ => trivial, hspell, hrun⟩

/-- If it returns where no call fails, it returns the same on a drive that keeps up. -/
theorem AsksFrom.returns (h : AsksFrom P m Q) (hμ : P μ.fs) (hd : d.Punctual) {w : List (Nat × List Buf)}
    {s : State} (hrun : m (μ.on ⟨d.sectors, w⟩ fun _ => none) = .ok a s) :
    ∃ μ' d', Carried m (μ, d) (.ok a) (μ', d') ∧ μ'.core d'.sectors = s.toCore ∧ d'.Punctual := by
  obtain ⟨r, μ', d', hcarried⟩ := h.carried hμ hd.careful
  obtain ⟨w', hend, hd'⟩ := hcarried.reliable hd w
  rw [hrun] at hend
  cases r with
  | error e => cases hend
  | ok b =>
    cases hend
    exact ⟨μ', d', hcarried, rfl, hd'⟩

/-! ## On any drive -/

/-- A drive that holds the sectors of a blank volume, and of whose answers every third is that a block was lost. -/
def losingDrive : Drive where
  seccount0 := 0
  lba0 := 0
  lba1 := 0
  lba2 := 0
  drive := 0
  phase := .idle
  sectors := blankState.sectors
  identity := fun _ => 0
  answers k := ⟨Disk.ataStatusDrdy ||| Disk.ataStatusDrq, if k % 3 = 0 then .lost else .stored⟩
  commands := []

/-- A call made on the drive, whatever comes of it. -/
def Called (fuel : Nat) (k k' : Memory × Drive) : Prop :=
  ∃ (x : Call) (r : Except OutOfFuel x.Answer), Carried (x.exec fuel) k r k'

/-- A call on the drive: it returns, with an acyclic FAT again, as it does over sectors whose calls come out in
some way. -/
theorem Call.carried {fs : Fs} {fuel : Nat} (hf : 4096 ≤ fuel) (hfs : fs.Addressable) (hd : d.Careful)
    (hμ : Winding fs 4086 (μ.core d.sectors)) (x : Call) {r : Except OutOfFuel x.Answer}
    (h : Carried (x.exec fuel) (μ, d) r (μ', d')) :
    d'.Careful ∧ Winding fs 4086 (μ'.core d'.sectors) ∧ ∃ a faults w rest, r = .ok a ∧
      (d.Punctual → ∀ k, faults k = none) ∧
      x.exec fuel (μ.on ⟨d.sectors, []⟩ faults) = .ok a (μ'.on ⟨d'.sectors, w⟩ rest) := by
  obtain ⟨faults, w, rest, hfaults, -, hrun, hd', -⟩ := h.ends hd id []
  obtain ⟨a, s', hreturns, hs'⟩ := x.brings hfs.accepted hf (μ.on ⟨d.sectors, []⟩ faults) hμ
  rw [hreturns] at hrun
  cases r with
  | error e => cases hrun
  | ok b =>
    cases hrun
    exact ⟨hd', hs', a, faults, w, rest, rfl, hfaults, hreturns⟩

/-- After any calls the drive is as careful, and the FAT has no loop, if it had none before them. -/
theorem careful_of_calls {fuel : Nat} {k : Memory × Drive} (hf : 4096 ≤ fuel) (hfs : μ.fs.Addressable)
    (hd : d.Careful) (hfat : (μ.core d.sectors).Acyclic) (h : Relation.ReflTransGen (Called fuel) (μ, d) k) :
    k.2.Careful ∧ Winding μ.fs 4086 (k.1.core k.2.sectors) := by
  induction h with
  | refl => exact ⟨hd, .of_acyclic hfs.accepted hfat rfl⟩
  | tail _ hlast ih =>
    obtain ⟨x, r, hcarried⟩ := hlast
    obtain ⟨hd', hμ', -⟩ := x.carried hf hfs ih.1 ih.2 hcarried
    exact ⟨hd', hμ'⟩

/-- The mount ends on every drive that spoils no sector, and so does every operation after any others where no
chain of the FAT was a loop before them; each as it does over sectors whose calls come out in some way: well, if
the drive keeps up. -/
theorem calls_over_drive {fuel baseLba : Nat} (hf : 4096 ≤ fuel) (hfs : μ.fs.Addressable)
    (hbase : baseLba + 4194304 ≤ 268435456) (hd : d.Careful) :
    ((μ.core d.sectors).Acyclic → ∀ k, Relation.ReflTransGen (Called fuel) (μ, d) k → ∀ x : Call,
      (∃ r k', Carried (x.exec fuel) k r k') ∧
      ∀ r k', Carried (x.exec fuel) k r k' → ∃ a faults w rest, r = .ok a ∧ (k.2.Punctual → ∀ i, faults i = none) ∧
        x.exec fuel (k.1.on ⟨k.2.sectors, []⟩ faults) = .ok a (k'.1.on ⟨k'.2.sectors, w⟩ rest)) ∧
    (∃ r k', Carried (init baseLba) (μ, d) r k') ∧
      ∀ r k', Carried (init baseLba) (μ, d) r k' → ∃ code faults w rest, r = .ok code ∧
        (d.Punctual → ∀ i, faults i = none) ∧
        init baseLba (μ.on ⟨d.sectors, []⟩ faults) = .ok code (k'.1.on ⟨k'.2.sectors, w⟩ rest) := by
  refine ⟨fun hfat k h x => ?_, ?_, fun r k' h => ?_⟩
  · obtain ⟨hdk, hk⟩ := careful_of_calls hf hfs hd hfat h
    refine ⟨?_, fun r k' hcarried => (x.carried hf hfs hdk hk hcarried).2.2⟩
    obtain ⟨r, μ', d', hcarried⟩ := (x.asks hfs fuel).carried (show k.1.fs = μ.fs from hk.layout) hdk
    exact ⟨r, (μ', d'), hcarried⟩
  · obtain ⟨r, μ', d', hcarried⟩ := (asks_init hbase).carried trivial hd
    exact ⟨r, (μ', d'), hcarried⟩
  · obtain ⟨faults, w, rest, hfaults, -, hends, -⟩ := h.ends hd id []
    obtain ⟨code, s', hreturns⟩ := total_init baseLba (μ.on ⟨d.sectors, []⟩ faults)
    rw [hreturns] at hends
    cases r with
    | error e => cases hends
    | ok b =>
      cases hends
      exact ⟨code, faults, w, rest, rfl, hfaults, hreturns⟩

theorem losing_careful : losingDrive.Careful := fun k left => by
  show (if k % 3 = 0 then Disk.Outcome.lost else .stored) ≠ _
  split
  · exact fun h => nomatch h
  · exact fun h => nomatch h

theorem blank_acyclic : blankMounted.toCore.Acyclic := by
  refine fun k => .of_next ?_
  by_cases hk : k + k / 2 + 1 < blankMounted.fs.fatSizeBytes
  · rw [getFatEntry_eq (c := blankMounted.toCore) hk, blank_fat]
    exact .dead (by simp [cell, nib, inChain])
  · rw [getFatEntry_outside (c := blankMounted.toCore) (Nat.le_of_not_lt hk)]
    exact .dead inChain_eoc

/-- Two calls on the blank volume over that drive. -/
theorem calls_over_drive_losing :
    ∃ r k a k', Carried (Call.exec 4096 (.change (.createDirectory [68]))) (blankMounted.memory, losingDrive) r k ∧
      Carried (Call.exec 4096 (.change (.writeFile [65] (some fun _ => 7) 600))) k (.ok a) k' := by
  have hfs : blankMounted.memory.fs.Addressable := ⟨blank_mounted.accepted, by decide⟩
  have hfat : (blankMounted.memory.core losingDrive.sectors).Acyclic := blank_acyclic
  obtain ⟨hcalls, -⟩ :=
    calls_over_drive (Nat.le_refl 4096) hfs (show 0 + 4194304 ≤ 268435456 by decide) losing_careful
  obtain ⟨⟨r, k, hmade⟩, -⟩ := hcalls hfat _ .refl (.change (.createDirectory [68]))
  obtain ⟨⟨r', k', hwritten⟩, hends⟩ :=
    hcalls hfat k (.single ⟨_, r, hmade⟩) (.change (.writeFile [65] (some fun _ => 7) 600))
  obtain ⟨a, -, -, -, rfl, -⟩ := hends _ _ hwritten
  exact ⟨r, k, a, k', hmade, hwritten⟩

/-! ## On a drive that keeps up -/

/-- A call that returned, or another mount of the drive as it was left. -/
inductive StackStep (fuel baseLba : Nat) : Memory × Drive → Event → Memory × Drive → Prop
  | call {k k' : Memory × Drive} {x : Call} {r : x.Answer} : Carried (x.exec fuel) k (.ok r) k' →
    StackStep fuel baseLba k (.call x r) k'
  | restart {k k' : Memory × Drive} {μ : Memory} : Carried (init baseLba) (μ, k.2) (.ok .ok) k' →
    StackStep fuel baseLba k .restart k'

/-- The core of a memory and a drive. -/
def coreOf (k : Memory × Drive) : Core := k.1.core k.2.sectors

section

variable {fuel baseLba : Nat} {boot : Buf} {F : Files} {k k' : Memory × Drive}

theorem InStep.addressable {c : Core} (h : InStep boot baseLba c) (hm : Mountable boot baseLba)
    (hbase : baseLba + 4194304 ≤ 268435456) : c.fs.Addressable := by
  rw [h.layout]
  exact ⟨hm.accepted, hbase⟩

/-- A step on the drive is a step on sectors that do not fail. -/
theorem StackStep.driver {l : Event} (hd : k.2.Punctual) (h : StackStep fuel baseLba k l k') :
    ∃ s s' : State, s.toCore = coreOf k ∧ Reliable s ∧ DriverStep fuel baseLba s l s' ∧ s'.toCore = coreOf k' ∧
      Reliable s' ∧ k'.2.Punctual := by
  obtain ⟨μ, d⟩ := k
  obtain ⟨μ', d'⟩ := k'
  cases h with
  | call hcarried =>
    obtain ⟨w, hrun, hd'⟩ := hcarried.reliable hd []
    exact ⟨_, _, rfl, fun _ => rfl, .call hrun, rfl, fun _ => rfl, hd'⟩
  | restart hcarried =>
    rename_i μ₀
    obtain ⟨w, hrun, hd'⟩ := hcarried.reliable hd []
    have hdisk : (μ₀.on ⟨d.sectors, []⟩ fun _ => none).sectors = d.sectors := rfl
    refine ⟨μ.on ⟨d.sectors, []⟩ fun _ => none, μ'.on ⟨d'.sectors, w⟩ fun _ => none, rfl, fun _ => rfl, ?_, rfl,
      fun _ => rfl, hd'⟩
    exact .restart hdisk (fun _ => rfl) hrun

/-- What is asked of the drive is answered. -/
theorem Represents.serves (hf : 4096 ≤ fuel) (hm : Mountable boot baseLba) (hbase : baseLba + 4194304 ≤ 268435456)
    (h : Represents boot baseLba (coreOf k) F) (hd : k.2.Punctual) (request : Option Call) :
    ∃ l k', l.request = request ∧ StackStep fuel baseLba k l k' := by
  obtain ⟨μ, d⟩ := k
  obtain ⟨l, s', hl, hstep⟩ := h.responds (s := μ.on ⟨d.sectors, []⟩ fun _ => none) hf hm (fun _ => rfl) request
  cases hstep with
  | call hrun =>
    obtain ⟨μ', d', hcarried, -⟩ := (Call.asks (h.inStep.addressable hm hbase) fuel _).returns rfl hd hrun
    exact ⟨_, (μ', d'), hl, .call hcarried⟩
  | restart hdisk ht hinit =>
    rename_i t
    have hsectors : t.sectors = d.sectors := hdisk
    have hfaults : t.faults = fun _ => none := funext ht
    have hstart : t.memory.on ⟨d.sectors, t.writes⟩ (fun _ => none) = t := by
      rw [← hsectors, ← hfaults]
      rfl
    obtain ⟨μ', d', hcarried, -⟩ := (asks_init hbase).returns (μ := t.memory) trivial hd (hstart ▸ hinit)
    exact ⟨_, (μ', d'), hl, .restart hcarried⟩

end

/-- A drive that holds them, and does as it is told at once. -/
def promptDrive : Drive :=
  { losingDrive with answers := fun _ => ⟨Disk.ataStatusDrdy ||| Disk.ataStatusDrq, .stored⟩ }

theorem prompt_punctual : promptDrive.Punctual where
  alive _ := by
    show (Disk.ataStatusDrdy ||| Disk.ataStatusDrq) &&& Disk.ataStatusDrdy ≠ 0
    decide
  sound _ := by
    show (Disk.ataStatusDrdy ||| Disk.ataStatusDrq) &&& Disk.ataStatusErr = 0
    decide
  ready _ := ⟨0, by decide, by
    show (Disk.ataStatusDrdy ||| Disk.ataStatusDrq) &&& Disk.ataStatusBsy = 0
    decide⟩
  opens _ := ⟨0, by decide, by
    show (Disk.ataStatusDrdy ||| Disk.ataStatusDrq) &&& Disk.ataStatusDrq ≠ 0
    decide⟩
  stores _ := rfl

/-- On a drive that keeps up the file system is a tree of files: every history of calls and restarts is one that
the tree allows, with the same answers and the tree that the drive holds; and whatever is asked, there is an
answer. -/
theorem files_over_drive {fuel baseLba : Nat} {k : Memory × Drive} (hf : 4096 ≤ fuel)
    (hbase : baseLba + 4194304 ≤ 268435456) (hd : d.Punctual) (hmount : Carried (init baseLba) (μ, d) (.ok .ok) k)
    (hres : 1 ≤ k.1.fs.reservedSectors) (hfats : 1 ≤ k.1.fs.numFats) (hwf : (coreOf k).volume.WF ∅)
    (hcopies : (coreOf k).CopiesAgree) (hnamed : (coreOf k).volume.Named) :
    ∃ F : Files, F.tree = (coreOf k).volume.tree ∧ F.cwd = [] ∧
      (∀ ls k', History (StackStep fuel baseLba) k ls k' → ∃ F', History Files.Step F ls F' ∧
        F'.tree = (coreOf k').volume.tree) ∧
      ∀ requests : List (Option Call), ∃ ls k', ls.map Event.request = requests ∧
      History (StackStep fuel baseLba) k ls k' := by
  obtain ⟨μ₁, d₁⟩ := k
  obtain ⟨w, hinit, hd₁⟩ := hmount.reliable hd []
  obtain ⟨hm, hcore, -⟩ := init_ok (fun _ => rfl) hinit
  rw [show coreOf (μ₁, d₁) = _ from hcore] at hwf hcopies hnamed ⊢
  have hfs : μ₁.fs = _ := congrArg Core.fs hcore
  obtain ⟨F, hF, htree, hcwd⟩ := represents_mount hm (hfs ▸ hres) (hfs ▸ hfats) hwf hcopies hnamed
  rw [← hcore] at hF
  generalize Core.bootSector _ baseLba = boot at hm hF
  have hstart : Represents boot baseLba (coreOf (μ₁, d₁)) F := hF
  have hkept : ∀ (k : Memory × Drive) l k' F, Represents boot baseLba (coreOf k) F ∧ k.2.Punctual →
      StackStep fuel baseLba k l k' → ∃ F', F.Step l F' ∧ Represents boot baseLba (coreOf k') F' ∧
      k'.2.Punctual := by
    rintro k l k' F ⟨hF, hd⟩ hstep
    obtain ⟨s, s', hs, hrel, hdriver, hs', -, hd'⟩ := hstep.driver hd
    rw [← hs] at hF
    obtain ⟨F', hallowed, hF', -⟩ := hF.step hf hm hrel hdriver
    exact ⟨F', hallowed, hs' ▸ hF', hd'⟩
  refine ⟨F, htree, hcwd, fun ls k' hist => ?_, fun requests => ?_⟩
  · obtain ⟨F', hist', hF', -⟩ := hist.simulate hkept ⟨hstart, hd₁⟩
    exact ⟨F', hist', hF'.tree.symm⟩
  · have htotal : ∀ (k : Memory × Drive) r, (∃ F, Represents boot baseLba (coreOf k) F ∧ k.2.Punctual) →
        ∃ l k', Event.request l = r ∧ StackStep fuel baseLba k l k' ∧ ∃ F, Represents boot baseLba (coreOf k') F ∧
        k'.2.Punctual := by
      rintro k r ⟨F, hF, hd⟩
      obtain ⟨l, k', hl, hstep⟩ := hF.serves hf hm hbase hd r
      obtain ⟨F', -, hF', hd'⟩ := hkept k l k' F ⟨hF, hd⟩ hstep
      exact ⟨l, k', hl, hstep, F', hF', hd'⟩
    obtain ⟨ls, k', h1, h2, -⟩ := History.exists htotal ⟨F, hstart, hd₁⟩ requests
    exact ⟨ls, k', h1, h2⟩

theorem files_over_drive_prompt :
    ∃ k F, Carried (init 0) (blankState.memory, promptDrive) (.ok .ok) k ∧ F.cwd = [] ∧
      (∀ ls k', History (StackStep 4096 0) k ls k' → ∃ F', History Files.Step F ls F' ∧
        F'.tree = (coreOf k').volume.tree) ∧
      ∃ ls k', ls.map Event.request = [some (.change (.createDirectory [68])), none] ∧
      History (StackStep 4096 0) k ls k' := by
  obtain ⟨s, hs, hcore, -⟩ := init_blank
  obtain ⟨μ', d', hmount, hk, -⟩ :=
    (asks_init (show 0 + 4194304 ≤ 268435456 by decide)).returns (μ := blankState.memory) (w := []) trivial
      prompt_punctual hs
  rw [hcore] at hk
  have hfs : μ'.fs = blankMounted.fs := congrArg Core.fs hk
  have hm := blank_mounted
  obtain ⟨F, -, hcwd, hrefines, htotal⟩ :=
    files_over_drive (k := (μ', d')) (Nat.le_refl 4096) (by decide) prompt_punctual hmount
      (by rw [hfs]; exact hm.reserved) (by rw [hfs]; exact hm.fats)
      (by rw [coreOf, hk]; exact blank_wellFormed.1.wf) (by rw [coreOf, hk]; exact blank_synced.copiesAgree)
      (by rw [coreOf, hk]; exact blank_volume.named)
  exact ⟨(μ', d'), F, hmount, hcwd, hrefines, htotal _⟩

end AltoniumOS.Fat12

/-
The computer from the keyboard to the drive: the kernel and its shell, the file system, the driver of the disk,
and a drive behind its ports. On a drive that keeps up it is the shell on a tree of files, from the first start
on, whatever is typed and however often it is switched off.
-/
import AltoniumOS.Kernel.Histories
import AltoniumOS.System.Stack

namespace AltoniumOS.Kernel

open AltoniumOS.Lib AltoniumOS.Console
open AltoniumOS.Disk (Drive Still)
open AltoniumOS.Fat12 (Call Files Memory Carried coreOf Represents Mountable Reliable slash)

/-- The file system on its drive answers. -/
def Answers (fuel : Nat) (k : Memory × Drive) (q : Call) (r : q.Answer) (k' : Memory × Drive) : Prop :=
  Carried (q.exec fuel) k (.ok r) k'

/-- The report of a drive that was found well, and read so in its test. -/
def BootReport.well (b : BootReport) (read : Int × Buf) : BootReport :=
  { b with diskInit := 0, selfTestRead := read }

/-- The kernel's self-test, which a drive that was not found well is spared. -/
def SelfTested (b : BootReport) (d d' : Drive) : Prop :=
  if b.diskInit = 0 then ∃ buffer, Disk.diskReadSector 0 buffer 0 d = some (b.selfTestRead, d') else d' = d

/-- A start of the machine: the storage manager probes the drive, and unless the boot stops there, the kernel
probes it again, tests it and goes on to the mount. -/
inductive PowersOn (b : BootReport) (d : Drive) (m : Machine) (k : Memory × Drive) : Prop
  | stops {d₀ : Drive} {probe : Int} {μ : Memory} : Disk.diskInit d = some (probe, d₀) → b.Fatal →
      Carried (kernelMain b) (μ, d₀) (.ok m) k → PowersOn b d m k
  | goes {d₀ d₁ d₂ : Drive} {probe : Int} {μ : Memory} : Disk.diskInit d = some (probe, d₀) → ¬ b.Fatal →
      Disk.diskInit d₀ = some (b.diskInit, d₁) → SelfTested b d₁ d₂ → Carried (kernelMain b) (μ, d₂) (.ok m) k →
      PowersOn b d m k

/-- The computer takes a key, of which the `disk` command may read the drive, or starts again. -/
inductive ComputerStep (fuel : Nat) :
    Option Machine × Memory × Drive → Event → Option Machine × Memory × Drive → Prop
  | key {m m' : Option Machine} {μ : Memory} {d d₁ : Drive} {k' : Memory × Drive} {r : Report} {raw : UInt8} :
      Still d d₁ → (kernelTurn (r, raw) m).Runs (Answers fuel) (μ, d₁) m' k' →
        ComputerStep fuel (m, μ, d) (.key r raw) (m', k')
  | restart {m m' : Machine} {μ : Memory} {d : Drive} {k' : Memory × Drive} {b : BootReport} : PowersOn b d m' k' →
      ComputerStep fuel (some m, μ, d) (.restart b) (some m', k')

section

variable {fuel : Nat} {b : BootReport} {d : Drive} {m : Machine} {k k' : Memory × Drive} {boot : Buf} {F : Files}

theorem asks_kernelMain (b : BootReport) : Fat12.AsksFrom (fun _ => True) (kernelMain b) fun _ _ => True := by
  unfold kernelMain
  split
  · exact .pure fun _ _ => trivial
  · refine (Fat12.asks_init (show 0 + 4194304 ≤ 268435456 by decide)).bind fun e => ?_
    refine Fat12.AsksFrom.bind (Q := fun _ _ => True) (.core (fun _ _ => rfl) fun _ _ => .pure fun _ _ => trivial)
      fun cwd => ?_
    exact .pure fun _ _ => trivial

/-- The probe of a drive that keeps up finds it well, and leaves its sectors. -/
theorem probed {d d' : Drive} {code : Int} (hd : d.Punctual) (hprobe : Disk.diskInit d = some (code, d')) :
    code = 0 ∧ d'.sectors = d.sectors ∧ d'.Punctual := by
  obtain ⟨_, _, hrun, rfl, hd'⟩ := Disk.diskInit_punctual hd
  obtain ⟨_, _, hrun', hstill⟩ := Disk.diskInit_meets d
  rw [hprobe] at hrun hrun'
  cases hrun
  cases hrun'
  exact ⟨rfl, hstill.sectors, hd'⟩

/-- So does the test. -/
theorem SelfTested.still {d d' : Drive} (h : SelfTested b d d') (hd : d.Punctual) :
    d'.sectors = d.sectors ∧ d'.Punctual := by
  unfold SelfTested at h
  split at h
  · obtain ⟨buffer, htest⟩ := h
    obtain ⟨_, _, hread, -, hd'⟩ := Disk.diskReadSector_punctual hd (show 0 < 268435456 by decide) buffer 0
    obtain ⟨_, _, hread', hfilled⟩ :=
      Disk.diskReadSector_meets (.start d buffer 0 1) (by decide) (show 0 < 1 by decide)
    have hread'' := hread'.symm.trans htest
    rw [htest] at hread
    cases hread
    cases hread''
    exact ⟨hfilled.1.still.sectors, hd'⟩
  · rw [h]
    exact ⟨rfl, hd⟩

/-- On a drive that keeps up the machine starts as on a disk that does not fail. -/
theorem PowersOn.boots (h : PowersOn b d m k) (hd : d.Punctual) :
    k.2.Punctual ∧
      ∃ s s' : Fat12.State, s.sectors = d.sectors ∧ Reliable s ∧ kernelMain b s = .ok m s' ∧
      s'.toCore = coreOf k := by
  obtain ⟨hprobe, -, hmain⟩ | ⟨hprobe, -, hagain, htest, hmain⟩ := h
  · obtain ⟨-, hsectors, hd₀⟩ := probed hd hprobe
    obtain ⟨w, hrun, hk⟩ := hmain.reliable hd₀ []
    exact ⟨hk, _, _, hsectors, fun _ => rfl, hrun, rfl⟩
  · obtain ⟨-, h₀, hd₀⟩ := probed hd hprobe
    obtain ⟨-, h₁, hd₁⟩ := probed hd₀ hagain
    obtain ⟨h₂, hd₂⟩ := htest.still hd₁
    obtain ⟨w, hrun, hk⟩ := hmain.reliable hd₂ []
    exact ⟨hk, _, _, h₂.trans (h₁.trans h₀), fun _ => rfl, hrun, rfl⟩

/-- A machine on a drive that keeps up does start, and finds it well. -/
theorem PowersOn.exists (hd : d.Punctual)
    (hmount : ¬ b.Fatal → Mountable ((Fat12.State.initial d.sectors).toCore.bootSector 0) 0) :
    ∃ read m k, PowersOn (b.well read) d m k ∧
      (¬ b.Fatal → coreOf k = (Fat12.State.initial d.sectors).toCore.mount 0) := by
  obtain ⟨probe, d₀, hprobe, -, -⟩ := Disk.diskInit_punctual hd
  obtain ⟨-, h₀, hd₀⟩ := probed hd hprobe
  by_cases hfatal : b.Fatal
  · have hstops : (b.well b.selfTestRead).Fatal := hfatal
    obtain ⟨μ', d', hmain, -⟩ :=
      (asks_kernelMain (b.well b.selfTestRead)).returns (μ := (Fat12.State.initial d₀.sectors).memory)
        (w := []) trivial hd₀ (kernelMain_fatal hstops _)
    exact ⟨b.selfTestRead, _, (μ', d'), .stops hprobe hfatal hmain, fun hb => absurd hfatal hb⟩
  obtain ⟨code, d₁, hagain, -, -⟩ := Disk.diskInit_punctual hd₀
  obtain ⟨rfl, h₁, hd₁⟩ := probed hd₀ hagain
  obtain ⟨read, d₂, htest, -, -⟩ := Disk.diskReadSector_punctual hd₁ (show 0 < 268435456 by decide) (fun _ => 0) 0
  have htested : SelfTested (b.well read) d₁ d₂ := by
    unfold SelfTested
    rw [if_pos (show (b.well read).diskInit = 0 from rfl)]
    exact ⟨_, htest⟩
  obtain ⟨h₂, hd₂⟩ := htested.still hd₁
  replace hmount := hmount hfatal
  rw [← h₂.trans (h₁.trans h₀)] at hmount ⊢
  obtain ⟨s, hinit, hcore, -⟩ := Fat12.gives_mount hmount (Fat12.State.initial d₂.sectors) rfl fun _ => rfl
  obtain ⟨μ', d', hmain, hk, -⟩ := (asks_kernelMain (b.well read)).returns
    (μ := (Fat12.State.initial d₂.sectors).memory) (w := []) trivial hd₂
    (kernelMain_ok (show ¬ (b.well read).Fatal from hfatal) hinit)
  exact ⟨read, _, (μ', d'), .goes hprobe hfatal hagain htested hmain, fun _ => hk.trans hcore⟩

/-! ## The computer is the shell -/

/-- A machine and its drive, as the shell and the tree they are. -/
def Appears (boot : Buf) (c : Option Machine × Memory × Drive) (u : Option Session × Files) : Prop :=
  Option.Rel Machine.Shows c.1 u.1 ∧ Bears boot c.1 (coreOf c.2) u.2 ∧ c.2.2.Punctual

/-- The drive that holds a tree answers as the tree does. -/
theorem drive_answers (hf : 4096 ≤ fuel) (k : Memory × Drive) (q : Call) (r : q.Answer) (k' : Memory × Drive)
    (F : Files) (h : Represents boot 0 (coreOf k) F ∧ k.2.Punctual) (hq : Answers fuel k q r k') :
    ∃ F', Tree F q r F' ∧ Represents boot 0 (coreOf k') F' ∧ k'.2.Punctual := by
  obtain ⟨μ, d⟩ := k
  obtain ⟨μ', d'⟩ := k'
  obtain ⟨w, hrun, hd'⟩ := hq.reliable h.2 []
  obtain ⟨F', hallows, hF', -⟩ := tree_answers hf _ q r _ F ⟨h.1, fun _ => rfl⟩ hrun
  exact ⟨F', hallows, hF', hd'⟩

/-- And it does answer. -/
theorem drive_responds (hf : 4096 ≤ fuel) (hm : Mountable boot 0) (k : Memory × Drive) (q : Call)
    (h : ∃ F, Represents boot 0 (coreOf k) F ∧ k.2.Punctual) :
    ∃ r k', Answers fuel k q r k' ∧ ∃ F, Represents boot 0 (coreOf k') F ∧ k'.2.Punctual := by
  obtain ⟨μ, d⟩ := k
  obtain ⟨F, hF, hd⟩ := h
  obtain ⟨r, s', hrun, -⟩ := driver_answers hf (μ.on ⟨d.sectors, []⟩ fun _ => none) q ⟨F, hF, fun _ => rfl⟩
  obtain ⟨μ', d', hcarried, -⟩ := (q.asks (hF.inStep.addressable hm (by decide)) fuel).returns rfl hd hrun
  obtain ⟨F', -, hF', hd'⟩ := drive_answers hf (μ, d) q r (μ', d') F ⟨hF, hd⟩ hcarried
  exact ⟨r, (μ', d'), hcarried, F', hF', hd'⟩

/-- A step of the computer is a step of the shell. -/
theorem Appears.step (hf : 4096 ≤ fuel) (hm : Mountable boot 0) (c : Option Machine × Memory × Drive) (e : Event)
    (c' : Option Machine × Memory × Drive) (u : Option Session × Files) (h : Appears boot c u)
    (hstep : ComputerStep fuel c e c') : ∃ u', ShellStep u e u' ∧ Appears boot c' u' := by
  obtain ⟨z, F⟩ := u
  obtain ⟨hrel, hF, hd⟩ := h
  cases hstep with
  | @key m _ μ d d₁ _ r raw hstill hrun =>
    have hdisk : coreOf (μ, d₁) = coreOf (μ, d) := by
      rw [coreOf, coreOf, hstill.sectors]
    rcases hF with hF | ⟨⟨b, hb⟩, hleft⟩
    · obtain ⟨F', htree, hF', hd'⟩ := hrun.simulate (drive_answers hf) ⟨hdisk ▸ hF, hstill.punctual hd⟩
      obtain ⟨z', hturn, hrel'⟩ := (alike_kernelTurn _ _ _ hrel).runs htree
      exact ⟨(z', F'), .key hturn, hrel', .inl hF', hd'⟩
    · obtain rfl : m = some (fatalMachine b) := hb
      rw [kernelTurn_fatal] at hrun
      obtain ⟨rfl, rfl⟩ := Client.runs_pure.1 hrun
      exact ⟨(z, F), shell_stopped (r, raw) hrel, hrel, .inr ⟨⟨b, rfl⟩, hdisk ▸ hleft⟩, hstill.punctual hd⟩
  | restart hon =>
    cases hrel with
    | some hshows =>
      obtain ⟨hd', s, s', hdisk, hs, hrun, hcore⟩ := hon.boots hd
      obtain ⟨-, z', F', hstep, hshows', hF'⟩ := Bears.restart hF hm hdisk hs hrun
      exact ⟨(some z', F'), hstep, .some hshows', hcore ▸ hF', hd'⟩

/-- And there is one for every key, and a start of the machine for every report of a drive found well. -/
theorem Appears.goes (hf : 4096 ≤ fuel) (hm : Mountable boot 0) {m : Option Machine} {u : Option Session × Files}
    (h : Appears boot (m, k) u) :
    (∀ r raw, ∃ c, ComputerStep fuel (m, k) (.key r raw) c) ∧
      ∀ (m₀ : Machine) (b : BootReport), m = some m₀ →
      ∃ read c, ComputerStep fuel (m, k) (.restart (b.well read)) c := by
  obtain ⟨-, hF, hd⟩ := h
  constructor
  · intro r raw
    rcases hF with hF | ⟨⟨b, rfl⟩, -⟩
    · obtain ⟨m', k', hrun, -⟩ := Client.Runs.exists (drive_responds hf hm) (kernelTurn (r, raw) m) ⟨_, hF, hd⟩
      exact ⟨(m', k'), .key (.refl _) hrun⟩
    · refine ⟨(some (fatalMachine b), k), .key (.refl _) ?_⟩
      rw [kernelTurn_fatal]
      exact .done _ _
  · rintro m₀ b rfl
    obtain ⟨read, m', k', hon, -⟩ := PowersOn.exists (b := b) hd fun _ =>
      (hF.mount hm (t := (Fat12.State.initial k.2.sectors).toCore) rfl).1
    exact ⟨read, _, .restart hon⟩

end

/-- On a drive that keeps up and holds a sound volume, the computer is the shell on a tree of files: from its
start on, every history of keys and restarts is one of the shell, with the same screen and the tree that is
found on the drive, and the driver has that tree unless the start stopped; and in whatever it comes to, every
key is answered, and every machine starts again. -/
theorem shell_over_drive {fuel : Nat} {b : BootReport} {d : Drive} {m : Machine} {k : Memory × Drive}
    (hf : 4096 ≤ fuel) (hd : d.Punctual)
    (hmount : Mountable ((Fat12.State.initial d.sectors).toCore.bootSector 0) 0) (hb : ¬ b.Fatal)
    (hon : PowersOn b d m k) (hres : 1 ≤ k.1.fs.reservedSectors) (hfats : 1 ≤ k.1.fs.numFats)
    (hwf : (coreOf k).volume.WF ∅) (hcopies : (coreOf k).CopiesAgree) (hnamed : (coreOf k).volume.Named) :
    ∃ F : Files, F.tree = (coreOf k).volume.tree ∧ F.cwd = [] ∧ m.Shows (.start b) ∧
      ∀ es m' k', History (ComputerStep fuel) (some m, k) es (m', k') →
        (∃ z' F', History ShellStep (some (.start b), F) es (z', F') ∧ Option.Rel Machine.Shows m' z' ∧
          F'.tree = ((coreOf k').mount 0).volume.tree ∧
          ((∀ b', m' ≠ some (fatalMachine b')) → F'.tree = (coreOf k').volume.tree)) ∧
        (∀ r raw, ∃ c, ComputerStep fuel (m', k') (.key r raw) c) ∧
        ∀ (m₁ : Machine) (b' : BootReport), m' = some m₁ →
          ∃ read c, ComputerStep fuel (m', k') (.restart (b'.well read)) c := by
  obtain ⟨hk, s, s', hdisk, hs, hrun, hcore⟩ := hon.boots hd
  have hboot : s.toCore.bootSector 0 = (Fat12.State.initial d.sectors).toCore.bootSector 0 := by
    unfold Fat12.Core.bootSector
    rw [hdisk]
    rfl
  obtain ⟨hinit, rfl⟩ := kernelMain_mounts hb hs hrun (hboot ▸ hmount)
  obtain ⟨hm, hmounted, -⟩ := Fat12.init_ok hs hinit
  have hc := hcore.symm.trans hmounted
  have hfs : k.1.fs = _ := congrArg Fat12.Core.fs hc
  rw [hc] at hwf hcopies hnamed ⊢
  obtain ⟨F, hF, htree, hcwd⟩ := Fat12.represents_mount hm (hfs ▸ hres) (hfs ▸ hfats) hwf hcopies hnamed
  rw [← hc] at hF
  generalize Fat12.Core.bootSector _ 0 = boot at hm hF
  refine ⟨F, htree, hcwd, shows_start b, fun es m' k' hist => ?_⟩
  have hstart : Appears boot (some (bootMachine b .ok [slash]), k) (some (.start b), F) :=
    ⟨.some (shows_start b), .inl hF, hk⟩
  obtain ⟨⟨z', F'⟩, hist', happears⟩ := hist.simulate (fun c e c' u => Appears.step hf hm c e c' u) hstart
  obtain ⟨hsame, hdriver⟩ := happears.2.1.tree hm
  exact ⟨⟨z', F', hist', happears.1, hsame, hdriver⟩, happears.goes hf hm⟩

/-- A start on a drive with an empty volume, another start, and `mkdir d` typed. -/
theorem shell_over_drive_prompt : ∃ b m k F b' c, PowersOn b Fat12.promptDrive m k ∧ F.cwd = [] ∧
    History (ComputerStep 4096) (some m, k) (.restart b' :: mkdirKeys.map (.key quietReport)) c ∧
    ∃ z' F', History ShellStep (some (.start b), F) (.restart b' :: mkdirKeys.map (.key quietReport)) (z', F') ∧
      Option.Rel Machine.Shows c.1 z' ∧ F'.tree = ((coreOf c.2).mount 0).volume.tree := by
  have hm := Fat12.blank_mounted
  have hfatal : ¬ BootReport.Fatal ⟨quietReport, 0⟩ := fun h => nomatch h.1
  obtain ⟨read, m, k, hon, hk⟩ := PowersOn.exists (b := ⟨quietReport, 0⟩) Fat12.prompt_punctual fun _ =>
    Fat12.blank_mountable
  replace hk : coreOf k = Fat12.blankMounted.toCore := hk hfatal
  have hfs : k.1.fs = _ := congrArg Fat12.Core.fs hk
  have hwell : ¬ (BootReport.well ⟨quietReport, 0⟩ read).Fatal := hfatal
  obtain ⟨F, -, hcwd, -, hall⟩ :=
    shell_over_drive (Nat.le_refl 4096) Fat12.prompt_punctual Fat12.blank_mountable hwell hon
      (by rw [hfs]; exact hm.reserved) (by rw [hfs]; exact hm.fats) (by rw [hk]; exact Fat12.blank_wellFormed.1.wf)
      (by rw [hk]; exact Fat12.blank_synced.copiesAgree) (by rw [hk]; exact Fat12.blank_volume.named)
  obtain ⟨read', c₁, hstep⟩ := (hall [] _ _ (.nil _)).2.2 m ⟨quietReport, 0⟩ rfl
  obtain ⟨c, hist⟩ :=
    history_of_keys (fun es c hist => (hall es c.1 c.2 hist).2.1) (.snoc (.nil _) hstep) quietReport mkdirKeys
  obtain ⟨⟨z', F', hist', hrel, htree, -⟩, -⟩ := hall _ c.1 c.2 hist
  exact ⟨_, m, k, F, _, c, hon, hcwd, hist, z', F', hist', hrel, htree⟩

end AltoniumOS.Kernel

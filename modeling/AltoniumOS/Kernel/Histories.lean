/-
The kernel on its driver is the shell on a tree of files: every history of keys and restarts, on a disk that
does not fail, is one of the shell, with the same screen, the same editor and the tree that the disk holds.
-/
import AltoniumOS.Kernel.Session
import AltoniumOS.System.Files

namespace AltoniumOS.Kernel

open AltoniumOS.Lib AltoniumOS.Console
open AltoniumOS.Fat12 (Call Files Reliable Represents Mountable InStep slash)

/-- The file system's driver answers. -/
def Driver (fuel : Nat) (s : Fat12.State) (q : Call) (r : q.Answer) (s' : Fat12.State) : Prop :=
  q.exec fuel s = .ok r s'

/-- A tree of files answers. -/
def Tree (F : Files) (q : Call) (r : q.Answer) (F' : Files) : Prop := F.Allows q r F'

/-! ## The two systems -/

/-- A key typed, or the machine switched off and on. -/
inductive Event where
  | key (r : Report) (raw : UInt8)
  | restart (b : BootReport)

/-- The kernel takes a key and makes its calls to a driver that answers so, or another kernel starts on the disk
as it was left. -/
inductive KernelStep (driver : Fat12.State → (q : Call) → q.Answer → Fat12.State → Prop) :
    Option Machine × Fat12.State → Event → Option Machine × Fat12.State → Prop
  | key {m m' : Option Machine} {s s' : Fat12.State} {r : Report} {raw : UInt8} :
      (kernelTurn (r, raw) m).Runs driver s m' s' → KernelStep driver (m, s) (.key r raw) (m', s')
  | restart {m m' : Machine} {s t s' : Fat12.State} {b : BootReport} : t.sectors = s.sectors → Reliable t →
      kernelMain b t = .ok m' s' → KernelStep driver (some m, s) (.restart b) (some m', s')

/-- The shell as the boot leaves it. -/
def Session.start (b : BootReport) : Session :=
  let d := (welcome b ++ diskOutputs b ++ mountOutputs .ok [slash] ++
    [printText "Type 'help' for available commands\n\n"]).foldl (fun d o => o.exec d) firstDisplay
  { desk := { fatReady := true, fsIoBuffer := fun _ => 0, editor := Nano.State.unused, halted := false }
    display := drawLine d.cursorX d.cursorY [] d
    startX := d.cursorX
    startY := d.cursorY
    line := .empty
    keyboard := ⟨false, false⟩ }

/-- The shell where the boot stops. -/
def Session.stopped (b : BootReport) : Session where
  desk := { fatReady := false, fsIoBuffer := fun _ => 0, editor := Nano.State.unused, halted := true }
  display := (welcome b ++ fatalOutputs b).foldl (fun d o => o.exec d) firstDisplay
  startX := 0
  startY := 0
  line := .empty
  keyboard := ⟨false, false⟩

/-- The shell takes a key, or starts again at the root of the same tree, or stops at its start. -/
inductive ShellStep : Option Session × Files → Event → Option Session × Files → Prop
  | key {z z' : Option Session} {F F' : Files} {r : Report} {raw : UInt8} :
      (sessionTurn (r, raw) z).Runs Tree F z' F' → ShellStep (z, F) (.key r raw) (z', F')
  | restart {z : Session} {F F' : Files} {b : BootReport} : ¬ b.Fatal → F'.tree = F.tree → F'.cwd = [] →
      ShellStep (some z, F) (.restart b) (some (.start b), F')
  | stop {z : Session} {F : Files} {b : BootReport} : b.Fatal →
    ShellStep (some z, F) (.restart b) (some (.stopped b), F)

/-! ## The boot -/

section

variable {fuel : Nat} {b : BootReport} {s s' t : Fat12.State} {m : Machine} {boot : Buf} {F : Files}

theorem shows_start (b : BootReport) : (bootMachine b .ok [slash]).Shows (.start b) := shows_newPrompt ..

theorem shows_stopped (b : BootReport) : (fatalMachine b).Shows (.stopped b) :=
  ⟨rfl, rfl, rfl, rfl, rfl, rfl, fun _ => rfl, rfl⟩

/-- A machine that stopped takes no more keys. -/
theorem kernelTurn_fatal (key : Report × UInt8) (b : BootReport) :
    kernelTurn key (some (fatalMachine b)) = pure (some (fatalMachine b)) := rfl

theorem kernelMain_fatal (hb : b.Fatal) (t : Fat12.State) : kernelMain b t = .ok (fatalMachine b) t := by
  unfold kernelMain
  rw [if_pos hb]
  rfl

theorem kernelMain_ok (hb : ¬ b.Fatal) (h : Fat12.init 0 t = .ok .ok s') :
    kernelMain b t = .ok (bootMachine b .ok s'.cwd) s' := by
  unfold kernelMain
  rw [if_neg hb, bind_ok h]
  rfl

/-- A boot that comes to the mount mounts what the driver would. -/
theorem kernelMain_mounts (hb : ¬ b.Fatal) (ht : Reliable t) (h : kernelMain b t = .ok m s')
    (hm : Mountable (t.toCore.bootSector 0) 0) : Fat12.init 0 t = .ok .ok s' ∧ m = bootMachine b .ok [slash] := by
  unfold kernelMain at h
  rw [if_neg hb] at h
  obtain ⟨e, s₁, hinit, h⟩ := bind_eq_ok h
  obtain ⟨rfl, hcore, -⟩ := (Fat12.gives_mount hm).eq_of_ok rfl ht hinit
  obtain ⟨cwd, s₂, hcwd, h⟩ := bind_eq_ok h
  cases hcwd
  cases h
  refine ⟨hinit, ?_⟩
  rw [hcore]
  rfl

/-! ## The tree of a machine -/

/-- The driver holds the tree, or the machine stopped at its start, with the tree on the disk. -/
def Bears (boot : Buf) (m : Option Machine) (c : Fat12.Core) (F : Files) : Prop :=
  Represents boot 0 c F ∨ (∃ b, m = some (fatalMachine b)) ∧ ∃ c₀ : Fat12.Core, Represents boot 0 c₀ F ∧
    c₀.sectors = c.sectors

section

variable {c c' : Fat12.Core} {m' : Option Machine}

/-- The disk as it was left is mounted with the same tree, at its root. -/
theorem Bears.mount {m : Option Machine} (h : Bears boot m c F) (hm : Mountable boot 0) {t : Fat12.Core}
    (ht : t.sectors = c.sectors) :
    Mountable (t.bootSector 0) 0 ∧ ∃ F', Represents boot 0 (t.mount 0) F' ∧ F'.tree = F.tree ∧ F'.cwd = [] := by
  rcases h with h | ⟨-, c₀, h, hdisk⟩
  · exact h.mount hm ht
  · exact h.mount hm (ht.trans hdisk.symm)

/-- It is the tree that is found on the disk, and that the driver has, unless the machine stopped. -/
theorem Bears.tree {m : Option Machine} (h : Bears boot m c F) (hm : Mountable boot 0) :
    F.tree = (c.mount 0).volume.tree ∧ ((∀ b, m ≠ some (fatalMachine b)) → F.tree = c.volume.tree) := by
  obtain ⟨-, F', hF', htree, -⟩ := h.mount hm rfl
  refine ⟨htree.symm.trans hF'.tree.symm, fun hgoes => ?_⟩
  rcases h with h | ⟨⟨b, hb⟩, -⟩
  · exact h.tree.symm
  · exact absurd hb (hgoes b)

/-- A machine that has its file system goes on. -/
theorem Bears.driver {m : Machine} (h : Bears boot (some m) c F) (hready : m.desk.fatReady = true) :
    Represents boot 0 c F := by
  rcases h with h | ⟨⟨b, hb⟩, -⟩
  · exact h
  · cases hb
    cases hready

/-- What a start on a disk that does not fail comes to. -/
theorem Bears.boots {m : Option Machine} {m' : Machine} (h : Bears boot m c F) (hm : Mountable boot 0)
    (hdisk : t.sectors = c.sectors) (ht : Reliable t) (hrun : kernelMain b t = .ok m' s') :
    Reliable s' ∧ (b.Fatal ∧ m' = fatalMachine b ∧ Bears boot (some m') s'.toCore F ∨
      ¬ b.Fatal ∧ m' = bootMachine b .ok [slash] ∧ ∃ F', Represents boot 0 s'.toCore F' ∧ F'.tree = F.tree ∧
      F'.cwd = []) := by
  obtain ⟨hmount, F', hF', htree, hcwd⟩ := h.mount hm hdisk
  by_cases hb : b.Fatal
  · rw [kernelMain_fatal hb] at hrun
    cases hrun
    refine ⟨ht, .inl ⟨hb, rfl, .inr ⟨⟨b, rfl⟩, ?_⟩⟩⟩
    rcases h with h | ⟨-, c₀, h, hsame⟩
    · exact ⟨c, h, hdisk.symm⟩
    · exact ⟨c₀, h, hsame.trans hdisk.symm⟩
  · obtain ⟨hinit, rfl⟩ := kernelMain_mounts hb ht hrun hmount
    obtain ⟨-, hcore, hs'⟩ := Fat12.init_ok ht hinit
    exact ⟨hs', .inr ⟨hb, rfl, F', hcore ▸ hF', htree, hcwd⟩⟩

/-- A start gives the kernel and the tree of the shell's. -/
theorem Bears.restart {m : Option Machine} {m' : Machine} {z : Session} (h : Bears boot m c F)
    (hm : Mountable boot 0) (hdisk : t.sectors = c.sectors) (ht : Reliable t) (hrun : kernelMain b t = .ok m' s') :
    Reliable s' ∧
      ∃ z' F', ShellStep (some z, F) (.restart b) (some z', F') ∧ m'.Shows z' ∧
      Bears boot (some m') s'.toCore F' := by
  obtain ⟨hs', ⟨hb, rfl, hF⟩ | ⟨hb, rfl, F', hF', htree, hcwd⟩⟩ := h.boots hm hdisk ht hrun
  · exact ⟨hs', _, F, .stop hb, shows_stopped b, hF⟩
  · exact ⟨hs', _, F', .restart hb htree hcwd, shows_start b, .inl hF'⟩

/-- And there is one. -/
theorem Bears.restarts {m : Option Machine} (h : Bears boot m c F) (hm : Mountable boot 0) (b : BootReport) :
    ∃ t m' s', t.sectors = c.sectors ∧ Reliable t ∧ kernelMain b t = .ok m' s' := by
  by_cases hb : b.Fatal
  · exact ⟨.initial c.sectors, _, _, rfl, fun _ => rfl, kernelMain_fatal hb _⟩
  · obtain ⟨s', hinit, -⟩ := Fat12.gives_mount (h.mount hm (t := (Fat12.State.initial c.sectors).toCore) rfl).1
      (Fat12.State.initial c.sectors) rfl fun _ => rfl
    exact ⟨.initial c.sectors, _, s', rfl, fun _ => rfl, kernelMain_ok hb hinit⟩

end

/-! ## The kernel is the shell -/

/-- The driver that holds a tree answers as the tree does. -/
theorem tree_answers (hf : 4096 ≤ fuel) (s : Fat12.State) (q : Call) (r : q.Answer) (s' : Fat12.State) (F : Files)
    (h : Represents boot 0 s.toCore F ∧ Reliable s) (hq : Driver fuel s q r s') :
    ∃ F', Tree F q r F' ∧ Represents boot 0 s'.toCore F' ∧ Reliable s' := by
  obtain ⟨r', c', F', hg, hallows, hF⟩ := h.1.call hf q
  obtain ⟨rfl, rfl, hs'⟩ := hg.eq_of_ok rfl h.2 hq
  exact ⟨F', hallows, hF, hs'⟩

/-- And it does answer. -/
theorem driver_answers (hf : 4096 ≤ fuel) (s : Fat12.State) (q : Call)
    (h : ∃ F, Represents boot 0 s.toCore F ∧ Reliable s) :
    ∃ r s', Driver fuel s q r s' ∧ ∃ F, Represents boot 0 s'.toCore F ∧ Reliable s' := by
  obtain ⟨F, hF, hs⟩ := h
  obtain ⟨r, c', F', hg, -, hF'⟩ := hF.call hf q
  obtain ⟨s', hrun, rfl, hs'⟩ := hg s rfl hs
  exact ⟨r, s', hrun, F', hF', hs'⟩

/-- A kernel and a disk, as the shell and the tree they are. -/
def Stands (boot : Buf) (k : Option Machine × Fat12.State) (u : Option Session × Files) : Prop :=
  Option.Rel Machine.Shows k.1 u.1 ∧ Bears boot k.1 k.2.toCore u.2 ∧ Reliable k.2

/-- A machine that stopped is a shell that stopped. -/
theorem shell_stopped {z : Option Session} (key : Report × UInt8)
    (hrel : Option.Rel Machine.Shows (some (fatalMachine b)) z) : ShellStep (z, F) (.key key.1 key.2) (z, F) := by
  cases hrel with
  | some h =>
    refine .key ?_
    show (Session.turn key.1 key.2 _).Runs Tree F _ F
    rw [Session.turn_halted (h.desk ▸ rfl)]
    exact .done _ _

/-- A step of the kernel is a step of the shell. -/
theorem Stands.step (hf : 4096 ≤ fuel) (hm : Mountable boot 0) (k : Option Machine × Fat12.State) (e : Event)
    (k' : Option Machine × Fat12.State) (u : Option Session × Files) (h : Stands boot k u)
    (hstep : KernelStep (Driver fuel) k e k') : ∃ u', ShellStep u e u' ∧ Stands boot k' u' := by
  obtain ⟨z, F⟩ := u
  obtain ⟨hrel, hF, hs⟩ := h
  cases hstep with
  | @key m _ s _ r raw hrun =>
    rcases hF with hF | ⟨⟨b, hb⟩, hdisk⟩
    · obtain ⟨F', htree, hF', hs'⟩ := hrun.simulate (tree_answers hf) ⟨hF, hs⟩
      obtain ⟨z', hturn, hrel'⟩ := (alike_kernelTurn _ _ _ hrel).runs htree
      exact ⟨(z', F'), .key hturn, hrel', .inl hF', hs'⟩
    · obtain rfl : m = some (fatalMachine b) := hb
      rw [kernelTurn_fatal] at hrun
      obtain ⟨rfl, rfl⟩ := Client.runs_pure.1 hrun
      exact ⟨(z, F), shell_stopped (r, raw) hrel, hrel, .inr ⟨⟨b, rfl⟩, hdisk⟩, hs⟩
  | restart hdisk ht hrun =>
    cases hrel with
    | some hshows =>
      obtain ⟨hs', z', F', hstep, hshows', hF'⟩ := Bears.restart hF hm hdisk ht hrun
      exact ⟨(some z', F'), hstep, .some hshows', hF', hs'⟩

/-- And there is one for every key, and for every start of a machine. -/
theorem Stands.goes (hf : 4096 ≤ fuel) (hm : Mountable boot 0) {m : Option Machine} {u : Option Session × Files}
    (h : Stands boot (m, s) u) :
    (∀ r raw, ∃ k, KernelStep (Driver fuel) (m, s) (.key r raw) k) ∧
      ∀ m₀ b, m = some m₀ → ∃ k, KernelStep (Driver fuel) (m, s) (.restart b) k := by
  obtain ⟨-, hF, hs⟩ := h
  constructor
  · intro r raw
    rcases hF with hF | ⟨⟨b, rfl⟩, -⟩
    · have hanswers : ∀ t q, (∃ F, Represents boot 0 t.toCore F ∧ Reliable t) → _ := driver_answers hf
      obtain ⟨m', s', hrun, -⟩ := Client.Runs.exists hanswers (kernelTurn (r, raw) m) ⟨_, hF, hs⟩
      exact ⟨(m', s'), .key hrun⟩
    · refine ⟨(some (fatalMachine b), s), .key ?_⟩
      rw [kernelTurn_fatal]
      exact .done _ _
  · rintro m₀ b rfl
    obtain ⟨t, m', s', hdisk, ht, hrun⟩ := hF.restarts hm b
    exact ⟨_, .restart hdisk ht hrun⟩

end

/-- From a boot that mounts its disk on, the kernel is the shell on a tree of files: every history of keys and
restarts is one of the shell, with the same screen and the tree that is found on the disk, and the driver has
that tree unless the start stopped; and in whatever it comes to, every key is answered, and every machine starts
again. -/
theorem shell_of_history {fuel : Nat} {b : BootReport} {s₀ s : Fat12.State} {m : Machine} (hf : 4096 ≤ fuel)
    (hb : ¬ b.Fatal) (hs₀ : Reliable s₀) (hmount : Mountable (s₀.toCore.bootSector 0) 0)
    (hboot : kernelMain b s₀ = .ok m s) (hres : 1 ≤ s.fs.reservedSectors) (hfats : 1 ≤ s.fs.numFats)
    (hwf : s.toCore.volume.WF ∅) (hcopies : s.toCore.CopiesAgree) (hnamed : s.toCore.volume.Named) :
    ∃ F : Files, F.tree = s.toCore.volume.tree ∧ F.cwd = [] ∧ m.Shows (.start b) ∧
      ∀ es m' s', History (KernelStep (Driver fuel)) (some m, s) es (m', s') →
        (∃ z' F', History ShellStep (some (.start b), F) es (z', F') ∧ Option.Rel Machine.Shows m' z' ∧
          F'.tree = (s'.toCore.mount 0).volume.tree ∧
          ((∀ b', m' ≠ some (fatalMachine b')) → F'.tree = s'.toCore.volume.tree)) ∧
        (∀ r raw, ∃ k, KernelStep (Driver fuel) (m', s') (.key r raw) k) ∧
        ∀ m₁ b', m' = some m₁ → ∃ k, KernelStep (Driver fuel) (m', s') (.restart b') k := by
  obtain ⟨hinit, rfl⟩ := kernelMain_mounts hb hs₀ hboot hmount
  obtain ⟨hm, hcore, hs⟩ := Fat12.init_ok hs₀ hinit
  rw [hcore] at hres hfats hwf hcopies hnamed
  obtain ⟨F, hF, htree, hcwd⟩ := Fat12.represents_mount hm hres hfats hwf hcopies hnamed
  rw [← hcore] at hF htree
  refine ⟨F, htree, hcwd, shows_start b, fun es m' s' hist => ?_⟩
  have hstart : Stands (s₀.toCore.bootSector 0) (some (bootMachine b .ok [slash]), s) (some (.start b), F) :=
    ⟨.some (shows_start b), .inl hF, hs⟩
  obtain ⟨⟨z', F'⟩, hist', hstands⟩ := hist.simulate (fun k e k' u => Stands.step hf hm k e k' u) hstart
  obtain ⟨hsame, hdriver⟩ := hstands.2.1.tree hm
  exact ⟨⟨z', F', hist', hstands.1, hsame, hdriver⟩, hstands.goes hf hm⟩

/-- Where every key is answered, any keys are. -/
theorem history_of_keys {σ : Type} {step : σ → Event → σ → Prop} {k₀ : σ}
    (answered : ∀ es k, History step k₀ es k → ∀ r raw, ∃ k', step k (.key r raw) k') {es : List Event} {k : σ}
    (hist : History step k₀ es k) (r : Report) (keys : List UInt8) :
    ∃ k', History step k₀ (es ++ keys.map (.key r)) k' := by
  induction keys using List.reverseRecOn with
  | nil => exact ⟨k, by simpa using hist⟩
  | append_singleton keys raw ih =>
    obtain ⟨k₁, hist₁⟩ := ih
    obtain ⟨k₂, hstep⟩ := answered _ _ hist₁ r raw
    refine ⟨k₂, ?_⟩
    rw [List.map_append, ← List.append_assoc]
    exact .snoc hist₁ hstep

/-- The keys of `mkdir d` and Enter. -/
def mkdirKeys : List UInt8 := [0x32, 0x25, 0x20, 0x17, 0x13, 0x39, 0x20, 0x1C]

/-- A boot on an empty volume, another start, and `mkdir d` typed. -/
theorem shell_of_history_blank :
    ∃ m s F k, kernelMain ⟨quietReport, 0⟩ Fat12.blankState = .ok m s ∧ F.cwd = [] ∧
      History (KernelStep (Driver 4096)) (some m, s)
        (.restart ⟨quietReport, 0⟩ :: mkdirKeys.map (.key quietReport)) k ∧
      ∃ z' F', History ShellStep (some (.start ⟨quietReport, 0⟩), F)
        (.restart ⟨quietReport, 0⟩ :: mkdirKeys.map (.key quietReport)) (z', F') ∧ Option.Rel Machine.Shows k.1 z' ∧
        F'.tree = (k.2.toCore.mount 0).volume.tree := by
  obtain ⟨s, hs, hcore, -⟩ := Fat12.init_blank
  have hm := Fat12.blank_mounted
  have hboots : ¬ BootReport.Fatal ⟨quietReport, 0⟩ := fun h => nomatch h.1
  have hboot := kernelMain_ok hboots hs
  obtain ⟨F, -, hcwd, -, hall⟩ := shell_of_history (Nat.le_refl 4096) hboots Fat12.blank_reliable
    (Fat12.init_ok Fat12.blank_reliable hs).1 hboot
    (by rw [hcore]; exact hm.reserved) (by rw [hcore]; exact hm.fats)
    (by rw [hcore]; exact Fat12.blank_wellFormed.1.wf) (by rw [hcore]; exact Fat12.blank_synced.copiesAgree)
    (by rw [hcore]; exact Fat12.blank_volume.named)
  obtain ⟨k₁, hstep⟩ := (hall [] _ _ (.nil _)).2.2 _ ⟨quietReport, 0⟩ rfl
  obtain ⟨k, hist⟩ :=
    history_of_keys (fun es k hist => (hall es k.1 k.2 hist).2.1) (.snoc (.nil _) hstep) quietReport mkdirKeys
  obtain ⟨⟨z', F', hist', hrel, htree, -⟩, -⟩ := hall _ k.1 k.2 hist
  exact ⟨_, s, F, k, hboot, hcwd, hist, z', F', hist', hrel, htree⟩

end AltoniumOS.Kernel

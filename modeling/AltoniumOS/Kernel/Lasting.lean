/-
What lasts from one line of the prompt to a later one, whatever is typed in between, in the editor and at the
prompt, and however often the machine is switched off and on: a file or its absence until its name is set, and
every directory.
-/
import AltoniumOS.Kernel.Meaning

namespace AltoniumOS.Kernel

open AltoniumOS.Lib AltoniumOS.Console
open AltoniumOS.Fat12 (Code Call Files FileName Represents Reliable Mountable isAbsolute slash)
open AltoniumOS.Nano (ioBufferSize)

/-- The driver answers calls that do not set the name `n` of the directory `p`. -/
def Sparing (fuel : Nat) (boot : Buf) (p : List FileName) (n : FileName) (s : Fat12.State) (q : Call) (r : q.Answer)
    (s' : Fat12.State) : Prop :=
  Driver fuel s q r s' ∧ ∀ x, q = .change x → ∀ F, Represents boot 0 s.toCore F → F.target x.path ≠ .ok (p, n)

section

variable {fuel : Nat} {boot : Buf} {p q : List FileName} {n : FileName} {m : Option Machine} {m' : Machine}
  {s s' : Fat12.State} {es : List Event} {driver : Fat12.State → (q : Call) → q.Answer → Fat12.State → Prop}

/-- What the calls of the kernel keep of the tree, its histories keep. -/
theorem kept_of_history {I : Files → Prop} (hf : 4096 ≤ fuel) (hm : Mountable boot 0)
    (hdriver : ∀ s q r s', driver s q r s' → Driver fuel s q r s')
    (hcall : ∀ s q r s' F F', driver s q r s' → Represents boot 0 s.toCore F → F.Allows q r F' → I F → I F')
    (htree : ∀ F F', F'.tree = F.tree → I F → I F') (hist : History (KernelStep driver) (m, s) es (some m', s'))
    (hready : m'.desk.fatReady = true) {F : Files} (hF : Represents boot 0 s.toCore F) (hs : Reliable s)
    (hI : I F) : ∃ F', Represents boot 0 s'.toCore F' ∧ Reliable s' ∧ I F' := by
  have hkeeps : ∀ (a : Option Machine × Fat12.State) e b, (∃ F, Bears boot a.1 a.2.toCore F ∧ Reliable a.2 ∧ I F) →
      KernelStep driver a e b → ∃ F, Bears boot b.1 b.2.toCore F ∧ Reliable b.2 ∧ I F := by
    rintro a e b ⟨F, hF, hs, hI⟩ hstep
    cases hstep with
    | @key m _ s _ r raw hrun =>
      rcases hF with hF | ⟨⟨b, hb⟩, hleft⟩
      swap
      · obtain rfl : m = some (fatalMachine b) := hb
        rw [kernelTurn_fatal] at hrun
        obtain ⟨rfl, rfl⟩ := Client.runs_pure.1 hrun
        exact ⟨F, .inr ⟨⟨b, rfl⟩, hleft⟩, hs, hI⟩
      suffices h : ∃ F, Represents boot 0 _ F ∧ Reliable _ ∧ I F by
        obtain ⟨F', hF', hs', hI'⟩ := h
        exact ⟨F', .inl hF', hs', hI'⟩
      refine Client.Runs.keeps (I := fun t => ∃ F, Represents boot 0 t.toCore F ∧ Reliable t ∧ I F)
        (fun t q r t' => ?_) hrun ⟨F, hF, hs, hI⟩
      rintro ⟨F₁, hF₁, ht, hI₁⟩ hq
      obtain ⟨F₂, hallows, hF₂, ht'⟩ := tree_answers hf t q r t' F₁ ⟨hF₁, ht⟩ (hdriver _ _ _ _ hq)
      exact ⟨F₂, hF₂, ht', hcall _ _ _ _ _ _ hq hF₁ hallows hI₁⟩
    | restart hdisk ht hrun =>
      obtain ⟨hs', ⟨-, -, hF'⟩ | ⟨-, -, F', hF', hsame, -⟩⟩ := Bears.boots hF hm hdisk ht hrun
      · exact ⟨F, hF', hs', hI⟩
      · exact ⟨F', .inl hF', hs', htree F F' hsame hI⟩
  obtain ⟨F', hF', hs', hI'⟩ := hist.keeps hkeeps ⟨F, .inl hF, hs, hI⟩
  exact ⟨F', hF'.driver hready, hs', hI'⟩

/-- A name that is spared keeps what it has. -/
theorem node_of_history (hf : 4096 ≤ fuel) (hm : Mountable boot 0)
    (hist : History (KernelStep (Sparing fuel boot p n)) (m, s) es (some m', s')) (hready : m'.desk.fatReady = true)
    {F : Files} (hF : Represents boot 0 s.toCore F) (hs : Reliable s) :
    ∃ F', Represents boot 0 s'.toCore F' ∧ Reliable s' ∧ F'.tree.node (p ++ [n]) = F.tree.node (p ++ [n]) := by
  refine kept_of_history hf hm (fun _ _ _ _ h => h.1) (fun t q r t' F₁ F₂ hq hF₁ hallows hI => ?_)
    (fun F₁ F₂ hsame hI => ?_) hist hready hF hs rfl
  · rcases Files.allows_tree hallows with hsame | ⟨x, e, hx, hchanges⟩
    · rw [hsame, hI]
    · rw [Files.changes_node hchanges (hq.2 x hx F₁ hF₁), hI]
  · rw [hsame, hI]

/-- Every directory stays. -/
theorem dirs_of_history (hf : 4096 ≤ fuel) (hm : Mountable boot 0)
    (hist : History (KernelStep (Driver fuel)) (m, s) es (some m', s')) (hready : m'.desk.fatReady = true)
    {F : Files} (hF : Represents boot 0 s.toCore F) (hs : Reliable s) :
    ∃ F', Represents boot 0 s'.toCore F' ∧ Reliable s' ∧ ∀ q, F.tree.node q = some .dir →
      F'.tree.node q = some .dir := by
  refine kept_of_history hf hm (fun _ _ _ _ h => h) (fun t q r t' F₁ F₂ hq hF₁ hallows hI p hp => ?_)
    (fun F₁ F₂ hsame hI p hp => ?_) hist hready hF hs (fun _ hp => hp)
  · rcases Files.allows_tree hallows with hsame | ⟨x, e, hx, hchanges⟩
    · rw [hsame]
      exact hI p hp
    · exact Files.changes_dir hchanges (hI p hp)
  · rw [hsame]
    exact hI p hp

/-! ## Commands that were done -/

theorem read_write {line path text : List UInt8} (h : FileCommand.read line = some (.ok (.write path text))) :
    text = fromWord (afterWord (afterWord line)) := by
  unfold FileCommand.read takesRest takesWord at h
  dsimp only at h
  repeat' split at h
  all_goals cases h
  rfl

variable {desk desk₁ desk₂ : Desk} {r r₂ : Report} {current current₂ : Fin themeCount}
  {line line₂ path path₂ text : List UInt8} {out : List Output} {res : Option (Desk × List Output)}
  {s₁ s₂ s₃ : Fat12.State} {F : Files}

/-- A line that was run on a driver that holds a tree. -/
theorem follows_of_runs (hf : 4096 ≤ fuel) (hF : Represents boot 0 s.toCore F) (hs : Reliable s)
    (h : PromptLine line) (hready : desk.fatReady = true) {spelled : Except (List Output) FileCommand}
    (hread : FileCommand.read line = some spelled)
    (hrun : (executeCommand r current desk line).Runs (Driver fuel) s res s') :
    ∃ F' buffer out, Represents boot 0 s'.toCore F' ∧ Reliable s' ∧
      res = some ({ desk with fsIoBuffer := buffer }, out) ∧ Follows F spelled out F' := by
  obtain ⟨F', hdoes, hF', hs'⟩ := (executeCommand_means hf hF hs h hready r current).2 res s' hrun
  unfold Does at hdoes
  rw [hread] at hdoes
  obtain ⟨buffer, out, hres, hfollows⟩ := hdoes
  exact ⟨F', buffer, out, hF', hs', hres, hfollows⟩

end

/-! ## On an empty volume -/

/-- The trees of an empty volume, and of one with a file written, deleted again, or a directory made. -/
theorem blank_trees :
    ∃ F F₁ F₂ F₃, Represents (Fat12.blankState.toCore.bootSector 0) 0 Fat12.blankMounted.toCore F ∧
      Represents (Fat12.blankState.toCore.bootSector 0) 0 blankTyped.toCore F₁ ∧ Reliable blankTyped ∧
      Represents (Fat12.blankState.toCore.bootSector 0) 0 blankCleared.toCore F₂ ∧ Reliable blankCleared ∧
      Represents (Fat12.blankState.toCore.bootSector 0) 0 blankEntered.toCore F₃ ∧ Reliable blankEntered := by
  obtain ⟨F, hF⟩ := blank_represents
  have hs : Reliable Fat12.blankMounted := Fat12.blank_reliable
  obtain ⟨F₁, -, hF₁, hs₁⟩ := tree_answers (Nat.le_refl 4096) _ _ _ _ F ⟨hF, hs⟩ drives_write
  obtain ⟨F₂, -, hF₂, hs₂⟩ := tree_answers (Nat.le_refl 4096) _ _ _ _ F₁ ⟨hF₁, hs₁⟩ drives_rm
  obtain ⟨F₃, -, hF₃, hs₃⟩ := tree_answers (Nat.le_refl 4096) _ _ _ _ F ⟨hF, hs⟩ drives_mkdir
  exact ⟨F, F₁, F₂, F₃, hF, hF₁, hs₁, hF₂, hs₂, hF₃, hs₃⟩

/-- A letter typed at the prompt, and the machine started again. -/
def keyAndRestart : List Event := [.key quietReport 0x23, .restart ⟨quietReport, 0⟩]

def restarted : Machine := bootMachine ⟨quietReport, 0⟩ .ok [slash]

theorem history_keyAndRestart {boot : Buf} {driver : Fat12.State → (q : Call) → q.Answer → Fat12.State → Prop}
    (hm : Mountable boot 0) {s : Fat12.State} {F : Files} (hF : Represents boot 0 s.toCore F) {m₁ m : Machine}
    (hturn : kernelTurn (quietReport, 0x23) (some m₁) = pure (some m)) :
    ∃ s', History (KernelStep driver) (some m₁, s) keyAndRestart (some restarted, s') := by
  have hbears : ∀ m, Bears boot m s.toCore F := fun _ => .inl hF
  obtain ⟨t, m', s', hdisk, ht, hrun⟩ := (hbears none).restarts hm ⟨quietReport, 0⟩
  obtain ⟨-, ⟨hfatal, -⟩ | ⟨-, rfl, -⟩⟩ := (hbears none).boots hm hdisk ht hrun
  · cases hfatal.1
  have hkey : KernelStep driver (some m₁, s) (.key quietReport 0x23) (some m, s) := by
    refine .key ?_
    rw [hturn]
    exact .done _ _
  exact ⟨s', .snoc (.snoc (.nil _) hkey) (.restart hdisk ht hrun)⟩

/-! ## Files and directories -/

section

variable {fuel : Nat} {boot : Buf} {p q : List FileName} {n : FileName} {m₀ m₁ m₂ : Machine}
  {s s₁ s₂ s₃ : Fat12.State} {es : List Event} {r r₂ : Report} {current current₂ : Fin themeCount}
  {line line₂ path path₂ text : List UInt8} {res : Option (Desk × List Output)} {F : Files}

/-- What `write` says it wrote to a file is what `cat` prints, whatever happens in between that does not set the
name of the file. -/
theorem cat_of_write (hf : 4096 ≤ fuel) (hm : Mountable boot 0) (hF : Represents boot 0 s.toCore F)
    (hs : Reliable s) (h : PromptLine line) (hready : m₀.desk.fatReady = true)
    (hread : FileCommand.read line = some (.ok (.write path text))) (hname : F.target path = .ok (p, n))
    (hrun : (executeCommand r current m₀.desk line).Runs (Driver fuel) s
      (some (m₁.desk, [printText "Wrote "] ++ printUnsigned text.length ++ [printText " bytes\n"])) s₁)
    (hist : History (KernelStep (Sparing fuel boot p n)) (some m₁, s₁) es (some m₂, s₂)) (h₂ : PromptLine line₂)
    (hready₂ : m₂.desk.fatReady = true) (hread₂ : FileCommand.read line₂ = some (.ok (.print path₂)))
    (hname₂ : ∀ F₂, Represents boot 0 s₂.toCore F₂ → F₂.target path₂ = .ok (p, n))
    (hrun₂ : (executeCommand r₂ current₂ m₂.desk line₂).Runs (Driver fuel) s₂ res s₃) :
    ∃ buffer, res = some ({ m₂.desk with fsIoBuffer := buffer }, printsContent text) := by
  obtain ⟨F₁, buffer, out, hF₁, hs₁, hres, data, hdata, hprints⟩ := follows_of_runs hf hF hs h hready hread hrun
  obtain ⟨-, rfl⟩ := Prod.mk.inj (Option.some.inj hres)
  have hchanges := hprints.changes (ne_printFailed (by decide) _)
  obtain ⟨p', n', ht, -, -, hnodes⟩ := Files.written hchanges
  obtain ⟨rfl, rfl⟩ := Prod.mk.inj (Except.ok.inj (hname.symm.trans ht))
  obtain ⟨F₂, hF₂, hs₂, hkept⟩ := node_of_history hf hm hist hready₂ hF₁ hs₁
  obtain ⟨F₃, buffer₂, out₂, -, -, rfl, -, rfl⟩ := follows_of_runs hf hF₂ hs₂ h₂ hready₂ hread₂ hrun₂
  have hlen : text.length ≤ ioBufferSize - 1 := by
    have hle := (List.dropWhile_sublist (· == space) (l := afterWord (afterWord line))).length_le
    rw [read_write hread]
    exact (hle.trans h.after.after.length).trans (by decide)
  rw [Files.contents_file (hname₂ F₂ hF₂) (hkept.trans (by rw [hnodes, if_pos rfl, hdata])) hlen]
  exact ⟨buffer₂, rfl⟩

/-- `write /A x`, a letter typed, the machine started again, and `cat /A`. -/
theorem cat_of_write_blank :
    ∃ s₂ res s₃ buffer, History (KernelStep (Sparing 4096 (Fat12.blankState.toCore.bootSector 0) [] nameA))
        (some (machineAt { readyDesk with fsIoBuffer := overwrite (ascii "x") fun _ => 0 }), blankTyped)
          keyAndRestart (some restarted, s₂) ∧
      (executeCommand quietReport 0 restarted.desk (ascii "cat /A")).Runs (Driver 4096) s₂ res s₃ ∧
      res = some ({ restarted.desk with fsIoBuffer := buffer }, printsContent (ascii "x")) := by
  obtain ⟨F, F₁, -, -, hF, hF₁, hs₁, -⟩ := blank_trees
  have hline : PromptLine (ascii "cat /A") := by decide
  obtain ⟨m, hturn⟩ : ∃ m, kernelTurn (quietReport, 0x23)
      (some (machineAt { readyDesk with fsIoBuffer := overwrite (ascii "x") fun _ => 0 })) = pure (some m) :=
        ⟨_, rfl⟩
  obtain ⟨s₂, hist⟩ := history_keyAndRestart Fat12.blank_mountable hF₁ hturn
  obtain ⟨F₂, hF₂, hs₂, -⟩ := node_of_history (Nat.le_refl 4096) Fat12.blank_mountable hist rfl hF₁ hs₁
  obtain ⟨⟨res, s₃, hrun⟩, -⟩ :=
    executeCommand_means (Nat.le_refl 4096) hF₂ hs₂ hline (show restarted.desk.fatReady = true from rfl)
      quietReport 0
  obtain ⟨buffer, hres⟩ := cat_of_write (Nat.le_refl 4096) Fat12.blank_mountable hF Fat12.blank_reliable
    (show PromptLine (ascii "write /A x") by decide) (show (machineAt readyDesk).desk.fatReady = true from rfl) rfl
      (target_A F) runs_typed.1 hist hline rfl rfl (fun F₂ _ => target_A F₂) hrun
  exact ⟨s₂, res, s₃, buffer, hist, hrun, hres⟩

/-- What `rm` says it deleted `cat` does not find, whatever happens in between that does not set the name. -/
theorem cat_of_rm (hf : 4096 ≤ fuel) (hm : Mountable boot 0) (hF : Represents boot 0 s.toCore F) (hs : Reliable s)
    (h : PromptLine line) (hready : m₀.desk.fatReady = true)
    (hread : FileCommand.read line = some (.ok (.remove path))) (hname : F.target path = .ok (p, n))
    (hrun : (executeCommand r current m₀.desk line).Runs (Driver fuel) s
      (some (m₁.desk, [printText "File deleted\n"])) s₁)
    (hist : History (KernelStep (Sparing fuel boot p n)) (some m₁, s₁) es (some m₂, s₂)) (h₂ : PromptLine line₂)
    (hready₂ : m₂.desk.fatReady = true) (hread₂ : FileCommand.read line₂ = some (.ok (.print path₂)))
    (hname₂ : ∀ F₂, Represents boot 0 s₂.toCore F₂ → F₂.target path₂ = .ok (p, n))
    (hrun₂ : (executeCommand r₂ current₂ m₂.desk line₂).Runs (Driver fuel) s₂ res s₃) :
    ∃ buffer, res = some ({ m₂.desk with fsIoBuffer := buffer }, printFailed "cat" .errNotFound) := by
  obtain ⟨F₁, buffer, out, hF₁, hs₁, hres, hprints⟩ := follows_of_runs hf hF hs h hready hread hrun
  obtain ⟨-, rfl⟩ := Prod.mk.inj (Option.some.inj hres)
  have hchanges := hprints.changes (ne_printFailed (by decide) _)
  obtain ⟨p', n', ht, hnode⟩ := Files.deleted hchanges
  obtain ⟨rfl, rfl⟩ := Prod.mk.inj (Except.ok.inj (hname.symm.trans ht))
  obtain ⟨F₂, hF₂, hs₂, hkept⟩ := node_of_history hf hm hist hready₂ hF₁ hs₁
  obtain ⟨F₃, buffer₂, out₂, -, -, rfl, -, rfl⟩ := follows_of_runs hf hF₂ hs₂ h₂ hready₂ hread₂ hrun₂
  rw [Files.contents_missing (hname₂ F₂ hF₂) (hkept.trans hnode)]
  exact ⟨buffer₂, rfl⟩

/-- `rm /A`, a letter typed, the machine started again, and `cat /A`. -/
theorem cat_of_rm_blank :
    ∃ s₂ res s₃ buffer,
      History (KernelStep (Sparing 4096 (Fat12.blankState.toCore.bootSector 0) [] nameA))
        (some (machineAt readyDesk), blankCleared) keyAndRestart (some restarted, s₂) ∧
      (executeCommand quietReport 0 restarted.desk (ascii "cat /A")).Runs (Driver 4096) s₂ res s₃ ∧
      res = some ({ restarted.desk with fsIoBuffer := buffer }, printFailed "cat" .errNotFound) := by
  obtain ⟨-, F₁, F₂, -, -, hF₁, hs₁, hF₂, hs₂, -⟩ := blank_trees
  have hline : PromptLine (ascii "cat /A") := by decide
  obtain ⟨m, hturn⟩ : ∃ m, kernelTurn (quietReport, 0x23) (some (machineAt readyDesk)) = pure (some m) := ⟨_, rfl⟩
  obtain ⟨s₃, hist⟩ := history_keyAndRestart Fat12.blank_mountable hF₂ hturn
  obtain ⟨F₃, hF₃, hs₃, -⟩ := node_of_history (Nat.le_refl 4096) Fat12.blank_mountable hist rfl hF₂ hs₂
  obtain ⟨⟨res, s₄, hrun⟩, -⟩ :=
    executeCommand_means (Nat.le_refl 4096) hF₃ hs₃ hline (show restarted.desk.fatReady = true from rfl)
      quietReport 0
  obtain ⟨buffer, hres⟩ := cat_of_rm (Nat.le_refl 4096) Fat12.blank_mountable hF₁ hs₁
    (show PromptLine (ascii "rm /A") by decide) (show (machineAt readyDesk).desk.fatReady = true from rfl) rfl
      (target_A F₁) runs_typed.2.1 hist hline rfl rfl (fun F₂ _ => target_A F₂) hrun
  exact ⟨s₃, res, s₄, buffer, hist, hrun, hres⟩

/-- A directory that `mkdir` made from the root on can be entered ever after, whatever happens: `cd` moves
there, and prints where that is. -/
theorem cd_of_mkdir (hf : 4096 ≤ fuel) (hm : Mountable boot 0) (hF : Represents boot 0 s.toCore F) (hs : Reliable s)
    (h : PromptLine line) (hready : m₀.desk.fatReady = true)
    (hread : FileCommand.read line = some (.ok (.make path))) (habs : isAbsolute path = true)
    (hrun : (executeCommand r current m₀.desk line).Runs (Driver fuel) s
      (some (m₁.desk, [printText "Directory created\n"])) s₁)
    (hist : History (KernelStep (Driver fuel)) (some m₁, s₁) es (some m₂, s₂)) (h₂ : PromptLine line₂)
    (hready₂ : m₂.desk.fatReady = true) (hread₂ : FileCommand.read line₂ = some (.ok (.go path)))
    (hrun₂ : (executeCommand r₂ current₂ m₂.desk line₂).Runs (Driver fuel) s₂ res s₃) :
    ∃ p n F₂ F₃ buffer out, F.target path = .ok (p, n) ∧ Represents boot 0 s₂.toCore F₂ ∧
      Represents boot 0 s₃.toCore F₃ ∧ F₃.tree = F₂.tree ∧ F₃.cwd = p ++ [n] ∧
      res = some ({ m₂.desk with fsIoBuffer := buffer }, out) ∧ PrintsPath (p ++ [n]) out := by
  obtain ⟨F₁, buffer, out, hF₁, hs₁, hres, hprints⟩ := follows_of_runs hf hF hs h hready hread hrun
  obtain ⟨-, rfl⟩ := Prod.mk.inj (Option.some.inj hres)
  have hchanges := hprints.changes (ne_printFailed (by decide) _)
  obtain ⟨p, n, ht, hlead, -⟩ := Files.made hchanges
  obtain ⟨F₂, hF₂, hs₂, hdirs⟩ := dirs_of_history hf hm hist hready₂ hF₁ hs₁
  obtain ⟨F₃, buffer₂, out₂, hF₃, -, rfl, hgo⟩ := follows_of_runs hf hF₂ hs₂ h₂ hready₂ hread₂ hrun₂
  have hne : path ≠ [] := by
    rintro rfl
    cases habs
  rw [Follows, Means, if_neg hne, Files.leads_absolute hdirs habs hlead] at hgo
  obtain ⟨htree, hcwd, hprinted⟩ := hgo
  exact ⟨p, n, F₂, F₃, buffer₂, out₂, ht, hF₂, hF₃, htree, hcwd, rfl, hprinted⟩

/-- `mkdir /D`, a letter typed, the machine started again, and `cd /D`. -/
theorem cd_of_mkdir_blank :
    ∃ p n s₂ F₃ buffer out res s₃,
      History (KernelStep (Driver 4096)) (some (machineAt readyDesk), blankEntered) keyAndRestart
        (some restarted, s₂) ∧
      (executeCommand quietReport 0 restarted.desk (ascii "cd /D")).Runs (Driver 4096) s₂ res s₃ ∧
      Represents (Fat12.blankState.toCore.bootSector 0) 0 s₃.toCore F₃ ∧ F₃.cwd = p ++ [n] ∧
      res = some ({ restarted.desk with fsIoBuffer := buffer }, out) ∧ PrintsPath (p ++ [n]) out := by
  obtain ⟨F, -, -, F₃, hF, -, -, -, -, hF₃, hs₃⟩ := blank_trees
  have hline : PromptLine (ascii "cd /D") := by decide
  obtain ⟨m, hturn⟩ : ∃ m, kernelTurn (quietReport, 0x23) (some (machineAt readyDesk)) = pure (some m) := ⟨_, rfl⟩
  obtain ⟨s₂, hist⟩ := history_keyAndRestart Fat12.blank_mountable hF₃ hturn
  obtain ⟨F₂, hF₂, hs₂, -⟩ := dirs_of_history (Nat.le_refl 4096) Fat12.blank_mountable hist rfl hF₃ hs₃
  obtain ⟨⟨res, s₄, hrun⟩, -⟩ :=
    executeCommand_means (Nat.le_refl 4096) hF₂ hs₂ hline (show restarted.desk.fatReady = true from rfl)
      quietReport 0
  obtain ⟨p, n, -, F₄, buffer, out, -, -, hF₄, -, hcwd, hres, hprints⟩ := cd_of_mkdir (Nat.le_refl 4096)
    Fat12.blank_mountable hF Fat12.blank_reliable (show PromptLine (ascii "mkdir /D") by decide)
    (show (machineAt readyDesk).desk.fatReady = true from rfl) rfl rfl runs_typed.2.2 hist hline rfl rfl hrun
  exact ⟨p, n, s₂, F₄, buffer, out, res, s₄, hist, hrun, hF₄, hcwd, hres, hprints⟩

end

end AltoniumOS.Kernel

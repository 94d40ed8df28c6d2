/-
The driver as a transition system: calls made one after the other on a disk that does not fail.
Every call returns, and whatever it answers, the volume stays well-formed and the driver in a directory
of it; so it does along every run.
-/
import AltoniumOS.System.Blank

namespace AltoniumOS.Fat12

open AltoniumOS.Lib

/-- The calls that change the volume. -/
inductive Change where
  | writeFile (name : List UInt8) (data : Option Buf) (size : Nat)
  | createDirectory (name : List UInt8)
  | deleteFile (name : List UInt8)

def Change.path : Change → List UInt8
  | .writeFile name _ _ => name
  | .createDirectory name => name
  | .deleteFile name => name

/-- The call up to its flush. -/
def Change.body (fuel : Nat) : Change → M Code
  | .writeFile name data size => writeFileBody fuel name data size
  | .createDirectory name => createDirectoryBody fuel name
  | .deleteFile name => deleteFileBody fuel name

def Change.exec (fuel : Nat) : Change → M Code
  | .writeFile name data size => Fat12.writeFile fuel name data size
  | .createDirectory name => Fat12.createDirectory fuel name
  | .deleteFile name => Fat12.deleteFile fuel name

/-- The calls that depend on or change the volume or the current directory. -/
inductive Op where
  | change (x : Change)
  | changeDirectory (path : List UInt8)
  | readFile (path : List UInt8) (buffer : Option Buf) (maxSize : Nat)

/-- The call, for its result code. -/
def Op.exec (fuel : Nat) : Op → M Code
  | .change x => x.exec fuel
  | .changeDirectory path => Fat12.changeDirectory fuel path
  | .readFile path buffer maxSize => Fat12.readFile fuel path buffer maxSize >>= fun r => pure r.1

/-- A run of calls, each of which meets the condition `K` in the state before it. -/
inductive Run (fuel : Nat) (K : Core → Op → Prop) : State → State → Prop
  | refl (s : State) : Run fuel K s s
  | step {s s₁ s₂ : State} {op : Op} {r : Code} : Run fuel K s s₁ → K s₁.toCore op → op.exec fuel s₁ = .ok r s₂ →
      Run fuel K s s₂

/-- Any calls at all. -/
def anyCall : Core → Op → Prop := fun _ _ => True

section

variable {fuel : Nat} {K : Core → Op → Prop} {I : Core → Prop}

/-- What every call preserves is preserved by runs, when no disk call fails. -/
theorem Run.invariant (step : ∀ c op, I c → K c op → ∃ r c', Gives (op.exec fuel) c r c' ∧ I c') {s s' : State}
    (h : Run fuel K s s') (hs : Reliable s) (hi : I s.toCore) : I s'.toCore ∧ Reliable s' := by
  induction h with
  | refl => exact ⟨hi, hs⟩
  | step _ hk he ih =>
    obtain ⟨r, c', hg, hi'⟩ := step _ _ ih.1 hk
    obtain ⟨-, h1, h2⟩ := hg.eq_of_ok rfl ih.2 he
    exact ⟨h1 ▸ hi', h2⟩

end

/-! ## One call -/

section

variable {c c' : Core} {fuel : Nat}

/-- A change of one entry keeps the driver in a directory. -/
theorem Edited.settled {d : Nat} {n : ShortName} {o e : RawDirEntry} (he : Edited c c' d n o e)
    (hs : c.Settled) : c'.Settled where
  current := by rw [he.env.current]; exact he.edit.dir hs.current
  stack := by rw [he.env.stack]; exact he.edit.dirs_stack hs.stack

theorem Edited.wellFormed {d : Nat} {n : ShortName} {o e : RawDirEntry} (he : Edited c c' d n o e)
    (h : c.WellFormed) : c'.WellFormed := ⟨he.env.mounted h.mounted, he.wf, he.settled h.settled⟩

theorem Unchanged.dir {P : Set Nat} (u : Unchanged c c') (h : c.volume.WF P) {d : Nat}
    (hd : c.volume.Dir d) : c'.volume.Dir d :=
  hd.imp fun _ => ((u.agree h).isDir h).2

theorem Unchanged.wellFormed (u : Unchanged c c') (h : c.WellFormed) : c'.WellFormed := by
  refine ⟨u.env.mounted h.mounted, u.wf h.wf, ?_, ?_⟩
  · rw [u.env.current]
    exact u.dir h.wf h.settled.current
  · rw [u.env.stack]
    exact fun k hk => u.dir h.wf (h.settled.stack k hk)

/-- Where a path leads, the driver may stand. -/
theorem Core.WellFormed.enter (h : c.WellFormed) {path : List UInt8} {r : Nat × PathStack}
    (hw : c.volume.walk (c.start path).1 (c.start path).2 (components path) = .ok r) :
    (c.enter r.1 r.2).WellFormed := by
  obtain ⟨h1, h2⟩ := h.wf.walk_dir (h.settled.start path).1 (h.settled.start path).2 hw
  exact ⟨⟨h.mounted.ready, h.mounted.accepted, h.mounted.reserved, h.mounted.fats⟩, h.wf, h1, h2⟩

theorem gives_changeDirectory_nil (fuel : Nat) (h : c.WellFormed) : Gives (changeDirectory fuel []) c .ok c := by
  unfold changeDirectory
  refine gives_core ?_
  rw [h.mounted.ready]
  exact .pure _

/-- `fat12_change_directory` returns, whatever the path. -/
theorem changeDirectory_returns (hf : 4096 ≤ fuel) (h : c.WellFormed) (path : List UInt8) :
    ∃ r c', Gives (changeDirectory fuel path) c r c' ∧ c'.WellFormed ∧
      (c' = c ∨ ∃ cluster stack, c' = c.enter cluster stack) := by
  by_cases hp : path = []
  · subst hp
    exact ⟨.ok, c, gives_changeDirectory_nil fuel h, h, .inl rfl⟩
  · refine ⟨_, _, gives_changeDirectory h.mounted h.wf hf h.settled hp, ?_⟩
    split
    · exact ⟨h, .inl rfl⟩
    · rename_i r hw
      exact ⟨h.enter hw, .inr ⟨r.1, r.2, rfl⟩⟩

theorem readFile_returns (hf : 4096 ≤ fuel) (h : c.WellFormed) (path : List UInt8) (buffer : Option Buf)
    (maxSize : Nat) : ∃ r, Gives (readFile fuel path buffer maxSize) c r c := by
  cases buffer with
  | some b => exact ⟨_, gives_readFile h.mounted h.wf hf h.settled path b maxSize⟩
  | none =>
    refine ⟨(.errInvalidName, none, none), ?_⟩
    unfold readFile
    refine gives_core ?_
    rw [h.mounted.ready, if_neg (by decide)]
    exact .pure _

/-- Every change is made, as an edit of one entry, or nothing changed. -/
theorem Change.gives_body (hf : 4096 ≤ fuel) (h : c.WellFormed) (x : Change) :
    (∃ c' d n o e, Gives (x.body fuel) c .ok c' ∧ Edited c c' d n o e) ∨
    (∃ e c', Gives (x.body fuel) c e c' ∧ e ≠ .ok ∧ Unchanged c c') := by
  cases x with
  | writeFile name data size =>
    rcases gives_writeFileBody h.mounted h.wf h.settled hf name data size
      with ⟨c', d, n, hg, -, hw, -⟩ | ⟨e, c', hg, he, hu, -⟩
    · obtain ⟨o, first, he, -⟩ := hw.stored
      exact .inl ⟨c', d, n, o, _, hg, he⟩
    · exact .inr ⟨e, c', hg, he, hu⟩
  | createDirectory name =>
    rcases gives_createDirectoryBody h.mounted h.wf h.settled hf name
      with ⟨c', d, n, k, hg, -, -, hm⟩ | ⟨e, c', hg, he, hu⟩
    · obtain ⟨o, -, he⟩ := hm.edited
      exact .inl ⟨c', d, n, o, _, hg, he⟩
    · exact .inr ⟨e, c', hg, he, hu⟩
  | deleteFile name =>
    rcases gives_deleteFileBody h.mounted h.wf h.settled hf name with ⟨c', d, n, o, hg, -, hd⟩ | ⟨e, c', hg, he, hu⟩
    · exact .inl ⟨c', d, n, o, _, hg, hd.edited⟩
    · exact .inr ⟨e, c', hg, he, hu⟩

theorem Change.exec_eq (fuel : Nat) (x : Change) : x.exec fuel = committing (x.body fuel) := by
  cases x <;> rfl

/-- Every change returns, and keeps the volume well-formed. -/
theorem Change.gives (hf : 4096 ≤ fuel) (h : c.WellFormed) (x : Change) :
    (∃ c' d n o e, Gives (x.exec fuel) c .ok c' ∧ Edited c c' d n o e) ∨
    (∃ e c', Gives (x.exec fuel) c e c' ∧ e ≠ .ok ∧ Unchanged c c') := by
  rw [x.exec_eq]
  rcases x.gives_body hf h with ⟨c', d, n, o, e, hg, he⟩ | ⟨e, c', hg, he, hu⟩
  · exact .inl ⟨_, d, n, o, e, gives_committing_ok hg, he.flushed (he.env.mounted h.mounted)⟩
  · exact .inr ⟨e, c', gives_committing_error hg he, he, hu⟩

theorem Change.wellFormed (hf : 4096 ≤ fuel) {s s' : State} (hs : Reliable s) (h : s.toCore.WellFormed) (x : Change)
    {r : Code} (hx : x.exec fuel s = .ok r s') : s'.toCore.WellFormed ∧ Reliable s' := by
  rcases x.gives hf h with ⟨c', d, n, o, e, hg, he⟩ | ⟨e, c', hg, -, hu⟩
  · obtain ⟨-, rfl, hs'⟩ := hg.eq_of_ok rfl hs hx
    exact ⟨he.wellFormed h, hs'⟩
  · obtain ⟨-, rfl, hs'⟩ := hg.eq_of_ok rfl hs hx
    exact ⟨hu.wellFormed h, hs'⟩

/-- Every call returns, and keeps the volume well-formed. -/
theorem Op.returns (hf : 4096 ≤ fuel) (h : c.WellFormed) (op : Op) :
    ∃ r c', Gives (op.exec fuel) c r c' ∧ c'.WellFormed := by
  cases op with
  | change x =>
    rcases x.gives hf h with ⟨c', d, n, o, e, hg, he⟩ | ⟨e, c', hg, -, hu⟩
    · exact ⟨_, c', hg, he.wellFormed h⟩
    · exact ⟨_, c', hg, hu.wellFormed h⟩
  | changeDirectory path =>
    obtain ⟨r, c', hg, hw, -⟩ := changeDirectory_returns hf h path
    exact ⟨r, c', hg, hw⟩
  | readFile path buffer maxSize =>
    obtain ⟨r, hg⟩ := readFile_returns hf h path buffer maxSize
    exact ⟨_, c, hg.map Prod.fst, h⟩

/-- Well-formedness is an invariant of every run, and every call returns in every state of a run. -/
theorem wellFormed_of_run (hf : 4096 ≤ fuel) {s s' : State} (hs : Reliable s) (h : s.toCore.WellFormed)
    (hr : Run fuel anyCall s s') : s'.toCore.WellFormed ∧ ∀ op : Op, ∃ r s'', op.exec fuel s' = .ok r s'' := by
  obtain ⟨h1, h2⟩ := hr.invariant (fun c op hc _ => op.returns hf hc) hs h
  refine ⟨h1, fun op => ?_⟩
  obtain ⟨r, c', hg, -⟩ := op.returns hf h1
  obtain ⟨s'', h3, -⟩ := hg s' rfl h2
  exact ⟨r, s'', h3⟩

theorem wellFormed_of_run_blank :
    blankWritten.toCore.WellFormed ∧ ∀ op : Op, ∃ r s, op.exec 4096 blankWritten = .ok r s :=
  wellFormed_of_run (s := blankMounted) (Nat.le_refl _) blank_reliable blank_wellFormed.1 (.step (.refl _) trivial
    (show (Op.change (.writeFile [65] (some fun _ => 7) 600)).exec 4096 blankMounted =
      .ok .ok blankWritten from blank_written))

end

end AltoniumOS.Fat12

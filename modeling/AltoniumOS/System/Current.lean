/-
The current directory along runs: whether its cluster is the one on top of the path stack, and whether the text
of `fat12_get_cwd` leads to it. The stack has room for 16 levels and the text for 126 characters, and
`fat12_change_directory` moves on where they do not suffice. Disk calls may fail, as long as one that fails
leaves the disk alone; changes that go wrong then are kept out of the runs.
-/
import AltoniumOS.Lib.History
import AltoniumOS.System.Effects
import AltoniumOS.System.Enduring

namespace AltoniumOS.Fat12

open AltoniumOS.Lib

/-! ## What every run keeps -/

/-- The driver in a directory of a well-formed volume, the stack a way down its tree, and the text made from
the stack. -/
structure Core.Tracked (c : Core) : Prop where
  wellFormed : c.WellFormed
  anchored : c.Anchored
  cwd : c.cwd = rebuildCwd c.pathStack

/-- Where a path leads, and the stack on the way. -/
def Core.leads (c : Core) (path : List UInt8) : Except Code (Nat × PathStack) :=
  c.volume.walk (c.start path).1 (c.start path).2 (components path)

section

variable {c c' : Core} {s s' : State} {fuel : Nat} {path : List UInt8} {r : Nat × PathStack}

/-- What leaves the driver's variables and the directories alone keeps it on track. -/
theorem Core.Tracked.mono (h : c.Tracked) (t : TreeKept c c') : c'.Tracked := by
  refine ⟨t.wellFormed, ?_, by rw [t.env.cwd, t.env.stack]; exact h.cwd⟩
  unfold Core.Anchored
  rw [t.env.current, t.env.stack]
  exact h.anchored.mono h.wellFormed.wf t.dirs t.children

theorem Core.Tracked.enter (h : c.Tracked) (hr : c.leads path = .ok r) : (c.enter r.1 r.2).Tracked := by
  have hstart := h.wellFormed.settled.start path
  exact ⟨h.wellFormed.enter hr, h.wellFormed.wf.walk_anchored hstart.1 hstart.2 (h.anchored.start path) hr, rfl⟩

/-- A call of `fat12_change_directory` that succeeds goes where its path leads. -/
theorem changeDirectory_leads (hf : 4096 ≤ fuel) (h : s.toCore.Tracked)
    (hcd : changeDirectory fuel path s = .ok .ok s') :
    ∃ r, s.toCore.leads path = .ok r ∧ s'.toCore = s.toCore.enter r.1 r.2 := by
  have hrun := (heeds_changeDirectory fuel path).repaired hcd fun h => nomatch h
  have hs := repaired_reliable s
  by_cases hp : path = []
  · subst hp
    obtain ⟨-, hc, -⟩ := (gives_changeDirectory_nil fuel h.wellFormed).eq_of_ok (repaired_toCore s) hs hrun
    refine ⟨(s.currentDirCluster, s.pathStack), rfl, ?_⟩
    rw [Core.enter, ← h.cwd]
    exact hc
  · obtain ⟨hcode, hc, -⟩ :=
      (gives_changeDirectory h.wellFormed.mounted h.wellFormed.wf hf h.wellFormed.settled hp).eq_of_ok
        (repaired_toCore s) hs hrun
    cases hr : s.toCore.leads path with
    | error e =>
      rw [show s.toCore.volume.walk _ _ (components path) = .error e from hr] at hcode
      exact absurd hcode.symm (Volume.walk_error hr)
    | ok r =>
      rw [show s.toCore.volume.walk _ _ (components path) = .ok r from hr] at hc
      exact ⟨r, rfl, hc⟩

/-- One that does not succeed changes nothing. -/
theorem changeDirectory_fails {r : Code} (hcd : changeDirectory fuel path s = .ok r s') (hr : r ≠ .ok) :
    s'.toCore = s.toCore := by
  unfold changeDirectory at hcd
  obtain ⟨c, s₀, hc, hcd⟩ := bind_eq_ok hcd
  cases hc
  split at hcd
  · cases hcd
    rfl
  split at hcd
  · cases hcd
    rfl
  obtain ⟨a, s₁, h1, hcd⟩ := bind_eq_ok hcd
  have hcore := (reads_changeLoop fuel _ _ _).core h1
  split at hcd
  · cases hcd
    exact hcore
  · cases hcd
    exact absurd rfl hr

/-- The call goes wrong on no disk, or not on this one. -/
def Op.Harmless (s : State) : Op → Prop
  | .change x => x.Harmless s
  | _ => True

theorem harmless_of_reliable (hs : Reliable s) (x : Change) : x.Harmless s := by
  cases x with
  | writeFile => trivial
  | createDirectory path =>
    rintro d n p - ⟨i, -, -, ⟨-, hfail⟩, -⟩
    exact hfail (hs i)
  | deleteFile path => exact fun d n p _ _ => .inr (.inr (.inr fun k _ => hs k))

/-- A call leaves the current directory alone, or goes where its path leads. -/
theorem Op.tracked (hf : 4096 ≤ fuel) (h : s.toCore.Tracked) (hs : Clean s.faults) {op : Op} (hk : op.Harmless s)
    {r : Code} (hx : op.exec fuel s = .ok r s') :
    s'.toCore.Tracked ∧ Clean s'.faults ∧
      (SameEnv s.toCore s'.toCore ∨ ∃ path r, op = .changeDirectory path ∧ s.toCore.leads path = .ok r ∧
        s'.toCore = s.toCore.enter r.1 r.2) := by
  cases op with
  | change x =>
    obtain ⟨t, hs'⟩ := x.treeKept hf h.wellFormed hs hk hx
    exact ⟨h.mono t, hs', .inl t.env⟩
  | changeDirectory path =>
    refine ⟨?_, (heeds_changeDirectory fuel path).clean hx hs, ?_⟩ <;> by_cases hr : r = .ok
    · subst hr
      obtain ⟨r, hl, hc⟩ := changeDirectory_leads hf h hx
      rw [hc]
      exact h.enter hl
    · rw [changeDirectory_fails hx hr]
      exact h
    · subst hr
      obtain ⟨r, hl, hc⟩ := changeDirectory_leads hf h hx
      exact .inr ⟨path, r, rfl, hl, hc⟩
    · rw [changeDirectory_fails hx hr]
      exact .inl (.refl _)
  | readFile path buffer maxSize =>
    obtain ⟨⟨code, b, n⟩, s₁, h1, hx⟩ := bind_eq_ok hx
    cases hx
    have hc := (reads_readFile fuel path buffer maxSize).core h1
    rw [hc]
    exact ⟨h, (heeds_readFile fuel path buffer maxSize).clean h1 hs, .inl (.refl _)⟩

/-- One call that meets the condition `K` in the state before it, and returns. -/
def Op.Step (fuel : Nat) (K : State → Op → Prop) (s : State) (op : Op) (s' : State) : Prop :=
  K s op ∧ ∃ r, op.exec fuel s = .ok r s'

/-- `..` makes no disk call. -/
theorem changeDirectory_up (fuel : Nat) (hr : s.fsReady = true) :
    ∃ s', changeDirectory fuel [dot, dot] s = .ok .ok s' ∧
      s'.toCore = s.toCore.enter s.pathStack.pop.top s.pathStack.pop := by
  refine ⟨{ s with toCore := s.toCore.enter s.pathStack.pop.top s.pathStack.pop }, ?_, rfl⟩
  unfold changeDirectory
  rw [bind_ok (show getCore s = .ok s.toCore s from rfl), hr, if_neg (by decide), if_neg (by decide),
    show components [dot, dot] = [[dot, dot]] from rfl, show isAbsolute [dot, dot] = false from rfl, changeLoop,
      if_neg (by decide),
    if_pos rfl, changeLoop]
  rfl

/-! ## The top of the stack -/

/-- The current directory is the one the path stack leads to. -/
def Core.OnStack (c : Core) : Prop := c.currentDirCluster = c.pathStack.top

/-- If `path` leads to a directory, then behind its last `..` it names no more subdirectories than levels are
left. -/
def Core.StaysOnStack (c : Core) (path : List UInt8) : Prop :=
  ∀ r, c.leads path = .ok r → ((components path).foldl countLevel ((c.start path).2.depth, false)).2 = false

/-- Moves of the current directory that stay on the stack, and other calls that do not go wrong. -/
def staysOnStack (s : State) : Op → Prop
  | .changeDirectory path => s.toCore.StaysOnStack path
  | op => op.Harmless s

theorem Core.OnStack.start (h : c.OnStack) (path : List UInt8) : (c.start path).1 = (c.start path).2.top := by
  unfold Core.start
  split
  · rfl
  · exact h

/-- A move ends on the stack if its components say so. -/
theorem Core.Tracked.enter_onStack (h : c.Tracked) (ho : c.OnStack) (hr : c.leads path = .ok r) :
    (c.enter r.1 r.2).OnStack ↔ c.StaysOnStack path := by
  have hstart := h.wellFormed.settled.start path
  have hcount :=
    h.wellFormed.wf.walk_levels false hstart.1 hstart.2 (h.anchored.start path) (by simp [ho.start path]) hr
  have honstack : (c.enter r.1 r.2).OnStack ↔
      ¬ ((components path).foldl countLevel ((c.start path).2.depth, false)).2 = true :=
    (not_iff_comm.1 hcount.symm).symm
  rw [honstack, Bool.not_eq_true]
  exact ⟨fun hf _ _ => hf, fun hf => hf r hr⟩

theorem harmless_of_staysOnStack {op : Op} (h : staysOnStack s op) : op.Harmless s := by
  cases op with
  | changeDirectory path => trivial
  | change x => exact h
  | readFile => trivial

/-- Along a run of such calls the current directory is the one on top of the stack. -/
theorem tracked_of_run {ops : List Op} (hf : 4096 ≤ fuel) (hs : Clean s.faults) (h : s.toCore.Tracked)
    (ho : s.OnStack) (hr : History (Op.Step fuel staysOnStack) s ops s') :
    (s'.toCore.Tracked ∧ s'.OnStack) ∧ Clean s'.faults := by
  refine hr.keeps (I := fun s => (s.toCore.Tracked ∧ s.OnStack) ∧ Clean s.faults) (fun s op s' hi hx => ?_)
    ⟨⟨h, ho⟩, hs⟩
  obtain ⟨⟨h, ho⟩, hs⟩ := hi
  obtain ⟨hk, r, hx⟩ := hx
  obtain ⟨ht, hs', henv | ⟨path, r, rfl, hl, hc⟩⟩ := Op.tracked hf h hs (harmless_of_staysOnStack hk) hx
  · refine ⟨⟨ht, ?_⟩, hs'⟩
    unfold Core.OnStack
    rw [henv.current, henv.stack]
    exact ho
  · refine ⟨⟨ht, ?_⟩, hs'⟩
    rw [hc]
    exact (h.enter_onStack ho hl).2 hk

/-- The first mount leaves the driver on track, in the root directory. -/
theorem init_tracked {baseLba : Nat} {s₀ : State} (hs : Clean s₀.faults) (hinit : init baseLba s₀ = .ok .ok s)
    (hw : s.toCore.WellFormed) : s.toCore.Tracked ∧ s.OnStack ∧ s.pathStack = .empty ∧ Clean s.faults := by
  obtain ⟨-, hc, -⟩ := init_ok (repaired_reliable s₀) ((heeds_init baseLba).repaired hinit rfl)
  rw [repaired_toCore] at hc
  have hstack : s.pathStack = .empty ∧ s.currentDirCluster = 0 ∧ s.cwd = [slash] := by
    rw [hc]
    exact ⟨rfl, rfl, rfl⟩
  obtain ⟨h1, h2, h3⟩ := hstack
  refine ⟨⟨hw, ?_, by rw [h1, h3]; rfl⟩, ?_, h1, (heeds_init baseLba).clean hinit hs⟩
  · unfold Core.Anchored
    rw [h1, h2]
    exact .root _
  · unfold Core.OnStack
    rw [h1, h2]
    rfl

/-- Into a subdirectory and back by `..`. -/
def ReturnsFrom (fuel : Nat) (s s₁ : State) : Prop :=
  ∃ s₂, changeDirectory fuel [dot, dot] s₁ = .ok .ok s₂ ∧ s₂.currentDirCluster = s.currentDirCluster ∧
    s₂.cwd = s.cwd

/-- A name of one component that is entered takes a level, if one is left. -/
theorem leads_name {D : List UInt8} (hne : D ≠ []) (hplain : ∀ c ∈ D, isSeparator c = false) (hdot : D ≠ [dot])
    (hup : D ≠ [dot, dot]) (hr : c.leads D = .ok r) :
    (∃ name, c.volume.Child c.currentDirCluster r.1 name ∧ r.2 = c.pathStack.push r.1 name) ∧
      (c.StaysOnStack D ↔ c.pathStack.levels.length < maxPathDepth) := by
  have hcomp : components D = [D.take 31] := by
    have : components (D ++ []) = [D.take 31] := components_last hne hplain (by simp)
    rwa [List.append_nil] at this
  have hstart : c.start D = (c.currentDirCluster, c.pathStack) := by
    obtain ⟨b, l, rfl⟩ := List.exists_cons_of_ne_nil hne
    exact if_neg
      (by rw [show isAbsolute (b :: l) = isSeparator b from rfl, hplain b (List.mem_cons_self ..)]; decide)
  -- a cut name is longer than the two special ones
  have htake : ∀ {l : List UInt8}, l.length < 31 → D ≠ l → D.take 31 ≠ l := fun {l} hl hD ht => by
    refine hD ?_
    rw [← ht, List.take_of_length_le]
    rw [← ht, List.length_take] at hl
    omega
  have h1 := htake (by decide) hdot
  have h2 := htake (by decide) hup
  have hstays : c.StaysOnStack D ↔ c.pathStack.levels.length < maxPathDepth := by
    unfold Core.StaysOnStack
    rw [hcomp, hstart]
    simp only [List.foldl_cons, List.foldl_nil, countLevel, if_neg h1, if_neg h2]
    constructor
    · intro hall
      by_contra hfull
      have := hall r hr
      rw [if_neg (by exact hfull)] at this
      cases this
    · intro hlt _ _
      rw [if_pos (by exact hlt)]
  refine ⟨?_, hstays⟩
  unfold Core.leads at hr
  rw [hcomp, hstart, Volume.walk, if_neg h1, if_neg h2] at hr
  dsimp only at hr
  split at hr
  · cases hr
  · rename_i n hn
    split at hr
    · cases hr
    · rename_i e he
      split at hr
      · cases hr
      · rename_i hi
        cases hr
        exact ⟨_, ⟨_, n, e, hn, he, by simpa using hi, rfl, rfl⟩, rfl⟩

/-- From a subdirectory entered by its name `..` leads back, just where its level was taken. -/
theorem returnsFrom_iff (hf : 4096 ≤ fuel) (h : s.toCore.Tracked) (ho : s.OnStack) {D : List UInt8} (hne : D ≠ [])
    (hplain : ∀ c ∈ D, isSeparator c = false) (hdot : D ≠ [dot]) (hup : D ≠ [dot, dot])
    (hcd : changeDirectory fuel D s = .ok .ok s') : ReturnsFrom fuel s s' ↔ s.toCore.StaysOnStack D := by
  obtain ⟨r, hr, hc⟩ := changeDirectory_leads hf h hcd
  obtain ⟨⟨name, hchild, hpush⟩, hstays⟩ := leads_name hne hplain hdot hup hr
  have ht' : s'.toCore.Tracked := by
    rw [hc]
    exact h.enter hr
  obtain ⟨s₂, hrun, hc₂⟩ := changeDirectory_up fuel ht'.wellFormed.mounted.ready
  rw [show s'.pathStack = r.2 by rw [hc]; rfl] at hc₂
  -- `..` takes the level off again
  have hreturns : ReturnsFrom fuel s s' ↔ r.2.pop.top = s.currentDirCluster ∧ rebuildCwd r.2.pop = s.cwd := by
    constructor
    · rintro ⟨s₃, hrun₃, hcur, hcwd⟩
      obtain rfl : s₂ = s₃ := by
        rw [hrun] at hrun₃
        cases hrun₃
        rfl
      rw [hc₂] at hcur hcwd
      exact ⟨hcur, hcwd⟩
    · rintro ⟨hcur, hcwd⟩
      refine ⟨s₂, hrun, ?_, ?_⟩
      · rw [hc₂]
        exact hcur
      · rw [hc₂]
        exact hcwd
  rw [hreturns, hstays, hpush]
  by_cases hl : s.pathStack.levels.length < maxPathDepth
  · -- the level was taken
    rw [Volume.pop_push _ _ hl]
    exact iff_of_true ⟨ho.symm, h.cwd.symm⟩ hl
  · rw [Volume.push_full _ _ hl]
    refine iff_of_false (fun hcur => ?_) hl
    -- a level above the top is not the top
    have hwf := h.wellFormed.wf
    have htop := hwf.top_depth h.anchored.trail
    have hpop : s.toCore.volume.AtDepth s.pathStack.pop.top s.pathStack.pop.levels.length :=
      hwf.top_depth h.anchored.pop.trail
    rw [hcur.1, show s.currentDirCluster = s.pathStack.top from ho] at hpop
    have hlen : s.pathStack.pop.levels.length = s.pathStack.levels.length - 1 := List.length_dropLast
    have hpos : maxPathDepth = 16 := rfl
    have := hpop.unique hwf htop
    omega

end

/-- Along every run whose moves stay on the stack, the current directory is on top of the stack, each level of
the stack is a subdirectory of the one above it under the name kept with it, and from every subdirectory `..`
leads back where it was entered. A move that does not stay on the stack breaks the first of these, and the last.
-/
theorem current_on_stack {fuel baseLba : Nat} {s₀ s s' : State} {ops : List Op} (hf : 4096 ≤ fuel)
    (hs : Clean s₀.faults) (hinit : init baseLba s₀ = .ok .ok s) (hw : s.toCore.WellFormed)
    (hr : History (Op.Step fuel staysOnStack) s ops s') :
    s'.OnStack ∧ s'.toCore.volume.Trail 0 s'.pathStack.levels ∧
    (∀ path s₁, changeDirectory fuel path s' = .ok .ok s₁ → (s₁.OnStack ↔ s'.toCore.StaysOnStack path)) ∧
    ∀ D s₁, D ≠ [] → (∀ c ∈ D, isSeparator c = false) → D ≠ [dot] → D ≠ [dot, dot] →
    changeDirectory fuel D s' = .ok .ok s₁ →
      (ReturnsFrom fuel s' s₁ ↔ s'.toCore.StaysOnStack D) := by
  obtain ⟨ht, ho, -, hs₁⟩ := init_tracked hs hinit hw
  obtain ⟨⟨ht', ho'⟩, -⟩ := tracked_of_run hf hs₁ ht ho hr
  refine ⟨ho', ht'.anchored.trail, fun path s₁ hcd => ?_, fun D s₁ hne hplain hdot hup hcd => ?_⟩
  · obtain ⟨r, hl, hc⟩ := changeDirectory_leads hf ht' hcd
    rw [hc]
    exact ht'.enter_onStack ho' hl
  · exact returnsFrom_iff hf ht' ho' hne hplain hdot hup hcd

/-! ## The text of the current directory -/

/-- What `fat12_get_cwd` returns is an absolute path that on a disk that works leads to the current directory. -/
def TellsTruth (fuel : Nat) (s : State) : Prop :=
  ∃ text, Answers getCwd s text ∧ isAbsolute text = true ∧
    Answers (locateDirectory fuel text) s.repaired (.ok s.currentDirCluster)

/-- If `path` leads to a directory, it stays on the stack, and the names on the way down to that directory fit
into the text. -/
def Core.ShownWhole (c : Core) (path : List UInt8) : Prop :=
  c.StaysOnStack path ∧ ∀ r, c.leads path = .ok r →
    ∀ levels, c.volume.Trail 0 levels → Volume.bottom 0 levels = r.1 → FitsCwd (levels.map (·.2))

/-- Moves of the current directory to directories shown whole, and other calls that do not go wrong. -/
def shownWhole (s : State) : Op → Prop
  | .changeDirectory path => s.toCore.ShownWhole path
  | op => op.Harmless s

section

variable {c c' : Core} {s s' : State} {fuel : Nat} {path : List UInt8} {r : Nat × PathStack}

/-- The text leads to the current directory if that is the top of the stack and all the names of the stack are in
the text. -/
theorem tellsTruth_iff (hf : 4096 ≤ fuel) (h : s.toCore.Tracked) :
    TellsTruth fuel s ↔ s.OnStack ∧ FitsCwd s.pathStack.names := by
  have hwf := h.wellFormed.wf
  have ht := h.anchored.trail
  obtain ⟨habs, hne⟩ := isAbsolute_rebuildCwd s.pathStack
  obtain ⟨j, hj, hcomp, hfit⟩ := rebuildCwd_components (hwf.trail_names Volume.dir_root ht)
  have hlen : s.pathStack.names.length = s.pathStack.levels.length := List.length_map ..
  -- the text leads down the first `j` levels
  have htake := ht.take j
  have hlocate :
      Answers (locateDirectory fuel s.cwd) s.repaired (.ok (Volume.bottom 0 (s.pathStack.levels.take j))) := by
    obtain ⟨st, hst⟩ := hwf.walk_trail .empty Volume.dir_root htake
    have hg := gives_locate h.wellFormed.mounted hwf hf h.wellFormed.settled s.cwd
    have hstart : s.toCore.start s.cwd = (0, .empty) := by
      rw [h.cwd]
      exact if_pos habs
    rw [hstart, h.cwd, hcomp, PathStack.names, ← List.map_take, hst] at hg
    rw [h.cwd]
    exact .of_gives hg (repaired_toCore s) (repaired_reliable s)
  have htext : TellsTruth fuel s ↔ Volume.bottom 0 (s.pathStack.levels.take j) = s.currentDirCluster := by
    constructor
    · rintro ⟨text, ⟨s₁, hget⟩, -, hloc⟩
      cases hget
      exact Except.ok.inj (hlocate.eq hloc)
    · intro hb
      rw [hb] at hlocate
      exact ⟨s.cwd, ⟨s, rfl⟩, by rw [h.cwd]; exact habs, hlocate⟩
  rw [htext, ← hfit]
  constructor
  · -- a directory has one depth, so the text names all the levels
    intro hb
    have hdepth := hwf.trail_depth Volume.dir_root .root htake
    have htop := hwf.top_depth ht
    have hbound := s.pathStack.bounded
    rw [hb, Nat.zero_add, List.length_take] at hdepth
    rcases h.anchored.current with hcur | ⟨-, m, hm, hlt⟩
    · refine ⟨hcur, ?_⟩
      have := (hcur ▸ hdepth).unique hwf htop
      omega
    · have := hdepth.unique hwf hm
      omega
  · rintro ⟨ho, hjl⟩
    rw [List.take_of_length_le (by omega), ← Volume.top_eq_bottom]
    exact ho.symm

/-- A move ends in a directory shown whole, if it goes to one. -/
theorem Core.Tracked.enter_shown (h : c.Tracked) (ho : c.OnStack) (hr : c.leads path = .ok r) :
    (c.enter r.1 r.2).OnStack ∧ FitsCwd r.2.names ↔ c.ShownWhole path := by
  have ht := h.enter hr
  constructor
  · rintro ⟨hon, hfit⟩
    refine ⟨(h.enter_onStack ho hr).1 hon, fun r' hr' levels hl hb => ?_⟩
    obtain rfl : r = r' := Except.ok.inj (hr.symm.trans hr')
    have hbottom : Volume.bottom 0 r.2.levels = r.1 := (Volume.top_eq_bottom r.2).symm.trans hon.symm
    rw [h.wellFormed.wf.trail_unique hl ht.anchored.trail (hb.trans hbottom.symm)]
    exact hfit
  · rintro ⟨hstays, hfit⟩
    have hon := (h.enter_onStack ho hr).2 hstays
    exact ⟨hon, hfit r hr r.2.levels ht.anchored.trail ((Volume.top_eq_bottom r.2).symm.trans hon.symm)⟩

theorem harmless_of_shownWhole {op : Op} (h : shownWhole s op) : op.Harmless s := by
  cases op with
  | changeDirectory path => trivial
  | change x => exact h
  | readFile => trivial

/-- Along a run of such calls the text leads to the current directory. -/
theorem shown_of_run {ops : List Op} (hf : 4096 ≤ fuel) (hs : Clean s.faults) (h : s.toCore.Tracked)
    (ho : s.OnStack) (hfit : FitsCwd s.pathStack.names) (hr : History (Op.Step fuel shownWhole) s ops s') :
    (s'.toCore.Tracked ∧ s'.OnStack ∧ FitsCwd s'.pathStack.names) ∧ Clean s'.faults := by
  refine hr.keeps (I := fun s => (s.toCore.Tracked ∧ s.OnStack ∧ FitsCwd s.pathStack.names) ∧ Clean s.faults)
    (fun s op s' hi hx => ?_) ⟨⟨h, ho, hfit⟩, hs⟩
  obtain ⟨⟨h, ho, hfit⟩, hs⟩ := hi
  obtain ⟨hk, r, hx⟩ := hx
  obtain ⟨ht, hs', henv | ⟨path, r, rfl, hl, hc⟩⟩ := Op.tracked hf h hs (harmless_of_shownWhole hk) hx
  · refine ⟨⟨ht, ?_, by rw [henv.stack]; exact hfit⟩, hs'⟩
    unfold Core.OnStack
    rw [henv.current, henv.stack]
    exact ho
  · refine ⟨⟨ht, ?_⟩, hs'⟩
    rw [hc]
    exact (h.enter_shown ho hl).2 hk

end

/-- Along every run whose moves go to directories shown whole, `fat12_get_cwd` tells where the driver is. A move
that does not breaks this. -/
theorem cwd_tells_truth {fuel baseLba : Nat} {s₀ s s' : State} {ops : List Op} (hf : 4096 ≤ fuel)
    (hs : Clean s₀.faults) (hinit : init baseLba s₀ = .ok .ok s) (hw : s.toCore.WellFormed)
    (hr : History (Op.Step fuel shownWhole) s ops s') :
    TellsTruth fuel s' ∧ ∀ path s₁, changeDirectory fuel path s' = .ok .ok s₁ →
      (TellsTruth fuel s₁ ↔ s'.toCore.ShownWhole path) := by
  obtain ⟨ht, ho, hstack, hs₁⟩ := init_tracked hs hinit hw
  obtain ⟨⟨ht', ho', hfit⟩, -⟩ := shown_of_run hf hs₁ ht ho (by rw [hstack]; decide) hr
  refine ⟨(tellsTruth_iff hf ht').2 ⟨ho', hfit⟩, fun path s₁ hcd => ?_⟩
  obtain ⟨r, hl, hc⟩ := changeDirectory_leads hf ht' hcd
  have ht₁ : s₁.toCore.Tracked := by
    rw [hc]
    exact ht'.enter hl
  rw [tellsTruth_iff hf ht₁, hc]
  exact ht'.enter_shown ho' hl

/-! ## Directories inside one another -/

theorem blank_booted_core : blankBooted.toCore = blankMounted.toCore := (init_ok blank_reliable blank_booted).2.1

theorem blank_booted_wellFormed : blankBooted.toCore.WellFormed := by
  rw [blank_booted_core]
  exact blank_wellFormed.1

/-- `n` directories `name` made and entered, one inside the other, on the blank volume. -/
def nested (name : List UInt8) : Nat → State
  | 0 => blankBooted
  | n + 1 => endState (changeDirectory 4096 name (endState (createDirectory 4096 name (nested name n))))

/-- Both calls of round `n` succeed. -/
def NestedOk (name : List UInt8) (n : Nat) : Prop :=
  returned (createDirectory 4096 name (nested name n)) = some .ok ∧
    returned (changeDirectory 4096 name (endState (createDirectory 4096 name (nested name n)))) = some .ok

instance (name : List UInt8) (n : Nat) : Decidable (NestedOk name n) := inferInstanceAs (Decidable (_ ∧ _))

theorem nested_run {name : List UInt8} :
    ∀ {n : Nat}, (∀ m < n, NestedOk name m) → Run 4096 anyCall blankBooted (nested name n)
  | 0, _ => .refl _
  | n + 1, h => by
    obtain ⟨hmade, hentered⟩ := h n (Nat.lt_succ_self n)
    have hmade : (Op.change (.createDirectory name)).exec 4096 (nested name n) = .ok .ok _ :=
      eq_ok_of_returned hmade
    have hentered : (Op.changeDirectory name).exec 4096 _ = .ok .ok (nested name (n + 1)) :=
      eq_ok_of_returned hentered
    exact .step (.step (nested_run fun m hm => h m (Nat.lt_succ_of_lt hm)) trivial hmade) trivial hentered

/-- A name that takes all of the 12 characters. -/
def longName : List UInt8 := [65, 66, 67, 68, 69, 70, 71, 72, 46, 73, 74, 75]

theorem nested_ok : (∀ n < 17, NestedOk [68] n) ∧ ∀ n < 10, NestedOk longName n := by decide +kernel

/-- In the 17th of the directories `D` the stack still leads to the 16th, and `..` leads to the 15th. -/
theorem current_not_on_stack :
    Reliable blankState ∧ init 0 blankState = .ok .ok blankBooted ∧ blankBooted.toCore.WellFormed ∧
      Run 4096 anyCall blankBooted (nested [68] 17) ∧ ¬ (nested [68] 17).OnStack ∧
      changeDirectory 4096 [68] (endState (createDirectory 4096 [68] (nested [68] 16))) = .ok .ok (nested [68] 17) ∧
      ¬ ReturnsFrom 4096 (endState (createDirectory 4096 [68] (nested [68] 16))) (nested [68] 17) := by
  have hstack : (nested [68] 17).currentDirCluster = 18 ∧ (nested [68] 17).pathStack.top = 17 := by decide +kernel
  have hback : (endState (createDirectory 4096 [68] (nested [68] 16))).currentDirCluster = 17 ∧
      (endState (changeDirectory 4096 [dot, dot] (nested [68] 17))).currentDirCluster = 16 := by decide +kernel
  refine ⟨blank_reliable, blank_booted, blank_booted_wellFormed, nested_run nested_ok.1, ?_,
    eq_ok_of_returned (nested_ok.1 16 (by decide)).2, ?_⟩
  · unfold Core.OnStack
    rw [hstack.1, hstack.2]
    decide
  · rintro ⟨s, hs, hcur, -⟩
    rw [hs, endState_ok, hcur, hback.1] at hback
    exact absurd hback.2 (by decide)

/-- On a disk that works every call is harmless, and every run keeps the driver on track. -/
theorem Core.Tracked.of_run {fuel : Nat} {s s' : State} (hf : 4096 ≤ fuel) (hs : Reliable s) (h : s.toCore.Tracked)
    (hr : Run fuel anyCall s s') : s'.toCore.Tracked ∧ Reliable s' := by
  induction hr with
  | refl => exact ⟨h, hs⟩
  | @step s₁ s₂ op r _ _ hx ih =>
    obtain ⟨h₁, hs₁⟩ := ih
    have hk : op.Harmless s₁ := by
      cases op with
      | change x => exact harmless_of_reliable hs₁ x
      | changeDirectory path => trivial
      | readFile => trivial
    refine ⟨(Op.tracked hf h₁ (fun k => .inl (hs₁ k)) hk hx).1, ?_⟩
    obtain ⟨r', c', hg, -⟩ := op.returns hf h₁.wellFormed
    exact (hg.eq_of_ok rfl hs₁ hx).2.2

/-- In the 17th of the directories `D`, and in the 10th of those with names of 12 characters, the text leads to
the one above. -/
theorem cwd_not_truth :
    Reliable blankState ∧ init 0 blankState = .ok .ok blankBooted ∧ blankBooted.toCore.WellFormed ∧
      (Run 4096 anyCall blankBooted (nested [68] 17) ∧ ¬ TellsTruth 4096 (nested [68] 17)) ∧
      Run 4096 anyCall blankBooted (nested longName 10) ∧ ¬ TellsTruth 4096 (nested longName 10) := by
  have hdeep : (nested [68] 17).currentDirCluster = 18 ∧ (nested [68] 17).pathStack.top = 17 := by decide +kernel
  have hlong : ¬ FitsCwd (nested longName 10).pathStack.names := by decide +kernel
  have hbooted := init_tracked (fun k => .inl (blank_reliable k)) blank_booted blank_booted_wellFormed
  have hiff : ∀ {s : State}, Run 4096 anyCall blankBooted s →
      (TellsTruth 4096 s ↔ s.OnStack ∧ FitsCwd s.pathStack.names) := fun hr =>
    tellsTruth_iff (Nat.le_refl 4096)
      (hbooted.1.of_run (Nat.le_refl 4096) (init_ok blank_reliable blank_booted).2.2 hr).1
  have hD := nested_run nested_ok.1
  have hL := nested_run nested_ok.2
  refine ⟨blank_reliable, blank_booted, blank_booted_wellFormed, ⟨hD, fun h => ?_⟩, hL,
    fun h => hlong ((hiff hL).1 h).2⟩
  have hon := ((hiff hD).1 h).1
  unfold Core.OnStack at hon
  rw [hdeep.1, hdeep.2] at hon
  exact absurd hon (by decide)

/-! ## A directory made at the second try -/

/-- A mount of the blank disk that succeeds, whatever fails behind it. -/
theorem blank_mounts {s₀ s : State} (hcore : s₀.toCore = blankState.toCore) (hinit : init 0 s₀ = .ok .ok s) :
    s.toCore = blankMounted.toCore := by
  obtain ⟨-, hc, -⟩ := init_ok (repaired_reliable s₀) ((heeds_init 0).repaired hinit rfl)
  rw [repaired_toCore, repaired_toCore, hcore] at hc
  exact hc

/-- The blank disk, with the first call behind the mount failing. -/
@[irreducible] def stumblingDisk : State := blankState.withFaults (failingAt 4)

/-- Mounted, `D` not made, made then, and entered. -/
@[irreducible] def stumblingBooted : State := endState (init 0 stumblingDisk)

@[irreducible] def stumblingTried : State := endState (createDirectory 4096 [68] stumblingBooted)

@[irreducible] def stumblingMade : State := endState (createDirectory 4096 [68] stumblingTried)

@[irreducible] def stumblingEntered : State := endState (changeDirectory 4096 [68] stumblingMade)

theorem stumbling_runs :
    returned (init 0 stumblingDisk) = some .ok ∧
      returned (createDirectory 4096 [68] stumblingBooted) = some .errNoFreeCluster ∧
      returned (createDirectory 4096 [68] stumblingTried) = some .ok ∧
      returned (changeDirectory 4096 [68] stumblingMade) = some .ok ∧ stumblingBooted.currentDirCluster = 0 ∧
      stumblingTried.currentDirCluster = 0 ∧ stumblingEntered.pathStack.levels = [(2, [68])] := by decide +kernel

theorem stumbling_clean : Clean stumblingDisk.faults := by
  unfold stumblingDisk
  exact clean_failingAt 4

theorem stumbling_booted : init 0 stumblingDisk = .ok .ok stumblingBooted := by
  unfold stumblingBooted
  exact eq_ok_of_returned stumbling_runs.1

theorem stumbling_tried :
    (Op.change (.createDirectory [68])).exec 4096 stumblingBooted = .ok .errNoFreeCluster stumblingTried := by
  unfold stumblingTried
  exact eq_ok_of_returned stumbling_runs.2.1

theorem stumbling_made : (Op.change (.createDirectory [68])).exec 4096 stumblingTried = .ok .ok stumblingMade := by
  unfold stumblingMade
  exact eq_ok_of_returned stumbling_runs.2.2.1

theorem stumbling_entered : (Op.changeDirectory [68]).exec 4096 stumblingMade = .ok .ok stumblingEntered := by
  unfold stumblingEntered
  exact eq_ok_of_returned stumbling_runs.2.2.2.1

theorem stumbling_wellFormed : stumblingBooted.toCore.WellFormed := by
  rw [blank_mounts (by unfold stumblingDisk; rfl) stumbling_booted]
  exact blank_wellFormed.1

/-- In the root directory `D` is not made over an entry that is there. -/
theorem harmless_D {s : State} (hs : s.currentDirCluster = 0) : (Change.createDirectory [68]).Harmless s := by
  refine harmless_inRoot fun d n hr => ?_
  have hd : ∃ n, s.toCore.volume.resolve (s.toCore.start [68]).1 (s.toCore.start [68]).2 (components [68]) =
      .ok (s.currentDirCluster, n) :=
    ⟨_, rfl⟩
  obtain ⟨m, hm⟩ := hd
  rw [hm] at hr
  cases hr
  exact hs

/-- Both tries, as calls that meet a condition. -/
theorem stumbling_tries {K : State → Op → Prop} (hK : ∀ s x, Change.Harmless s x → K s (.change x)) :
    History (Op.Step 4096 K) stumblingBooted [.change (.createDirectory [68]), .change (.createDirectory [68])]
      stumblingMade := by
  obtain ⟨-, -, -, -, hbooted, htried, -⟩ := stumbling_runs
  exact .snoc (.snoc (.nil _) ⟨hK _ _ (harmless_D hbooted), _, stumbling_tried⟩) ⟨hK _ _ (harmless_D htried), _,
    stumbling_made⟩

theorem stumbling_stays : stumblingMade.toCore.StaysOnStack [68] := fun _ _ => by decide +kernel

/-- The way in stays on the stack, and `..` leads back. -/
theorem current_on_stack_stumbling :
    stumblingEntered.OnStack ∧ stumblingEntered.toCore.volume.Trail 0 stumblingEntered.pathStack.levels ∧
      stumblingEntered.pathStack.levels = [(2, [68])] ∧ ReturnsFrom 4096 stumblingMade stumblingEntered := by
  have htries : History (Op.Step 4096 staysOnStack) stumblingBooted _ stumblingMade :=
    stumbling_tries fun _ _ h => h
  have hentered : Op.Step 4096 staysOnStack stumblingMade (.changeDirectory [68]) stumblingEntered :=
    ⟨stumbling_stays, _, stumbling_entered⟩
  obtain ⟨-, -, -, hback⟩ :=
    current_on_stack (Nat.le_refl 4096) stumbling_clean stumbling_booted stumbling_wellFormed htries
  obtain ⟨hon, htrail, -⟩ :=
    current_on_stack (Nat.le_refl 4096) stumbling_clean stumbling_booted stumbling_wellFormed
      (.snoc htries hentered)
  exact ⟨hon, htrail, stumbling_runs.2.2.2.2.2.2,
    (hback [68] _ (by decide) (List.forall_mem_singleton.2 rfl) (by decide) (by decide) stumbling_entered).2
      stumbling_stays⟩

/-- The way into `D` is shown whole. -/
theorem stumbling_shown : stumblingMade.toCore.ShownWhole [68] := by
  obtain ⟨ht, ho, -, hs⟩ := init_tracked stumbling_clean stumbling_booted stumbling_wellFormed
  obtain ⟨⟨ht, ho⟩, -⟩ := tracked_of_run (Nat.le_refl 4096) hs ht ho (stumbling_tries fun _ _ h => h)
  obtain ⟨r, hr, hc⟩ := changeDirectory_leads (Nat.le_refl 4096) ht stumbling_entered
  refine (ht.enter_shown ho hr).1 ⟨(ht.enter_onStack ho hr).2 stumbling_stays, ?_⟩
  have hlevels : r.2.levels = [(2, [68])] := by
    rw [← stumbling_runs.2.2.2.2.2.2, hc]
    rfl
  rw [PathStack.names, hlevels]
  decide

/-- The text is `/D`, and true. -/
theorem cwd_tells_truth_stumbling : TellsTruth 4096 stumblingEntered ∧ stumblingEntered.cwd = [slash, 68] := by
  have htries : History (Op.Step 4096 shownWhole) stumblingBooted _ stumblingMade := stumbling_tries fun _ _ h => h
  have hentered : Op.Step 4096 shownWhole stumblingMade (.changeDirectory [68]) stumblingEntered :=
    ⟨stumbling_shown, _, stumbling_entered⟩
  obtain ⟨htruth, -⟩ := cwd_tells_truth (Nat.le_refl 4096) stumbling_clean stumbling_booted stumbling_wellFormed
    (.snoc htries hentered)
  exact ⟨htruth, by decide +kernel⟩

end AltoniumOS.Fat12

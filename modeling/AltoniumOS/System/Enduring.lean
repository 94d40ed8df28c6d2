/-
One call on a disk that fails now and then: what it leaves of the tree, whatever it answers. A deletion may free
the clusters of an entry it does not get to mark, and a directory may be made over an entry a failing search
missed; every other call, and these where they do not go wrong so, keep all directories where they are.
-/
import AltoniumOS.Refine.Heeding
import AltoniumOS.Refine.Interrupted
import AltoniumOS.Refine.Sync
import AltoniumOS.System.Runs
import AltoniumOS.Volume.Levels

namespace AltoniumOS.Fat12

open AltoniumOS.Lib

/-! ## Creating, behind its first search -/

theorem heeds_createBehind (fuel : Nat) (fs : Fs) (d : Nat) (n : ShortName) :
    Heeds (· = .ok) (createBehind fuel fs d n) := by
  unfold createBehind
  refine heeds_allocateCluster.bind fun k => ?_
  split
  · exact .inr (.pure fun h => by cases h)
  · rename_i hk
    refine .inl ⟨hk, .clusterBuffer fun b => .step (heeds_setClusterBuffer _) fun _ => .write ?_ ?_⟩
    · rw [if_pos rfl]
      refine (heeds_writeDirectoryEntry fuel d n _).bind fun code => ?_
      split
      · exact .inl ⟨rfl, .pure _⟩
      · rename_i hne
        exact .inr (.step (heeds_freeChain fuel k) fun _ => .pure hne)
    · rw [if_neg (by decide)]
      exact .step (heeds_freeChain fuel k) fun _ => .pure fun h => by cases h

/-- `fat12_create_directory` does not notice every call that fails. -/
theorem calls_createDirectoryBody (fuel : Nat) (path : List UInt8) : Calls (createDirectoryBody fuel path) := by
  unfold createDirectoryBody
  refine .core fun c => ?_
  split
  · exact .pure _
  refine Calls.bind (heeds_resolveParentAndName fuel path) fun r => ?_
  split
  · exact .pure _
  · rename_i d n
    refine Calls.bind (heeds_findEntry fuel d n) fun r => ?_
    split
    · exact .pure _
    · exact (heeds_createBehind fuel c.fs d n).calls

theorem Change.calls (fuel : Nat) (x : Change) : Calls (x.body fuel) := by
  cases x with
  | writeFile path data size => exact (heeds_writeFileBody fuel path data size).calls
  | createDirectory path => exact calls_createDirectoryBody fuel path
  | deleteFile path => exact (heeds_deleteFileBody fuel path).calls

section

variable {fuel d : Nat} {n : ShortName} {s s' : State} {r : Code} {path : List UInt8}

/-- `b` disk calls lead behind the first search of a creation: it finds nothing, or the last of them fails in it. -/
def Core.Unfound (c : Core) (f : Nat → Option Nat) (path : List UInt8) (d : Nat) (n : ShortName) (b : Nat) : Prop :=
  (b = c.resolveReads path + c.lookupReads d n ∧ (∀ k < b, f k = none) ∧ c.volume.find d n = none) ∨
    ∃ i, c.resolveReads path ≤ i ∧ i < c.resolveReads path + c.lookupReads d n ∧ FailsAt f i ∧ b = i + 1

/-- A creation stops before it takes a cluster, or goes on from there. -/
theorem createDirectoryBody_cases (hf : 4096 ≤ fuel) (h : s.toCore.WellFormed)
    (hm : createDirectoryBody fuel path s = .ok r s') :
    s'.toCore = s.toCore ∧ r ≠ .ok ∨
      ∃ d n b s₁, s.toCore.volume.resolve (s.toCore.start path).1 (s.toCore.start path).2 (components path) =
        .ok (d, n) ∧
      s.toCore.Unfound s.faults path d n b ∧ s₁.toCore = s.toCore ∧ s₁.faults = later s.faults b ∧
      createBehind fuel s.fs d n s₁ = .ok r s' := by
  unfold createDirectoryBody at hm
  obtain ⟨c, s₀, hc, hm⟩ := bind_eq_ok hm
  cases hc
  rw [h.mounted.ready, if_neg (by decide)] at hm
  obtain ⟨a, s₁, h1, hm⟩ := bind_eq_ok hm
  obtain ⟨hc₁, ha⟩ := (looks_resolve h.mounted h.wf hf h.settled path).of_ok rfl h1
  split at hm
  · rename_i e
    cases hm
    refine .inl ⟨hc₁, ?_⟩
    rcases ha with ⟨ha, -⟩ | ⟨ha, -⟩
    · exact Volume.resolve_error ha.symm
    · cases ha
      decide
  rename_i d n
  obtain ⟨hres, hok, hf₁⟩ :
      s.toCore.volume.resolve (s.toCore.start path).1 (s.toCore.start path).2 (components path) = .ok (d, n) ∧
        (∀ k < s.toCore.resolveReads path, s.faults k = none) ∧
        s₁.faults = later s.faults (s.toCore.resolveReads path) := by
    rcases ha with ⟨ha, hok⟩ | ⟨ha, -⟩
    · exact ⟨ha.symm, hok⟩
    · cases ha
  obtain ⟨b, s₂, h2, hm⟩ := bind_eq_ok hm
  obtain ⟨hc₂, hb⟩ :=
    (looks_findEntry h.mounted.accepted hf (h.wf.walkable (resolve_dir h.wf h.settled hres).1) n).of_ok hc₁ h2
  split at hm
  · cases hm
    exact .inl ⟨hc₂, by decide⟩
  rename_i e
  refine .inr ⟨d, n, ?_⟩
  rw [hf₁] at hb
  -- the search found nothing, or stopped at a read that failed
  rcases hb with ⟨hb, hok₂, hf₂⟩ | ⟨-, i, hi, hfail, hf₂⟩
  · refine ⟨_, s₂, hres, .inl ⟨rfl, succeeds_append hok hok₂, ?_⟩, hc₂, by rw [hf₂, later_later, Nat.add_comm], hm⟩
    rw [find_none_iff]
    cases hl : s.toCore.volume.lookup d n with
    | none => rfl
    | some p =>
      rw [hl] at hb
      cases hb
  · refine ⟨_, s₂, hres, .inr ⟨_, Nat.le_add_right .., by omega, hfail.append hok, rfl⟩, hc₂, ?_, hm⟩
    rw [hf₂, later_later]
    congr 1
    omega

/-- It does go on there. -/
theorem createDirectoryBody_behind (hf : 4096 ≤ fuel) (h : s.toCore.WellFormed) {b : Nat}
    (hr : s.toCore.volume.resolve (s.toCore.start path).1 (s.toCore.start path).2 (components path) = .ok (d, n))
    (hb : s.toCore.Unfound s.faults path d n b) : ∃ s₁, s₁.toCore = s.toCore ∧ s₁.faults = later s.faults b ∧
      createDirectoryBody fuel path s = createBehind fuel s.fs d n s₁ := by
  have hres := looks_resolve h.mounted h.wf hf h.settled path
  rw [hr] at hres
  have hfind := looks_findEntry h.mounted.accepted hf (h.wf.walkable (resolve_dir h.wf h.settled hr).1) n
  have hok : ∀ k < s.toCore.resolveReads path, s.faults k = none := fun k hk => by
    rcases hb with ⟨rfl, hok, -⟩ | ⟨i, hle, -, hfail, -⟩
    · exact hok k (by omega)
    · exact hfail.1 k (by omega)
  obtain ⟨s₁, h1, hc₁, hf₁⟩ := (hres.finds _ hok).run rfl rfl
  have hgo : ∀ {e s₂}, findEntry fuel d n s₁ = .ok (.error e) s₂ →
      createDirectoryBody fuel path s = createBehind fuel s.fs d n s₂ := fun h2 => by
    unfold createDirectoryBody
    rw [bind_ok (show getCore s = .ok s.toCore s from rfl), h.mounted.ready, if_neg (by decide), bind_ok h1]
    dsimp only
    rw [bind_ok h2]
    rfl
  rcases hb with ⟨rfl, hok, hnone⟩ | ⟨i, hle, hlt, hfail, rfl⟩
  · rw [find_none_iff.1 hnone] at hfind
    have hok₂ : ∀ k < s.toCore.lookupReads d n, s₁.faults k = none := fun k hk => by
      rw [hf₁]
      exact hok (k + s.toCore.resolveReads path) (by omega)
    obtain ⟨s₂, h2, hc₂, hf₂⟩ := (hfind.finds _ hok₂).run hc₁ rfl
    exact ⟨s₂, hc₂, by rw [hf₂, hf₁, later_later, Nat.add_comm], hgo h2⟩
  · have hfail₁ : FailsAt s₁.faults (i - s.toCore.resolveReads path) := by
      rw [hf₁]
      exact hfail.later hle
    obtain ⟨s₂, h2, hc₂, hf₂⟩ := (hfind.fails _ _ (by omega) hfail₁).run hc₁ rfl
    refine ⟨s₂, hc₂, ?_, hgo h2⟩
    rw [hf₂, hf₁, later_later]
    congr 1
    omega

end

/-! ## The tree -/

/-- From `c` to `c'` the driver's variables are kept, and every directory is where it was. -/
structure TreeKept (c c' : Core) : Prop where
  env : SameEnv c c'
  wellFormed : c'.WellFormed
  dirs : ∀ x q, c.volume.IsDir x q → c'.volume.IsDir x q
  children : ∀ x k name, c.volume.Dir x → c.volume.Child x k name → c'.volume.Child x k name

section

variable {c c' c₁ : Core} {d : Nat} {n : ShortName}

theorem TreeKept.refl (h : c.WellFormed) : TreeKept c c := ⟨.refl c, h, fun _ _ hx => hx, fun _ _ _ _ hc => hc⟩

/-- A change keeps the subdirectories there are, where they are. -/
theorem Edited.child {o e : RawDirEntry} (he : Edited c c' d n o e) (h : c.WellFormed) {x k : Nat}
    {name : List UInt8} (hx : c.volume.Dir x) (hc : c.volume.Child x k name) : c'.volume.Child x k name := by
  by_cases hd : c.volume.Dir d
  · exact he.edit.child h.wf he.wf hd hx hc
  · obtain ⟨q, hq⟩ := hx
    have hne : x ≠ d := by
      rintro rfl
      exact hd ⟨q, hq⟩
    exact hc.congr (he.edit.slots_ne x q hq hne)

theorem Edited.treeKept {o e : RawDirEntry} (he : Edited c c' d n o e) (h : c.WellFormed) : TreeKept c c' :=
  ⟨he.env, he.wellFormed h, he.edit.dirs, fun _ _ _ hx hc => he.child h hx hc⟩

theorem Unchanged.treeKept (u : Unchanged c c') (h : c.WellFormed) : TreeKept c c' := by
  refine ⟨u.env, u.wellFormed h, fun x q hx => ((u.agree h.wf).isDir h.wf).2 hx, fun x k name hx hc => ?_⟩
  obtain ⟨q, hq⟩ := hx
  exact hc.congr ((u.agree h.wf).slots h.wf hq)

/-- The directories of a volume that shows the same are where the driver stood. -/
theorem Volume.Shows.settled (hs : Volume.Shows c.volume c'.volume) (he : SameEnv c c')
    (h : c.Settled) : c'.Settled := by
  constructor
  · rw [he.current]
    exact hs.dir _ h.current
  · rw [he.stack]
    exact fun k hk => hs.dir k (h.stack k hk)

theorem Extended.wellFormed {z : Nat} (x : Extended c c' d z) (h : c.WellFormed) : c'.WellFormed :=
  ⟨x.env.mounted h.mounted, x.wf, x.shows.settled x.env h.settled⟩

theorem Undone.treeKept (u : Undone c c' d) (h : c.WellFormed) : TreeKept c c' := by
  cases u with
  | unchanged u => exact u.treeKept h
  | extended x =>
    refine ⟨x.env, x.wellFormed h, x.dirs, fun y k name hy hc => ?_⟩
    obtain ⟨input, m, e, hm, he, hrest⟩ := hc
    exact ⟨input, m, e, hm, by rw [x.shows.find y m hy]; exact he, hrest⟩

theorem TreeKept.of_volume (t : TreeKept c c₁) (henv : SameEnv c₁ c')
    (hv : c'.volume = c₁.volume) : TreeKept c c' := by
  have hw := t.wellFormed
  refine ⟨t.env.trans henv, ⟨henv.mounted hw.mounted, by rw [hv]; exact hw.wf, ?_⟩, by rw [hv]; exact t.dirs, by
    rw [hv]; exact t.children⟩
  constructor
  · rw [hv, henv.current]
    exact hw.settled.current
  · rw [hv, henv.stack]
    exact hw.settled.stack

end

/-! ## One change -/

/-- The change does not go wrong on this disk. A directory is not made over an entry that a failing search
missed; and of a file that has clusters and lies in a subdirectory, no deletion fails between the search and the
mark in its slot. -/
def Change.Harmless (s : State) : Change → Prop
  | .writeFile _ _ _ => True
  | .createDirectory path => ∀ d n p, s.toCore.Denotes path d n p → ¬ s.toCore.Overwrites s.faults path d n p
  | .deleteFile path => ∀ d n p, s.toCore.Denotes path d n p → (s.toCore.volume.slot p).isDirectory = false →
      d = 0 ∨ (s.toCore.volume.slot p).cluster = 0 ∨
      (∃ k < s.toCore.resolveReads path + s.toCore.lookupReads d n, s.faults k ≠ none) ∨
        ∀ k < s.toCore.resolveReads path + s.toCore.lookupReads d n + (s.toCore.lookupReads d n + 2),
        s.faults k = none

section

variable {fuel : Nat} {s s' : State} {r : Code} {path : List UInt8}

/-- The root directory is searched without the disk. -/
theorem harmless_inRoot
    (hd : ∀ d n, s.toCore.volume.resolve (s.toCore.start path).1 (s.toCore.start path).2 (components path) =
      .ok (d, n) → d = 0) :
    (Change.createDirectory path).Harmless s := by
  rintro d n p x ⟨i, hle, hlt, -⟩
  rw [hd d n x.resolve, Core.lookupReads, if_pos rfl] at hlt
  omega

/-- A change that heeds its calls and succeeded made the edit it makes on a disk that works. -/
theorem Change.edited (hf : 4096 ≤ fuel) (h : s.toCore.WellFormed) {x : Change} (hx : Heeds (· = .ok) (x.body fuel))
    (hm : x.body fuel s = .ok .ok s') : ∃ d n o e, Edited s.toCore s'.toCore d n o e := by
  have hrun := hx.repaired hm rfl
  rcases x.gives_body hf h with ⟨c', d, n, o, e, hg, he⟩ | ⟨e, c', hg, hne, -⟩
  · obtain ⟨-, hc, -⟩ := hg.eq_of_ok (repaired_toCore s) (repaired_reliable s) hrun
    rw [repaired_toCore] at hc
    exact ⟨d, n, o, e, by rw [hc]; exact he⟩
  · exact absurd (hg.eq_of_ok (repaired_toCore s) (repaired_reliable s) hrun).1.symm hne

theorem writeFileBody_tree (hf : 4096 ≤ fuel) (h : s.toCore.WellFormed) (hs : Clean s.faults) {data : Option Buf}
    {size : Nat} (hm : writeFileBody fuel path data size s = .ok r s') : TreeKept s.toCore s'.toCore := by
  by_cases hr : r = .ok
  · subst hr
    obtain ⟨d, n, o, e, he⟩ :=
      Change.edited (x := .writeFile path data size) hf h (heeds_writeFileBody fuel path data size) hm
    exact he.treeKept h
  · obtain ⟨r', s₁, h1, -, h2⟩ := ends_writeFileBody h.mounted h.wf h.settled hf path data size s rfl hs
    cases hm.symm.trans h1
    rcases h2 hr with u | ⟨d, n, -, u⟩
    · exact u.treeKept h
    · exact u.treeKept h

/-- A deletion of what is no file stops before it changes anything. -/
theorem deleteFileBody_missing (hf : 4096 ≤ fuel) (h : s.toCore.WellFormed)
    (hx : ¬ ∃ d n p, s.toCore.Denotes path d n p ∧ (s.toCore.volume.slot p).isDirectory = false)
    (hm : deleteFileBody fuel path s = .ok r s') : s'.toCore = s.toCore := by
  unfold deleteFileBody at hm
  obtain ⟨c, s₀, hc, hm⟩ := bind_eq_ok hm
  cases hc
  rw [h.mounted.ready, if_neg (by decide)] at hm
  obtain ⟨a, s₁, h1, hm⟩ := bind_eq_ok hm
  obtain ⟨hc₁, ha⟩ := (looks_resolve h.mounted h.wf hf h.settled path).of_ok rfl h1
  split at hm
  · cases hm
    exact hc₁
  · rename_i d n
    have hres : s.toCore.volume.resolve (s.toCore.start path).1 (s.toCore.start path).2 (components path) =
        .ok (d, n) := by
      rcases ha with ⟨ha, -⟩ | ⟨ha, -⟩
      · exact ha.symm
      · cases ha
    obtain ⟨hdir, -⟩ := resolve_dir h.wf h.settled hres
    obtain ⟨b, s₂, h2, hm⟩ := bind_eq_ok hm
    obtain ⟨hc₂, hb⟩ := (looks_findEntry h.mounted.accepted hf (h.wf.walkable hdir) n).of_ok hc₁ h2
    split at hm
    · cases hm
      exact hc₂
    · rename_i e p
      split at hm
      · cases hm
        exact hc₂
      · -- an entry found that is no directory would be such a file
        rename_i hfile
        exfalso
        rcases hb with ⟨hb, -⟩ | ⟨hb, -⟩
        · cases hl : s.toCore.volume.lookup d n with
          | none =>
            rw [hl] at hb
            cases hb
          | some p' =>
            rw [hl] at hb
            cases hb
            exact hx ⟨d, n, p, ⟨hres, hl⟩, by simpa using hfile⟩
        · cases hb

/-- A deletion that fails and is harmless leaves all as it was. -/
theorem deleteFileBody_fails (hf : 4096 ≤ fuel) (h : s.toCore.WellFormed) (hs : Clean s.faults)
    (hk : (Change.deleteFile path).Harmless s) (hm : deleteFileBody fuel path s = .ok r s') (hr : r ≠ .ok) :
    s'.toCore = s.toCore := by
  by_cases hx : ∃ d n p, s.toCore.Denotes path d n p ∧ (s.toCore.volume.slot p).isDirectory = false
  · obtain ⟨d, n, p, x, hfile⟩ := hx
    have hcond := hk d n p x hfile
    rcases succeeds_or_fails s.faults (s.toCore.resolveReads path + s.toCore.lookupReads d n)
      with hok | ⟨i, hi, hfail⟩
    · by_cases hmark : d = 0 ∨ ∀ k < s.toCore.lookupReads d n + 2,
          later s.faults (s.toCore.resolveReads path + s.toCore.lookupReads d n) k = none
      · obtain ⟨c', f', hrun⟩ := runs_mark_ok h.mounted h.wf h.settled hf x hfile hmark
        obtain ⟨s₁, h1, -⟩ := (runs_delete_found h.mounted h.wf h.settled hf x hfile hok hrun).run rfl rfl
        cases hm.symm.trans h1
        exact absurd rfl hr
      · -- the mark fails, and there was no cluster to give back
        obtain ⟨h0, hall⟩ := not_or.1 hmark
        obtain ⟨i, hi, hfail⟩ := (succeeds_or_fails _ _).resolve_left hall
        have hrun := runs_mark_fails h.mounted h.wf h.settled hf x hfile h0 (hs.later _) hi hfail
        obtain ⟨s₁, h1, h2, -⟩ := (runs_delete_found h.mounted h.wf h.settled hf x hfile hok hrun).run rfl rfl
        cases hm.symm.trans h1
        obtain ⟨q, hd, -, hp⟩ := x.entryAt h.wf h.settled
        rcases hcond with h3 | h3 | ⟨k, hk, h3⟩ | h3
        · exact absurd h3 h0
        · rcases h.wf.owned_cases (hp.entry hd) with ⟨hnil, -⟩ | hc
          · rw [h2, hnil]
            rfl
          · have := hc.start.1
            omega
        · exact absurd (hok k hk) h3
        · refine absurd (fun k hk => ?_) hall
          exact h3 (k + (s.toCore.resolveReads path + s.toCore.lookupReads d n)) (by omega)
    · obtain ⟨s₁, h1, h2, -⟩ := (runs_delete_unread h.mounted h.wf h.settled hf x hi hfail).run rfl rfl
      cases hm.symm.trans h1
      exact h2
  · exact deleteFileBody_missing hf h hx hm

theorem deleteFileBody_tree (hf : 4096 ≤ fuel) (h : s.toCore.WellFormed) (hs : Clean s.faults)
    (hk : (Change.deleteFile path).Harmless s) (hm : deleteFileBody fuel path s = .ok r s') :
    TreeKept s.toCore s'.toCore := by
  by_cases hr : r = .ok
  · subst hr
    obtain ⟨d, n, o, e, he⟩ := Change.edited (x := .deleteFile path) hf h (heeds_deleteFileBody fuel path) hm
    exact he.treeKept h
  · rw [deleteFileBody_fails hf h hs hk hm hr]
    exact .refl h

theorem createDirectoryBody_tree (hf : 4096 ≤ fuel) (h : s.toCore.WellFormed) (hs : Clean s.faults)
    (hk : (Change.createDirectory path).Harmless s) (hm : createDirectoryBody fuel path s = .ok r s') :
    TreeKept s.toCore s'.toCore := by
  rcases createDirectoryBody_cases hf h hm with ⟨hc, -⟩ | ⟨d, n, b, s₁, hres, -, hc, hf₁, hrun⟩
  · rw [hc]
    exact .refl h
  obtain ⟨⟨q, hd⟩, hn⟩ := resolve_dir h.wf h.settled hres
  by_cases hr : r = .ok
  · subst hr
    cases hl : s.toCore.volume.lookup d n with
    | some p =>
      -- the name is there, and the directory was not made over it
      have x : s.toCore.Denotes path d n p := ⟨hres, hl⟩
      obtain ⟨r', c', f', hkeep, hne, -⟩ := create_keeps h.mounted h.wf h.settled hf x (hk d n p x)
      obtain ⟨s₃, h3, -⟩ := hkeep.run rfl rfl
      cases hm.symm.trans h3
      exact absurd rfl hne
    | none =>
      have hfind : s.toCore.volume.find d n = none := by rw [Volume.find_eq, hl]; rfl
      have hrun := (heeds_createBehind fuel s.fs d n).repaired hrun rfl
      rcases gives_createBehind h.mounted h.wf hf hd hn hfind with ⟨c', k, hg, hmade, -⟩ | ⟨e, c', hg, hne, -⟩
      · obtain ⟨-, hc', -⟩ := hg.eq_of_ok (s := s₁.repaired) hc (repaired_reliable s₁) hrun
        obtain ⟨o, -, he⟩ := hmade.edited
        rw [show s'.toCore = c' from hc']
        exact he.treeKept h
      · exact absurd (hg.eq_of_ok (s := s₁.repaired) hc (repaired_reliable s₁) hrun).1.symm hne
  · have hs₁ : Clean s₁.faults := by
      rw [hf₁]
      exact hs.later b
    obtain ⟨r', s₃, h3, -, hu⟩ := ends_createBehind h.mounted h.wf hf hd n s₁ hc hs₁
    cases hrun.symm.trans h3
    exact (hu hr).treeKept h

/-- A harmless change keeps the tree, whatever it answers. -/
theorem Change.treeKept (hf : 4096 ≤ fuel) (h : s.toCore.WellFormed) (hs : Clean s.faults) (x : Change)
    (hk : x.Harmless s) (hx : x.exec fuel s = .ok r s') : TreeKept s.toCore s'.toCore ∧ Clean s'.faults := by
  rw [x.exec_eq] at hx
  obtain ⟨r₁, s₁, h1, hx⟩ := bind_eq_ok hx
  have hs₁ := (x.calls fuel).clean h1 hs
  have ht : TreeKept s.toCore s₁.toCore := by
    cases x with
    | writeFile path data size => exact writeFileBody_tree hf h hs h1
    | createDirectory path => exact createDirectoryBody_tree hf h hs hk h1
    | deleteFile path => exact deleteFileBody_tree hf h hs hk h1
  split at hx
  · obtain ⟨henv, hv⟩ := flushAll_volume ht.wellFormed.mounted.accepted hx
    obtain ⟨s₂, h2, n, hn⟩ := flushAll_returns s₁
    cases hx.symm.trans h2
    exact ⟨ht.of_volume henv hv, by rw [hn]; exact hs₁.later n⟩
  · cases hx
    exact ⟨ht, hs₁⟩

end

end AltoniumOS.Fat12

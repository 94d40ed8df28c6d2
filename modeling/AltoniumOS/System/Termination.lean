/-
Where the directory walkers return. `fat12_find_entry`, `fat12_find_free_entry` and
`fat12_iterate_directory_internal` follow the links of the FAT without counting them, on whatever bytes the
volume holds: they stop at a number that ends a chain, at a slot never used, or at what they look for. So all of
them return, whatever is looked for, just where the links lead to one of the first two. In the model returning
is returning for some number of rounds.
-/
import AltoniumOS.Refine.Alloc
import AltoniumOS.System.Directories

namespace AltoniumOS.Fat12

open AltoniumOS.Lib

/-- Cluster `k` ends every walk: it is outside every chain, or one of its slots was never used. -/
def Core.EndsWalk (c : Core) (k : Nat) : Prop :=
  inChain k = false ∨ ∃ i < c.fs.entriesPerCluster, (slotAt (c.clusterBytes k) i).name.first = nameEnd

instance (c : Core) (k : Nat) : Decidable (c.EndsWalk k) := inferInstanceAs (Decidable (_ ∨ _))

/-- The links lead from `d` to a cluster that ends every walk. -/
def Core.WalkEnds (c : Core) (d : Nat) : Prop := ∃ n, c.EndsWalk ((getFatEntry c)^[n] d)

section

variable {c : Core} {s : State} {d : Nat}

theorem slotIn_of_inChain {k : Nat} (hk : inChain k = true) (i : Nat) :
    c.slotIn (k, i) = slotAt (c.clusterBytes k) i := by
  refine if_neg ?_
  rintro (rfl : k = 0)
  cases hk

theorem endsWalk_iff {k : Nat} (hin : inChain k = true) :
    c.EndsWalk k ↔ ((List.range c.fs.entriesPerCluster).map fun i => c.slotIn (k, i)).any
      (·.name.first == nameEnd) = true := by
  unfold Core.EndsWalk
  rw [or_iff_right (by simp [hin])]
  simp [slotIn_of_inChain hin]

/-- A scan that stops or hits at a slot never used does not run off a cluster with one. -/
theorem Core.EndsWalk.scan_ne {k : Nat} (h : c.EndsWalk k) (hin : inChain k = true) {v : RawDirEntry → Verdict}
    (hv : ∀ e : RawDirEntry, e.name.first = nameEnd → v e ≠ .skip) :
    scan (fun p => v (c.slotIn p)) (c.volume.block k) ≠ .ranOff := by
  obtain ⟨i, hi, he⟩ := h.resolve_left (by simp [hin])
  rw [← slotIn_of_inChain hin] at he
  intro hscan
  exact hv _ he (scan_ranOff_iff.1 hscan (k, i) (List.mem_map.2 ⟨i, List.mem_range.2 hi, rfl⟩))

/-! ## Searches -/

/-- Where a search that judges slots by `v` stops. -/
def Core.SearchStops (c : Core) (v : RawDirEntry → Verdict) (k : Nat) : Prop :=
  inChain k = false ∨ scan (fun p => v (c.slotIn p)) (c.volume.block k) ≠ .ranOff

instance (c : Core) (v : RawDirEntry → Verdict) (k : Nat) : Decidable (c.SearchStops v k) :=
  inferInstanceAs (Decidable (_ ∨ _))

theorem Core.EndsWalk.searchStops {k : Nat} (h : c.EndsWalk k) {v : RawDirEntry → Verdict}
    (hv : ∀ e : RawDirEntry, e.name.first = nameEnd → v e ≠ .skip) : c.SearchStops v k := by
  by_cases hin : inChain k = true
  · exact .inr (h.scan_ne hin hv)
  · exact .inl (by simpa using hin)

theorem findLoop_halts (hm : c.fs.Accepted) (hs : s.toCore = c) (hr : Reliable s) (n : ShortName) :
    Halts (fun fuel => loop (findRound n) fuel d) s ↔
      ∃ m, c.SearchStops (findVerdict n) ((getFatEntry c)^[m] d) := by
  refine Yields.loop_halts _ _ (fun k hk => ?_) (fun k hk => ?_) hs hr d
  · by_cases hin : inChain k = true
    · have hround := (looks_findRound hm n hin).gives
      have hstop := hk.resolve_left (by simp [hin])
      cases hscan : scan (fun p => findVerdict n (c.slotIn p)) (c.volume.block k) with
      | hit p => exact ⟨_, by rwa [hscan] at hround⟩
      | stopped => exact ⟨_, by rwa [hscan] at hround⟩
      | ranOff => exact absurd hscan hstop
    · refine ⟨.error .errNotFound, ?_⟩
      unfold findRound
      rw [if_neg hin]
      exact .pure _
  · obtain ⟨hin, hscan⟩ := not_or.1 hk
    have hround := (looks_findRound hm n (by simpa using hin)).gives
    rwa [not_not.1 hscan] at hround

theorem freeLoop_halts (hm : c.fs.Accepted) (hs : s.toCore = c) (hr : Reliable s) (previous : Nat) :
    Halts (fun fuel => loop freeRound fuel (d, previous)) s ↔
      ∃ m, c.SearchStops freeVerdict ((getFatEntry c)^[m] d) := by
  have hwalk : ∀ m, ((fun i : Nat × Nat => (getFatEntry c i.1, i.1))^[m] (d, previous)).1 = (getFatEntry c)^[m] d :=
    fun m =>
    (show Function.Semiconj Prod.fst (fun i : Nat × Nat => (getFatEntry c i.1, i.1)) (getFatEntry c) from fun _ =>
      rfl).iterate_right m _
  refine (Yields.loop_halts (fun i => c.SearchStops freeVerdict i.1) _ (fun i hi => ?_) (fun i hi => ?_) hs hr
    (d, previous)).trans (exists_congr fun m => by rw [hwalk])
  · obtain ⟨k, q⟩ := i
    by_cases hin : inChain k = true
    · have hround := (looks_freeRound hm q hin).gives
      have hstop := hi.resolve_left (by simp [hin])
      cases hscan : scan (fun p => freeVerdict (c.slotIn p)) (c.volume.block k) with
      | hit p => exact ⟨_, by rwa [hscan] at hround⟩
      | stopped => exact absurd hscan (scan_ne_stopped fun p => freeVerdict_ne_stop _)
      | ranOff => exact absurd hscan hstop
    · refine ⟨.inr q, ?_⟩
      rw [freeRound, if_neg hin]
      exact .pure _
  · obtain ⟨hin, hscan⟩ := not_or.1 hi
    have hround := (looks_freeRound hm i.2 (by simpa using hin)).gives
    rwa [not_not.1 hscan] at hround

theorem total_allocateCluster : Total allocateCluster := by
  unfold allocateCluster
  refine total_getCore.bind fun c => ?_
  split
  · exact .pure _
  · refine (total_modifyCore _).bind fun _ => total_getClusterBuffer.bind fun b =>
      (total_setClusterBuffer _).bind fun _ => ?_
    refine (total_getCore.bind fun c => total_diskWriteSectors _ _ _).bind fun ok => ?_
    split
    · exact .pure _
    · exact (total_modifyCore _).bind fun _ => .pure _

/-! ## Listings -/

section Listing

variable {κ : Type} {cb : κ → DirEntryInfo → Bool × κ}

/-- What a listing does at cluster `k`. -/
def Core.listBlock (c : Core) (cb : κ → DirEntryInfo → Bool × κ) (k : Nat) (ctx : κ) : Bool × κ :=
  iterateSlots cb (fun i => c.slotIn (k, i)) (List.range c.fs.entriesPerCluster) ctx

/-- Where the cluster loop of a listing stops. -/
def Core.ListStops (c : Core) (cb : κ → DirEntryInfo → Bool × κ) (i : Nat × κ) : Prop :=
  inChain i.1 = false ∨ (c.listBlock cb i.1 i.2).1 = true

/-- Where it goes on. -/
def Core.listNext (c : Core) (cb : κ → DirEntryInfo → Bool × κ) (i : Nat × κ) : Nat × κ :=
  (getFatEntry c i.1, (c.listBlock cb i.1 i.2).2)

theorem listNext_iterate (c : Core) (cb : κ → DirEntryInfo → Bool × κ) (ctx : κ) (m : Nat) :
    ((c.listNext cb)^[m] (d, ctx)).1 = (getFatEntry c)^[m] d :=
  (show Function.Semiconj Prod.fst (c.listNext cb) (getFatEntry c) from fun _ => rfl).iterate_right m _

theorem iterateLoop_halts (hm : c.fs.Accepted) (hs : s.toCore = c) (hr : Reliable s) (ctx : κ) :
    Halts (fun fuel => loop (iterateRound cb) fuel (d, ctx)) s ↔
      ∃ m, c.ListStops cb ((c.listNext cb)^[m] (d, ctx)) := by
  refine Yields.loop_halts _ _ (fun i hi => ?_) (fun i hi => ?_) hs hr (d, ctx)
  · obtain ⟨k, ctx⟩ := i
    by_cases hin : inChain k = true
    · have hround := gives_iterateRound hm cb hin ctx
      have hstop : (c.listBlock cb k ctx).1 = true := hi.resolve_left (by simp [hin])
      have heq : iterateSlots cb (fun i => c.slotIn (k, i)) (List.range c.fs.entriesPerCluster) ctx =
          (true, (c.listBlock cb k ctx).2) :=
        Prod.ext hstop rfl
      rw [heq] at hround
      exact ⟨_, hround⟩
    · refine ⟨(.ok, ctx), ?_⟩
      rw [iterateRound, if_neg hin]
      exact .pure _
  · obtain ⟨hin, hstop⟩ := not_or.1 hi
    have hround := gives_iterateRound hm cb (by simpa using hin) i.2
    have heq : iterateSlots cb (fun j => c.slotIn (i.1, j)) (List.range c.fs.entriesPerCluster) i.2 =
        (false, (c.listBlock cb i.1 i.2).2) :=
      Prod.ext (Bool.eq_false_of_not_eq_true hstop) rfl
    rw [heq] at hround
    exact hround

/-- A listing stops at a slot never used. -/
theorem Core.EndsWalk.listStops {i : Nat × κ} (h : c.EndsWalk i.1) : c.ListStops cb i := by
  by_cases hin : inChain i.1 = true
  · refine .inr ?_
    unfold Core.listBlock
    rw [iterateSlots_eq, (endsWalk_iff hin).1 h, Bool.or_true]
  · exact .inl (by simpa using hin)

/-- With a callback that never stops it stops nowhere else. -/
theorem endsWalk_of_listStops {i : Nat × Unit} (h : c.ListStops (fun _ _ => (false, ())) i) : c.EndsWalk i.1 := by
  have hfeed : ∀ l : List DirEntryInfo, (feed (fun (_ : Unit) _ => (false, ())) l ()).1 = false := fun l => by
    induction l with
    | nil => rfl
    | cons e l ih => exact ih
  by_cases hin : inChain i.1 = true
  · have hstop := h.resolve_left (by simp [hin])
    unfold Core.listBlock at hstop
    rw [iterateSlots_eq, hfeed, Bool.false_or] at hstop
    exact (endsWalk_iff hin).2 hstop
  · exact .inl (by simpa using hin)

end Listing

/-! ## The walkers -/

theorem getCore_run (s : State) : getCore s = .ok s.toCore s := rfl

/-- In a subdirectory, where `fat12_find_entry` returns. -/
theorem findEntry_halts_iff (hm : s.fs.Accepted) (hr : Reliable s) (h0 : d ≠ 0) (n : ShortName) :
    Halts (fun fuel => findEntry fuel d n) s ↔
      ∃ m, s.toCore.SearchStops (findVerdict n) ((getFatEntry s.toCore)^[m] d) := by
  rw [← findLoop_halts hm rfl hr]
  unfold findEntry
  simp only [Halts, bind_ok (getCore_run s), if_neg h0]

/-- In a subdirectory, where `fat12_find_free_entry` returns. -/
theorem findFreeEntry_halts_iff (hm : s.fs.Accepted) (hr : Reliable s) (h0 : d ≠ 0) :
    Halts (fun fuel => findFreeEntry fuel d) s ↔
      ∃ m, s.toCore.SearchStops freeVerdict ((getFatEntry s.toCore)^[m] d) := by
  rw [← freeLoop_halts hm rfl hr 0]
  unfold findFreeEntry
  simp only [Halts, bind_ok (getCore_run s), if_neg h0]
  constructor
  · rintro ⟨fuel, a, s', h⟩
    obtain ⟨r, s₁, h₁, -⟩ := bind_eq_ok h
    exact ⟨fuel, r, s₁, h₁⟩
  · intro h
    refine Halts.bind h fun r => ?_
    split
    · exact .pure _
    · refine total_allocateCluster.bind fun k => ?_
      split
      · exact .pure _
      · refine Total.bind ?_ fun _ => .pure _
        unfold linkCluster
        split
        · exact (total_modifyCore _).bind fun _ => total_modifyCore _
        · exact .pure _

/-- In a subdirectory, where `fat12_iterate_directory_internal` returns. -/
theorem iterateDirectoryInternal_halts_iff {κ : Type} (hm : s.fs.Accepted) (hr : Reliable s) (h0 : d ≠ 0)
    (cb : κ → DirEntryInfo → Bool × κ) (ctx : κ) :
    Halts (fun fuel => iterateDirectoryInternal fuel d cb ctx) s ↔
      ∃ m, s.toCore.ListStops cb ((s.toCore.listNext cb)^[m] (d, ctx)) := by
  rw [← iterateLoop_halts hm rfl hr]
  unfold iterateDirectoryInternal
  simp only [Halts, bind_ok (getCore_run s), if_neg h0]

/-- In the root directory all of them return. -/
theorem root_halts (s : State) :
    (∀ n, Halts (fun fuel => findEntry fuel 0 n) s) ∧ Halts (fun fuel => findFreeEntry fuel 0) s ∧
      ∀ (κ : Type) (cb : κ → DirEntryInfo → Bool × κ) (ctx : κ),
      Halts (fun fuel => iterateDirectoryInternal fuel 0 cb ctx) s := by
  refine ⟨fun n => ⟨0, ?_⟩, ⟨0, ?_⟩, fun κ cb ctx => ⟨0, _, s, rfl⟩⟩
  · show ∃ a s', findEntry 0 0 n s = .ok a s'
    unfold findEntry
    rw [bind_ok (getCore_run s), if_pos rfl]
    cases scan (fun i => findVerdict n (slotAt s.rootDir i)) (List.range s.fs.rootEntryCount) with
    | hit i => exact ⟨_, s, rfl⟩
    | stopped => exact ⟨_, s, rfl⟩
    | ranOff => exact ⟨_, s, rfl⟩
  · show ∃ a s', findFreeEntry 0 0 s = .ok a s'
    unfold findFreeEntry
    rw [bind_ok (getCore_run s), if_pos rfl]
    cases scan (fun i => freeVerdict (slotAt s.rootDir i)) (List.range s.fs.rootEntryCount) with
    | hit i => exact ⟨_, s, rfl⟩
    | stopped => exact ⟨_, s, rfl⟩
    | ranOff => exact ⟨_, s, rfl⟩

theorem findVerdict_end (n : ShortName) {e : RawDirEntry} (he : e.name.first = nameEnd) :
    findVerdict n e ≠ .skip := by
  unfold findVerdict
  rw [if_pos he]
  decide

theorem freeVerdict_end {e : RawDirEntry} (he : e.name.first = nameEnd) : freeVerdict e ≠ .skip := by
  unfold freeVerdict isFreeEntry
  simp [he]

end

/-- On a volume just mounted, whatever is on it, the walkers of a directory return just where the links of its
clusters come to an end, or to a slot never used. -/
theorem walkers_return_iff {baseLba : Nat} {s₀ s : State} (hr : Reliable s₀) (h : init baseLba s₀ = .ok .ok s)
    (d : Nat) :
    ((∀ n, Halts (fun fuel => findEntry fuel d n) s) ∧ Halts (fun fuel => findFreeEntry fuel d) s ∧
      ∀ (κ : Type) (cb : κ → DirEntryInfo → Bool × κ) (ctx : κ),
      Halts (fun fuel => iterateDirectoryInternal fuel d cb ctx) s) ↔ s.toCore.WalkEnds d := by
  obtain ⟨hmount, hcore, hreliable⟩ := init_ok hr h
  have hm : s.fs.Accepted := by
    rw [hcore]
    exact hmount.accepted
  by_cases h0 : d = 0
  · subst h0
    exact iff_of_true (root_halts s) ⟨0, .inl rfl⟩
  constructor
  · rintro ⟨-, -, hlist⟩
    -- a listing that never stops by itself
    obtain ⟨m, hstop⟩ :=
      (iterateDirectoryInternal_halts_iff hm hreliable h0 _ _).1 (hlist Unit (fun _ _ => (false, ())) ())
    refine ⟨m, ?_⟩
    rw [← listNext_iterate]
    exact endsWalk_of_listStops hstop
  · rintro ⟨m, hend⟩
    refine ⟨fun n => (findEntry_halts_iff hm hreliable h0 n).2 ⟨m, hend.searchStops fun _ => findVerdict_end n⟩,
      (findFreeEntry_halts_iff hm hreliable h0).2 ⟨m, hend.searchStops fun _ => freeVerdict_end⟩,
      fun κ cb ctx => (iterateDirectoryInternal_halts_iff hm hreliable h0 cb ctx).2 ⟨m, Core.EndsWalk.listStops ?_⟩⟩
    rwa [listNext_iterate]

/-- A volume with a directory of two clusters, 2 and 3, both full of entries. -/
def longState : State := .initial fun l =>
  if l = 0 then blankBoot else if l = 1 then fun i => if i = 3 then 3 else if i = 4 then 0xF0 else if i = 5
    then 0xFF else 0
  else if l = 4 ∨ l = 5 then fun _ => 1 else fun _ => 0

theorem walkers_return_long :
    ∃ s, init 0 longState = .ok .ok s ∧ getFatEntry s.toCore 2 = 3 ∧
      (∀ n, Halts (fun fuel => findEntry fuel 2 n) s) ∧ Halts (fun fuel => findFreeEntry fuel 2) s ∧
        ∀ (κ : Type) (cb : κ → DirEntryInfo → Bool × κ) (ctx : κ),
        Halts (fun fuel => iterateDirectoryInternal fuel 2 cb ctx) s := by
  have hrun : returned (init 0 longState) = some .ok ∧ getFatEntry (endState (init 0 longState)).toCore 2 = 3 := by
    decide +kernel
  exact ⟨_, eq_ok_of_returned hrun.1, hrun.2,
    (walkers_return_iff (fun _ => rfl) (eq_ok_of_returned hrun.1) 2).2 ⟨2, by decide +kernel⟩⟩

/-- A volume whose cluster 2 is linked to itself, and full of entries. -/
def loopedState : State := .initial fun l =>
  if l = 0 then blankBoot else if l = 1 then fun i => if i = 3 then 2 else 0 else if l = 4 then fun _ => 1
    else fun _ => 0

def loopedBooted : State := endState (init 0 loopedState)

/-- It is mounted, and then none of the walkers returns from cluster 2. -/
theorem walkers_not_return : Reliable loopedState ∧ init 0 loopedState = .ok .ok loopedBooted ∧
    ¬ Halts (fun fuel => findEntry fuel 2 nameA) loopedBooted ∧
    ¬ Halts (fun fuel => findFreeEntry fuel 2) loopedBooted ∧
    ¬ Halts (fun fuel => iterateDirectoryInternal fuel 2 (fun (_ : Unit) _ => (false, ())) ()) loopedBooted := by
  have hrun : returned (init 0 loopedState) = some .ok := by decide +kernel
  have hmount := init_ok (fun _ => rfl) (eq_ok_of_returned hrun)
  have hm : loopedBooted.fs.Accepted := by
    rw [show loopedBooted.fs = _ from congrArg Core.fs hmount.2.1]
    exact hmount.1.accepted
  have hself : ∀ m, (getFatEntry loopedBooted.toCore)^[m] 2 = 2 := fun m =>
    Function.iterate_fixed (by decide +kernel : getFatEntry loopedBooted.toCore 2 = 2) m
  have hfind : ¬ loopedBooted.toCore.SearchStops (findVerdict nameA) 2 := by decide +kernel
  have hfree : ¬ loopedBooted.toCore.SearchStops freeVerdict 2 := by decide +kernel
  have hends : ¬ loopedBooted.toCore.EndsWalk 2 := by decide +kernel
  refine ⟨fun _ => rfl, eq_ok_of_returned hrun, fun h => ?_, fun h => ?_, fun h => ?_⟩
  · obtain ⟨m, hstop⟩ := (findEntry_halts_iff hm hmount.2.2 (by decide) nameA).1 h
    rw [hself] at hstop
    exact hfind hstop
  · obtain ⟨m, hstop⟩ := (findFreeEntry_halts_iff hm hmount.2.2 (by decide)).1 h
    rw [hself] at hstop
    exact hfree hstop
  · obtain ⟨m, hstop⟩ := (iterateDirectoryInternal_halts_iff hm hmount.2.2 (by decide) _ _).1 h
    have hend := endsWalk_of_listStops hstop
    rw [listNext_iterate, hself] at hend
    exact hends hend

end AltoniumOS.Fat12

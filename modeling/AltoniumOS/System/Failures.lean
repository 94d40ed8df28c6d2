/-
The changes on a disk that fails now and then: what of a call that failed can be seen once the disk works
again. A failed write leaves nothing but, at times, a blank cluster; a failed delete may leave an entry whose
clusters are free, and a failed search lets a directory be made over an entry that is there.
-/
import AltoniumOS.System.Enduring
import AltoniumOS.System.Directories

namespace AltoniumOS.Fat12

open AltoniumOS.Lib

/-- `m` answers in `s'` what it does in `s`, once the disk works. -/
def AsBefore {α : Type} (m : M α) (s s' : State) : Prop := ∃ r, Answers m s.repaired r ∧ Answers m s'.repaired r

/-- Every path resolves, lists and reads as it did, and every name is found as it was. -/
structure SeenAsBefore (fuel : Nat) (s s' : State) : Prop where
  resolve : ∀ path, AsBefore (resolveParentAndName fuel path) s s'
  locate : ∀ path, AsBefore (locateDirectory fuel path) s s'
  find : ∀ d n, s.toCore.volume.Dir d → AsBefore (findEntry fuel d n >>= fun r => pure (r.map Prod.fst)) s s'
  list : ∀ (κ : Type) (path : List UInt8) (cb : κ → DirEntryInfo → Bool × κ) (ctx : κ),
    AsBefore (iteratePath fuel path cb ctx) s s'
  read : ∀ path buffer maxSize, AsBefore (readFile fuel path buffer maxSize) s s'

section

variable {fuel : Nat} {s s' : State}

theorem AsBefore.of_gives {α : Type} {m : M α} {r r' : α} (h : Gives m s.toCore r s.toCore)
    (h' : Gives m s'.toCore r' s'.toCore) (he : r' = r) : AsBefore m s s' := by
  subst he
  exact ⟨r', .of_gives h rfl (repaired_reliable s), .of_gives h' rfl (repaired_reliable s')⟩

/-- What a search finds, for the entry. -/
theorem gives_find_entry (hf : 4096 ≤ fuel) (h : s.toCore.WellFormed) {d : Nat} (hd : s.toCore.volume.Dir d)
    (n : ShortName) :
    Gives (findEntry fuel d n >>= fun r => pure (r.map Prod.fst)) s.toCore
      (match s.toCore.volume.find d n with
        | some e => .ok e
        | none => .error .errNotFound) s.toCore := by
  have hg := (gives_findEntry h.mounted hf (h.wf.walkable hd) n).map (Except.map Prod.fst)
  rw [Volume.find_eq]
  cases hl : s.toCore.volume.lookup d n with
  | none =>
    rw [hl] at hg
    exact hg
  | some p =>
    rw [hl] at hg
    exact hg

/-- Volumes that show the same are seen the same. -/
theorem Volume.Shows.seen (hf : 4096 ≤ fuel) (h : s.toCore.WellFormed) (h' : s'.toCore.WellFormed)
    (he : SameEnv s.toCore s'.toCore) (hs : Volume.Shows s.toCore.volume s'.toCore.volume) :
    SeenAsBefore fuel s s' := by
  have hstart := fun path => h.settled.start path
  constructor
  · intro path
    refine .of_gives (gives_resolve h.mounted h.wf hf h.settled path)
      (gives_resolve h'.mounted h'.wf hf h'.settled path) ?_
    rw [he.start]
    exact hs.resolve h.wf (hstart path).1 (hstart path).2
  · intro path
    refine .of_gives (gives_locate h.mounted h.wf hf h.settled path)
      (gives_locate h'.mounted h'.wf hf h'.settled path) ?_
    rw [he.start, hs.walk h.wf (hstart path).1 (hstart path).2]
  · intro d n hd
    refine .of_gives (gives_find_entry hf h hd n) (gives_find_entry hf h' (hs.dir d hd) n) ?_
    rw [hs.find d n hd]
  · intro κ path cb ctx
    refine .of_gives (gives_iteratePath h.mounted h.wf hf h.settled path cb ctx)
      (gives_iteratePath h'.mounted h'.wf hf h'.settled path cb ctx) ?_
    rw [he.start, hs.walk h.wf (hstart path).1 (hstart path).2]
    cases hw : s.toCore.volume.walk (s.toCore.start path).1 (s.toCore.start path).2 (components path) with
    | error e => rfl
    | ok r =>
      dsimp only
      rw [hs.listing _ (h.wf.walk_dir (hstart path).1 (hstart path).2 hw).1]
  · intro path buffer maxSize
    cases buffer with
    | none =>
      have hnull : ∀ {c : Core}, c.fsReady = true →
          Gives (readFile fuel path none maxSize) c (.errInvalidName, none, none) c := by
        intro c hc
        unfold readFile
        apply gives_core
        rw [hc, if_neg (by decide)]
        exact .pure _
      exact .of_gives (hnull h.mounted.ready) (hnull h'.mounted.ready) rfl
    | some b =>
      refine .of_gives (gives_readFile h.mounted h.wf hf h.settled path b maxSize)
        (gives_readFile h'.mounted h'.wf hf h'.settled path b maxSize) ?_
      rw [he.start, hs.read h.wf (hstart path).1 (hstart path).2]

/-! ## A file in a directory -/

/-- A file `A` of one byte in the directory `D` of a blank volume. -/
def nestedState : State := endState (writeFile 4096 [68, 47, 65] (some fun _ => 7) 1 blankMade)

/-- Where a path was resolved to. -/
def resolvedTo : EStateM.Result OutOfFuel State (Except Code (Nat × ShortName)) → Option (Nat × ShortName)
  | .ok (.ok r) _ => some r
  | _ => none

/-- The slot a search found, and what it says of the cluster and the kind of the entry. -/
def foundAt : EStateM.Result OutOfFuel State (Except Code (RawDirEntry × Loc)) → Option (Loc × Nat × Bool)
  | .ok (.ok (e, p)) _ => some (p, e.cluster, e.isDirectory)
  | _ => none

theorem answers_of_resolvedTo {m : M (Except Code (Nat × ShortName))} {r : Nat × ShortName}
    (h : resolvedTo (m s) = some r) : Answers m s (.ok r) := by
  unfold resolvedTo at h
  split at h
  · rename_i r' s' hm
    cases h
    exact ⟨s', hm⟩
  · cases h

theorem answers_of_foundAt {m : M (Except Code (RawDirEntry × Loc))} {p : Loc} {k : Nat} {b : Bool}
    (h : foundAt (m s) = some (p, k, b)) : ∃ e, Answers m s (.ok (e, p)) ∧ e.cluster = k ∧ e.isDirectory = b := by
  unfold foundAt at h
  split at h
  · rename_i e p' s' hm
    cases h
    exact ⟨e, ⟨s', hm⟩, rfl, rfl⟩
  · cases h

theorem failing_runs :
    returned (writeFile 4096 [65] (some fun _ => 7) 600 (blankMounted.withFaults (failingAt 3))) = some .errIo ∧
      returned (writeFile 4096 [68, 47, 65] (some fun _ => 7) 1 blankMade) = some .ok ∧
      resolvedTo (resolveParentAndName 4096 [68, 47, 65] nestedState.repaired) = some (2, nameA) ∧
      foundAt (findEntry 4096 2 nameA nestedState.repaired) = some ((2, 2), 3, false) ∧
      nestedState.toCore.lookupReads 2 nameA = 1 ∧
      returned (deleteFile 4096 [68, 47, 65] (nestedState.withFaults (failingAt 1))) = some .errIo ∧
      getFatEntry (endState (deleteFile 4096 [68, 47, 65] (nestedState.withFaults (failingAt 1)))).toCore 3 =
        clusterFree ∧
      returned (createDirectory 4096 [68, 47, 65] (nestedState.withFaults (failingAt 0))) = some .ok := by
  decide +kernel

section

variable (f : Nat → Option Nat)

theorem nested_wellFormed : (nestedState.withFaults f).toCore.WellFormed := by
  obtain ⟨h, hs⟩ :=
    Change.wellFormed (s := blankMounted) (Nat.le_refl 4096) blank_reliable blank_wellFormed.1
      (.createDirectory [68]) blank_made
  rw [withFaults_toCore]
  exact (Change.wellFormed (Nat.le_refl 4096) hs h (.writeFile [68, 47, 65] (some fun _ => 7) 1)
    (eq_ok_of_returned failing_runs.2.1)).1

theorem nested_resolve :
    Answers (resolveParentAndName 4096 [68, 47, 65]) (nestedState.withFaults f).repaired (.ok (2, nameA)) := by
  rw [withFaults_repaired]
  exact answers_of_resolvedTo failing_runs.2.2.1

theorem nested_find :
    ∃ e, Answers (findEntry 4096 2 nameA) (nestedState.withFaults f).repaired (.ok (e, (2, 2))) ∧ e.cluster = 3 ∧
      e.isDirectory = false := by
  rw [withFaults_repaired]
  exact answers_of_foundAt failing_runs.2.2.2.1

end

/-! ## Writing -/

/-- A write that failed changes nothing that can be seen, and takes no cluster but perhaps one, zero-filled, for
the directory. -/
theorem failed_write (hf : 4096 ≤ fuel) (h : s.toCore.WellFormed) (hs : Clean s.faults) (path : List UInt8)
    (data : Option Buf) (size : Nat) :
    ∃ code s', writeFile fuel path data size s = .ok code s' ∧ (code ≠ .ok → SeenAsBefore fuel s s' ∧
      (s'.toCore.volume.freeClusters = s.toCore.volume.freeClusters ∨
        ∃ d n z, Answers (resolveParentAndName fuel path) s.repaired (.ok (d, n)) ∧ d ≠ 0 ∧
        z ∈ s.toCore.volume.freeClusters ∧
          s'.toCore.volume.freeClusters = s.toCore.volume.freeClusters.erase z ∧
          s'.toCore.volume.chain d = s.toCore.volume.chain d ++ [z] ∧ ∀ i, s'.toCore.volume.data z i = 0)) := by
  obtain ⟨code, s', h1, -, h2⟩ :=
    ends_committing (ends_writeFileBody h.mounted h.wf h.settled hf path data size) s rfl hs
  refine ⟨code, s', h1, fun hne => ?_⟩
  have hsame : Unchanged s.toCore s'.toCore → SeenAsBefore fuel s s' ∧
      s'.toCore.volume.freeClusters = s.toCore.volume.freeClusters := by
    intro u
    refine ⟨(Volume.Shows.of_agree h.wf (u.agree h.wf)).seen hf h (u.wellFormed h) u.env, ?_⟩
    exact freeClusters_congr u.env (u.env.fat u.fat)
  rcases h2 hne hne with u | ⟨d, n, hr, hu⟩
  · exact ⟨(hsame u).1, .inl (hsame u).2⟩
  · cases hu with
    | unchanged u => exact ⟨(hsame u).1, .inl (hsame u).2⟩
    | extended x =>
      rename_i z
      have h' : s'.toCore.WellFormed := x.wellFormed h
      refine ⟨x.shows.seen hf h h' x.env, .inr ⟨d, n, z, ?_, x.ne, x.fresh, x.free, x.chain, x.blank⟩⟩
      exact answers_resolve hf (repaired_reliable s) h hr

theorem failed_write_blank :
    ∃ s', writeFile 4096 [65] (some fun _ => 7) 600 (blankMounted.withFaults (failingAt 3)) = .ok .errIo s' ∧
      SeenAsBefore 4096 (blankMounted.withFaults (failingAt 3)) s' := by
  have hrun := eq_ok_of_returned failing_runs.1
  obtain ⟨code, s', h1, h2⟩ :=
    failed_write (s := blankMounted.withFaults (failingAt 3)) (Nat.le_refl 4096) blank_wellFormed.1
      (clean_failingAt 3)
    [65] (some fun _ => 7) 600
  obtain rfl : code = .errIo := by
    rw [h1] at hrun
    cases hrun
    rfl
  exact ⟨s', h1, (h2 (by decide)).1⟩

/-! ## Deleting -/

variable {path : List UInt8} {d : Nat} {n : ShortName} {e : RawDirEntry} {p : Loc}

/-- The entry in the slot `p` is live, says what it said, and its chain is linked as it was. -/
structure EntryKept (c c' : Core) (p : Loc) : Prop where
  live : (c'.volume.slot p).Live
  name : (c'.volume.slot p).name = (c.volume.slot p).name
  attr : (c'.volume.slot p).attr = (c.volume.slot p).attr
  cluster : (c'.volume.slot p).cluster = (c.volume.slot p).cluster
  size : (c'.volume.slot p).size = (c.volume.slot p).size
  fat : ∀ k ∈ c.volume.owned p, c'.volume.fat k = c.volume.fat k

/-- No entry leads to a cluster that counts as free. -/
def NoDangling (c : Core) : Prop := ∀ q, c.volume.Entry q → ∀ k ∈ c.volume.owned q, c.volume.fat k ≠ clusterFree

theorem EntryKept.of_same {c c' : Core} (hl : (c.volume.slot p).Live) (k : SlotKept c c' p) : EntryKept c c' p := by
  have hs := k.slot
  constructor
  · rw [hs]
    exact hl
  · rw [hs]
  · rw [hs]
  · rw [hs]
  · rw [hs]
  · exact fun x _ => congrFun k.fat x

theorem Core.WellFormed.noDangling {c : Core} (h : c.WellFormed) : NoDangling c := fun q hq k hk hfree => by
  have := h.wf.owned_fat_ge hq hk
  rw [hfree] at this
  exact absurd this (by decide)

/-- Where a call that looks a path up on a working disk arrives. -/
theorem denotes_of_answers (hf : 4096 ≤ fuel) (h : s.toCore.WellFormed)
    (hres : Answers (resolveParentAndName fuel path) s.repaired (.ok (d, n)))
    (hfind : Answers (findEntry fuel d n) s.repaired (.ok (e, p))) :
    s.toCore.Denotes path d n p ∧ s.toCore.volume.slot p = e := by
  have hr := (hres.eq (.of_gives (gives_resolve h.mounted h.wf hf h.settled path) rfl (repaired_reliable s))).symm
  have hwalk := h.wf.walkable (resolve_dir h.wf h.settled hr).1
  have hl := hfind.eq (.of_gives (gives_findEntry h.mounted.accepted hf hwalk n) rfl (repaired_reliable s))
  cases hp : s.toCore.volume.lookup d n with
  | none =>
    rw [hp] at hl
    cases hl
  | some p' =>
    rw [hp] at hl
    cases hl
    exact ⟨⟨hr, hp⟩, rfl⟩

/-- A deletion that fails leaves the file alone if and only if the file has no cluster, the deletion never got
past its first search, or nothing failed behind it. -/
theorem failed_delete_iff (hf : 4096 ≤ fuel) (h : s.toCore.WellFormed) (hs : Clean s.faults)
    (hres : Answers (resolveParentAndName fuel path) s.repaired (.ok (d, n)))
    (hfind : Answers (findEntry fuel d n) s.repaired (.ok (e, p))) (hfile : e.isDirectory = false) :
    (∃ code s', deleteFile fuel path s = .ok code s' ∧
      (code ≠ .ok → EntryKept s.toCore s'.toCore p ∧ NoDangling s'.toCore)) ↔ d = 0 ∨ e.cluster = 0 ∨
        (∃ k < s.toCore.resolveReads path + s.toCore.lookupReads d n, s.faults k ≠ none) ∨
        ∀ k < s.toCore.resolveReads path + s.toCore.lookupReads d n + (s.toCore.lookupReads d n + 2),
        s.faults k = none := by
  obtain ⟨x, rfl⟩ := denotes_of_answers hf h hres hfind
  obtain ⟨q, hd, hn, hp⟩ := x.entryAt h.wf h.settled
  have hkept : SlotKept s.toCore s.toCore p := ⟨rfl, rfl⟩
  have hsame : ∀ s' : State, s'.toCore = s.toCore → EntryKept s.toCore s'.toCore p ∧ NoDangling s'.toCore :=
    fun s' hc => by
    rw [hc]
    exact ⟨.of_same hp.live hkept, h.noDangling⟩
  rcases succeeds_or_fails s.faults (s.toCore.resolveReads path + s.toCore.lookupReads d n)
    with hok | ⟨i, hi, hfail⟩
  · by_cases hmark : d = 0 ∨ ∀ k < s.toCore.lookupReads d n + 2,
        later s.faults (s.toCore.resolveReads path + s.toCore.lookupReads d n) k = none
    · -- the slot is marked
      obtain ⟨c', f', hrun⟩ := runs_mark_ok h.mounted h.wf h.settled hf x hfile hmark
      obtain ⟨s', h1⟩ := committing_ok (runs_delete_found h.mounted h.wf h.settled hf x hfile hok hrun)
      refine iff_of_true ⟨.ok, s', h1, fun hne => absurd rfl hne⟩ ?_
      refine hmark.imp id fun hall => .inr (.inr fun k hk => ?_)
      by_cases hlt : k < s.toCore.resolveReads path + s.toCore.lookupReads d n
      · exact hok k hlt
      · have := hall (k - (s.toCore.resolveReads path + s.toCore.lookupReads d n)) (by omega)
        unfold later at this
        rwa [Nat.sub_add_cancel (by omega)] at this
    · -- the clusters are given back, and the slot is not marked
      obtain ⟨h0, hall⟩ := not_or.1 hmark
      obtain ⟨i, hi, hfail⟩ := (succeeds_or_fails _ _).resolve_left hall
      have hmark := runs_mark_fails h.mounted h.wf h.settled hf x hfile h0 (hs.later _) hi hfail
      obtain ⟨s', h1, h2, -⟩ :=
        (runs_committing (runs_delete_found h.mounted h.wf h.settled hf x hfile hok hmark) (by decide)).run rfl rfl
      rcases h.wf.owned_cases (hp.entry hd) with ⟨hnil, -, -, hc⟩ | hc
      · rw [hnil] at h2
        exact iff_of_true ⟨.errIo, s', h1, fun _ => hsame s' h2⟩ (.inr (.inl hc))
      · refine iff_of_false ?_ ?_
        · rintro ⟨code, s'', h3, hkeep⟩
          rw [deleteFile, h1] at h3
          cases h3
          have hfat := (hkeep (by decide)).1.fat _ hc.head_mem
          have hge := h.wf.owned_fat_ge (hp.entry hd) hc.head_mem
          rw [h2, fat_freeAll_mem hc.range hc.head_mem] at hfat
          rw [← hfat] at hge
          exact absurd hge (by decide)
        · rintro (h3 | h3 | ⟨k, hk, h3⟩ | h3)
          · exact h0 h3
          · have := hc.start.1
            omega
          · exact h3 (hok k hk)
          · exact hall fun k hk => h3 _ (by omega)
  · -- the file is not found
    have hrun := runs_delete_unread h.mounted h.wf h.settled hf x hi hfail
    obtain ⟨s', h1, h2, -⟩ := (runs_committing hrun (by decide)).run rfl rfl
    exact iff_of_true ⟨.errIo, s', h1, fun _ => hsame s' h2⟩ (.inr (.inr (.inl ⟨i, hi, hfail.2⟩)))

theorem failed_delete_nested :
    ∃ code s', deleteFile 4096 [68, 47, 65] (nestedState.withFaults (failingAt 0)) = .ok code s' ∧
      (code ≠ .ok → EntryKept nestedState.toCore s'.toCore (2, 2) ∧ NoDangling s'.toCore) := by
  obtain ⟨e, hfind, -, hfile⟩ := nested_find (failingAt 0)
  have hiff :=
    failed_delete_iff (Nat.le_refl 4096) (nested_wellFormed (failingAt 0)) (clean_failingAt 0)
      (nested_resolve _) hfind hfile
  rw [withFaults_toCore, failing_runs.2.2.2.2.1] at hiff
  refine hiff.2 (.inr (.inr (.inl ⟨0, by omega, fun h => nomatch h⟩)))

/-- Its clusters are free, and its entry is live. -/
theorem failed_delete_loses :
    ¬ ∀ (fuel : Nat) (s : State) (path : List UInt8) (d : Nat) (n : ShortName) (e : RawDirEntry) (p : Loc),
      4096 ≤ fuel → s.toCore.WellFormed → Clean s.faults →
      Answers (resolveParentAndName fuel path) s.repaired (.ok (d, n)) →
      Answers (findEntry fuel d n) s.repaired (.ok (e, p)) → e.isDirectory = false →
      ∃ code s', deleteFile fuel path s = .ok code s' ∧
      (code ≠ .ok → EntryKept s.toCore s'.toCore p ∧ NoDangling s'.toCore) := by
  intro hall
  obtain ⟨e, hfind, hcluster, hfile⟩ := nested_find (failingAt 1)
  have h := nested_wellFormed (failingAt 1)
  have hres := nested_resolve (failingAt 1)
  obtain ⟨code, s', h1, h2⟩ := hall 4096 _ _ 2 nameA e (2, 2) (Nat.le_refl _) h (clean_failingAt 1) hres hfind hfile
  obtain ⟨x, hslot⟩ := denotes_of_answers (Nat.le_refl 4096) h hres hfind
  obtain ⟨q, hd, -, hp⟩ := x.entryAt h.wf h.settled
  have hcode := failing_runs.2.2.2.2.2.1
  have hfree := failing_runs.2.2.2.2.2.2.1
  rw [h1] at hcode hfree
  cases hcode
  rcases h.wf.owned_cases (hp.entry hd) with ⟨-, -, -, hc⟩ | hc
  · rw [hslot, hcluster] at hc
    cases hc
  · rw [hslot, hcluster] at hc
    have hkept := (h2 (by decide)).1.fat 3 hc.head_mem
    have hge := h.wf.owned_fat_ge (hp.entry hd) hc.head_mem
    rw [← hkept] at hge
    change 2 ≤ getFatEntry s'.toCore 3 at hge
    rw [show getFatEntry s'.toCore 3 = clusterFree from hfree] at hge
    exact absurd hge (by decide)

/-! ## Creating -/

/-- A directory whose name is there already is refused and the entry kept, if and only if the calls do not
overwrite it. -/
theorem existing_kept_iff (hf : 4096 ≤ fuel) (h : s.toCore.WellFormed)
    (hres : Answers (resolveParentAndName fuel path) s.repaired (.ok (d, n)))
    (hfind : Answers (findEntry fuel d n) s.repaired (.ok (e, p))) :
    (∃ code s', createDirectory fuel path s = .ok code s' ∧ code ≠ .ok ∧ EntryKept s.toCore s'.toCore p) ↔
      ¬ s.toCore.Overwrites s.faults path d n p := by
  obtain ⟨x, rfl⟩ := denotes_of_answers hf h hres hfind
  obtain ⟨q, hd, hn, hp⟩ := x.entryAt h.wf h.settled
  constructor
  · rintro ⟨code, s', h1, hne, hkept⟩ ho
    obtain ⟨k, r, c', f', hk, hrun, hr⟩ := create_overwrites h.mounted h.wf h.settled hf x ho
    by_cases hok : r = .ok
    · rw [hok] at hrun
      obtain ⟨s'', h2⟩ := committing_ok hrun
      rw [createDirectory, h2] at h1
      cases h1
      exact hne rfl
    · -- the entry names the new cluster
      obtain ⟨s'', h2, h3, -⟩ := (runs_committing hrun hok).run rfl rfl
      rw [createDirectory, h2] at h1
      cases h1
      have hkr := mem_freeClusters.1 hk
      have hk4 := InRange.lt_4086 h.mounted.accepted hkr.1
      have hcluster := hkept.cluster
      rw [h3, hr.resolve_left hok, fillDirEntry_cluster (by omega)] at hcluster
      rcases h.wf.owned_cases (hp.entry hd) with ⟨-, -, -, hc⟩ | hc
      · have := hkr.1.1
        omega
      · exact h.wf.not_used_of_free hkr.2 ⟨p, hp.entry hd, hcluster ▸ hc.head_mem⟩
  · intro hno
    obtain ⟨r, c', f', hrun, hne, hkept⟩ := create_keeps h.mounted h.wf h.settled hf x hno
    obtain ⟨s', h1, h2, -⟩ := (runs_committing hrun hne).run rfl rfl
    exact ⟨r, s', h1, hne, by rw [h2]; exact .of_same hp.live hkept⟩

/-- The calls 0, the read of the first search, and 1, the first write, fail, and leave the disk alone. -/
def failingFirst : Nat → Option Nat := fun k => if k < 2 then some 0 else none

theorem existing_kept_nested :
    ∃ code s', createDirectory 4096 [68, 47, 65] (nestedState.withFaults failingFirst) = .ok code s' ∧
      code ≠ .ok ∧ EntryKept nestedState.toCore s'.toCore (2, 2) := by
  obtain ⟨e, hfind, -⟩ := nested_find failingFirst
  have hiff := existing_kept_iff (Nat.le_refl 4096) (nested_wellFormed failingFirst) (nested_resolve _) hfind
  rw [withFaults_toCore] at hiff
  refine hiff.2 ?_
  rintro ⟨i, -, -, hfail, hst⟩
  have hi : i = 0 := Nat.eq_zero_of_not_pos fun hpos => nomatch hfail.1 0 hpos
  subst hi
  exact nomatch hst.calls 0 (by omega)

/-- The directory is made, over the file. -/
theorem existing_replaced :
    ¬ ∀ (fuel : Nat) (s : State) (path : List UInt8) (d : Nat) (n : ShortName) (e : RawDirEntry) (p : Loc),
      4096 ≤ fuel → s.toCore.WellFormed → Answers (resolveParentAndName fuel path) s.repaired (.ok (d, n)) →
      Answers (findEntry fuel d n) s.repaired (.ok (e, p)) →
      ∃ code s', createDirectory fuel path s = .ok code s' ∧ code ≠ .ok ∧ EntryKept s.toCore s'.toCore p := by
  intro hall
  obtain ⟨e, hfind, -⟩ := nested_find (failingAt 0)
  obtain ⟨code, s', h1, hne, -⟩ :=
    hall 4096 _ _ 2 nameA e (2, 2) (Nat.le_refl _) (nested_wellFormed (failingAt 0)) (nested_resolve _) hfind
  have hcode := failing_runs.2.2.2.2.2.2.2
  rw [h1] at hcode
  cases hcode
  exact hne rfl

end

end AltoniumOS.Fat12

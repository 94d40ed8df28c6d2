/-
What a well-formed volume shows: which slot a name has in a directory, what a directory lists,
the bytes of a file, and where a path leads. These are functions of the volume alone; the
operations of the driver are proved to compute them.
-/
import AltoniumOS.Fat12.Walks
import AltoniumOS.Volume.Steps

namespace AltoniumOS.Fat12

open AltoniumOS.Lib

/-- The names the encoder makes start with a valid character, so never with a mark or a dot. -/
def ShortName.Proper (n : ShortName) : Prop := isValidChar n.first = true

namespace Volume

variable (V : Volume)

/-- A directory of the tree. -/
def Dir (d : Nat) : Prop := ∃ q, V.IsDir d q

/-- The slot of the directory `d` that a search for `n` finds. -/
def lookup (d : Nat) (n : ShortName) : Option Loc :=
  match scan (fun p => findVerdict n (V.slot p)) (V.locs d) with
  | .hit p => some p
  | _ => none

/-- The entry named `n` in the directory `d`. -/
def find (d : Nat) (n : ShortName) : Option RawDirEntry :=
  match scan (findVerdict n) (V.slots d) with
  | .hit e => some e
  | _ => none

/-- The slots shown by a listing. -/
def shown (e : RawDirEntry) : Bool := e.name.first != nameEnd && isListed e

/-- The listing of the directory `d`. -/
def listing (d : Nat) : List DirEntryInfo := ((V.slots d).filter shown).map copyEntryInfo

/-- The bytes of the chain that starts at `start`. -/
def content (start : Nat) : Buf := fun i =>
  match (V.chain start)[i / V.clusterSize]? with
  | some k => V.data k (i % V.clusterSize)
  | none => 0

/-! ## Paths -/

/-- Where the components of a path lead from the directory `cluster` and the stack above it. -/
def walk : Nat → PathStack → List (List UInt8) → Except Code (Nat × PathStack)
  | cluster, stack, [] => .ok (cluster, stack)
  | cluster, stack, component :: rest =>
    if component = [dot] then walk cluster stack rest
    else if component = [dot, dot] then walk stack.pop.top stack.pop rest
    else
      match makeShortName component with
      | .error e => .error e
      | .ok shortName =>
        match V.find cluster shortName with
        | none => .error .errNotFound
        | some entry =>
          if !entry.isDirectory then .error .errNotDirectory
          else walk entry.cluster (stack.push entry.cluster (dirNameToString entry.name)) rest

/-- The names a path looks up, each with the directory it is looked up in. -/
def lookups : Nat → PathStack → List (List UInt8) → List (Nat × ShortName)
  | _, _, [] => []
  | cluster, stack, component :: rest =>
    if component = [dot] then lookups cluster stack rest
    else if component = [dot, dot] then lookups stack.pop.top stack.pop rest
    else
      match makeShortName component with
      | .error _ => []
      | .ok shortName => (cluster, shortName) ::
        match V.find cluster shortName with
        | none => []
        | some entry =>
          if !entry.isDirectory then []
          else lookups entry.cluster (stack.push entry.cluster (dirNameToString entry.name)) rest

/-- The directory and the name a path denotes. -/
def resolve (cluster : Nat) (stack : PathStack) (components : List (List UInt8)) : Except Code (Nat × ShortName) :=
  match components.getLast? with
  | none => .error .errInvalidName
  | some last => (V.walk cluster stack components.dropLast).bind fun r => nameIn r.1 last

/-- What reading a path into `buffer` gives: the code, the buffer afterwards and the size. -/
def read (cluster : Nat) (stack : PathStack) (components : List (List UInt8)) (buffer : Buf) (maxSize : Nat) :
    Code × Option Buf × Option Nat :=
  match V.resolve cluster stack components with
  | .error e => (e, some buffer, none)
  | .ok (d, n) =>
    match V.find d n with
    | none => (.errNotFound, some buffer, none)
    | some entry =>
      if entry.isDirectory then (.errNotFile, some buffer, none)
      else if entry.size > maxSize then (.errBufferSmall, some buffer, none)
      else (.ok, some (fun i => if i < entry.size then V.content entry.cluster i else buffer i), some entry.size)

end Volume

/-! ## Proper names -/

theorem ShortName.Proper.ne {n : ShortName} (h : n.Proper) :
    n.first ≠ nameEnd ∧ n.first ≠ nameDeleted ∧ n.first ≠ dot := by
  unfold Proper at h
  refine ⟨?_, ?_, ?_⟩ <;> intro hc <;> rw [hc] at h <;> revert h <;> decide

theorem packName_proper {base ext : List UInt8} {n : ShortName} (h : packName base ext = .ok n) : n.Proper := by
  unfold packName at h
  split_ifs at h with hb he hv hx
  cases h
  obtain ⟨c, l, rfl⟩ := List.exists_cons_of_length_pos hb.1
  exact List.all_eq_true.1 hv c (List.mem_cons_self ..)

theorem makeShortName_proper {input : List UInt8} {n : ShortName} (h : makeShortName input = .ok n) : n.Proper := by
  unfold makeShortName at h
  split at h
  · cases h
  · dsimp only at h
    split at h
    · cases h
    · exact packName_proper h
    · exact packName_proper h

theorem findVerdict_hit {n : ShortName} {e : RawDirEntry} : findVerdict n e = .hit ↔ e.Live ∧ e.name = n := by
  rw [RawDirEntry.live_iff]
  unfold findVerdict
  split_ifs with h1 h2 h3 <;> simp_all

theorem findVerdict_stop {n : ShortName} {e : RawDirEntry} : findVerdict n e = .stop ↔ e.name.first = nameEnd := by
  unfold findVerdict
  split_ifs with h1 h2 h3 <;> simp_all

namespace Volume

variable {V W : Volume} {P : Set Nat}

/-! ## Looking up -/

theorem dir_root : V.Dir 0 := ⟨0, .root⟩

theorem lookup_some {d : Nat} {n : ShortName} {p : Loc} (h : V.lookup d n = some p) :
    p ∈ V.locs d ∧ (V.slot p).Live ∧ (V.slot p).name = n := by
  unfold lookup at h
  split at h
  · rename_i p' hs
    cases h
    obtain ⟨h1, h2⟩ := scan_hit_mem hs
    exact ⟨h1, findVerdict_hit.1 h2⟩
  · cases h

/-- In a tidy directory a search finds the one live slot of its name. -/
theorem Tidy.lookup_iff {d : Nat} (t : V.Tidy d) {n : ShortName} {p : Loc} :
    V.lookup d n = some p ↔ p ∈ V.locs d ∧ (V.slot p).Live ∧ (V.slot p).name = n := by
  refine ⟨lookup_some, fun ⟨hp, hl, hn⟩ => ?_⟩
  have hstops : StopsLast (fun p => findVerdict n (V.slot p)) (V.locs d) :=
    t.zeros.imp fun hab ha => findVerdict_stop.2 (hab (findVerdict_stop.1 ha))
  have huniq : ∀ p' ∈ V.locs d, findVerdict n (V.slot p') = .hit → p' = p := fun p' hp' hv => by
    obtain ⟨hl', hn'⟩ := findVerdict_hit.1 hv
    by_contra hne
    have hsym : Std.Symm fun p p' => (V.slot p).Live → (V.slot p').Live → (V.slot p).name ≠ (V.slot p').name :=
      ⟨fun _ _ hab ha hb => (hab hb ha).symm⟩
    exact t.unique.forall hp' hp hne hl' hl (hn'.trans hn.symm)
  unfold lookup
  rw [scan_eq_hit hstops hp (findVerdict_hit.2 ⟨hl, hn⟩) huniq]

theorem Tidy.lookup_none {d : Nat} (t : V.Tidy d) {n : ShortName} :
    V.lookup d n = none ↔ ∀ p ∈ V.locs d, (V.slot p).Live → (V.slot p).name ≠ n := by
  constructor
  · intro hnone p hp hl hn
    rw [t.lookup_iff.2 ⟨hp, hl, hn⟩] at hnone
    cases hnone
  · intro hall
    cases hs : V.lookup d n with
    | none => rfl
    | some p =>
      obtain ⟨h1, h2, h3⟩ := lookup_some hs
      exact absurd h3 (hall p h1 h2)

theorem WF.lookup_iff (h : V.WF P) {d : Nat} (hd : V.Dir d) {n : ShortName} {p : Loc} :
    V.lookup d n = some p ↔ p ∈ V.locs d ∧ (V.slot p).Live ∧ (V.slot p).name = n := by
  obtain ⟨q, hq⟩ := hd
  exact (h.tidy hq).lookup_iff

theorem WF.lookup_none (h : V.WF P) {d : Nat} (hd : V.Dir d) {n : ShortName} :
    V.lookup d n = none ↔ ∀ p ∈ V.locs d, (V.slot p).Live → (V.slot p).name ≠ n := by
  obtain ⟨q, hq⟩ := hd
  exact (h.tidy hq).lookup_none

/-- The slot of a proper name is an entry: the dot slots are not found. -/
theorem WF.lookup_entryAt (h : V.WF P) {d : Nat} (hd : V.Dir d) {n : ShortName} (hn : n.Proper) {p : Loc}
    (hp : V.lookup d n = some p) : V.EntryAt d p := by
  obtain ⟨h1, h2, h3⟩ := lookup_some hp
  obtain ⟨q, hq⟩ := hd
  refine ⟨h1, fun hdot => ?_, h2⟩
  obtain ⟨h0, ho, hi⟩ := hdot
  obtain ⟨o, i⟩ := p
  obtain rfl : o = d := ho
  have hdots := (h.dirOk o q hq).dots h0
  have hfirst : (V.slot (o, i)).name.first = dot := by
    rcases (by have hi : i < 2 := hi; omega : i = 0 ∨ i = 1) with rfl | rfl
    · rw [hdots.dotName]; rfl
    · rw [hdots.dotDotName]; rfl
  rw [h3] at hfirst
  exact hn.ne.2.2 hfirst

theorem find_eq (V : Volume) (d : Nat) (n : ShortName) : V.find d n = (V.lookup d n).map V.slot := by
  unfold find lookup slots
  rw [scan_map]
  unfold Function.comp
  cases scan (fun p => findVerdict n (V.slot p)) (V.locs d) <;> rfl

/-- The entry found in a directory of a well-formed volume is its one live slot of that name. -/
theorem WF.find_iff (h : V.WF P) {d : Nat} (hd : V.Dir d) {n : ShortName} {e : RawDirEntry} :
    V.find d n = some e ↔ e ∈ V.slots d ∧ e.Live ∧ e.name = n := by
  rw [find_eq, Option.map_eq_some_iff]
  constructor
  · rintro ⟨p, hp, rfl⟩
    obtain ⟨h1, h2⟩ := lookup_some hp
    exact ⟨List.mem_map_of_mem h1, h2⟩
  · rintro ⟨he, h2⟩
    obtain ⟨p, hp, rfl⟩ := List.mem_map.1 he
    exact ⟨p, (h.lookup_iff hd).2 ⟨hp, h2⟩, rfl⟩

theorem WF.find_none (h : V.WF P) {d : Nat} (hd : V.Dir d) {n : ShortName} :
    V.find d n = none ↔ ∀ e ∈ V.slots d, e.Live → e.name ≠ n := by
  constructor
  · intro hnone e he hl hn
    rw [(h.find_iff hd).2 ⟨he, hl, hn⟩] at hnone
    cases hnone
  · intro hall
    cases hf : V.find d n with
    | none => rfl
    | some e =>
      obtain ⟨h1, h2, h3⟩ := (h.find_iff hd).1 hf
      exact absurd h3 (hall e h1 h2)

/-- An entry of a proper name found in a directory is an entry of the tree. -/
theorem WF.entry_of_find (h : V.WF P) {d q : Nat} (hd : V.IsDir d q) {n : ShortName} (hn : n.Proper)
    {o : RawDirEntry} (ho : V.find d n = some o) : ∃ p, V.lookup d n = some p ∧ V.EntryAt d p ∧ V.slot p = o := by
  rw [find_eq] at ho
  obtain ⟨p, hp, rfl⟩ := Option.map_eq_some_iff.1 ho
  exact ⟨p, hp, h.lookup_entryAt ⟨q, hd⟩ hn hp, rfl⟩

theorem WF.find_dir (h : V.WF P) {d : Nat} (hd : V.Dir d) {n : ShortName} (hn : n.Proper) {e : RawDirEntry}
    (he : V.find d n = some e) (hi : e.isDirectory = true) : V.IsDir e.cluster d := by
  obtain ⟨q, hq⟩ := hd
  obtain ⟨p, -, hp, rfl⟩ := h.entry_of_find hq hn he
  exact .sub hq hp hi

/-! ## Walking -/

/-- The stack of a walk holds directories only. -/
def Dirs (V : Volume) (stack : PathStack) : Prop := ∀ k ∈ stack.clusters, V.Dir k

theorem Dirs.empty : V.Dirs .empty := fun _ h => nomatch h

theorem Dirs.pop {stack : PathStack} (h : V.Dirs stack) : V.Dirs stack.pop := fun k hk =>
  h k (by rw [PathStack.clusters_pop] at hk; exact List.mem_of_mem_dropLast hk)

theorem Dirs.push {stack : PathStack} (h : V.Dirs stack) {k : Nat} (hk : V.Dir k) (name : List UInt8) :
    V.Dirs (stack.push k name) := fun x hx => by
  rw [PathStack.clusters_push] at hx
  unfold pushCluster at hx
  split at hx
  · rcases List.mem_append.1 hx with hx | hx
    · exact h x hx
    · rw [List.mem_singleton.1 hx]; exact hk
  · exact h x hx

theorem Dirs.top {stack : PathStack} (h : V.Dirs stack) : V.Dir stack.top := by
  unfold PathStack.top
  cases hl : stack.clusters.getLast? with
  | none => rw [List.getLast?_eq_none_iff.1 hl]; exact dir_root
  | some k =>
    rw [List.getLastD_eq_getLast?, hl]
    exact h k (List.mem_of_getLast? hl)

/-- A walk from a directory arrives at a directory. -/
theorem WF.walk_dir (h : V.WF P) :
    ∀ {cs : List (List UInt8)} {cluster : Nat} {stack : PathStack} {r : Nat × PathStack},
      V.Dir cluster → V.Dirs stack → V.walk cluster stack cs = .ok r → V.Dir r.1 ∧ V.Dirs r.2
  | [], cluster, stack, r, hc, hs, hw => by cases hw; exact ⟨hc, hs⟩
  | component :: rest, cluster, stack, r, hc, hs, hw => by
    rw [walk] at hw
    split at hw
    · exact h.walk_dir hc hs hw
    · split at hw
      · exact h.walk_dir hs.pop.top hs.pop hw
      · split at hw
        · cases hw
        · rename_i n hn
          split at hw
          · cases hw
          · rename_i e he
            split at hw
            · cases hw
            · rename_i hi
              have hd : V.Dir e.cluster := ⟨_, h.find_dir hc (makeShortName_proper hn) he (by simpa using hi)⟩
              exact h.walk_dir hd (hs.push hd _) hw

/-- A path looks proper names up in directories. -/
theorem WF.lookups_mem (h : V.WF P) :
    ∀ {cs : List (List UInt8)} {cluster : Nat} {stack : PathStack} {r : Nat × ShortName},
      V.Dir cluster → V.Dirs stack → r ∈ V.lookups cluster stack cs → V.Dir r.1 ∧ r.2.Proper
  | [], _, _, _, _, _, hr => nomatch hr
  | component :: rest, cluster, stack, r, hc, hs, hr => by
    rw [lookups] at hr
    split at hr
    · exact h.lookups_mem hc hs hr
    · split at hr
      · exact h.lookups_mem hs.pop.top hs.pop hr
      · split at hr
        · cases hr
        · rename_i n hn
          rcases List.mem_cons.1 hr with rfl | hr
          · exact ⟨hc, makeShortName_proper hn⟩
          · split at hr
            · cases hr
            · rename_i e he
              split at hr
              · cases hr
              · rename_i hi
                have hd : V.Dir e.cluster := ⟨_, h.find_dir hc (makeShortName_proper hn) he (by simpa using hi)⟩
                exact h.lookups_mem hd (hs.push hd _) hr

/-- A walk depends on the names it looks up only. -/
theorem walk_congr : ∀ {cs : List (List UInt8)} {cluster : Nat} {stack : PathStack},
    (∀ r ∈ V.lookups cluster stack cs, W.find r.1 r.2 = V.find r.1 r.2) →
    W.walk cluster stack cs = V.walk cluster stack cs
  | [], _, _, _ => rfl
  | component :: rest, cluster, stack, h => by
    rw [lookups] at h
    rw [walk, walk]
    split
    · rename_i hc
      rw [if_pos hc] at h
      exact walk_congr h
    · rename_i hc
      rw [if_neg hc] at h
      split
      · rename_i hcc
        rw [if_pos hcc] at h
        exact walk_congr h
      · rename_i hcc
        rw [if_neg hcc] at h
        split
        · rfl
        · rename_i n hn
          rw [hn] at h
          obtain ⟨h1, h2⟩ := List.forall_mem_cons.1 h
          simp only at h1
          rw [h1]
          split
          · rfl
          · rename_i e he
            rw [he] at h2
            split
            · rfl
            · rename_i hi
              simp only [if_neg hi] at h2
              exact walk_congr h2

/-- The names looked up on the way are among those of the whole path. -/
theorem lookups_append : ∀ {cs ds : List (List UInt8)} {cluster : Nat} {stack : PathStack},
    V.lookups cluster stack (cs ++ ds) = V.lookups cluster stack cs ++
      match V.walk cluster stack cs with
      | .ok r => V.lookups r.1 r.2 ds
      | .error _ => []
  | [], ds, cluster, stack => rfl
  | component :: rest, ds, cluster, stack => by
    rw [List.cons_append, lookups, lookups, walk]
    split
    · exact lookups_append
    · split
      · exact lookups_append
      · split
        · rfl
        · rw [List.cons_append]
          split
          · rfl
          · split
            · rfl
            · exact congrArg _ lookups_append

theorem resolve_congr {cs : List (List UInt8)} {cluster : Nat} {stack : PathStack}
    (h : ∀ r ∈ V.lookups cluster stack cs, W.find r.1 r.2 = V.find r.1 r.2) :
    W.resolve cluster stack cs = V.resolve cluster stack cs := by
  unfold resolve
  cases hl : cs.getLast? with
  | none => rfl
  | some last =>
    obtain ⟨ds, rfl⟩ := List.getLast?_eq_some_iff.1 hl
    dsimp only
    rw [List.dropLast_concat, walk_congr fun r hr => h r (by rw [lookups_append]; exact List.mem_append_left _ hr)]

theorem resolve_concat {cs : List (List UInt8)} {last : List UInt8} {cluster : Nat} {stack : PathStack} :
    V.resolve cluster stack (cs ++ [last]) = (V.walk cluster stack cs).bind fun r => nameIn r.1 last := by
  unfold resolve
  rw [List.getLast?_concat, List.dropLast_concat]

/-- What a path denotes is looked up last. -/
theorem resolve_mem_lookups {cs : List (List UInt8)} {cluster : Nat} {stack : PathStack} {r : Nat × ShortName}
    (h : V.resolve cluster stack cs = .ok r) : r ∈ V.lookups cluster stack cs := by
  cases hl : cs.getLast? with
  | none => unfold resolve at h; rw [hl] at h; cases h
  | some last =>
    obtain ⟨ds, rfl⟩ := List.getLast?_eq_some_iff.1 hl
    rw [resolve_concat] at h
    rw [lookups_append]
    refine List.mem_append_right _ ?_
    cases hw : V.walk cluster stack ds with
    | error e => rw [hw] at h; cases h
    | ok r' =>
      rw [hw] at h
      have h : nameIn r'.1 last = .ok r := h
      unfold nameIn at h
      split at h
      · cases h
      · rename_i hd
        cases hn : makeShortName last with
        | error e => rw [hn] at h; cases h
        | ok n =>
          rw [hn] at h
          cases h
          rw [not_or] at hd
          simp only [lookups, if_neg hd.1, if_neg hd.2, hn]
          exact List.mem_cons_self ..

/-- A path that denotes a name leads to its directory first. -/
theorem resolve_ok {cs : List (List UInt8)} {cluster : Nat} {stack : PathStack} {d : Nat} {n : ShortName}
    (h : V.resolve cluster stack cs = .ok (d, n)) :
    n.Proper ∧ ∃ ds last st, cs = ds ++ [last] ∧ V.walk cluster stack ds = .ok (d, st) ∧
      makeShortName last = .ok n ∧ last ≠ [dot] ∧ last ≠ [dot, dot] := by
  cases hl : cs.getLast? with
  | none => unfold resolve at h; rw [hl] at h; cases h
  | some last =>
    obtain ⟨ds, rfl⟩ := List.getLast?_eq_some_iff.1 hl
    rw [resolve_concat] at h
    cases hw : V.walk cluster stack ds with
    | error e => rw [hw] at h; cases h
    | ok r' =>
      rw [hw] at h
      have h : nameIn r'.1 last = .ok (d, n) := h
      unfold nameIn at h
      split at h
      · cases h
      · rename_i hd
        cases hn : makeShortName last with
        | error e => rw [hn] at h; cases h
        | ok n' =>
          rw [hn] at h
          cases h
          exact ⟨makeShortName_proper hn, ds, last, r'.2, rfl, hw, hn, not_or.1 hd⟩

/-- A walk that fails fails with an error code. -/
theorem walk_error : ∀ {cs : List (List UInt8)} {cluster : Nat} {stack : PathStack} {e : Code},
    V.walk cluster stack cs = .error e → e ≠ .ok
  | [], _, _, _, h => nomatch h
  | component :: rest, cluster, stack, e, h => by
    rw [walk] at h
    split at h
    · exact walk_error h
    · split at h
      · exact walk_error h
      · split at h
        · rename_i e' he
          cases h
          rw [makeShortName_error he]
          decide
        · split at h
          · cases h; decide
          · split at h
            · cases h; decide
            · exact walk_error h

theorem resolve_error {cs : List (List UInt8)} {cluster : Nat} {stack : PathStack} {e : Code}
    (h : V.resolve cluster stack cs = .error e) : e ≠ .ok := by
  unfold resolve at h
  split at h
  · cases h; decide
  · rename_i last _
    cases hw : V.walk cluster stack cs.dropLast with
    | error e' =>
      rw [hw] at h
      cases h
      exact walk_error hw
    | ok r =>
      rw [hw] at h
      change nameIn r.1 last = .error e at h
      unfold nameIn at h
      split at h
      · cases h; decide
      · cases hn : makeShortName last with
        | error e' =>
          rw [hn] at h
          cases h
          rw [makeShortName_error hn]
          decide
        | ok n => rw [hn] at h; cases h

/-- A walk that succeeds finds a directory under every name it looks up. -/
theorem walk_lookups :
    ∀ {cs : List (List UInt8)} {cluster : Nat} {stack : PathStack} {r : Nat × PathStack},
      V.walk cluster stack cs = .ok r → ∀ x ∈ V.lookups cluster stack cs, ∃ e, V.find x.1 x.2 = some e ∧
      e.isDirectory = true
  | [], _, _, _, _, _, hx => nomatch hx
  | component :: rest, cluster, stack, r, h, x, hx => by
    rw [walk] at h
    rw [lookups] at hx
    split at h
    · rename_i hc
      rw [if_pos hc] at hx
      exact walk_lookups h x hx
    · rename_i hc
      rw [if_neg hc] at hx
      split at h
      · rename_i hcc
        rw [if_pos hcc] at hx
        exact walk_lookups h x hx
      · rename_i hcc
        rw [if_neg hcc] at hx
        split at h
        · cases h
        · rename_i n hn
          rw [hn] at hx
          split at h
          · cases h
          · rename_i e he
            split at h
            · cases h
            · rename_i hi
              rcases List.mem_cons.1 hx with rfl | hx
              · exact ⟨e, he, by simpa using hi⟩
              · rw [he] at hx
                dsimp only at hx
                rw [if_neg hi] at hx
                exact walk_lookups h x hx

/-- One component after another: walking on from where the first part leads. -/
theorem walk_append {ds : List (List UInt8)} : ∀ {cs : List (List UInt8)} {cluster : Nat} {stack : PathStack},
    V.walk cluster stack (cs ++ ds) = (V.walk cluster stack cs).bind fun r => V.walk r.1 r.2 ds
  | [], _, _ => rfl
  | component :: rest, cluster, stack => by
    rw [List.cons_append, walk, walk]
    split
    · exact walk_append
    · split
      · exact walk_append
      · split
        · rfl
        · split
          · rfl
          · split
            · rfl
            · exact walk_append

end Volume

end AltoniumOS.Fat12

/-
Where the walks of `fat12.c` lead, told from the FAT and the clusters alone: the slot a search of a directory
meets, following links wherever they go, the directory a path leads to, and how many clusters are read on the
way. On a disk that fails now and then, what the walkers return is told so.
-/
import AltoniumOS.Refine.Layout
import AltoniumOS.Refine.Counting

namespace AltoniumOS.Fat12

open AltoniumOS.Lib

/-- One cluster of a directory searched. -/
def Core.scanIn (c : Core) (v : RawDirEntry → Verdict) (k : Nat) : Scan Nat :=
  scan (fun i => v (slotAt (c.clusterBytes k) i)) (List.range c.fs.entriesPerCluster)

/-- A search along the links from `k` on ends after so many clusters, in the slot it met if it met one. -/
inductive Core.SearchFrom (c : Core) (v : RawDirEntry → Verdict) : Nat → Nat → Option Loc → Prop
  | past {k : Nat} : inChain k = false → SearchFrom c v k 0 none
  | hit {k i : Nat} : inChain k = true → c.scanIn v k = .hit i → SearchFrom c v k 1 (some (k, i))
  | stop {k : Nat} : inChain k = true → c.scanIn v k = .stopped → SearchFrom c v k 1 none
  | next {k n : Nat} {o : Option Loc} : inChain k = true → c.scanIn v k = .ranOff →
      SearchFrom c v (getFatEntry c k) n o → SearchFrom c v k (n + 1) o

/-- The slot of the root table a search meets. -/
def Core.rootSlot (c : Core) (v : RawDirEntry → Verdict) : Option Loc :=
  match scan (fun i => v (slotAt c.rootDir i)) (List.range c.fs.rootEntryCount) with
  | .hit i => some (0, i)
  | _ => none

/-- A search of the directory `d` ends after `n` clusters, in the slot `o` if it met one. -/
def Core.Search (c : Core) (v : RawDirEntry → Verdict) (d n : Nat) (o : Option Loc) : Prop :=
  if d = 0 then n = 0 ∧ o = c.rootSlot v else c.SearchFrom v d n o

/-- The components lead from the directory `d`, with this stack above it, to a directory, at the cost of so many
reads. -/
inductive Core.Leads (c : Core) : Nat → List Nat → List (List UInt8) → Nat → Nat → Prop
  | done (d : Nat) (stack : List Nat) : Leads c d stack [] 0 d
  | stay {d n r : Nat} {stack : List Nat} {rest : List (List UInt8)} :
      Leads c d stack rest n r → Leads c d stack ([dot] :: rest) n r
  | up {d n r : Nat} {stack : List Nat} {rest : List (List UInt8)} :
      Leads c (stack.dropLast.getLastD 0) stack.dropLast rest n r → Leads c d stack ([dot, dot] :: rest) n r
  | down {d m n r : Nat} {stack : List Nat} {component : List UInt8} {rest : List (List UInt8)} {name : ShortName}
      {p : Loc} : makeShortName component = .ok name → c.Search (findVerdict name) d m (some p) →
      (c.slotIn p).isDirectory = true →
      Leads c (c.slotIn p).cluster (pushCluster stack (c.slotIn p).cluster) rest n r →
      Leads c d stack (component :: rest) (m + n) r

/-- The path names `n` in the directory `d`, which it costs `r` reads to find out. -/
def Core.Names (c : Core) (path : List UInt8) (r d : Nat) (n : ShortName) : Prop :=
  ∃ cs last, components path = cs ++ [last] ∧ makeShortName last = .ok n ∧
    c.Leads (c.start path).1 (c.start path).2.clusters cs r d

section

variable {c : Core} {v : RawDirEntry → Verdict} {d k n m : Nat} {o q : Option Loc} {p : Loc}

/-- The owner of a slot met: the root table, or a number the chains may hold. -/
theorem Core.SearchFrom.owner (h : c.SearchFrom v k n o) : ∀ p, o = some p → inChain p.1 = true := by
  induction h with
  | past _ => exact fun p hp => by cases hp
  | hit hk _ => exact fun p hp => by cases hp; exact hk
  | stop _ _ => exact fun p hp => by cases hp
  | next _ _ _ ih => exact ih

theorem Core.rootSlot_owner (h : c.rootSlot v = some p) : p.1 = 0 := by
  unfold rootSlot at h
  split at h
  · cases h
    rfl
  · cases h

theorem Core.Search.owner (h : c.Search v d n (some p)) : p.1 = 0 ∨ inChain p.1 = true := by
  unfold Search at h
  split at h
  · exact .inl (rootSlot_owner h.2.symm)
  · exact .inr (h.owner p rfl)

theorem Core.Search.root (h : c.Search v 0 n (some p)) : p.1 = 0 := by
  unfold Search at h
  rw [if_pos rfl] at h
  exact rootSlot_owner h.2.symm

/-- A search that meets something starts in a chain. -/
theorem Core.SearchFrom.start (h : c.SearchFrom v k n (some p)) : inChain k = true := by
  cases h with
  | hit hk _ => exact hk
  | next hk _ _ => exact hk

theorem Core.SearchFrom.pos (h : c.SearchFrom v k n o) (hk : inChain k = true) : 0 < n := by
  cases h with
  | past h =>
    rw [hk] at h
    cases h
  | hit _ _ => exact Nat.one_pos
  | stop _ _ => exact Nat.one_pos
  | next _ _ _ => exact Nat.succ_pos _

/-- Behind a cluster that is run off, a search goes on with the next one. -/
theorem Core.searchFrom_next (hk : inChain k = true) (hs : c.scanIn v k = .ranOff) :
    c.SearchFrom v k n o ↔ ∃ m, n = m + 1 ∧ c.SearchFrom v (getFatEntry c k) m o := by
  constructor
  · intro h
    cases h with
    | past h =>
      rw [hk] at h
      cases h
    | hit _ h =>
      rw [hs] at h
      cases h
    | stop _ h =>
      rw [hs] at h
      cases h
    | next _ _ h => exact ⟨_, rfl, h⟩
  · rintro ⟨m, rfl, h⟩
    exact .next hk hs h

/-- There is one end to a search. -/
theorem Core.SearchFrom.unique (h : c.SearchFrom v k n o) (h' : c.SearchFrom v k m q) : n = m ∧ o = q := by
  induction h generalizing m with
  | past hk =>
    cases h' with
    | past _ => exact ⟨rfl, rfl⟩
    | hit h _ | stop h _ | next h _ _ =>
      rw [hk] at h
      cases h
  | hit hk hs =>
    cases h' with
    | past h =>
      rw [hk] at h
      cases h
    | hit _ h =>
      rw [hs] at h
      cases h
      exact ⟨rfl, rfl⟩
    | stop _ h | next _ h _ =>
      rw [hs] at h
      cases h
  | stop hk hs =>
    cases h' with
    | past h =>
      rw [hk] at h
      cases h
    | stop _ _ => exact ⟨rfl, rfl⟩
    | hit _ h | next _ h _ =>
      rw [hs] at h
      cases h
  | next hk hs _ ih =>
    obtain ⟨m', rfl, h⟩ := (searchFrom_next hk hs).1 h'
    obtain ⟨rfl, rfl⟩ := ih h
    exact ⟨rfl, rfl⟩

theorem Core.Search.unique (h : c.Search v d n o) (h' : c.Search v d m q) : n = m ∧ o = q := by
  unfold Search at h h'
  split at h
  · rename_i h0
    rw [if_pos h0] at h'
    exact ⟨h.1.trans h'.1.symm, h.2.trans h'.2.symm⟩
  · rename_i h0
    rw [if_neg h0] at h'
    exact h.unique h'

end

/-! ## What the walkers return -/

/-- From the core `c`, the log `w` and the outcomes `f`: nothing was changed. -/
structure Still (c : Core) (w : List (Nat × List Buf)) (s : State) : Prop where
  core : s.toCore = c
  log : s.writes = w

/-- Nor did any of the `n` disk calls made since fail. -/
structure At (c : Core) (w : List (Nat × List Buf)) (f : Nat → Option Nat) (n : Nat) (s : State) :
    Prop extends Still c w s where
  spent : s.faults = later f n
  ok : ∀ k < n, f k = none

/-- The last of the disk calls since was the first to fail. -/
structure Broken (c : Core) (w : List (Nat × List Buf)) (f : Nat → Option Nat) (i : Nat) (s : State) :
    Prop extends Still c w s where
  spent : s.faults = later f (i + 1)
  fails : FailsAt f i

section

variable {c : Core} {w : List (Nat × List Buf)} {f : Nat → Option Nat} {v : RawDirEntry → Verdict} {N d : Nat}

theorem At.start (s : State) : At s.toCore s.writes s.faults 0 s :=
  ⟨⟨rfl, rfl⟩, rfl, fun _ hk => absurd hk (Nat.not_lt_zero _)⟩

/-- With the outcomes still to come, it starts again. -/
theorem Broken.restart {i : Nat} {s : State} (h : Broken c w f i s) : At c w (later f (i + 1)) 0 s :=
  ⟨h.toStill, h.spent, fun _ hk => absurd hk (Nat.not_lt_zero _)⟩

theorem carries_getCore : Carries (At c w f N) (Still c w) (fun c' s => At c w f N s ∧ c' = c) getCore :=
  fun s hs => ⟨hs.toStill, fun c' s' hr => by cases hr; exact ⟨hs, hs.core⟩⟩

theorem carries_readCluster (h : c.fs.Accepted) (k : Nat) : Carries (At c w f N) (Still c w) (fun r s =>
    (r.1 = true ∧ (∀ x < sectorSize * c.fs.sectorsPerCluster, r.2 x = c.clusterBytes k x) ∧ At c w f (N + 1) s) ∨
    (r.1 = false ∧ Broken c w f N s)) (readCluster k) := by
  rintro s ⟨⟨rfl, rfl⟩, hf, hok⟩
  obtain ⟨b, h1, h2⟩ := readCluster_run k s h.spc_ne
  have h0 : s.faults 0 = f N := by
    rw [hf]
    exact congrArg f (Nat.zero_add N)
  have hlater : later s.faults 1 = later f (N + 1) := by rw [hf, later_later, Nat.add_comm]
  rw [h1]
  refine ⟨⟨rfl, rfl⟩, fun a s' hr => ?_⟩
  cases hr
  cases hn : f N with
  | none =>
    refine .inl ⟨by rw [h0, hn]; rfl, h2 (h0.trans hn), ⟨rfl, rfl⟩, hlater, fun k hk => ?_⟩
    rcases Nat.lt_succ_iff_lt_or_eq.1 hk with hk | rfl
    · exact hok k hk
    · exact hn
  | some m =>
    refine .inr ⟨by rw [h0, hn]; rfl, ⟨rfl, rfl⟩, hlater, hok, ?_⟩
    rw [hn]
    exact Option.some_ne_none m

theorem scan_buffer (h : c.fs.Accepted) {k : Nat} {b : Buf}
    (hb : ∀ x < sectorSize * c.fs.sectorsPerCluster, b x = c.clusterBytes k x) (v : RawDirEntry → Verdict) :
    scan (fun i => v (slotAt b i)) (List.range c.fs.entriesPerCluster) = c.scanIn v k :=
  scan_congr fun i hi => by rw [slotAt_eq h hb (List.mem_range.1 hi)]

/-- The search of `d` has come to `k`, `n` clusters on. -/
def Core.Along (c : Core) (v : RawDirEntry → Verdict) (d n k : Nat) : Prop :=
  ∀ a o, c.SearchFrom v d a o ↔ ∃ m, a = n + m ∧ c.SearchFrom v k m o

theorem Core.Along.refl (c : Core) (v : RawDirEntry → Verdict) (d : Nat) : c.Along v d 0 d := fun a o => by simp

theorem Core.Along.next {n k : Nat} (h : c.Along v d n k) (hk : inChain k = true) (hs : c.scanIn v k = .ranOff) :
    c.Along v d (n + 1) (getFatEntry c k) := by
  intro a o
  rw [h a o]
  constructor
  · rintro ⟨m, rfl, hm⟩
    obtain ⟨m', rfl, hm'⟩ := (searchFrom_next hk hs).1 hm
    exact ⟨m', by omega, hm'⟩
  · rintro ⟨m, rfl, hm⟩
    exact ⟨m + 1, by omega, .next hk hs hm⟩

/-- The search ended so, and none of its reads failed. -/
def Core.Sought (c : Core) (w : List (Nat × List Buf)) (f : Nat → Option Nat) (N : Nat) (v : RawDirEntry → Verdict)
    (d : Nat) (o : Option Loc) (s : State) : Prop := ∃ n, At c w f (N + n) s ∧ c.Search v d n o

/-- A read of the search failed. -/
def Core.Lost (c : Core) (w : List (Nat × List Buf)) (f : Nat → Option Nat) (N : Nat) (v : RawDirEntry → Verdict)
    (d : Nat) (s : State) : Prop := ∃ i, Broken c w f (N + i) s ∧ ∀ n o, c.Search v d n o → i < n

theorem Core.Search.of_from {n : Nat} {o : Option Loc} (h0 : d ≠ 0) (h : c.SearchFrom v d n o) :
    c.Search v d n o := by
  unfold Search
  rwa [if_neg h0]

/-- A round of a search that cannot read its cluster. -/
theorem Core.Along.lost {n k : Nat} {s : State} (h : c.Along v d n k) (h0 : d ≠ 0) (hk : inChain k = true)
    (hs : Broken c w f (N + n) s) : c.Lost w f N v d s := by
  refine ⟨n, hs, fun a o ha => ?_⟩
  unfold Search at ha
  rw [if_neg h0, h a o] at ha
  obtain ⟨m, rfl, hm⟩ := ha
  have := hm.pos hk
  omega

/-- What `fat12_find_entry` returns. -/
def Core.Finds (c : Core) (w : List (Nat × List Buf)) (f : Nat → Option Nat) (N d : Nat) (n : ShortName)
    (r : Except Code (RawDirEntry × Loc)) (s : State) : Prop :=
  (∃ p, r = .ok (c.slotIn p, p) ∧ c.Sought w f N (findVerdict n) d (some p) s) ∨
  (r = .error .errNotFound ∧ c.Sought w f N (findVerdict n) d none s) ∨
  (r = .error .errIo ∧ c.Lost w f N (findVerdict n) d s)

theorem Core.Finds.still {n : ShortName} {r : Except Code (RawDirEntry × Loc)} {s : State}
    (h : c.Finds w f N d n r s) : Still c w s := by
  obtain ⟨_, -, _, h, -⟩ | ⟨-, _, h, -⟩ | ⟨-, _, h, -⟩ := h
  · exact h.toStill
  · exact h.toStill
  · exact h.toStill

theorem carries_findRound (h : c.fs.Accepted) (h0 : d ≠ 0) (n : ShortName) (k : Nat) :
    Carries (fun s => ∃ j, At c w f (N + j) s ∧ c.Along (findVerdict n) d j k) (Still c w) (fun r s => match r with
      | .inl k' => ∃ j, At c w f (N + j) s ∧ c.Along (findVerdict n) d j k'
      | .inr r => c.Finds w f N d n r s) (findRound n k) := by
  rintro s ⟨j, hs, ha⟩
  have hend : ∀ {m : Nat} {o : Option Loc}, c.SearchFrom (findVerdict n) k m o →
      c.Search (findVerdict n) d (j + m) o :=
    fun {m o} hm => .of_from h0 ((ha _ o).2 ⟨m, rfl, hm⟩)
  unfold findRound
  split
  · rename_i hk
    refine (show Carries (At c w f (N + j)) _ _ _ from (carries_readCluster h k).bind fun r => ?_) s hs
    rintro s (⟨hr, hb, hs⟩ | ⟨hr, hs⟩)
    · dsimp only
      rw [hr, if_pos rfl]
      refine (show Carries (At c w f (N + j + 1)) _ _ _ from carries_getCore.bind fun c' =>
        Carries.of_and fun hc => ?_) s hs
      subst hc
      rw [scan_buffer h hb (findVerdict n)]
      split
      · rename_i i hi
        refine .pure fun s hs => ⟨hs.toStill, .inl ⟨(k, i), ?_, j + 1, hs, hend (.hit hk hi)⟩⟩
        have hlt : i < c'.fs.entriesPerCluster := List.mem_range.1 (scan_hit_mem hi).1
        have h2 : 2 ≤ k := (inChain_iff.1 hk).1
        rw [slotAt_eq h hb hlt]
        unfold Core.slotIn
        rw [if_neg (show ¬ k = 0 by omega)]
      · rename_i hi
        exact .pure fun s hs => ⟨hs.toStill, .inr (.inl ⟨rfl, j + 1, hs, hend (.stop hk hi)⟩)⟩
      · rename_i hi
        exact .pure fun s hs => ⟨hs.toStill, j + 1, hs, ha.next hk hi⟩
    · dsimp only
      rw [hr, if_neg (by decide)]
      exact ⟨hs.toStill, fun r' s' he => by cases he; exact .inr (.inr ⟨rfl, ha.lost h0 hk hs⟩)⟩
  · rename_i hk
    exact ⟨hs.toStill, fun r' s' he => by
      cases he; exact .inr (.inl ⟨rfl, j, hs, hend (.past (Bool.eq_false_iff.2 hk))⟩)⟩

/-- `fat12_find_entry` returns what the search meets. -/
theorem carries_findEntry (h : c.fs.Accepted) (fuel d : Nat) (n : ShortName) :
    Carries (At c w f N) (Still c w) (c.Finds w f N d n) (findEntry fuel d n) := by
  unfold findEntry
  refine carries_getCore.bind fun c' => Carries.of_and fun hc => ?_
  subst hc
  split
  · rename_i h0
    subst h0
    have hroot : ∀ {s}, At c' w f N s → c'.Sought w f N (findVerdict n) 0 (c'.rootSlot (findVerdict n)) s :=
      fun hs =>
      ⟨0, hs, by unfold Core.Search; rw [if_pos rfl]; exact ⟨rfl, rfl⟩⟩
    unfold Core.rootSlot at hroot
    split
    · rename_i i hi
      rw [hi] at hroot
      exact .pure fun s hs => ⟨hs.toStill, .inl ⟨(0, i), rfl, hroot hs⟩⟩
    · rename_i hi
      split at hroot
      · rename_i i hi'
        exact absurd hi' (hi i)
      · exact .pure fun s hs => ⟨hs.toStill, .inr (.inl ⟨rfl, hroot hs⟩)⟩
  · rename_i h0
    have hround : ∀ k, Carries (fun s => ∃ j, At c' w f (N + j) s ∧ c'.Along (findVerdict n) d j k) (Still c' w) _
        (findRound n k) :=
      carries_findRound h h0 n
    refine (Carries.loop (fun k s hs => ?_) (fun r s hs => hs.still) (fun k => (hround k).post fun r s hr => ?_)
        fuel d).pre fun s hs =>
      ⟨0, hs, .refl c' _ d⟩
    · obtain ⟨j, hs, -⟩ := hs
      exact hs.toStill
    · cases r with
      | inl k' => exact hr
      | inr r => exact hr

/-- The cluster loop of `fat12_find_free_entry` ends at the slot the search meets, or knows the last
cluster visited, if any. -/
theorem carries_freeLoop (h : c.fs.Accepted) (h0 : d ≠ 0) (fuel : Nat) :
    Carries (At c w f N) (Still c w) (fun r s => Still c w s ∧ match r with
      | .inl r => ∀ p, r = .ok p → c.Sought w f N freeVerdict d (some p) s
      | .inr previous => previous = 0 ∨ 2 ≤ previous) (loop freeRound fuel (d, 0)) := by
  refine (Carries.loop (L := fun i s => (∃ j, At c w f (N + j) s ∧ c.Along freeVerdict d j i.1) ∧
    (i.2 = 0 ∨ 2 ≤ i.2)) ?_ (fun r s hs => hs.1) (fun i => ?_) fuel (d, 0)).pre fun s hs =>
      ⟨⟨0, hs, .refl c _ d⟩, .inl rfl⟩
  · rintro i s ⟨⟨j, hs, -⟩, -⟩
    exact hs.toStill
  obtain ⟨k, previous⟩ := i
  rintro s ⟨⟨j, hs, ha⟩, hprev⟩
  rw [freeRound]
  split
  · rename_i hk
    refine (show Carries (At c w f (N + j)) _ _ _ from (carries_readCluster h k).bind fun r => ?_) s hs
    rintro s (⟨hr, hb, hs⟩ | ⟨hr, hs⟩)
    · dsimp only
      rw [hr, if_pos rfl]
      refine (show Carries (At c w f (N + j + 1)) _ _ _ from carries_getCore.bind fun c' =>
        Carries.of_and fun hc => ?_) s hs
      subst hc
      rw [scan_buffer h hb freeVerdict]
      split
      · rename_i i hi
        refine .pure fun s hs => ⟨hs.toStill, hs.toStill, fun p hp => ?_⟩
        cases hp
        exact ⟨j + 1, hs, .of_from h0 ((ha _ _).2 ⟨1, rfl, .hit hk hi⟩)⟩
      · rename_i hno
        have hro : c'.scanIn freeVerdict k = .ranOff := by
          cases hs : c'.scanIn freeVerdict k with
          | hit i => exact absurd hs (hno i)
          | ranOff => rfl
          | stopped =>
            refine absurd hs (scan_ne_stopped fun i => ?_)
            unfold freeVerdict
            split <;> simp
        exact .pure fun s hs => ⟨hs.toStill, ⟨j + 1, hs, ha.next hk hro⟩, .inr (inChain_iff.1 hk).1⟩
    · dsimp only
      rw [hr, if_neg (by decide)]
      exact ⟨hs.toStill, fun r' s' he => by cases he; exact ⟨hs.toStill, fun p hp => by cases hp⟩⟩
  · exact ⟨hs.toStill, fun r' s' he => by cases he; exact ⟨hs.toStill, hprev⟩⟩

/-- A walk that returned led there, and none of its reads failed. -/
theorem carries_locateLoop (h : c.fs.Accepted) (fuel : Nat) :
    ∀ (cs : List (List UInt8)) (N d : Nat) (stack : List Nat),
      Carries (At c w f N) (Still c w) (fun r s => Still c w s ∧ ∀ d', r = .ok d' → ∃ m, At c w f (N + m) s ∧
        c.Leads d stack cs m d') (locateLoop fuel d stack cs)
  | [], N, d, stack =>
    .pure fun s hs => ⟨hs.toStill, hs.toStill, fun d' hr => by cases hr; exact ⟨0, hs, .done d stack⟩⟩
  | component :: rest, N, d, stack => by
    rw [locateLoop]
    split
    · rename_i hdot
      subst hdot
      refine (carries_locateLoop h fuel rest N d stack).post fun r s hs => ⟨hs.1, fun d' he => ?_⟩
      obtain ⟨m, hm, hl⟩ := hs.2 d' he
      exact ⟨m, hm, .stay hl⟩
    · split
      · rename_i hdots
        subst hdots
        refine (carries_locateLoop h fuel rest N _ _).post fun r s hs => ⟨hs.1, fun d' he => ?_⟩
        obtain ⟨m, hm, hl⟩ := hs.2 d' he
        exact ⟨m, hm, .up hl⟩
      · split
        · exact .pure fun s hs => ⟨hs.toStill, hs.toStill, fun d' hr => by cases hr⟩
        · rename_i n hn
          refine (carries_findEntry h fuel d n).bind fun r => ?_
          rintro s (⟨p, rfl, m, hs, hp⟩ | ⟨rfl, m, hs, -⟩ | ⟨rfl, i, hs, -⟩)
          · dsimp only
            split
            · exact ⟨hs.toStill, fun r' s' he => by cases he; exact ⟨hs.toStill, fun d' hr => by cases hr⟩⟩
            · rename_i hdir
              refine ((carries_locateLoop h fuel rest (N + m) _ _).post fun r s ht =>
                ⟨ht.1, fun d' he => ?_⟩) s hs
              obtain ⟨m', hm, hl⟩ := ht.2 d' he
              exact ⟨m + m', by rwa [← Nat.add_assoc], .down hn hp (by simpa using hdir) hl⟩
          · exact ⟨hs.toStill, fun r' s' he => by cases he; exact ⟨hs.toStill, fun d' hr => by cases hr⟩⟩
          · exact ⟨hs.toStill, fun r' s' he => by cases he; exact ⟨hs.toStill, fun d' hr => by cases hr⟩⟩

/-- `fat12_resolve_parent_and_name` returns what the path names. -/
theorem carries_resolveParentAndName (h : c.fs.Accepted) (fuel : Nat) (path : List UInt8) :
    Carries (At c w f N) (Still c w) (fun r s => Still c w s ∧ ∀ d n, r = .ok (d, n) → ∃ m, At c w f (N + m) s ∧
      c.Names path m d n) (resolveParentAndName fuel path) := by
  have hfail : ∀ e : Code, Carries (At c w f N) (Still c w) (fun r s => Still c w s ∧ ∀ d n, r = .ok (d, n) →
      ∃ m, At c w f (N + m) s ∧ c.Names path m d n) (pure (.error e) : M (Except Code (Nat × ShortName))) :=
    fun e => .pure fun s hs => ⟨hs.toStill, hs.toStill, fun d n hr => by cases hr⟩
  have hloop : ∀ (d₀ : Nat) (stack : List Nat), d₀ = (c.start path).1 → stack = (c.start path).2.clusters →
      Carries (At c w f N) (Still c w) (fun r s => Still c w s ∧ ∀ d n, r = .ok (d, n) → ∃ m, At c w f (N + m) s ∧
        c.Names path m d n) (resolveLoop fuel d₀ stack (components path)) := by
    intro d₀ stack hd hs
    rcases List.eq_nil_or_concat (components path) with hcs | ⟨cs, last, hcs⟩
    · rw [hcs]
      exact hfail _
    · -- all components but the last are walked, the last is the name
      rw [List.concat_eq_append] at hcs
      rw [hcs, resolveLoop_eq]
      refine (carries_locateLoop h fuel cs N d₀ stack).bind fun r => .pure fun s ⟨hst, hr⟩ =>
        ⟨hst, hst, fun d n he => ?_⟩
      cases r with
      | error e => cases he
      | ok d' =>
        have he : nameIn d' last = .ok (d, n) := he
        unfold nameIn at he
        split at he
        · cases he
        · cases hn : makeShortName last with
          | error e => rw [hn] at he; cases he
          | ok n' =>
            rw [hn] at he
            cases he
            obtain ⟨m, hm, hl⟩ := hr _ rfl
            exact ⟨m, hm, cs, last, hcs, hn, hd ▸ hs ▸ hl⟩
  unfold resolveParentAndName
  refine carries_getCore.bind fun c' => Carries.of_and fun hc => ?_
  subst hc
  split
  · exact hfail _
  · split
    · rename_i ha
      exact hloop 0 [] (by unfold Core.start; rw [if_pos ha]) (by unfold Core.start; rw [if_pos ha]; rfl)
    · rename_i ha
      exact hloop _ _ (by unfold Core.start; rw [if_neg ha]) (by unfold Core.start; rw [if_neg ha])

end

/-! ## What a change does to a search -/

/-- `c'` is `c` with the free clusters `l` taken: nothing else can be told from the searches, which come to an
end in `l`. -/
structure Taken (c c' : Core) (l : List Nat) : Prop where
  fs : c'.fs = c.fs
  root : c'.rootDir = c.rootDir
  scan : ∀ v k, inChain k = true → k ∉ l → c'.scanIn v k = c.scanIn v k
  link : ∀ k, k ∉ l → getFatEntry c' k = getFatEntry c k
  ends : ∀ k ∈ l, getFatEntry c' k ∈ l ∨ inChain (getFatEntry c' k) = false
  free : ∀ k ∈ l, getFatEntry c k = clusterFree

section

variable {c c' : Core} {v : RawDirEntry → Verdict} {d k n : Nat} {o : Option Loc} {l : List Nat}

namespace Taken

/-- Where a search comes to a cluster taken, it stays among them. -/
theorem stays (t : Taken c c' l) (h : c'.SearchFrom v k n o) : k ∈ l → ∀ p, o = some p → p.1 ∈ l := by
  induction h with
  | past _ => exact fun _ p hp => by cases hp
  | hit _ _ => exact fun hk p hp => by cases hp; exact hk
  | stop _ _ => exact fun _ p hp => by cases hp
  | next hk hs hrest ih =>
    intro hkl p hp
    rcases t.ends _ hkl with hin | hout
    · exact ih hin p hp
    · subst hp
      rw [hrest.start] at hout
      cases hout

/-- Before, it ended there. -/
theorem ended (t : Taken c c' l) (hk : k ∈ l) (hin : inChain k = true) (v : RawDirEntry → Verdict) :
    ∃ q, c.SearchFrom v k 1 q ∧ ∀ p, q = some p → p.1 ∈ l := by
  cases hs : c.scanIn v k with
  | hit i => exact ⟨_, .hit hin hs, fun p hp => by cases hp; exact hk⟩
  | stopped => exact ⟨none, .stop hin hs, fun p hp => by cases hp⟩
  | ranOff =>
    refine ⟨none, .next hin hs ?_, fun p hp => by cases hp⟩
    rw [t.free k hk]
    exact .past (by decide)

/-- A search ends as before; or before it ended at a cluster now taken, sooner, and now ends at one of them if
it meets anything. -/
theorem searchFrom (t : Taken c c' l) (h : c'.SearchFrom v k n o) : c.SearchFrom v k n o ∨
    (∀ p, o = some p → p.1 ∈ l) ∧ ∃ m q, c.SearchFrom v k m q ∧ m ≤ n ∧ ∀ p, q = some p → p.1 ∈ l := by
  have hmem : ∀ {k n o}, c'.SearchFrom v k n o → inChain k = true → k ∈ l →
      (∀ p, o = some p → p.1 ∈ l) ∧ ∃ m q, c.SearchFrom v k m q ∧ m ≤ n ∧ ∀ p, q = some p → p.1 ∈ l :=
    fun h hin hk => by
    obtain ⟨q, hq, hp⟩ := t.ended hk hin v
    exact ⟨t.stays h hk, 1, q, hq, h.pos hin, hp⟩
  induction h with
  | past hk => exact .inl (.past hk)
  | @hit k i hk hs =>
    by_cases hkl : k ∈ l
    · exact .inr (hmem (.hit hk hs) hk hkl)
    · exact .inl (.hit hk (t.scan v k hk hkl ▸ hs))
  | @stop k hk hs =>
    by_cases hkl : k ∈ l
    · exact .inr (hmem (.stop hk hs) hk hkl)
    · exact .inl (.stop hk (t.scan v k hk hkl ▸ hs))
  | @next k n o hk hs hrest ih =>
    by_cases hkl : k ∈ l
    · exact .inr (hmem (.next hk hs hrest) hk hkl)
    · have hs' := t.scan v k hk hkl ▸ hs
      rw [t.link k hkl] at ih
      rcases ih with ih | ⟨ho, m, q, hm, hle, hq⟩
      · exact .inl (.next hk hs' ih)
      · exact .inr ⟨ho, m + 1, q, .next hk hs' hm, by omega, hq⟩

theorem search (t : Taken c c' l) (h : c'.Search v d n o) : c.Search v d n o ∨
    (∀ p, o = some p → p.1 ∈ l) ∧ ∃ m q, c.Search v d m q ∧ m ≤ n ∧ ∀ p, q = some p → p.1 ∈ l := by
  unfold Core.Search at h ⊢
  split at h
  · rename_i h0
    rw [if_pos h0]
    refine .inl ⟨h.1, h.2.trans ?_⟩
    unfold Core.rootSlot
    rw [t.fs, t.root]
  · rename_i h0
    simp only [if_neg h0]
    exact t.searchFrom h

end Taken

/-- A search goes on behind the cluster `q`. -/
inductive Core.PassesFrom (c : Core) (v : RawDirEntry → Verdict) : Nat → Nat → Prop
  | here {k : Nat} : inChain k = true → c.scanIn v k = .ranOff → PassesFrom c v k k
  | next {k q : Nat} : inChain k = true → c.scanIn v k = .ranOff → PassesFrom c v (getFatEntry c k) q →
    PassesFrom c v k q

/-- A search of the directory `d` goes on behind the cluster `q`. -/
def Core.Passes (c : Core) (v : RawDirEntry → Verdict) (d q : Nat) : Prop := d ≠ 0 ∧ c.PassesFrom v d q

/-- Where some clusters were freed, a search that still meets its slot met it before, and passed none of them. -/
theorem Freed.searchFrom {visited : Nat → Prop} {p : Loc} (h : Freed c visited c')
    (hscan : ∀ k, c'.scanIn v k = c.scanIn v k) (hs : c'.SearchFrom v k n o) :
    o = some p → c.SearchFrom v k n o ∧ ∀ q, c.PassesFrom v k q → ¬ visited q := by
  induction hs with
  | past _ => exact fun ho => by cases ho
  | @hit k i hk hi =>
    rw [hscan k] at hi
    refine fun _ => ⟨.hit hk hi, fun q hq => ?_⟩
    cases hq with
    | here _ h | next _ h _ =>
      rw [hi] at h
      cases h
  | stop _ _ => exact fun ho => by cases ho
  | @next k n o hk hi hrest ih =>
    intro ho
    subst ho
    rw [hscan k] at hi
    have hin := hrest.start
    have hent : c.fs.HasEntry k := by
      by_contra hlt
      rw [getFatEntry_outside (by rw [h.fs]; exact Nat.not_lt.1 hlt)] at hin
      cases hin
    have hv : ¬ visited k := fun hv => by
      rw [h.cleared k hent hv] at hin
      cases hin
    obtain ⟨h1, h2⟩ := ih rfl
    rw [h.kept k hent hv] at h1 h2
    refine ⟨.next hk hi h1, fun q hq => ?_⟩
    cases hq with
    | here _ _ => exact hv
    | next _ _ hq => exact h2 q hq

theorem Freed.search {visited : Nat → Prop} {p : Loc} (h : Freed c visited c') (hroot : c'.rootDir = c.rootDir)
    (hsec : c'.sectors = c.sectors) (hs : c'.Search v d n (some p)) :
    c.Search v d n (some p) ∧ ∀ q, c.Passes v d q → ¬ visited q := by
  unfold Core.Search at hs ⊢
  split at hs
  · rename_i h0
    rw [if_pos h0]
    refine ⟨⟨hs.1, hs.2.trans ?_⟩, fun q hq => absurd h0 hq.1⟩
    unfold Core.rootSlot
    rw [h.fs, hroot]
  · rename_i h0
    rw [if_neg h0]
    have hscan : ∀ k, c'.scanIn v k = c.scanIn v k := fun k => by
      unfold Core.scanIn Core.clusterBytes
      rw [h.fs, hsec]
    obtain ⟨h1, h2⟩ := h.searchFrom hscan hs rfl
    exact ⟨h1, fun q hq => h2 q hq.2⟩

end

end AltoniumOS.Fat12

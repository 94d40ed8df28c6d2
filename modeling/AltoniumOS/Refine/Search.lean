/-
The read-only functions of the driver compute what the volume shows: on a mounted volume with
proper chains, and a disk that does not fail, finding, listing and walking return, and return
`lookup`, `listing`, `walk` and `read` of the volume. The loops follow a chain, so the inductions are
over the chain; 4096 rounds are enough for any chain of a volume.
-/
import AltoniumOS.Refine.Faults
import AltoniumOS.Refine.Layout

namespace AltoniumOS.Fat12

open AltoniumOS.Lib

/-! ## What the links lead through -/

namespace Volume

variable {V : Volume}

/-- `l` is what the links lead through from `k` on, all of it in the volume. -/
structure Tail (V : Volume) (k : Nat) (l : List Nat) : Prop where
  range : ∀ x ∈ l, V.InRange x
  linked : ∃ z, Linked V.fat k l z ∧ inChain z = false

theorem Tail.nil {k : Nat} (h : V.Tail k []) : inChain k = false := by
  obtain ⟨z, hl, hz⟩ := h.linked
  obtain rfl : k = z := hl
  exact hz

theorem Tail.cons {k x : Nat} {l : List Nat} (h : V.Tail k (x :: l)) :
    k = x ∧ V.InRange k ∧ V.Tail (V.fat k) l := by
  obtain ⟨z, ⟨rfl, hl⟩, hz⟩ := h.linked
  exact ⟨rfl, h.range k (List.mem_cons_self ..), fun y hy => h.range y (List.mem_cons_of_mem _ hy), z, hl, hz⟩

theorem Chain.tail {k : Nat} {l : List Nat} (h : V.Chain k l) : V.Tail k l := by
  obtain ⟨z, hl, hz⟩ := h.linked
  exact ⟨h.range, z, hl, inChain_of_eoc hz⟩

/-- A directory that can be walked: the root, or one with a proper chain. -/
def Walkable (V : Volume) (d : Nat) : Prop := d = 0 ∨ V.Chain d (V.chain d)

theorem WF.walkable {P : Set Nat} (h : V.WF P) {d : Nat} (hd : V.Dir d) : V.Walkable d := by
  obtain ⟨q, hq⟩ := hd
  by_cases h0 : d = 0
  · exact .inl h0
  · exact .inr (h.dir_chain hq h0).1

/-- The slots of one cluster of a directory. -/
def block (V : Volume) (k : Nat) : List Loc := (List.range V.perCluster).map (k, ·)

theorem locs_of_ne {d : Nat} (h : d ≠ 0) : V.locs d = (V.chain d).flatMap V.block := if_neg h

end Volume

theorem gives_core {α : Type} {k : Core → M α} {c c' : Core} {a : α} (h : Gives (k c) c a c') :
    Gives (getCore >>= k) c a c' := (gives_getCore c).bind h

/-! ## Directories as the walkers see them -/

/-- `l` is what the links lead through from `k` on, in the volume or not, up to a number that ends a chain. -/
structure Core.Links (c : Core) (k : Nat) (l : List Nat) : Prop where
  live : ∀ x ∈ l, inChain x = true
  linked : ∃ z, Linked (getFatEntry c) k l z ∧ inChain z = false

/-- The slots of a directory in order, whatever is in them: the root table, or the clusters met along the
links, fewer than `fuel` of them. -/
inductive Core.Table (c : Core) (fuel : Nat) : Nat → List Loc → Prop
  | root : Table c fuel 0 ((List.range c.fs.rootEntryCount).map (0, ·))
  | sub {d : Nat} {l : List Nat} : d ≠ 0 → c.Links d l → l.length < fuel → Table c fuel d (l.flatMap c.volume.block)

section

variable {c : Core}

theorem Core.Links.nil {k : Nat} (h : c.Links k []) : inChain k = false := by
  obtain ⟨z, hl, hz⟩ := h.linked
  obtain rfl : k = z := hl
  exact hz

theorem Core.Links.cons {k x : Nat} {l : List Nat} (h : c.Links k (x :: l)) :
    k = x ∧ inChain k = true ∧ c.Links (getFatEntry c k) l := by
  obtain ⟨z, ⟨rfl, hl⟩, hz⟩ := h.linked
  exact ⟨rfl, h.live k (List.mem_cons_self ..), fun y hy => h.live y (List.mem_cons_of_mem _ hy), z, hl, hz⟩

theorem length_chain_lt (hm : c.fs.Accepted) {d fuel : Nat} (hf : 4096 ≤ fuel) {l : List Nat}
    (h : c.volume.Chain d l) : l.length < fuel := by
  have := h.length_lt hm.geom
  omega

/-- A proper chain is one the walkers come to the end of. -/
theorem Volume.Chain.links (hm : c.fs.Accepted) {k : Nat} {l : List Nat}
    (h : c.volume.Chain k l) : c.Links k l := by
  obtain ⟨z, hl, hz⟩ := h.linked
  exact ⟨fun x hx => (h.range x hx).inChain hm.geom, z, hl, inChain_of_eoc hz⟩

theorem Volume.Walkable.table (hm : c.fs.Accepted) {fuel : Nat} (hf : 4096 ≤ fuel) {d : Nat}
    (hd : c.volume.Walkable d) : c.Table fuel d (c.volume.locs d) := by
  by_cases h0 : d = 0
  · subst h0
    exact .root
  · have hc := hd.resolve_left h0
    rw [locs_of_ne h0]
    exact .sub h0 (hc.links hm) (length_chain_lt hm hf hc)

theorem Volume.Walkable.isSlot {d : Nat} (hd : c.volume.Walkable d) {p : Loc}
    (hp : p ∈ c.volume.locs d) : c.IsSlot p := by
  by_cases h0 : d = 0
  · subst h0
    exact .inl (mem_locs_root.1 hp)
  · obtain ⟨h1, h2⟩ := (mem_locs_sub h0).1 hp
    have hr := (hd.resolve_left h0).range _ h1
    exact .inr ⟨hr.1, hr.2.1, h2⟩

/-- Scanning the slots of a directory of the volume is scanning the entries in them. -/
theorem Volume.Walkable.scan (hm : c.fs.Accepted) {d : Nat} (hd : c.volume.Walkable d) (v : RawDirEntry → Verdict) :
    scan (fun p => v (c.slotIn p)) (c.volume.locs d) = Lib.scan (fun p => v (c.volume.slot p)) (c.volume.locs d) :=
  scan_congr fun _ hp => by rw [slot_eq hm (hd.isSlot hp)]

theorem Volume.Walkable.slots (hm : c.fs.Accepted) {d : Nat} (hd : c.volume.Walkable d) :
    c.volume.slots d = (c.volume.locs d).map c.slotIn :=
  List.map_congr_left fun _ hp => slot_eq hm (hd.isSlot hp)

/-- A slot in a chain, read from a buffer holding its cluster. -/
theorem slotIn_buffer (hm : c.fs.Accepted) {k i : Nat} {b : Buf} (hk : inChain k = true)
    (hb : ∀ x < sectorSize * c.fs.sectorsPerCluster, b x = c.clusterBytes k x) (hi : i < c.fs.entriesPerCluster) :
    slotAt b i = c.slotIn (k, i) := by
  have h0 : k ≠ 0 := by
    rintro rfl
    cases hk
  rw [slotAt_eq hm hb hi]
  exact (if_neg h0).symm

/-- Scanning a table, as slots of a directory. -/
theorem scan_table {f : RawDirEntry → Verdict} {b : Buf} {k m : Nat} (h : ∀ i < m, slotAt b i = c.slotIn (k, i)) :
    scan (fun p => f (c.slotIn p)) ((List.range m).map (k, ·)) =
      match scan (fun i => f (slotAt b i)) (List.range m) with
      | .hit i => .hit (k, i)
      | .stopped => .stopped
      | .ranOff => .ranOff := by
  rw [scan_map]
  have hc : scan ((fun p => f (c.slotIn p)) ∘ fun i => (k, i)) (List.range m) =
      scan (fun i => f (slotAt b i)) (List.range m) := scan_congr fun i hi => by
    rw [Function.comp, h i (List.mem_range.1 hi)]
  rw [hc]
  cases scan (fun i => f (slotAt b i)) (List.range m) <;> rfl

/-- A cluster is scanned in the buffer it was read into. -/
theorem scan_block {b : Buf} {k : Nat} (h : ∀ i < c.fs.entriesPerCluster, slotAt b i = c.slotIn (k, i))
    (v : RawDirEntry → Verdict) :
    scan (fun p => v (c.slotIn p)) (c.volume.block k) =
      match scan (fun i => v (slotAt b i)) (List.range c.fs.entriesPerCluster) with
      | .hit i => .hit (k, i)
      | .stopped => .stopped
      | .ranOff => .ranOff := scan_table h

/-- The root table is scanned where it is cached. -/
theorem scan_root (v : RawDirEntry → Verdict) :
    scan (fun p => v (c.slotIn p)) ((List.range c.fs.rootEntryCount).map (0, ·)) =
      match scan (fun i => v (slotAt c.rootDir i)) (List.range c.fs.rootEntryCount) with
    | .hit i => .hit (0, i)
    | .stopped => .stopped
    | .ranOff => .ranOff := scan_table fun _ _ => (if_pos rfl).symm

/-! ## Finding an entry -/

/-- The answer of a search, from the outcome of its scan. -/
def found (slot : Loc → RawDirEntry) : Scan Loc → Except Code (RawDirEntry × Loc)
  | .hit p => .ok (slot p, p)
  | _ => .error .errNotFound

/-- How many of the clusters `l` a search reads: up to the one that ends it. -/
def Core.searchReads (c : Core) (v : RawDirEntry → Verdict) : List Nat → Nat
  | [] => 0
  | k :: l =>
    match scan (fun p => v (c.slotIn p)) (c.volume.block k) with
    | .ranOff => 1 + c.searchReads v l
    | _ => 1

/-- One round of `fat12_find_entry`. -/
theorem looks_findRound (hm : c.fs.Accepted) (n : ShortName) {k : Nat} (hin : inChain k = true) :
    Looks (findRound n k) c 1
      (match scan (fun p => findVerdict n (c.slotIn p)) (c.volume.block k) with
        | .hit p => .inr (.ok (c.slotIn p, p))
        | .stopped => .inr (.error .errNotFound)
        | .ranOff => .inl (getFatEntry c k))
      (.inr (.error .errIo)) := by
  unfold findRound
  rw [if_pos hin]
  refine .read hm.spc_ne (fun b hb => .core ?_) fun b => .pure _ _
  have hslot : ∀ i < c.fs.entriesPerCluster, slotAt b i = c.slotIn (k, i) := fun i hi => slotIn_buffer hm hin hb hi
  rw [scan_block hslot (findVerdict n)]
  cases hi : scan (fun i => findVerdict n (slotAt b i)) (List.range c.fs.entriesPerCluster) with
  | hit i =>
    dsimp only
    rw [hslot i (List.mem_range.1 (scan_hit_mem hi).1)]
    exact .pure _ _
  | stopped => exact .pure _ _
  | ranOff => exact .pure _ _

theorem looks_findLoop (hm : c.fs.Accepted) (n : ShortName) :
    ∀ {l : List Nat} {k fuel : Nat}, c.Links k l → l.length < fuel →
      Looks (loop (findRound n) fuel k) c (c.searchReads (findVerdict n) l)
        (found c.slotIn (scan (fun p => findVerdict n (c.slotIn p)) (l.flatMap c.volume.block))) (.error .errIo)
  | [], k, fuel + 1, ht, _ => by
    refine Looks.loop_done ?_
    unfold findRound
    rw [if_neg (by rw [ht.nil]; simp)]
    exact .pure _ _
  | x :: l, k, fuel + 1, ht, hlt => by
    obtain ⟨rfl, hin, ht'⟩ := ht.cons
    have hround := looks_findRound hm n hin
    rw [List.flatMap_cons, scan_append, Core.searchReads]
    cases hs : scan (fun p => findVerdict n (c.slotIn p)) (c.volume.block k) with
    | hit p =>
      rw [hs] at hround
      exact hround.loop_done
    | stopped =>
      rw [hs] at hround
      exact hround.loop_done
    | ranOff =>
      rw [hs] at hround
      exact hround.loop_next (looks_findLoop hm n ht' (by simpa using hlt))

/-- How many clusters a search for `n` in the directory `d` reads: none in the root, which is cached. -/
def Core.lookupReads (c : Core) (d : Nat) (n : ShortName) : Nat :=
  if d = 0 then 0 else c.searchReads (findVerdict n) (c.volume.chain d)

/-- Slots that hold the same are read as far. -/
theorem searchReads_congr {c' : Core} {v : RawDirEntry → Verdict}
    (hn : c'.volume.perCluster = c.volume.perCluster) :
    ∀ {l : List Nat},
      (∀ k ∈ l, ∀ i < c.volume.perCluster, c'.slotIn (k, i) = c.slotIn (k, i)) →
      c'.searchReads v l = c.searchReads v l
  | [], _ => rfl
  | k :: l, h => by
    have hblock : c'.volume.block k = c.volume.block k := by
      unfold Volume.block
      rw [hn]
    have hscan : scan (fun p => v (c'.slotIn p)) (c.volume.block k) =
        scan (fun p => v (c.slotIn p)) (c.volume.block k) :=
      scan_congr fun p hp => by
        obtain ⟨i, hi, rfl⟩ := List.mem_map.1 hp
        rw [h k (List.mem_cons_self ..) i (List.mem_range.1 hi)]
    rw [Core.searchReads, Core.searchReads, hblock, hscan, searchReads_congr hn fun x hx =>
      h x (List.mem_cons_of_mem _ hx)]

/-- So are the clusters of a directory whose slots hold the same. -/
theorem dirReads_congr {c' : Core} (hm : c.fs.Accepted) (hm' : c'.fs.Accepted)
    (hz : Volume.SameSizes c.volume c'.volume) {d : Nat} (hd : c.volume.Walkable d) (hd' : c'.volume.Walkable d)
    (hc : c'.volume.chain d = c.volume.chain d) (hl : c'.volume.locs d = c.volume.locs d)
    (hs : ∀ p ∈ c.volume.locs d, c'.volume.slot p = c.volume.slot p) (v : RawDirEntry → Verdict) :
    (if d = 0 then 0 else c'.searchReads v (c'.volume.chain d)) = if d = 0 then 0
      else c.searchReads v (c.volume.chain d) := by
  split
  · rfl
  · rename_i h0
    rw [hc]
    refine searchReads_congr hz.perCluster fun k hk i hi => ?_
    have hp : (k, i) ∈ c.volume.locs d := (Volume.mem_locs_sub h0).2 ⟨hk, hi⟩
    rw [← slot_eq hm (hd.isSlot hp), ← slot_eq hm' (hd'.isSlot (hl ▸ hp))]
    exact hs _ hp

theorem lookupReads_congr {c' : Core} (hm : c.fs.Accepted) (hm' : c'.fs.Accepted)
    (hz : Volume.SameSizes c.volume c'.volume) {d : Nat} (hd : c.volume.Walkable d) (hd' : c'.volume.Walkable d)
    (hc : c'.volume.chain d = c.volume.chain d) (hl : c'.volume.locs d = c.volume.locs d)
    (hs : ∀ p ∈ c.volume.locs d, c'.volume.slot p = c.volume.slot p) (n : ShortName) :
    c'.lookupReads d n = c.lookupReads d n := dirReads_congr hm hm' hz hd hd' hc hl hs (findVerdict n)

/-- `fat12_find_entry` in the root table. -/
theorem looks_find_root (fuel : Nat) (n : ShortName) :
    Looks (findEntry fuel 0 n) c 0 (found c.slotIn (scan (fun p => findVerdict n (c.slotIn p))
      ((List.range c.fs.rootEntryCount).map (0, ·)))) (.error .errIo) := by
  unfold findEntry
  refine .core ?_
  rw [if_pos rfl, scan_root (findVerdict n)]
  cases scan (fun i => findVerdict n (slotAt c.rootDir i)) (List.range c.fs.rootEntryCount) with
  | hit i => exact .pure _ _
  | stopped => exact .pure _ _
  | ranOff => exact .pure _ _

/-- `fat12_find_entry` on any directory with a finite chain. -/
theorem gives_find (hm : c.fs.Accepted) {fuel d : Nat} {locs : List Loc} (ht : c.Table fuel d locs)
    (n : ShortName) :
    Gives (findEntry fuel d n) c (found c.slotIn (scan (fun p => findVerdict n (c.slotIn p)) locs)) c := by
  cases ht with
  | root => exact (looks_find_root fuel n).gives
  | sub h0 hl hlt =>
    unfold findEntry
    apply gives_core
    rw [if_neg h0]
    exact (looks_findLoop hm n hl hlt).gives

/-- `fat12_find_entry` finds the slot of the name, or stops at a cluster it cannot read. -/
theorem looks_findEntry (hm : c.fs.Accepted) {fuel : Nat} (hf : 4096 ≤ fuel) {d : Nat} (hd : c.volume.Walkable d)
    (n : ShortName) : Looks (findEntry fuel d n) c (c.lookupReads d n) (match c.volume.lookup d n with
        | some p => .ok (c.volume.slot p, p)
        | none => .error .errNotFound) (.error .errIo) := by
  have hres : (match c.volume.lookup d n with
      | some p => .ok (c.volume.slot p, p)
      | none =>
        .error .errNotFound) = found c.slotIn (scan (fun p => findVerdict n (c.slotIn p)) (c.volume.locs d)) := by
    rw [hd.scan hm]
    unfold Volume.lookup
    cases hs : scan (fun p => findVerdict n (c.volume.slot p)) (c.volume.locs d) with
    | hit p =>
      dsimp only
      rw [slot_eq hm (hd.isSlot (scan_hit_mem hs).1)]
      rfl
    | stopped => rfl
    | ranOff => rfl
  rw [hres]
  unfold Core.lookupReads
  by_cases h0 : d = 0
  · subst h0
    exact looks_find_root fuel n
  · have hc := hd.resolve_left h0
    unfold findEntry
    apply Looks.core
    rw [if_neg h0, if_neg h0, Volume.locs_of_ne h0]
    exact looks_findLoop hm n (hc.links hm) (length_chain_lt hm hf hc)

/-- `fat12_find_entry` finds the slot of the name. -/
theorem gives_findEntry (hm : c.fs.Accepted) {fuel : Nat} (hf : 4096 ≤ fuel) {d : Nat} (hd : c.volume.Walkable d)
    (n : ShortName) : Gives (findEntry fuel d n) c (match c.volume.lookup d n with
        | some p => .ok (c.volume.slot p, p)
        | none => .error .errNotFound) c := (looks_findEntry hm hf hd n).gives

/-! ## Finding a free slot -/

theorem freeVerdict_hit {e : RawDirEntry} : freeVerdict e = .hit ↔ ¬ e.Live := by
  unfold freeVerdict RawDirEntry.Live
  cases isFreeEntry e <;> simp

theorem freeVerdict_skip {e : RawDirEntry} : freeVerdict e = .skip ↔ e.Live := by
  unfold freeVerdict RawDirEntry.Live
  cases isFreeEntry e <;> simp

theorem freeVerdict_ne_stop (e : RawDirEntry) : freeVerdict e ≠ .stop := by
  unfold freeVerdict
  split <;> simp

/-- One round of `fat12_find_free_entry`. -/
theorem looks_freeRound (hm : c.fs.Accepted) {k : Nat} (previous : Nat) (hin : inChain k = true) :
    Looks (freeRound (k, previous)) c 1
      (match scan (fun p => freeVerdict (c.slotIn p)) (c.volume.block k) with
        | .hit p => .inr (.inl (.ok p))
        | _ => .inl (getFatEntry c k, k))
      (.inr (.inl (.error .errIo))) := by
  rw [freeRound, if_pos hin]
  refine .read hm.spc_ne (fun b hb => .core ?_) fun b => .pure _ _
  have hslot : ∀ i < c.fs.entriesPerCluster, slotAt b i = c.slotIn (k, i) := fun i hi => slotIn_buffer hm hin hb hi
  rw [scan_block hslot freeVerdict]
  cases scan (fun i => freeVerdict (slotAt b i)) (List.range c.fs.entriesPerCluster) with
  | hit i => exact .pure _ _
  | stopped => exact .pure _ _
  | ranOff => exact .pure _ _

/-- The cluster loop of the search for a free slot: the first one, or the last cluster. -/
theorem looks_freeLoop (hm : c.fs.Accepted) :
    ∀ {l : List Nat} {k fuel : Nat} (previous : Nat), c.Links k l → l.length < fuel →
      Looks (loop freeRound fuel (k, previous)) c (c.searchReads freeVerdict l)
        (match scan (fun p => freeVerdict (c.slotIn p)) (l.flatMap c.volume.block) with
        | .hit p => .inl (.ok p)
        | _ => .inr (l.getLastD previous)) (.inl (.error .errIo))
  | [], k, fuel + 1, previous, ht, _ => by
    refine Looks.loop_done ?_
    rw [freeRound, if_neg (by rw [ht.nil]; simp)]
    exact .pure _ _
  | x :: l, k, fuel + 1, previous, ht, hlt => by
    obtain ⟨rfl, hin, ht'⟩ := ht.cons
    have hround := looks_freeRound hm previous hin
    rw [List.flatMap_cons, scan_append, Core.searchReads]
    cases hs : scan (fun p => freeVerdict (c.slotIn p)) (c.volume.block k) with
    | hit p =>
      rw [hs] at hround
      exact hround.loop_done
    | stopped => exact absurd hs (scan_ne_stopped fun p => freeVerdict_ne_stop _)
    | ranOff =>
      rw [hs] at hround
      have hlast : (k :: l).getLastD previous = l.getLastD k := by cases l <;> rfl
      rw [hlast]
      exact hround.loop_next (looks_freeLoop hm k ht' (by simpa using hlt))

/-! ## Listing -/

/-- What a listing shows of slots in order: the listed ones before the first slot never used. -/
def listed (es : List RawDirEntry) : List DirEntryInfo :=
  ((es.takeWhile fun e => e.name.first != nameEnd).filter isListed).map copyEntryInfo

theorem listed_cons (e : RawDirEntry) (es : List RawDirEntry) : listed (e :: es) =
    if e.name.first = nameEnd then [] else if isListed e then copyEntryInfo e :: listed es else listed es := by
  unfold listed
  by_cases h0 : e.name.first = nameEnd
  · simp [h0]
  · by_cases hl : isListed e <;> simp [h0, hl]

theorem listed_append (es fs : List RawDirEntry) :
    listed (es ++ fs) = listed es ++ if es.any (·.name.first == nameEnd) then [] else listed fs := by
  induction es with
  | nil => rfl
  | cons e es ih =>
    rw [List.cons_append, listed_cons, listed_cons, ih]
    by_cases h0 : e.name.first = nameEnd
    · simp [h0]
    · by_cases hl : isListed e <;> simp [h0, hl]

/-- With the slots never used last, it is the live ones listed. -/
theorem listed_eq {es : List RawDirEntry}
    (hz : es.Pairwise fun a b => a.name.first = nameEnd → b.name.first = nameEnd) :
    listed es = (es.filter Volume.shown).map copyEntryInfo := by
  induction es with
  | nil => rfl
  | cons e es ih =>
    obtain ⟨hz1, hz2⟩ := List.pairwise_cons.1 hz
    rw [listed_cons, ih hz2]
    by_cases h0 : e.name.first = nameEnd
    · have hnone : (e :: es).filter Volume.shown = [] := List.filter_eq_nil_iff.2 fun x hx => by
        rcases List.mem_cons.1 hx with rfl | hx
        · simp [Volume.shown, h0]
        · simp [Volume.shown, hz1 x hx h0]
      rw [if_pos h0, hnone]
      rfl
    · by_cases hl : isListed e <;> simp [Volume.shown, h0, hl]

section Feed

variable {κ : Type} {cb : κ → DirEntryInfo → Bool × κ}

/-- A callback fed a list until it stops: whether it stopped, and its context. -/
def feed (cb : κ → DirEntryInfo → Bool × κ) : List DirEntryInfo → κ → Bool × κ
  | [], ctx => (false, ctx)
  | info :: l, ctx =>
    match cb ctx info with
    | (true, ctx) => (true, ctx)
    | (false, ctx) => feed cb l ctx

theorem feed_append : ∀ (l m : List DirEntryInfo) (ctx : κ), feed cb (l ++ m) ctx =
    match feed cb l ctx with
    | (true, ctx) => (true, ctx)
    | (false, ctx) => feed cb m ctx
  | [], m, ctx => rfl
  | info :: l, m, ctx => by
    rw [List.cons_append, feed, feed]
    cases cb ctx info with
    | mk b ctx' =>
      cases b with
      | true => rfl
      | false => exact feed_append l m ctx'

/-- The slot loop feeds the callback what the slots show, and returns early at a stop of the
callback or at a slot never used. -/
theorem iterateSlots_eq (slot : Nat → RawDirEntry) :
    ∀ (is : List Nat) (ctx : κ), iterateSlots cb slot is ctx =
      ((feed cb (listed (is.map slot)) ctx).1 || (is.map slot).any (·.name.first == nameEnd),
        (feed cb (listed (is.map slot)) ctx).2)
  | [], ctx => rfl
  | i :: is, ctx => by
    have ih := fun ctx => iterateSlots_eq slot is ctx
    rw [iterateSlots, List.map_cons, listed_cons]
    by_cases h0 : (slot i).name.first = nameEnd
    · simp [h0, feed]
    · have hne : ((slot i).name.first == nameEnd) = false := beq_eq_false_iff_ne.2 h0
      rw [if_neg h0, if_neg h0]
      split
      · rw [feed]
        cases cb ctx (copyEntryInfo (slot i)) with
        | mk b ctx' =>
          cases b with
          | true => rfl
          | false => simp [ih, hne]
      · simp [ih, hne]

theorem iterateSlots_congr {slot slot' : Nat → RawDirEntry} :
    ∀ {is : List Nat} {ctx : κ}, (∀ i ∈ is, slot i = slot' i) →
      iterateSlots cb slot is ctx = iterateSlots cb slot' is ctx
  | [], _, _ => rfl
  | i :: is, ctx, h => by
    have ih := fun ctx => @iterateSlots_congr slot slot' is ctx fun j hj => h j (List.mem_cons_of_mem _ hj)
    rw [iterateSlots, iterateSlots, h i (List.mem_cons_self ..)]
    simp only [ih]

/-- One round of the cluster loop of a listing. -/
theorem gives_iterateRound (hm : c.fs.Accepted) (cb : κ → DirEntryInfo → Bool × κ) {k : Nat}
    (hin : inChain k = true) (ctx : κ) :
    Gives (iterateRound cb (k, ctx)) c
      (match iterateSlots cb (fun i => c.slotIn (k, i)) (List.range c.fs.entriesPerCluster) ctx with
        | (true, ctx) => .inr (.ok, ctx)
        | (false, ctx) => .inl (getFatEntry c k, ctx)) c := by
  rw [iterateRound, if_pos hin]
  refine gives_readCluster hm.spc_ne fun b hb => gives_core ?_
  have hslots : iterateSlots cb (slotAt b) (List.range c.fs.entriesPerCluster) ctx =
      iterateSlots cb (fun i => c.slotIn (k, i)) (List.range c.fs.entriesPerCluster) ctx :=
    iterateSlots_congr fun i hi => slotIn_buffer hm hin hb (List.mem_range.1 hi)
  rw [hslots]
  obtain ⟨stop, ctx'⟩ := iterateSlots cb (fun i => c.slotIn (k, i)) (List.range c.fs.entriesPerCluster) ctx
  cases stop <;> exact .pure _

/-- The cluster loop of a listing. -/
theorem gives_iterateLoop (hm : c.fs.Accepted) :
    ∀ {l : List Nat} {k fuel : Nat} {ctx : κ}, c.Links k l → l.length < fuel →
      Gives (loop (iterateRound cb) fuel (k, ctx)) c
        (.ok, (feed cb (listed ((l.flatMap c.volume.block).map c.slotIn)) ctx).2) c
  | [], k, fuel + 1, ctx, ht, _ => by
    refine Yields.loop_done ?_
    rw [iterateRound, if_neg (by rw [ht.nil]; simp)]
    exact .pure _
  | x :: l, k, fuel + 1, ctx, ht, hlt => by
    obtain ⟨rfl, hin, ht'⟩ := ht.cons
    have hblock : (c.volume.block k).map c.slotIn = (List.range c.fs.entriesPerCluster).map fun i =>
        c.slotIn (k, i) :=
      List.map_map
    have hround := gives_iterateRound hm cb hin ctx
    rw [iterateSlots_eq] at hround
    rw [List.flatMap_cons, List.map_append, listed_append, feed_append, hblock]
    generalize ((List.range c.fs.entriesPerCluster).map fun i => c.slotIn (k, i)) = es at hround
    cases hf : feed cb (listed es) ctx with
    | mk stop ctx' =>
      rw [hf] at hround
      cases hs : stop || es.any (·.name.first == nameEnd) with
      | true =>
        -- stopped, or nothing behind a slot never used
        have hres : (match (stop, ctx') with
            | (true, ctx) => (true, ctx)
            | (false, ctx) => feed cb (if es.any (·.name.first == nameEnd) then []
              else listed ((l.flatMap c.volume.block).map c.slotIn)) ctx).2 = ctx' := by
          cases stop with
          | true => rfl
          | false =>
            rw [Bool.false_or] at hs
            rw [if_pos hs]
            rfl
        rw [hres]
        rw [hs] at hround
        exact hround.loop_done
      | false =>
        rw [hs] at hround
        obtain ⟨rfl, hany⟩ := Bool.or_eq_false_iff.1 hs
        rw [if_neg (by rw [hany]; decide)]
        exact hround.loop_next (gives_iterateLoop hm ht' (by simpa using hlt))

/-- `fat12_iterate_directory_internal` on any directory with a finite chain. -/
theorem gives_list (hm : c.fs.Accepted) {fuel d : Nat} {locs : List Loc} (ht : c.Table fuel d locs)
    (cb : κ → DirEntryInfo → Bool × κ) (ctx : κ) :
    Gives (iterateDirectoryInternal fuel d cb ctx) c (.ok, (feed cb (listed (locs.map c.slotIn)) ctx).2) c := by
  unfold iterateDirectoryInternal
  refine gives_core ?_
  cases ht with
  | root =>
    rw [if_pos rfl, iterateSlots_eq, List.map_map]
    exact .pure _
  | sub h0 hl hlt =>
    rw [if_neg h0]
    exact gives_iterateLoop hm hl hlt

/-- `fat12_iterate_directory_internal` feeds the callback the listing. -/
theorem gives_iterate {P : Set Nat} (hm : c.fs.Accepted) (h : c.volume.WF P) {fuel : Nat} (hf : 4096 ≤ fuel)
    {d : Nat} (hd : c.volume.Dir d) (cb : κ → DirEntryInfo → Bool × κ) (ctx : κ) :
    Gives (iterateDirectoryInternal fuel d cb ctx) c (.ok, (feed cb (c.volume.listing d) ctx).2) c := by
  have hw := h.walkable hd
  obtain ⟨q, hq⟩ := hd
  have hz : (c.volume.slots d).Pairwise fun a b => a.name.first = nameEnd → b.name.first = nameEnd :=
    List.pairwise_map.2 (h.dirOk d q hq).zeros
  rw [Volume.listing, ← listed_eq hz, hw.slots hm]
  exact gives_list hm (hw.table hm hf) cb ctx

end Feed

/-! ## Walking -/

/-- The current directory and the directories above it are directories of the volume. -/
structure Core.Settled (c : Core) : Prop where
  current : c.volume.Dir c.currentDirCluster
  stack : c.volume.Dirs c.pathStack

theorem Core.Settled.start (h : c.Settled) (path : List UInt8) :
    c.volume.Dir (c.start path).1 ∧ c.volume.Dirs (c.start path).2 := by
  unfold Core.start
  split
  · exact ⟨Volume.dir_root, .empty⟩
  · exact ⟨h.current, h.stack⟩

/-- How many clusters the lookups of a path read. -/
def Core.pathReads (c : Core) (lookups : List (Nat × ShortName)) : Nat :=
  (lookups.map fun r => c.lookupReads r.1 r.2).sum

theorem pathReads_cons (r : Nat × ShortName) (l : List (Nat × ShortName)) :
    c.pathReads (r :: l) = c.lookupReads r.1 r.2 + c.pathReads l := List.sum_cons

/-- The walk of `fat12_change_directory` is the walk of the volume, as far as the clusters on its way can be
read. -/
theorem looks_changeLoop {P : Set Nat} (hm : Mounted c) (h : c.volume.WF P) {fuel : Nat} (hf : 4096 ≤ fuel) :
    ∀ {cs : List (List UInt8)} {cluster : Nat} {stack : PathStack}, c.volume.Dir cluster → c.volume.Dirs stack →
      Looks (changeLoop fuel cluster stack cs) c (c.pathReads (c.volume.lookups cluster stack cs))
        (c.volume.walk cluster stack cs) (.error .errIo)
  | [], cluster, stack, _, _ => .pure _ _
  | component :: rest, cluster, stack, hc, hs => by
    rw [changeLoop, Volume.walk, Volume.lookups]
    split
    · exact looks_changeLoop hm h hf hc hs
    · split
      · exact looks_changeLoop hm h hf hs.pop.top hs.pop
      · cases hn : makeShortName component with
        | error e => exact .pure _ _
        | ok n =>
          dsimp only
          rw [pathReads_cons, Volume.find_eq]
          refine (looks_findEntry hm hf (h.walkable hc) n).bind ?_ fun _ => Yields.pure _
          cases hp : c.volume.lookup cluster n with
          | none => exact .pure _ _
          | some p =>
            dsimp only [Option.map]
            split
            · exact .pure _ _
            · rename_i hi
              have hd : c.volume.Dir (c.volume.slot p).cluster :=
                ⟨_, h.find_dir hc (makeShortName_proper hn) (by rw [Volume.find_eq, hp]; rfl) (by simpa using hi)⟩
              exact looks_changeLoop hm h hf hd (hs.push hd _)

theorem gives_locate {P : Set Nat} (hm : Mounted c) (h : c.volume.WF P) {fuel : Nat} (hf : 4096 ≤ fuel)
    (hs : c.Settled) (path : List UInt8) :
    Gives (locateDirectory fuel path) c
      ((c.volume.walk (c.start path).1 (c.start path).2 (components path)).map Prod.fst) c := by
  obtain ⟨h1, h2⟩ := hs.start path
  by_cases hp : path = []
  · subst hp
    unfold locateDirectory
    refine gives_core ?_
    exact .pure _
  · intro s hc hg
    rw [locateDirectory_eq fuel hp s, hc]
    exact (looks_changeLoop hm h hf h1 h2).gives.map _ s hc hg

/-- How many clusters a path reads on its way to the directory of its last name. -/
def Core.resolveReads (c : Core) (path : List UInt8) : Nat :=
  c.pathReads (c.volume.lookups (c.start path).1 (c.start path).2 (components path).dropLast)

/-- `fat12_resolve_parent_and_name` resolves as the volume does, as far as the clusters on its way can be read. -/
theorem looks_resolve {P : Set Nat} (hm : Mounted c) (h : c.volume.WF P) {fuel : Nat} (hf : 4096 ≤ fuel)
    (hs : c.Settled) (path : List UInt8) :
    Looks (resolveParentAndName fuel path) c (c.resolveReads path)
      (c.volume.resolve (c.start path).1 (c.start path).2 (components path)) (.error .errIo) := by
  have key : ∀ (cs : List (List UInt8)) (cluster : Nat) (stack : PathStack), c.volume.Dir cluster →
      c.volume.Dirs stack →
      Looks (resolveLoop fuel cluster stack.clusters cs) c
        (c.pathReads (c.volume.lookups cluster stack cs.dropLast))
        (c.volume.resolve cluster stack cs) (.error .errIo) := by
    intro cs cluster stack h1 h2
    cases hl : cs.getLast? with
    | none =>
      rw [List.getLast?_eq_none_iff.1 hl]
      exact .pure _ _
    | some last =>
      obtain ⟨ds, rfl⟩ := List.getLast?_eq_some_iff.1 hl
      rw [resolveLoop_eq, locateLoop_eq, Volume.resolve_concat, List.dropLast_concat]
      have hw := ((@looks_changeLoop c P hm h fuel hf ds cluster stack h1 h2).map (Except.map Prod.fst)).map
        fun r => r.bind fun cluster => nameIn cluster last
      revert hw
      cases c.volume.walk cluster stack ds <;> exact id
  obtain ⟨h1, h2⟩ := hs.start path
  unfold resolveParentAndName Core.resolveReads
  apply Looks.core
  by_cases hp : path = []
  · subst hp
    exact .pure _ _
  · rw [if_neg hp]
    unfold Core.start at h1 h2 ⊢
    split
    · rename_i ha
      rw [if_pos ha] at h1 h2
      exact key _ 0 .empty h1 h2
    · rename_i ha
      rw [if_neg ha] at h1 h2
      exact key _ _ _ h1 h2

theorem gives_resolve {P : Set Nat} (hm : Mounted c) (h : c.volume.WF P) {fuel : Nat} (hf : 4096 ≤ fuel)
    (hs : c.Settled) (path : List UInt8) :
    Gives (resolveParentAndName fuel path) c
      (c.volume.resolve (c.start path).1 (c.start path).2 (components path)) c :=
  (looks_resolve hm h hf hs path).gives

/-! ## Reading -/

/-- The copy loop on a chain as long as the size asks, from its cluster `j` on. -/
theorem gives_readLoop (hm : Mounted c) {start size : Nat} {l₀ : List Nat} (hl₀ : c.volume.Chain start l₀)
    (hlen : l₀.length = c.volume.clustersFor size) (buffer : Buf) :
    ∀ {l : List Nat} {j k fuel : Nat}, l₀.drop j = l →
      c.volume.Tail k l → l.length < fuel →
      Gives (loop (readRound size) fuel (k, min (j * c.fs.clusterSizeBytes) size,
          fun i => if i < min (j * c.fs.clusterSizeBytes) size then c.volume.content start i else buffer i)) c
        (.ok, (fun i => if i < size then c.volume.content start i else buffer i), some size) c := by
  have hcs : 0 < c.fs.clusterSizeBytes := by
    have := hm.accepted.spc.1
    rw [hm.accepted.clusterSize_eq]
    unfold sectorSize
    omega
  have hcount : l₀.length = (size + c.fs.clusterSizeBytes - 1) / c.fs.clusterSizeBytes := hlen
  intro l
  induction l with
  | nil =>
    intro j k fuel hj ht hlt
    obtain ⟨fuel, rfl⟩ : ∃ n, fuel = n + 1 := ⟨fuel - 1, by simp at hlt; omega⟩
    have hle : l₀.length ≤ j := List.drop_eq_nil_iff.1 hj
    have hsz : size ≤ j * c.fs.clusterSizeBytes := by
      have h1 := Nat.div_add_mod (size + c.fs.clusterSizeBytes - 1) c.fs.clusterSizeBytes
      have h2 := Nat.mod_lt (size + c.fs.clusterSizeBytes - 1) hcs
      have h3 : c.fs.clusterSizeBytes * l₀.length ≤ c.fs.clusterSizeBytes * j := Nat.mul_le_mul_left _ hle
      rw [Nat.mul_comm j]
      rw [hcount] at h3
      omega
    rw [Nat.min_eq_right hsz]
    refine Yields.loop_done ?_
    rw [readRound, if_neg (by omega)]
    exact .pure _
  | cons x l ih =>
    intro j k fuel hj ht hlt
    obtain ⟨fuel, rfl⟩ : ∃ n, fuel = n + 1 := ⟨fuel - 1, by simp at hlt; omega⟩
    obtain ⟨rfl, hk, ht'⟩ := ht.cons
    have hjlt : j < l₀.length := by
      by_contra hge
      rw [List.drop_eq_nil_of_le (by omega)] at hj
      cases hj
    have hget : l₀[j]? = some k := by
      have h0 : (l₀.drop j)[0]? = some k := by rw [hj]; rfl
      rwa [List.getElem?_drop, Nat.add_zero] at h0
    have hdrop : l₀.drop (j + 1) = l := by rw [← List.drop_drop, hj]; rfl
    have hsz : j * c.fs.clusterSizeBytes < size := by
      have h1 : j + 1 ≤ (size + c.fs.clusterSizeBytes - 1) / c.fs.clusterSizeBytes := by omega
      rw [Nat.le_div_iff_mul_le hcs, Nat.succ_mul] at h1
      omega
    have hmin : min (j * c.fs.clusterSizeBytes) size = j * c.fs.clusterSizeBytes := Nat.min_eq_left (by omega)
    have hnext : min ((j + 1) * c.fs.clusterSizeBytes) size =
        j * c.fs.clusterSizeBytes + min c.fs.clusterSizeBytes (size - j * c.fs.clusterSizeBytes) := by
      rw [Nat.succ_mul]; omega
    have hround : Gives (readRound size (k, j * c.fs.clusterSizeBytes,
        fun i => if i < j * c.fs.clusterSizeBytes then c.volume.content start i else buffer i)) c
        (.inl (getFatEntry c k, min ((j + 1) * c.fs.clusterSizeBytes) size,
          fun i => if i < min ((j + 1) * c.fs.clusterSizeBytes) size then c.volume.content start i else buffer i))
            c := by
      rw [readRound, if_pos ⟨hsz, hk.inChain hm.geom⟩]
      refine gives_readCluster hm.accepted.spc_ne fun b hb => gives_core ?_
      -- the bytes copied are the bytes of the file from the cursor on
      have hbuf : Buf.blit (fun i => if i < j * c.fs.clusterSizeBytes then c.volume.content start i else buffer i)
          (j * c.fs.clusterSizeBytes) b (min c.fs.clusterSizeBytes (size - j * c.fs.clusterSizeBytes)) =
          fun i => if i < min ((j + 1) * c.fs.clusterSizeBytes) size then c.volume.content start i
          else buffer i := by
        funext i
        rw [hnext]
        unfold Buf.blit
        dsimp only
        by_cases h1 : i < j * c.fs.clusterSizeBytes
        · rw [if_neg (by omega), if_pos h1, if_pos (by omega)]
        · by_cases h2 : i < j * c.fs.clusterSizeBytes + min c.fs.clusterSizeBytes (size - j * c.fs.clusterSizeBytes)
          · have hlt : i - j * c.fs.clusterSizeBytes < c.fs.clusterSizeBytes := by omega
            have hdiv : i / c.fs.clusterSizeBytes = j :=
              Nat.div_eq_of_lt_le (by omega) (by rw [Nat.succ_mul]; omega)
            have hmod : i % c.fs.clusterSizeBytes = i - j * c.fs.clusterSizeBytes := by
              have := Nat.div_add_mod i c.fs.clusterSizeBytes
              rw [hdiv, Nat.mul_comm] at this
              omega
            rw [if_pos (by omega), if_pos h2]
            unfold Volume.content
            rw [hl₀.eq hm.geom]
            have hsize : c.volume.clusterSize = c.fs.clusterSizeBytes := rfl
            rw [hsize, hdiv, hget, hmod]
            rw [hb _ (by rw [← hm.accepted.clusterSize_eq]; exact hlt)]
            exact (volume_data hk.1 hk.2.1 hlt).symm
          · rw [if_neg (by omega), if_neg h1, if_neg h2]
      dsimp only
      rw [hbuf, ← hnext]
      exact .pure _
    rw [hmin]
    exact hround.loop_next (ih hdrop ht' (by simpa using hlt))

/-- `fat12_read_file` reads what the volume shows. -/
theorem gives_readFile {P : Set Nat} (hm : Mounted c) (h : c.volume.WF P) {fuel : Nat} (hf : 4096 ≤ fuel)
    (hs : c.Settled) (path : List UInt8) (buffer : Buf) (maxSize : Nat) :
    Gives (readFile fuel path (some buffer) maxSize) c
      (c.volume.read (c.start path).1 (c.start path).2 (components path) buffer maxSize) c := by
  unfold readFile
  refine gives_core ?_
  rw [hm.ready]
  refine (gives_resolve hm h hf hs path).bind ?_
  unfold Volume.read
  cases hr : c.volume.resolve (c.start path).1 (c.start path).2 (components path) with
  | error e => exact .pure _
  | ok r =>
    obtain ⟨d, n⟩ := r
    obtain ⟨h1, h2⟩ := hs.start path
    obtain ⟨hd, hn⟩ := h.lookups_mem h1 h2 (Volume.resolve_mem_lookups hr)
    refine (gives_findEntry hm hf (h.walkable hd) n).bind ?_
    dsimp only
    rw [Volume.find_eq]
    cases hp : c.volume.lookup d n with
    | none => exact .pure _
    | some p =>
      dsimp only [Option.map]
      have hat := h.lookup_entryAt hd hn hp
      cases hi : (c.volume.slot p).isDirectory with
      | true => exact .pure _
      | false =>
        simp only [Bool.false_eq_true, if_false]
        split
        · exact .pure _
        · obtain ⟨q, hq⟩ := hd
          rcases h.file p (hat.entry hq) hi with ⟨hsz, hcl⟩ | ⟨l, hl, hlen⟩
          · obtain ⟨n, rfl⟩ : ∃ n, fuel = n + 1 := ⟨fuel - 1, by omega⟩
            have hround : Gives (readRound (c.volume.slot p).size ((c.volume.slot p).cluster, 0, buffer)) c
                (.inr (.ok, buffer, some (c.volume.slot p).size)) c := by
              rw [readRound, if_neg (by omega)]
              exact .pure _
            refine (hround.loop_done).bind ?_
            have hbuf : (fun i => if i < (c.volume.slot p).size then c.volume.content (c.volume.slot p).cluster i
                else buffer i) = buffer := by
              funext i
              exact if_neg (by omega)
            rw [hbuf]
            exact .pure _
          · have hloop := gives_readLoop hm hl hlen buffer (List.drop_zero) hl.tail (length_chain_lt hm hf hl)
            have hbuf : (fun i => if i < min (0 * c.fs.clusterSizeBytes) (c.volume.slot p).size then
                c.volume.content (c.volume.slot p).cluster i else buffer i) = buffer := by
              funext i
              exact if_neg (by omega)
            rw [hbuf, Nat.zero_mul, Nat.zero_min] at hloop
            exact hloop.bind (.pure _)

/-- `fat12_iterate_path` feeds the callback the listing of the directory the path leads to. -/
theorem gives_iteratePath {P : Set Nat} {κ : Type} (hm : Mounted c) (h : c.volume.WF P) {fuel : Nat}
    (hf : 4096 ≤ fuel) (hs : c.Settled) (path : List UInt8) (cb : κ → DirEntryInfo → Bool × κ) (ctx : κ) :
    Gives (iteratePath fuel path cb ctx) c
      (match c.volume.walk (c.start path).1 (c.start path).2 (components path) with
        | .error e => (e, ctx)
        | .ok r => (.ok, (feed cb (c.volume.listing r.1) ctx).2)) c := by
  unfold iteratePath
  refine gives_core ?_
  rw [hm.ready]
  by_cases hp : path = []
  · subst hp
    unfold iterateCurrentDirectory
    refine gives_core ?_
    rw [hm.ready]
    exact gives_iterate hm h hf hs.current cb ctx
  · rw [if_neg (by simp), if_neg hp]
    refine (gives_locate hm h hf hs path).bind ?_
    obtain ⟨h1, h2⟩ := hs.start path
    cases hw : c.volume.walk (c.start path).1 (c.start path).2 (components path) with
    | error e => exact .pure _
    | ok r => exact gives_iterate hm h hf (h.walk_dir h1 h2 hw).1 cb ctx

/-- `fat12_change_directory` goes where the path leads. -/
theorem gives_changeDirectory {P : Set Nat} (hm : Mounted c) (h : c.volume.WF P) {fuel : Nat} (hf : 4096 ≤ fuel)
    (hs : c.Settled) {path : List UInt8} (hp : path ≠ []) : Gives (changeDirectory fuel path) c
      (match c.volume.walk (c.start path).1 (c.start path).2 (components path) with
        | .error e => e
        | .ok _ => .ok)
      (match c.volume.walk (c.start path).1 (c.start path).2 (components path) with
        | .error _ => c
        | .ok r => c.enter r.1 r.2) := by
  intro s hc hg
  obtain ⟨h1, h2⟩ := hs.start path
  rw [changeDirectory_eq fuel hp (by rw [hc]; exact hm.ready), hc]
  refine ((looks_changeLoop hm h hf h1 h2).gives.bind ?_) s hc hg
  cases c.volume.walk (c.start path).1 (c.start path).2 (components path) with
  | error e => exact .pure _
  | ok r => exact (gives_modifyCore _ c).bind (.pure _)

end

end AltoniumOS.Fat12

/-
How many disk calls a change makes up to its flush, and which caches it marks dirty. `Spends m c n Q`: from the
core `c`, `m` makes `n` disk calls, and where they all succeed it returns, with `Q` of what it returns and of
the core. A call that heeds its failures and went through has made just as many.
-/
import AltoniumOS.Refine.Heeding
import AltoniumOS.Refine.Interrupted

namespace AltoniumOS.Fat12

open AltoniumOS.Lib

/-- From the core `c`, `m` makes `n` disk calls, and if they succeed what it returns and the core it leaves are
in `Q`. -/
def Spends {α : Type} (m : M α) (c : Core) (n : Nat) (Q : α → Core → Prop) : Prop :=
  ∀ s : State, s.toCore = c → (∀ k < n, s.faults k = none) → ∃ a s', m s = .ok a s' ∧ s'.faults = later s.faults n ∧
    Q a s'.toCore

namespace Spends

variable {α β : Type} {c c' : Core} {m n : Nat} {a : α} {R : α → Core → Prop} {Q Q' : β → Core → Prop}

theorem of_runs {x : M β} {b : β} (h : ∀ f, (∀ k < n, f k = none) → Runs x c f b c' (later f n)) (hq : Q b c') :
    Spends x c n Q := by
  intro s hc hs
  obtain ⟨s', h1, h2, h3⟩ := (h s.faults hs).run hc rfl
  exact ⟨b, s', h1, h3, h2 ▸ hq⟩

theorem pure {b : β} (h : Q b c) : Spends (pure b) c 0 Q := fun s hc _ => ⟨b, s, rfl, rfl, hc ▸ h⟩

theorem bind {x : M α} {k : α → M β} (hx : Spends x c n R) (hk : ∀ a c', R a c' → Spends (k a) c' m Q) :
    Spends (x >>= k) c (n + m) Q := by
  intro s hc hs
  obtain ⟨a, s₁, h1, h2, h3⟩ := hx s hc fun k hk => hs k (by omega)
  obtain ⟨b, s₂, h4, h5, h6⟩ := hk a _ h3 s₁ rfl fun k hk => by
    rw [h2]
    exact hs (k + n) (by omega)
  exact ⟨b, s₂, by rw [bind_ok h1, h4], by rw [h5, h2, later_later, Nat.add_comm], h6⟩

theorem post {x : M β} (h : Spends x c n Q) (hq : ∀ b c', Q b c' → Q' b c') : Spends x c n Q' := by
  intro s hc hs
  obtain ⟨b, s', h1, h2, h3⟩ := h s hc hs
  exact ⟨b, s', h1, h2, hq b _ h3⟩

theorem core {k : Core → M β} (h : Spends (k c) c n Q) : Spends (getCore >>= k) c n Q := by
  intro s hc hs
  obtain ⟨b, s', h1, h2⟩ := h s hc hs
  exact ⟨b, s', by rw [bind_ok (show getCore s = .ok c s by rw [← hc]; rfl), h1], h2⟩

theorem clusterBuffer {k : Buf → M β} (h : ∀ b, Spends (k b) c n Q) : Spends (getClusterBuffer >>= k) c n Q :=
  fun s hc hs => h s.clusterBuffer s hc hs

/-- A part that makes no disk call. -/
theorem step {x : M α} {k : α → M β} (hx : ∀ f, Runs x c f a c' f) (hk : Spends (k a) c' n Q) :
    Spends (x >>= k) c n Q := by
  intro s hc hs
  obtain ⟨s₁, h1, h2, h3⟩ := (hx s.faults).run hc rfl
  obtain ⟨b, s₂, h4, h5, h6⟩ := hk s₁ h2 (by rw [h3]; exact hs)
  exact ⟨b, s₂, by rw [bind_ok h1, h4], by rw [h5, h3], h6⟩

/-- A part that only reads. -/
theorem looks {x : M α} {k : α → M β} {r e : α} (hx : Looks x c n r e) (hk : Spends (k r) c m Q) :
    Spends (x >>= k) c (n + m) Q :=
  bind (R := fun a c' => a = r ∧ c' = c) (.of_runs (fun f hf => hx.finds f hf) ⟨rfl, rfl⟩) fun a c' h => by
    obtain ⟨rfl, rfl⟩ := h
    exact hk

/-- A cluster taken. -/
theorem allocateCluster {z : Nat} (hm : c.fs.Accepted) (hz : firstFree c = some z) :
    Spends Fat12.allocateCluster c 1 fun a c' => a = z ∧ c' = c.alloc z :=
  .of_runs (fun f hf => by
    have hrun := runs_allocateCluster_some hm hz f
    rw [hf 0 Nat.one_pos] at hrun
    exact hrun) ⟨rfl, rfl⟩

theorem allocate {k : Nat → M β} {z : Nat} (hm : c.fs.Accepted) (hz : firstFree c = some z)
    (hk : Spends (k z) (c.alloc z) n Q) : Spends (Fat12.allocateCluster >>= k) c (1 + n) Q :=
  (Spends.allocateCluster hm hz).bind fun a c' h => by
    obtain ⟨rfl, rfl⟩ := h
    exact hk

/-- A cluster written. -/
theorem writeCluster {cluster : Nat} {buffer b : Buf} (hn : c.fs.sectorsPerCluster ≠ 0)
    (hb : ∀ i < sectorSize * c.fs.sectorsPerCluster, buffer i = b i) :
    Spends (Fat12.writeCluster cluster buffer) c 1 fun a c' => a = true ∧ c' = c.putCluster cluster b :=
  .of_runs (fun f hf => by
    have hrun := @runs_writeCluster cluster buffer b c f hn hb
    rw [hf 0 Nat.one_pos] at hrun
    exact hrun) ⟨rfl, rfl⟩

theorem write {k : Bool → M β} {cluster : Nat} {buffer b : Buf} (hn : c.fs.sectorsPerCluster ≠ 0)
    (hb : ∀ i < sectorSize * c.fs.sectorsPerCluster, buffer i = b i)
    (hk : Spends (k true) (c.putCluster cluster b) n Q) :
    Spends (Fat12.writeCluster cluster buffer >>= k) c (1 + n) Q :=
  (Spends.writeCluster hn hb).bind fun a c' h => by
    obtain ⟨rfl, rfl⟩ := h
    exact hk

end Spends

/-- What went through was as many calls, all of which succeeded: with one more failing it would have ended the
same, and one less would not have been enough. -/
theorem Heeds.spends {β : Type} {P : β → Prop} {m : M β} {n : Nat} {Q : β → Core → Prop} {s s' : State} {b : β}
    (h : Heeds P m) (hn : Spends m s.toCore n Q) (hm : m s = .ok b s') (hb : P b) :
    (∀ k < n, s.faults k = none) ∧ s'.faults = later s.faults n ∧ Q b s'.toCore := by
  obtain ⟨j, hj, hg⟩ := h s b s' hm
  obtain ⟨hok, hsame⟩ := hg hb
  -- the outcomes of a disk on which only the first `i` calls succeed
  let g : Nat → Nat → Option Nat := fun i k => if k < i then none else some 0
  have hg0 : ∀ i, ∀ k < i, g i k = none := fun i k hk => if_pos hk
  have hjn : ∀ i, j ≤ i → n ≤ i → later (g i) j = later (g i) n ∧ Q b s'.toCore := fun i h1 h2 => by
    have hrun := hsame (g i) fun k hk => hg0 i k (by omega)
    obtain ⟨a, s₁, h3, h4, h5⟩ := hn (s.withFaults (g i)) rfl fun k hk => hg0 i k (by omega)
    rw [hrun] at h3
    cases h3
    exact ⟨h4, h5⟩
  obtain rfl : j = n := by
    rcases Nat.lt_trichotomy j n with hlt | rfl | hlt
    · have h1 := congrFun (hjn n (by omega) (Nat.le_refl n)).1 0
      simp [later, g, hlt] at h1
    · rfl
    · have h1 := congrFun (hjn j (Nat.le_refl j) (by omega)).1 0
      simp [later, g, hlt] at h1
  exact ⟨hok, hj, (hjn j (Nat.le_refl j) (Nat.le_refl j)).2⟩

/-! ## Marks -/

/-- From `c` to `c'` the root directory is marked dirty if `root` holds, and the FAT if `fat` does; marks stay. -/
structure Marks (c c' : Core) (root fat : Prop) : Prop where
  root : c'.rootDirty = true ↔ c.rootDirty = true ∨ root
  fat : c'.fatDirty = true ↔ c.fatDirty = true ∨ fat

section

variable {c c' c₁ : Core} {r r' t t' : Prop} {fuel d q k : Nat} {n : ShortName} {P : Set Nat}

theorem Marks.trans (h : Marks c c₁ r t) (h' : Marks c₁ c' r' t') : Marks c c' (r ∨ r') (t ∨ t') :=
  ⟨by rw [h'.root, h.root, or_assoc], by rw [h'.fat, h.fat, or_assoc]⟩

theorem Marks.congr (h : Marks c c' r t) (hr : r ↔ r') (ht : t ↔ t') : Marks c c' r' t' :=
  ⟨by rw [h.root, hr], by rw [h.fat, ht]⟩

theorem Marks.refl (c : Core) : Marks c c False False := ⟨(or_iff_left id).symm, (or_iff_left id).symm⟩

theorem marks_setFat (c : Core) (k v : Nat) : Marks c (c.setFat k v) False True :=
  ⟨(or_iff_left id).symm, iff_of_true rfl (.inr trivial)⟩

theorem marks_putPart (c : Core) (k : Nat) (b : Buf) (m : Nat) : Marks c (c.putPart k b m) False False :=
  ⟨(or_iff_left id).symm, (or_iff_left id).symm⟩

theorem marks_alloc (c : Core) (k : Nat) : Marks c (c.alloc k) False True :=
  ⟨(or_iff_left id).symm, iff_of_true rfl (.inr trivial)⟩

theorem marks_grow (c : Core) (prev k : Nat) : Marks c (c.grow prev k) False True := by
  refine ⟨?_, iff_of_true rfl (.inr trivial)⟩
  unfold Core.grow Core.link
  split
  · exact (or_iff_left id).symm
  · exact (or_iff_left id).symm

theorem marks_freeAll : ∀ (l : List Nat) (c : Core), Marks c (c.freeAll l) False (l ≠ [])
  | [], c => (Marks.refl c).congr .rfl (iff_of_false id (not_not.2 rfl))
  | k :: l, c => by
    rw [freeAll_cons]
    exact ((marks_setFat c k clusterFree).trans (marks_freeAll l _)).congr (or_self_iff ..)
      (iff_of_true (.inl trivial) (List.cons_ne_nil k l))

/-! ## Storing an entry -/

/-- The calls that store a slot: the root table is cached, a cluster is read and written back. -/
def slotCalls (d : Nat) : Nat := if d = 0 then 0 else 2

theorem spends_writeEntry (hm : c.fs.Accepted) {p : Loc} (hp : c.IsSlot p) (e : RawDirEntry) :
    Spends (writeEntry p e) c (slotCalls p.1) fun r c' => r = .ok ∧ Marks c c' (p.1 = 0) False := by
  unfold slotCalls
  rcases hp with ⟨h0, hi⟩ | ⟨h2, hlt, hi⟩
  · rw [if_pos h0]
    refine .of_runs (fun f _ => runs_writeEntry_root h0 hi e f) ⟨rfl, ?_⟩
    unfold Core.putEntry
    rw [if_pos h0]
    exact ⟨iff_of_true rfl (.inr h0), (or_iff_left id).symm⟩
  · rw [if_neg (by omega)]
    have h0 : p.1 ≠ 0 := by omega
    have hrun : ∀ f, (∀ k < 2, f k = none) →
        Runs (writeEntry p e) c f .ok (c.putEntryPart p e c.fs.sectorsPerCluster) (later f 2) := by
      intro f hf
      have hrun := runs_writeEntry_sub hm h2 hi e (hf 0 (by decide))
      rw [hf 1 (by decide)] at hrun
      exact hrun
    exact .of_runs hrun ⟨rfl, (marks_putPart ..).congr (iff_of_false id h0) .rfl⟩

/-- An entry for `n` takes a new cluster for the directory. -/
def Volume.Grows (V : Volume) (d : Nat) (n : ShortName) : Prop := V.find d n = none ∧ V.freeSlot d = none

instance (V : Volume) (d : Nat) (n : ShortName) : Decidable (V.Grows d n) := inferInstanceAs (Decidable (_ ∧ _))

/-- The calls of `fat12_write_directory_entry`: the search for the name, where it is not found the search for a
free slot, where there is none a new cluster, and the slot. -/
def Core.entryCalls (c : Core) (d : Nat) (n : ShortName) : Nat :=
  c.lookupReads d n +
    ((if c.volume.find d n = none then c.freeReads d + if c.volume.freeSlot d = none then 1 else 0 else 0) +
      slotCalls d)

/-- A slot of a directory is in the root table if the directory is the root. -/
theorem slotCalls_loc (h : c.volume.WF P) (hd : c.volume.IsDir d q) {p : Loc} (hp : p ∈ c.volume.locs d) :
    p.1 = 0 ↔ d = 0 := by
  rcases h.loc_owner hd hp with ⟨h0, h1, -⟩ | ⟨h0, -, h1, -⟩
  · exact iff_of_true h1 h0
  · have := h1.1
    exact iff_of_false (by omega) h0

/-- A search in a full subdirectory takes a cluster and links it. -/
theorem spends_findFreeEntry_full {l : List Nat} {x z : Nat} (hm : c.fs.Accepted) (hf : 4096 ≤ fuel) (h0 : d ≠ 0)
    (hc : c.volume.Chain d (l ++ [x])) (hs : c.volume.freeSlot d = none) (hz : firstFree c = some z) :
    Spends (findFreeEntry fuel d) c (c.freeReads d + 1) fun r c' => r = .ok (z, 0) ∧ c' = c.grow x z := by
  have hzr := (mem_freeClusters.1 (firstFree_some hz)).1
  have hx := (hc.range x (by simp)).1
  unfold findFreeEntry
  apply Spends.core
  rw [if_neg h0]
  refine .looks (looks_freeLoop_full hm hf h0 hc hs) (.allocate (n := 0) hm hz ?_)
  rw [if_neg (by have := hzr.1; omega)]
  have hlink : ∀ f, Runs (linkCluster x z) (c.alloc z) f () (c.grow x z) f := fun f => by
    unfold linkCluster Core.grow Core.link
    rw [if_pos (by omega), if_pos hx]
    exact Yields.bind (runs_setFatEntry _ _ _ f) (runs_setFatEntry _ _ _ f)
  exact .step hlink (.pure ⟨rfl, rfl⟩)

theorem spends_writeDirectoryEntry (hm : c.fs.Accepted) (h : c.volume.WF P) (hf : 4096 ≤ fuel)
    (hd : c.volume.IsDir d q) (n : ShortName) (e : RawDirEntry)
    (hroom : c.volume.Grows d n → d ≠ 0 ∧ c.volume.freeClusters ≠ ∅) :
    Spends (writeDirectoryEntry fuel d n e) c (c.entryCalls d n) fun r c' => r = .ok ∧
      Marks c c' (d = 0) (c.volume.Grows d n) := by
  have hwalk := h.walkable ⟨q, hd⟩
  have hfind := looks_findEntry hm hf hwalk n
  have hstore : ∀ {p : Loc}, p ∈ c.volume.locs d → ¬ c.volume.Grows d n →
      Spends (writeEntry p e) c (slotCalls d) fun r c' =>
      r = .ok ∧ Marks c c' (d = 0) (c.volume.Grows d n) := fun {p} hp hg => by
    have hiff := slotCalls_loc h hd hp
    have hw := spends_writeEntry hm (isSlot_of_mem h hd hp) e
    rw [show slotCalls p.1 = slotCalls d from if_congr hiff rfl rfl] at hw
    exact hw.post fun r c' hr => ⟨hr.1, hr.2.congr hiff (iff_of_false id hg).symm.symm⟩
  unfold writeDirectoryEntry Core.entryCalls
  refine .looks hfind ?_
  cases hp : c.volume.lookup d n with
  | some p =>
    -- the name is there: its slot is written over
    have hfs : c.volume.find d n ≠ none := by rw [Volume.find_eq, hp]; exact Option.some_ne_none _
    rw [if_neg hfs, Nat.zero_add]
    exact hstore (Volume.lookup_some hp).1 fun hg => hfs hg.1
  | none =>
    have hfn := find_none_iff.2 hp
    rw [if_pos hfn]
    cases hs : c.volume.freeSlot d with
    | some p =>
      rw [if_neg (Option.some_ne_none _), Nat.add_zero]
      refine .looks (looks_findFree_some hm hf hwalk hs) (hstore (Volume.freeSlot_some hs).1 fun hg => ?_)
      rw [hg.2] at hs
      cases hs
    | none =>
      -- the directory is full, and takes a cluster
      have hg : c.volume.Grows d n := ⟨hfn, hs⟩
      obtain ⟨h0, hfree⟩ := hroom hg
      rw [if_pos rfl]
      have hc := (h.dir_chain hd h0).1
      obtain ⟨l, x, hlx⟩ : ∃ l x, c.volume.chain d = l ++ [x] := ⟨_, _, (List.dropLast_append_getLast hc.ne).symm⟩
      rw [hlx] at hc
      obtain ⟨z, hz⟩ := exists_firstFree (Finset.card_pos.2 (Finset.nonempty_iff_ne_empty.2 hfree))
      have hzr := (mem_freeClusters.1 (firstFree_some hz)).1
      refine (spends_findFreeEntry_full hm hf h0 hc hs hz).bind fun r c' hr => ?_
      obtain ⟨rfl, rfl⟩ := hr
      -- the entry goes to the first slot of the new cluster
      have henv := env_grow c x z
      have hslot : (c.grow x z).IsSlot (z, 0) := by
        have := hm.entriesPerCluster
        have := hm.spc_ne
        refine .inr ⟨hzr.1, ?_, ?_⟩
        · rw [henv.fs]
          exact hzr.2.1
        · rw [henv.fs]
          show 0 < c.fs.entriesPerCluster
          omega
      have hw := spends_writeEntry (henv.accepted hm) hslot e
      have hz0 : z ≠ 0 := by have := hzr.1; omega
      rw [show slotCalls z = slotCalls d from (if_neg hz0).trans (if_neg h0).symm] at hw
      refine hw.post fun r c' hr => ⟨hr.1, ((marks_grow c x z).trans hr.2).congr ?_ (iff_of_true (.inl trivial) hg)⟩
      exact ⟨fun hor => absurd (hor.resolve_left id) hz0, fun hd0 => absurd hd0 h0⟩

/-- Taking free clusters changes none of what an entry costs. -/
theorem Took.entryCalls {l : List Nat} (t : Took c c' l) (hm : c.fs.Accepted) (h : c.volume.WF P)
    (hd : c.volume.IsDir d q) (n : ShortName) :
    c'.entryCalls d n = c.entryCalls d n ∧ (c'.volume.Grows d n ↔ c.volume.Grows d n) := by
  have a := t.agree h
  have hwalk' := (t.wf h).walkable ⟨q, (a.isDir h).2 hd⟩
  have hreads :=
    dirReads_congr hm (t.env.accepted hm) t.env.sizes (h.walkable ⟨q, hd⟩) hwalk' (a.chain h hd) (a.locs h hd)
    fun p hp => a.slot h hd hp
  have hlookup : c'.lookupReads d n = c.lookupReads d n := hreads (findVerdict n)
  have hfree : c'.freeReads d = c.freeReads d := hreads freeVerdict
  constructor
  · unfold Core.entryCalls
    rw [hlookup, hfree, a.find h hd, a.freeSlot h hd]
  · unfold Volume.Grows
    rw [a.find h hd, a.freeSlot h hd]

/-- A chain given back, whatever the FAT holds. -/
theorem Spends.freeChain {β : Type} {Q : β → Core → Prop} {f : Unit → M β} {m : Nat} (hf : 4096 ≤ fuel)
    (hk : ∀ c', Marks c c' False (inChain k = true) → Spends (f ()) c' m Q) :
    Spends (Fat12.freeChain fuel k >>= f) c m Q := by
  intro s hc hs
  have := card_busy_le c
  have hfuel : (busy c).card + 2 ≤ fuel := by omega
  obtain ⟨fat, dirty, h1, hd, hfreed⟩ := freeChain_freed (k := k) hfuel s hc
  subst hc
  have hmarks : Marks s.toCore { s.toCore with fatPrimary := fat, fatDirty := dirty } False (inChain k = true) :=
    ⟨(or_iff_left id).symm, by rw [hd, Bool.or_eq_true]⟩
  obtain ⟨b, s₂, h2, h3⟩ := hk _ hmarks { s with fatPrimary := fat, fatDirty := dirty } rfl hs
  exact ⟨b, s₂, by rw [bind_ok h1, h2], h3⟩

/-! ## Writing a file -/

variable {data : Buf} {size first prev written : Nat} {l : List Nat}

/-- A round of the loop takes a cluster and fills it. -/
theorem spends_writeRound (hm : c.fs.Accepted) (w : Writing data size c c' l first prev written) (fuel : Nat)
    (hlt : written < size) (hk : firstFree c' = some k) :
    Spends (writeRound fuel data size (first, prev, written)) c' 2 fun r c'' =>
      r = .inl (if first = 0 then k else first, k, written + min c.fs.clusterSizeBytes (size - written)) ∧
      c'' = c'.extend prev k fun x => if x < min c.fs.clusterSizeBytes (size - written) then data (written + x)
      else 0 := by
  have hm' := w.took.env.accepted hm
  have hkr : c'.volume.InRange k := (mem_freeClusters.1 (firstFree_some hk)).1
  have henv : SameEnv c (((c'.alloc k).link prev k).setFat k clusterEoc) := w.took.env.trans (env_grow c' prev k)
  rw [writeRound, if_pos hlt]
  refine .allocate (n := 1) hm' hk ?_
  rw [if_neg (by have := hkr.1; omega)]
  have hlink : ∀ f, Runs (linkPrevious prev k) (c'.alloc k) f () ((c'.alloc k).link prev k) f := fun f => by
    unfold linkPrevious Core.link
    split
    · exact runs_setFatEntry prev k _ f
    · exact Yields.pure ()
  refine .step hlink
    (.step (runs_setFatEntry k clusterEoc _) (.core (.clusterBuffer fun b => .step (runs_setClusterBuffer _ _) ?_)))
  refine .write (n := 0) (b := fun x => if x < min c.fs.clusterSizeBytes (size - written)
    then data (written + x) else 0) (henv.accepted hm).spc_ne (fun x hx => ?_) ?_
  · have hx : x < c.fs.clusterSizeBytes := by
      rw [henv.fs, ← hm.clusterSize_eq] at hx
      exact hx
    rw [henv.fs]
    exact filled_at b data hx
  · rw [henv.fs]
    exact .pure ⟨rfl, rfl⟩

/-- With clusters enough the loop takes two calls for each. -/
theorem spends_writeLoop (hm : c.fs.Accepted) (hroom : c.volume.clustersFor size ≤ c.volume.freeClusters.card)
    {F : Nat} :
    ∀ (fuel : Nat) {c' : Core} {l : List Nat} {first prev written : Nat},
      Writing data size c c' l first prev written → 4087 ≤ fuel + l.length →
      Spends (loop (writeRound F data size) fuel (first, prev, written)) c'
        (2 * (c.volume.clustersFor size - l.length)) fun r c'' => ∃ l' first' prev' written', r = .ok first' ∧
          Writing data size c c'' l' first' prev' written' ∧ ¬ written' < size ∧ Marks c' c'' False (written < size)
  | 0, c', l, first, prev, written, w, hfuel => by
    have := w.took.length_le hm
    omega
  | fuel + 1, c', l, first, prev, written, w, hfuel => by
    rw [loop]
    by_cases hlt : written < size
    · have hlen := w.length_lt hm hlt
      -- not all clusters are taken yet, so one is free
      obtain ⟨k, hk⟩ := exists_firstFree (c := c') (by have := w.took.card; omega)
      have hkf := firstFree_some hk
      rw [show 2 * (c.volume.clustersFor size - l.length) =
          2 + 2 * (c.volume.clustersFor size - (l ++ [k]).length) by
        rw [List.length_append, List.length_singleton]
        omega]
      refine (spends_writeRound hm w F hlt hk).bind fun r c'' hr => ?_
      obtain ⟨rfl, rfl⟩ := hr
      have hrest := spends_writeLoop hm hroom (F := F) fuel (w.step hm hlt hkf) (by
        rw [List.length_append, List.length_singleton]
        omega)
      refine hrest.post fun r c'' hr => ?_
      obtain ⟨l', first', prev', written', h1, h2, h3, h4⟩ := hr
      have hmarks : Marks c' (c'.extend prev k fun x => if x < min c.fs.clusterSizeBytes (size - written)
          then data (written + x) else 0) False True := ⟨(marks_grow c' prev k).root, (marks_grow c' prev k).fat⟩
      exact ⟨l', first', prev', written', h1, h2, h3,
        (hmarks.trans h4).congr (or_self_iff ..) (iff_of_true (.inl trivial) hlt)⟩
    · have hlen := w.length_eq hm hlt
      rw [hlen, Nat.sub_self, Nat.mul_zero, writeRound, if_neg hlt]
      exact .pure ⟨l, first, prev, written, rfl, w, hlt, (Marks.refl c').congr .rfl (iff_of_false id hlt)⟩

theorem Volume.Chain.inChain_start (h : c.volume.Chain k l) (hm : c.fs.Accepted) : inChain k = true := by
  have hr := h.range k h.head_mem
  have := InRange.lt_4086 hm hr
  have := hr.1
  unfold inChain clusterEoc
  simp only [Bool.and_eq_true, decide_eq_true_eq]
  omega

/-- Behind the loop the entry is stored, and the old chain given back. -/
theorem spends_commitFile (hm : c.fs.Accepted) (h : c.volume.WF P) (hf : 4096 ≤ fuel) (hd : c.volume.IsDir d q)
    (n : ShortName) {old : Option Nat} (hroom : c.volume.Grows d n → d ≠ 0 ∧ c.volume.freeClusters ≠ ∅)
    (hold : ∀ o, old = some o → 2 ≤ o → inChain o = true ∧ o ≠ first) :
    Spends (commitFile fuel d n old first size) c (c.entryCalls d n) fun r c' =>
      r = .ok ∧ Marks c c' (d = 0) (c.volume.Grows d n ∨ ∃ o, old = some o ∧ 2 ≤ o) := by
  unfold commitFile
  refine (spends_writeDirectoryEntry hm h hf hd n _ hroom).bind (m := 0) fun r c' hr => ?_
  obtain ⟨rfl, hmarks⟩ := hr
  cases old with
  | none => exact .pure ⟨rfl, hmarks.congr .rfl (by simp)⟩
  | some o =>
    dsimp only
    split
    · rename_i h2
      refine .freeChain hf fun c'' hfreed => .pure ⟨rfl, (hmarks.trans hfreed).congr (or_iff_left id) ?_⟩
      exact or_congr .rfl (iff_of_true (hold o rfl h2.1).1 ⟨o, rfl, h2.1⟩)
    · rename_i h2
      have h2 : ¬ 2 ≤ o := fun hle => h2 ⟨hle, (hold o rfl hle).2⟩
      exact .pure ⟨rfl, hmarks.congr .rfl (by simp [h2])⟩

/-- An entry takes a cluster only where one is left, and not in the root directory. -/
theorem Volume.room_of_writeCode {V : Volume} (hcode : V.writeCode d n size = .ok) :
    V.clustersFor size ≤ V.freeClusters.card ∧
      (V.Grows d n → d ≠ 0 ∧ V.clustersFor size < V.freeClusters.card) := by
  unfold writeCode at hcode
  split at hcode
  · cases hcode
  · rename_i hroom
    refine ⟨by omega, fun hg => ?_⟩
    rw [if_pos (by exact hg)] at hcode
    split at hcode
    · cases hcode
    · rename_i h0
      split at hcode
      · cases hcode
      · exact ⟨h0, by omega⟩

/-- The first cluster of the entry `n` in `d`, 0 where there is none. -/
def Volume.oldCluster (V : Volume) (d : Nat) (n : ShortName) : Nat := ((V.find d n).map RawDirEntry.cluster).getD 0

/-- The loop and the entry, with the old cluster as the first search found it. -/
theorem spends_storeFile (hm : c.fs.Accepted) (h : c.volume.WF ∅) (hf : 4096 ≤ fuel) (data : Buf)
    (hd : c.volume.IsDir d q) (hn : n.Proper) (hcode : c.volume.writeCode d n size = .ok) :
    Spends (do
      match ← writeLoop fuel data size with
      | .error e => Pure.pure e
      | .ok firstCluster => commitFile fuel d n ((c.volume.find d n).map RawDirEntry.cluster) firstCluster size) c
      (2 * c.volume.clustersFor size + c.entryCalls d n) fun r c' =>
        r = .ok ∧ Marks c c' (d = 0) (0 < size ∨ c.volume.Grows d n ∨ 2 ≤ c.volume.oldCluster d n) := by
  obtain ⟨hroom, hgrow⟩ := Volume.room_of_writeCode hcode
  have hloop := spends_writeLoop hm hroom (F := fuel) fuel (Writing.start hm data size) (by simp; omega)
  rw [List.length_nil, Nat.sub_zero] at hloop
  refine hloop.bind fun r c' hr => ?_
  obtain ⟨l, first, prev, written, rfl, w, hdone, hmarks⟩ := hr
  obtain ⟨hcalls, hgrows⟩ := w.took.entryCalls hm h hd n
  have hd' := ((w.took.agree h).isDir h).2 hd
  have hcard := w.took.card
  rw [w.length_eq hm hdone] at hcard
  -- the loop has left a cluster for the entry, should it need one
  have hroom' : c'.volume.Grows d n → d ≠ 0 ∧ c'.volume.freeClusters ≠ ∅ := fun hg => by
    obtain ⟨h0, hlt⟩ := hgrow (hgrows.1 hg)
    refine ⟨h0, fun he => ?_⟩
    rw [he, Finset.card_empty] at hcard
    omega
  -- the chain given back is the old one, not the new
  have hold : ∀ o, (c.volume.find d n).map RawDirEntry.cluster = some o → 2 ≤ o → inChain o = true ∧
      o ≠ first := by
    intro k hk hle
    obtain ⟨o, ho, rfl⟩ := Option.map_eq_some_iff.1 hk
    obtain ⟨p, -, hep, hpo⟩ := h.entry_of_find hd hn ho
    rw [← hpo] at hle ⊢
    rcases h.owned_cases (hep.entry hd) with ⟨-, -, -, h0⟩ | hc
    · omega
    · exact ⟨hc.inChain_start hm, w.first_ne h hle ⟨p, hep.entry hd, hc.head_mem⟩⟩
  rw [← hcalls]
  refine (spends_commitFile (w.took.env.accepted hm) (w.took.wf h) hf hd' n hroom' hold).post
    fun r c'' hr => ⟨hr.1, ?_⟩
  refine (hmarks.trans hr.2).congr (or_iff_right id) (or_congr .rfl (or_congr hgrows ?_))
  unfold Volume.oldCluster
  cases c.volume.find d n with
  | none => exact iff_of_false (by simp) (by decide)
  | some o => simp

/-- `fat12_write_file` up to its flush, where nothing stands in its way. -/
theorem spends_writeFileBody (hm : Mounted c) (h : c.volume.WF ∅) (hs : c.Settled) (hf : 4096 ≤ fuel)
    {path : List UInt8} {data : Option Buf}
    (hr : c.volume.resolve (c.start path).1 (c.start path).2 (components path) = .ok (d, n))
    (hdata : data = none → size = 0) (hcode : c.volume.storeCode size d n = .ok) :
    Spends (writeFileBody fuel path data size) c
      (c.resolveReads path + (c.lookupReads d n + (2 * c.volume.clustersFor size + c.entryCalls d n))) fun r c' =>
        r = .ok ∧ Marks c c' (d = 0) (0 < size ∨ c.volume.Grows d n ∨ 2 ≤ c.volume.oldCluster d n) := by
  obtain ⟨⟨q, hd⟩, hn⟩ := resolve_dir h hs hr
  have hres := looks_resolve hm h hf hs path
  rw [hr] at hres
  have hfind := looks_findEntry hm.accepted hf (h.walkable ⟨q, hd⟩) n
  obtain ⟨hfile, hcode⟩ := Volume.storeCode_ok.1 hcode
  have hstore := spends_storeFile hm.accepted h hf (data.getD fun _ => 0) hd hn hcode
  unfold writeFileBody
  apply Spends.core
  rw [hm.ready, if_neg (by decide), if_neg (by
    rintro ⟨hnone, hpos⟩
    have := hdata (Option.isNone_iff_eq_none.1 hnone)
    omega)]
  refine .looks hres (.looks hfind ?_)
  rw [Volume.find_eq] at hstore hfile
  cases hp : c.volume.lookup d n with
  | none =>
    rw [hp] at hstore
    exact hstore
  | some p =>
    rw [hp] at hstore hfile
    dsimp only [Option.map] at hstore ⊢
    rw [hfile _ rfl, if_neg (by decide)]
    exact hstore

/-! ## Making a directory, and deleting a file -/

/-- There is a cluster, and a slot for the entry or one cluster more to make it. -/
structure Volume.Room (V : Volume) (d : Nat) (n : ShortName) : Prop where
  cluster : 1 ≤ V.freeClusters.card
  slot : V.Grows d n → d ≠ 0 ∧ 2 ≤ V.freeClusters.card

/-- `fat12_create_directory` behind its first search, whatever that said. -/
theorem spends_createBehind (hm : Mounted c) (h : c.volume.WF ∅) (hf : 4096 ≤ fuel) (hd : c.volume.IsDir d q)
    (n : ShortName) (hroom : c.volume.Room d n) :
    Spends (createBehind fuel c.fs d n) c (2 + c.entryCalls d n) fun r c' =>
      r = .ok ∧ Marks c c' (d = 0) True := by
  obtain ⟨k, hk⟩ := exists_firstFree (c := c) hroom.cluster
  have hkf := firstFree_some hk
  have hkr := (mem_freeClusters.1 hkf).1
  have henv := env_alloc c k
  have t := took_dots hm hkf d
  obtain ⟨hcalls, hgrows⟩ := t.entryCalls hm.accepted h hd n
  have hcard := t.card
  rw [List.length_singleton] at hcard
  have hroom' : (c.dots k d).volume.Grows d n → d ≠ 0 ∧ (c.dots k d).volume.freeClusters ≠ ∅ := fun hg => by
    obtain ⟨h0, hle⟩ := hroom.slot (hgrows.1 hg)
    refine ⟨h0, fun he => ?_⟩
    rw [he, Finset.card_empty] at hcard
    omega
  have hdots : Marks c (c.dots k d) False True := ⟨(marks_alloc c k).root, (marks_alloc c k).fat⟩
  unfold createBehind
  rw [show 2 + c.entryCalls d n = 1 + (1 + (c.dots k d).entryCalls d n) by rw [hcalls]; omega]
  refine .allocate hm.accepted hk ?_
  rw [if_neg (by have := hkr.1; omega)]
  refine .clusterBuffer fun b => .step (runs_setClusterBuffer _ _) ?_
  refine .write (b := dotBuffer (fun _ => 0) c.fs.clusterSizeBytes k d) (henv.accepted hm.accepted).spc_ne
    (fun i hi => ?_) ?_
  · refine dotBuffer_congr b _ k d i ?_
    rw [henv.fs, ← hm.accepted.clusterSize_eq] at hi
    exact hi
  · rw [if_pos rfl]
    refine (spends_writeDirectoryEntry (t.env.accepted hm.accepted) (t.wf h) hf (((t.agree h).isDir h).2 hd) n _
      hroom').bind (m := 0) fun r c' hr => ?_
    obtain ⟨rfl, hmarks⟩ := hr
    exact .pure ⟨rfl, (hdots.trans hmarks).congr (or_iff_right id) (iff_of_true (.inl trivial) trivial)⟩

/-- `fat12_delete_file` up to its flush, where there is such a file. -/
theorem spends_deleteFileBody (hm : Mounted c) (h : c.volume.WF ∅) (hs : c.Settled) (hf : 4096 ≤ fuel)
    {path : List UInt8} {p : Loc} (x : c.Denotes path d n p) (hfile : (c.volume.slot p).isDirectory = false) :
    Spends (deleteFileBody fuel path) c
      (c.resolveReads path + (c.lookupReads d n + (c.lookupReads d n + slotCalls d))) fun r c' =>
      r = .ok ∧ Marks c c' (d = 0) (2 ≤ (c.volume.slot p).cluster) := by
  obtain ⟨q, hd, -, hp⟩ := x.entryAt h hs
  have hlook := looks_findFreed hm h hf hd hp hfile x.lookup
  have henv := env_freeAll c (c.volume.owned p)
  have hslot : (c.freeAll (c.volume.owned p)).IsSlot p := by
    unfold Core.IsSlot
    rw [henv.fs]
    exact isSlot_of_mem h hd hp.mem
  have hmarks : Marks c (c.freeAll (c.volume.owned p)) False (2 ≤ (c.volume.slot p).cluster) := by
    rcases h.owned_cases (hp.entry hd) with ⟨h1, -, -, h0⟩ | hc
    · rw [h1]
      exact (Marks.refl c).congr .rfl (iff_of_false id (by omega))
    · exact (marks_freeAll _ c).congr .rfl (iff_of_true hc.ne hc.start.1)
  unfold deleteFileBody
  apply Spends.core
  rw [hm.ready, if_neg (by decide)]
  refine .looks (x.looks_resolve hm h hs hf) (.looks (x.looks_find hm h hs hf) ?_)
  dsimp only
  rw [hfile, if_neg (by decide)]
  refine .step (fun f => runs_freeFile hm h hf (hp.entry hd) f) (.looks hlook ?_)
  have hiff := slotCalls_loc h hd hp.mem
  have hw := spends_writeEntry (henv.accepted hm.accepted) hslot (deletedEntry (c.volume.slot p))
  rw [show slotCalls p.1 = slotCalls d from if_congr hiff rfl rfl] at hw
  exact hw.post fun r c' hr => ⟨hr.1, (hmarks.trans hr.2).congr ((or_iff_right id).trans hiff) (or_iff_left id)⟩

end

end AltoniumOS.Fat12

/-
Writing a file on a disk that fails now and then. Wherever a call fails, the clusters taken so far are given
back; all that may stay behind is a blank cluster, linked to the end of the directory.
-/
import AltoniumOS.Refine.Chains
import AltoniumOS.Refine.Operations

namespace AltoniumOS.Fat12

open AltoniumOS.Lib

/-- `c` after a cluster was taken and given back at once: the FAT counts as dirty. -/
def Core.touched (c : Core) : Core := { c with fatDirty := true }

section

variable {c c' c₁ : Core} {k : Nat}

theorem alloc_undone (hm : c.fs.Accepted) (hk : k ∈ c.volume.freeClusters) :
    (c.setFat k clusterEoc).setFat k clusterFree = c.touched := by
  have hfat : setFatBytes (setFatBytes c.fatPrimary k clusterEoc) k clusterFree = c.fatPrimary :=
    ((Took.refl c).alloc hm hk).freeAll.fat
  show { c with
    fatPrimary := setFatBytes (setFatBytes c.fatPrimary k clusterEoc) k clusterFree
    fatDirty := true } = c.touched
  rw [hfat]
  rfl

theorem Took.touched {l : List Nat} (t : Took c c' l) : Took c c'.touched l :=
  ⟨t.env.trans ⟨rfl, rfl, rfl, rfl, rfl⟩, t.root, t.nodup, t.free, t.taken, t.nibs, t.data⟩

theorem Writing.touched {data : Buf} {size first prev written : Nat} {l : List Nat}
    (w : Writing data size c c' l first prev written) : Writing data size c c'.touched l first prev written :=
  ⟨w.took.touched, w.written_eq, w.tight, w.links, w.bytes⟩

/-- `fat12_allocate_cluster`: a cluster, or 0 and nothing taken. -/
theorem Ends.allocate {β : Type} {Q : β → Core → Prop} {f : Nat → M β} (hm : c.fs.Accepted)
    (hfail : ∀ c', c' = c ∨ c' = c.touched → Ends (f 0) c' Q)
    (hok : ∀ x, firstFree c = some x → Ends (f x) (c.alloc x) Q) : Ends (allocateCluster >>= f) c Q := by
  intro s hc hf
  cases hk : firstFree c with
  | none =>
    obtain ⟨s₁, h1, h2, h3⟩ := (runs_allocateCluster_none hk s.faults).run hc rfl
    obtain ⟨b, s₂, h4, h5⟩ := hfail c (.inl rfl) s₁ h2 (by rw [h3]; exact hf)
    exact ⟨b, s₂, by rw [bind_ok h1, h4], h5⟩
  | some x =>
    obtain ⟨s₁, h1, h2, h3⟩ := (runs_allocateCluster_some hm hk s.faults).run hc rfl
    have hf₁ : Clean s₁.faults := by
      rw [h3]
      exact hf.later 1
    rcases hf 0 with h0 | h0
    · rw [h0] at h1 h2
      obtain ⟨b, s₂, h4, h5⟩ := hok x hk s₁ h2 hf₁
      exact ⟨b, s₂, by rw [bind_ok h1]; exact h4, h5⟩
    · rw [h0] at h1 h2
      have htouched : s₁.toCore = c.touched := by
        rw [h2, transferred, Nat.zero_min, putPart_zero]
        exact alloc_undone hm (firstFree_some hk)
      obtain ⟨b, s₂, h4, h5⟩ := hfail _ (.inr rfl) s₁ htouched hf₁
      exact ⟨b, s₂, by rw [bind_ok h1]; exact h4, h5⟩

/-- Whatever the FAT holds, `fat12_free_chain` returns. -/
theorem Ends.freeChain {β : Type} {Q : β → Core → Prop} {f : Unit → M β} {fuel : Nat} (hf : 4096 ≤ fuel) (k : Nat)
    (h : ∀ c', Ends (f ()) c' Q) : Ends (Fat12.freeChain fuel k >>= f) c Q := by
  intro s hc hs
  have := card_busy_le c
  have hfuel : (busy c).card + 2 ≤ fuel := by omega
  obtain ⟨fat, dirty, h1, -, -⟩ := freeChain_freed hfuel s hc
  obtain ⟨b, s₂, h2, h3⟩ := h _ { s with fatPrimary := fat, fatDirty := dirty } rfl hs
  exact ⟨b, s₂, by rw [bind_ok h1, h2], h3⟩

/-! ## The loop -/

variable {data : Buf} {size first prev written : Nat} {l : List Nat}

/-- How the loop of `fat12_write_file` ends: with the data in a new chain, or with nothing taken. -/
def Stored (data : Buf) (size : Nat) (c : Core) : Except Code Nat → Core → Prop
  | .ok first, c' => ∃ l prev written, Writing data size c c' l first prev written ∧ ¬ written < size
  | .error e, c' => e ≠ .ok ∧ Unchanged c c'

theorem ends_writeRound (hm : c.fs.Accepted) {F : Nat} (hF : 4096 ≤ F)
    (w : Writing data size c c' l first prev written) :
    Ends (writeRound F data size (first, prev, written)) c' fun r c'' => match r with
      | .inl (first', prev', written') => ∃ k, Writing data size c c'' (l ++ [k]) first' prev' written'
      | .inr r => Stored data size c r c'' := by
  have hm' := w.took.env.accepted hm
  rw [writeRound]
  split
  · rename_i hlt
    refine .allocate hm' (fun c'' hc => ?_) fun k hk => ?_
    · -- no cluster: what is taken is given back
      have w' : Writing data size c c'' l first prev written := by
        rcases hc with rfl | rfl
        · exact w
        · exact w.touched
      rw [if_pos rfl]
      exact .step (w'.runs_freeFrom hm hF) (.pure ⟨by decide, w'.took.freeAll⟩)
    · have hkf := firstFree_some hk
      have hkr := (mem_freeClusters.1 hkf).1
      have henv : SameEnv c (c'.grow prev k) := w.took.env.trans (env_grow c' prev k)
      have hmg := henv.accepted hm
      rw [if_neg (by have := hkr.1; omega)]
      have hlink : ∀ f, Runs (linkPrevious prev k) (c'.alloc k) f () ((c'.alloc k).link prev k) f := fun f => by
        unfold linkPrevious Core.link
        split
        · exact runs_setFatEntry prev k _ f
        · exact Yields.pure _
      refine .step hlink
        (.step (runs_setFatEntry k clusterEoc _)
          (.core (.clusterBuffer fun b => .step (runs_setClusterBuffer _ _) ?_)))
      refine Ends.write (b := fun x => if x < min c.fs.clusterSizeBytes (size - written)
        then data (written + x) else 0) hmg.spc_ne (fun x hx => ?_) (.pure ⟨k, ?_⟩) ?_
      · have hx : x < c.fs.clusterSizeBytes := by
          change x < sectorSize * (c'.grow prev k).fs.sectorsPerCluster at hx
          rw [henv.fs, ← hm.clusterSize_eq] at hx
          exact hx
        change Buf.blit (Buf.fill b 0 (c'.grow prev k).fs.clusterSizeBytes) 0 _
          (min (c'.grow prev k).fs.clusterSizeBytes _) x = _
        rw [henv.fs]
        exact filled_at b data hx
      · have := w.step hm hlt hkf
        change Writing data size c _ (l ++ [k]) _ k (written + min (c'.grow prev k).fs.clusterSizeBytes _)
        rw [henv.fs]
        exact this
      · -- the cluster was not written: it is given back with the others
        have ht := w.took_grow hm hkf
        have hc := w.chain_grow hm hkf
        exact .step (runs_freeChain hmg hc.tail hc.nodup (length_chain_lt hmg hF hc))
          (.pure ⟨by decide, ht.freeAll⟩)
  · rename_i hlt
    exact .pure ⟨l, prev, written, w, hlt⟩

theorem ends_writeLoop (hm : c.fs.Accepted) {F : Nat} (hF : 4096 ≤ F) : ∀ (fuel : Nat) {c' : Core} {l : List Nat}
    {first prev written : Nat}, Writing data size c c' l first prev written → 4087 ≤ fuel + l.length →
    Ends (loop (writeRound F data size) fuel (first, prev, written)) c' (Stored data size c)
  | 0, c', l, first, prev, written, w, hfuel => by
    have := w.took.length_le hm
    omega
  | fuel + 1, c', l, first, prev, written, w, hfuel => by
    rw [loop]
    refine (ends_writeRound hm hF w).bind fun r c'' hr => ?_
    rcases r with ⟨first', prev', written'⟩ | r
    · obtain ⟨k, w'⟩ := hr
      exact ends_writeLoop hm hF fuel w' (by rw [List.length_append, List.length_singleton]; omega)
    · exact .pure hr

/-! ## The entry -/

theorem ends_writeEntry (hm : c.fs.Accepted) {p : Loc} (hp : c.IsSlot p) (e : RawDirEntry) :
    Ends (writeEntry p e) c fun code c' => code ≠ .ok → c' = c := by
  intro s hc hs
  rcases hp with ⟨h0, hi⟩ | ⟨h2, -, hi⟩
  · obtain ⟨s', h1, -, h3⟩ := (runs_writeEntry_root h0 hi e s.faults).run hc rfl
    exact ⟨.ok, s', h1, by rw [h3]; exact hs, fun hne => absurd rfl hne⟩
  · by_cases h0 : s.faults 0 = none
    · obtain ⟨s', h1, h3, h4⟩ := (runs_writeEntry_sub hm h2 hi e h0).run hc rfl
      refine ⟨_, s', h1, by rw [h4]; exact hs.later 2, fun hne => ?_⟩
      rcases hs 1 with h5 | h5
      · rw [h5] at hne
        exact absurd rfl hne
      · rw [h3, h5]
        rfl
    · obtain ⟨s', h1, h3, h4⟩ := (runs_writeEntry_unread hm h2 e h0).run hc rfl
      exact ⟨.errIo, s', h1, by rw [h4]; exact hs.later 1, fun _ => h3⟩

/-- What is left behind when an entry could not be stored: nothing, or a blank cluster at the end of a full
subdirectory. -/
inductive Refused (c : Core) (d : Nat) : Core → Prop
  | same : Refused c d c
  | touched : Refused c d c.touched
  | grown {l : List Nat} {x z : Nat} : d ≠ 0 → c.volume.Chain d (l ++ [x]) → c.volume.freeSlot d = none →
      z ∈ c.volume.freeClusters → Refused c d (c.grow x z)

theorem Refused.env {d : Nat} (h : Refused c d c') : SameEnv c c' := by
  cases h with
  | same => exact .refl c
  | touched => exact ⟨rfl, rfl, rfl, rfl, rfl⟩
  | grown => exact env_grow ..

theorem ends_findFreeEntry (hm : c.fs.Accepted) {fuel d : Nat} (hf : 4096 ≤ fuel) (hd : c.volume.Walkable d) :
    Ends (findFreeEntry fuel d) c fun r c' => Refused c d c' ∧ ∀ p, r = .ok p → c'.IsSlot p := by
  cases hs : c.volume.freeSlot d with
  | some p =>
    have hp := (Volume.freeSlot_some hs).1
    exact .looks (looks_findFree_some hm hf hd hs) ⟨.same, fun p' he => by cases he; exact hd.isSlot hp⟩
      ⟨.same, fun _ he => nomatch he⟩
  | none =>
    by_cases h0 : d = 0
    · subst h0
      exact .looks (looks_findFree_root hm hs fuel) ⟨.same, fun _ he => nomatch he⟩ ⟨.same, fun _ he => nomatch he⟩
    · have hc := hd.resolve_left h0
      obtain ⟨l, x, hlx⟩ : ∃ l x, c.volume.chain d = l ++ [x] := ⟨_, _, (List.dropLast_append_getLast hc.ne).symm⟩
      rw [hlx] at hc
      have hx := (hc.range x (by simp)).1
      unfold findFreeEntry
      apply Ends.core
      rw [if_neg h0]
      have hloop : Ends (loop freeRound fuel (d, 0)) c fun r c' => c' = c ∧
          (r = .inr x ∨ r = .inl (.error .errIo)) :=
        .looks (looks_freeLoop_full hm hf h0 hc hs) ⟨rfl, .inl rfl⟩ ⟨rfl, .inr rfl⟩
      refine hloop.bind fun r c' hr => ?_
      obtain ⟨rfl, rfl | rfl⟩ := hr
      · -- the directory is full: it takes a cluster more
        refine .allocate hm (fun c'' hc'' => ?_) fun z hz => ?_
        · rw [if_pos rfl]
          refine .pure ⟨?_, fun _ he => nomatch he⟩
          rcases hc'' with rfl | rfl
          · exact .same
          · exact .touched
        · have hzf := firstFree_some hz
          have hzr := (mem_freeClusters.1 hzf).1
          have hpc := hm.geom.perCluster_ge
          have hlink : ∀ f, Runs (linkCluster x z) (c'.alloc z) f () (c'.grow x z) f := fun f => by
            unfold linkCluster Core.grow Core.link
            rw [if_pos (by omega), if_pos hx]
            exact Yields.bind (runs_setFatEntry x z _ f) (runs_setFatEntry z clusterEoc _ f)
          rw [if_neg (by have := hzr.1; omega)]
          refine .step hlink (.pure ⟨.grown h0 hc hs hzf, fun p he => ?_⟩)
          cases he
          right
          rw [(env_grow c' x z).fs]
          refine ⟨hzr.1, hzr.2.1, ?_⟩
          change 0 < c'.volume.perCluster
          omega
      · exact .pure ⟨.same, fun _ he => nomatch he⟩

theorem ends_writeDirectoryEntry (hm : c.fs.Accepted) {fuel d : Nat} (hf : 4096 ≤ fuel) (hd : c.volume.Walkable d)
    (n : ShortName) (e : RawDirEntry) :
    Ends (writeDirectoryEntry fuel d n e) c fun code c' => code ≠ .ok → Refused c d c' := by
  unfold writeDirectoryEntry
  have hfind : Ends (findEntry fuel d n) c fun r c' => c' = c ∧ ∀ o p, r = .ok (o, p) → c.IsSlot p := by
    refine .looks (looks_findEntry hm hf hd n) ⟨rfl, fun o p he => ?_⟩ ⟨rfl, fun _ _ he => nomatch he⟩
    cases hl : c.volume.lookup d n with
    | none => rw [hl] at he; cases he
    | some p' =>
      rw [hl] at he
      cases he
      exact hd.isSlot (Volume.lookup_some hl).1
  refine hfind.bind fun r c' ⟨hc, hr⟩ => ?_
  subst hc
  split
  · rename_i o p
    refine (ends_writeEntry hm (hr _ _ rfl) e).post fun code c'' hcode hne => ?_
    rw [hcode hne]
    exact .same
  · refine (ends_findFreeEntry hm hf hd).bind fun r c'' ⟨hc, hr⟩ => ?_
    split
    · rename_i p
      refine (ends_writeEntry (hc.env.accepted hm) (hr _ rfl) e).post fun code c₂ hcode hne => ?_
      rw [hcode hne]
      exact hc
    · exact .pure fun _ => hc
  · exact .pure fun _ => .same

/-! ## What a failed write leaves -/

/-- `c'` is `c` with the blank cluster `z` appended to the directory `d`, up to the contents of free
clusters. -/
structure Extended (c c' : Core) (d z : Nat) : Prop where
  env : SameEnv c c'
  wf : c'.volume.WF ∅
  shows : Volume.Shows c.volume c'.volume
  dirs : ∀ x p, c.volume.IsDir x p → c'.volume.IsDir x p
  ne : d ≠ 0
  fresh : z ∈ c.volume.freeClusters
  free : c'.volume.freeClusters = c.volume.freeClusters.erase z
  chain : c'.volume.chain d = c.volume.chain d ++ [z]
  blank : ∀ i, c'.volume.data z i = 0

/-- Giving back what was taken, after the directory was grown. -/
theorem extended_grow (hm : Mounted c) (h : c.volume.WF ∅) {d q : Nat} (hd : c.volume.IsDir d q) (t : Took c c₁ l)
    (h0 : d ≠ 0) {l' : List Nat} {x z : Nat} (hc : c₁.volume.Chain d (l' ++ [x]))
    (hfull : c₁.volume.freeSlot d = none) (hz : z ∈ c₁.volume.freeClusters) :
    Extended c ((c₁.grow x z).freeAll l) d z := by
  have hm₁ := t.env.mounted hm
  have a := t.agree h
  have h₁ := t.wf h
  have hd₁ := (a.isDir h).2 hd
  have hzl : z ∉ l := fun hzl => t.taken z hzl (mem_freeClusters.1 hz).2
  obtain ⟨t₂, g⟩ := grown_grow hm₁ h₁ hd₁ h0 hc hfull hz
  have a₂ := t₂.agree h₁
  have h₂ := t₂.wf h₁
  have hd₂ := (a₂.isDir h₁).2 hd₁
  have hg := g.wf h₂ hd₂
  have hdg := (g.isDir h₂ hd₂).2 hd₂
  have henv := t.env.trans (env_grow c₁ x z)
  have hrange : ∀ k ∈ l, (c₁.grow x z).volume.InRange k := fun k hk => henv.sizes.inRange.2 (t.range hk)
  have hset : ∀ k, k ∈ ((∅ ∪ {k | k ∈ l}) ∪ {k | k ∈ [z]}) \ {z} ↔ k ∈ l := fun k => by
    simp only [Set.empty_union, Set.mem_sdiff, Set.mem_union, Set.mem_ofPred_eq, List.mem_singleton,
      Set.mem_singleton_iff]
    exact ⟨fun hk => hk.1.resolve_right hk.2, fun hk => ⟨.inl hk, fun hkz => hzl (hkz ▸ hk)⟩⟩
  obtain ⟨a₃, h₃⟩ := freeAll_pending hg hrange hset
  refine ⟨henv.trans (env_freeAll _ l), h₃, ?_, fun x p hx => ?_, h0, ?_, ?_, ?_, fun i => ?_⟩
  · exact (Volume.Shows.of_agree h a).trans
      ((Volume.Shows.of_agree h₁ a₂).trans ((Volume.Shows.of_grown h₂ hd₂ g).trans (.of_agree hg a₃)))
  · exact (a₃.isDir hg).2 ((g.isDir h₂ hd₂).2 ((a₂.isDir h₁).2 ((a.isDir h).2 hx)))
  · rw [t.freeClusters] at hz
    exact (Finset.mem_sdiff.1 hz).1
  · have hxr := hc.range x (by simp)
    rw [freeClusters_freeAll hrange, freeClusters_grow hm₁ hxr (hc.fat_ge (by simp)) hz, t.freeClusters]
    ext k
    have hfree : k ∈ l → k ∈ c.volume.freeClusters := t.free k
    simp only [Finset.mem_union, Finset.mem_erase, Finset.mem_sdiff, List.mem_toFinset]
    by_cases hk : k ∈ l
    · have hkz : k ≠ z := fun hkz => hzl (hkz ▸ hk)
      simp [hk, hkz, hfree hk]
    · simp [hk]
  · rw [a₃.chain hg hdg, g.chain_eq_self h₂ hd₂, a₂.chain h₁ hd₁, a.chain h hd]
  · rw [data_freeAll, data_grow, data_alloc hm₁ (mem_freeClusters.1 hz).1, if_pos rfl]

/-- What a failed write leaves behind: nothing, or a blank cluster appended to the directory. -/
inductive Undone (c c' : Core) (d : Nat) : Prop
  | unchanged : Unchanged c c' → Undone c c' d
  | extended {z : Nat} : Extended c c' d z → Undone c c' d

/-- The clusters taken for an entry that could not be stored are given back. -/
theorem Refused.giveBack (hm : Mounted c) (h : c.volume.WF ∅) {fuel d q k : Nat} (hf : 4096 ≤ fuel)
    (hd : c.volume.IsDir d q) (t : Took c c₁ l) (ht : c₁.volume.Tail k l) (hr : Refused c₁ d c') :
    (∀ f, Runs (freeFrom fuel k) c' f () (c'.freeAll l) f) ∧ Undone c (c'.freeAll l) d := by
  have hlen := t.length_le hm.accepted
  have hm₁ := t.env.mounted hm
  have hfree : ∀ {c'}, SameEnv c₁ c' → c'.volume.Tail k l → ∀ f, Runs (freeFrom fuel k) c' f () (c'.freeAll l) f :=
    fun he ht' =>
    Fat12.runs_freeFrom (he.mounted hm₁).accepted ht' t.nodup (by omega)
  cases hr with
  | same => exact ⟨hfree (.refl _) ht, .unchanged t.freeAll⟩
  | touched => exact ⟨hfree ⟨rfl, rfl, rfl, rfl, rfl⟩ ht, .unchanged t.touched.freeAll⟩
  | grown h0 hc hfull hz =>
    rename_i l' x z
    have henv := env_grow c₁ x z
    have a := t.agree h
    have h₁ := t.wf h
    -- the clusters taken are not those of the directory
    have hfat : ∀ y ∈ l, (c₁.grow x z).volume.fat y = c₁.volume.fat y := fun y hy => by
      have hyx : y ≠ x := by
        rintro rfl
        refine t.not_used h hy (h.dir_used hd h0 ?_)
        rw [← a.chain h hd, hc.eq hm₁.geom]
        simp
      rw [fat_grow hm₁ (mem_freeClusters.1 hz).1 (.inr (hc.range x (by simp))),
        if_neg fun hyz : y = z => t.taken y hy (hyz ▸ (mem_freeClusters.1 hz).2),
        if_neg fun hyy : y = x ∧ 2 ≤ x => hyx hyy.1]
    obtain ⟨e, hl, he⟩ := ht.linked
    have htail : (c₁.grow x z).volume.Tail k l :=
      ⟨fun y hy => henv.sizes.inRange.2 (ht.range y hy), e, hl.congr hfat, he⟩
    exact ⟨hfree henv htail, .extended (extended_grow hm h hd t h0 hc hfull hz)⟩

theorem ends_commitFile (hm : Mounted c) (h : c.volume.WF ∅) {fuel d q : Nat} (hf : 4096 ≤ fuel)
    (hd : c.volume.IsDir d q) (w : Writing data size c c₁ l first prev written) (n : ShortName) (old : Option Nat) :
    Ends (commitFile fuel d n old first size) c₁ fun code c' => code ≠ .ok → Undone c c' d := by
  have hm₁ := w.took.env.mounted hm
  have hd₁ := ((w.took.agree h).isDir h).2 hd
  unfold commitFile
  refine (ends_writeDirectoryEntry hm₁.accepted hf ((w.took.wf h).walkable ⟨q, hd₁⟩) n _).bind
    fun code c₂ hcode => ?_
  split
  · split
    · exact .pure fun hc => absurd rfl hc
    · split
      · exact .freeChain hf _ fun c' => .pure fun hc => absurd rfl hc
      · exact .pure fun hc => absurd rfl hc
  · rename_i hne
    obtain ⟨hfree, hundone⟩ := (hcode hne).giveBack hm h hf hd w.took w.tail
    exact .step hfree (.pure fun _ => hundone)

/-- `fat12_write_file` once it knows where to. -/
theorem ends_store (hm : Mounted c) (h : c.volume.WF ∅) {fuel d q : Nat} (hf : 4096 ≤ fuel)
    (hd : c.volume.IsDir d q) (n : ShortName) (data : Buf) (size : Nat) (old : Option Nat) {m : M Code}
    (hmm : m = do match ← writeLoop fuel data size with
      | .error e => pure e
      | .ok firstCluster =>
        commitFile fuel d n old firstCluster size) : Ends m c fun code c' => code ≠ .ok → Undone c c' d := by
  subst hmm
  refine (ends_writeLoop hm.accepted hf fuel (Writing.start hm.accepted data size) (by simp; omega)).bind
    fun r c₁ hr => ?_
  match r with
  | .error e => exact .pure fun _ => .unchanged hr.2
  | .ok first =>
    obtain ⟨l, prev, written, w, -⟩ := hr
    exact ends_commitFile hm h hf hd w n old

/-- `fat12_write_file` up to the flush. -/
theorem ends_writeFileBody (hm : Mounted c) (h : c.volume.WF ∅) (hs : c.Settled) {fuel : Nat} (hf : 4096 ≤ fuel)
    (path : List UInt8) (data : Option Buf) (size : Nat) :
    Ends (writeFileBody fuel path data size) c fun code c' => code ≠ .ok → Unchanged c c' ∨
      ∃ d n, c.volume.resolve (c.start path).1 (c.start path).2 (components path) = .ok (d, n) ∧ Undone c c' d := by
  unfold writeFileBody
  apply Ends.core
  rw [hm.ready, if_neg (by decide)]
  split
  · exact .pure fun _ => .inl (.refl c)
  · have hres : Ends (resolveParentAndName fuel path) c fun r c' => c' = c ∧ ∀ x, r = .ok x →
        c.volume.resolve (c.start path).1 (c.start path).2 (components path) = .ok x :=
      .looks (looks_resolve hm h hf hs path) ⟨rfl, fun _ he => he⟩ ⟨rfl, fun _ he => nomatch he⟩
    refine hres.bind fun r c' hx => ?_
    obtain ⟨rfl, hr⟩ := hx
    split
    · exact .pure fun _ => .inl (.refl c')
    · rename_i d n
      have hr := hr _ rfl
      obtain ⟨⟨q, hd⟩, -⟩ := resolve_dir h hs hr
      have hstore : ∀ (old : Option Nat) (m : M Code), (m = do
          match ← writeLoop fuel (data.getD fun _ => 0) size with
          | .error e => pure e
          | .ok firstCluster =>
            commitFile fuel d n old firstCluster size) → Ends m c' fun code c'' => code ≠ .ok → Unchanged c' c'' ∨
                ∃ d n, c'.volume.resolve (c'.start path).1 (c'.start path).2 (components path) = .ok (d, n) ∧
                Undone c' c'' d :=
        fun old m hmm => (ends_store hm h hf hd n _ size old hmm).post fun code c'' hcode hne =>
          .inr ⟨d, n, hr, hcode hne⟩
      have hfind : Ends (findEntry fuel d n) c' fun _ c'' => c'' = c' :=
        .looks (looks_findEntry hm hf (h.walkable ⟨q, hd⟩) n) rfl rfl
      refine hfind.bind fun r c'' hc => ?_
      subst hc
      split
      · split
        · exact .pure fun _ => .inl (.refl _)
        · exact hstore _ _ rfl
      · exact hstore _ _ rfl
      · exact .pure fun _ => .inl (.refl _)

/-- `fat12_create_directory` behind its first search. -/
theorem ends_createBehind (hm : Mounted c) (h : c.volume.WF ∅) {fuel d q : Nat} (hf : 4096 ≤ fuel)
    (hd : c.volume.IsDir d q) (n : ShortName) :
    Ends (createBehind fuel c.fs d n) c fun code c' => code ≠ .ok → Undone c c' d := by
  unfold createBehind
  refine .allocate hm.accepted (fun c' hc => ?_) fun k hk => ?_
  · rw [if_pos rfl]
    refine .pure fun _ => .unchanged ?_
    rcases hc with rfl | rfl
    · exact .refl _
    · exact ⟨⟨rfl, rfl, rfl, rfl, rfl⟩, rfl, rfl, fun _ _ => rfl⟩
  · have hkf := firstFree_some hk
    have hkr := (mem_freeClusters.1 hkf).1
    have henv := env_alloc c k
    have hfrom : freeFrom fuel k = freeChain fuel k := if_pos hkr.1
    rw [if_neg (by have := hkr.1; omega)]
    refine .clusterBuffer fun b => .step (runs_setClusterBuffer _ _) ?_
    refine Ends.write (b := dotBuffer (fun _ => 0) c.fs.clusterSizeBytes k d) (henv.accepted hm.accepted).spc_ne
      (fun x hx => ?_) ?_ ?_
    · refine dotBuffer_congr b _ k d x ?_
      rw [henv.fs, ← hm.accepted.clusterSize_eq] at hx
      exact hx
    · have t := took_dots hm hkf d
      have hd' := ((t.agree h).isDir h).2 hd
      rw [if_pos rfl]
      refine (ends_writeDirectoryEntry (t.env.accepted hm.accepted) hf ((t.wf h).walkable ⟨q, hd'⟩) n _).bind
        fun code c₂ hcode => ?_
      split
      · exact .pure fun hc => absurd rfl hc
      · rename_i hne
        obtain ⟨hfree, hundone⟩ := (hcode hne).giveBack hm h hf hd t (fresh_dots hm h hd hkf).chain.tail
        rw [hfrom] at hfree
        exact .step hfree (.pure fun _ => hundone)
    · -- the dot entries are not written
      have t := (Took.refl c).alloc hm.accepted hkf
      have hchain : (c.alloc k).volume.Chain k [k] :=
        .single (henv.sizes.inRange.2 hkr) (by rw [fat_alloc hkr, if_pos rfl])
      obtain ⟨hfree, hundone⟩ := Refused.same.giveBack hm h hf hd t hchain.tail
      rw [hfrom] at hfree
      rw [if_neg (by decide)]
      exact .step hfree (.pure fun _ => hundone)

/-- The flush behind a change returns whatever the disk does. -/
theorem flushAll_returns (s : State) : ∃ s', flushAll s = .ok .ok s' ∧ ∃ n, s'.faults = later s.faults n := by
  obtain ⟨s₁, h1, -, h3⟩ := flushRoot_run s
  obtain ⟨s₂, h4, -, h6⟩ := flushFats_run s₁
  refine ⟨s₂, ?_, _, by rw [h6, h3, later_later]⟩
  unfold flushAll
  rw [bind_ok h1, bind_ok h4]
  rfl

theorem ends_flushAll (c : Core) : Ends flushAll c fun code _ => code = .ok := by
  intro s _ hs
  obtain ⟨s', h1, n, h2⟩ := flushAll_returns s
  exact ⟨.ok, s', h1, by rw [h2]; exact hs.later n, rfl⟩

/-- A change that fails is not flushed. -/
theorem runs_committing {m : M Code} {e : Code} {f f' : Nat → Option Nat} (h : Runs m c f e c' f') (he : e ≠ .ok) :
    Runs (committing m) c f e c' f' := by
  refine Yields.bind h ?_
  cases e with
  | ok => exact absurd rfl he
  | _ => exact Yields.pure _

/-- One that succeeds is, and returns whatever becomes of that. -/
theorem committing_ok {m : M Code} {s : State} {f' : Nat → Option Nat} (h : Runs m s.toCore s.faults .ok c' f') :
    ∃ s', committing m s = .ok .ok s' := by
  obtain ⟨s₁, h1, -⟩ := h.run rfl rfl
  obtain ⟨s₂, h2, -⟩ := flushAll_returns s₁
  refine ⟨s₂, ?_⟩
  unfold committing
  rw [bind_ok h1]
  exact h2

theorem ends_committing {m : M Code} {Q : Code → Core → Prop} (h : Ends m c Q) :
    Ends (committing m) c fun code c' => code ≠ .ok → Q code c' := by
  unfold committing
  refine h.bind fun code c' hq => ?_
  split
  · exact (ends_flushAll c').post fun _ _ hc hne => absurd hc hne
  · exact .pure fun _ => hq

end

end AltoniumOS.Fat12

/-
The loop of `fat12_write_file`: it stores the bytes in a new chain of free clusters, or gives all of
them back when there are too few.
-/
import AltoniumOS.Refine.Alloc

namespace AltoniumOS.Fat12

open AltoniumOS.Lib

/-- Between two rounds: `c'` is `c` with the chain `l` from `first` to `prev` taken, and the first
`written` bytes of `data` in it. -/
structure Writing (data : Buf) (size : Nat) (c c' : Core) (l : List Nat) (first prev written : Nat) : Prop where
  took : Took c c' l
  written_eq : written = min (l.length * c.fs.clusterSizeBytes) size
  tight : l.length * c.fs.clusterSizeBytes < size + c.fs.clusterSizeBytes
  links : (l = [] ∧ first = 0 ∧ prev = 0) ∨ ∃ l', l = l' ++ [prev] ∧ c'.volume.Chain first l
  bytes : ∀ j k, l[j]? = some k → ∀ x < c.fs.clusterSizeBytes, j * c.fs.clusterSizeBytes + x < size →
    c'.volume.data k x = data (j * c.fs.clusterSizeBytes + x)

theorem InRange.lt_4086 {c : Core} (hm : c.fs.Accepted) {k : Nat} (h : c.volume.InRange k) : k < 4086 := by
  have h1 := h.2.1
  have h2 := hm.clusters.2
  have : c.volume.totalClusters = c.fs.totalClusters := rfl
  omega

/-- Giving back a chain, or nothing. -/
theorem runs_freeFrom {c : Core} {k fuel : Nat} {l : List Nat} (hm : c.fs.Accepted) (ht : c.volume.Tail k l)
    (hnd : l.Nodup) (hlt : l.length < fuel) (f : Nat → Option Nat) :
    Runs (freeFrom fuel k) c f () (c.freeAll l) f := by
  unfold freeFrom
  split
  · exact runs_freeChain hm ht hnd hlt f
  · cases l with
    | nil => exact Yields.pure _
    | cons x l =>
      obtain ⟨rfl, hr, -⟩ := ht.cons
      have := hr.1
      omega

namespace Writing

variable {data : Buf} {size : Nat} {c c' : Core} {l : List Nat} {first prev written : Nat}

theorem start (hm : c.fs.Accepted) (data : Buf) (size : Nat) : Writing data size c c [] 0 0 0 :=
  ⟨.refl c, by simp, by have := hm.clusterSize_pos; simp; omega, .inl ⟨rfl, rfl, rfl⟩, fun j k hj => by simp at hj⟩

theorem written_of_lt (w : Writing data size c c' l first prev written) (h : written < size) :
    written = l.length * c.fs.clusterSizeBytes := by
  have := w.written_eq
  omega

/-- The chain is as long as the size asks, when everything is written. -/
theorem length_eq (hm : c.fs.Accepted) (w : Writing data size c c' l first prev written) (h : ¬ written < size) :
    l.length = c.volume.clustersFor size := by
  have h1 := w.written_eq
  have h2 := w.tight
  have h3 := hm.clusterSize_pos
  refine (Nat.div_eq_of_lt_le (show l.length * c.fs.clusterSizeBytes ≤ _ from ?_) ?_).symm
  · show _ ≤ size + c.fs.clusterSizeBytes - 1
    omega
  · show size + c.fs.clusterSizeBytes - 1 < (l.length + 1) * c.fs.clusterSizeBytes
    rw [Nat.succ_mul]
    omega

/-- And is not, when something is left. -/
theorem length_lt (hm : c.fs.Accepted) (w : Writing data size c c' l first prev written) (h : written < size) :
    l.length < c.volume.clustersFor size := by
  have h1 := w.written_of_lt h
  have h3 := hm.clusterSize_pos
  show l.length + 1 ≤ (size + c.fs.clusterSizeBytes - 1) / c.fs.clusterSizeBytes
  rw [Nat.le_div_iff_mul_le h3, Nat.succ_mul]
  omega

theorem size_lt (hm : c.fs.Accepted) (w : Writing data size c c' l first prev written) (h : ¬ written < size) :
    size < 4294967296 := by
  have h1 := w.written_eq
  have h2 : l.length * c.fs.clusterSizeBytes ≤ 4086 * 16384 :=
    Nat.mul_le_mul (w.took.length_le hm) hm.clusterSize_le
  omega

/-- What is taken so far hangs together: it is what the links lead through from `first` on. -/
theorem tail (w : Writing data size c c' l first prev written) : c'.volume.Tail first l := by
  rcases w.links with ⟨rfl, rfl, -⟩ | ⟨l', rfl, hc⟩
  · exact ⟨fun _ h => (nomatch h), 0, rfl, rfl⟩
  · exact hc.tail

/-- What is taken so far may be given back. -/
theorem runs_freeFrom (hm : c.fs.Accepted) (w : Writing data size c c' l first prev written) {fuel : Nat}
    (hf : 4096 ≤ fuel) (f : Nat → Option Nat) : Runs (freeFrom fuel first) c' f () (c'.freeAll l) f :=
  Fat12.runs_freeFrom (w.took.env.accepted hm) w.tail w.took.nodup (by have := w.took.length_le hm; omega) f

theorem gives_freeFrom (hm : c.fs.Accepted) (w : Writing data size c c' l first prev written) {fuel : Nat}
    (hf : 4096 ≤ fuel) : Gives (freeFrom fuel first) c' () (c'.freeAll l) :=
  Runs.gives fun f _ => ⟨0, w.runs_freeFrom hm hf f⟩

end Writing

/-- `c` after the link from the previous cluster was set, if there is one. -/
def Core.link (c : Core) (prev k : Nat) : Core := if prev ≥ 2 then c.setFat prev k else c

theorem gives_linkPrevious (c : Core) (prev k : Nat) : Gives (linkPrevious prev k) c () (c.link prev k) := by
  unfold linkPrevious Core.link
  split
  · exact gives_setFatEntry prev k c
  · exact .pure _

theorem env_link (c : Core) (prev k : Nat) : SameEnv c (c.link prev k) := by
  unfold Core.link
  split
  · exact env_setFat c prev k
  · exact .refl c

/-- `c` with `k` taken and linked behind `prev`. -/
def Core.grow (c : Core) (prev k : Nat) : Core := ((c.alloc k).link prev k).setFat k clusterEoc

/-- `c` after one round of the loop: `k` taken, linked behind `prev` and filled. -/
def Core.extend (c : Core) (prev k : Nat) (b : Buf) : Core := (c.grow prev k).putCluster k b

section

variable {data : Buf} {size : Nat} {c c' : Core} {l : List Nat} {first prev written : Nat}

theorem fat_alloc {k : Nat} (hk : c.volume.InRange k) (x : Nat) :
    (c.alloc k).volume.fat x = if x = k then clusterEoc else c.volume.fat x := fat_setFat (v := clusterEoc) hk x

theorem env_alloc (c : Core) (k : Nat) : SameEnv c (c.alloc k) :=
  (env_setFat c k clusterEoc).trans (env_putCluster ..)

theorem env_grow (c : Core) (prev k : Nat) : SameEnv c (c.grow prev k) :=
  (env_alloc c k).trans ((env_link _ prev k).trans (env_setFat ..))

/-- The links after a cluster was linked. -/
theorem fat_grow (hm : c.fs.Accepted) {k : Nat} (hk : c.volume.InRange k) (hp : prev < 2 ∨ c.volume.InRange prev)
    (x : Nat) :
    (c.grow prev k).volume.fat x =
      if x = k then clusterEoc else if x = prev ∧ 2 ≤ prev then k else c.volume.fat x := by
  have h4086 := InRange.lt_4086 hm hk
  have hk' : ((c.alloc k).link prev k).volume.InRange k :=
    ((env_alloc c k).trans (env_link _ prev k)).sizes.inRange.2 hk
  unfold Core.grow
  rw [fat_setFat hk']
  split
  · rfl
  · rename_i hxk
    unfold Core.link
    split
    · rename_i hp2
      rw [fat_setFat ((env_alloc c k).sizes.inRange.2 (hp.resolve_left (by omega))), Nat.mod_eq_of_lt (by omega)]
      by_cases hxp : x = prev
      · rw [if_pos hxp, if_pos ⟨hxp, hp2⟩]
      · rw [if_neg hxp, if_neg fun h => hxp h.1, fat_alloc hk, if_neg hxk]
    · rename_i hp2
      rw [if_neg fun h => hp2 h.2, fat_alloc hk, if_neg hxk]

/-- Linking changes no contents. -/
theorem data_grow (c : Core) (prev k : Nat) : (c.grow prev k).volume.data = (c.alloc k).volume.data := by
  unfold Core.grow Core.link
  split <;> rfl

theorem data_alloc (hm : c.fs.Accepted) {k : Nat} (hk : c.volume.InRange k) (x : Nat) :
    (c.alloc k).volume.data x = if x = k then fun _ => 0 else c.volume.data x := by
  have henv := env_setFat c k clusterEoc
  unfold Core.alloc
  rw [data_putCluster (henv.accepted hm) (henv.sizes.inRange.2 hk)]
  split
  · funext i
    split <;> rfl
  · rfl

theorem data_extend (hm : c.fs.Accepted) (prev : Nat) {k : Nat} {b : Buf} (hk : c.volume.InRange k) (x : Nat) :
    (c.extend prev k b).volume.data x =
      if x = k then fun i => if i < c.fs.clusterSizeBytes then b i else 0 else c.volume.data x := by
  have henv := env_grow c prev k
  unfold Core.extend
  rw [data_putCluster (henv.accepted hm) (henv.sizes.inRange.2 hk)]
  split
  · rw [henv.fs]
  · rename_i hxk
    rw [data_grow, data_alloc hm hk, if_neg hxk]

theorem Writing.prev_range (w : Writing data size c c' l first prev written) :
    prev < 2 ∨ (prev ∈ l ∧ c'.volume.InRange prev) := by
  rcases w.links with ⟨-, -, rfl⟩ | ⟨l', rfl, hc⟩
  · exact .inl (by omega)
  · exact .inr ⟨by simp, hc.range prev (by simp)⟩

/-- The clusters taken, with one more linked behind them. -/
theorem Writing.took_grow (hm : c.fs.Accepted) (w : Writing data size c c' l first prev written) {k : Nat}
    (hk : k ∈ c'.volume.freeClusters) : Took c (c'.grow prev k) (l ++ [k]) := by
  have hkr : c'.volume.InRange k := (mem_freeClusters.1 hk).1
  have h4086 := InRange.lt_4086 (w.took.env.accepted hm) hkr
  have t₁ := w.took.alloc hm hk
  have t₂ : Took c ((c'.alloc k).link prev k) (l ++ [k]) := by
    unfold Core.link
    split
    · have hmem := (w.prev_range.resolve_left (by omega)).1
      refine t₁.setFat (List.mem_append_left _ hmem) ?_
      rw [Nat.mod_eq_of_lt (by omega)]
      have := hkr.1
      omega
    · exact t₁
  exact t₂.setFat (by simp) (by decide)

/-- And the chain they make. -/
theorem Writing.chain_grow (hm : c.fs.Accepted) (w : Writing data size c c' l first prev written) {k : Nat}
    (hk : k ∈ c'.volume.freeClusters) :
    (c'.grow prev k).volume.Chain (if first = 0 then k else first) (l ++ [k]) := by
  have hm' := w.took.env.accepted hm
  have hkr : c'.volume.InRange k := (mem_freeClusters.1 hk).1
  have hkl : k ∉ l := fun hkl => w.took.taken k hkl (mem_freeClusters.1 hk).2
  have hfat := fat_grow hm' hkr (w.prev_range.imp id And.right)
  have hsz := (env_grow c' prev k).sizes
  rcases w.links with ⟨rfl, rfl, -⟩ | ⟨l', hl', hc⟩
  · rw [if_pos rfl, List.nil_append]
    refine ⟨by simp, by simp, fun y hy => ?_, clusterEoc, ⟨rfl, ?_⟩, Nat.le_refl _⟩
    · rw [List.mem_singleton.1 hy]; exact hsz.inRange.2 hkr
    · rw [linked_nil, hfat, if_pos rfl]
  · have hpr := hc.range prev (by rw [hl']; simp)
    have hfirst : first ≠ 0 := by have := hc.start.1; omega
    rw [if_neg hfirst]
    subst hl'
    refine hc.snoc hsz hkr hkl ?_ (by rw [hfat, if_pos rfl]) fun y hy => ?_
    · rw [hfat, if_neg fun hpk => hkl (by simp [← hpk]), if_pos ⟨rfl, hpr.1⟩]
    · rw [hfat, if_neg fun hyk : y = k => hkl (by simp [← hyk, hy]), if_neg fun hyp : y = prev ∧ 2 ≤ prev =>
        hc.last_notMem (hyp.1 ▸ hy)]

/-- A round of the loop. -/
theorem Writing.step (hm : c.fs.Accepted) (w : Writing data size c c' l first prev written) (hlt : written < size)
    {k : Nat} (hk : k ∈ c'.volume.freeClusters) :
    Writing data size c (c'.extend prev k fun x => if x < min c.fs.clusterSizeBytes (size - written)
      then data (written + x) else 0) (l ++ [k]) (if first = 0 then k else first) k
        (written + min c.fs.clusterSizeBytes (size - written)) := by
  have hm' := w.took.env.accepted hm
  have hkr : c'.volume.InRange k := (mem_freeClusters.1 hk).1
  have hkl : k ∉ l := fun hkl => w.took.taken k hkl (mem_freeClusters.1 hk).2
  have hwr := w.written_of_lt hlt
  have hdata :=
    data_extend (b := fun x => if x < min c.fs.clusterSizeBytes (size - written) then data (written + x) else 0)
      hm' prev hkr
  have hchain := (env_putCluster (c'.grow prev k) k fun x =>
    if x < min c.fs.clusterSizeBytes (size - written) then data (written + x) else 0).sizes.chain
      (w.chain_grow hm hk) fun _ _ => rfl
  refine ⟨(w.took_grow hm hk).putCluster hm (by simp) _, ?_, ?_, .inr ⟨l, rfl, hchain⟩, fun j k' hj x hx hjx => ?_⟩
  · rw [List.length_append, List.length_singleton, Nat.succ_mul]
    omega
  · rw [List.length_append, List.length_singleton, Nat.succ_mul]
    omega
  · rw [hdata]
    rcases Nat.lt_or_ge j l.length with hjl | hjl
    · rw [List.getElem?_append_left hjl] at hj
      have hne : k' ≠ k := fun hkk => hkl (hkk ▸ List.mem_of_getElem? hj)
      rw [if_neg hne]
      exact w.bytes j k' hj x hx hjx
    · rw [List.getElem?_append_right hjl, List.getElem?_singleton] at hj
      split at hj
      · cases hj
        have hjl : j = l.length := by omega
        rw [w.took.env.fs, if_pos rfl, if_pos hx, hwr, hjl]
        rw [hjl] at hjx
        exact if_pos (by omega)
      · cases hj

/-- What is written to a cluster: the next bytes of the data, and zeros. -/
theorem filled_at (b data : Buf) {m n x : Nat} (hx : x < m) :
    (b.fill 0 m).blit 0 (fun i => data (written + i)) (min m n) x = if x < min m n then data (written + x)
      else 0 := by
  unfold Buf.blit Buf.fill
  by_cases hin : x < min m n
  · rw [if_pos hin, if_pos (by omega)]
    rfl
  · rw [if_neg hin, if_neg (by omega), if_pos hx]

theorem gives_writeRound_next (hm : c.fs.Accepted) (w : Writing data size c c' l first prev written) (fuel : Nat)
    (hlt : written < size) {k : Nat} (hk : firstFree c' = some k) :
    Gives (writeRound fuel data size (first, prev, written)) c'
      (.inl (if first = 0 then k else first, k, written + min c.fs.clusterSizeBytes (size - written)))
      (c'.extend prev k fun x => if x < min c.fs.clusterSizeBytes (size - written) then data (written + x)
        else 0) := by
  have hm' := w.took.env.accepted hm
  have hkr : c'.volume.InRange k := (mem_freeClusters.1 (firstFree_some hk)).1
  have henv : SameEnv c (((c'.alloc k).link prev k).setFat k clusterEoc) := w.took.env.trans (env_grow c' prev k)
  rw [writeRound, if_pos hlt]
  refine (gives_allocateCluster_some hm' hk).bind ?_
  rw [if_neg (by have := hkr.1; omega)]
  refine (gives_linkPrevious _ prev k).bind ((gives_setFatEntry k clusterEoc _).bind (gives_core ?_))
  refine gives_clusterBuffer fun b => (gives_setClusterBuffer _ _).bind ?_
  refine Yields.bind (show Gives _ _ true (c'.extend prev k fun x =>
    if x < min c.fs.clusterSizeBytes (size - written) then data (written + x) else 0) from
      gives_writeCluster _ (henv.accepted hm).spc_ne fun x hx => ?_) ?_
  · have hx : x < c.fs.clusterSizeBytes := by
      rw [henv.fs, ← hm.clusterSize_eq] at hx
      exact hx
    rw [henv.fs]
    exact filled_at b data hx
  · rw [henv.fs]
    exact .pure _

/-- The loop of `fat12_write_file`. -/
theorem gives_writeLoop (hm : c.fs.Accepted) {F : Nat} (hF : 4096 ≤ F) :
    ∀ (fuel : Nat) {c' : Core} {l : List Nat}
      {first prev written : Nat}, Writing data size c c' l first prev written → 4087 ≤ fuel + l.length →
      (∃ c'' l' first' prev' written',
        Gives (loop (writeRound F data size) fuel (first, prev, written)) c' (.ok first') c'' ∧
        Writing data size c c'' l' first' prev' written' ∧ ¬ written' < size) ∨
      (∃ c'', Gives (loop (writeRound F data size) fuel (first, prev, written)) c' (.error .errNoFreeCluster) c'' ∧
        Unchanged c c'' ∧ c.volume.freeClusters.card < c.volume.clustersFor size)
  | 0, c', l, first, prev, written, w, hfuel => by
    have := w.took.length_le hm
    omega
  | fuel + 1, c', l, first, prev, written, w, hfuel => by
    by_cases hlt : written < size
    · cases hk : firstFree c' with
      | none =>
        refine .inr ⟨c'.freeAll l, Yields.loop_done ?_, w.took.freeAll, ?_⟩
        · rw [writeRound, if_pos hlt]
          refine (gives_allocateCluster_none hk).bind ?_
          rw [if_pos rfl]
          exact (w.gives_freeFrom hm hF).bind (.pure _)
        · have h1 := w.took.card
          rw [firstFree_none hk, Finset.card_empty, Nat.zero_add] at h1
          rw [← h1]
          exact w.length_lt hm hlt
      | some k =>
        have hround := gives_writeRound_next hm w F hlt hk
        rcases gives_writeLoop hm hF fuel (w.step hm hlt (firstFree_some hk)) (by
            rw [List.length_append, List.length_singleton]; omega) with
          ⟨c'', l', first', prev', written', hg, hw⟩ | ⟨c'', hg, hu⟩
        · exact .inl ⟨c'', l', first', prev', written', hround.loop_next hg, hw⟩
        · exact .inr ⟨c'', hround.loop_next hg, hu⟩
    · refine .inl ⟨c', l, first, prev, written, Yields.loop_done ?_, w, hlt⟩
      rw [writeRound, if_neg hlt]
      exact .pure _

end

end AltoniumOS.Fat12

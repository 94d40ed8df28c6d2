/-
Freeing a chain of a FAT that need not be well-formed: its links may come back, cross another chain or lead out of
the FAT. The loop frees what it meets, and nothing else.
-/
import AltoniumOS.Refine.Alloc

namespace AltoniumOS.Fat12

open AltoniumOS.Lib

variable {c : Core}

/-- `cluster` has its entry inside the FAT. -/
def Fs.HasEntry (fs : Fs) (cluster : Nat) : Prop := cluster + cluster / 2 + 1 < fs.fatSizeBytes

/-- `c'` is `c` with the FAT entries of the clusters in `visited` free, and all the others as they were. -/
structure Freed (c : Core) (visited : Nat → Prop) (c' : Core) : Prop where
  fs : c'.fs = c.fs
  cleared : ∀ x, c.fs.HasEntry x → visited x → getFatEntry c' x = clusterFree
  kept : ∀ x, c.fs.HasEntry x → ¬ visited x → getFatEntry c' x = getFatEntry c x

/-- What frees nothing. -/
theorem Freed.refl {visited : Nat → Prop} (h : ∀ x, ¬ visited x) : Freed c visited c :=
  ⟨rfl, fun x _ hx => absurd hx (h x), fun _ _ _ => rfl⟩

/-- A freed cluster links to nothing: its entry is free, or outside the FAT and read as an end mark. -/
theorem cut_freed (c : Core) (k : Nat) : inChain (getFatEntry (c.setFat k clusterFree) k) = false := by
  by_cases h : k + k / 2 + 1 < c.fs.fatSizeBytes
  · rw [getFatEntry_setFat_self h]
    decide
  · rw [getFatEntry_outside (c := c.setFat k clusterFree) (Nat.not_lt.1 h)]
    decide

/-- The clusters met from `k` on in the FAT of `c`. -/
def Core.Visited (c : Core) : Nat → Nat → Prop := Met (getFatEntry c) inChain

theorem not_visited {k : Nat} (hk : inChain k = false) (x : Nat) : ¬ c.Visited k x := by
  intro h
  induction h with
  | start h =>
    rw [hk] at h
    cases h
  | next _ _ ih => exact ih

theorem visited_iff {k x : Nat} (hk : inChain k = true) :
    c.Visited k x ↔ x = k ∨ (c.setFat k clusterFree).Visited (getFatEntry c k) x :=
  met_iff hk (fun _ hx => getFatEntry_setFat_ne hx) (cut_freed c k)

/-- One cluster freed, and then the clusters behind it. -/
theorem Freed.cons {k : Nat} {c' : Core} (hk : inChain k = true)
    (h : Freed (c.setFat k clusterFree) ((c.setFat k clusterFree).Visited (getFatEntry c k)) c') :
    Freed c (c.Visited k) c' := by
  refine ⟨h.fs, fun x hx hv => ?_, fun x hx hv => ?_⟩
  · by_cases hrest : (c.setFat k clusterFree).Visited (getFatEntry c k) x
    · exact h.cleared x hx hrest
    · -- the rest left it as the first round did
      obtain rfl | hm := (visited_iff hk).1 hv
      · rw [h.kept x hx hrest, getFatEntry_setFat_self hx]
        rfl
      · exact absurd hm hrest
  · have hne : x ≠ k := fun hxk => hv ((visited_iff hk).2 (.inl hxk))
    rw [h.kept x hx fun hm => hv ((visited_iff hk).2 (.inr hm)), getFatEntry_setFat_ne hne]

/-- The loop ends on any FAT and frees what it meets. -/
theorem freeChain_freed : ∀ {fuel k : Nat} {c : Core}, (busy c).card + 2 ≤ fuel → ∀ s : State, s.toCore = c →
    ∃ fat dirty, freeChain fuel k s = .ok () { s with fatPrimary := fat, fatDirty := dirty } ∧
      dirty = (c.fatDirty || inChain k) ∧ Freed c (c.Visited k) { c with fatPrimary := fat, fatDirty := dirty }
  | fuel + 2, k, c, hlt, s, hs => by
    subst hs
    unfold freeChain
    by_cases hk : inChain k = true
    · rw [loop_next (freeChainRound_run hk s), hk, Bool.or_true]
      by_cases hnext : inChain (getFatEntry s.toCore k) = true
      · have := card_busy hk hnext
        have hfuel : (busy (s.toCore.setFat k clusterFree)).card + 2 ≤ fuel + 1 := by omega
        obtain ⟨fat, dirty, hrun, hd, hf⟩ :=
          freeChain_freed hfuel { s with toCore := s.toCore.setFat k clusterFree } rfl
        exact ⟨fat, dirty, hrun, hd, hf.cons hk⟩
      · -- the next round is the last one
        have hdead : inChain (getFatEntry s.toCore k) = false := Bool.eq_false_iff.2 hnext
        refine ⟨(s.toCore.setFat k clusterFree).fatPrimary, true, loop_done ?_, rfl, ?_⟩
        · rw [freeChainRound, if_neg hnext]
          rfl
        · exact Freed.cons hk (.refl fun x => not_visited hdead x)
    · have hdead : inChain k = false := Bool.eq_false_iff.2 hk
      refine ⟨s.fatPrimary, s.fatDirty, loop_done ?_, by
        rw [hdead, Bool.or_false], .refl fun x => not_visited hdead x⟩
      rw [freeChainRound, if_neg hk]
      rfl

/-- `fat12_free_chain` returns whatever the FAT holds. Of the entries inside the FAT, those of the clusters met by
following the links from the start read free afterwards, and the others as before. -/
theorem chain_freed (startCluster : Nat) (s : State) (more : Nat) :
    ∃ fat dirty, freeChain (4088 + more) startCluster s = .ok () { s with fatPrimary := fat, fatDirty := dirty } ∧
      ∀ cluster, cluster + cluster / 2 + 1 < s.fs.fatSizeBytes →
        (Met (getFatEntry s.toCore) inChain startCluster cluster →
          getFatEntry { s.toCore with fatPrimary := fat, fatDirty := dirty } cluster = clusterFree) ∧
        (¬ Met (getFatEntry s.toCore) inChain startCluster cluster →
          getFatEntry { s.toCore with fatPrimary := fat, fatDirty := dirty } cluster =
            getFatEntry s.toCore cluster) := by
  have hcard := card_busy_le s.toCore
  have hfuel : (busy s.toCore).card + 2 ≤ 4088 + more := by omega
  obtain ⟨fat, dirty, hrun, -, hf⟩ := freeChain_freed hfuel s rfl
  exact ⟨fat, dirty, hrun, fun cluster hc => ⟨hf.cleared cluster hc, hf.kept cluster hc⟩⟩

end AltoniumOS.Fat12

/-
The changes an operation makes to a volume, one at a time: to clusters nobody uses (`Agree`), a
cluster linked behind a full directory (`Grown`), a slot overwritten (`Put`). Each keeps the
volume well-formed, with the clusters it takes or gives up moved out of or into the pending ones,
and each says what the directories and the entries are afterwards.
-/
import AltoniumOS.Volume.Basic

namespace AltoniumOS.Fat12

open AltoniumOS.Lib

namespace Volume

variable {V W : Volume} {P P' : Set Nat}

/-- The sizes that never change while a volume is mounted. -/
structure SameSizes (V W : Volume) : Prop where
  totalClusters : W.totalClusters = V.totalClusters
  fatSizeBytes : W.fatSizeBytes = V.fatSizeBytes
  rootEntryCount : W.rootEntryCount = V.rootEntryCount
  clusterSize : W.clusterSize = V.clusterSize

namespace SameSizes

theorem refl (V : Volume) : SameSizes V V := ⟨rfl, rfl, rfl, rfl⟩

theorem trans {X : Volume} (h : SameSizes V W) (h' : SameSizes W X) : SameSizes V X :=
  ⟨h'.1.trans h.1, h'.2.trans h.2, h'.3.trans h.3, h'.4.trans h.4⟩

theorem perCluster (h : SameSizes V W) : W.perCluster = V.perCluster := by
  unfold Volume.perCluster; rw [h.clusterSize]

theorem clustersFor (h : SameSizes V W) (n : Nat) : W.clustersFor n = V.clustersFor n := by
  unfold Volume.clustersFor; rw [h.clusterSize]

theorem inRange (h : SameSizes V W) {k : Nat} : W.InRange k ↔ V.InRange k := by
  unfold InRange; rw [h.totalClusters, h.fatSizeBytes]

theorem geom (h : SameSizes V W) (hg : V.Geom) : W.Geom :=
  ⟨by rw [h.totalClusters]; exact hg.clusters_le, by rw [h.perCluster]; exact hg.perCluster_ge,
    by rw [h.clusterSize, h.perCluster]; exact hg.clusterSize_eq⟩

theorem chain (h : SameSizes V W) {k : Nat} {l : List Nat} (hc : V.Chain k l) (hf : ∀ x ∈ l, W.fat x = V.fat x) :
    W.Chain k l :=
  hc.congr (fun _ _ => h.inRange.2) hf

end SameSizes

/-! ## Transfer of the tree -/

theorem EntryAt.congr {d : Nat} {p : Loc} (hl : W.locs d = V.locs d) (hs : W.slot p = V.slot p) :
    W.EntryAt d p ↔ V.EntryAt d p := by
  constructor
  · rintro ⟨h1, h2, h3⟩; exact ⟨hl ▸ h1, h2, hs ▸ h3⟩
  · rintro ⟨h1, h2, h3⟩; exact ⟨hl.symm ▸ h1, h2, hs.symm ▸ h3⟩

/-- A tree is kept when the subdirectory entries of its directories are. -/
theorem IsDir.mono (step : ∀ d q p, V.IsDir d q → V.EntryAt d p → (V.slot p).isDirectory = true →
    W.EntryAt d p ∧ W.slot p = V.slot p) : ∀ {d q : Nat}, V.IsDir d q → W.IsDir d q := by
  intro d q h
  induction h with
  | root => exact .root
  | sub hd he hi ih =>
    obtain ⟨h1, h2⟩ := step _ _ _ hd he hi
    have := IsDir.sub ih h1 (by rw [h2]; exact hi)
    rwa [h2] at this

/-- A tree only gains what its new entries lead to, when those lead no further. -/
theorem IsDir.back (New : Nat → Nat → Prop)
    (step : ∀ d q p, V.IsDir d q → W.EntryAt d p → (W.slot p).isDirectory = true →
      (V.EntryAt d p ∧ W.slot p = V.slot p) ∨ New (W.slot p).cluster d)
    (leaf : ∀ d q p, New d q → ¬ W.EntryAt d p) : ∀ {d q : Nat}, W.IsDir d q → V.IsDir d q ∨ New d q := by
  intro d q h
  induction h with
  | root => exact .inl .root
  | sub hd he hi ih =>
    rcases ih with ih | ih
    · rcases step _ _ _ ih he hi with ⟨h1, h2⟩ | h1
      · rw [h2]; exact .inl (.sub ih h1 (by rw [← h2]; exact hi))
      · exact .inr h1
    · exact absurd he (leaf _ _ _ ih)

theorem Dots.congr {d q : Nat} (h : V.Dots d q) (h0 : W.slot (d, 0) = V.slot (d, 0))
    (h1 : W.slot (d, 1) = V.slot (d, 1)) : W.Dots d q :=
  ⟨by rw [h0]; exact h.1, by rw [h0]; exact h.2, by rw [h0]; exact h.3, by rw [h1]; exact h.4, by
    rw [h1]; exact h.5, by rw [h1]; exact h.6⟩

/-- The dot slots are slots of their directory. -/
theorem WF.dot_mem (h : V.WF P) {d q i : Nat} (hd : V.IsDir d q) (h0 : d ≠ 0) (hi : i < 2) : (d, i) ∈ V.locs d :=
  (mem_locs_sub h0).2 ⟨(h.dir_chain hd h0).1.head_mem, by have := h.geom.perCluster_ge; show i < _; omega⟩

/-- A directory is as good as before when its slots are the same. -/
theorem WF.dirOk_congr (h : V.WF P) {d q : Nat} (hd : V.IsDir d q) (hl : W.locs d = V.locs d)
    (hs : ∀ p ∈ V.locs d, W.slot p = V.slot p) : W.DirOk d q := by
  obtain ⟨h1, h2, h3, h4⟩ := h.dirOk d q hd
  refine ⟨fun p hp => ?_, fun h0 => ?_, ?_, ?_⟩
  · rw [hl] at hp; rw [hs p hp]; exact h1 p hp
  · exact (h2 h0).congr (hs _ (h.dot_mem hd h0 (by omega))) (hs _ (h.dot_mem hd h0 (by omega)))
  · rw [hl]
    exact List.Pairwise.imp_of_mem (fun {a b} ha hb hab => by rwa [hs a ha, hs b hb]) h3
  · rw [hl]
    exact List.Pairwise.imp_of_mem (fun {a b} ha hb hab => by rwa [hs a ha, hs b hb]) h4

/-- Well-formedness after a change that made or altered at most the entry `p₀`. -/
theorem WF.of_change (h : V.WF P) (hz : SameSizes V W) (p₀ : Option Loc)
    (dirOk : ∀ d q, W.IsDir d q → W.DirOk d q)
    (old : ∀ p, W.Entry p → some p ≠ p₀ → V.Entry p ∧ W.slot p = V.slot p ∧ ∀ k ∈ V.owned p, W.fat k = V.fat k)
    (new : ∀ p, some p = p₀ → W.Entry p →
      ((W.slot p).isDirectory = false → W.FileChain (W.slot p)) ∧
      ((W.slot p).isDirectory = true → ∃ l, W.Chain (W.slot p).cluster l) ∧
      ∀ p', W.Entry p' → p' ≠ p → List.Disjoint (V.owned p') (W.owned p))
    (pending : ∀ k ∈ P', ¬ W.Used k)
    (noLost : ∀ k, V.InRange k → W.fat k ≠ clusterFree → W.fat k ≠ 0xFF7 → W.Used k ∨ k ∈ P') : W.WF P' := by
  have howned : ∀ p, W.Entry p → some p ≠ p₀ → W.owned p = V.owned p := fun p hp hne => by
    obtain ⟨-, hs, hf⟩ := old p hp hne
    unfold owned
    rw [hs]
    exact chain_congr hf
  refine ⟨hz.geom h.geom, dirOk, fun p hp hi => ?_, fun p hp hi => ?_, fun p q hp hq hne => ?_, pending,
    fun k hk => noLost k (hz.inRange.1 hk)⟩
  · by_cases hp0 : some p = p₀
    · exact (new p hp0 hp).1 hi
    · obtain ⟨hv, hs, hf⟩ := old p hp hp0
      rw [hs] at hi ⊢
      rcases h.file p hv hi with hc | ⟨l, hl, hn⟩
      · exact .inl hc
      · have hl' := hz.chain hl (by rwa [owned, hl.eq h.geom] at hf)
        exact .inr ⟨l, hl', by rw [hn, hz.clustersFor]⟩
  · by_cases hp0 : some p = p₀
    · exact (new p hp0 hp).2.1 hi
    · obtain ⟨hv, hs, hf⟩ := old p hp hp0
      rw [hs] at hi ⊢
      obtain ⟨l, hl⟩ := h.dir p hv hi
      exact ⟨l, hz.chain hl (by rwa [owned, hl.eq h.geom] at hf)⟩
  · by_cases hp0 : some p = p₀
    · have hq0 : some q ≠ p₀ := fun hq0 => hne (Option.some.inj (hp0.trans hq0.symm))
      rw [howned q hq hq0]
      exact ((new p hp0 hp).2.2 q hq (Ne.symm hne)).symm
    · by_cases hq0 : some q = p₀
      · rw [howned p hp hp0]
        exact (new q hq0 hq).2.2 p hp hne
      · rw [howned p hp hp0, howned q hq hq0]
        exact h.disjoint p q (old p hp hp0).1 (old q hq hq0).1 hne

/-- A proper chain with one cluster linked behind its last one. -/
theorem Chain.snoc (hz : SameSizes V W) {k x z : Nat} {l : List Nat} (hl : V.Chain k (l ++ [x])) (hzr : V.InRange z)
    (hzl : z ∉ l ++ [x]) (hx : W.fat x = z) (hend : clusterEoc ≤ W.fat z) (hf : ∀ y ∈ l, W.fat y = V.fat y) :
    W.Chain k (l ++ [x] ++ [z]) := by
  obtain ⟨y, hy, -⟩ := hl.linked
  rw [linked_snoc] at hy
  refine ⟨by simp, List.nodup_append.2 ⟨hl.nodup, by simp, fun a ha b hb => ?_⟩, fun k hk => ?_, W.fat z, ?_, hend⟩
  · rw [List.mem_singleton.1 hb]
    exact fun hab => hzl (hab ▸ ha)
  · rw [hz.inRange]
    rcases List.mem_append.1 hk with hk | hk
    · exact hl.range k hk
    · rw [List.mem_singleton.1 hk]; exact hzr
  · rw [linked_snoc, linked_snoc]
    exact ⟨⟨hy.1.congr hf, hx⟩, rfl⟩

theorem Chain.last_notMem {k x : Nat} {l : List Nat} (h : V.Chain k (l ++ [x])) : x ∉ l := by
  have := h.nodup
  rw [List.nodup_append] at this
  exact fun hm => this.2.2 x hm x (by simp) rfl

/-! ## Changes to clusters nobody uses -/

/-- `W` is `V` up to the links and contents of unused clusters. -/
structure Agree (V W : Volume) : Prop where
  sizes : SameSizes V W
  root : W.root = V.root
  fat : ∀ k, V.Used k → W.fat k = V.fat k
  data : ∀ k, V.Used k → W.data k = V.data k

namespace Agree

theorem owned (a : Agree V W) {p : Loc} (hp : V.Entry p) : W.chain (V.slot p).cluster = V.owned p :=
  chain_congr fun k hk => a.fat k ⟨p, hp, hk⟩

theorem chain (h : V.WF P) (a : Agree V W) {d q : Nat} (hd : V.IsDir d q) : W.chain d = V.chain d := by
  by_cases h0 : d = 0
  · rw [h0, chain_zero, chain_zero]
  · exact chain_congr fun k hk => a.fat k (h.dir_used hd h0 hk)

theorem locs (h : V.WF P) (a : Agree V W) {d q : Nat} (hd : V.IsDir d q) : W.locs d = V.locs d := by
  unfold Volume.locs
  rw [a.chain h hd, a.sizes.perCluster, a.sizes.rootEntryCount]

theorem slot (h : V.WF P) (a : Agree V W) {d q : Nat} {p : Loc} (hd : V.IsDir d q) (hp : p ∈ V.locs d) :
    W.slot p = V.slot p := by
  unfold Volume.slot
  rcases h.loc_owner hd hp with ⟨-, h1, -⟩ | ⟨h0, h1, h2, -⟩
  · rw [if_pos h1, if_pos h1, a.root]
  · rw [if_neg (by have := h2.1; omega), if_neg (by have := h2.1; omega), a.data _ (h.dir_used hd h0 h1)]

theorem slots (h : V.WF P) (a : Agree V W) {d q : Nat} (hd : V.IsDir d q) : W.slots d = V.slots d := by
  unfold Volume.slots
  rw [a.locs h hd]
  exact List.map_congr_left fun p hp => a.slot h hd hp

theorem entryAt (h : V.WF P) (a : Agree V W) {d q : Nat} {p : Loc} (hd : V.IsDir d q) :
    W.EntryAt d p ↔ V.EntryAt d p := by
  constructor
  · intro he
    have hp : p ∈ V.locs d := a.locs h hd ▸ he.mem
    exact (EntryAt.congr (a.locs h hd) (a.slot h hd hp)).1 he
  · intro he
    exact (EntryAt.congr (a.locs h hd) (a.slot h hd he.mem)).2 he

theorem isDir (h : V.WF P) (a : Agree V W) {d q : Nat} : W.IsDir d q ↔ V.IsDir d q := by
  constructor
  · intro hw
    have := IsDir.back (fun _ _ => False) (fun d q p hd he _ => .inl ⟨(a.entryAt h hd).1 he,
      a.slot h hd ((a.entryAt h hd).1 he).mem⟩) (fun _ _ _ hf => hf.elim) hw
    exact this.elim id False.elim
  · exact IsDir.mono fun d q p hd he _ => ⟨(a.entryAt h hd).2 he, a.slot h hd he.mem⟩

theorem entry (h : V.WF P) (a : Agree V W) {p : Loc} : W.Entry p ↔ V.Entry p := by
  constructor
  · rintro ⟨d, q, hd, he⟩
    have hd := (a.isDir h).1 hd
    exact ⟨d, q, hd, (a.entryAt h hd).1 he⟩
  · rintro ⟨d, q, hd, he⟩
    exact ⟨d, q, (a.isDir h).2 hd, (a.entryAt h hd).2 he⟩

theorem entry_slot (h : V.WF P) (a : Agree V W) {p : Loc} (hp : V.Entry p) : W.slot p = V.slot p := by
  obtain ⟨d, q, hd, he⟩ := hp
  exact a.slot h hd he.mem

theorem entry_owned (h : V.WF P) (a : Agree V W) {p : Loc} (hp : V.Entry p) : W.owned p = V.owned p := by
  rw [Volume.owned, a.entry_slot h hp, a.owned hp]

theorem used (h : V.WF P) (a : Agree V W) {k : Nat} : W.Used k ↔ V.Used k := by
  constructor
  · rintro ⟨p, hp, hk⟩
    have hp := (a.entry h).1 hp
    exact ⟨p, hp, a.entry_owned h hp ▸ hk⟩
  · rintro ⟨p, hp, hk⟩
    exact ⟨p, (a.entry h).2 hp, (a.entry_owned h hp).symm ▸ hk⟩

/-- Changing unused clusters keeps a volume well-formed, when the clusters in use outside the tree
are all pending. -/
theorem wf (h : V.WF P) (a : Agree V W) (hP : ∀ k ∈ P', ¬ V.Used k)
    (noLost : ∀ k, V.InRange k → W.fat k ≠ clusterFree → W.fat k ≠ 0xFF7 → V.Used k ∨ k ∈ P') : W.WF P' := by
  refine h.of_change a.sizes none (fun d q hd => ?_) (fun p hp _ => ?_) (fun p hp => by cases hp)
    (fun k hk hu => hP k hk ((a.used h).1 hu)) fun k hk h1 h2 => ?_
  · have hd := (a.isDir h).1 hd
    exact h.dirOk_congr hd (a.locs h hd) fun p hp => a.slot h hd hp
  · have hp := (a.entry h).1 hp
    exact ⟨hp, a.entry_slot h hp, fun k hk => a.fat k ⟨p, hp, hk⟩⟩
  · rw [a.used h]
    exact noLost k hk h1 h2

end Agree

/-! ## A directory with one cluster more -/

/-- `W` is `V` with the blank pending cluster `z` linked behind the last cluster `x` of the full
directory `d`. -/
structure Grown (V W : Volume) (P : Set Nat) (d x z : Nat) : Prop where
  sizes : SameSizes V W
  root : W.root = V.root
  data : W.data = V.data
  ne : d ≠ 0
  last : ∃ l, V.Chain d (l ++ [x])
  link : W.fat x = z
  stop : clusterEoc ≤ W.fat z
  other : ∀ k, k ≠ x → k ≠ z → W.fat k = V.fat k
  range : V.InRange z
  fresh : z ∈ P
  blank : ∀ i < V.perCluster, (V.slot (z, i)).name.first = nameEnd
  full : ∀ p ∈ V.locs d, (V.slot p).name.first ≠ nameEnd

theorem not_live_of_end {e : RawDirEntry} (h : e.name.first = nameEnd) : ¬ e.Live :=
  fun hl => ((e.live_iff).1 hl).1 h

/-- A directory grown by slots never used stays tidy. -/
theorem Tidy.grow {d : Nat} {new : List Loc} (t : V.Tidy d) (hlocs : W.locs d = V.locs d ++ new)
    (hslot : ∀ p ∈ V.locs d, W.slot p = V.slot p)
    (hblank : ∀ p ∈ new, (W.slot p).name.first = nameEnd) : W.Tidy d := by
  constructor
  · rw [hlocs, List.pairwise_append]
    refine ⟨List.Pairwise.imp_of_mem (fun {a b} ha hb hab => ?_) t.unique,
      List.pairwise_of_forall_mem_list fun a ha b _ hla => ?_, fun a _ b hb _ hlb => ?_⟩
    · rw [hslot a ha, hslot b hb]
      exact hab
    · exact absurd hla (not_live_of_end (hblank a ha))
    · exact absurd hlb (not_live_of_end (hblank b hb))
  · rw [hlocs, List.pairwise_append]
    refine ⟨List.Pairwise.imp_of_mem (fun {a b} ha hb hab => ?_) t.zeros,
      List.pairwise_of_forall_mem_list fun _ _ b hb _ => hblank b hb, fun _ _ b hb _ => hblank b hb⟩
    rw [hslot a ha, hslot b hb]
    exact hab

namespace Grown

variable {d q x z : Nat}

theorem slot (g : Grown V W P d x z) (p : Loc) : W.slot p = V.slot p := by
  unfold Volume.slot
  rw [g.root, g.data]

theorem last_mem (h : V.WF P) (g : Grown V W P d x z) : x ∈ V.chain d := by
  obtain ⟨l, hl⟩ := g.last
  rw [hl.eq h.geom]; simp

theorem not_used (h : V.WF P) (g : Grown V W P d x z) : ¬ V.Used z := h.pending z g.fresh

theorem chain_self (h : V.WF P) (hd : V.IsDir d q) (g : Grown V W P d x z) : W.Chain d (V.chain d ++ [z]) := by
  obtain ⟨l, hl⟩ := g.last
  have he : V.chain d = l ++ [x] := hl.eq h.geom
  have hz : z ∉ l ++ [x] := fun hm => g.not_used h (h.dir_used hd g.ne (he ▸ hm))
  rw [he]
  refine hl.snoc g.sizes g.range hz g.link g.stop fun y hy => g.other y ?_ ?_
  · exact fun hyx => hl.last_notMem (hyx ▸ hy)
  · exact fun hyz => hz (hyz ▸ List.mem_append_left _ hy)

theorem chain_eq_self (h : V.WF P) (hd : V.IsDir d q) (g : Grown V W P d x z) : W.chain d = V.chain d ++ [z] :=
  (g.chain_self h hd).eq (g.sizes.geom h.geom)

/-- Only the entry of the grown directory owns a changed cluster. -/
theorem fat_owned (h : V.WF P) (g : Grown V W P d x z) {p₀ p : Loc} (hp₀ : V.Entry p₀)
    (hc : (V.slot p₀).cluster = d) (hp : V.Entry p) (hne : p ≠ p₀) : ∀ k ∈ V.owned p, W.fat k = V.fat k := by
  intro k hk
  refine g.other k (fun hkx => hne ?_) fun hkz => g.not_used h ⟨p, hp, hkz ▸ hk⟩
  refine h.entry_unique hp hp₀ hk ?_
  rw [owned, hc, hkx]
  exact g.last_mem h

theorem chain_other (h : V.WF P) (hd : V.IsDir d q) (g : Grown V W P d x z) {d' q' : Nat} (hd' : V.IsDir d' q')
    (hne : d' ≠ d) : W.chain d' = V.chain d' := by
  by_cases h0 : d' = 0
  · rw [h0, chain_zero, chain_zero]
  · obtain ⟨-, p₀, hp₀, -, -, hc⟩ := h.dir_chain hd g.ne
    obtain ⟨-, p, hp, -, -, rfl⟩ := h.dir_chain hd' h0
    exact chain_congr (g.fat_owned h hp₀ hc hp fun hpp => hne (by rw [hpp, hc]))

theorem locs_self (h : V.WF P) (hd : V.IsDir d q) (g : Grown V W P d x z) :
    W.locs d = V.locs d ++ (List.range V.perCluster).map (z, ·) := by
  unfold locs
  rw [if_neg g.ne, if_neg g.ne, g.chain_eq_self h hd, g.sizes.perCluster, List.flatMap_append]
  simp

theorem locs_other (h : V.WF P) (hd : V.IsDir d q) (g : Grown V W P d x z) {d' q' : Nat} (hd' : V.IsDir d' q')
    (hne : d' ≠ d) : W.locs d' = V.locs d' := by
  unfold locs
  rw [g.chain_other h hd hd' hne, g.sizes.perCluster, g.sizes.rootEntryCount]

theorem mem_locs_self (h : V.WF P) (hd : V.IsDir d q) (g : Grown V W P d x z) {p : Loc} :
    p ∈ W.locs d ↔ p ∈ V.locs d ∨ (p.1 = z ∧ p.2 < V.perCluster) := by
  rw [g.locs_self h hd, List.mem_append]
  obtain ⟨o, i⟩ := p
  simp only [List.mem_map, List.mem_range, Prod.mk.injEq]
  refine or_congr_right ⟨?_, ?_⟩
  · rintro ⟨j, hj, rfl, rfl⟩; exact ⟨rfl, hj⟩
  · rintro ⟨rfl, hi⟩; exact ⟨i, hi, rfl, rfl⟩

theorem entryAt (h : V.WF P) (hd : V.IsDir d q) (g : Grown V W P d x z) {d' q' : Nat} {p : Loc}
    (hd' : V.IsDir d' q') : W.EntryAt d' p ↔ V.EntryAt d' p := by
  by_cases hne : d' = d
  · subst hne
    constructor
    · rintro ⟨h1, h2, h3⟩
      rw [g.slot] at h3
      rcases (g.mem_locs_self h hd).1 h1 with h1 | ⟨h1, h4⟩
      · exact ⟨h1, h2, h3⟩
      · obtain ⟨o, i⟩ := p
        obtain rfl : o = z := h1
        exact absurd h3 (not_live_of_end (g.blank i h4))
    · rintro ⟨h1, h2, h3⟩
      exact ⟨(g.mem_locs_self h hd).2 (.inl h1), h2, by rw [g.slot]; exact h3⟩
  · exact EntryAt.congr (g.locs_other h hd hd' hne) (g.slot p)

theorem isDir (h : V.WF P) (hd : V.IsDir d q) (g : Grown V W P d x z) {d' q' : Nat} :
    W.IsDir d' q' ↔ V.IsDir d' q' := by
  constructor
  · intro hw
    have := IsDir.back (fun _ _ => False) (fun a b p ha he _ => .inl ⟨(g.entryAt h hd ha).1 he, g.slot p⟩)
      (fun _ _ _ hf => hf.elim) hw
    exact this.elim id False.elim
  · exact IsDir.mono fun a b p ha he _ => ⟨(g.entryAt h hd ha).2 he, g.slot p⟩

theorem entry (h : V.WF P) (hd : V.IsDir d q) (g : Grown V W P d x z) {p : Loc} : W.Entry p ↔ V.Entry p := by
  constructor
  · rintro ⟨a, b, ha, he⟩
    have ha := (g.isDir h hd).1 ha
    exact ⟨a, b, ha, (g.entryAt h hd ha).1 he⟩
  · rintro ⟨a, b, ha, he⟩
    exact ⟨a, b, (g.isDir h hd).2 ha, (g.entryAt h hd ha).2 he⟩

/-- The slots of the grown directory: the old ones, and unused ones. -/
theorem slots_self (h : V.WF P) (hd : V.IsDir d q) (g : Grown V W P d x z) :
    W.slots d = V.slots d ++ (List.range V.perCluster).map fun i => V.slot (z, i) := by
  unfold slots
  rw [g.locs_self h hd, List.map_append, List.map_map]
  congr 1
  · exact List.map_congr_left fun p _ => g.slot p
  · exact List.map_congr_left fun i _ => g.slot (z, i)

theorem slots_other (h : V.WF P) (hd : V.IsDir d q) (g : Grown V W P d x z) {d' q' : Nat} (hd' : V.IsDir d' q')
    (hne : d' ≠ d) : W.slots d' = V.slots d' := by
  unfold slots
  rw [g.locs_other h hd hd' hne]
  exact List.map_congr_left fun p _ => g.slot p

theorem dirOk (h : V.WF P) (hd : V.IsDir d q) (g : Grown V W P d x z) : W.DirOk d q := by
  obtain ⟨h1, h2, h3, h4⟩ := h.dirOk d q hd
  have hblank : ∀ p ∈ (List.range V.perCluster).map (z, ·), (V.slot p).name.first = nameEnd := fun p hp => by
    obtain ⟨i, hi, rfl⟩ := List.mem_map.1 hp
    exact g.blank i (List.mem_range.1 hi)
  have ht := (h.tidy hd).grow (g.locs_self h hd) (fun p _ => g.slot p) fun p hp => by rw [g.slot]; exact hblank p hp
  refine ⟨fun p hp hl => ?_, fun h0 => (h2 h0).congr (g.slot _) (g.slot _), ht.unique, ht.zeros⟩
  rw [g.slot] at hl ⊢
  rw [g.locs_self h hd] at hp
  rcases List.mem_append.1 hp with hp | hp
  · exact h1 p hp hl
  · exact absurd hl (not_live_of_end (hblank p hp))

/-- Growing a directory keeps the volume well-formed; the new cluster is pending no longer. -/
theorem wf (h : V.WF P) (hd : V.IsDir d q) (g : Grown V W P d x z) : W.WF (P \ {z}) := by
  obtain ⟨-, p₀, hp₀, -, hi₀, hc⟩ := h.dir_chain hd g.ne
  have hs₀ : W.owned p₀ = V.owned p₀ ++ [z] := by rw [owned, g.slot, hc, g.chain_eq_self h hd, owned, hc]
  have hused : ∀ k, V.Used k → W.Used k := fun k hk => by
    obtain ⟨p, hp, hk⟩ := hk
    refine ⟨p, (g.entry h hd).2 hp, ?_⟩
    by_cases hpp : p = p₀
    · rw [hpp, hs₀]; rw [hpp] at hk; simp [hk]
    · rw [owned, g.slot, chain_congr (g.fat_owned h hp₀ hc hp hpp)]; exact hk
  refine h.of_change g.sizes (some p₀) (fun a b ha => ?_) (fun p hp hne => ?_) (fun p hp hw => ?_) (fun k hk => ?_)
    fun k hk h1 h2 => ?_
  · have ha := (g.isDir h hd).1 ha
    by_cases hne : a = d
    · rw [hne] at ha ⊢
      rw [h.parent_unique ha hd]; exact g.dirOk h hd
    · exact h.dirOk_congr ha (g.locs_other h hd ha hne) fun p _ => g.slot p
  · have hp := (g.entry h hd).1 hp
    exact ⟨hp, g.slot p, g.fat_owned h hp₀ hc hp fun hpp => hne (congrArg some hpp)⟩
  · obtain rfl : p = p₀ := Option.some.inj hp
    rw [g.slot, hi₀, hc, hs₀]
    refine ⟨fun hf => (nomatch hf), fun _ => ⟨_, g.chain_self h hd⟩, fun p' hp' hne k hk hk' => ?_⟩
    have hp' := (g.entry h hd).1 hp'
    rcases List.mem_append.1 hk' with hk' | hk'
    · exact h.disjoint p' p hp' hp₀ hne hk hk'
    · rw [List.mem_singleton.1 hk'] at hk
      exact g.not_used h ⟨p', hp', hk⟩
  · rintro ⟨p, hp, hk'⟩
    have hp := (g.entry h hd).1 hp
    have hku := h.pending k hk.1
    by_cases hpp : p = p₀
    · rw [hpp, hs₀] at hk'
      rcases List.mem_append.1 hk' with hk' | hk'
      · exact hku ⟨p₀, hp₀, hk'⟩
      · exact hk.2 (List.mem_singleton.1 hk')
    · rw [owned, g.slot, chain_congr (g.fat_owned h hp₀ hc hp hpp)] at hk'
      exact hku ⟨p, hp, hk'⟩
  · by_cases hkz : k = z
    · exact .inl ⟨p₀, (g.entry h hd).2 hp₀, by rw [hs₀, hkz]; simp⟩
    · by_cases hkx : k = x
      · exact .inl (hused k (h.dir_used hd g.ne (hkx ▸ g.last_mem h)))
      · rw [g.other k hkx hkz] at h1 h2
        rcases h.noLost k hk h1 h2 with hu | hu
        · exact .inl (hused k hu)
        · exact .inr ⟨hu, hkz⟩

end Grown

/-! ## A slot overwritten -/

/-- `V` with the slot `p` overwritten. -/
def putSlot (V : Volume) (p : Loc) (e : RawDirEntry) : Volume :=
  if p.1 = 0 then { V with root := Function.update V.root p.2 e }
  else { V with data := Function.update V.data p.1 ((V.data p.1).blit (dirEntrySize * p.2) e.bytes dirEntrySize) }

theorem putSlot_sizes (V : Volume) (p : Loc) (e : RawDirEntry) : SameSizes V (V.putSlot p e) := by
  unfold putSlot
  split <;> exact ⟨rfl, rfl, rfl, rfl⟩

@[simp] theorem putSlot_fat (V : Volume) (p : Loc) (e : RawDirEntry) : (V.putSlot p e).fat = V.fat := by
  unfold putSlot
  split <;> rfl

@[simp] theorem putSlot_chain (V : Volume) (p : Loc) (e : RawDirEntry) (k : Nat) :
    (V.putSlot p e).chain k = V.chain k := by
  unfold chain; rw [putSlot_fat]

@[simp] theorem putSlot_locs (V : Volume) (p : Loc) (e : RawDirEntry) (d : Nat) :
    (V.putSlot p e).locs d = V.locs d := by
  unfold locs
  rw [putSlot_chain, (putSlot_sizes V p e).perCluster, (putSlot_sizes V p e).rootEntryCount]

theorem putSlot_data_ne (V : Volume) {p : Loc} (e : RawDirEntry) {k : Nat} (h : k ≠ p.1) :
    (V.putSlot p e).data k = V.data k := by
  unfold putSlot
  split
  · rfl
  · exact Function.update_of_ne h ..

@[simp] theorem putSlot_slot_self (V : Volume) (p : Loc) (e : RawDirEntry) : (V.putSlot p e).slot p = e := by
  unfold slot putSlot
  split
  · exact Function.update_self ..
  · simp only [Function.update_self]
    exact decodeEntry_bytes fun k hk => Buf.blit_in hk

theorem putSlot_slot_ne (V : Volume) {p p' : Loc} (e : RawDirEntry) (h : p' ≠ p) :
    (V.putSlot p e).slot p' = V.slot p' := by
  obtain ⟨o, i⟩ := p
  obtain ⟨o', i'⟩ := p'
  unfold slot putSlot
  by_cases ho' : o' = 0
  · rw [if_pos ho', if_pos ho']
    by_cases ho : o = 0
    · rw [if_pos ho]
      exact Function.update_of_ne (fun hi => h (by rw [ho', ho, show i' = i from hi])) ..
    · rw [if_neg ho]
  · rw [if_neg ho', if_neg ho']
    by_cases ho : o = 0
    · rw [if_pos ho]
    · rw [if_neg ho]
      by_cases hoo : o' = o
      · have hi : i' ≠ i := fun hi => h (by rw [hoo, hi])
        subst hoo
        simp only [Function.update_self]
        refine decodeEntry_congr fun k hk => Buf.blit_out ?_
        unfold dirEntrySize
        omega
      · simp only [Function.update_of_ne hoo]

/-- Overwriting a slot keeps a directory tidy, when no slot never used is left before it and no other slot
has the name. -/
theorem Tidy.putSlot {d : Nat} {p : Loc} {e : RawDirEntry} (t : V.Tidy d) (hnd : (V.locs d).Nodup)
    (hfirst : e.name.first ≠ nameEnd)
    (hbefore : (V.locs d).Pairwise fun a b => b = p → (V.slot a).name.first ≠ nameEnd)
    (hname : e.Live → ∀ p' ∈ V.locs d, p' ≠ p → (V.slot p').Live → (V.slot p').name ≠ e.name) :
    (V.putSlot p e).Tidy d := by
  constructor
  · rw [putSlot_locs]
    refine List.Pairwise.imp_of_mem (fun {a b} ha hb hab hla hlb => ?_) (t.unique.and hnd)
    by_cases hap : a = p
    · have hbp : b ≠ p := fun hbp => hab.2 (hap.trans hbp.symm)
      rw [hap, putSlot_slot_self] at hla ⊢
      rw [putSlot_slot_ne V e hbp] at hlb ⊢
      exact (hname hla b hb hbp hlb).symm
    · rw [putSlot_slot_ne V e hap] at hla ⊢
      by_cases hbp : b = p
      · rw [hbp, putSlot_slot_self] at hlb ⊢
        exact hname hlb a ha hap hla
      · rw [putSlot_slot_ne V e hbp] at hlb ⊢
        exact hab.1 hla hlb
  · rw [putSlot_locs]
    refine List.Pairwise.imp_of_mem (fun {a b} _ _ hab ha0 => ?_) (t.zeros.and hbefore)
    by_cases hap : a = p
    · rw [hap, putSlot_slot_self] at ha0
      exact absurd ha0 hfirst
    · rw [putSlot_slot_ne V e hap] at ha0
      have hbp : b ≠ p := fun hbp => hab.2 hbp ha0
      rw [putSlot_slot_ne V e hbp]
      exact hab.1 ha0

/-- A new directory as `fat12_create_directory` lays it out: one cluster with its dot slots and
nothing behind them. -/
structure Fresh (V : Volume) (k parent : Nat) : Prop where
  range : V.InRange k
  stop : clusterEoc ≤ V.fat k
  dots : V.Dots k parent
  label : ∀ i < 2, (V.slot (k, i)).attr &&& attrVolumeId = 0
  blank : ∀ i < V.perCluster, 2 ≤ i → (V.slot (k, i)).name.first = nameEnd

/-- What it takes to overwrite the slot `p` of the directory `d` by `e`: no subdirectory is
overwritten, and what `e` names is new and pending. -/
structure Put (V : Volume) (P : Set Nat) (d : Nat) (p : Loc) (e : RawDirEntry) : Prop where
  mem : p ∈ V.locs d
  notDot : ¬ DotLoc d p
  old : (V.slot p).Live → (V.slot p).isDirectory = false
  first : e.name.first ≠ nameEnd
  before : (V.locs d).Pairwise fun a b => b = p → (V.slot a).name.first ≠ nameEnd
  name : e.Live → ∀ p' ∈ V.locs d, p' ≠ p → (V.slot p').Live → (V.slot p').name ≠ e.name
  label : e.Live → e.attr &&& attrVolumeId = 0
  file : e.Live → e.isDirectory = false → V.FileChain e
  dir : e.Live → e.isDirectory = true → V.Fresh e.cluster d
  pending : e.Live → ∀ k ∈ V.chain e.cluster, k ∈ P

/-- A chain of one cluster. -/
theorem Chain.single {k : Nat} (hr : V.InRange k) (hs : clusterEoc ≤ V.fat k) : V.Chain k [k] :=
  ⟨by simp, by simp, fun x hx => by rw [List.mem_singleton.1 hx]; exact hr, V.fat k, ⟨rfl, rfl⟩, hs⟩

theorem Fresh.chain {k parent : Nat} (f : V.Fresh k parent) : V.Chain k [k] := .single f.range f.stop

namespace Put

variable {d q : Nat} {p : Loc} {e : RawDirEntry}

/-- The pending clusters afterwards: without those `e` owns, with those of the old entry. -/
def rest (V : Volume) (P : Set Nat) (p : Loc) (e : RawDirEntry) : Set Nat :=
  {k | (k ∈ P ∧ (e.Live → k ∉ V.chain e.cluster)) ∨ ((V.slot p).Live ∧ k ∈ V.owned p)}

theorem entryAt_ne (p' : Loc) {d' : Nat} (hne : p' ≠ p) : (V.putSlot p e).EntryAt d' p' ↔ V.EntryAt d' p' :=
  EntryAt.congr (putSlot_locs V p e d') (putSlot_slot_ne V e hne)

/-- An entry that was there and is not the slot overwritten. -/
theorem ne_of_dir (u : V.Put P d p e) {p' : Loc} {d' : Nat} (he : V.EntryAt d' p')
    (hi : (V.slot p').isDirectory = true) : p' ≠ p := by
  rintro rfl
  rw [u.old he.live] at hi
  cases hi

/-- The new directory, if `e` is one. -/
def New (d : Nat) (e : RawDirEntry) (d' q' : Nat) : Prop := e.Live ∧ e.isDirectory = true ∧ d' = e.cluster ∧ q' = d

theorem new_pending (h : V.WF P) (u : V.Put P d p e) {d' q' : Nat} (hn : New d e d' q') :
    V.Fresh d' d ∧ d' ∈ P := by
  obtain ⟨hl, hi, rfl, rfl⟩ := hn
  have hf := u.dir hl hi
  exact ⟨hf, u.pending hl _ (by rw [hf.chain.eq h.geom]; simp)⟩

/-- The slots of the new directory are not the one overwritten. -/
theorem new_slot (h : V.WF P) (hd : V.IsDir d q) (u : V.Put P d p e) {d' q' i : Nat} (hn : New d e d' q') :
    (V.putSlot p e).slot (d', i) = V.slot (d', i) := by
  refine putSlot_slot_ne V e fun hp => ?_
  obtain ⟨hf, hP⟩ := u.new_pending h hn
  rcases h.loc_owner hd u.mem with ⟨-, h1, -⟩ | ⟨h0, h1, -⟩
  · have := hf.range.1
    rw [← hp] at h1
    have h1 : d' = 0 := h1
    omega
  · rw [← hp] at h1
    exact h.pending d' hP (h.dir_used hd h0 h1)

theorem new_locs (h : V.WF P) (u : V.Put P d p e) {d' q' : Nat} (hn : New d e d' q') :
    V.locs d' = (List.range V.perCluster).map (d', ·) := by
  obtain ⟨hf, -⟩ := u.new_pending h hn
  have := hf.range.1
  rw [locs, if_neg (by omega), hf.chain.eq h.geom]
  simp

theorem new_leaf (h : V.WF P) (hd : V.IsDir d q) (u : V.Put P d p e) {d' q' : Nat} {p' : Loc} (hn : New d e d' q') :
    ¬ (V.putSlot p e).EntryAt d' p' := by
  intro he
  obtain ⟨hf, -⟩ := u.new_pending h hn
  have hm := he.mem
  rw [putSlot_locs, u.new_locs h hn] at hm
  obtain ⟨i, hi, rfl⟩ := List.mem_map.1 hm
  have hi2 : 2 ≤ i := by
    by_contra hlt
    exact he.notDot ⟨by have := hf.range.1; omega, rfl, by omega⟩
  have hl := he.live
  rw [u.new_slot h hd hn] at hl
  exact not_live_of_end (hf.blank i (List.mem_range.1 hi) hi2) hl

theorem isDir_mono (u : V.Put P d p e) {d' q' : Nat} (h' : V.IsDir d' q') : (V.putSlot p e).IsDir d' q' :=
  IsDir.mono (fun _ _ p' _ he hi => by
    have hne := u.ne_of_dir he hi
    exact ⟨(entryAt_ne p' hne).2 he, putSlot_slot_ne V e hne⟩) h'

theorem entryAt_self (h : V.WF P) (hd : V.IsDir d q) (u : V.Put P d p e) {d' q' : Nat} (hd' : V.IsDir d' q') :
    (V.putSlot p e).EntryAt d' p ↔ d' = d ∧ e.Live := by
  constructor
  · rintro ⟨h1, -, h3⟩
    rw [putSlot_locs] at h1
    rw [putSlot_slot_self] at h3
    exact ⟨h.loc_unique hd' hd h1 u.mem, h3⟩
  · rintro ⟨rfl, h3⟩
    exact ⟨by rw [putSlot_locs]; exact u.mem, u.notDot, by rw [putSlot_slot_self]; exact h3⟩

theorem isDir_back (h : V.WF P) (hd : V.IsDir d q) (u : V.Put P d p e) {d' q' : Nat}
    (hw : (V.putSlot p e).IsDir d' q') : V.IsDir d' q' ∨ New d e d' q' := by
  refine IsDir.back (New d e) (fun a b p' ha he hi => ?_) (fun _ _ _ hn => u.new_leaf h hd hn) hw
  by_cases hne : p' = p
  · subst hne
    obtain ⟨rfl, hl⟩ := (u.entryAt_self h hd ha).1 he
    rw [putSlot_slot_self] at hi ⊢
    exact .inr ⟨hl, hi, rfl, rfl⟩
  · exact .inl ⟨(entryAt_ne p' hne).1 he, putSlot_slot_ne V e hne⟩

/-- The entries afterwards: the old ones but for the slot overwritten, and that slot if it is live. -/
theorem entry (h : V.WF P) (hd : V.IsDir d q) (u : V.Put P d p e) (p' : Loc) :
    (V.putSlot p e).Entry p' ↔ (p' ≠ p ∧ V.Entry p') ∨ (p' = p ∧ e.Live) := by
  constructor
  · rintro ⟨a, b, ha, he⟩
    rcases u.isDir_back h hd ha with hv | hn
    · by_cases hne : p' = p
      · rw [hne] at he ⊢
        exact .inr ⟨rfl, ((u.entryAt_self h hd hv).1 he).2⟩
      · exact .inl ⟨hne, a, b, hv, (entryAt_ne p' hne).1 he⟩
    · exact absurd he (u.new_leaf h hd hn)
  · rintro (⟨hne, a, b, ha, he⟩ | ⟨rfl, hl⟩)
    · exact ⟨a, b, u.isDir_mono ha, (entryAt_ne p' hne).2 he⟩
    · exact ⟨d, q, u.isDir_mono hd, (u.entryAt_self h hd hd).2 ⟨rfl, hl⟩⟩

theorem owned_ne {p' : Loc} (hne : p' ≠ p) : (V.putSlot p e).owned p' = V.owned p' := by
  rw [owned, putSlot_slot_ne V e hne, putSlot_chain, owned]

theorem owned_self : (V.putSlot p e).owned p = V.chain e.cluster := by
  rw [owned, putSlot_slot_self, putSlot_chain]

theorem dirOk_self (h : V.WF P) (hd : V.IsDir d q) (u : V.Put P d p e) : (V.putSlot p e).DirOk d q := by
  obtain ⟨h1, h2, h3, h4⟩ := h.dirOk d q hd
  have hdot : ∀ i < 2, d ≠ 0 → (V.putSlot p e).slot (d, i) = V.slot (d, i) := fun i hi h0 =>
    putSlot_slot_ne V e fun hp => u.notDot ⟨h0, by rw [← hp], by rw [← hp]; exact hi⟩
  have ht := (h.tidy hd).putSlot (h.nodup_locs hd) u.first u.before u.name
  refine ⟨fun p' hp hl => ?_, fun h0 => (h2 h0).congr (hdot 0 (by omega) h0) (hdot 1 (by omega) h0),
    ht.unique, ht.zeros⟩
  rw [putSlot_locs] at hp
  by_cases hne : p' = p
  · subst hne
    rw [putSlot_slot_self] at hl ⊢
    exact u.label hl
  · rw [putSlot_slot_ne V e hne] at hl ⊢
    exact h1 p' hp hl

theorem dirOk_new (h : V.WF P) (hd : V.IsDir d q) (u : V.Put P d p e) {d' q' : Nat} (hn : New d e d' q') :
    (V.putSlot p e).DirOk d' q' := by
  obtain ⟨hf, -⟩ := u.new_pending h hn
  have hq : q' = d := hn.2.2.2
  have hslot : ∀ i, (V.putSlot p e).slot (d', i) = V.slot (d', i) := fun i => u.new_slot h hd hn
  have hlive : ∀ i < V.perCluster, (V.slot (d', i)).Live → i = 0 ∨ i = 1 := fun i hi hl => by
    by_contra hc
    exact not_live_of_end (hf.blank i hi (by omega)) hl
  have hnames : (V.slot (d', 0)).name ≠ (V.slot (d', 1)).name := by
    rw [hf.dots.dotName, hf.dots.dotDotName]; decide
  have hdot : ∀ i < 2, (V.slot (d', i)).name.first = dot := fun i hi => by
    rcases (by omega : i = 0 ∨ i = 1) with rfl | rfl
    · rw [hf.dots.dotName]; rfl
    · rw [hf.dots.dotDotName]; rfl
  refine ⟨fun p' hp hl => ?_, fun _ => by rw [hq]; exact hf.dots.congr (hslot 0) (hslot 1), ?_, ?_⟩
  · rw [putSlot_locs, u.new_locs h hn] at hp
    obtain ⟨i, hi, rfl⟩ := List.mem_map.1 hp
    rw [hslot] at hl ⊢
    rcases hlive i (List.mem_range.1 hi) hl with rfl | rfl
    · exact hf.label 0 (by omega)
    · exact hf.label 1 (by omega)
  · rw [putSlot_locs, u.new_locs h hn, List.pairwise_map]
    refine List.Pairwise.imp_of_mem (fun {i j} hi hj hij hli hlj => ?_) List.pairwise_lt_range
    rw [hslot] at hli ⊢
    rw [hslot] at hlj ⊢
    have h1 := hlive i (List.mem_range.1 hi) hli
    have h2 := hlive j (List.mem_range.1 hj) hlj
    obtain ⟨rfl, rfl⟩ : i = 0 ∧ j = 1 := by omega
    exact hnames
  · rw [putSlot_locs, u.new_locs h hn, List.pairwise_map]
    refine List.Pairwise.imp_of_mem (fun {i j} hi hj hij h0 => ?_) List.pairwise_lt_range
    rw [hslot] at h0 ⊢
    by_cases hi2 : i < 2
    · rw [hdot i hi2] at h0; cases h0
    · exact hf.blank j (List.mem_range.1 hj) (by omega)

/-- Overwriting a slot keeps the volume well-formed. -/
theorem wf (h : V.WF P) (hd : V.IsDir d q) (u : V.Put P d p e) : (V.putSlot p e).WF (rest V P p e) := by
  have hentry := u.entry h hd
  -- the directories, the other entries, the slot itself, the pending clusters, the lost ones
  refine h.of_change (putSlot_sizes V p e) (some p) (fun a b ha => ?_) (fun p' hp hne => ?_) (fun p' hpp hp => ?_)
    (fun k hk => ?_) fun k hk h1 h2 => ?_
  · rcases u.isDir_back h hd ha with ha | hn
    · by_cases hne : a = d
      · rw [hne] at ha ⊢
        rw [h.parent_unique ha hd]; exact u.dirOk_self h hd
      · exact h.dirOk_congr ha (putSlot_locs V p e a) fun p' hp => putSlot_slot_ne V e fun hpp =>
          hne (h.loc_unique ha hd hp (hpp ▸ u.mem))
    · exact u.dirOk_new h hd hn
  · have hne : p' ≠ p := fun hpp => hne (congrArg some hpp)
    have hp : V.Entry p' := by
      rcases (hentry p').1 hp with h1 | h1
      · exact h1.2
      · exact absurd h1.1 hne
    exact ⟨hp, putSlot_slot_ne V e hne, fun k _ => by rw [putSlot_fat]⟩
  · obtain rfl : p' = p := Option.some.inj hpp
    have hl : e.Live := by
      rcases (hentry p').1 hp with h1 | h1
      · exact absurd rfl h1.1
      · exact h1.2
    rw [putSlot_slot_self]
    refine ⟨fun hi => ?_, fun hi => ?_, fun p'' hp'' hne k hk hk' => ?_⟩
    · rcases u.file hl hi with hc | ⟨l, hc, hn⟩
      · exact .inl hc
      · exact .inr ⟨l, (putSlot_sizes V p' e).chain hc fun _ _ => by rw [putSlot_fat], by
          rw [hn, (putSlot_sizes V p' e).clustersFor]⟩
    · exact ⟨_, (putSlot_sizes V p' e).chain (u.dir hl hi).chain fun _ _ => by rw [putSlot_fat]⟩
    · rw [owned_self] at hk'
      rcases (hentry p'').1 hp'' with h1 | h1
      · exact h.pending k (u.pending hl k hk') ⟨p'', h1.2, hk⟩
      · exact hne h1.1
  · rintro ⟨p', hp, hk'⟩
    rcases (hentry p').1 hp with ⟨hne, hp⟩ | ⟨rfl, hl⟩
    · rw [owned_ne hne] at hk'
      rcases hk with ⟨hk, -⟩ | ⟨hl, hk⟩
      · exact h.pending k hk ⟨p', hp, hk'⟩
      · exact hne (h.entry_unique hp ⟨d, q, hd, u.mem, u.notDot, hl⟩ hk' hk)
    · rw [owned_self] at hk'
      rcases hk with ⟨-, hk⟩ | ⟨hl', hk⟩
      · exact hk hl hk'
      · exact h.pending k (u.pending hl k hk') ⟨p', ⟨d, q, hd, u.mem, u.notDot, hl'⟩, hk⟩
  · rw [putSlot_fat] at h1 h2
    rcases h.noLost k hk h1 h2 with ⟨p', hp, hk'⟩ | hkP
    · by_cases hne : p' = p
      · obtain ⟨a, b, ha, he⟩ := hp
        exact .inr (.inr ⟨by rw [← hne]; exact he.live, by rw [← hne]; exact hk'⟩)
      · exact .inl ⟨p', (hentry p').2 (.inl ⟨hne, hp⟩), by rw [owned_ne hne]; exact hk'⟩
    · by_cases hl : e.Live ∧ k ∈ V.chain e.cluster
      · exact .inl ⟨p, (hentry p).2 (.inr ⟨rfl, hl.1⟩), by rw [owned_self]; exact hl.2⟩
      · exact .inr (.inl ⟨hkP, fun hl' hk' => hl ⟨hl', hk'⟩⟩)

end Put

end Volume

end AltoniumOS.Fat12

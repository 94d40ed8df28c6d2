/-
Calls that return. A FAT is acyclic when no chain of it is a loop. Every call of `fat12.c` on an acyclic FAT
returns, whatever the disk does and whatever the directories hold, and leaves the FAT acyclic: searches
follow its links, and a file being written takes free clusters, of which there are fewer each time.
-/
import AltoniumOS.Refine.Chains
import AltoniumOS.System.Calls

namespace AltoniumOS.Fat12

open AltoniumOS.Lib

/-- No chain of the FAT is a loop. -/
def Core.Acyclic (c : Core) : Prop := ∀ k, LeadsOut (getFatEntry c) inChain k

section

variable {c : Core} {k v x z : Nat}

theorem inChain_eoc : inChain clusterEoc = false := rfl

theorem inChain_free : inChain clusterFree = false := rfl

theorem Core.Acyclic.congr {c' : Core} (h : c.Acyclic) (hfs : c'.fs = c.fs)
    (hfat : c'.fatPrimary = c.fatPrimary) : c'.Acyclic := by
  have he : getFatEntry c' = getFatEntry c := by
    funext k
    unfold getFatEntry
    rw [hfs, hfat]
  exact fun k => he ▸ h k

/-! ## Entries set -/

/-- An entry set to a number from where the links lead out. -/
theorem Core.Acyclic.setFat (h : c.Acyclic) (hv : LeadsOut (getFatEntry (c.setFat k v)) inChain (v % 4096)) :
    (c.setFat k v).Acyclic := by
  by_cases hk : k + k / 2 + 1 < c.fs.fatSizeBytes
  · have he : getFatEntry (c.setFat k v) = Function.update (getFatEntry c) k (v % 4096) := by
      funext x
      by_cases hx : x = k
      · rw [hx, getFatEntry_setFat_self hk, Function.update_self]
      · rw [getFatEntry_setFat_ne hx, Function.update_of_ne hx]
    rw [he] at hv
    rw [Core.Acyclic, he]
    exact fun x => LeadsOut.update hv (h x)
  · -- outside the FAT nothing is set
    have he : getFatEntry (c.setFat k v) = getFatEntry c := by
      funext x
      by_cases hx : x = k
      · rw [hx, getFatEntry_outside (c := c.setFat k v) (Nat.le_of_not_lt hk),
          getFatEntry_outside (Nat.le_of_not_lt hk)]
      · rw [getFatEntry_setFat_ne hx]
    exact fun x => he ▸ h x

theorem Core.Acyclic.free (h : c.Acyclic) (k : Nat) : (c.setFat k clusterFree).Acyclic :=
  h.setFat (.dead inChain_free)

theorem Core.Acyclic.mark (h : c.Acyclic) (k : Nat) : (c.setFat k clusterEoc).Acyclic :=
  h.setFat (.dead inChain_eoc)

/-- A cluster linked behind another, and marked as the last one then. -/
theorem Core.Acyclic.append (h : c.Acyclic) (hz : z < 4096) : ((c.setFat x z).setFat z clusterEoc).Acyclic := by
  by_cases hxz : x = z
  · subst hxz
    refine fun k => ?_
    have he : getFatEntry ((c.setFat x x).setFat x clusterEoc) = getFatEntry (c.setFat x clusterEoc) := by
      funext y
      by_cases hy : y = x
      · rw [hy, getFatEntry_setFat_eoc, getFatEntry_setFat_eoc]
      · rw [getFatEntry_setFat_ne hy, getFatEntry_setFat_ne hy, getFatEntry_setFat_ne hy]
    rw [he]
    exact h.mark x k
  · rw [setFat_comm c z clusterEoc hxz]
    refine (h.mark z).setFat (LeadsOut.of_next ?_)
    rw [Nat.mod_eq_of_lt hz, getFatEntry_setFat_ne (Ne.symm hxz), getFatEntry_setFat_eoc]
    exact .dead inChain_eoc

theorem freeClusters_setFat (hv : v % 4096 ≠ clusterFree) :
    (c.setFat k v).volume.freeClusters ⊆ c.volume.freeClusters := by
  intro x hx
  obtain ⟨hr, hf⟩ := mem_freeClusters.1 hx
  refine mem_freeClusters.2 ⟨hr, ?_⟩
  have hf : getFatEntry (c.setFat k v) x = clusterFree := hf
  by_cases hxk : x = k
  · rw [hxk] at hr hf
    have hin : k + k / 2 + 1 < c.fs.fatSizeBytes := hr.2.2
    rw [getFatEntry_setFat_self hin] at hf
    exact absurd hf hv
  · rwa [getFatEntry_setFat_ne hxk] at hf

theorem freeClusters_mark (hk : k ∈ c.volume.freeClusters) :
    (c.setFat k clusterEoc).volume.freeClusters.card < c.volume.freeClusters.card := by
  refine Finset.card_lt_card
    ((Finset.ssubset_iff_of_subset (freeClusters_setFat (by decide))).2 ⟨k, hk, fun hm => ?_⟩)
  have hf : getFatEntry (c.setFat k clusterEoc) k = clusterFree := (mem_freeClusters.1 hm).2
  rw [getFatEntry_setFat_eoc] at hf
  cases hf

end

/-! ## Calls that only read -/

/-- From the core `c`, `m` returns and leaves it alone. -/
abbrev Visits {α : Type} (c : Core) (m : M α) : Prop :=
  Arrives (fun s : State => s.toCore = c) (fun _ s => s.toCore = c) m

section

variable {α β ι : Type} {c : Core} {fuel : Nat}

theorem arrives_core {Q : α → State → Prop} {k : Core → M α} (h : Arrives (fun s : State => s.toCore = c) Q (k c)) :
    Arrives (fun s : State => s.toCore = c) Q (getCore >>= k) := by
  intro s hs
  obtain ⟨a, s', h1, h2⟩ := h s hs
  exact ⟨a, s', by rw [bind_ok (show getCore s = .ok c s by rw [← hs]; rfl)]; exact h1, h2⟩

theorem visits_readCluster (hm : c.fs.Accepted) (k : Nat) : Visits c (readCluster k) := by
  intro s hs
  obtain ⟨b, h1, -⟩ := readCluster_run k s (hs ▸ hm.spc_ne)
  exact ⟨_, _, h1, hs⟩

/-- A loop whose rounds read along the links of an acyclic FAT. -/
theorem visits_walk {body : ι → M (ι ⊕ β)} (cluster : ι → Nat) (hf : 4096 ≤ fuel) (hc : c.Acyclic)
    (h : ∀ i, Arrives (fun s : State => s.toCore = c) (fun r s => s.toCore = c ∧
      ∀ i', r = .inl i' → inChain (cluster i) = true ∧ cluster i' = getFatEntry c (cluster i)) (body i)) (i : ι) :
    Visits c (loop body fuel i) := by
  have hlive : ∀ k, inChain k = true → k < clusterEoc := fun k hk => by
    unfold inChain at hk
    rw [Bool.and_eq_true, decide_eq_true_eq, decide_eq_true_eq] at hk
    exact hk.2
  have heoc : clusterEoc = 4088 := rfl
  obtain ⟨n, hn, hend⟩ := (hc (cluster i)).within hlive
  refine (Arrives.loop (L := fun n i s => s.toCore = c ∧ inChain ((getFatEntry c)^[n] (cluster i)) = false)
    (fun n i => ?_) (show n < fuel by omega)).pre fun s hs => ⟨hs, hend⟩
  refine Arrives.of_and fun hend => (h i).post fun r s ⟨hs, hr⟩ => ?_
  cases r with
  | inr b => exact hs
  | inl i' =>
    obtain ⟨hin, hi'⟩ := hr i' rfl
    cases n with
    | zero =>
      rw [show inChain (cluster i) = false from hend] at hin
      cases hin
    | succ n => exact ⟨n, Nat.lt_succ_self n, hs, by rw [hi']; exact hend⟩

/-! ## Searches and walks -/

section

variable (hm : c.fs.Accepted) (hc : c.Acyclic) (hf : 4096 ≤ fuel)

include hm hc hf

theorem visits_findEntry (d : Nat) (n : ShortName) : Visits c (findEntry fuel d n) := by
  unfold findEntry
  refine arrives_core ?_
  split
  · split <;> exact .pure fun _ h => h
  · refine visits_walk id hf hc (fun k => ?_) d
    rw [findRound]
    split
    · rename_i hin
      refine (visits_readCluster hm k).bind fun r => ?_
      dsimp only
      split
      · refine arrives_core ?_
        split
        · exact .pure fun s hs => ⟨hs, fun _ he => by cases he⟩
        · exact .pure fun s hs => ⟨hs, fun _ he => by cases he⟩
        · exact .pure fun s hs => ⟨hs, fun i' he => by cases he; exact ⟨hin, rfl⟩⟩
      · exact .pure fun s hs => ⟨hs, fun _ he => by cases he⟩
    · exact .pure fun s hs => ⟨hs, fun _ he => by cases he⟩

theorem visits_locateLoop :
    ∀ (cs : List (List UInt8)) (cluster : Nat) (stack : List Nat), Visits c (locateLoop fuel cluster stack cs)
  | [], _, _ => .pure fun _ h => h
  | component :: rest, cluster, stack => by
    rw [locateLoop]
    split
    · exact visits_locateLoop rest _ _
    · split
      · exact visits_locateLoop rest _ _
      · split
        · exact .pure fun _ h => h
        · refine (visits_findEntry hm hc hf _ _).bind fun r => ?_
          split
          · exact .pure fun _ h => h
          · split
            · exact .pure fun _ h => h
            · exact visits_locateLoop rest _ _

theorem visits_changeLoop :
    ∀ (cs : List (List UInt8)) (cluster : Nat) (stack : PathStack), Visits c (changeLoop fuel cluster stack cs)
  | [], _, _ => .pure fun _ h => h
  | component :: rest, cluster, stack => by
    rw [changeLoop]
    split
    · exact visits_changeLoop rest _ _
    · split
      · exact visits_changeLoop rest _ _
      · split
        · exact .pure fun _ h => h
        · refine (visits_findEntry hm hc hf _ _).bind fun r => ?_
          split
          · exact .pure fun _ h => h
          · split
            · exact .pure fun _ h => h
            · exact visits_changeLoop rest _ _

theorem visits_locateDirectory (path : List UInt8) : Visits c (locateDirectory fuel path) := by
  unfold locateDirectory
  refine arrives_core ?_
  split
  · exact .pure fun _ h => h
  · split <;> exact visits_locateLoop hm hc hf _ _ _

theorem visits_resolveParentAndName (path : List UInt8) : Visits c (resolveParentAndName fuel path) := by
  have hloop : ∀ cluster stack cs, Visits c (resolveLoop fuel cluster stack cs) := fun cluster stack cs => by
    rcases List.eq_nil_or_concat cs with rfl | ⟨cs, last, rfl⟩
    · exact .pure fun _ h => h
    · rw [List.concat_eq_append, resolveLoop_eq]
      exact (visits_locateLoop hm hc hf cs cluster stack).bind fun r => .pure fun _ h => h
  unfold resolveParentAndName
  refine arrives_core ?_
  split
  · exact .pure fun _ h => h
  · split <;> exact hloop _ _ _

theorem visits_iterateDirectoryInternal {κ : Type} (d : Nat) (cb : κ → DirEntryInfo → Bool × κ) (ctx : κ) :
    Visits c (iterateDirectoryInternal fuel d cb ctx) := by
  unfold iterateDirectoryInternal
  refine arrives_core ?_
  split
  · exact .pure fun _ h => h
  · refine visits_walk Prod.fst hf hc (fun i => ?_) _
    obtain ⟨k, ctx⟩ := i
    rw [iterateRound]
    split
    · rename_i hin
      refine (visits_readCluster hm k).bind fun r => ?_
      dsimp only
      split
      · refine arrives_core ?_
        split
        · exact .pure fun s hs => ⟨hs, fun _ he => by cases he⟩
        · exact .pure fun s hs => ⟨hs, fun i' he => by cases he; exact ⟨hin, rfl⟩⟩
      · exact .pure fun s hs => ⟨hs, fun _ he => by cases he⟩
    · exact .pure fun s hs => ⟨hs, fun _ he => by cases he⟩

theorem visits_iterateCurrentDirectory {κ : Type} (cb : κ → DirEntryInfo → Bool × κ) (ctx : κ) :
    Visits c (iterateCurrentDirectory fuel cb ctx) := by
  unfold iterateCurrentDirectory
  refine arrives_core ?_
  split
  · exact .pure fun _ h => h
  · exact visits_iterateDirectoryInternal hm hc hf _ cb ctx

theorem visits_iteratePath {κ : Type} (path : List UInt8) (cb : κ → DirEntryInfo → Bool × κ) (ctx : κ) :
    Visits c (iteratePath fuel path cb ctx) := by
  unfold iteratePath
  refine arrives_core ?_
  split
  · exact .pure fun _ h => h
  · split
    · exact visits_iterateCurrentDirectory hm hc hf cb ctx
    · refine (visits_locateDirectory hm hc hf path).bind fun r => ?_
      split
      · exact .pure fun _ h => h
      · exact visits_iterateDirectoryInternal hm hc hf _ cb ctx

theorem visits_readFile (path : List UInt8) (buffer : Option Buf) (maxSize : Nat) :
    Visits c (readFile fuel path buffer maxSize) := by
  have hloop : ∀ size i, Visits c (loop (readRound size) fuel i) := fun size => by
    refine visits_walk Prod.fst hf hc fun i => ?_
    obtain ⟨k, cursor, buffer⟩ := i
    rw [readRound]
    split
    · rename_i hin
      refine (visits_readCluster hm k).bind fun r => ?_
      dsimp only
      split
      · exact arrives_core (.pure fun s hs => ⟨hs, fun i' he => by cases he; exact ⟨hin.2, rfl⟩⟩)
      · exact .pure fun s hs => ⟨hs, fun _ he => by cases he⟩
    · exact .pure fun s hs => ⟨hs, fun _ he => by cases he⟩
  unfold readFile
  refine arrives_core ?_
  split
  · exact .pure fun _ h => h
  · split
    · exact .pure fun _ h => h
    · refine (visits_resolveParentAndName hm hc hf path).bind fun r => ?_
      split
      · exact .pure fun _ h => h
      · refine (visits_findEntry hm hc hf _ _).bind fun r => ?_
        split
        · exact .pure fun _ h => h
        · split
          · exact .pure fun _ h => h
          · split
            · exact .pure fun _ h => h
            · exact (hloop _ _).bind fun r => .pure fun _ h => h

end

/-! ## Calls that change the FAT -/

/-- The layout is `fs`, the FAT is acyclic, and has no more than `n` free clusters. -/
structure Winding (fs : Fs) (n : Nat) (c : Core) : Prop where
  layout : c.fs = fs
  acyclic : c.Acyclic
  free : c.volume.freeClusters.card ≤ n

/-- From every core in `P`, `m` returns, and what it returns and the core then are in `Q`. -/
abbrev Brings {α : Type} (P : Core → Prop) (Q : α → Core → Prop) (m : M α) : Prop :=
  Arrives (fun s : State => P s.toCore) (fun a s => Q a s.toCore) m

section

variable {fs : Fs} {n : Nat} {c' : Core}

theorem Winding.congr (h : Winding fs n c) (hfs : c'.fs = c.fs) (hfat : c'.fatPrimary = c.fatPrimary) :
    Winding fs n c' := by
  refine ⟨hfs.trans h.layout, h.acyclic.congr hfs hfat, ?_⟩
  have hfree : c'.volume.freeClusters = c.volume.freeClusters := by
    ext k
    have he : getFatEntry c' k = getFatEntry c k := by
      unfold getFatEntry
      rw [hfs, hfat]
    unfold Volume.freeClusters
    change k ∈ (Finset.range (c'.fs.totalClusters + 2)).filter (fun k => 2 ≤ k ∧ getFatEntry c' k = clusterFree) ↔
      k ∈ (Finset.range (c.fs.totalClusters + 2)).filter fun k => 2 ≤ k ∧ getFatEntry c k = clusterFree
    rw [Finset.mem_filter, Finset.mem_filter, hfs, he]
  rw [hfree]
  exact h.free

theorem Winding.mono {m : Nat} (h : Winding fs n c) (hle : n ≤ m) : Winding fs m c :=
  ⟨h.layout, h.acyclic, h.free.trans hle⟩

/-- There are no more free clusters than clusters. -/
theorem Winding.of_acyclic (hm : fs.Accepted) (h : c.Acyclic) (hfs : c.fs = fs) : Winding fs 4086 c := by
  refine ⟨hfs, h, (Finset.card_filter_le ..).trans ?_⟩
  have := hm.clusters.2
  rw [Finset.card_range]
  change c.fs.totalClusters + 2 ≤ _
  rw [hfs]
  omega

theorem Winding.all (hm : fs.Accepted) (h : Winding fs n c) : Winding fs 4086 c := .of_acyclic hm h.acyclic h.layout

/-! ### Steps of a program -/

theorem brings_core {P : Core → Prop} {Q : β → State → Prop} {k : Core → M β}
    (h : ∀ c, P c → Arrives (fun s : State => s.toCore = c) Q (k c)) :
    Arrives (fun s : State => P s.toCore) Q (getCore >>= k) :=
  fun s hs => arrives_core (h s.toCore hs) s rfl

theorem brings_modifyCore {P Q : Core → Prop} {f : Core → Core} (h : ∀ c, P c → Q (f c)) :
    Brings P (fun _ => Q) (modifyCore f) :=
  fun _ hs => ⟨(), _, rfl, h _ hs⟩

/-- What only reads leaves every core as it is. -/
theorem Visits.brings {m : M α} {P : Core → Prop} (h : ∀ c, P c → Visits c m) : Brings P (fun _ => P) m := by
  intro s hs
  obtain ⟨a, s', h1, h2⟩ := h s.toCore hs s rfl
  exact ⟨a, s', h1, show P s'.toCore from h2 ▸ hs⟩

theorem brings_setClusterBuffer {P : Core → Prop} (b : Buf) : Brings P (fun _ => P) (setClusterBuffer b) :=
  fun _ hs => ⟨(), _, rfl, hs⟩

theorem brings_getClusterBuffer {P : Core → Prop} : Brings P (fun _ => P) getClusterBuffer :=
  fun _ hs => ⟨_, _, rfl, hs⟩

section

variable (hm : fs.Accepted)

include hm

/-- A write to a cluster leaves the FAT alone. -/
theorem brings_writeCluster (k : Nat) (b : Buf) :
    Brings (Winding fs n) (fun _ => Winding fs n) (writeCluster k b) := by
  intro s hs
  have hspc : s.fs.sectorsPerCluster ≠ 0 := hs.layout ▸ hm.spc_ne
  obtain ⟨s', h1, h2, -⟩ := (@runs_writeCluster k b b s.toCore s.faults hspc fun _ _ => rfl).run rfl rfl
  exact ⟨_, s', h1, hs.congr (by rw [h2]; rfl) (by rw [h2]; rfl)⟩

theorem brings_readCluster (k : Nat) : Brings (Winding fs n) (fun _ => Winding fs n) (readCluster k) :=
  Visits.brings fun _ hc => visits_readCluster (hc.layout ▸ hm) k

/-- With a cluster taken there are fewer free ones. -/
theorem brings_allocateCluster :
    Brings (Winding fs n) (fun k c => Winding fs n c ∧ (k ≠ 0 → k < 4096 ∧ ∃ m < n, Winding fs m c))
      allocateCluster := by
  intro s hs
  have hacc : s.fs.Accepted := hs.layout ▸ hm
  cases hk : firstFree s.toCore with
  | none =>
    obtain ⟨s', h1, h2, -⟩ := (runs_allocateCluster_none hk s.faults).run (s := s) rfl rfl
    exact ⟨0, s', h1, h2 ▸ hs, fun h0 => absurd rfl h0⟩
  | some k =>
    have hkf := firstFree_some hk
    obtain ⟨s', h1, h2, -⟩ := (runs_allocateCluster_some hacc hk s.faults).run (s := s) rfl rfl
    by_cases hz : (s.faults 0).isNone = true
    · rw [if_pos hz] at h1 h2
      have hlt := (freeClusters_mark hkf).trans_le hs.free
      have hmark : Winding fs _ (s.toCore.setFat k clusterEoc) := ⟨hs.layout, hs.acyclic.mark k, Nat.le_refl _⟩
      have hfewer := hmark.congr (show s'.toCore.fs = _ by rw [h2]; rfl) (by rw [h2]; rfl)
      refine ⟨k, s', h1, hfewer.mono hlt.le, fun _ => ⟨?_, _, hlt, hfewer⟩⟩
      have hk2 : k < s.fs.totalClusters + 2 := (mem_freeClusters.1 hkf).1.2.1
      have := hacc.clusters.2
      omega
    · -- the cluster was not zeroed, and is given back
      rw [if_neg hz] at h1 h2
      have t := ((Took.refl s.toCore).mark hkf).putPart hacc (List.mem_singleton.2 rfl) (fun _ => 0)
        (transferred_le (s.faults 0) s.fs.sectorsPerCluster)
      exact ⟨0, s', h1, hs.congr (by rw [h2]; rfl) (by rw [h2]; exact t.freeAll.fat), fun h0 => absurd rfl h0⟩

/-- What a chain given back leaves. -/
theorem brings_freeChain (hf : 4096 ≤ fuel) (k : Nat) :
    Brings (Winding fs n) (fun _ => Winding fs 4086) (freeChain fuel k) := by
  intro s hs
  have hcard := card_busy_le s.toCore
  obtain ⟨fat, dirty, h1, -⟩ := freeChain_freed (show (busy s.toCore).card + 2 ≤ fuel by omega) s rfl
  have hkeeps : Keeps (fun s : State => s.toCore.Acyclic) (freeChain fuel k) := by
    refine Keeps.loop (fun k => ?_) fuel k
    rw [freeChainRound]
    split
    · exact Keeps.bind (fun s hs => ⟨hs, fun _ _ _ => trivial⟩) fun c =>
        Keeps.bind (fun s hs => ⟨hs.free k, fun _ _ _ => trivial⟩)
        fun _ => .pure trivial
    · exact .pure trivial
  exact ⟨(), _, h1, .of_acyclic hm ((hkeeps.ok hs.acyclic h1).1) hs.layout⟩

theorem brings_freeFrom (hf : 4096 ≤ fuel) (k : Nat) :
    Brings (Winding fs n) (fun _ => Winding fs 4086) (freeFrom fuel k) := by
  unfold freeFrom
  split
  · exact brings_freeChain hm hf k
  · exact .pure fun _ hs => hs.all hm

omit hm in
/-- A cluster linked behind another, and marked as the last one. -/
theorem brings_link {x z : Nat} (hz : z < 4096) (hz0 : z ≠ 0) :
    Brings (Winding fs n) (fun _ => Winding fs n) (do setFatEntry x z; setFatEntry z clusterEoc) := by
  refine Arrives.bind (R := fun _ s => Winding fs n ((s.toCore).setFat z clusterEoc)) (fun s hs => ⟨(), _, rfl, ?_⟩)
    fun _ s hs => ⟨(), _, rfl, hs⟩
  refine ⟨hs.layout, hs.acyclic.append hz, le_trans (Finset.card_le_card ?_) hs.free⟩
  exact (freeClusters_setFat (by decide)).trans (freeClusters_setFat (by rw [Nat.mod_eq_of_lt hz]; exact hz0))

theorem brings_findEntry (hf : 4096 ≤ fuel) (d : Nat) (name : ShortName) :
    Brings (Winding fs n) (fun _ => Winding fs n) (findEntry fuel d name) :=
  Visits.brings fun _ hc => visits_findEntry (hc.layout ▸ hm) hc.acyclic hf d name

theorem brings_resolveParentAndName (hf : 4096 ≤ fuel) (path : List UInt8) :
    Brings (Winding fs n) (fun _ => Winding fs n) (resolveParentAndName fuel path) :=
  Visits.brings fun _ hc => visits_resolveParentAndName (hc.layout ▸ hm) hc.acyclic hf path

/-! ### Storing an entry -/

theorem brings_writeEntry (p : Loc) (e : RawDirEntry) :
    Brings (Winding fs n) (fun _ => Winding fs n) (writeEntry p e) := by
  unfold writeEntry
  refine brings_core fun c hc => Arrives.pre ?_ fun s hs => show Winding fs n s.toCore from hs ▸ hc
  split
  · split
    · exact .pure fun _ h => h
    · exact (brings_modifyCore fun c hc => hc.congr rfl rfl).bind fun _ => .pure fun _ h => h
  · refine (brings_readCluster hm _).bind fun r => ?_
    dsimp only
    split
    · exact .pure fun _ h => h
    · split
      · exact .pure fun _ h => h
      · refine (brings_setClusterBuffer _).bind fun _ => (brings_writeCluster hm _ _).bind fun ok => ?_
        split <;> exact .pure fun _ h => h

theorem brings_findFreeEntry (hf : 4096 ≤ fuel) (d : Nat) :
    Brings (Winding fs n) (fun _ => Winding fs n) (findFreeEntry fuel d) := by
  have hloop : Brings (Winding fs n) (fun _ => Winding fs n) (loop freeRound fuel (d, 0)) := by
    refine Visits.brings fun c hc => visits_walk Prod.fst hf hc.acyclic (fun i => ?_) _
    obtain ⟨k, previous⟩ := i
    rw [freeRound]
    split
    · rename_i hin
      refine (visits_readCluster (hc.layout ▸ hm) k).bind fun r => ?_
      dsimp only
      split
      · refine arrives_core ?_
        split
        · exact .pure fun s hs => ⟨hs, fun _ he => by cases he⟩
        · exact .pure fun s hs => ⟨hs, fun i' he => by cases he; exact ⟨hin, rfl⟩⟩
      · exact .pure fun s hs => ⟨hs, fun _ he => by cases he⟩
    · exact .pure fun s hs => ⟨hs, fun _ he => by cases he⟩
  unfold findFreeEntry
  refine brings_core fun c hc => Arrives.pre ?_ fun s hs => show Winding fs n s.toCore from hs ▸ hc
  split
  · split <;> exact .pure fun _ h => h
  · refine hloop.bind fun r => ?_
    split
    · exact .pure fun _ h => h
    · refine (brings_allocateCluster hm).bind fun z => ?_
      split
      · exact .pure fun _ h => h.1
      · rename_i hz
        refine Arrives.bind (R := fun _ s => Winding fs n s.toCore) ?_ fun _ => .pure fun _ h => h
        unfold linkCluster
        split
        · exact fun s hs => brings_link (hs.2 hz).1 hz s hs.1
        · exact .pure fun _ h => h.1

theorem brings_writeDirectoryEntry (hf : 4096 ≤ fuel) (d : Nat) (name : ShortName) (e : RawDirEntry) :
    Brings (Winding fs n) (fun _ => Winding fs n) (writeDirectoryEntry fuel d name e) := by
  unfold writeDirectoryEntry
  refine (brings_findEntry hm hf d name).bind fun r => ?_
  split
  · exact brings_writeEntry hm _ e
  · refine (brings_findFreeEntry hm hf d).bind fun r => ?_
    split
    · exact brings_writeEntry hm _ e
    · exact .pure fun _ h => h
  · exact .pure fun _ h => h

/-! ### The changes -/

/-- Each cluster of a file being written leaves fewer free ones. -/
theorem brings_writeLoop (hf : 4096 ≤ fuel) (data : Buf) (size : Nat) :
    Brings (Winding fs 4086) (fun _ => Winding fs 4086) (writeLoop fuel data size) := by
  unfold writeLoop
  refine Arrives.loop (L := fun n _ (s : State) => Winding fs n s.toCore) (fun n i => ?_)
    (show 4086 < fuel by omega)
  obtain ⟨first, prev, written⟩ := i
  rw [writeRound]
  split
  · refine (brings_allocateCluster hm).bind fun z => ?_
    split
    · exact ((brings_freeFrom hm hf first).bind fun _ => .pure fun _ h => h).pre fun _ h => h.1
    · rename_i hz
      intro s hs
      obtain ⟨hz', m, hmn, hs⟩ := hs.2 hz
      refine (?_ : Arrives (fun s : State => Winding fs m s.toCore) _ _) s hs
      have hlink :
          Brings (Winding fs m) (fun _ => Winding fs m) (do linkPrevious prev z; setFatEntry z clusterEoc) := by
        unfold linkPrevious
        split
        · exact brings_link hz' hz
        · intro s hs
          exact ⟨(), _, rfl, hs.layout, hs.acyclic.mark z,
            le_trans (Finset.card_le_card (freeClusters_setFat (by decide))) hs.free⟩
      rw [← bind_assoc]
      refine hlink.bind fun _ => brings_core fun c hc => Arrives.pre ?_ fun s hs =>
        show Winding fs m s.toCore from hs ▸ hc
      refine brings_getClusterBuffer.bind fun b => (brings_setClusterBuffer _).bind fun _ =>
        (brings_writeCluster hm z _).bind fun ok => ?_
      split
      · exact .pure fun _ h => ⟨m, hmn, h⟩
      · exact (brings_freeChain hm hf _).bind fun _ => .pure fun _ h => h
  · exact .pure fun _ h => h.all hm

theorem brings_commitFile (hf : 4096 ≤ fuel) (d : Nat) (name : ShortName) (old : Option Nat) (first size : Nat) :
    Brings (Winding fs 4086) (fun _ => Winding fs 4086) (commitFile fuel d name old first size) := by
  unfold commitFile
  refine (brings_writeDirectoryEntry hm hf d name _).bind fun code => ?_
  split
  · split
    · exact .pure fun _ h => h
    · split
      · exact (brings_freeChain hm hf _).bind fun _ => .pure fun _ h => h
      · exact .pure fun _ h => h
  · exact (brings_freeFrom hm hf _).bind fun _ => .pure fun _ h => h

theorem brings_storeFile (hf : 4096 ≤ fuel) (data : Buf) (size d : Nat) (n : ShortName) (old : Option Nat) :
    Brings (Winding fs 4086) (fun _ => Winding fs 4086) (do
      match ← writeLoop fuel data size with
      | .error e => pure e
      | .ok first => commitFile fuel d n old first size) := by
  refine (brings_writeLoop hm hf data size).bind fun r => ?_
  split
  · exact .pure fun _ h => h
  · exact brings_commitFile hm hf d n old _ size

theorem brings_writeFileBody (hf : 4096 ≤ fuel) (name : List UInt8) (data : Option Buf) (size : Nat) :
    Brings (Winding fs 4086) (fun _ => Winding fs 4086) (writeFileBody fuel name data size) := by
  unfold writeFileBody
  refine brings_core fun c hc => Arrives.pre ?_ fun s hs => show Winding fs 4086 s.toCore from hs ▸ hc
  split
  · exact .pure fun _ h => h
  · split
    · exact .pure fun _ h => h
    · refine (brings_resolveParentAndName hm hf name).bind fun r => ?_
      split
      · exact .pure fun _ h => h
      · refine (brings_findEntry hm hf _ _).bind fun r => ?_
        split
        · split
          · exact .pure fun _ h => h
          · exact brings_storeFile hm hf _ size _ _ _
        · exact brings_storeFile hm hf _ size _ _ _
        · exact .pure fun _ h => h

theorem brings_createDirectoryBody (hf : 4096 ≤ fuel) (name : List UInt8) :
    Brings (Winding fs 4086) (fun _ => Winding fs 4086) (createDirectoryBody fuel name) := by
  unfold createDirectoryBody
  refine brings_core fun c hc => Arrives.pre ?_ fun s hs => show Winding fs 4086 s.toCore from hs ▸ hc
  split
  · exact .pure fun _ h => h
  · refine (brings_resolveParentAndName hm hf name).bind fun r => ?_
    split
    · exact .pure fun _ h => h
    · refine (brings_findEntry hm hf _ _).bind fun r => ?_
      split
      · exact .pure fun _ h => h
      · refine ((brings_allocateCluster hm).post fun _ _ h => h.1).bind fun k => ?_
        split
        · exact .pure fun _ h => h
        · refine brings_getClusterBuffer.bind fun b => (brings_setClusterBuffer _).bind fun _ =>
            (brings_writeCluster hm k _).bind fun ok => ?_
          split
          · refine (brings_writeDirectoryEntry hm hf _ _ _).bind fun code => ?_
            split
            · exact .pure fun _ h => h
            · exact (brings_freeChain hm hf _).bind fun _ => .pure fun _ h => h
          · exact (brings_freeChain hm hf _).bind fun _ => .pure fun _ h => h

theorem brings_deleteFileBody (hf : 4096 ≤ fuel) (name : List UInt8) :
    Brings (Winding fs 4086) (fun _ => Winding fs 4086) (deleteFileBody fuel name) := by
  unfold deleteFileBody
  refine brings_core fun c hc => Arrives.pre ?_ fun s hs => show Winding fs 4086 s.toCore from hs ▸ hc
  split
  · exact .pure fun _ h => h
  · refine (brings_resolveParentAndName hm hf name).bind fun r => ?_
    split
    · exact .pure fun _ h => h
    · refine (brings_findEntry hm hf _ _).bind fun r => ?_
      split
      · exact .pure fun _ h => h
      · split
        · exact .pure fun _ h => h
        · refine (brings_freeFrom hm hf _).bind fun _ => ?_
          unfold markEntryDeleted
          refine (brings_findEntry hm hf _ _).bind fun r => ?_
          split
          · exact brings_writeEntry hm _ _
          · exact .pure fun _ h => h

theorem Change.brings_body (hf : 4096 ≤ fuel) :
    ∀ x : Change, Brings (Winding fs 4086) (fun _ => Winding fs 4086) (x.body fuel)
  | .writeFile name data size => brings_writeFileBody hm hf name data size
  | .createDirectory name => brings_createDirectoryBody hm hf name
  | .deleteFile name => brings_deleteFileBody hm hf name

end

/-! ## Every call -/

theorem brings_flushRoot : Brings (Winding fs n) (fun _ => Winding fs n) flushRoot := by
  intro s hs
  obtain ⟨s', h1, h2, -⟩ := flushRoot_run s
  exact ⟨_, s', h1, hs.congr (by rw [h2]) (by rw [h2])⟩

theorem brings_flushFats : Brings (Winding fs n) (fun _ => Winding fs n) flushFats := by
  intro s hs
  obtain ⟨s', h1, h2, -⟩ := flushFats_run s
  exact ⟨_, s', h1, hs.congr (by rw [h2]) (by rw [h2])⟩

/-- Every call returns, with the layout kept and an acyclic FAT. -/
theorem Call.brings (hm : fs.Accepted) (hf : 4096 ≤ fuel) :
    ∀ x : Call, Brings (Winding fs 4086) (fun _ => Winding fs 4086) (x.exec fuel)
  | .iterateCurrentDirectory cb ctx =>
    Visits.brings fun _ hc => visits_iterateCurrentDirectory (hc.layout ▸ hm) hc.acyclic hf cb ctx
  | .iteratePath path cb ctx =>
    Visits.brings fun _ hc => visits_iteratePath (hc.layout ▸ hm) hc.acyclic hf path cb ctx
  | .changeDirectory path => by
    show Brings _ _ (Fat12.changeDirectory fuel path)
    unfold Fat12.changeDirectory
    refine brings_core fun c hc => ?_
    split
    · exact .pure fun s hs => show Winding fs 4086 s.toCore from hs ▸ hc
    · split
      · exact .pure fun s hs => show Winding fs 4086 s.toCore from hs ▸ hc
      · refine (visits_changeLoop (hc.layout ▸ hm) hc.acyclic hf _ _ _).bind fun r => Arrives.pre ?_
          fun s hs => show Winding fs 4086 s.toCore from hs ▸ hc
        split
        · exact .pure fun _ h => h
        · exact (brings_modifyCore fun c hc => hc.congr rfl rfl).bind fun _ => .pure fun _ h => h
  | .getCwd => fun s hs => ⟨_, s, rfl, hs⟩
  | .readFile path buffer maxSize =>
    Visits.brings fun _ hc => visits_readFile (hc.layout ▸ hm) hc.acyclic hf path buffer maxSize
  | .change x => by
    show Brings _ _ (x.exec fuel)
    rw [x.exec_eq]
    refine (x.brings_body hm hf).bind fun code => ?_
    split
    · exact brings_flushRoot.bind fun _ => brings_flushFats.bind fun _ => .pure fun _ h => h
    · exact .pure fun _ h => h
  | .flush => by
    show Brings _ _ Fat12.flush
    unfold Fat12.flush
    refine brings_core fun c hc => Arrives.pre ?_ fun s hs => show Winding fs 4086 s.toCore from hs ▸ hc
    split
    · exact .pure fun _ h => h
    · refine brings_flushRoot.bind fun code => ?_
      split
      · exact brings_flushFats
      · exact .pure fun _ h => h

end

end

/-! ## Mounting -/

theorem total_readArea (lba : Nat) : ∀ (n i : Nat) (buffer : Buf), Total (readArea lba buffer i n)
  | 0, _, _ => .pure _
  | n + 1, i, buffer => by
    rw [readArea]
    refine (total_diskReadSectors _ _ _ _).bind fun r => ?_
    dsimp only
    split
    · exact total_readArea lba n (i + 1) _
    · exact .pure _

theorem total_loadRoot (lba n : Nat) (b : Buf) : Total (do
    let (ok, root) ← readArea lba b 0 n
    modifyCore fun c => { c with rootDir := root }
    pure ok) :=
  (total_readArea _ _ _ _).bind fun _ => (total_modifyCore _).bind fun _ => .pure _

theorem total_loadCaches : Total loadCaches := by
  unfold loadCaches
  refine total_getCore.bind fun c => (total_readArea _ _ _ _).bind fun r => (total_modifyCore _).bind fun _ => ?_
  split
  · exact .pure _
  · split
    · refine Total.bind (fun s => ⟨s, s, rfl⟩) fun _ => (total_readArea _ _ _ _).bind fun _ =>
        (total_setFatSecondary _).bind fun _ => ?_
      rw [pure_bind]
      dsimp only
      split
      · exact .pure _
      · exact total_loadRoot _ _ _
    · exact total_loadRoot _ _ _

/-- A mount returns from every state. -/
theorem total_init (baseLba : Nat) : Total (init baseLba) := by
  unfold init
  refine (total_diskReadSectors _ _ _ _).bind fun r => ?_
  dsimp only
  split
  · exact .pure _
  split
  · exact .pure _
  refine (total_modifyCore _).bind fun _ => total_getCore.bind fun c => ?_
  split
  · exact .pure _
  split
  · exact .pure _
  refine (total_modifyCore _).bind fun _ => total_getCore.bind fun c => ?_
  split
  · exact .pure _
  refine (total_modifyCore _).bind fun _ => total_getCore.bind fun c => ?_
  split
  · exact .pure _
  refine total_loadCaches.bind fun ok => ?_
  split
  · exact (total_modifyCore _).bind fun _ => .pure _
  · exact .pure _

end AltoniumOS.Fat12

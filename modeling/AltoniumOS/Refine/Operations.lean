/-
The three changing operations on a mounted, well-formed volume when no disk call fails: each one
returns, and either it edits one directory entry and nothing else, or it leaves the FAT, the root
directory and every cluster in use as they were.
-/
import AltoniumOS.Refine.Flush

namespace AltoniumOS.Fat12

open AltoniumOS.Lib

/-- A call that succeeded: the entry `n` of the directory `d` changed from `o` to `e`. -/
structure Edited (c c' : Core) (d : Nat) (n : ShortName) (o e : RawDirEntry) : Prop where
  env : SameEnv c c'
  wf : c'.volume.WF ∅
  edit : Volume.Edit c.volume c'.volume d n o e
  old : (o.Live ∧ c.volume.find d n = some o) ∨ (¬ o.Live ∧ c.volume.find d n = none)

section

variable {c c₁ c' : Core} {P : Set Nat}

/-! ## Small facts -/

theorem Volume.Agree.freeSlot {V W : Volume} (h : V.WF P) (a : Volume.Agree V W) {d q : Nat} (hd : V.IsDir d q) :
    W.freeSlot d = V.freeSlot d := by
  unfold Volume.freeSlot
  rw [a.locs h hd, scan_congr fun p hp => by rw [a.slot h hd hp]]

theorem Volume.Agree.find {V W : Volume} (h : V.WF P) (a : Volume.Agree V W) {d q : Nat} (hd : V.IsDir d q)
    (n : ShortName) : W.find d n = V.find d n := Volume.find_congr (a.slots h hd)

theorem fillDirEntry_cluster {n : ShortName} {attr : UInt8} {first size : Nat} (h : first < 65536) :
    (fillDirEntry n attr first size).cluster = first := by
  unfold RawDirEntry.cluster fillDirEntry
  exact UInt16.toNat_ofNat_of_lt' h

theorem fillDirEntry_size {n : ShortName} {attr : UInt8} {first size : Nat} (h : size < 4294967296) :
    (fillDirEntry n attr first size).size = size := by
  unfold RawDirEntry.size fillDirEntry
  exact UInt32.toNat_ofNat_of_lt' h

theorem fillDirEntry_live {n : ShortName} (hn : n.Proper) {attr : UInt8} {first size : Nat} :
    (fillDirEntry n attr first size).Live :=
  (RawDirEntry.live_iff _).2 ⟨hn.ne.1, hn.ne.2.1⟩

/-- Giving back clusters that left the tree. -/
theorem freeAll_pending (h : c.volume.WF P) {l : List Nat} (hr : ∀ k ∈ l, c.volume.InRange k)
    (hl : ∀ k, k ∈ P ↔ k ∈ l) : Volume.Agree c.volume (c.freeAll l).volume ∧ (c.freeAll l).volume.WF ∅ := by
  have henv := env_freeAll c l
  have ha : Volume.Agree c.volume (c.freeAll l).volume := by
    refine ⟨henv.sizes, henv.root (rootDir_freeAll c l), fun k hk => ?_, fun k _ => congrFun (data_freeAll c l) k⟩
    exact fat_freeAll_ne fun hkl => h.pending k ((hl k).2 hkl) hk
  refine ⟨ha, ha.wf h (fun k hk => hk.elim) fun k hk hf hb => ?_⟩
  have hkl : k ∉ l := fun hkl => hf (fat_freeAll_mem hr hkl)
  rw [fat_freeAll_ne hkl] at hf hb
  refine .inl ((h.noLost k hk hf hb).resolve_right fun hP => hkl ((hl k).1 hP))

/-- Flushing at the end changes nothing of the volume. -/
theorem Edited.flushed (hm : Mounted c') {d : Nat} {n : ShortName} {o e : RawDirEntry} (he : Edited c c' d n o e) :
    Edited c c'.flushed d n o e := by
  have hv := volume_flushed hm.accepted
  exact ⟨he.env.trans (env_flushed c'), by rw [hv]; exact he.wf, by rw [hv]; exact he.edit, he.old⟩

/-! ## Writing a file -/

section Write

variable {data : Buf} {size first prev written d q fuel : Nat} {l : List Nat} {n : ShortName}

/-- The entry of the file written may be stored. -/
theorem Writing.newEntry (hm : Mounted c) (w : Writing data size c c₁ l first prev written) (hw : ¬ written < size)
    (hn : n.Proper) :
    c₁.volume.NewEntry (∅ ∪ {k | k ∈ l}) d n (fillDirEntry n attrArchive first size) ∧
      (fillDirEntry n attrArchive first size).cluster = first ∧
      (fillDirEntry n attrArchive first size).size = size ∧ c₁.volume.chain first = l := by
  have hm₁ := w.took.env.mounted hm
  have hsize := w.size_lt hm hw
  have hlen := w.length_eq hm hw
  have hfor := w.took.env.sizes.clustersFor size
  obtain ⟨hlt, hchain, hfile⟩ : first < 65536 ∧ c₁.volume.chain first = l ∧
      ((size = 0 ∧ first = 0) ∨ ∃ l', c₁.volume.Chain first l' ∧ l'.length = c₁.volume.clustersFor size) := by
    rcases w.links with ⟨rfl, rfl, rfl⟩ | ⟨l', rfl, hc⟩
    · refine ⟨by omega, Volume.chain_zero, .inl ⟨?_, rfl⟩⟩
      have h1 := w.written_eq
      rw [List.length_nil, Nat.zero_mul, Nat.zero_min] at h1
      omega
    · have := InRange.lt_4086 hm₁ hc.start
      exact ⟨by omega, hc.eq hm₁.geom, .inr ⟨_, hc, by rw [hfor]; exact hlen⟩⟩
  have hc : (fillDirEntry n attrArchive first size).cluster = first := fillDirEntry_cluster hlt
  have hs : (fillDirEntry n attrArchive first size).size = size := fillDirEntry_size hsize
  have hfile' : (fillDirEntry n attrArchive first size).isDirectory = false :=
    (by decide : (attrArchive &&& attrDirectory != 0) = false)
  refine ⟨⟨fillDirEntry_live hn, rfl, (by decide : attrArchive &&& attrVolumeId = 0), fun _ => ?_,
    fun hd => absurd hd (by rw [hfile']; decide), ?_⟩, hc, hs, hchain⟩
  · unfold Volume.FileChain
    rw [hc, hs]
    exact hfile
  · rw [hc, hchain]
    exact fun k hk => .inr hk

/-- The bytes written are the content of the chain, wherever its links and clusters are kept. -/
theorem Writing.content (hm : Mounted c) (w : Writing data size c c₁ l first prev written) (hw : ¬ written < size)
    (henv : SameEnv c₁ c') (hf : ∀ k ∈ l, c'.volume.fat k = c₁.volume.fat k)
    (hd : ∀ k ∈ l, c'.volume.data k = c₁.volume.data k) : ∀ i < size, c'.volume.content first i = data i := by
  intro i hi
  have hm₁ := w.took.env.mounted hm
  have hcs : c'.volume.clusterSize = c.fs.clusterSizeBytes :=
    henv.sizes.clusterSize.trans w.took.env.sizes.clusterSize
  have hpos := hm.accepted.clusterSize_pos
  have hdiv : i / c.fs.clusterSizeBytes * c.fs.clusterSizeBytes + i % c.fs.clusterSizeBytes = i := by
    rw [Nat.mul_comm]; exact Nat.div_add_mod ..
  rcases w.links with ⟨rfl, -, -⟩ | ⟨l', rfl, hc⟩
  · have h1 := w.written_eq
    rw [List.length_nil, Nat.zero_mul, Nat.zero_min] at h1
    omega
  · have hc' : c'.volume.Chain first (l' ++ [prev]) := henv.sizes.chain hc hf
    have hlt : i / c.fs.clusterSizeBytes < (l' ++ [prev]).length := by
      rw [Nat.div_lt_iff_lt_mul hpos]
      have h1 := w.written_eq
      have h2 := Nat.min_le_left ((l' ++ [prev]).length * c.fs.clusterSizeBytes) size
      omega
    have hget := List.getElem?_eq_getElem hlt
    unfold Volume.content
    rw [hc'.eq (henv.mounted hm₁).geom, hcs, hget]
    show c'.volume.data _ _ = _
    rw [hd _ (List.getElem_mem hlt), w.bytes _ _ hget _ (Nat.mod_lt _ hpos) (by omega), hdiv]

/-- The first cluster of the new chain is not one in use. -/
theorem Writing.first_ne (w : Writing data size c c₁ l first prev written) (h : c.volume.WF P) {k : Nat}
    (hk : 2 ≤ k) (hu : c.volume.Used k) : k ≠ first := by
  rintro rfl
  rcases w.links with ⟨-, rfl, -⟩ | ⟨l', rfl, hc⟩
  · omega
  · exact w.took.not_used h hc.head_mem hu

/-- What a write of `size` bytes under the name `n` in `d` returns for want of space: clusters for the data
first, then a slot, for which a full subdirectory takes one cluster more and the root has none. -/
def Volume.writeCode (V : Volume) (d : Nat) (n : ShortName) (size : Nat) : Code :=
  if V.freeClusters.card < V.clustersFor size then .errNoFreeCluster
  else if V.find d n = none ∧ V.freeSlot d = none then
    if d = 0 then .errDirFull
    else if V.freeClusters.card < V.clustersFor size + 1 then .errNoFreeCluster
    else .ok
  else .ok

/-- What a write under the name `n` in `d` returns. -/
def Volume.storeCode (V : Volume) (size d : Nat) (n : ShortName) : Code :=
  match V.find d n with
  | some o => if o.isDirectory then .errAlreadyExists else V.writeCode d n size
  | none => V.writeCode d n size

theorem Volume.storeCode_ok {V : Volume} : V.storeCode size d n = .ok ↔
    (∀ o, V.find d n = some o → o.isDirectory = false) ∧ V.writeCode d n size = .ok := by
  unfold storeCode
  split
  · rename_i o ho
    split
    · rename_i hi
      refine iff_of_false (fun h => nomatch h) fun h => ?_
      rw [h.1 o ho] at hi
      cases hi
    · rename_i hi
      exact ⟨fun h => ⟨fun o' ho' => (by cases ho.symm.trans ho'; simpa using hi), h⟩, fun h => h.2⟩
  · rename_i ho
    exact ⟨fun h => ⟨fun o ho' => (nomatch ho.symm.trans ho'), h⟩, fun h => h.2⟩

/-- What making the directory `n` in `d` returns: nothing may have the name, and there must be a cluster for the
directory and a slot for its entry, for which a full subdirectory takes one cluster more and the root has none.
-/
def Volume.makeCode (V : Volume) (d : Nat) (n : ShortName) : Code :=
  if V.find d n ≠ none then .errAlreadyExists
  else if V.freeClusters.card < 1 then .errNoFreeCluster
  else if V.freeSlot d = none then
    if d = 0 then .errDirFull
    else if V.freeClusters.card < 2 then .errNoFreeCluster
    else .ok
  else .ok

/-- What deleting `n` in `d` returns. -/
def Volume.deleteCode (V : Volume) (d : Nat) (n : ShortName) : Code :=
  match V.find d n with
  | none => .errNotFound
  | some o => if o.isDirectory then .errNotFile else .ok

/-- The code of a call whose path may not resolve. -/
def pathCode (r : Except Code (Nat × ShortName)) (code : Nat → ShortName → Code) : Code :=
  match r with
  | .error e => e
  | .ok (d, n) => code d n

/-- With clusters for the data, only a slot may be missing. -/
theorem Volume.freeSlot_of_writeCode {V : Volume} (hc : V.writeCode d n size ≠ .ok)
    (hroom : V.clustersFor size ≤ V.freeClusters.card) : V.find d n = none ∧ V.freeSlot d = none := by
  unfold writeCode at hc
  rw [if_neg (by omega)] at hc
  by_contra hs
  exact hc (if_neg hs)

/-- The end of `fat12_write_file`: the entry is stored and the old chain given back, or there is no
slot for it and the new chain is given back. -/
theorem gives_commitFile (hm : Mounted c) (h : c.volume.WF ∅) (hf : 4096 ≤ fuel) (hd : c.volume.IsDir d q)
    (hn : n.Proper) (hold : ∀ o, c.volume.find d n = some o → o.isDirectory = false)
    (w : Writing data size c c₁ l first prev written) (hw : ¬ written < size) :
    (c.volume.writeCode d n size = .ok ∧
      ∃ c' o e, Gives (commitFile fuel d n ((c.volume.find d n).map RawDirEntry.cluster) first size) c₁ .ok c' ∧
        Edited c c' d n o e ∧ e = fillDirEntry n attrArchive first size ∧ e.size = size ∧
        ∀ i < size, c'.volume.content e.cluster i = data i) ∨
    (∃ e c', Gives (commitFile fuel d n ((c.volume.find d n).map RawDirEntry.cluster) first size) c₁ e c' ∧
      e ≠ .ok ∧ Unchanged c c' ∧ e = c.volume.writeCode d n size) := by
  have a := w.took.agree h
  have h₁ := w.took.wf h
  have hm₁ := w.took.env.mounted hm
  have hd₁ := (a.isDir h).2 hd
  have hfind := a.find h hd n
  obtain ⟨ne, hcl, hsz, hch⟩ := w.newEntry (d := d) hm hw hn
  have hP : ∀ k ∈ (∅ ∪ {k | k ∈ l} : Set Nat), 2 ≤ k ∧ k ∉ c₁.volume.freeClusters := by
    rintro k (hk | hk)
    · exact hk.elim
    · exact ⟨(w.took.range hk).1, fun hfr => w.took.taken k hk (mem_freeClusters.1 hfr).2⟩
  have hundo : ∀ e : Code, Gives (do freeFrom fuel first; pure e) c₁ e (c₁.freeAll l) := fun e =>
    (w.gives_freeFrom hm hf).bind (.pure _)
  have hcard : c₁.volume.freeClusters.card + c.volume.clustersFor size = c.volume.freeClusters.card := by
    rw [← w.length_eq hm hw]
    exact w.took.card
  have hroom : ¬ c.volume.freeClusters.card < c.volume.clustersFor size := by omega
  unfold commitFile
  rcases gives_writeDirectoryEntry hm₁ h₁ hP hf hd₁ hn ne (fun o ho => hold o (hfind ▸ ho)) with
    ⟨c₂, o, hg, hp⟩ | ⟨hg, h0, hfn, hfs⟩ | ⟨hg, h0, hfn, hfs, hfree⟩
  · left
    have hm₂ := hp.env.mounted hm₁
    have hold₁ := hp.old
    rw [hfind] at hold₁
    refine ⟨?_, ?_⟩
    · -- a slot was there, or a cluster to make one
      unfold Volume.writeCode
      rw [if_neg hroom]
      rcases hp.free with ⟨-, hs⟩ | ⟨z, hz, -, h0, -⟩
      · refine if_neg fun hn => ?_
        rcases hs with ho | hs
        · rcases hold₁ with ⟨-, ho'⟩ | ⟨ho', -⟩
          · rw [hn.1] at ho'
            cases ho'
          · exact ho' ho
        · exact hs ((a.freeSlot h hd).trans hn.2)
      · have hpos := Finset.card_pos.2 ⟨z, hz⟩
        have hmore : ¬ c.volume.freeClusters.card < c.volume.clustersFor size + 1 := by omega
        rw [if_neg h0, if_neg hmore, ite_self]
    have hedit := hp.edit.agree_left h a hd
    have henv := w.took.env.trans hp.env
    have hfatl : ∀ k ∈ l, c₂.volume.fat k = c₁.volume.fat k := fun k hk => hp.fat k (.inl (.inr hk))
    have hdatal : ∀ k ∈ l, c₂.volume.data k = c₁.volume.data k := fun k hk => hp.data k (.inr hk)
    -- nothing is left over but the chain of the old entry
    have hwf : ∀ lo : List Nat, (o.Live → c₁.volume.chain o.cluster = lo) → (¬ o.Live → lo = []) →
        c₂.volume.WF {k | k ∈ lo} := by
      intro lo h1 h2
      convert hp.wf using 1
      ext k
      simp only [hcl, hch, Set.mem_ofPred_eq, Set.empty_union]
      by_cases ho : o.Live
      · rw [h1 ho]
        simp [ho]
      · rw [h2 ho]
        simp [ho]
    -- the old chain is empty: there is nothing to give back
    have hnone : c₂.volume.WF {k | k ∈ ([] : List Nat)} →
        Edited c c₂ d n o (fillDirEntry n attrArchive first size) :=
      fun h2 => ⟨henv, by simpa using h2, hedit, hold₁⟩
    have hcont := w.content hm hw hp.env hfatl hdatal
    rcases hold₁ with ⟨ho, hfo⟩ | ⟨ho, hfo⟩
    · obtain ⟨p, -, hep, hpo⟩ := h.entry_of_find hd hn hfo
      have hfc := h.file p (hep.entry hd) (by rw [hpo]; exact hold o hfo)
      rw [hpo] at hfc
      rw [hfo]
      rcases hfc with ⟨-, h0⟩ | ⟨lo, hlo, -⟩
      · have h1 := hnone (hwf [] (fun _ => by rw [h0]; exact Volume.chain_zero) fun h => absurd ho h)
        refine ⟨_, o, _, hg.bind ?_, h1, rfl, hsz, by rw [hcl]; exact hcont⟩
        show Gives (if o.cluster ≥ 2 ∧ o.cluster ≠ first then _ else _) _ _ _
        rw [if_neg (by rw [h0]; omega)]
        exact .pure _
      · have hown : c.volume.owned p = lo := by
          unfold Volume.owned
          rw [hpo]
          exact hlo.eq hm.geom
        have hu : ∀ k ∈ lo, c.volume.Used k := fun k hk => ⟨p, hep.entry hd, by rw [hown]; exact hk⟩
        have hlo₁ : c₁.volume.Chain o.cluster lo := a.sizes.chain hlo fun k hk => a.fat k (hu k hk)
        have hlo₂ : c₂.volume.Chain o.cluster lo := hp.env.sizes.chain hlo₁ fun k hk =>
          hp.fat k (.inr ⟨ho, by rw [hlo₁.eq hm₁.geom]; exact hk⟩)
        have hw₂ := hwf lo (fun _ => hlo₁.eq hm₁.geom) fun h => absurd ho h
        obtain ⟨a₃, h₃⟩ := freeAll_pending hw₂ hlo₂.range fun k => Iff.rfl
        have henv₃ := env_freeAll c₂ lo
        refine ⟨c₂.freeAll lo, o, _, hg.bind ?_,
          ⟨henv.trans henv₃, h₃, hedit.agree_right hw₂ hd a₃, .inl ⟨ho, hfo⟩⟩, rfl, hsz, ?_⟩
        · show Gives (if o.cluster ≥ 2 ∧ o.cluster ≠ first then _ else _) _ _ _
          rw [if_pos ⟨hlo.start.1, w.first_ne h hlo.start.1 (hu _ hlo.head_mem)⟩]
          have hlt := hlo₂.length_lt hm₂.geom
          exact (gives_freeChain hm₂ hlo₂.tail hlo₂.nodup (by omega)).bind (.pure _)
        · rw [hcl]
          refine w.content hm hw (hp.env.trans henv₃) (fun k hk => ?_) fun k hk => ?_
          · rw [fat_freeAll_ne fun hkl => w.took.not_used h hk (hu k hkl), hfatl k hk]
          · rw [data_freeAll, hdatal k hk]
    · have h1 := hnone (hwf [] (fun h => absurd h ho) fun _ => rfl)
      rw [hfo]
      exact ⟨_, o, _, hg.bind (.pure _), h1, rfl, hsz, by rw [hcl]; exact hcont⟩
  · right
    rw [hfind] at hfn
    rw [a.freeSlot h hd] at hfs
    refine ⟨.errDirFull, _, hg.bind (hundo _), by decide, w.took.freeAll, ?_⟩
    unfold Volume.writeCode
    rw [if_neg hroom, if_pos ⟨hfn, hfs⟩, if_pos h0]
  · right
    rw [hfind] at hfn
    rw [a.freeSlot h hd] at hfs
    refine ⟨.errNoFreeCluster, _, hg.bind (hundo _), by decide, w.took.freeAll, ?_⟩
    rw [hfree, Finset.card_empty] at hcard
    unfold Volume.writeCode
    rw [if_neg hroom, if_pos ⟨hfn, hfs⟩, if_neg h0, if_pos (by omega)]

/-- Where the path of a call leads: to a name in a directory of the tree. -/
theorem resolve_dir (h : c.volume.WF P) (hs : c.Settled) {path : List UInt8}
    (hr : c.volume.resolve (c.start path).1 (c.start path).2 (components path) = .ok (d, n)) :
    c.volume.Dir d ∧ n.Proper := by
  obtain ⟨hn, ds, last, st, -, hw, -⟩ := Volume.resolve_ok hr
  exact ⟨(h.walk_dir (hs.start path).1 (hs.start path).2 hw).1, hn⟩

/-- The file written, seen on the volume: `n` in `d` names the `size` bytes of `data`. -/
structure Written (c c' : Core) (d : Nat) (n : ShortName) (data : Buf) (size : Nat) : Prop where
  stored : ∃ o first, Edited c c' d n o (fillDirEntry n attrArchive first size) ∧
    (fillDirEntry n attrArchive first size).size = size ∧
    ∀ i < size, c'.volume.content (fillDirEntry n attrArchive first size).cluster i = data i

/-- `fat12_write_file` once it knows where to: the data, and then the entry. -/
theorem gives_store (hm : Mounted c) (h : c.volume.WF ∅) (hf : 4096 ≤ fuel) (hd : c.volume.IsDir d q)
    (hn : n.Proper) (hold : ∀ o, c.volume.find d n = some o → o.isDirectory = false) (data : Buf) (size : Nat)
    {m : M Code} (hmm : m = do match ← writeLoop fuel data size with
      | .error e => pure e
      | .ok firstCluster => commitFile fuel d n ((c.volume.find d n).map RawDirEntry.cluster) firstCluster size) :
    (∃ c', Gives m c .ok c' ∧ Written c c' d n data size ∧ c.volume.writeCode d n size = .ok) ∨
    (∃ e c', Gives m c e c' ∧ e ≠ .ok ∧ Unchanged c c' ∧ e = c.volume.writeCode d n size) := by
  subst hmm
  rcases gives_writeLoop hm hf fuel (Writing.start hm.accepted data size) (by simp; omega) with
    ⟨c₁, l, first, prev, written, hg, w, hw⟩ | ⟨c₁, hg, hu, hlt⟩
  · rcases gives_commitFile hm h hf hd hn hold w hw
      with ⟨hcode, c', o, e, hg', he, rfl, hsz, hc⟩ | ⟨e, c', hg', he, hu, hcode⟩
    · exact .inl ⟨c', Yields.bind hg hg', ⟨o, first, he, hsz, hc⟩, hcode⟩
    · exact .inr ⟨e, c', Yields.bind hg hg', he, hu, hcode⟩
  · exact .inr ⟨_, c₁, Yields.bind hg (.pure _), by decide, hu, (if_pos hlt).symm⟩

/-- `fat12_write_file` up to the flush, with the reason of a refusal. -/
theorem gives_writeFileBody_code (hm : Mounted c) (h : c.volume.WF ∅) (hs : c.Settled) (hf : 4096 ≤ fuel)
    (path : List UInt8) (data : Option Buf) (size : Nat) :
    (∃ c' d n, Gives (writeFileBody fuel path data size) c .ok c' ∧
      c.volume.resolve (c.start path).1 (c.start path).2 (components path) = .ok (d, n) ∧
      Written c c' d n (data.getD fun _ => 0) size ∧ c.volume.storeCode size d n = .ok ∧
      ¬ (data.isNone ∧ size > 0)) ∨
    (∃ e c', Gives (writeFileBody fuel path data size) c e c' ∧ e ≠ .ok ∧ Unchanged c c' ∧
      e = if data.isNone ∧ size > 0 then .errInvalidName
        else pathCode (c.volume.resolve (c.start path).1 (c.start path).2 (components path))
          (c.volume.storeCode size)) := by
  unfold writeFileBody
  -- a null buffer with bytes to write is refused before the path is looked at
  by_cases hnull : data.isNone ∧ size > 0
  · refine .inr ⟨.errInvalidName, c, gives_core ?_, by decide, .refl c, (if_pos hnull).symm⟩
    rw [hm.ready, if_neg (by decide), if_pos hnull]
    exact .pure _
  have hres := gives_resolve hm h hf hs path
  cases hr : c.volume.resolve (c.start path).1 (c.start path).2 (components path) with
  | error e =>
    rw [hr] at hres
    refine .inr ⟨e, c, gives_core ?_, Volume.resolve_error hr, .refl c, (if_neg hnull).symm⟩
    rw [hm.ready, if_neg (by decide), if_neg hnull]
    exact hres.bind (.pure _)
  | ok r =>
    obtain ⟨d, n⟩ := r
    rw [hr] at hres
    obtain ⟨⟨q, hd⟩, hn⟩ := resolve_dir h hs hr
    have hfe := gives_findEntry hm hf (h.walkable ⟨q, hd⟩) n
    have hfind := Volume.find_eq c.volume d n
    cases hp : c.volume.lookup d n with
    | none =>
      -- no entry under the name, a new one is stored
      rw [hp] at hfe hfind
      rcases gives_store hm h hf hd hn (by rw [hfind]; simp) (data.getD fun _ => 0) size rfl with
        ⟨c', hg, hw, hcode⟩ | ⟨e, c', hg, he, hu, hcode⟩
      · rw [hfind] at hg
        have hstore := Volume.storeCode_ok.2 ⟨fun o ho => (by rw [hfind] at ho; cases ho), hcode⟩
        refine .inl ⟨c', d, n, gives_core ?_, rfl, hw, hstore, hnull⟩
        rw [hm.ready, if_neg (by decide), if_neg hnull]
        exact hres.bind (hfe.bind hg)
      · rw [hfind] at hg
        refine .inr ⟨e, c', gives_core ?_, he, hu, ?_⟩
        · rw [hm.ready, if_neg (by decide), if_neg hnull]
          exact hres.bind (hfe.bind hg)
        · rw [if_neg hnull, hcode]
          show _ = c.volume.storeCode size d n
          unfold Volume.storeCode
          rw [hfind]
          rfl
    | some p =>
      -- an entry under the name, a directory or the file to replace
      rw [hp] at hfe hfind
      change c.volume.find d n = some (c.volume.slot p) at hfind
      by_cases hi : (c.volume.slot p).isDirectory = true
      · refine .inr ⟨.errAlreadyExists, c, gives_core ?_, by decide, .refl c, ?_⟩
        · rw [hm.ready, if_neg (by decide), if_neg hnull]
          refine hres.bind (hfe.bind ?_)
          dsimp only
          rw [if_pos hi]
          exact .pure _
        · rw [if_neg hnull]
          show _ = c.volume.storeCode size d n
          unfold Volume.storeCode
          rw [hfind]
          exact (if_pos hi).symm
      · rcases gives_store hm h hf hd hn (by rw [hfind]; rintro o ⟨⟩; simpa using hi) (data.getD fun _ => 0)
          size rfl with ⟨c', hg, hw, hcode⟩ | ⟨e, c', hg, he, hu, hcode⟩
        · rw [hfind] at hg
          have hstore := Volume.storeCode_ok.2 ⟨fun o ho => (by rw [hfind] at ho; cases ho; simpa using hi), hcode⟩
          refine .inl ⟨c', d, n, gives_core ?_, rfl, hw, hstore, hnull⟩
          rw [hm.ready, if_neg (by decide), if_neg hnull]
          refine hres.bind (hfe.bind ?_)
          dsimp only
          rw [if_neg hi]
          exact hg
        · rw [hfind] at hg
          refine .inr ⟨e, c', gives_core ?_, he, hu, ?_⟩
          · rw [hm.ready, if_neg (by decide), if_neg hnull]
            refine hres.bind (hfe.bind ?_)
            dsimp only
            rw [if_neg hi]
            exact hg
          · rw [if_neg hnull, hcode]
            show _ = c.volume.storeCode size d n
            unfold Volume.storeCode
            rw [hfind]
            exact (if_neg hi).symm

/-- `fat12_write_file` up to the flush: the file is written, or nothing changed. A file that may be written
is refused for want of space only. -/
theorem gives_writeFileBody (hm : Mounted c) (h : c.volume.WF ∅) (hs : c.Settled) (hf : 4096 ≤ fuel)
    (path : List UInt8) (data : Option Buf) (size : Nat) :
    (∃ c' d n, Gives (writeFileBody fuel path data size) c .ok c' ∧
      c.volume.resolve (c.start path).1 (c.start path).2 (components path) = .ok (d, n) ∧
      Written c c' d n (data.getD fun _ => 0) size ∧ c.volume.writeCode d n size = .ok) ∨
    (∃ e c', Gives (writeFileBody fuel path data size) c e c' ∧ e ≠ .ok ∧ Unchanged c c' ∧
      ∀ d n, (data.isNone → size = 0) →
        c.volume.resolve (c.start path).1 (c.start path).2 (components path) = .ok (d, n) →
        (∀ o, c.volume.find d n = some o → o.isDirectory = false) → e = c.volume.writeCode d n size) := by
  rcases gives_writeFileBody_code hm h hs hf path data size
    with ⟨c', d, n, hg, hr, hw, hcode, -⟩ | ⟨e, c', hg, he, hu, hcode⟩
  · exact .inl ⟨c', d, n, hg, hr, hw, (Volume.storeCode_ok.1 hcode).2⟩
  refine .inr ⟨e, c', hg, he, hu, fun d n h0 hr hfile => ?_⟩
  rw [hcode, if_neg fun hnull => by have := h0 hnull.1; omega, hr]
  show c.volume.storeCode size d n = _
  unfold Volume.storeCode
  split
  · rename_i o ho
    rw [hfile o ho, if_neg (by decide)]
  · rfl

end Write

/-! ## Creating a directory -/

section Create

variable {k d q fuel : Nat} {n : ShortName}

/-- The new directory seen on the volume: `n` in `d` names the empty directory `k`. -/
structure Made (c c' : Core) (d : Nat) (n : ShortName) (k : Nat) : Prop where
  edited : ∃ o, ¬ o.Live ∧ Edited c c' d n o (fillDirEntry n attrDirectory k 0)
  cluster : (fillDirEntry n attrDirectory k 0).cluster = k
  fresh : c'.volume.Fresh k d
  card : c'.volume.freeClusters.card + (if c.volume.freeSlot d = none then 2 else 1) = c.volume.freeClusters.card

/-- `c` after `fat12_create_directory` took the cluster `k` and filled it. -/
def Core.dots (c : Core) (k d : Nat) : Core :=
  (c.alloc k).putCluster k (dotBuffer (fun _ => 0) c.fs.clusterSizeBytes k d)

theorem dotBuffer_congr (b : Buf) (m k d : Nat) :
    ∀ i < m, dotBuffer b m k d i = dotBuffer (fun _ => 0) m k d i := by
  intro i hi
  unfold dotBuffer
  have hfill : b.fill 0 m i = Buf.fill (fun _ => 0) 0 m i := by rw [Buf.fill_lt hi, Buf.fill_lt hi]
  simp only [Buf.blit]
  rw [hfill]

/-- The slots of the new cluster: the dot entries, and zeros. -/
theorem slotAt_dotBuffer (m k d : Nat) (i : Nat) : slotAt (dotBuffer (fun _ => 0) m k d) i =
    if i = 0 then fillDirEntry dotName attrDirectory k 0
    else if i = 1 then fillDirEntry dotDotName attrDirectory d 0
    else slotAt (fun _ => 0) 0 := by
  have hzero : ∀ j, Buf.fill (fun _ => 0) 0 m j = 0 := fun j => by unfold Buf.fill; split <;> rfl
  unfold slotAt
  split
  · rename_i h0
    subst h0
    refine decodeEntry_bytes fun x hx => ?_
    unfold dotBuffer
    rw [Buf.blit_out (.inl (by unfold dirEntrySize; omega))]
    exact @Buf.blit_in _ _ 0 _ _ hx
  · split
    · rename_i h1
      subst h1
      refine decodeEntry_bytes fun x hx => ?_
      unfold dotBuffer
      exact Buf.blit_in hx
    · refine decodeEntry_congr fun x hx => ?_
      unfold dotBuffer
      rw [Buf.blit_out (.inr (by unfold dirEntrySize; omega)),
        Buf.blit_out (.inr (by unfold dirEntrySize; omega)), hzero]

/-- A directory is named by fewer than 16 bits. -/
theorem dir_lt (hm : Mounted c) (h : c.volume.WF P) (hd : c.volume.IsDir d q) : d < 65536 := by
  by_cases h0 : d = 0
  · omega
  · have := InRange.lt_4086 hm (h.dir_range hd h0)
    omega

theorem Volume.Fresh.congr {V W : Volume} (f : V.Fresh k d) (hz : Volume.SameSizes V W) (hf : W.fat k = V.fat k)
    (hd : W.data k = V.data k) : W.Fresh k d := by
  have hs : ∀ i, W.slot (k, i) = V.slot (k, i) := fun i => by
    unfold Volume.slot
    have := f.range.1
    rw [if_neg (show k ≠ 0 by omega), if_neg (show k ≠ 0 by omega), hd]
  refine ⟨hz.inRange.2 f.range, by
    rw [hf]; exact f.stop, f.dots.congr (hs 0) (hs 1), fun i hi => ?_, fun i hi hi2 => ?_⟩
  · rw [hs]; exact f.label i hi
  · rw [hs]; exact f.blank i (by rw [← hz.perCluster]; exact hi) hi2

theorem took_dots (hm : Mounted c) (hk : k ∈ c.volume.freeClusters) (d : Nat) : Took c (c.dots k d) [k] :=
  ((Took.refl c).alloc hm hk).putCluster hm (List.mem_singleton.2 rfl) _

theorem fresh_dots (hm : Mounted c) (h : c.volume.WF P) (hd : c.volume.IsDir d q) (hk : k ∈ c.volume.freeClusters) :
    (c.dots k d).volume.Fresh k d := by
  have hkr := (mem_freeClusters.1 hk).1
  have hk4 := InRange.lt_4086 hm hkr
  have t := took_dots hm hk d
  have hma := (env_alloc c k).mounted hm
  have hpc := volume_perCluster c
  have hslot : ∀ i < c.volume.perCluster, (c.dots k d).volume.slot (k, i) =
      slotAt (dotBuffer (fun _ => 0) c.fs.clusterSizeBytes k d) i := by
    intro i hi
    unfold Volume.slot
    rw [if_neg (show k ≠ 0 by have := hkr.1; omega), Core.dots,
      data_putCluster hma ((env_alloc c k).sizes.inRange.2 hkr), if_pos rfl]
    refine decodeEntry_congr fun x hx => if_pos ?_
    have h1 : c.fs.clusterSizeBytes = dirEntrySize * c.volume.perCluster := hm.geom.clusterSize_eq
    show dirEntrySize * i + x < c.fs.clusterSizeBytes
    rw [h1]
    unfold dirEntrySize
    omega
  have h2 := hm.geom.perCluster_ge
  have h0 := (hslot 0 (by omega)).trans (slotAt_dotBuffer ..)
  have h1 := (hslot 1 (by omega)).trans (slotAt_dotBuffer ..)
  rw [if_pos rfl] at h0
  rw [if_neg (by decide), if_pos rfl] at h1
  have hdir : ∀ {n : ShortName} {x : Nat}, (fillDirEntry n attrDirectory x 0).isDirectory = true := fun {_ _} =>
    (by decide : (attrDirectory &&& attrDirectory != 0) = true)
  refine ⟨t.env.sizes.inRange.2 hkr, ?_, ⟨?_, ?_, ?_, ?_, ?_, ?_⟩, fun i hi => ?_, fun i hi hi2 => ?_⟩
  · rw [Core.dots, fat_putCluster, fat_alloc hkr, if_pos rfl]
  · rw [h0]; rfl
  · rw [h0]; exact hdir
  · rw [h0]; exact fillDirEntry_cluster (by omega)
  · rw [h1]; rfl
  · rw [h1]; exact hdir
  · rw [h1]; exact fillDirEntry_cluster (dir_lt hm h hd)
  · rcases (by omega : i = 0 ∨ i = 1) with rfl | rfl
    · rw [h0]; exact (by decide : attrDirectory &&& attrVolumeId = 0)
    · rw [h1]; exact (by decide : attrDirectory &&& attrVolumeId = 0)
  · rw [t.env.sizes.perCluster] at hi
    rw [hslot i hi, slotAt_dotBuffer, if_neg (by omega), if_neg (by omega)]
    rfl

/-- The entry of the new directory may be stored. -/
theorem newEntry_dots (hm : Mounted c) (h : c.volume.WF P) (hd : c.volume.IsDir d q)
    (hk : k ∈ c.volume.freeClusters) (hn : n.Proper) :
    (c.dots k d).volume.NewEntry (P ∪ {x | x ∈ [k]}) d n (fillDirEntry n attrDirectory k 0) ∧
      (fillDirEntry n attrDirectory k 0).cluster = k ∧ (c.dots k d).volume.chain k = [k] := by
  have hk4 := InRange.lt_4086 hm (mem_freeClusters.1 hk).1
  have hc : (fillDirEntry n attrDirectory k 0).cluster = k := fillDirEntry_cluster (by omega)
  have f := fresh_dots hm h hd hk
  have hm₁ := (took_dots hm hk d).env.mounted hm
  have hch := f.chain.eq hm₁.geom
  have hdir : (fillDirEntry n attrDirectory k 0).isDirectory = true :=
    (by decide : (attrDirectory &&& attrDirectory != 0) = true)
  refine ⟨⟨fillDirEntry_live hn, rfl, (by decide : attrDirectory &&& attrVolumeId = 0), fun hf => ?_, fun _ => ?_,
    ?_⟩, hc, hch⟩
  · rw [hdir] at hf
    cases hf
  · rw [hc]
    exact f
  · rw [hc, hch]
    exact fun x hx => .inr hx

/-- `fat12_create_directory` behind its first search, when that did not find the name. -/
def createBehind (fuel : Nat) (fs : Fs) (d : Nat) (n : ShortName) : M Code := do
  let newCluster ← allocateCluster
  if newCluster = 0 then pure .errNoFreeCluster
  else
    let buffer ← getClusterBuffer
    let buffer := dotBuffer buffer fs.clusterSizeBytes newCluster d
    setClusterBuffer buffer
    if ← writeCluster newCluster buffer then
      match ← writeDirectoryEntry fuel d n (fillDirEntry n attrDirectory newCluster 0) with
      | .ok => pure .ok
      | e =>
        freeChain fuel newCluster
        pure e
    else
      freeChain fuel newCluster
      pure .errIo

/-- `fat12_create_directory` from the directory entry on. -/
theorem gives_createBehind_entry {e : Code} (hm : Mounted c) (hk : firstFree c = some k)
    (hg : Gives (do
      match ← writeDirectoryEntry fuel d n (fillDirEntry n attrDirectory k 0) with
      | .ok => pure .ok
      | e =>
        freeChain fuel k
        pure e) (c.dots k d) e c') : Gives (createBehind fuel c.fs d n) c e c' := by
  have hkr := (mem_freeClusters.1 (firstFree_some hk)).1
  refine (gives_allocateCluster_some hm hk).bind ?_
  rw [if_neg (by have := hkr.1; omega)]
  refine gives_clusterBuffer fun b => (gives_setClusterBuffer _ _).bind ?_
  refine Yields.bind (gives_writeCluster (c.alloc k) ((env_alloc c k).mounted hm).accepted.spc_ne
    fun i hi => dotBuffer_congr b _ k d i ?_) hg
  rw [(env_alloc c k).fs, ← hm.accepted.clusterSize_eq] at hi
  exact hi

/-- `fat12_create_directory` behind a search that did not find the name, with the reason of a refusal. -/
theorem gives_createBehind (hm : Mounted c) (h : c.volume.WF ∅) (hf : 4096 ≤ fuel) (hd : c.volume.IsDir d q)
    (hn : n.Proper) (hfind : c.volume.find d n = none) :
    (∃ c' k, Gives (createBehind fuel c.fs d n) c .ok c' ∧ Made c c' d n k ∧ c.volume.makeCode d n = .ok) ∨
    (∃ e c', Gives (createBehind fuel c.fs d n) c e c' ∧ e ≠ .ok ∧ Unchanged c c' ∧ e = c.volume.makeCode d n) := by
  cases hk : firstFree c with
  | none =>
    have hcode : c.volume.makeCode d n = .errNoFreeCluster := by
      unfold Volume.makeCode
      rw [if_neg (not_not.2 hfind), if_pos (by rw [firstFree_none hk, Finset.card_empty]; decide)]
    exact .inr ⟨.errNoFreeCluster, c, (gives_allocateCluster_none hk).bind (.pure _), by
      decide, .refl c, hcode.symm⟩
  | some k =>
    have hkf := firstFree_some hk
    have hkr := (mem_freeClusters.1 hkf).1
    have t := took_dots hm hkf d
    have a := t.agree h
    have h₁ := t.wf h
    have hm₁ := t.env.mounted hm
    obtain ⟨ne, hcl, hch⟩ := newEntry_dots hm h hd hkf hn
    have f := fresh_dots hm h hd hkf
    have hP : ∀ x ∈ (∅ ∪ {x | x ∈ [k]} : Set Nat), 2 ≤ x ∧ x ∉ (c.dots k d).volume.freeClusters := by
      rintro x (hx | hx)
      · exact hx.elim
      · exact ⟨(t.range hx).1, fun hfr => t.taken x hx (mem_freeClusters.1 hfr).2⟩
    have hundo : ∀ e : Code, Gives (do freeChain fuel k; pure e) (c.dots k d) e ((c.dots k d).freeAll [k]) :=
      fun e =>
      (gives_freeChain hm₁ f.chain.tail (List.nodup_singleton k) (by simp; omega)).bind (.pure _)
    have hcard := t.card
    rw [List.length_singleton] at hcard
    have hnone : ¬ c.volume.find d n ≠ none := not_not.2 hfind
    have hroom : ¬ c.volume.freeClusters.card < 1 := by omega
    rcases gives_writeDirectoryEntry hm₁ h₁ hP hf ((a.isDir h).2 hd) hn ne (fun o ho => by
        rw [a.find h hd, hfind] at ho; cases ho) with ⟨c₂, o, hg, hp⟩ | ⟨hg, h0, -, hfs⟩ | ⟨hg, h0, -, hfs, hfree⟩
    · have hm₂ := hp.env.mounted hm₁
      have ho : ¬ o.Live := by
        rcases hp.old with ⟨-, ho⟩ | ⟨ho, -⟩
        · rw [a.find h hd, hfind] at ho
          cases ho
        · exact ho
      have hw₂ : c₂.volume.WF ∅ := by
        convert hp.wf using 1
        ext x
        simp [hcl, hch, ho]
      have hE : Edited c c₂ d n o (fillDirEntry n attrDirectory k 0) :=
        ⟨t.env.trans hp.env, hw₂, hp.edit.agree_left h a hd, .inr ⟨ho, hfind⟩⟩
      refine .inl ⟨c₂, k, gives_createBehind_entry hm hk (hg.bind (.pure _)), ⟨⟨o, ho, hE⟩, hcl, ?_, ?_⟩, ?_⟩
      · exact f.congr hp.env.sizes (hp.fat k (.inl (.inr (List.mem_singleton.2 rfl))))
          (hp.data k (.inr (List.mem_singleton.2 rfl)))
      · have hslot := a.freeSlot h hd
        rcases hp.free with ⟨h1, h2⟩ | ⟨z, hz, h1, -, -, h2⟩
        · rw [if_neg (by rw [← hslot]; exact h2.resolve_left ho), h1]
          exact hcard
        · have hpos := Finset.card_pos.2 ⟨z, hz⟩
          rw [if_pos (by rw [← hslot]; exact h2), h1, Finset.card_erase_of_mem hz]
          omega
      · -- a slot was there, or a cluster to make one
        unfold Volume.makeCode
        rw [if_neg hnone, if_neg hroom]
        rcases hp.free with ⟨-, h2⟩ | ⟨z, hz, -, h0, -⟩
        · rw [if_neg (by rw [← a.freeSlot h hd]; exact h2.resolve_left ho)]
        · have hpos := Finset.card_pos.2 ⟨z, hz⟩
          rw [if_neg h0, if_neg (show ¬ c.volume.freeClusters.card < 2 by omega), ite_self]
    · rw [a.freeSlot h hd] at hfs
      refine .inr ⟨.errDirFull, _, gives_createBehind_entry hm hk (hg.bind (hundo _)), by decide, t.freeAll, ?_⟩
      show _ = c.volume.makeCode d n
      unfold Volume.makeCode
      rw [if_neg hnone, if_neg hroom, if_pos hfs, if_pos h0]
    · rw [a.freeSlot h hd] at hfs
      refine .inr ⟨.errNoFreeCluster, _, gives_createBehind_entry hm hk (hg.bind (hundo _)), by
        decide, t.freeAll, ?_⟩
      rw [hfree, Finset.card_empty] at hcard
      show _ = c.volume.makeCode d n
      unfold Volume.makeCode
      rw [if_neg hnone, if_neg hroom, if_pos hfs, if_neg h0, if_pos (show c.volume.freeClusters.card < 2 by omega)]

/-- `fat12_create_directory` up to the flush, with the reason of a refusal. -/
theorem gives_createDirectoryBody_code (hm : Mounted c) (h : c.volume.WF ∅) (hs : c.Settled) (hf : 4096 ≤ fuel)
    (path : List UInt8) :
    (∃ c' d n k, Gives (createDirectoryBody fuel path) c .ok c' ∧
      c.volume.resolve (c.start path).1 (c.start path).2 (components path) = .ok (d, n) ∧ c.volume.find d n = none ∧
      Made c c' d n k ∧ c.volume.makeCode d n = .ok) ∨
    (∃ e c', Gives (createDirectoryBody fuel path) c e c' ∧ e ≠ .ok ∧ Unchanged c c' ∧
      e = pathCode (c.volume.resolve (c.start path).1 (c.start path).2 (components path)) c.volume.makeCode) := by
  unfold createDirectoryBody
  have hres := gives_resolve hm h hf hs path
  cases hr : c.volume.resolve (c.start path).1 (c.start path).2 (components path) with
  | error e =>
    rw [hr] at hres
    refine .inr ⟨e, c, gives_core ?_, Volume.resolve_error hr, .refl c, rfl⟩
    rw [hm.ready, if_neg (by decide)]
    exact hres.bind (.pure _)
  | ok r =>
    obtain ⟨d, n⟩ := r
    rw [hr] at hres
    obtain ⟨⟨q, hd⟩, hn⟩ := resolve_dir h hs hr
    have hfe := gives_findEntry hm hf (h.walkable ⟨q, hd⟩) n
    have hfind := Volume.find_eq c.volume d n
    cases hp : c.volume.lookup d n with
    | some p =>
      rw [hp] at hfe hfind
      refine .inr ⟨.errAlreadyExists, c, gives_core ?_, by decide, .refl c, (if_pos ?_).symm⟩
      swap
      · rw [hfind]
        exact Option.some_ne_none _
      rw [hm.ready, if_neg (by decide)]
      exact hres.bind (hfe.bind (.pure _))
    | none =>
      rw [hp] at hfe hfind
      change c.volume.find d n = none at hfind
      have hall : ∀ {e c'}, Gives (createBehind fuel c.fs d n) c e c' →
          Gives (createDirectoryBody fuel path) c e c' := fun hg => by
        refine gives_core ?_
        rw [hm.ready, if_neg (by decide)]
        exact hres.bind (hfe.bind hg)
      rcases gives_createBehind hm h hf hd hn hfind with ⟨c', k, hg, hmade, hcode⟩ | ⟨e, c', hg, he, hu, hcode⟩
      · exact .inl ⟨c', d, n, k, hall hg, rfl, hfind, hmade, hcode⟩
      · exact .inr ⟨e, c', hall hg, he, hu, hcode⟩

/-- `fat12_create_directory` up to the flush: the directory is made, or nothing changed. -/
theorem gives_createDirectoryBody (hm : Mounted c) (h : c.volume.WF ∅) (hs : c.Settled) (hf : 4096 ≤ fuel)
    (path : List UInt8) :
    (∃ c' d n k, Gives (createDirectoryBody fuel path) c .ok c' ∧
      c.volume.resolve (c.start path).1 (c.start path).2 (components path) = .ok (d, n) ∧ c.volume.find d n = none ∧
      Made c c' d n k) ∨
    (∃ e c', Gives (createDirectoryBody fuel path) c e c' ∧ e ≠ .ok ∧ Unchanged c c') := by
  rcases gives_createDirectoryBody_code hm h hs hf path
    with ⟨c', d, n, k, hg, hr, hfn, hmade, -⟩ | ⟨e, c', hg, he, hu, -⟩
  · exact .inl ⟨c', d, n, k, hg, hr, hfn, hmade⟩
  · exact .inr ⟨e, c', hg, he, hu⟩

end Create

/-! ## Deleting a file -/

section Delete

variable {d q fuel : Nat} {n : ShortName} {o : RawDirEntry} {p : Loc}

/-- The file deleted, seen on the volume: `n` in `d` named the file `o`, and names nothing any more. -/
structure Deleted (c c' : Core) (d : Nat) (n : ShortName) (o : RawDirEntry) : Prop where
  edited : Edited c c' d n o (deletedEntry o)
  live : o.Live
  file : o.isDirectory = false
  free : c'.volume.freeClusters = c.volume.freeClusters ∪ (c.volume.chain o.cluster).toFinset

theorem deletedEntry_first (o : RawDirEntry) : (deletedEntry o).name.first = nameDeleted :=
  ShortName.first_setFirst ..

theorem deletedEntry_not_live (o : RawDirEntry) : ¬ (deletedEntry o).Live := fun h =>
  ((RawDirEntry.live_iff _).1 h).2 (deletedEntry_first o)

theorem put_deleted (h : c.volume.WF P) (hd : c.volume.IsDir d q) (hp : c.volume.EntryAt d p)
    (hi : (c.volume.slot p).isDirectory = false) : c.volume.Put P d p (deletedEntry (c.volume.slot p)) where
  mem := hp.mem
  notDot := hp.notDot
  old := fun _ => hi
  first := by rw [deletedEntry_first]; decide
  before := (h.tidy hd).before ((RawDirEntry.live_iff _).1 hp.live).1
  name := fun hl => absurd hl (deletedEntry_not_live _)
  label := fun hl => absurd hl (deletedEntry_not_live _)
  file := fun hl => absurd hl (deletedEntry_not_live _)
  dir := fun hl => absurd hl (deletedEntry_not_live _)
  pending := fun hl => absurd hl (deletedEntry_not_live _)

theorem Volume.putSlot_congr {V W : Volume} (hr : W.root = V.root) (hd : W.data = V.data) (p : Loc)
    (e : RawDirEntry) :
    (W.putSlot p e).root = (V.putSlot p e).root ∧ (W.putSlot p e).data = (V.putSlot p e).data := by
  unfold Volume.putSlot
  split
  · exact ⟨by rw [hr], hd⟩
  · exact ⟨hr, by rw [hd]⟩

/-- The chain of a file, given back while its entry is still there. -/
theorem runs_freeFile (hm : Mounted c) (h : c.volume.WF P) (hf : 4096 ≤ fuel) (hp : c.volume.Entry p)
    (f : Nat → Option Nat) :
    Runs (freeFrom fuel (c.volume.slot p).cluster) c f () (c.freeAll (c.volume.owned p)) f := by
  rcases h.owned_cases hp with ⟨h1, -, -, h0⟩ | hc
  · rw [h0, h1]
    have ht : c.volume.Tail 0 [] := ⟨fun _ hk => (nomatch hk), 0, rfl, rfl⟩
    exact runs_freeFrom hm.accepted ht List.nodup_nil (by rw [List.length_nil]; omega) f
  · have := hc.length_lt hm.geom
    exact runs_freeFrom hm.accepted hc.tail hc.nodup (by omega) f

/-- A directory shares no cluster with a file. -/
theorem dir_notMem_owned (h : c.volume.WF P) (hd : c.volume.IsDir d q) (h0 : d ≠ 0) (hp : c.volume.Entry p)
    (hi : (c.volume.slot p).isDirectory = false) {k : Nat} (hk : k ∈ c.volume.chain d) : k ∉ c.volume.owned p := by
  intro hkp
  obtain ⟨-, p', hp', -, hi', rfl⟩ := h.dir_chain hd h0
  obtain rfl := h.entry_unique hp hp' hkp hk
  rw [hi] at hi'
  cases hi'

/-- Freeing a file's chain leaves every directory to be walked as it was. -/
theorem locs_freeFile (h : c.volume.WF P) (hd : c.volume.IsDir d q) (hp : c.volume.Entry p)
    (hi : (c.volume.slot p).isDirectory = false) : (c.freeAll (c.volume.owned p)).volume.Walkable d ∧
      (c.freeAll (c.volume.owned p)).volume.locs d = c.volume.locs d ∧
      (c.freeAll (c.volume.owned p)).volume.chain d = c.volume.chain d := by
  have henv := env_freeAll c (c.volume.owned p)
  unfold Volume.Walkable Volume.locs
  rw [henv.sizes.rootEntryCount, henv.sizes.perCluster]
  by_cases h0 : d = 0
  · rw [if_pos h0, if_pos h0]
    subst h0
    exact ⟨.inl rfl, rfl, Volume.chain_zero.trans Volume.chain_zero.symm⟩
  · have hfat : ∀ x ∈ c.volume.chain d, (c.freeAll (c.volume.owned p)).volume.fat x = c.volume.fat x := fun x hx =>
      fat_freeAll_ne (dir_notMem_owned h hd h0 hp hi hx)
    have hchain := Volume.chain_congr hfat
    rw [hchain]
    exact ⟨.inr (henv.sizes.chain (h.dir_chain hd h0).1 hfat), rfl, rfl⟩

theorem slot_freeAll (c : Core) (l : List Nat) (x : Loc) : (c.freeAll l).volume.slot x = c.volume.slot x := by
  unfold Volume.slot
  rw [(env_freeAll c l).root (rootDir_freeAll c l), data_freeAll]

/-- `fat12_find_entry` finds the file after its chain was given back, at the cost of the same reads. -/
theorem looks_findFreed (hm : Mounted c) (h : c.volume.WF P) (hf : 4096 ≤ fuel) (hd : c.volume.IsDir d q)
    (hp : c.volume.EntryAt d p) (hi : (c.volume.slot p).isDirectory = false) (hl : c.volume.lookup d n = some p) :
    Looks (findEntry fuel d n) (c.freeAll (c.volume.owned p)) (c.lookupReads d n) (.ok (c.volume.slot p, p))
      (.error .errIo) := by
  have henv := env_freeAll c (c.volume.owned p)
  have hacc := henv.accepted hm.accepted
  obtain ⟨hwalk, hlocs, hchain⟩ := locs_freeFile h hd (hp.entry hd) hi
  have hlookup : (c.freeAll (c.volume.owned p)).volume.lookup d n = some p := by
    rw [← hl]
    unfold Volume.lookup
    rw [hlocs, scan_congr fun x _ => by rw [slot_freeAll]]
  have hfe := looks_findEntry hacc hf hwalk n
  rw [hlookup, lookupReads_congr hm.accepted hacc henv.sizes (h.walkable ⟨q, hd⟩) hwalk hchain hlocs
    (fun x _ => slot_freeAll ..) n] at hfe
  dsimp only at hfe
  rw [slot_freeAll] at hfe
  exact hfe

/-- `fat12_mark_entry_deleted`, after the file's chain was given back. -/
theorem gives_markDeleted (hm : Mounted c) (h : c.volume.WF P) (hf : 4096 ≤ fuel) (hd : c.volume.IsDir d q)
    (hp : c.volume.EntryAt d p) (hi : (c.volume.slot p).isDirectory = false) (hl : c.volume.lookup d n = some p) :
    Gives (markEntryDeleted fuel d n) (c.freeAll (c.volume.owned p)) .ok
      ((c.freeAll (c.volume.owned p)).putEntry p (deletedEntry (c.volume.slot p))) := by
  have henv := env_freeAll c (c.volume.owned p)
  have hslot : (c.freeAll (c.volume.owned p)).IsSlot p := by
    unfold Core.IsSlot
    rw [henv.fs]
    exact isSlot_of_mem h hd hp.mem
  unfold markEntryDeleted
  exact (looks_findFreed hm h hf hd hp hi hl).gives.bind (gives_writeEntry (henv.accepted hm.accepted) hslot _)

/-- Freeing and then marking the slot, seen on the volume. -/
theorem edited_deleted (hm : Mounted c) (h : c.volume.WF ∅) (hd : c.volume.IsDir d q) (hp : c.volume.EntryAt d p)
    (hi : (c.volume.slot p).isDirectory = false)
    (hlk : c.volume.find d (c.volume.slot p).name = some (c.volume.slot p)) :
    Deleted c ((c.freeAll (c.volume.owned p)).putEntry p (deletedEntry (c.volume.slot p))) d (c.volume.slot p).name
      (c.volume.slot p) := by
  have hent := hp.entry hd
  have henv := env_freeAll c (c.volume.owned p)
  have u := put_deleted h hd hp hi
  have hslot : (c.freeAll (c.volume.owned p)).IsSlot p := by
    unfold Core.IsSlot
    rw [henv.fs]
    exact isSlot_of_mem h hd hp.mem
  have hv := volume_putEntry (henv.mounted hm) (deletedEntry (c.volume.slot p)) hslot
  have hr : ∀ k ∈ c.volume.owned p, c.volume.InRange k := fun k hk => h.owned_range hent hk
  obtain ⟨h1, h2⟩ := Volume.putSlot_congr (henv.root (rootDir_freeAll c _)) (data_freeAll c (c.volume.owned p)) p
    (deletedEntry (c.volume.slot p))
  have hw := u.wf h hd
  have hrest : ∀ k, k ∈ Volume.Put.rest c.volume ∅ p (deletedEntry (c.volume.slot p)) ↔
      k ∈ c.volume.owned p := fun k => by
    have := hp.live
    simp [Volume.Put.rest, this]
  -- only the cells of the chain differ from the volume with the slot put
  have hfat : ∀ k, k ∉ c.volume.owned p →
      ((c.freeAll (c.volume.owned p)).putEntry p (deletedEntry (c.volume.slot p))).volume.fat k =
      (c.volume.putSlot p (deletedEntry (c.volume.slot p))).fat k := fun k hk => by
    rw [hv, Volume.putSlot_fat, Volume.putSlot_fat, fat_freeAll_ne hk]
  have a : Volume.Agree (c.volume.putSlot p (deletedEntry (c.volume.slot p)))
      ((c.freeAll (c.volume.owned p)).putEntry p (deletedEntry (c.volume.slot p))).volume := by
    refine ⟨?_, by rw [hv, h1], fun k hk => hfat k fun hk' => hw.pending k ((hrest k).2 hk') hk, fun k _ => by
      rw [hv, h2]⟩
    have hz := henv.sizes
    have hz1 := Volume.putSlot_sizes c.volume p (deletedEntry (c.volume.slot p))
    have hz2 := Volume.putSlot_sizes (c.freeAll (c.volume.owned p)).volume p (deletedEntry (c.volume.slot p))
    rw [hv]
    exact ⟨by rw [hz2.totalClusters, hz1.totalClusters, hz.totalClusters],
      by rw [hz2.fatSizeBytes, hz1.fatSizeBytes, hz.fatSizeBytes],
      by rw [hz2.rootEntryCount, hz1.rootEntryCount, hz.rootEntryCount],
      by rw [hz2.clusterSize, hz1.clusterSize, hz.clusterSize]⟩
  have hwf : ((c.freeAll (c.volume.owned p)).putEntry p (deletedEntry (c.volume.slot p))).volume.WF ∅ := by
    refine a.wf hw (fun k hk => hk.elim) fun k hk hf hb => ?_
    have hkl : k ∉ c.volume.owned p := fun hkl => by
      rw [hv, Volume.putSlot_fat] at hf
      exact hf (fat_freeAll_mem hr hkl)
    rw [hfat k hkl] at hf hb
    exact .inl ((hw.noLost k hk hf hb).resolve_right fun hP => hkl ((hrest k).1 hP))
  refine ⟨⟨henv.trans (env_putEntry _ p _), hwf, ?_, .inl ⟨hp.live, hlk⟩⟩, hp.live, hi, ?_⟩
  · refine (Volume.Edit.of_put h hd u (fun _ => rfl) (fun hl => absurd hl (deletedEntry_not_live _)) fun e' he' =>
      ?_).agree_right hw hd a
    rw [hlk] at he'
    cases he'
    exact ⟨rfl, hi⟩
  · rw [← Volume.owned, ← freeClusters_freeAll hr]
    exact freeClusters_congr (env_putEntry _ p _) (by rw [hv, Volume.putSlot_fat])

/-- `fat12_delete_file` up to the flush, with the reason of a refusal. -/
theorem gives_deleteFileBody_code (hm : Mounted c) (h : c.volume.WF ∅) (hs : c.Settled) (hf : 4096 ≤ fuel)
    (path : List UInt8) :
    (∃ c' d n o, Gives (deleteFileBody fuel path) c .ok c' ∧
      c.volume.resolve (c.start path).1 (c.start path).2 (components path) = .ok (d, n) ∧ Deleted c c' d n o ∧
      c.volume.find d n = some o) ∨
    (∃ e c', Gives (deleteFileBody fuel path) c e c' ∧ e ≠ .ok ∧ Unchanged c c' ∧
      e = pathCode (c.volume.resolve (c.start path).1 (c.start path).2 (components path)) c.volume.deleteCode) := by
  unfold deleteFileBody
  have hres := gives_resolve hm h hf hs path
  cases hr : c.volume.resolve (c.start path).1 (c.start path).2 (components path) with
  | error e =>
    rw [hr] at hres
    refine .inr ⟨e, c, gives_core ?_, Volume.resolve_error hr, .refl c, rfl⟩
    rw [hm.ready, if_neg (by decide)]
    exact hres.bind (.pure _)
  | ok r =>
    obtain ⟨d, n⟩ := r
    rw [hr] at hres
    obtain ⟨⟨q, hd⟩, hn⟩ := resolve_dir h hs hr
    have hfe := gives_findEntry hm hf (h.walkable ⟨q, hd⟩) n
    have hfind := Volume.find_eq c.volume d n
    cases hp : c.volume.lookup d n with
    | none =>
      rw [hp] at hfe hfind
      change c.volume.find d n = none at hfind
      have hcode : c.volume.deleteCode d n = .errNotFound := by
        unfold Volume.deleteCode
        rw [hfind]
      refine .inr ⟨.errNotFound, c, gives_core ?_, by decide, .refl c, hcode.symm⟩
      rw [hm.ready, if_neg (by decide)]
      exact hres.bind (hfe.bind (.pure _))
    | some p =>
      rw [hp] at hfe hfind
      change c.volume.find d n = some (c.volume.slot p) at hfind
      -- a directory is refused, a file loses its chain and then its slot
      by_cases hi : (c.volume.slot p).isDirectory = true
      · have hcode : c.volume.deleteCode d n = .errNotFile := by
          unfold Volume.deleteCode
          rw [hfind]
          exact if_pos hi
        refine .inr ⟨.errNotFile, c, gives_core ?_, by decide, .refl c, hcode.symm⟩
        rw [hm.ready, if_neg (by decide)]
        refine hres.bind (hfe.bind ?_)
        dsimp only
        rw [if_pos hi]
        exact .pure _
      · have hi' : (c.volume.slot p).isDirectory = false := by simpa using hi
        have hep := h.lookup_entryAt ⟨q, hd⟩ hn hp
        obtain ⟨-, -, rfl⟩ := Volume.lookup_some hp
        have hent := hep.entry hd
        refine .inl ⟨_, d, (c.volume.slot p).name, c.volume.slot p, gives_core ?_, rfl,
          edited_deleted hm h hd hep hi' hfind, hfind⟩
        rw [hm.ready, if_neg (by decide)]
        refine hres.bind (hfe.bind ?_)
        dsimp only
        rw [if_neg hi]
        exact (Runs.gives fun f _ => ⟨0, runs_freeFile hm h hf hent f⟩).bind
          (gives_markDeleted hm h hf hd hep hi' hp)

/-- `fat12_delete_file` up to the flush: the file is deleted, or nothing changed. -/
theorem gives_deleteFileBody (hm : Mounted c) (h : c.volume.WF ∅) (hs : c.Settled) (hf : 4096 ≤ fuel)
    (path : List UInt8) :
    (∃ c' d n o, Gives (deleteFileBody fuel path) c .ok c' ∧
      c.volume.resolve (c.start path).1 (c.start path).2 (components path) = .ok (d, n) ∧ Deleted c c' d n o) ∨
    (∃ e c', Gives (deleteFileBody fuel path) c e c' ∧ e ≠ .ok ∧ Unchanged c c') := by
  rcases gives_deleteFileBody_code hm h hs hf path with ⟨c', d, n, o, hg, hr, hd, -⟩ | ⟨e, c', hg, he, hu, -⟩
  · exact .inl ⟨c', d, n, o, hg, hr, hd⟩
  · exact .inr ⟨e, c', hg, he, hu⟩

end Delete

/-! ## The calls -/

theorem gives_committing_ok {m : M Code} (h : Gives m c .ok c') : Gives (committing m) c .ok c'.flushed :=
  Yields.bind h (gives_flushAll c')

theorem gives_committing_error {m : M Code} {e : Code} (h : Gives m c e c') (he : e ≠ .ok) :
    Gives (committing m) c e c' := by
  refine Yields.bind h ?_
  cases e with
  | ok => exact absurd rfl he
  | _ => exact .pure _

section Calls

variable {fuel : Nat}

theorem Written.flushed (hm : Mounted c') {d : Nat} {n : ShortName} {data : Buf} {size : Nat}
    (w : Written c c' d n data size) : Written c c'.flushed d n data size := by
  obtain ⟨o, first, he, hs, hc⟩ := w.stored
  exact ⟨o, first, he.flushed hm, hs, by rw [volume_flushed hm.accepted]; exact hc⟩

theorem Written.env {d : Nat} {n : ShortName} {data : Buf} {size : Nat}
    (w : Written c c' d n data size) : SameEnv c c' := by
  obtain ⟨o, first, he, -⟩ := w.stored
  exact he.env

theorem Made.env {d k : Nat} {n : ShortName} (m : Made c c' d n k) : SameEnv c c' := by
  obtain ⟨o, -, he⟩ := m.edited
  exact he.env

theorem Made.flushed (hm : Mounted c') {d k : Nat} {n : ShortName} (m : Made c c' d n k) :
    Made c c'.flushed d n k := by
  obtain ⟨o, ho, he⟩ := m.edited
  have hv := volume_flushed hm.accepted
  exact ⟨⟨o, ho, he.flushed hm⟩, m.cluster, by rw [hv]; exact m.fresh, by rw [hv]; exact m.card⟩

theorem Deleted.flushed (hm : Mounted c') {d : Nat} {n : ShortName} {o : RawDirEntry} (x : Deleted c c' d n o) :
    Deleted c c'.flushed d n o :=
  ⟨x.edited.flushed hm, x.live, x.file, by rw [volume_flushed hm.accepted]; exact x.free⟩

/-- `fat12_write_file`, with the reason of a refusal. -/
theorem gives_writeFile_code (hm : Mounted c) (h : c.volume.WF ∅) (hs : c.Settled) (hf : 4096 ≤ fuel)
    (path : List UInt8) (data : Option Buf) (size : Nat) :
    (∃ c' d n, Gives (writeFile fuel path data size) c .ok c' ∧
      c.volume.resolve (c.start path).1 (c.start path).2 (components path) = .ok (d, n) ∧
      Written c c' d n (data.getD fun _ => 0) size ∧ ¬ (data.isNone ∧ size > 0)) ∨
    (∃ e c', Gives (writeFile fuel path data size) c e c' ∧ e ≠ .ok ∧ Unchanged c c' ∧
      e = if data.isNone ∧ size > 0 then .errInvalidName
        else pathCode (c.volume.resolve (c.start path).1 (c.start path).2 (components path))
          (c.volume.storeCode size)) := by
  rcases gives_writeFileBody_code hm h hs hf path data size
    with ⟨c', d, n, hg, hr, hw, -, hnull⟩ | ⟨e, c', hg, he, hu, hcode⟩
  · exact .inl ⟨_, d, n, gives_committing_ok hg, hr, hw.flushed (hw.env.mounted hm), hnull⟩
  · exact .inr ⟨e, c', gives_committing_error hg he, he, hu, hcode⟩

/-- `fat12_write_file`: the file is written, or nothing changed. A file that may be written is refused for
want of space only. -/
theorem gives_writeFile (hm : Mounted c) (h : c.volume.WF ∅) (hs : c.Settled) (hf : 4096 ≤ fuel) (path : List UInt8)
    (data : Option Buf) (size : Nat) :
    (∃ c' d n, Gives (writeFile fuel path data size) c .ok c' ∧
      c.volume.resolve (c.start path).1 (c.start path).2 (components path) = .ok (d, n) ∧
      Written c c' d n (data.getD fun _ => 0) size ∧ c.volume.writeCode d n size = .ok) ∨
    (∃ e c', Gives (writeFile fuel path data size) c e c' ∧ e ≠ .ok ∧ Unchanged c c' ∧
      ∀ d n, (data.isNone → size = 0) →
        c.volume.resolve (c.start path).1 (c.start path).2 (components path) = .ok (d, n) →
        (∀ o, c.volume.find d n = some o → o.isDirectory = false) → e = c.volume.writeCode d n size) := by
  rcases gives_writeFileBody hm h hs hf path data size
    with ⟨c', d, n, hg, hr, hw, hcode⟩ | ⟨e, c', hg, he, hu, hcode⟩
  · exact .inl ⟨_, d, n, gives_committing_ok hg, hr, hw.flushed (hw.env.mounted hm), hcode⟩
  · exact .inr ⟨e, c', gives_committing_error hg he, he, hu, hcode⟩

/-- `fat12_create_directory`, with the reason of a refusal. -/
theorem gives_createDirectory_code (hm : Mounted c) (h : c.volume.WF ∅) (hs : c.Settled) (hf : 4096 ≤ fuel)
    (path : List UInt8) :
    (∃ c' d n k, Gives (createDirectory fuel path) c .ok c' ∧
      c.volume.resolve (c.start path).1 (c.start path).2 (components path) = .ok (d, n) ∧ c.volume.find d n = none ∧
      Made c c' d n k ∧ c.volume.makeCode d n = .ok) ∨
    (∃ e c', Gives (createDirectory fuel path) c e c' ∧ e ≠ .ok ∧ Unchanged c c' ∧
      e = pathCode (c.volume.resolve (c.start path).1 (c.start path).2 (components path)) c.volume.makeCode) := by
  rcases gives_createDirectoryBody_code hm h hs hf path
    with ⟨c', d, n, k, hg, hr, hfn, hmade, hcode⟩ | ⟨e, c', hg, he, hu, hcode⟩
  · exact .inl ⟨_, d, n, k, gives_committing_ok hg, hr, hfn, hmade.flushed (hmade.env.mounted hm), hcode⟩
  · exact .inr ⟨e, c', gives_committing_error hg he, he, hu, hcode⟩

/-- `fat12_create_directory`: the directory is made, or nothing changed. -/
theorem gives_createDirectory (hm : Mounted c) (h : c.volume.WF ∅) (hs : c.Settled) (hf : 4096 ≤ fuel)
    (path : List UInt8) :
    (∃ c' d n k, Gives (createDirectory fuel path) c .ok c' ∧
      c.volume.resolve (c.start path).1 (c.start path).2 (components path) = .ok (d, n) ∧ c.volume.find d n = none ∧
      Made c c' d n k) ∨
    (∃ e c', Gives (createDirectory fuel path) c e c' ∧ e ≠ .ok ∧ Unchanged c c') := by
  rcases gives_createDirectory_code hm h hs hf path
    with ⟨c', d, n, k, hg, hr, hfn, hmade, -⟩ | ⟨e, c', hg, he, hu, -⟩
  · exact .inl ⟨c', d, n, k, hg, hr, hfn, hmade⟩
  · exact .inr ⟨e, c', hg, he, hu⟩

/-- `fat12_delete_file`, with the reason of a refusal. -/
theorem gives_deleteFile_code (hm : Mounted c) (h : c.volume.WF ∅) (hs : c.Settled) (hf : 4096 ≤ fuel)
    (path : List UInt8) :
    (∃ c' d n o, Gives (deleteFile fuel path) c .ok c' ∧
      c.volume.resolve (c.start path).1 (c.start path).2 (components path) = .ok (d, n) ∧ Deleted c c' d n o ∧
      c.volume.find d n = some o) ∨
    (∃ e c', Gives (deleteFile fuel path) c e c' ∧ e ≠ .ok ∧ Unchanged c c' ∧
      e = pathCode (c.volume.resolve (c.start path).1 (c.start path).2 (components path)) c.volume.deleteCode) := by
  rcases gives_deleteFileBody_code hm h hs hf path
    with ⟨c', d, n, o, hg, hr, hd, hfind⟩ | ⟨e, c', hg, he, hu, hcode⟩
  · exact .inl ⟨_, d, n, o, gives_committing_ok hg, hr, hd.flushed (hd.edited.env.mounted hm), hfind⟩
  · exact .inr ⟨e, c', gives_committing_error hg he, he, hu, hcode⟩

/-- `fat12_delete_file`: the file is deleted, or nothing changed. -/
theorem gives_deleteFile (hm : Mounted c) (h : c.volume.WF ∅) (hs : c.Settled) (hf : 4096 ≤ fuel)
    (path : List UInt8) :
    (∃ c' d n o, Gives (deleteFile fuel path) c .ok c' ∧
      c.volume.resolve (c.start path).1 (c.start path).2 (components path) = .ok (d, n) ∧ Deleted c c' d n o) ∨
    (∃ e c', Gives (deleteFile fuel path) c e c' ∧ e ≠ .ok ∧ Unchanged c c') := by
  rcases gives_deleteFile_code hm h hs hf path with ⟨c', d, n, o, hg, hr, hd, -⟩ | ⟨e, c', hg, he, hu, -⟩
  · exact .inl ⟨c', d, n, o, hg, hr, hd⟩
  · exact .inr ⟨e, c', hg, he, hu⟩

end Calls

end

end AltoniumOS.Fat12

/-
What one successful call does, as a client sees it through the calls of the driver: what the path reads
and lists afterwards, and that everything else reads and lists as before.
-/
import AltoniumOS.System.Runs

namespace AltoniumOS.Fat12

open AltoniumOS.Lib

/-- The call returns `a` in this state. -/
def Answers {α : Type} (m : M α) (s : State) (a : α) : Prop := ∃ s', m s = .ok a s'

/-- The listing of the directory `d` is `l`: that is what every callback is fed. -/
def Lists (fuel : Nat) (s : State) (d : Nat) (l : List DirEntryInfo) : Prop :=
  ∀ (κ : Type) (cb : κ → DirEntryInfo → Bool × κ) (ctx : κ),
    Answers (iterateDirectoryInternal fuel d cb ctx) s (.ok, (feed cb l ctx).2)

/-- The path looks the name `n` up in the directory `d`, on its way or at its end. -/
def Core.LooksUp (c : Core) (path : List UInt8) (d : Nat) (n : ShortName) : Prop :=
  (d, n) ∈ c.volume.lookups (c.start path).1 (c.start path).2 (components path)

/-- Paths that do not look the name up read as before, and other directories list as before. -/
structure Elsewhere (fuel : Nat) (s s' : State) (d : Nat) (n : ShortName) : Prop where
  read : ∀ path buffer maxSize, ¬ s.toCore.LooksUp path d n →
    ∃ r, Answers (readFile fuel path (some buffer) maxSize) s r ∧
    Answers (readFile fuel path (some buffer) maxSize) s' r
  list : ∀ x, s.toCore.volume.Dir x → x ≠ d → ∃ l, Lists fuel s x l ∧ Lists fuel s' x l

section

variable {fuel : Nat} {s s' : State} {d : Nat} {n : ShortName} {o e : RawDirEntry}

theorem Answers.of_gives {α : Type} {m : M α} {a : α} {c c' : Core} (h : Gives m c a c') (hc : s.toCore = c)
    (hs : Reliable s) : Answers m s a := by
  obtain ⟨s', h1, -⟩ := h s hc hs
  exact ⟨s', h1⟩

theorem Answers.eq {α : Type} {m : M α} {a b : α} (h : Answers m s a) (h' : Answers m s b) : a = b := by
  obtain ⟨s₁, h1⟩ := h
  obtain ⟨s₂, h2⟩ := h'
  rw [h1] at h2
  cases h2
  rfl

theorem lists_listing (hf : 4096 ≤ fuel) (hs : Reliable s) (h : s.toCore.WellFormed) {x : Nat}
    (hx : s.toCore.volume.Dir x) : Lists fuel s x (s.toCore.volume.listing x) := fun _ cb ctx =>
  .of_gives (gives_iterate h.mounted h.wf hf hx cb ctx) rfl hs

theorem answers_read (hf : 4096 ≤ fuel) (hs : Reliable s) (h : s.toCore.WellFormed) (path : List UInt8)
    (buffer : Buf) (maxSize : Nat) :
    Answers (readFile fuel path (some buffer) maxSize) s
      (s.toCore.volume.read (s.toCore.start path).1 (s.toCore.start path).2 (components path) buffer maxSize) :=
  .of_gives (gives_readFile h.mounted h.wf hf h.settled path buffer maxSize) rfl hs

/-- An edit of one entry leaves everything else alone. -/
theorem Edited.elsewhere (hf : 4096 ≤ fuel) (hs : Reliable s) (hs' : Reliable s') (h : s.toCore.WellFormed)
    (hd : s.toCore.volume.Dir d) (he : Edited s.toCore s'.toCore d n o e) : Elsewhere fuel s s' d n := by
  have h' := he.wellFormed h
  have a := he.edit.apart h.wf he.wf hd
  refine ⟨fun path buffer maxSize hn => ⟨_, answers_read hf hs h path buffer maxSize, ?_⟩, fun x hx hne =>
    ⟨_, lists_listing hf hs h hx, ?_⟩⟩
  · have hr := answers_read hf hs' h' path buffer maxSize
    rw [he.env.start] at hr
    rwa [a.read h.wf (h.settled.start path).1 (h.settled.start path).2 hn] at hr
  · have hl := lists_listing hf hs' h' (he.edit.dir hx)
    obtain ⟨q, hq⟩ := hx
    rwa [he.edit.listing_ne hq hne] at hl

/-- And the listing of its directory changes in the one entry. -/
theorem Edited.lists (hf : 4096 ≤ fuel) (hs : Reliable s) (hs' : Reliable s') (h : s.toCore.WellFormed)
    (hd : s.toCore.volume.Dir d) (he : Edited s.toCore s'.toCore d n o e) :
    ∃ pre post, Lists fuel s d (pre ++ Volume.Edit.info o ++ post) ∧
      Lists fuel s' d (pre ++ Volume.Edit.info e ++ post) := by
  obtain ⟨pre, post, h1, h2⟩ := he.edit.listing_self
  refine ⟨pre, post, ?_, ?_⟩
  · rw [← h1]
    exact lists_listing hf hs h hd
  · rw [← h2]
    exact lists_listing hf hs' (he.wellFormed h) (he.edit.dir hd)

/-! ## What a slot shows -/

theorem info_of_not_live (h : ¬ e.Live) : Volume.Edit.info e = [] := by
  unfold Volume.Edit.info
  refine if_neg fun hs => h ((RawDirEntry.live_iff e).2 ?_)
  unfold Volume.shown isListed at hs
  simp only [Bool.and_eq_true, bne_iff_ne, ne_eq] at hs
  exact ⟨hs.1, hs.2.1.1⟩

/-- A live entry of a proper name that is no volume label is shown. -/
theorem info_of_live (hl : e.Live) (hn : e.name.Proper) (ha : e.attr &&& attrVolumeId = 0) :
    Volume.Edit.info e = [copyEntryInfo e] := by
  unfold Volume.Edit.info
  refine if_pos ?_
  obtain ⟨h1, h2⟩ := (RawDirEntry.live_iff e).1 hl
  have h3 : e.attr ≠ attrVolumeId := fun he => by
    rw [he] at ha
    exact absurd ha (by decide)
  have h4 : isDotEntry e = false := by
    unfold isDotEntry
    split
    · rfl
    · rw [if_pos (by simpa using hn.ne.2.2)]
  unfold Volume.shown isListed
  simp [h1, h2, h3, h4]

/-- What a listing shows of an entry found under a proper name, or of none. -/
theorem Edited.info_old (h : s.toCore.WellFormed) (hd : s.toCore.volume.Dir d) (hn : n.Proper)
    (he : Edited s.toCore s'.toCore d n o e) :
    (Volume.Edit.info o = [] ∧ s.toCore.volume.find d n = none) ∨
      (Volume.Edit.info o = [copyEntryInfo o] ∧ s.toCore.volume.find d n = some o ∧ o.name = n) := by
  rcases he.old with ⟨hl, hf⟩ | ⟨hl, hf⟩
  · right
    have hname := he.edit.oldName hl
    obtain ⟨q, hq⟩ := hd
    obtain ⟨p, -, hp, rfl⟩ := h.wf.entry_of_find hq hn hf
    exact ⟨info_of_live hl (by rw [hname]; exact hn) ((h.wf.dirOk d q hq).noLabel p hp.mem hl), hf, hname⟩
  · exact .inl ⟨info_of_not_live hl, hf⟩

/-! ## Writing and deleting -/

/-- Where a call that resolved its path went. -/
theorem answers_resolve (hf : 4096 ≤ fuel) (hs : Reliable s) (h : s.toCore.WellFormed) {path : List UInt8}
    (hr : s.toCore.volume.resolve (s.toCore.start path).1 (s.toCore.start path).2 (components path) = .ok (d, n)) :
    Answers (resolveParentAndName fuel path) s (.ok (d, n)) := by
  have := gives_resolve h.mounted h.wf hf h.settled path
  rw [hr] at this
  exact .of_gives this rfl hs

/-- After an edit the path still denotes the same name of the same directory. -/
theorem Edited.resolve (h : s.toCore.WellFormed) (hd : s.toCore.volume.Dir d)
    (he : Edited s.toCore s'.toCore d n o e) {path : List UInt8}
    (hr : s.toCore.volume.resolve (s.toCore.start path).1 (s.toCore.start path).2 (components path) = .ok (d, n)) :
    s'.toCore.volume.resolve (s'.toCore.start path).1 (s'.toCore.start path).2 (components path) = .ok (d, n) := by
  rw [he.env.start]
  exact (he.edit.resolve_self h.wf he.wf hd (h.settled.start path).1 (h.settled.start path).2 hr).1

/-- A file written reads back, every path that does not look its name up reads as before, and the
listings differ in its entry only. -/
theorem write_then_read (hf : 4096 ≤ fuel) (hs : Reliable s) (h : s.toCore.WellFormed) (path : List UInt8)
    (data : Option Buf) (size : Nat) (hw : writeFile fuel path data size s = .ok .ok s') :
    ∃ d n, Answers (resolveParentAndName fuel path) s (.ok (d, n)) ∧
      (∀ buffer maxSize, size ≤ maxSize →
        ∃ out, Answers (readFile fuel path (some buffer) maxSize) s' (.ok, some out, some size) ∧
        ∀ i < size, out i = data.getD (fun _ => 0) i) ∧
      Elsewhere fuel s s' d n ∧
      ∃ pre old new post, old.length ≤ 1 ∧ (∀ x ∈ old ++ [new], x.name = dirNameToString n) ∧
        Lists fuel s d (pre ++ old ++ post) ∧ Lists fuel s' d (pre ++ [new] ++ post) := by
  rcases gives_writeFile h.mounted h.wf h.settled hf path data size
    with ⟨c', d, n, hg, hr, hwr, -⟩ | ⟨e, c', hg, he, -⟩
  · obtain ⟨-, rfl, hs'⟩ := hg.eq_of_ok rfl hs hw
    obtain ⟨hd, hn⟩ := resolve_dir h.wf h.settled hr
    obtain ⟨o, first, he, hsz, hc⟩ := hwr.stored
    have h' := he.wellFormed h
    have hl : (fillDirEntry n attrArchive first size).Live := fillDirEntry_live hn
    refine ⟨d, n, answers_resolve hf hs h hr, fun buffer maxSize hmax => ?_, he.elsewhere hf hs hs' h hd, ?_⟩
    · have hread := answers_read hf hs' h' path buffer maxSize
      unfold Volume.read at hread
      rw [he.resolve h hd hr] at hread
      dsimp only at hread
      rw [he.edit.find_self he.wf hd hl] at hread
      dsimp only at hread
      have hfile : (fillDirEntry n attrArchive first size).isDirectory = false :=
        (by decide : (attrArchive &&& attrDirectory != 0) = false)
      rw [hfile, if_neg (by decide), hsz, if_neg (by omega)] at hread
      exact ⟨_, hread, fun i hi => (if_pos hi).trans (hc i hi)⟩
    · obtain ⟨pre, post, h1, h2⟩ := he.lists hf hs hs' h hd
      rw [info_of_live hl hn (by decide : attrArchive &&& attrVolumeId = 0)] at h2
      refine ⟨pre, Volume.Edit.info o, _, post, ?_, ?_, h1, h2⟩
      · unfold Volume.Edit.info
        split <;> simp
      · intro x hx
        rcases List.mem_append.1 hx with hx | hx
        · rcases he.info_old h hd hn with ⟨h3, -⟩ | ⟨h3, -, h4⟩
          · rw [h3] at hx
            cases hx
          · rw [h3, List.mem_singleton] at hx
            rw [hx, ← h4]
            rfl
        · rw [List.mem_singleton.1 hx]
          rfl
  · exact absurd (hg.eq_of_ok rfl hs hw).1.symm he

theorem write_then_read_blank :
    ∃ out, Answers (readFile 4096 [65] (some fun _ => 0) 600) blankWritten (.ok, some out, some 600) ∧
      ∀ i < 600, out i = 7 := by
  obtain ⟨d, n, -, hread, -⟩ :=
    write_then_read (s := blankMounted) (Nat.le_refl _) blank_reliable blank_wellFormed.1 [65] (some fun _ => 7) 600
      blank_written
  exact hread (fun _ => 0) 600 (Nat.le_refl _)

/-- A deleted file is gone and its clusters are free, every path that does not look its name up reads as
before, and the space is there for the next file. -/
theorem delete_then (hf : 4096 ≤ fuel) (hs : Reliable s) (h : s.toCore.WellFormed) (path : List UInt8)
    (hdel : deleteFile fuel path s = .ok .ok s') :
    ∃ d n o, Answers (resolveParentAndName fuel path) s (.ok (d, n)) ∧ s.toCore.volume.find d n = some o ∧
      (∀ buffer maxSize, Answers (readFile fuel path (some buffer) maxSize) s' (.errNotFound, some buffer, none)) ∧
      (∃ pre post, Lists fuel s d (pre ++ [copyEntryInfo o] ++ post) ∧ Lists fuel s' d (pre ++ post)) ∧
      Elsewhere fuel s s' d n ∧
      s'.toCore.volume.freeClusters = s.toCore.volume.freeClusters ∪ (s.toCore.volume.chain o.cluster).toFinset ∧
      ∀ name data size m, (data.isNone → size = 0) → Answers (resolveParentAndName fuel name) s' (.ok (d, m)) →
        Answers (findEntry fuel d m) s' (.error .errNotFound) →
        s'.toCore.volume.clustersFor size ≤ s'.toCore.volume.freeClusters.card →
        Answers (writeFile fuel name data size) s' .ok := by
  rcases gives_deleteFile h.mounted h.wf h.settled hf path with ⟨c', d, n, o, hg, hr, hx⟩ | ⟨e, c', hg, he, -⟩
  · obtain ⟨-, rfl, hs'⟩ := hg.eq_of_ok rfl hs hdel
    obtain ⟨hd, hn⟩ := resolve_dir h.wf h.settled hr
    have he := hx.edited
    have h' := he.wellFormed h
    have hold : s.toCore.volume.find d n = some o := by
      rcases he.old with ⟨-, hf⟩ | ⟨hl, -⟩
      · exact hf
      · exact absurd hx.live hl
    refine ⟨d, n, o, answers_resolve hf hs h hr, hold, fun buffer maxSize => ?_, ?_, he.elsewhere hf hs hs' h hd,
      hx.free, ?_⟩
    · have hread := answers_read hf hs' h' path buffer maxSize
      unfold Volume.read at hread
      rw [he.resolve h hd hr] at hread
      dsimp only at hread
      rwa [he.edit.find_gone h.wf he.wf hd hx.live (deletedEntry_not_live o)] at hread
    · obtain ⟨pre, post, h1, h2⟩ := he.lists hf hs hs' h hd
      rw [info_of_not_live (deletedEntry_not_live o), List.append_nil] at h2
      rcases he.info_old h hd hn with ⟨-, h3⟩ | ⟨h3, -⟩
      · rw [hold] at h3
        cases h3
      · rw [h3] at h1
        exact ⟨pre, post, h1, h2⟩
    · intro name data size m hdata hres hfind hcard
      obtain ⟨q, hq⟩ := he.edit.dir hd
      have hres' := hres.eq (.of_gives (gives_resolve h'.mounted h'.wf hf h'.settled name) rfl hs')
      have hnone : s'.toCore.volume.find d m = none := by
        have h3 := hfind.eq (.of_gives (gives_findEntry h'.mounted hf (h'.wf.walkable ⟨q, hq⟩) m) rfl hs')
        rw [find_none_iff]
        cases hl : s'.toCore.volume.lookup d m with
        | none => rfl
        | some p => rw [hl] at h3; cases h3
      rcases gives_writeFile h'.mounted h'.wf h'.settled hf name data size
        with ⟨c', _, _, hg', -⟩ | ⟨e, c', -, he', -, hcode⟩
      · exact .of_gives hg' rfl hs'
      · -- the deleted slot is free
        rw [hcode d m hdata hres'.symm fun o ho => by rw [hnone] at ho; cases ho] at he'
        have hfull := Volume.freeSlot_none (Volume.freeSlot_of_writeCode he' hcard).2
        obtain ⟨pre, post, zs, -, -, hslots⟩ := he.edit.slots_self
        have hmem : deletedEntry o ∈ s'.toCore.volume.slots d := by rw [hslots]; simp
        obtain ⟨p, hp, hpe⟩ := List.mem_map.1 hmem
        exact absurd (hpe ▸ hfull p hp) (deletedEntry_not_live o)
  · exact absurd (hg.eq_of_ok rfl hs hdel).1.symm he

theorem delete_then_blank :
    Answers (readFile 4096 [65] (some fun _ => 0) 600) blankDeleted (.errNotFound, some fun _ => 0, none) := by
  obtain ⟨h, hs⟩ :=
    Change.wellFormed (s := blankMounted) (Nat.le_refl 4096) blank_reliable blank_wellFormed.1
      (.writeFile [65] (some fun _ => 7) 600) blank_written
  obtain ⟨d, n, o, -, -, hread, -⟩ := delete_then (Nat.le_refl _) hs h [65] blank_deleted
  exact hread _ _

/-! ## Running out of space -/

/-- No slot of the directory `d` is free. -/
def Core.Full (c : Core) (d : Nat) : Prop := ∀ e ∈ c.volume.slots d, e.Live

theorem full_iff {c : Core} : c.Full d ↔ c.volume.freeSlot d = none := by
  constructor
  · intro hfull
    cases hs : c.volume.freeSlot d with
    | none => rfl
    | some p =>
      obtain ⟨hp, hl, -⟩ := Volume.freeSlot_some hs
      exact absurd (hfull _ (List.mem_map_of_mem hp)) hl
  · intro hs e he
    obtain ⟨p, hp, rfl⟩ := List.mem_map.1 he
    exact Volume.freeSlot_none hs p hp

/-- What the search of a directory answers is what the volume shows. -/
theorem answers_find (hf : 4096 ≤ fuel) (hs : Reliable s) (h : s.toCore.WellFormed) (hd : s.toCore.volume.Dir d)
    (n : ShortName) :
    (Answers (findEntry fuel d n) s (.error .errNotFound) ∧ s.toCore.volume.find d n = none) ∨
      ∃ e loc, Answers (findEntry fuel d n) s (.ok (e, loc)) ∧ s.toCore.volume.find d n = some e := by
  have hg := gives_findEntry h.mounted hf (h.wf.walkable hd) n
  have hfind := Volume.find_eq s.toCore.volume d n
  cases hl : s.toCore.volume.lookup d n with
  | none =>
    rw [hl] at hg hfind
    exact .inl ⟨.of_gives hg rfl hs, hfind⟩
  | some p =>
    rw [hl] at hg hfind
    exact .inr ⟨_, p, .of_gives hg rfl hs, hfind⟩

/-- A write is refused for want of space exactly when space is lacking: clusters for the data, and behind
them a slot, for which a full subdirectory takes one cluster more. -/
theorem write_refused_iff (hf : 4096 ≤ fuel) (hs : Reliable s) (h : s.toCore.WellFormed) (path : List UInt8)
    (data : Option Buf) (size : Nat) (hdata : data.isNone → size = 0)
    (hres : Answers (resolveParentAndName fuel path) s (.ok (d, n)))
    (hfile : ∀ e loc, Answers (findEntry fuel d n) s (.ok (e, loc)) → e.isDirectory = false) :
    ∃ code, Answers (writeFile fuel path data size) s code ∧
      (code = .errNoFreeCluster ↔ s.toCore.volume.freeClusters.card < s.toCore.volume.clustersFor size ∨
        (d ≠ 0 ∧ Answers (findEntry fuel d n) s (.error .errNotFound) ∧ s.toCore.Full d ∧
          s.toCore.volume.freeClusters.card < s.toCore.volume.clustersFor size + 1)) ∧
      (code = .errDirFull ↔ s.toCore.volume.clustersFor size ≤ s.toCore.volume.freeClusters.card ∧
        d = 0 ∧ Answers (findEntry fuel d n) s (.error .errNotFound) ∧ s.toCore.Full d) ∧
      (code ≠ .errNoFreeCluster → code ≠ .errDirFull → code = .ok) := by
  have hr := (hres.eq (.of_gives (gives_resolve h.mounted h.wf hf h.settled path) rfl hs)).symm
  have hd := (resolve_dir h.wf h.settled hr).1
  have hfind := answers_find hf hs h hd n
  have hnone : Answers (findEntry fuel d n) s (.error .errNotFound) ↔ s.toCore.volume.find d n = none := by
    rcases hfind with ⟨ha, hn⟩ | ⟨e, loc, ha, hn⟩
    · exact iff_of_true ha hn
    · refine iff_of_false (fun hc => ?_) (by rw [hn]; simp)
      cases ha.eq hc
  have hold : ∀ o, s.toCore.volume.find d n = some o → o.isDirectory = false := by
    intro o ho
    rcases hfind with ⟨-, hn⟩ | ⟨e, loc, ha, hn⟩
    · rw [hn] at ho
      cases ho
    · rw [hn] at ho
      cases ho
      exact hfile _ _ ha
  have hwrite : Answers (writeFile fuel path data size) s (s.toCore.volume.writeCode d n size) := by
    rcases gives_writeFile h.mounted h.wf h.settled hf path data size
      with ⟨c', d', n', hg, hr', -, hcode⟩ | ⟨e, c', hg, -, -, hcode⟩
    · rw [hr] at hr'
      cases hr'
      rw [hcode]
      exact .of_gives hg rfl hs
    · rw [← hcode d n hdata hr hold]
      exact .of_gives hg rfl hs
  refine ⟨_, hwrite, ?_⟩
  rw [hnone, full_iff]
  unfold Volume.writeCode
  split_ifs with hroom hslot h0 hmore <;> grind

theorem write_refused_blank :
    Answers (writeFile 4096 [65] (some fun _ => 7) 100000) blankMounted .errNoFreeCluster := by
  obtain ⟨n, hn⟩ : ∃ n,
      blankMounted.toCore.volume.resolve (blankMounted.toCore.start [65]).1 (blankMounted.toCore.start [65]).2
      (components [65]) = .ok (0, n) := ⟨_, rfl⟩
  have hres := answers_resolve (s := blankMounted) (Nat.le_refl 4096) blank_reliable blank_wellFormed.1 hn
  obtain ⟨code, hcode, h1, -⟩ :=
    write_refused_iff (s := blankMounted) (Nat.le_refl _) blank_reliable blank_wellFormed.1 [65] (some fun _ => 7)
        100000 (fun hc => nomatch hc) hres fun e loc he => by
      rcases answers_find (s := blankMounted) (Nat.le_refl 4096) blank_reliable blank_wellFormed.1 Volume.dir_root n
        with ⟨ha, -⟩ | ⟨e, loc, -, hf⟩
      · cases ha.eq he
      · rw [blank_volume.find] at hf
        cases hf
  -- the volume has fewer clusters than the file would take
  have hfew : blankMounted.toCore.volume.freeClusters.card ≤ 66 := by
    refine (Finset.card_filter_le ..).trans ?_
    rw [Finset.card_range]
    show blankMounted.fs.totalClusters + 2 ≤ 66
    rw [blank_fs]
    decide
  have hsize : blankMounted.toCore.volume.clustersFor 100000 = 196 := by
    show (100000 + blankMounted.fs.clusterSizeBytes - 1) / blankMounted.fs.clusterSizeBytes = 196
    rw [blank_fs]
    decide
  rw [h1.2 (.inl (by omega))] at hcode
  exact hcode

/-! ## Creating a directory -/

/-- A new directory lists nothing: its dot entries are not shown. -/
theorem Volume.Fresh.listing {V : Volume} (hg : V.Geom) {k : Nat} (f : V.Fresh k d) : V.listing k = [] := by
  have hk : k ≠ 0 := by have := f.range.1; omega
  have hdot : ∀ {x : RawDirEntry}, x.isDirectory = true → x.name = dotName ∨ x.name = dotDotName →
      Volume.shown x = false := by
    intro x hi hn
    have : isDotEntry x = true := by
      unfold isDotEntry
      rw [hi]
      rcases hn with hn | hn <;> rw [hn] <;> decide
    unfold Volume.shown isListed
    rw [this]
    simp
  unfold Volume.listing Volume.slots Volume.locs
  rw [if_neg hk, f.chain.eq hg, List.flatMap_singleton, List.map_eq_nil_iff, List.filter_eq_nil_iff]
  intro x hx
  simp only [List.map_map, List.mem_map, List.mem_range, Function.comp] at hx
  obtain ⟨i, hi, rfl⟩ := hx
  rcases (by omega : i = 0 ∨ i = 1 ∨ 2 ≤ i) with rfl | rfl | h2
  · rw [hdot f.dots.dotDir (.inl f.dots.dotName)]
    decide
  · rw [hdot f.dots.dotDotDir (.inr f.dots.dotDotName)]
    decide
  · unfold Volume.shown
    rw [f.blank i hi h2]
    simp

theorem Core.Anchored.start {c : Core} (a : c.Anchored) (path : List UInt8) :
    c.volume.Anchored (c.start path).1 (c.start path).2 := by
  unfold Core.start
  split
  · exact .root _
  · exact a

/-- The new directory can be entered; from there `..` leads back to its parent, when the path stack has
room for it. -/
theorem Made.enter (hf : 4096 ≤ fuel) (hs' : Reliable s') (h : s.toCore.WellFormed) (h' : s'.toCore.WellFormed)
    (hd : s.toCore.volume.Dir d) {path : List UInt8} {k : Nat}
    (hr : s.toCore.volume.resolve (s.toCore.start path).1 (s.toCore.start path).2 (components path) = .ok (d, n))
    (hn : n.Proper) (m : Made s.toCore s'.toCore d n k) :
    ∃ st, s.toCore.volume.walk (s.toCore.start path).1 (s.toCore.start path).2 (components path).dropLast =
      .ok (d, st) ∧ s'.toCore.volume.walk (s'.toCore.start path).1 (s'.toCore.start path).2 (components path) =
        .ok (k, st.push k (dirNameToString n)) ∧
      ∃ s₁, changeDirectory fuel path s' = .ok .ok s₁ ∧
      s₁.toCore = s'.toCore.enter k (st.push k (dirNameToString n)) ∧ Reliable s₁ := by
  obtain ⟨o, ho, he⟩ := m.edited
  obtain ⟨-, ds, last, st, hcs, hw, hw', hlast, h1, h2⟩ :=
    he.edit.resolve_self h.wf he.wf hd (h.settled.start path).1 (h.settled.start path).2 hr
  have hwalk : s'.toCore.volume.walk (s'.toCore.start path).1 (s'.toCore.start path).2 (components path) =
      .ok (k, st.push k (dirNameToString n)) := by
    rw [he.env.start, hcs, Volume.walk_append, hw']
    show Volume.walk _ d st [last] = _
    have hdir : (fillDirEntry n attrDirectory k 0).isDirectory = true :=
      (by decide : (attrDirectory &&& attrDirectory != 0) = true)
    rw [Volume.walk, if_neg h1, if_neg h2, hlast]
    dsimp only
    rw [he.edit.find_self he.wf hd (fillDirEntry_live hn)]
    dsimp only
    rw [hdir, if_neg (by decide), m.cluster]
    rfl
  have hp : path ≠ [] := by
    rintro rfl
    exact absurd hcs (by simp [components, componentsFrom])
  have hcd := gives_changeDirectory h'.mounted h'.wf hf h'.settled hp
  rw [hwalk] at hcd
  obtain ⟨s₁, h3, h4, h5⟩ := hcd s' rfl hs'
  exact ⟨st, by rw [hcs, List.dropLast_concat]; exact hw, hwalk, s₁, h3, h4, h5⟩

/-- A new directory is one entry in its parent, empty, and can be entered and left; everything that does
not look its name up reads as before, and it takes one cluster, and one more when its parent had to grow. -/
theorem create_then_enter (hf : 4096 ≤ fuel) (hs : Reliable s) (h : s.toCore.WellFormed) (path : List UInt8)
    (hc : createDirectory fuel path s = .ok .ok s') :
    ∃ d n k, Answers (resolveParentAndName fuel path) s (.ok (d, n)) ∧
      (∃ pre new post, new.name = dirNameToString n ∧ new.attr = attrDirectory ∧
        Lists fuel s d (pre ++ post) ∧ Lists fuel s' d (pre ++ [new] ++ post)) ∧
      (∀ (κ : Type) (cb : κ → DirEntryInfo → Bool × κ) (ctx : κ),
        Answers (iteratePath fuel path cb ctx) s' (.ok, ctx)) ∧
      (∃ s₁, changeDirectory fuel path s' = .ok .ok s₁ ∧ s₁.currentDirCluster = k ∧
        ∀ m, s.toCore.Anchored → s.toCore.volume.AtDepth d m → m + 1 ≤ maxPathDepth →
          ∃ s₂, changeDirectory fuel [dot, dot] s₁ = .ok .ok s₂ ∧ s₂.currentDirCluster = d) ∧
      ((slotAt (s'.toCore.clusterBytes k) 1).name = dotDotName ∧
        (slotAt (s'.toCore.clusterBytes k) 1).cluster = d) ∧
      Elsewhere fuel s s' d n ∧
      s'.toCore.volume.freeClusters.card + (if s.toCore.volume.freeSlot d = none then 2 else 1) =
        s.toCore.volume.freeClusters.card := by
  rcases gives_createDirectory h.mounted h.wf h.settled hf path
    with ⟨c', d, n, k, hg, hr, hnone, hm⟩ | ⟨e, c', hg, he, -⟩
  · obtain ⟨-, rfl, hs'⟩ := hg.eq_of_ok rfl hs hc
    obtain ⟨hd, hn⟩ := resolve_dir h.wf h.settled hr
    obtain ⟨o, ho, he⟩ := hm.edited
    have h' := he.wellFormed h
    obtain ⟨st, hw, hwk, s₁, hcd, hcore, hs₁⟩ := hm.enter hf hs' h h' hd hr hn
    refine ⟨d, n, k, answers_resolve hf hs h hr, ?_, fun κ cb ctx => ?_,
      ⟨s₁, hcd, by rw [hcore]; rfl, fun m ha hdm hle => ?_⟩, ?_, he.elsewhere hf hs hs' h hd, hm.card⟩
    · obtain ⟨pre, post, h1, h2⟩ := he.lists hf hs hs' h hd
      rw [info_of_not_live ho, List.append_nil] at h1
      have hinfo : Volume.Edit.info (fillDirEntry n attrDirectory k 0) =
          [copyEntryInfo (fillDirEntry n attrDirectory k 0)] :=
        info_of_live (fillDirEntry_live hn) hn (by decide : attrDirectory &&& attrVolumeId = 0)
      rw [hinfo] at h2
      exact ⟨pre, _, post, rfl, rfl, h1, h2⟩
    · have hit := gives_iteratePath h'.mounted h'.wf hf h'.settled path cb ctx
      rw [hwk] at hit
      dsimp only at hit
      rw [hm.fresh.listing h'.mounted.geom] at hit
      exact .of_gives hit rfl hs'
    · -- the stack at the parent leads to it, and has a level left
      have hanch := h.wf.walk_anchored (h.settled.start path).1 (h.settled.start path).2 (ha.start path) hw
      obtain ⟨htop, hlen⟩ : d = st.top ∧ st.levels.length = m := hanch.eq_top h.wf hdm (by omega)
      have h₁ : s₁.toCore.WellFormed := by
        rw [hcore]
        exact h'.enter hwk
      have hup := gives_changeDirectory h₁.mounted h₁.wf hf h₁.settled (show [dot, dot] ≠ [] by simp)
      have hstart : s₁.toCore.start [dot, dot] = (k, st.push k (dirNameToString n)) := by
        rw [hcore]
        rfl
      have hcomp : components [dot, dot] = [[dot, dot]] := by decide
      rw [hstart, hcomp, Volume.walk, if_neg (by decide), if_pos rfl, Volume.walk,
        Volume.pop_push k _ (by omega)] at hup
      obtain ⟨s₂, h3, h4, -⟩ := hup s₁ rfl hs₁
      exact ⟨s₂, h3, by rw [h4]; exact htop.symm⟩
    · have hkr := hm.fresh.range
      have h2 : 2 ≤ s'.toCore.volume.perCluster := h'.mounted.geom.perCluster_ge
      have hslot :=
        slotAt_buffer h'.mounted hkr.1 hkr.2.1 (fun x _ => rfl : ∀ x < sectorSize * s'.fs.sectorsPerCluster,
          s'.toCore.clusterBytes k x = s'.toCore.clusterBytes k x) (show 1 < s'.fs.entriesPerCluster by
            rw [← volume_perCluster]; omega)
      rw [hslot]
      exact ⟨hm.fresh.dots.dotDotName, hm.fresh.dots.dotDotCluster⟩
  · exact absurd (hg.eq_of_ok rfl hs hc).1.symm he

theorem create_then_enter_blank :
    Answers (iteratePath 4096 [68] (fun k _ => (true, k + 1)) 0) blankMade (.ok, 0) := by
  obtain ⟨d, n, k, -, -, hlist, -⟩ :=
    create_then_enter (s := blankMounted) (Nat.le_refl _) blank_reliable blank_wellFormed.1 [68] blank_made
  exact hlist _ _ _

end

end AltoniumOS.Fat12

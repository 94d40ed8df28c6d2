/-
What an operation on one entry does, as seen from outside: `Edit V W d n o e` says that `W` is `V`
with the entry `n` of the directory `d` changed from `o` to `e`. The three changes of
`Volume.Steps` compose to it, and from it follows what every path reads and every directory lists.
-/
import AltoniumOS.Volume.View

namespace AltoniumOS.Fat12

open AltoniumOS.Lib

namespace Volume

variable {V W : Volume} {P P' : Set Nat}

/-- What a change of the entry `n` of the directory `d` leaves alone: the other entries, and the
bytes of the files they name. -/
structure Apart (V W : Volume) (d : Nat) (n : ShortName) : Prop where
  find : ∀ x m, V.Dir x → m.Proper → (x, m) ≠ (d, n) → W.find x m = V.find x m
  content : ∀ x m e, V.Dir x → m.Proper → (x, m) ≠ (d, n) → V.find x m = some e → e.isDirectory = false →
    W.content e.cluster = V.content e.cluster

structure Edit (V W : Volume) (d : Nat) (n : ShortName) (o e : RawDirEntry) : Prop where
  dirs : ∀ x q, V.IsDir x q → W.IsDir x q
  slots_ne : ∀ x q, V.IsDir x q → x ≠ d → W.slots x = V.slots x
  slots_self : ∃ pre post zs, (∀ s ∈ zs, s.name.first = nameEnd) ∧ V.slots d ++ zs = pre ++ o :: post ∧
    W.slots d = pre ++ e :: post
  oldName : o.Live → o.name = n
  newName : e.Live → e.name = n
  old : ∀ e', V.find d n = some e' → e' = o ∧ o.isDirectory = false
  files : ∀ p, V.Entry p → (V.slot p).isDirectory = false → ¬ (p ∈ V.locs d ∧ (V.slot p).name = n) →
    W.Entry p ∧ W.slot p = V.slot p ∧ W.content (V.slot p).cluster = V.content (V.slot p).cluster

/-! ## Reading apart from a change -/

/-- A path that does not look the changed entry up walks as before. -/
theorem Apart.walk (h : V.WF P) {d : Nat} {n : ShortName} (a : Apart V W d n) {cs : List (List UInt8)}
    {cluster : Nat} {stack : PathStack} (hc : V.Dir cluster) (hs : V.Dirs stack)
    (hn : (d, n) ∉ V.lookups cluster stack cs) : W.walk cluster stack cs = V.walk cluster stack cs := by
  refine walk_congr fun r hr => ?_
  obtain ⟨h1, h2⟩ := h.lookups_mem hc hs hr
  exact a.find r.1 r.2 h1 h2 fun he => hn (he ▸ hr)

/-- And reads as before. -/
theorem Apart.read (h : V.WF P) {d : Nat} {n : ShortName} (a : Apart V W d n) {cs : List (List UInt8)}
    {cluster : Nat} {stack : PathStack} (hc : V.Dir cluster) (hs : V.Dirs stack)
    (hn : (d, n) ∉ V.lookups cluster stack cs) (buffer : Buf) (maxSize : Nat) :
    W.read cluster stack cs buffer maxSize = V.read cluster stack cs buffer maxSize := by
  have hne : ∀ r ∈ V.lookups cluster stack cs, (r.1, r.2) ≠ (d, n) := fun r hr he => hn (he ▸ hr)
  have hres : W.resolve cluster stack cs = V.resolve cluster stack cs := resolve_congr fun r hr => by
    obtain ⟨h1, h2⟩ := h.lookups_mem hc hs hr
    exact a.find r.1 r.2 h1 h2 (hne r hr)
  unfold Volume.read
  rw [hres]
  split
  · rfl
  · rename_i x m hr
    have hmem := resolve_mem_lookups hr
    obtain ⟨h1, h2⟩ := h.lookups_mem hc hs hmem
    rw [a.find x m h1 h2 (hne _ hmem)]
    split
    · rfl
    · rename_i e he
      cases hi : e.isDirectory with
      | true => rfl
      | false => rw [a.content x m e h1 h2 (hne _ hmem) he hi]

/-! ## What an edit leaves alone -/

theorem find_congr {x : Nat} {m : ShortName} (h : W.slots x = V.slots x) : W.find x m = V.find x m := by
  unfold Volume.find; rw [h]

theorem content_congr (hz : SameSizes V W) {k : Nat} (hf : ∀ x ∈ V.chain k, W.fat x = V.fat x)
    (hd : ∀ x ∈ V.chain k, W.data x = V.data x) : W.content k = V.content k := by
  funext i
  unfold content
  rw [chain_congr hf, hz.clusterSize]
  cases hx : (V.chain k)[i / V.clusterSize]? with
  | none => rfl
  | some x => exact congrFun (hd x (List.mem_of_getElem? hx)) _

theorem WF.dir_unique (h : V.WF P) {x x' : Nat} {p : Loc} (hx : V.Dir x) (hx' : V.Dir x') (hp : p ∈ V.locs x)
    (hp' : p ∈ V.locs x') : x = x' := by
  obtain ⟨q, hq⟩ := hx
  obtain ⟨q', hq'⟩ := hx'
  exact h.loc_unique hq hq' hp hp'

theorem agree_content (a : Agree V W) {p : Loc} (hp : V.Entry p) :
    W.content (V.slot p).cluster = V.content (V.slot p).cluster :=
  content_congr a.sizes (fun k hk => a.fat k ⟨p, hp, hk⟩) fun k hk => a.data k ⟨p, hp, hk⟩

/-! ## A directory grown -/

namespace Grown

variable {d q x z : Nat}

/-- Nothing is found in the new slots. -/
theorem find (h : V.WF P) (hd : V.IsDir d q) (g : Grown V W P d x z) {d' : Nat} (hd' : V.Dir d') (m : ShortName) :
    W.find d' m = V.find d' m := by
  obtain ⟨q', hq'⟩ := hd'
  by_cases hne : d' = d
  · subst hne
    refine Option.ext fun s => ?_
    rw [h.find_iff ⟨q, hd⟩, (g.wf h hd).find_iff ⟨q, (g.isDir h hd).2 hd⟩, g.slots_self h hd, List.mem_append]
    refine ⟨fun ⟨h1, h2⟩ => ⟨h1.resolve_right fun hm => ?_, h2⟩, fun ⟨h1, h2⟩ => ⟨.inl h1, h2⟩⟩
    obtain ⟨i, hi, rfl⟩ := List.mem_map.1 hm
    exact not_live_of_end (g.blank i (List.mem_range.1 hi)) h2.1
  · exact find_congr (g.slots_other h hd hq' hne)

/-- Nor listed. -/
theorem listing (h : V.WF P) (hd : V.IsDir d q) (g : Grown V W P d x z) {d' : Nat} (hd' : V.Dir d') :
    W.listing d' = V.listing d' := by
  obtain ⟨q', hq'⟩ := hd'
  unfold Volume.listing
  by_cases hne : d' = d
  · subst hne
    have hblank : ((List.range V.perCluster).map fun i => V.slot (z, i)).filter shown = [] :=
      List.filter_eq_nil_iff.2 fun s hs => by
      obtain ⟨i, hi, rfl⟩ := List.mem_map.1 hs
      simp [shown, g.blank i (List.mem_range.1 hi)]
    rw [g.slots_self h hd, List.filter_append, hblank, List.append_nil]
  · rw [g.slots_other h hd hq' hne]

/-- Files keep their bytes. -/
theorem content (h : V.WF P) (hd : V.IsDir d q) (g : Grown V W P d x z) {p : Loc} (hp : V.Entry p)
    (hi : (V.slot p).isDirectory = false) : W.content (V.slot p).cluster = V.content (V.slot p).cluster := by
  obtain ⟨-, p₀, hp₀, -, hi₀, hc⟩ := h.dir_chain hd g.ne
  have hpp : p ≠ p₀ := fun hpp => by rw [hpp, hi₀] at hi; cases hi
  exact content_congr g.sizes (g.fat_owned h hp₀ hc hp hpp) fun k _ => by rw [g.data]

end Grown

namespace Edit

variable {d : Nat} {n : ShortName} {o e : RawDirEntry}

theorem dir (t : Edit V W d n o e) {x : Nat} (hx : V.Dir x) : W.Dir x := by
  obtain ⟨q, hq⟩ := hx
  exact ⟨q, t.dirs x q hq⟩

theorem dirs_stack (t : Edit V W d n o e) {stack : PathStack} (hs : V.Dirs stack) : W.Dirs stack :=
  fun k hk => t.dir (hs k hk)

/-- Live slots of the edited directory with another name are the same before and after. -/
theorem mem_slots (t : Edit V W d n o e) {s : RawDirEntry} (hl : s.Live) (hn : s.name ≠ n) :
    s ∈ W.slots d ↔ s ∈ V.slots d := by
  obtain ⟨pre, post, zs, hz, h1, h2⟩ := t.slots_self
  have hsz : s ∉ zs := fun hm => not_live_of_end (hz s hm) hl
  have hso : s ≠ o := fun ho => hn (by rw [ho]; exact t.oldName (ho ▸ hl))
  have hse : s ≠ e := fun he => hn (by rw [he]; exact t.newName (he ▸ hl))
  have hv : s ∈ V.slots d ↔ s ∈ V.slots d ++ zs := by simp [hsz]
  rw [hv, h1, h2]
  simp [hso, hse]

theorem apart (h : V.WF P) (h' : W.WF P') (hd : V.Dir d) (t : Edit V W d n o e) : Apart V W d n := by
  refine ⟨fun x m hx hm hne => ?_, fun x m s hx hm hne hs hi => ?_⟩
  · by_cases hxd : x = d
    · subst hxd
      have hmn : m ≠ n := fun hmn => hne (by rw [hmn])
      refine Option.ext fun s => ?_
      rw [h.find_iff hx, h'.find_iff (t.dir hx)]
      constructor
      · rintro ⟨h1, h2, h3⟩; exact ⟨(t.mem_slots h2 (h3 ▸ hmn)).1 h1, h2, h3⟩
      · rintro ⟨h1, h2, h3⟩; exact ⟨(t.mem_slots h2 (h3 ▸ hmn)).2 h1, h2, h3⟩
    · obtain ⟨q, hq⟩ := hx
      exact find_congr (t.slots_ne x q hq hxd)
  · rw [find_eq, Option.map_eq_some_iff] at hs
    obtain ⟨p, hp, rfl⟩ := hs
    have hat := h.lookup_entryAt hx hm hp
    obtain ⟨q, hq⟩ := hx
    refine (t.files p (hat.entry hq) hi fun ⟨h1, h2⟩ => hne ?_).2.2
    rw [h.dir_unique ⟨q, hq⟩ hd hat.mem h1, ← h2, (lookup_some hp).2.2]

/-- The edited entry, when it is live. -/
theorem find_self (h' : W.WF P') (hd : V.Dir d) (t : Edit V W d n o e) (hl : e.Live) : W.find d n = some e := by
  obtain ⟨pre, post, zs, -, -, h2⟩ := t.slots_self
  exact (h'.find_iff (t.dir hd)).2 ⟨by rw [h2]; simp, hl, t.newName hl⟩

/-- The edited entry, when it was live and is not. -/
theorem find_gone (h : V.WF P) (h' : W.WF P') (hd : V.Dir d) (t : Edit V W d n o e) (ho : o.Live) (hl : ¬ e.Live) :
    W.find d n = none := by
  rw [h'.find_none (t.dir hd)]
  intro s hs hsl hsn
  obtain ⟨pre, post, zs, hz, h1, h2⟩ := t.slots_self
  obtain ⟨q, hq⟩ := hd
  have huniq : (V.slots d ++ zs).Pairwise fun a b => a.Live → b.Live → a.name ≠ b.name := by
    refine List.pairwise_append.2 ⟨List.pairwise_map.2 (h.dirOk d q hq).unique, ?_, fun a _ b hb _ hlb => ?_⟩
    · exact List.pairwise_of_forall_mem_list fun a ha b _ hla => absurd hla (not_live_of_end (hz a ha))
    · exact absurd hlb (not_live_of_end (hz b hb))
  rw [h1, List.pairwise_append, List.pairwise_cons] at huniq
  rw [h2] at hs
  rcases List.mem_append.1 hs with hs | hs
  · exact huniq.2.2 s hs o (List.mem_cons_self ..) hsl ho (hsn.trans (t.oldName ho).symm)
  · rcases List.mem_cons.1 hs with rfl | hs
    · exact hl hsl
    · exact huniq.2.1.1 s hs ho hsl ((t.oldName ho).trans hsn.symm)

/-- The path to the edited entry leads there afterwards too: it passes through directories only. -/
theorem resolve_self (h : V.WF P) (h' : W.WF P') (hd : V.Dir d) (t : Edit V W d n o e) {cs : List (List UInt8)}
    {cluster : Nat} {stack : PathStack} (hc : V.Dir cluster) (hs : V.Dirs stack)
    (hr : V.resolve cluster stack cs = .ok (d, n)) :
    W.resolve cluster stack cs = .ok (d, n) ∧
      ∃ ds last st, cs = ds ++ [last] ∧ V.walk cluster stack ds = .ok (d, st) ∧
      W.walk cluster stack ds = .ok (d, st) ∧
        makeShortName last = .ok n ∧ last ≠ [dot] ∧ last ≠ [dot, dot] := by
  obtain ⟨-, ds, last, st, rfl, hw, hn, h1, h2⟩ := resolve_ok hr
  have hnot : (d, n) ∉ V.lookups cluster stack ds := fun hm => by
    obtain ⟨e', he', hi⟩ := walk_lookups hw _ hm
    obtain ⟨rfl, ho⟩ := t.old e' he'
    rw [ho] at hi
    cases hi
  have hw' := ((t.apart h h' hd).walk h hc hs hnot).trans hw
  refine ⟨?_, ds, last, st, rfl, hw, hw', hn, h1, h2⟩
  rw [resolve_concat, hw']
  rwa [resolve_concat, hw] at hr

/-! ## Listings -/

/-- What a slot adds to a listing. -/
def info (e : RawDirEntry) : List DirEntryInfo := if shown e then [copyEntryInfo e] else []

theorem listing_append (pre post : List RawDirEntry) (e : RawDirEntry) :
    ((pre ++ e :: post).filter shown).map copyEntryInfo =
      (pre.filter shown).map copyEntryInfo ++ info e ++ (post.filter shown).map copyEntryInfo := by
  rw [List.filter_append, List.filter_cons, List.map_append, List.append_assoc]
  unfold info
  split <;> rfl

theorem listing_ne (t : Edit V W d n o e) {x q : Nat} (hx : V.IsDir x q) (hne : x ≠ d) :
    W.listing x = V.listing x := by
  unfold listing
  rw [t.slots_ne x q hx hne]

/-- The listing of the edited directory changes in the one entry. -/
theorem listing_self (t : Edit V W d n o e) :
    ∃ pre post, V.listing d = pre ++ info o ++ post ∧ W.listing d = pre ++ info e ++ post := by
  obtain ⟨pre, post, zs, hz, h1, h2⟩ := t.slots_self
  have hzs : zs.filter shown = [] := by
    rw [List.filter_eq_nil_iff]
    intro s hs
    simp [shown, hz s hs]
  have hv : (V.slots d).filter shown = (pre ++ o :: post).filter shown := by
    rw [← h1, List.filter_append, hzs, List.append_nil]
  refine ⟨(pre.filter shown).map copyEntryInfo, (post.filter shown).map copyEntryInfo, ?_, ?_⟩
  · unfold listing
    rw [hv, listing_append]
  · unfold listing
    rw [h2, listing_append]

/-! ## How edits come about -/

theorem of_put (h : V.WF P) {q : Nat} (hd : V.IsDir d q) {p : Loc} (u : V.Put P d p e)
    (ho : (V.slot p).Live → (V.slot p).name = n) (hn : e.Live → e.name = n)
    (hold : ∀ e', V.find d n = some e' → e' = V.slot p ∧ (V.slot p).isDirectory = false) :
    Edit V (V.putSlot p e) d n (V.slot p) e := by
  obtain ⟨pre, post, hsplit⟩ := List.append_of_mem u.mem
  have hnd := h.nodup_locs hd
  rw [hsplit, List.nodup_append, List.nodup_cons] at hnd
  have hpre : ∀ p' ∈ pre, p' ≠ p := fun p' hp' => hnd.2.2 p' hp' p (List.mem_cons_self ..)
  have hpost : ∀ p' ∈ post, p' ≠ p := fun p' hp' hpp => hnd.2.1.1 (hpp ▸ hp')
  refine ⟨fun x y hx => u.isDir_mono hx, fun x y hx hne => ?_,
    ⟨pre.map V.slot, post.map V.slot, [], by simp, ?_, ?_⟩, ho, hn, hold, fun p' hp' hi hne => ?_⟩
  · unfold slots
    rw [putSlot_locs]
    exact List.map_congr_left fun p' hp' => putSlot_slot_ne V e fun hpp =>
      hne (h.loc_unique hx hd hp' (hpp ▸ u.mem))
  · rw [List.append_nil, slots, hsplit, List.map_append, List.map_cons]
  · rw [slots, putSlot_locs, hsplit, List.map_append, List.map_cons, putSlot_slot_self,
      List.map_congr_left fun p' hp' => putSlot_slot_ne V e (hpre p' hp'),
      List.map_congr_left fun p' hp' => putSlot_slot_ne V e (hpost p' hp')]
  · have hlive : (V.slot p').Live := by obtain ⟨a, b, -, he⟩ := hp'; exact he.live
    have hpp : p' ≠ p := fun hpp => hne ⟨hpp ▸ u.mem, by rw [hpp]; exact ho (hpp ▸ hlive)⟩
    refine ⟨(u.entry h hd p').2 (.inl ⟨hpp, hp'⟩), putSlot_slot_ne V e hpp, ?_⟩
    refine content_congr (putSlot_sizes V p e) (fun x _ => by rw [putSlot_fat]) fun x hx =>
      putSlot_data_ne V e fun hxp => ?_
    -- the slot overwritten lies in a cluster of a directory, and no file owns that
    have hxr := h.owned_range hp' hx
    rcases h.loc_owner hd u.mem with ⟨-, h1, -⟩ | ⟨h0, h1, -⟩
    · have := hxr.1
      omega
    · obtain ⟨-, p₀, hp₀, -, hi₀, rfl⟩ := h.dir_chain hd h0
      rw [h.entry_unique hp' hp₀ hx (hxp ▸ h1), hi₀] at hi
      cases hi

/-- An edit after changes to unused clusters. -/
theorem agree_left {X : Volume} (h : V.WF P) (a : Agree V X) {q : Nat} (hd : V.IsDir d q) (t : Edit X W d n o e) :
    Edit V W d n o e := by
  have hs : ∀ x y, V.IsDir x y → X.slots x = V.slots x := fun x y hx => a.slots h hx
  refine ⟨fun x y hx => t.dirs x y ((a.isDir h).2 hx), fun x y hx hne => ?_, ?_, t.oldName, t.newName,
    fun e' he' => ?_,
    fun p hp hi hne => ?_⟩
  · rw [t.slots_ne x y ((a.isDir h).2 hx) hne, hs x y hx]
  · rw [← hs d q hd]; exact t.slots_self
  · exact t.old e' (by rw [find_congr (hs d q hd)]; exact he')
  · have hsp := a.entry_slot h hp
    have := t.files p ((a.entry h).2 hp) (by rw [hsp]; exact hi) (by rw [a.locs h hd, hsp]; exact hne)
    rw [hsp] at this
    exact ⟨this.1, this.2.1, this.2.2.trans (agree_content a hp)⟩

/-- An edit of a directory that was grown for it. -/
theorem grown_left {X : Volume} (h : V.WF P) {q x z : Nat} (hd : V.IsDir d q) (g : Grown V X P d x z)
    (t : Edit X W d n o e) : Edit V W d n o e := by
  refine ⟨fun a b ha => t.dirs a b ((g.isDir h hd).2 ha), fun a b ha hne => ?_, ?_, t.oldName, t.newName,
    fun e' he' => ?_,
    fun p hp hi hne => ?_⟩
  · rw [t.slots_ne a b ((g.isDir h hd).2 ha) hne, g.slots_other h hd ha hne]
  · obtain ⟨pre, post, zs, hz, h1, h2⟩ := t.slots_self
    rw [g.slots_self h hd, List.append_assoc] at h1
    refine ⟨pre, post, _, fun s hs => ?_, h1, h2⟩
    rcases List.mem_append.1 hs with hs | hs
    · obtain ⟨i, hi, rfl⟩ := List.mem_map.1 hs
      exact g.blank i (List.mem_range.1 hi)
    · exact hz s hs
  · exact t.old e' (by rw [g.find h hd ⟨q, hd⟩]; exact he')
  · have hlive : (V.slot p).Live := by obtain ⟨a, b, -, he⟩ := hp; exact he.live
    have := t.files p ((g.entry h hd).2 hp) (by rw [g.slot]; exact hi) (by
      rw [g.slot]
      rintro ⟨h1, h2⟩
      rcases (g.mem_locs_self h hd).1 h1 with h1 | ⟨h1, h3⟩
      · exact hne ⟨h1, h2⟩
      · obtain ⟨o, i⟩ := p
        obtain rfl : o = z := h1
        exact not_live_of_end (g.blank i h3) hlive)
    rw [g.slot] at this
    exact ⟨this.1, this.2.1, this.2.2.trans (g.content h hd hp hi)⟩

/-- An edit before changes to unused clusters. -/
theorem agree_right {X : Volume} (h' : W.WF P') (t : Edit V W d n o e) {q : Nat} (hd : V.IsDir d q)
    (a : Agree W X) : Edit V X d n o e := by
  refine ⟨fun x y hx => (a.isDir h').2 (t.dirs x y hx), fun x y hx hne => ?_, ?_, t.oldName, t.newName, t.old,
    fun p hp hi hne => ?_⟩
  · rw [a.slots h' (t.dirs x y hx), t.slots_ne x y hx hne]
  · rw [a.slots h' (t.dirs d q hd)]; exact t.slots_self
  · obtain ⟨h1, h2, h3⟩ := t.files p hp hi hne
    refine ⟨(a.entry h').2 h1, (a.entry_slot h' h1).trans h2, ?_⟩
    rw [← h3, ← h2]
    exact agree_content a h1

end Edit

/-! ## Volumes that show the same -/

/-- `W` shows what `V` does: its directories, with the same entries and listings, and the same bytes in the
files. -/
structure Shows (V W : Volume) : Prop where
  dir : ∀ x, V.Dir x → W.Dir x
  find : ∀ x m, V.Dir x → W.find x m = V.find x m
  listing : ∀ x, V.Dir x → W.listing x = V.listing x
  content : ∀ x m e, V.Dir x → m.Proper → V.find x m = some e → e.isDirectory = false →
    W.content e.cluster = V.content e.cluster

namespace Shows

theorem trans {X : Volume} (s : Shows V W) (t : Shows W X) : Shows V X := by
  refine ⟨fun x hx => t.dir x (s.dir x hx), fun x m hx => ?_, fun x hx => ?_, fun x m e hx hm he hi => ?_⟩
  · rw [t.find x m (s.dir x hx), s.find x m hx]
  · rw [t.listing x (s.dir x hx), s.listing x hx]
  · rw [t.content x m e (s.dir x hx) hm (by rw [s.find x m hx]; exact he) hi, s.content x m e hx hm he hi]

theorem of_agree (h : V.WF P) (a : Agree V W) : Shows V W := by
  refine ⟨fun x ⟨q, hq⟩ => ⟨q, (a.isDir h).2 hq⟩, fun x m ⟨q, hq⟩ => find_congr (a.slots h hq),
    fun x ⟨q, hq⟩ => ?_,
    fun x m e ⟨q, hq⟩ hm he hi => ?_⟩
  · unfold Volume.listing
    rw [a.slots h hq]
  · obtain ⟨p, -, hp, rfl⟩ := h.entry_of_find hq hm he
    exact agree_content a (hp.entry hq)

theorem of_grown (h : V.WF P) {d q x z : Nat} (hd : V.IsDir d q) (g : Grown V W P d x z) : Shows V W := by
  refine ⟨fun x ⟨q, hq⟩ => ⟨q, (g.isDir h hd).2 hq⟩, fun x m hx => g.find h hd hx m, fun x hx => g.listing h hd hx,
    fun x m e ⟨y, hy⟩ hm he hi => ?_⟩
  obtain ⟨p, -, hp, rfl⟩ := h.entry_of_find hy hm he
  exact g.content h hd (hp.entry hy) hi

/-- No entry of it is changed. -/
theorem apart (s : Shows V W) (d : Nat) (n : ShortName) : Apart V W d n :=
  ⟨fun x m hx _ _ => s.find x m hx, fun x m e hx hm _ => s.content x m e hx hm⟩

section

variable {cs : List (List UInt8)} {cluster : Nat} {stack : PathStack}

/-- A dot name is never looked up. -/
theorem dotName_notMem (h : V.WF P) (hc : V.Dir cluster) (hs : V.Dirs stack) :
    (0, dotName) ∉ V.lookups cluster stack cs :=
  fun hm => absurd (h.lookups_mem hc hs hm).2 (by decide : ¬ isValidChar dotName.first = true)

theorem walk (h : V.WF P) (s : Shows V W) (hc : V.Dir cluster) (hs : V.Dirs stack) :
    W.walk cluster stack cs = V.walk cluster stack cs := (s.apart 0 dotName).walk h hc hs (dotName_notMem h hc hs)

theorem read (h : V.WF P) (s : Shows V W) (hc : V.Dir cluster) (hs : V.Dirs stack) (buffer : Buf) (maxSize : Nat) :
    W.read cluster stack cs buffer maxSize = V.read cluster stack cs buffer maxSize :=
  (s.apart 0 dotName).read h hc hs (dotName_notMem h hc hs) buffer maxSize

theorem resolve (h : V.WF P) (s : Shows V W) (hc : V.Dir cluster) (hs : V.Dirs stack) :
    W.resolve cluster stack cs = V.resolve cluster stack cs :=
  resolve_congr fun r hr => s.find r.1 r.2 (h.lookups_mem hc hs hr).1

end

end Shows

end Volume

end AltoniumOS.Fat12

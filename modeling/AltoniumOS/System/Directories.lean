/-
A directory through the calls of the driver: as a map it is updated by storing and deleting entries, and
the names it lists against those it can be searched for.
-/
import AltoniumOS.Refine.Directory
import AltoniumOS.System.Effects

namespace AltoniumOS.Fat12

open AltoniumOS.Lib

/-! ## A finite map -/

section

variable {fuel d : Nat} {s s' : State} {n : ShortName} {e : RawDirEntry}

/-- Every name but `n` is found, or not found, as before. -/
def FoundAsBefore (fuel : Nat) (s s' : State) (d : Nat) (n : ShortName) : Prop :=
  ∀ m, m ≠ n → ∃ r, Answers (findEntry fuel d m) s r ∧ Answers (findEntry fuel d m) s' r

/-- After an update of the map the other names are found as before. -/
theorem foundAsBefore_update (hf : 4096 ≤ fuel) (hm : s.fs.Accepted) (hs : Reliable s)
    (h : s.toCore.volume.Directory d) (henv : SameEnv s.toCore s'.toCore) (hs' : Reliable s')
    (h' : s'.toCore.volume.Directory d) {x : Option (RawDirEntry × Loc)}
    (hent : s'.toCore.volume.entries d = Function.update (s.toCore.volume.entries d) n x) :
    FoundAsBefore fuel s s' d n := by
  intro m hmn
  have hg := gives_entries hm hf h.walk m
  have hg' := gives_entries (henv.accepted hm) hf h'.walk m
  rw [hent, Function.update_of_ne hmn] at hg'
  exact ⟨_, .of_gives hg rfl hs, .of_gives hg' rfl hs'⟩

/-- A directory is a finite map from short names to entries: storing an entry puts it under its name,
deleting one takes the name away, and no other name is touched, whichever slot is used. -/
theorem directory_map (hf : 4096 ≤ fuel) (hm : s.fs.Accepted) (hs : Reliable s) (h : s.toCore.volume.Directory d)
    {input : List UInt8} (hn : makeShortName input = .ok n) (he : e.name = n) :
    (∀ s', writeDirectoryEntry fuel d n e s = .ok .ok s' → s'.toCore.volume.Directory d ∧
      (∃ loc, Answers (findEntry fuel d n) s' (.ok (e, loc))) ∧ FoundAsBefore fuel s s' d n) ∧
    (∀ s', markEntryDeleted fuel d n s = .ok .ok s' → s'.toCore.volume.Directory d ∧
      Answers (findEntry fuel d n) s' (.error .errNotFound) ∧ FoundAsBefore fuel s s' d n) := by
  have hp := makeShortName_proper hn
  have hl : e.Live := (RawDirEntry.live_iff e).2 (by rw [he]; exact ⟨hp.ne.1, hp.ne.2.1⟩)
  constructor
  · intro s' hrun
    rcases gives_insert hm hf h hl he with ⟨c', p, hg, henv, h', hent⟩ | ⟨code, hg, hcode⟩
    · obtain ⟨-, rfl, hs'⟩ := hg.eq_of_ok rfl hs hrun
      refine ⟨h', ⟨p, ?_⟩, foundAsBefore_update hf hm hs h henv hs' h' hent⟩
      have hfind := gives_entries (henv.accepted hm) hf h'.walk n
      rw [hent, Function.update_self] at hfind
      exact .of_gives hfind rfl hs'
    · exact absurd (hg.eq_of_ok rfl hs hrun).1.symm hcode
  · intro s' hrun
    rcases gives_erase hm hf h n with ⟨c', hg, henv, h', hent⟩ | hg
    · obtain ⟨-, rfl, hs'⟩ := hg.eq_of_ok rfl hs hrun
      refine ⟨h', ?_, foundAsBefore_update hf hm hs h henv hs' h' hent⟩
      have hfind := gives_entries (henv.accepted hm) hf h'.walk n
      rw [hent, Function.update_self] at hfind
      exact .of_gives hfind rfl hs'
    · cases (hg.eq_of_ok rfl hs hrun).1

end

theorem letterA_fits : [(65 : UInt8)].length ≤ 8 := by decide

/-- The short name of `A`. -/
def nameA : ShortName := padName [65] [] letterA_fits no_extension

theorem nameA_short : makeShortName [65] = .ok nameA := rfl

/-- The mounted blank disk, with a volume label `A` in its root directory. -/
def labelState : State :=
  { blankMounted with rootDir := Buf.blit (fun _ => 0) 0 (fillDirEntry nameA attrVolumeId 0 0).bytes 32 }

/-- The attributes of the entry a search returned. -/
def attrFound : EStateM.Result OutOfFuel State (Except Code (RawDirEntry × Loc)) → Option UInt8
  | .ok (.ok (e, _)) _ => some e.attr
  | _ => none

theorem name_runs :
    returned (writeDirectoryEntry 4096 0 nameA (fillDirEntry nameA attrArchive 0 0) blankMounted) = some .ok ∧
      attrFound (findEntry 4096 0 nameA labelState) = some attrVolumeId := by decide +kernel

theorem directory_map_blank :
    ∃ s' loc, Answers (findEntry 4096 0 nameA) s' (.ok (fillDirEntry nameA attrArchive 0 0, loc)) := by
  have hdir : blankMounted.toCore.volume.Directory 0 := ⟨.inl rfl, blank_volume.wf.tidy .root⟩
  obtain ⟨-, ⟨loc, hfind⟩, -⟩ := (directory_map (s := blankMounted) (Nat.le_refl 4096) blank_mountable.accepted
    blank_reliable hdir nameA_short rfl).1 _ (eq_ok_of_returned name_runs.1)
  exact ⟨_, loc, hfind⟩

/-! ## What is listed and what is found -/

/-- The C string in a buffer that starts with these bytes. -/
def cString (l : List UInt8) : List UInt8 := l.takeWhile (· != 0)

/-- The callback that takes everything down. -/
def collect (l : List DirEntryInfo) (x : DirEntryInfo) : Bool × List DirEntryInfo := (false, l ++ [x])

/-- The slots before the first one never used. -/
def inUse (es : List RawDirEntry) : List RawDirEntry := es.takeWhile fun e => e.name.first != nameEnd

/-- The slot is listed, and shown as the name `n` is. -/
def showsAs (n : ShortName) (e : RawDirEntry) : Bool :=
  isListed e && cString (dirNameToString e.name) == cString (dirNameToString n)

/-- What the directory `d` lists under the display form of `n` is what a search for `n` finds. -/
def ListedAsFound (fuel : Nat) (s : State) (d : Nat) (n : ShortName) : Prop :=
  ∃ l r, Answers (iterateDirectoryInternal fuel d collect []) s (.ok, l) ∧ Answers (findEntry fuel d n) s r ∧
    ((∃ x ∈ l, cString x.name = cString (dirNameToString n)) ↔ ∃ e p, r = .ok (e, p)) ∧
    ∀ e p, r = .ok (e, p) → e.attr ≠ attrVolumeId ∧
      ∀ x, l.find? (fun x => cString x.name == cString (dirNameToString n)) = some x →
        x.attr = e.attr ∧ x.size = e.fileSize ∧ x.firstCluster = e.firstClusterLow

/-- The first slot that has the name `n`, or is shown as it, is no volume label, and the first one that has
the name says the same. -/
def Plain (n : ShortName) (es : List RawDirEntry) : Prop :=
  ∀ a, (inUse es).find? (fun e => e.name == n || showsAs n e) = some a → a.attr ≠ attrVolumeId ∧
    ∃ b, (inUse es).find? (·.name == n) = some b ∧ a.attr = b.attr ∧ a.fileSize = b.fileSize ∧
    a.firstClusterLow = b.firstClusterLow

section

variable {fuel d : Nat} {s : State} {n : ShortName} {locs : List Loc}

theorem feed_collect : ∀ (l ctx : List DirEntryInfo), feed collect l ctx = (false, ctx ++ l)
  | [], ctx => by simp [feed]
  | x :: l, ctx => by simp [feed, collect, feed_collect l]

/-- A search finds the first slot of the name before the slots never used. -/
theorem scan_inUse (hn : n.Proper) : ∀ (es : List RawDirEntry) (e : RawDirEntry),
    scan (findVerdict n) es = .hit e ↔ (inUse es).find? (·.name == n) = some e
  | [], e => by simp [inUse]
  | x :: es, e => by
    have ih := scan_inUse hn es e
    unfold inUse at ih ⊢
    rw [scan]
    by_cases h0 : x.name.first = nameEnd
    · simp [findVerdict_stop.2 h0, h0]
    · have hcons : (x :: es).takeWhile (fun e => e.name.first != nameEnd) = x :: es.takeWhile fun e =>
          e.name.first != nameEnd :=
        List.takeWhile_cons_of_pos (by simpa using h0)
      rw [hcons, List.find?_cons]
      by_cases hx : x.name = n
      · have hhit : findVerdict n x = .hit :=
          findVerdict_hit.2 ⟨(x.live_iff).2 (by rw [hx]; exact ⟨hn.ne.1, hn.ne.2.1⟩), hx⟩
        simp [hhit, hx]
      · have hskip : findVerdict n x = .skip := by
          cases hv : findVerdict n x with
          | hit => exact absurd (findVerdict_hit.1 hv).2 hx
          | stop => exact absurd (findVerdict_stop.1 hv) h0
          | skip => rfl
        rw [hskip, beq_eq_false_iff_ne.2 hx]
        exact ih

/-- The first listed entry shown as `n`. -/
theorem find_listed (n : ShortName) (es : List RawDirEntry) :
    (listed es).find? (fun x => cString x.name == cString (dirNameToString n)) =
      ((inUse es).find? (showsAs n)).map copyEntryInfo := by
  unfold listed
  rw [List.find?_map, List.find?_filter]
  congr 2
  funext e
  rw [Bool.decide_and, Bool.decide_coe, Bool.decide_coe]
  rfl

/-- The first that passes one test or the other is the first that passes the test it passes. -/
theorem find_either {α : Type} {p q : α → Bool} {l : List α} {a : α} (h : l.find? (fun x => p x || q x) = some a) :
    (p a = true → l.find? p = some a) ∧ (q a = true → l.find? q = some a) ∧ (p a = true ∨ q a = true) := by
  obtain ⟨ha, pre, post, rfl, hpre⟩ := List.find?_eq_some_iff_append.1 h
  refine ⟨fun hp => ?_, fun hq => ?_, by simpa using ha⟩
  · exact List.find?_eq_some_iff_append.2 ⟨hp, pre, post, rfl, fun x hx => by have := hpre x hx; simp_all⟩
  · exact List.find?_eq_some_iff_append.2 ⟨hq, pre, post, rfl, fun x hx => by have := hpre x hx; simp_all⟩

/-- An entry named `n` is shown as `n`, unless it is a volume label. -/
theorem showsAs_of_name (hn : n.Proper) {e : RawDirEntry} (he : e.name = n) (ha : e.attr ≠ attrVolumeId) :
    showsAs n e = true := by
  have hdot : isDotEntry e = false := by
    unfold isDotEntry
    split
    · rfl
    · rw [if_pos (by rw [he]; simpa using hn.ne.2.2)]
  unfold showsAs isListed
  simp [he, hdot, ha, hn.ne.2.1]

/-- Of the first slot found under the name and the first one shown as it, told by the first slot that is either. -/
theorem plain_iff (hn : n.Proper) (es : List RawDirEntry) :
    Plain n es ↔
      (((∃ a, (inUse es).find? (showsAs n) = some a) ↔ ∃ e, (inUse es).find? (·.name == n) = some e) ∧
        ∀ e, (inUse es).find? (·.name == n) = some e → e.attr ≠ attrVolumeId ∧
          ∀ a, (inUse es).find? (showsAs n) = some a → a.attr = e.attr ∧ a.fileSize = e.fileSize ∧
          a.firstClusterLow = e.firstClusterLow) := by
  have hsome : ∀ {p : RawDirEntry → Bool} {e : RawDirEntry}, (inUse es).find? p = some e →
      (∀ e, p e = true → (e.name == n || showsAs n e) = true) →
      ∃ a, (inUse es).find? (fun e => e.name == n || showsAs n e) = some a := by
    intro p e he hp
    exact Option.isSome_iff_exists.1
      (List.find?_isSome.2 ⟨e, List.mem_of_find?_eq_some he, hp e (List.find?_some he)⟩)
  constructor
  · intro h
    have hfirst : ∀ a, (inUse es).find? (fun e => e.name == n || showsAs n e) = some a →
        (inUse es).find? (showsAs n) = some a := by
      intro a ha
      obtain ⟨h1, h2, h3⟩ := find_either ha
      rcases h3 with h3 | h3
      · exact h2 (showsAs_of_name hn (beq_iff_eq.1 h3) (h a ha).1)
      · exact h2 h3
    refine ⟨⟨?_, ?_⟩, ?_⟩
    · rintro ⟨a, ha⟩
      obtain ⟨r, hr⟩ := hsome ha fun e he => by simp [he]
      obtain ⟨-, b, hb, -⟩ := h r hr
      exact ⟨b, hb⟩
    · rintro ⟨e, he⟩
      obtain ⟨r, hr⟩ := hsome he fun e he => by simp [he]
      exact ⟨r, hfirst r hr⟩
    · intro e he
      obtain ⟨r, hr⟩ := hsome he fun e he => by simp [he]
      obtain ⟨hlabel, b, hb, h1, h2, h3⟩ := h r hr
      rw [he] at hb
      cases hb
      refine ⟨by rw [← h1]; exact hlabel, fun a ha => ?_⟩
      rw [hfirst r hr] at ha
      cases ha
      exact ⟨h1, h2, h3⟩
  · rintro ⟨hiff, hsame⟩ a ha
    obtain ⟨h1, h2, h3⟩ := find_either ha
    rcases h3 with h3 | h3
    · exact ⟨(hsame a (h1 h3)).1, a, h1 h3, rfl, rfl, rfl⟩
    · obtain ⟨e, he⟩ := hiff.1 ⟨a, h2 h3⟩
      obtain ⟨hlabel, hdata⟩ := hsame e he
      obtain ⟨h4, h5, h6⟩ := hdata a (h2 h3)
      exact ⟨by rw [h4]; exact hlabel, e, he, h4, h5, h6⟩

/-- What a search of the directory returns is the first slot of the name. -/
theorem found_iff (hn : n.Proper) (c : Core) (locs : List Loc) (e : RawDirEntry) :
    (∃ p, found c.slotIn (scan (fun p => findVerdict n (c.slotIn p)) locs) = .ok (e, p)) ↔
      (inUse (locs.map c.slotIn)).find? (·.name == n) = some e := by
  rw [← scan_inUse hn, scan_map]
  unfold Function.comp
  cases scan (fun p => findVerdict n (c.slotIn p)) locs with
  | hit p =>
    constructor
    · rintro ⟨q, hq⟩
      cases hq
      rfl
    · intro h
      cases h
      exact ⟨p, rfl⟩
  | stopped => exact iff_of_false (fun ⟨_, h⟩ => nomatch h) (fun h => nomatch h)
  | ranOff => exact iff_of_false (fun ⟨_, h⟩ => nomatch h) (fun h => nomatch h)

/-- What is listed under a name is what is found under it, if and only if the first slot that has the name or
is shown as it is no volume label and is the one found, or says the same. -/
theorem listed_as_found_iff (hm : s.fs.Accepted) (hs : Reliable s) (ht : s.toCore.Table fuel d locs)
    {input : List UInt8} (hn : makeShortName input = .ok n) :
    ListedAsFound fuel s d n ↔ Plain n (locs.map s.toCore.slotIn) := by
  have hp := makeShortName_proper hn
  have hlist : Answers (iterateDirectoryInternal fuel d collect []) s (.ok, listed (locs.map s.toCore.slotIn)) := by
    have hg := gives_list hm ht collect []
    rw [feed_collect, List.nil_append] at hg
    exact .of_gives hg rfl hs
  have hfind : Answers (findEntry fuel d n) s _ := .of_gives (gives_find hm ht n) rfl hs
  have hfound := found_iff hp s.toCore locs
  have hshown := find_listed n (locs.map s.toCore.slotIn)
  rw [plain_iff hp]
  have hmem : (∃ x ∈ listed (locs.map s.toCore.slotIn), cString x.name = cString (dirNameToString n)) ↔
      ∃ a, (inUse (locs.map s.toCore.slotIn)).find? (showsAs n) = some a := by
    have hisSome : (∃ x ∈ listed (locs.map s.toCore.slotIn), cString x.name = cString (dirNameToString n)) ↔
        ((listed (locs.map s.toCore.slotIn)).find?
          (fun x => cString x.name == cString (dirNameToString n))).isSome := by
      rw [List.find?_isSome]
      simp
    rw [hisSome, hshown, Option.isSome_map, Option.isSome_iff_exists]
  constructor
  · rintro ⟨l, r, h1, h2, h3, h4⟩
    obtain rfl : l = listed (locs.map s.toCore.slotIn) := (Prod.mk.inj (h1.eq hlist)).2
    obtain rfl := h2.eq hfind
    refine ⟨?_, fun e he => ?_⟩
    · rw [← hmem, h3]
      exact exists_congr hfound
    · obtain ⟨p, hp⟩ := (hfound e).2 he
      obtain ⟨h5, h6⟩ := h4 e p hp
      exact ⟨h5, fun a ha => h6 (copyEntryInfo a) (by rw [hshown, ha]; rfl)⟩
  · rintro ⟨h3, h4⟩
    refine ⟨_, _, hlist, hfind, ?_, fun e p he => ?_⟩
    · rw [hmem, h3]
      exact (exists_congr hfound).symm
    · obtain ⟨h5, h6⟩ := h4 e ((hfound e).1 ⟨p, he⟩)
      refine ⟨h5, fun x hx => ?_⟩
      rw [hshown] at hx
      obtain ⟨a, ha, rfl⟩ := Option.map_eq_some_iff.1 hx
      exact h6 a ha

theorem letterB_fits : [(66 : UInt8)].length ≤ 8 := by decide

/-- The short name of `B`. -/
def nameB : ShortName := padName [66] [] letterB_fits no_extension

/-- A file `B`, a deleted slot, a directory `A` and a volume label `B`. -/
def severalSlots : List RawDirEntry :=
  [fillDirEntry nameB attrArchive 4 5, deletedEntry (fillDirEntry nameA attrArchive 3 9),
    fillDirEntry nameA attrDirectory 2 0, fillDirEntry nameB attrVolumeId 0 0]

/-- The mounted blank disk, with these in its root directory. -/
def severalState : State :=
  { blankMounted with
    rootDir := severalSlots.zipIdx.foldl (fun b p => Buf.blit b (32 * p.2) p.1.bytes 32) fun _ => 0 }

/-- What the first slots of a name in `es` say, one that is either and one that has the name. -/
def plainly (n : ShortName) (es : List RawDirEntry) : Bool :=
  ((inUse es).find? fun e => e.name == n || showsAs n e).all fun a => a.attr != attrVolumeId &&
    ((inUse es).find? (·.name == n)).any fun b =>
      a.attr == b.attr && a.fileSize == b.fileSize && a.firstClusterLow == b.firstClusterLow

theorem plain_of_plainly {es : List RawDirEntry} (h : plainly n es = true) : Plain n es := by
  intro a ha
  unfold plainly at h
  rw [ha, Option.all_some, Bool.and_eq_true, Option.any_eq_true] at h
  obtain ⟨hattr, b, hb, hsame⟩ := h
  simp only [Bool.and_eq_true, beq_iff_eq] at hsame
  exact ⟨by simpa using hattr, b, hb, hsame.1.1, hsame.1.2, hsame.2⟩

/-- Both names are listed as they are found. -/
theorem listed_as_found_several :
    ListedAsFound 4096 severalState 0 nameA ∧ ListedAsFound 4096 severalState 0 nameB := by
  have hplain : ∀ n ∈ [nameA, nameB],
      plainly n (((List.range 16).map fun i => (0, i)).map severalState.toCore.slotIn) = true := by
    decide +kernel
  refine ⟨?_, ?_⟩
  · exact (listed_as_found_iff (s := severalState) blank_mountable.accepted blank_reliable .root nameA_short).2
      (plain_of_plainly (hplain nameA (by simp)))
  · exact (listed_as_found_iff (s := severalState) blank_mountable.accepted blank_reliable .root
      (show makeShortName [66] = .ok nameB from rfl)).2
      (plain_of_plainly (hplain nameB (by simp)))

/-- A volume label is not listed, and found. -/
theorem not_listed_as_found :
    ¬ ∀ (fuel d : Nat) (s : State) (n : ShortName) (locs : List Loc) (input : List UInt8), s.fs.Accepted →
      Reliable s → s.toCore.Table fuel d locs → makeShortName input = .ok n → ListedAsFound fuel s d n := by
  intro h
  obtain ⟨l, r, -, ⟨s', hr⟩, -, hopen⟩ :=
    h 4096 0 labelState nameA _ [65] blank_mountable.accepted blank_reliable .root rfl
  have hattr := name_runs.2
  rw [hr] at hattr
  cases r with
  | ok x =>
    obtain ⟨e, p⟩ := x
    exact (hopen e p rfl).1 (Option.some.inj hattr)
  | error e => cases hattr

end

end AltoniumOS.Fat12

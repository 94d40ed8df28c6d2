/-
Opening a file: which files leave the editor in a state that keeps its invariant, and of which files it has
every byte.
-/
import AltoniumOS.Nano.Exact
import AltoniumOS.Nano.Sessions
import AltoniumOS.System.Reading
import AltoniumOS.System.Failures

namespace AltoniumOS.Nano

open AltoniumOS.Lib
open AltoniumOS.Fat12 (Code)

/-! ## What is kept of a file -/

/-- The file without its carriage returns, which the editor never keeps. -/
def stripped (content : List UInt8) : List UInt8 := content.filter (· ≠ carriageReturn)

/-- The first `n` lines, each cut at `width` bytes. -/
def cut (n width : Nat) (ls : List (List UInt8)) : List (List UInt8) := (ls.take n).map (·.take width)

section

variable {content cs cur : List UInt8} {ls done : List (List UInt8)} {n width : Nat} {c : UInt8}

@[simp] theorem cut_zero (width : Nat) (ls : List (List UInt8)) : cut 0 width ls = [] := by simp [cut]

@[simp] theorem cut_nil (n width : Nat) : cut n width [] = [] := by simp [cut]

@[simp] theorem cut_cons (n width : Nat) (l : List UInt8) (ls : List (List UInt8)) :
    cut (n + 1) width (l :: ls) = l.take width :: cut n width ls := by simp [cut]

theorem stripped_cons_cr (cs : List UInt8) : stripped (carriageReturn :: cs) = stripped cs := by simp [stripped]

theorem stripped_cons (h : c ≠ carriageReturn) : stripped (c :: cs) = c :: stripped cs := by simp [stripped, h]

/-- A line that is full already is cut to the same bytes, whatever comes behind. -/
theorem cut_onto_full (h : cur.length = width) (h0 : 0 < width) (c : UInt8) (ls : List (List UInt8)) (n : Nat) :
    cut n width (onto (cur ++ [c]) ls) = cut n width (onto cur ls) := by
  have hne : cur ≠ [] := List.ne_nil_of_length_pos (by omega)
  cases n with
  | zero => simp
  | succ n =>
    cases ls with
    | nil => simp [onto, hne, ← h]
    | cons l ls => simp [onto, ← h]

/-- The load loop keeps the first lines, as far as they fit. -/
theorem finish_scan_cut :
    ∀ (cs : List UInt8) (done : List (List UInt8)) (cur : List UInt8), done.length ≤ maxLines →
      cur.length ≤ maxLineLength - 1 →
      finish (scan cs done cur) =
        done ++ cut (maxLines - done.length) (maxLineLength - 1) (onto cur (fileLines (stripped cs)))
  | [], done, cur, hdone, hcur => by
    rw [scan, finish]
    dsimp only
    by_cases hmore : cur ≠ [] ∧ done.length < maxLines
    · obtain ⟨n, hn⟩ : ∃ n, maxLines - done.length = n + 1 := ⟨maxLines - done.length - 1, by omega⟩
      rw [if_pos hmore, hn]
      simp [stripped, fileLines, onto, hmore.1, List.take_of_length_le hcur]
    · rw [if_neg hmore]
      by_cases hnil : cur = []
      · simp [stripped, fileLines, onto, hnil, cut]
      · have hfull : maxLines - done.length = 0 := by
          by_contra hlt
          exact hmore ⟨hnil, by omega⟩
        simp [hfull]
  | c :: cs, done, cur, hdone, hcur => by
    rw [scan]
    by_cases hlt : done.length < maxLines
    swap
    · -- no line left
      have hfull : maxLines - done.length = 0 := by omega
      rw [if_neg hlt, finish, if_neg fun h => hlt h.2, hfull]
      simp
    rw [if_pos hlt]
    by_cases hc : c = newline
    · subst hc
      obtain ⟨n, hn⟩ : ∃ n, maxLines - done.length = n + 1 := ⟨maxLines - done.length - 1, by omega⟩
      have hrest :=
        finish_scan_cut cs (done ++ [cur]) [] (by rw [List.length_append, List.length_singleton]; omega)
          (Nat.zero_le _)
      have hn' : maxLines - (done ++ [cur]).length = n := by
        rw [List.length_append, List.length_singleton]
        omega
      rw [if_pos rfl, hrest, hn', hn, stripped_cons (by decide), fileLines_newline, onto_nil, List.append_assoc]
      simp [onto, List.take_of_length_le hcur]
    · rw [if_neg hc]
      by_cases hcr : c = carriageReturn
      · subst hcr
        rw [if_neg (by simp), stripped_cons_cr]
        exact finish_scan_cut cs done cur hdone hcur
      · rw [stripped_cons hcr, onto_fileLines hc]
        by_cases hroom : cur.length < maxLineLength - 1
        · rw [if_pos ⟨hcr, hroom⟩]
          exact finish_scan_cut cs done (cur ++ [c]) hdone
            (by rw [List.length_append, List.length_singleton]; omega)
        · rw [if_neg fun h => hroom h.2, cut_onto_full (by omega) (by decide)]
          exact finish_scan_cut cs done cur hdone hcur

/-- What the editor has of a file that was read. -/
theorem finish_scan_file (content : List UInt8) :
    finish (scan content [] []) = cut maxLines (maxLineLength - 1) (fileLines (stripped content)) := by
  rw [finish_scan_cut content [] [] (Nat.zero_le _) (Nat.zero_le _), onto_nil]
  rfl

theorem fileLines_eq_nil : fileLines content = [] ↔ content = [] := by
  cases content with
  | nil => simp [fileLines]
  | cons c cs =>
    have hne : fileLines (c :: cs) ≠ [] := by
      rw [fileLines]
      split
      · simp
      · split <;> simp
    simp [hne]

theorem cut_eq_nil (h : 0 < n) : cut n width ls = [] ↔ ls = [] := by
  have hn : n ≠ 0 := by omega
  simp [cut, hn]

/-! ## Nothing cut -/

theorem length_unlines_cons (l : List UInt8) (ls : List (List UInt8)) :
    (unlines (l :: ls)).length = l.length + 1 + (unlines ls).length := by
  unfold unlines
  rw [List.flatMap_cons, List.length_append, List.length_append, List.length_singleton]

theorem length_unlines_cut (width : Nat) :
    ∀ (n : Nat) (ls : List (List UInt8)), (unlines (cut n width ls)).length ≤ (unlines ls).length ∧
      ((unlines (cut n width ls)).length = (unlines ls).length ↔ ls.length ≤ n ∧ ∀ l ∈ ls, l.length ≤ width)
  | n, [] => by simp [cut, unlines]
  | 0, l :: ls => by
    have hpos : (unlines (cut 0 width (l :: ls))).length = 0 := by simp [unlines]
    have hcons := length_unlines_cons l ls
    rw [List.length_cons]
    omega
  | n + 1, l :: ls => by
    obtain ⟨hle, hiff⟩ := length_unlines_cut width n ls
    rw [cut_cons, length_unlines_cons, length_unlines_cons, List.length_take]
    refine ⟨by omega, ?_⟩
    rw [List.length_cons, List.forall_mem_cons]
    constructor
    · intro heq
      have hrest := hiff.1 (by omega)
      exact ⟨by omega, by omega, hrest.2⟩
    · rintro ⟨hn, hl, hls⟩
      have hrest := hiff.2 ⟨by omega, hls⟩
      omega

theorem cut_eq_self (hn : ls.length ≤ n) (hw : ∀ l ∈ ls, l.length ≤ width) : cut n width ls = ls := by
  unfold cut
  rw [List.take_of_length_le hn]
  conv_rhs => rw [← List.map_id ls]
  exact List.map_congr_left fun l hl => List.take_of_length_le (hw l hl)

theorem unlines_eq_joined (h : ls ≠ []) : unlines ls = joined newline ls ++ [newline] := by
  rcases List.eq_nil_or_concat ls with rfl | ⟨pre, l, rfl⟩
  · exact absurd rfl h
  · rw [List.concat_eq_append, joined_around]
    simp [unlines]

/-- The lines joined are the content, up to a newline at the end, if and only if none was left out and none cut. -/
theorem joined_cut_iff (h0 : 0 < n) (width : Nat) (content : List UInt8) :
    (joined newline (cut n width (fileLines content)) = content ∨
      joined newline (cut n width (fileLines content)) ++ [newline] = content) ↔ (fileLines content).length ≤ n ∧
        ∀ l ∈ fileLines content, l.length ≤ width := by
  by_cases hne : content = []
  · subst hne
    simp [fileLines, joined]
  have hkept : cut n width (fileLines content) ≠ [] := by rwa [Ne, cut_eq_nil h0, fileLines_eq_nil]
  obtain ⟨hle, hiff⟩ := length_unlines_cut width n (fileLines content)
  have hjoined := unlines_eq_joined hkept
  have hnorm := unlines_fileLines content hne
  constructor
  · intro hwhole
    rw [← hiff]
    rw [hnorm] at hle ⊢
    rcases hwhole with h | h
    · -- no newline is missing, so nothing else can be
      rw [hjoined, h, List.length_append, List.length_singleton] at hle ⊢
      by_cases hlast : content.getLast? = some newline
      · rw [normalized, if_pos hlast] at hle
        omega
      · rw [normalized, if_neg hlast, List.length_append, List.length_singleton]
    · have hlast : content.getLast? = some newline := by rw [← h]; simp
      rw [hjoined, h, normalized, if_pos hlast]
  · rintro ⟨hn, hw⟩
    rw [cut_eq_self hn hw] at hjoined ⊢
    rw [hnorm, normalized] at hjoined
    split at hjoined
    · exact .inr hjoined.symm
    · exact .inl (List.append_cancel_right hjoined).symm

/-! ## The state after loading -/

variable {s s' : State} {filename : List UInt8} {result : Code} {buf : Buf} {size : Nat}

theorem loadedLines_failed (h : result ≠ .ok) : loadedLines result buf size = [[]] := if_neg fun hc => h hc.1

theorem loadedLines_read (h : size > 0) :
    loadedLines .ok buf size =
      cut maxLines (maxLineLength - 1) (fileLines (stripped ((List.range size).map buf))) := by
  rw [loadedLines, if_pos ⟨rfl, h⟩, finish_scan_file]

theorem Holds.inv_iff (h : Holds s ls) (hx : s.cursorX = 0) (hy : s.cursorY = 0) :
    Inv s ↔ ls ≠ [] ∧ ∀ l ∈ ls, (0 : UInt8) ∉ l := by
  have htotal := h.total
  constructor
  · intro hinv
    refine ⟨?_, fun l hl => ?_⟩
    · rintro rfl
      have := hinv.total.1
      rw [htotal] at this
      exact absurd this (by decide)
    · rw [← h.text] at hl
      obtain ⟨k, hk, rfl⟩ := mem_text hl
      exact (hinv.isLine hk).noNul
  · rintro ⟨hne, hnul⟩
    let t : Text :=
      { lines := ls, x := 0, y := 0, isLine := fun l hl => ⟨h.fits l hl, hnul l hl⟩, count := h.count,
        y_lt := List.length_pos_iff.2 hne, x_le := Nat.zero_le _ }
    exact Shows.inv (t := t) ⟨htotal, hx, hy, h.row⟩

theorem initEditor_run (s : State) (filename : List UInt8) (result : Code) (buf : Buf) (size : Nat) :
    ∃ s', initEditor filename result buf size s = some ((), s') ∧ Holds s' (loadedLines result buf size) ∧
      s'.editorActive = true ∧ s'.cursorX = 0 ∧ s'.cursorY = 0 := by
  have hmeets : Meets (initEditor filename result buf size) s fun _ s' =>
    Holds s' (loadedLines result buf size) ∧ s'.filename = filename ∧ s'.cursorX = 0 ∧ s'.cursorY = 0 :=
      initEditor_meets
  obtain ⟨⟨⟩, s', hrun, h, -, hx, hy⟩ := hmeets
  exact ⟨s', hrun, h, (initEditor_ends _ _ hrun).editorActive, hx, hy⟩

/-- Of a file that was read: some byte is no carriage return, and none of those kept is NUL. -/
def GoodBytes (content : List UInt8) : Prop :=
  stripped content ≠ [] ∧ ∀ l ∈ (fileLines (stripped content)).take maxLines,
    (0 : UInt8) ∉ l.take (maxLineLength - 1)

theorem goodBytes_iff (content : List UInt8) :
    (cut maxLines (maxLineLength - 1) (fileLines (stripped content)) ≠ [] ∧
      ∀ l ∈ cut maxLines (maxLineLength - 1) (fileLines (stripped content)), (0 : UInt8) ∉ l) ↔
        GoodBytes content := by
  unfold GoodBytes
  rw [Ne, cut_eq_nil (by decide), fileLines_eq_nil]
  unfold cut
  rw [List.forall_mem_map]

theorem loaded_inv_iff (h : Holds s (loadedLines result buf size)) (hx : s.cursorX = 0) (hy : s.cursorY = 0) :
    Inv s ↔ (result = .ok → size > 0 → GoodBytes ((List.range size).map buf)) := by
  rw [h.inv_iff hx hy]
  by_cases hread : result = .ok ∧ size > 0
  · obtain ⟨rfl, hpos⟩ := hread
    rw [loadedLines_read hpos, goodBytes_iff]
    exact ⟨fun hg _ _ => hg, fun hg => hg rfl hpos⟩
  · have hblank : loadedLines result buf size = [[]] := if_neg hread
    rw [hblank]
    refine iff_of_true ⟨by simp, by simp⟩ fun h1 h2 => absurd ⟨h1, h2⟩ hread

/-- The editor opens at the top in a state that keeps the invariant if and only if the read fails, or the file
is empty, or it has a byte besides carriage returns and none of the bytes kept is NUL. -/
theorem opens_inv_iff (s : State) (filename : List UInt8) (result : Code) (buf : Buf) (size : Nat) :
    ∃ s', initEditor filename result buf size s = some ((), s') ∧ ((Inv s' ∧ s'.cursorX = 0 ∧ s'.cursorY = 0) ↔
      (result = .ok → size > 0 → GoodBytes ((List.range size).map buf))) := by
  obtain ⟨s', hrun, h, -, hx, hy⟩ := initEditor_run s filename result buf size
  refine ⟨s', hrun, ?_⟩
  rw [← loaded_inv_iff h hx hy]
  exact and_iff_left ⟨hx, hy⟩

/-- A file of one carriage return leaves the editor without a line. -/
theorem opens_without_line :
    ¬ ∀ (s : State) (filename : List UInt8) (result : Code) (buf : Buf) (size : Nat), size ≤ ioBufferSize - 1 →
      ∃ s', initEditor filename result buf size s = some ((), s') ∧ Inv s' ∧ s'.cursorX = 0 ∧ s'.cursorY = 0 := by
  intro hall
  obtain ⟨s', hrun, hinv, hx, hy⟩ := hall State.unused [65] .ok (fun _ => carriageReturn) 1 (by decide)
  obtain ⟨s₁, hrun₁, h, -⟩ := initEditor_run State.unused [65] .ok (fun _ => carriageReturn) 1
  cases hrun.symm.trans hrun₁
  have hgood := (loaded_inv_iff h hx hy).1 hinv rfl (by decide)
  exact hgood.1 (by decide)

/-! ## A whole copy -/

/-- The editor is not active, or its lines joined are the file without its carriage returns, up to a newline at
the end. -/
def WholeIfActive (s : State) (content : List UInt8) : Prop :=
  s.editorActive = false ∨ s.content = stripped content ∨ s.content ++ [newline] = stripped content

/-- On a disk that works the path leads to an entry with these bytes. -/
def FileIs (fuel : Nat) (path : List UInt8) (fat : Fat12.State) (content : List UInt8) : Prop :=
  ∃ e, Fat12.Opens fuel path fat.repaired e ∧ content.length = e.size ∧
    ∀ i < e.size, fat.toCore.fileByte e.cluster i = some (content.getD i 0)

/-- Without its carriage returns the file has no more lines than the editor can hold, and none of them is too
long. -/
def FitsEditor (content : List UInt8) : Prop :=
  (fileLines (stripped content)).length ≤ maxLines ∧ ∀ l ∈ fileLines (stripped content),
    l.length ≤ maxLineLength - 1

instance (content : List UInt8) : Decidable (FitsEditor content) := inferInstanceAs (Decidable (_ ∧ _))

/-- What a read that succeeds brings of the file. -/
def ReadOf (content : List UInt8) (result : Code) (buf : Buf) (size : Nat) : Prop :=
  result = .ok → (List.range size).map buf = content

theorem FileIs.readOf {fuel maxSize : Nat} {path : List UInt8} {fat fat' : Fat12.State} {b : Buf} {b' : Option Buf}
    {size : Option Nat} (hf : FileIs fuel path fat content) (hfs : fat.fs.Accepted)
    (hr : Fat12.readFile fuel path (some b) maxSize fat = .ok (result, b', size) fat') :
    ReadOf content result (b'.getD b) (size.getD 0) := by
  rintro rfl
  obtain ⟨e, ho, hlen, hbytes⟩ := hf
  -- a read that succeeds is the one a working disk gives
  have hr' := (Fat12.heeds_readFile fuel path (some b) maxSize).repaired hr fun h => nomatch h
  obtain ⟨-, rfl, rfl⟩ := Fat12.readFile_filled (s := fat.repaired) hfs ho hr'
  refine List.ext_getElem (by simp [hlen]) fun i hi hi' => ?_
  have hbyte := hbytes i (by omega)
  have hin : fat.toCore.fileInto e.cluster e.size 0 b i = content.getD i 0 := by
    unfold Fat12.Core.fileInto
    rw [if_pos ⟨Nat.zero_le _, by omega⟩, Nat.sub_zero, hbyte, Option.getD_some]
  rw [List.getD_eq_getElem?_getD, List.getElem?_eq_getElem hi', Option.getD_some] at hin
  simpa using hin

theorem loaded_whole_iff (h : Holds s (loadedLines result buf size)) (hactive : s.editorActive = true)
    (hr : ReadOf content result buf size) :
    WholeIfActive s content ↔ result = .ok ∧ FitsEditor content ∨ stripped content = [] ∨
      stripped content = [newline] := by
  unfold WholeIfActive State.content
  rw [hactive, h.text]
  by_cases hok : result = .ok
  · -- what was read is the file, and what is loaded is cut from it
    have hbytes := hr hok
    subst hok
    have hlines : joined newline (loadedLines .ok buf size) =
        joined newline (cut maxLines (maxLineLength - 1) (fileLines (stripped content))) := by
      by_cases hpos : size > 0
      · rw [loadedLines_read hpos, hbytes]
      · obtain rfl : size = 0 := by omega
        obtain rfl : content = [] := by simpa using hbytes.symm
        rfl
    have hfits := joined_cut_iff (n := maxLines) (by decide) (maxLineLength - 1) (stripped content)
    rw [hlines]
    constructor
    · rintro (hoff | hwhole)
      · cases hoff
      · exact .inl ⟨rfl, hfits.1 hwhole⟩
    · rintro (⟨-, hf⟩ | hempty | hline)
      · exact .inr (hfits.2 hf)
      · rw [hempty]
        exact .inr (.inl rfl)
      · rw [hline]
        exact .inr (.inr rfl)
  · -- the editor starts blank, which is right for a blank file
    have hblank : joined newline (loadedLines result buf size) = [] := by
      rw [loadedLines_failed hok]
      rfl
    rw [hblank]
    constructor
    · rintro (hoff | hempty | hline)
      · cases hoff
      · exact .inr (.inl hempty.symm)
      · exact .inr (.inr hline.symm)
    · rintro (⟨hread, -⟩ | hempty | hline)
      · exact absurd hread hok
      · exact .inr (.inl hempty.symm)
      · exact .inr (.inr hline.symm)

/-- The editor opens an existing file whole if and only if the read succeeds and the file fits, or the file has
nothing besides carriage returns and one newline. -/
theorem opens_whole_iff {fuel : Nat} {path : List UInt8} {fat fat' : Fat12.State} {b : Buf} {b' : Option Buf}
    {fileSize : Option Nat} (hfs : fat.fs.Accepted) (hf : FileIs fuel path fat content)
    (hr : Fat12.readFile fuel path (some b) (ioBufferSize - 1) fat = .ok (result, b', fileSize) fat') (s : State) :
    ∃ s', initEditor path result (b'.getD b) (fileSize.getD 0) s = some ((), s') ∧ (WholeIfActive s' content ↔
      result = .ok ∧ FitsEditor content ∨ stripped content = [] ∨ stripped content = [newline]) := by
  obtain ⟨s', hrun, h, hactive, -⟩ := initEditor_run s path result (b'.getD b) (fileSize.getD 0)
  exact ⟨s', hrun, loaded_whole_iff h hactive (hf.readOf hfs hr)⟩

end

/-! ## Two files -/

/-- A file that is read on a working disk, byte by byte. -/
theorem fileIs_of_runs {path content : List UInt8} {fat working : Fat12.State} {maxSize n : Nat}
    (hfs : fat.fs.Accepted) (hw : fat.repaired = working) (hlen : content.length = n)
    (hsize : Fat12.sizeRead (Fat12.readFile 4096 path (some fun _ => 0) maxSize working) = some n)
    (hbytes : (Fat12.clusterOpened 4096 path working).any (fun c => (List.range n).all fun i =>
      working.toCore.fileByte c i == some (content.getD i 0)) = true) :
    FileIs 4096 path fat content := by
  subst hw
  obtain ⟨b, s, hr⟩ := Fat12.eq_ok_of_sizeRead hsize
  obtain ⟨e, ho⟩ := Fat12.opens_of_readFile hr
  obtain ⟨-, hn, -⟩ := Fat12.readFile_filled (s := fat.repaired) hfs ho hr
  have hn : n = e.size := Option.some.inj hn
  rw [ho.cluster, Option.any_some, List.all_eq_true] at hbytes
  exact ⟨e, ho, by omega, fun i hi => eq_of_beq (hbytes i (List.mem_range.2 (by omega)))⟩

/-- The file `A` of 600 bytes on the disk that was blank before. -/
theorem written_runs :
    Fat12.sizeRead (Fat12.readFile 4096 [65] (some fun _ => 0) (ioBufferSize - 1) Fat12.blankWritten.repaired) =
      some 600 ∧ (Fat12.clusterOpened 4096 [65] Fat12.blankWritten.repaired).any
        (fun c => (List.range 600).all fun i =>
          Fat12.blankWritten.repaired.toCore.fileByte c i == some ((List.replicate 600 7).getD i 0)) = true ∧
      Fat12.blankWritten.repaired.fs = Fat12.Fs.ofBoot Fat12.blankBoot 0 := by
  decide +kernel

theorem accepted_written : Fat12.blankWritten.repaired.fs.Accepted := by
  rw [written_runs.2.2]
  exact Fat12.blank_mountable.accepted

theorem fileIs_written : FileIs 4096 [65] Fat12.blankWritten.repaired (List.replicate 600 7) :=
  fileIs_of_runs accepted_written (Fat12.withFaults_repaired _ _) List.length_replicate written_runs.1
    written_runs.2.1

/-- The file `A` of one byte in the directory `D`, and what becomes of reading it when the search for `D` fails. -/
theorem nested_reads :
    Fat12.sizeRead (Fat12.readFile 4096 [68, 47, 65] (some fun _ => 0) (ioBufferSize - 1)
      Fat12.nestedState.repaired) = some 1 ∧
    (Fat12.clusterOpened 4096 [68, 47, 65] Fat12.nestedState.repaired).any
      (fun c => (List.range 1).all fun i => Fat12.nestedState.repaired.toCore.fileByte c i == some ([7].getD i 0)) =
        true ∧
    (returned (Fat12.readFile 4096 [68, 47, 65] (some fun _ => 0) (ioBufferSize - 1)
      (Fat12.nestedState.withFaults (Fat12.failingAt 0)))).map Prod.fst = some .errIo := by
  decide +kernel

theorem opens_whole_iff_unread :
    ∃ b' size fat', Fat12.readFile 4096 [68, 47, 65] (some fun _ => 0) (ioBufferSize - 1)
      (Fat12.nestedState.withFaults (Fat12.failingAt 0)) = .ok (.errIo, b', size) fat' ∧
    ∃ s', initEditor [68, 47, 65] .errIo (b'.getD fun _ => 0) (size.getD 0) State.unused = some ((), s') ∧
    ¬ WholeIfActive s' [7] := by
  obtain ⟨hsize, hbytes, hcode⟩ := nested_reads
  have hfs := (Fat12.nested_wellFormed (Fat12.failingAt 0)).mounted.accepted
  have hfile : FileIs 4096 [68, 47, 65] (Fat12.nestedState.withFaults (Fat12.failingAt 0)) [7] :=
    fileIs_of_runs hfs (Fat12.withFaults_repaired _ _) rfl hsize hbytes
  obtain ⟨⟨code, b', size⟩, hr, rfl⟩ := Option.map_eq_some_iff.1 hcode
  have hrun := eq_ok_of_returned hr
  obtain ⟨s', h1, h2⟩ := opens_whole_iff hfs hfile hrun State.unused
  exact ⟨b', size, _, hrun, s', h1, fun h => absurd (h2.1 h) (by decide)⟩

/-- Of the 600 bytes the editor has 199, and is active. -/
theorem opens_partial_copy :
    ¬ ∀ (fuel : Nat) (path content : List UInt8) (fat fat' : Fat12.State) (b : Buf) (b' :
      Option Buf) (result : Code) (fileSize : Option Nat), fat.fs.Accepted → FileIs fuel path fat content →
      Fat12.readFile fuel path (some b) (ioBufferSize - 1) fat = .ok (result, b', fileSize) fat' →
      ∀ s : State, ∃ s', initEditor path result (b'.getD b) (fileSize.getD 0) s = some ((), s') ∧
      WholeIfActive s' content := by
  intro hall
  obtain ⟨b', fat', hr⟩ := Fat12.eq_ok_of_sizeRead written_runs.1
  obtain ⟨s', hrun, hwhole⟩ := hall _ _ _ _ _ _ _ _ _ accepted_written fileIs_written hr State.unused
  have hread := fileIs_written.readOf accepted_written hr
  obtain ⟨s₁, hrun₁, h, hactive, -⟩ :=
    initEditor_run State.unused [65] .ok ((some b').getD fun _ => 0) ((some 600).getD 0)
  rw [hrun] at hrun₁
  obtain rfl : s' = s₁ := congrArg Prod.snd (Option.some.inj hrun₁)
  exact absurd ((loaded_whole_iff h hactive hread).1 hwhole) (by decide +kernel)

end AltoniumOS.Nano

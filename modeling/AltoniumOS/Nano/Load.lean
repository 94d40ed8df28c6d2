/-
Loading a file and saving it again: the loop splits the file into lines, the save joins them, and within
the limits of the editor the second undoes the first.
-/
import AltoniumOS.Nano.Sound

namespace AltoniumOS.Nano

open AltoniumOS.Lib
open AltoniumOS.Fat12 (Code)

/-! ## Lines of a file -/

/-- The lines of a file, the last one with or without a newline behind it. -/
def fileLines : List UInt8 → List (List UInt8)
  | [] => []
  | c :: cs =>
    if c = newline then [] :: fileLines cs
    else
      match fileLines cs with
      | [] => [[c]]
      | l :: ls => (c :: l) :: ls

/-- The file with a newline behind its last line; the empty file becomes one newline. -/
def normalized (content : List UInt8) : List UInt8 :=
  if content.getLast? = some newline then content else content ++ [newline]

/-- Each line with a newline behind it. -/
def unlines (ls : List (List UInt8)) : List UInt8 := ls.flatMap (· ++ [newline])

/-- `cur` in front of the first line. -/
def onto (cur : List UInt8) : List (List UInt8) → List (List UInt8)
  | [] => if cur = [] then [] else [cur]
  | l :: ls => (cur ++ l) :: ls

/-- What the load loop makes of the bytes left: the lines done, and the one it is in. -/
def scan : List UInt8 → List (List UInt8) → List UInt8 → List (List UInt8) × List UInt8
  | [], done, cur => (done, cur)
  | c :: cs, done, cur =>
    if done.length < maxLines then
      if c = newline then scan cs (done ++ [cur]) []
      else if c ≠ carriageReturn ∧ cur.length < maxLineLength - 1 then scan cs done (cur ++ [c])
      else scan cs done cur
    else (done, cur)

/-- The lines, with the last one if something is in it. -/
def finish (r : List (List UInt8) × List UInt8) : List (List UInt8) :=
  if r.2 ≠ [] ∧ r.1.length < maxLines then r.1 ++ [r.2] else r.1

section

variable {c : UInt8} {content cs cur : List UInt8} {ls done : List (List UInt8)}

theorem fileLines_newline (cs : List UInt8) : fileLines (newline :: cs) = [] :: fileLines cs := by
  rw [fileLines, if_pos rfl]

theorem onto_fileLines (hc : c ≠ newline) : onto cur (fileLines (c :: cs)) = onto (cur ++ [c]) (fileLines cs) := by
  rw [fileLines, if_neg hc]
  cases fileLines cs with
  | nil => simp [onto]
  | cons l ls => simp [onto]

theorem onto_nil (ls : List (List UInt8)) : onto [] ls = ls := by
  cases ls with
  | nil => rfl
  | cons l ls => rfl

/-- Within the limits the loop finds the lines of the file. -/
theorem finish_scan :
    ∀ (cs : List UInt8) (done : List (List UInt8)) (cur : List UInt8), carriageReturn ∉ cs →
      (∀ l ∈ onto cur (fileLines cs), l.length ≤ maxLineLength - 1) →
      done.length + (onto cur (fileLines cs)).length ≤ maxLines →
      finish (scan cs done cur) = done ++ onto cur (fileLines cs)
  | [], done, cur, _, _, hcount => by
    rw [scan, finish, fileLines]
    unfold onto at hcount ⊢
    dsimp only
    by_cases hcur : cur = []
    · simp [hcur]
    · have hlt : done.length < maxLines := by
        simp only [fileLines, if_neg hcur, List.length_singleton] at hcount
        omega
      rw [if_pos ⟨hcur, hlt⟩, if_neg hcur]
  | c :: cs, done, cur, hcr, hlen, hcount => by
    have hcs : carriageReturn ∉ cs := fun h => hcr (List.mem_cons_of_mem c h)
    rw [scan]
    by_cases hc : c = newline
    · subst hc
      rw [fileLines_newline] at hlen hcount ⊢
      simp only [onto, List.append_nil, List.length_cons] at hlen hcount ⊢
      rw [if_pos (by omega), if_pos trivial]
      have hrest := finish_scan cs (done ++ [cur]) [] hcs
      rw [onto_nil] at hrest
      rw [hrest (fun l hl => hlen l (List.mem_cons_of_mem _ hl))
        (by rw [List.length_append, List.length_singleton]; omega), List.append_assoc]
      rfl
    · rw [onto_fileLines hc] at hlen hcount ⊢
      -- the line the byte goes to is there, and has room
      have hline : ∃ l ls, onto (cur ++ [c]) (fileLines cs) = (cur ++ [c] ++ l) :: ls := by
        cases fileLines cs with
        | nil => exact ⟨[], [], by simp [onto]⟩
        | cons l ls => exact ⟨l, ls, rfl⟩
      obtain ⟨l, ls, hl⟩ := hline
      have hroom := hlen (cur ++ [c] ++ l) (by rw [hl]; exact List.mem_cons_self)
      have hpos : 0 < (onto (cur ++ [c]) (fileLines cs)).length := by rw [hl, List.length_cons]; omega
      simp only [List.length_append, List.length_singleton] at hroom
      have hne : c ≠ carriageReturn := fun h => hcr (h ▸ List.mem_cons_self)
      rw [if_pos (by omega), if_neg hc, if_pos ⟨hne, by omega⟩]
      exact finish_scan cs done _ hcs hlen hcount

theorem unlines_fileLines :
    ∀ (content : List UInt8), content ≠ [] → unlines (fileLines content) = normalized content
  | [], h => absurd rfl h
  | [c], _ => by
    by_cases hc : c = newline
    · subst hc
      rfl
    · simp [fileLines, unlines, normalized, hc]
  | c :: c' :: cs, _ => by
    have hrest := unlines_fileLines (c' :: cs) (List.cons_ne_nil _ _)
    have hnorm : normalized (c :: c' :: cs) = c :: normalized (c' :: cs) := by
      unfold normalized
      rw [List.getLast?_cons_cons]
      split <;> rfl
    rw [hnorm, ← hrest]
    by_cases hc : c = newline
    · subst hc
      rw [fileLines_newline]
      rfl
    · have hne : fileLines (c' :: cs) ≠ [] := by
        rw [fileLines]
        split
        · simp
        · split <;> simp
      rw [fileLines, if_neg hc]
      cases hls : fileLines (c' :: cs) with
      | nil => exact absurd hls hne
      | cons l ls => rfl

/-- Lines that fit the I/O buffer are gathered whole. -/
theorem gather_eq :
    ∀ {ls : List (List UInt8)} {out : List UInt8}, out.length + (unlines ls).length ≤ ioBufferSize - 1 →
      gather ls out = out ++ unlines ls
  | [], out, _ => by simp [gather, unlines]
  | l :: ls, out, h => by
    have hcons : unlines (l :: ls) = l ++ newline :: unlines ls := by simp [unlines]
    rw [hcons] at h ⊢
    simp only [List.length_append, List.length_cons] at h
    rw [gather, if_pos (by omega), List.take_of_length_le (by omega)]
    dsimp only
    rw [if_pos (by rw [List.length_append]; omega),
      gather_eq (by simp only [List.length_append, List.length_singleton]; omega)]
    simp

end

/-! ## Loading -/

/-- The rows loaded: those of the lines done are complete, the next one begins with `cur`. -/
structure Loading (s : State) (done : List (List UInt8)) (cur : List UInt8) : Prop where
  count : done.length ≤ maxLines
  fits : ∀ l ∈ done, l.length < maxLineLength
  room : cur.length < maxLineLength
  row : ∀ k < done.length, RowIs (s.lines k) (s.lineLengths k) (done.getD k [])
  current : ∀ j < cur.length, s.lines done.length j = cur.getD j 0

section

variable {s s' : State} {cur : List UInt8} {done : List (List UInt8)} {filename : List UInt8} {result : Code}
  {buf : Buf} {size : Nat}

/-- The line in hand is done. -/
theorem Loading.next (h : Loading s done cur) (hlt : done.length < maxLines) {pos : Int} (hpos : pos = cur.length) :
    Loading ((s.setRow done.length (Function.update (s.lines done.length) cur.length 0)).setLen done.length pos)
      (done ++ [cur]) [] := by
  refine ⟨?_, ?_, by decide, ?_, fun j hj => absurd hj (Nat.not_lt_zero j)⟩
  · rw [List.length_append, List.length_singleton]
    omega
  · intro l hl
    rcases List.mem_append.1 hl with hl | hl
    · exact h.fits l hl
    · rw [List.mem_singleton.1 hl]
      exact h.room
  · intro k hk
    rw [List.length_append, List.length_singleton] at hk
    by_cases hkd : k = done.length
    · subst hkd
      have hlast : (done ++ [cur]).getD done.length [] = cur := by simp [List.getD_eq_getElem?_getD]
      rw [hlast]
      refine ⟨by simp [hpos], fun j hj => ?_⟩
      simp only [setLen_lines, setRow_lines_self, Function.update_apply]
      have hend := getD_length cur (j := j)
      have hbyte := h.current j
      grind
    · have hold : (done ++ [cur]).getD k [] = done.getD k [] := by
        simp only [List.getD_eq_getElem?_getD]
        rw [List.getElem?_append_left (by omega)]
      rw [hold]
      simp only [setLen_lines, setLen_lineLengths, setRow_lineLengths, setRow_lines_ne hkd,
        Function.update_of_ne hkd]
      exact h.row k (by omega)

/-- A byte goes to the line in hand. -/
theorem Loading.byte (h : Loading s done cur) (hroom : cur.length < maxLineLength - 1) (c : UInt8) :
    Loading (s.setRow done.length (Function.update (s.lines done.length) cur.length c)) done (cur ++ [c]) := by
  refine ⟨h.count, h.fits, ?_, fun k hk => ?_, fun j hj => ?_⟩
  · rw [List.length_append, List.length_singleton]
    omega
  · rw [setRow_lines_ne (by omega)]
    exact h.row k hk
  · rw [List.length_append, List.length_singleton] at hj
    rw [setRow_lines_self, Function.update_apply]
    have hbyte := h.current j
    simp only [List.getD_eq_getElem?_getD, List.getElem?_append] at hbyte ⊢
    grind

theorem loadLoop_meets :
    ∀ {cs : List UInt8} {n i : Nat} {done : List (List UInt8)} {cur : List UInt8} {line pos : Int} {s : State},
      n = cs.length → (∀ m < cs.length, buf (i + m) = cs.getD m 0) → line = done.length → pos = cur.length →
      Loading s done cur → Meets (loadLoop buf n i line pos) s fun r s' =>
        r = (((scan cs done cur).1.length : Int), ((scan cs done cur).2.length : Int)) ∧
        ∃ lines lens, s' = { s with lines := lines, lineLengths := lens } ∧
        Loading s' (scan cs done cur).1 (scan cs done cur).2
  | [], _, _, done, cur, _, _, s, rfl, _, hline, hpos, h =>
    .pure ⟨by rw [hline, hpos]; rfl, s.lines, s.lineLengths, rfl, h⟩
  | c :: cs, _, i, done, cur, line, pos, s, rfl, hbuf, hline, hpos, h => by
    have hc : buf i = c := hbuf 0 (Nat.succ_pos _)
    have hbuf' : ∀ m < cs.length, buf (i + 1 + m) = cs.getD m 0 := by
      intro m hm
      rw [show i + 1 + m = i + (m + 1) by omega, hbuf (m + 1) (by simp; omega)]
      rfl
    rw [List.length_cons, loadLoop, scan]
    by_cases hlt : done.length < maxLines
    · rw [if_pos (by omega), if_pos hlt, hc]
      dsimp only
      split
      · refine .step (setChar_run hline hlt hpos h.room 0) (.step (setLength_run hline hlt _) ?_)
        refine (loadLoop_meets (n := cs.length) rfl hbuf' (by rw [hline, List.length_append]; rfl) rfl
          (h.next hlt hpos)).mono ?_
        rintro r s' ⟨hr, lines', lens', rfl, hl⟩
        exact ⟨hr, lines', lens', rfl, hl⟩
      · by_cases hcr : c ≠ carriageReturn ∧ cur.length < maxLineLength - 1
        · rw [if_pos hcr, if_pos ⟨hcr.1, by omega⟩]
          refine .step (setChar_run hline hlt hpos h.room c) ?_
          refine (loadLoop_meets (n := cs.length) rfl hbuf' hline (by rw [hpos, List.length_append]; rfl)
            (h.byte hcr.2 c)).mono ?_
          rintro r s' ⟨hr, lines', lens', rfl, hl⟩
          exact ⟨hr, lines', lens', rfl, hl⟩
        · rw [if_neg hcr, if_neg fun hc => hcr ⟨hc.1, by omega⟩]
          exact loadLoop_meets rfl hbuf' hline hpos h
    · rw [if_neg (by omega), if_neg hlt]
      exact .pure ⟨by rw [hline, hpos], s.lines, s.lineLengths, rfl, h⟩

/-- The lines the editor has after loading. -/
def loadedLines (result : Code) (buf : Buf) (size : Nat) : List (List UInt8) :=
  if result = .ok ∧ size > 0 then finish (scan ((List.range size).map buf) [] []) else [[]]

/-- The state holds these lines, which may contain NUL. -/
structure Holds (s : State) (ls : List (List UInt8)) : Prop where
  total : s.totalLines = ls.length
  count : ls.length ≤ maxLines
  fits : ∀ l ∈ ls, l.length < maxLineLength
  row : ∀ k < ls.length, RowIs (s.lines k) (s.lineLengths k) (ls.getD k [])

theorem Loading.holds (h : Loading s done cur) : Holds { s with totalLines := done.length } done :=
  ⟨rfl, h.count, h.fits, h.row⟩

theorem Holds.closed {ls : List (List UInt8)} (h : Holds s ls) {k : Nat} (hk : k < s.totalLines) :
    Closed (s.lines k) (s.lineLengths k) := by
  have htotal := h.total
  have hrow := h.row k (by omega)
  have hmem : ls.getD k [] ∈ ls := by
    rw [List.getD_eq_getElem?_getD, List.getElem?_eq_getElem (by omega)]
    exact List.getElem_mem (by omega)
  rw [hrow.length]
  refine closed_of_end (h.fits _ hmem) ?_
  rw [hrow.byte _ (le_refl _), getD_length _ (le_refl _)]

theorem Holds.readable {ls : List (List UInt8)} (h : Holds s ls) : Readable s :=
  ⟨by have := h.total; have := h.count; omega, fun _ hk => (h.closed hk).1⟩

theorem Holds.shown {ls : List (List UInt8)} (h : Holds s ls) (hs : Shown s s') : Holds s' ls := by
  obtain ⟨screen, cursor, msg, theme, prompt, help, rfl⟩ := hs
  exact ⟨h.total, h.count, h.fits, h.row⟩

theorem Holds.text {ls : List (List UInt8)} (h : Holds s ls) : s.text = ls := by
  have htotal := h.total
  refine List.ext_getElem (by rw [length_text]; omega) fun k hk hk' => ?_
  have hrow := h.row k hk'
  have hline : s.text[k] = s.line k := by simp [State.text, State.line]
  have hget : ls.getD k [] = ls[k] := by rw [List.getD_eq_getElem?_getD, List.getElem?_eq_getElem hk']; rfl
  rw [hget] at hrow
  have hlen := hrow.length
  rw [hline]
  refine List.ext_getElem (by rw [length_line]; omega) fun j hj hj' => ?_
  have hbyte := hrow.byte j (by omega)
  rw [List.getD_eq_getElem?_getD, List.getElem?_eq_getElem hj'] at hbyte
  simpa [State.line] using hbyte

/-- Loading runs, whatever the file. -/
theorem initEditor_meets : Meets (initEditor filename result buf size) s fun _ s' =>
    Holds s' (loadedLines result buf size) ∧ s'.filename = filename ∧ s'.cursorX = 0 ∧ s'.cursorY = 0 := by
  have hdraw : ∀ {s₀ : State} {ls}, Holds s₀ ls → s₀.filename = filename → s₀.cursorX = 0 → s₀.cursorY = 0 →
      Meets renderEditor s₀ fun _ s' => Holds s' ls ∧ s'.filename = filename ∧ s'.cursorX = 0 ∧ s'.cursorY = 0 := by
    intro s₀ ls h hf hx hy
    refine (renderEditor_meets h.readable).mono ?_
    rintro - s' hs
    refine ⟨h.shown hs, ?_⟩
    obtain ⟨screen, cursor, msg, theme, prompt, help, rfl⟩ := hs
    exact ⟨hf, hx, hy⟩
  unfold initEditor
  refine .step (modify_run _) (.step (modify_run _) ?_)
  -- whatever is in the rows
  set s₁ : State := { { s with
      filename := filename
      totalLines := 0
      cursorX := 0
      cursorY := 0
      viewportY := 0
      dirty := false
      editorActive := true
      promptState := .none
      helpOverlayVisible := false } with statusMessage := "" } with hs₁
  have hclear : Meets (forUp 0 maxLines fun i => do setLength i 0; setChar i 0 0) s₁ fun _ s' =>
      ∃ lines lens, s' = { s₁ with lines := lines, lineLengths := lens } := by
    refine Meets.forUp (fun _ s' => ∃ lines lens, s' = { s₁ with lines := lines, lineLengths := lens })
      (j := 0) rfl rfl (Nat.zero_le _) ⟨s₁.lines, s₁.lineLengths, rfl⟩ ?_
    rintro i _ - hi ⟨lines, lens, rfl⟩
    exact .step (setLength_run rfl hi 0) (.of_run (setChar_run rfl hi (m := 0) rfl (by decide) 0) ⟨_, _, rfl⟩)
  refine hclear.bind ?_
  rintro - _ ⟨lines, lens, rfl⟩
  dsimp only
  unfold loadedLines
  split
  · rename_i hfile
    have hbytes : ∀ m < ((List.range size).map buf).length, buf (0 + m) = ((List.range size).map buf).getD m 0 := by
      intro m hm
      simp only [List.length_map, List.length_range] at hm
      simp [List.getD_eq_getElem?_getD, hm]
    have hnone : Loading { s₁ with lines := lines, lineLengths := lens } [] [] :=
      ⟨by decide, by simp, by
        decide, fun k hk => absurd hk (Nat.not_lt_zero k), fun j hj => absurd hj (Nat.not_lt_zero j)⟩
    have hloop := loadLoop_meets (n := size) (by simp) hbytes Nat.cast_zero.symm Nat.cast_zero.symm hnone
    refine hloop.bind ?_
    rintro _ _ ⟨rfl, lines, lens, rfl, h⟩
    dsimp only
    unfold finish
    generalize scan ((List.range size).map buf) [] [] = r at h ⊢
    by_cases hmore : r.2 ≠ [] ∧ r.1.length < maxLines
    · have hpos : 0 < r.2.length := List.length_pos_iff.2 hmore.1
      rw [if_pos hmore, if_pos ⟨by omega, by omega⟩]
      refine .step (setChar_run rfl hmore.2 rfl h.room 0)
        (.step (setLength_run rfl hmore.2 _) (.step (modify_run _) ?_))
      have hholds := (h.next hmore.2 rfl).holds
      rw [List.length_append, List.length_singleton] at hholds
      exact hdraw hholds rfl rfl rfl
    · rw [if_neg hmore, if_neg (by rintro ⟨hpos, hlt⟩; exact hmore ⟨List.length_pos_iff.1 (by omega), by omega⟩)]
      exact .step (modify_run _) (hdraw h.holds rfl rfl rfl)
  · refine .step (modify_run _) (.step (setLength_run (k := 0) rfl (by decide) 0) ?_)
    refine .step (setChar_run (k := 0) rfl (by decide) (m := 0) rfl (by decide) 0) (hdraw ?_ rfl rfl rfl)
    refine ⟨rfl, by decide, by simp [maxLineLength], fun k hk => ?_⟩
    obtain rfl : k = 0 := by simpa using hk
    refine ⟨rfl, fun j hj => ?_⟩
    obtain rfl : j = 0 := by simpa using hj
    rfl

/-- What is loaded, if there is a line, is sound. -/
theorem sound_of_load (hload : initEditor filename result buf size s = some ((), s'))
    (hline : 1 ≤ s'.totalLines) : Sound s' := by
  obtain ⟨⟨⟩, s₁, hrun, h, -, hx, hy⟩ := initEditor_meets (s := s)
  cases hload.symm.trans hrun
  have hclosed := fun k hk => h.closed (k := k) hk
  have hfirst := (hclosed 0 (by omega)).1
  refine ⟨⟨hline, h.readable.total⟩, ?_, ?_, hclosed⟩
  · rw [hy]
    omega
  · rw [hx, hy]
    exact ⟨le_refl _, hfirst.1⟩

/-- A file within the limits of the editor, loaded and saved as modified, is written as it was, with a newline
behind its last line. -/
theorem load_save (s : State) (filename content : List UInt8) (hcr : carriageReturn ∉ content)
    (hlines : ∀ l ∈ fileLines content, l.length ≤ 199) (hcount : (fileLines content).length ≤ 1000)
    (hsize : (normalized content).length ≤ 16383) (hbuf : ∀ i < content.length, buf i = content.getD i 0) :
    ∃ s₁ saved s₂, initEditor filename .ok buf content.length s = some ((), s₁) ∧
      saveFile { s₁ with dirty := true } = some (saved, s₂) ∧
      ∃ text result, s₂.written = s₁.written ++ [⟨filename, normalized content, text, result⟩] := by
  have hmeets : Meets (initEditor filename .ok buf content.length) s fun _ s' =>
    Holds s' (loadedLines .ok buf content.length) ∧ s'.filename = filename ∧ s'.cursorX = 0 ∧ s'.cursorY = 0 :=
      initEditor_meets
  obtain ⟨⟨⟩, s₁, hload, h, hf, -, -⟩ := hmeets
  have hread : Readable { s₁ with dirty := true } := ⟨h.readable.total, h.readable.length⟩
  obtain ⟨saved, s₂, hsave, -, hwritten⟩ := saveFile_meets hread
  refine ⟨s₁, saved, s₂, hload, hsave, s₁.text, s₁.outcomes 0, ?_⟩
  rw [hwritten rfl]
  -- what is gathered is the file
  have hgather : gather s₁.text [] = normalized content := by
    rw [h.text]
    unfold loadedLines
    by_cases hempty : content = []
    · subst hempty
      rfl
    · have hpos : content.length > 0 := List.length_pos_iff.2 hempty
      have hbytes : (List.range content.length).map buf = content := by
        refine List.ext_getElem (by simp) fun i hi hi' => ?_
        have hi := hbuf i hi'
        rw [List.getD_eq_getElem?_getD, List.getElem?_eq_getElem hi'] at hi
        simpa using hi
      have hlines' :=
        finish_scan content [] [] hcr (by rw [onto_nil]; exact hlines)
          (by rw [onto_nil, List.length_nil, Nat.zero_add]; exact hcount)
      rw [onto_nil, List.nil_append] at hlines'
      rw [if_pos ⟨rfl, hpos⟩, hbytes, hlines',
        gather_eq (by rw [unlines_fileLines content hempty]; simpa [ioBufferSize] using hsize),
        unlines_fileLines content hempty]
      rfl
  rw [← hf, ← hgather]
  rfl

end

/-- A file of two lines, the first one empty. -/
theorem load_save_two :
    ∃ s₁ saved s₂, initEditor [65] .ok (fun i => [newline, 98].getD i 0) 2 State.unused = some ((), s₁) ∧
      saveFile { s₁ with dirty := true } = some (saved, s₂) ∧
      ∃ text result, s₂.written = s₁.written ++ [⟨[65], [newline, 98, newline], text, result⟩] :=
  load_save State.unused [65] [newline, 98] (by decide) (by decide) (by decide) (by decide) fun _ _ => rfl

/-! ## Saving the whole text -/

/-- What is gathered leaves the last byte of the I/O buffer free. -/
theorem length_gather_le : ∀ {ls : List (List UInt8)} {out : List UInt8}, out.length ≤ ioBufferSize - 1 →
    (gather ls out).length ≤ ioBufferSize - 1
  | [], _, h => h
  | l :: ls, out, h => by
    rw [gather]
    split
    · apply length_gather_le
      -- the line stops two bytes before the end, so a newline still fits
      have hline : (out ++ l.take (ioBufferSize - 2 - out.length)).length ≤ ioBufferSize - 1 := by
        simp only [List.length_append, List.length_take]
        omega
      split
      · simp only [List.length_append, List.length_singleton] at *
        omega
      · exact hline
    · exact h

theorem gather_eq_iff (ls : List (List UInt8)) :
    gather ls [] = unlines ls ↔ (unlines ls).length ≤ ioBufferSize - 1 := by
  constructor
  · intro h
    rw [← h]
    exact length_gather_le (by simp)
  · intro h
    rw [gather_eq (by simpa using h)]
    rfl

theorem handed_iff {s s' : State} (h : Readable s) (hdirty : s.dirty = true) (hs : saveFile s = some (true, s')) :
    (∃ w, s'.written = s.written ++ [w] ∧ w.filename = s.filename ∧ w.bytes = unlines s.text) ↔
      gather s.text [] = unlines s.text := by
  obtain ⟨saved, s₁, hrun, -, hw⟩ := saveFile_meets h
  obtain ⟨rfl, rfl⟩ : true = saved ∧ s' = s₁ := by simpa using hs.symm.trans hrun
  rw [hw hdirty]
  constructor
  · rintro ⟨w, hwritten, -, hbytes⟩
    obtain rfl := List.singleton_inj.1 (List.append_cancel_left hwritten)
    exact hbytes
  · exact fun he => ⟨_, rfl, rfl, he⟩

/-- A save that reports success has handed over every line with a newline behind it if and only if these bytes
leave one byte of the I/O buffer free. -/
theorem save_whole_iff {s s' : State} (h : Readable s) (hdirty : s.dirty = true)
    (hs : saveFile s = some (true, s')) :
    (∃ w, s'.written = s.written ++ [w] ∧ w.filename = s.filename ∧ w.bytes = unlines s.text) ↔
      (unlines s.text).length ≤ ioBufferSize - 1 :=
  (handed_iff h hdirty hs).trans (gather_eq_iff _)

/-- A modified text of `n` lines, each of `k` times the letter `a`. -/
def sameLines (n k : Nat) : State :=
  { State.unused with lines := fun _ _ => 97, lineLengths := fun _ => k, totalLines := n, dirty := true }

theorem readable_sameLines {n k : Nat} (hn : n ≤ maxLines) (hk : k ≤ maxLineLength - 1) :
    Readable (sameLines n k) := by
  constructor
  · show (n : Int) ≤ maxLines
    omega
  · intro i _
    show (0 : Int) ≤ k ∧ (k : Int) ≤ maxLineLength - 1
    unfold maxLineLength at *
    omega

theorem length_sameLines (n k : Nat) : (unlines (sameLines n k).text).length = n * (k + 1) := by
  unfold unlines State.text
  simp [sameLines, List.length_flatMap]

theorem save_sameLines {n k : Nat} (hn : n ≤ maxLines) (hk : k ≤ maxLineLength - 1) :
    ∃ s', saveFile (sameLines n k) = some (true, s') := by
  obtain ⟨saved, s', hrun, -⟩ := saveFile_meets (readable_sameLines hn hk)
  rcases saveFile_ends saved s' hrun with ⟨hclean, -⟩ | ⟨-, bytes, ⟨-, rfl, -⟩ | ⟨hfail, -⟩⟩
  · cases hclean
  · exact ⟨s', hrun⟩
  · exact absurd rfl hfail

theorem save_whole_iff_two : ∃ s', saveFile (sameLines 2 3) = some (true, s') ∧
    ((∃ w, s'.written = [] ++ [w] ∧ w.filename = [] ∧ w.bytes = unlines (sameLines 2 3).text) ↔
      (unlines (sameLines 2 3).text).length ≤ ioBufferSize - 1) := by
  obtain ⟨s', hs⟩ := save_sameLines (n := 2) (k := 3) (by decide) (by decide)
  exact ⟨s', hs, save_whole_iff (readable_sameLines (by decide) (by decide)) rfl hs⟩

/-- 82 lines of 199 letters are 16400 bytes: the save reports success and has handed over less. -/
theorem save_not_whole :
    ¬ ∀ s s' : State, 1 ≤ s.totalLines ∧ s.totalLines ≤ maxLines →
      (∀ k : Nat, k < s.totalLines → 0 ≤ s.lineLengths k ∧ s.lineLengths k ≤ maxLineLength - 1) → s.dirty = true →
      saveFile s = some (true, s') → ∃ w, s'.written = s.written ++ [w] ∧ w.filename = s.filename ∧
      w.bytes = unlines s.text := by
  intro h
  have hread : Readable (sameLines 82 199) := readable_sameLines (by decide) (by decide)
  obtain ⟨s', hs⟩ := save_sameLines (n := 82) (k := 199) (by decide) (by decide)
  have hlen :=
    (gather_eq_iff _).1 ((handed_iff hread rfl hs).1 (h _ s' ⟨by decide, hread.total⟩ hread.length rfl hs))
  rw [length_sameLines] at hlen
  unfold ioBufferSize at hlen
  omega

end AltoniumOS.Nano

/-
Each edit of the editor is the edit of the text it holds, and touches nothing else; where it changes
the text it marks the buffer as modified.
-/
import AltoniumOS.Nano.Refine

namespace AltoniumOS.Nano

open AltoniumOS.Lib

/-- What an edit leaves alone. -/
structure SameRest (s s' : State) : Prop where
  editorActive : s'.editorActive = s.editorActive
  filename : s'.filename = s.filename
  viewportY : s'.viewportY = s.viewportY
  promptState : s'.promptState = s.promptState
  helpOverlayVisible : s'.helpOverlayVisible = s.helpOverlayVisible
  outcomes : s'.outcomes = s.outcomes
  written : s'.written = s.written

/-- What an edit does to a state: it holds the new text, and is marked unless nothing was done. -/
structure Edits (s : State) (t' : Text) (s' : State) : Prop where
  shows : Shows s' t'
  rest : SameRest s s'
  marked : s'.dirty = true ∨ s' = s

section

variable {s : State} {t : Text}

theorem SameRest.refl (s : State) : SameRest s s := ⟨rfl, rfl, rfl, rfl, rfl, rfl, rfl⟩

theorem Edits.refl (h : Shows s t) : Edits s t s := ⟨h, .refl s, .inr rfl⟩

theorem Text.y_lt_max (t : Text) : t.y < maxLines := lt_of_lt_of_le t.y_lt t.count

theorem Shows.row_cur (h : Shows s t) : RowIs (s.lines t.y) (s.lineLengths t.y) t.cur := h.row t.y t.y_lt

/-- The state with another line in place of the current one. -/
theorem Shows.setCur (h : Shows s t) (row : Buf) {l : List UInt8} (hr : RowIs row l.length l) {x : Nat}
    (hl : IsLine l) (hx : x ≤ l.length) {s' : State} (htotal : s'.totalLines = s.totalLines) (hcx : s'.cursorX = x)
    (hcy : s'.cursorY = s.cursorY) (hlines : s'.lines = Function.update s.lines t.y row)
    (hlens : s'.lineLengths = Function.update s.lineLengths t.y (l.length : Int)) :
    Shows s' (t.setCur l x hl hx) := by
  have hlen : (t.setCur l x hl hx).lines.length = t.lines.length := List.length_set
  refine ⟨by rw [htotal, h.total, hlen], hcx, hcy.trans h.y, fun k hk => ?_⟩
  rw [hlen] at hk
  rw [Text.line_setCur, hlines, hlens]
  split
  · rename_i hky
    subst hky
    rw [Function.update_self, Function.update_self]
    exact hr
  · rename_i hky
    rw [Function.update_of_ne hky, Function.update_of_ne hky]
    exact h.row k hk

theorem getD_typed {l : List UInt8} {x : Nat} (hx : x ≤ l.length) (c : UInt8) {j : Nat}
    (hj : j < maxLineLength - 1) :
    (Text.typed l x c).getD j 0 = if j < x then l.getD j 0 else if j = x then c else l.getD (j - 1) 0 := by
  unfold Text.typed
  simp only [List.getD_eq_getElem?_getD, List.getElem?_take, List.getElem?_insertIdx]
  grind

theorem getD_erase (l : List UInt8) (i j : Nat) :
    (l.eraseIdx i).getD j 0 = if j < i then l.getD j 0 else l.getD (j + 1) 0 := by
  simp only [List.getD_eq_getElem?_getD, List.getElem?_eraseIdx]
  grind

/-- Typing a character into the line with the cursor, whatever bytes are in it. -/
theorem insertChar_row {x y : Nat} {l : List UInt8} (hcy : s.cursorY = y) (hy : y < maxLines) (hcx : s.cursorX = x)
    (hx : x ≤ l.length) (hmax : l.length < maxLineLength) (hrow : RowIs (s.lines y) (s.lineLengths y) l)
    (c : UInt8) : Meets (insertChar c) s fun _ s' =>
      (¬ x < maxLineLength - 1 → s' = { s with dirty := true }) ∧
      (x < maxLineLength - 1 → ∃ row, RowIs row (Text.typed l x c).length (Text.typed l x c) ∧
        s' = { (s.setRow y row).setLen y (Text.typed l x c).length with
          cursorX := s.cursorX + 1, dirty := true }) := by
  have hlen := hrow.length
  unfold insertChar
  refine .step get_run ?_
  rw [if_neg (by omega)]
  refine .step (getLength_run hcy hy) ?_
  dsimp only
  by_cases hlt : x < maxLineLength - 1
  swap
  · -- no room: nothing but the mark
    have hge : ¬ s.cursorX < (maxLineLength : Int) - 1 := by unfold maxLineLength at hlt ⊢; omega
    rw [if_neg fun h => hge h.2, if_neg fun h => hge h.2]
    exact .of_run (modify_run _) ⟨fun _ => rfl, fun h => absurd h hlt⟩
  have hcxlt : s.cursorX < (maxLineLength : Int) - 1 := by unfold maxLineLength at hlt ⊢; omega
  have hlen' := Text.length_typed hx c
  have hfits : (Text.typed l x c).length < maxLineLength := by
    unfold maxLineLength at hlen' ⊢
    omega
  suffices hfin : Meets _ s fun _ s' => ∃ row, RowIs row (Text.typed l x c).length (Text.typed l x c) ∧
      s' = { (s.setRow y row).setLen y (Text.typed l x c).length with cursorX := s.cursorX + 1, dirty := true } from
    hfin.mono fun _ s' h => ⟨fun hno => absurd hlt hno, fun _ => h⟩
  by_cases hend : x = l.length
  · -- at the end of the line
    rw [if_pos ⟨by omega, hcxlt⟩]
    refine .step (setChar_run hcy hy hcx (by omega) c) ?_
    refine .step (setChar_run hcy hy (m := x + 1) (by omega) (by unfold maxLineLength at hlt ⊢; omega) 0) ?_
    refine .step (setLength_run hcy hy _) ?_
    refine .step (modify_run _) (.of_run (modify_run _) ?_)
    refine ⟨Function.update (Function.update (s.lines y) x c) (x + 1) 0, ⟨rfl, fun j hj => ?_⟩, ?_⟩
    · have h1 := hrow.byte j
      have h2 := getD_length (Text.typed l x c) (j := j)
      have h3 := getD_typed hx c (j := j)
      simp only [Function.update_apply]
      grind
    · have hv : s.lineLengths y + 1 = ((Text.typed l x c).length : Int) := by
        rw [hlen']
        omega
      rw [hv, setRow_setRow, setRow_lines_self]
      rfl
  · -- in the middle
    rw [if_neg fun hc => hend (by omega), if_pos ⟨by omega, hcxlt⟩]
    refine (shiftRight_meets hy hx hlen hcx hcy).bind ?_
    rintro - s₁ rfl
    refine .step (setChar_run hcy hy hcx (by omega) c) ?_
    rw [setRow_setRow, setRow_lines_self]
    set row : Buf :=
      Function.update (fun j => if x < j ∧ j ≤ l.length ∧ j < maxLineLength - 1 then s.lines y (j - 1)
        else s.lines y j) x c with hrow'
    -- the end of the line is set wherever it now is
    have hset : Meets (do
        setChar s.cursorY (← getLength s.cursorY) 0
        modify fun s => { s with cursorX := s.cursorX + 1 }
        modify fun s => { s with dirty := true }) ((s.setRow y row).setLen y (Text.typed l x c).length)
        fun _ s' => ∃ row, RowIs row (Text.typed l x c).length (Text.typed l x c) ∧
          s' = { (s.setRow y row).setLen y (Text.typed l x c).length with
            cursorX := s.cursorX + 1, dirty := true } := by
      refine .step (getLength_run hcy hy) ?_
      refine .step (setChar_run hcy hy (m := (Text.typed l x c).length) (by simp) hfits 0) ?_
      refine .step (modify_run _) (.of_run (modify_run _) ?_)
      refine ⟨Function.update row (Text.typed l x c).length 0, ⟨rfl, fun j hj => ?_⟩, ?_⟩
      · have h1 := hrow.byte j
        have h2 := hrow.byte (j - 1)
        have h3 := getD_length (Text.typed l x c) (j := j)
        have h4 := getD_typed hx c (j := j)
        simp only [hrow', Function.update_apply]
        grind
      · simp [State.setRow, State.setLen]
    split
    · rename_i hroom
      refine .step (setLength_run hcy hy _) ?_
      have hv : s.lineLengths y + 1 = ((Text.typed l x c).length : Int) := by
        rw [hlen']
        unfold maxLineLength at hroom ⊢
        omega
      rw [hv]
      exact hset
    · rename_i hroom
      have hv : s.lineLengths y = ((Text.typed l x c).length : Int) := by
        rw [hlen']
        unfold maxLineLength at hroom hmax ⊢
        omega
      have hsame : s.setRow y row = (s.setRow y row).setLen y (Text.typed l x c).length := by
        rw [← hv]
        simp [State.setLen, State.setRow]
      rw [hsame]
      exact hset

/-- Typing a character. -/
theorem insertChar_meets (h : Shows s t) {c : UInt8} (hc : c ≠ 0) :
    Meets (insertChar c) s fun _ s' => Edits s (t.insert c hc) s' := by
  have hcx := h.x
  refine (insertChar_row h.y t.y_lt_max hcx t.x_le_cur (Text.isLine_cur (t := t)).length h.row_cur c).mono ?_
  rintro - s' ⟨hfull, hroom⟩
  unfold Text.insert
  split
  · rename_i hlt
    obtain ⟨row, hrow, rfl⟩ := hroom hlt
    refine ⟨h.setCur row hrow (Text.isLine_typed Text.isLine_cur hc) _ rfl ?_ rfl rfl rfl,
      ⟨rfl, rfl, rfl, rfl, rfl, rfl, rfl⟩, .inl rfl⟩
    show s.cursorX + 1 = _
    omega
  · rename_i hlt
    obtain rfl := hfull hlt
    exact ⟨⟨h.total, h.x, h.y, h.row⟩, ⟨rfl, rfl, rfl, rfl, rfl, rfl, rfl⟩, .inl rfl⟩

/-- Erasing a character of the current line: the row after the shift, ended where the line now ends. -/
theorem Shows.erase (h : Shows s t) {a b : Nat} (ha : a < t.cur.length) (hb : t.cur.length - 1 ≤ b)
    (hb' : b ≤ t.cur.length) {s' : State} (htotal : s'.totalLines = s.totalLines) (hcx : s'.cursorX = a)
    (hcy : s'.cursorY = s.cursorY)
    (hlines : s'.lines =
      Function.update s.lines t.y
        (Function.update (fun j => if a ≤ j ∧ j < b then s.lines t.y (j + 1) else s.lines t.y j)
          (t.cur.length - 1) 0))
    (hlens : s'.lineLengths = Function.update s.lineLengths t.y (s.lineLengths t.y - 1)) :
    Shows s' (t.erase a ha) := by
  have hrow := h.row_cur
  have hlen : (t.cur.eraseIdx a).length = t.cur.length - 1 := List.length_eraseIdx_of_lt ha
  refine h.setCur _ ⟨rfl, fun j hj => ?_⟩ _ _ htotal hcx hcy hlines ?_
  · have h1 := hrow.byte j
    have h2 := hrow.byte (j + 1)
    have h3 := getD_length t.cur (j := t.cur.length)
    rw [getD_erase]
    simp only [Function.update_apply]
    grind
  · rw [hlens, hrow.length, hlen]
    congr 1
    omega

theorem handleBackspace_meets (h : Shows s t) : Meets handleBackspace s fun _ s' => Edits s t.backspace s' := by
  have hy := t.y_lt_max
  have hrow := h.row_cur
  have hx := t.x_le_cur
  have hmax := (Text.isLine_cur (t := t)).length
  have hcx := h.x
  have hcy := h.y
  have hlen := hrow.length
  unfold handleBackspace Text.backspace
  refine .step get_run ?_
  rw [if_neg (by omega)]
  dsimp only
  -- inside a line one letter goes, at its start the line joins the one above
  by_cases hpos : 0 < t.x
  · rw [if_pos (by omega), dif_pos hpos]
    refine .step (getLength_run hcy hy) ?_
    refine (shiftLeft_meets (a := t.x - 1) (b := t.cur.length) hy (by omega) hmax (by omega) hlen hcy).bind ?_
    rintro - s₁ rfl
    rw [if_pos (by omega)]
    refine .step (setLength_run hcy hy _) ?_
    refine .step (getLength_run hcy hy) ?_
    refine .step (setChar_run hcy hy (m := t.cur.length - 1) (by simp; omega) (by omega) 0) ?_
    refine .step (modify_run _) (.of_run (modify_run _) ?_)
    refine ⟨h.erase (b := t.cur.length) (by omega) (by omega) (Nat.le_refl _) rfl ?_ rfl ?_ rfl,
      ⟨rfl, rfl, rfl, rfl, rfl, rfl, rfl⟩, .inl rfl⟩
    · show s.cursorX - 1 = _
      omega
    · simp [State.setRow, State.setLen]
  · rw [if_neg (by omega), dif_neg hpos]
    by_cases hfirst : 0 < t.y
    · rw [if_pos (by omega)]
      have hprev := h.row (t.y - 1) (by have := t.y_lt; omega)
      have hcur : t.line (t.y - 1 + 1) = t.cur := by rw [Nat.sub_add_cancel hfirst]; rfl
      refine .step (getLength_run (k := t.y - 1) (by omega) (by omega)) ?_
      refine .step (getLength_run hcy hy) ?_
      by_cases hfit : (t.line (t.y - 1)).length + (t.line (t.y - 1 + 1)).length < maxLineLength
      · rw [dif_pos ⟨hfirst, hfit⟩]
        rw [hcur] at hfit
        rw [if_pos (by rw [hprev.length, hlen]; omega)]
        rw [← hcur] at hfit
        refine (joinLines_meets h.total h.row (k := t.y - 1) (by have := t.y_lt; omega) hfit (by omega) hprev.length
          (by rw [hcur]; exact hlen)).bind ?_
        rintro - s₁ ⟨lines, lens, rfl, hrows⟩
        refine .step (modify_run _) (.of_run (modify_run _) ?_)
        refine ⟨⟨?_, hprev.length, ?_, fun m hm => ?_⟩, ⟨rfl, rfl, rfl, rfl, rfl, rfl, rfl⟩, .inl rfl⟩
        · show s.totalLines - 1 = _
          have := t.y_lt
          rw [Text.length_join, h.total]
          omega
        · show s.cursorY - 1 = ((t.y - 1 : Nat) : Int)
          omega
        · rw [Text.length_join] at hm
          exact hrows m hm
      · rw [dif_neg fun hc => hfit hc.2, if_neg (by rw [hcur] at hfit; rw [hprev.length, hlen]; omega)]
        exact .of_run (modify_run _) ⟨⟨h.total, h.x, h.y, h.row⟩, ⟨rfl, rfl, rfl, rfl, rfl, rfl, rfl⟩, .inl rfl⟩
    · rw [if_neg (by omega), dif_neg fun hc => hfirst hc.1]
      exact .of_run (modify_run _) ⟨⟨h.total, h.x, h.y, h.row⟩, ⟨rfl, rfl, rfl, rfl, rfl, rfl, rfl⟩, .inl rfl⟩

theorem handleDelete_meets (h : Shows s t) : Meets handleDelete s fun _ s' => Edits s t.delete s' := by
  have hy := t.y_lt_max
  have hylt := t.y_lt
  have hrow := h.row_cur
  have hx := t.x_le_cur
  have hmax := (Text.isLine_cur (t := t)).length
  have hcx := h.x
  have hcy := h.y
  have htotal := h.total
  have hlen := hrow.length
  unfold handleDelete Text.delete
  refine .step get_run ?_
  rw [if_neg (by omega)]
  refine .step (getLength_run hcy hy) ?_
  by_cases hin : t.x < t.cur.length
  · rw [if_pos (by omega), dif_pos hin]
    refine (shiftLeft_meets (a := t.x) (b := t.cur.length - 1) hy (by omega) (by omega) hcx (by omega) hcy).bind ?_
    rintro - s₁ rfl
    refine .step (setLength_run hcy hy _) ?_
    refine .step (setChar_run hcy hy (m := t.cur.length - 1) (by omega) (by omega) 0) ?_
    refine .of_run (modify_run _) ?_
    refine ⟨h.erase (b := t.cur.length - 1) hin (Nat.le_refl _) (by omega) rfl hcx rfl ?_ rfl,
      ⟨rfl, rfl, rfl, rfl, rfl, rfl, rfl⟩, .inl rfl⟩
    simp [State.setRow, State.setLen]
  · rw [if_neg (by omega), dif_neg hin]
    by_cases hlast : t.y + 1 < t.lines.length
    · rw [if_pos (by omega)]
      have hnext := h.row (t.y + 1) hlast
      have hnlen := hnext.length
      refine .step (getLength_run (k := t.y + 1) (by omega) (by have := t.count; omega)) ?_
      by_cases hfit : (t.line t.y).length + (t.line (t.y + 1)).length < maxLineLength
      · rw [dif_pos ⟨hlast, hfit⟩]
        rw [if_pos (by rw [hlen, hnlen]; show ((t.line t.y).length : Int) + _ < _; omega)]
        refine (joinLines_meets h.total h.row hlast hfit hcy hlen hnlen).bind ?_
        rintro - s₁ ⟨lines, lens, rfl, hrows⟩
        refine .of_run (modify_run _) ?_
        refine ⟨⟨?_, ?_, hcy, fun m hm => ?_⟩, ⟨rfl, rfl, rfl, rfl, rfl, rfl, rfl⟩, .inl rfl⟩
        · show s.totalLines - 1 = _
          rw [Text.length_join, h.total]
          omega
        · show s.cursorX = (t.cur.length : Int)
          omega
        · rw [Text.length_join] at hm
          exact hrows m hm
      · rw [dif_neg fun hc => hfit hc.2]
        rw [if_neg (by rw [hlen, hnlen]; show ¬ ((t.line t.y).length : Int) + _ < _; omega)]
        exact .pure (.refl h)
    · rw [if_neg (by omega), dif_neg fun hc => hlast hc.1]
      exact .pure (.refl h)

theorem handleEnter_meets (h : Shows s t) : Meets handleEnter s fun _ s' => Edits s t.enter s' := by
  have hylt := t.y_lt
  have hx := t.x_le_cur
  have hmax := (Text.isLine_cur (t := t)).length
  have hcx := h.x
  have hcy := h.y
  have htotal := h.total
  have hlen := h.row_cur.length
  unfold handleEnter Text.enter
  refine .step get_run ?_
  by_cases hfull : t.lines.length < maxLines
  swap
  · rw [if_pos (by omega), dif_neg hfull]
    exact .pure (.refl h)
  rw [if_neg (by omega), dif_pos hfull]
  refine .step (getLength_run hcy (by omega)) ?_
  refine (moveDown_meets movable_line (y := t.y) hfull hylt (fun k hk => ⟨Text.isLine_line hk, h.row k hk⟩) htotal
    (by omega)).bind ?_
  rintro - s₁ ⟨lines, lens, rfl, hrows⟩
  refine (breakOff_meets (x := t.x) (n := t.cur.length) (y := t.y) (z := t.y + 1) (by omega) (by omega)
    (by omega) hx hmax hcx hlen hcy (by omega)).bind ?_
  rintro - s₂ rfl
  dsimp only
  have hnew : max 0 (s.lineLengths t.y - s.cursorX) = ((t.cur.length - t.x : Nat) : Int) := by omega
  rw [hnew]
  refine .step (setChar_run (k := t.y + 1) (by omega) (by omega) rfl (by omega) 0) ?_
  refine .step (setLength_run (k := t.y + 1) (by omega) (by omega) _) ?_
  refine .step (setChar_run hcy (by omega) hcx (by omega) 0) ?_
  refine .step (setLength_run hcy (by omega) _) (.of_run (modify_run _) ?_)
  refine ⟨⟨?_, rfl, ?_, fun m hm => ?_⟩, ⟨rfl, rfl, rfl, rfl, rfl, rfl, rfl⟩, .inl rfl⟩
  · show s.totalLines + 1 = _
    rw [Text.length_split, htotal]
    rfl
  · show s.cursorY + 1 = ((t.y + 1 : Nat) : Int)
    omega
  · rw [Text.length_split] at hm
    rw [Text.line_split]
    have hcurrow := (hrows t.y (by omega) (by omega)).2
    rw [if_neg (by omega)] at hcurrow
    have hne : t.y ≠ t.y + 1 := by omega
    by_cases h1 : m = t.y
    · -- the line kept
      subst h1
      rw [if_pos rfl]
      have hl : (t.cur.take t.x).length = t.x := List.length_take_of_le hx
      constructor
      · simp only [setLen_lineLengths, Function.update_self, hcx, hl]
      · intro j hj
        rw [hl] at hj
        have hb := hcurrow.byte j (by show j ≤ t.cur.length; omega)
        simp only [setLen_lines, setRow_lines_self, setRow_lines_ne hne, Function.update_apply,
          List.getD_eq_getElem?_getD, List.getElem?_take] at hb ⊢
        grind [Text.cur]
    · rw [if_neg h1]
      by_cases h2 : m = t.y + 1
      · -- the line broken off
        subst h2
        rw [if_pos rfl]
        have hl : (t.cur.drop t.x).length = t.cur.length - t.x := List.length_drop
        constructor
        · simp only [setLen_lineLengths, setRow_lineLengths, Function.update_self,
            Function.update_of_ne hne.symm, hl]
        · intro j hj
          rw [hl] at hj
          have hb := hcurrow.byte (t.x + j) (by show t.x + j ≤ t.cur.length; omega)
          have hend := getD_length t.cur (j := t.x + j)
          simp only [setLen_lines, setRow_lines_self, setRow_lines_ne hne.symm, Function.update_apply,
            List.getD_eq_getElem?_getD, List.getElem?_drop] at hb hend ⊢
          grind [Text.cur]
      · rw [if_neg h2]
        have hrow := (hrows m (by omega) h2).2
        simp only [setLen_lines, setLen_lineLengths, setRow_lineLengths, setRow_lines_ne h1, setRow_lines_ne h2,
          Function.update_of_ne h1, Function.update_of_ne h2]
        by_cases h3 : m < t.y
        · rw [if_pos h3]
          rwa [if_neg (by omega)] at hrow
        · rw [if_neg h3]
          rwa [if_pos (by omega)] at hrow

end

end AltoniumOS.Nano

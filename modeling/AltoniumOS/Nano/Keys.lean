/-
Every key event keeps what the edits keep, and accesses nothing out of bounds.

The handling of an event is followed once, for any invariant of the edits (`Kept`); the invariant with
terminated lines without NUL is then kept because each edit is the edit of a text.
-/
import AltoniumOS.Nano.Edits
import AltoniumOS.Nano.Steps

namespace AltoniumOS.Nano

open AltoniumOS.Lib
open AltoniumOS.Fat12 (Code)

/-- The lengths are within their bounds. -/
structure Readable (s : State) : Prop where
  total : s.totalLines ≤ maxLines
  length : ∀ k : Nat, k < s.totalLines → 0 ≤ s.lineLengths k ∧ s.lineLengths k ≤ maxLineLength - 1

/-- The cursor and the lengths are within their bounds. -/
structure Bounds (s : State) : Prop where
  total : 1 ≤ s.totalLines ∧ s.totalLines ≤ maxLines
  cursorY : 0 ≤ s.cursorY ∧ s.cursorY < s.totalLines
  cursorX : 0 ≤ s.cursorX ∧ s.cursorX ≤ s.lineLengths s.cursorY.toNat
  length : ∀ k : Nat, k < s.totalLines → 0 ≤ s.lineLengths k ∧ s.lineLengths k ≤ maxLineLength - 1

/-- The invariant of the editor: within the bounds, each line ends where its length says and not before. -/
structure Inv (s : State) : Prop extends Bounds s where
  terminator : ∀ k : Nat, k < s.totalLines → s.lines k (s.lineLengths k).toNat = 0
  noNul : ∀ k : Nat, k < s.totalLines → ∀ j : Nat, j < s.lineLengths k → s.lines k j ≠ 0

/-- The states agree on the text and the cursor. -/
structure SameText (s s' : State) : Prop where
  lines : s'.lines = s.lines
  lineLengths : s'.lineLengths = s.lineLengths
  totalLines : s'.totalLines = s.totalLines
  cursorX : s'.cursorX = s.cursorX
  cursorY : s'.cursorY = s.cursorY

/-- What of an invariant the handling of an event rests on. -/
structure Stable (I : State → Prop) : Prop where
  bounds {s : State} : I s → Bounds s
  sameText {s s' : State} : I s → SameText s s' → I s'
  moved {s : State} (x y v : Int) : I s → 0 ≤ y ∧ y < s.totalLines → 0 ≤ x ∧ x ≤ s.lineLengths y.toNat →
    I { s with cursorX := x, cursorY := y, viewportY := v }
  insertChar {s : State} {c : UInt8} : I s → c ≠ 0 → Meets (insertChar c) s fun _ => I
  backspace {s : State} : I s → Meets handleBackspace s fun _ => I
  enter {s : State} : I s → Meets handleEnter s fun _ => I
  delete {s : State} : I s → Meets handleDelete s fun _ => I

section

variable {s s' : State}

/-- Only the cursor and the window are elsewhere, and the cursor in the text. -/
def Placed (s s' : State) : Prop :=
  ∃ x y v, s' = { s with cursorX := x, cursorY := y, viewportY := v } ∧ (0 ≤ y ∧ y < s.totalLines) ∧ 0 ≤ x ∧
    x ≤ s.lineLengths y.toNat

theorem SameText.refl (s : State) : SameText s s := ⟨rfl, rfl, rfl, rfl, rfl⟩

theorem Bounds.readable (h : Bounds s) : Readable s := ⟨h.total.2, h.length⟩

/-! ## Reading within the bounds -/

theorem Readable.getLength (h : Readable s) {i : Int} (h0 : 0 ≤ i) (hlt : i < s.totalLines) :
    getLength i s = some (s.lineLengths i.toNat, s) := by
  have := h.total
  exact getLength_run (by omega) (by omega)

theorem renderRow_meets (h : Readable s) (row : Nat) :
    Meets (renderRow row) s fun _ s' => ∃ screen, s' = { s with screen := screen } := by
  have htotal := h.total
  unfold renderRow
  refine .step get_run ?_
  dsimp only
  split
  · rename_i hin
    have hlen := h.length (s.viewportY + row).toNat (by omega)
    refine .step (h.getLength hin.1 hin.2) ?_
    have hcols : min (s.lineLengths (s.viewportY + row).toNat) vgaWidth =
        ((min (s.lineLengths (s.viewportY + row).toNat) vgaWidth).toNat : Nat) := by omega
    refine Meets.forUp (fun _ s' => ∃ screen, s' = { s with screen := screen }) (j := 0) rfl hcols (Nat.zero_le _)
      ⟨s.screen, rfl⟩ ?_
    rintro col _ - hcol ⟨screen, rfl⟩
    have hrow : s.viewportY + row = (s.viewportY + row).toNat := by omega
    refine .step (getChar_run hrow (by omega) (m := col) rfl (by omega)) ?_
    exact .of_run (modify_run _) ⟨_, rfl⟩
  · exact .pure ⟨_, rfl⟩

theorem Shown.sameText (h : Shown s s') : SameText s s' := by
  obtain ⟨screen, cursor, msg, theme, prompt, help, rfl⟩ := h
  exact ⟨rfl, rfl, rfl, rfl, rfl⟩

theorem renderEditor_meets (h : Readable s) : Meets renderEditor s fun _ s' => Shown s s' := by
  refine (Meets.and_ends (Q := fun _ _ => True) ?_ renderEditor_ends).mono fun _ _ h => h.2
  unfold renderEditor
  refine .step (modify_run _) (Meets.bind (Q := fun _ s' => ∃ screen, s' = { s with screen := screen }) ?_ ?_)
  · refine Meets.forUp (fun _ s' => ∃ screen, s' = { s with screen := screen }) (j := 0) rfl rfl (Nat.zero_le _)
      ⟨fun _ _ => space, rfl⟩ ?_
    rintro row _ - - ⟨screen, rfl⟩
    refine (renderRow_meets (s := { s with screen := screen }) ⟨h.total, h.length⟩ row).mono ?_
    rintro - _ ⟨screen', rfl⟩
    exact ⟨screen', rfl⟩
  · rintro - _ ⟨screen, rfl⟩
    exact .of_run (modify_run _) trivial

section

variable (h : Bounds s)

include h

theorem Bounds.getLength {i : Int} (h0 : 0 ≤ i) (hlt : i < s.totalLines) :
    getLength i s = some (s.lineLengths i.toNat, s) :=
  h.readable.getLength h0 hlt

theorem moveCursor_meets (dx dy : Int) : Meets (moveCursor dx dy) s fun _ s' => Placed s s' := by
  have htotal := h.total
  have hcy := h.cursorY
  unfold moveCursor
  refine .step get_run ?_
  dsimp only
  set y₀ : Int := if s.cursorY + dy < 0 then 0 else s.cursorY + dy with hy₀
  set y : Int := if y₀ ≥ s.totalLines then s.totalLines - 1 else y₀ with hy
  have hyb : 0 ≤ y ∧ y < s.totalLines := by
    rw [hy, hy₀]
    split_ifs <;> omega
  have hlen := h.length y.toNat (by omega)
  refine .step (h.getLength hyb.1 hyb.2) (.step (modify_run _) (.of_run (modify_run _) ⟨_, y, _, rfl, hyb, ?_⟩))
  dsimp only
  split_ifs <;> omega

theorem moveToLineStart_meets : Meets moveToLineStart s fun _ s' => Placed s s' := by
  have hlen := h.length s.cursorY.toNat (by have := h.cursorY; omega)
  exact .of_run (modify_run _) ⟨0, s.cursorY, s.viewportY, rfl, h.cursorY, le_refl _, hlen.1⟩

theorem moveToLineEnd_meets : Meets moveToLineEnd s fun _ s' => Placed s s' := by
  have hlen := h.length s.cursorY.toNat (by have := h.cursorY; omega)
  unfold moveToLineEnd
  refine .step get_run ?_
  rw [if_pos h.cursorY.2]
  exact .step (h.getLength h.cursorY.1 h.cursorY.2)
    (.of_run (modify_run _) ⟨_, s.cursorY, s.viewportY, rfl, h.cursorY, hlen.1, le_refl _⟩)

theorem pageScroll_meets (direction : Int) : Meets (pageScroll direction) s fun _ s' => Placed s s' := by
  have htotal := h.total
  have hcy := h.cursorY
  have hcx := h.cursorX
  unfold pageScroll
  refine .step get_run ?_
  dsimp only
  generalize hy : (if direction < 0 then _ else _ : Int) = y
  have hyb : 0 ≤ y ∧ y < s.totalLines := by
    rw [← hy]
    unfold viewportHeight
    split_ifs <;> omega
  have hlen := h.length y.toNat (by omega)
  refine .step (modify_run _)
    (.step (getLength_run (k := y.toNat) (by omega) (by omega)) (.step (modify_run _) (.of_run (modify_run _) ?_)))
  dsimp only
  split
  · exact ⟨_, y, _, rfl, hyb, hlen.1, le_refl _⟩
  · rename_i hle
    exact ⟨_, y, _, rfl, hyb, hcx.1, not_lt.1 hle⟩

end

end

/-! ## Saving -/

/-- The lines, each ended by a newline, behind `out`, as far as the I/O buffer takes them. -/
def gather : List (List UInt8) → List UInt8 → List UInt8
  | [], out => out
  | l :: ls, out =>
    if out.length < ioBufferSize - 1 then
      let out := out ++ l.take (ioBufferSize - 2 - out.length)
      gather ls (if out.length < ioBufferSize - 1 then out ++ [newline] else out)
    else out

theorem collectLine_run (s : State) {i : Nat} (hi : i < maxLines) :
    ∀ {n j : Nat} (out : List UInt8), j + n < maxLineLength →
      collectLine i n j out s =
        some (out ++ ((List.range' j n).map (s.lines i)).take (ioBufferSize - 2 - out.length), s)
  | 0, j, out, _ => by
    show some (out, s) = _
    rw [List.range'_zero, List.map_nil, List.take_nil, List.append_nil]
  | n + 1, j, out, hj => by
    rw [collectLine]
    split
    · rename_i hroom
      rw [bind_run_some (getChar_run (k := i) (m := j) rfl hi rfl (by omega))]
      have hrest := collectLine_run s hi (n := n) (j := j + 1) (out ++ [s.lines i j]) (by omega)
      rw [Nat.cast_succ] at hrest
      rw [hrest, List.range'_succ, List.map_cons, List.length_append, List.length_singleton,
        show ioBufferSize - 2 - out.length = ioBufferSize - 2 - (out.length + 1) + 1 by
          omega, List.take_succ_cons, List.append_assoc]
      rfl
    · rename_i hfull
      rw [show ioBufferSize - 2 - out.length = 0 by omega, List.take_zero, List.append_nil]
      rfl

/-- The bytes of line `k`. -/
def State.line (s : State) (k : Nat) : List UInt8 := (List.range (s.lineLengths k).toNat).map (s.lines k)

theorem collect_run {s : State} (h : Readable s) :
    ∀ {n i : Nat} (out : List UInt8), i + n ≤ s.totalLines.toNat →
      collect n i out s = some (gather ((List.range' i n).map s.line) out, s)
  | 0, i, out, _ => rfl
  | n + 1, i, out, hi => by
    have htotal := h.total
    have hlen := h.length i (by omega)
    rw [collect, List.range'_succ, List.map_cons, gather]
    split
    · have hline : collectLine i (s.lineLengths i).toNat 0 out s =
          some (out ++ (s.line i).take (ioBufferSize - 2 - out.length), s) := by
        have hrun := collectLine_run s (i := i) (n := (s.lineLengths i).toNat) (j := 0) (by omega) out (by omega)
        rw [Nat.cast_zero, ← List.range_eq_range'] at hrun
        exact hrun
      rw [bind_run_some (h.getLength (i := i) (by omega) (by omega)), Int.toNat_natCast, bind_run_some hline]
      have hrest := collect_run h (n := n) (i := i + 1)
      rw [Nat.cast_succ] at hrest
      exact hrest _ (by omega)
    · rfl

/-- A save of a modified text writes the lines gathered. -/
theorem saveFile_meets {s : State} (h : Readable s) : Meets saveFile s fun _ s' => SameText s s' ∧
    (s.dirty = true → s'.written = s.written ++ [⟨s.filename, gather s.text [], s.text, s.outcomes 0⟩]) := by
  have htotal := h.total
  unfold saveFile
  refine .step get_run ?_
  split
  · rename_i hclean
    refine .pure ⟨.refl s, fun hdirty => ?_⟩
    simp [hdirty] at hclean
  · have hrun := collect_run h (n := s.totalLines.toNat) (i := 0) [] (by omega)
    rw [Nat.cast_zero, ← List.range_eq_range'] at hrun
    refine .step hrun (.step (writeFile_run (gather s.text [])) ?_)
    split
    · exact .step (modify_run _) (.pure ⟨⟨rfl, rfl, rfl, rfl, rfl⟩, fun _ => rfl⟩)
    · exact .pure ⟨⟨rfl, rfl, rfl, rfl, rfl⟩, fun _ => rfl⟩

/-! ## One event -/

section

variable {I : State → Prop} {s s' : State} (hI : Stable I)

include hI

theorem Stable.placed (h : I s) (hs : Placed s s') : I s' := by
  obtain ⟨x, y, v, rfl, hy, hx⟩ := hs
  exact hI.moved x y v h hy hx

theorem Stable.render (h : I s) : Meets renderEditor s fun _ => I :=
  (renderEditor_meets (hI.bounds h).readable).mono fun _ _ hs => hI.sameText h hs.sameText

/-- Something else changed, then `m`. -/
theorem Stable.after {m : M Unit} {g : State → State} (h : I s) (hg : SameText s (g s))
    (hm : I (g s) → Meets m (g s) fun _ => I) : Meets (do modify g; m) s fun _ => I :=
  .step (modify_run g) (hm (hI.sameText h hg))

/-- An edit or a move, then the screen drawn. -/
theorem Stable.shown {m : M Unit} (h : Meets m s fun _ => I) : Meets (do m; renderEditor) s fun _ => I :=
  h.bind fun _ _ => hI.render

theorem Stable.message (h : I s) (msg : String) : Meets (do setStatusMessage msg; renderEditor) s fun _ => I :=
  hI.after h ⟨rfl, rfl, rfl, rfl, rfl⟩ hI.render

theorem Stable.save (h : I s) : Meets saveFile s fun _ => I :=
  (saveFile_meets (hI.bounds h).readable).mono fun _ _ hs => hI.sameText h hs.1

theorem Stable.leave (h : I s) : Meets leave s fun _ => I :=
  .of_run (modify_run _) (hI.sameText h ⟨rfl, rfl, rfl, rfl, rfl⟩)

theorem Stable.exit (h : I s) (action : ExitAction) : Meets (exitEditor action) s fun _ => I := by
  unfold exitEditor
  refine .step get_run ?_
  split
  · refine (hI.save h).bind fun saved s' h' => ?_
    split
    · exact hI.leave h'
    · exact hI.message h' _
  · split
    · exact hI.after h ⟨rfl, rfl, rfl, rfl, rfl⟩ hI.leave
    · exact hI.leave h

theorem Stable.prompt (h : I s) (k : UInt16) : Meets (handlePrompt k) s fun _ => I := by
  unfold handlePrompt
  split
  · exact hI.after h ⟨rfl, rfl, rfl, rfl, rfl⟩ fun h' => hI.exit h' _
  dsimp only
  split
  · refine hI.after h ⟨rfl, rfl, rfl, rfl, rfl⟩ fun h' => (hI.save h').bind fun saved s' h' => ?_
    split
    · exact hI.exit h' _
    · exact hI.message h' _
  · split
    · exact hI.after h ⟨rfl, rfl, rfl, rfl, rfl⟩ fun h' => hI.exit h' _
    · exact .pure h

theorem Stable.typing (h : I s) (k : UInt16) : Meets (handleTyping k) s fun _ => I := by
  unfold handleTyping
  dsimp only
  split
  · rename_i hc
    apply hI.shown
    apply hI.insertChar h
    intro h0
    rw [h0] at hc
    exact absurd hc.1 (by decide)
  · split
    · apply hI.shown
      exact Meets.forUp (fun _ => I) (j := 0) (k := 4) rfl rfl (Nat.zero_le _) h fun _ _ _ _ h' =>
        hI.insertChar h' (by decide)
    · exact .pure h

theorem Stable.key (h : I s) (k : UInt16) : Meets (handleKey k) s fun _ => I := by
  have hb := hI.bounds h
  have hmove : ∀ {m : M Unit}, (Meets m s fun _ s' => Placed s s') → Meets (do m; renderEditor) s fun _ => I :=
    fun hm => hI.shown (hm.mono fun _ _ => hI.placed h)
  unfold handleKey
  split
  · exact hI.exit h _
  · exact hI.shown (hI.backspace h)
  · exact hI.shown (hI.enter h)
  iterate 2 exact hI.shown (hI.delete h)
  iterate 8 exact hmove (moveCursor_meets hb _ _)
  iterate 2 exact hmove (moveToLineStart_meets hb)
  iterate 2 exact hmove (moveToLineEnd_meets hb)
  iterate 4 exact hmove (pageScroll_meets hb _)
  exact hI.typing h _

theorem Stable.ctrlSave (h : I s) : Meets handleCtrlSave s fun _ => I := by
  refine (hI.save h).bind fun saved s' h' => ?_
  split
  · exact hI.message h' _
  · exact hI.message h' _

theorem Stable.ctrlExit (h : I s) : Meets handleCtrlExit s fun _ => I := by
  unfold handleCtrlExit
  refine .step get_run ?_
  split
  · exact hI.after h ⟨rfl, rfl, rfl, rfl, rfl⟩ fun h' => hI.message h' _
  · exact hI.exit h _

theorem Stable.scancode (h : I s) (e : Event) : Meets (handleScancode e) s fun _ => I := by
  unfold handleScancode
  refine .step get_run ?_
  split
  · split
    · refine hI.after h ⟨rfl, rfl, rfl, rfl, rfl⟩ fun h' => ?_
      exact hI.after h' ⟨rfl, rfl, rfl, rfl, rfl⟩ hI.render
    · exact .pure h
  split
  · split
    · exact .pure h
    · exact hI.prompt h _
  split
  · exact .pure h
  split
  · exact hI.ctrlSave h
  split
  · exact hI.ctrlExit h
  split
  · exact hI.after h ⟨rfl, rfl, rfl, rfl, rfl⟩ fun h' => hI.message h' _
  split
  · exact .of_run (modify_run _) (hI.sameText h ⟨rfl, rfl, rfl, rfl, rfl⟩)
  · exact hI.key h _

end

/-- The states after each of the key events. -/
def trace : List Event → State → Option (List State)
  | [], _ => some []
  | e :: es, s => do
    let (_, s') ← handleScancode e s
    let later ← trace es s'
    pure (s' :: later)

theorem Stable.trace {I : State → Prop} (hI : Stable I) :
    ∀ {s : State} (es : List Event), I s → ∃ states, trace es s = some states ∧ ∀ s' ∈ states, I s'
  | _, [], _ => ⟨[], rfl, by simp⟩
  | s, e :: es, h => by
    obtain ⟨⟨⟩, s', hrun, h'⟩ := hI.scancode h e
    obtain ⟨states, hlater, hall⟩ := hI.trace es h'
    refine ⟨s' :: states, ?_, ?_⟩
    · show (handleScancode e s).bind _ = _
      rw [hrun]
      show (Nano.trace es s').bind _ = _
      rw [hlater]
      rfl
    · rintro s'' (_ | ⟨_, hmem⟩)
      · exact h'
      · exact hall s'' hmem

/-! ## The invariant -/

section

variable {s s' : State} {t : Text}

@[simp] theorem length_line (k : Nat) : (s.line k).length = (s.lineLengths k).toNat := by simp [State.line]

theorem getD_line {k j : Nat} (hj : j < (s.lineLengths k).toNat) : (s.line k).getD j 0 = s.lines k j := by
  simp [State.line, List.getD_eq_getElem?_getD, hj]

@[simp] theorem length_text : s.text.length = s.totalLines.toNat := by simp [State.text]

theorem getD_text {k : Nat} (hk : k < s.totalLines.toNat) : s.text.getD k [] = s.line k := by
  simp [State.text, State.line, List.getD_eq_getElem?_getD, hk]

theorem mem_text {l : List UInt8} (h : l ∈ s.text) : ∃ k : Nat, (k : Int) < s.totalLines ∧ l = s.line k := by
  obtain ⟨k, hk, rfl⟩ := List.mem_map.1 h
  rw [List.mem_range] at hk
  exact ⟨k, by omega, rfl⟩

theorem Inv.isLine (h : Inv s) {k : Nat} (hk : k < s.totalLines) : IsLine (s.line k) := by
  have hlen := h.length k hk
  constructor
  · rw [length_line]
    omega
  · intro h0
    obtain ⟨j, hj, h0⟩ := List.mem_map.1 h0
    rw [List.mem_range] at hj
    exact h.noNul k hk j (by omega) h0

theorem rowIs_line {k : Nat} (h0 : 0 ≤ s.lineLengths k) (hend : s.lines k (s.lineLengths k).toNat = 0) :
    RowIs (s.lines k) (s.lineLengths k) (s.line k) := by
  constructor
  · rw [length_line]
    omega
  · intro j hj
    rw [length_line] at hj
    rcases Nat.lt_or_eq_of_le hj with hlt | rfl
    · rw [getD_line hlt]
    · rw [hend, getD_length _ (by rw [length_line])]

theorem Inv.rowIs (h : Inv s) {k : Nat} (hk : k < s.totalLines) : RowIs (s.lines k) (s.lineLengths k) (s.line k) :=
  rowIs_line (h.length k hk).1 (h.terminator k hk)

/-- A state that keeps the invariant holds a text. -/
def Inv.theText (h : Inv s) : Text where
  lines := s.text
  x := s.cursorX.toNat
  y := s.cursorY.toNat
  isLine l hl := by
    obtain ⟨k, hk, rfl⟩ := mem_text hl
    exact h.isLine hk
  count := by
    have := h.total
    rw [length_text]
    omega
  y_lt := by
    have := h.cursorY
    rw [length_text]
    omega
  x_le := by
    have := h.cursorY
    have := h.cursorX
    rw [getD_text (by omega), length_line]
    omega

theorem Inv.shows (h : Inv s) : Shows s h.theText := by
  have htotal := h.total
  have hcy := h.cursorY
  have hcx := h.cursorX
  refine ⟨?_, ?_, ?_, fun k hk => ?_⟩
  · show s.totalLines = (s.text.length : Int)
    rw [length_text]
    omega
  · show s.cursorX = (s.cursorX.toNat : Int)
    omega
  · show s.cursorY = (s.cursorY.toNat : Int)
    omega
  · change k < s.text.length at hk
    rw [length_text] at hk
    show RowIs _ _ (s.text.getD k [])
    rw [getD_text hk]
    exact h.rowIs (by omega)

theorem Shows.inv (h : Shows s t) : Inv s := by
  have htotal := h.total
  have hcount := t.count
  have hy := h.y
  have hx := h.x
  have hylt := t.y_lt
  have hxle := t.x_le_cur
  have hcur := h.row_cur.length
  have hyk : s.cursorY.toNat = t.y := by omega
  constructor
  · constructor
    · omega
    · omega
    · rw [hyk]
      omega
    · intro k hk
      have hlen := (h.row k (by omega)).length
      have hmax := (Text.isLine_line (t := t) (k := k) (by omega)).length
      omega
  · intro k hk
    have hrow := h.row k (by omega)
    rw [hrow.length, Int.toNat_natCast, hrow.byte _ (le_refl _), getD_length _ (le_refl _)]
  · intro k hk j hj h0
    have hrow := h.row k (by omega)
    have hlt : j < (t.line k).length := by
      have := hrow.length
      omega
    rw [hrow.byte j (by omega)] at h0
    exact (Text.isLine_line (by omega)).getD_ne hlt h0

/-- The invariant says that the state holds a text. -/
theorem inv_iff : Inv s ↔ ∃ t, Shows s t := by
  constructor
  · intro h
    exact ⟨_, h.shows⟩
  · rintro ⟨t, h⟩
    exact h.inv

theorem stable_inv : Stable Inv where
  bounds h := h.toBounds
  sameText h hs := by
    obtain ⟨h1, h2, h3, h4, h5⟩ := hs
    refine ⟨⟨?_, ?_, ?_, ?_⟩, ?_, ?_⟩ <;> simp only [h1, h2, h3, h4, h5]
    · exact h.total
    · exact h.cursorY
    · exact h.cursorX
    · exact h.length
    · exact h.terminator
    · exact h.noNul
  moved _ _ _ h hy hx := ⟨⟨h.total, hy, hx, h.length⟩, h.terminator, h.noNul⟩
  insertChar h hc := (insertChar_meets h.shows hc).mono fun _ _ he => he.shows.inv
  backspace h := (handleBackspace_meets h.shows).mono fun _ _ he => he.shows.inv
  enter h := (handleEnter_meets h.shows).mono fun _ _ he => he.shows.inv
  delete h := (handleDelete_meets h.shows).mono fun _ _ he => he.shows.inv

/-- Whatever the keys and whatever the writes answer, no access is out of bounds, and the invariant holds after
every event. -/
theorem inv_of_events (h : Inv s) (es : List Event) : ∃ states, trace es s = some states ∧ ∀ s' ∈ states, Inv s' :=
  stable_inv.trace es h

end

/-- The editor on an empty text. -/
def emptyText : State := { State.unused with editorActive := true, totalLines := 1 }

theorem inv_emptyText : Inv emptyText :=
  ⟨⟨by decide, by decide, by decide, fun _ _ => ⟨le_refl 0, show (0 : Int) ≤ 200 - 1 by decide⟩⟩, fun _ _ => rfl,
    fun _ _ j hj => absurd hj (by simp [emptyText, State.unused])⟩

theorem inv_of_events_typing :
    ∃ states, trace [⟨false, 0x1E, false⟩, ⟨false, 0x1C, false⟩] emptyText = some states ∧ ∀ s' ∈ states, Inv s' :=
  inv_of_events inv_emptyText _

end AltoniumOS.Nano

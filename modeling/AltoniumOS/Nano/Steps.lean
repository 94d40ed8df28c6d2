/-
What each operation of the editor can do to the state it is run in, whatever that state is: which fields
change, by which guard, and that no text changes without the mark.

`Shown s s'` leaves open what is drawn, and the prompt, the overlay, the message and the theme.
-/
import AltoniumOS.Nano.Editor

namespace AltoniumOS.Nano

open AltoniumOS.Lib
open AltoniumOS.Fat12 (Code)

section

variable {α : Type} {s s' : State} {m : M α} {f : α → M Unit} {R : Unit → State → Prop}

/-! ## Accesses -/

/-- The program changes the lines and their lengths only. -/
structure OnlyRows (m : M α) : Prop where
  run : ∀ s, Ends m s fun _ s' => ∃ lines lens, s' = { s with lines := lines, lineLengths := lens }

/-- The program changes nothing. -/
structure OnlyReads (m : M α) : Prop where
  run : ∀ s, Ends m s fun _ s' => s' = s

theorem OnlyRows.ends (h : OnlyRows m)
    (hf : ∀ a lines lens, Ends (f a) { s with lines := lines, lineLengths := lens } R) : Ends (m >>= f) s R := by
  refine (h.run s).bind ?_
  rintro a _ ⟨lines, lens, rfl⟩
  exact hf a lines lens

theorem OnlyRows.bind {β : Type} {f : α → M β} (h : OnlyRows m) (hf : ∀ a, OnlyRows (f a)) :
    OnlyRows (m >>= f) := by
  constructor
  intro s
  refine (h.run s).bind ?_
  rintro a _ ⟨lines, lens, rfl⟩
  refine ((hf a).run _).mono ?_
  rintro b _ ⟨lines', lens', rfl⟩
  exact ⟨lines', lens', rfl⟩

theorem OnlyRows.pure (a : α) : OnlyRows (pure a) := ⟨fun s => .pure ⟨s.lines, s.lineLengths, rfl⟩⟩

theorem OnlyReads.onlyRows (h : OnlyReads m) : OnlyRows m := by
  refine ⟨fun s => (h.run s).mono ?_⟩
  rintro a _ rfl
  exact ⟨_, _, rfl⟩

theorem OnlyReads.bind {β : Type} {f : α → M β} (h : OnlyReads m) (hf : ∀ a, OnlyReads (f a)) :
    OnlyReads (m >>= f) := by
  constructor
  intro s
  refine (h.run s).bind ?_
  rintro a _ rfl
  exact (hf a).run _

theorem OnlyReads.pure (a : α) : OnlyReads (pure a) := ⟨fun _ => .pure rfl⟩

theorem OnlyRows.forUp {body : Int → M Unit} (h : ∀ i, OnlyRows (body i)) (a b : Int) :
    OnlyRows (forUp a b body) := by
  refine ⟨fun s => Ends.forUp (I := fun s' => ∃ lines lens, s' = { s with lines := lines, lineLengths := lens }) ?_
    ⟨_, _, rfl⟩⟩
  rintro i _ ⟨lines, lens, rfl⟩
  refine ((h i).run _).mono ?_
  rintro - _ ⟨lines', lens', rfl⟩
  exact ⟨lines', lens', rfl⟩

theorem OnlyRows.forDown {body : Int → M Unit} (h : ∀ i, OnlyRows (body i)) (a b : Int) :
    OnlyRows (forDown a b body) := by
  refine ⟨fun s => Ends.forDown (I := fun s' => ∃ lines lens, s' = { s with lines := lines, lineLengths := lens })
    ?_ ⟨_, _, rfl⟩⟩
  rintro i _ ⟨lines, lens, rfl⟩
  refine ((h i).run _).mono ?_
  rintro - _ ⟨lines', lens', rfl⟩
  exact ⟨lines', lens', rfl⟩

/-- A length read is that of the line, which is there. -/
theorem getLength_ends (i : Int) :
    Ends (getLength i) s fun len s' => s' = s ∧ 0 ≤ i ∧ len = s.lineLengths i.toNat := by
  refine (Ends.index maxLines i).bind ?_
  rintro k _ ⟨rfl, rfl⟩
  exact .of_run rfl ⟨rfl, by omega, by simp⟩

theorem onlyReads_getLength (i : Int) : OnlyReads (getLength i) :=
  ⟨fun _ => (getLength_ends i).mono fun _ _ h => h.1⟩

theorem onlyReads_getChar (i j : Int) : OnlyReads (getChar i j) := by
  constructor
  intro s
  refine (Ends.index maxLines i).bind ?_
  rintro k _ ⟨rfl, -⟩
  refine (Ends.index maxLineLength j).bind ?_
  rintro m _ ⟨rfl, -⟩
  exact .of_run rfl rfl

theorem onlyRows_setLength (i v : Int) : OnlyRows (setLength i v) := by
  constructor
  intro s
  refine (Ends.index maxLines i).bind ?_
  rintro k _ ⟨rfl, -⟩
  exact .of_run (modify_run _) ⟨_, _, rfl⟩

theorem onlyRows_setChar (i j : Int) (c : UInt8) : OnlyRows (setChar i j c) := by
  constructor
  intro s
  refine (Ends.index maxLines i).bind ?_
  rintro k _ ⟨rfl, -⟩
  refine (Ends.index maxLineLength j).bind ?_
  rintro m _ ⟨rfl, -⟩
  exact .of_run (modify_run _) ⟨_, _, rfl⟩

/-- A byte copied within the text. -/
theorem onlyRows_copyChar (i j k m : Int) : OnlyRows (do setChar i j (← getChar k m)) :=
  (onlyReads_getChar k m).onlyRows.bind fun c => onlyRows_setChar i j c

theorem onlyRows_copyLine (i k : Int) : ∀ (n : Nat) (j : Int), OnlyRows (copyLine i k n j)
  | 0, _ => ⟨fun _ => .error⟩
  | n + 1, j => by
    refine (onlyReads_getChar k j).onlyRows.bind fun c => (onlyRows_setChar i j c).bind fun _ => ?_
    split
    · exact .pure ()
    · exact onlyRows_copyLine i k n (j + 1)

theorem onlyRows_moveLine (i k : Int) : OnlyRows (moveLine i k) :=
  (onlyReads_getLength k).onlyRows.bind fun len => (onlyRows_setLength i len).bind fun _ =>
    onlyRows_copyLine i k _ 0

theorem joinLines_ends (y len nextLen : Int) : Ends (joinLines y len nextLen) s fun _ s' =>
    ∃ lines lens, s' = { s with lines := lines, lineLengths := lens, totalLines := s.totalLines - 1 } := by
  refine OnlyRows.ends (.forUp (fun i => onlyRows_copyChar ..) ..) fun _ lines lens => ?_
  refine (onlyRows_setLength ..).ends fun _ lines lens => ?_
  refine (onlyRows_setChar ..).ends fun _ lines lens => ?_
  refine .step get_run ?_
  refine OnlyRows.ends (.forUp (fun i => onlyRows_moveLine ..) ..) fun _ lines lens => ?_
  exact .of_run (modify_run _) ⟨lines, lens, rfl⟩

/-! ## Editing -/

/-- The text edited, with `total` lines and the cursor in line `y` after it, and marked. -/
def Edited (s : State) (total y : Int) (s' : State) : Prop :=
  ∃ lines lens x, s' =
    { s with lines := lines, lineLengths := lens, totalLines := total, cursorX := x, cursorY := y, dirty := true }

theorem Edited.mark {total y : Int} {lines : Nat → Buf} {lens : Nat → Int} {x : Int}
    (h : s' = { s with lines := lines, lineLengths := lens, totalLines := total, cursorX := x, cursorY := y }) :
    Edited s total y { s' with dirty := true } := by
  subst h
  exact ⟨lines, lens, x, rfl⟩

theorem insertChar_ends (c : UInt8) :
    Ends (insertChar c) s fun _ s' => s' = s ∨ Edited s s.totalLines s.cursorY s' := by
  unfold insertChar
  refine .step get_run ?_
  split
  · exact .pure (.inl rfl)
  refine (onlyReads_getLength s.cursorY).onlyRows.ends fun len lines lens => ?_
  dsimp only
  split
  · refine (onlyRows_setChar ..).ends fun _ lines lens => ?_
    refine (onlyRows_setChar ..).ends fun _ lines lens => ?_
    refine (onlyRows_setLength ..).ends fun _ lines lens => ?_
    exact .step (modify_run _) (.of_run (modify_run _) (.inr (.mark rfl)))
  · split
    · have hshift : ∀ i,
          OnlyRows (if i < (maxLineLength : Int) - 1 then do setChar s.cursorY i (← getChar s.cursorY (i - 1))
            else pure ()) := by
        intro i
        split
        · exact onlyRows_copyChar ..
        · exact .pure ()
      -- the end of the line is set wherever it now is
      have hend : ∀ lines lens, Ends (do
          setChar s.cursorY (← getLength s.cursorY) 0
          modify fun s => { s with cursorX := s.cursorX + 1 }
          modify fun s => { s with dirty := true }) { s with lines := lines, lineLengths := lens }
          fun _ s' => s' = s ∨ Edited s s.totalLines s.cursorY s' := by
        intro lines lens
        refine (onlyReads_getLength _).onlyRows.ends fun _ lines lens => ?_
        refine (onlyRows_setChar ..).ends fun _ lines lens => ?_
        exact .step (modify_run _) (.of_run (modify_run _) (.inr (.mark rfl)))
      refine OnlyRows.ends (.forDown hshift ..) fun _ lines lens => ?_
      refine (onlyRows_setChar ..).ends fun _ lines lens => ?_
      split
      · exact (onlyRows_setLength ..).ends fun _ lines lens => hend lines lens
      · exact hend lines lens
    · exact .of_run (modify_run _) (.inr (.mark rfl))

/-- Backspace would join the current line to the one before it. -/
def JoinsBack (s : State) : Prop :=
  s.cursorX ≤ 0 ∧ 0 < s.cursorY ∧ s.lineLengths (s.cursorY - 1).toNat + s.lineLengths s.cursorY.toNat <
    maxLineLength

theorem handleBackspace_ends : Ends handleBackspace s fun _ s' =>
    s' = s ∨ Edited s s.totalLines s.cursorY s' ∨ JoinsBack s ∧ Edited s (s.totalLines - 1) (s.cursorY - 1) s' := by
  unfold handleBackspace
  refine .step get_run ?_
  split
  · exact .pure (.inl rfl)
  dsimp only
  split
  · rename_i hx
    have hend : ∀ lines lens, Ends (do
        setChar s.cursorY (← getLength s.cursorY) 0
        modify fun s => { s with cursorX := s.cursorX - 1 }
        modify fun s => { s with dirty := true }) { s with lines := lines, lineLengths := lens }
        fun _ s' => s' = s ∨ Edited s s.totalLines s.cursorY s' ∨ JoinsBack s ∧
            Edited s (s.totalLines - 1) (s.cursorY - 1) s' := by
      intro lines lens
      refine (onlyReads_getLength _).onlyRows.ends fun _ lines lens => ?_
      refine (onlyRows_setChar ..).ends fun _ lines lens => ?_
      exact .step (modify_run _) (.of_run (modify_run _) (.inr (.inl (.mark rfl))))
    refine (onlyReads_getLength _).onlyRows.ends fun len lines lens => ?_
    refine OnlyRows.ends (.forUp (fun i => onlyRows_copyChar ..) ..) fun _ lines lens => ?_
    split
    · exact (onlyRows_setLength ..).ends fun _ lines lens => hend lines lens
    · exact hend lines lens
  · rename_i hx
    split
    · rename_i hy
      refine (getLength_ends _).bind ?_
      rintro prevLen _ ⟨rfl, -, rfl⟩
      refine (getLength_ends _).bind ?_
      rintro curLen _ ⟨rfl, -, rfl⟩
      split
      · rename_i hfit
        refine (joinLines_ends _ _ _).bind ?_
        rintro - _ ⟨lines, lens, rfl⟩
        refine .step (modify_run _) (.of_run (modify_run _) (.inr (.inr ⟨⟨by omega, by omega, hfit⟩, ?_⟩)))
        exact .mark rfl
      · exact .of_run (modify_run _) (.inr (.inl (.mark rfl)))
    · exact .of_run (modify_run _) (.inr (.inl (.mark rfl)))

theorem handleEnter_ends : Ends handleEnter s fun _ s' =>
    s' = s ∨ s.totalLines < maxLines ∧ Edited s (s.totalLines + 1) (s.cursorY + 1) s' := by
  unfold handleEnter
  refine .step get_run ?_
  split
  · exact .pure (.inl rfl)
  rename_i hroom
  refine (onlyReads_getLength _).onlyRows.ends fun len lines lens => ?_
  refine OnlyRows.ends (.forDown (fun i => onlyRows_moveLine ..) ..) fun _ lines lens => ?_
  refine OnlyRows.ends (.forUp (fun i => onlyRows_copyChar ..) ..) fun _ lines lens => ?_
  refine (onlyRows_setChar ..).ends fun _ lines lens => ?_
  refine (onlyRows_setLength ..).ends fun _ lines lens => ?_
  refine (onlyRows_setChar ..).ends fun _ lines lens => ?_
  refine (onlyRows_setLength ..).ends fun _ lines lens => ?_
  exact .of_run (modify_run _) (.inr ⟨by omega, ⟨lines, lens, _, rfl⟩⟩)

theorem handleDelete_ends : Ends handleDelete s fun _ s' =>
    s' = s ∨ Edited s s.totalLines s.cursorY s' ∨ s.cursorY < s.totalLines - 1 ∧
        Edited s (s.totalLines - 1) s.cursorY s' := by
  unfold handleDelete
  refine .step get_run ?_
  split
  · exact .pure (.inl rfl)
  refine (getLength_ends _).bind ?_
  rintro len _ ⟨rfl, -, rfl⟩
  split
  · refine OnlyRows.ends (.forUp (fun i => onlyRows_copyChar ..) ..) fun _ lines lens => ?_
    refine (onlyRows_setLength ..).ends fun _ lines lens => ?_
    refine (onlyRows_setChar ..).ends fun _ lines lens => ?_
    exact .of_run (modify_run _) (.inr (.inl (.mark rfl)))
  · split
    · rename_i hlast
      refine (getLength_ends _).bind ?_
      rintro nextLen _ ⟨rfl, -, rfl⟩
      split
      · refine (joinLines_ends _ _ _).bind ?_
        rintro - _ ⟨lines, lens, rfl⟩
        exact .of_run (modify_run _) (.inr (.inr ⟨hlast, .mark rfl⟩))
      · exact .pure (.inl rfl)
    · exact .pure (.inl rfl)

/-! ## Moving and drawing -/

/-- The cursor stands in a line of the text. -/
def InText (s : State) : Prop := 0 ≤ s.cursorY ∧ s.cursorY < s.totalLines

/-- The cursor moved to another line, and the window after it. -/
def Scrolled (s s' : State) : Prop :=
  ∃ x y, (InText s → 0 ≤ y ∧ y < s.totalLines) ∧
    s' = { s with cursorX := x, cursorY := y, viewportY := scrolled y s.viewportY s.totalLines }

theorem moveCursor_ends (dx dy : Int) : Ends (moveCursor dx dy) s fun _ s' => Scrolled s s' := by
  unfold moveCursor
  refine .step get_run ?_
  dsimp only
  refine (getLength_ends _).bind ?_
  rintro len _ ⟨rfl, h0, rfl⟩
  refine .step (modify_run _) (.of_run (modify_run _) ⟨_, _, ?_, rfl⟩)
  rintro ⟨h1, h2⟩
  dsimp only
  constructor
  · exact h0
  · split_ifs <;> omega

theorem moveToLineStart_ends : Ends moveToLineStart s fun _ s' => ∃ x, s' = { s with cursorX := x } :=
  .of_run (modify_run _) ⟨_, rfl⟩

theorem moveToLineEnd_ends : Ends moveToLineEnd s fun _ s' => ∃ x, s' = { s with cursorX := x } := by
  unfold moveToLineEnd
  refine .step get_run ?_
  split
  · refine (getLength_ends _).bind ?_
    rintro len _ ⟨rfl, -, rfl⟩
    exact .of_run (modify_run _) ⟨_, rfl⟩
  · exact .pure ⟨s.cursorX, rfl⟩

theorem pageScroll_ends (direction : Int) : Ends (pageScroll direction) s fun _ s' => Scrolled s s' := by
  unfold pageScroll
  refine .step get_run (.step (modify_run _) ?_)
  refine (getLength_ends _).bind ?_
  rintro len _ ⟨rfl, h0, -⟩
  refine .step (modify_run _) (.of_run (modify_run _) ?_)
  have hy : ∀ y : Int, y = (if direction < 0 then
      if s.cursorY - ((viewportHeight : Int) - 1) < 0 then 0 else s.cursorY - ((viewportHeight : Int) - 1)
    else if (if s.cursorY + ((viewportHeight : Int) - 1) ≥ s.totalLines then s.totalLines - 1
      else s.cursorY + ((viewportHeight : Int) - 1)) < 0
      then 0 else if s.cursorY + ((viewportHeight : Int) - 1) ≥ s.totalLines then s.totalLines - 1
        else s.cursorY + ((viewportHeight : Int) - 1)) →
    InText s → 0 ≤ y ∧ y < s.totalLines := by
    rintro y rfl ⟨h1, h2⟩
    unfold viewportHeight
    split_ifs <;> omega
  dsimp only
  split
  · exact ⟨_, _, hy _ rfl, rfl⟩
  · exact ⟨_, _, hy _ rfl, rfl⟩

/-- Nothing but what is on the screen, the prompt and the theme changes. -/
def Shown (s s' : State) : Prop :=
  ∃ screen cursor msg theme prompt help, s' = { s with
    screen := screen
    hardwareCursor := cursor
    statusMessage := msg
    theme := theme
    promptState := prompt
    helpOverlayVisible := help }

theorem Shown.refl (s : State) : Shown s s := ⟨_, _, _, _, _, _, rfl⟩

theorem Shown.trans {s'' : State} (h : Shown s s') (h' : Shown s' s'') : Shown s s'' := by
  obtain ⟨screen, cursor, msg, theme, prompt, help, rfl⟩ := h
  obtain ⟨screen', cursor', msg', theme', prompt', help', rfl⟩ := h'
  exact ⟨_, _, _, _, _, _, rfl⟩

theorem renderRow_ends (row : Int) :
    Ends (renderRow row) s fun _ s' => ∃ screen, s' = { s with screen := screen } := by
  unfold renderRow
  refine .step get_run ?_
  dsimp only
  split
  · refine (getLength_ends _).bind ?_
    rintro len s ⟨rfl, -, -⟩
    refine Ends.forUp (I := fun s' => ∃ screen, s' = { s with screen := screen }) ?_ ⟨s.screen, rfl⟩
    rintro col _ ⟨screen, rfl⟩
    refine ((onlyReads_getChar _ _).run _).bind ?_
    rintro c _ rfl
    exact .of_run (modify_run _) ⟨_, rfl⟩
  · exact .pure ⟨_, rfl⟩

theorem renderEditor_ends : Ends renderEditor s fun _ s' => Shown s s' := by
  unfold renderEditor
  refine .step (modify_run _) (Ends.bind (Q := fun _ s' => ∃ screen, s' = { s with screen := screen }) ?_ ?_)
  · refine Ends.forUp (I := fun s' => ∃ screen, s' = { s with screen := screen }) ?_ ⟨fun _ _ => space, rfl⟩
    rintro row _ ⟨screen, rfl⟩
    refine (renderRow_ends row).mono ?_
    rintro - _ ⟨screen', rfl⟩
    exact ⟨screen', rfl⟩
  · rintro - _ ⟨screen, rfl⟩
    refine .of_run (modify_run _) ?_
    unfold placeCursor
    dsimp only
    split
    · exact ⟨_, _, _, _, _, _, rfl⟩
    · exact ⟨_, _, _, _, _, _, rfl⟩

/-- Whatever is done before it, drawing only shows it. -/
theorem renderEditor_after {s₀ : State} (h : Shown s s₀) : Ends renderEditor s₀ fun _ s' => Shown s s' :=
  renderEditor_ends.mono fun _ _ => h.trans

/-- A message, and the screen drawn. -/
theorem message_ends {s₀ : State} (h : Shown s s₀) (msg : String) :
    Ends (do setStatusMessage msg; renderEditor) s₀ fun _ s' => Shown s s' :=
  .step (modify_run _) (renderEditor_after (h.trans ⟨_, _, _, _, _, _, rfl⟩))

/-! ## Saving and leaving -/

theorem onlyReads_collectLine (i : Int) :
    ∀ (n : Nat) (j : Int) (out : List UInt8), OnlyReads (collectLine i n j out)
  | 0, _, out => .pure out
  | n + 1, j, out => by
    rw [collectLine]
    split
    · exact (onlyReads_getChar i j).bind fun c => onlyReads_collectLine i n (j + 1) (out ++ [c])
    · exact .pure out

theorem onlyReads_collect : ∀ (n : Nat) (i : Int) (out : List UInt8), OnlyReads (collect n i out)
  | 0, _, out => .pure out
  | n + 1, i, out => by
    rw [collect]
    split
    · refine (onlyReads_getLength i).bind fun len => (onlyReads_collectLine i len.toNat 0 out).bind fun out => ?_
      exact onlyReads_collect n (i + 1) _
    · exact .pure out

/-- `s` after a call of `fat12_write_file`. -/
def State.wrote (s : State) (bytes : List UInt8) : State :=
  { s with
    outcomes := fun k => s.outcomes (k + 1)
    written := s.written ++ [⟨s.filename, bytes, s.text, s.outcomes 0⟩] }

theorem writeFile_run (bytes : List UInt8) : writeFile s.filename bytes s = some (s.outcomes 0, s.wrote bytes) :=
  rfl

/-- A save writes only what is marked, and removes the mark only if the write succeeds. -/
theorem saveFile_ends : Ends saveFile s fun saved s' =>
    s.dirty = false ∧ saved = true ∧ s' = s ∨
    s.dirty = true ∧ ∃ bytes, s.outcomes 0 = .ok ∧ saved = true ∧ s' = { s.wrote bytes with dirty := false } ∨
      s.outcomes 0 ≠ .ok ∧ saved = false ∧ s' = s.wrote bytes := by
  unfold saveFile
  refine .step get_run ?_
  split
  · rename_i hclean
    exact .pure (.inl ⟨by simpa using hclean, rfl, rfl⟩)
  · rename_i hdirty
    refine ((onlyReads_collect ..).run _).bind ?_
    rintro bytes _ rfl
    refine .step (writeFile_run bytes) ?_
    split
    · rename_i hok
      exact .step (modify_run _) (.pure (.inr ⟨by simpa using hdirty, bytes, .inl ⟨hok, rfl, rfl⟩⟩))
    · rename_i hfail
      exact .pure (.inr ⟨by simpa using hdirty, bytes, .inr ⟨hfail, rfl, rfl⟩⟩)

/-- The editor left. -/
def Left (s s' : State) : Prop := Shown { s with editorActive := false } s'

theorem exitEditor_discard_ends : Ends (exitEditor .discard) s fun _ s' => Left { s with dirty := false } s' := by
  unfold exitEditor
  refine .step get_run ?_
  rw [if_neg (by simp), if_pos rfl]
  exact .step (modify_run _) (.of_run (modify_run _) ⟨_, _, _, _, _, _, rfl⟩)

theorem exitEditor_save_ends (h : s.dirty = false) : Ends (exitEditor .save) s fun _ s' => Left s s' := by
  unfold exitEditor
  refine .step get_run ?_
  rw [if_neg (by simp [h]), if_neg (by simp)]
  exact .of_run (modify_run _) ⟨_, _, _, _, _, _, rfl⟩

end

end AltoniumOS.Nano

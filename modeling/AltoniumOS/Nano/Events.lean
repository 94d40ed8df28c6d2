/-
What one key event can do to the editor, whatever the state it meets.
-/
import AltoniumOS.Nano.Steps

namespace AltoniumOS.Nano

open AltoniumOS.Lib
open AltoniumOS.Fat12 (Code)

/-- The event reaches the text. -/
def Takes (s : State) (e : Event) : Prop :=
  e.isRelease = false ∧ s.helpOverlayVisible = false ∧ s.promptState = .none

/-- The event throws the changes away: Esc in the text, Esc or `n` at the save prompt. -/
def Discards (s : State) (e : Event) : Prop :=
  e.isRelease = false ∧ s.helpOverlayVisible = false ∧
    (s.promptState = .none ∧ e.scancode = 0x01 ∨
      s.promptState = .saveConfirm ∧ (e.scancode = 0x01 ∨ scancodeToAscii e.scancode = asciiN))

/-- How an edit can change the number of lines and the line with the cursor. -/
inductive Reshapes (s : State) (e : Event) : Int → Int → Prop where
  | within : Reshapes s e s.totalLines s.cursorY
  | broken (ht : Takes s e) (he : e.scancode = 0x1C) (hroom : s.totalLines < maxLines) :
    Reshapes s e (s.totalLines + 1) (s.cursorY + 1)
  | joinedBack (ht : Takes s e) (he : e.scancode = 0x0E) (hj : JoinsBack s) :
    Reshapes s e (s.totalLines - 1) (s.cursorY - 1)
  | joinedNext (hlast : s.cursorY < s.totalLines - 1) : Reshapes s e (s.totalLines - 1) s.cursorY

/-- What an event can do. -/
inductive Outcome (s : State) (e : Event) (s' : State) : Prop where
  | shown (h : Shown s s')
  | moved (x : Int) (h : Shown { s with cursorX := x } s')
  | scrolled {s₁ : State} (hs : Scrolled s s₁) (h : Shown s₁ s')
  | edited {total y : Int} {s₁ : State} (hr : Reshapes s e total y) (hs : Edited s total y s₁) (h : Shown s₁ s')
  | saved (bytes : List UInt8) (active : Bool) (hdirty : s.dirty = true) (hok : s.outcomes 0 = .ok)
      (h : Shown { s.wrote bytes with dirty := false, editorActive := active } s')
  | failed (bytes : List UInt8) (hdirty : s.dirty = true) (hfail : s.outcomes 0 ≠ .ok)
    (h : Shown (s.wrote bytes) s')
  | left (hclean : s.dirty = false) (h : Left s s')
  | discarded (hd : Discards s e) (h : Left { s with dirty := false } s')

section

variable {s s₀ s' : State} {e : Event}

theorem Edited.trans {total y total' y' : Int} {s₁ s₂ : State} (h : Edited s total y s₁)
    (h' : Edited s₁ total' y' s₂) : Edited s total' y' s₂ := by
  obtain ⟨lines, lens, x, rfl⟩ := h
  obtain ⟨lines', lens', x', rfl⟩ := h'
  exact ⟨lines', lens', x', rfl⟩

/-- An edit, then the screen drawn. -/
theorem edit_ends {m : M Unit}
    (h : Ends m s fun _ s' => s' = s ∨ ∃ total y, Reshapes s e total y ∧ Edited s total y s') :
    Ends (do m; renderEditor) s fun _ s' => Outcome s e s' := by
  refine h.bind ?_
  rintro - s₁ (rfl | ⟨total, y, hr, hs⟩)
  · exact renderEditor_ends.mono fun _ _ => .shown
  · exact renderEditor_ends.mono fun _ _ => .edited hr hs

theorem scroll_ends {m : M Unit} (h : Ends m s fun _ s' => Scrolled s s') :
    Ends (do m; renderEditor) s fun _ s' => Outcome s e s' :=
  h.bind fun _ _ hs => renderEditor_ends.mono fun _ _ => .scrolled hs

theorem move_ends {m : M Unit} (h : Ends m s fun _ s' => ∃ x, s' = { s with cursorX := x }) :
    Ends (do m; renderEditor) s fun _ s' => Outcome s e s' := by
  refine h.bind ?_
  rintro - _ ⟨x, rfl⟩
  exact renderEditor_ends.mono fun _ _ => .moved x

theorem handleTyping_ends (k : UInt16) : Ends (handleTyping k) s fun _ s' => Outcome s e s' := by
  unfold handleTyping
  dsimp only
  split
  · apply edit_ends
    exact (insertChar_ends _).mono fun _ _ h => h.imp_right fun h => ⟨_, _, .within, h⟩
  · split
    · apply edit_ends
      refine (Ends.forUp (I := fun s' => s' = s ∨ Edited s s.totalLines s.cursorY s') ?_ (.inl rfl)).mono
        fun _ _ h => h.imp_right fun h => ⟨_, _, .within, h⟩
      intro i s₁ h₁
      have hsame : s₁.totalLines = s.totalLines ∧ s₁.cursorY = s.cursorY := by
        rcases h₁ with rfl | ⟨lines, lens, x, rfl⟩ <;> exact ⟨rfl, rfl⟩
      refine (insertChar_ends space).mono ?_
      rintro - s₂ (rfl | h₂)
      · exact h₁
      · rw [hsame.1, hsame.2] at h₂
        rcases h₁ with rfl | h₁
        · exact .inr h₂
        · exact .inr (h₁.trans h₂)
    · exact .pure (.shown (.refl s))

theorem handleKey_ends (ht : Takes s e) : Ends (handleKey e.scancode) s fun _ s' => Outcome s e s' := by
  have hcode : ∀ k : UInt16, e.scancode.toNat = k.toNat → e.scancode = k := fun _ => UInt16.toNat_inj.1
  unfold handleKey
  split
  · rename_i hk
    exact exitEditor_discard_ends.mono fun _ _ => .discarded ⟨ht.1, ht.2.1, .inl ⟨ht.2.2, hcode _ hk⟩⟩
  · rename_i hk
    apply edit_ends
    refine handleBackspace_ends.mono ?_
    rintro - s₁ (h | h | ⟨hj, h⟩)
    · exact .inl h
    · exact .inr ⟨_, _, .within, h⟩
    · exact .inr ⟨_, _, .joinedBack ht (hcode _ hk) hj, h⟩
  · rename_i hk
    apply edit_ends
    refine handleEnter_ends.mono ?_
    rintro - s₁ (h | ⟨hroom, h⟩)
    · exact .inl h
    · exact .inr ⟨_, _, .broken ht (hcode _ hk) hroom, h⟩
  -- Delete has two codes
  iterate 2
    apply edit_ends
    refine handleDelete_ends.mono ?_
    rintro - s₁ (h | h | ⟨hlast, h⟩)
    · exact .inl h
    · exact .inr ⟨_, _, .within, h⟩
    · exact .inr ⟨_, _, .joinedNext hlast, h⟩
  iterate 8 exact scroll_ends (moveCursor_ends _ _)
  iterate 2 exact move_ends moveToLineStart_ends
  iterate 2 exact move_ends moveToLineEnd_ends
  iterate 4 exact scroll_ends (pageScroll_ends _)
  exact handleTyping_ends _

/-- A save, from a state in which only the screen differs. -/
theorem save_ends (h : Shown s s₀) : Ends saveFile s₀ fun saved s' =>
    saved = true ∧ s'.dirty = false ∧ (s.dirty = false ∧ Shown s s' ∨
      ∃ bytes, s.dirty = true ∧ s.outcomes 0 = .ok ∧ Shown { s.wrote bytes with dirty := false } s') ∨
    saved = false ∧ ∃ bytes, s.dirty = true ∧ s.outcomes 0 ≠ .ok ∧ Shown (s.wrote bytes) s' := by
  obtain ⟨screen, cursor, msg, theme, prompt, help, rfl⟩ := h
  refine saveFile_ends.mono ?_
  rintro saved s' (⟨hclean, rfl, rfl⟩ | ⟨hdirty, bytes, ⟨hok, rfl, rfl⟩ | ⟨hfail, rfl, rfl⟩⟩)
  · exact .inl ⟨rfl, hclean, .inl ⟨hclean, _, _, _, _, _, _, rfl⟩⟩
  · exact .inl ⟨rfl, rfl, .inr ⟨bytes, hdirty, hok, _, _, _, _, _, _, rfl⟩⟩
  · exact .inr ⟨rfl, bytes, hdirty, hfail, _, _, _, _, _, _, rfl⟩

theorem handlePrompt_ends (hr : e.isRelease = false) (hh : s.helpOverlayVisible = false)
    (hp : s.promptState = .saveConfirm) : Ends (handlePrompt e.scancode) s fun _ s' => Outcome s e s' := by
  have hshown : Shown s { s with promptState := .none } := ⟨_, _, _, _, _, _, rfl⟩
  have hleft : ∀ {s'}, Left { { s with promptState := .none } with dirty := false } s' →
      Left { s with dirty := false } s' := by
    rintro s' ⟨_, _, _, _, _, _, rfl⟩
    exact ⟨_, _, _, _, _, _, rfl⟩
  unfold handlePrompt
  split
  · rename_i hesc
    exact .step (modify_run _) (exitEditor_discard_ends.mono fun _ _ h =>
      .discarded ⟨hr, hh, .inr ⟨hp, .inl hesc⟩⟩ (hleft h))
  dsimp only
  split
  · refine .step (modify_run _) ((save_ends hshown).bind ?_)
    rintro saved s₁ (⟨rfl, hsaved, ⟨hclean, h⟩ | ⟨bytes, hdirty, hok, h⟩⟩ | ⟨rfl, bytes, hdirty, hfail, h⟩)
    · refine (exitEditor_save_ends hsaved).mono ?_
      obtain ⟨_, _, _, _, _, _, rfl⟩ := h
      rintro - _ ⟨_, _, _, _, _, _, rfl⟩
      exact .left hclean ⟨_, _, _, _, _, _, rfl⟩
    · refine (exitEditor_save_ends hsaved).mono ?_
      obtain ⟨_, _, _, _, _, _, rfl⟩ := h
      rintro - _ ⟨_, _, _, _, _, _, rfl⟩
      exact .saved bytes false hdirty hok ⟨_, _, _, _, _, _, rfl⟩
    · exact (message_ends h _).mono fun _ _ => .failed bytes hdirty hfail
  · split
    · rename_i hn
      exact .step (modify_run _) (exitEditor_discard_ends.mono fun _ _ h =>
        .discarded ⟨hr, hh, .inr ⟨hp, .inr hn⟩⟩ (hleft h))
    · exact .pure (.shown (.refl s))

theorem handleCtrlSave_ends : Ends handleCtrlSave s fun _ s' => Outcome s e s' := by
  unfold handleCtrlSave
  refine (save_ends (.refl s)).bind ?_
  rintro saved s₁ (⟨rfl, -, ⟨-, h⟩ | ⟨bytes, hdirty, hok, h⟩⟩ | ⟨rfl, bytes, hdirty, hfail, h⟩)
  · exact (message_ends h _).mono fun _ _ => .shown
  · exact (message_ends h _).mono fun _ _ => .saved bytes _ hdirty hok
  · exact (message_ends h _).mono fun _ _ => .failed bytes hdirty hfail

theorem handleCtrlExit_ends : Ends handleCtrlExit s fun _ s' => Outcome s e s' := by
  unfold handleCtrlExit
  refine .step get_run ?_
  split
  · exact .step (modify_run _) ((message_ends ⟨_, _, _, _, _, _, rfl⟩ _).mono fun _ _ => .shown)
  · rename_i hclean
    have hclean : s.dirty = false := by simpa using hclean
    exact (exitEditor_save_ends hclean).mono fun _ _ => .left hclean

/-- Every event does one of these things. -/
theorem handleScancode_ends : Ends (handleScancode e) s fun _ s' => Outcome s e s' := by
  unfold handleScancode
  refine .step get_run ?_
  split
  · split
    · refine .step (modify_run _) (.step (modify_run _) ?_)
      exact (renderEditor_after (s := s) ⟨_, _, _, _, _, _, rfl⟩).mono fun _ _ => .shown
    · exact .pure (.shown (.refl s))
  rename_i hh
  have hh : s.helpOverlayVisible = false := by simpa using hh
  split
  · rename_i hp
    split
    · exact .pure (.shown (.refl s))
    · rename_i hr
      exact handlePrompt_ends (by simpa using hr) hh hp
  rename_i hp
  split
  · exact .pure (.shown (.refl s))
  rename_i hr
  split
  · exact handleCtrlSave_ends
  split
  · exact handleCtrlExit_ends
  split
  · exact .step (modify_run _) ((message_ends ⟨_, _, _, _, _, _, rfl⟩ _).mono fun _ _ => .shown)
  split
  · exact .of_run (modify_run _) (.shown ⟨_, _, _, _, _, _, rfl⟩)
  · apply handleKey_ends
    refine ⟨by simpa using hr, hh, ?_⟩
    cases hs : s.promptState with
    | none => rfl
    | saveConfirm => exact absurd hs hp

end

end AltoniumOS.Nano

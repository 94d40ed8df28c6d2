/-
The editor in use, from the loading of a file on: what is never lost, and what stays on the screen.
-/
import AltoniumOS.Nano.Events
import AltoniumOS.Nano.Load

namespace AltoniumOS.Nano

open AltoniumOS.Lib
open AltoniumOS.Fat12 (Code)

/-- The states the editor goes through, key after key while it is active, if every event meets the condition. -/
inductive Session (P : State → Event → Prop) (s₀ : State) : State → Prop where
  | start : Session P s₀ s₀
  | key {s s' : State} {e : Event} (h : Session P s₀ s) (hactive : s.editorActive = true) (hp : P s e)
      (hkey : handleScancode e s = some ((), s')) : Session P s₀ s'

section

variable {s s' s₀ s₁ s₂ : State} {e : Event} {filename : List UInt8} {result : Code} {buf : Buf} {size : Nat}

/-- After loading the cursor is at the top, and nothing is marked. -/
structure Loaded (s : State) : Prop where
  editorActive : s.editorActive = true
  dirty : s.dirty = false
  cursorY : s.cursorY = 0
  viewportY : s.viewportY = 0

theorem Loaded.shown (h : Loaded s) (hs : Shown s s') : Loaded s' := by
  obtain ⟨screen, cursor, msg, theme, prompt, help, rfl⟩ := hs
  exact ⟨h.editorActive, h.dirty, h.cursorY, h.viewportY⟩

theorem Loaded.rows (h : Loaded s) (lines : Nat → Buf) (lens : Nat → Int) :
    Loaded { s with lines := lines, lineLengths := lens } :=
  ⟨h.editorActive, h.dirty, h.cursorY, h.viewportY⟩

theorem Loaded.total (h : Loaded s) (total : Int) : Loaded { s with totalLines := total } :=
  ⟨h.editorActive, h.dirty, h.cursorY, h.viewportY⟩

theorem onlyRows_loadLoop (fsIoBuffer : Buf) :
    ∀ (n i : Nat) (line pos : Int), OnlyRows (loadLoop fsIoBuffer n i line pos)
  | 0, _, line, pos => .pure (line, pos)
  | n + 1, i, line, pos => by
    rw [loadLoop]
    dsimp only
    split
    · split
      · refine (onlyRows_setChar ..).bind fun _ => (onlyRows_setLength ..).bind fun _ => ?_
        exact onlyRows_loadLoop fsIoBuffer n (i + 1) (line + 1) 0
      · split
        · exact (onlyRows_setChar ..).bind fun _ => onlyRows_loadLoop fsIoBuffer n (i + 1) line (pos + 1)
        · exact onlyRows_loadLoop fsIoBuffer n (i + 1) line pos
    · exact .pure (line, pos)

theorem initEditor_ends : Ends (initEditor filename result buf size) s fun _ s' => Loaded s' := by
  unfold initEditor
  refine .step (modify_run _) (.step (modify_run _) ?_)
  -- whatever is in the rows
  have hclear : OnlyRows (forUp 0 maxLines fun i => do setLength i 0; setChar i 0 0) :=
    .forUp (fun i => (onlyRows_setLength ..).bind fun _ => onlyRows_setChar ..) ..
  refine hclear.ends fun _ lines lens => ?_
  set s₁ : State := { { s with
      filename := filename
      totalLines := 0
      cursorX := 0
      cursorY := 0
      viewportY := 0
      dirty := false
      editorActive := true
      promptState := .none
      helpOverlayVisible := false } with statusMessage := "" } with hs₁
  have h₁ : Loaded s₁ := ⟨rfl, rfl, rfl, rfl⟩
  dsimp only
  split
  · refine (onlyRows_loadLoop buf size 0 0 0).ends fun r lines lens => ?_
    obtain ⟨line, pos⟩ := r
    dsimp only
    split
    · refine (onlyRows_setChar ..).ends fun _ lines lens => (onlyRows_setLength ..).ends fun _ lines lens =>
        .step (modify_run _) ?_
      exact renderEditor_ends.mono fun _ _ => ((h₁.rows lines lens).total _).shown
    · exact .step (modify_run _) (renderEditor_ends.mono fun _ _ => ((h₁.rows lines lens).total _).shown)
  · refine .step (modify_run _) ?_
    refine (onlyRows_setLength ..).ends fun _ lines lens => (onlyRows_setChar ..).ends fun _ lines lens => ?_
    exact renderEditor_ends.mono fun _ _ => ((h₁.rows lines lens).total _).shown

/-! ## Nothing is lost -/

/-- The text at the last write that succeeded, or else the one loaded. -/
def lastSaved (loaded : List (List UInt8)) (ws : List Write) : List (List UInt8) :=
  ((ws.filter fun w => w.result = .ok).getLast?.map Write.text).getD loaded

theorem lastSaved_ok (loaded : List (List UInt8)) (ws : List Write) {w : Write} (h : w.result = .ok) :
    lastSaved loaded (ws ++ [w]) = w.text := by
  unfold lastSaved
  simp [h]

/-- Since loading, the writes `ws` were made, and what they did not keep is marked. -/
def Kept (s₀ s : State) (ws : List Write) : Prop :=
  s.written = s₀.written ++ ws ∧ (s.dirty = true ∨ s.text = lastSaved s₀.text ws)

theorem Kept.shown {ws : List Write} (h : Kept s₀ s ws) (hs : Shown s s') : Kept s₀ s' ws := by
  obtain ⟨screen, cursor, msg, theme, prompt, help, rfl⟩ := hs
  exact h

/-- What one event does about it: it makes the writes `new`. -/
structure Keeps (s₀ : State) (ws : List Write) (s : State) (e : Event) (s' : State) (new : List Write) : Prop where
  written : s'.written = s.written ++ new
  kept : s'.editorActive = true ∨ ¬ Discards s e → Kept s₀ s' (ws ++ new)
  clean : s'.editorActive = false → s'.dirty = false
  failed : ∀ w ∈ new, w.result ≠ .ok → s'.editorActive = true ∧ s'.dirty = true

/-- An event that writes nothing and stays in the editor. -/
theorem Keeps.quiet {ws : List Write} (hs : Shown s₁ s') (h : Kept s₀ s₁ ws) (hw : s₁.written = s.written)
    (ha : s₁.editorActive = true) : Keeps s₀ ws s e s' [] := by
  have hk := h.shown hs
  obtain ⟨screen, cursor, msg, theme, prompt, help, rfl⟩ := hs
  refine ⟨by simpa using hw, fun _ => by simpa using hk, fun hoff => ?_, by simp⟩
  cases ha.symm.trans hoff

theorem Outcome.keeps {ws : List Write} (h : Outcome s e s') (hk : Kept s₀ s ws) (ha : s.editorActive = true) :
    ∃ new, Keeps s₀ ws s e s' new := by
  cases h with
  | shown h => exact ⟨[], .quiet h hk rfl ha⟩
  | moved x h => exact ⟨[], .quiet h hk rfl ha⟩
  | scrolled hs h =>
    obtain ⟨x, y, -, rfl⟩ := hs
    exact ⟨[], .quiet h hk rfl ha⟩
  | edited _ hs h =>
    obtain ⟨lines, lens, x, rfl⟩ := hs
    exact ⟨[], .quiet h ⟨hk.1, .inl rfl⟩ rfl ha⟩
  | saved bytes active hdirty hok h =>
    obtain ⟨screen, cursor, msg, theme, prompt, help, rfl⟩ := h
    refine ⟨[⟨s.filename, bytes, s.text, s.outcomes 0⟩], rfl, fun _ => ⟨?_, .inr ?_⟩, fun _ => rfl, ?_⟩
    · show s.written ++ _ = _
      rw [hk.1, List.append_assoc]
    · exact (lastSaved_ok (w := ⟨s.filename, bytes, s.text, s.outcomes 0⟩) s₀.text ws hok).symm
    · intro w hw hfail
      rw [List.mem_singleton.1 hw] at hfail
      exact absurd hok hfail
  | failed bytes hdirty hfail h =>
    obtain ⟨screen, cursor, msg, theme, prompt, help, rfl⟩ := h
    refine ⟨[⟨s.filename, bytes, s.text, s.outcomes 0⟩], rfl, fun _ => ⟨?_, .inl hdirty⟩, fun hoff => ?_,
      fun _ _ _ => ⟨ha, hdirty⟩⟩
    · show s.written ++ _ = _
      rw [hk.1, List.append_assoc]
    · cases ha.symm.trans hoff
  | left hclean h =>
    obtain ⟨screen, cursor, msg, theme, prompt, help, rfl⟩ := h
    refine ⟨[], by simp, fun _ => ?_, fun _ => hclean, by simp⟩
    rw [List.append_nil]
    exact hk
  | discarded hd h =>
    obtain ⟨screen, cursor, msg, theme, prompt, help, rfl⟩ := h
    refine ⟨[], by simp, fun hor => ?_, fun _ => rfl, by simp⟩
    rcases hor with hoff | hnot
    · cases hoff
    · exact absurd hd hnot

/-- While the editor is active, what was not written is marked. -/
theorem Session.kept {P : State → Event → Prop} (h : Session P s₀ s) :
    s.editorActive = true → ∃ ws, Kept s₀ s ws := by
  induction h with
  | start => exact fun _ => ⟨[], by simp, .inr rfl⟩
  | key h hactive hp hkey ih =>
    intro ha
    obtain ⟨ws, hk⟩ := ih hactive
    obtain ⟨new, hnew⟩ := (handleScancode_ends _ _ hkey).keeps hk hactive
    exact ⟨ws ++ new, hnew.kept (.inl ha)⟩

/-- In a session on at least one line no event accesses anything out of bounds. -/
theorem Session.sound {P : State → Event → Prop} (h : Session P s₀ s) (h0 : Sound s₀) : Sound s := by
  induction h with
  | start => exact h0
  | key h hactive hp hkey ih =>
    obtain ⟨⟨⟩, s', hrun, hs⟩ := stable_sound.scancode ih _
    cases hkey.symm.trans hrun
    exact hs

/-- Unless the changes are thrown away, the text on leaving is the one written last, or else the one loaded; and
a write that fails neither ends the editor nor removes the mark. -/
theorem left_kept (hload : initEditor filename result buf size s = some ((), s₀)) (hline : 1 ≤ s₀.totalLines)
    (hrun : Session (fun _ _ => True) s₀ s₁) (hactive : s₁.editorActive = true) (e : Event) :
    ∃ s₂, handleScancode e s₁ = some ((), s₂) ∧ ∃ ws new, s₁.written = s₀.written ++ ws ∧
      s₂.written = s₁.written ++ new ∧
      (s₂.editorActive = false → ¬ Discards s₁ e → s₂.text = lastSaved s₀.text (ws ++ new)) ∧
      ∀ w ∈ new, w.result ≠ .ok → s₂.editorActive = true ∧ s₂.dirty = true := by
  obtain ⟨⟨⟩, s₂, hkey, -⟩ := stable_sound.scancode (hrun.sound (sound_of_load hload hline)) e
  obtain ⟨ws, hk⟩ := hrun.kept hactive
  obtain ⟨new, hnew⟩ := (handleScancode_ends _ _ hkey).keeps hk hactive
  refine ⟨s₂, hkey, ws, new, hk.1, hnew.written, fun hoff hnot => ?_, hnew.failed⟩
  rcases (hnew.kept (.inr hnot)).2 with hdirty | htext
  · cases (hnew.clean hoff).symm.trans hdirty
  · exact htext

/-- Keys pressed one after the other, as long as the editor is active and each event meets the condition. -/
def typing (P : State → Event → Prop) [∀ s e, Decidable (P s e)] : List Event → State → Option State
  | [], s => some s
  | e :: es, s =>
    if s.editorActive = true ∧ P s e then (handleScancode e s).bind fun r => typing P es r.2 else none

theorem session_of_typing {P : State → Event → Prop} [∀ s e, Decidable (P s e)] :
    ∀ (es : List Event) {s : State}, Session P s₀ s → typing P es s = some s₁ → Session P s₀ s₁
  | [], s, h, hrun => by
    cases hrun
    exact h
  | e :: es, s, h, hrun => by
    unfold typing at hrun
    split at hrun
    · next hc =>
      obtain ⟨⟨⟨⟩, s'⟩, hkey, hrest⟩ := Option.bind_eq_some_iff.1 hrun
      exact session_of_typing es (h.key hc.1 hc.2 hkey) hrest
    · cases hrun

/-- The state after keys, where they go through. -/
def typed (P : State → Event → Prop) [∀ s e, Decidable (P s e)] (es : List Event) (s : State) : State :=
  (typing P es s).getD s

theorem session_of_typed {P : State → Event → Prop} [∀ s e, Decidable (P s e)] {es : List Event}
    (h : Session P s₀ s) (hrun : (typing P es s).isSome = true) : Session P s₀ (typed P es s) := by
  obtain ⟨s', hs⟩ := Option.isSome_iff_exists.1 hrun
  refine session_of_typing es h ?_
  unfold typed
  rw [hs]
  rfl

/-- The two bytes of a file. -/
def hi : Buf := fun i => if i = 0 then 104 else 105

/-- The editor before its use, when the next write is going to fail, and those after it to succeed. -/
def failingOnce : State := { State.unused with outcomes := fun k => if k = 0 then .errIo else .ok }

def onHi : State := endOf (initEditor [65] .ok hi 2) failingOnce

theorem onHi_run : initEditor [65] .ok hi 2 failingOnce = some ((), onHi) := run_endOf (by decide +kernel)

/-- A letter typed; then saved twice, another one typed, and Ctrl+X. -/
def editedHi : State := typed (fun _ _ => True) [⟨false, 0x1E, false⟩] onHi

def leavingHi : State :=
  typed (fun _ _ => True) [⟨true, 0x1F, false⟩, ⟨true, 0x1F, false⟩, ⟨false, 0x30, false⟩,
    ⟨true, 0x2D, false⟩] editedHi

theorem editedHi_session : Session (fun _ _ => True) onHi editedHi := session_of_typed .start (by decide +kernel)

theorem leavingHi_session : Session (fun _ _ => True) onHi leavingHi :=
  session_of_typed editedHi_session (by decide +kernel)

/-- The save that fails, and the answer `y` to the save prompt after one that succeeded. -/
theorem left_kept_typed :
    (∃ s₂, handleScancode ⟨true, 0x1F, false⟩ editedHi = some ((), s₂) ∧
      ∃ ws new, editedHi.written = onHi.written ++ ws ∧ s₂.written = editedHi.written ++ new ∧
        (s₂.editorActive = false → ¬ Discards editedHi ⟨true, 0x1F, false⟩ →
          s₂.text = lastSaved onHi.text (ws ++ new)) ∧
        ∀ w ∈ new, w.result ≠ .ok → s₂.editorActive = true ∧ s₂.dirty = true) ∧
      leavingHi.written.map (fun w => w.result) = [.errIo, .ok] ∧
      ∃ s₂, handleScancode ⟨false, 0x15, false⟩ leavingHi = some ((), s₂) ∧
        ∃ ws new, leavingHi.written = onHi.written ++ ws ∧ s₂.written = leavingHi.written ++ new ∧
          (s₂.editorActive = false → ¬ Discards leavingHi ⟨false, 0x15, false⟩ →
            s₂.text = lastSaved onHi.text (ws ++ new)) ∧
          ∀ w ∈ new, w.result ≠ .ok → s₂.editorActive = true ∧ s₂.dirty = true :=
  ⟨left_kept onHi_run (by decide +kernel) editedHi_session (by decide +kernel) _, by decide +kernel,
    left_kept onHi_run (by decide +kernel) leavingHi_session (by decide +kernel) _⟩

example : (handleScancode ⟨false, 0x15, false⟩ leavingHi).map (fun r => (r.2.editorActive, r.2.text)) =
    some (false, [[97, 98, 104, 105]]) := by
  decide +kernel

/-! ## The line with the cursor -/

/-- The line with the cursor is on the screen. -/
def OnScreen (s : State) : Prop :=
  0 ≤ s.viewportY ∧ s.viewportY ≤ s.cursorY ∧ s.cursorY < s.viewportY + viewportHeight

/-- The event takes the cursor off the screen: Enter on the last visible line, or Backspace joining the first
one to the line above. -/
def Unscrolled (s : State) (e : Event) : Prop :=
  Takes s e ∧ (e.scancode = 0x1C ∧ s.totalLines < maxLines ∧ s.cursorY = s.viewportY + (viewportHeight - 1) ∨
    e.scancode = 0x0E ∧ JoinsBack s ∧ s.cursorY = s.viewportY)

theorem OnScreen.shown (hs : Shown s s') (h : OnScreen s ∧ InText s) : OnScreen s' ∧ InText s' := by
  obtain ⟨screen, cursor, msg, theme, prompt, help, rfl⟩ := hs
  exact h

/-- Scrolling to a line of the text brings it on the screen. -/
theorem onScreen_scrolled {y v total : Int} (h0 : 0 ≤ y) (hy : y < total) :
    0 ≤ scrolled y v total ∧ scrolled y v total ≤ y ∧ y < scrolled y v total + viewportHeight := by
  unfold scrolled viewportHeight
  dsimp only
  split_ifs <;> omega

theorem Outcome.onScreen (h : Outcome s e s') (hs : OnScreen s ∧ InText s) (hnot : ¬ Unscrolled s e) :
    OnScreen s' ∧ InText s' := by
  cases h with
  | shown h => exact OnScreen.shown h hs
  | moved x h => exact OnScreen.shown h hs
  | scrolled hsc h =>
    obtain ⟨x, y, hy, rfl⟩ := hsc
    obtain ⟨h0, hlt⟩ := hy hs.2
    exact OnScreen.shown h ⟨onScreen_scrolled h0 hlt, h0, hlt⟩
  | edited hr hed h =>
    obtain ⟨lines, lens, x, rfl⟩ := hed
    obtain ⟨⟨hv, hvy, hyv⟩, h0, hlt⟩ := hs
    refine OnScreen.shown h ?_
    unfold OnScreen InText
    dsimp only
    cases hr with
    | within => exact ⟨⟨hv, hvy, hyv⟩, h0, hlt⟩
    | broken ht he hroom =>
      have hlast : s.cursorY ≠ s.viewportY + (viewportHeight - 1) := fun hl => hnot ⟨ht, .inl ⟨he, hroom, hl⟩⟩
      omega
    | joinedBack ht he hj =>
      have hfirst : s.cursorY ≠ s.viewportY := fun hf => hnot ⟨ht, .inr ⟨he, hj, hf⟩⟩
      have := hj.2.1
      omega
    | joinedNext hlast => omega
  | saved bytes active _ _ h => exact OnScreen.shown h hs
  | failed bytes _ _ h => exact OnScreen.shown h hs
  | left _ h => exact OnScreen.shown h hs
  | discarded _ h => exact OnScreen.shown h hs

/-- In a session on at least one line in which no event takes the cursor off the screen, it is on the screen
throughout. -/
theorem onScreen_of_session (hload : initEditor filename result buf size s = some ((), s₀))
    (hline : 1 ≤ s₀.totalLines) (hrun : Session (fun s e => ¬ Unscrolled s e) s₀ s₁) : OnScreen s₁ := by
  have hl := initEditor_ends _ _ hload
  suffices h : OnScreen s₁ ∧ InText s₁ from h.1
  induction hrun with
  | start =>
    unfold OnScreen InText viewportHeight
    rw [hl.cursorY, hl.viewportY]
    omega
  | key h hactive hp hkey ih => exact (handleScancode_ends _ _ hkey).onScreen ih hp

end

instance (s : State) (e : Event) : Decidable (Takes s e) := inferInstanceAs (Decidable (_ ∧ _ ∧ _))

instance (s : State) : Decidable (JoinsBack s) := inferInstanceAs (Decidable (_ ∧ _ ∧ _))

instance (s : State) (e : Event) : Decidable (Unscrolled s e) := inferInstanceAs (Decidable (_ ∧ (_ ∨ _)))

/-- Enter, a letter, up to the first line and down again, to the start of the line, and Backspace joining the
two. -/
def movedOnHi : State :=
  typed (fun s e => ¬ Unscrolled s e) [⟨false, 0x1C, false⟩, ⟨false, 0x1E, false⟩, ⟨false, 0xE048, false⟩,
    ⟨false, 0xE050, false⟩, ⟨false, 0xE047, false⟩, ⟨false, 0x0E, false⟩] onHi

theorem onScreen_of_session_typed : OnScreen movedOnHi :=
  onScreen_of_session onHi_run (by decide +kernel) (session_of_typed .start (by decide +kernel))

instance (s : State) : Decidable (OnScreen s) := inferInstanceAs (Decidable (_ ∧ _ ∧ _))

/-- The editor after loading 23 empty lines, after Page Down, and after Enter then. -/
def onLines : State := endOf (initEditor [65] .ok (fun _ => newline) 23) State.unused

def onLastLine : State := endOf (handleScancode ⟨false, 0xE051, false⟩) onLines

def belowScreen : State := endOf (handleScancode ⟨false, 0x1C, false⟩) onLastLine

/-- Enter on the last visible line: the new line with the cursor is not on the screen. -/
theorem session_not_onScreen :
    ¬ ∀ (filename : List UInt8) (result : Code) (buf : Buf) (size : Nat) (s s₀ s₁ : State),
      initEditor filename result buf size s = some ((), s₀) → 1 ≤ s₀.totalLines → Session (fun _ _ => True) s₀ s₁ →
      s₁.editorActive = true → OnScreen s₁ := by
  intro h
  have hload : initEditor [65] .ok (fun _ => newline) 23 State.unused = some ((), onLines) :=
    run_endOf (by decide +kernel)
  have hdown : Session (fun _ _ => True) onLines onLastLine :=
    .key .start (by decide +kernel) trivial
      (run_endOf (m := handleScancode ⟨false, 0xE051, false⟩) (by decide +kernel))
  have henter : Session (fun _ _ => True) onLines belowScreen :=
    .key hdown (by decide +kernel) trivial
      (run_endOf (m := handleScancode ⟨false, 0x1C, false⟩) (by decide +kernel))
  exact absurd (h _ _ _ _ _ _ _ hload (by decide +kernel) henter (by decide +kernel)) (by decide +kernel)

end AltoniumOS.Nano

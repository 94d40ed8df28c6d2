/-
The prompt of `prompt.c` on the console: keys, commands and what they print, and along which runs the cursor and
every access stay on the screen.
-/
import AltoniumOS.Console.Screen
import AltoniumOS.Nano.Editor

namespace AltoniumOS.Console

open AltoniumOS.Nano (scancodeToAscii)

def promptBufferSize : Nat := 256

/-- The rows of the editor's text. -/
def nanoViewportHeight : Nat := 23

def backspace : UInt8 := 0x08
def tilde : UInt8 := 0x7E

/-- `shell_context_t` -/
structure Prompt where
  inputBuffer : Nat → UInt8
  inputPos : Nat
  commandExecuted : Bool
  promptLineStartX : Int
  promptLineY : Int

structure Shell where
  display : Display
  prompt : Prompt

/-! ## What a command shows -/

/-- The text the editor has to show: the bytes of the lines in its rows, the pieces of its status line with
their columns, its message, and its cursor. -/
structure EditorView where
  rows : Nat → List UInt8
  status : List (Nat × List UInt8)
  message : List UInt8
  cursorX : Nat
  cursorY : Int

/-- The rows of text, on a screen of spaces. -/
def drawText (v : EditorView) (d : Display) : Display :=
  (List.range nanoViewportHeight).foldl
    (fun d row => d.puts d.textAttr (rowCells (row : Nat) 0 ((v.rows row).take vgaWidth.toNat)))
      (d.puts d.textAttr blankCells)

/-- A row of spaces in the colours of the status line, and text on it. -/
def drawStatus (y : Nat) (pieces : List (Nat × List UInt8)) (d : Display) : Display :=
  pieces.foldl (fun d p => consolePrintToPos y p.1 p.2 d)
    (d.puts d.statusAttr (rowCells y 0 (List.replicate vgaWidth.toNat space)))

/-- `nano_render_editor` -/
def renderEditor (v : EditorView) (d : Display) : Display :=
  let d := drawText v d
  let d := drawStatus nanoViewportHeight v.status d
  let d := drawStatus (nanoViewportHeight + 1) [(0, v.message)] d
  if 0 ≤ v.cursorY ∧ v.cursorY < nanoViewportHeight ∧ (v.cursorX : Int) < vgaWidth then
    updateHardwareCursor v.cursorX v.cursorY d
  else d

/-- A call to the console. The last is the screen an editor opens with. -/
inductive Output where
  | print (str : List UInt8)
  | putchar (c : UInt8)
  | clear
  | setTheme (theme : Int)
  | editor (v : EditorView)

def Output.exec : Output → Display → Display
  | .print str => consolePrint str
  | .putchar c => consolePutchar c
  | .clear => vgaClear
  | .setTheme theme => consoleSetTheme theme
  | .editor v => fun d => renderEditor v (vgaClear d)

/-! ## The functions of `prompt.c` -/

/-- `render_prompt_line` -/
def renderPromptLine (s : Shell) : Shell :=
  let p := s.prompt
  let attr := s.display.textAttr
  let room := (vgaWidth - p.promptLineStartX).toNat
  let d := s.display.puts attr (rowCells p.promptLineY p.promptLineStartX (List.replicate room space))
  let input := (List.range p.inputPos).map p.inputBuffer
  let d := d.puts attr (rowCells p.promptLineY p.promptLineStartX (input.take room))
  let cursorX := p.promptLineStartX + p.inputPos
  -- the mark is kept off the next row; the cursor below is not
  let d := if cursorX < vgaWidth then d.puts attr (rowCells p.promptLineY cursorX [0x3E]) else d
  { s with display := consoleSetCursor cursorX p.promptLineY d }

/-- `prompt_reset` -/
def promptReset (s : Shell) : Shell :=
  { s with prompt := { s.prompt with
      inputPos := 0
      commandExecuted := false
      promptLineStartX := s.display.cursorX
      promptLineY := s.display.cursorY } }

/-- `prompt_handle_scancode`, where `executeCommand` tells what the command of a line shows. -/
def promptHandleScancode (executeCommand : List UInt8 → List Output) (scancode : UInt16) (s : Shell) : Shell :=
  let c := scancodeToAscii scancode
  let p := s.prompt
  if c = newline then
    let d := consolePutchar newline s.display
    let buffer := Function.update p.inputBuffer p.inputPos 0
    let outputs := executeCommand (cString ((List.range promptBufferSize).map buffer))
    ⟨outputs.foldl (fun d o => o.exec d) d,
      { p with inputBuffer := buffer, inputPos := 0, commandExecuted := true }⟩
  else if c = backspace then
    if p.inputPos > 0 then renderPromptLine { s with prompt := { p with inputPos := p.inputPos - 1 } } else s
  else if space ≤ c ∧ c ≤ tilde then
    if p.inputPos < promptBufferSize - 1 then
      renderPromptLine { s with prompt :=
        { p with inputBuffer := Function.update p.inputBuffer p.inputPos c, inputPos := p.inputPos + 1 } }
    else s
  else s

/-- A step of the console: a key, with what the command it may run shows, a call, or a new prompt. -/
inductive Act where
  | key (scancode : UInt16) (executeCommand : List UInt8 → List Output)
  | output (o : Output)
  | reset

def Act.step : Act → Shell → Shell
  | .key scancode executeCommand => promptHandleScancode executeCommand scancode
  | .output o => fun s => { s with display := o.exec s.display }
  | .reset => promptReset

def run (acts : List Act) (s : Shell) : Shell := acts.foldl (fun s a => a.step s) s

/-! ## The length of the line -/

/-- The length of the input a key leaves behind, if it redraws the line. -/
def Prompt.redrawn (p : Prompt) (scancode : UInt16) : Option Nat :=
  let c := scancodeToAscii scancode
  if c = newline then none
  else if c = backspace then if p.inputPos > 0 then some (p.inputPos - 1) else none
  else if space ≤ c ∧ c ≤ tilde then if p.inputPos < promptBufferSize - 1 then some (p.inputPos + 1) else none
  else none

/-- The line a key redraws ends before the right edge. -/
def Act.Fits (s : Shell) : Act → Prop
  | .key scancode _ => ∀ n ∈ s.prompt.redrawn scancode, s.prompt.promptLineStartX + n < vgaWidth
  | _ => True

/-- The input line starts on the screen. -/
def Prompt.Placed (p : Prompt) : Prop := OnScreen p.promptLineStartX p.promptLineY

/-! ## Outputs -/

namespace Display

/-- What is drawn leaves the cursor where it is, and every access on the screen. -/
structure Draws (d e : Display) : Prop where
  cursorX : e.cursorX = d.cursorX
  cursorY : e.cursorY = d.cursorY
  sound : d.Sound → e.Sound

variable {d e : Display}

theorem Draws.trans {e' : Display} (h : Draws d e) (h' : Draws e e') : Draws d e' :=
  ⟨h'.cursorX.trans h.cursorX, h'.cursorY.trans h.cursorY, fun hd => h'.sound (h.sound hd)⟩

theorem Draws.foldl {α : Type} {f : Display → α → Display} {l : List α} (h : ∀ p ∈ l, ∀ e, Draws e (f e p)) :
    Draws d (l.foldl f d) := by
  induction l generalizing d with
  | nil => exact ⟨rfl, rfl, id⟩
  | cons p l ih => exact (h p (by simp) d).trans (ih fun q hq => h q (by simp [hq]))

theorem draws_puts {attr : UInt8} {cells : List (Nat × UInt8)} (hc : ∀ p ∈ cells, p.1 < screenCells) :
    Draws d (d.puts attr cells) := by
  constructor
  · simp
  · simp
  · exact fun h => h.puts hc

theorem draws_printToPos {x y : Int} (hx : 0 ≤ x) (hy : 0 ≤ y ∧ y < vgaHeight) (str : List UInt8) :
    Draws d (consolePrintToPos y x str d) := by
  refine ⟨?_, ?_, fun h => h.printToPos hx hy str⟩
  · simp [consolePrintToPos]
  · simp [consolePrintToPos]

theorem draws_text (v : EditorView) : Draws d (drawText v d) := by
  unfold drawText
  apply (draws_puts blankCells_lt).trans
  apply Draws.foldl
  intro row hr e
  apply draws_puts
  have hrow := List.mem_range.1 hr
  unfold nanoViewportHeight at hrow
  apply rowCells_lt (le_refl 0)
  · unfold vgaHeight
    omega
  · unfold vgaWidth
    simp

theorem draws_status {y : Nat} (hy : (y : Int) < vgaHeight) (pieces : List (Nat × List UInt8)) :
    Draws d (drawStatus y pieces d) := by
  unfold drawStatus
  have hy' : (0 : Int) ≤ y ∧ (y : Int) < vgaHeight := ⟨by omega, hy⟩
  have hblank : 0 + ((List.replicate vgaWidth.toNat space).length : Int) ≤ vgaWidth := by decide
  apply (draws_puts (rowCells_lt (le_refl 0) hy' hblank)).trans
  apply Draws.foldl
  intro p _ e
  exact draws_printToPos (by omega) hy' _

/-- The editor's screen moves no cursor but the hardware's. -/
theorem draws_editor (v : EditorView) : Draws d (renderEditor v d) := by
  have hd := ((draws_text (d := d) v).trans (draws_status (y := nanoViewportHeight) (by decide) v.status)).trans
    (draws_status (y := nanoViewportHeight + 1) (by decide) [(0, v.message)])
  unfold renderEditor
  dsimp only
  split
  · rename_i hc
    refine ⟨hd.cursorX, hd.cursorY, fun h => ?_⟩
    exact (Inside.move (hd.sound h) ⟨by omega, hc.2.2, hc.1, lt_trans hc.2.1 (by decide)⟩).sound
  · exact hd

theorem Draws.inside (h : Draws d e) (hd : d.Inside) : e.Inside := by
  refine ⟨?_, h.sound hd.sound⟩
  rw [h.cursorX, h.cursorY]
  exact hd.cursor

theorem Inside.exec (h : d.Inside) (o : Output) : (o.exec d).Inside := by
  cases o with
  | print str => exact h.print str
  | putchar c => exact h.vgaWriteChar
  | clear => exact h.sound.clear
  | setTheme theme => exact h.setTheme theme
  | editor v => exact (draws_editor v).inside h.sound.clear

theorem Inside.outputs (h : d.Inside) (os : List Output) : (os.foldl (fun d o => o.exec d) d).Inside := by
  induction os generalizing d with
  | nil => exact h
  | cons o l ih => exact ih (h.exec o)

end Display

/-! ## The line -/

section

variable {s : Shell}

/-- The line is drawn up to the right edge, whatever its length; the cursor goes behind it. -/
theorem sound_renderPromptLine (h : s.display.Sound) (hp : s.prompt.Placed) :
    ∃ d : Display, d.Sound ∧ renderPromptLine s =
      { s with display := consoleSetCursor (s.prompt.promptLineStartX +
        s.prompt.inputPos) s.prompt.promptLineY d } := by
  obtain ⟨h1, h2, hy⟩ := hp
  refine ⟨_, ?_, rfl⟩
  have hroom : (vgaWidth - s.prompt.promptLineStartX).toNat = vgaWidth - s.prompt.promptLineStartX := by omega
  have hline : (s.display.puts s.display.textAttr (rowCells s.prompt.promptLineY s.prompt.promptLineStartX
      (List.replicate (vgaWidth - s.prompt.promptLineStartX).toNat space))).Sound :=
    h.puts (Display.rowCells_lt h1 hy (by simp only [List.length_replicate]; omega))
  have hcells : ∀ q ∈ rowCells s.prompt.promptLineY s.prompt.promptLineStartX (((List.range s.prompt.inputPos).map
      s.prompt.inputBuffer).take (vgaWidth - s.prompt.promptLineStartX).toNat), q.1 < screenCells :=
    Display.rowCells_lt h1 hy (by simp only [List.length_take]; omega)
  have hinput := @Display.Sound.puts _ s.display.textAttr hline _ hcells
  split
  · rename_i hx
    exact hinput.puts (Display.rowCells_lt (by omega) hy (by simp only [List.length_singleton]; omega))
  · exact hinput

/-- So it stays on the screen exactly when the line leaves room for it. -/
theorem inside_renderPromptLine_iff (h : s.display.Sound) (hp : s.prompt.Placed) :
    (renderPromptLine s).display.Inside ↔ s.prompt.promptLineStartX + s.prompt.inputPos < vgaWidth := by
  obtain ⟨d, hd, he⟩ := sound_renderPromptLine h hp
  rw [he]
  constructor
  · exact fun hin => hin.cursor.2.1
  · exact fun hlt => Display.Inside.move hd ⟨by have := hp.1; omega, hlt, hp.2.2⟩

/-! ## One step -/

/-- A key ends a line, draws one, or does nothing. -/
theorem handleScancode_cases (executeCommand : List UInt8 → List Output) (scancode : UInt16) (s : Shell) :
    (s.prompt.redrawn scancode = none ∧
      ((∃ os : List Output, (promptHandleScancode executeCommand scancode s).display =
          os.foldl (fun d o => o.exec d) (consolePutchar newline s.display)) ∨
        (promptHandleScancode executeCommand scancode s).display = s.display)) ∨
    ∃ buffer n, s.prompt.redrawn scancode = some n ∧ promptHandleScancode executeCommand scancode s =
      renderPromptLine { s with prompt := { s.prompt with inputBuffer := buffer, inputPos := n } } := by
  unfold Prompt.redrawn promptHandleScancode
  dsimp only
  split
  · exact .inl ⟨rfl, .inl ⟨_, rfl⟩⟩
  · split
    · split
      · exact .inr ⟨_, _, rfl, rfl⟩
      · exact .inl ⟨rfl, .inr rfl⟩
    · split
      · split
        · exact .inr ⟨_, _, rfl, rfl⟩
        · exact .inl ⟨rfl, .inr rfl⟩
      · exact .inl ⟨rfl, .inr rfl⟩

/-- Where the line starts is changed by `prompt_reset` only. -/
theorem Act.placed (a : Act) (h : s.display.Inside) (hp : s.prompt.Placed) : (a.step s).prompt.Placed := by
  cases a with
  | output o => exact hp
  | reset => exact h.cursor
  | key scancode executeCommand =>
    have hline : (promptHandleScancode executeCommand scancode s).prompt.promptLineStartX =
        s.prompt.promptLineStartX ∧ (promptHandleScancode executeCommand scancode s).prompt.promptLineY =
        s.prompt.promptLineY := by
      unfold promptHandleScancode
      dsimp only
      split_ifs <;> exact ⟨rfl, rfl⟩
    unfold Prompt.Placed
    show OnScreen (promptHandleScancode executeCommand scancode s).prompt.promptLineStartX
      (promptHandleScancode executeCommand scancode s).prompt.promptLineY
    rw [hline.1, hline.2]
    exact hp

/-- From a cursor on the screen a step leaves it there exactly when the line it draws, if any, fits. -/
theorem Act.inside_iff (a : Act) (h : s.display.Inside) (hp : s.prompt.Placed) :
    (a.step s).display.Inside ↔ a.Fits s := by
  cases a with
  | output o => exact iff_of_true (h.exec o) trivial
  | reset => exact iff_of_true h trivial
  | key scancode executeCommand =>
    show (promptHandleScancode executeCommand scancode s).display.Inside ↔ ∀ n ∈ s.prompt.redrawn scancode, _
    rcases handleScancode_cases executeCommand scancode s with ⟨hn, hd⟩ | ⟨buffer, n, hn, hs⟩
    · rw [hn]
      refine iff_of_true ?_ (by simp)
      rcases hd with ⟨os, hd⟩ | hd
      · rw [hd]
        exact h.vgaWriteChar.outputs os
      · rw [hd]
        exact h
    · rw [hn, hs]
      have := inside_renderPromptLine_iff
        (s := { s with prompt := { s.prompt with inputBuffer := buffer, inputPos := n } }) h.sound hp
      simpa using this

end

/-! ## Runs -/

theorem prefix_cons_forall {α : Type} {P : List α → Prop} {a : α} {l : List α} :
    (∀ m, m <+: a :: l → P m) ↔ P [] ∧ ∀ m, m <+: l → P (a :: m) := by
  constructor
  · exact fun h => ⟨h [] List.nil_prefix, fun m hm => h _ ((List.prefix_cons_inj a).2 hm)⟩
  · rintro ⟨h0, h1⟩ m hm
    rcases List.prefix_cons_iff.1 hm with rfl | ⟨m', rfl, hm'⟩
    · exact h0
    · exact h1 m' hm'

/-- From a cursor and an input line on the screen, the cursor and every access are on the screen after each step
of a run if and only if each key that redraws its line leaves an input that ends before the right edge. -/
theorem cursor_kept_iff (acts : List Act) (s : Shell) (h : s.display.Inside) (hp : s.prompt.Placed) :
    (∀ done, done <+: acts → (run done s).display.Inside) ↔ ∀ done a, done ++ [a] <+: acts →
      a.Fits (run done s) := by
  induction acts generalizing s with
  | nil =>
    refine iff_of_true (fun done hd => ?_) fun done a hd => ?_
    · rw [List.prefix_nil.1 hd]
      exact h
    · exact absurd (List.prefix_nil.1 hd) (by simp)
  | cons a l ih =>
    rw [prefix_cons_forall]
    -- the first step, and the run from the state behind it
    by_cases hf : a.Fits s
    · have hnext := (a.inside_iff h hp).2 hf
      refine (and_iff_right h).trans
        ((ih (a.step s) hnext (a.placed h hp)).trans ⟨fun hr done b hb => ?_, fun hr done b hb => ?_⟩)
      · cases done with
        | nil =>
          obtain rfl : b = a := by simpa using hb
          exact hf
        | cons c m =>
          obtain ⟨rfl, hm⟩ := List.cons_prefix_cons.1 hb
          exact hr m b hm
      · exact hr (a :: done) b ((List.prefix_cons_inj a).2 hb)
    · refine iff_of_false (fun hr => hf ?_) fun hr => hf ?_
      · exact (a.inside_iff h hp).1 (hr.2 [] List.nil_prefix)
      · exact hr [] a (by simp)

/-- A prompt at the top of an empty screen. -/
def topPrompt : Shell := ⟨⟨0, 0, 0, []⟩, ⟨fun _ => 0, 0, false, 0, 0⟩⟩

theorem top_inside : topPrompt.display.Inside ∧ topPrompt.prompt.Placed :=
  ⟨⟨onScreen_origin, by intro a ha; cases ha⟩, onScreen_origin⟩

/-- A letter typed. -/
def letterKey : Act := .key 0x1E fun _ => []

/-- 79 letters, which leave the last column free. -/
theorem cursor_kept_iff_top : topPrompt.display.Inside ∧ topPrompt.prompt.Placed ∧
    ∀ done, done <+: List.replicate 79 letterKey → (run done topPrompt).display.Inside := by
  have hfits : ∀ k < 79, ∀ n ∈ (run (List.replicate k letterKey) topPrompt).prompt.redrawn 0x1E,
      (run (List.replicate k letterKey) topPrompt).prompt.promptLineStartX + (n : Int) < vgaWidth := by
        decide +kernel
  refine ⟨top_inside.1, top_inside.2, (cursor_kept_iff _ _ top_inside.1 top_inside.2).2 fun done a hd => ?_⟩
  obtain ⟨hlen, he⟩ := List.prefix_replicate_iff.1 hd
  rw [List.length_append, List.length_singleton, List.replicate_succ'] at he
  obtain ⟨hdone, ha⟩ := List.append_inj' he rfl
  obtain rfl : a = letterKey := by simpa using ha
  rw [List.length_append, List.length_singleton] at hlen
  rw [hdone]
  exact hfits _ (by omega)

/-- After 80 letters at the prompt the cursor is in column 80. -/
theorem cursor_not_kept :
    ¬ ∀ (acts : List Act) (s : Shell), s.display.Inside → s.prompt.Placed → (run acts s).display.Inside := by
  intro h
  have hx := (h (List.replicate 80 (.key 0x1E fun _ => [])) topPrompt top_inside.1 top_inside.2).cursor.2.1
  exact absurd hx (by decide +kernel)

end AltoniumOS.Console

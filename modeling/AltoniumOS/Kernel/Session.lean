/-
The shell as its user has it: a line being typed, and an editor now and then. The machine with its input buffer,
its position in it and its flag for a command executed is this shell, along every stream of keys and whatever
the file system answers.
-/
import AltoniumOS.Kernel.Machine

namespace AltoniumOS.Kernel

open AltoniumOS.Lib AltoniumOS.Console
open AltoniumOS.Nano (scancodeToAscii)

/-! ## Lines -/

/-- A line that can be typed. -/
abbrev Line := {l : List UInt8 // PromptLine l}

namespace Line

def empty : Line := ⟨[], ⟨by decide, fun _ hc => nomatch hc⟩⟩

/-- Without its last character. -/
def erase (l : Line) : Line :=
  ⟨l.1.dropLast,
    ⟨(List.dropLast_sublist l.1).length_le.trans l.2.length, fun c hc =>
      l.2.printable c (List.mem_of_mem_dropLast hc)⟩⟩

/-- With one more character. -/
def add (l : Line) (c : UInt8) (hc : space ≤ c ∧ c ≤ tilde) (hroom : l.1.length < promptBufferSize - 1) : Line := by
  refine ⟨l.1 ++ [c], ?_, fun b hb => ?_⟩
  · rw [List.length_append, List.length_singleton]
    exact hroom
  · rcases List.mem_append.1 hb with hb | hb
    · exact l.2.printable b hb
    · rw [List.mem_singleton.1 hb]
      exact hc

end Line

/-! ## The shell -/

/-- The line drawn from a place on the screen, with the mark behind it. -/
def drawLine (x y : Int) (line : List UInt8) (d : Display) : Display :=
  let attr := d.textAttr
  let room := (vgaWidth - x).toNat
  let d := d.puts attr (rowCells y x (List.replicate room space))
  let d := d.puts attr (rowCells y x (line.take room))
  let d := if x + line.length < vgaWidth then d.puts attr (rowCells y (x + line.length) [0x3E]) else d
  consoleSetCursor (x + line.length) y d

/-- The shell: what is on the screen, the line typed so far and where it begins, and the keys held. -/
structure Session where
  desk : Desk
  display : Display
  startX : Int
  startY : Int
  line : Line
  keyboard : KeyboardState

namespace Session

/-- Another line in place of the one typed. -/
def retype (s : Session) (line : Line) : Session :=
  { s with line := line, display := drawLine s.startX s.startY line.1 s.display }

/-- The screen after a command, and a new line begun where the cursor stands. -/
def answered (s : Session) (desk : Desk) (outputs : List Output) : Session :=
  let d := outputs.foldl (fun d o => o.exec d) (consolePutchar newline s.display)
  if desk.halted then { s with desk := desk, display := d, line := .empty }
  else { s with
    desk := desk
    display := drawLine d.cursorX d.cursorY [] d
    startX := d.cursorX
    startY := d.cursorY
    line := .empty }

/-- A character typed: Enter runs the line. -/
def type (r : Report) (c : UInt8) (s : Session) : Program (Option Session) :=
  if c = newline then do
    let ran ← executeCommand r s.display.currentTheme s.desk s.line.1
    pure (ran.map fun (desk, outputs) => s.answered desk outputs)
  else if c = backspace then pure (some (if s.line.1 = [] then s else s.retype s.line.erase))
  else if hc : space ≤ c ∧ c ≤ tilde then
    if hroom : s.line.1.length < promptBufferSize - 1 then pure (some (s.retype (s.line.add c hc hroom)))
      else pure (some s)
  else pure (some s)

/-- A key of the editor. -/
def edit (e : Nano.Event) (s : Session) : Program (Option Session) := do
  match ← nanoHandleScancode e s.desk with
  | none => pure none
  | some desk =>
    let cwd ← cwdOnExit desk
    pure (some { s with desk := desk, display := editorDisplay s.desk.editor desk.editor e cwd s.display })

/-- A byte of the keyboard. -/
def turn (r : Report) (raw : UInt8) (s : Session) : Program (Option Session) :=
  if s.desk.halted then pure (some s)
  else if raw = 0xE0 then pure (some { s with keyboard := { s.keyboard with extendedScancodePending := true } })
  else
    let scancode := scancodeOf s.keyboard.extendedScancodePending raw
    let s := { s with keyboard := { s.keyboard with extendedScancodePending := false } }
    if raw &&& 0x7F = 0x1D then pure (some { s with keyboard := { s.keyboard with ctrlPressed := !isRelease raw } })
    else if s.desk.editor.editorActive then s.edit ⟨s.keyboard.ctrlPressed, scancode, isRelease raw⟩
    else if isRelease raw then pure (some s)
    else s.type r (scancodeToAscii scancode)

theorem turn_halted {s : Session} (h : s.desk.halted = true) (r : Report) (raw : UInt8) :
    s.turn r raw = pure (some s) := if_pos h

end Session

def sessionTurn (key : Report × UInt8) : Option Session → Program (Option Session)
  | some s => s.turn key.1 key.2
  | none => pure none

/-! ## The machine is this shell -/

/-- The machine shows the shell: its buffer holds the line. -/
structure Machine.Shows (m : Machine) (s : Session) : Prop where
  desk : m.desk = s.desk
  display : m.shell.display = s.display
  startX : m.shell.prompt.promptLineStartX = s.startX
  startY : m.shell.prompt.promptLineY = s.startY
  position : m.shell.prompt.inputPos = s.line.1.length
  buffer : (List.range m.shell.prompt.inputPos).map m.shell.prompt.inputBuffer = s.line.1
  waiting : m.desk.halted = false → m.shell.prompt.commandExecuted = false
  keyboard : m.keyboard = s.keyboard

section

variable {m : Machine} {s : Session} {r : Report} {raw c : UInt8} {p : Prompt} {line : List UInt8}

theorem renderPromptLine_eq (d : Display) (hlen : p.inputPos = line.length)
    (hline : (List.range p.inputPos).map p.inputBuffer = line) :
    renderPromptLine ⟨d, p⟩ = ⟨drawLine p.promptLineStartX p.promptLineY line d, p⟩ := by
  unfold renderPromptLine drawLine
  dsimp only
  rw [hline, hlen]

/-- The characters behind the line do not matter to it. -/
theorem range_map_update (b : Nat → UInt8) (n : Nat) (c : UInt8) :
    (List.range n).map (Function.update b n c) = (List.range n).map b :=
  List.map_congr_left fun _ hi => Function.update_of_ne (List.mem_range.1 hi).ne _ _

/-- Enter hands over the line, whole. -/
theorem Machine.Shows.line_eq (h : m.Shows s) : m.line = s.line.1 := by
  have hlt : m.shell.prompt.inputPos < promptBufferSize := by
    rw [h.position]
    exact Nat.lt_of_le_of_lt s.line.2.length (by decide)
  have hsplit : List.range promptBufferSize = List.range m.shell.prompt.inputPos ++
      m.shell.prompt.inputPos ::
      (List.range' (m.shell.prompt.inputPos + 1) (promptBufferSize - m.shell.prompt.inputPos - 1)) := by
    have happ :=
      List.range'_append_1 (s := 0) (m := m.shell.prompt.inputPos)
        (n := promptBufferSize - m.shell.prompt.inputPos - 1 + 1)
    rw [Nat.zero_add] at happ
    rw [List.range_eq_range', List.range_eq_range', ← List.range'_succ, happ]
    congr 1
    omega
  unfold Machine.line cString
  rw [hsplit, List.map_append, List.map_cons, range_map_update, h.buffer, Function.update_self]
  have hall : ∀ c ∈ s.line.1, decide (c ≠ 0) = true := fun c hc => decide_eq_true (s.line.2.char hc).1
  rw [List.takeWhile_append_of_pos hall, List.takeWhile_cons_of_neg (by decide), List.append_nil]

/-- A line redrawn. -/
theorem Machine.Shows.retype (h : m.Shows s) (hh : m.desk.halted = false) {line : Line} {b : Nat → UInt8} {n : Nat}
    (hn : n = line.1.length) (hb : (List.range n).map b = line.1) :
    Machine.Shows { m with
      shell := renderPromptLine { m.shell with prompt := { m.shell.prompt with inputBuffer := b, inputPos := n } } }
      (s.retype line) := by
  have heq :
      renderPromptLine { m.shell with prompt := { m.shell.prompt with inputBuffer := b, inputPos := n } } = _ :=
    renderPromptLine_eq m.shell.display hn hb
  rw [heq]
  refine ⟨h.desk, ?_, h.startX, h.startY, hn, hb, fun _ => h.waiting hh, h.keyboard⟩
  show drawLine m.shell.prompt.promptLineStartX m.shell.prompt.promptLineY line.1 m.shell.display = _
  rw [h.startX, h.startY, h.display]
  rfl

/-- The loop turns to the next key without a new line. -/
def Machine.next (m : Machine) : Program (Option Machine) :=
  if m.desk.halted = false ∧ m.shell.prompt.commandExecuted then pure (some { m with shell := newPrompt m.shell })
    else pure (some m)

theorem Machine.Shows.next (h : m.Shows s) : m.next = pure (some m) := by
  refine if_neg fun hc => ?_
  rw [h.waiting hc.1] at hc
  exact absurd hc.2 Bool.false_ne_true

theorem Machine.Shows.withKeyboard (h : m.Shows s) (k : KeyboardState) :
    Machine.Shows { m with keyboard := k } { s with keyboard := k } :=
  ⟨h.desk, h.display, h.startX, h.startY, h.position, h.buffer, h.waiting, rfl⟩

theorem alike_done (h : m.Shows s) : Client.Alike (Option.Rel Machine.Shows) m.next (pure (some s)) := by
  rw [h.next]
  exact .done (.some h)

/-- A new prompt, behind whatever was printed. -/
theorem shows_newPrompt (desk : Desk) (d : Display) (p : Prompt) (k : KeyboardState) :
    Machine.Shows ⟨desk, newPrompt ⟨d, p⟩, k⟩ ⟨desk, drawLine d.cursorX d.cursorY [] d, d.cursorX, d.cursorY,
      .empty, k⟩ := by
  unfold newPrompt promptReset
  rw [renderPromptLine_eq _ (show 0 = ([] : List UInt8).length from rfl) rfl]
  exact ⟨rfl, rfl, rfl, rfl, rfl, rfl, fun _ => rfl, rfl⟩

/-- What a command printed, and the new line behind it. -/
theorem alike_answered (h : m.Shows s) {scancode : UInt16} (hc : scancodeToAscii scancode = newline) (desk : Desk)
    (outputs : List Output) : Client.Alike (Option.Rel Machine.Shows)
      (Machine.next { m with desk := desk, shell := promptHandleScancode (fun _ => outputs) scancode m.shell })
      (pure (some (s.answered desk outputs))) := by
  have hshell : promptHandleScancode (fun _ => outputs) scancode m.shell =
      ⟨outputs.foldl (fun d o => o.exec d) (consolePutchar newline s.display), { m.shell.prompt with
        inputBuffer := Function.update m.shell.prompt.inputBuffer m.shell.prompt.inputPos 0
        inputPos := 0
        commandExecuted := true }⟩ := by
    unfold promptHandleScancode
    rw [hc, if_pos rfl, h.display]
  rw [hshell]
  unfold Machine.next Session.answered
  cases hhalt : desk.halted with
  | true =>
    rw [if_neg fun hc => absurd hc.1 (by decide), if_pos rfl]
    exact .done (.some ⟨rfl, rfl, h.startX, h.startY, rfl, rfl, fun hf => absurd (hhalt.symm.trans hf) (by decide),
      h.keyboard⟩)
  | false =>
    rw [if_pos ⟨rfl, rfl⟩, if_neg (by decide), ← h.keyboard]
    exact .done (.some (shows_newPrompt ..))

/-- A character at the prompt. -/
theorem alike_type (h : m.Shows s) (hh : m.desk.halted = false) (r : Report) (scancode : UInt16) :
    Client.Alike (Option.Rel Machine.Shows) (handleConsoleScancode r scancode m >>= fun o => match o
      with | none => pure none | some m => m.next) (s.type r (scancodeToAscii scancode)) := by
  unfold handleConsoleScancode Session.type
  by_cases hc : scancodeToAscii scancode = newline
  · rw [if_pos hc, if_pos hc, Client.bind_assoc, h.display, h.desk, h.line_eq]
    refine .after _ fun ran => ?_
    cases ran with
    | none => exact .done .none
    | some ran => exact alike_answered h hc ran.1 ran.2
  rw [if_neg hc, if_neg hc]
  show Client.Alike _ (Machine.next { m with shell := promptHandleScancode (fun _ => []) scancode m.shell }) _
  unfold promptHandleScancode
  dsimp only
  rw [if_neg hc]
  have hlen := congrArg List.length h.buffer
  rw [List.length_map, List.length_range] at hlen
  by_cases hb : scancodeToAscii scancode = backspace
  · rw [if_pos hb, if_pos hb]
    by_cases hnil : s.line.1 = []
    · rw [if_pos hnil, if_neg (by rw [hlen, hnil]; decide)]
      exact alike_done h
    · have hpos := List.length_pos_iff.2 hnil
      rw [if_neg hnil, if_pos (by omega)]
      refine alike_done (h.retype hh ?_ ?_)
      · rw [hlen]
        exact List.length_dropLast.symm
      · show _ = s.line.1.dropLast
        obtain ⟨n, hn⟩ : ∃ n, m.shell.prompt.inputPos = n + 1 := ⟨m.shell.prompt.inputPos - 1, by omega⟩
        have hline := h.buffer
        rw [hn, List.range_succ, List.map_append, List.map_singleton] at hline
        rw [hn, ← hline, List.dropLast_concat]
        rfl
  rw [if_neg hb, if_neg hb]
  by_cases hp : space ≤ scancodeToAscii scancode ∧ scancodeToAscii scancode ≤ tilde
  · rw [if_pos hp, dif_pos hp]
    by_cases hroom : s.line.1.length < promptBufferSize - 1
    · rw [dif_pos hroom, if_pos (by omega)]
      refine alike_done (h.retype hh ?_ ?_)
      · show _ = (s.line.1 ++ [_]).length
        rw [hlen, List.length_append, List.length_singleton]
      · show _ = s.line.1 ++ [scancodeToAscii scancode]
        rw [List.range_succ, List.map_append, range_map_update, h.buffer, List.map_singleton, Function.update_self]
    · rw [dif_neg hroom, if_neg (by omega)]
      exact alike_done h
  · rw [if_neg hp, dif_neg hp]
    exact alike_done h

/-- A key of the editor. -/
theorem alike_edit (h : m.Shows s) (hh : m.desk.halted = false) (e : Nano.Event) :
    Client.Alike (Option.Rel Machine.Shows) (handleEditorKey e m >>= fun o => match o
      with | none => pure none | some m => m.next) (s.edit e) := by
  unfold handleEditorKey Session.edit
  rw [Client.bind_assoc, h.desk]
  refine .after _ fun ran => ?_
  cases ran with
  | none => exact .done .none
  | some desk =>
    dsimp only
    rw [Client.bind_assoc]
    refine .after _ fun cwd => ?_
    have hshows :
        Machine.Shows
          { m with
            desk := desk
            shell := { m.shell with display := editorDisplay s.desk.editor desk.editor e cwd m.shell.display } }
        { s with desk := desk, display := editorDisplay s.desk.editor desk.editor e cwd s.display } := by
      refine ⟨rfl, ?_, h.startX, h.startY, h.position, h.buffer, fun _ => h.waiting hh, h.keyboard⟩
      rw [h.display]
    exact alike_done hshows

/-- A byte of the keyboard does to the machine what it does to the shell. -/
theorem alike_turn (h : m.Shows s) (r : Report) (raw : UInt8) :
    Client.Alike (Option.Rel Machine.Shows) (keyTurn r raw m) (s.turn r raw) := by
  obtain ⟨desk, display, startX, startY, line, keyboard⟩ := s
  obtain rfl : m.desk = desk := h.desk
  obtain rfl : m.keyboard = keyboard := h.keyboard
  unfold keyTurn Session.turn
  cases hh : m.desk.halted with
  | true => exact .done (.some h)
  | false =>
    rw [if_neg Bool.false_ne_true, if_neg Bool.false_ne_true]
    show Client.Alike _ (handleKeyboardInput r raw m >>= fun o => match o
      with | none => pure none | some m => m.next) _
    unfold handleKeyboardInput
    by_cases hprefix : raw = 0xE0
    · rw [if_pos hprefix, if_pos hprefix]
      exact alike_done (h.withKeyboard _)
    rw [if_neg hprefix, if_neg hprefix]
    dsimp only
    have hk := h.withKeyboard { m.keyboard with extendedScancodePending := false }
    by_cases hctrl : raw &&& 0x7F = 0x1D
    · rw [if_pos hctrl, if_pos hctrl]
      exact alike_done (h.withKeyboard _)
    rw [if_neg hctrl, if_neg hctrl]
    cases hactive : m.desk.editor.editorActive with
    | true =>
      rw [if_pos rfl, if_pos rfl]
      exact alike_edit hk hh _
    | false =>
      rw [if_neg Bool.false_ne_true, if_neg Bool.false_ne_true]
      cases hrel : isRelease raw with
      | true => exact alike_done hk
      | false =>
        rw [if_neg Bool.false_ne_true, if_neg Bool.false_ne_true]
        exact alike_type hk hh r _

theorem alike_kernelTurn (key : Report × UInt8) (m : Option Machine) (s : Option Session)
    (h : Option.Rel Machine.Shows m s) :
    Client.Alike (Option.Rel Machine.Shows) (kernelTurn key m) (sessionTurn key s) := by
  cases h with
  | some h => exact alike_turn h key.1 key.2
  | none => exact .done .none

end

/-- A report of nothing. -/
def quietReport : Report where
  bootMode := .unknown
  memory := fun _ => 0
  diskInit := 0
  sectorRead := (0, fun _ => 0)
  selfTestRead := (0, fun _ => 0)
  stats := ⟨0, 0, 0, 0, 0, 0⟩
  devices := []
  buildDate := []
  buildTime := []

/-- A machine at an empty prompt. -/
def machineAt (desk : Desk) : Machine :=
  ⟨desk, newPrompt ⟨firstDisplay, ⟨fun _ => 0, 0, false, 0, 0⟩⟩, ⟨false, false⟩⟩

/-- Whatever answers its calls, the machine goes along any keys as the shell does: with the same line, screen
and editor, it runs the same commands. -/
theorem session_of_history {σ : Type} {step : σ → (q : Fat12.Call) → q.Answer → σ → Prop} {m : Machine}
    {z : Session} (h : m.Shows z) {s s' : σ} {m' : Option Machine} {keys : List (Report × UInt8)}
    (hist : History (Client.Handles step kernelTurn) (some m, s) keys (m', s')) :
    ∃ z', History (Client.Handles step sessionTurn) (some z, s) keys (z', s') ∧ Option.Rel Machine.Shows m' z' :=
  Client.history_alike alike_kernelTurn hist (.some h)

/-- A storage at its root that finds no file, and keeps nothing. -/
def findsNothing (_ : Unit) : (q : Fat12.Call) → q.Answer × Unit
  | .iterateCurrentDirectory _ ctx => ((.ok, ctx), ())
  | .iteratePath _ _ ctx => ((.ok, ctx), ())
  | .changeDirectory _ => (.errNotFound, ())
  | .getCwd => ([0x2F], ())
  | .readFile .. => ((.errNotFound, none, none), ())
  | .change _ => (.ok, ())
  | .flush => (.ok, ())

/-- The keys of `pwd` and Enter, of `nano a` and Enter, and of `x` in the editor. -/
def typedKeys : List (Report × UInt8) :=
  [0x19, 0x11, 0x20, 0x1C, 0x31, 0x1E, 0x31, 0x18, 0x39, 0x1E, 0x1C, 0x2D].map fun raw => (quietReport, raw)

/-- The machine after these keys. -/
@[irreducible] def afterKeys : Option Machine × Unit :=
  typedKeys.foldl (fun k key => (kernelTurn key k.1).run findsNothing k.2)
    (some (machineAt ⟨true, fun _ => 0, Nano.State.unused, false⟩), ())

theorem afterKeys_history : History (Client.Handles (fun s q r s' => (r, s') = findsNothing s q) kernelTurn)
    (some (machineAt ⟨true, fun _ => 0, Nano.State.unused, false⟩), ()) typedKeys (afterKeys.1, afterKeys.2) := by
  rw [Prod.mk.eta]
  unfold afterKeys
  exact Client.history_run ..

theorem session_of_history_typed :
    afterKeys.1.map (fun m => (m.desk.editor.editorActive, m.desk.editor.filename, m.desk.editor.text)) =
      some (true, [0x61], [[0x78]]) ∧
    ∃ z z', History (Client.Handles (fun s q r s' => (r, s') = findsNothing s q) sessionTurn) (some z, ()) typedKeys
      (z', afterKeys.2) ∧ Option.Rel Machine.Shows afterKeys.1 z' := by
  refine ⟨by decide +kernel, ?_⟩
  obtain ⟨z', hist', hrel⟩ := session_of_history (shows_newPrompt ..) afterKeys_history
  exact ⟨_, z', hist', hrel⟩

end AltoniumOS.Kernel

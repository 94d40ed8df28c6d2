/-
The editor of `shell/nano.c`: its state, the operations on the text, and the handling of key events.

The two arrays `lines` and `line_lengths` are total functions, and every access the code makes to them is
checked against the sizes they have in C. What `fat12_write_file` answers is not decided here: `outcomes`
are the results of the calls to come, and `written` records the calls made. Of the screen the text rows
and the hardware cursor are kept; the status rows and the console output on leaving are not.
-/
import AltoniumOS.Lib.Checked
import AltoniumOS.Lib.Bytes
import AltoniumOS.Fat12.Entry

namespace AltoniumOS.Nano

open AltoniumOS.Lib
open AltoniumOS.Fat12 (Code)

/-- `NANO_MAX_LINES` -/
def maxLines : Nat := 1000
/-- `NANO_MAX_LINE_LENGTH` -/
def maxLineLength : Nat := 200
/-- `NANO_VIEWPORT_HEIGHT` -/
def viewportHeight : Nat := 23
/-- `VGA_WIDTH` -/
def vgaWidth : Nat := 80
/-- `FS_IO_BUFFER_SIZE` -/
def ioBufferSize : Nat := 16384
/-- `THEME_COUNT` -/
def themeCount : Nat := 3

def newline : UInt8 := 0x0A
def carriageReturn : UInt8 := 0x0D
def space : UInt8 := 0x20
def tilde : UInt8 := 0x7E
def tab : UInt8 := 0x09

/-- `NANO_PROMPT_NONE`, `NANO_PROMPT_SAVE_CONFIRM` -/
inductive PromptState where
  | none
  | saveConfirm
  deriving DecidableEq, Repr

/-- `NANO_EXIT_DISCARD`, `NANO_EXIT_SAVE` -/
inductive ExitAction where
  | discard
  | save
  deriving DecidableEq, Repr

/-- A call of `fat12_write_file`: what it was given, the text the editor held, and what it returned. -/
structure Write where
  filename : List UInt8
  bytes : List UInt8
  text : List (List UInt8)
  result : Code

/-- `nano_state_t`, with what the editor sees and changes of its surroundings. -/
structure State where
  editorActive : Bool
  filename : List UInt8
  lines : Nat → Buf
  lineLengths : Nat → Int
  totalLines : Int
  cursorX : Int
  cursorY : Int
  viewportY : Int
  dirty : Bool
  promptState : PromptState
  statusMessage : String
  helpOverlayVisible : Bool
  theme : Nat
  screen : Nat → Buf
  hardwareCursor : Int × Int
  outcomes : Nat → Code
  written : List Write

/-- The editor before its first use, and every write going to succeed. -/
def State.unused : State where
  editorActive := false
  filename := []
  lines _ _ := 0
  lineLengths _ := 0
  totalLines := 0
  cursorX := 0
  cursorY := 0
  viewportY := 0
  dirty := false
  promptState := .none
  statusMessage := ""
  helpOverlayVisible := false
  theme := 0
  screen _ _ := 0
  hardwareCursor := (0, 0)
  outcomes _ := .ok
  written := []

/-- The text: of each line the bytes its length counts. -/
def State.text (s : State) : List (List UInt8) :=
  (List.range s.totalLines.toNat).map fun i => (List.range (s.lineLengths i).toNat).map (s.lines i)

abbrev M := Checked State

/-! ## Checked accesses -/

/-- `line_lengths[i]` -/
def getLength (i : Int) : M Int := do
  let k ← index maxLines i
  let s ← get
  pure (s.lineLengths k)

/-- `line_lengths[i] = v` -/
def setLength (i v : Int) : M Unit := do
  let k ← index maxLines i
  modify fun s => { s with lineLengths := Function.update s.lineLengths k v }

/-- `lines[i][j]` -/
def getChar (i j : Int) : M UInt8 := do
  let k ← index maxLines i
  let m ← index maxLineLength j
  let s ← get
  pure (s.lines k m)

/-- `lines[i][j] = c` -/
def setChar (i j : Int) (c : UInt8) : M Unit := do
  let k ← index maxLines i
  let m ← index maxLineLength j
  modify fun s => { s with lines := Function.update s.lines k (Function.update (s.lines k) m c) }

/-- `strcpy_impl(lines[i] + j, lines[k] + j)`, with `n` bytes of the row left. -/
def copyLine (i k : Int) : Nat → Int → M Unit
  | 0, _ => accessError
  | n + 1, j => do
    let c ← getChar k j
    setChar i j c
    if c = 0 then pure () else copyLine i k n (j + 1)

/-- `line_lengths[i] = line_lengths[k]; strcpy_impl(lines[i], lines[k]);` -/
def moveLine (i k : Int) : M Unit := do
  setLength i (← getLength k)
  copyLine i k maxLineLength 0

/-! ## Messages, scrolling and drawing -/

/-- `nano_set_status_message` -/
def setStatusMessage (msg : String) : M Unit :=
  modify fun s => { s with statusMessage := String.ofList (msg.toList.take vgaWidth) }

/-- `nano_reset_status_message` -/
def resetStatusMessage : M Unit := modify fun s => { s with statusMessage := "" }

/-- The new `viewport_y` of `nano_scroll_to_cursor`. -/
def scrolled (cursorY viewportY totalLines : Int) : Int :=
  let viewportY :=
    if cursorY < viewportY then cursorY
    else if cursorY ≥ viewportY + viewportHeight then cursorY - viewportHeight + 1
    else viewportY
  let viewportY := if viewportY < 0 then 0 else viewportY
  let viewportY := if viewportY > totalLines - viewportHeight then totalLines - viewportHeight else viewportY
  if viewportY < 0 then 0 else viewportY

/-- `nano_scroll_to_cursor` -/
def scrollToCursor : M Unit := modify fun s => { s with viewportY := scrolled s.cursorY s.viewportY s.totalLines }

/-- One row of the text, drawn. -/
def renderRow (row : Int) : M Unit := do
  let s ← get
  let lineIndex := s.viewportY + row
  if lineIndex ≥ 0 ∧ lineIndex < s.totalLines then
    let len ← getLength lineIndex
    forUp 0 (min len vgaWidth) fun col => do
      let c ← getChar lineIndex col
      modify fun s =>
        { s with screen := Function.update s.screen row.toNat (Function.update (s.screen row.toNat) col.toNat c) }
  else pure ()

/-- The hardware cursor, when the cursor is on the screen. -/
def placeCursor (s : State) : State :=
  let screenY := s.cursorY - s.viewportY
  if screenY ≥ 0 ∧ screenY < viewportHeight ∧ s.cursorX < vgaWidth
    then { s with hardwareCursor := (s.cursorX, screenY) } else s

/-- `nano_render_editor`: the text rows and the cursor. -/
def renderEditor : M Unit := do
  modify fun s => { s with screen := fun _ _ => space }
  forUp 0 viewportHeight renderRow
  modify placeCursor

/-! ## Editing -/

/-- `nano_insert_char` -/
def insertChar (c : UInt8) : M Unit := do
  let s ← get
  if s.cursorY ≥ maxLines then pure ()
  else
    let len ← getLength s.cursorY
    if s.cursorX ≥ len ∧ s.cursorX < maxLineLength - 1 then
      setChar s.cursorY s.cursorX c
      setChar s.cursorY (s.cursorX + 1) 0
      setLength s.cursorY (len + 1)
      modify fun s => { s with cursorX := s.cursorX + 1 }
    else if s.cursorX < len ∧ s.cursorX < maxLineLength - 1 then
      forDown len s.cursorX fun i =>
        if i < maxLineLength - 1 then do setChar s.cursorY i (← getChar s.cursorY (i - 1)) else pure ()
      setChar s.cursorY s.cursorX c
      if len < maxLineLength - 1 then setLength s.cursorY (len + 1) else pure ()
      setChar s.cursorY (← getLength s.cursorY) 0
      modify fun s => { s with cursorX := s.cursorX + 1 }
    else pure ()
    modify fun s => { s with dirty := true }

/-- The joining of line `y + 1` to line `y`, whose lengths are given. -/
def joinLines (y len nextLen : Int) : M Unit := do
  forUp 0 nextLen fun i => do setChar y (len + i) (← getChar (y + 1) i)
  setLength y (len + nextLen)
  setChar y (len + nextLen) 0
  let s ← get
  forUp (y + 1) (s.totalLines - 1) fun i => moveLine i (i + 1)
  modify fun s => { s with totalLines := s.totalLines - 1 }

/-- `nano_handle_backspace` -/
def handleBackspace : M Unit := do
  let s ← get
  if s.cursorY ≥ maxLines then pure ()
  else
    if s.cursorX > 0 then
      let len ← getLength s.cursorY
      forUp (s.cursorX - 1) len fun i => do setChar s.cursorY i (← getChar s.cursorY (i + 1))
      if len > 0 then setLength s.cursorY (len - 1) else pure ()
      setChar s.cursorY (← getLength s.cursorY) 0
      modify fun s => { s with cursorX := s.cursorX - 1 }
    else if s.cursorY > 0 then
      let prevLineLen ← getLength (s.cursorY - 1)
      let currentLineLen ← getLength s.cursorY
      if prevLineLen + currentLineLen < maxLineLength then
        joinLines (s.cursorY - 1) prevLineLen currentLineLen
        modify fun s => { s with cursorY := s.cursorY - 1, cursorX := prevLineLen }
      else pure ()
    else pure ()
    modify fun s => { s with dirty := true }

/-- `nano_handle_enter` -/
def handleEnter : M Unit := do
  let s ← get
  if s.totalLines ≥ maxLines then pure ()
  else
    let currentLineLen ← getLength s.cursorY
    forDown s.totalLines (s.cursorY + 1) fun i => moveLine i (i - 1)
    forUp s.cursorX currentLineLen fun i => do setChar (s.cursorY + 1) (i - s.cursorX) (← getChar s.cursorY i)
    let newLineLen := max 0 (currentLineLen - s.cursorX)
    setChar (s.cursorY + 1) newLineLen 0
    setLength (s.cursorY + 1) newLineLen
    setChar s.cursorY s.cursorX 0
    setLength s.cursorY s.cursorX
    modify fun s => { s with totalLines := s.totalLines + 1, cursorY := s.cursorY + 1, cursorX := 0, dirty := true }

/-- `nano_handle_delete` -/
def handleDelete : M Unit := do
  let s ← get
  if s.cursorY ≥ maxLines ∨ s.cursorY ≥ s.totalLines then pure ()
  else
    let lineLen ← getLength s.cursorY
    if s.cursorX < lineLen then
      forUp s.cursorX (lineLen - 1) fun i => do setChar s.cursorY i (← getChar s.cursorY (i + 1))
      setLength s.cursorY (lineLen - 1)
      setChar s.cursorY (lineLen - 1) 0
      modify fun s => { s with dirty := true }
    else if s.cursorY < s.totalLines - 1 then
      let nextLineLen ← getLength (s.cursorY + 1)
      if lineLen + nextLineLen < maxLineLength then
        joinLines s.cursorY lineLen nextLineLen
        modify fun s => { s with dirty := true }
      else pure ()
    else pure ()

/-! ## Moving -/

/-- `nano_move_cursor` -/
def moveCursor (dx dy : Int) : M Unit := do
  let s ← get
  let newX := s.cursorX + dx
  let newY := s.cursorY + dy
  let newY := if newY < 0 then 0 else newY
  let newY := if newY ≥ s.totalLines then s.totalLines - 1 else newY
  let newX := if newX < 0 then 0 else newX
  let len ← getLength newY
  let newX := if newX > len then len else newX
  modify fun s => { s with cursorX := newX, cursorY := newY }
  scrollToCursor

/-- `nano_move_to_line_start` -/
def moveToLineStart : M Unit := modify fun s => { s with cursorX := 0 }

/-- `nano_move_to_line_end` -/
def moveToLineEnd : M Unit := do
  let s ← get
  if s.cursorY < s.totalLines then
    let len ← getLength s.cursorY
    modify fun s => { s with cursorX := len }
  else pure ()

/-- `nano_page_scroll` -/
def pageScroll (direction : Int) : M Unit := do
  let linesToScroll : Int := viewportHeight - 1
  let s ← get
  let cursorY :=
    if direction < 0 then
      let y := s.cursorY - linesToScroll
      if y < 0 then 0 else y
    else
      let y := s.cursorY + linesToScroll
      let y := if y ≥ s.totalLines then s.totalLines - 1 else y
      if y < 0 then 0 else y
  modify fun s => { s with cursorY := cursorY }
  let len ← getLength cursorY
  modify fun s => if s.cursorX > len then { s with cursorX := len } else s
  scrollToCursor

/-! ## Loading and saving -/

/-- The load loop: `n` bytes left of the file, the current line and the position in it. -/
def loadLoop (fsIoBuffer : Buf) : Nat → Nat → Int → Int → M (Int × Int)
  | 0, _, line, linePos => pure (line, linePos)
  | n + 1, i, line, linePos =>
    if line < maxLines then
      let c := fsIoBuffer i
      if c = newline then do
        setChar line linePos 0
        setLength line linePos
        loadLoop fsIoBuffer n (i + 1) (line + 1) 0
      else if c ≠ carriageReturn ∧ linePos < maxLineLength - 1 then do
        setChar line linePos c
        loadLoop fsIoBuffer n (i + 1) line (linePos + 1)
      else loadLoop fsIoBuffer n (i + 1) line linePos
    else pure (line, linePos)

/-- `nano_init_editor`, given what `fat12_read_file` returned, wrote to its buffer and reported as size. -/
def initEditor (filename : List UInt8) (result : Code) (fsIoBuffer : Buf) (fileSize : Nat) : M Unit := do
  modify fun s =>
    { s with
      filename := filename
      totalLines := 0
      cursorX := 0
      cursorY := 0
      viewportY := 0
      dirty := false
      editorActive := true
      promptState := .none
      helpOverlayVisible := false }
  resetStatusMessage
  forUp 0 maxLines fun i => do
    setLength i 0
    setChar i 0 0
  if result = .ok ∧ fileSize > 0 then
    let (line, linePos) ← loadLoop fsIoBuffer fileSize 0 0 0
    if linePos > 0 ∧ line < maxLines then
      setChar line linePos 0
      setLength line linePos
      modify fun s => { s with totalLines := line + 1 }
    else modify fun s => { s with totalLines := line }
  else
    modify fun s => { s with totalLines := 1 }
    setLength 0 0
    setChar 0 0 0
  renderEditor

/-- The bytes of line `i` from position `j` on, `n` of them left, behind what is in the buffer already. -/
def collectLine (i : Int) : Nat → Int → List UInt8 → M (List UInt8)
  | 0, _, out => pure out
  | n + 1, j, out =>
    if out.length < ioBufferSize - 2 then do
      let c ← getChar i j
      collectLine i n (j + 1) (out ++ [c])
    else pure out

/-- The lines from `i` on, `n` of them left, behind what is in the buffer already. -/
def collect : Nat → Int → List UInt8 → M (List UInt8)
  | 0, _, out => pure out
  | n + 1, i, out =>
    if out.length < ioBufferSize - 1 then do
      let len ← getLength i
      let out ← collectLine i len.toNat 0 out
      collect n (i + 1) (if out.length < ioBufferSize - 1 then out ++ [newline] else out)
    else pure out

/-- `fat12_write_file`, as the editor calls it. -/
def writeFile (filename bytes : List UInt8) : M Code := do
  let s ← get
  let result := s.outcomes 0
  modify fun s =>
    { s with outcomes := fun k => s.outcomes (k + 1), written := s.written ++ [⟨filename, bytes, s.text, result⟩] }
  pure result

/-- `nano_save_file` -/
def saveFile : M Bool := do
  let s ← get
  if !s.dirty then pure true
  else
    let bytes ← collect s.totalLines.toNat 0 []
    let result ← writeFile s.filename bytes
    if result = .ok then
      modify fun s => { s with dirty := false }
      pure true
    else pure false

/-- The editor is left. -/
def leave : M Unit :=
  modify fun s => { s with editorActive := false, promptState := .none, helpOverlayVisible := false }

/-- `nano_exit_editor` -/
def exitEditor (action : ExitAction) : M Unit := do
  let s ← get
  if action = .save ∧ s.dirty then
    if ← saveFile then leave
    else
      setStatusMessage "Save failed."
      renderEditor
  else if action = .discard then
    modify fun s => { s with dirty := false }
    leave
  else leave

/-! ## Key events -/

/-- `scancode_to_ascii` -/
def scancodeToAscii (scancode : UInt16) : UInt8 :=
  if scancode &&& 0xE000 ≠ 0 then 0
  else
    match scancode.toNat with
    | 0x02 => 0x31 | 0x03 => 0x32 | 0x04 => 0x33 | 0x05 => 0x34 | 0x06 => 0x35 | 0x07 => 0x36 | 0x08 => 0x37
    | 0x09 => 0x38 | 0x0A => 0x39 | 0x0B => 0x30 | 0x0C => 0x2D | 0x0D => 0x3D
    | 0x10 => 0x71 | 0x11 => 0x77 | 0x12 => 0x65 | 0x13 => 0x72 | 0x14 => 0x74 | 0x15 => 0x79 | 0x16 => 0x75
    | 0x17 => 0x69 | 0x18 => 0x6F | 0x19 => 0x70 | 0x1A => 0x5B | 0x1B => 0x5D
    | 0x1E => 0x61 | 0x1F => 0x73 | 0x20 => 0x64 | 0x21 => 0x66 | 0x22 => 0x67 | 0x23 => 0x68 | 0x24 => 0x6A
    | 0x25 => 0x6B | 0x26 => 0x6C | 0x27 => 0x3B | 0x28 => 0x27 | 0x29 => 0x60 | 0x2B => 0x5C
    | 0x2C => 0x7A | 0x2D => 0x78 | 0x2E => 0x63 | 0x2F => 0x76 | 0x30 => 0x62 | 0x31 => 0x6E | 0x32 => 0x6D
    | 0x33 => 0x2C | 0x34 => 0x2E | 0x35 => 0x2F | 0x39 => 0x20
    | 0x0E => 0x08 | 0x1C => 0x0A | 0x0F => 0x09
    | _ => 0

def asciiY : UInt8 := 0x79
def asciiN : UInt8 := 0x6E

/-- What `keyboard_is_ctrl_pressed` answers, and the key. -/
structure Event where
  ctrl : Bool
  scancode : UInt16
  isRelease : Bool
  deriving DecidableEq

/-- The save prompt. -/
def handlePrompt (scancode : UInt16) : M Unit := do
  if scancode = 0x01 then
    modify fun s => { s with promptState := .none }
    exitEditor .discard
  else
    let response := scancodeToAscii scancode
    if response = asciiY then
      modify fun s => { s with promptState := .none }
      if ← saveFile then exitEditor .save
      else
        setStatusMessage "Save failed."
        renderEditor
    else if response = asciiN then
      modify fun s => { s with promptState := .none }
      exitEditor .discard
    else pure ()

/-- `nano_cycle_theme` -/
def cycleTheme : M Unit := do
  modify fun s => { s with theme := (s.theme + 1) % themeCount }
  setStatusMessage "Theme changed."
  renderEditor

/-- `nano_show_help_overlay` -/
def showHelpOverlay : M Unit := modify fun s => { s with helpOverlayVisible := true }

/-- Ctrl+S -/
def handleCtrlSave : M Unit := do
  if ← saveFile then setStatusMessage "Saved." else setStatusMessage "Save failed."
  renderEditor

/-- Ctrl+X -/
def handleCtrlExit : M Unit := do
  let s ← get
  if s.dirty then
    modify fun s => { s with promptState := .saveConfirm }
    setStatusMessage "Save changes? (Y=Yes, N=No, Esc=Discard)"
    renderEditor
  else exitEditor .save

/-- The keys that type a character. -/
def handleTyping (scancode : UInt16) : M Unit := do
  let c := scancodeToAscii scancode
  if space ≤ c ∧ c ≤ tilde then
    insertChar c
    renderEditor
  else if c = tab then
    forUp 0 4 fun _ => insertChar space
    renderEditor
  else pure ()

/-- The keys that edit the text or move the cursor, Ctrl or not. -/
def handleKey (scancode : UInt16) : M Unit :=
  match scancode.toNat with
  | 0x01 => exitEditor .discard
  | 0x0E => do handleBackspace; renderEditor
  | 0x1C => do handleEnter; renderEditor
  | 0xE053 | 0x53 => do handleDelete; renderEditor
  | 0xE048 | 0x48 => do moveCursor 0 (-1); renderEditor
  | 0xE050 | 0x50 => do moveCursor 0 1; renderEditor
  | 0xE04B | 0x4B => do moveCursor (-1) 0; renderEditor
  | 0xE04D | 0x4D => do moveCursor 1 0; renderEditor
  | 0xE047 | 0x47 => do moveToLineStart; renderEditor
  | 0xE04F | 0x4F => do moveToLineEnd; renderEditor
  | 0xE049 | 0x49 => do pageScroll (-1); renderEditor
  | 0xE051 | 0x51 => do pageScroll 1; renderEditor
  | _ => handleTyping scancode

/-- `nano_handle_scancode` -/
def handleScancode (e : Event) : M Unit := do
  let s ← get
  if s.helpOverlayVisible then
    if !e.isRelease then
      modify fun s => { s with helpOverlayVisible := false }
      resetStatusMessage
      renderEditor
    else pure ()
  else if s.promptState = .saveConfirm then
    if e.isRelease then pure () else handlePrompt e.scancode
  else if e.isRelease then pure ()
  else if e.ctrl ∧ e.scancode = 0x1F then handleCtrlSave
  else if e.ctrl ∧ e.scancode = 0x2D then handleCtrlExit
  else if e.ctrl ∧ e.scancode = 0x14 then cycleTheme
  else if e.ctrl ∧ e.scancode = 0x23 then showHelpOverlay
  else handleKey e.scancode

end AltoniumOS.Nano

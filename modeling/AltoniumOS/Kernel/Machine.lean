/-
The kernel at work: `keyboard.c` takes the bytes of the keyboard to the prompt of `prompt.c` or to the editor of
`nano.c`, and `main.c` starts all of it and goes round for the next key. A machine is what they keep beside the
file system; a key runs a program over the calls of `fat12.h`, which ends in the next machine, or in none if the
editor accesses something outside its tables.
-/
import AltoniumOS.Kernel.Commands
import AltoniumOS.Nano.Opening

namespace AltoniumOS.Kernel

open AltoniumOS.Lib AltoniumOS.Console
open AltoniumOS.Fat12 (Code)
open AltoniumOS.Nano (ioBufferSize scancodeToAscii asciiY asciiN)

/-! ## The editor on the machine -/

/-- In this event `nano_save_file` calls `fat12_write_file`. -/
def saves (s : Nano.State) (e : Nano.Event) : Bool :=
  s.dirty && !s.helpOverlayVisible && !e.isRelease &&
    match s.promptState with
    | .none => e.ctrl && e.scancode == 0x1F
    | .saveConfirm => e.scancode != 0x01 && scancodeToAscii e.scancode == asciiY

/-- `nano_handle_scancode`, with the write it may make handed to the file system. -/
def nanoHandleScancode (e : Nano.Event) (desk : Desk) : Program (Option Desk) :=
  if saves desk.editor e then
    match Nano.collect desk.editor.totalLines.toNat 0 [] desk.editor with
    | none => pure none
    | some (bytes, _) => do
      let buffer := overwrite bytes desk.fsIoBuffer
      let result ← writeFile desk.editor.filename (some buffer) bytes.length
      pure ((Nano.handleScancode e { desk.editor with outcomes := fun _ => result }).map fun r =>
        { desk with editor := r.2, fsIoBuffer := buffer })
  else pure ((Nano.handleScancode e desk.editor).map fun r => { desk with editor := r.2 })

/-- What `nano_exit_editor` prints; `cwd` is there if the file system is ready. -/
def nanoExitOutputs (saveAction : Nano.ExitAction) (hadDirty : Bool) (filename : List UInt8)
    (cwd : Option (List UInt8)) : List Output :=
  [.clear, printText "Welcome to AltoniumOS 1.0.0\n\n"] ++
    (if saveAction = .save ∧ hadDirty then [printText "File saved: ", .print filename, printText "\n"]
      else if saveAction = .discard ∧
        hadDirty then [printText "Changes discarded: ", .print filename, printText "\n"]
      else []) ++
    match cwd with
    | some cwd => [printText "Current directory: ", .print cwd, printText "\n"]
    | none => []

/-- `NANO_EXIT_DISCARD` for Esc, and for `n` at the save prompt. -/
def exitAction (s : Nano.State) (e : Nano.Event) : Nano.ExitAction :=
  if e.scancode = 0x01 ∨ (s.promptState = .saveConfirm ∧ scancodeToAscii e.scancode = asciiN)
    then .discard else .save

/-- The mark `nano_exit_editor` finds: a save before it has removed it. -/
def hadDirty (s : Nano.State) (e : Nano.Event) : Bool := decide (exitAction s e = .discard) && s.dirty

/-- `help_lines` -/
def nanoHelpLines : List String :=
  ["                       NANO EDITOR HELP                        ",
    "",
    "  Navigation:                      Editing:",
    "    Arrow Keys - Move cursor         Backspace - Delete before cursor",
    "    Home       - Start of line       Delete    - Delete at cursor",
    "    End        - End of line         Enter     - New line",
    "    Page Up    - Scroll up",
    "    Page Down  - Scroll down",
    "",
    "  Commands:                        Theme:",
    "    Ctrl+S - Save file                Ctrl+T - Cycle theme",
    "    Ctrl+X - Exit (prompt if dirty)   Current: ",
    "    Ctrl+H - This help",
    "    Escape - Exit without saving",
    "",
    "                   Press any key to close help"]

/-- `VGA_ATTR(VGA_COLOR_BLACK, VGA_COLOR_LIGHT_CYAN)` -/
def helpAttr : UInt8 := 0xB0

/-- `nano_render_help_overlay` -/
def nanoRenderHelpOverlay (d : Display) : Display :=
  let d := nanoHelpLines.zipIdx.foldl
    (fun d line => d.puts helpAttr (rowCells (3 + line.2) 5 ((ascii line.1).take 70))) d
  d.puts helpAttr (rowCells (3 + 11) (5 + 47) (ascii (themeName d.currentTheme)))

/-- An event after which the editor stays draws its screen again. -/
def redraws (s : Nano.State) (e : Nano.Event) : Bool :=
  !e.isRelease &&
    if s.helpOverlayVisible then true
    else
      match s.promptState with
      | .saveConfirm => scancodeToAscii e.scancode == asciiY
      | .none =>
        -- a key the editor has no use for
        let typed := scancodeToAscii e.scancode
        let command := e.ctrl && (e.scancode == 0x1F || e.scancode == 0x2D || e.scancode == 0x14)
        let key := e.scancode.toNat ∈
          [0x0E, 0x1C, 0xE053, 0x53, 0xE048, 0x48, 0xE050, 0x50, 0xE04B, 0x4B, 0xE04D, 0x4D, 0xE047, 0x47, 0xE04F,
            0x4F, 0xE049, 0x49, 0xE051, 0x51]
        command || key || (space ≤ typed && typed ≤ tilde) || typed == tab

/-- What an event of the editor does to the screen, `cwd` being what `nano_exit_editor` prints of the file
system. -/
def editorDisplay (before after : Nano.State) (e : Nano.Event) (cwd : Option (List UInt8))
    (d : Display) : Display :=
  let d := consoleSetTheme after.theme d
  if after.editorActive = false then
    (nanoExitOutputs (exitAction before e) (hadDirty before e) before.filename cwd).foldl (fun d o => o.exec d) d
  else if before.helpOverlayVisible = false ∧ after.helpOverlayVisible then nanoRenderHelpOverlay d
  else if redraws before e then renderEditor (editorView d.currentTheme after) d
  else d

/-! ## The keyboard -/

/-- `keyboard_state_t` -/
structure KeyboardState where
  ctrlPressed : Bool
  extendedScancodePending : Bool

structure Machine where
  desk : Desk
  shell : Shell
  keyboard : KeyboardState

/-- The line that Enter ends: the buffer up to the terminator put behind the input. -/
def Machine.line (m : Machine) : List UInt8 :=
  cString ((List.range promptBufferSize).map (Function.update m.shell.prompt.inputBuffer m.shell.prompt.inputPos 0))

/-- `handle_console_scancode`: the prompt's key, and the command of the line that it may end. -/
def handleConsoleScancode (r : Report) (scancode : UInt16) (m : Machine) : Program (Option Machine) :=
  if scancodeToAscii scancode = newline then do
    let ran ← executeCommand r m.shell.display.currentTheme m.desk m.line
    pure (ran.map fun (desk, outputs) =>
      { m with desk := desk, shell := promptHandleScancode (fun _ => outputs) scancode m.shell })
  else pure (some { m with shell := promptHandleScancode (fun _ => []) scancode m.shell })

/-- The current directory, which `nano_exit_editor` asks for if the file system is ready. -/
def cwdOnExit (desk : Desk) : Program (Option (List UInt8)) :=
  if desk.editor.editorActive = false ∧ desk.fatReady then some <$> getCwd else pure none

/-- A key of the editor. -/
def handleEditorKey (e : Nano.Event) (m : Machine) : Program (Option Machine) := do
  match ← nanoHandleScancode e m.desk with
  | none => pure none
  | some desk =>
    let cwd ← cwdOnExit desk
    pure (some { m with
      desk := desk
      shell := { m.shell with display := editorDisplay m.desk.editor desk.editor e cwd m.shell.display } })

/-- What a byte of the keyboard stands for besides a prefix: the key, and whether it was released. -/
def scancodeOf (extended : Bool) (raw : UInt8) : UInt16 :=
  if extended then 0xE000 ||| (raw &&& 0x7F).toUInt16 else (raw &&& 0x7F).toUInt16

def isRelease (raw : UInt8) : Bool := raw &&& 0x80 != 0

/-- `handle_keyboard_input`, given the byte `read_keyboard` returns. -/
def handleKeyboardInput (r : Report) (raw : UInt8) (m : Machine) : Program (Option Machine) :=
  if raw = 0xE0 then pure (some { m with keyboard := { m.keyboard with extendedScancodePending := true } })
  else
    let scancode := scancodeOf m.keyboard.extendedScancodePending raw
    let m := { m with keyboard := { m.keyboard with extendedScancodePending := false } }
    if raw &&& 0x7F = 0x1D then pure (some { m with keyboard := { m.keyboard with ctrlPressed := !isRelease raw } })
    else if m.desk.editor.editorActive then handleEditorKey ⟨m.keyboard.ctrlPressed, scancode, isRelease raw⟩ m
    else if isRelease raw then pure (some m)
    else handleConsoleScancode r scancode m

/-! ## The loop -/

/-- `prompt_clear_executed_flag`, `prompt_reset`, `render_prompt_line` -/
def newPrompt (s : Shell) : Shell :=
  renderPromptLine (promptReset { s with prompt := { s.prompt with commandExecuted := false } })

/-- The loop of `kernel_main` for one byte of the keyboard; `halt_cpu` does not return. -/
def keyTurn (r : Report) (raw : UInt8) (m : Machine) : Program (Option Machine) :=
  if m.desk.halted then pure (some m)
  else do
    match ← handleKeyboardInput r raw m with
    | none => pure none
    | some m =>
      if m.desk.halted = false ∧ m.shell.prompt.commandExecuted
        then pure (some { m with shell := newPrompt m.shell })
      else pure (some m)

/-- A machine that went outside its tables does nothing more that could be told. -/
def kernelTurn (key : Report × UInt8) : Option Machine → Program (Option Machine)
  | some m => keyTurn key.1 key.2 m
  | none => pure none

/-! ## The start -/

/-- What `kernel_main` finds as it starts. -/
structure BootReport extends Report where
  storageDevices : Int

/-- The screen up to the disk: a boot whose record tells of an error does not get further. -/
def welcome (b : BootReport) : List Output :=
  [.clear, printText "Welcome to AltoniumOS 1.0.0\n", printText "Boot mode: ",
    printText (getBootModeName b.bootMode), printText "\n", printText "Initializing storage manager... ",
    printText "OK ("] ++ printDecimal b.storageDevices ++ [printText " device(s) detected)\n"]

/-- `boot_mode == BOOT_MODE_BIOS && bootlog_data->boot_method == 2` -/
def BootReport.Fatal (b : BootReport) : Prop := b.bootMode = .bios ∧ b.memory (Boot.bootlogAddr + 6) = 2

instance (b : BootReport) : Decidable b.Fatal := inferInstanceAs (Decidable (_ ∧ _))

def fatalOutputs (b : BootReport) : List Output :=
  [printText "\nFATAL: Disk read error during boot (status 0x", hexByte (b.memory (Boot.bootlogAddr + 5)),
    printText ")\n", printText "Cannot continue. Check BIOS settings or use Safe BIOS mode.\n",
    printText "Press Ctrl+Alt+Del to restart.\n"]

/-- The memory, the disk driver and its self-test. -/
def diskOutputs (b : BootReport) : List Output :=
  let memoryMb := b.memory.le (Boot.bootlogAddr + 12) 4
  let selfTest := diskSelfTest b.selfTestRead.1 b.selfTestRead.2
  (if b.bootMode = .bios ∧ memoryMb > 0 then [printText "Detected memory: ", digits memoryMb, printText " MB\n"]
    else []) ++ [printText "Initializing disk driver... "] ++
    if b.diskInit ≠ 0 then failedError "FAILED (error " b.diskInit
    else [printText "OK\n", printText "Running disk self-test... "] ++
      if selfTest ≠ 0 then failedError "FAILED (error " selfTest else [printText "OK\n"]

/-- The mount, by what `fat12_init` returned and where it left the driver. -/
def mountOutputs (result : Code) (cwd : List UInt8) : List Output :=
  printText "Initializing FAT12 filesystem... " ::
    if result ≠ .ok then
      [printText "FAILED (", printText (fat12ErrorString result), printText " code "] ++
        printDecimal (errorNumber result) ++ [printText ")\n"]
    else [printText "OK\n", printText "Mounted volume at ", .print cwd, printText "\n"]

theorem themes_pos : 0 < themeCount := by decide

/-- The console before anything is printed. -/
def firstDisplay : Display := ⟨0, 0, ⟨0, themes_pos⟩, []⟩

/-- The machine as `kernel_main` enters its loop. -/
def bootMachine (b : BootReport) (result : Code) (cwd : List UInt8) : Machine where
  desk :=
    { fatReady := decide (result = .ok)
      fsIoBuffer := fun _ => 0
      editor := Nano.State.unused
      halted := false }
  shell :=
    newPrompt ⟨(welcome b ++ diskOutputs b ++ mountOutputs result cwd ++
      [printText "Type 'help' for available commands\n\n"]).foldl (fun d o => o.exec d) firstDisplay,
      ⟨fun _ => 0, 0, false, 0, 0⟩⟩
  keyboard := ⟨false, false⟩

/-- A machine that halts on the way. -/
def fatalMachine (b : BootReport) : Machine where
  desk := { fatReady := false, fsIoBuffer := fun _ => 0, editor := Nano.State.unused, halted := true }
  shell := ⟨(welcome b ++ fatalOutputs b).foldl (fun d o => o.exec d) firstDisplay, ⟨fun _ => 0, 0, false, 0, 0⟩⟩
  keyboard := ⟨false, false⟩

/-- `kernel_main` up to its loop. The printing of an error of `disk_init` divides `disk_result` down to 0, so
that the mount follows in any case. -/
def kernelMain (b : BootReport) : Fat12.M Machine := do
  if b.Fatal then pure (fatalMachine b)
  else
    let result ← Fat12.init 0
    let cwd ← Fat12.getCwd
    pure (bootMachine b result cwd)

end AltoniumOS.Kernel

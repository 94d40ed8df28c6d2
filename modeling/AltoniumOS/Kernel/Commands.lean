/-
The commands of `commands.c` as programs over the calls of `fat12.h`: what each prints, and what it leaves in
the I/O buffer and to the editor. `execute_command` runs the one its line names.
-/
import AltoniumOS.Kernel.Reports
import AltoniumOS.Lib.Client
import AltoniumOS.System.Calls

namespace AltoniumOS.Kernel

open AltoniumOS.Lib AltoniumOS.Console
open AltoniumOS.Fat12 (Code Call DirEntryInfo attrDirectory)
open AltoniumOS.Nano (ioBufferSize)

/-- Programs over the calls of the file system. -/
abbrev Program := Client Call Call.Answer

/-! ## The calls -/

def iterateCurrentDirectory {κ : Type} (cb : κ → DirEntryInfo → Bool × κ) (ctx : κ) : Program (Code × κ) :=
  Client.request (Call.iterateCurrentDirectory cb ctx)

def iteratePath {κ : Type} (path : List UInt8) (cb : κ → DirEntryInfo → Bool × κ) (ctx : κ) : Program (Code × κ) :=
  Client.request (Call.iteratePath path cb ctx)

def changeDirectory (path : List UInt8) : Program Code := Client.request (Call.changeDirectory path)

def getCwd : Program (List UInt8) := Client.request Call.getCwd

def readFile (path : List UInt8) (buffer : Buf) (maxSize : Nat) : Program (Code × Option Buf × Option Nat) :=
  Client.request (Call.readFile path (some buffer) maxSize)

def writeFile (path : List UInt8) (data : Option Buf) (size : Nat) : Program Code :=
  Client.request (Call.change (.writeFile path data size))

def createDirectory (path : List UInt8) : Program Code := Client.request (Call.change (.createDirectory path))

def deleteFile (path : List UInt8) : Program Code := Client.request (Call.change (.deleteFile path))

def flush : Program Code := Client.request Call.flush

/-! ## Listing -/

/-- `ls_context_t`, with what the callback printed. -/
structure LsContext where
  count : Nat
  printed : List Output

/-- `ls_callback`; it never stops the listing. -/
def lsCallback (ctx : LsContext) (entry : DirEntryInfo) : Bool × LsContext :=
  let isDirectory := entry.attr &&& attrDirectory ≠ 0
  (false, ⟨ctx.count + 1,
    ctx.printed ++ [if isDirectory then printText "[DIR] " else printText "      ", .print entry.name] ++
      (if isDirectory then [] else [printText " ("] ++ printUnsigned entry.size.toNat ++ [printText " bytes)"]) ++
        [printText "\n"]⟩)

def offline : List Output := [printText "Filesystem not initialized\n"]

/-- The argument of `ls` and `cd`: the length `copy_path_argument` returns, and what is in `path_buf`. -/
def optionalPath (args : List UInt8) : Int × List UInt8 :=
  let path := skipWhitespace args
  if path ≠ [] then copyPathArgument path fat12PathMax else (0, [])

/-- `handle_ls` -/
def handleLs (fatReady : Bool) (args : List UInt8) : Program (List Output) :=
  if !fatReady then pure offline
  else
    let (pathLen, pathBuf) := optionalPath args
    if pathLen < 0 then pure [printText "ls failed (path too long)\n"]
    else do
      let (result, ctx) ← if pathLen > 0 then iteratePath pathBuf lsCallback ⟨0, []⟩
        else iterateCurrentDirectory lsCallback ⟨0, []⟩
      if result ≠ .ok then pure (ctx.printed ++ printFailed "ls" result)
      else pure (ctx.printed ++ if ctx.count = 0 then [printText "(empty)\n"] else [])

/-! ## Moving -/

/-- `handle_pwd` -/
def handlePwd (fatReady : Bool) : Program (List Output) :=
  if !fatReady then pure offline
  else do
    let cwd ← getCwd
    pure [.print cwd, printText "\n"]

/-- `handle_cd` -/
def handleCd (fatReady : Bool) (args : List UInt8) : Program (List Output) :=
  if !fatReady then pure offline
  else
    let (pathLen, pathBuf) := optionalPath args
    if pathLen < 0 then pure [printText "cd failed (path too long)\n"]
    else do
      let result ← changeDirectory (if pathLen = 0 then [Fat12.slash] else pathBuf)
      if result ≠ .ok then pure (printFailed "cd" result)
      else
        let cwd ← getCwd
        pure [.print cwd, printText "\n"]

/-! ## Reading and changing files -/

/-- `handle_cat`: what it prints, and the I/O buffer afterwards. -/
def handleCat (fatReady : Bool) (args : List UInt8) (fsIoBuffer : Buf) : Program (List Output × Buf) :=
  if !fatReady then pure (offline, fsIoBuffer)
  else
    let (pathLen, pathBuf) := copyPathArgument (skipWhitespace args) fat12PathMax
    if pathLen < 0 then pure ([printText "cat failed (path too long)\n"], fsIoBuffer)
    else if pathLen = 0 then pure ([printText "Usage: cat FILE\n"], fsIoBuffer)
    else do
      let (result, out, outSize) ← readFile pathBuf fsIoBuffer (ioBufferSize - 1)
      let fsIoBuffer := out.getD fsIoBuffer
      if result ≠ .ok then pure (printFailed "cat" result, fsIoBuffer)
      else
        let size := outSize.getD 0
        pure ((List.range size).map (fun i => Output.putchar (fsIoBuffer i)) ++
          (if size = 0 ∨ fsIoBuffer (size - 1) ≠ newline then [printText "\n"] else []), fsIoBuffer)

/-- The bytes in front of what a buffer holds. -/
def overwrite (data : List UInt8) (buffer : Buf) : Buf := fun i => (data[i]?).getD (buffer i)

/-- The call a handler makes: the data of `write` passes through the I/O buffer, and `touch` has none. -/
def runFileCall (fsIoBuffer : Buf) : FileCall → Program (Code × Buf)
  | .writeFile name none => do
    let result ← writeFile name none 0
    pure (result, fsIoBuffer)
  | .writeFile name (some data) => do
    let buffer := overwrite data fsIoBuffer
    let result ← writeFile name (some buffer) data.length
    pure (result, buffer)
  | .createDirectory name => do
    let result ← createDirectory name
    pure (result, fsIoBuffer)
  | .deleteFile name => do
    let result ← deleteFile name
    pure (result, fsIoBuffer)
  | .initEditor _ => pure (.ok, fsIoBuffer)

/-- A handler that makes one call: what it prints, and the I/O buffer afterwards. -/
def runReply (fsIoBuffer : Buf) : Reply → Program (List Output × Buf)
  | .refused outputs => pure (outputs, fsIoBuffer)
  | .made call outputs => do
    let (result, buffer) ← runFileCall fsIoBuffer call
    pure (outputs result, buffer)

/-! ## The theme -/

/-- The names in `themes`. -/
def themeName : Fin themeCount → String
  | 0 => "normal"
  | 1 => "blue"
  | 2 => "green"

/-- The loop that looks for the theme of a name. -/
def findTheme (name : List UInt8) : Option (Fin themeCount) :=
  (List.finRange themeCount).find? fun i => strcmpImpl name (ascii (themeName i)) = 0

/-- `handle_theme_command` -/
def handleThemeCommand (current : Fin themeCount) (args : List UInt8) : List Output :=
  let (length, optionBuf, _) := readToken args 32
  if length = 0 then
    [printText "Current theme: ", printText (themeName current),
      printText "\nUsage: theme [normal|blue|green|list]\n"]
  else if strcmpImpl optionBuf (ascii "list") = 0 then
    printText "Available themes:\n" :: (List.finRange themeCount).flatMap fun i =>
      [printText "  ", printText (themeName i)] ++ (if i = current then [printText " (current)"] else []) ++
        [printText "\n"]
  else
    match findTheme optionBuf with
    | none => [printText "Unknown theme: ", .print optionBuf, printText "\nAvailable: normal, blue, green\n"]
    | some found =>
      [.setTheme (found : Nat), printText "Theme changed to: ", printText (themeName found), printText "\n", .clear,
        printText "Theme applied: ", printText (themeName found), printText "\n\n"]

/-! ## The editor -/

/-- The column behind a piece of the status line, and the piece. -/
def statusPieces : Nat → List (List UInt8) → List (Nat × List UInt8)
  | _, [] => []
  | x, piece :: rest => (x, piece) :: statusPieces (x + piece.length) rest

/-- The digits of a number. -/
def numberText (n : Nat) : List UInt8 := (Nat.toDigits 10 n).map fun c => c.toNat.toUInt8

/-- What `nano_render_editor` shows of the editor. -/
def editorView (current : Fin themeCount) (s : Nano.State) : EditorView where
  rows row :=
    let line := s.viewportY + row
    if 0 ≤ line ∧ line < s.totalLines then (List.range (s.lineLengths line.toNat).toNat).map (s.lines line.toNat)
      else []
  -- a name that fills the row leaves no room for the label, and the column stays behind it
  status := statusPieces 0 ([s.filename] ++ (if s.filename.length < vgaWidth then [ascii " | L:"] else []) ++
    [numberText (max 1 (s.cursorY + 1)).toNat, ascii ",C:", numberText (max 1 (s.cursorX + 1)).toNat] ++
    (if s.dirty then [ascii " | [MODIFIED]"] else []) ++ [ascii " | Theme: ", ascii (themeName current).toUpper])
  message := ascii s.statusMessage
  cursorX := s.cursorX.toNat
  cursorY := s.cursorY - s.viewportY

/-- `nano_init_editor` on what is read of the file: the editor, the I/O buffer and the screen it opens with;
`none` for an access outside its tables. -/
def nanoInitEditor (current : Fin themeCount) (filename : List UInt8) (fsIoBuffer : Buf) (editor : Nano.State) :
    Program (Option (Nano.State × Buf × List Output)) := do
  let (result, out, outSize) ← readFile filename fsIoBuffer (ioBufferSize - 1)
  let fsIoBuffer := out.getD fsIoBuffer
  pure ((Nano.initEditor filename result fsIoBuffer (outSize.getD 0) { editor with theme := current }).map fun r =>
    (r.2, fsIoBuffer, [.editor (editorView current r.2)]))

/-! ## The commands -/

/-- What `commands.c` and `nano.c` keep, and whether the processor was halted. -/
structure Desk where
  fatReady : Bool
  fsIoBuffer : Buf
  editor : Nano.State
  halted : Bool

/-- A command that prints, and leaves everything as it was. -/
def printing (desk : Desk) (outputs : Program (List Output)) : Program (Option (Desk × List Output)) := do
  let outputs ← outputs
  pure (some (desk, outputs))

/-- A command that prints, and uses the I/O buffer. -/
def buffering (desk : Desk) (run : Buf → Program (List Output × Buf)) : Program (Option (Desk × List Output)) := do
  let (outputs, fsIoBuffer) ← run desk.fsIoBuffer
  pure (some ({ desk with fsIoBuffer := fsIoBuffer }, outputs))

/-- `handle_nano_command` -/
def handleNanoCommand (current : Fin themeCount) (args : List UInt8) (desk : Desk) :
    Program (Option (Desk × List Output)) :=
  match Console.handleNanoCommand desk.fatReady args with
  | .made (.initEditor filename) _ => do
    let r ← nanoInitEditor current filename desk.fsIoBuffer desk.editor
    pure (r.map fun (editor, fsIoBuffer, outputs) =>
      ({ desk with editor := editor, fsIoBuffer := fsIoBuffer }, outputs))
  | reply => buffering desk (runReply · reply)

/-- `handle_shutdown` -/
def handleShutdown (desk : Desk) : Program (Option (Desk × List Output)) := do
  if desk.fatReady then
    let _ ← flush
  pure (some ({ desk with halted := true },
    [printText "Attempting system shutdown...\n", printText "Halting CPU...\n"]))

/-- A handler, run. -/
def runHandler (r : Report) (current : Fin themeCount) (desk : Desk) :
    Handler → Program (Option (Desk × List Output))
  | .clear => printing desk (pure [.clear])
  | .echo args => printing desk (pure ((if args ≠ [] then [.print args] else []) ++ [printText "\n"]))
  | .fetch => printing desk (pure (handleFetch r))
  | .disk => printing desk (pure (handleDisk r))
  | .ls args => printing desk (handleLs desk.fatReady args)
  | .pwd => printing desk (handlePwd desk.fatReady)
  | .cd args => printing desk (handleCd desk.fatReady args)
  | .cat args => buffering desk (handleCat desk.fatReady args)
  | .touch args => buffering desk (runReply · (handleTouch desk.fatReady args))
  | .write args => buffering desk (runReply · (handleWriteCommand desk.fatReady args))
  | .mkdir args => buffering desk (runReply · (handleMkdirCommand desk.fatReady args))
  | .rm args => buffering desk (runReply · (handleRmCommand desk.fatReady args))
  | .nano args => handleNanoCommand current args desk
  | .theme args => printing desk (pure (handleThemeCommand current args))
  | .fsstat => printing desk (pure (handleFsstatCommand r))
  | .shutdown => handleShutdown desk
  | .bootlog => printing desk (pure (bootlogPrint r.memory))
  | .storage => printing desk (pure (handleStorageCommand r))
  | .help => printing desk (pure handleHelp)

/-- `execute_command` -/
def executeCommand (r : Report) (current : Fin themeCount) (desk : Desk) (cmdLine : List UInt8) :
    Program (Option (Desk × List Output)) :=
  match Console.executeCommand cmdLine with
  | .nothing => printing desk (pure [])
  | .call handler => runHandler r current desk handler
  | .unknown cmdLine => printing desk (pure [printText "Unknown command: ", .print cmdLine, printText "\n"])

end AltoniumOS.Kernel

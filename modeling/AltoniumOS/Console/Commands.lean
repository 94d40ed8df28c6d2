/-
The commands of `commands.c`: the dispatch on the first word of a line, and the commands that hand a path to
the file system or to the editor, with the tokenizer of `string.c` they take it with.

A command line is the text before its terminator. What the file system answers is not decided here: a handler
makes its call, and what it prints depends on the result.
-/
import AltoniumOS.Console.Prompt
import AltoniumOS.Fat12.Entry

namespace AltoniumOS.Console

open AltoniumOS.Fat12 (Code)
open AltoniumOS.Nano (ioBufferSize)

/-- `FAT12_PATH_MAX` -/
def fat12PathMax : Nat := 128

/-- A string literal. -/
def ascii (s : String) : List UInt8 := s.toList.map fun c => c.toNat.toUInt8

/-! ## `string.c` -/

/-- `strncmp_impl`; `char` is signed. -/
def strncmpImpl : List UInt8 → List UInt8 → Nat → Int
  | _, _, 0 => 0
  | a, b, n + 1 =>
    let x := a.headD 0
    let y := b.headD 0
    if x = 0 ∨ y = 0 ∨ x ≠ y then x.toInt8.toInt - y.toInt8.toInt else strncmpImpl a.tail b.tail n

def isBlank (c : UInt8) : Bool := c == space || c == tab

/-- `skip_whitespace` -/
def skipWhitespace (str : List UInt8) : List UInt8 := str.dropWhile isBlank

/-- The loop of `read_token`: what is in `dest`, and the input behind the token. -/
def tokenLoop (maxLen : Nat) : List UInt8 → List UInt8 → List UInt8 × List UInt8
  | [], dest => (dest, [])
  | c :: ptr, dest =>
    if isBlank c then (dest, c :: ptr)
    else tokenLoop maxLen ptr (if dest.length < maxLen - 1 then dest ++ [c] else dest)

/-- `read_token`: the length it returns, what is in `dest`, and the input behind the token. -/
def readToken (input : List UInt8) (maxLen : Nat) : Nat × List UInt8 × List UInt8 :=
  if maxLen = 0 then (0, [], input)
  else
    let ptr := skipWhitespace input
    if ptr = [] then (0, [], input)
    else
      let r := tokenLoop maxLen ptr []
      (r.1.length, r)

/-- What `print_unsigned` sends. -/
def printUnsigned (value : Nat) : List Output := (Nat.toDigits 10 value).map fun c => .putchar c.toNat.toUInt8

/-- What `print_decimal` sends. -/
def printDecimal (value : Int) : List Output :=
  if value < 0 then .putchar 0x2D :: printUnsigned value.natAbs else printUnsigned value.toNat

/-! ## Errors of the file system -/

/-- The `FAT12_ERR_` numbers. -/
def errorNumber : Code → Int
  | .ok => 0
  | .errIo => -1
  | .errBadBpb => -2
  | .errNotFat12 => -3
  | .errOutOfRange => -4
  | .errNoFreeCluster => -5
  | .errInvalidName => -6
  | .errNotFound => -7
  | .errNotDirectory => -8
  | .errAlreadyExists => -9
  | .errDirFull => -10
  | .errBufferSmall => -11
  | .errNotFile => -12
  | .errNotInitialized => -13

/-- `fat12_error_string` -/
def fat12ErrorString : Code → String
  | .ok => "ok"
  | .errIo => "io"
  | .errBadBpb => "bad bpb"
  | .errNotFat12 => "not fat12"
  | .errOutOfRange => "range"
  | .errNoFreeCluster => "disk full"
  | .errInvalidName => "name"
  | .errNotFound => "not found"
  | .errNotDirectory => "not dir"
  | .errAlreadyExists => "exists"
  | .errDirFull => "dir full"
  | .errBufferSmall => "buffer"
  | .errNotFile => "not file"
  | .errNotInitialized => "fs offline"

def printText (s : String) : Output := .print (ascii s)

/-- `print_fs_error` -/
def printFsError (code : Code) : List Output :=
  [printText " (", printText (fat12ErrorString code), printText " code "] ++ printDecimal (errorNumber code) ++
    [printText ")"]

/-! ## The commands that take a path -/

/-- The calls these commands make: `fat12_write_file`, with or without data, `fat12_create_directory`,
`fat12_delete_file` and `nano_init_editor`. -/
inductive FileCall where
  | writeFile (name : List UInt8) (data : Option (List UInt8))
  | createDirectory (name : List UInt8)
  | deleteFile (name : List UInt8)
  | initEditor (filename : List UInt8)
  deriving DecidableEq

def FileCall.path : FileCall → List UInt8
  | writeFile name _ => name
  | createDirectory name => name
  | deleteFile name => name
  | initEditor filename => filename

/-- What a handler does: it prints and makes no call, or makes its call and prints what the result asks for. -/
inductive Reply where
  | refused (outputs : List Output)
  | made (call : FileCall) (outputs : Code → List Output)

def Reply.call : Reply → Option FileCall
  | refused _ => none
  | made call _ => some call

/-- A handler that takes one token: it is refused without a file system or without a token, with its usage, and else
gets the token and the input behind it. -/
def withToken (fatReady : Bool) (usage : String) (args : List UInt8)
    (body : List UInt8 → List UInt8 → Reply) : Reply :=
  if !fatReady then .refused [printText "Filesystem not initialized\n"]
  else
    let (length, nameBuf, cursor) := readToken args fat12PathMax
    if length = 0 then .refused [printText usage] else body nameBuf cursor

/-- What is printed when the call of `command` failed. -/
def printFailed (command : String) (result : Code) : List Output :=
  [printText (command ++ " failed")] ++ printFsError result ++ [printText "\n"]

/-- `handle_touch` -/
def handleTouch (fatReady : Bool) (args : List UInt8) : Reply :=
  withToken fatReady "Usage: touch NAME\n" args fun nameBuf _ =>
    .made (.writeFile nameBuf none) fun result =>
      if result ≠ .ok then printFailed "touch" result
      else [printText "Created empty file: ", .print nameBuf, printText "\n"]

/-- `handle_write_command` -/
def handleWriteCommand (fatReady : Bool) (args : List UInt8) : Reply :=
  withToken fatReady "Usage: write NAME TEXT\n" args fun nameBuf cursor =>
    let payload := skipWhitespace cursor
    if payload.length > ioBufferSize then .refused [printText "write failed (data too large)\n"]
    else
      .made (.writeFile nameBuf (some payload)) fun result =>
        if result ≠ .ok then printFailed "write" result
        else [printText "Wrote "] ++ printUnsigned payload.length ++ [printText " bytes\n"]

/-- `handle_mkdir_command` -/
def handleMkdirCommand (fatReady : Bool) (args : List UInt8) : Reply :=
  withToken fatReady "Usage: mkdir NAME\n" args fun nameBuf _ =>
    .made (.createDirectory nameBuf) fun result =>
      if result ≠ .ok then printFailed "mkdir" result else [printText "Directory created\n"]

/-- `handle_rm_command` -/
def handleRmCommand (fatReady : Bool) (args : List UInt8) : Reply :=
  withToken fatReady "Usage: rm NAME\n" args fun nameBuf _ =>
    .made (.deleteFile nameBuf) fun result =>
      if result ≠ .ok then printFailed "rm" result else [printText "File deleted\n"]

/-- `handle_nano_command`; the editor draws itself. -/
def handleNanoCommand (fatReady : Bool) (args : List UInt8) : Reply :=
  withToken fatReady "Usage: nano FILENAME\n" args fun filenameBuf _ => .made (.initEditor filenameBuf) fun _ => []

/-! ## Dispatch -/

/-- The handlers, with the arguments `execute_command` passes them. -/
inductive Handler where
  | clear
  | echo (args : List UInt8)
  | fetch
  | disk
  | ls (args : List UInt8)
  | pwd
  | cd (args : List UInt8)
  | cat (args : List UInt8)
  | touch (args : List UInt8)
  | write (args : List UInt8)
  | mkdir (args : List UInt8)
  | rm (args : List UInt8)
  | nano (args : List UInt8)
  | theme (args : List UInt8)
  | fsstat
  | shutdown
  | bootlog
  | storage
  | help
  deriving DecidableEq

/-- What becomes of a line: nothing, a handler called, or `Unknown command: ` and the line printed. -/
inductive Dispatch where
  | nothing
  | call (h : Handler)
  | unknown (cmdLine : List UInt8)
  deriving DecidableEq

/-- `strncmp_impl(cmd_line, word, n) == 0 && (cmd_line[n] == '\0' || cmd_line[n] == ' ' || cmd_line[n] == '\n')` -/
def isCommand (cmdLine : List UInt8) (word : String) (n : Nat) : Bool :=
  strncmpImpl cmdLine (ascii word) n == 0 &&
    (cmdLine.getD n 0 == 0 || cmdLine.getD n 0 == space || cmdLine.getD n 0 == newline)

/-- `execute_command` -/
def executeCommand (cmdLine : List UInt8) : Dispatch :=
  if cmdLine = [] then .nothing
  else
    let cmdLine := skipWhitespace cmdLine
    if isCommand cmdLine "clear" 5 then .call .clear
    else if strncmpImpl cmdLine (ascii "echo ") 5 == 0 then .call (.echo (cmdLine.drop 5))
    else if isCommand cmdLine "fetch" 5 then .call .fetch
    else if isCommand cmdLine "disk" 4 then .call .disk
    else if isCommand cmdLine "ls" 2 then .call (.ls (cmdLine.drop 2))
    else if isCommand cmdLine "dir" 3 then .call (.ls (cmdLine.drop 3))
    else if isCommand cmdLine "pwd" 3 then .call .pwd
    else if isCommand cmdLine "cd" 2 then .call (.cd (cmdLine.drop 2))
    else if isCommand cmdLine "cat" 3 then .call (.cat (cmdLine.drop 3))
    else if isCommand cmdLine "touch" 5 then .call (.touch (cmdLine.drop 5))
    else if isCommand cmdLine "write" 5 then .call (.write (cmdLine.drop 5))
    else if isCommand cmdLine "mkdir" 5 then .call (.mkdir (cmdLine.drop 5))
    else if isCommand cmdLine "rm" 2 then .call (.rm (cmdLine.drop 2))
    else if isCommand cmdLine "nano" 4 then .call (.nano (cmdLine.drop 4))
    else if isCommand cmdLine "theme" 5 then .call (.theme (cmdLine.drop 5))
    else if isCommand cmdLine "fsstat" 6 then .call .fsstat
    else if isCommand cmdLine "shutdown" 8 then .call .shutdown
    else if isCommand cmdLine "bootlog" 7 then .call .bootlog
    else if isCommand cmdLine "storage" 7 then .call .storage
    else if isCommand cmdLine "help" 4 then .call .help
    else .unknown cmdLine

/-- The lines `handle_help` prints behind its first. -/
def helpLines : List String :=
  ["  clear          - Clear the screen\n",
    "  echo TEXT      - Print text to the screen\n",
    "  fetch          - Print OS and system information\n",
    "  disk           - Test disk I/O and show disk information\n",
    "  storage        - List detected storage controllers\n",
    "  ls [PATH]      - List files in the current or given directory\n",
    "  dir [PATH]     - Alias for ls\n",
    "  pwd            - Show current directory\n",
    "  cd PATH        - Change directory\n",
    "  cat FILE       - Print file contents\n",
    "  touch FILE     - Create a zero-length file\n",
    "  write FILE TXT - Create/overwrite a text file\n",
    "  mkdir NAME     - Create a directory\n",
    "  rm FILE        - Delete a file\n",
    "  nano FILE      - Text editor (Ctrl+S/Ctrl+X/Ctrl+T/Ctrl+H)\n",
    "  theme [OPTION] - Switch theme (normal/blue/green) or 'list'\n",
    "  fsstat         - Show filesystem/disk statistics\n",
    "  bootlog        - Show BIOS boot diagnostics\n",
    "  shutdown       - Shut down the system\n",
    "  help           - Display this help message\n"]

/-- `handle_help` -/
def handleHelp : List Output := printText "Available commands:\n" :: helpLines.map printText

/-- The call to the file system or the editor that a line leads to, if its command is one of those that take a
path. -/
def fileCall (fatReady : Bool) (cmdLine : List UInt8) : Option FileCall :=
  match executeCommand cmdLine with
  | .call (.touch args) => (handleTouch fatReady args).call
  | .call (.write args) => (handleWriteCommand fatReady args).call
  | .call (.mkdir args) => (handleMkdirCommand fatReady args).call
  | .call (.rm args) => (handleRmCommand fatReady args).call
  | .call (.nano args) => (handleNanoCommand fatReady args).call
  | _ => none

end AltoniumOS.Console

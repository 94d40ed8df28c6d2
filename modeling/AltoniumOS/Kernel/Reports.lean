/-
The commands that report on the machine and change nothing the shell goes by, with the functions they report
for: `detect_boot_mode` of `main.c`, `bootlog_print` of `bootlog.c` and `disk_self_test` of `disk.c`. What they
find in the hardware and in the tables of other drivers is handed to them.
-/
import AltoniumOS.Boot.Bootlog
import AltoniumOS.Console.Strings
import AltoniumOS.Storage.Manager

namespace AltoniumOS.Kernel

open AltoniumOS.Lib AltoniumOS.Console

/-! ## Numbers -/

/-- The digits put into a buffer and printed from there, as `bootlog.c`, `commands.c` and `main.c` do each for
itself. -/
def digits (n : Nat) : Output := .print ((Nat.toDigits 10 n).map fun c => c.toNat.toUInt8)

/-- `"0123456789ABCDEF"[n]` -/
def hexDigit (n : Nat) : UInt8 := (ascii "0123456789ABCDEF").getD n 0

def hexByte (b : UInt8) : Output := .print [hexDigit (b.toNat / 16), hexDigit (b.toNat % 16)]

/-- A message and the number of an error, as `handle_disk` and `kernel_main` print it. -/
def failedError (message : String) (result : Int) : List Output :=
  [printText message] ++ (if result < 0 then [printText "-"] else []) ++ [digits result.natAbs, printText ")\n"]

/-! ## The boot mode -/

/-- `BOOT_MODE_UNKNOWN`, `BOOT_MODE_BIOS`, `BOOT_MODE_UEFI` -/
inductive BootMode where
  | unknown
  | bios
  | uefi
  deriving DecidableEq

/-- `MULTIBOOT_BOOTLOADER_MAGIC` -/
def multibootBootloaderMagic : UInt32 := 0x2BADB002

/-- `multiboot_info_t`, as far as `detect_boot_mode` reads it; `none` is a null pointer. -/
structure MultibootInfo where
  flags : UInt32
  cmdline : Option (List UInt8)

/-- `1u << 2` -/
def cmdlineFlag : UInt32 := 4

/-- `detect_boot_mode` -/
def detectBootMode (magic : UInt32) (info : Option MultibootInfo) : BootMode :=
  if magic ≠ multibootBootloaderMagic then .unknown
  else
    match info with
    | none => .bios
    | some info =>
      if info.flags &&& cmdlineFlag ≠ 0 ∧ info.cmdline.any (stringContains · (ascii "bootmode=uefi"))
        then .uefi else .bios

/-- `get_boot_mode_name` -/
def getBootModeName : BootMode → String
  | .uefi => "UEFI"
  | .bios => "BIOS"
  | .unknown => "Unknown"

/-- The machine was booted by UEFI if a multiboot loader said so anywhere on its command line. -/
theorem detectBootMode_uefi_iff (magic : UInt32) (info : Option MultibootInfo) :
    detectBootMode magic info = .uefi ↔
      magic = multibootBootloaderMagic ∧ ∃ i cmdline, info = some i ∧ i.flags &&& cmdlineFlag ≠ 0 ∧
      i.cmdline = some cmdline ∧
        ascii "bootmode=uefi" <:+: cmdline := by
  have hword : ascii "bootmode=uefi" ≠ [] := by decide
  unfold detectBootMode
  by_cases hm : magic = multibootBootloaderMagic
  · rw [if_neg (not_not.2 hm), and_iff_right hm]
    rcases info with - | i
    · simp
    dsimp only
    have hany : i.cmdline.any (stringContains · (ascii "bootmode=uefi")) = true ↔
        ∃ cmdline, i.cmdline = some cmdline ∧ ascii "bootmode=uefi" <:+: cmdline := by
      simp only [Option.any_eq_true, stringContains_iff, and_iff_right hword]
    constructor
    · intro h
      split at h
      · rename_i hc
        obtain ⟨cmdline, hcmd, hin⟩ := hany.1 hc.2
        exact ⟨i, cmdline, rfl, hc.1, hcmd, hin⟩
      · cases h
    · rintro ⟨_, cmdline, ⟨⟩, hf, hcmd, hin⟩
      exact if_pos ⟨hf, hany.2 ⟨cmdline, hcmd, hin⟩⟩
  · rw [if_pos hm]
    exact iff_of_false (by simp) fun h => hm h.1

/-! ## The reports -/

/-- `bootlog_print`, once `bootlog_init` set its pointer. -/
def bootlogPrint (m : Boot.Memory) : List Output :=
  let byte (i : Nat) : UInt8 := m (Boot.bootlogAddr + i)
  let text (off size : Nat) : List UInt8 := cString ((List.range size).map fun i => byte (off + i))
  let number (label : String) (n : Nat) (unit : String) : List Output :=
    if n > 0 then [printText label, digits n, printText unit] else []
  [printText "Boot diagnostics:\n", printText "  Extensions:    "] ++
    [if byte 4 ≠ 0 then printText "EDD supported\n" else printText "CHS fallback\n"] ++
    [printText "  Boot method:   "] ++
    [match (byte 6).toNat with
      | 0 => printText "CHS"
      | 1 => printText "EDD"
      | 2 => printText "Error"
      | _ => printText "Unknown"] ++
    [printText "\n", printText "  INT13 status:  0x"] ++
    -- both digits are printed behind this zero
    (if byte 5 < 16 then [printText "0"] else []) ++ [hexByte (byte 5), printText "\n"] ++
    [printText "  Retry count:   ", digits (byte 7).toNat, printText "\n"] ++
    (if text 48 64 ≠ [] then [printText "  Status:        ", .print (text 48 64), printText "\n"] else []) ++
    number "  Memory:        " (m.le (Boot.bootlogAddr + 12) 4) " MB\n" ++
    number "  Cylinders:     " (m.le (Boot.bootlogAddr + 8) 2) "\n" ++
    number "  Heads:         " (byte 10).toNat "\n" ++
    number "  Sectors/track: " (byte 11).toNat "\n" ++
    if text 16 32 ≠ [] then [printText "  BIOS vendor:   ", .print (text 16 32), printText "\n"] else []

/-- `disk_self_test`, given the result of its read and the sector read. -/
def diskSelfTest (read : Int) (buffer : Buf) : Int :=
  if read ≠ 0 then read
  else if buffer 510 = 0x55 ∧ buffer 511 = 0xAA then 0
  else if (List.range 512).any fun i => buffer i != 0 then 0
  else -1

/-- `disk_stats_t` -/
structure DiskStats where
  readOps : UInt32
  writeOps : UInt32
  readMultiOps : UInt32
  writeMultiOps : UInt32
  readSectors : UInt32
  writeSectors : UInt32

/-- What the commands find: the boot mode, low memory, the results of `disk_init` and of the two reads of sector
0, the counters of `disk.c` and the storage devices. -/
structure Report where
  bootMode : BootMode
  memory : Boot.Memory
  diskInit : Int
  sectorRead : Int × Buf
  selfTestRead : Int × Buf
  stats : DiskStats
  devices : List Storage.BlockDevice
  buildDate : List UInt8
  buildTime : List UInt8

/-- `handle_fetch` -/
def handleFetch (r : Report) : List Output :=
  let memoryMb := r.memory.le (Boot.bootlogAddr + 12) 4
  [printText "OS: ", printText "AltoniumOS", printText "\n", printText "Version: ", printText "1.0.0",
      printText "\n", printText "Architecture: ", printText "x86", printText "\n", printText "Build Date: ",
      .print r.buildDate, printText "\n", printText "Build Time: ", .print r.buildTime, printText "\n",
      printText "Boot Mode: ", printText (getBootModeName r.bootMode), printText "\n"] ++
    if memoryMb > 0 then [printText "Memory: ", digits memoryMb, printText " MB\n"] else []

/-- One of the first 64 bytes of sector 0, on a row of sixteen. -/
def dumpByte (buffer : Buf) (i : Nat) : List Output :=
  (if i % 16 = 0 then [printText "    "] else []) ++ [printText " ", hexByte (buffer i)] ++ if i % 16 = 15
    then [printText "\n"] else []

/-- `handle_disk` -/
def handleDisk (r : Report) : List Output :=
  printText "Disk Information:\n" ::
    if r.diskInit ≠ 0 then failedError "  Disk initialization FAILED (error " r.diskInit
    else printText "  Disk initialization: OK\n" ::
      if r.sectorRead.1 ≠ 0 then failedError "  Sector 0 read: FAILED (error " r.sectorRead.1
      else
        [printText "  Sector 0 read: OK\n", printText "  First 64 bytes of sector 0:\n"] ++
          (List.range 64).flatMap (dumpByte r.sectorRead.2) ++ [printText "  Disk self-test: "] ++
          let result := diskSelfTest r.selfTestRead.1 r.selfTestRead.2
          if result ≠ 0 then failedError "FAILED (error " result else [printText "OK\n"]

/-- `handle_fsstat_command` -/
def handleFsstatCommand (r : Report) : List Output :=
  let s := r.stats
  let totalOps := s.readOps + s.writeOps
  let multiOps := s.readMultiOps + s.writeMultiOps
  [printText "Disk I/O Statistics:\n", printText "  Read operations:    "] ++ printUnsigned s.readOps.toNat ++
    [printText " ("] ++ printUnsigned s.readSectors.toNat ++
    [printText " sectors)\n", printText "  Write operations:   "] ++ printUnsigned s.writeOps.toNat ++
    [printText " ("] ++ printUnsigned s.writeSectors.toNat ++
    [printText " sectors)\n", printText "  Multi-read ops:     "] ++ printUnsigned s.readMultiOps.toNat ++
    [printText "\n", printText "  Multi-write ops:    "] ++ printUnsigned s.writeMultiOps.toNat ++
    [printText "\n", printText "  Total operations:   "] ++ printUnsigned totalOps.toNat ++ [printText "\n"] ++
    if totalOps > 0 then [printText "  Multi-op ratio:     "] ++ printUnsigned (multiOps * 100 / totalOps).toNat ++
      [printText "%\n"] else []

/-- `handle_storage_command` -/
def handleStorageCommand (r : Report) : List Output :=
  printText "Storage Devices:\n" ::
    if r.devices = [] then [printText "  No storage devices detected\n"]
    else r.devices.zipIdx.flatMap fun (dev, i) =>
      [printText "  ["] ++ printDecimal i ++
        [printText "] ", printText dev.driverName, printText " - ", printText "Sector: "] ++
        printDecimal dev.sectorSize ++ [printText "B, Queue: "] ++ printDecimal dev.queueDepth ++ [printText "\n"]

end AltoniumOS.Kernel

/-
The driver of `disk.c` over the drive of the primary IDE channel. The drive has the registers the driver
writes, and runs a command block by block: a block is due until the status register shows DRQ, and is
then moved word by word through the data register. A new command abandons the one before.

What the drive decides by itself comes from `answers`: at every look at the status register the byte to
show, and for every block received what becomes of it. So it may stay busy for ever, report an error or
stop at any block. It shows DRQ only while a block is due, and once it failed to store a block it shows ERR
until the next command. Moving a word while no block is open is an access error.
-/
import AltoniumOS.Lib.Checked
import AltoniumOS.Fat12.State

namespace AltoniumOS.Disk

open AltoniumOS.Lib AltoniumOS.Fat12

/-! ## The drive -/

def ataCmdReadSectors : UInt8 := 0x20
def ataCmdReadSectorsMulti : UInt8 := 0xC4
def ataCmdWriteSectors : UInt8 := 0x30
def ataCmdWriteSectorsMulti : UInt8 := 0xC5
def ataCmdIdentifyDevice : UInt8 := 0xEC

def ataStatusBsy : UInt8 := 0x80
def ataStatusDrdy : UInt8 := 0x40
def ataStatusDrq : UInt8 := 0x08
def ataStatusErr : UInt8 := 0x01

def ataDriveLba : UInt8 := 0x40
def ataDriveMaster : UInt8 := 0xA0

inductive Kind where
  | read
  | write
  | identify
  deriving DecidableEq

/-- A command the drive accepted: sectors `lba`, `lba + 1`, ..., `count` of them. -/
structure Command where
  kind : Kind
  lba : Nat
  count : Nat
  deriving DecidableEq

inductive Phase where
  /-- No block is due. -/
  | idle
  /-- A block was not stored; the error stands until the next command. -/
  | failed
  /-- Block `k` of the command is due. -/
  | due (c : Command) (k : Nat)
  /-- Block `k` is open: `word` words are moved, of a write those in `taken`. -/
  | moving (c : Command) (k word : Nat) (taken : Buf)

/-- The phase behind block `k`. -/
def Command.next (c : Command) (k : Nat) : Phase := if k + 1 < c.count then .due c (k + 1) else .idle

/-- What becomes of a block the drive received: stored, or an error with the sectors as before or with
anything in the sectors of the command. -/
inductive Outcome where
  | stored
  | lost
  | spoiled (left : Nat → Buf)

structure Answer where
  status : UInt8
  outcome : Outcome

/-- A command byte as it was written, with what stood in the address and count registers. -/
structure Issued where
  command : UInt8
  lba : Nat
  count : Nat
  deriving DecidableEq

structure Drive where
  seccount0 : UInt8
  lba0 : UInt8
  lba1 : UInt8
  lba2 : UInt8
  drive : UInt8
  phase : Phase
  sectors : Nat → Buf
  identity : Buf
  answers : Nat → Answer
  /-- The command bytes written so far. -/
  commands : List Issued

/-- Two bytes as the data register moves them, low byte first. -/
def wordAt (b : Buf) (i : Nat) : UInt16 := (b (2 * i)).toUInt16 ||| (b (2 * i + 1)).toUInt16 <<< 8

/-- A block after word `i` of it was received. -/
def putWord (b : Buf) (i : Nat) (v : UInt16) : Buf :=
  Function.update (Function.update b (2 * i) v.toUInt8) (2 * i + 1) (v >>> 8).toUInt8

/-- The phase a command byte begins. -/
def opening (v : UInt8) (lba count : Nat) : Phase :=
  if v = ataCmdReadSectors ∨ v = ataCmdReadSectorsMulti then .due ⟨.read, lba, count⟩ 0
  else if v = ataCmdWriteSectors ∨ v = ataCmdWriteSectorsMulti then .due ⟨.write, lba, count⟩ 0
  else if v = ataCmdIdentifyDevice then .due ⟨.identify, 0, 1⟩ 0
  else .idle

namespace Drive

variable (d : Drive)

/-- The answers behind the next. -/
def rest : Nat → Answer := fun k => d.answers (k + 1)

/-- The status byte shown now. -/
def shown : UInt8 :=
  match d.phase with
  | .idle => (d.answers 0).status &&& ~~~ataStatusDrq
  | .failed => (d.answers 0).status ||| ataStatusErr
  | .due .. => (d.answers 0).status
  | .moving .. => (d.answers 0).status

/-- The drive after a look at its status register: with DRQ shown, the block due is open. -/
def look : Drive :=
  { d with
    phase := match d.phase with
      | .due c k => if d.shown &&& ataStatusDrq ≠ 0 then .moving c k 0 (fun _ => 0) else .due c k
      | p => p
    answers := d.rest }

/-- The sector in the address registers. -/
def addressed : Nat := d.lba0.toNat + 256 * d.lba1.toNat + 65536 * d.lba2.toNat + 16777216 * (d.drive.toNat % 16)

/-- The sectors asked for; a zero in the count register stands for 256. -/
def asked : Nat := if d.seccount0 = 0 then 256 else d.seccount0.toNat

/-- A command byte written; the drive takes it as master in LBA mode. -/
def start (v : UInt8) : Phase := if d.drive &&& 0x50 = ataDriveLba then opening v d.addressed d.asked else .idle

/-- What the drive sends as block `k`. -/
def sent (c : Command) (k : Nat) : Buf :=
  match c.kind with
  | .identify => d.identity
  | _ => d.sectors (c.lba + k)

/-- The drive after the last word of block `k` of a write. -/
def received (c : Command) (k : Nat) (block : Buf) : Drive :=
  match (d.answers 0).outcome with
  | .stored =>
    { d with phase := c.next k, sectors := Function.update d.sectors (c.lba + k) block, answers := d.rest }
  | .lost => { d with phase := .failed, answers := d.rest }
  | .spoiled left =>
    { d with
      phase := .failed
      sectors := fun l => if c.lba ≤ l ∧ l < c.lba + c.count then left l else d.sectors l
      answers := d.rest }

end Drive

/-! ## The ports -/

abbrev Io := Checked Drive

inductive Reg where
  | seccount0
  | lba0
  | lba1
  | lba2
  | drive
  | command
  deriving DecidableEq

def Drive.put (d : Drive) (v : UInt8) : Reg → Drive
  | .seccount0 => { d with seccount0 := v }
  | .lba0 => { d with lba0 := v }
  | .lba1 => { d with lba1 := v }
  | .lba2 => { d with lba2 := v }
  | .drive => { d with drive := v }
  | .command => { d with phase := d.start v, commands := d.commands ++ [⟨v, d.addressed, d.asked⟩] }

def outb (r : Reg) (v : UInt8) : Io Unit := fun d => some ((), d.put v r)

/-- `inb(ATA_STATUS_REG)` -/
def inbStatus : Io UInt8 := fun d => some (d.shown, d.look)

/-- `inw(ATA_DATA_REG)` -/
def inw : Io UInt16 := fun d =>
  match d.phase with
  | .moving c k word taken =>
    if c.kind = .write then none
    else some (wordAt (d.sent c k) word,
      { d with phase := if word + 1 < 256 then .moving c k (word + 1) taken else c.next k })
  | _ => none

/-- `outw(ATA_DATA_REG, v)` -/
def outw (v : UInt16) : Io Unit := fun d =>
  match d.phase with
  | .moving c k word taken =>
    if c.kind ≠ .write then none
    else if word + 1 < 256 then some ((), { d with phase := .moving c k (word + 1) (putWord taken word v) })
    else some ((), d.received c k (putWord taken word v))
  | _ => none

/-! ## disk.c -/

/-- The loop of `wait_for_bsy`, with `timeout` looks left. -/
def bsyLoop : Nat → Io Int
  | 0 => pure (-1)
  | timeout + 1 => do
    let status ← inbStatus
    if status &&& ataStatusBsy = 0 then pure 0 else bsyLoop timeout

def waitForBsy : Io Int := bsyLoop 10000

/-- The loop of `wait_for_drq`, with `timeout` looks left. -/
def drqLoop : Nat → Io Int
  | 0 => pure (-1)
  | timeout + 1 => do
    let status ← inbStatus
    if status &&& ataStatusErr ≠ 0 then pure (-1)
    else if status &&& ataStatusDrq ≠ 0 then pure 0
    else drqLoop timeout

def waitForDrq : Io Int := drqLoop 10000

def selectDrive : Io Unit := outb .drive (ataDriveMaster ||| ataDriveLba)

/-- The 256 words of a block, `n` of them still to be discarded. -/
def discardWords : Nat → Io Unit
  | 0 => pure ()
  | n + 1 => do
    let _ ← inw
    discardWords n

def diskInit : Io Int := do
  selectDrive
  if (← waitForBsy) ≠ 0 then pure (-1)
  else
    let status ← inbStatus
    if status &&& ataStatusDrdy = 0 then pure (-2)
    else
      outb .seccount0 0
      outb .lba0 0
      outb .lba1 0
      outb .lba2 0
      outb .command ataCmdIdentifyDevice
      let status ← inbStatus
      if status = 0 then pure (-3)
      else if (← waitForDrq) ≠ 0 then pure (-4)
      else
        discardWords 256
        pure 0

/-- The lines every transfer begins with, up to the command byte. -/
def sendCommand (count : UInt8) (lba : Nat) (command : UInt8) : Io Int := do
  selectDrive
  if (← waitForBsy) ≠ 0 then pure (-2)
  else
    outb .seccount0 count
    outb .lba0 (UInt8.ofNat (lba &&& 0xFF))
    outb .lba1 (UInt8.ofNat (lba >>> 8 &&& 0xFF))
    outb .lba2 (UInt8.ofNat (lba >>> 16 &&& 0xFF))
    outb .drive (ataDriveMaster ||| ataDriveLba ||| UInt8.ofNat (lba >>> 24 &&& 0x0F))
    outb .command command
    pure 0

/-- Words `256 - n` to 255 of a sector, into `buffer + off`. -/
def readWords (off : Nat) : Nat → Buf → Io Buf
  | 0, buffer => pure buffer
  | n + 1, buffer => do
    let data ← inw
    let i := 255 - n
    readWords off n (Function.update (Function.update buffer (off + i * 2) (data &&& 0xFF).toUInt8)
      (off + (i * 2 + 1)) (data >>> 8 &&& 0xFF).toUInt8)

/-- Words `256 - n` to 255 of a sector, from `buffer + off`. -/
def writeWords (buffer : Buf) (off : Nat) : Nat → Io Unit
  | 0 => pure ()
  | n + 1 => do
    let i := 255 - n
    outw ((buffer (off + i * 2)).toUInt16 ||| (buffer (off + (i * 2 + 1))).toUInt16 <<< 8)
    writeWords buffer off n

/-- `disk_read_sector(lba, buffer + off)`: the result, and the buffer afterwards. -/
def diskReadSector (lba : Nat) (buffer : Buf) (off : Nat) : Io (Int × Buf) := do
  let sent ← sendCommand 1 lba ataCmdReadSectors
  if sent ≠ 0 then pure (sent, buffer)
  else if (← waitForDrq) ≠ 0 then pure (-3, buffer)
  else
    let buffer ← readWords off 256 buffer
    pure (0, buffer)

/-- The lines every write ends with. -/
def writeResult : Io Int := do
  if (← waitForBsy) ≠ 0 then pure (-4)
  else
    let status ← inbStatus
    if status &&& ataStatusErr ≠ 0 then pure (-5) else pure 0

/-- `disk_write_sector(lba, buffer + off)` -/
def diskWriteSector (lba : Nat) (buffer : Buf) (off : Nat) : Io Int := do
  let sent ← sendCommand 1 lba ataCmdWriteSectors
  if sent ≠ 0 then pure sent
  else if (← waitForDrq) ≠ 0 then pure (-3)
  else
    writeWords buffer off 256
    writeResult

/-- The loop of `disk_read_sectors_multi_pio`, with `left` sectors to go from `sector` on. -/
def multiRead : Nat → Nat → Buf → Io (Int × Buf)
  | 0, _, buffer => pure (0, buffer)
  | left + 1, sector, buffer => do
    if (← waitForDrq) ≠ 0 then pure (-3, buffer)
    else
      let buffer ← readWords (sector * sectorSize) 256 buffer
      multiRead left (sector + 1) buffer

def diskReadSectorsMultiPio (lba : Nat) (buffer : Buf) (numSectors : Nat) : Io (Int × Buf) := do
  if numSectors = 0 ∨ 256 < numSectors then pure (-1, buffer)
  else
    let sent ← sendCommand (UInt8.ofNat numSectors) lba ataCmdReadSectorsMulti
    if sent ≠ 0 then pure (sent, buffer) else multiRead numSectors 0 buffer

/-- The loop of `disk_read_sectors`, with `left` sectors to go from `i` on. -/
def singleReads (lba : Nat) : Nat → Nat → Buf → Io (Int × Buf)
  | 0, _, buffer => pure (0, buffer)
  | left + 1, i, buffer => do
    let (result, buffer) ← diskReadSector (lbaAdd lba i) buffer (i * sectorSize)
    if result ≠ 0 then pure (result, buffer) else singleReads lba left (i + 1) buffer

def diskReadSectors (lba : Nat) (buffer : Buf) (numSectors : Nat) : Io (Int × Buf) := do
  if numSectors = 0 then pure (-1, buffer)
  else if 1 < numSectors ∧ numSectors ≤ 256 then
    let (result, buffer) ← diskReadSectorsMultiPio lba buffer numSectors
    if result = 0 then pure (0, buffer) else singleReads lba numSectors 0 buffer
  else singleReads lba numSectors 0 buffer

/-- The loop of `disk_write_sectors_multi_pio`, with `left` sectors to go from `sector` on. -/
def multiWrite (buffer : Buf) : Nat → Nat → Io Int
  | 0, _ => writeResult
  | left + 1, sector => do
    if (← waitForDrq) ≠ 0 then pure (-3)
    else
      writeWords buffer (sector * sectorSize) 256
      multiWrite buffer left (sector + 1)

def diskWriteSectorsMultiPio (lba : Nat) (buffer : Buf) (numSectors : Nat) : Io Int := do
  if numSectors = 0 ∨ 256 < numSectors then pure (-1)
  else
    let sent ← sendCommand (UInt8.ofNat numSectors) lba ataCmdWriteSectorsMulti
    if sent ≠ 0 then pure sent else multiWrite buffer numSectors 0

/-- The loop of `disk_write_sectors`, with `left` sectors to go from `i` on. -/
def singleWrites (lba : Nat) (buffer : Buf) : Nat → Nat → Io Int
  | 0, _ => pure 0
  | left + 1, i => do
    let result ← diskWriteSector (lbaAdd lba i) buffer (i * sectorSize)
    if result ≠ 0 then pure result else singleWrites lba buffer left (i + 1)

def diskWriteSectors (lba : Nat) (buffer : Buf) (numSectors : Nat) : Io Int := do
  if numSectors = 0 then pure (-1)
  else if 1 < numSectors ∧ numSectors ≤ 256 then
    let result ← diskWriteSectorsMultiPio lba buffer numSectors
    if result = 0 then pure 0 else singleWrites lba buffer numSectors 0
  else singleWrites lba buffer numSectors 0

end AltoniumOS.Disk

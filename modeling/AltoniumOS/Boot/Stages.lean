/-
The two boot stages, `boot.asm` and `bootloader/stage2.asm`, on the memory they store to and the BIOS
they call.

Addresses are physical: all segment registers are zero but where the code says so. A BIOS disk read does
what its documentation says with the registers and the packet it finds in memory, up to the sector at
which it gives up. The text of the stages is taken as given, also where the load of the kernel goes over it. Of
the stack only how far it reaches down is kept, and the video calls and the delay loops are left out.
-/
import AltoniumOS.Lib.Bytes

namespace AltoniumOS.Boot

open AltoniumOS.Lib

abbrev Memory := Buf

/-- `mov byte [a], v` -/
def storeByte (m : Memory) (a : Nat) (v : UInt8) : Memory := Function.update m a v

/-- `mov word [a], v` -/
def storeWord (m : Memory) (a v : Nat) : Memory := m.blit a (leByte v) 2

/-- `mov dword [a], v` -/
def storeDword (m : Memory) (a v : Nat) : Memory := m.blit a (leByte v) 4

/-! ## The BIOS -/

/-- The disk the BIOS reads, and the geometry it reports. -/
structure Disk where
  bytes : Buf
  sectorsPerTrack : Nat
  heads : Nat

/-- How a disk read comes back: the carry flag, `AH`, and the sectors it transferred. -/
structure Answer where
  carry : Bool
  ah : UInt8
  done : Nat

/-- The registers a disk read looks at. -/
structure Registers where
  ah : UInt8
  al : UInt8 := 0
  ch : UInt8 := 0
  cl : UInt8 := 0
  dh : UInt8 := 0
  bx : UInt16 := 0
  es : UInt16 := 0
  si : UInt16 := 0

/-- The sector that cylinder, head and the 1-based sector number stand for. -/
def chsSector (d : Disk) (r : Registers) : Nat :=
  let cylinder := r.ch.toNat + ((r.cl &&& 0xC0).toNat <<< 2)
  (cylinder * d.heads + r.dh.toNat) * d.sectorsPerTrack + ((r.cl &&& 0x3F).toNat - 1)

/-- `n` sectors from `sector` on, read to the address `a`. -/
def transfer (d : Disk) (sector n a : Nat) (m : Memory) : Memory :=
  m.blit a (fun i => d.bytes (512 * sector + i)) (512 * n)

/-- `int 0x13` with `AH = 02h` (CHS) or `AH = 42h` (disk address packet at `DS:SI`). -/
def int13Read (d : Disk) (answer : Answer) (r : Registers) (m : Memory) : Memory :=
  if r.ah = 0x02 then transfer d (chsSector d r) (min answer.done r.al.toNat) (16 * r.es.toNat + r.bx.toNat) m
  else if r.ah = 0x42 then
    let packet := r.si.toNat
    transfer d (m.le (packet + 8) 8) (min answer.done (m.le (packet + 2) 2))
      (16 * m.le (packet + 6) 2 + m.le (packet + 4) 2) m
  else m

/-- What `int 0x15` with `EAX = E820h` comes back with: the bytes it wrote to `ES:DI`, at most 24, and the next
`EBX`. -/
structure MapReply where
  carry : Bool
  entry : List UInt8
  ebx : UInt32

structure Bios where
  disk : Disk
  /-- The answer to `AH = 41h`: the carry flag and `BX`. -/
  extensions : Bool × UInt16
  /-- The answer to the kernel load of stage 2. -/
  kernelRead : Answer
  /-- The answer to the call of this number, for these `EDX` and `EBX`. -/
  memoryMap : Nat → UInt32 → UInt32 → MapReply
  /-- The bytes it takes on the stack during such a call, below those the call itself takes. -/
  stackUse : Nat

/-! ## Stage 1 -/

/-- The registers at the disk read of stage 1. -/
def stage1Registers : Registers := { ah := 0x02, al := 1, ch := 0, cl := 1, dh := 0, bx := 0, es := 0x7E0 }

/-! ## Stage 2 -/

/-- The values stage 2 stores to the boot record, by the fields its comments name. -/
structure Recorded where
  int13Extensions : UInt8
  int13Status : UInt8
  bootMethod : UInt8
  retryCount : UInt8
  memoryMb : Nat

/-- "BOOT" -/
def bootMagic : Nat := 0x424F4F54

/-- "Initialize bootlog at 0x500 with magic": the stores, with the offsets the code has. -/
def initRecord (m : Memory) : Memory :=
  let m := storeDword m 0x500 bootMagic
  let m := storeByte m (0x500 + 2) 0
  storeByte m (0x500 + 3) 0

/-- `.memory_loop`, for at most `fuel` calls; nothing if the map has not ended by then, or an entry reaches into the
stack: from `0x7C00` down the return address, the words of the interrupt, and what the BIOS takes. -/
def memoryLoop (map : Nat → UInt32 → UInt32 → MapReply) (stackUse : Nat) :
    Nat → Nat → UInt32 → UInt32 → Nat → Memory → Option Memory
  | 0, _, _, _, _, _ => none
  | fuel + 1, call, edx, ebx, edi, m =>
    let reply := map call edx ebx
    if reply.carry then some m
    else if edi + 24 + stackUse > 0x7C00 - 2 - 6 then none
    else
      let m := m.blit edi (fun i => reply.entry.getD i 0) (min reply.entry.length 24)
      let usable := m.le (edi + 20) 4 = 1
      let total := (m.le (0x500 + 0x0C) 4 + m.le (edi + 8) 4 / 2 ^ 20) % 2 ^ 32
      let m := if usable then storeDword m (0x500 + 0x0C) total else m
      let edx := if usable then .ofNat total else edx
      if reply.ebx = 0 then some m else memoryLoop map stackUse fuel (call + 1) edx reply.ebx (edi + 24) m

/-- `detect_memory` -/
def detectMemory (map : Nat → UInt32 → UInt32 → MapReply) (stackUse fuel : Nat) (m : Memory) : Option Memory :=
  memoryLoop map stackUse fuel 0 0x534D4150 0 0x620 (storeDword m (0x500 + 0x0C) 0)

/-- Whether the code takes the path with INT 13h extensions. -/
def Bios.hasEdd (b : Bios) : Bool := !b.extensions.1 && b.extensions.2 == 0xAA55

/-- The stores that make the disk address packet at `0x600`. -/
def storePacket (m : Memory) : Memory :=
  let m := storeByte m 0x600 0x10
  let m := storeByte m 0x601 0
  let m := storeWord m 0x602 64
  let m := storeDword m 0x604 0x10000
  let m := storeDword m 0x608 2
  storeDword m 0x60C 0

/-- `.load_with_edd`, up to the test of the carry flag. -/
def loadWithEdd (d : Disk) (answer : Answer) (m : Memory) : Memory :=
  int13Read d answer { ah := 0x42, si := 0x600 } (storePacket m)

/-- `.load_with_chs`, up to the test of the carry flag. -/
def loadWithChs (d : Disk) (answer : Answer) (m : Memory) : Memory :=
  int13Read d answer { ah := 0x02, al := 64, ch := 0, cl := 2, dh := 0, bx := 0, es := 0x1000 } m

/-- The kernel load, by the path taken. -/
def loadKernel (b : Bios) (m : Memory) : Memory :=
  if b.hasEdd then loadWithEdd b.disk b.kernelRead m else loadWithChs b.disk b.kernelRead m

/-- What is recorded of the load, on success and at `.disk_error`. -/
def recordLoad (b : Bios) (m : Memory) : Memory :=
  if b.kernelRead.carry then
    let m := storeByte m (0x500 + 6) 2
    let m := storeByte m (0x500 + 5) b.kernelRead.ah
    storeByte m (0x500 + 7) (m (0x500 + 7) + 1)
  else
    let m := storeByte m (0x500 + 6) (if b.hasEdd then 1 else 0)
    storeByte m (0x500 + 5) 0

/-- `stage2_start` to the jump to the kernel: the memory then, and what was recorded; nothing while the memory
map has not ended. -/
def stage2 (b : Bios) (fuel : Nat) (m : Memory) : Option (Memory × Recorded) := do
  let m ← detectMemory b.memoryMap b.stackUse fuel (initRecord m)
  let recorded : Recorded :=
    { int13Extensions := if b.hasEdd then 1 else 0
      int13Status := if b.kernelRead.carry then b.kernelRead.ah else 0
      bootMethod := if b.kernelRead.carry then 2 else if b.hasEdd then 1 else 0
      retryCount := if b.kernelRead.carry then 0 + 1 else 0
      memoryMb := m.le (0x500 + 0x0C) 4 }
  let m := storeByte m (0x500 + 4) (if b.hasEdd then 1 else 0)
  let m := loadKernel b m
  pure (recordLoad b m, recorded)

/-! ## What the stores leave -/

section

variable {m : Memory}

theorem storeDword_out {a v i : Nat} (h : i < a ∨ a + 4 ≤ i) : storeDword m a v i = m i := Buf.blit_out h

theorem storeByte_self {a : Nat} (v : UInt8) : storeByte m a v a = v := Function.update_self ..

theorem storeByte_ne {a i : Nat} (h : i ≠ a) (v : UInt8) : storeByte m a v i = m i := Function.update_of_ne h ..

theorem initRecord_out {a : Nat} (h : a < 0x500 ∨ 0x504 ≤ a) : initRecord m a = m a := by
  unfold initRecord
  rw [storeByte_ne (by omega), storeByte_ne (by omega), storeDword_out (by omega)]

/-- The memory outside the memory size in the record and the buffer for the map. -/
def SameOutside (m m' : Memory) : Prop := ∀ a, a < 0x50C ∨ 0x7C00 - 2 - 6 ≤ a → m' a = m a

theorem memoryLoop_frame {map : Nat → UInt32 → UInt32 → MapReply} {stackUse : Nat} :
    ∀ {fuel call : Nat} {edx ebx : UInt32} {edi : Nat} {m m' : Memory},
    0x620 ≤ edi → memoryLoop map stackUse fuel call edx ebx edi m = some m' → SameOutside m m'
  | 0, _, _, _, _, _, _, _, h => by cases h
  | fuel + 1, call, edx, ebx, edi, m, m', hedi, h => by
    rw [memoryLoop] at h
    dsimp only at h
    split at h
    · cases h
      exact fun _ _ => rfl
    · split at h
      · cases h
      · set m₁ : Memory :=
          m.blit edi (fun i => (map call edx ebx).entry.getD i 0) (min (map call edx ebx).entry.length 24) with hm₁
        set total := (m₁.le (0x500 + 0x0C) 4 + m₁.le (edi + 8) 4 / 2 ^ 20) % 2 ^ 32
        have hstored :
            SameOutside m (if m₁.le (edi + 20) 4 = 1 then storeDword m₁ (0x500 + 0x0C) total else m₁) := by
          intro a ha
          have hm : m₁ a = m a := Buf.blit_out (by omega)
          split
          · rw [storeDword_out (by omega), hm]
          · exact hm
        split at h
        · cases h
          exact hstored
        · intro a ha
          rw [memoryLoop_frame (by omega) h a ha, hstored a ha]

theorem detectMemory_frame {map : Nat → UInt32 → UInt32 → MapReply} {stackUse fuel : Nat} {m' : Memory}
    (h : detectMemory map stackUse fuel m = some m') :
    SameOutside m m' := by
  intro a ha
  rw [memoryLoop_frame (by decide) h a ha, storeDword_out (by omega)]

/-- The packet is at `0x600`. -/
theorem storePacket_out {a : Nat} (h : a < 0x600 ∨ 0x610 ≤ a) : storePacket m a = m a := by
  unfold storePacket
  rw [storeDword_out (by omega), storeDword_out (by omega), storeDword_out (by omega)]
  show (storeByte (storeByte m 0x600 0x10) 0x601 0).blit 0x602 (leByte 64) 2 a = _
  rw [Buf.blit_out (by omega), storeByte_ne (by omega), storeByte_ne (by omega)]

variable {b : Bios} {fuel : Nat}

/-- What is recorded of the load goes to three bytes. -/
theorem recordLoad_other {a : Nat} (h5 : a ≠ 0x505) (h6 : a ≠ 0x506) (h7 : a ≠ 0x507) : recordLoad b m a = m a := by
  unfold recordLoad
  split
  · dsimp only
    rw [storeByte_ne h7, storeByte_ne h5, storeByte_ne h6]
  · dsimp only
    rw [storeByte_ne h5, storeByte_ne h6]

/-- The record after a run of stage 2, part by part. -/
theorem stage2_eq {m' : Memory} {r : Recorded} (h : stage2 b fuel m = some (m', r)) :
    ∃ m₁, detectMemory b.memoryMap b.stackUse fuel (initRecord m) = some m₁ ∧
      m' = recordLoad b (loadKernel b (storeByte m₁ 0x504 (if b.hasEdd then 1 else 0))) ∧
      r = { int13Extensions := if b.hasEdd then 1 else 0
            int13Status := if b.kernelRead.carry then b.kernelRead.ah else 0
            bootMethod := if b.kernelRead.carry then 2 else if b.hasEdd then 1 else 0
            retryCount := if b.kernelRead.carry then 0 + 1 else 0
            memoryMb := m₁.le 0x50C 4 } := by
  unfold stage2 at h
  cases hd : detectMemory b.memoryMap b.stackUse fuel (initRecord m) with
  | none =>
    rw [hd] at h
    cases h
  | some m₁ =>
    rw [hd] at h
    cases h
    exact ⟨m₁, rfl, rfl, rfl⟩

end

/-! ## What the loads transfer -/

theorem storePacket_le (m : Memory) :
    (storePacket m).le 0x602 2 = 64 ∧ (storePacket m).le 0x604 2 = 0 ∧ (storePacket m).le 0x606 2 = 1 ∧
      (storePacket m).le 0x608 8 = 2 := by
  refine ⟨?_, ?_, ?_, ?_⟩ <;> simp [storePacket, storeDword, storeWord, storeByte, Buf.le, Buf.blit, leByte]

/-- The packet's buffer is offset 0 of segment 1: address `0x10`. -/
theorem loadWithEdd_eq (d : Disk) (answer : Answer) (m : Memory) :
    loadWithEdd d answer m = transfer d 2 (min answer.done 64) 0x10 (storePacket m) := by
  obtain ⟨hcount, hoffset, hsegment, hsector⟩ := storePacket_le m
  unfold loadWithEdd int13Read
  rw [if_neg (by decide), if_pos rfl]
  show transfer d ((storePacket m).le (0x600 + 8) 8) _ _ _ = _
  rw [hsector, show (storePacket m).le ((0x600 : UInt16).toNat + 2) 2 = 64 from hcount,
    show (storePacket m).le ((0x600 : UInt16).toNat + 6) 2 = 1 from hsegment,
      show (storePacket m).le ((0x600 : UInt16).toNat + 4) 2 = 0 from hoffset]

/-- Sector number 2 of the first track is the sector behind the boot sector. -/
theorem loadWithChs_eq (d : Disk) (answer : Answer) (m : Memory) :
    loadWithChs d answer m = transfer d 1 (min answer.done 64) 0x10000 m := by
  unfold loadWithChs int13Read
  rw [if_pos rfl]
  have hsector : chsSector d { ah := 0x02, al := 64, ch := 0, cl := 2, dh := 0, bx := 0, es := 0x1000 } = 1 := by
    simp [chsSector]
  rw [hsector]
  rfl

/-- Sector number 1 of the first track is the boot sector. -/
theorem stage1_sector (d : Disk) : chsSector d stage1Registers = 0 := by simp [chsSector, stage1Registers]

end AltoniumOS.Boot

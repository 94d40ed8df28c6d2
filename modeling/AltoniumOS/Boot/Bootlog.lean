/-
The boot record as the kernel reads it (`kernel/bootlog.c`), after stage 2 has written it.

Stage 2 clears the bytes at offsets 2 and 3, where its comments have the boot method and the retry count;
in the layout of `bootlog.h` these are the upper half of the magic. The record is recognised only where
the kernel load, which on the EDD path goes to address `0x10`, puts the magic back.
-/
import AltoniumOS.Boot.Stages

namespace AltoniumOS.Boot

open AltoniumOS.Lib

/-- `BOOTLOG_ADDR` -/
def bootlogAddr : Nat := 0x500
/-- `BOOTLOG_MAGIC` -/
def bootlogMagic : Nat := 0x424F4F54

/-- `bootlog_init`; the fields by their offsets in `bootlog_data_t`. -/
def bootlogInit (m : Memory) : Memory :=
  if m.le bootlogAddr 4 ≠ bootlogMagic then
    let m := storeDword m bootlogAddr bootlogMagic
    let m := storeByte m (bootlogAddr + 4) 0
    let m := storeByte m (bootlogAddr + 5) 0
    let m := storeByte m (bootlogAddr + 6) 0
    let m := storeByte m (bootlogAddr + 7) 0
    let m := storeWord m (bootlogAddr + 8) 0
    let m := storeByte m (bootlogAddr + 10) 0
    let m := storeByte m (bootlogAddr + 11) 0
    let m := storeDword m (bootlogAddr + 12) 0
    let m := storeByte m (bootlogAddr + 16) 0
    storeByte m (bootlogAddr + 48) 0
  else m

/-- The fields of the record the kernel goes by. -/
def readRecord (m : Memory) : Recorded where
  int13Extensions := m (bootlogAddr + 4)
  int13Status := m (bootlogAddr + 5)
  bootMethod := m (bootlogAddr + 6)
  retryCount := m (bootlogAddr + 7)
  memoryMb := m.le (bootlogAddr + 12) 4

/-- The kernel recognises the record, and reads what was recorded. -/
def RecordSeen (m : Memory) (r : Recorded) : Prop :=
  m.le bootlogAddr 4 = bootlogMagic ∧ readRecord (bootlogInit m) = r

section

variable {m : Memory} {b : Bios} {fuel : Nat}

/-- The megabytes of the usable entries in the replies, from the call of this number on; what a reply leaves of
its entry is in memory before. -/
def usableMb (map : Nat → UInt32 → UInt32 → MapReply) (stackUse : Nat) (before : Memory) :
    Nat → Nat → UInt32 → UInt32 → Nat → Nat → Option Nat
  | 0, _, _, _, _, _ => none
  | fuel + 1, call, edx, ebx, edi, total =>
    let reply := map call edx ebx
    if reply.carry then some total
    else if edi + 24 + stackUse > 0x7C00 - 2 - 6 then none
    else
      let entry : Buf := fun i => if i < min reply.entry.length 24 then reply.entry.getD i 0 else before (edi + i)
      let usable := entry.le 20 4 = 1
      let sum := (total + entry.le 8 4 / 2 ^ 20) % 2 ^ 32
      let total := if usable then sum else total
      if reply.ebx = 0 then some total
      else usableMb map stackUse before fuel (call + 1) (if usable then .ofNat sum else edx) reply.ebx
        (edi + 24) total

theorem memoryLoop_size {map : Nat → UInt32 → UInt32 → MapReply} {stackUse : Nat} (before : Memory) :
    ∀ {fuel call : Nat} {edx ebx : UInt32} {edi : Nat} {m m' : Memory},
    0x620 ≤ edi → (∀ a, edi ≤ a → m a = before a) → memoryLoop map stackUse fuel call edx ebx edi m = some m' →
    usableMb map stackUse before fuel call edx ebx edi (m.le 0x50C 4) = some (m'.le 0x50C 4)
  | 0, _, _, _, _, _, _, _, _, h => by cases h
  | fuel + 1, call, edx, ebx, edi, m, m', hedi, hbefore, h => by
    rw [memoryLoop] at h
    rw [usableMb]
    dsimp only at h ⊢
    split at h
    · rename_i hcarry
      cases h
      rw [if_pos hcarry]
    rename_i hcarry
    rw [if_neg hcarry]
    split at h
    · cases h
    rename_i hroom
    rw [if_neg hroom]
    set entry : Buf := fun i => if i < min (map call edx ebx).entry.length 24 then (map call edx ebx).entry.getD i 0
      else before (edi + i)
    set m₁ : Memory :=
      m.blit edi (fun i => (map call edx ebx).entry.getD i 0) (min (map call edx ebx).entry.length 24) with hm₁
    -- the entry is in memory, and the sum so far still in the record
    have hentry : ∀ i, m₁ (edi + i) = entry i := by
      intro i
      by_cases hi : i < min (map call edx ebx).entry.length 24
      · exact (Buf.blit_in hi).trans (if_pos hi).symm
      · exact ((Buf.blit_out (by omega)).trans (hbefore _ (by omega))).trans (if_neg hi).symm
    have hsum : m₁.le 0x50C 4 = m.le 0x50C 4 := Buf.le_congr 4 _ _ fun k hk => Buf.blit_out (by omega)
    have htype : m₁.le (edi + 20) 4 = entry.le 20 4 := Buf.le_congr 4 _ _ fun k hk => by rw [Nat.add_assoc, hentry]
    have hlength : m₁.le (edi + 8) 4 = entry.le 8 4 := Buf.le_congr 4 _ _ fun k hk => by rw [Nat.add_assoc, hentry]
    rw [show 0x500 + 0x0C = 0x50C from rfl, htype, hlength, hsum] at h
    set sum := (m.le 0x50C 4 + entry.le 8 4 / 2 ^ 20) % 2 ^ 32 with hsumdef
    set m₂ : Memory := if entry.le 20 4 = 1 then storeDword m₁ 0x50C sum else m₁ with hm₂
    have hstored : m₂.le 0x50C 4 = if entry.le 20 4 = 1 then sum else m.le 0x50C 4 := by
      rw [hm₂]
      split
      · have hread : (storeDword m₁ 0x50C sum).le 0x50C 4 = sum / 256 ^ 0 % 256 ^ 4 :=
          le_of_leByte sum 4 0 0x50C fun i hi => by rw [storeDword, Buf.blit_in hi, Nat.zero_add]
        rw [hread, hsumdef]
        omega
      · exact hsum
    have hafter : ∀ a, edi + 24 ≤ a → m₂ a = before a := by
      intro a ha
      have h₁ : m₁ a = before a := (Buf.blit_out (by omega)).trans (hbefore a (by omega))
      rw [hm₂]
      split
      · rw [storeDword_out (by omega), h₁]
      · exact h₁
    rw [← hstored]
    split at h
    · rename_i hlast
      rw [if_pos hlast, Option.some.inj h]
    · rename_i hlast
      rw [if_neg hlast]
      exact memoryLoop_size before (by omega) hafter h

/-- The size in the record after `detect_memory`. -/
theorem detectMemory_size {m' : Memory} (h : detectMemory b.memoryMap b.stackUse fuel (initRecord m) = some m') :
    usableMb b.memoryMap b.stackUse m fuel 0 0x534D4150 0 0x620 0 = some (m'.le 0x50C 4) := by
  have hzero : (storeDword (initRecord m) 0x50C 0).le 0x50C 4 = 0 / 256 ^ 0 % 256 ^ 4 :=
    le_of_leByte 0 4 0 0x50C fun i hi => by rw [storeDword, Buf.blit_in hi, Nat.zero_add]
  have hsize := memoryLoop_size m (le_refl _) (fun a ha => ?_) h
  · rwa [show (0x500 + 0x0C : Nat) = 0x50C from rfl, hzero] at hsize
  · rw [storeDword_out (by omega)]
    exact initRecord_out (by omega)

/-- The sectors read over the record spell it: the magic, the extensions used, no retry, and the memory size
found. -/
def Spelled (d : Disk) (memoryMb : Option Nat) : Prop :=
  let record := 512 * 2 + 0x4F0
  d.bytes.le record 4 = bootlogMagic ∧ d.bytes (record + 4) = 1 ∧ d.bytes (record + 7) = 0 ∧
    memoryMb = some (d.bytes.le (record + 12) 4)

/-- A load that does not reach the record leaves it. -/
theorem loadKernel_short (h : ¬ (b.hasEdd = true ∧ 3 ≤ b.kernelRead.done)) {a : Nat} (ha : 0x500 ≤ a)
    (ha' : a < 0x510) : loadKernel b m a = m a := by
  unfold loadKernel
  split
  · rename_i hedd
    have hdone : b.kernelRead.done < 3 := by
      by_contra hge
      exact h ⟨hedd, by omega⟩
    rw [loadWithEdd_eq, transfer, Buf.blit_out (by omega), storePacket_out (by omega)]
  · rw [loadWithChs_eq, transfer, Buf.blit_out (by omega)]

/-- One that does puts sectors of the disk there. -/
theorem loadKernel_over (hedd : b.hasEdd = true) (hdone : 3 ≤ b.kernelRead.done) {j : Nat} (hj : j < 16) :
    loadKernel b m (0x500 + j) = b.disk.bytes (512 * 2 + 0x4F0 + j) := by
  unfold loadKernel
  rw [if_pos hedd, loadWithEdd_eq, transfer, show 0x500 + j = 0x10 + (0x4F0 + j) by
    omega, Buf.blit_in (by omega), Nat.add_assoc]

/-- The three bytes, as the code has them. -/
theorem recordLoad_self : recordLoad b m 0x505 = (if b.kernelRead.carry then b.kernelRead.ah else 0) ∧
    recordLoad b m 0x506 = (if b.kernelRead.carry then 2 else if b.hasEdd then 1 else 0) ∧
    recordLoad b m 0x507 = (if b.kernelRead.carry then m 0x507 + 1 else m 0x507) := by
  unfold recordLoad
  cases b.kernelRead.carry with
  | true =>
    refine ⟨?_, ?_, ?_⟩
    · exact (storeByte_ne (by decide) _).trans (storeByte_self _)
    · exact (storeByte_ne (by decide) _).trans ((storeByte_ne (by decide) _).trans (storeByte_self _))
    · refine (storeByte_self _).trans (congrArg (· + 1) ?_)
      exact (storeByte_ne (by decide) _).trans (storeByte_ne (by decide) _)
  | false =>
    refine ⟨?_, ?_, ?_⟩
    · exact storeByte_self _
    · exact (storeByte_ne (by decide) _).trans (storeByte_self _)
    · exact (storeByte_ne (by decide) _).trans (storeByte_ne (by decide) _)

/-- A number whose upper two bytes are zero. -/
theorem le_four_lt {b : Buf} {i : Nat} (h2 : b (i + 2) = 0) (h3 : b (i + 3) = 0) : b.le i 4 < 0x10000 := by
  have h : b.le i 4 = b.le i 2 := by simp [Buf.le, h2, h3]
  rw [h]
  exact Buf.le_lt b 2 i

/-- Where the load does not put it back, the upper half of the magic is zero. -/
theorem magic_lost {m' : Memory} {r : Recorded} (h : stage2 b fuel m = some (m', r))
    (hshort : ¬ (b.hasEdd = true ∧ 3 ≤ b.kernelRead.done)) : m'.le bootlogAddr 4 ≠ bootlogMagic := by
  obtain ⟨m₁, hd, rfl, -⟩ := stage2_eq h
  have hkept : ∀ a, 0x500 ≤ a → a < 0x504 →
      recordLoad b (loadKernel b (storeByte m₁ 0x504 (if b.hasEdd then 1 else 0))) a = initRecord m a := by
    intro a ha ha'
    rw [recordLoad_other (by omega) (by omega) (by omega), loadKernel_short hshort ha (by omega),
      storeByte_ne (by omega), detectMemory_frame hd a (by omega)]
  have h2 : initRecord m 0x502 = 0 := (storeByte_ne (by decide) 0).trans (storeByte_self 0)
  have h3 : initRecord m 0x503 = 0 := storeByte_self 0
  have hlow :=
    le_four_lt (i := bootlogAddr) ((hkept 0x502 (by decide) (by decide)).trans h2)
      ((hkept 0x503 (by decide) (by decide)).trans h3)
  intro hmagic
  rw [hmagic] at hlow
  exact absurd hlow (by decide)

theorem readRecord_init (h : m.le bootlogAddr 4 = bootlogMagic) : bootlogInit m = m := if_neg (not_not_intro h)

/-- The kernel sees what stage 2 recorded exactly if the EDD load happens to put the record there. -/
theorem record_seen_iff {m' : Memory} {r : Recorded} (h : stage2 b fuel m = some (m', r)) :
    RecordSeen m' r ↔ b.hasEdd = true ∧ 3 ≤ b.kernelRead.done ∧
      Spelled b.disk (usableMb b.memoryMap b.stackUse m fuel 0 0x534D4150 0 0x620 0) := by
  by_cases hover : b.hasEdd = true ∧ 3 ≤ b.kernelRead.done
  swap
  · constructor
    · intro hseen
      exact absurd hseen.1 (magic_lost h hover)
    · rintro ⟨hedd, hdone, -⟩
      exact absurd ⟨hedd, hdone⟩ hover
  obtain ⟨hedd, hdone⟩ := hover
  obtain ⟨m₁, hd, rfl, rfl⟩ := stage2_eq h
  have hfound := detectMemory_size hd
  -- the load has put sector 2 of the image over the record
  have hover : ∀ j, j < 16 → loadKernel b (storeByte m₁ 0x504 (if b.hasEdd then 1 else 0)) (0x500 + j) =
      b.disk.bytes (512 * 2 + 0x4F0 + j) :=
    fun j hj => loadKernel_over hedd hdone hj
  generalize loadKernel b (storeByte m₁ 0x504 (if b.hasEdd then 1 else 0)) = loaded at hover
  obtain ⟨hstatus, hmethod, hretry⟩ := recordLoad_self (b := b) (m := loaded)
  have hmagic : (recordLoad b loaded).le bootlogAddr 4 = b.disk.bytes.le (512 * 2 + 0x4F0) 4 := by
    apply Buf.le_congr 4 0x500
    intro k hk
    rw [recordLoad_other (by omega) (by omega) (by omega), hover k (by omega)]
  have hsize : (recordLoad b loaded).le (bootlogAddr + 12) 4 = b.disk.bytes.le (512 * 2 + 0x4F0 + 12) 4 := by
    apply Buf.le_congr 4 (0x500 + 12)
    intro k hk
    rw [recordLoad_other (by omega) (by omega) (by omega), show 0x500 + 12 + k = 0x500 + (12 + k) by
      omega, hover (12 + k) (by omega), ← Nat.add_assoc]
  have hext : recordLoad b loaded 0x504 = b.disk.bytes (512 * 2 + 0x4F0 + 4) := by
    rw [recordLoad_other (by decide) (by decide) (by decide)]
    exact hover 4 (by decide)
  have hnone : loaded 0x507 = b.disk.bytes (512 * 2 + 0x4F0 + 7) := hover 7 (by decide)
  have hretry' : recordLoad b loaded 0x507 = (if b.kernelRead.carry then 0 + 1 else 0) ↔
      b.disk.bytes (512 * 2 + 0x4F0 + 7) = 0 := by
    rw [hretry, hnone]
    split <;> simp
  constructor
  · rintro ⟨hm, hread⟩
    rw [readRecord_init hm] at hread
    injection hread with h4 _ _ h7 h12
    refine ⟨hedd, hdone, hmagic.symm.trans hm, ?_, hretry'.1 h7, ?_⟩
    · rw [← hext]
      exact h4.trans (if_pos hedd)
    · rw [hfound, ← hsize]
      exact congrArg some h12.symm
  · rintro ⟨-, -, hm, h4, h7, h12⟩
    have hm := hmagic.trans hm
    refine ⟨hm, ?_⟩
    rw [readRecord_init hm]
    rw [hfound, ← hsize] at h12
    unfold readRecord
    congr 1
    · exact hext.trans (h4.trans (if_pos hedd).symm)
    · exact hretry'.2 h7
    · exact (Option.some.inj h12).symm

end

/-- A machine without the extensions, with 64 MB in one entry of its memory map. -/
def chsMachine : Bios where
  disk := { bytes := fun _ => 0, sectorsPerTrack := 63, heads := 16 }
  extensions := (true, 0)
  kernelRead := { carry := false, ah := 0, done := 64 }
  memoryMap := fun _ _ _ =>
    { carry := false
      entry := [0, 0, 0, 0, 0, 0, 0, 0, 0, 0, 0, 4, 0, 0, 0, 0, 1, 0, 0, 0, 1, 0, 0, 0]
      ebx := 0 }
  stackUse := 0x100

/-- Stage 2 records 64 MB; the kernel does not recognise the record and reads none. -/
theorem record_lost : ∃ m r, stage2 chsMachine 1 (fun _ => 0) = some (m, r) ∧ r.memoryMb = 64 ∧
    ¬ RecordSeen m r ∧ (readRecord (bootlogInit m)).memoryMb = 0 := by
  refine ⟨_, _, rfl, by decide +kernel, ?_, by decide +kernel⟩
  rintro ⟨hmagic, -⟩
  revert hmagic
  decide +kernel

/-- A machine with the extensions, whose disk has "BOOT" and 1 where the record comes to lie, and nothing else, and
fails after three sectors. -/
def eddMachine : Bios where
  disk :=
    { bytes := fun i => if 2288 ≤ i ∧ i < 2292 then leByte bootlogMagic (i - 2288) else if i = 2292 then 1 else 0
      sectorsPerTrack := 63
      heads := 16 }
  extensions := (false, 0xAA55)
  kernelRead := { carry := true, ah := 4, done := 3 }
  memoryMap := fun _ _ _ => { carry := true, entry := [], ebx := 0 }
  stackUse := 0x100

theorem record_seen_there : ∃ m r, stage2 eddMachine 1 (fun _ => 0) = some (m, r) ∧ RecordSeen m r := by
  obtain ⟨m, r, hrun⟩ : ∃ m r, stage2 eddMachine 1 (fun _ => 0) = some (m, r) := ⟨_, _, rfl⟩
  refine ⟨m, r, hrun, (record_seen_iff hrun).2 ?_⟩
  exact ⟨rfl, by decide, by decide, by decide, by decide, by decide⟩

end AltoniumOS.Boot

/-
What the two stages load of an image of the builder.

Stage 1 reads sector number 1, which is the boot sector itself: the numbers of `AH = 02h` start at 1, and
stage 2 was put behind. Stage 2 reads 64 sectors: with the extensions from the start of the kernel on, to
address `0x10`, and without them from one sector before it, to `0x10000`.
-/
import AltoniumOS.Image.Layout
import AltoniumOS.Boot.Stages

namespace AltoniumOS.Boot

open AltoniumOS.Lib
open AltoniumOS.Image (buildImage buildImage_reserved put put_in put_out bytesPerSector)

/-- The kernel is where stage 2 jumps to. -/
def KernelAt (kernel : List UInt8) (m : Memory) : Prop := ∀ i < kernel.length, m (0x10000 + i) = kernel.getD i 0

instance (kernel : List UInt8) (m : Memory) : Decidable (KernelAt kernel m) :=
  inferInstanceAs (Decidable (∀ i < _, _))

/-- Where the builder puts stage 2: `image[BYTES_PER_SECTOR:BYTES_PER_SECTOR + len(stage2_data)] = stage2_data`. -/
def stage2Offset : Nat := bytesPerSector

/-- Stage 1 reads the sector where stage 2 is, and the kernel is loaded. -/
structure Boots (b : Bios) (kernel : List UInt8) (m : Memory) : Prop where
  stage2 : bytesPerSector * chsSector b.disk stage1Registers = stage2Offset
  kernel : KernelAt kernel m

section

variable {bootSector boot2 kernel : List UInt8} {image : Buf} {b : Bios} {fuel : Nat} {m m' : Memory} {r : Recorded}

/-- The image from its second sector on: stage 2, and the kernel behind it. -/
theorem image_kernel (h : buildImage bootSector kernel (some boot2) = .ok image) {i : Nat} (hi : i < 0x8000) :
    image (512 + i) = if i < 512 then boot2.getD i 0 else kernel.getD (i - 512) 0 := by
  obtain ⟨hboot, hboot2, -, himage⟩ := buildImage_reserved h
  -- past its end, a part reads as the zeros it was put over
  have hzero : ∀ {l : List UInt8} {j : Nat}, l.length ≤ j → l.getD j 0 = 0 := by
    intro l j hj
    rw [List.getD_eq_getElem?_getD, List.getElem?_eq_none hj]
    rfl
  rw [himage _ (by omega)]
  split
  · rename_i hlt
    rw [put_out (by omega)]
    rcases Nat.lt_or_ge i boot2.length with h1 | h1
    · rw [put_in h1]
    · rw [put_out (by omega), put_out (by omega), hzero h1]
  · rename_i hge
    obtain ⟨j, rfl⟩ : ∃ j, i = 512 + j := ⟨i - 512, by omega⟩
    rw [Nat.add_sub_cancel_left, show 512 + (512 + j) = 1024 + j by omega]
    rcases Nat.lt_or_ge j kernel.length with h1 | h1
    · rw [put_in h1]
    · rw [put_out (by omega), put_out (by omega), put_out (by omega), hzero h1]

/-- The memory from `0x10000` on at the jump. -/
theorem stage2_high (h : stage2 b fuel m = some (m', r)) (hdone : 64 ≤ b.kernelRead.done) (i : Nat) :
    m' (0x10000 + i) = if b.hasEdd = true ∨ 0x8000 ≤ i then m (0x10000 + i) else b.disk.bytes (512 + i) := by
  obtain ⟨m₁, hd, rfl, -⟩ := stage2_eq h
  rw [recordLoad_other (by omega) (by omega) (by omega)]
  have hbefore : ∀ v, storeByte m₁ 0x504 v (0x10000 + i) = m (0x10000 + i) := by
    intro v
    rw [storeByte_ne (by omega), detectMemory_frame hd _ (by omega), initRecord_out (by omega)]
  by_cases hedd : b.hasEdd = true
  · have hload : ∀ m₀, loadKernel b m₀ (0x10000 + i) = m₀ (0x10000 + i) := by
      intro m₀
      unfold loadKernel
      rw [if_pos hedd, loadWithEdd_eq, transfer, Buf.blit_out (by omega), storePacket_out (by omega)]
    rw [hload, hbefore, if_pos (Or.inl hedd)]
  · have hload : ∀ m₀, loadKernel b m₀ (0x10000 + i) = if 0x8000 ≤ i then m₀ (0x10000 + i)
        else b.disk.bytes (512 + i) := by
      intro m₀
      unfold loadKernel
      rw [if_neg hedd, loadWithChs_eq, transfer, Nat.min_eq_right hdone]
      split
      · exact Buf.blit_out (by omega)
      · exact Buf.blit_in (by omega)
    rw [hload, hbefore]
    exact if_congr (by simp [hedd]) rfl rfl

/-- The kernel is loaded only where memory held it before, or, without the extensions, the bytes of the kernel
are those of the sector before. -/
theorem kernelAt_iff (hbuilt : buildImage bootSector kernel (some boot2) = .ok image)
    (hdisk : ∀ i < 0x10000, b.disk.bytes i = image i) (hdone : 64 ≤ b.kernelRead.done)
    (h : stage2 b fuel m = some (m', r)) :
    KernelAt kernel m' ↔ ∀ i < kernel.length,
      (if b.hasEdd = true ∨ 0x8000 ≤ i then m (0x10000 + i) else if i < 512 then boot2.getD i 0
        else kernel.getD (i - 512) 0) = kernel.getD i 0 := by
  have hbyte : ∀ i, m' (0x10000 + i) =
      if b.hasEdd = true ∨ 0x8000 ≤ i then m (0x10000 + i) else if i < 512 then boot2.getD i 0
          else kernel.getD (i - 512) 0 := by
    intro i
    rw [stage2_high h hdone]
    split
    · rfl
    · rename_i hi
      rw [hdisk _ (by omega), image_kernel hbuilt (by omega)]
  unfold KernelAt
  simp only [hbyte]

/-- No image boots: stage 1 never reads stage 2. And the kernel is loaded by accident only. -/
theorem never_boots (hbuilt : buildImage bootSector kernel (some boot2) = .ok image)
    (hdisk : ∀ i < 0x10000, b.disk.bytes i = image i) (hread : b.kernelRead.carry = false ∧ 64 ≤ b.kernelRead.done)
    (h : stage2 b fuel m = some (m', r)) :
    ¬ Boots b kernel m' ∧ (KernelAt kernel m' ↔ ∀ i < kernel.length,
      (if b.hasEdd = true ∨ 0x8000 ≤ i then m (0x10000 + i) else if i < 512 then boot2.getD i 0
        else kernel.getD (i - 512) 0) = kernel.getD i 0) := by
  constructor
  · rintro ⟨hstage2, -⟩
    rw [stage1_sector] at hstage2
    cases hstage2
  · exact kernelAt_iff hbuilt hdisk hread.2 h

end

/-- A machine with an image on its disk, with and without the extensions. -/
def machine (image : Buf) (edd : Bool) : Bios where
  disk := { bytes := image, sectorsPerTrack := 63, heads := 16 }
  extensions := (!edd, 0xAA55)
  kernelRead := { carry := false, ah := 0, done := 64 }
  memoryMap := fun _ _ _ => { carry := true, entry := [], ebx := 0 }
  stackUse := 0x100

theorem machine_runs (image : Buf) (edd : Bool) : ∃ m r, stage2 (machine image edd) 1 (fun _ => 0) = some (m, r) :=
  ⟨_, _, rfl⟩

theorem never_boots_one : ∃ image m r, buildImage (List.replicate 512 0) [0xEB] (some [0xFA]) = .ok image ∧
    stage2 (machine image false) 1 (fun _ => 0) = some (m, r) ∧ ¬ Boots (machine image false) [0xEB] m := by
  obtain ⟨image, himage⟩ :=
    Image.buildImage_ok (List.replicate 512 0) [0xEB] [0xFA] List.length_replicate (by decide) (by decide)
  obtain ⟨m, r, hrun⟩ := machine_runs image false
  exact ⟨image, m, r, himage, hrun, (never_boots himage (fun _ _ => rfl) ⟨rfl, le_refl 64⟩ hrun).1⟩

/-- A kernel of one byte, on either path. -/
theorem kernel_not_loaded : ∃ image, buildImage (List.replicate 512 0) [0xEB] (some [0xFA]) = .ok image ∧
    ∀ edd, ∃ m r, stage2 (machine image edd) 1 (fun _ => 0) = some (m, r) ∧ ¬ KernelAt [0xEB] m ∧
      bytesPerSector * chsSector (machine image edd).disk stage1Registers ≠ stage2Offset := by
  obtain ⟨image, himage⟩ :=
    Image.buildImage_ok (List.replicate 512 0) [0xEB] [0xFA] List.length_replicate (by decide) (by decide)
  refine ⟨image, himage, ?_⟩
  intro edd
  obtain ⟨m, r, hrun⟩ := machine_runs image edd
  refine ⟨m, r, hrun, ?_, ?_⟩
  · intro hkernel
    have h0 := (kernelAt_iff himage (fun _ _ => rfl) (le_refl 64) hrun).1 hkernel 0 (by decide)
    cases edd with
    | true => exact absurd h0 (by decide : (0 : UInt8) ≠ 0xEB)
    | false => exact absurd h0 (by decide : (0xFA : UInt8) ≠ 0xEB)
  · rw [stage1_sector]
    decide

end AltoniumOS.Boot

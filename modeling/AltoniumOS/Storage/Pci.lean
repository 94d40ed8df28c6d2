/-
PCI functions and their enumeration: `pci.c`.

The configuration space is a byte array: byte `offset` of a function stands at the function's number, shifted
up, plus `offset`. The driver reads and writes it by 32-bit words through an address port, and cuts bytes and
16-bit words out of them. In the header of a function the PCI standard has the programming interface at 0x09,
the subclass at 0x0A and the base class at 0x0B.
-/
import AltoniumOS.Lib.Bytes
import AltoniumOS.Lib.Collect

namespace AltoniumOS.Storage

open AltoniumOS.Lib

def pciMaxDevices : Nat := 256

def pciVendorId : Nat := 0x00
def pciDeviceId : Nat := 0x02
def pciCommand : Nat := 0x04
def pciClassCode : Nat := 0x09
def pciSubclassCode : Nat := 0x0A
def pciProgIf : Nat := 0x09
def pciBar0 : Nat := 0x10

def pciClassStorage : UInt8 := 0x01
def pciSubclassSata : UInt8 := 0x06
def pciSubclassNvme : UInt8 := 0x08

def pciCmdMemorySpace : Nat := 0x0002
def pciCmdBusMaster : Nat := 0x0004

/-- A place on the bus. -/
structure PciFunction where
  bus : Nat
  dev : Nat
  fn : Nat
  deriving DecidableEq

/-- Where the configuration bytes of a function begin. -/
def PciFunction.base (f : PciFunction) : Nat := 65536 * f.bus + 2048 * f.dev + 256 * f.fn

/-- A place there is. -/
structure PciFunction.Valid (f : PciFunction) : Prop where
  bus : f.bus < 256
  dev : f.dev < 32
  fn : f.fn < 8

/-! ## The address port -/

/-- The word written to `PCI_CONFIG_ADDR`. -/
def configAddress (f : PciFunction) (offset : Nat) : Nat :=
  0x80000000 ||| f.bus <<< 16 ||| f.dev <<< 11 ||| f.fn <<< 8 ||| (offset &&& 0xFC)

/-- The byte the data port stands at: the address without its enable bit. -/
def configByte (address : Nat) : Nat := address % 16777216

def pciReadConfig (space : Buf) (f : PciFunction) (offset : Nat) : Nat :=
  space.le (configByte (configAddress f offset)) 4

def pciWriteConfig (space : Buf) (f : PciFunction) (offset value : Nat) : Buf :=
  space.blit (configByte (configAddress f offset)) (leByte value) 4

def pciReadByte (space : Buf) (f : PciFunction) (offset : Nat) : UInt8 :=
  let data := pciReadConfig space f offset
  UInt8.ofNat (data >>> ((offset &&& 3) * 8) &&& 0xFF)

def pciReadWord (space : Buf) (f : PciFunction) (offset : Nat) : Nat :=
  let data := pciReadConfig space f offset
  data >>> ((offset &&& 2) * 8) &&& 0xFFFF

/-! ## Enumeration -/

/-- `pci_device_t` -/
structure PciDevice where
  function : PciFunction
  vendorId : Nat
  deviceId : Nat
  classCode : UInt8
  subclassCode : UInt8
  progIf : UInt8
  bar : Vector Nat 6
  deriving DecidableEq

/-- The entry recorded for a function. -/
def pciEntry (space : Buf) (f : PciFunction) : PciDevice where
  function := f
  vendorId := pciReadWord space f pciVendorId
  deviceId := pciReadWord space f pciDeviceId
  classCode := pciReadByte space f pciClassCode
  subclassCode := pciReadByte space f pciSubclassCode
  progIf := pciReadByte space f pciProgIf
  bar := Vector.ofFn fun i => pciReadConfig space f (pciBar0 + i * 4) &&& 0xFFFFFFF0

/-- There is room in `pci_devices`. -/
def pciRoom (devices : List PciDevice) : Bool := decide (devices.length < pciMaxDevices)

def pciEnumerate (space : Buf) : List PciDevice :=
  forWhile pciRoom (fun bus =>
    forWhile pciRoom (fun dev =>
      forWhile pciRoom (fun fn devices =>
        if pciReadWord space ⟨bus, dev, fn⟩ pciVendorId = 0xFFFF then devices
        else devices ++ [pciEntry space ⟨bus, dev, fn⟩]) 8 0) 32 0) 256 0 []

def pciEnableMemorySpace (space : Buf) (dev : PciDevice) : Buf :=
  let cmd := pciReadWord space dev.function pciCommand
  pciWriteConfig space dev.function pciCommand (cmd ||| pciCmdMemorySpace ||| pciCmdBusMaster)

/-! ## What the standard says -/

namespace PciFunction

variable (f : PciFunction) (space : Buf)

/-- A function answers: its vendor is not all ones. -/
def Present : Prop := space (f.base + 0x00) ≠ 0xFF ∨ space (f.base + 0x01) ≠ 0xFF

instance : Decidable (f.Present space) := inferInstanceAs (Decidable (_ ∨ _))

def declaredProgIf : UInt8 := space (f.base + 0x09)
def declaredSubclass : UInt8 := space (f.base + 0x0A)
def declaredClass : UInt8 := space (f.base + 0x0B)

/-- All places, by bus, device and function. -/
def all : List PciFunction :=
  (List.range 256).flatMap fun bus => (List.range 32).flatMap fun dev => (List.range 8).map fun fn => ⟨bus, dev, fn⟩

end PciFunction

/-- The functions that are there, as far as the driver has room for them. -/
def firstPresent (space : Buf) : List PciFunction := (PciFunction.all.filter (·.Present space)).take pciMaxDevices

/-! ## Bytes of a word -/

variable {space : Buf} {f : PciFunction} {offset : Nat}

theorem or_shift {i x y : Nat} (h : y < 2 ^ i) : x <<< i ||| y = x * 2 ^ i + y := by
  rw [← Nat.shiftLeft_add_eq_or_of_lt h, Nat.shiftLeft_eq]

theorem configByte_address (h : f.Valid) (ho : offset < 256) :
    configByte (configAddress f offset) = f.base + offset / 4 * 4 := by
  obtain ⟨hbus, hdev, hfn⟩ := h
  have hlow : offset &&& 0xFC = offset / 4 * 4 := (by decide +kernel : ∀ o < 256, o &&& 0xFC = o / 4 * 4) offset ho
  have h8 : f.fn <<< 8 ||| offset / 4 * 4 = f.fn * 2 ^ 8 + offset / 4 * 4 := or_shift (by omega)
  have h11 : f.dev <<< 11 ||| (f.fn * 2 ^ 8 + offset / 4 * 4) = f.dev * 2 ^ 11 + _ := or_shift (by omega)
  have h16 : f.bus <<< 16 ||| (f.dev * 2 ^ 11 + (f.fn * 2 ^ 8 + offset / 4 * 4)) = f.bus * 2 ^ 16 + _ :=
    or_shift (by omega)
  have h31 : 1 <<< 31 ||| (f.bus * 2 ^ 16 + (f.dev * 2 ^ 11 + (f.fn * 2 ^ 8 + offset / 4 * 4))) = 1 * 2 ^ 31 + _ :=
    or_shift (by omega)
  unfold configByte configAddress PciFunction.base
  rw [hlow, Nat.or_assoc, Nat.or_assoc, Nat.or_assoc, h8, h11, h16, show 0x80000000 = 1 <<< 31 from rfl, h31]
  omega

theorem pciReadConfig_eq (h : f.Valid) (ho : offset < 256) :
    pciReadConfig space f offset = space.le (f.base + offset / 4 * 4) 4 := by
  unfold pciReadConfig
  rw [configByte_address h ho]

theorem le_four (b : Buf) (a : Nat) : b.le a 4 =
    (b a).toNat + 256 * (b (a + 1)).toNat + 65536 * (b (a + 2)).toNat + 16777216 * (b (a + 3)).toNat := by
  simp only [Buf.le, Nat.add_assoc, Nat.reduceAdd]
  omega

/-- A byte read is the byte of the space. -/
theorem pciReadByte_eq (h : f.Valid) (ho : offset < 256) :
    pciReadByte space f offset = space (f.base + offset) := by
  apply UInt8.toNat_inj.1
  have hand : offset &&& 3 = offset % 4 := Nat.and_two_pow_sub_one_eq_mod offset 2
  unfold pciReadByte
  rw [pciReadConfig_eq h ho, hand]
  dsimp only
  rw [show ∀ x : Nat, x &&& 0xFF = x % 256 from fun x => Nat.and_two_pow_sub_one_eq_mod x 8,
    UInt8.toNat_ofNat', le_four, Nat.shiftRight_eq_div_pow]
  have h0 := (space (f.base + offset / 4 * 4)).toNat_lt
  have h1 := (space (f.base + offset / 4 * 4 + 1)).toNat_lt
  have h2 := (space (f.base + offset / 4 * 4 + 2)).toNat_lt
  have h3 := (space (f.base + offset / 4 * 4 + 3)).toNat_lt
  rcases (by omega : offset % 4 = 0 ∨ offset % 4 = 1 ∨ offset % 4 = 2 ∨ offset % 4 = 3) with hr | hr | hr | hr
  · rw [show f.base + offset = f.base + offset / 4 * 4 by omega, hr]
    omega
  · rw [show f.base + offset = f.base + offset / 4 * 4 + 1 by omega, hr]
    omega
  · rw [show f.base + offset = f.base + offset / 4 * 4 + 2 by omega, hr]
    omega
  · rw [show f.base + offset = f.base + offset / 4 * 4 + 3 by omega, hr]
    omega

/-- So is a 16-bit word, low byte first. -/
theorem pciReadWord_eq (h : f.Valid) (ho : offset < 256) (heven : offset % 2 = 0) :
    pciReadWord space f offset = space.le (f.base + offset) 2 := by
  have hand : offset &&& 2 = offset % 4 := by
    rw [(by decide +kernel : ∀ o < 256, o &&& 2 = o % 4 / 2 * 2) offset ho]
    omega
  have h0 := (space (f.base + offset / 4 * 4)).toNat_lt
  have h1 := (space (f.base + offset / 4 * 4 + 1)).toNat_lt
  have h2 := (space (f.base + offset / 4 * 4 + 2)).toNat_lt
  have h3 := (space (f.base + offset / 4 * 4 + 3)).toNat_lt
  unfold pciReadWord
  rw [pciReadConfig_eq h ho, hand]
  dsimp only
  rw [show ∀ x : Nat, x &&& 0xFFFF = x % 65536 from fun x => Nat.and_two_pow_sub_one_eq_mod x 16, le_four,
    Nat.shiftRight_eq_div_pow]
  simp only [Buf.le]
  rcases (by omega : offset % 4 = 0 ∨ offset % 4 = 2) with hr | hr
  · rw [show f.base + offset = f.base + offset / 4 * 4 by omega, hr]
    omega
  · rw [show f.base + offset = f.base + offset / 4 * 4 + 2 by omega, hr,
      show f.base + offset / 4 * 4 + 2 + 1 = f.base + offset / 4 * 4 + 3 from rfl]
    omega

/-! ## What the enumeration finds -/

theorem present_iff (h : f.Valid) : f.Present space ↔ pciReadWord space f pciVendorId ≠ 0xFFFF := by
  rw [pciReadWord_eq h (by decide) rfl]
  have h0 := (space f.base).toNat_lt
  have h1 := (space (f.base + 1)).toNat_lt
  unfold PciFunction.Present pciVendorId
  rw [Ne, Ne, ← UInt8.toNat_inj, ← UInt8.toNat_inj]
  simp only [Buf.le]
  rw [show (0xFF : UInt8).toNat = 255 from rfl, Nat.add_zero]
  omega

/-- What one place adds to the list. -/
def found (space : Buf) (f : PciFunction) : List PciDevice :=
  if pciReadWord space f pciVendorId = 0xFFFF then [] else [pciEntry space f]

theorem pciEnumerate_take (space : Buf) :
    pciEnumerate space = (PciFunction.all.flatMap (found space)).take pciMaxDevices := by
  have hfn : ∀ bus dev, Collects pciMaxDevices (forWhile pciRoom (fun fn devices =>
      if pciReadWord space ⟨bus, dev, fn⟩ pciVendorId = 0xFFFF then devices
        else devices ++ [pciEntry space ⟨bus, dev, fn⟩]) 8 0)
      ((List.range' 0 8).flatMap fun fn => found space ⟨bus, dev, fn⟩) := fun bus dev => by
    refine collects_forWhile (fun fn devices hroom => ?_) 8 0
    unfold found
    split
    · rw [List.append_nil, List.take_of_length_le (Nat.le_of_lt hroom)]
    · rw [List.take_of_length_le]
      rw [List.length_append, List.length_singleton]
      exact hroom
  have hdev : ∀ bus, Collects pciMaxDevices (forWhile pciRoom (fun dev => forWhile pciRoom (fun fn devices =>
      if pciReadWord space ⟨bus, dev, fn⟩ pciVendorId = 0xFFFF then devices
        else devices ++ [pciEntry space ⟨bus, dev, fn⟩]) 8 0) 32 0)
      ((List.range' 0 32).flatMap fun dev => (List.range' 0 8).flatMap fun fn => found space ⟨bus, dev, fn⟩) :=
        fun bus =>
    collects_forWhile (fun dev devices hroom => hfn bus dev devices (Nat.le_of_lt hroom)) 32 0
  have hbus :=
    collects_forWhile (fun bus devices hroom => hdev bus devices (Nat.le_of_lt hroom)) 256 0 [] (Nat.zero_le _)
  unfold pciEnumerate
  rw [show pciRoom = fun devices => decide (devices.length < pciMaxDevices) from rfl]
  refine hbus.trans ?_
  rw [List.nil_append]
  simp only [PciFunction.all, List.range_eq_range', List.flatMap_assoc, List.flatMap_map]

theorem PciFunction.mem_all : f ∈ PciFunction.all ↔ f.Valid := by
  unfold PciFunction.all
  simp only [List.mem_flatMap, List.mem_map, List.mem_range]
  constructor
  · rintro ⟨bus, hbus, dev, hdev, fn, hfn, rfl⟩
    exact ⟨hbus, hdev, hfn⟩
  · rintro ⟨hbus, hdev, hfn⟩
    exact ⟨f.bus, hbus, f.dev, hdev, f.fn, hfn, rfl⟩

/-- No place is visited twice. -/
theorem PciFunction.nodup_all : PciFunction.all.Nodup := by
  have hfn : ∀ bus dev, ((List.range 8).map fun fn => (⟨bus, dev, fn⟩ : PciFunction)).Nodup := fun bus dev =>
    List.nodup_range.map fun _ _ h => congrArg PciFunction.fn h
  have hdev : ∀ bus,
      ((List.range 32).flatMap fun dev => (List.range 8).map fun fn => (⟨bus, dev, fn⟩ : PciFunction)).Nodup :=
      fun bus => by
    refine List.nodup_flatMap.2 ⟨fun dev _ => hfn bus dev, List.nodup_range.imp fun {x y} hne => ?_⟩
    rintro f hx hy
    obtain ⟨_, -, rfl⟩ := List.mem_map.1 hx
    obtain ⟨_, -, h⟩ := List.mem_map.1 hy
    exact hne (congrArg PciFunction.dev h).symm
  refine List.nodup_flatMap.2 ⟨fun bus _ => hdev bus, List.nodup_range.imp fun {x y} hne => ?_⟩
  rintro f hx hy
  simp only [List.mem_flatMap, List.mem_map] at hx hy
  obtain ⟨_, -, _, -, rfl⟩ := hx
  obtain ⟨_, -, _, -, h⟩ := hy
  exact hne (congrArg PciFunction.bus h).symm

theorem flatMap_found : ∀ l : List PciFunction, (∀ f ∈ l, f.Valid) →
    l.flatMap (found space) = (l.filter (·.Present space)).map (pciEntry space)
  | [], _ => rfl
  | f :: l, h => by
    have hpresent : f.Present space ↔ pciReadWord space f pciVendorId ≠ 0xFFFF :=
      present_iff (h f List.mem_cons_self)
    rw [List.flatMap_cons, flatMap_found l fun g hg => h g (List.mem_cons_of_mem f hg), found]
    by_cases hp : f.Present space
    · rw [if_neg (hpresent.1 hp)]
      simp [hp]
    · rw [if_pos (not_not.1 fun hne => hp (hpresent.2 hne))]
      simp [hp]

/-- The enumeration records the first functions that are there, each once and in order. -/
theorem pciEnumerate_eq (space : Buf) : pciEnumerate space = (firstPresent space).map (pciEntry space) := by
  rw [pciEnumerate_take, flatMap_found _ fun f hf => PciFunction.mem_all.1 hf, firstPresent, List.map_take]

theorem firstPresent_valid (h : f ∈ firstPresent space) : f.Valid :=
  PciFunction.mem_all.1 (List.mem_of_mem_filter (List.mem_of_mem_take h))

theorem firstPresent_nodup (space : Buf) : (firstPresent space).Nodup :=
  (PciFunction.nodup_all.filter _).sublist (List.take_sublist ..)

/-- What is recorded of the class: the subclass and the programming interface as they are declared, and the
programming interface once more in the place of the base class. -/
theorem pciEntry_class (h : f.Valid) :
    (pciEntry space f).classCode = f.declaredProgIf space ∧
      (pciEntry space f).subclassCode = f.declaredSubclass space ∧
      (pciEntry space f).progIf = f.declaredProgIf space :=
  ⟨pciReadByte_eq h (by decide), pciReadByte_eq h (by decide), pciReadByte_eq h (by decide)⟩

end AltoniumOS.Storage

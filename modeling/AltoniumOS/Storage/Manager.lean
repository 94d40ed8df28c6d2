/-
The storage manager: `storage_manager.c` and the init functions of its drivers, `nvme.c`, `ahci.c` and
`ata_pio.c`.

Two things stand beside the variables of the source. A registered device carries the controller its driver
brought up, which its `private_data` would point to (the drivers leave it null). And `calls` records every call
of an init function: the controller whose match led to it, the controller the function brought up, and how it
ended.
-/
import AltoniumOS.Storage.Pci
import AltoniumOS.Disk.Transfers

namespace AltoniumOS.Storage

open AltoniumOS.Lib AltoniumOS.Disk

def storageMaxDevices : Nat := 16

inductive BlockDeviceType where
  | unknown
  | ata
  | ahci
  | nvme
  deriving DecidableEq

/-- `block_device_t`, apart from its callbacks. -/
structure BlockDevice where
  type : BlockDeviceType
  sectorSize : Nat
  capacitySectors : Nat
  driverName : String
  queueDepth : Nat
  deriving DecidableEq

/-- What a storage device is reached through. -/
inductive Controller where
  | pci (f : PciFunction)
  | ide
  deriving DecidableEq

/-- How an init function ended: the controller it brought up, and an error or the device it filled in. -/
structure Init where
  broughtUp : Option Controller
  result : Except Int BlockDevice

structure Call where
  driver : BlockDeviceType
  trigger : Controller
  broughtUp : Option Controller
  result : Except Int BlockDevice

/-- `storage_devices[0 .. storage_device_count)` -/
structure Registry where
  devices : List (BlockDevice × Option Controller)
  bounded : devices.length ≤ storageMaxDevices

def Registry.empty : Registry := ⟨[], by decide⟩

structure Machine where
  drive : Drive
  space : Buf
  /-- The registers of the controllers, by the address they are mapped to. -/
  memory : Nat → Nat
  pciDevices : List PciDevice
  registry : Registry
  primaryDevice : Option Nat
  calls : List Call

/-! ## The drivers -/

def isNvme (d : PciDevice) : Bool := decide (d.classCode = pciClassStorage ∧ d.subclassCode = pciSubclassNvme)

def isAhci (d : PciDevice) : Bool := decide (d.classCode = pciClassStorage ∧ d.subclassCode = pciSubclassSata)

def nvmeDevice : BlockDevice := ⟨.nvme, 4096, 0, "NVMe", 64⟩

def ahciDevice : BlockDevice := ⟨.ahci, 512, 0, "AHCI", 32⟩

def ataDevice : BlockDevice := ⟨.ata, 512, 0, "ATA PIO", 1⟩

def enable (pciDev : PciDevice) : Checked Machine Unit :=
  modify fun m => { m with space := pciEnableMemorySpace m.space pciDev }

/-- `nvme_init`; the search takes the first match there is. -/
def nvmeInit : Checked Machine Init := do
  let m ← get
  match m.pciDevices.find? isNvme with
  | none => pure ⟨none, .error (-1)⟩
  | some pciDev =>
    enable pciDev
    let bar0Addr := pciDev.bar[0]
    if bar0Addr = 0 ∨ bar0Addr = 0xFFFFFFFF then pure ⟨some (.pci pciDev.function), .error (-2)⟩
    else pure ⟨some (.pci pciDev.function), .ok nvmeDevice⟩

def ahciGhc : Nat := 0x04

def ahciGhcAe : Nat := 0x80000000

/-- The address of the controller's registers: BAR 5, or BAR 0 where it is zero. -/
def ahciAbar (pciDev : PciDevice) : Nat := if pciDev.bar[5] = 0 then pciDev.bar[0] else pciDev.bar[5]

/-- `ahci_init`, with the same search for its own class. -/
def ahciInit : Checked Machine Init := do
  let m ← get
  match m.pciDevices.find? isAhci with
  | none => pure ⟨none, .error (-1)⟩
  | some pciDev =>
    enable pciDev
    let abar := ahciAbar pciDev
    if abar = 0 ∨ abar = 0xFFFFFFFF then pure ⟨some (.pci pciDev.function), .error (-2)⟩
    else
      modify fun m =>
        let ghc := m.memory (abar + ahciGhc)
        if ghc &&& ahciGhcAe = 0
          then { m with memory := Function.update m.memory (abar + ahciGhc) (ghc ||| ahciGhcAe) } else m
      pure ⟨some (.pci pciDev.function), .ok ahciDevice⟩

/-- `disk_init()` on the drive of the machine. -/
def probeDrive : Checked Machine Int :=
  fun m => (diskInit m.drive).map fun (code, drive) => (code, { m with drive := drive })

def ataPioInit : Checked Machine Init := do
  if (← probeDrive) ≠ 0 then pure ⟨some .ide, .error (-1)⟩ else pure ⟨some .ide, .ok ataDevice⟩

/-! ## The manager -/

def storageRegisterDevice (bd : BlockDevice) (controller : Option Controller) : Checked Machine Int := do
  let m ← get
  if h : m.registry.devices.length < storageMaxDevices then
    set { m with registry := ⟨m.registry.devices ++ [(bd, controller)], by rw [List.length_append]; exact h⟩ }
    pure 0
  else pure (-1)

/-- What the manager does with a device that was filled in. -/
def adopt (bd : BlockDevice) (controller : Option Controller) : Checked Machine Unit := do
  let registered ← storageRegisterDevice bd controller
  let m ← get
  if registered = 0 ∧ m.primaryDevice = none
    then set { m with primaryDevice := some (m.registry.devices.length - 1) }
  else pure ()

/-- A call of an init function. -/
def attempt (driver : BlockDeviceType) (trigger : Controller) (init : Checked Machine Init) :
    Checked Machine Unit := do
  let r ← init
  modify fun m => { m with calls := m.calls ++ [⟨driver, trigger, r.broughtUp, r.result⟩] }
  match r.result with
  | .error _ => pure ()
  | .ok bd => adopt bd r.broughtUp

/-- The loop over the functions listed. -/
def attemptAll (driver : BlockDeviceType) (isMatch : PciDevice → Bool) (init : Checked Machine Init) :
    List PciDevice → Checked Machine Unit
  | [] => pure ()
  | dev :: devs => do
    if isMatch dev then attempt driver (.pci dev.function) init else pure ()
    attemptAll driver isMatch init devs

def storageManagerInit : Checked Machine Nat := do
  modify fun m =>
    { m with registry := .empty, primaryDevice := none, calls := [], pciDevices := pciEnumerate m.space }
  let m ← get
  attemptAll .nvme isNvme nvmeInit m.pciDevices
  let m ← get
  attemptAll .ahci isAhci ahciInit m.pciDevices
  attempt .ata .ide ataPioInit
  let m ← get
  pure m.registry.devices.length

end AltoniumOS.Storage

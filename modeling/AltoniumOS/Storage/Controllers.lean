/-
Which controllers the storage manager starts, as far as the lists of the enumeration say: the calls it makes of
the init functions, the devices it registers, and the primary one.
-/
import AltoniumOS.Storage.Manager

namespace AltoniumOS.Storage

open AltoniumOS.Lib AltoniumOS.Disk

variable {m m' : Machine} {d : PciDevice} {driver : BlockDeviceType} {trigger : Controller}
  {init : Checked Machine Init}

/-! ## The init functions -/

theorem bar0_lt : 0 < 6 := by decide

/-- What `nvme_init` makes of the function it picks. -/
def nvmeResult (d : PciDevice) : Except Int BlockDevice :=
  if getElem d.bar 0 bar0_lt = 0 ∨ getElem d.bar 0 bar0_lt = 0xFFFFFFFF then .error (-2) else .ok nvmeDevice

/-- What `ahci_init` makes of the function it picks. -/
def ahciResult (d : PciDevice) : Except Int BlockDevice :=
  if ahciAbar d = 0 ∨ ahciAbar d = 0xFFFFFFFF then .error (-2) else .ok ahciDevice

/-- An init function leaves the lists of the manager alone. -/
structure Kept (m m' : Machine) : Prop where
  pciDevices : m'.pciDevices = m.pciDevices
  registry : m'.registry = m.registry
  primaryDevice : m'.primaryDevice = m.primaryDevice
  calls : m'.calls = m.calls

theorem nvmeInit_meets (h : m.pciDevices.find? isNvme = some d) :
    Meets nvmeInit m fun r m' => Kept m m' ∧ r = ⟨some (.pci d.function), nvmeResult d⟩ := by
  refine .step rfl ?_
  rw [h]
  refine .step rfl ?_
  unfold nvmeResult
  dsimp only
  split <;> exact .pure ⟨⟨rfl, rfl, rfl, rfl⟩, rfl⟩

theorem ahciInit_meets (h : m.pciDevices.find? isAhci = some d) :
    Meets ahciInit m fun r m' => Kept m m' ∧ r = ⟨some (.pci d.function), ahciResult d⟩ := by
  refine .step rfl ?_
  rw [h]
  refine .step rfl ?_
  unfold ahciResult
  dsimp only
  split
  · exact .pure ⟨⟨rfl, rfl, rfl, rfl⟩, rfl⟩
  · refine .step rfl (.pure ⟨?_, rfl⟩)
    dsimp only
    split <;> exact ⟨rfl, rfl, rfl, rfl⟩

theorem ataPioInit_meets (m : Machine) : Meets ataPioInit m fun r m' => Kept m m' ∧ r.broughtUp = some .ide := by
  obtain ⟨code, drive, hrun, -⟩ := diskInit_meets m.drive
  have hprobe : probeDrive m = some (code, { m with drive := drive }) := by
    unfold probeDrive
    rw [hrun]
    rfl
  refine .step hprobe ?_
  split <;> exact .pure ⟨⟨rfl, rfl, rfl, rfl⟩, rfl⟩

/-! ## The bookkeeping of the manager -/

/-- The device a call left to be registered. -/
def Call.device (c : Call) : Option (BlockDevice × Option Controller) :=
  match c.result with
  | .ok bd => some (bd, c.broughtUp)
  | .error _ => none

/-- The devices of the calls that succeeded, in order. -/
def devicesOf (calls : List Call) : List (BlockDevice × Option Controller) := calls.filterMap Call.device

theorem devicesOf_append (a b : List Call) : devicesOf (a ++ b) = devicesOf a ++ devicesOf b :=
  List.filterMap_append ..

/-- The registry holds the devices of the calls that succeeded as far as there is room, and the first of them is
primary. -/
structure Tracks (m : Machine) : Prop where
  devices : m.registry.devices = (devicesOf m.calls).take storageMaxDevices
  primary : m.primaryDevice = (devicesOf m.calls).head?.map fun _ => 0

theorem storageRegisterDevice_room (bd : BlockDevice) (c : Option Controller)
    (h : m.registry.devices.length < storageMaxDevices) :
    ∃ registry : Registry, registry.devices = m.registry.devices ++ [(bd, c)] ∧
      storageRegisterDevice bd c m = some (0, { m with registry := registry }) := by
  refine ⟨⟨m.registry.devices ++ [(bd, c)], by rw [List.length_append]; exact h⟩, rfl, ?_⟩
  refine (bind_run_some (show (get : Checked Machine Machine) m = some (m, m) from rfl)).trans ?_
  rw [dif_pos h]
  rfl

theorem storageRegisterDevice_full (bd : BlockDevice) (c : Option Controller)
    (h : ¬ m.registry.devices.length < storageMaxDevices) : storageRegisterDevice bd c m = some (-1, m) := by
  refine (bind_run_some (show (get : Checked Machine Machine) m = some (m, m) from rfl)).trans ?_
  rw [dif_neg h]
  rfl

/-- One more device, behind those of `l`. -/
theorem adopt_meets {l : List (BlockDevice × Option Controller)} (bd : BlockDevice) (c : Option Controller)
    (hdevices : m.registry.devices = l.take storageMaxDevices)
    (hprimary : m.primaryDevice = l.head?.map fun _ => 0) :
    Meets (adopt bd c) m fun _ m' => m'.registry.devices = (l ++ [(bd, c)]).take storageMaxDevices ∧
      m'.primaryDevice = some 0 ∧ m'.pciDevices = m.pciDevices ∧ m'.calls = m.calls := by
  by_cases hroom : l.length < storageMaxDevices
  · rw [List.take_of_length_le (Nat.le_of_lt hroom)] at hdevices
    obtain ⟨registry, hregistry, hrun⟩ := storageRegisterDevice_room (m := m) bd c (by rw [hdevices]; exact hroom)
    rw [hdevices] at hregistry
    have hall : registry.devices = (l ++ [(bd, c)]).take storageMaxDevices := by
      rw [hregistry, List.take_of_length_le]
      rw [List.length_append]
      exact hroom
    refine .step hrun (.step rfl ?_)
    dsimp only
    cases l with
    | nil =>
      rw [if_pos ⟨rfl, hprimary⟩]
      refine .of_run rfl ⟨hall, ?_, rfl, rfl⟩
      dsimp only
      rw [hregistry]
      rfl
    | cons x l =>
      have hsome : m.primaryDevice = some 0 := hprimary
      rw [hsome, if_neg fun h => nomatch h.2]
      exact .pure ⟨hall, rfl, rfl, rfl⟩
  · have hlen : m.registry.devices.length = storageMaxDevices := by
      rw [hdevices, List.length_take]
      omega
    have hsome : m.primaryDevice = some 0 := by
      cases l with
      | nil => exact absurd (by decide) hroom
      | cons x l => exact hprimary
    refine .step (storageRegisterDevice_full bd c (by omega)) (.step rfl ?_)
    rw [if_neg fun h => absurd h.1 (by decide)]
    refine .pure ⟨?_, hsome, rfl, rfl⟩
    rw [hdevices, List.take_append_of_le_length (by omega)]

/-- A call is recorded, and the registry goes along. -/
theorem attempt_meets {R : Init → Prop} (hinit : Meets init m fun r m' => Kept m m' ∧ R r) (ht : Tracks m) :
    Meets (attempt driver trigger init) m fun _ m' => Tracks m' ∧ m'.pciDevices = m.pciDevices ∧
      ∃ r, R r ∧ m'.calls = m.calls ++ [⟨driver, trigger, r.broughtUp, r.result⟩] := by
  refine hinit.bind fun r m₁ h => ?_
  obtain ⟨hkept, hr⟩ := h
  refine .step rfl ?_
  have hdevices : m₁.registry.devices = (devicesOf m.calls).take storageMaxDevices := by
    rw [hkept.registry, ht.devices]
  have hprimary : m₁.primaryDevice = (devicesOf m.calls).head?.map fun _ => 0 := by
    rw [hkept.primaryDevice, ht.primary]
  cases hresult : r.result with
  | error code =>
    have hsame : devicesOf (m.calls ++ [⟨driver, trigger, r.broughtUp, .error code⟩]) = devicesOf m.calls :=
      (devicesOf_append ..).trans (List.append_nil _)
    refine .pure ⟨⟨?_, ?_⟩, hkept.pciDevices, r, hr, ?_⟩ <;> dsimp only
    · rw [hkept.calls, hsame, hdevices]
    · rw [hkept.calls, hsame, hprimary]
    · rw [hkept.calls, hresult]
  | ok bd =>
    have hmore : devicesOf (m.calls ++ [⟨driver, trigger, r.broughtUp, .ok bd⟩]) =
        devicesOf m.calls ++ [(bd, r.broughtUp)] :=
      devicesOf_append ..
    show Meets (adopt bd r.broughtUp) _ _
    refine (adopt_meets (m := { m₁ with calls := m₁.calls ++ [⟨driver, trigger, r.broughtUp, .ok bd⟩] })
      bd r.broughtUp hdevices hprimary).mono fun _ m' h' => ?_
    obtain ⟨hdevices', hprimary', hpci, hcalls⟩ := h'
    dsimp only at hpci hcalls
    rw [hkept.calls] at hcalls
    refine ⟨⟨?_, ?_⟩, hpci.trans hkept.pciDevices, r, hr, ?_⟩
    · rw [hdevices', hcalls, hmore]
    · rw [hprimary', hcalls, hmore]
      cases devicesOf m.calls <;> rfl
    · rw [hcalls, hresult]

/-- The calls a loop over `l` makes, of an init function that picks `d`. -/
def callsOf (driver : BlockDeviceType) (isMatch : PciDevice → Bool) (d : PciDevice)
    (result : Except Int BlockDevice) (l : List PciDevice) : List Call :=
  (l.filter isMatch).map fun t => ⟨driver, .pci t.function, some (.pci d.function), result⟩

theorem attemptAll_meets {isMatch : PciDevice → Bool} {devices : List PciDevice} {result : Except Int BlockDevice}
    (hinit : ∀ m : Machine, m.pciDevices = devices → Meets init m fun r m' => Kept m m' ∧
      r = ⟨some (.pci d.function), result⟩) :
    ∀ (l : List PciDevice) (m : Machine), m.pciDevices = devices → Tracks m →
      Meets (attemptAll driver isMatch init l) m fun _ m' => Tracks m' ∧ m'.pciDevices = devices ∧
        m'.calls = m.calls ++ callsOf driver isMatch d result l
  | [], m, hm, ht => .pure ⟨ht, hm, (List.append_nil _).symm⟩
  | t :: l, m, hm, ht => by
    unfold attemptAll
    by_cases hmatch : isMatch t = true
    · rw [if_pos hmatch]
      refine (attempt_meets (hinit m hm) ht).bind fun _ m₁ h₁ => ?_
      obtain ⟨ht₁, hm₁, r, rfl, hcalls₁⟩ := h₁
      refine (attemptAll_meets hinit l m₁ (hm₁.trans hm) ht₁).mono fun _ m₂ h₂ => ⟨h₂.1, h₂.2.1, ?_⟩
      rw [h₂.2.2, hcalls₁, List.append_assoc]
      unfold callsOf
      rw [List.filter_cons_of_pos hmatch]
      rfl
    · rw [if_neg hmatch]
      show Meets (attemptAll driver isMatch init l) m _
      refine (attemptAll_meets hinit l m hm ht).mono fun _ m₂ h₂ => ⟨h₂.1, h₂.2.1, ?_⟩
      rw [h₂.2.2]
      unfold callsOf
      rw [List.filter_cons_of_neg hmatch]

/-- The calls of one driver: none without a match, else one for each match, and each of them picks the first. -/
def driverCalls (driver : BlockDeviceType) (isMatch : PciDevice → Bool)
    (result : PciDevice → Except Int BlockDevice) (l : List PciDevice) : List Call :=
  match l.find? isMatch with
  | none => []
  | some d => callsOf driver isMatch d (result d) l

theorem driverCalls_meets {isMatch : PciDevice → Bool} {result : PciDevice → Except Int BlockDevice}
    (hinit : ∀ (m : Machine) (d : PciDevice), m.pciDevices.find? isMatch = some d →
      Meets init m fun r m' => Kept m m' ∧ r = ⟨some (.pci d.function), result d⟩)
    (ht : Tracks m) :
    Meets (attemptAll driver isMatch init m.pciDevices) m fun _ m' => Tracks m' ∧ m'.pciDevices = m.pciDevices ∧
      m'.calls = m.calls ++ driverCalls driver isMatch result m.pciDevices := by
  unfold driverCalls
  cases hfind : m.pciDevices.find? isMatch with
  | none =>
    -- no entry of the list starts a call
    have hnone : ∀ (l : List PciDevice), (∀ t ∈ l, ¬ isMatch t = true) →
        attemptAll driver isMatch init l = pure () := by
      intro l hl
      induction l with
      | nil => rfl
      | cons t l ih =>
        unfold attemptAll
        rw [if_neg (hl t List.mem_cons_self)]
        exact ih fun s hs => hl s (List.mem_cons_of_mem t hs)
    rw [hnone _ (List.find?_eq_none.1 hfind)]
    exact .pure ⟨ht, rfl, (List.append_nil _).symm⟩
  | some d => exact attemptAll_meets (fun m' hm' => hinit m' d (by rw [hm', hfind])) _ m rfl ht

/-- The calls of a run, by the functions listed. -/
theorem storageManagerInit_meets (m : Machine) :
    Meets storageManagerInit m fun n m' => Tracks m' ∧ n = m'.registry.devices.length ∧
      m'.pciDevices = pciEnumerate m.space ∧
      ∃ result, m'.calls = driverCalls .nvme isNvme nvmeResult (pciEnumerate m.space) ++
        driverCalls .ahci isAhci ahciResult (pciEnumerate m.space) ++ [⟨.ata, .ide, some .ide, result⟩] := by
  refine .step rfl (.step rfl ?_)
  refine (driverCalls_meets (fun _ _ h => nvmeInit_meets h) ⟨rfl, rfl⟩).bind fun _ m₁ h₁ => .step rfl ?_
  obtain ⟨ht₁, hpci₁, hcalls₁⟩ := h₁
  dsimp only at hpci₁ hcalls₁
  refine (driverCalls_meets (fun _ _ h => ahciInit_meets h) ht₁).bind fun _ m₂ h₂ => ?_
  obtain ⟨ht₂, hpci₂, hcalls₂⟩ := h₂
  refine (attempt_meets (ataPioInit_meets m₂) ht₂).bind fun _ m₃ h₃ => .step rfl (.pure ?_)
  obtain ⟨ht₃, hpci₃, r, hr, hcalls₃⟩ := h₃
  refine ⟨ht₃, rfl, by rw [hpci₃, hpci₂, hpci₁], r.result, ?_⟩
  rw [hcalls₃, hcalls₂, hcalls₁, hpci₁, hr, List.nil_append]

/-! ## What the calls say of a driver -/

section

variable {isMatch : PciDevice → Bool} {result : PciDevice → Except Int BlockDevice} {l : List PciDevice} {c : Call}

theorem driver_of_mem (h : c ∈ driverCalls driver isMatch result l) : c.driver = driver := by
  unfold driverCalls at h
  split at h
  · cases h
  · obtain ⟨t, -, rfl⟩ := List.mem_map.1 h
    rfl

theorem filter_driverCalls_self :
    (driverCalls driver isMatch result l).filter (·.driver = driver) = driverCalls driver isMatch result l :=
  List.filter_eq_self.2 fun _ hc => decide_eq_true (driver_of_mem hc)

theorem filter_driverCalls_other {driver' : BlockDeviceType} (h : driver ≠ driver') :
    (driverCalls driver isMatch result l).filter (·.driver = driver') = [] :=
  List.filter_eq_nil_iff.2 fun _ hc hd => h ((driver_of_mem hc).symm.trans (of_decide_eq_true hd))

/-- There is a call for each match. -/
theorem trigger_driverCalls :
    (driverCalls driver isMatch result l).map (·.trigger) = (l.filter isMatch).map fun t => .pci t.function := by
  unfold driverCalls
  cases hfind : l.find? isMatch with
  | none =>
    rw [List.filter_eq_nil_iff.2 (List.find?_eq_none.1 hfind)]
    rfl
  | some d =>
    unfold callsOf
    rw [List.map_map]
    rfl

/-- With one match at most, the match is the one that is picked. -/
theorem driverCalls_single (h : l.countP isMatch ≤ 1) : driverCalls driver isMatch result l =
    (l.find? isMatch).toList.map fun d => ⟨driver, .pci d.function, some (.pci d.function), result d⟩ := by
  unfold driverCalls
  cases hfind : l.find? isMatch with
  | none => rfl
  | some d =>
    rw [List.countP_eq_length_filter] at h
    rw [← List.head?_filter] at hfind
    obtain ⟨rest, hrest⟩ := List.head?_eq_some_iff.1 hfind
    rw [hrest, List.length_cons] at h
    obtain rfl := List.eq_nil_of_length_eq_zero (by omega : rest.length = 0)
    unfold callsOf
    rw [hrest]
    rfl

end

/-- The controllers whose match led to a call of the driver's init function. -/
def startedBy (driver : BlockDeviceType) (calls : List Call) : List Controller :=
  (calls.filter (·.driver = driver)).map (·.trigger)

/-- The calls a run leaves, split by driver. -/
theorem calls_split {result : Except Int BlockDevice} {l : List PciDevice}
    (h : m.calls = driverCalls .nvme isNvme nvmeResult l ++ driverCalls .ahci isAhci ahciResult l ++
      [⟨.ata, .ide, some .ide, result⟩]) :
    m.calls.filter (·.driver = .nvme) = driverCalls .nvme isNvme nvmeResult l ∧
    m.calls.filter (·.driver = .ahci) = driverCalls .ahci isAhci ahciResult l ∧
    m.calls.filter (·.driver = .ata) = [⟨.ata, .ide, some .ide, result⟩] := by
  rw [h]
  simp only [List.filter_append, filter_driverCalls_self]
  refine ⟨?_, ?_, ?_⟩
  · rw [filter_driverCalls_other (by decide)]
    simp
  · rw [filter_driverCalls_other (by decide)]
    simp
  · rw [filter_driverCalls_other (by decide), filter_driverCalls_other (by decide)]
    simp

/-! ## The controllers the standard means -/

/-- The enumeration of a run lists the first functions that are there with the class they declare, and the NVMe
and AHCI drivers are started once for each listed function that declares their class. -/
structure Reports (m m' : Machine) : Prop where
  listed : m'.pciDevices.map (fun d => (d.function, d.classCode, d.subclassCode, d.progIf)) =
    (firstPresent m.space).map fun f =>
    (f, f.declaredClass m.space, f.declaredSubclass m.space, f.declaredProgIf m.space)
  nvme : startedBy .nvme m'.calls = ((firstPresent m.space).filter fun f =>
    f.declaredClass m.space = pciClassStorage ∧ f.declaredSubclass m.space = pciSubclassNvme).map .pci
  ahci : startedBy .ahci m'.calls = ((firstPresent m.space).filter fun f =>
    f.declaredClass m.space = pciClassStorage ∧ f.declaredSubclass m.space = pciSubclassSata).map .pci

/-- The functions a driver is started for, by the classes recorded. -/
theorem filter_pciEnumerate {space : Buf} (subclass : UInt8)
    (h : ∀ f ∈ firstPresent space, f.declaredClass space = f.declaredProgIf space) :
    ((pciEnumerate space).filter fun d => decide (d.classCode = pciClassStorage ∧ d.subclassCode = subclass)).map
      (fun d => Controller.pci d.function) =
        ((firstPresent space).filter fun f => f.declaredClass space = pciClassStorage ∧
          f.declaredSubclass space = subclass).map .pci := by
  rw [pciEnumerate_eq, List.filter_map, List.map_map]
  have hsame :
      (firstPresent space).filter
        ((fun d => decide (d.classCode = pciClassStorage ∧ d.subclassCode = subclass)) ∘ pciEntry space) =
      (firstPresent space).filter fun f =>
        f.declaredClass space = pciClassStorage ∧ f.declaredSubclass space = subclass := by
    refine List.filter_congr fun f hf => ?_
    obtain ⟨hclass, hsub, -⟩ := pciEntry_class (firstPresent_valid hf)
    show decide ((pciEntry space f).classCode = _ ∧ (pciEntry space f).subclassCode = _) = _
    rw [hclass, hsub, h f hf]
  rw [hsame]
  rfl

theorem reports_of_run {n : Nat} (hrun : storageManagerInit m = some (n, m')) :
    Reports m m' ↔ ∀ f ∈ firstPresent m.space, f.declaredClass m.space = f.declaredProgIf m.space := by
  obtain ⟨n₁, m₁, hrun₁, -, -, hpci, result, hcalls⟩ := storageManagerInit_meets m
  obtain ⟨rfl, rfl⟩ := Prod.mk.inj (Option.some.inj (hrun.symm.trans hrun₁))
  obtain ⟨hnvme, hahci, -⟩ := calls_split hcalls
  constructor
  · intro h f hf
    have hlisted := h.listed
    rw [hpci, pciEnumerate_eq, List.map_map, List.map_inj_left] at hlisted
    have hf' := hlisted f hf
    simp only [Function.comp_apply, Prod.mk.injEq] at hf'
    rw [← hf'.2.1, (pciEntry_class (firstPresent_valid hf)).1]
  · intro h
    refine ⟨?_, ?_, ?_⟩
    · rw [hpci, pciEnumerate_eq, List.map_map, List.map_inj_left]
      intro f hf
      obtain ⟨hclass, hsub, hprog⟩ : (pciEntry m.space f).classCode = _ ∧ (pciEntry m.space f).subclassCode = _ ∧
          (pciEntry m.space f).progIf = _ :=
        pciEntry_class (firstPresent_valid hf)
      show (f, _, _, _) = _
      rw [hclass, hsub, hprog, h f hf]
    · unfold startedBy
      rw [hnvme, trigger_driverCalls]
      exact filter_pciEnumerate pciSubclassNvme h
    · unfold startedBy
      rw [hahci, trigger_driverCalls]
      exact filter_pciEnumerate pciSubclassSata h

/-- The list and the starts of the drivers are as the standard has them if and only if each of the functions
listed declares a base class equal to its programming interface. -/
theorem reports_iff (m : Machine) : ∃ n m', storageManagerInit m = some (n, m') ∧
    (Reports m m' ↔ ∀ f ∈ firstPresent m.space, f.declaredClass m.space = f.declaredProgIf m.space) := by
  obtain ⟨n, m', hrun, -⟩ := storageManagerInit_meets m
  exact ⟨n, m', hrun, reports_of_run hrun⟩

/-- Functions that are there, when no more are there than the driver has room for. -/
theorem mem_firstPresent {space : Buf} {f : PciFunction} {l : List PciFunction} (hl : l.length ≤ pciMaxDevices)
    (h : ∀ g : PciFunction, g.Valid → g.Present space → g ∈ l) (hf : f.Valid) (hp : f.Present space) :
    f ∈ firstPresent space := by
  have hsub : PciFunction.all.filter (·.Present space) ⊆ l := fun g hg => by
    obtain ⟨hg, hp⟩ := List.mem_filter.1 hg
    exact h g (PciFunction.mem_all.1 hg) (of_decide_eq_true hp)
  have hlen := ((PciFunction.nodup_all.filter (·.Present space)).subperm hsub).length_le
  unfold firstPresent
  rw [List.take_of_length_le (by omega)]
  exact List.mem_filter.2 ⟨PciFunction.mem_all.2 hf, decide_eq_true hp⟩

/-- The header of a function that is there: its vendor, its class, and a base address. -/
def header (progIf subclass baseClass : UInt8) (offset : Nat) : UInt8 :=
  if offset = 0x00 then 0x86
  else if offset = 0x09 then progIf
  else if offset = 0x0A then subclass
  else if offset = 0x0B then baseClass
  else if offset = 0x13 ∨ offset = 0x27 then 0xFE
  else 0

/-- A board with a host bridge, an NVMe controller and two AHCI controllers. -/
def board : Buf := fun i =>
  if i / 256 = 0 then header 0x00 0x00 0x06 (i % 256)
  else if i / 256 = 8 then header 0x02 0x08 0x01 (i % 256)
  else if i / 256 = 16 ∨ i / 256 = 24 then header 0x01 0x06 0x01 (i % 256)
  else 0xFF

def onBoard : List PciFunction := [⟨0, 0, 0⟩, ⟨0, 1, 0⟩, ⟨0, 2, 0⟩, ⟨0, 3, 0⟩]

theorem mem_onBoard {f : PciFunction} (hf : f.Valid) (hp : f.Present board) : f ∈ onBoard := by
  obtain ⟨bus, dev, fn⟩ := f
  obtain ⟨hbus, hdev, hfn⟩ := hf
  dsimp only at hbus hdev hfn
  have hslot : 256 * bus + 8 * dev + fn = 0 ∨ 256 * bus + 8 * dev + fn = 8 ∨ 256 * bus + 8 * dev + fn = 16 ∨
      256 * bus + 8 * dev + fn = 24 := by
    by_contra hno
    have h0 : ∀ o < 2, board ((⟨bus, dev, fn⟩ : PciFunction).base + o) = 0xFF := fun o ho => by
      unfold board PciFunction.base
      rw [if_neg (by dsimp only; omega), if_neg (by dsimp only; omega), if_neg (by dsimp only; omega)]
    exact hp.elim (fun h => h (h0 0 (by decide))) (fun h => h (h0 1 (by decide)))
  unfold onBoard
  simp only [List.mem_cons, PciFunction.mk.injEq, List.not_mem_nil, or_false]
  omega

theorem onBoard_present : ∀ f ∈ onBoard, f ∈ firstPresent board := by
  have hall : ∀ f ∈ onBoard, f.bus < 256 ∧ f.dev < 32 ∧ f.fn < 8 ∧ f.Present board := by decide +kernel
  intro f hf
  obtain ⟨hbus, hdev, hfn, hp⟩ := hall f hf
  exact mem_firstPresent (by decide) (fun _ => mem_onBoard) ⟨hbus, hdev, hfn⟩ hp

def boardMachine : Machine where
  drive := breaking
  space := board
  memory := fun _ => 0
  pciDevices := []
  registry := .empty
  primaryDevice := none
  calls := []

/-- The NVMe controller of the board is never started, though it is listed. -/
theorem board_not_reported : ∃ n m', storageManagerInit boardMachine = some (n, m') ∧ ¬ Reports boardMachine m' ∧
    (⟨0, 1, 0⟩ : PciFunction) ∈ firstPresent board ∧ startedBy .nvme m'.calls = [] := by
  obtain ⟨n, m', hrun, -, -, -, result, hcalls⟩ := storageManagerInit_meets boardMachine
  refine ⟨n, m', hrun, fun h => ?_, onBoard_present _ (by decide), ?_⟩
  · have hbridge := (reports_of_run hrun).1 h ⟨0, 0, 0⟩ (onBoard_present _ (by decide))
    exact absurd hbridge (by decide +kernel)
  · unfold startedBy
    rw [(calls_split hcalls).1, trigger_driverCalls, List.map_eq_nil_iff, List.filter_eq_nil_iff]
    have hnone : ∀ f ∈ onBoard, ¬ isNvme (pciEntry board f) = true := by decide +kernel
    intro d hd
    rw [pciEnumerate_eq] at hd
    obtain ⟨f, hf, rfl⟩ := List.mem_map.1 hd
    have hpresent : f.Present board := of_decide_eq_true (List.mem_filter.1 (List.mem_of_mem_take hf)).2
    exact hnone f (mem_onBoard (firstPresent_valid hf) hpresent)

/-! ## One device for one controller -/

/-- Each init function brought up the function whose match led to the call, none was brought up twice, no two
registered devices stand for one controller, and the primary device is the first one that succeeded, NVMe before
AHCI before ATA. -/
structure OnePerController (m : Machine) : Prop where
  chosen : ∀ c ∈ m.calls, c.broughtUp = some c.trigger
  once : (m.calls.map (·.broughtUp)).Nodup
  distinct : (m.registry.devices.map (·.2)).Nodup
  primary : (m.primaryDevice.bind fun i => m.registry.devices[i]?) =
    (devicesOf (m.calls.filter (·.driver = .nvme)) ++ devicesOf (m.calls.filter (·.driver = .ahci)) ++
      devicesOf (m.calls.filter (·.driver = .ata))).head?

/-- An entry of the list is told by its function. -/
theorem eq_of_function {space : Buf} {d e : PciDevice} (hd : d ∈ pciEnumerate space) (he : e ∈ pciEnumerate space)
    (h : d.function = e.function) : d = e := by
  rw [pciEnumerate_eq] at hd he
  obtain ⟨f, -, rfl⟩ := List.mem_map.1 hd
  obtain ⟨g, -, rfl⟩ := List.mem_map.1 he
  exact congrArg (pciEntry space) h

theorem nodup_pciEnumerate (space : Buf) : (pciEnumerate space).Nodup := by
  rw [pciEnumerate_eq]
  exact (firstPresent_nodup space).map fun _ _ h => congrArg PciDevice.function h

/-- If every call of a driver picks the function that led to it, there is one match at most. -/
theorem countP_le_one_of_chosen {space : Buf} {isMatch : PciDevice → Bool}
    {result : PciDevice → Except Int BlockDevice}
    (h : ∀ c ∈ driverCalls driver isMatch result (pciEnumerate space), c.broughtUp = some c.trigger) :
    (pciEnumerate space).countP isMatch ≤ 1 := by
  rw [List.countP_eq_length_filter]
  unfold driverCalls at h
  cases hfind : (pciEnumerate space).find? isMatch with
  | none =>
    rw [List.filter_eq_nil_iff.2 (List.find?_eq_none.1 hfind)]
    exact Nat.zero_le 1
  | some d =>
    rw [hfind] at h
    have hall : (pciEnumerate space).filter isMatch ⊆ [d] := fun t ht => by
      have hcall := h _ (List.mem_map_of_mem ht)
      have hfunction : d.function = t.function := Controller.pci.inj (Option.some.inj hcall)
      rw [List.mem_singleton]
      exact (eq_of_function (List.mem_of_find?_eq_some hfind) (List.mem_of_mem_filter ht) hfunction).symm
    exact (((nodup_pciEnumerate space).filter isMatch).subperm hall).length_le

theorem devices_sublist : ∀ calls : List Call, ((devicesOf calls).map (·.2)).Sublist (calls.map (·.broughtUp))
  | [] => .slnil
  | c :: calls => by
    have ih := devices_sublist calls
    unfold devicesOf at ih ⊢
    cases hresult : c.result with
    | error code =>
      rw [List.filterMap_cons_none (by unfold Call.device; rw [hresult])]
      exact ih.cons _
    | ok bd =>
      rw [List.filterMap_cons_some (b := (bd, c.broughtUp)) (by unfold Call.device; rw [hresult])]
      exact ih.cons_cons _

/-- The first NVMe controller is not the first AHCI controller. -/
theorem function_ne {space : Buf} {d e : PciDevice} (hd : (pciEnumerate space).find? isNvme = some d)
    (he : (pciEnumerate space).find? isAhci = some e) : d.function ≠ e.function := by
  intro h
  obtain rfl := eq_of_function (List.mem_of_find?_eq_some hd) (List.mem_of_find?_eq_some he) h
  have hnvme : isNvme d = true := List.find?_some hd
  have hahci : isAhci d = true := List.find?_some he
  exact absurd ((of_decide_eq_true hnvme).2.symm.trans (of_decide_eq_true hahci).2) (by decide)

theorem onePerController_of_run {n : Nat} (hrun : storageManagerInit m = some (n, m')) :
    OnePerController m' ↔ (pciEnumerate m.space).countP isNvme ≤ 1 ∧ (pciEnumerate m.space).countP isAhci ≤ 1 := by
  obtain ⟨n₁, m₁, hrun₁, ht, -, hpci, result, hcalls⟩ := storageManagerInit_meets m
  obtain ⟨rfl, rfl⟩ := Prod.mk.inj (Option.some.inj (hrun.symm.trans hrun₁))
  constructor
  · intro h
    have hchosen := h.chosen
    rw [hcalls] at hchosen
    simp only [List.mem_append] at hchosen
    exact ⟨countP_le_one_of_chosen fun c hc => hchosen c (.inl (.inl hc)), countP_le_one_of_chosen fun c hc =>
      hchosen c (.inl (.inr hc))⟩
  · rintro ⟨hnvme, hahci⟩
    obtain ⟨hfn, hfa, hft⟩ := calls_split hcalls
    have hall : devicesOf (m'.calls.filter (·.driver = .nvme)) ++ devicesOf (m'.calls.filter (·.driver = .ahci)) ++
        devicesOf (m'.calls.filter (·.driver = .ata)) = devicesOf m'.calls := by
      rw [hfn, hfa, hft, ← devicesOf_append, ← devicesOf_append, ← hcalls]
    rw [driverCalls_single hnvme, driverCalls_single hahci] at hcalls
    have honce : (m'.calls.map (·.broughtUp)).Nodup := by
      rw [hcalls]
      cases hd : (pciEnumerate m.space).find? isNvme with
      | none => cases (pciEnumerate m.space).find? isAhci <;> simp
      | some d =>
        cases he : (pciEnumerate m.space).find? isAhci with
        | none => simp
        | some e =>
          have hne : d.function ≠ e.function := function_ne hd he
          simp [hne]
    refine ⟨?_, honce, ?_, ?_⟩
    · intro c hc
      rw [hcalls] at hc
      simp only [List.mem_append, List.mem_map, List.mem_singleton] at hc
      rcases hc with (⟨d, -, rfl⟩ | ⟨d, -, rfl⟩) | rfl <;> rfl
    · rw [ht.devices, List.map_take]
      exact honce.sublist ((List.take_sublist ..).trans (devices_sublist _))
    · rw [hall, ht.primary, ht.devices]
      cases devicesOf m'.calls <;> rfl

/-- There is one device for each controller if and only if the list has one NVMe and one AHCI controller at
most, by the classes recorded. -/
theorem onePerController_iff (m : Machine) :
    ∃ n m', storageManagerInit m = some (n, m') ∧
      (OnePerController m' ↔ (pciEnumerate m.space).countP isNvme ≤ 1 ∧
        (pciEnumerate m.space).countP isAhci ≤ 1) := by
  obtain ⟨n, m', hrun, -⟩ := storageManagerInit_meets m
  exact ⟨n, m', hrun, onePerController_of_run hrun⟩

/-- Of the two AHCI controllers of the board the second is never brought up. -/
theorem board_not_onePerController :
    ∃ n m', storageManagerInit boardMachine = some (n, m') ∧ ¬ OnePerController m' := by
  obtain ⟨n, m', hrun, -⟩ := storageManagerInit_meets boardMachine
  refine ⟨n, m', hrun, fun h => ?_⟩
  have hle := ((onePerController_of_run hrun).1 h).2
  have hmem : ∀ f ∈ [(⟨0, 2, 0⟩ : PciFunction), ⟨0, 3, 0⟩],
      pciEntry board f ∈ (pciEnumerate board).filter isAhci := by
    have hahci : ∀ f ∈ [(⟨0, 2, 0⟩ : PciFunction), ⟨0, 3, 0⟩], f ∈ onBoard ∧ isAhci (pciEntry board f) = true := by
      decide +kernel
    intro f hf
    rw [pciEnumerate_eq]
    exact List.mem_filter.2 ⟨List.mem_map_of_mem (onBoard_present f (hahci f hf).1), (hahci f hf).2⟩
  have hsub : [pciEntry board ⟨0, 2, 0⟩, pciEntry board ⟨0, 3, 0⟩] ⊆ (pciEnumerate board).filter isAhci := by
    intro d hd
    simp only [List.mem_cons, List.not_mem_nil, or_false] at hd
    rcases hd with rfl | rfl
    · exact hmem _ (by decide)
    · exact hmem _ (by decide)
  have hnodup : [pciEntry board ⟨0, 2, 0⟩, pciEntry board ⟨0, 3, 0⟩].Nodup := by
    rw [List.nodup_cons]
    exact ⟨fun h => absurd (congrArg (·.function.dev) (List.mem_singleton.1 h)) (by decide), List.nodup_singleton _⟩
  have hlen := (hnodup.subperm hsub).length_le
  rw [List.countP_eq_length_filter] at hle
  exact absurd (hlen.trans hle) (by decide)

end AltoniumOS.Storage

/-
The public operations of `fat12.c` besides `fat12_change_directory`: reading, writing, creating
and deleting, listing a path, flushing, and mounting.
-/
import AltoniumOS.Fat12.Path

namespace AltoniumOS.Fat12

open AltoniumOS.Lib

/-! ## Listing -/

/-- `fat12_iterate_current_directory` -/
def iterateCurrentDirectory {κ : Type} (fuel : Nat) (cb : κ → DirEntryInfo → Bool × κ)
    (ctx : κ) : M (Code × κ) := do
  let c ← getCore
  if !c.fsReady then pure (.errNotInitialized, ctx)
  else iterateDirectoryInternal fuel c.currentDirCluster cb ctx

/-- `fat12_iterate_path` -/
def iteratePath {κ : Type} (fuel : Nat) (path : List UInt8) (cb : κ → DirEntryInfo → Bool × κ)
    (ctx : κ) : M (Code × κ) := do
  let c ← getCore
  if !c.fsReady then pure (.errNotInitialized, ctx)
  else if path = [] then iterateCurrentDirectory fuel cb ctx
  else
    match ← locateDirectory fuel path with
    | .error e => pure (e, ctx)
    | .ok cluster => iterateDirectoryInternal fuel cluster cb ctx

/-! ## Reading -/

/-- One round of the copy loop of `fat12_read_file`, over `(cluster, cursor)` and the buffer; at the
end `*out_size` is set. -/
def readRound (size : Nat) : Nat × Nat × Buf → M (Nat × Nat × Buf ⊕ Code × Buf × Option Nat)
  | (cluster, cursor, buffer) =>
    if cursor < size ∧ inChain cluster then do
      let (ok, data) ← readCluster cluster
      if ok then
        let c ← getCore
        let toCopy := min c.fs.clusterSizeBytes (size - cursor)
        pure (.inl (getFatEntry c cluster, cursor + toCopy, buffer.blit cursor data toCopy))
      else pure (.inr (.errIo, buffer, none))
    else pure (.inr (.ok, buffer, some size))

/-- `fat12_read_file` into `buffer` (`none` for a null pointer). -/
def readFile (fuel : Nat) (path : List UInt8) (buffer : Option Buf) (maxSize : Nat) :
    M (Code × Option Buf × Option Nat) := do
  let c ← getCore
  if !c.fsReady then pure (.errNotInitialized, buffer, none)
  else
    match buffer with
    | none => pure (.errInvalidName, none, none)
    | some buffer =>
      match ← resolveParentAndName fuel path with
      | .error e => pure (e, some buffer, none)
      | .ok (dirCluster, shortName) =>
        match ← findEntry fuel dirCluster shortName with
        | .error e => pure (e, some buffer, none)
        | .ok (entry, _) =>
          if entry.isDirectory then pure (.errNotFile, some buffer, none)
          else if entry.size > maxSize then pure (.errBufferSmall, some buffer, none)
          else
            let (code, buffer, outSize) ← loop (readRound entry.size) fuel (entry.cluster, 0, buffer)
            pure (code, some buffer, outSize)

/-! ## Flushing -/

/-- `fat12_flush` -/
def flush : M Code := do
  let c ← getCore
  if !c.fsReady then pure .errNotInitialized
  else
    match ← flushRoot with
    | .ok => flushFats
    | e => pure e

/-- `fat12_flush_root(); fat12_flush_fats(); return FAT12_OK;`, the end of every change. -/
def flushAll : M Code := do
  let _ ← flushRoot
  let _ ← flushFats
  pure .ok

/-- A change and the end of it: an early return of an error skips the flush. -/
def committing (change : M Code) : M Code := do
  match ← change with
  | .ok => flushAll
  | e => pure e

/-! ## Writing -/

/-- `if (first_cluster >= 2) fat12_free_chain(first_cluster);` -/
def freeFrom (fuel : Nat) (firstCluster : Nat) : M Unit :=
  if firstCluster ≥ 2 then freeChain fuel firstCluster else pure ()

/-- The link from the previous cluster of a file being written, if there is one. -/
def linkPrevious (prevCluster newCluster : Nat) : M Unit :=
  if prevCluster ≥ 2 then setFatEntry prevCluster newCluster else pure ()

/-- One round of the loop of `fat12_write_file` over `(first_cluster, prev_cluster, bytes_written)`. -/
def writeRound (fuel : Nat) (data : Buf) (size : Nat) : Nat × Nat × Nat → M (Nat × Nat × Nat ⊕ Except Code Nat)
  | (firstCluster, prevCluster, bytesWritten) =>
    if bytesWritten < size then do
      let newCluster ← allocateCluster
      if newCluster = 0 then
        freeFrom fuel firstCluster
        pure (.inr (.error .errNoFreeCluster))
      else
        let firstCluster := if firstCluster = 0 then newCluster else firstCluster
        linkPrevious prevCluster newCluster
        setFatEntry newCluster clusterEoc
        let c ← getCore
        let toCopy := min c.fs.clusterSizeBytes (size - bytesWritten)
        let buffer ← getClusterBuffer
        let buffer := (buffer.fill 0 c.fs.clusterSizeBytes).blit 0 (fun i => data (bytesWritten + i)) toCopy
        setClusterBuffer buffer
        if ← writeCluster newCluster buffer then pure (.inl (firstCluster, newCluster, bytesWritten + toCopy))
        else
          freeChain fuel firstCluster
          pure (.inr (.error .errIo))
    else pure (.inr (.ok firstCluster))

/-- The loop of `fat12_write_file`: the first cluster of the new chain, 0 for no data. -/
def writeLoop (fuel : Nat) (data : Buf) (size : Nat) : M (Except Code Nat) :=
  loop (writeRound fuel data size) fuel (0, 0, 0)

/-- `fat12_write_file` behind the loop, up to the flush: the directory entry, and the old chain given back. -/
def commitFile (fuel : Nat) (dirCluster : Nat) (shortName : ShortName) (oldCluster : Option Nat)
    (firstCluster size : Nat) : M Code := do
  match ← writeDirectoryEntry fuel dirCluster shortName (fillDirEntry shortName attrArchive firstCluster size) with
  | .ok =>
    match oldCluster with
    | none => pure .ok
    | some oldCluster =>
      if oldCluster ≥ 2 ∧ oldCluster ≠ firstCluster then
        freeChain fuel oldCluster
        pure .ok
      else pure .ok
  | e =>
    freeFrom fuel firstCluster
    pure e

/-- `fat12_write_file` up to the flush. -/
def writeFileBody (fuel : Nat) (name : List UInt8) (data : Option Buf) (size : Nat) : M Code := do
  let c ← getCore
  if !c.fsReady then pure .errNotInitialized
  else if data.isNone ∧ size > 0 then pure .errInvalidName
  else
    match ← resolveParentAndName fuel name with
    | .error e => pure e
    | .ok (dirCluster, shortName) =>
      match ← findEntry fuel dirCluster shortName with
      | .ok (existing, _) =>
        if existing.isDirectory then pure .errAlreadyExists
        else
          match ← writeLoop fuel (data.getD fun _ => 0) size with
          | .error e => pure e
          | .ok firstCluster => commitFile fuel dirCluster shortName (some existing.cluster) firstCluster size
      | .error .errNotFound =>
        match ← writeLoop fuel (data.getD fun _ => 0) size with
        | .error e => pure e
        | .ok firstCluster => commitFile fuel dirCluster shortName none firstCluster size
      | .error e => pure e

/-- `fat12_write_file` of the first `size` bytes of `data` (`none` for a null pointer). -/
def writeFile (fuel : Nat) (name : List UInt8) (data : Option Buf) (size : Nat) : M Code :=
  committing (writeFileBody fuel name data size)

/-! ## Creating and deleting -/

/-- The first cluster of a new directory: the dot entries, and zeros behind them. -/
def dotBuffer (buffer : Buf) (clusterSize newCluster parentCluster : Nat) : Buf :=
  ((buffer.fill 0 clusterSize).blit 0 (fillDirEntry dotName attrDirectory newCluster 0).bytes dirEntrySize).blit
    dirEntrySize (fillDirEntry dotDotName attrDirectory parentCluster 0).bytes dirEntrySize

/-- `fat12_create_directory` up to the flush. -/
def createDirectoryBody (fuel : Nat) (name : List UInt8) : M Code := do
  let c ← getCore
  if !c.fsReady then pure .errNotInitialized
  else
    match ← resolveParentAndName fuel name with
    | .error e => pure e
    | .ok (dirCluster, shortName) =>
      match ← findEntry fuel dirCluster shortName with
      | .ok _ => pure .errAlreadyExists
      | .error _ =>
        let newCluster ← allocateCluster
        if newCluster = 0 then pure .errNoFreeCluster
        else
          let buffer ← getClusterBuffer
          let buffer := dotBuffer buffer c.fs.clusterSizeBytes newCluster dirCluster
          setClusterBuffer buffer
          if ← writeCluster newCluster buffer then
            match ← writeDirectoryEntry fuel dirCluster shortName
              (fillDirEntry shortName attrDirectory newCluster 0) with
            | .ok => pure .ok
            | e =>
              freeChain fuel newCluster
              pure e
          else
            freeChain fuel newCluster
            pure .errIo

/-- `fat12_create_directory` -/
def createDirectory (fuel : Nat) (name : List UInt8) : M Code := committing (createDirectoryBody fuel name)

/-- `fat12_delete_file` up to the flush. -/
def deleteFileBody (fuel : Nat) (name : List UInt8) : M Code := do
  let c ← getCore
  if !c.fsReady then pure .errNotInitialized
  else
    match ← resolveParentAndName fuel name with
    | .error e => pure e
    | .ok (dirCluster, shortName) =>
      match ← findEntry fuel dirCluster shortName with
      | .error e => pure e
      | .ok (entry, _) =>
        if entry.isDirectory then pure .errNotFile
        else
          freeFrom fuel entry.cluster
          markEntryDeleted fuel dirCluster shortName

/-- `fat12_delete_file` -/
def deleteFile (fuel : Nat) (name : List UInt8) : M Code := committing (deleteFileBody fuel name)

/-! ## Mounting -/

/-- Sectors `i` to `i + n` of the area at `lba` read one by one into `buffer`, up to a failure. -/
def readArea (lba : Nat) (buffer : Buf) (i : Nat) : Nat → M (Bool × Buf)
  | 0 => pure (true, buffer)
  | n + 1 => do
    let (ok, buffer) ← diskReadSector (lbaAdd lba i) buffer (sectorSize * i)
    if ok then readArea lba buffer (i + 1) n
    else pure (false, buffer)

/-- The fields `fat12_init` copies out of the boot sector. -/
def Fs.ofBpb (fs : Fs) (sector : Buf) (baseLba : Nat) : Fs :=
  { fs with
    bytesPerSector := sector.le 11 2
    sectorsPerCluster := sector.le 13 1
    reservedSectors := sector.le 14 2
    numFats := sector.le 16 1
    rootEntryCount := sector.le 17 2
    sectorsPerFat := sector.le 22 2
    totalSectors := if sector.le 19 2 ≠ 0 then sector.le 19 2 else sector.le 32 4
    baseLba := baseLba }

/-- `fat_size_bytes` and `root_dir_sectors`. -/
def Fs.sized (fs : Fs) : Fs :=
  { fs with
    fatSizeBytes := fs.sectorsPerFat * sectorSize
    rootDirSectors := (fs.rootEntryCount * dirEntrySize + (sectorSize - 1)) / sectorSize }

/-- The layout; `total_data_sectors` is computed in `uint32_t`. -/
def Fs.laidOut (fs : Fs) : Fs :=
  let fatStartLba := fs.reservedSectors
  let rootDirStartLba := fatStartLba + fs.numFats * fs.sectorsPerFat
  let totalDataSectors :=
    (fs.totalSectors + 4294967296 - fs.reservedSectors - fs.numFats * fs.sectorsPerFat - fs.rootDirSectors)
      % 4294967296
  { fs with
    fatStartLba := fatStartLba
    rootDirStartLba := rootDirStartLba
    dataStartLba := rootDirStartLba + fs.rootDirSectors
    totalDataSectors := totalDataSectors
    totalClusters := totalDataSectors / fs.sectorsPerCluster
    clusterSizeBytes := fs.sectorsPerCluster * sectorSize }

/-- The loads at the end of `fat12_init`: the FAT, its second copy, the root directory. -/
def loadCaches : M Bool := do
  let c ← getCore
  let (ok, fat) ← readArea (lbaAdd c.fs.baseLba c.fs.fatStartLba) c.fatPrimary 0 c.fs.sectorsPerFat
  modifyCore fun c => { c with fatPrimary := fat }
  if !ok then pure false
  else
    let ok ← if c.fs.numFats > 1 then do
        let s ← get
        let (ok, fat) ← readArea (lbaAdd c.fs.baseLba (c.fs.fatStartLba + c.fs.sectorsPerFat)) s.fatSecondary 0
          c.fs.sectorsPerFat
        setFatSecondary fat
        pure ok
      else pure true
    if !ok then pure false
    else
      let (ok, root) ← readArea (lbaAdd c.fs.baseLba c.fs.rootDirStartLba) c.rootDir 0 c.fs.rootDirSectors
      modifyCore fun c => { c with rootDir := root }
      pure ok

/-- `fat12_init` -/
def init (baseLba : Nat) : M Code := do
  let (ok, sector) ← diskReadSector baseLba (fun _ => 0) 0
  if !ok then pure .errIo
  else if sector.le 11 2 ≠ sectorSize then pure .errBadBpb
  else
    modifyCore fun c => { c with fs := c.fs.ofBpb sector baseLba }
    let c ← getCore
    if c.fs.sectorsPerCluster = 0 ∨ c.fs.sectorsPerCluster > maxSectorsPerCluster then pure .errNotFat12
    else if c.fs.sectorsPerFat = 0 ∨ c.fs.sectorsPerFat > maxFatSectors then pure .errNotFat12
    else
      modifyCore fun c => { c with fs := c.fs.sized }
      let c ← getCore
      if c.fs.rootDirSectors > maxRootDirSectors then pure .errNotFat12
      else
        modifyCore fun c => { c with fs := c.fs.laidOut }
        let c ← getCore
        if c.fs.totalClusters < 1 ∨ c.fs.totalClusters > 4084 then pure .errNotFat12
        else if ← loadCaches then
          modifyCore fun c =>
            { c with
              currentDirCluster := 0
              pathStack := .empty
              cwd := [slash]
              fsReady := true
              fatDirty := false
              rootDirty := false }
          pure .ok
        else pure .errIo

end AltoniumOS.Fat12

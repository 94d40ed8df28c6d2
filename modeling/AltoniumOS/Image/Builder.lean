/-
The image builder of `scripts/build_fat12_image.py`: the functions that lay out a FAT12 volume, and the
image they are used for.

A `bytearray` is a buffer of known length that is only written within its length; names are the bytes of
ASCII strings, as the encoder requires of them. The errors are those the script raises.
-/
import AltoniumOS.Lib.Bytes
import AltoniumOS.Fat12.Entry

namespace AltoniumOS.Image

open AltoniumOS.Lib
open AltoniumOS.Fat12 (dot space toUpper pad)

def bytesPerSector : Nat := 512
def totalSectors : Nat := 20480
def reservedSectors : Nat := 128
def numFats : Nat := 2
def sectorsPerFat : Nat := 8
def rootEntries : Nat := 256
def rootDirSectors : Nat := 16
def sectorsPerCluster : Nat := 8
def mediaDescriptor : UInt8 := 0xF8

/-- `DATA_START_SECTOR` -/
def dataStartSector : Nat := reservedSectors + numFats * sectorsPerFat + rootDirSectors
/-- `CLUSTER_SIZE` -/
def clusterSize : Nat := bytesPerSector * sectorsPerCluster
/-- `TOTAL_DATA_SECTORS` -/
def totalDataSectors : Nat := totalSectors - reservedSectors - numFats * sectorsPerFat - rootDirSectors
/-- `TOTAL_CLUSTERS` -/
def totalClusters : Nat := totalDataSectors / sectorsPerCluster
/-- `EOC` -/
def eoc : Nat := 0x0FFF

/-- The errors raised, by their messages. -/
inductive BuildError where
  | bootSectorSize
  | stage2Size
  | kernelTooLarge
  | diskFull
  | rootDirectoryFull
  deriving DecidableEq, Repr

/-- `b[off:off + len(data)] = data` -/
def put (b : Buf) (off : Nat) (data : List UInt8) : Buf := b.blit off (fun i => data.getD i 0) data.length

/-- `to_short_name` -/
def toShortName (name : List UInt8) : List UInt8 :=
  let parts := name.splitOn dot
  let base := ((parts.getD 0 []).take 8).map toUpper
  let ext := if parts.length > 1 then ((parts.getD 1 []).take 3).map toUpper else []
  pad 8 base ++ pad 3 ext

/-- `set_fat_entry` -/
def setFatEntry (fat : Buf) (cluster value : Nat) : Buf :=
  let value := value &&& 0x0FFF
  let index := cluster + cluster / 2
  if cluster % 2 = 0 then
    let fat := Function.update fat index (.ofNat (value &&& 0xFF))
    Function.update fat (index + 1) ((fat (index + 1) &&& 0xF0) ||| .ofNat ((value >>> 8) &&& 0x0F))
  else
    let fat := Function.update fat index ((fat index &&& 0x0F) ||| .ofNat ((value &&& 0x0F) <<< 4))
    Function.update fat (index + 1) (.ofNat ((value >>> 4) &&& 0xFF))

/-- `struct.pack('<H', v)`, `struct.pack('<I', v)`: the `n` bytes of `v`, low byte first. -/
def packLe (n v : Nat) : List UInt8 := (List.range n).map (leByte v)

/-- `build_dir_entry` -/
def buildDirEntry (shortName : List UInt8) (attr : UInt8) (firstCluster size : Nat) : Buf :=
  let entry : Buf := fun _ => 0
  let entry := put entry 0 shortName
  let entry := Function.update entry 11 attr
  let entry := put entry 26 (packLe 2 firstCluster)
  put entry 28 (packLe 4 size)

/-- `cluster_to_offset` -/
def clusterToOffset (cluster : Int) : Int := ((cluster - 2) * sectorsPerCluster + dataStartSector) * bytesPerSector

/-- `write_cluster` -/
def writeCluster (image : Buf) (cluster : Nat) (data : Buf) (len : Nat) : Buf :=
  let padded : Buf := fun i => if i < len then data i else 0
  image.blit (clusterToOffset cluster).toNat padded clusterSize

/-- The image being built: `next_cluster` of the allocator, and the buffers. -/
structure Build where
  image : Buf
  fat : Buf
  rootDir : Buf
  nextCluster : Nat
  rootIndex : Nat

/-- The first loop of `allocate`: the clusters taken, and the next one. -/
def takeClusters : Nat → Nat → Except BuildError (List Nat × Nat)
  | 0, nextCluster => .ok ([], nextCluster)
  | count + 1, nextCluster =>
    if nextCluster ≥ totalClusters + 2 then .error .diskFull
    else do
      let (clusters, next) ← takeClusters count (nextCluster + 1)
      .ok (nextCluster :: clusters, next)

/-- The second loop of `allocate`. -/
def linkClusters : List Nat → Buf → Buf
  | [], fat => fat
  | [cluster], fat => setFatEntry fat cluster eoc
  | cluster :: next :: clusters, fat => linkClusters (next :: clusters) (setFatEntry fat cluster next)

/-- `allocate` of `create_allocator` -/
def allocate (b : Build) (count : Nat) : Except BuildError (List Nat × Build) := do
  let (clusters, next) ← takeClusters count b.nextCluster
  .ok (clusters, { b with nextCluster := next, fat := linkClusters clusters b.fat })

/-- The loop of `write_file`, from chunk `i` on. -/
def writeChunks (data : List UInt8) : List Nat → Nat → Buf → Buf
  | [], _, image => image
  | cluster :: clusters, i, image =>
    let chunk := (data.drop (i * clusterSize)).take clusterSize
    writeChunks data clusters (i + 1) (writeCluster image cluster (fun k => chunk.getD k 0) chunk.length)

/-- `write_file` -/
def writeFile (b : Build) (data : List UInt8) : Except BuildError (Nat × Build) :=
  if data = [] then .ok (0, b)
  else do
    let clustersNeeded := (data.length + clusterSize - 1) / clusterSize
    let (clusters, b) ← allocate b clustersNeeded
    .ok (clusters.headD 0, { b with image := writeChunks data clusters 0 b.image })

/-- `add_root_entry` -/
def addRootEntry (b : Build) (name : List UInt8) (attr : UInt8) (firstCluster size : Nat) :
    Except BuildError Build :=
  if b.rootIndex ≥ rootEntries then .error .rootDirectoryFull
  else
    let entry := buildDirEntry (toShortName name) attr firstCluster size
    .ok { b with rootDir := b.rootDir.blit (b.rootIndex * 32) entry 32, rootIndex := b.rootIndex + 1 }

/-- A file written and entered into the root directory. -/
def addFile (b : Build) (name data : List UInt8) : Except BuildError Build := do
  let (cluster, b) ← writeFile b data
  addRootEntry b name 0x20 cluster data.length

/-- Files laid out one after the other. -/
def addFiles : List (List UInt8 × List UInt8) → Build → Except BuildError Build
  | [], b => .ok b
  | (name, data) :: files, b => do
    let b ← addFile b name data
    addFiles files b

/-- The start: the image so far, and the FAT with its first two cells. -/
def start (image : Buf) : Build where
  image := image
  fat := put (fun _ => 0) 0 [mediaDescriptor, 0xFF, 0xFF]
  rootDir := fun _ => 0
  nextCluster := 2
  rootIndex := 0

/-- The end: the FATs and the root directory copied to their places. -/
def finish (b : Build) : Buf :=
  let fatOffset := reservedSectors * bytesPerSector
  let image := b.image.blit fatOffset b.fat (sectorsPerFat * bytesPerSector)
  let image := image.blit (fatOffset + sectorsPerFat * bytesPerSector) b.fat (sectorsPerFat * bytesPerSector)
  image.blit ((reservedSectors + numFats * sectorsPerFat) * bytesPerSector) b.rootDir
    (rootDirSectors * bytesPerSector)

/-- The bytes of an ASCII string. -/
def ascii (text : String) : List UInt8 := text.toUTF8.data.toList

/-- `readme_text` -/
def readmeText : List UInt8 :=
  ascii "Welcome to AltoniumOS FAT12 volume!\r\nUse 'ls', 'cat', and 'write' inside the kernel shell.\r\n"
/-- `config_text` -/
def configText : List UInt8 := ascii "boot=altoniumos\nversion=1.0\nfat12=enabled\n"
/-- `info_text` -/
def infoText : List UInt8 := ascii "Sample notes live inside DOCS/INFO.TXT\r\n"
/-- `dot_name` -/
def dotName : List UInt8 := dot :: List.replicate 10 space
/-- `dotdot_name` -/
def dotdotName : List UInt8 := dot :: dot :: List.replicate 9 space

/-- The files every image is seeded with. -/
def seed (b : Build) : Except BuildError Build := do
  let b ← addFile b (ascii "README.TXT") readmeText
  let b ← addFile b (ascii "SYSTEM.CFG") configText
  let (clusters, b) ← allocate b 1
  let docsCluster := clusters.headD 0
  let docsBuffer : Buf := fun _ => 0
  let docsBuffer := docsBuffer.blit 0 (buildDirEntry dotName 0x10 docsCluster 0) 32
  let docsBuffer := docsBuffer.blit 32 (buildDirEntry dotdotName 0x10 0 0) 32
  let (infoCluster, b) ← writeFile b infoText
  let docsBuffer :=
    docsBuffer.blit 64 (buildDirEntry (toShortName (ascii "INFO.TXT")) 0x20 infoCluster infoText.length) 32
  let b := { b with image := writeCluster b.image docsCluster docsBuffer clusterSize }
  addRootEntry b (ascii "DOCS") 0x10 docsCluster 0

/-- The reserved sectors: the boot sector, stage 2 if there is one, and the kernel behind them. -/
def reservedArea (bootSector kernel : List UInt8) (stage2 : Option (List UInt8)) : Except BuildError Buf :=
  if bootSector.length ≠ bytesPerSector then .error .bootSectorSize
  else
    let image := put (fun _ => 0) 0 bootSector
    let place (image : Buf) (kernelStartSector : Nat) : Except BuildError Buf :=
      let kernelSectors := (kernel.length + bytesPerSector - 1) / bytesPerSector
      if kernelSectors > reservedSectors - kernelStartSector then .error .kernelTooLarge
      else .ok (put image (kernelStartSector * bytesPerSector) kernel)
    match stage2 with
    | some stage2 =>
      if stage2.length > bytesPerSector then .error .stage2Size else place (put image bytesPerSector stage2) 2
    | none => place image 1

/-- `build_image` -/
def buildImage (bootSector kernel : List UInt8) (stage2 : Option (List UInt8)) : Except BuildError Buf := do
  let image ← reservedArea bootSector kernel stage2
  let b ← seed (start image)
  .ok (finish b)

end AltoniumOS.Image

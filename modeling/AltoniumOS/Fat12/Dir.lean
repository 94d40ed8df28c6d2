/-
Directories of `fat12.c`: the walkers over the slots of the root table or of a directory's
cluster chain (`fat12_iterate_directory_internal`, `fat12_find_entry`, `fat12_find_free_entry`)
and the slot writers built on them.

The two storage layouts run the same inner loop over slots, the root table at `g_root_dir` and
each cluster of a subdirectory at `g_cluster_buffer`; it is one scan here. The cluster loops
follow links of the medium and carry the fuel.
-/
import AltoniumOS.Lib.Scan
import AltoniumOS.Fat12.Table

namespace AltoniumOS.Fat12

open AltoniumOS.Lib

/-- Where a slot lives: the owning cluster (0 for the root table) and the index in it. -/
abbrev Loc := Nat × Nat

/-- Entry `i` of a table of entries. -/
def slotAt (table : Buf) (i : Nat) : RawDirEntry := decodeEntry table (dirEntrySize * i)

/-- `cluster_size_bytes / FAT12_DIR_ENTRY_SIZE` -/
def Fs.entriesPerCluster (fs : Fs) : Nat := fs.clusterSizeBytes / dirEntrySize

/-! ## Listing -/

/-- The slots a listing shows: live, no volume label, no dot entry. -/
def isListed (e : RawDirEntry) : Bool :=
  e.name.first != nameDeleted && e.attr != attrVolumeId && !isDotEntry e

/-- The slot loop of `fat12_iterate_directory_internal`: whether to return, and the callback's
context. A null callback is one that never stops. -/
def iterateSlots {κ : Type} (cb : κ → DirEntryInfo → Bool × κ) (slot : Nat → RawDirEntry) : List Nat → κ → Bool × κ
  | [], ctx => (false, ctx)
  | i :: is, ctx =>
    if (slot i).name.first = nameEnd then (true, ctx)
    else if isListed (slot i) then
      match cb ctx (copyEntryInfo (slot i)) with
      | (true, ctx) => (true, ctx)
      | (false, ctx) => iterateSlots cb slot is ctx
    else iterateSlots cb slot is ctx

/-- One round of the cluster loop of `fat12_iterate_directory_internal`. -/
def iterateRound {κ : Type} (cb : κ → DirEntryInfo → Bool × κ) : Nat × κ → M (Nat × κ ⊕ Code × κ)
  | (cluster, ctx) =>
    if inChain cluster then do
      let (ok, buffer) ← readCluster cluster
      if ok then
        let c ← getCore
        match iterateSlots cb (slotAt buffer) (List.range c.fs.entriesPerCluster) ctx with
        | (true, ctx) => pure (.inr (.ok, ctx))
        | (false, ctx) => pure (.inl (getFatEntry c cluster, ctx))
      else pure (.inr (.errIo, ctx))
    else pure (.inr (.ok, ctx))

/-- `fat12_iterate_directory_internal` -/
def iterateDirectoryInternal {κ : Type} (fuel : Nat) (dirCluster : Nat) (cb : κ → DirEntryInfo → Bool × κ)
    (ctx : κ) : M (Code × κ) := do
  let c ← getCore
  if dirCluster = 0 then
    pure (.ok, (iterateSlots cb (slotAt c.rootDir) (List.range c.fs.rootEntryCount) ctx).2)
  else loop (iterateRound cb) fuel (dirCluster, ctx)

/-! ## Finding -/

/-- What one slot does to a search for `shortName`. -/
def findVerdict (shortName : ShortName) (e : RawDirEntry) : Verdict :=
  if e.name.first = nameEnd then .stop
  else if e.name.first = nameDeleted then .skip
  else if e.name = shortName then .hit
  else .skip

/-- One round of the cluster loop of `fat12_find_entry`. -/
def findRound (shortName : ShortName) (cluster : Nat) : M (Nat ⊕ Except Code (RawDirEntry × Loc)) :=
  if inChain cluster then do
    let (ok, buffer) ← readCluster cluster
    if ok then
      let c ← getCore
      match scan (fun i => findVerdict shortName (slotAt buffer i)) (List.range c.fs.entriesPerCluster) with
      | .hit i => pure (.inr (.ok (slotAt buffer i, (cluster, i))))
      | .stopped => pure (.inr (.error .errNotFound))
      | .ranOff => pure (.inl (getFatEntry c cluster))
    else pure (.inr (.error .errIo))
  else pure (.inr (.error .errNotFound))

/-- `fat12_find_entry`: the entry found and where it lives. -/
def findEntry (fuel : Nat) (dirCluster : Nat) (shortName : ShortName) : M (Except Code (RawDirEntry × Loc)) := do
  let c ← getCore
  if dirCluster = 0 then
    match scan (fun i => findVerdict shortName (slotAt c.rootDir i)) (List.range c.fs.rootEntryCount) with
    | .hit i => pure (.ok (slotAt c.rootDir i, (0, i)))
    | _ => pure (.error .errNotFound)
  else loop (findRound shortName) fuel dirCluster

/-! ## Writing slots -/

/-- `c` after an entry was stored in the root table. -/
def Core.putRootEntry (c : Core) (i : Nat) (e : RawDirEntry) : Core :=
  { c with rootDir := c.rootDir.blit (dirEntrySize * i) e.bytes dirEntrySize, rootDirty := true }

/-- `fat12_write_entry` -/
def writeEntry (loc : Loc) (entry : RawDirEntry) : M Code := do
  let c ← getCore
  if loc.1 = 0 then
    if loc.2 ≥ c.fs.rootEntryCount then pure .errOutOfRange
    else
      modifyCore fun c => c.putRootEntry loc.2 entry
      pure .ok
  else
    let (ok, buffer) ← readCluster loc.1
    if !ok then pure .errIo
    else if loc.2 ≥ c.fs.entriesPerCluster then pure .errOutOfRange
    else
      let buffer := buffer.blit (dirEntrySize * loc.2) entry.bytes dirEntrySize
      setClusterBuffer buffer
      if ← writeCluster loc.1 buffer then pure .ok
      else pure .errIo

/-- What one slot does to the search for a free slot. -/
def freeVerdict (e : RawDirEntry) : Verdict := if isFreeEntry e then .hit else .skip

/-- The new last cluster of a directory: linked behind the previous one, if there is one. -/
def linkCluster (previous newCluster : Nat) : M Unit :=
  if previous ≠ 0 then do
    setFatEntry previous newCluster
    setFatEntry newCluster clusterEoc
  else pure ()

/-- One round of the cluster loop of `fat12_find_free_entry`, over `(cluster, previous_cluster)`:
a free slot, or at the end the last cluster visited. -/
def freeRound : Nat × Nat → M (Nat × Nat ⊕ (Except Code Loc ⊕ Nat))
  | (cluster, previous) =>
    if inChain cluster then do
      let (ok, buffer) ← readCluster cluster
      if ok then
        let c ← getCore
        match scan (fun i => freeVerdict (slotAt buffer i)) (List.range c.fs.entriesPerCluster) with
        | .hit i => pure (.inr (.inl (.ok (cluster, i))))
        | _ => pure (.inl (getFatEntry c cluster, cluster))
      else pure (.inr (.inl (.error .errIo)))
    else pure (.inr (.inr previous))

/-- `fat12_find_free_entry` -/
def findFreeEntry (fuel : Nat) (dirCluster : Nat) : M (Except Code Loc) := do
  let c ← getCore
  if dirCluster = 0 then
    match scan (fun i => freeVerdict (slotAt c.rootDir i)) (List.range c.fs.rootEntryCount) with
    | .hit i => pure (.ok (0, i))
    | _ => pure (.error .errDirFull)
  else
    match ← loop freeRound fuel (dirCluster, 0) with
    | .inl r => pure r
    | .inr previous =>
      let newCluster ← allocateCluster
      if newCluster = 0 then pure (.error .errNoFreeCluster)
      else
        linkCluster previous newCluster
        pure (.ok (newCluster, 0))

/-- `fat12_write_directory_entry` -/
def writeDirectoryEntry (fuel : Nat) (dirCluster : Nat) (shortName : ShortName) (entryTemplate : RawDirEntry) :
    M Code := do
  match ← findEntry fuel dirCluster shortName with
  | .ok (_, loc) => writeEntry loc entryTemplate
  | .error .errNotFound =>
    match ← findFreeEntry fuel dirCluster with
    | .ok loc => writeEntry loc entryTemplate
    | .error e => pure e
  | .error e => pure e

/-- The slot `fat12_mark_entry_deleted` writes back. -/
def deletedEntry (e : RawDirEntry) : RawDirEntry :=
  { e with name := e.name.setFirst nameDeleted, fileSize := 0, firstClusterLow := 0 }

/-- `fat12_mark_entry_deleted` -/
def markEntryDeleted (fuel : Nat) (dirCluster : Nat) (shortName : ShortName) : M Code := do
  match ← findEntry fuel dirCluster shortName with
  | .ok (entry, loc) => writeEntry loc (deletedEntry entry)
  | .error e => pure e

end AltoniumOS.Fat12

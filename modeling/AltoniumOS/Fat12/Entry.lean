/-
Names and directory entries of `fat12.c`: the result codes, the 11-byte short names with their
encoder and decoder (`fat12_make_short_name`, `fat12_dir_name_to_string`), and the 32-byte packed
directory entry with its byte form.

A C string is the list of its bytes before the terminating NUL. The functions of `fat12.c` treat
a null path as the empty one, so a path argument is such a list too.
-/
import AltoniumOS.Lib.Bytes

namespace AltoniumOS.Fat12

open AltoniumOS.Lib

/-- The FAT12 result codes, `FAT12_OK` to `FAT12_ERR_NOT_INITIALIZED`. -/
inductive Code where
  | ok
  | errIo
  | errBadBpb
  | errNotFat12
  | errOutOfRange
  | errNoFreeCluster
  | errInvalidName
  | errNotFound
  | errNotDirectory
  | errAlreadyExists
  | errDirFull
  | errBufferSmall
  | errNotFile
  | errNotInitialized
  deriving DecidableEq, Repr

def clusterFree : Nat := 0x000
def clusterEoc : Nat := 0xFF8
def dirEntrySize : Nat := 32
def sectorSize : Nat := 512
def maxFatSectors : Nat := 64
def maxRootDirSectors : Nat := 64
def maxSectorsPerCluster : Nat := 32
def maxPathDepth : Nat := 16
def maxDisplayName : Nat := 13
def pathMax : Nat := 128

def attrVolumeId : UInt8 := 0x08
def attrDirectory : UInt8 := 0x10
def attrArchive : UInt8 := 0x20

/-- ' ' -/
def space : UInt8 := 0x20
/-- '.' -/
def dot : UInt8 := 0x2E
/-- '/' -/
def slash : UInt8 := 0x2F
/-- '\\' -/
def backslash : UInt8 := 0x5C
/-- First name byte of a slot never used. -/
def nameEnd : UInt8 := 0x00
/-- First name byte of a deleted slot. -/
def nameDeleted : UInt8 := 0xE5

/-! ## Short names -/

/-- `uint8_t name[11]`. -/
abbrev ShortName := { l : List UInt8 // l.length = 11 }

/-- `name[0]`. -/
def ShortName.first (n : ShortName) : UInt8 := n.1.headD 0

/-- `name[i]`. -/
def ShortName.at (n : ShortName) (i : Nat) : UInt8 := n.1.getD i 0

/-- `name[0] = c`. -/
def ShortName.setFirst (n : ShortName) (c : UInt8) : ShortName := ⟨n.1.set 0 c, by rw [List.length_set]; exact n.2⟩

@[simp] theorem ShortName.first_setFirst (n : ShortName) (c : UInt8) : (n.setFirst c).first = c := by
  obtain ⟨l, hl⟩ := n
  cases l with
  | nil => cases hl
  | cons b l => rfl

/-- `fat12_to_upper` -/
def toUpper (c : UInt8) : UInt8 := if 0x61 ≤ c ∧ c ≤ 0x7A then c - 32 else c

/-- `fat12_is_valid_char` -/
def isValidChar (c : UInt8) : Bool :=
  (0x41 ≤ c && c ≤ 0x5A) || (0x30 ≤ c && c ≤ 0x39) || c == 0x5F || c == 0x2D

/-- The dot search of `fat12_make_short_name`: the index of the only dot, if any; a second dot or
a space is an invalid name. `i` is the index of the head. -/
def dotIndex (i : Nat) (dotAt : Option Nat) : List UInt8 → Except Code (Option Nat)
  | [] => .ok dotAt
  | c :: l =>
    if c = dot then
      if dotAt.isSome then .error .errInvalidName else dotIndex (i + 1) (some i) l
    else if c = space then .error .errInvalidName
    else dotIndex (i + 1) dotAt l

/-- `l` padded with spaces to `n` bytes. -/
def pad (n : Nat) (l : List UInt8) : List UInt8 := l ++ List.replicate (n - l.length) space

theorem length_pad {n : Nat} {l : List UInt8} (h : l.length ≤ n) : (pad n l).length = n := by
  simp [pad]; omega

/-- `out` after the two copy loops of `fat12_make_short_name`. -/
def padName (base ext : List UInt8) (hb : base.length ≤ 8) (he : ext.length ≤ 3) : ShortName :=
  ⟨pad 8 base ++ pad 3 ext, by rw [List.length_append, length_pad hb, length_pad he]⟩

/-- The length and character checks of `fat12_make_short_name`, and the name they let through. -/
def packName (base ext : List UInt8) : Except Code ShortName :=
  if hb : 0 < base.length ∧ base.length ≤ 8 then
    if he : ext.length ≤ 3 then
      if base.all isValidChar then
        if ext.all isValidChar then .ok (padName base ext hb.2 he)
        else .error .errInvalidName
      else .error .errInvalidName
    else .error .errInvalidName
  else .error .errInvalidName

/-- `fat12_make_short_name` -/
def makeShortName (input : List UInt8) : Except Code ShortName :=
  if input = [] then .error .errInvalidName
  else
    let temp := (input.take 31).map toUpper
    match dotIndex 0 none temp with
    | .error e => .error e
    | .ok none => packName temp []
    | .ok (some d) => packName (temp.take d) (temp.drop (d + 1))

theorem dotIndex_error : ∀ {l : List UInt8} {i : Nat} {dotAt : Option Nat} {e : Code},
    dotIndex i dotAt l = .error e → e = .errInvalidName
  | [], _, _, _, h => by cases h
  | c :: l, i, dotAt, e, h => by
    rw [dotIndex] at h
    split at h
    · split at h
      · cases h; rfl
      · exact dotIndex_error h
    · split at h
      · cases h; rfl
      · exact dotIndex_error h

theorem packName_error {base ext : List UInt8} {e : Code} (h : packName base ext = .error e) :
    e = .errInvalidName := by
  unfold packName at h
  split_ifs at h <;> cases h <;> rfl

/-- The one error of the encoder. -/
theorem makeShortName_error {input : List UInt8} {e : Code} (h : makeShortName input = .error e) :
    e = .errInvalidName := by
  unfold makeShortName at h
  split at h
  · cases h; rfl
  · dsimp only at h
    split at h
    · rename_i e' he
      cases h
      exact dotIndex_error he
    · exact packName_error h
    · exact packName_error h

/-- The encoder reads 31 bytes. -/
theorem makeShortName_take (input : List UInt8) : makeShortName (input.take 31) = makeShortName input := by
  unfold makeShortName
  rw [List.take_take, Nat.min_self]
  cases input <;> rfl

/-- `fat12_dir_name_to_string`: the bytes written before the terminator. -/
def dirNameToString (raw : ShortName) : List UInt8 :=
  let base := (raw.1.take 8).filter (· != space)
  let ext := (raw.1.drop 8).filter (· != space)
  let stem := if ext ≠ [] ∧ base.length < maxDisplayName - 1 then base ++ [dot] else base
  let out := ext.foldl (fun out c => if out.length < maxDisplayName - 1 then out ++ [c] else out) stem
  if out = [] then [0x3F] else out

/-! ## Directory entries -/

/-- `fat12_raw_dir_entry_t` -/
@[ext] structure RawDirEntry where
  name : ShortName
  attr : UInt8
  ntReserved : UInt8
  creationTimeTenths : UInt8
  creationTime : UInt16
  creationDate : UInt16
  lastAccessDate : UInt16
  firstClusterHigh : UInt16
  writeTime : UInt16
  writeDate : UInt16
  firstClusterLow : UInt16
  fileSize : UInt32
  deriving DecidableEq

/-- The entry at `b + off`, as the packed struct overlays it. -/
def decodeEntry (b : Buf) (off : Nat) : RawDirEntry where
  name := ⟨(List.range 11).map fun i => b (off + i), by simp⟩
  attr := b (off + 11)
  ntReserved := b (off + 12)
  creationTimeTenths := b (off + 13)
  creationTime := .ofNat (b.le (off + 14) 2)
  creationDate := .ofNat (b.le (off + 16) 2)
  lastAccessDate := .ofNat (b.le (off + 18) 2)
  firstClusterHigh := .ofNat (b.le (off + 20) 2)
  writeTime := .ofNat (b.le (off + 22) 2)
  writeDate := .ofNat (b.le (off + 24) 2)
  firstClusterLow := .ofNat (b.le (off + 26) 2)
  fileSize := .ofNat (b.le (off + 28) 4)

/-- The 32 bytes of an entry. -/
def RawDirEntry.bytes (e : RawDirEntry) : Buf := fun i =>
  if i < 11 then e.name.at i
  else if i = 11 then e.attr
  else if i = 12 then e.ntReserved
  else if i = 13 then e.creationTimeTenths
  else if i < 16 then leByte e.creationTime.toNat (i - 14)
  else if i < 18 then leByte e.creationDate.toNat (i - 16)
  else if i < 20 then leByte e.lastAccessDate.toNat (i - 18)
  else if i < 22 then leByte e.firstClusterHigh.toNat (i - 20)
  else if i < 24 then leByte e.writeTime.toNat (i - 22)
  else if i < 26 then leByte e.writeDate.toNat (i - 24)
  else if i < 28 then leByte e.firstClusterLow.toNat (i - 26)
  else leByte e.fileSize.toNat (i - 28)

/-- An entry is read from its own 32 bytes only. -/
theorem decodeEntry_congr {a b : Buf} {i j : Nat} (h : ∀ k < 32, a (i + k) = b (j + k)) :
    decodeEntry a i = decodeEntry b j := by
  have hle : ∀ k n, k + n ≤ 32 → a.le (i + k) n = b.le (j + k) n := fun k n hk =>
    Buf.le_congr n _ _ fun m hm => by rw [Nat.add_assoc, Nat.add_assoc]; exact h _ (by omega)
  unfold decodeEntry
  congr 1 <;> try first | exact h _ (by omega) | rw [hle _ _ (by omega)]
  exact Subtype.ext (List.map_congr_left fun k hk => h k (by have := List.mem_range.1 hk; omega))

theorem le_two {b : Buf} {off : Nat} (v : UInt16) (h0 : b off = leByte v.toNat 0)
    (h1 : b (off + 1) = leByte v.toNat 1) : UInt16.ofNat (b.le off 2) = v := by
  have h : ∀ i < 2, b (off + i) = leByte v.toNat (0 + i) := fun i hi => by
    rcases (by omega : i = 0 ∨ i = 1) with rfl | rfl
    · exact h0
    · exact h1
  rw [le_of_leByte v.toNat 2 0 off h]
  simp

theorem le_four {b : Buf} {off : Nat} (v : UInt32) (h0 : b off = leByte v.toNat 0)
    (h1 : b (off + 1) = leByte v.toNat 1) (h2 : b (off + 2) = leByte v.toNat 2)
    (h3 : b (off + 3) = leByte v.toNat 3) : UInt32.ofNat (b.le off 4) = v := by
  have h : ∀ i < 4, b (off + i) = leByte v.toNat (0 + i) := fun i hi => by
    rcases (by omega : i = 0 ∨ i = 1 ∨ i = 2 ∨ i = 3) with rfl | rfl | rfl | rfl
    · exact h0
    · exact h1
    · exact h2
    · exact h3
  rw [le_of_leByte v.toNat 4 0 off h]
  simp

/-- Storing an entry and reading it back. -/
theorem decodeEntry_bytes {b : Buf} {off : Nat} {e : RawDirEntry} (h : ∀ k < 32, b (off + k) = e.bytes k) :
    decodeEntry b off = e := by
  have hn : (List.range 11).map (fun i => b (off + i)) = e.name.1 := by
    apply List.ext_getElem (by simp [e.name.2])
    intro i h1 h2
    have hi : i < 11 := by simpa using h1
    simp only [List.getElem_map, List.getElem_range]
    rw [h i (by omega), RawDirEntry.bytes, if_pos hi, ShortName.at, List.getD_eq_getElem?_getD,
      List.getElem?_eq_getElem h2, Option.getD_some]
  ext1
  · exact Subtype.ext hn
  · exact h 11 (by decide)
  · exact h 12 (by decide)
  · exact h 13 (by decide)
  · exact le_two _ (h 14 (by decide)) (h 15 (by decide))
  · exact le_two _ (h 16 (by decide)) (h 17 (by decide))
  · exact le_two _ (h 18 (by decide)) (h 19 (by decide))
  · exact le_two _ (h 20 (by decide)) (h 21 (by decide))
  · exact le_two _ (h 22 (by decide)) (h 23 (by decide))
  · exact le_two _ (h 24 (by decide)) (h 25 (by decide))
  · exact le_two _ (h 26 (by decide)) (h 27 (by decide))
  · exact le_four _ (h 28 (by decide)) (h 29 (by decide)) (h 30 (by decide)) (h 31 (by decide))

/-- `entry->attr & FAT12_ATTR_DIRECTORY` -/
def RawDirEntry.isDirectory (e : RawDirEntry) : Bool := e.attr &&& attrDirectory != 0

/-- `entry->first_cluster_low` as a number. -/
def RawDirEntry.cluster (e : RawDirEntry) : Nat := e.firstClusterLow.toNat

/-- `entry->file_size` as a number. -/
def RawDirEntry.size (e : RawDirEntry) : Nat := e.fileSize.toNat

/-- `fat12_is_free_entry` -/
def isFreeEntry (e : RawDirEntry) : Bool := e.name.first == nameEnd || e.name.first == nameDeleted

/-- `fat12_is_dot_entry` -/
def isDotEntry (e : RawDirEntry) : Bool :=
  if !e.isDirectory then false
  else if e.name.first != dot then false
  else if e.name.at 1 == space && e.name.at 2 == space then true
  else if e.name.at 1 == dot && e.name.at 2 == space then true
  else false

/-- `fat12_fill_dir_entry` -/
def fillDirEntry (shortName : ShortName) (attr : UInt8) (firstCluster size : Nat) : RawDirEntry where
  name := shortName
  attr := attr
  ntReserved := 0
  creationTimeTenths := 0
  creationTime := 0
  creationDate := 0
  lastAccessDate := 0
  firstClusterHigh := 0
  writeTime := 0
  writeDate := 0
  firstClusterLow := .ofNat firstCluster
  fileSize := .ofNat size

/-- `fat12_dir_entry_info_t` -/
@[ext] structure DirEntryInfo where
  name : List UInt8
  attr : UInt8
  size : UInt32
  firstCluster : UInt16
  deriving DecidableEq

/-- `fat12_copy_entry_info` -/
def copyEntryInfo (e : RawDirEntry) : DirEntryInfo where
  name := dirNameToString e.name
  attr := e.attr
  size := e.fileSize
  firstCluster := e.firstClusterLow

/-- The name of the slot `.`, as `fat12_create_directory` builds it. -/
def dotName : ShortName := ⟨dot :: List.replicate 10 space, rfl⟩

/-- The name of the slot `..`. -/
def dotDotName : ShortName := ⟨dot :: dot :: List.replicate 9 space, rfl⟩

end AltoniumOS.Fat12

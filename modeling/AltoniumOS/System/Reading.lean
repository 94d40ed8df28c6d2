/-
What `fat12_read_file` leaves in the caller's buffer, on any volume it can be mounted on: which bytes come from the
chain of the file, and which were there before.
-/
import AltoniumOS.System.Blank

namespace AltoniumOS.Fat12

open AltoniumOS.Lib

/-! ## The bytes of a chain -/

namespace Core

variable (c : Core)

/-- Cluster `k` of the chain that starts at `first`, as far as the links lead. -/
def clusterAt (first : Nat) : Nat → Option Nat
  | 0 => if inChain first then some first else none
  | k + 1 => if inChain first then clusterAt (getFatEntry c first) k else none

/-- Byte `i` of the chain. -/
def fileByte (first i : Nat) : Option UInt8 :=
  (c.clusterAt first (i / c.fs.clusterSizeBytes)).map fun k => c.clusterBytes k (i % c.fs.clusterSizeBytes)

/-- The chain has a cluster for each of the first `size` bytes. -/
def Covers (first size : Nat) : Prop := ∀ k, k * c.fs.clusterSizeBytes < size → (c.clusterAt first k).isSome

/-- `buffer` with the bytes of the chain, as far as there are any, at the places from `cursor` to `size`. -/
def fileInto (first size cursor : Nat) (buffer : Buf) : Buf :=
  fun i => if cursor ≤ i ∧ i < size then (c.fileByte first (i - cursor)).getD (buffer i) else buffer i

variable {c}

theorem clusterAt_dead {first : Nat} (h : ¬ inChain first = true) (k : Nat) : c.clusterAt first k = none := by
  cases k <;> exact if_neg h

theorem fileByte_dead {first : Nat} (h : ¬ inChain first = true) (i : Nat) : c.fileByte first i = none := by
  unfold fileByte
  rw [clusterAt_dead h]
  rfl

theorem fileByte_head {first i : Nat} (h : inChain first = true) (hi : i < c.fs.clusterSizeBytes) :
    c.fileByte first i = some (c.clusterBytes first i) := by
  unfold fileByte
  rw [Nat.div_eq_of_lt hi, Nat.mod_eq_of_lt hi, clusterAt, if_pos h]
  rfl

theorem fileByte_tail {first i : Nat} (hcs : 0 < c.fs.clusterSizeBytes) (h : inChain first = true)
    (hi : c.fs.clusterSizeBytes ≤ i) :
    c.fileByte first i = c.fileByte (getFatEntry c first) (i - c.fs.clusterSizeBytes) := by
  obtain ⟨j, rfl⟩ : ∃ j, i = j + c.fs.clusterSizeBytes := ⟨i - c.fs.clusterSizeBytes, by omega⟩
  unfold fileByte
  rw [Nat.add_sub_cancel, Nat.add_div_right _ hcs, Nat.add_mod_right, clusterAt, if_pos h]

theorem covers_iff (hcs : 0 < c.fs.clusterSizeBytes) {first size : Nat} :
    c.Covers first size ↔ ∀ i < size, (c.fileByte first i).isSome := by
  unfold fileByte
  simp only [Option.isSome_map]
  constructor
  · exact fun h i hi => h _ (Nat.lt_of_le_of_lt (Nat.div_mul_le_self ..) hi)
  · intro h k hk
    simpa [Nat.mul_div_cancel _ hcs] using h _ hk

/-! ## One round -/

theorem fileInto_done {first size cursor : Nat} {buffer : Buf} (h : ¬ (cursor < size ∧ inChain first = true)) :
    c.fileInto first size cursor buffer = buffer := by
  funext i
  unfold fileInto
  split
  · rename_i hi
    rw [fileByte_dead fun hin => h ⟨by omega, hin⟩]
    rfl
  · rfl

/-- A cluster copied, what is left is the rest of the chain. -/
theorem fileInto_step (hcs : 0 < c.fs.clusterSizeBytes) {first size cursor : Nat} {buffer data : Buf}
    (hlt : cursor < size) (hin : inChain first = true)
    (hdata : ∀ i < c.fs.clusterSizeBytes, data i = c.clusterBytes first i) :
    c.fileInto (getFatEntry c first) size (cursor + min c.fs.clusterSizeBytes (size - cursor))
        (buffer.blit cursor data (min c.fs.clusterSizeBytes (size - cursor))) =
      c.fileInto first size cursor buffer := by
  funext i
  unfold fileInto
  by_cases hi : cursor ≤ i ∧ i < size
  · rw [if_pos hi]
    by_cases hhead : i < cursor + c.fs.clusterSizeBytes
    · -- a byte of this cluster
      rw [if_neg (by omega), fileByte_head hin (by omega), Option.getD_some, ← hdata _ (by omega)]
      exact if_pos (by omega)
    · rw [if_pos (by omega), fileByte_tail hcs hin (by omega),
        show i - cursor - c.fs.clusterSizeBytes = i - (cursor + min c.fs.clusterSizeBytes (size - cursor)) by omega]
      exact congrArg _ (if_neg (by omega))
  · rw [if_neg hi, if_neg (by omega)]
    exact if_neg (by omega)

end Core

/-! ## The call -/

/-- A copy loop that succeeds has filled the buffer with the chain, wherever that ends. -/
theorem learns_readLoop {c : Core} {w : List (Nat × List Buf)} (h : c.fs.Accepted) (size : Nat) :
    ∀ (fuel first cursor : Nat) (buffer : Buf),
      Learns c w (fun r => r.1 = .ok → r.2 = (c.fileInto first size cursor buffer, some size))
        (loop (readRound size) fuel (first, cursor, buffer))
  | 0, _, _, _ => .throw _
  | fuel + 1, first, cursor, buffer => by
    rw [loop, readRound]
    split
    · rename_i hround
      rw [bind_assoc]
      refine (learns_readCluster first).bind fun r hr => ?_
      obtain ⟨ok, data⟩ := r
      dsimp only
      split
      · rename_i hok
        rw [bind_assoc]
        refine learns_getCore.bind fun c' hc => ?_
        subst hc
        have hdata : ∀ i < c'.fs.clusterSizeBytes, data i = c'.clusterBytes first i := fun i hi =>
          hr hok i (by rwa [h.clusterSize, Nat.mul_comm] at hi)
        rw [pure_bind]
        dsimp only
        rw [← Core.fileInto_step h.clusterSize_pos hround.1 hround.2 hdata]
        exact learns_readLoop h size fuel _ _ _
      · exact .pure fun he => by cases he
    · rename_i hround
      rw [pure_bind]
      refine .pure fun _ => ?_
      rw [Core.fileInto_done hround]

/-- The entry a path leads to, as `fat12_read_file` looks it up. -/
def Opens (fuel : Nat) (path : List UInt8) (s : State) (e : RawDirEntry) : Prop :=
  ∃ d n s₁ loc s₂, resolveParentAndName fuel path s = .ok (.ok (d, n)) s₁ ∧
    findEntry fuel d n s₁ = .ok (.ok (e, loc)) s₂

/-- A read of an entry that succeeds has filled the buffer with its chain, and reports its size. -/
theorem readFile_filled {fuel maxSize : Nat} {path : List UInt8} {s s' : State} {b : Buf} {b' : Option Buf}
    {n : Option Nat} {e : RawDirEntry} (h : s.fs.Accepted) (ho : Opens fuel path s e)
    (hr : readFile fuel path (some b) maxSize s = .ok (.ok, b', n) s') :
    e.size ≤ maxSize ∧ n = some e.size ∧ b' = some (s.toCore.fileInto e.cluster e.size 0 b) := by
  obtain ⟨d, name, s₁, loc, s₂, h1, h2⟩ := ho
  have hcore : s₂.toCore = s.toCore :=
    ((reads_findEntry fuel d name).core h2).trans ((reads_resolveParentAndName fuel path).core h1)
  unfold readFile at hr
  obtain ⟨c, s₀, hc, hr⟩ := bind_eq_ok hr
  cases hc
  split at hr
  · cases hr
  obtain ⟨r, s₁', h1', hr⟩ := bind_eq_ok hr
  cases h1'.symm.trans h1
  obtain ⟨r, s₂', h2', hr⟩ := bind_eq_ok hr
  cases h2'.symm.trans h2
  dsimp only at hr
  split at hr
  · cases hr
  split at hr
  · cases hr
  rename_i hsize
  obtain ⟨⟨code, buffer, outSize⟩, s₃, h3, hr⟩ := bind_eq_ok hr
  cases hr
  have hacc : s₂.toCore.fs.Accepted := by
    rw [hcore]
    exact h
  have hloop := ((learns_readLoop hacc e.size fuel e.cluster 0 b).ok ⟨rfl, rfl⟩ h3).2 rfl
  obtain ⟨rfl, hn⟩ := Prod.mk.inj hloop
  exact ⟨by omega, hn, by rw [hcore]⟩

theorem opens_of_readFile {fuel maxSize n : Nat} {path : List UInt8} {s s' : State} {b b' : Buf}
    (hr : readFile fuel path (some b) maxSize s = .ok (.ok, some b', some n) s') : ∃ e, Opens fuel path s e := by
  unfold readFile at hr
  obtain ⟨c, s₁, hc, hr⟩ := bind_eq_ok hr
  cases hc
  split at hr
  · cases hr
  obtain ⟨r, s₁, h1, hr⟩ := bind_eq_ok hr
  split at hr
  · cases hr
  rename_i d name
  obtain ⟨r, s₂, h2, hr⟩ := bind_eq_ok hr
  split at hr
  · cases hr
  rename_i e loc
  exact ⟨e, d, name, s₁, loc, s₂, h1, h2⟩

theorem readFile_ok {fuel maxSize n : Nat} {path : List UInt8} {s s' : State} {b b' : Buf} (h : s.fs.Accepted)
    (hr : readFile fuel path (some b) maxSize s = .ok (.ok, some b', some n) s') :
    ∃ e, Opens fuel path s e ∧ n = e.size ∧ b' = s.toCore.fileInto e.cluster e.size 0 b := by
  obtain ⟨e, ho⟩ := opens_of_readFile hr
  obtain ⟨-, hn, hb⟩ := readFile_filled h ho hr
  exact ⟨e, ho, Option.some.inj hn, Option.some.inj hb⟩

/-- A read that succeeds delivers the bytes of the chain if and only if the chain has a cluster for each of them. -/
theorem read_real_iff {fuel maxSize n : Nat} {path : List UInt8} {s s' : State} {b b' : Buf} (h : s.fs.Accepted)
    (hr : readFile fuel path (some b) maxSize s = .ok (.ok, some b', some n) s') :
    ∃ e, Opens fuel path s e ∧ n = e.size ∧
      ((∀ i < n, s.toCore.fileByte e.cluster i = some (b' i)) ↔ s.toCore.Covers e.cluster n) := by
  obtain ⟨e, ho, rfl, rfl⟩ := readFile_ok h hr
  refine ⟨e, ho, rfl, ?_⟩
  rw [Core.covers_iff h.clusterSize_pos]
  constructor
  · intro hreal i hi
    rw [hreal i hi]
    rfl
  · intro hsome i hi
    obtain ⟨x, hx⟩ := Option.isSome_iff_exists.1 (hsome i hi)
    unfold Core.fileInto
    rw [if_pos ⟨Nat.zero_le _, hi⟩, Nat.sub_zero, hx, Option.getD_some]

/-- The size a successful read reports. -/
def sizeRead : EStateM.Result OutOfFuel State (Code × Option Buf × Option Nat) → Option Nat
  | .ok (.ok, some _, some n) _ => some n
  | _ => none

theorem eq_ok_of_sizeRead {r : EStateM.Result OutOfFuel State (Code × Option Buf × Option Nat)} {n : Nat}
    (h : sizeRead r = some n) : ∃ b s, r = .ok (.ok, some b, some n) s := by
  unfold sizeRead at h
  split at h
  · rename_i b n' s
    cases h
    exact ⟨b, s, rfl⟩
  · cases h

/-- The first cluster of the entry a path leads to. -/
def clusterOpened (fuel : Nat) (path : List UInt8) (s : State) : Option Nat :=
  match resolveParentAndName fuel path s with
  | .ok (.ok (d, n)) s₁ =>
    match findEntry fuel d n s₁ with
    | .ok (.ok (e, _)) _ => some e.cluster
    | _ => none
  | _ => none

theorem Opens.cluster {fuel : Nat} {path : List UInt8} {s : State} {e : RawDirEntry} (h : Opens fuel path s e) :
    clusterOpened fuel path s = some e.cluster := by
  obtain ⟨d, n, s₁, loc, s₂, h1, h2⟩ := h
  unfold clusterOpened
  rw [h1]
  dsimp only
  rw [h2]

/-- The mounted blank disk, with a file `A` of five bytes and no cluster in its root directory. -/
def hollowState : State :=
  { blankMounted with
    rootDir := Buf.blit (fun _ => 0) 0 (fillDirEntry (padName [65] [] (by decide) (by decide)) 0 0 5).bytes 32 }

theorem read_runs :
    sizeRead (readFile 4096 [65] (some fun _ => 0) 4096 blankWritten) = some 600 ∧
      blankWritten.fs = Fs.ofBoot blankBoot 0 ∧
      sizeRead (readFile 4096 [65] (some fun _ => 0) 4096 hollowState) = some 5 ∧
      clusterOpened 4096 [65] hollowState = some 0 := by
  decide +kernel

theorem read_real_iff_written :
    ∃ b' s', readFile 4096 [65] (some fun _ => 0) 4096 blankWritten = .ok (.ok, some b', some 600) s' ∧
      ∃ e, Opens 4096 [65] blankWritten e ∧ 600 = e.size ∧
        ((∀ i < 600, blankWritten.toCore.fileByte e.cluster i = some (b' i)) ↔
          blankWritten.toCore.Covers e.cluster 600) := by
  obtain ⟨b', s', hr⟩ := eq_ok_of_sizeRead read_runs.1
  have hacc : blankWritten.fs.Accepted := by
    rw [read_runs.2.1]
    exact blank_mountable.accepted
  exact ⟨b', s', hr, read_real_iff hacc hr⟩

/-- It is read with success, and the buffer holds what it held before. -/
theorem read_not_real : ¬ ∀ (fuel maxSize n : Nat) (path : List UInt8) (s s' : State) (b b' : Buf), s.fs.Accepted →
    readFile fuel path (some b) maxSize s = .ok (.ok, some b', some n) s' →
    ∃ e, Opens fuel path s e ∧ n = e.size ∧ ∀ i < n, s.toCore.fileByte e.cluster i = some (b' i) := by
  intro h
  obtain ⟨b', s', hr⟩ := eq_ok_of_sizeRead read_runs.2.2.1
  obtain ⟨e, ho, -, hreal⟩ := h _ _ _ _ _ _ _ _ blank_mountable.accepted hr
  have hcluster : e.cluster = 0 := by
    have := ho.cluster.symm.trans read_runs.2.2.2
    simpa using this
  have hbyte := hreal 0 (by decide)
  rw [hcluster, Core.fileByte_dead (by decide)] at hbyte
  cases hbyte

end AltoniumOS.Fat12

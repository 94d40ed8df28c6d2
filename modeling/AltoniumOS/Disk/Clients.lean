/-
Programs that use the disk by the calls of `disk.c`, over two disks: the drive behind its ports, and the sectors
the file system reckons with, where every call comes out in some way. A program over the drive ends as it could
over the sectors; on a drive that keeps up, as it does over sectors that never fail.
-/
import AltoniumOS.Disk.Punctual
import AltoniumOS.Lib.Client

namespace AltoniumOS.Disk

open AltoniumOS.Lib AltoniumOS.Fat12

/-- A call of `disk_read_sectors(lba, buffer + off, n)` or of `disk_write_sectors(lba, buffer, n)`. -/
inductive DiskCall where
  | read (lba n : Nat) (buffer : Buf) (off : Nat)
  | write (lba n : Nat) (buffer : Buf)

/-- Whether the call succeeded, and for a read the buffer afterwards. -/
def DiskCall.Answer : DiskCall → Type
  | read .. => Bool × Buf
  | write .. => Bool

/-- A call for sectors that the address registers can name. -/
def DiskCall.Addressed : DiskCall → Prop
  | read lba n _ _ => 1 ≤ n ∧ lba + n ≤ 268435456
  | write lba n _ => 1 ≤ n ∧ lba + n ≤ 268435456

/-! ## Over the drive -/

def onDrive : (q : DiskCall) → Io q.Answer
  | .read lba n buffer off => do
    let (code, b) ← diskReadSectors lba (fun i => buffer (off + i)) n
    pure (decide (code = 0), fun i => if i < off then buffer i else b (i - off))
  | .write lba n buffer => do
    let code ← diskWriteSectors lba buffer n
    pure (decide (code = 0))

def DriveStep (d : Drive) (q : DiskCall) (r : q.Answer) (d' : Drive) : Prop := onDrive q d = some (r, d')

section

variable {d d' : Drive} {lba : Nat} {b : Buf}

end

/-! ## Over the sectors -/

/-- The sectors, and the write calls made so far. -/
structure Store where
  sectors : Nat → Buf
  writes : List (Nat × List Buf)

/-- A call that comes out as `fault` says. -/
def Store.serve (t : Store) (fault : Option Nat) : (q : DiskCall) → q.Answer × Store
  | .read lba n buffer off =>
    ((fault.isNone, buffer.blit off (sectorBytes t.sectors lba) (sectorSize * transferred fault n)), t)
  | .write lba n buffer =>
    (fault.isNone, ⟨putSectors t.sectors lba buffer (transferred fault n), t.writes ++ [(lba, sectorsOf buffer n)]⟩)

/-- A call that comes out in one of the ways of `A`. -/
def StoreStep (A : Option Nat → Prop) (t : Store) (q : DiskCall) (r : q.Answer) (t' : Store) : Prop :=
  ∃ fault, A fault ∧ t.serve fault q = (r, t')

/-! ## From the one to the other -/

section

variable {d d' : Drive} {t : Store}

/-- The part of a buffer behind `off` changed as if it were one of its own. -/
theorem shifted_blit (buffer src : Buf) (off n : Nat) :
    (fun i => if i < off then buffer i else Buf.blit (fun i => buffer (off + i)) 0 src n (i - off)) =
      buffer.blit off src n := by
  funext i
  unfold Buf.blit
  by_cases hi : i < off
  · rw [if_pos hi, if_neg (by omega)]
  · have hback : off + (i - off) = i := by omega
    dsimp only
    rw [if_neg hi, Nat.sub_zero, hback]
    exact if_congr (by omega) rfl rfl

/-- The drive answers the call, the sectors could have answered so, and hold what the drive holds then. A drive
that keeps up does not fail, and keeps up then. -/
def Serves (d : Drive) (t : Store) (q : DiskCall) : Prop :=
  ∃ r d' fault t', onDrive q d = some (r, d') ∧ t.serve fault q = (r, t') ∧ t'.sectors = d'.sectors ∧ d'.Careful ∧
    (d.Punctual → fault = none ∧ d'.Punctual)

theorem serves_read (hd : d.Careful) (ht : t.sectors = d.sectors) {lba n : Nat} (hn : 1 ≤ n)
    (hlba : lba + n ≤ 268435456) (buffer : Buf) (off : Nat) : Serves d t (.read lba n buffer off) := by
  obtain ⟨⟨code, b⟩, d', hrun, hread⟩ := diskReadSectors_meets (fun i => buffer (off + i)) hn hlba d
  have hstill := hread.1.still
  -- how many sectors arrived, all of them if the call reported success
  have key : ∃ fault : Option Nat, fault.isNone = decide (code = 0) ∧
      b = Buf.blit (fun i => buffer (off + i)) 0 (sectorBytes d.sectors lba)
      (sectorSize * transferred fault n) := by
    by_cases hcode : code = 0
    · obtain ⟨m, hnm, hmn, hb⟩ := (hread.2 hcode).filled
      obtain rfl : n = m := by omega
      exact ⟨none, by rw [hcode]; rfl, hb⟩
    · obtain ⟨m, -, hmn, hb⟩ := hread.1.filled
      refine ⟨some m, by rw [decide_eq_false hcode]; rfl, ?_⟩
      show _ = Buf.blit _ 0 _ (sectorSize * min m n)
      rw [Nat.min_eq_left hmn]
      exact hb
  obtain ⟨fault, hnone, rfl⟩ := key
  refine ⟨_, d', fault, t, bind_run_some hrun, ?_, ht.trans hstill.sectors.symm, hstill.careful hd,
    fun hp => ⟨?_, hstill.punctual hp⟩⟩
  · unfold Store.serve
    dsimp only
    rw [shifted_blit, ht, hnone]
  · obtain ⟨r', d'', hrun', hr', -⟩ := diskReadSectors_punctual hp hn hlba fun i => buffer (off + i)
    rw [hrun] at hrun'
    cases hrun'
    rw [decide_eq_true hr'] at hnone
    exact Option.isNone_iff_eq_none.1 hnone

/-- A write that fails must not spoil a sector for this. -/
theorem serves_write (hd : d.Careful) (ht : t.sectors = d.sectors) {lba n : Nat} (hn : 1 ≤ n)
    (hlba : lba + n ≤ 268435456) (buffer : Buf) : Serves d t (.write lba n buffer) := by
  obtain ⟨code, d', hrun, hwrite⟩ := diskWriteSectors_meets buffer hn hlba d
  have key : ∃ fault : Option Nat, fault.isNone = decide (code = 0) ∧
      d'.sectors = putSectors d.sectors lba buffer (transferred fault n) := by
    by_cases hcode : code = 0
    · obtain ⟨-, m, hnm, hmn, hm⟩ := (hwrite.2 hcode).careful hd
      obtain rfl : n = m := by omega
      exact ⟨none, by rw [hcode]; rfl, hm⟩
    · obtain ⟨-, m, -, hmn, hm⟩ := hwrite.1.careful hd
      refine ⟨some m, by rw [decide_eq_false hcode]; rfl, ?_⟩
      show _ = putSectors _ lba buffer (min m n)
      rw [Nat.min_eq_left hmn]
      exact hm
  obtain ⟨fault, hnone, hsectors⟩ := key
  refine ⟨_, d', fault,
    ⟨putSectors t.sectors lba buffer (transferred fault n), t.writes ++ [(lba, sectorsOf buffer n)]⟩,
    bind_run_some hrun, ?_, ?_, (hwrite.1.careful hd).1, fun hp => ?_⟩
  · rw [← hnone]
    rfl
  · rw [hsectors, ht]
  · obtain ⟨code', d'', hrun', rfl, hp'⟩ := diskWriteSectors_punctual hp hn hlba buffer
    rw [hrun] at hrun'
    cases hrun'
    exact ⟨Option.isNone_iff_eq_none.1 hnone, hp'⟩

theorem serves (hd : d.Careful) (ht : t.sectors = d.sectors) {q : DiskCall} (hq : q.Addressed) : Serves d t q := by
  cases q with
  | read lba n buffer off => exact serves_read hd ht hq.1 hq.2 buffer off
  | write lba n buffer => exact serves_write hd ht hq.1 hq.2 buffer

end

/-! ## Programs -/

/-- The sectors are those of the drive; if `K`, it keeps up. -/
structure Mirrors (K : Prop) (d : Drive) (t : Store) : Prop where
  sectors : t.sectors = d.sectors
  careful : d.Careful
  punctual : K → d.Punctual

section

variable {K : Prop} {d d' : Drive} {t : Store} {α : Type} {Q : α → Prop} {p : Client DiskCall DiskCall.Answer α}
  {a : α}

/-- What the drive does, the sectors can do. -/
theorem Mirrors.step (q : DiskCall) (r : q.Answer) (hq : q.Addressed) (h : Mirrors K d t)
    (hs : DriveStep d q r d') : ∃ t', StoreStep (fun fault => K → fault = none) t q r t' ∧ Mirrors K d' t' := by
  obtain ⟨r', d'', fault, t', hrun, hserve, hsectors, hcareful, hpunctual⟩ := serves h.careful h.sectors hq
  rw [show onDrive q d = some (r, d') from hs] at hrun
  cases hrun
  exact ⟨t', ⟨fault, fun hK => (hpunctual (h.punctual hK)).1, hserve⟩, hsectors, hcareful,
    fun hK => (hpunctual (h.punctual hK)).2⟩

/-- A program over the drive ends, and in no way it could not end over the sectors. -/
theorem Mirrors.runs (h : Mirrors K d t) (hp : p.Within DiskCall.Addressed Q) (hr : p.Runs DriveStep d a d') :
    ∃ t', p.Runs (StoreStep fun fault => K → fault = none) t a t' ∧ Mirrors K d' t' ∧ Q a :=
  hp.simulate (fun _ q r _ _ hq hm hs => hm.step q r hq hs) hr h

theorem Mirrors.exists (h : Mirrors K d t) (hp : p.Within DiskCall.Addressed Q) :
    ∃ a d', p.Runs DriveStep d a d' := by
  have hanswers : ∀ (d : Drive) (q : DiskCall), q.Addressed → d.Careful → ∃ r d', DriveStep d q r d' ∧ d'.Careful :=
    fun d q hq hd => by
    obtain ⟨r, d', -, -, hrun, -, -, hcareful, -⟩ := serves (t := ⟨d.sectors, []⟩) hd rfl hq
    exact ⟨r, d', hrun, hcareful⟩
  obtain ⟨a, d', hr, -⟩ := hp.exists hanswers h.careful
  exact ⟨a, d', hr⟩

end

end AltoniumOS.Disk

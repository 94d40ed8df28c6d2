/-
Which sectors the commands of `disk.c` name. The address registers hold 28 bits of a sector number, so a
transfer names the sectors it was asked for as long as they are below 2^28, and others where they are not.
-/
import AltoniumOS.Disk.Transfers

namespace AltoniumOS.Disk

open AltoniumOS.Lib AltoniumOS.Fat12

variable {α β : Type} {d d' : Drive} {lba n i : Nat} {buffer : Buf}

/-! ## What gives no command -/

/-- `m` writes no command byte. -/
def Silent (m : Io α) : Prop := ∀ d, Ends m d fun _ d' => d'.commands = d.commands

theorem Silent.pure (a : α) : Silent (pure a) := fun _ => .pure rfl

theorem Silent.bind {m : Io α} {f : α → Io β} (hm : Silent m) (hf : ∀ a, Silent (f a)) : Silent (m >>= f) :=
  fun d => (hm d).bind fun a d₁ h₁ => (hf a d₁).mono fun _ _ h₂ => h₂.trans h₁

theorem Silent.ite {p : Prop} [Decidable p] {m m' : Io α} (hm : Silent m) (hm' : Silent m') :
    Silent (if p then m else m') := by
  split
  · exact hm
  · exact hm'

theorem silent_inbStatus : Silent inbStatus := fun _ => .of_run rfl rfl

theorem silent_inw : Silent inw := fun d a d' h => by
  unfold inw at h
  split at h
  · split at h
    · cases h
    · cases h
      rfl
  · cases h

theorem silent_outw (v : UInt16) : Silent (outw v) := fun d a d' h => by
  unfold outw at h
  split at h
  · split at h
    · cases h
    · split at h
      · cases h
        rfl
      · cases h
        unfold Drive.received
        split <;> rfl
  · cases h

theorem silent_bsyLoop : ∀ timeout, Silent (bsyLoop timeout)
  | 0 => .pure _
  | timeout + 1 => silent_inbStatus.bind fun _ => (Silent.pure _).ite (silent_bsyLoop timeout)

theorem silent_waitForBsy : Silent waitForBsy := silent_bsyLoop 10000

theorem silent_drqLoop : ∀ timeout, Silent (drqLoop timeout)
  | 0 => .pure _
  | timeout + 1 => silent_inbStatus.bind fun _ => (Silent.pure _).ite ((Silent.pure _).ite (silent_drqLoop timeout))

theorem silent_waitForDrq : Silent waitForDrq := silent_drqLoop 10000

theorem silent_readWords (off : Nat) : ∀ (n : Nat) (b : Buf), Silent (readWords off n b)
  | 0, b => .pure b
  | n + 1, _ => silent_inw.bind fun _ => silent_readWords off n _

theorem silent_writeWords (b : Buf) (off : Nat) : ∀ n : Nat, Silent (writeWords b off n)
  | 0 => .pure ()
  | n + 1 => (silent_outw _).bind fun _ => silent_writeWords b off n

theorem silent_writeResult : Silent writeResult :=
  silent_waitForBsy.bind fun _ => (Silent.pure _).ite (silent_inbStatus.bind fun _ => (Silent.pure _).ite (.pure _))

theorem silent_multiRead : ∀ (left sector : Nat) (b : Buf), Silent (multiRead left sector b)
  | 0, _, b => .pure (0, b)
  | left + 1, sector, b => silent_waitForDrq.bind fun _ =>
    (Silent.pure _).ite ((silent_readWords _ 256 b).bind fun b' => silent_multiRead left (sector + 1) b')

theorem silent_multiWrite (b : Buf) : ∀ left sector : Nat, Silent (multiWrite b left sector)
  | 0, _ => silent_writeResult
  | left + 1, sector => silent_waitForDrq.bind fun _ =>
    (Silent.pure _).ite ((silent_writeWords b _ 256).bind fun _ => silent_multiWrite b left (sector + 1))

/-! ## What gives one command -/

/-- `m` writes the command byte `c` and no other, or none at all if what it returns is not `ok`. -/
def Issues (ok : α → Prop) (c : Issued) (m : Io α) : Prop :=
  ∀ d, Ends m d fun a d' => d'.commands = d.commands ∧ ¬ ok a ∨ d'.commands = d.commands ++ [c]

theorem Issues.bind {ok : α → Prop} {ok' : β → Prop} {c : Issued} {m : Io α} {f : α → Io β} (hm : Issues ok c m)
    (hf : ∀ a, Silent (f a)) (hok : ∀ a d, ¬ ok a → Ends (f a) d fun b _ => ¬ ok' b) : Issues ok' c (m >>= f) := by
  refine fun d => (hm d).bind fun a d₁ h₁ b d₂ hrun => ?_
  have hsilent := hf a d₁ b d₂ hrun
  rcases h₁ with ⟨hsame, hno⟩ | hone
  · exact .inl ⟨hsilent.trans hsame, hok a d₁ hno b d₂ hrun⟩
  · exact .inr (hsilent.trans hone)

/-- The sector named is the one given, as far as 28 bits go. -/
theorem sendCommand_issues {count : Nat} (h1 : 1 ≤ count) (h2 : count ≤ 256) (lba : Nat) (v : UInt8) :
    Issues (fun code => code = 0) ⟨v, lba % 268435456, count⟩ (sendCommand (UInt8.ofNat count) lba v) := by
  refine fun d => .step rfl ((silent_waitForBsy _).bind fun code d₁ h₁ => ?_)
  split
  · exact .pure (.inl ⟨h₁, by decide⟩)
  · refine .step rfl (.step rfl (.step rfl (.step rfl (.step rfl (.step rfl (.pure (.inr ?_)))))))
    have hissued := congrArg₂ (Issued.mk v) (registers_lba lba) (registers_count h1 h2)
    show d₁.commands ++ [_] = d.commands ++ [_]
    rw [show d₁.commands = d.commands from h₁]
    exact congrArg (fun c => d.commands ++ [c]) hissued

theorem diskReadSector_issues (lba off : Nat) (b : Buf) :
    Issues (fun r => r.1 = 0) ⟨ataCmdReadSectors, lba % 268435456, 1⟩ (diskReadSector lba b off) := by
  refine (sendCommand_issues (Nat.le_refl 1) (by decide) lba _).bind (fun code => ?_) fun code d hcode => ?_
  · exact (Silent.pure _).ite (silent_waitForDrq.bind fun _ =>
      (Silent.pure _).ite ((silent_readWords off 256 b).bind fun _ => .pure _))
  · rw [if_pos hcode]
    exact .pure hcode

theorem diskWriteSector_issues (lba off : Nat) (b : Buf) :
    Issues (fun code => code = 0) ⟨ataCmdWriteSectors, lba % 268435456, 1⟩ (diskWriteSector lba b off) := by
  refine (sendCommand_issues (Nat.le_refl 1) (by decide) lba _).bind (fun code => ?_) fun code d hcode => ?_
  · exact (Silent.pure _).ite (silent_waitForDrq.bind fun _ =>
      (Silent.pure _).ite ((silent_writeWords b off 256).bind fun _ => silent_writeResult))
  · rw [if_pos hcode]
    exact .pure hcode

theorem diskReadSectorsMultiPio_issues (h1 : 1 ≤ n) (h2 : n ≤ 256) (lba : Nat) (b : Buf) :
    Issues (fun r => r.1 = 0) ⟨ataCmdReadSectorsMulti, lba % 268435456, n⟩ (diskReadSectorsMultiPio lba b n) := by
  unfold diskReadSectorsMultiPio
  rw [if_neg (by omega)]
  refine (sendCommand_issues h1 h2 lba _).bind (fun code => ?_) fun code d hcode => ?_
  · exact (Silent.pure _).ite (silent_multiRead n 0 b)
  · rw [if_pos hcode]
    exact .pure hcode

theorem diskWriteSectorsMultiPio_issues (h1 : 1 ≤ n) (h2 : n ≤ 256) (lba : Nat) (b : Buf) :
    Issues (fun code => code = 0) ⟨ataCmdWriteSectorsMulti, lba % 268435456, n⟩
      (diskWriteSectorsMultiPio lba b n) := by
  unfold diskWriteSectorsMultiPio
  rw [if_neg (by omega)]
  refine (sendCommand_issues h1 h2 lba _).bind (fun code => ?_) fun code d hcode => ?_
  · exact (Silent.pure _).ite (silent_multiWrite b n 0)
  · rw [if_pos hcode]
    exact .pure hcode

/-! ## The sectors of a range -/

/-- The commands of a transfer of `n` sectors from `lba` on name sectors of the range only, and if it reports
success every one of the range. -/
def Exact (lba n : Nat) (d : Drive) (code : Int) (d' : Drive) : Prop := ∃ new, d'.commands = d.commands ++ new ∧
  (∀ c ∈ new, lba ≤ c.lba ∧ c.lba + c.count ≤ lba + n) ∧
  (code = 0 → ∀ i < n, ∃ c ∈ new, c.lba ≤ lba + i ∧ lba + i < c.lba + c.count)

/-- `disk_read_sector` names the sector exactly, on every drive. -/
def ReadExact (lba : Nat) : Prop := ∀ (d : Drive) (buffer : Buf) (off : Nat),
  Ends (diskReadSector lba buffer off) d fun r d' => Exact lba 1 d r.1 d'

def WriteExact (lba : Nat) : Prop := ∀ (d : Drive) (buffer : Buf) (off : Nat),
  Ends (diskWriteSector lba buffer off) d fun code d' => Exact lba 1 d code d'

/-- `disk_read_sectors` names the sectors of the range exactly, on every drive. -/
def ReadsExact (lba n : Nat) : Prop := ∀ (d : Drive) (buffer : Buf),
  Ends (diskReadSectors lba buffer n) d fun r d' => Exact lba n d r.1 d'

def WritesExact (lba n : Nat) : Prop := ∀ (d : Drive) (buffer : Buf),
  Ends (diskWriteSectors lba buffer n) d fun code d' => Exact lba n d code d'

theorem exact_of_issues {ok : α → Prop} {v : UInt8} {m : Io α} (hlba : lba < 268435456)
    (h : Issues ok ⟨v, lba % 268435456, n⟩ m) (code : α → Int) (hok : ∀ a, code a = 0 → ok a) (d : Drive) :
    Ends m d fun a d' => Exact lba n d (code a) d' := by
  rw [Nat.mod_eq_of_lt hlba] at h
  refine (h d).mono fun a d' h' => ?_
  rcases h' with ⟨hsame, hno⟩ | hone
  · exact ⟨[], by
      rw [hsame, List.append_nil], fun _ hc => absurd hc List.not_mem_nil, fun h0 => absurd (hok a h0) hno⟩
  · refine ⟨_, hone, fun c hc => ?_, fun _ i hi => ⟨_, List.mem_singleton.2 rfl, ?_⟩⟩
    · rw [List.mem_singleton.1 hc]
      exact ⟨Nat.le_refl lba, Nat.le_refl _⟩
    · dsimp only
      omega

theorem readExact_of_lt (hlba : lba < 268435456) : ReadExact lba := fun d buffer off =>
  exact_of_issues hlba (diskReadSector_issues lba off buffer) Prod.fst (fun _ h => h) d

theorem writeExact_of_lt (hlba : lba < 268435456) : WriteExact lba := fun d buffer off =>
  exact_of_issues hlba (diskWriteSector_issues lba off buffer) id (fun _ h => h) d

section

variable {d₁ : Drive} {code code' : Int}

theorem Exact.nothing (lba : Nat) (d : Drive) (code : Int) : Exact lba 0 d code d :=
  ⟨[], (List.append_nil _).symm, fun _ hc => absurd hc List.not_mem_nil, fun _ i hi =>
    absurd hi (Nat.not_lt_zero i)⟩

/-- One sector and those behind it. -/
theorem Exact.cons (h : Exact lba 1 d 0 d₁) (h' : Exact (lba + 1) n d₁ code d') : Exact lba (n + 1) d code d' := by
  obtain ⟨new, hnew, hin, hall⟩ := h
  obtain ⟨new', hnew', hin', hall'⟩ := h'
  refine ⟨new ++ new', by rw [hnew', hnew, List.append_assoc], fun c hc => ?_, fun h0 i hi => ?_⟩
  · rcases List.mem_append.1 hc with hc | hc
    · have := hin c hc
      omega
    · have := hin' c hc
      omega
  · cases i with
    | zero =>
      obtain ⟨c, hc, hcover⟩ := hall rfl 0 Nat.one_pos
      exact ⟨c, List.mem_append_left _ hc, hcover⟩
    | succ i =>
      obtain ⟨c, hc, hcover⟩ := hall' h0 i (by omega)
      exact ⟨c, List.mem_append_right _ hc, by omega⟩

/-- A transfer that stopped at its first sector. -/
theorem Exact.stopped (h : Exact lba 1 d code d₁) (hcode : code ≠ 0) : Exact lba (n + 1) d code d₁ := by
  obtain ⟨new, hnew, hin, -⟩ := h
  refine ⟨new, hnew, fun c hc => ?_, fun h0 => absurd h0 hcode⟩
  have := hin c hc
  omega

/-- A transfer begun again. -/
theorem Exact.again (h : Exact lba n d code d₁) (h' : Exact lba n d₁ code' d') : Exact lba n d code' d' := by
  obtain ⟨new, hnew, hin, -⟩ := h
  obtain ⟨new', hnew', hin', hall'⟩ := h'
  refine ⟨new ++ new', by rw [hnew', hnew, List.append_assoc], fun c hc => ?_, fun h0 i hi => ?_⟩
  · exact (List.mem_append.1 hc).elim (hin c) (hin' c)
  · obtain ⟨c, hc, hcover⟩ := hall' h0 i hi
    exact ⟨c, List.mem_append_right _ hc, hcover⟩

end

theorem singleReads_exact : ∀ (left i : Nat) (b : Buf) (d : Drive), lba + i + left ≤ 268435456 →
    Ends (singleReads lba left i b) d fun r d' => Exact (lba + i) left d r.1 d'
  | 0, i, b, d, _ => .pure (.nothing _ d 0)
  | left + 1, i, b, d, hlba => by
    have hadd : lbaAdd lba i = lba + i := by unfold lbaAdd; omega
    unfold singleReads
    rw [hadd]
    refine (readExact_of_lt (by omega) d b _).bind fun r d₁ h₁ => ?_
    dsimp only
    split
    · rename_i hcode
      exact .pure (h₁.stopped hcode)
    · rename_i hcode
      rw [not_not.1 hcode] at h₁
      exact (singleReads_exact left (i + 1) r.2 d₁ (by omega)).mono fun r' d₂ h₂ => h₁.cons h₂

theorem singleWrites_exact : ∀ (left i : Nat) (d : Drive), lba + i + left ≤ 268435456 →
    Ends (singleWrites lba buffer left i) d fun code d' => Exact (lba + i) left d code d'
  | 0, i, d, _ => .pure (.nothing _ d 0)
  | left + 1, i, d, hlba => by
    have hadd : lbaAdd lba i = lba + i := by unfold lbaAdd; omega
    unfold singleWrites
    rw [hadd]
    refine (writeExact_of_lt (by omega) d buffer _).bind fun code d₁ h₁ => ?_
    split
    · rename_i hcode
      exact .pure (h₁.stopped hcode)
    · rename_i hcode
      rw [not_not.1 hcode] at h₁
      exact (singleWrites_exact left (i + 1) d₁ (by omega)).mono fun code' d₂ h₂ => h₁.cons h₂

theorem readsExact_of_le (h : n = 0 ∨ lba + n ≤ 268435456) : ReadsExact lba n := by
  intro d buffer
  unfold diskReadSectors
  by_cases hn : n = 0
  · rw [if_pos hn, hn]
    exact .pure (.nothing lba d _)
  have hlba : lba + n ≤ 268435456 := by omega
  rw [if_neg hn]
  split
  · rename_i hmulti
    refine (exact_of_issues (by omega) (diskReadSectorsMultiPio_issues (by omega) hmulti.2 lba buffer) Prod.fst
      (fun _ h => h) d).bind
      fun r d₁ h₁ => ?_
    dsimp only
    split
    · rename_i hcode
      rw [hcode] at h₁
      exact .pure h₁
    · exact (singleReads_exact n 0 r.2 d₁ hlba).mono fun _ _ h₂ => h₁.again h₂
  · exact singleReads_exact n 0 buffer d hlba

theorem writesExact_of_le (h : n = 0 ∨ lba + n ≤ 268435456) : WritesExact lba n := by
  intro d buffer
  unfold diskWriteSectors
  by_cases hn : n = 0
  · rw [if_pos hn, hn]
    exact .pure (.nothing lba d _)
  have hlba : lba + n ≤ 268435456 := by omega
  rw [if_neg hn]
  split
  · rename_i hmulti
    refine (exact_of_issues (by omega) (diskWriteSectorsMultiPio_issues (by omega) hmulti.2 lba buffer) id
      (fun _ h => h) d).bind
      fun code d₁ h₁ => ?_
    split
    · rename_i hcode
      rw [hcode] at h₁
      exact .pure h₁
    · exact (singleWrites_exact n 0 d₁ hlba).mono fun _ _ h₂ => h₁.again h₂
  · exact singleWrites_exact n 0 d hlba

/-! ## A drive that does as it is told -/

/-- The drive is always ready, and stores every block. -/
def Ready (d : Drive) : Prop := ∀ k, d.answers k = ⟨ataStatusDrdy ||| ataStatusDrq, .stored⟩

theorem Ready.of_still (h : Ready d) (hs : Still d d') : Ready d' := fun k => by
  obtain ⟨n, hn⟩ := hs.answers
  rw [hn]
  exact h (k + n)

theorem Ready.of_rest (h : Ready d) (hs : d'.answers = d.rest) : Ready d' := fun k => by
  rw [hs]
  exact h (k + 1)

theorem Ready.not_busy (h : Ready d) : d.shown &&& ataStatusBsy = 0 := by
  unfold Drive.shown
  rw [h 0]
  cases d.phase with
  | idle => decide
  | failed => decide
  | due c k => exact (by decide : (ataStatusDrdy ||| ataStatusDrq) &&& ataStatusBsy = 0)
  | moving c k word taken => exact (by decide : (ataStatusDrdy ||| ataStatusDrq) &&& ataStatusBsy = 0)

theorem waitForBsy_run (h : d.shown &&& ataStatusBsy = 0) : waitForBsy d = some (0, d.look) := by
  refine (bind_run_some (show inbStatus d = some (d.shown, d.look) from rfl)).trans ?_
  rw [if_pos h]
  rfl

theorem sendCommand_run {count : Nat} (h1 : 1 ≤ count) (h2 : count ≤ 256) (lba : Nat) (v : UInt8)
    (h : d.shown &&& ataStatusBsy = 0) :
    ∃ d', sendCommand (UInt8.ofNat count) lba v d = some (0, d') ∧ d'.answers = d.rest ∧
      d'.phase = opening v (lba % 268435456) count := by
  have hrun : waitForBsy (d.put (ataDriveMaster ||| ataDriveLba) .drive) =
      some (0, (d.put (ataDriveMaster ||| ataDriveLba) .drive).look) :=
    waitForBsy_run h
  refine ⟨_, (bind_run_some (show selectDrive d = some ((), _) from rfl)).trans ((bind_run_some hrun).trans rfl),
    rfl, ?_⟩
  exact start_address h1 h2 lba v _

/-- On such a drive the wait for a block that is due succeeds. -/
theorem Ready.waitForDrq (h : Ready d) {c : Command} {k : Nat} (hp : d.phase = .due c k) :
    Meets waitForDrq d fun code d' => code = 0 ∧ Ready d' ∧ d'.phase = .moving c k 0 fun _ => 0 := by
  have hshown : d.shown = ataStatusDrdy ||| ataStatusDrq := by
    unfold Drive.shown
    rw [hp, h 0]
  refine .step rfl ?_
  rw [hshown, if_neg (by decide), if_pos (by decide)]
  refine .pure ⟨rfl, h.of_rest rfl, ?_⟩
  unfold Drive.look
  rw [hp, hshown]
  rfl

theorem Ready.diskReadSector (h : Ready d) (lba off : Nat) (b : Buf) :
    Meets (diskReadSector lba b off) d fun r d' => r.1 = 0 ∧ Ready d' := by
  obtain ⟨d₁, hrun, hrest, hp⟩ := sendCommand_run (Nat.le_refl 1) (by decide) lba ataCmdReadSectors h.not_busy
  refine .step hrun ?_
  rw [if_neg (by decide)]
  refine ((h.of_rest hrest).waitForDrq hp).bind fun code d₂ h₂ => ?_
  obtain ⟨rfl, hr₂, hp₂⟩ := h₂
  rw [if_neg (by decide)]
  exact (readWords_meets rfl off _ 255 0 b d₂ rfl hp₂).bind fun b' d₃ h₃ => .pure ⟨rfl, hr₂.of_still h₃.1⟩

theorem Ready.writeResult (h : Ready d) (hp : d.phase = .idle) :
    Meets writeResult d fun code d' => code = 0 ∧ Ready d' := by
  refine .step (waitForBsy_run h.not_busy) ?_
  rw [if_neg (by decide)]
  refine .step rfl ?_
  have hr : Ready d.look := h.of_rest rfl
  have hidle : d.look.phase = .idle := by
    rw [look_stays (by rw [hp]; exact fun _ _ h => nomatch h), hp]
  have hshown : d.look.shown &&& ataStatusErr = 0 := by
    unfold Drive.shown
    rw [hidle, hr 0]
    rfl
  rw [if_neg (not_not.2 hshown)]
  exact .pure ⟨rfl, hr.of_rest rfl⟩

theorem Ready.diskWriteSector (h : Ready d) (lba off : Nat) (b : Buf) :
    Meets (diskWriteSector lba b off) d fun code d' => code = 0 ∧ Ready d' := by
  obtain ⟨d₁, hrun, hrest, hp⟩ := sendCommand_run (Nat.le_refl 1) (by decide) lba ataCmdWriteSectors h.not_busy
  refine .step hrun ?_
  rw [if_neg (by decide)]
  refine ((h.of_rest hrest).waitForDrq hp).bind fun code d₂ h₂ => ?_
  obtain ⟨rfl, hr₂, hp₂⟩ := h₂
  rw [if_neg (by decide)]
  refine (writeWords_meets rfl off 255 0 _ d₂ rfl hp₂ fun o => (if_neg (by omega)).symm).bind fun _ d₃ h₃ => ?_
  obtain ⟨d₄, hs₄, rfl⟩ := h₃
  have hr₄ := hr₂.of_still hs₄
  have hstored : (d₄.answers 0).outcome = .stored := by rw [hr₄ 0]
  refine Ready.writeResult (hr₄.of_rest ?_) ?_ <;> unfold Drive.received <;> rw [hstored]
  rfl

/-! ## Addresses that do not fit -/

/-- A command that names a sector in front of the range. -/
def Strays (lba : Nat) (d d' : Drive) : Prop := ∃ new, d'.commands = d.commands ++ new ∧ ∃ c ∈ new, c.lba < lba

theorem Strays.not_exact {code : Int} (h : Strays lba d d') : ¬ Exact lba n d code d' := by
  obtain ⟨new, hnew, c, hc, hlt⟩ := h
  rintro ⟨new', hnew', hin, -⟩
  obtain rfl : new = new' := List.append_cancel_left (hnew.symm.trans hnew')
  have := hin c hc
  omega

/-- `m` only adds to the commands. -/
def Grows (m : Io α) : Prop := ∀ d, Ends m d fun _ d' => ∃ new, d'.commands = d.commands ++ new

theorem Issues.grows {ok : α → Prop} {c : Issued} {m : Io α} (h : Issues ok c m) : Grows m :=
  fun d => (h d).mono fun a d' h' => by
  rcases h' with ⟨hsame, -⟩ | hone
  · exact ⟨[], by rw [hsame, List.append_nil]⟩
  · exact ⟨_, hone⟩

theorem Grows.bind {m : Io α} {f : α → Io β} (hm : Grows m) (hf : ∀ a, Grows (f a)) : Grows (m >>= f) := by
  refine fun d => (hm d).bind fun a d₁ h₁ => (hf a d₁).mono fun b d₂ h₂ => ?_
  obtain ⟨new, hnew⟩ := h₁
  obtain ⟨new', hnew'⟩ := h₂
  exact ⟨new ++ new', by rw [hnew', hnew, List.append_assoc]⟩

theorem Silent.grows {m : Io α} (h : Silent m) : Grows m :=
  fun d => (h d).mono fun _ _ hs => ⟨[], by rw [hs, List.append_nil]⟩

theorem Grows.ite {p : Prop} [Decidable p] {m m' : Io α} (hm : Grows m) (hm' : Grows m') :
    Grows (if p then m else m') := by
  split
  · exact hm
  · exact hm'

theorem grows_singleReads (lba : Nat) : ∀ (left i : Nat) (b : Buf), Grows (singleReads lba left i b)
  | 0, _, b => (Silent.pure (0, b)).grows
  | left + 1, i, _ => (diskReadSector_issues _ _ _).grows.bind fun r =>
    (Silent.pure _).grows.ite (grows_singleReads lba left (i + 1) r.2)

theorem grows_singleWrites (lba : Nat) (b : Buf) : ∀ left i : Nat, Grows (singleWrites lba b left i)
  | 0, _ => (Silent.pure 0).grows
  | left + 1, i => (diskWriteSector_issues _ _ _).grows.bind fun _ =>
    (Silent.pure _).grows.ite (grows_singleWrites lba b left (i + 1))

theorem Strays.grows {d₁ : Drive} (h : Strays lba d d₁) (hg : ∃ new, d'.commands = d₁.commands ++ new) :
    Strays lba d d' := by
  obtain ⟨new, hnew, c, hc, hlt⟩ := h
  obtain ⟨new', hnew'⟩ := hg
  exact ⟨new ++ new', by rw [hnew', hnew, List.append_assoc], c, List.mem_append_left _ hc, hlt⟩

theorem Strays.of_grown {d₁ : Drive} (h : Strays lba d₁ d') (hg : ∃ new, d₁.commands = d.commands ++ new) :
    Strays lba d d' := by
  obtain ⟨new, hnew, c, hc, hlt⟩ := h
  obtain ⟨new', hnew'⟩ := hg
  exact ⟨new' ++ new, by rw [hnew, hnew', List.append_assoc], c, List.mem_append_right _ hc, hlt⟩

theorem strays_of_issued {c : Issued} (h : d'.commands = d.commands ++ [c]) (hlt : c.lba < lba) : Strays lba d d' :=
  ⟨[c], h, c, List.mem_singleton.2 rfl, hlt⟩

/-- A command that is given and reported as done was written. -/
theorem Issues.issued {ok : α → Prop} {c : Issued} {m : Io α} (h : Issues ok c m) {Q : Drive → Prop}
    (hm : Meets m d fun a d' => ok a ∧ Q d') :
    Meets m d fun a d' => (ok a ∧ Q d') ∧ d'.commands = d.commands ++ [c] := by
  refine (hm.and_ends (h d)).mono fun a d' h' => ⟨h'.1, ?_⟩
  rcases h'.2 with ⟨-, hno⟩ | hone
  · exact absurd h'.1.1 hno
  · exact hone

/-- Single transfers on such a drive go on to the sector `j`, and name another in its place. -/
theorem Ready.singleReads_stray {j : Nat} (hj : lbaAdd lba j % 268435456 < lba) :
    ∀ (left i : Nat) (b : Buf) (d : Drive), Ready d →
      j < i + left → Meets (singleReads lba left i b) d fun _ d' => i ≤ j → Strays lba d d'
  | 0, i, b, d, _, hjl => .pure fun hij => absurd hjl (by omega)
  | left + 1, i, b, d, h, hjl => by
    obtain ⟨⟨code, b'⟩, d₁, hrun, ⟨hcode, hr₁⟩, hissued⟩ :=
      (diskReadSector_issues (lbaAdd lba i) (i * sectorSize) b).issued
        (h.diskReadSector (lbaAdd lba i) (i * sectorSize) b)
    dsimp only at hcode
    refine .step hrun ?_
    dsimp only
    rw [if_neg (not_not.2 hcode)]
    refine ((Ready.singleReads_stray hj left (i + 1) b' d₁ hr₁ (by omega)).and_ends
      (grows_singleReads lba left _ b' d₁)).mono fun _ d' h' hij => ?_
    rcases Nat.eq_or_lt_of_le hij with rfl | hlt
    · exact (strays_of_issued hissued hj).grows h'.2
    · exact (h'.1 hlt).of_grown ⟨_, hissued⟩

theorem Ready.singleWrites_stray {j : Nat} (hj : lbaAdd lba j % 268435456 < lba) :
    ∀ (left i : Nat) (d : Drive), Ready d →
      j < i + left → Meets (singleWrites lba buffer left i) d fun _ d' => i ≤ j → Strays lba d d'
  | 0, i, d, _, hjl => .pure fun hij => absurd hjl (by omega)
  | left + 1, i, d, h, hjl => by
    obtain ⟨code, d₁, hrun, ⟨hcode, hr₁⟩, hissued⟩ :=
      (diskWriteSector_issues (lbaAdd lba i) (i * sectorSize) buffer).issued
        (h.diskWriteSector (lbaAdd lba i) (i * sectorSize) buffer)
    refine .step hrun ?_
    rw [if_neg (not_not.2 hcode)]
    refine ((Ready.singleWrites_stray hj left (i + 1) d₁ hr₁ (by omega)).and_ends
      (grows_singleWrites lba buffer left _ d₁)).mono fun _ d' h' hij => ?_
    rcases Nat.eq_or_lt_of_le hij with rfl | hlt
    · exact (strays_of_issued hissued hj).grows h'.2
    · exact (h'.1 hlt).of_grown ⟨_, hissued⟩

/-- The command of a multiple transfer is written when the drive is not busy. -/
theorem multi_issued {count : Nat} (h1 : 1 ≤ count) (h2 : count ≤ 256) (lba : Nat) (v : UInt8)
    (h : d.shown &&& ataStatusBsy = 0) :
    ∃ d', sendCommand (UInt8.ofNat count) lba v d = some (0, d') ∧ d'.answers = d.rest ∧
      d'.phase = opening v (lba % 268435456) count ∧ d'.commands = d.commands ++ [⟨v, lba % 268435456, count⟩] := by
  obtain ⟨d', hrun, hrest, hp⟩ := sendCommand_run h1 h2 lba v h
  rcases sendCommand_issues h1 h2 lba v d 0 d' hrun with ⟨-, hno⟩ | hone
  · exact absurd rfl hno
  · exact ⟨d', hrun, hrest, hp, hone⟩

/-- A drive that does as it is told. -/
def obedient : Drive where
  seccount0 := 0
  lba0 := 0
  lba1 := 0
  lba2 := 0
  drive := 0
  phase := .idle
  sectors := fun _ _ => 0
  identity := fun _ => 0
  answers _ := ⟨ataStatusDrdy ||| ataStatusDrq, .stored⟩
  commands := []

theorem ready_obedient : Ready obedient := fun _ => rfl

/-- A drive that refuses the first command, and does as it is told behind it. -/
def balky : Drive :=
  { obedient with answers := fun k => if k = 1 then ⟨ataStatusErr, .stored⟩ else obedient.answers k }

/-- The refusal, and what is left behind it. -/
theorem balky_refuses (hrest : d.answers = balky.rest) {c : Command} {k : Nat} (hp : d.phase = .due c k) :
    waitForDrq d = some (-1, d.look) ∧ Ready d.look := by
  have hshown : d.shown = ataStatusErr := by
    unfold Drive.shown
    rw [hp, hrest]
    rfl
  constructor
  · refine (bind_run_some (show inbStatus d = some (d.shown, d.look) from rfl)).trans ?_
    rw [hshown, if_pos (by decide)]
    rfl
  · intro k
    show d.answers (k + 1) = _
    rw [hrest]
    show (if k + 1 + 1 = 1 then (⟨ataStatusErr, .stored⟩ : Answer) else obedient.answers (k + 1 + 1)) = _
    rw [if_neg (by omega)]
    rfl

/-- A range that goes beyond 28 bits has a sector whose low bits name one in front of the range. -/
theorem exists_stray (hn : 1 ≤ n) (hn' : n ≤ 65535) (hlba : 268435456 < lba + n) :
    ∃ j < n, lbaAdd lba j % 268435456 < lba := by
  by_cases hfar : 268435456 ≤ lba
  · refine ⟨0, hn, ?_⟩
    unfold lbaAdd
    omega
  · refine ⟨268435456 - lba, by omega, ?_⟩
    unfold lbaAdd
    omega

theorem reads_stray (hn : 1 ≤ n) (hn' : n ≤ 65535) (hlba : 268435456 < lba + n) (b : Buf) :
    ∃ d, Meets (diskReadSectors lba b n) d fun _ d' => Strays lba d d' := by
  obtain ⟨j, hjn, hj⟩ := exists_stray hn hn' hlba
  unfold diskReadSectors
  rw [if_neg (by omega)]
  by_cases hmulti : 1 < n ∧ n ≤ 256
  · -- the multiple transfer is refused, and the single ones go on to the sector
    rw [if_pos hmulti]
    unfold diskReadSectorsMultiPio
    rw [if_neg (by omega)]
    obtain ⟨d₁, hrun, hrest, hp, hissued⟩ :=
      multi_issued (d := balky) hn hmulti.2 lba ataCmdReadSectorsMulti (by decide)
    obtain ⟨hdrq, hready⟩ := balky_refuses hrest hp
    obtain ⟨left, rfl⟩ := Nat.exists_eq_succ_of_ne_zero (show n ≠ 0 by omega)
    refine ⟨balky, Meets.step ((bind_run_some hrun).trans ((bind_run_some hdrq).trans rfl)) ?_⟩
    refine (hready.singleReads_stray hj (left + 1) 0 b d₁.look (by omega)).mono fun _ _ hs =>
      (hs (Nat.zero_le j)).of_grown ?_
    exact ⟨_, hissued⟩
  · rw [if_neg hmulti]
    exact ⟨obedient, (ready_obedient.singleReads_stray hj n 0 b obedient (by omega)).mono fun _ _ hs =>
      hs (Nat.zero_le j)⟩

theorem writes_stray (hn : 1 ≤ n) (hn' : n ≤ 65535) (hlba : 268435456 < lba + n) (b : Buf) :
    ∃ d, Meets (diskWriteSectors lba b n) d fun _ d' => Strays lba d d' := by
  obtain ⟨j, hjn, hj⟩ := exists_stray hn hn' hlba
  unfold diskWriteSectors
  rw [if_neg (by omega)]
  by_cases hmulti : 1 < n ∧ n ≤ 256
  · rw [if_pos hmulti]
    unfold diskWriteSectorsMultiPio
    rw [if_neg (by omega)]
    obtain ⟨d₁, hrun, hrest, hp, hissued⟩ :=
      multi_issued (d := balky) hn hmulti.2 lba ataCmdWriteSectorsMulti (by decide)
    obtain ⟨hdrq, hready⟩ := balky_refuses hrest hp
    obtain ⟨left, rfl⟩ := Nat.exists_eq_succ_of_ne_zero (show n ≠ 0 by omega)
    refine ⟨balky, Meets.step ((bind_run_some hrun).trans ((bind_run_some hdrq).trans rfl)) ?_⟩
    refine (hready.singleWrites_stray hj (left + 1) 0 d₁.look (by omega)).mono fun _ _ hs =>
      (hs (Nat.zero_le j)).of_grown ?_
    exact ⟨_, hissued⟩
  · rw [if_neg hmulti]
    exact ⟨obedient, (ready_obedient.singleWrites_stray hj n 0 obedient (by omega)).mono fun _ _ hs =>
      hs (Nat.zero_le j)⟩

/-! ## Exactly when -/

/-- The transfer of the sector `lba` reports success, and has named the sector `s` to the drive. -/
def Reaches (lba s : Nat) : Prop :=
  (∃ d buffer b d', diskReadSector lba buffer 0 d = some ((0, b), d') ∧
    d'.commands = d.commands ++ [⟨ataCmdReadSectors, s, 1⟩]) ∨ ∃ d buffer d',
      diskWriteSector lba buffer 0 d = some (0, d') ∧ d'.commands = d.commands ++ [⟨ataCmdWriteSectors, s, 1⟩]

theorem reaches_iff (lba s : Nat) : Reaches lba s ↔ s = lba % 268435456 := by
  constructor
  · rintro (⟨d, buffer, b, d', hrun, hissued⟩ | ⟨d, buffer, d', hrun, hissued⟩)
    · rcases diskReadSector_issues lba 0 buffer d _ d' hrun with ⟨-, hno⟩ | hone
      · exact absurd rfl hno
      · have hc := List.append_cancel_left (hissued.symm.trans hone)
        exact congrArg Issued.lba (List.singleton_injective hc)
    · rcases diskWriteSector_issues lba 0 buffer d _ d' hrun with ⟨-, hno⟩ | hone
      · exact absurd rfl hno
      · have hc := List.append_cancel_left (hissued.symm.trans hone)
        exact congrArg Issued.lba (List.singleton_injective hc)
  · rintro rfl
    obtain ⟨⟨code, b⟩, d', hrun, ⟨hcode, -⟩, hissued⟩ :=
      (diskReadSector_issues lba 0 fun _ => 0).issued (ready_obedient.diskReadSector lba 0 fun _ => 0)
    dsimp only at hcode
    subst hcode
    exact .inl ⟨obedient, _, b, d', hrun, hissued⟩

theorem readExact_iff (lba : Nat) : ReadExact lba ↔ lba < 268435456 := by
  refine ⟨fun h => ?_, readExact_of_lt⟩
  by_contra hfar
  obtain ⟨r, d', hrun, -, hissued⟩ :=
    (diskReadSector_issues lba 0 fun _ => 0).issued (ready_obedient.diskReadSector lba 0 fun _ => 0)
  have hstray : Strays lba obedient d' := strays_of_issued hissued (show lba % 268435456 < lba by omega)
  exact hstray.not_exact (h obedient (fun _ => 0) 0 r d' hrun)

theorem writeExact_iff (lba : Nat) : WriteExact lba ↔ lba < 268435456 := by
  refine ⟨fun h => ?_, writeExact_of_lt⟩
  by_contra hfar
  obtain ⟨code, d', hrun, -, hissued⟩ :=
    (diskWriteSector_issues lba 0 fun _ => 0).issued (ready_obedient.diskWriteSector lba 0 fun _ => 0)
  have hstray : Strays lba obedient d' := strays_of_issued hissued (show lba % 268435456 < lba by omega)
  exact hstray.not_exact (h obedient (fun _ => 0) 0 code d' hrun)

theorem readsExact_iff (hn' : n ≤ 65535) : ReadsExact lba n ↔ n = 0 ∨ lba + n ≤ 268435456 := by
  refine ⟨fun h => ?_, readsExact_of_le⟩
  by_contra hno
  have hbeyond : 268435456 < lba + n := by omega
  obtain ⟨d, r, d', hrun, hstray⟩ := reads_stray (by omega) hn' hbeyond fun _ => 0
  exact hstray.not_exact (h d (fun _ => 0) r d' hrun)

theorem writesExact_iff (hn' : n ≤ 65535) : WritesExact lba n ↔ n = 0 ∨ lba + n ≤ 268435456 := by
  refine ⟨fun h => ?_, writesExact_of_le⟩
  by_contra hno
  have hbeyond : 268435456 < lba + n := by omega
  obtain ⟨d, code, d', hrun, hstray⟩ := writes_stray (by omega) hn' hbeyond fun _ => 0
  exact hstray.not_exact (h d (fun _ => 0) code d' hrun)

/-- The sectors named are the sectors asked for, on every drive, if and only if all of them are below 2^28; and
two sectors are told apart if and only if they differ in their low 28 bits. -/
theorem addresses_exact_iff (lba : UInt32) (n : UInt16) :
    (ReadExact lba.toNat ↔ lba.toNat < 268435456) ∧ (WriteExact lba.toNat ↔ lba.toNat < 268435456) ∧
    (ReadsExact lba.toNat n.toNat ↔ n.toNat = 0 ∨ lba.toNat + n.toNat ≤ 268435456) ∧
    (WritesExact lba.toNat n.toNat ↔ n.toNat = 0 ∨ lba.toNat + n.toNat ≤ 268435456) ∧
    ∀ other : UInt32, (∀ s, ¬ (Reaches lba.toNat s ∧ Reaches other.toNat s)) ↔
    lba.toNat % 268435456 ≠ other.toNat % 268435456 := by
  have hn : n.toNat ≤ 65535 := by
    have := n.toNat_lt
    omega
  refine ⟨readExact_iff _, writeExact_iff _, readsExact_iff hn, writesExact_iff hn, fun other => ?_⟩
  simp only [reaches_iff]
  constructor
  · intro h heq
    exact h _ ⟨rfl, heq⟩
  · rintro hne s ⟨rfl, heq⟩
    exact hne heq

/-- A write to sector 2^28 goes to the boot sector. -/
theorem far_sector_aliased :
    (diskWriteSector 268435456 (fun _ => 7) 0 obedient).map
      (fun r => (r.1, r.2.commands, r.2.sectors 0 0, r.2.sectors 268435456 0)) =
        some (0, [⟨ataCmdWriteSectors, 0, 1⟩], 7, 0) ∧ ¬ WriteExact 268435456 ∧ Reaches 0 0 ∧
        Reaches 268435456 0 := by
  refine ⟨by decide +kernel, fun h => ?_, (reaches_iff 0 0).2 rfl, (reaches_iff _ 0).2 rfl⟩
  exact absurd ((writeExact_iff _).1 h) (by decide)

end AltoniumOS.Disk

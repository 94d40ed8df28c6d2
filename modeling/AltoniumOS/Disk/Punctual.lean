/-
A drive that keeps up: it stores what it is given, shows no error, and is ready whenever it was looked at ten
thousand times, as often as the driver looks. On such a drive no call of `disk.c` fails.
-/
import AltoniumOS.Disk.Transfers

namespace AltoniumOS.Disk

open AltoniumOS.Lib AltoniumOS.Fat12

variable {d d' : Drive} {c : Command} {k lba n : Nat} {buffer : Buf}

/-- From any answer on, the drive is ready, and shows an open block, in time. -/
structure Drive.Punctual (d : Drive) : Prop where
  alive : ∀ k, (d.answers k).status &&& ataStatusDrdy ≠ 0
  sound : ∀ k, (d.answers k).status &&& ataStatusErr = 0
  ready : ∀ k, ∃ i < 10000, (d.answers (k + i)).status &&& ataStatusBsy = 0
  opens : ∀ k, ∃ i < 10000, (d.answers (k + i)).status &&& ataStatusDrq ≠ 0
  stores : ∀ k, (d.answers k).outcome = .stored

theorem Drive.Punctual.careful (h : d.Punctual) : d.Careful := fun k left => by
  rw [h.stores]
  exact fun he => nomatch he

/-- The answers behind the next ones are as good. -/
theorem Drive.Punctual.later (h : d.Punctual) (ha : ∃ m, ∀ k, d'.answers k = d.answers (k + m)) : d'.Punctual := by
  obtain ⟨m, hm⟩ := ha
  refine ⟨fun k => ?_, fun k => ?_, fun k => ?_, fun k => ?_, fun k => ?_⟩
  · rw [hm]
    exact h.alive _
  · rw [hm]
    exact h.sound _
  · obtain ⟨i, hi, hbsy⟩ := h.ready (k + m)
    exact ⟨i, hi, by rwa [hm, Nat.add_right_comm]⟩
  · obtain ⟨i, hi, hdrq⟩ := h.opens (k + m)
    exact ⟨i, hi, by rwa [hm, Nat.add_right_comm]⟩
  · rw [hm]
    exact h.stores _

theorem Still.punctual (h : Still d d') (hd : d.Punctual) : d'.Punctual := hd.later h.answers

/-! ## The waits -/

/-- A bit other than the block's is shown as it is with no block due, too. -/
theorem masked_other {m : UInt8} (hm : ~~~ataStatusDrq &&& m = m) (s : UInt8) :
    s &&& ~~~ataStatusDrq &&& m = s &&& m := by
  rw [UInt8.and_assoc, hm]

/-- And a bit other than the error's is, with an error standing. -/
theorem latched_other {m : UInt8} (hm : ataStatusErr &&& m = 0) (s : UInt8) :
    (s ||| ataStatusErr) &&& m = s &&& m := by
  apply UInt8.toBitVec_inj.1
  have hbits : ataStatusErr.toBitVec &&& m.toBitVec = 0 := congrArg UInt8.toBitVec hm
  rw [UInt8.toBitVec_and, UInt8.toBitVec_or, UInt8.toBitVec_and, BitVec.and_or_distrib_right, hbits]
  exact BitVec.or_zero

theorem shown_other {m : UInt8} (hdrq : ~~~ataStatusDrq &&& m = m) (herr : ataStatusErr &&& m = 0) (d : Drive) :
    d.shown &&& m = (d.answers 0).status &&& m := by
  unfold Drive.shown
  split
  · exact masked_other hdrq _
  · exact latched_other herr _
  · rfl
  · rfl

/-- A drive that is ready at one of the looks to come ends the wait. -/
theorem bsyLoop_ready : ∀ (timeout : Nat) (d : Drive), (∃ i < timeout, (d.answers i).status &&& ataStatusBsy = 0) →
    Ends (bsyLoop timeout) d fun code _ => code = 0
  | 0, _, h => absurd h.choose_spec.1 (Nat.not_lt_zero _)
  | timeout + 1, d, h => by
    refine .step rfl ?_
    split
    · exact .pure rfl
    · rename_i hbsy
      obtain ⟨i, hi, hready⟩ := h
      cases i with
      | zero => exact absurd ((shown_other rfl rfl d).trans hready) hbsy
      | succ i => exact bsyLoop_ready timeout d.look ⟨i, Nat.lt_of_succ_lt_succ hi, hready⟩

theorem waitForBsy_punctual (h : d.Punctual) : Meets waitForBsy d fun code d' =>
    (Still d d' ∧ (d.phase.Stays → d'.phase = d.phase)) ∧ code = 0 := by
  refine (waitForBsy_meets d).and_ends (bsyLoop_ready 10000 d ?_)
  obtain ⟨i, hi, hready⟩ := h.ready 0
  rw [Nat.zero_add] at hready
  exact ⟨i, hi, hready⟩

/-- A block that is due or open is shown at one of the looks to come. -/
theorem drqLoop_opens : ∀ (timeout : Nat) (d : Drive), (∀ k, (d.answers k).status &&& ataStatusErr = 0) →
    (∃ k, d.phase = .due c k) ∨ (∃ k word taken, d.phase = .moving c k word taken) →
    (∃ i < timeout, (d.answers i).status &&& ataStatusDrq ≠ 0) → Ends (drqLoop timeout) d fun code _ => code = 0
  | 0, _, _, _, h => absurd h.choose_spec.1 (Nat.not_lt_zero _)
  | timeout + 1, d, hsound, hp, h => by
    have hshown : d.shown = (d.answers 0).status := by
      unfold Drive.shown
      rcases hp with ⟨k, hp⟩ | ⟨k, word, taken, hp⟩
      · rw [hp]
      · rw [hp]
    refine .step rfl ?_
    rw [hshown, if_neg (not_not.2 (hsound 0))]
    split
    · exact .pure rfl
    · rename_i hdrq
      obtain ⟨i, hi, hopen⟩ := h
      cases i with
      | zero => exact absurd hopen hdrq
      | succ i =>
        refine drqLoop_opens timeout d.look (fun k => hsound (k + 1)) ?_ ⟨i, Nat.lt_of_succ_lt_succ hi, hopen⟩
        unfold Drive.look
        rcases hp with ⟨k, hp⟩ | ⟨k, word, taken, hp⟩
        · rw [hp, hshown]
          exact .inl ⟨k, if_neg hdrq⟩
        · rw [hp]
          exact .inr ⟨k, word, taken, rfl⟩

theorem Drive.Punctual.opens_now (h : d.Punctual) : ∃ i < 10000, (d.answers i).status &&& ataStatusDrq ≠ 0 := by
  obtain ⟨i, hi, hopen⟩ := h.opens 0
  rw [Nat.zero_add] at hopen
  exact ⟨i, hi, hopen⟩

theorem waitForDrq_punctual (h : d.Punctual) (hp : d.phase = .due c k) : Meets waitForDrq d fun code d' =>
    (Still d d' ∧ (code = 0 → d'.phase = .moving c k 0 fun _ => 0)) ∧ code = 0 :=
  (waitForDrq_due hp).and_ends (drqLoop_opens 10000 d h.sound (.inl ⟨k, hp⟩) h.opens_now)

/-- Every command is taken. -/
theorem sendCommand_punctual {count : Nat} (h : d.Punctual) (hlba : lba < 268435456) (h1 : 1 ≤ count)
    (h2 : count ≤ 256) (v : UInt8) :
    Meets (sendCommand (UInt8.ofNat count) lba v) d fun code d' =>
      (Still d d' ∧ (code = 0 → d'.phase = opening v lba count)) ∧ code = 0 := by
  refine (sendCommand_meets hlba h1 h2 v d).and_ends (.step rfl ?_)
  obtain ⟨code, d₁, hrun, -, rfl⟩ :=
    waitForBsy_punctual ((still_put d (ataDriveMaster ||| ataDriveLba) .drive).punctual h)
  refine .step hrun ?_
  rw [if_neg (not_not.2 rfl)]
  exact .step rfl (.step rfl (.step rfl (.step rfl (.step rfl (.step rfl (.pure rfl))))))

/-! ## disk_init -/

theorem bsyLoop_drive : ∀ (timeout : Nat) (d : Drive), Ends (bsyLoop timeout) d fun _ d' => d'.drive = d.drive
  | 0, _ => .pure rfl
  | timeout + 1, d => by
    refine .step rfl ?_
    split
    · exact .pure rfl
    · exact bsyLoop_drive timeout d.look

/-- The probe finds the drive, and takes its block off it. -/
theorem diskInit_punctual (h : d.Punctual) : Meets diskInit d fun code d' => code = 0 ∧ d'.Punctual := by
  have hsel := (still_put d (ataDriveMaster ||| ataDriveLba) .drive).punctual h
  refine .step rfl (((waitForBsy_punctual hsel).and_ends (bsyLoop_drive 10000 _)).bind fun code d₁ h₁ => ?_)
  obtain ⟨⟨⟨hstill₁, -⟩, rfl⟩, hdrive⟩ := h₁
  have hd₁ := hstill₁.punctual hsel
  rw [if_neg (not_not.2 rfl)]
  refine .step rfl ?_
  rw [if_neg (by rw [shown_other rfl rfl]; exact hd₁.alive 0)]
  refine .step rfl (.step rfl (.step rfl (.step rfl (.step rfl (.step rfl ?_)))))
  -- the command is taken, so that its block is due
  have hphase :
      ((((((d₁.look.put 0 .seccount0).put 0 .lba0).put 0 .lba1).put 0 .lba2).put ataCmdIdentifyDevice
        .command)).phase =
      .due ⟨.identify, 0, 1⟩ 0 := by
    refine (if_pos ?_).trans rfl
    show d₁.drive &&& 0x50 = ataDriveLba
    rw [hdrive]
    show (ataDriveMaster ||| ataDriveLba) &&& 0x50 = ataDriveLba
    decide
  have hd₂ : ((((((d₁.look.put 0 .seccount0).put 0 .lba0).put 0 .lba1).put 0 .lba2).put ataCmdIdentifyDevice
      .command)).Punctual :=
    hd₁.later ⟨1, fun _ => rfl⟩
  generalize Drive.put _ ataCmdIdentifyDevice .command = d₂ at hphase hd₂
  have hshown : d₂.shown ≠ 0 := fun h0 => hd₂.alive 0 (by rw [← shown_other rfl rfl, h0]; rfl)
  rw [if_neg hshown]
  have hd₃ := (still_look d₂).punctual hd₂
  have hlook : d₂.look.phase = .due ⟨.identify, 0, 1⟩ 0 ∨
      d₂.look.phase = .moving ⟨.identify, 0, 1⟩ 0 0 fun _ => 0 := by
    unfold Drive.look
    rw [hphase]
    dsimp only
    split
    · exact .inr rfl
    · exact .inl rfl
  have hwait : Meets waitForDrq d₂.look fun code d' => code = 0 ∧ Still d₂.look d' ∧
      d'.phase = .moving ⟨.identify, 0, 1⟩ 0 0 fun _ => 0 := by
    rcases hlook with hp | hp
    · refine (waitForDrq_punctual hd₃ hp).mono fun code d' h' => ?_
      exact ⟨h'.2, h'.1.1, h'.1.2 h'.2⟩
    · refine ((drqLoop_moving 10000 _ hp).and_ends
        (drqLoop_opens 10000 _ hd₃.sound (.inr ⟨0, 0, _, hp⟩) hd₃.opens_now)).mono
        fun code d' h' => ?_
      exact ⟨h'.2, h'.1⟩
  refine hwait.bind fun code d₄ h₄ => ?_
  obtain ⟨rfl, hstill₄, hmoving⟩ := h₄
  rw [if_neg (not_not.2 rfl)]
  refine (discardWords_meets (by decide) _ 255 0 d₄ rfl hmoving).bind fun _ d₅ h₅ => ?_
  exact .pure ⟨rfl, h₅.punctual (hstill₄.punctual hd₃)⟩

/-! ## Reads -/

theorem diskReadSector_punctual (h : d.Punctual) (hlba : lba < 268435456) (b : Buf) (off : Nat) :
    Meets (diskReadSector lba b off) d fun r d' => r.1 = 0 ∧ d'.Punctual := by
  refine (sendCommand_punctual h hlba (Nat.le_refl 1) (by decide) _).bind fun code d₁ h₁ => ?_
  obtain ⟨⟨hstill₁, hphase₁⟩, rfl⟩ := h₁
  have hd₁ := hstill₁.punctual h
  rw [if_neg (not_not.2 rfl)]
  refine (waitForDrq_punctual hd₁ (hphase₁ rfl)).bind fun code d₂ h₂ => ?_
  obtain ⟨⟨hstill₂, hphase₂⟩, rfl⟩ := h₂
  rw [if_neg (not_not.2 rfl)]
  refine (readWords_meets rfl off _ 255 0 b d₂ rfl (hphase₂ rfl)).bind fun b' d₃ h₃ => ?_
  exact .pure ⟨rfl, h₃.1.punctual (hstill₂.punctual hd₁)⟩

theorem singleReads_punctual (hlba : lba + n ≤ 268435456) :
    ∀ (left i : Nat) (b : Buf) (d : Drive), d.Punctual → i + left = n →
      Meets (singleReads lba left i b) d fun r d' => r.1 = 0 ∧ d'.Punctual
  | 0, _, _, _, h, _ => .pure ⟨rfl, h⟩
  | left + 1, i, b, d, h, hleft => by
    have hat : lbaAdd lba i < 268435456 := by
      unfold lbaAdd
      omega
    refine (diskReadSector_punctual h hat b _).bind fun r d' h' => ?_
    dsimp only
    rw [if_neg (not_not.2 h'.1)]
    exact singleReads_punctual hlba left (i + 1) r.2 d' h'.2 (by omega)

theorem multiRead_punctual :
    ∀ (left sector : Nat) (b : Buf) (d : Drive), d.Punctual → sector + left = n →
      (left ≠ 0 → d.phase = .due ⟨.read, lba, n⟩ sector) → Meets (multiRead left sector b) d fun r d' =>
        r.1 = 0 ∧ d'.Punctual
  | 0, _, _, _, h, _, _ => .pure ⟨rfl, h⟩
  | left + 1, sector, b, d, h, hleft, hp => by
    refine (waitForDrq_punctual h (hp (Nat.succ_ne_zero left))).bind fun code d₁ h₁ => ?_
    obtain ⟨⟨hstill₁, hphase₁⟩, rfl⟩ := h₁
    rw [if_neg (not_not.2 rfl)]
    refine (readWords_meets rfl _ _ 255 0 b d₁ rfl (hphase₁ rfl)).bind fun b' d₂ h₂ => ?_
    refine multiRead_punctual left (sector + 1) b' d₂ (h₂.1.punctual (hstill₁.punctual h)) (by omega) fun hne => ?_
    rw [h₂.2.1, Command.next]
    exact if_pos (show sector + 1 < n by omega)

theorem diskReadSectors_punctual (h : d.Punctual) (hn : 1 ≤ n) (hlba : lba + n ≤ 268435456) (b : Buf) :
    Meets (diskReadSectors lba b n) d fun r d' => r.1 = 0 ∧ d'.Punctual := by
  unfold diskReadSectors
  rw [if_neg (by omega)]
  split
  · rename_i hmulti
    have htry : Meets (diskReadSectorsMultiPio lba b n) d fun r d' => r.1 = 0 ∧ d'.Punctual := by
      unfold diskReadSectorsMultiPio
      rw [if_neg (by omega)]
      refine (sendCommand_punctual h (by omega) hn hmulti.2 _).bind fun code d₁ h₁ => ?_
      obtain ⟨⟨hstill₁, hphase₁⟩, rfl⟩ := h₁
      rw [if_neg (not_not.2 rfl)]
      exact multiRead_punctual n 0 b d₁ (hstill₁.punctual h) (Nat.zero_add n) fun _ => hphase₁ rfl
    refine htry.bind fun r d' h' => ?_
    dsimp only
    rw [if_pos h'.1]
    exact .pure ⟨rfl, h'.2⟩
  · exact singleReads_punctual hlba n 0 b d h (Nat.zero_add n)

/-! ## Writes -/

/-- With no block due, a write has ended well. -/
theorem writeResult_punctual (h : d.Punctual) (hp : d.phase = .idle) :
    Meets writeResult d fun code d' => code = 0 ∧ d'.Punctual := by
  refine (waitForBsy_punctual h).bind fun code d₁ h₁ => ?_
  obtain ⟨⟨hstill, hphase⟩, rfl⟩ := h₁
  have hd₁ := hstill.punctual h
  have hidle : d₁.phase = .idle := (hphase (by rw [hp]; exact fun _ _ h => nomatch h)).trans hp
  have hshown : d₁.shown &&& ataStatusErr = 0 := by
    unfold Drive.shown
    rw [hidle]
    exact (masked_other rfl _).trans (hd₁.sound 0)
  rw [if_neg (not_not.2 rfl)]
  refine .step rfl ?_
  rw [if_neg (not_not.2 hshown)]
  exact .pure ⟨rfl, (still_look d₁).punctual hd₁⟩

/-- A block moved to the drive is stored. -/
theorem writeWords_punctual (h : d.Punctual) (hk : c.kind = .write) (off : Nat)
    (hp : d.phase = .moving c k 0 fun _ => 0) :
    Meets (writeWords buffer off 256) d fun _ d' => d'.phase = c.next k ∧ d'.Punctual := by
  refine (writeWords_meets hk off 255 0 _ d rfl hp fun o => (if_neg (by omega)).symm).mono fun _ d' h' => ?_
  obtain ⟨d₁, hstill, rfl⟩ := h'
  have hd₁ := hstill.punctual h
  unfold Drive.received
  rw [hd₁.stores 0]
  exact ⟨rfl, hd₁.later ⟨1, fun _ => rfl⟩⟩

theorem diskWriteSector_punctual (h : d.Punctual) (hlba : lba < 268435456) (off : Nat) :
    Meets (diskWriteSector lba buffer off) d fun code d' => code = 0 ∧ d'.Punctual := by
  refine (sendCommand_punctual h hlba (Nat.le_refl 1) (by decide) _).bind fun code d₁ h₁ => ?_
  obtain ⟨⟨hstill₁, hphase₁⟩, rfl⟩ := h₁
  have hd₁ := hstill₁.punctual h
  rw [if_neg (not_not.2 rfl)]
  refine (waitForDrq_punctual hd₁ (hphase₁ rfl)).bind fun code d₂ h₂ => ?_
  obtain ⟨⟨hstill₂, hphase₂⟩, rfl⟩ := h₂
  rw [if_neg (not_not.2 rfl)]
  refine (writeWords_punctual (hstill₂.punctual hd₁) rfl off (hphase₂ rfl)).bind fun _ d₃ h₃ => ?_
  exact writeResult_punctual h₃.2 h₃.1

theorem singleWrites_punctual (hlba : lba + n ≤ 268435456) :
    ∀ (left i : Nat) (d : Drive), d.Punctual → i + left = n →
      Meets (singleWrites lba buffer left i) d fun code d' => code = 0 ∧ d'.Punctual
  | 0, _, _, h, _ => .pure ⟨rfl, h⟩
  | left + 1, i, d, h, hleft => by
    have hat : lbaAdd lba i < 268435456 := by
      unfold lbaAdd
      omega
    refine (diskWriteSector_punctual h hat _).bind fun code d' h' => ?_
    rw [if_neg (not_not.2 h'.1)]
    exact singleWrites_punctual hlba left (i + 1) d' h'.2 (by omega)

theorem multiWrite_punctual : ∀ (left sector : Nat) (d : Drive), d.Punctual → sector + left = n →
    (left ≠ 0 → d.phase = .due ⟨.write, lba, n⟩ sector) → (left = 0 → d.phase = .idle) →
    Meets (multiWrite buffer left sector) d fun code d' => code = 0 ∧ d'.Punctual
  | 0, _, _, h, _, _, hidle => writeResult_punctual h (hidle rfl)
  | left + 1, sector, d, h, hleft, hp, _ => by
    refine (waitForDrq_punctual h (hp (Nat.succ_ne_zero left))).bind fun code d₁ h₁ => ?_
    obtain ⟨⟨hstill₁, hphase₁⟩, rfl⟩ := h₁
    rw [if_neg (not_not.2 rfl)]
    refine (writeWords_punctual (hstill₁.punctual h) rfl _ (hphase₁ rfl)).bind fun _ d₂ h₂ => ?_
    refine multiWrite_punctual left (sector + 1) d₂ h₂.2 (by omega) (fun hne => ?_) fun h0 => ?_
    · rw [h₂.1, Command.next]
      exact if_pos (show sector + 1 < n by omega)
    · rw [h₂.1, Command.next]
      exact if_neg (show ¬ sector + 1 < n by omega)

theorem diskWriteSectors_punctual (h : d.Punctual) (hn : 1 ≤ n) (hlba : lba + n ≤ 268435456) (buffer : Buf) :
    Meets (diskWriteSectors lba buffer n) d fun code d' => code = 0 ∧ d'.Punctual := by
  unfold diskWriteSectors
  rw [if_neg (by omega)]
  split
  · rename_i hmulti
    have htry : Meets (diskWriteSectorsMultiPio lba buffer n) d fun code d' => code = 0 ∧ d'.Punctual := by
      unfold diskWriteSectorsMultiPio
      rw [if_neg (by omega)]
      refine (sendCommand_punctual h (by omega) hn hmulti.2 _).bind fun code d₁ h₁ => ?_
      obtain ⟨⟨hstill₁, hphase₁⟩, rfl⟩ := h₁
      rw [if_neg (not_not.2 rfl)]
      exact multiWrite_punctual n 0 d₁ (hstill₁.punctual h) (Nat.zero_add n) (fun _ => hphase₁ rfl) fun h0 =>
        absurd h0 (by omega)
    refine htry.bind fun code d' h' => ?_
    rw [if_pos h'.1]
    exact .pure ⟨rfl, h'.2⟩
  · exact singleWrites_punctual hlba n 0 d h (Nat.zero_add n)

end AltoniumOS.Disk

/-
What the transfers of `disk.c` do, whatever the drive answers. A read gets a number of sectors, all of them if it
reports success. A write changes no sector outside its range, and if it reports success the range holds the
buffer. Neither depends on how often a command was abandoned and the transfer begun again.
-/
import AltoniumOS.Disk.Drive

namespace AltoniumOS.Disk

open AltoniumOS.Lib AltoniumOS.Fat12

variable {d d' d'' d₀ : Drive} {c : Command} {k lba n i : Nat} {buffer : Buf}

/-! ## Looking -/

theorem masked_drq (s : UInt8) : s &&& ~~~ataStatusDrq &&& ataStatusDrq = 0 := by
  apply UInt8.toBitVec_inj.1
  ext i hi
  simp

theorem latched_err (s : UInt8) : (s ||| ataStatusErr) &&& ataStatusErr ≠ 0 := by
  have herr : (s ||| ataStatusErr) &&& ataStatusErr = ataStatusErr := by
    apply UInt8.toBitVec_inj.1
    ext i hi
    simp
    tauto
  rw [herr]
  decide

/-- From `d` to `d'` no sector changed, and the drive only went on in its answers. -/
structure Still (d d' : Drive) : Prop where
  sectors : d'.sectors = d.sectors
  answers : ∃ n, ∀ k, d'.answers k = d.answers (k + n)

theorem Still.refl (d : Drive) : Still d d := ⟨rfl, 0, fun _ => rfl⟩

theorem Still.trans (h : Still d d') (h' : Still d' d'') : Still d d'' := by
  obtain ⟨n, hn⟩ := h.answers
  obtain ⟨m, hm⟩ := h'.answers
  refine ⟨h'.sectors.trans h.sectors, m + n, fun k => ?_⟩
  rw [hm, hn, Nat.add_assoc]

theorem still_look (d : Drive) : Still d d.look := ⟨rfl, 1, fun _ => rfl⟩

theorem still_put (d : Drive) (v : UInt8) (r : Reg) : Still d (d.put v r) := by
  cases r <;> exact ⟨rfl, 0, fun _ => rfl⟩

/-- A phase a look at the status does not leave. -/
def Phase.Stays (p : Phase) : Prop := ∀ c k, p ≠ .due c k

theorem look_stays (h : d.phase.Stays) : d.look.phase = d.phase := by
  unfold Drive.look
  cases hp : d.phase with
  | due c k => exact absurd hp (h c k)
  | _ => rfl

theorem bsyLoop_meets : ∀ (timeout : Nat) (d : Drive),
    Meets (bsyLoop timeout) d fun _ d' => Still d d' ∧ (d.phase.Stays → d'.phase = d.phase)
  | 0, d => .pure ⟨.refl d, fun _ => rfl⟩
  | timeout + 1, d => by
    refine .step rfl ?_
    split
    · exact .pure ⟨still_look d, look_stays⟩
    · refine (bsyLoop_meets timeout d.look).mono fun _ d' h => ⟨(still_look d).trans h.1, fun hs => ?_⟩
      have hlook := look_stays hs
      rw [← hlook] at hs ⊢
      exact h.2 hs

theorem waitForBsy_meets (d : Drive) :
    Meets waitForBsy d fun _ d' => Still d d' ∧ (d.phase.Stays → d'.phase = d.phase) :=
  bsyLoop_meets 10000 d

/-- With a block due, success of the wait means that it is open. -/
theorem drqLoop_due : ∀ (timeout : Nat) (d : Drive), d.phase = .due c k →
    Meets (drqLoop timeout) d fun code d' => Still d d' ∧ (code = 0 → d'.phase = .moving c k 0 fun _ => 0)
  | 0, d, _ => .pure ⟨.refl d, fun h => absurd h (by decide)⟩
  | timeout + 1, d, hp => by
    refine .step rfl ?_
    split
    · exact .pure ⟨still_look d, fun h => absurd h (by decide)⟩
    · split
      · rename_i hdrq
        refine .pure ⟨still_look d, fun _ => ?_⟩
        unfold Drive.look
        rw [hp]
        exact if_pos hdrq
      · rename_i hdrq
        have hlook : d.look.phase = .due c k := by
          unfold Drive.look
          rw [hp]
          exact if_neg hdrq
        exact (drqLoop_due timeout d.look hlook).mono fun _ d' h => ⟨(still_look d).trans h.1, h.2⟩

theorem waitForDrq_due (h : d.phase = .due c k) :
    Meets waitForDrq d fun code d' => Still d d' ∧ (code = 0 → d'.phase = .moving c k 0 fun _ => 0) :=
  drqLoop_due 10000 d h

/-- With an error standing the wait fails. -/
theorem waitForDrq_failed (h : d.phase = .failed) : Meets waitForDrq d fun code d' => Still d d' ∧ code ≠ 0 := by
  refine .step rfl ?_
  have herr : d.shown &&& ataStatusErr ≠ 0 := by
    unfold Drive.shown
    rw [h]
    exact latched_err _
  rw [if_pos herr]
  exact .pure ⟨still_look d, by decide⟩

/-- With no block due the wait fails. -/
theorem drqLoop_idle : ∀ (timeout : Nat) (d : Drive), d.phase = .idle →
    Meets (drqLoop timeout) d fun code d' => Still d d' ∧ code ≠ 0
  | 0, d, _ => .pure ⟨.refl d, by decide⟩
  | timeout + 1, d, hp => by
    have hdrq : d.shown &&& ataStatusDrq = 0 := by
      unfold Drive.shown
      rw [hp]
      exact masked_drq _
    refine .step rfl ?_
    split
    · exact .pure ⟨still_look d, by decide⟩
    · rw [if_neg (not_not.2 hdrq)]
      have hlook : d.look.phase = .idle := by
        rw [look_stays (by rw [hp]; exact fun _ _ h => nomatch h), hp]
      exact (drqLoop_idle timeout d.look hlook).mono fun _ d' h => ⟨(still_look d).trans h.1, h.2⟩

/-- A block that is open stays open. -/
theorem drqLoop_moving {word : Nat} {taken : Buf} :
    ∀ (timeout : Nat) (d : Drive), d.phase = .moving c k word taken →
      Meets (drqLoop timeout) d fun _ d' => Still d d' ∧ d'.phase = .moving c k word taken
  | 0, d, hp => .pure ⟨.refl d, hp⟩
  | timeout + 1, d, hp => by
    have hlook : d.look.phase = .moving c k word taken := by
      rw [look_stays (by rw [hp]; exact fun _ _ h => nomatch h), hp]
    refine .step rfl ?_
    split
    · exact .pure ⟨still_look d, hlook⟩
    · split
      · exact .pure ⟨still_look d, hlook⟩
      · exact (drqLoop_moving timeout d.look hlook).mono fun _ d' h => ⟨(still_look d).trans h.1, h.2⟩

/-! ## The command -/

theorem selected (x : Nat) : (ataDriveMaster ||| ataDriveLba ||| UInt8.ofNat (x &&& 0x0F)) &&& 0x50 = ataDriveLba ∧
    (ataDriveMaster ||| ataDriveLba ||| UInt8.ofNat (x &&& 0x0F)).toNat % 16 = x % 16 := by
  have key : ∀ y < 16, (ataDriveMaster ||| ataDriveLba ||| UInt8.ofNat y) &&& 0x50 = ataDriveLba ∧
      (ataDriveMaster ||| ataDriveLba ||| UInt8.ofNat y).toNat % 16 = y := by decide
  have hx : x &&& 0x0F = x % 16 := Nat.and_two_pow_sub_one_eq_mod x 4
  rw [hx]
  exact key _ (Nat.mod_lt _ (by decide))

/-- The address registers hold the low 28 bits of the sector. -/
theorem registers_lba (lba : Nat) :
    (UInt8.ofNat (lba &&& 0xFF)).toNat + 256 * (UInt8.ofNat (lba >>> 8 &&& 0xFF)).toNat +
      65536 * (UInt8.ofNat (lba >>> 16 &&& 0xFF)).toNat +
        16777216 * ((ataDriveMaster ||| ataDriveLba ||| UInt8.ofNat (lba >>> 24 &&& 0x0F)).toNat % 16) =
          lba % 268435456 := by
  have hbyte : ∀ x : Nat, (UInt8.ofNat (x &&& 0xFF)).toNat = x % 256 := fun x => by
    rw [show x &&& 0xFF = x % 256 from Nat.and_two_pow_sub_one_eq_mod x 8, UInt8.toNat_ofNat']
    omega
  rw [(selected (lba >>> 24)).2, hbyte, hbyte, hbyte, Nat.shiftRight_eq_div_pow, Nat.shiftRight_eq_div_pow,
    Nat.shiftRight_eq_div_pow]
  omega

/-- The count register holds the count, with 0 for 256. -/
theorem registers_count {count : Nat} (h1 : 1 ≤ count) (h2 : count ≤ 256) :
    (if UInt8.ofNat count = 0 then 256 else (UInt8.ofNat count).toNat) = count := by
  rcases Nat.lt_or_ge count 256 with hlt | hge
  · have hcount : (UInt8.ofNat count).toNat = count := by
      rw [UInt8.toNat_ofNat', Nat.mod_eq_of_lt hlt]
    rw [if_neg, hcount]
    intro h0
    rw [h0] at hcount
    exact absurd hcount (by simp; omega)
  · obtain rfl : count = 256 := by omega
    rfl

theorem start_address {count : Nat} (h1 : 1 ≤ count) (h2 : count ≤ 256) (lba : Nat) (v : UInt8) (d : Drive) :
    (((((d.put (UInt8.ofNat count) .seccount0).put (UInt8.ofNat (lba &&& 0xFF)) .lba0).put
      (UInt8.ofNat (lba >>> 8 &&& 0xFF)) .lba1).put (UInt8.ofNat (lba >>> 16 &&& 0xFF)) .lba2).put
        (ataDriveMaster ||| ataDriveLba ||| UInt8.ofNat (lba >>> 24 &&& 0x0F)) .drive).start v =
      opening v (lba % 268435456) count := by
  unfold Drive.start
  refine (if_pos (selected (lba >>> 24)).1).trans ?_
  exact congrArg₂ (opening v) (registers_lba lba) (registers_count h1 h2)

theorem sendCommand_meets {count : Nat} (hlba : lba < 268435456) (h1 : 1 ≤ count) (h2 : count ≤ 256) (v : UInt8)
    (d : Drive) :
    Meets (sendCommand (UInt8.ofNat count) lba v) d fun code d' => Still d d' ∧
      (code = 0 → d'.phase = opening v lba count) := by
  refine .step rfl ((waitForBsy_meets _).bind fun code d₁ h₁ => ?_)
  have hstill := (still_put d _ .drive).trans h₁.1
  split
  · exact .pure ⟨hstill, fun h => absurd h (by decide)⟩
  · refine .step rfl (.step rfl (.step rfl (.step rfl (.step rfl (.step rfl (.pure ⟨?_, fun _ => ?_⟩))))))
    · exact ⟨hstill.sectors, hstill.answers⟩
    · have hstart := start_address h1 h2 lba v d₁
      rwa [Nat.mod_eq_of_lt hlba] at hstart

/-! ## The words of a block -/

theorem toUInt8_or (lo hi : UInt8) : (lo.toUInt16 ||| hi.toUInt16 <<< 8).toUInt8 = lo := by
  apply UInt8.toBitVec_inj.1
  ext i hi
  simp

theorem toUInt8_shift_or (lo hi : UInt8) : ((lo.toUInt16 ||| hi.toUInt16 <<< 8) >>> 8).toUInt8 = hi := by
  apply UInt8.toBitVec_inj.1
  ext i hi
  interval_cases i <;> simp

theorem toUInt8_mask (v : UInt16) : (v &&& 0xFF).toUInt8 = v.toUInt8 := by
  apply UInt8.toBitVec_inj.1
  ext i hi
  interval_cases i <;> simp

/-- Two bytes written next to each other. -/
theorem update_pair (b : Buf) (p : Nat) (lo hi : UInt8) (j : Nat) :
    Function.update (Function.update b p lo) (p + 1) hi j = if j = p then lo else if j = p + 1 then hi
      else b j := by
  by_cases h1 : j = p + 1
  · subst h1
    rw [Function.update_self, if_neg (by omega), if_pos rfl]
  · rw [Function.update_of_ne h1, if_neg h1, Function.update_apply]

theorem inw_moving {word : Nat} {taken : Buf} (hp : d.phase = .moving c k word taken) (hk : c.kind ≠ .write) :
    inw d = some (wordAt (d.sent c k) word,
      { d with phase := if word + 1 < 256 then .moving c k (word + 1) taken else c.next k }) := by
  unfold inw
  rw [hp]
  exact if_neg hk

theorem sent_read (hk : c.kind = .read) (d : Drive) (k : Nat) : d.sent c k = d.sectors (c.lba + k) := by
  unfold Drive.sent
  rw [hk]

/-- The words of an open block arrive in the buffer in order. -/
theorem readWords_meets (hk : c.kind = .read) (off : Nat) (taken : Buf) :
    ∀ (n word : Nat) (b : Buf) (d : Drive), word + (n + 1) = 256 →
      d.phase = .moving c k word taken →
      Meets (readWords off (n + 1) b) d fun b' d' => Still d d' ∧ d'.phase = c.next k ∧
        b' = fun j => if off + 2 * word ≤ j ∧ j < off + sectorSize then d.sectors (c.lba + k) (j - off) else b j
  | n, word, b, d, hword, hp => by
    have hi : 255 - n = word := by omega
    refine .step (inw_moving hp (by rw [hk]; decide)) ?_
    dsimp only
    rw [hi, sent_read hk]
    -- the buffer with one more word in place
    have hput : Function.update
        (Function.update b (off + word * 2) (wordAt (d.sectors (c.lba + k)) word &&& 0xFF).toUInt8)
          (off + (word * 2 + 1)) (wordAt (d.sectors (c.lba + k)) word >>> 8 &&& 0xFF).toUInt8 =
        fun j => if off + 2 * word ≤ j ∧ j < off + 2 * (word + 1) then d.sectors (c.lba + k) (j - off)
        else b j := by
      funext j
      rw [toUInt8_mask, toUInt8_mask, wordAt, toUInt8_or, toUInt8_shift_or, ← Nat.add_assoc, update_pair,
        Nat.mul_comm word]
      split_ifs with h1 h2 h3 h4 h5
      · rw [h1, Nat.add_sub_cancel_left]
      · omega
      · rw [h3, Nat.add_assoc, Nat.add_sub_cancel_left]
      · omega
      · omega
      · rfl
    rw [hput]
    cases n with
    | zero =>
      refine .pure ⟨⟨rfl, 0, fun _ => rfl⟩, if_neg (by omega), funext fun j => ?_⟩
      rw [show off + 2 * (word + 1) = off + sectorSize by unfold sectorSize; omega]
    | succ n =>
      refine (readWords_meets hk off taken n (word + 1) _ _ (by omega) (if_pos (by omega))).mono fun b' d' h => ?_
      obtain ⟨hstill, hphase, rfl⟩ := h
      refine ⟨⟨hstill.sectors, hstill.answers⟩, hphase, funext fun j => ?_⟩
      dsimp only
      unfold sectorSize
      split_ifs <;> first | rfl | omega

/-- Of a write, the drive has all words but the last, and what it does with the block is its own decision. -/
theorem writeWords_meets (hk : c.kind = .write) (off : Nat) :
    ∀ (n word : Nat) (taken : Buf) (d : Drive), word + (n + 1) = 256 →
      d.phase = .moving c k word taken → (∀ o, taken o = if o < 2 * word then buffer (off + o) else 0) →
      Meets (writeWords buffer off (n + 1)) d fun _ d' => ∃ d₁, Still d d₁ ∧
        d' = d₁.received c k fun o => if o < sectorSize then buffer (off + o) else 0
  | n, word, taken, d, hword, hp, htaken => by
    have hi : 255 - n = word := by omega
    -- the block with one more word taken
    have hput : putWord taken word
      ((buffer (off + word * 2)).toUInt16 ||| (buffer (off + (word * 2 + 1))).toUInt16 <<< 8) =
        fun o => if o < 2 * (word + 1) then buffer (off + o) else 0 := by
      funext o
      unfold putWord
      rw [toUInt8_or, toUInt8_shift_or, update_pair, htaken, Nat.mul_comm word]
      split_ifs with h1 h2 h3 h4 h5 h6
      · rw [h1]
      · omega
      · rw [h3]
      · omega
      · rfl
      · omega
      · omega
      · rfl
    have hout : outw ((buffer (off + word * 2)).toUInt16 ||| (buffer (off + (word * 2 + 1))).toUInt16 <<< 8) d =
        if word + 1 < 256
          then some ((),
            { d with phase := .moving c k (word + 1) fun o => if o < 2 * (word + 1) then buffer (off + o) else 0 })
        else some ((), d.received c k fun o => if o < 2 * (word + 1) then buffer (off + o) else 0) := by
      unfold outw
      rw [hp]
      dsimp only
      rw [if_neg (by rw [hk]; decide), hput]
    cases n with
    | zero =>
      rw [if_neg (by omega)] at hout
      refine .step (by rw [hi]; exact hout) (.pure ⟨d, .refl d, ?_⟩)
      rw [show 2 * (word + 1) = sectorSize by unfold sectorSize; omega]
    | succ n =>
      rw [if_pos (by omega)] at hout
      refine .step (by rw [hi]; exact hout) ?_
      refine (writeWords_meets hk off n (word + 1) _ _ (by omega) rfl fun _ => rfl).mono fun _ d' h => ?_
      obtain ⟨d₁, hstill, hd⟩ := h
      exact ⟨d₁, ⟨hstill.sectors, hstill.answers⟩, hd⟩

/-! ## disk_init -/

theorem discardWords_meets (hk : c.kind ≠ .write) (taken : Buf) :
    ∀ (n word : Nat) (d : Drive), word + (n + 1) = 256 →
      d.phase = .moving c k word taken → Meets (discardWords (n + 1)) d fun _ d' => Still d d'
  | 0, word, d, hword, hp => .step (inw_moving hp hk) (.pure ⟨rfl, 0, fun _ => rfl⟩)
  | n + 1, word, d, hword, hp => by
    refine .step (inw_moving hp hk) ?_
    refine (discardWords_meets hk taken n (word + 1) _ (by omega) (if_pos (by omega))).mono fun _ d' h => ?_
    exact ⟨h.sectors, h.answers⟩

/-- The first look behind the identify command finds it taken or not, and its block due or open. -/
theorem look_identify (d : Drive) : (d.put ataCmdIdentifyDevice .command).look.phase = .idle ∨
    (∃ taken, (d.put ataCmdIdentifyDevice .command).look.phase = .moving ⟨.identify, 0, 1⟩ 0 0 taken) ∨
    (d.put ataCmdIdentifyDevice .command).look.phase = .due ⟨.identify, 0, 1⟩ 0 := by
  have hstart : (d.put ataCmdIdentifyDevice .command).phase = .idle ∨
      (d.put ataCmdIdentifyDevice .command).phase = .due ⟨.identify, 0, 1⟩ 0 := by
    show d.start ataCmdIdentifyDevice = _ ∨ d.start ataCmdIdentifyDevice = _
    unfold Drive.start
    split
    · exact .inr rfl
    · exact .inl rfl
  rcases hstart with hp | hp
  · left
    rw [look_stays (by rw [hp]; exact fun _ _ h => nomatch h), hp]
  · right
    unfold Drive.look
    rw [hp]
    dsimp only
    split
    · exact .inl ⟨_, rfl⟩
    · exact .inr rfl

/-- The probe of the drive reads no word that is not there, and changes no sector. -/
theorem diskInit_meets (d : Drive) : Meets diskInit d fun _ d' => Still d d' := by
  refine .step rfl ((waitForBsy_meets _).bind fun code d₁ h₁ => ?_)
  have hs₁ := (still_put d _ .drive).trans h₁.1
  split
  · exact .pure hs₁
  · refine .step rfl ?_
    have hs₂ := hs₁.trans (still_look d₁)
    split
    · exact .pure hs₂
    · refine .step rfl (.step rfl (.step rfl (.step rfl (.step rfl (.step rfl ?_)))))
      have hs₃ : Still d
          ((((((d₁.look.put 0 .seccount0).put 0 .lba0).put 0 .lba1).put 0 .lba2).put ataCmdIdentifyDevice
            .command).look) :=
        ((((((hs₂.trans (still_put _ 0 .seccount0)).trans (still_put _ 0 .lba0)).trans (still_put _ 0 .lba1)).trans
          (still_put _ 0 .lba2)).trans (still_put _ ataCmdIdentifyDevice .command)).trans (still_look _))
      have hphase := look_identify ((((d₁.look.put 0 .seccount0).put 0 .lba0).put 0 .lba1).put 0 .lba2)
      generalize Drive.look _ = d₃ at hs₃ hphase
      split
      · exact .pure hs₃
      · rcases hphase with hp | ⟨taken, hp⟩ | hp
        · refine (drqLoop_idle 10000 d₃ hp).bind fun code d₄ h₄ => ?_
          rw [if_pos h₄.2]
          exact .pure (hs₃.trans h₄.1)
        · refine (drqLoop_moving 10000 d₃ hp).bind fun code d₄ h₄ => ?_
          have hs₄ := hs₃.trans h₄.1
          split
          · exact .pure hs₄
          · exact (discardWords_meets (by decide) taken 255 0 d₄ rfl h₄.2).bind fun _ d₅ h₅ => .pure (hs₄.trans h₅)
        · refine (waitForDrq_due hp).bind fun code d₄ h₄ => ?_
          have hs₄ := hs₃.trans h₄.1
          split
          · exact .pure hs₄
          · rename_i hcode
            exact (discardWords_meets (by decide) _ 255 0 d₄ rfl (h₄.2 (not_not.1 hcode))).bind fun _ d₅ h₅ =>
              .pure (hs₄.trans h₅)

/-! ## Reads -/

/-- The buffer and the drive of a read of `n` sectors from `lba` on, begun on the drive `d₀`: the first sectors
of the buffer, at least `i`, are filled. -/
structure Filled (d₀ : Drive) (buffer : Buf) (lba n i : Nat) (b : Buf) (d : Drive) : Prop where
  still : Still d₀ d
  filled : ∃ m, i ≤ m ∧ m ≤ n ∧ b = buffer.blit 0 (sectorBytes d₀.sectors lba) (sectorSize * m)

namespace Filled

variable {b : Buf}

theorem start (d₀ : Drive) (buffer : Buf) (lba n : Nat) : Filled d₀ buffer lba n 0 buffer d₀ := by
  refine ⟨.refl d₀, 0, Nat.le_refl 0, Nat.zero_le n, funext fun j => ?_⟩
  exact (if_neg (by omega)).symm

theorem still_right (h : Filled d₀ buffer lba n i b d) (h' : Still d d') : Filled d₀ buffer lba n i b d' :=
  ⟨h.still.trans h', h.filled⟩

theorem mono {i' : Nat} (h : Filled d₀ buffer lba n i b d) (hi : i' ≤ i) : Filled d₀ buffer lba n i' b d := by
  obtain ⟨m, him, hmn, hb⟩ := h.filled
  exact ⟨h.still, m, by omega, hmn, hb⟩

/-- One more sector read into its place, whether it was there already or not. -/
theorem sector (h : Filled d₀ buffer lba n i b d) (hlba : lba + n ≤ 268435456) (hi : i < n) (h' : Still d d') :
    Filled d₀ buffer lba n (i + 1)
      (fun j => if i * sectorSize + 2 * 0 ≤ j ∧ j < i * sectorSize + sectorSize
        then d.sectors (lba + i) (j - i * sectorSize) else b j) d' := by
  obtain ⟨m, him, hmn, rfl⟩ := h.filled
  refine ⟨h.still.trans h', max m (i + 1), by omega, by omega, funext fun j => ?_⟩
  rw [h.still.sectors]
  unfold Buf.blit sectorBytes lbaAdd sectorSize
  by_cases hj : i * 512 + 2 * 0 ≤ j ∧ j < i * 512 + 512
  · have hq : j / 512 = i := by omega
    rw [if_pos hj, if_pos (by omega), Nat.sub_zero, hq, show (lba + i) % 4294967296 = lba + i by omega,
      show j - i * 512 = j % 512 by omega]
  · rw [if_neg hj]
    exact if_congr (by omega) rfl rfl

end Filled

/-- What a read reported, with the buffer it left: of success, that `i` sectors are filled. -/
def ReadTo (d₀ : Drive) (buffer : Buf) (lba n i : Nat) (r : Int × Buf) (d : Drive) : Prop :=
  Filled d₀ buffer lba n 0 r.2 d ∧ (r.1 = 0 → Filled d₀ buffer lba n i r.2 d)

theorem Filled.ok {b : Buf} (h : Filled d₀ buffer lba n i b d) (code : Int) :
    ReadTo d₀ buffer lba n i (code, b) d :=
  ⟨h.mono (Nat.zero_le i), fun _ => h⟩

theorem Filled.error {b : Buf} {i' : Nat} {code : Int} (h : Filled d₀ buffer lba n i b d) (hcode : code ≠ 0) :
    ReadTo d₀ buffer lba n i' (code, b) d :=
  ⟨h.mono (Nat.zero_le i), fun h0 => absurd h0 hcode⟩

theorem diskReadSector_meets {b : Buf} (h : Filled d₀ buffer lba n i b d) (hlba : lba + n ≤ 268435456)
    (hi : i < n) : Meets (diskReadSector (lbaAdd lba i) b (i * sectorSize)) d (ReadTo d₀ buffer lba n (i + 1)) := by
  rw [show lbaAdd lba i = lba + i by unfold lbaAdd; omega]
  refine (sendCommand_meets (by omega) (Nat.le_refl 1) (by decide) _ d).bind fun code d₁ h₁ => ?_
  have hf₁ := h.still_right h₁.1
  split
  · rename_i hcode
    exact .pure (hf₁.error hcode)
  · rename_i hcode
    refine (waitForDrq_due (h₁.2 (not_not.1 hcode))).bind fun code d₂ h₂ => ?_
    have hf₂ := hf₁.still_right h₂.1
    split
    · exact .pure (hf₂.error (by decide))
    · rename_i hcode
      refine (readWords_meets rfl _ _ 255 0 b d₂ rfl (h₂.2 (not_not.1 hcode))).bind fun b' d₃ h₃ => ?_
      obtain ⟨hstill, -, rfl⟩ := h₃
      exact .pure ((hf₂.sector hlba hi hstill).ok 0)

/-- The single reads fill the buffer from the start, over whatever an abandoned transfer left in it. -/
theorem singleReads_meets (hlba : lba + n ≤ 268435456) : ∀ (left i : Nat) (b : Buf) (d : Drive), i + left = n →
    Filled d₀ buffer lba n i b d → Meets (singleReads lba left i b) d (ReadTo d₀ buffer lba n n)
  | 0, i, b, d, hleft, h => by
    obtain rfl : i = n := by omega
    exact .pure (h.ok 0)
  | left + 1, i, b, d, hleft, h => by
    refine (diskReadSector_meets h hlba (by omega)).bind fun r d' h' => ?_
    dsimp only
    split
    · rename_i hcode
      exact .pure (h'.1.error hcode)
    · rename_i hcode
      exact singleReads_meets hlba left (i + 1) r.2 d' (by omega) (h'.2 (not_not.1 hcode))

theorem multiRead_meets (hlba : lba + n ≤ 268435456) :
    ∀ (left sector : Nat) (b : Buf) (d : Drive), sector + left = n →
      (left ≠ 0 → d.phase = .due ⟨.read, lba, n⟩ sector) → Filled d₀ buffer lba n sector b d →
      Meets (multiRead left sector b) d (ReadTo d₀ buffer lba n n)
  | 0, sector, b, d, hleft, _, h => by
    obtain rfl : sector = n := by omega
    exact .pure (h.ok 0)
  | left + 1, sector, b, d, hleft, hp, h => by
    refine (waitForDrq_due (hp (Nat.succ_ne_zero left))).bind fun code d₁ h₁ => ?_
    have hf₁ := h.still_right h₁.1
    split
    · exact .pure (hf₁.error (by decide))
    · rename_i hcode
      refine (readWords_meets rfl _ _ 255 0 b d₁ rfl (h₁.2 (not_not.1 hcode))).bind fun b' d₂ h₂ => ?_
      obtain ⟨hstill, hphase, rfl⟩ := h₂
      refine multiRead_meets hlba left (sector + 1) _ d₂ (by omega) (fun hne => ?_)
        (hf₁.sector hlba (by omega) hstill)
      rw [hphase, Command.next]
      exact if_pos (show sector + 1 < n by omega)

theorem diskReadSectors_meets (buffer : Buf) (hn : 1 ≤ n) (hlba : lba + n ≤ 268435456) (d₀ : Drive) :
    Meets (diskReadSectors lba buffer n) d₀ (ReadTo d₀ buffer lba n n) := by
  unfold diskReadSectors
  rw [if_neg (by omega)]
  split
  · rename_i hmulti
    have htry : Meets (diskReadSectorsMultiPio lba buffer n) d₀ (ReadTo d₀ buffer lba n n) := by
      unfold diskReadSectorsMultiPio
      rw [if_neg (by omega)]
      refine (sendCommand_meets (by omega) hn hmulti.2 _ d₀).bind fun code d₁ h₁ => ?_
      have hf₁ := (Filled.start d₀ buffer lba n).still_right h₁.1
      split
      · rename_i hcode
        exact .pure (hf₁.error hcode)
      · rename_i hcode
        exact multiRead_meets hlba n 0 buffer d₁ (Nat.zero_add n) (fun _ => h₁.2 (not_not.1 hcode)) hf₁
    refine htry.bind fun r d' h' => ?_
    dsimp only
    split
    · rename_i hcode
      exact .pure ((h'.2 hcode).ok 0)
    · exact singleReads_meets hlba n 0 r.2 d' (Nat.zero_add n) h'.1
  · exact singleReads_meets hlba n 0 buffer d₀ (Nat.zero_add n) (.start d₀ buffer lba n)

/-! ## Writes -/

/-- A drive that never spoils the sectors of a write it reports an error for. -/
def Drive.Careful (d : Drive) : Prop := ∀ k left, (d.answers k).outcome ≠ .spoiled left

theorem Still.careful (h : Still d d') (hd : d.Careful) : d'.Careful := fun k left => by
  obtain ⟨n, hn⟩ := h.answers
  rw [hn]
  exact hd (k + n) left

/-- The sectors of the drive in a write of `n` sectors of `buffer` from `lba` on, begun on the drive `d₀`: those
outside the range are as they were, and the first `i` hold the buffer. -/
structure Stored (d₀ : Drive) (buffer : Buf) (lba n i : Nat) (d : Drive) : Prop where
  outside : ∀ l, l < lba ∨ lba + n ≤ l → d.sectors l = d₀.sectors l
  stored : ∀ j < i, d.sectors (lba + j) = sectorOf buffer j
  careful : d₀.Careful → d.Careful ∧ ∃ m, i ≤ m ∧ m ≤ n ∧ d.sectors = putSectors d₀.sectors lba buffer m

namespace Stored

theorem start (d₀ : Drive) (buffer : Buf) (lba n : Nat) : Stored d₀ buffer lba n 0 d₀ where
  outside _ _ := rfl
  stored _ hj := absurd hj (Nat.not_lt_zero _)
  careful h := ⟨h, 0, Nat.le_refl 0, Nat.zero_le n, rfl⟩

theorem still (h : Stored d₀ buffer lba n i d) (h' : Still d d') : Stored d₀ buffer lba n i d' where
  outside l hl := by rw [h'.sectors, h.outside l hl]
  stored j hj := by rw [h'.sectors, h.stored j hj]
  careful hd := by
    obtain ⟨hcareful, hm⟩ := h.careful hd
    rw [h'.sectors]
    exact ⟨h'.careful hcareful, hm⟩

theorem mono {i' : Nat} (h : Stored d₀ buffer lba n i d) (hi : i' ≤ i) : Stored d₀ buffer lba n i' d where
  outside := h.outside
  stored j hj := h.stored j (by omega)
  careful hd := by
    obtain ⟨hcareful, m, him, hmn, hm⟩ := h.careful hd
    exact ⟨hcareful, m, by omega, hmn, hm⟩

end Stored

/-- A sector of the range written again changes nothing. -/
theorem update_putSectors {sectors : Nat → Buf} {m : Nat} (hlba : lba + n ≤ 268435456) (hin : i < n) (hmn : m ≤ n)
    (him : i ≤ m) :
    Function.update (putSectors sectors lba buffer m) (lba + i) (sectorOf buffer i) =
      putSectors sectors lba buffer (max m (i + 1)) := by
  have hadd : lbaAdd lba i = lba + i := by unfold lbaAdd; omega
  rcases Nat.eq_or_lt_of_le him with rfl | hlt
  · rw [Nat.max_eq_right (Nat.le_succ i), putSectors, hadd]
  · rw [Nat.max_eq_left hlt, Function.update_eq_self_iff, ← hadd, putSectors_at hlt (by omega)]

/-- Block `k` of a command inside the range comes to sector `i` of it: then the drive stored it, or has an error
standing. -/
theorem Stored.received (h : Stored d₀ buffer lba n i d) (hlba : lba + n ≤ 268435456) (hi : i < n)
    (hk : c.lba + k = lba + i) (hlow : lba ≤ c.lba) (hhigh : c.lba + c.count ≤ lba + n) :
    Stored d₀ buffer lba n (i + 1) (d.received c k (sectorOf buffer i)) ∧
      (d.received c k (sectorOf buffer i)).phase = c.next k ∨
      Stored d₀ buffer lba n 0 (d.received c k (sectorOf buffer i)) ∧
      (d.received c k (sectorOf buffer i)).phase = .failed := by
  have hrest : d.Careful → ∀ d' : Drive, d'.answers = d.rest → d'.Careful := fun hd d' ha k left => by
    rw [ha]
    exact hd (k + 1) left
  unfold Drive.received
  rw [hk]
  cases ho : (d.answers 0).outcome with
  | stored =>
    refine .inl ⟨⟨fun l hl => ?_, fun j hj => ?_, fun hd => ?_⟩, rfl⟩
    · dsimp only
      rw [Function.update_of_ne (by omega), h.outside l hl]
    · dsimp only
      rcases Nat.lt_succ_iff_lt_or_eq.1 hj with hlt | rfl
      · rw [Function.update_of_ne (by omega), h.stored j hlt]
      · rw [Function.update_self]
    · obtain ⟨hcareful, m, him, hmn, hm⟩ := h.careful hd
      refine ⟨hrest hcareful _ rfl, max m (i + 1), by omega, by omega, ?_⟩
      dsimp only
      rw [hm, update_putSectors hlba hi hmn him]
  | lost =>
    refine .inr ⟨⟨h.outside, fun j hj => absurd hj (Nat.not_lt_zero j), fun hd => ?_⟩, rfl⟩
    obtain ⟨hcareful, m, him, hmn, hm⟩ := h.careful hd
    exact ⟨hrest hcareful _ rfl, m, Nat.zero_le m, hmn, hm⟩
  | spoiled left =>
    refine .inr ⟨⟨fun l hl => ?_, fun j hj => absurd hj (Nat.not_lt_zero j), fun hd => ?_⟩, rfl⟩
    · dsimp only
      rw [if_neg (by omega), h.outside l hl]
    · exact absurd ho ((h.careful hd).1 0 left)

/-- What a write reported: of success, that `i` sectors are stored. -/
def WriteTo (d₀ : Drive) (buffer : Buf) (lba n i : Nat) (code : Int) (d : Drive) : Prop :=
  Stored d₀ buffer lba n 0 d ∧ (code = 0 → Stored d₀ buffer lba n i d)

theorem Stored.ok (h : Stored d₀ buffer lba n i d) (code : Int) : WriteTo d₀ buffer lba n i code d :=
  ⟨h.mono (Nat.zero_le i), fun _ => h⟩

theorem Stored.error {i' : Nat} {code : Int} (h : Stored d₀ buffer lba n i d) (hcode : code ≠ 0) :
    WriteTo d₀ buffer lba n i' code d :=
  ⟨h.mono (Nat.zero_le i), fun h0 => absurd h0 hcode⟩

/-- The end of a write finds an error that stands. -/
theorem writeResult_failed (h : d.phase = .failed) : Meets writeResult d fun code d' => Still d d' ∧ code ≠ 0 := by
  refine (waitForBsy_meets d).bind fun code d₁ h₁ => ?_
  split
  · exact .pure ⟨h₁.1, by decide⟩
  · refine .step rfl ?_
    have herr : d₁.shown &&& ataStatusErr ≠ 0 := by
      unfold Drive.shown
      rw [h₁.2 (by rw [h]; exact fun _ _ h => nomatch h), h]
      exact latched_err _
    rw [if_pos herr]
    exact .pure ⟨h₁.1.trans (still_look d₁), by decide⟩

theorem writeResult_still (d : Drive) : Meets writeResult d fun _ d' => Still d d' := by
  refine (waitForBsy_meets d).bind fun code d₁ h₁ => ?_
  split
  · exact .pure h₁.1
  · refine .step rfl ?_
    split <;> exact .pure (h₁.1.trans (still_look d₁))

/-- A block of a write from its place in the buffer. -/
theorem writeSector_meets (hk : c.kind = .write) (hp : d.phase = .moving c k 0 fun _ => 0)
    (h : Stored d₀ buffer lba n i d) (hlba : lba + n ≤ 268435456) (hi : i < n) (hci : c.lba + k = lba + i)
    (hlow : lba ≤ c.lba) (hhigh : c.lba + c.count ≤ lba + n) :
    Meets (writeWords buffer (i * sectorSize) 256) d fun _ d' =>
      Stored d₀ buffer lba n (i + 1) d' ∧ d'.phase = c.next k ∨ Stored d₀ buffer lba n 0 d' ∧
          d'.phase = .failed := by
  refine (writeWords_meets hk _ 255 0 _ d rfl hp fun o => ?_).mono fun _ d' h' => ?_
  · exact (if_neg (by omega)).symm
  · obtain ⟨d₁, hstill, rfl⟩ := h'
    have hblock : (fun o => if o < sectorSize then buffer (i * sectorSize + o) else 0) = sectorOf buffer i := by
      rw [Nat.mul_comm]
      rfl
    rw [hblock]
    exact (h.still hstill).received hlba hi hci hlow hhigh

theorem diskWriteSector_meets (h : Stored d₀ buffer lba n i d) (hlba : lba + n ≤ 268435456) (hi : i < n) :
    Meets (diskWriteSector (lbaAdd lba i) buffer (i * sectorSize)) d (WriteTo d₀ buffer lba n (i + 1)) := by
  rw [show lbaAdd lba i = lba + i by unfold lbaAdd; omega]
  refine (sendCommand_meets (by omega) (Nat.le_refl 1) (by decide) _ d).bind fun code d₁ h₁ => ?_
  have hs₁ := h.still h₁.1
  split
  · rename_i hcode
    exact .pure (hs₁.error hcode)
  · rename_i hcode
    refine (waitForDrq_due (h₁.2 (not_not.1 hcode))).bind fun code d₂ h₂ => ?_
    have hs₂ := hs₁.still h₂.1
    split
    · exact .pure (hs₂.error (by decide))
    · rename_i hcode
      refine (writeSector_meets rfl (h₂.2 (not_not.1 hcode)) hs₂ hlba hi rfl (Nat.le_add_right lba i)
        (by dsimp only; omega)).bind
        fun _ d₃ h₃ => ?_
      rcases h₃ with ⟨hs₃, -⟩ | ⟨hs₃, hp⟩
      · exact (writeResult_still d₃).mono fun code d₄ h₄ => (hs₃.still h₄).ok code
      · exact (writeResult_failed hp).mono fun code d₄ h₄ => (hs₃.still h₄.1).error h₄.2

theorem singleWrites_meets (hlba : lba + n ≤ 268435456) : ∀ (left i : Nat) (d : Drive), i + left = n →
    Stored d₀ buffer lba n i d → Meets (singleWrites lba buffer left i) d (WriteTo d₀ buffer lba n n)
  | 0, i, d, hleft, h => by
    obtain rfl : i = n := by omega
    exact .pure (h.ok 0)
  | left + 1, i, d, hleft, h => by
    refine (diskWriteSector_meets h hlba (by omega)).bind fun code d' h' => ?_
    split
    · rename_i hcode
      exact .pure (h'.1.error hcode)
    · rename_i hcode
      exact singleWrites_meets hlba left (i + 1) d' (by omega) (h'.2 (not_not.1 hcode))

/-- With an error standing, what is left of a multiple write fails. -/
theorem multiWrite_failed (h : d.phase = .failed) : ∀ (left sector : Nat),
    Meets (multiWrite buffer left sector) d fun code d' => Still d d' ∧ code ≠ 0
  | 0, _ => writeResult_failed h
  | left + 1, sector => by
    refine (waitForDrq_failed h).bind fun code d₁ h₁ => ?_
    rw [if_pos h₁.2]
    exact .pure ⟨h₁.1, by decide⟩

theorem multiWrite_meets (hlba : lba + n ≤ 268435456) : ∀ (left sector : Nat) (d : Drive), sector + left = n →
    (left ≠ 0 → d.phase = .due ⟨.write, lba, n⟩ sector) → Stored d₀ buffer lba n sector d →
    Meets (multiWrite buffer left sector) d (WriteTo d₀ buffer lba n n)
  | 0, sector, d, hleft, _, h => by
    obtain rfl : sector = n := by omega
    exact (writeResult_still d).mono fun code d' h' => (h.still h').ok code
  | left + 1, sector, d, hleft, hp, h => by
    refine (waitForDrq_due (hp (Nat.succ_ne_zero left))).bind fun code d₁ h₁ => ?_
    have hs₁ := h.still h₁.1
    split
    · exact .pure (hs₁.error (by decide))
    · rename_i hcode
      refine (writeSector_meets rfl (h₁.2 (not_not.1 hcode)) hs₁ hlba (by omega) rfl (Nat.le_refl lba)
        (Nat.le_refl _)).bind
        fun _ d₂ h₂ => ?_
      rcases h₂ with ⟨hs₂, hphase⟩ | ⟨hs₂, hphase⟩
      · refine multiWrite_meets hlba left (sector + 1) d₂ (by omega) (fun hne => ?_) hs₂
        rw [hphase, Command.next]
        exact if_pos (show sector + 1 < n by omega)
      · exact (multiWrite_failed hphase left (sector + 1)).mono fun code d₃ h₃ => (hs₂.still h₃.1).error h₃.2

theorem diskWriteSectors_meets (buffer : Buf) (hn : 1 ≤ n) (hlba : lba + n ≤ 268435456) (d₀ : Drive) :
    Meets (diskWriteSectors lba buffer n) d₀ (WriteTo d₀ buffer lba n n) := by
  have hstart := Stored.start d₀ buffer lba n
  unfold diskWriteSectors
  rw [if_neg (by omega)]
  split
  · rename_i hmulti
    have htry : Meets (diskWriteSectorsMultiPio lba buffer n) d₀ (WriteTo d₀ buffer lba n n) := by
      unfold diskWriteSectorsMultiPio
      rw [if_neg (by omega)]
      refine (sendCommand_meets (by omega) hn hmulti.2 _ d₀).bind fun code d₁ h₁ => ?_
      have hs₁ := hstart.still h₁.1
      split
      · rename_i hcode
        exact .pure (hs₁.error hcode)
      · rename_i hcode
        exact multiWrite_meets hlba n 0 d₁ (Nat.zero_add n) (fun _ => h₁.2 (not_not.1 hcode)) hs₁
    refine htry.bind fun code d' h' => ?_
    split
    · rename_i hcode
      exact .pure ((h'.2 hcode).ok 0)
    · exact singleWrites_meets hlba n 0 d' (Nat.zero_add n) h'.1
  · exact singleWrites_meets hlba n 0 d₀ (Nat.zero_add n) hstart

/-! ## The disk the file system sees -/

/-! ## Both together -/

/-- What a transfer that reports success has done, however often the drive was asked: a read put the sectors of
the range into the buffer, a write put the buffer into the sectors of the range and into no other. -/
theorem transfers_exact (d : Drive) (lba n : Nat) (buffer : Buf) (hn : 1 ≤ n) (hlba : lba + n ≤ 268435456) :
    (∃ code b d', diskReadSectors lba buffer n d = some ((code, b), d') ∧ d'.sectors = d.sectors ∧
      (code = 0 → ∀ i < n, ∀ o < sectorSize, b (sectorSize * i + o) = d.sectors (lba + i) o)) ∧
    ∃ code d', diskWriteSectors lba buffer n d = some (code, d') ∧
      (code = 0 → (∀ i < n, ∀ o < sectorSize, d'.sectors (lba + i) o = buffer (sectorSize * i + o)) ∧
        ∀ l, l < lba ∨ lba + n ≤ l → d'.sectors l = d.sectors l) := by
  constructor
  · obtain ⟨⟨code, b⟩, d', hrun, hread⟩ := diskReadSectors_meets buffer hn hlba d
    refine ⟨code, b, d', hrun, hread.1.still.sectors, fun hcode i hi o ho => ?_⟩
    obtain ⟨m, hnm, hmn, hb⟩ := (hread.2 hcode).filled
    obtain rfl : n = m := by omega
    dsimp only at hb
    rw [hb]
    unfold sectorSize at ho ⊢
    have hblit : buffer.blit 0 (sectorBytes d.sectors lba) (512 * n) (0 + (512 * i + o)) = _ :=
      Buf.blit_in (by omega)
    rw [Nat.zero_add] at hblit
    rw [hblit]
    unfold sectorBytes lbaAdd sectorSize
    rw [show (512 * i + o) / 512 = i by omega, show (512 * i + o) % 512 = o by omega, Nat.mod_eq_of_lt (by omega)]
  · obtain ⟨code, d', hrun, hwrite⟩ := diskWriteSectors_meets buffer hn hlba d
    refine ⟨code, d', hrun, fun hcode => ⟨fun i hi o ho => ?_, hwrite.1.outside⟩⟩
    rw [(hwrite.2 hcode).stored i hi]
    exact if_pos ho

/-- A drive that breaks off the first command behind its first block, and then does as it is told. -/
def breaking : Drive where
  seccount0 := 0
  lba0 := 0
  lba1 := 0
  lba2 := 0
  drive := 0
  phase := .idle
  sectors := fun _ _ => 0
  identity := fun _ => 0
  answers k := ⟨if k = 3 then ataStatusErr else ataStatusDrdy ||| ataStatusDrq, .stored⟩
  commands := []

theorem transfers_exact_breaking :
    (diskWriteSectorsMultiPio 5 (fun _ => 7) 3 breaking).map (·.1) = some (-3) ∧
      ∃ d', diskWriteSectors 5 (fun _ => 7) 3 breaking = some (0, d') ∧ ∀ i < 3, ∀ o < sectorSize,
      d'.sectors (5 + i) o = 7 := by
  have hmulti : (diskWriteSectorsMultiPio 5 (fun _ => 7) 3 breaking).map (·.1) = some (-3) := by decide +kernel
  have hcode : (diskWriteSectors 5 (fun _ => 7) 3 breaking).map (·.1) = some 0 := by decide +kernel
  obtain ⟨code, d', hrun, hwrite⟩ := (transfers_exact breaking 5 3 (fun _ => 7) (by decide) (by decide)).2
  rw [hrun] at hcode
  obtain rfl : code = 0 := Option.some.inj hcode
  exact ⟨hmulti, d', hrun, (hwrite rfl).1⟩

end AltoniumOS.Disk

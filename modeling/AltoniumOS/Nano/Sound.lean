/-
The editor on any file, also one with NUL bytes: no line need end where its length says, but each ends
somewhere, so that copying it stays within its row.
-/
import AltoniumOS.Nano.Keys

namespace AltoniumOS.Nano

open AltoniumOS.Lib
open AltoniumOS.Fat12 (Code)

/-- The row ends, at the latest where its length says. -/
def Closed (row : Buf) (len : Int) : Prop :=
  (0 ≤ len ∧ len ≤ maxLineLength - 1) ∧ ∃ j : Nat, (j : Int) ≤ len ∧ row j = 0

/-- The cursor and the lengths are within their bounds, and each line ends. -/
structure Sound (s : State) : Prop where
  total : 1 ≤ s.totalLines ∧ s.totalLines ≤ maxLines
  cursorY : 0 ≤ s.cursorY ∧ s.cursorY < s.totalLines
  cursorX : 0 ≤ s.cursorX ∧ s.cursorX ≤ s.lineLengths s.cursorY.toNat
  row : ∀ k : Nat, k < s.totalLines → Closed (s.lines k) (s.lineLengths k)

theorem closed_of_end {row : Buf} {len : Nat} (hlen : len < maxLineLength) (h : row len = 0) : Closed row len :=
  ⟨⟨by omega, by omega⟩, len, le_refl _, h⟩

/-- A closed row can be moved, with its length. -/
theorem movable_closed : Movable fun (b : Int) row len => Closed row len ∧ len = b where
  terminated := by
    rintro b row len ⟨⟨hlen, j, hj, h0⟩, -⟩
    exact ⟨j, by omega, h0⟩
  copied := by
    rintro b row row' len z ⟨⟨hlen, j, hj, h0⟩, hb⟩ hz hmin hcopy
    refine ⟨⟨hlen, z, ?_, (hcopy z (le_refl _)).trans hz⟩, hb⟩
    have hzj : z ≤ j := by
      by_contra hlt
      exact hmin j (by omega) h0
    omega

section

variable {s s' : State}

theorem Sound.bounds (h : Sound s) : Bounds s := ⟨h.total, h.cursorY, h.cursorX, fun k hk => (h.row k hk).1⟩

theorem Sound.sameText (h : Sound s) (hs : SameText s s') : Sound s' := by
  obtain ⟨h1, h2, h3, h4, h5⟩ := hs
  constructor <;> simp only [h1, h2, h3, h4, h5]
  · exact h.total
  · exact h.cursorY
  · exact h.cursorX
  · exact h.row

/-- The cursor as natural numbers, and the length of its line. -/
theorem Sound.cursor (h : Sound s) :
    ∃ x y n : Nat, s.cursorX = x ∧ s.cursorY = y ∧ s.lineLengths y = n ∧ x ≤ n ∧ n < maxLineLength ∧
      (y : Int) < s.totalLines ∧ y < maxLines := by
  have htotal := h.total
  have hy := h.cursorY
  have hx := h.cursorX
  have hlen := (h.row s.cursorY.toNat (by omega)).1
  refine ⟨s.cursorX.toNat, s.cursorY.toNat, (s.lineLengths s.cursorY.toNat).toNat, ?_, ?_, ?_, ?_, ?_, ?_, ?_⟩ <;>
    omega

/-- The state with another row in place of the current one, which ends at `n`. -/
theorem Sound.setCur (h : Sound s) {y x n : Nat} (hy : s.cursorY = y) (hx : x ≤ n) (hn : n < maxLineLength)
    (htotal : s'.totalLines = s.totalLines) (hcx : s'.cursorX = x) (hcy : s'.cursorY = s.cursorY)
    (hlen : s'.lineLengths y = n) (hend : s'.lines y n = 0)
    (hother : ∀ k ≠ y, s'.lines k = s.lines k ∧ s'.lineLengths k = s.lineLengths k) : Sound s' := by
  refine ⟨htotal ▸ h.total, ?_, ?_, fun k hk => ?_⟩
  · rw [hcy, htotal]
    exact h.cursorY
  · rw [hcx, hcy, hy, Int.toNat_natCast, hlen]
    omega
  · by_cases hky : k = y
    · subst hky
      rw [hlen]
      exact closed_of_end hn hend
    · rw [(hother k hky).1, (hother k hky).2]
      exact h.row k (htotal ▸ hk)

theorem insertChar_sound (h : Sound s) (c : UInt8) : Meets (insertChar c) s fun _ => Sound := by
  obtain ⟨x, y, n, hx, hy, hn, hxn, hmax, hyt, hym⟩ := h.cursor
  unfold insertChar
  refine .step get_run ?_
  rw [if_neg (by omega)]
  refine .step (getLength_run hy hym) ?_
  dsimp only
  split
  · rename_i hend
    obtain rfl : x = n := by omega
    refine .step (setChar_run hy hym hx (by omega) c) ?_
    refine .step (setChar_run hy hym (m := x + 1) (by omega) (by omega) 0) ?_
    refine .step (setLength_run hy hym _) (.step (modify_run _) (.of_run (modify_run _) ?_))
    refine h.setCur (n := x + 1) (x := x + 1) hy (le_refl _) (by omega) rfl (by show s.cursorX + 1 = _; omega)
      rfl ?_ ?_ ?_
    · simp [hn]
    · simp
    · intro k hk
      simp [setRow_lines_ne hk, Function.update_of_ne hk]
  · split
    · rename_i hmid
      refine (shiftRight_meets hym hxn hn hx hy).bind ?_
      rintro - s₁ rfl
      refine .step (setChar_run hy hym hx (by omega) c) ?_
      rw [setRow_setRow, setRow_lines_self]
      generalize Function.update (_ : Buf) x c = row
      -- the end of the line is set wherever it now is
      have hfin : ∀ m : Nat, x < m → m < maxLineLength → Meets (do
          setChar s.cursorY (← getLength s.cursorY) 0
          modify fun s => { s with cursorX := s.cursorX + 1 }
          modify fun s => { s with dirty := true }) ((s.setRow y row).setLen y m) fun _ => Sound := by
        intro m hxm hm
        refine .step (getLength_run hy hym) ?_
        refine .step (setChar_run hy hym (m := m) (by simp) hm 0) (.step (modify_run _) (.of_run (modify_run _) ?_))
        refine h.setCur (n := m) (x := x + 1) hy hxm hm rfl (by show s.cursorX + 1 = _; omega) rfl ?_ ?_ ?_
        · simp
        · simp
        · intro k hk
          simp [setRow_lines_ne hk, Function.update_of_ne hk]
      split
      · rename_i hroom
        refine .step (setLength_run hy hym _) ?_
        have hgrown := hfin (n + 1) (by omega) (by omega)
        rw [Nat.cast_succ] at hgrown
        rw [hn]
        exact hgrown
      · rename_i hroom
        have hsame : s.setRow y row = (s.setRow y row).setLen y n := by
          rw [← hn]
          simp [State.setLen, State.setRow]
        rw [hsame]
        exact hfin n (by omega) hmax
    · exact .of_run (modify_run _) (h.sameText ⟨rfl, rfl, rfl, rfl, rfl⟩)

/-- Joining two lines. -/
theorem joinLines_sound (h : Sound s) {k a b : Nat} (hk : ((k + 1 : Nat) : Int) < s.totalLines)
    (hfit : a + b < maxLineLength) {y a' b' : Int} (hy : y = k) (ha : a' = a) (hb : b' = b) :
    Meets (joinLines y a' b') s fun _ s' => ∃ lines lens,
      s' = { s with lines := lines, lineLengths := lens, totalLines := s.totalLines - 1 } ∧
      ∀ m : Nat, m < s.totalLines - 1 → Closed (lines m) (lens m) ∧ (m = k → lens m = (a + b : Nat)) := by
  have htotal := h.total
  subst hy ha hb
  unfold joinLines
  refine (append_meets (s := s) (by omega) (by omega) (by omega : k ≠ k + 1) hfit rfl (by omega)).bind ?_
  rintro - s₁ rfl
  refine .step (setLength_run rfl (by omega) _) ?_
  refine .step (setChar_run rfl (by omega) (m := a + b) (by omega) hfit 0) (.step get_run ?_)
  refine (moveUp_meets movable_closed (n := s.totalLines.toNat) (y := k) (f := fun m => if m = k
    then ((a + b : Nat) : Int) else s.lineLengths m) (by omega) (by omega) ?_ (by omega)
      (by show s.totalLines - 1 = _; omega)).bind ?_
  · intro m hm
    by_cases hmk : m = k
    · subst hmk
      simp only [setRow_lines_self, setRow_lineLengths, setLen_lineLengths, Function.update_self, if_pos]
      exact ⟨closed_of_end hfit (Function.update_self ..), by omega⟩
    · simp only [setLen_lines, setLen_lineLengths, setRow_lineLengths, setRow_lines_ne hmk,
        Function.update_of_ne hmk, if_neg hmk]
      exact ⟨h.row m (by omega), trivial⟩
  · rintro - s₂ ⟨lines, lens, rfl, hrows⟩
    refine .of_run (modify_run _) ⟨lines, lens, rfl, fun m hm => ?_⟩
    obtain ⟨hrow, hlen⟩ := hrows m (by omega)
    refine ⟨hrow, ?_⟩
    rintro rfl
    rw [hlen, if_neg (by omega), if_pos rfl]

theorem handleBackspace_sound (h : Sound s) : Meets handleBackspace s fun _ => Sound := by
  obtain ⟨x, y, n, hx, hy, hn, hxn, hmax, hyt, hym⟩ := h.cursor
  have htotal := h.total
  unfold handleBackspace
  refine .step get_run ?_
  rw [if_neg (by omega)]
  dsimp only
  split
  · refine .step (getLength_run hy hym) ?_
    refine (shiftLeft_meets (a := x - 1) (b := n) hym (by omega) hmax (by omega) hn hy).bind ?_
    rintro - s₁ rfl
    rw [if_pos (by omega)]
    refine .step (setLength_run hy hym _) (.step (getLength_run hy hym) ?_)
    refine .step (setChar_run hy hym (m := n - 1) (by simp; omega) (by omega) 0) ?_
    refine .step (modify_run _) (.of_run (modify_run _) ?_)
    refine h.setCur (n := n - 1) (x := x - 1) hy (by omega) (by omega) rfl (by show s.cursorX - 1 = _; omega)
      rfl ?_ ?_ ?_
    · simp [hn]
      omega
    · simp
    · intro k hk
      simp [setRow_lines_ne hk, Function.update_of_ne hk]
  · split
    · have hprev := (h.row (y - 1) (by omega)).1
      refine .step (getLength_run (k := y - 1) (by omega) (by omega)) (.step (getLength_run hy hym) ?_)
      split
      · rename_i hfit
        refine (joinLines_sound h (k := y - 1) (a := (s.lineLengths (y - 1)).toNat) (b := n) (by omega) (by omega)
          (by omega) (by omega) hn).bind ?_
        rintro - s₁ ⟨lines, lens, rfl, hrows⟩
        refine .step (modify_run _) (.of_run (modify_run _) ?_)
        refine ⟨?_, ?_, ?_, fun m hm => (hrows m hm).1⟩
        · show 1 ≤ s.totalLines - 1 ∧ s.totalLines - 1 ≤ _
          omega
        · show 0 ≤ s.cursorY - 1 ∧ s.cursorY - 1 < s.totalLines - 1
          omega
        · show 0 ≤ s.lineLengths (y - 1) ∧ s.lineLengths (y - 1) ≤ lens (s.cursorY - 1).toNat
          rw [show (s.cursorY - 1).toNat = y - 1 by omega, (hrows (y - 1) (by omega)).2 rfl]
          omega
      · exact .of_run (modify_run _) (h.sameText ⟨rfl, rfl, rfl, rfl, rfl⟩)
    · exact .of_run (modify_run _) (h.sameText ⟨rfl, rfl, rfl, rfl, rfl⟩)

theorem handleDelete_sound (h : Sound s) : Meets handleDelete s fun _ => Sound := by
  obtain ⟨x, y, n, hx, hy, hn, hxn, hmax, hyt, hym⟩ := h.cursor
  have htotal := h.total
  unfold handleDelete
  refine .step get_run ?_
  rw [if_neg (by omega)]
  refine .step (getLength_run hy hym) ?_
  split
  · refine (shiftLeft_meets (a := x) (b := n - 1) hym (by omega) (by omega) hx (by omega) hy).bind ?_
    rintro - s₁ rfl
    refine .step (setLength_run hy hym _) ?_
    refine .step (setChar_run hy hym (m := n - 1) (by omega) (by omega) 0) (.of_run (modify_run _) ?_)
    refine h.setCur (n := n - 1) (x := x) hy (by omega) (by omega) rfl hx rfl ?_ ?_ ?_
    · simp [hn]
      omega
    · simp
    · intro k hk
      simp [setRow_lines_ne hk, Function.update_of_ne hk]
  · split
    · have hnext := (h.row (y + 1) (by omega)).1
      refine .step (getLength_run (k := y + 1) (by omega) (by omega)) ?_
      split
      · rename_i hfit
        refine (joinLines_sound h (k := y) (a := n) (b := (s.lineLengths (y + 1)).toNat) (by omega) (by omega) hy hn
          (by omega)).bind ?_
        rintro - s₁ ⟨lines, lens, rfl, hrows⟩
        refine .of_run (modify_run _) ?_
        refine ⟨?_, ?_, ?_, fun m hm => (hrows m hm).1⟩
        · show 1 ≤ s.totalLines - 1 ∧ s.totalLines - 1 ≤ _
          omega
        · show 0 ≤ s.cursorY ∧ s.cursorY < s.totalLines - 1
          omega
        · show 0 ≤ s.cursorX ∧ s.cursorX ≤ lens s.cursorY.toNat
          rw [show s.cursorY.toNat = y by omega, (hrows y (by omega)).2 rfl]
          omega
      · exact .pure h
    · exact .pure h

theorem handleEnter_sound (h : Sound s) : Meets handleEnter s fun _ => Sound := by
  obtain ⟨x, y, n, hx, hy, hn, hxn, hmax, hyt, hym⟩ := h.cursor
  have htotal := h.total
  unfold handleEnter
  refine .step get_run ?_
  split
  · exact .pure h
  rename_i hroom
  refine .step (getLength_run hy hym) ?_
  refine (moveDown_meets movable_closed (n := s.totalLines.toNat) (y := y) (f := s.lineLengths)
    (by omega) (by omega) (fun k hk => ⟨h.row k (by omega), rfl⟩) (by omega) (by omega)).bind ?_
  rintro - s₁ ⟨lines, lens, rfl, hrows⟩
  refine (breakOff_meets (x := x) (n := n) (y := y) (z := y + 1) hym (by omega) (by omega) hxn hmax hx hn hy
    (by omega)).bind ?_
  rintro - s₂ rfl
  dsimp only
  have hnew : max 0 (s.lineLengths y - s.cursorX) = ((n - x : Nat) : Int) := by omega
  rw [hnew]
  refine .step (setChar_run (k := y + 1) (by omega) (by omega) rfl (by omega) 0) ?_
  refine .step (setLength_run (k := y + 1) (by omega) (by omega) _) ?_
  refine .step (setChar_run hy hym hx (by omega) 0) (.step (setLength_run hy hym _) (.of_run (modify_run _) ?_))
  have hne : y + 1 ≠ y := by omega
  refine ⟨?_, ?_, ⟨le_refl _, ?_⟩, fun m hm => ?_⟩
  · show 1 ≤ s.totalLines + 1 ∧ s.totalLines + 1 ≤ _
    omega
  · show 0 ≤ s.cursorY + 1 ∧ s.cursorY + 1 < s.totalLines + 1
    omega
  · simp [show (s.cursorY + 1).toNat = y + 1 by omega]
  · by_cases hmy : m = y
    · subst hmy
      have hend : Closed (Function.update (lines m) x 0) x := closed_of_end (by omega) (Function.update_self ..)
      simpa [setRow_lines_ne hne.symm, hx] using hend
    · by_cases hmz : m = y + 1
      · subst hmz
        have hend : ∀ row : Buf, Closed (Function.update row (n - x) 0) (n - x : Nat) :=
          fun row => closed_of_end (by omega) (Function.update_self ..)
        simpa [setRow_lines_ne hne, Function.update_of_ne hne] using hend _
      · simpa [setRow_lines_ne hmy, setRow_lines_ne hmz, Function.update_of_ne hmy, Function.update_of_ne hmz] using
          (hrows m (by change (m : Int) < s.totalLines + 1 at hm; omega) hmz).1

theorem stable_sound : Stable Sound where
  bounds h := h.bounds
  sameText h hs := h.sameText hs
  moved _ _ _ h hy hx := ⟨h.total, hy, hx, h.row⟩
  insertChar h _ := insertChar_sound h _
  backspace h := handleBackspace_sound h
  enter h := handleEnter_sound h
  delete h := handleDelete_sound h

end

end AltoniumOS.Nano

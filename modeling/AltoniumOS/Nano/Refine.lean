/-
The editor operations on a state that holds a text: each runs without an access out of bounds and leaves
a state that holds the text its edit makes.

The loops that shift bytes within a row leave a row that is known byte by byte; those that shift whole
rows copy up to the terminator only, so after them a row is known by the line it holds.
-/
import AltoniumOS.Nano.Text

namespace AltoniumOS.Nano

open AltoniumOS.Lib

/-- The row holds the line, terminated. -/
structure RowIs (row : Buf) (len : Int) (l : List UInt8) : Prop where
  length : len = l.length
  byte : ∀ j ≤ l.length, row j = l.getD j 0

/-- The state holds the text. -/
structure Shows (s : State) (t : Text) : Prop where
  total : s.totalLines = t.lines.length
  x : s.cursorX = t.x
  y : s.cursorY = t.y
  row : ∀ k < t.lines.length, RowIs (s.lines k) (s.lineLengths k) (t.line k)

/-- `s` with another row `k`. -/
def State.setRow (s : State) (k : Nat) (row : Buf) : State := { s with lines := Function.update s.lines k row }

/-- `s` with another length of line `k`. -/
def State.setLen (s : State) (k : Nat) (len : Int) : State :=
  { s with lineLengths := Function.update s.lineLengths k len }

section

variable {s : State} {t : Text} {i j : Int} {k m : Nat} {l : List UInt8}

@[simp] theorem setRow_lines_self (row : Buf) : (s.setRow k row).lines k = row := Function.update_self ..

theorem setRow_lines_ne (h : m ≠ k) (row : Buf) : (s.setRow k row).lines m = s.lines m := Function.update_of_ne h ..

@[simp] theorem setRow_lineLengths (row : Buf) : (s.setRow k row).lineLengths = s.lineLengths := rfl

@[simp] theorem setRow_cursorY (row : Buf) : (s.setRow k row).cursorY = s.cursorY := rfl

@[simp] theorem setLen_cursorY (len : Int) : (s.setLen k len).cursorY = s.cursorY := rfl

@[simp] theorem setLen_lines (len : Int) : (s.setLen k len).lines = s.lines := rfl

@[simp] theorem setLen_lineLengths (len : Int) :
    (s.setLen k len).lineLengths = Function.update s.lineLengths k len := rfl

@[simp] theorem setRow_setRow (row row' : Buf) : (s.setRow k row).setRow k row' = s.setRow k row' := by
  unfold State.setRow
  simp

@[simp] theorem setRow_self : s.setRow k (s.lines k) = s := by
  unfold State.setRow
  simp

theorem getD_length (l : List UInt8) {j : Nat} (h : l.length ≤ j) : l.getD j 0 = 0 := by
  rw [List.getD_eq_getElem?_getD, List.getElem?_eq_none h]
  rfl

theorem IsLine.getD_ne (hl : IsLine l) {j : Nat} (hj : j < l.length) : l.getD j 0 ≠ 0 := by
  rw [List.getD_eq_getElem?_getD, List.getElem?_eq_getElem hj]
  intro h0
  exact hl.noNul (h0 ▸ List.getElem_mem hj)

/-! ## Accesses in bounds -/

theorem getLength_run (hi : i = k) (hk : k < maxLines) : getLength i s = some (s.lineLengths k, s) := by
  unfold getLength
  rw [index_eq hi hk]
  rfl

theorem setLength_run (hi : i = k) (hk : k < maxLines) (v : Int) :
    setLength i v s = some ((), s.setLen k v) := by
  unfold setLength
  rw [index_eq hi hk]
  rfl

theorem getChar_run (hi : i = k) (hk : k < maxLines) (hj : j = m) (hm : m < maxLineLength) :
    getChar i j s = some (s.lines k m, s) := by
  unfold getChar
  rw [index_eq hi hk, index_eq hj hm]
  rfl

theorem setChar_run (hi : i = k) (hk : k < maxLines) (hj : j = m) (hm : m < maxLineLength) (c : UInt8) :
    setChar i j c s = some ((), s.setRow k (Function.update (s.lines k) m c)) := by
  unfold setChar
  rw [index_eq hi hk, index_eq hj hm]
  rfl

/-! ## Shifting bytes -/

/-- The shift of an insertion, from the end of the line down to the cursor. -/
theorem shiftRight_meets {x len y : Nat} (hy : y < maxLines) (hx : x ≤ len) {a b y' : Int} (ha : a = len)
    (hb : b = x) (hy' : y' = y) :
    Meets (forDown a b fun i =>
      if i < maxLineLength - 1 then do setChar y' i (← getChar y' (i - 1)) else pure ()) s fun _ s' =>
        s' = s.setRow y fun j => if x < j ∧ j ≤ len ∧ j < maxLineLength - 1 then s.lines y (j - 1)
            else s.lines y j := by
  refine Meets.forDown (fun i s' => s' = s.setRow y fun j =>
    if i < j ∧ j ≤ len ∧ j < maxLineLength - 1 then s.lines y (j - 1) else s.lines y j) ha hb hx ?_ ?_
  · have hrow : (fun j => if len < j ∧ j ≤ len ∧ j < maxLineLength - 1 then s.lines y (j - 1) else s.lines y j) =
        s.lines y :=
      funext fun j => if_neg (by omega)
    rw [hrow, setRow_self]
  · rintro i s' hi hlen rfl
    split
    · rename_i hlt
      have hi' : i < maxLineLength - 1 := by unfold maxLineLength at hlt ⊢; omega
      refine .step (getChar_run hy' hy (m := i - 1) (by omega) (by omega)) ?_
      refine .of_run (setChar_run hy' hy (m := i) rfl (by omega) _) ?_
      rw [setRow_setRow, setRow_lines_self]
      congr 1
      funext j
      simp only [Function.update_apply]
      grind
    · rename_i hge
      have hi' : ¬ i < maxLineLength - 1 := by unfold maxLineLength at hge ⊢; omega
      refine .pure ?_
      congr 1
      funext j
      grind

/-- The shift of an erasure, from the cursor up. -/
theorem shiftLeft_meets {a b y : Nat} (hy : y < maxLines) (hab : a ≤ b) (hb : b < maxLineLength) {a' b' y' : Int}
    (ha' : a' = a) (hb' : b' = b) (hy' : y' = y) :
    Meets (forUp a' b' fun i => do setChar y' i (← getChar y' (i + 1))) s fun _ s' =>
      s' = s.setRow y fun j => if a ≤ j ∧ j < b then s.lines y (j + 1) else s.lines y j := by
  refine Meets.forUp (fun i s' => s' = s.setRow y fun j => if a ≤ j ∧ j < i then s.lines y (j + 1) else s.lines y j)
    ha' hb' hab ?_ ?_
  · have hrow : (fun j => if a ≤ j ∧ j < a then s.lines y (j + 1) else s.lines y j) = s.lines y :=
      funext fun j => if_neg (by omega)
    rw [hrow, setRow_self]
  · rintro i s' hi hlt rfl
    refine .step (getChar_run hy' hy (m := i + 1) (by omega) (by omega)) ?_
    refine .of_run (setChar_run hy' hy (m := i) rfl (by omega) _) ?_
    rw [setRow_setRow, setRow_lines_self]
    congr 1
    funext j
    simp only [Function.update_apply]
    grind

/-- The copy of a joined line behind the line before it. -/
theorem append_meets {len nextLen y z : Nat} (hy : y < maxLines) (hz : z < maxLines) (hyz : y ≠ z)
    (hfit : len + nextLen < maxLineLength) {y' z' : Int} (hy' : y' = y) (hz' : z' = z) :
    Meets (forUp 0 (nextLen : Int) fun i => do setChar y' (len + i) (← getChar z' i)) s fun _ s' =>
      s' = s.setRow y fun j => if len ≤ j ∧ j < len + nextLen then s.lines z (j - len) else s.lines y j := by
  refine Meets.forUp (fun i s' => s' = s.setRow y fun j => if len ≤ j ∧ j < len + i then s.lines z (j - len)
    else s.lines y j) (j := 0) rfl rfl (Nat.zero_le _) ?_ ?_
  · have hrow : (fun j => if len ≤ j ∧ j < len + 0 then s.lines z (j - len) else s.lines y j) = s.lines y :=
      funext fun j => if_neg (by omega)
    rw [hrow, setRow_self]
  · rintro i s' - hlt rfl
    refine .step (getChar_run hz' hz (m := i) rfl (by omega)) ?_
    refine .of_run (setChar_run hy' hy (m := len + i) (by omega) (by omega) _) ?_
    rw [setRow_setRow, setRow_lines_self, setRow_lines_ne hyz.symm]
    congr 1
    funext j
    simp only [Function.update_apply]
    grind

/-- The copy of the rest of a broken line to the line behind it. -/
theorem breakOff_meets {x n y z : Nat} (hy : y < maxLines) (hz : z < maxLines) (hyz : y ≠ z) (hx : x ≤ n)
    (hlen : n < maxLineLength) {x' len' y' z' : Int} (hx' : x' = x) (hlen' : len' = n) (hy' : y' = y)
    (hz' : z' = z) : Meets (forUp x' len' fun i => do setChar z' (i - x') (← getChar y' i)) s fun _ s' =>
      s' = s.setRow z fun j => if j < n - x then s.lines y (x + j) else s.lines z j := by
  refine Meets.forUp (fun i s' => s' = s.setRow z fun j => if j < i - x then s.lines y (x + j) else s.lines z j) hx'
    hlen' hx ?_ ?_
  · have hrow : (fun j => if j < x - x then s.lines y (x + j) else s.lines z j) = s.lines z :=
      funext fun j => if_neg (by omega)
    rw [hrow, setRow_self]
  · rintro i s' hi hlt rfl
    refine .step (getChar_run hy' hy (m := i) rfl (by omega)) ?_
    refine .of_run (setChar_run hz' hz (m := i - x) (by omega) (by omega) _) ?_
    rw [setRow_setRow, setRow_lines_self, setRow_lines_ne hyz]
    congr 1
    funext j
    simp only [Function.update_apply]
    grind

/-! ## Moving rows -/

/-- What is said of a row and its length is kept when the row is copied up to its terminator. -/
structure Movable {β : Type} (P : β → Buf → Int → Prop) : Prop where
  terminated {b : β} {row : Buf} {len : Int} : P b row len → ∃ z < maxLineLength, row z = 0
  copied {b : β} {row row' : Buf} {len : Int} {z : Nat} : P b row len → row z = 0 → (∀ m < z, row m ≠ 0) →
    (∀ m ≤ z, row' m = row m) → P b row' len

/-- Copying a row copies it up to its terminator. -/
theorem copyLine_meets {i k z : Nat} (hik : i ≠ k) (hi : i < maxLines) (hk : k < maxLines)
    (hz : z < maxLineLength) :
    ∀ {n j : Nat} {s : State}, n + j = maxLineLength → j ≤ z → s.lines k z = 0 → (∀ m < z, s.lines k m ≠ 0) →
      (∀ m < j, s.lines i m = s.lines k m) →
      Meets (copyLine i k n j) s fun _ s' => ∃ row : Buf, s' = s.setRow i row ∧ ∀ m ≤ z, row m = s.lines k m
  | 0, j, s, hn, hj, _, _, _ => by omega
  | n + 1, j, s, hn, hj, hend, hne, hdst => by
    rw [copyLine]
    refine .step (getChar_run rfl hk rfl (by omega)) ?_
    refine .step (setChar_run rfl hi rfl (by omega) _) ?_
    have hrow : ∀ m < j + 1, Function.update (s.lines i) j (s.lines k j) m = s.lines k m := by
      intro m hm
      rw [Function.update_apply]
      split
      · rename_i h
        rw [h]
      · exact hdst m (by omega)
    split
    · rename_i h0
      have hjz : j = z := by
        by_contra hjz
        exact hne j (by omega) h0
      exact .pure ⟨_, rfl, fun m hm => hrow m (by omega)⟩
    · rename_i h0
      have hjz : j ≠ z := by
        rintro rfl
        exact h0 hend
      refine (copyLine_meets hik hi hk hz (s := s.setRow i _) (n := n) (j := j + 1) (by omega)
        (by omega) ?_ ?_ ?_).mono ?_
      · rw [setRow_lines_ne hik.symm]
        exact hend
      · rw [setRow_lines_ne hik.symm]
        exact hne
      · rw [setRow_lines_self, setRow_lines_ne hik.symm]
        exact hrow
      · rintro - s' ⟨row, rfl, h⟩
        rw [setRow_lines_ne hik.symm] at h
        exact ⟨row, setRow_setRow .., h⟩

section

variable {β : Type} {P : β → Buf → Int → Prop} (hP : Movable P)

include hP

/-- Moving a row moves what is said of it. -/
theorem moveLine_meets {i k : Nat} {i' k' : Int} (hi' : i' = i) (hk' : k' = k) (hik : i ≠ k) (hi : i < maxLines)
    (hk : k < maxLines) {b : β} (h : P b (s.lines k) (s.lineLengths k)) :
    Meets (moveLine i' k') s fun _ s' => ∃ row, P b row (s.lineLengths k) ∧
      s' = (s.setRow i row).setLen i (s.lineLengths k) := by
  subst hi' hk'
  have hex : ∃ z, s.lines k z = 0 := (hP.terminated h).imp fun _ hz => hz.2
  obtain ⟨z₀, hz₀, h0⟩ := hP.terminated h
  have hmin : Nat.find hex < maxLineLength := lt_of_le_of_lt (Nat.find_min' hex h0) hz₀
  unfold moveLine
  refine .step (getLength_run rfl hk) (.step (setLength_run rfl hi _) ?_)
  have hcopy :=
    copyLine_meets (s := s.setLen i (s.lineLengths k)) hik hi hk hmin (Nat.add_zero maxLineLength) (Nat.zero_le _)
      (Nat.find_spec hex) (fun m hm => Nat.find_min hex hm) fun m hm => absurd hm (Nat.not_lt_zero m)
  rw [Nat.cast_zero] at hcopy
  refine hcopy.mono ?_
  rintro - s' ⟨row, rfl, hrow⟩
  exact ⟨row, hP.copied h (Nat.find_spec hex) (fun m hm => Nat.find_min hex hm) hrow, rfl⟩

/-- The rows behind a joined one move up. -/
theorem moveUp_meets {n y : Nat} {f : Nat → β} (hn : n ≤ maxLines) (hyn : y + 1 < n)
    (h : ∀ k < n, P (f k) (s.lines k) (s.lineLengths k)) {a b : Int} (ha : a = (y + 1 : Nat))
    (hb : b = (n - 1 : Nat)) :
    Meets (forUp a b fun i => moveLine i (i + 1)) s fun _ s' => ∃ lines lens,
      s' = { s with lines := lines, lineLengths := lens } ∧
      ∀ k < n - 1, P (if y < k then f (k + 1) else f k) (lines k) (lens k) := by
  refine (Meets.forUp (fun i s' => ∃ lines lens, s' = { s with lines := lines, lineLengths := lens } ∧
    ∀ k < n, P (if y < k ∧ k < i then f (k + 1) else f k) (lines k) (lens k)) ha hb (by omega) ?_ ?_).mono ?_
  · refine ⟨s.lines, s.lineLengths, rfl, fun k hk => ?_⟩
    rw [if_neg (by omega)]
    exact h k hk
  · rintro i s' hi hlt ⟨lines, lens, rfl, hrows⟩
    have hsrc := hrows (i + 1) (by omega)
    rw [if_neg (by omega)] at hsrc
    refine (moveLine_meets hP (i := i) (k := i + 1) rfl (by omega) (by omega) (by omega) (by omega) hsrc).mono ?_
    rintro - s'' ⟨row, hrow, rfl⟩
    refine ⟨_, _, rfl, fun k hk => ?_⟩
    by_cases hki : k = i
    · subst hki
      simpa [show y < k by omega] using hrow
    · have := hrows k hk
      simp only [setRow_lineLengths, setRow_lines_ne hki, Function.update_of_ne hki]
      simpa only [show (y < k ∧ k < i + 1) ↔ (y < k ∧ k < i) by omega] using this
  · rintro - s' ⟨lines, lens, rfl, hrows⟩
    refine ⟨lines, lens, rfl, fun k hk => ?_⟩
    have := hrows k (by omega)
    simpa only [show (y < k ∧ k < n - 1) ↔ y < k by omega] using this

/-- The rows behind a line to be broken move down. -/
theorem moveDown_meets {n y : Nat} {f : Nat → β} (hn : n < maxLines) (hyn : y < n)
    (h : ∀ k < n, P (f k) (s.lines k) (s.lineLengths k)) {a b : Int} (ha : a = n) (hb : b = (y + 1 : Nat)) :
    Meets (forDown a b fun i => moveLine i (i - 1)) s fun _ s' => ∃ lines lens,
      s' = { s with lines := lines, lineLengths := lens } ∧
      ∀ k ≤ n, k ≠ y + 1 → P (if y < k then f (k - 1) else f k) (lines k) (lens k) := by
  refine (Meets.forDown (fun i s' => ∃ lines lens, s' = { s with lines := lines, lineLengths := lens } ∧
    ∀ k ≤ n, (k < n ∨ i < k) → P (if i < k then f (k - 1) else f k) (lines k) (lens k)) ha hb (by omega) ?_ ?_).mono
      ?_
  · refine ⟨s.lines, s.lineLengths, rfl, fun k hk hlt => ?_⟩
    rw [if_neg (by omega)]
    exact h k (by omega)
  · rintro i s' hi hle ⟨lines, lens, rfl, hrows⟩
    have hsrc := hrows (i - 1) (by omega) (by omega)
    rw [if_neg (by omega)] at hsrc
    refine (moveLine_meets hP (i := i) (k := i - 1) rfl (by omega) (by omega) (by omega) (by omega) hsrc).mono ?_
    rintro - s'' ⟨row, hrow, rfl⟩
    refine ⟨_, _, rfl, fun k hk hlt => ?_⟩
    by_cases hki : k = i
    · subst hki
      simpa [show k - 1 < k by omega] using hrow
    · have := hrows k hk (by omega)
      simp only [setRow_lineLengths, setRow_lines_ne hki, Function.update_of_ne hki]
      simpa only [show i - 1 < k ↔ i < k by omega] using this
  · rintro - s' ⟨lines, lens, rfl, hrows⟩
    refine ⟨lines, lens, rfl, fun k hk hne => ?_⟩
    by_cases hlt : y < k
    · have := hrows k hk (by omega)
      rw [if_pos (by omega)] at this
      rwa [if_pos hlt]
    · have := hrows k hk (by omega)
      rw [if_neg (by omega)] at this
      rwa [if_neg hlt]

end

/-- A row with a line can be moved. -/
theorem movable_line : Movable fun (l : List UInt8) row len => IsLine l ∧ RowIs row len l where
  terminated := by
    rintro l row len ⟨hl, hrow⟩
    refine ⟨l.length, hl.length, ?_⟩
    rw [hrow.byte _ (le_refl _), getD_length _ (le_refl _)]
  copied := by
    rintro l row row' len z ⟨hl, hrow⟩ hz hmin hcopy
    have hend : row l.length = 0 := by rw [hrow.byte _ (le_refl _), getD_length _ (le_refl _)]
    -- the terminator is where the line ends
    have hzl : l.length ≤ z := by
      by_contra hlt
      rw [hrow.byte z (by omega)] at hz
      exact hl.getD_ne (by omega) hz
    exact ⟨hl, hrow.length, fun m hm => (hcopy m (by omega)).trans (hrow.byte m hm)⟩

/-- The bytes of a line behind another. -/
theorem getD_append (l m : List UInt8) (j : Nat) :
    (l ++ m).getD j 0 = if j < l.length then l.getD j 0 else m.getD (j - l.length) 0 := by
  simp only [List.getD_eq_getElem?_getD, List.getElem?_append]
  split <;> rfl

/-- Joining two lines. -/
theorem joinLines_meets (htotal : s.totalLines = t.lines.length)
    (h : ∀ k < t.lines.length, RowIs (s.lines k) (s.lineLengths k) (t.line k)) {k : Nat}
    (hk : k + 1 < t.lines.length) (hfit : (t.line k).length + (t.line (k + 1)).length < maxLineLength) {y a b : Int}
    (hy : y = k) (ha : a = (t.line k).length) (hb : b = (t.line (k + 1)).length) :
    Meets (joinLines y a b) s fun _ s' => ∃ lines lens,
      s' = { s with lines := lines, lineLengths := lens, totalLines := s.totalLines - 1 } ∧
      ∀ m < t.lines.length - 1, RowIs (lines m) (lens m) ((t.join k hk hfit).line m) := by
  have hcount := t.count
  subst hy ha hb
  unfold joinLines
  refine (append_meets (s := s) (by omega) (by omega) (by omega : k ≠ k + 1) hfit rfl (by omega)).bind ?_
  rintro - s₁ rfl
  refine .step (setLength_run rfl (by omega) _) ?_
  refine .step (setChar_run rfl (by omega) (m := (t.line k).length + (t.line (k + 1)).length) (by omega) hfit 0) ?_
  refine .step get_run ?_
  -- the rows before the lines behind move up, row `k + 1` still in place
  set f : Nat → List UInt8 := fun m => if m = k then t.line k ++ t.line (k + 1) else t.line m with hf
  have hline : ∀ m < t.lines.length, IsLine (f m) := by
    intro m hm
    simp only [hf]
    split
    · exact Text.isLine_append (Text.isLine_line (by omega)) (Text.isLine_line hk) hfit
    · exact Text.isLine_line hm
  refine (moveUp_meets movable_line (n := t.lines.length) (y := k) (f := f) hcount hk ?_ (by omega)
    (by show s.totalLines - 1 = _; omega)).bind ?_
  · intro m hm
    refine ⟨hline m hm, ?_⟩
    have hrow := h m hm
    have hnext := h (k + 1) hk
    by_cases hmk : m = k
    · subst hmk
      simp only [hf, if_pos]
      refine ⟨by simp, fun j hj => ?_⟩
      rw [List.length_append] at hj
      rw [setRow_lines_self, setLen_lines, setRow_lines_self, Function.update_apply, getD_append]
      have h1 := hrow.byte j
      have h2 := hnext.byte (j - (t.line m).length) (by omega)
      have h3 : j = (t.line m).length + (t.line (m + 1)).length →
          (t.line (m + 1)).getD (j - (t.line m).length) 0 = 0 := by
        intro he
        rw [List.getD_eq_getElem?_getD, List.getElem?_eq_none (by omega)]
        rfl
      grind
    · simp only [hf, if_neg hmk]
      simp only [setLen_lines, setLen_lineLengths, setRow_lineLengths, setRow_lines_ne hmk,
        Function.update_of_ne hmk]
      exact hrow
  · rintro - s₂ ⟨lines, lens, rfl, hrows⟩
    refine .of_run (modify_run _) ⟨lines, lens, rfl, fun m hm => ?_⟩
    have := (hrows m hm).2
    rw [Text.line_join]
    simp only [hf] at this
    grind

end

end AltoniumOS.Nano

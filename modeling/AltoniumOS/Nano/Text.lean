/-
A text with a cursor, as the editor is meant to hold it: at least one line and at most 1000, each at most
199 bytes and without NUL, and the cursor in one of them or right behind it. The edits are those of a
list of lists; an edit that would leave these limits is not made.
-/
import AltoniumOS.Nano.Editor

namespace AltoniumOS.Nano

/-- What a line may be. -/
structure IsLine (l : List UInt8) : Prop where
  length : l.length < maxLineLength
  noNul : (0 : UInt8) ∉ l

@[ext] structure Text where
  lines : List (List UInt8)
  x : Nat
  y : Nat
  isLine : ∀ l ∈ lines, IsLine l
  count : lines.length ≤ maxLines
  y_lt : y < lines.length
  x_le : x ≤ (lines.getD y []).length

namespace Text

variable (t : Text)

def line (k : Nat) : List UInt8 := t.lines.getD k []

/-- The line with the cursor. -/
def cur : List UInt8 := t.line t.y

variable {t}

theorem line_mem {k : Nat} (h : k < t.lines.length) : t.line k ∈ t.lines := by
  unfold line
  rw [List.getD_eq_getElem?_getD, List.getElem?_eq_getElem h]
  exact List.getElem_mem h

theorem isLine_line {k : Nat} (h : k < t.lines.length) : IsLine (t.line k) := t.isLine _ (line_mem h)

theorem isLine_cur : IsLine t.cur := isLine_line t.y_lt

theorem x_le_cur : t.x ≤ t.cur.length := t.x_le

/-- Another line in place of the one with the cursor. -/
def setCur (t : Text) (l : List UInt8) (x : Nat) (hl : IsLine l) (hx : x ≤ l.length) : Text where
  lines := t.lines.set t.y l
  x := x
  y := t.y
  isLine m hm := by
    rcases List.mem_or_eq_of_mem_set hm with hm | rfl
    · exact t.isLine m hm
    · exact hl
  count := by
    rw [List.length_set]
    exact t.count
  y_lt := by
    rw [List.length_set]
    exact t.y_lt
  x_le := by
    have := t.y_lt
    simpa [List.getD_eq_getElem?_getD, List.getElem?_set, this] using hx

theorem isLine_erase {l : List UInt8} (h : IsLine l) (i : Nat) : IsLine (l.eraseIdx i) :=
  ⟨lt_of_le_of_lt (List.length_eraseIdx_le l i) h.length, fun h0 => h.noNul (List.mem_of_mem_eraseIdx h0)⟩

theorem isLine_take {l : List UInt8} (h : IsLine l) (n : Nat) : IsLine (l.take n) :=
  ⟨by rw [List.length_take]; have := h.length; omega, fun h0 => h.noNul (List.mem_of_mem_take h0)⟩

theorem isLine_drop {l : List UInt8} (h : IsLine l) (n : Nat) : IsLine (l.drop n) :=
  ⟨by rw [List.length_drop]; have := h.length; omega, fun h0 => h.noNul (List.mem_of_mem_drop h0)⟩

theorem isLine_append {l m : List UInt8} (hl : IsLine l) (hm : IsLine m)
    (h : l.length + m.length < maxLineLength) : IsLine (l ++ m) :=
  ⟨by rwa [List.length_append], fun h0 => (List.mem_append.1 h0).elim hl.noNul hm.noNul⟩

/-- A line with a character typed into it; what does not fit any more falls off its end. -/
def typed (l : List UInt8) (x : Nat) (c : UInt8) : List UInt8 := (l.insertIdx x c).take (maxLineLength - 1)

theorem isLine_typed {l : List UInt8} (h : IsLine l) {x : Nat} {c : UInt8} (hc : c ≠ 0) : IsLine (typed l x c) := by
  refine ⟨lt_of_le_of_lt (List.length_take_le ..) (by decide), fun h0 => ?_⟩
  have hmem := List.mem_of_mem_take h0
  by_cases hx : x ≤ l.length
  · rcases (List.mem_insertIdx hx).1 hmem with h1 | h1
    · exact hc h1.symm
    · exact h.noNul h1
  · rw [List.insertIdx_of_length_lt (by omega)] at hmem
    exact h.noNul hmem

theorem length_typed {l : List UInt8} {x : Nat} (hx : x ≤ l.length) (c : UInt8) :
    (typed l x c).length = min (l.length + 1) (maxLineLength - 1) := by
  unfold typed
  rw [List.length_take, List.length_insertIdx_of_le_length hx, Nat.min_comm]

/-- Type a character. -/
def insert (t : Text) (c : UInt8) (hc : c ≠ 0) : Text :=
  if h : t.x < maxLineLength - 1 then
    t.setCur (typed t.cur t.x c) (t.x + 1) (isLine_typed isLine_cur hc) (by
      have := t.x_le_cur
      rw [length_typed t.x_le_cur]
      omega)
  else t

/-- Erase the character at `i` of the line with the cursor. -/
def erase (t : Text) (i : Nat) (h : i < t.cur.length) : Text :=
  t.setCur (t.cur.eraseIdx i) i (isLine_erase isLine_cur i) (by
    rw [List.length_eraseIdx_of_lt h]
    omega)

/-- Join line `k + 1` to line `k`; the cursor stands where they meet. -/
def join (t : Text) (k : Nat) (h : k + 1 < t.lines.length)
    (hfit : (t.line k).length + (t.line (k + 1)).length < maxLineLength) : Text where
  lines := (t.lines.set k (t.line k ++ t.line (k + 1))).eraseIdx (k + 1)
  x := (t.line k).length
  y := k
  isLine m hm := by
    rcases List.mem_or_eq_of_mem_set (List.mem_of_mem_eraseIdx hm) with hm | rfl
    · exact t.isLine m hm
    · exact isLine_append (isLine_line (by omega)) (isLine_line h) hfit
  count := by
    have := t.count
    rw [List.length_eraseIdx_of_lt (by rwa [List.length_set]), List.length_set]
    omega
  y_lt := by
    rw [List.length_eraseIdx_of_lt (by rwa [List.length_set]), List.length_set]
    omega
  x_le := by
    have hk : k < t.lines.length := by omega
    have hget : ((t.lines.set k (t.line k ++ t.line (k + 1))).eraseIdx (k + 1)).getD k [] =
        t.line k ++ t.line (k + 1) := by
      rw [List.getD_eq_getElem?_getD, List.getElem?_eraseIdx_of_lt (by omega), List.getElem?_set_self hk]
      rfl
    rw [hget, List.length_append]
    omega

/-- Break the line at the cursor. -/
def split (t : Text) (h : t.lines.length < maxLines) : Text where
  lines := (t.lines.set t.y (t.cur.take t.x)).insertIdx (t.y + 1) (t.cur.drop t.x)
  x := 0
  y := t.y + 1
  isLine m hm := by
    have := t.y_lt
    rcases (List.mem_insertIdx (by rw [List.length_set]; omega)).1 hm with rfl | hm
    · exact isLine_drop isLine_cur _
    · rcases List.mem_or_eq_of_mem_set hm with hm | rfl
      · exact t.isLine m hm
      · exact isLine_take isLine_cur _
  count := by
    have := t.y_lt
    rw [List.length_insertIdx_of_le_length (by rw [List.length_set]; omega), List.length_set]
    omega
  y_lt := by
    have := t.y_lt
    rw [List.length_insertIdx_of_le_length (by rw [List.length_set]; omega), List.length_set]
    omega
  x_le := Nat.zero_le _

theorem line_setCur {l : List UInt8} {x : Nat} {hl : IsLine l} {hx : x ≤ l.length} (k : Nat) :
    (t.setCur l x hl hx).line k = if k = t.y then l else t.line k := by
  have := t.y_lt
  unfold line setCur
  simp only [List.getD_eq_getElem?_getD, List.getElem?_set]
  grind

theorem line_join {k : Nat} {h : k + 1 < t.lines.length}
    {hfit : (t.line k).length + (t.line (k + 1)).length < maxLineLength} (m : Nat) :
    (t.join k h hfit).line m = if m = k then t.line k ++ t.line (k + 1) else if m < k then t.line m
      else t.line (m + 1) := by
  have hk : k < t.lines.length := by omega
  show List.getD ((t.lines.set k (t.line k ++ t.line (k + 1))).eraseIdx (k + 1)) m [] = _
  simp only [List.getD_eq_getElem?_getD, List.getElem?_eraseIdx, List.getElem?_set]
  unfold line
  simp only [List.getD_eq_getElem?_getD]
  grind

theorem length_join {k : Nat} {h : k + 1 < t.lines.length}
    {hfit : (t.line k).length + (t.line (k + 1)).length < maxLineLength} :
    (t.join k h hfit).lines.length = t.lines.length - 1 := by
  show ((t.lines.set k _).eraseIdx (k + 1)).length = _
  rw [List.length_eraseIdx_of_lt (by rwa [List.length_set]), List.length_set]

theorem line_split {h : t.lines.length < maxLines} (m : Nat) :
    (t.split h).line m =
      if m = t.y then t.cur.take t.x else if m = t.y + 1 then t.cur.drop t.x else if m < t.y then t.line m
        else t.line (m - 1) := by
  have hy := t.y_lt
  show List.getD ((t.lines.set t.y (t.cur.take t.x)).insertIdx (t.y + 1) (t.cur.drop t.x)) m [] = _
  simp only [List.getD_eq_getElem?_getD, List.getElem?_insertIdx, List.getElem?_set, List.length_set]
  unfold line
  simp only [List.getD_eq_getElem?_getD]
  grind

theorem length_split {h : t.lines.length < maxLines} : (t.split h).lines.length = t.lines.length + 1 := by
  have hy := t.y_lt
  show ((t.lines.set t.y _).insertIdx (t.y + 1) _).length = _
  rw [List.length_insertIdx_of_le_length (by rw [List.length_set]; omega), List.length_set]

/-- Backspace. -/
def backspace (t : Text) : Text :=
  if hx : 0 < t.x then t.erase (t.x - 1) (by have := t.x_le_cur; omega)
  else if h : 0 < t.y ∧ (t.line (t.y - 1)).length + (t.line (t.y - 1 + 1)).length < maxLineLength then
    t.join (t.y - 1) (by have := t.y_lt; omega) h.2
  else t

/-- Delete. -/
def delete (t : Text) : Text :=
  if hx : t.x < t.cur.length then t.erase t.x hx
  else if h : t.y + 1 < t.lines.length ∧ (t.line t.y).length + (t.line (t.y + 1)).length < maxLineLength
    then t.join t.y h.1 h.2
  else t

/-- Enter. -/
def enter (t : Text) : Text := if h : t.lines.length < maxLines then t.split h else t

end Text

end AltoniumOS.Nano

/-
Byte buffers as functions of the index, the three things C code does with them (fill, copy,
read and write little-endian numbers), and their nibble view: nibble `j` of a buffer is half of
byte `j / 2`, low half first. A table of 12-bit numbers packed three nibbles each is, in nibbles,
a table of disjoint cells, and that is how it is reasoned about here.
-/
import Mathlib.Tactic

namespace AltoniumOS.Lib

/-- A C byte array, read through its index. -/
abbrev Buf := Nat → UInt8

namespace Buf

/-- `memset(b, v, n)`. -/
def fill (b : Buf) (v : UInt8) (n : Nat) : Buf := fun i => if i < n then v else b i

/-- `memcpy(b + off, src, n)`. -/
def blit (b : Buf) (off : Nat) (src : Buf) (n : Nat) : Buf :=
  fun i => if off ≤ i ∧ i < off + n then src (i - off) else b i

theorem fill_lt {b : Buf} {v : UInt8} {n i : Nat} (h : i < n) : b.fill v n i = v := if_pos h

theorem blit_in {b src : Buf} {off n i : Nat} (h : i < n) : b.blit off src n (off + i) = src i := by
  unfold blit
  rw [if_pos (by omega), Nat.add_sub_cancel_left]

theorem blit_out {b src : Buf} {off n i : Nat} (h : i < off ∨ off + n ≤ i) : b.blit off src n i = b i :=
  if_neg (by omega)

/-! ## Little-endian numbers -/

/-- The number in the `n` bytes from `off`, low byte first. -/
def le (b : Buf) (off : Nat) : Nat → Nat
  | 0 => 0
  | n + 1 => (b off).toNat + 256 * le b (off + 1) n

theorem le_lt (b : Buf) : ∀ (n off : Nat), b.le off n < 256 ^ n
  | 0, _ => by simp [le]
  | n + 1, off => by
    have h1 := le_lt b n (off + 1)
    have h2 := (b off).toNat_lt
    rw [le, Nat.pow_succ]
    omega

theorem le_congr {a b : Buf} : ∀ (n i j : Nat), (∀ k < n, a (i + k) = b (j + k)) → a.le i n = b.le j n
  | 0, _, _, _ => rfl
  | n + 1, i, j, h => by
    rw [le, le, show a i = b j from h 0 (by omega),
      le_congr n (i + 1) (j + 1) fun k hk => by
        have := h (k + 1) (by omega)
        rwa [← Nat.add_assoc, ← Nat.add_assoc, Nat.add_right_comm i, Nat.add_right_comm j] at this]

end Buf

/-- Byte `i` of the little-endian form of `v`. -/
def leByte (v i : Nat) : UInt8 := UInt8.ofNat (v / 256 ^ i % 256)

@[simp] theorem toNat_leByte (v i : Nat) : (leByte v i).toNat = v / 256 ^ i % 256 := by
  rw [leByte, UInt8.toNat_ofNat']
  exact Nat.mod_eq_of_lt (Nat.mod_lt _ (by decide))

/-- Reading back a number stored low byte first. -/
theorem le_of_leByte {b : Buf} (v : Nat) : ∀ (n k off : Nat), (∀ i < n, b (off + i) = leByte v (k + i)) →
    b.le off n = v / 256 ^ k % 256 ^ n
  | 0, k, off, _ => by simp [Buf.le, Nat.mod_one]
  | n + 1, k, off, h => by
    have ih := le_of_leByte v n (k + 1) (off + 1) fun i hi => by
      have := h (i + 1) (by omega)
      rwa [← Nat.add_assoc, ← Nat.add_assoc, Nat.add_right_comm off, Nat.add_right_comm k] at this
    have h0 : (b off).toNat = v / 256 ^ k % 256 := by rw [show b off = leByte v k from h 0 (by omega), toNat_leByte]
    rw [Buf.le, ih, h0, Nat.pow_succ, ← Nat.div_div_eq_div_mul, Nat.pow_succ' (n := n),
      Nat.mod_mul (x := v / 256 ^ k)]

/-! ## Nibbles -/

/-- Nibble `j` of a buffer, the low half of a byte before its high half. -/
def nib (b : Buf) (j : Nat) : Nat := if j % 2 = 0 then (b (j / 2)).toNat % 16 else (b (j / 2)).toNat / 16

theorem nib_lt (b : Buf) (j : Nat) : nib b j < 16 := by
  have := (b (j / 2)).toNat_lt
  unfold nib
  split <;> omega

theorem nib_even (b : Buf) (i : Nat) : nib b (2 * i) = (b i).toNat % 16 := by
  unfold nib
  rw [if_pos (by omega), show 2 * i / 2 = i by omega]

theorem nib_odd (b : Buf) (i : Nat) : nib b (2 * i + 1) = (b i).toNat / 16 := by
  unfold nib
  rw [if_neg (by omega), show (2 * i + 1) / 2 = i by omega]

theorem byte_eq_nibs (b : Buf) (i : Nat) : (b i).toNat = nib b (2 * i) + 16 * nib b (2 * i + 1) := by
  rw [nib_even, nib_odd]; omega

/-- Equal nibbles make an equal byte. -/
theorem byte_congr {a b : Buf} {i : Nat} (h0 : nib a (2 * i) = nib b (2 * i))
    (h1 : nib a (2 * i + 1) = nib b (2 * i + 1)) : a i = b i := by
  apply UInt8.toNat_inj.1
  rw [byte_eq_nibs, byte_eq_nibs, h0, h1]

theorem nib_congr {a b : Buf} {j : Nat} (h : a (j / 2) = b (j / 2)) : nib a j = nib b j := by
  unfold nib; rw [h]

/-- The 12-bit cell `c`: nibbles `3c`, `3c + 1` and `3c + 2`. -/
def cell (b : Buf) (c : Nat) : Nat := nib b (3 * c) + 16 * nib b (3 * c + 1) + 256 * nib b (3 * c + 2)

theorem cell_lt (b : Buf) (c : Nat) : cell b c < 4096 := by
  have := nib_lt b (3 * c)
  have := nib_lt b (3 * c + 1)
  have := nib_lt b (3 * c + 2)
  unfold cell; omega

theorem cell_congr {a b : Buf} {c : Nat} (h : ∀ j, j / 3 = c → nib a j = nib b j) : cell a c = cell b c := by
  unfold cell
  rw [h _ (by omega), h _ (by omega), h _ (by omega)]

/-- A cell determines its three nibbles. -/
theorem nib_of_cell_eq {a b : Buf} {c : Nat} (h : cell a c = cell b c) {j : Nat} (hj : j / 3 = c) :
    nib a j = nib b j := by
  have := nib_lt a (3 * c); have := nib_lt a (3 * c + 1); have := nib_lt a (3 * c + 2)
  have := nib_lt b (3 * c); have := nib_lt b (3 * c + 1); have := nib_lt b (3 * c + 2)
  unfold cell at h
  rcases (by omega : j = 3 * c ∨ j = 3 * c + 1 ∨ j = 3 * c + 2) with rfl | rfl | rfl <;> omega

/-- `b'` is `b` with cell `c` set to `v` (below `2^12`) and every other nibble kept. -/
structure CellSet (b b' : Buf) (c v : Nat) : Prop where
  self : cell b' c = v
  other : ∀ j, j / 3 ≠ c → nib b' j = nib b j

theorem CellSet.cell_ne {b b' : Buf} {c v x : Nat} (h : CellSet b b' c v) (hx : x ≠ c) : cell b' x = cell b x :=
  cell_congr fun j hj => h.other j (by omega)

/-- Setting a cell is determined by the buffer, the cell and the value. -/
theorem CellSet.unique {b b₁ b₂ : Buf} {c v : Nat} (h1 : CellSet b b₁ c v) (h2 : CellSet b b₂ c v) : b₁ = b₂ := by
  have key : ∀ j, nib b₁ j = nib b₂ j := fun j => by
    by_cases hj : j / 3 = c
    · exact nib_of_cell_eq (h1.self.trans h2.self.symm) hj
    · rw [h1.other j hj, h2.other j hj]
  exact funext fun i => byte_congr (key _) (key _)

/-- A cell lies in two bytes, the other bytes are kept. -/
theorem CellSet.byte_ne {b b' : Buf} {c v i : Nat} (h : CellSet b b' c v) (h0 : i ≠ c + c / 2)
    (h1 : i ≠ c + c / 2 + 1) : b' i = b i := byte_congr (h.other _ (by omega)) (h.other _ (by omega))

/-- Different cells may be set in either order. -/
theorem CellSet.comm {b b₁ b₂ b₁₂ b₂₁ : Buf} {c d v w : Nat} (hcd : c ≠ d) (h1 : CellSet b b₁ c v)
    (h12 : CellSet b₁ b₁₂ d w) (h2 : CellSet b b₂ d w) (h21 : CellSet b₂ b₂₁ c v) : b₁₂ = b₂₁ := by
  have key : ∀ j, nib b₁₂ j = nib b₂₁ j := fun j => by
    by_cases hd : j / 3 = d
    · rw [h21.other j (by omega)]
      exact nib_of_cell_eq (h12.self.trans h2.self.symm) hd
    · rw [h12.other j hd]
      by_cases hc : j / 3 = c
      · exact nib_of_cell_eq (h1.self.trans h21.self.symm) hc
      · rw [h21.other j hc, h1.other j hc, h2.other j hd]
  exact funext fun i => byte_congr (key _) (key _)

end AltoniumOS.Lib

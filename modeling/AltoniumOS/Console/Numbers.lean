/-
The number printing of `string.c`: the digits are put into a buffer of sixteen characters from the lowest on and
sent from the highest on. An access outside the buffer and an `int` that overflows are errors.
-/
import AltoniumOS.Console.Commands
import AltoniumOS.Lib.Checked
import AltoniumOS.Lib.Decimal

namespace AltoniumOS.Console.Numbers

open AltoniumOS.Lib

/-- The values of an `int`. -/
abbrev CInt := {z : Int // -2 ^ 31 ≤ z ∧ z < 2 ^ 31}

/-- `buffer`, and the characters handed to `console_putchar`, the first in front. -/
structure Printing where
  buffer : Buf
  sent : List UInt8

/-- What an operation on `int` gives, an error where it overflows. -/
def int (z : Int) : Checked Printing CInt := if h : -2 ^ 31 ≤ z ∧ z < 2 ^ 31 then pure ⟨z, h⟩ else accessError

def consolePutchar (c : UInt8) : Checked Printing Unit := modify fun s => { s with sent := s.sent ++ [c] }

def bufferSize : Nat := 16

/-- `while (value > 0 && pos < (int)sizeof(buffer))` -/
def digitLoop (value : UInt32) (pos : CInt) : Checked Printing CInt :=
  if value > 0 ∧ pos.1 < bufferSize then do
    let i ← index bufferSize pos.1
    modify fun s => { s with buffer := Function.update s.buffer i (0x30 + value % 10).toUInt8 }
    let pos ← int (pos.1 + 1)
    digitLoop (value / 10) pos
  else pure pos
termination_by value.toNat
decreasing_by
  rename_i h
  have hpos := UInt32.lt_iff_toNat_lt.1 h.1
  rw [UInt32.toNat_div]
  exact Nat.div_lt_self hpos (by decide)

/-- The body of `for (int i = pos - 1; i >= 0; i--)`. -/
def sendDigit (i : Int) : Checked Printing Unit := do
  let i ← index bufferSize i
  let s ← get
  consolePutchar (s.buffer i)

/-- `print_unsigned` -/
def printUnsigned (value : UInt32) : Checked Printing Unit :=
  if value = 0 then consolePutchar 0x30
  else do
    let pos ← digitLoop value ⟨0, by decide⟩
    let last ← int (pos.1 - 1)
    forDown last.1 (-1) sendDigit

/-- An `int` taken for a `uint32_t`. -/
def toUInt32 (z : CInt) : UInt32 := UInt32.ofNat (z.1 % 2 ^ 32).toNat

/-- `print_decimal` -/
def printDecimal (value : CInt) : Checked Printing Unit := do
  let magnitude ← if value.1 < 0 then do
      consolePutchar 0x2D
      let next ← int (value.1 + 1)
      let negated ← int (-next.1)
      pure (toUInt32 negated + 1)
    else pure (toUInt32 value)
  printUnsigned magnitude

/-! ## The characters in the buffer -/

/-- The `n` characters from `k`, the last of them in front. -/
def backwards (b : Buf) (k n : Nat) : List UInt8 := ((List.range' k n).map b).reverse

section

variable {b : Buf} {k n : Nat} {value : UInt32} {s : Printing}

theorem backwards_succ : backwards b k (n + 1) = backwards b (k + 1) n ++ [b k] := by
  simp [backwards, List.range'_succ]

theorem backwards_last : backwards b 0 (n + 1) = b n :: backwards b 0 n := by
  simp [backwards, List.range'_concat]

theorem int_run {z : Int} (h : -2 ^ 31 ≤ z ∧ z < 2 ^ 31) : int z s = some (⟨z, h⟩, s) := by
  unfold int
  rw [dif_pos h]
  rfl

/-- The character of the lowest digit. -/
theorem lowDigit (value : UInt32) : (0x30 + value % 10).toUInt8 = digit (value.toNat % 10) := by
  have hlt := Nat.mod_lt value.toNat (show 0 < 10 by decide)
  apply UInt8.toNat_inj.1
  rw [toNat_digit hlt, UInt32.toNat_toUInt8, UInt32.toNat_add, UInt32.toNat_mod]
  show (48 + value.toNat % 10) % 2 ^ 32 % 2 ^ 8 = _
  omega

/-- What the digit loop leaves: the digits of the value from `k` on, and nothing else changed. -/
structure Pushed (value : UInt32) (k : Nat) (s : Printing) (pos : CInt) (s' : Printing) : Prop where
  sent : s'.sent = s.sent
  below : ∀ i < k, s'.buffer i = s.buffer i
  digits : ∃ n, pos.1 = ((k + n : Nat) : Int) ∧ k + n ≤ bufferSize ∧
    backwards s'.buffer k n = if value = 0 then [] else numeral value.toNat

theorem toNat_div_ten (value : UInt32) : (value / 10).toNat = value.toNat / 10 := by
  rw [UInt32.toNat_div]
  rfl

/-- The lowest digit put in front of the others. -/
theorem Pushed.cons {pos : CInt} {s' : Printing} (hv : value ≠ 0)
    (h : Pushed (value / 10) (k + 1)
      { s with buffer := Function.update s.buffer k (0x30 + value % 10).toUInt8 } pos s') :
    Pushed value k s pos s' := by
  obtain ⟨hsent, hbelow, n, hpos, hle, hdigits⟩ := h
  have hself : s'.buffer k = digit (value.toNat % 10) := by
    rw [hbelow k (by omega)]
    exact (Function.update_self k _ _).trans (lowDigit value)
  have hkept : ∀ i < k, s'.buffer i = s.buffer i := by
    intro i hi
    rw [hbelow i (by omega)]
    exact Function.update_of_ne (by omega) _ _
  refine ⟨hsent, hkept, n + 1, by rw [hpos]; congr 1; omega, by omega, ?_⟩
  rw [backwards_succ, hdigits, hself, if_neg hv]
  by_cases hten : value.toNat < 10
  · have hz : value / 10 = 0 := UInt32.toNat_inj.1 ((toNat_div_ten value).trans (Nat.div_eq_of_lt hten))
    rw [if_pos hz, numeral_lt hten, List.nil_append, Nat.mod_eq_of_lt hten]
  · have hne : value / 10 ≠ 0 := by
      intro h0
      have hdiv := toNat_div_ten value
      rw [h0, UInt32.toNat_zero] at hdiv
      omega
    rw [if_neg hne, toNat_div_ten, ← numeral_ge (Nat.not_lt.1 hten)]

/-- A value of as many digits as there is room for is pushed as a whole. -/
theorem digitLoop_meets (m : Nat) : ∀ (value : UInt32) (pos : CInt) (k : Nat) (s : Printing), value.toNat = m →
    pos.1 = (k : Int) → k ≤ bufferSize → m < 10 ^ (bufferSize - k) →
    Meets (digitLoop value pos) s (Pushed value k s) := by
  induction m using Nat.strong_induction_on with
  | _ m ih =>
    intro value pos k s hm hpos hk hroom
    have hb : bufferSize = 16 := rfl
    unfold digitLoop
    by_cases hv : value = 0
    · rw [if_neg (by simp [hv])]
      apply Meets.pure
      refine ⟨rfl, fun _ _ => rfl, 0, hpos, hk, ?_⟩
      rw [if_pos hv]
      rfl
    · have hvpos : 0 < value.toNat := Nat.pos_of_ne_zero fun h0 => hv (UInt32.toNat_inj.1 h0)
      have hlt : k < bufferSize := by
        by_contra hge
        rw [show bufferSize - k = 0 by omega, Nat.pow_zero] at hroom
        omega
      have hroom' : value.toNat / 10 < 10 ^ (bufferSize - (k + 1)) := by
        rw [show bufferSize - k = bufferSize - (k + 1) + 1 by omega, Nat.pow_succ] at hroom
        omega
      rw [if_pos ⟨UInt32.lt_iff_toNat_lt.2 hvpos, by omega⟩, index_eq hpos hlt]
      apply Meets.step rfl
      apply Meets.step (modify_run _)
      apply Meets.step (int_run (by omega))
      refine (ih (value.toNat / 10) (by omega) (value / 10) ⟨pos.1 + 1, by omega⟩ (k + 1) _
        (toNat_div_ten value) (by push_cast; omega) (by omega) hroom').mono ?_
      exact fun _ _ h => h.cons hv

/-- The loop down to the first character sends them all, the last one first. -/
theorem sendLoop_meets : ∀ (n : Nat) (s : Printing), n ≤ bufferSize →
    Meets (downFrom sendDigit n ((n : Int) - 1)) s fun _ s' => s'.sent = s.sent ++ backwards s.buffer 0 n
  | 0, s, _ => .pure (List.append_nil _).symm
  | n + 1, s, hn => by
    have hi : ((n + 1 : Nat) : Int) - 1 = (n : Int) := by omega
    unfold downFrom
    rw [hi]
    have hsend : sendDigit n s = some ((), { s with sent := s.sent ++ [s.buffer n] }) := by
      unfold sendDigit
      rw [index_eq rfl hn]
      rfl
    apply Meets.step hsend
    refine (sendLoop_meets n _ (by omega)).mono fun _ s' h => ?_
    rw [h, backwards_last, List.append_assoc]
    rfl

end

/-! ## What is printed -/

theorem printUnsigned_meets (value : UInt32) (s : Printing) :
    Meets (printUnsigned value) s fun _ s' => s'.sent = s.sent ++ numeral value.toNat := by
  unfold printUnsigned
  split
  next h0 =>
    subst h0
    exact .of_run (modify_run _) rfl
  next hv =>
    have hroom : value.toNat < 10 ^ (bufferSize - 0) := value.toNat_lt.trans (by decide)
    refine (digitLoop_meets _ value ⟨0, by decide⟩ 0 s rfl rfl (by decide) hroom).bind ?_
    rintro pos s' ⟨hsent, -, n, hpos, hn, hdigits⟩
    rw [Nat.zero_add] at hpos hn
    have hb : bufferSize = 16 := rfl
    apply Meets.step (int_run (by omega))
    show Meets (downFrom sendDigit (pos.1 - 1 - -1).toNat (pos.1 - 1)) s' _
    rw [show (pos.1 - 1 - -1).toNat = n by omega, hpos]
    refine (sendLoop_meets n s' hn).mono fun _ t ht => ?_
    rw [ht, hsent, hdigits, if_neg hv]

/-- The magnitude is taken one above a negative `int`, where the lowest one has an opposite too. -/
theorem toNat_magnitude {z : CInt} (value : CInt) (h : value.1 < 0) (hz : z.1 = -(value.1 + 1)) :
    (toUInt32 z + 1).toNat = value.1.natAbs := by
  obtain ⟨hlo, -⟩ := value.2
  unfold toUInt32
  rw [UInt32.toNat_add, UInt32.toNat_ofNat', hz, UInt32.toNat_one]
  omega

theorem toNat_toUInt32 {value : CInt} (h : 0 ≤ value.1) : (toUInt32 value).toNat = value.1.natAbs := by
  obtain ⟨-, hhi⟩ := value.2
  unfold toUInt32
  rw [UInt32.toNat_ofNat']
  omega

/-- A minus sign for a number below zero. -/
def sign (value : CInt) : List UInt8 := if value.1 < 0 then [0x2D] else []

theorem printDecimal_meets (value : CInt) (s : Printing) :
    Meets (printDecimal value) s fun _ s' => s'.sent = s.sent ++ (sign value ++ numeral value.1.natAbs) := by
  obtain ⟨hlo, hhi⟩ := value.2
  unfold printDecimal sign
  by_cases h : value.1 < 0
  · rw [if_pos h, if_pos h]
    apply Meets.step (modify_run _)
    apply Meets.step (int_run (show -2 ^ 31 ≤ value.1 + 1 ∧ value.1 + 1 < 2 ^ 31 by omega))
    apply Meets.step (int_run (show -2 ^ 31 ≤ -(value.1 + 1) ∧ -(value.1 + 1) < 2 ^ 31 by omega))
    refine (printUnsigned_meets _ _).mono fun _ s' hs => ?_
    rw [hs, toNat_magnitude value h rfl, List.append_assoc]
  · rw [if_neg h, if_neg h]
    refine (printUnsigned_meets _ _).mono fun _ s' hs => ?_
    rw [hs, toNat_toUInt32 (Int.not_lt.1 h), List.nil_append]

/-- Every number is printed as its numeral, with a minus sign below zero, which reads back as the number; no
access is outside the buffer and nothing overflows. -/
theorem numbers_printed (s : Printing) :
    (∀ value : UInt32, Meets (printUnsigned value) s fun _ s' => ∃ digits, s'.sent = s.sent ++ digits ∧
      IsNumeral digits value.toNat) ∧ ∀ value : CInt, Meets (printDecimal value) s fun _ s' => ∃ digits,
        s'.sent = s.sent ++ (sign value ++ digits) ∧ IsNumeral digits value.1.natAbs ∧
        readSigned (sign value ++ digits) = some value.1 := by
  constructor
  · intro value
    exact (printUnsigned_meets value s).mono fun _ s' h => ⟨_, h, numeral_isNumeral _⟩
  · intro value
    refine (printDecimal_meets value s).mono fun _ s' h => ⟨_, h, numeral_isNumeral _, ?_⟩
    unfold sign
    split
    · rw [List.singleton_append, readSigned_minus (numeral_isNumeral _)]
      congr 1
      omega
    · rw [List.nil_append, readSigned_plain (numeral_isNumeral _)]
      congr 1
      omega

/-! ## The numbers in the output of the commands -/

theorem printUnsigned_output (value : Nat) : Console.printUnsigned value = (numeral value).map .putchar := by
  simp [Console.printUnsigned, numeral]

/-- What a command prints for a number is what `print_decimal` sends. -/
theorem printDecimal_output (value : CInt) : Meets (printDecimal value) ⟨fun _ => 0, []⟩ fun _ s' =>
    Console.printDecimal value.1 = s'.sent.map .putchar := by
  refine (printDecimal_meets value _).mono fun _ s' h => ?_
  rw [h]
  unfold Console.printDecimal sign
  split
  · simp [printUnsigned_output]
  · rw [show value.1.toNat = value.1.natAbs by omega]
    simp [printUnsigned_output]

end AltoniumOS.Console.Numbers

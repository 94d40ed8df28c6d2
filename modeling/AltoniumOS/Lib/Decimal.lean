/-
Decimal notation in ASCII: the numeral of a number, what makes a text one, and the reader that takes it back.
-/
import Mathlib.Tactic

namespace AltoniumOS.Lib

/-- The character of a digit. -/
def digit (d : Nat) : UInt8 := (48 + d).toUInt8

/-- A number in decimal notation. -/
def numeral (n : Nat) : List UInt8 := (Nat.toDigits 10 n).map fun c => c.toNat.toUInt8

def digitValue (c : UInt8) : Option Nat := if 48 ≤ c.toNat ∧ c.toNat ≤ 57 then some (c.toNat - 48) else none

/-- The digits of a text, read behind those that make `n`. -/
def readDigits : Nat → List UInt8 → Option Nat
  | n, [] => some n
  | n, c :: text => (digitValue c).bind fun d => readDigits (10 * n + d) text

def readNumeral (text : List UInt8) : Option Nat := if text = [] then none else readDigits 0 text

/-- A numeral, with a minus sign or without. -/
def readSigned (text : List UInt8) : Option Int :=
  if text.head? = some 0x2D then (readNumeral text.tail).map fun n => -(n : Int)
  else (readNumeral text).map fun n => (n : Int)

/-- The text is the number in decimal notation: digits, the first of them zero only where it is the only one. -/
structure IsNumeral (text : List UInt8) (n : Nat) : Prop where
  digits : ∀ c ∈ text, (digitValue c).isSome = true
  canonical : text.head? = some (digit 0) → text = [digit 0]
  value : readNumeral text = some n

/-! ## Digits -/

section

variable {d n : Nat} {text : List UInt8}

theorem toNat_digit (hd : d < 10) : (digit d).toNat = 48 + d := by
  unfold digit
  rw [UInt8.toNat_ofNat']
  omega

theorem digitValue_digit (hd : d < 10) : digitValue (digit d) = some d := by
  unfold digitValue
  rw [toNat_digit hd, if_pos (by omega), Nat.add_sub_cancel_left]

theorem digitChar_eq (hd : d < 10) : d.digitChar.toNat.toUInt8 = digit d := by
  unfold digit
  rw [Nat.toNat_digitChar_of_lt_ten hd, Nat.add_comm]

/-! ## The numeral of a number -/

theorem numeral_lt (h : n < 10) : numeral n = [digit n] := by
  unfold numeral
  rw [Nat.toDigits_of_lt_base h, List.map_singleton, digitChar_eq h]

theorem numeral_ge (h : 10 ≤ n) : numeral n = numeral (n / 10) ++ [digit (n % 10)] := by
  unfold numeral
  rw [Nat.toDigits_of_base_le (by omega) h, List.map_append, List.map_singleton,
    digitChar_eq (Nat.mod_lt n (by omega))]

theorem numeral_ne_nil (n : Nat) : numeral n ≠ [] := by simp [numeral]

theorem readDigits_append (m : Nat) (text rest : List UInt8) :
    readDigits m (text ++ rest) = (readDigits m text).bind fun n => readDigits n rest := by
  induction text generalizing m with
  | nil => rfl
  | cons c text ih =>
    show (digitValue c).bind _ = ((digitValue c).bind _).bind _
    rw [Option.bind_assoc]
    exact congrArg _ (funext fun d => ih (10 * m + d))

theorem readDigits_numeral (n : Nat) : readDigits 0 (numeral n) = some n := by
  induction n using Nat.strong_induction_on with
  | _ n ih =>
    by_cases h : n < 10
    · rw [numeral_lt h]
      simp [readDigits, digitValue_digit h]
    · have hd := Nat.mod_lt n (show 0 < 10 by omega)
      rw [numeral_ge (by omega), readDigits_append, ih (n / 10) (by omega)]
      simp only [Option.bind_some, readDigits, digitValue_digit hd]
      rw [Nat.div_add_mod]

/-- The first digit of a number above zero is one above zero. -/
theorem numeral_head (h : 0 < n) : ∃ d rest, numeral n = digit d :: rest ∧ 0 < d ∧ d < 10 := by
  induction n using Nat.strong_induction_on with
  | _ n ih =>
    by_cases hn : n < 10
    · exact ⟨n, [], numeral_lt hn, h, hn⟩
    · obtain ⟨d, rest, hr, hd⟩ := ih (n / 10) (by omega) (by omega)
      refine ⟨d, rest ++ [digit (n % 10)], ?_, hd⟩
      rw [numeral_ge (by omega), hr, List.cons_append]

theorem numeral_digits (n : Nat) : ∀ c ∈ numeral n, (digitValue c).isSome = true := by
  induction n using Nat.strong_induction_on with
  | _ n ih =>
    intro c hc
    by_cases h : n < 10
    · rw [numeral_lt h] at hc
      rw [List.mem_singleton.1 hc, digitValue_digit h]
      rfl
    · rw [numeral_ge (by omega)] at hc
      rcases List.mem_append.1 hc with hc | hc
      · exact ih (n / 10) (by omega) c hc
      · rw [List.mem_singleton.1 hc, digitValue_digit (Nat.mod_lt n (by omega))]
        rfl

/-- The numeral of a number is one, and of that number. -/
theorem numeral_isNumeral (n : Nat) : IsNumeral (numeral n) n := by
  constructor
  · exact numeral_digits n
  · intro hz
    rcases Nat.eq_zero_or_pos n with rfl | hn
    · exact numeral_lt (by omega)
    · obtain ⟨d, rest, hr, hpos, hlt⟩ := numeral_head hn
      rw [hr, List.head?_cons, Option.some.injEq] at hz
      have hd := congrArg UInt8.toNat hz
      rw [toNat_digit hlt, toNat_digit (by omega)] at hd
      omega
  · unfold readNumeral
    rw [if_neg (numeral_ne_nil n), readDigits_numeral]

/-! ## Signed numerals -/

theorem readSigned_minus (h : IsNumeral text n) : readSigned (0x2D :: text) = some (-(n : Int)) := by
  unfold readSigned
  rw [if_pos (by simp), List.tail_cons, h.value]
  rfl

theorem readSigned_plain (h : IsNumeral text n) : readSigned text = some (n : Int) := by
  have hplain : text.head? ≠ some 0x2D := by
    intro hm
    -- a minus sign is no digit
    exact absurd (h.digits 0x2D (List.mem_of_mem_head? hm)) (by decide)
  unfold readSigned
  rw [if_neg hplain, h.value]
  rfl

end

end AltoniumOS.Lib

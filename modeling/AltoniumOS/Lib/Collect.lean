/-
`for` loops that fill a list of limited length and end early once it is full. Nested in any way, they
collect what the loops without the limit would, cut at the limit.
-/
import Mathlib.Tactic

namespace AltoniumOS.Lib

variable {α σ : Type}

/-- `for (i = a; i < a + n && go(s); i++)` over a state `s`. -/
def forWhile (go : σ → Bool) (body : Nat → σ → σ) : Nat → Nat → σ → σ
  | 0, _, s => s
  | n + 1, i, s => if go s then forWhile go body n (i + 1) (body i s) else s

/-- `step` adds the `items` to a list, as far as there is room below `cap`. -/
def Collects (cap : Nat) (step : List α → List α) (items : List α) : Prop :=
  ∀ acc : List α, acc.length ≤ cap → step acc = (acc ++ items).take cap

variable {cap n a : Nat} {body : Nat → List α → List α} {items : Nat → List α}

/-- Cutting early does not change what is kept. -/
theorem take_append_take (l r : List α) (n : Nat) : (l.take n ++ r).take n = (l ++ r).take n := by
  rw [List.take_append, List.take_append, List.take_take, Nat.min_self, List.length_take]
  congr 2
  omega

/-- A loop collects what its rounds collect, in order. -/
theorem collects_forWhile (h : ∀ i, ∀ acc : List α, acc.length < cap → body i acc = (acc ++ items i).take cap) :
    ∀ (n a : Nat), Collects cap (forWhile (fun acc => decide (acc.length < cap)) body n a)
      ((List.range' a n).flatMap items)
  | 0, a, acc, hacc => by
    rw [List.range'_zero, List.flatMap_nil, List.append_nil, List.take_of_length_le hacc]
    rfl
  | n + 1, a, acc, hacc => by
    unfold forWhile
    by_cases hroom : acc.length < cap
    · have hlen : ((acc ++ items a).take cap).length ≤ cap := List.length_take_le ..
      rw [if_pos (decide_eq_true hroom), h a acc hroom, collects_forWhile h n (a + 1) _ hlen, take_append_take,
        List.append_assoc, List.range'_succ, List.flatMap_cons]
    · have hfull : acc.length = cap := by omega
      rw [if_neg (by rw [decide_eq_true_iff]; exact hroom), ← hfull, List.take_left]

end AltoniumOS.Lib

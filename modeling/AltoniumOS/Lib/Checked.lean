/-
Programs whose array accesses are checked, over any state: a state monad whose only failure is an access
out of bounds.

`Meets m s Q`: the program `m`, started in `s`, accesses nothing out of bounds and ends with a result and
a state for which `Q` holds. `Ends m s Q`: if it accesses nothing out of bounds, then it ends so.
-/
import Mathlib.Tactic

namespace AltoniumOS.Lib

/-- Programs over the state `σ` with checked accesses. -/
abbrev Checked (σ : Type) := StateT σ Option

section

variable {σ α β : Type}

/-- An access out of bounds. -/
def accessError : Checked σ α := fun _ => none

/-- The index `i` of an array of `bound` elements. -/
def index (bound : Nat) (i : Int) : Checked σ Nat := if 0 ≤ i ∧ i < bound then pure i.toNat else accessError

/-- `for (int i = a; ...; i++)`, for `n` rounds. -/
def upFrom (body : Int → Checked σ Unit) : Nat → Int → Checked σ Unit
  | 0, _ => pure ()
  | n + 1, i => do
    body i
    upFrom body n (i + 1)

/-- `for (int i = a; i < b; i++)` -/
def forUp (a b : Int) (body : Int → Checked σ Unit) : Checked σ Unit := upFrom body (b - a).toNat a

/-- `for (int i = a; ...; i--)`, for `n` rounds. -/
def downFrom (body : Int → Checked σ Unit) : Nat → Int → Checked σ Unit
  | 0, _ => pure ()
  | n + 1, i => do
    body i
    downFrom body n (i - 1)

/-- `for (int i = a; i > b; i--)` -/
def forDown (a b : Int) (body : Int → Checked σ Unit) : Checked σ Unit := downFrom body (a - b).toNat a

/-! ## Total correctness -/

def Meets (m : Checked σ α) (s : σ) (Q : α → σ → Prop) : Prop := ∃ a s', m s = some (a, s') ∧ Q a s'

variable {m : Checked σ α} {f : α → Checked σ β} {s s' : σ} {a : α} {Q : α → σ → Prop} {R : β → σ → Prop}

theorem bind_run_some (h : m s = some (a, s')) : (m >>= f) s = f a s' := by
  show (m s).bind _ = _
  rw [h]
  rfl

theorem Meets.of_run (h : m s = some (a, s')) (hq : Q a s') : Meets m s Q := ⟨a, s', h, hq⟩

theorem Meets.pure (h : Q a s) : Meets (pure a) s Q := ⟨a, s, rfl, h⟩

/-- The first part run, the rest is left. -/
theorem Meets.step (h : m s = some (a, s')) (hf : Meets (f a) s' R) : Meets (m >>= f) s R := by
  obtain ⟨b, s'', h', hr⟩ := hf
  exact ⟨b, s'', (bind_run_some h).trans h', hr⟩

theorem Meets.bind (h : Meets m s Q) (hf : ∀ a s', Q a s' → Meets (f a) s' R) : Meets (m >>= f) s R := by
  obtain ⟨a, s', h, hq⟩ := h
  exact .step h (hf a s' hq)

theorem Meets.mono {Q' : α → σ → Prop} (h : Meets m s Q) (hq : ∀ a s', Q a s' → Q' a s') : Meets m s Q' := by
  obtain ⟨a, s', h, h'⟩ := h
  exact ⟨a, s', h, hq a s' h'⟩

/-- The state after a run. -/
def endOf (m : Checked σ α) (s : σ) : σ := ((m s).map Prod.snd).getD s

theorem eq_endOf (h : m s = some (a, s')) : s' = endOf m s := by
  unfold endOf
  rw [h]
  rfl

theorem run_endOf {m : Checked σ Unit} (h : (m s).isSome = true) : m s = some ((), endOf m s) := by
  obtain ⟨⟨⟨⟩, s'⟩, hs⟩ := Option.isSome_iff_exists.1 h
  unfold endOf
  rw [hs]
  rfl

theorem get_run : (get : Checked σ σ) s = some (s, s) := rfl

theorem modify_run (g : σ → σ) : (modify g : Checked σ Unit) s = some ((), g s) := rfl

theorem index_eq {bound k : Nat} {i : Int} (hi : i = k) (hk : k < bound) :
    (index bound i : Checked σ Nat) = Pure.pure k := by
  subst hi
  unfold index
  rw [if_pos (by omega), Int.toNat_natCast]

/-! ## Loops -/

theorem Meets.upFrom (body : Int → Checked σ Unit) (I : Nat → σ → Prop) : ∀ {n k : Nat} {s : σ}, I k s →
    (∀ i s, k ≤ i → i < k + n → I i s → Meets (body (i : Int)) s fun _ => I (i + 1)) →
    Meets (upFrom body n (k : Int)) s fun _ => I (k + n)
  | 0, _, _, h0, _ => .pure h0
  | n + 1, k, s, h0, hstep => by
    refine (hstep k s (Nat.le_refl k) (by omega) h0).bind fun _ s' h1 => ?_
    have hrest := Meets.upFrom body I (n := n) h1 fun i s hi hlt => hstep i s (by omega) (by omega)
    rw [show k + 1 + n = k + (n + 1) by omega] at hrest
    exact hrest

/-- A loop up, by what holds before each round. -/
theorem Meets.forUp {body : Int → Checked σ Unit} {a b : Int} (I : Nat → σ → Prop) {j k : Nat} (ha : a = j)
    (hb : b = k) (hjk : j ≤ k) (h0 : I j s)
    (hstep : ∀ i s, j ≤ i → i < k → I i s → Meets (body (i : Int)) s fun _ => I (i + 1)) :
    Meets (forUp a b body) s fun _ => I k := by
  subst ha hb
  unfold Lib.forUp
  rw [show ((k : Int) - j).toNat = k - j by omega]
  have hloop := Meets.upFrom body I (n := k - j) h0 fun i s hi hlt => hstep i s hi (by omega)
  rwa [show j + (k - j) = k by omega] at hloop

theorem Meets.downFrom (body : Int → Checked σ Unit) (I : Nat → σ → Prop) : ∀ {n k : Nat} {s : σ}, I (k + n) s →
    (∀ i s, k < i → i ≤ k + n → I i s → Meets (body (i : Int)) s fun _ => I (i - 1)) →
    Meets (downFrom body n ((k + n : Nat) : Int)) s fun _ => I k
  | 0, _, _, h0, _ => .pure h0
  | n + 1, k, s, h0, hstep => by
    refine (hstep (k + (n + 1)) s (by omega) (Nat.le_refl _) h0).bind fun _ s' h1 => ?_
    have hrest := Meets.downFrom body I (n := n) h1 fun i s hi hlt => hstep i s hi (by omega)
    rw [show ((k + (n + 1) : Nat) : Int) - 1 = ((k + n : Nat) : Int) by omega]
    exact hrest

/-- A loop down, by what holds before each round. -/
theorem Meets.forDown {body : Int → Checked σ Unit} {a b : Int} (I : Nat → σ → Prop) {j k : Nat} (ha : a = k)
    (hb : b = j) (hjk : j ≤ k) (h0 : I k s)
    (hstep : ∀ i s, j < i → i ≤ k → I i s → Meets (body (i : Int)) s fun _ => I (i - 1)) :
    Meets (forDown a b body) s fun _ => I j := by
  subst ha hb
  unfold Lib.forDown
  have hk : k = j + (k - j) := by omega
  rw [show ((k : Int) - j).toNat = k - j by omega, hk, show j + (k - j) - j = k - j by omega]
  rw [hk] at h0
  exact Meets.downFrom body I h0 fun i s hi hlt => hstep i s hi (by omega)

/-! ## Partial correctness -/

def Ends (m : Checked σ α) (s : σ) (Q : α → σ → Prop) : Prop := ∀ a s', m s = some (a, s') → Q a s'

theorem Ends.pure (h : Q a s) : Ends (pure a) s Q := by
  rintro _ _ ⟨⟩
  exact h

theorem Ends.error : Ends (accessError : Checked σ α) s Q := by
  rintro _ _ ⟨⟩

theorem Ends.of_run (h : m s = some (a, s')) (hq : Q a s') : Ends m s Q := by
  intro b s'' hb
  cases h.symm.trans hb
  exact hq

/-- The first part run, the rest is left. -/
theorem Ends.step (h : m s = some (a, s')) (hf : Ends (f a) s' R) : Ends (m >>= f) s R := by
  intro b s'' hb
  rw [bind_run_some h] at hb
  exact hf b s'' hb

theorem Ends.bind (h : Ends m s Q) (hf : ∀ a s', Q a s' → Ends (f a) s' R) : Ends (m >>= f) s R := by
  intro b s'' hb
  cases hm : m s with
  | none =>
    have hnone : (m >>= f) s = none := by
      show (m s).bind _ = _
      rw [hm]
      rfl
    cases hnone.symm.trans hb
  | some r =>
    obtain ⟨a, s'⟩ := r
    rw [bind_run_some hm] at hb
    exact hf a s' (h a s' hm) b s'' hb

theorem Ends.mono {Q' : α → σ → Prop} (h : Ends m s Q) (hq : ∀ a s', Q a s' → Q' a s') : Ends m s Q' :=
  fun a s' hm => hq a s' (h a s' hm)

theorem Ends.index (bound : Nat) (i : Int) : Ends (index bound i : Checked σ Nat) s fun k s' => s' = s ∧ i = k := by
  unfold Lib.index
  split
  · apply Ends.pure
    exact ⟨rfl, by omega⟩
  · exact .error

theorem Ends.upFrom {body : Int → Checked σ Unit} {I : σ → Prop} (hstep : ∀ i s, I s → Ends (body i) s fun _ => I) :
    ∀ {n : Nat} {i : Int} {s : σ}, I s → Ends (upFrom body n i) s fun _ => I
  | 0, _, _, h => .pure h
  | _ + 1, i, s, h => (hstep i s h).bind fun _ _ h' => Ends.upFrom hstep h'

theorem Ends.forUp {body : Int → Checked σ Unit} {I : σ → Prop} {i j : Int}
    (hstep : ∀ i s, I s → Ends (body i) s fun _ => I) (h : I s) : Ends (forUp i j body) s fun _ => I :=
  Ends.upFrom hstep h

theorem Ends.downFrom {body : Int → Checked σ Unit} {I : σ → Prop}
    (hstep : ∀ i s, I s → Ends (body i) s fun _ => I) :
    ∀ {n : Nat} {i : Int} {s : σ}, I s → Ends (downFrom body n i) s fun _ => I
  | 0, _, _, h => .pure h
  | _ + 1, i, s, h => (hstep i s h).bind fun _ _ h' => Ends.downFrom hstep h'

theorem Ends.forDown {body : Int → Checked σ Unit} {I : σ → Prop} {i j : Int}
    (hstep : ∀ i s, I s → Ends (body i) s fun _ => I) (h : I s) : Ends (forDown i j body) s fun _ => I :=
  Ends.downFrom hstep h

/-- A program that ends, ends as every end of it does. -/
theorem Meets.and_ends {R : α → σ → Prop} (h : Meets m s Q) (h' : Ends m s R) :
    Meets m s fun a s' => Q a s' ∧ R a s' := by
  obtain ⟨a, s', hm, hq⟩ := h
  exact ⟨a, s', hm, hq, h' a s' hm⟩

end

end AltoniumOS.Lib

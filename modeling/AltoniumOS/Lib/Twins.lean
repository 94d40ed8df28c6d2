/-
Two runs side by side. `Twins ρ R m m'`: from states related by `ρ` the programs `m` and `m'` both return
or both run out of fuel, what they return is related by `R`, and the states they end in by `ρ` again. With
`ρ` equality up to some scratch, `Twins ρ Eq m m` says that `m` does not see the scratch.
-/
import AltoniumOS.Lib.Exec

namespace AltoniumOS.Lib

/-- Two runs that ended the same way. -/
inductive Paired {σ α β : Type} (ρ : σ → σ → Prop) (R : α → β → Prop) :
    EStateM.Result OutOfFuel σ α → EStateM.Result OutOfFuel σ β → Prop
  | ok {a : α} {b : β} {s t : σ} : R a b → ρ s t → Paired ρ R (.ok a s) (.ok b t)
  | error {e e' : OutOfFuel} {s t : σ} : ρ s t → Paired ρ R (.error e s) (.error e' t)

/-- From related states the runs of `m` and `m'` end the same way. -/
def Twins {σ α β : Type} (ρ : σ → σ → Prop) (R : α → β → Prop) (m : Exec σ α) (m' : Exec σ β) : Prop :=
  ∀ s t, ρ s t → Paired ρ R (m s) (m' t)

section Twins

variable {σ α α' β β' ι ι' : Type} {ρ : σ → σ → Prop} {R : α → α' → Prop} {Q Q' : β → β' → Prop}

theorem Twins.pure {b : β} {b' : β'} (h : Q b b') : Twins ρ Q (Pure.pure b : Exec σ β) (Pure.pure b' : Exec σ β') :=
  fun _ _ hs => .ok h hs

theorem Twins.throw (e e' : OutOfFuel) : Twins ρ Q (throw e : Exec σ β) (throw e' : Exec σ β') :=
  fun _ _ hs => .error hs

theorem Twins.bind {x : Exec σ α} {x' : Exec σ α'} {f : α → Exec σ β} {f' : α' → Exec σ β'} (hx : Twins ρ R x x')
    (hf : ∀ a a', R a a' → Twins ρ Q (f a) (f' a')) : Twins ρ Q (x >>= f) (x' >>= f') := by
  intro s t hs
  rw [bind_run, bind_run]
  have h := hx s t hs
  revert h
  generalize x s = r
  generalize x' t = r'
  intro h
  cases h with
  | ok ha hs' => exact hf _ _ ha _ _ hs'
  | error hs' => exact .error hs'

/-- The same first part, returning the same. -/
theorem Twins.bind_eq {x : Exec σ α} {f f' : α → Exec σ β} {Q : β → β → Prop} (hx : Twins ρ Eq x x)
    (hf : ∀ a, Twins ρ Q (f a) (f' a)) : Twins ρ Q (x >>= f) (x >>= f') := hx.bind fun a a' ha => by
  subst ha
  exact hf a

theorem Twins.mono {m : Exec σ β} {m' : Exec σ β'} (h : Twins ρ Q m m') (hq : ∀ b b', Q b b' → Q' b b') :
    Twins ρ Q' m m' := by
  intro s t hs
  have := h s t hs
  revert this
  generalize m s = r
  generalize m' t = r'
  intro h
  cases h with
  | ok hb hs' => exact .ok (hq _ _ hb) hs'
  | error hs' => exact .error hs'

/-- How the rounds of two loops match: both go on, or both end. -/
def RoundsMatch (L : ι → ι' → Prop) (Q : β → β' → Prop) : ι ⊕ β → ι' ⊕ β' → Prop
  | .inl i, .inl i' => L i i'
  | .inr b, .inr b' => Q b b'
  | _, _ => False

theorem Twins.loop {body : ι → Exec σ (ι ⊕ β)} {body' : ι' → Exec σ (ι' ⊕ β')} {L : ι → ι' → Prop}
    (h : ∀ i i', L i i' → Twins ρ (RoundsMatch L Q) (body i) (body' i')) :
    ∀ (fuel : Nat) (i : ι) (i' : ι'), L i i' → Twins ρ Q (Lib.loop body fuel i) (Lib.loop body' fuel i')
  | 0, _, _, _ => .throw _ _
  | fuel + 1, i, i', hi => by
    rw [Lib.loop, Lib.loop]
    refine (h i i' hi).bind fun r r' hr => ?_
    cases r with
    | inl j =>
      cases r' with
      | inl j' => exact Twins.loop h fuel j j' hr
      | inr b' => exact hr.elim
    | inr b =>
      cases r' with
      | inl j' => exact hr.elim
      | inr b' => exact .pure hr

/-- One loop, run twice. -/
theorem Twins.loop_eq {body : ι → Exec σ (ι ⊕ β)} (h : ∀ i, Twins ρ Eq (body i) (body i)) (fuel : Nat) (i : ι) :
    Twins ρ Eq (Lib.loop body fuel i) (Lib.loop body fuel i) := by
  refine Twins.loop (L := Eq) (fun i i' hi => ?_) fuel i i rfl
  subst hi
  refine (h i).mono fun r r' hr => ?_
  subst hr
  cases r with
  | inl j => rfl
  | inr b => rfl

end Twins

end AltoniumOS.Lib

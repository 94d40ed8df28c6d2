/-
Programs with loops that may not end, over any state: a state monad whose only exception is running out of fuel,
and a `while` loop run for a given number of rounds. The state is kept when the fuel ends, so a program that
never returns is still seen round by round.

Four judgements carry the proofs. `Ensures I Q m`: every run of `m`, ended or not, preserves `I`, and what it
returns is in `Q`. `Carries P J Q m`: every run of `m` from a state in `P` ends in `J`, and if it returns, what
it returns and the state are in `Q`. `Arrives P Q m`: it does return. `Yields π G m t a t'`: from any state with
projection `t` on which `G` holds, `m` returns `a` in a state with projection `t'` on which `G` still holds;
what `π` forgets is scratch.
-/
import Mathlib.Tactic

namespace AltoniumOS.Lib

/-- The one way a program can fail to return: a loop was still running when its fuel ended. -/
inductive OutOfFuel where
  | outOfFuel
  deriving DecidableEq, Repr

/-- Programs over the state `σ`. -/
abbrev Exec (σ : Type) := EStateM OutOfFuel σ

/-- The state a run ends in, whether it returned or not. -/
def endState {σ α : Type} : EStateM.Result OutOfFuel σ α → σ
  | .ok _ s => s
  | .error _ s => s

@[simp] theorem endState_ok {σ α : Type} (a : α) (s : σ) : endState (.ok a s : EStateM.Result OutOfFuel σ α) = s :=
  rfl

/-- What a run returned, if it did. -/
def returned {σ α : Type} : EStateM.Result OutOfFuel σ α → Option α
  | .ok a _ => some a
  | .error _ _ => none

theorem eq_ok_of_returned {σ α : Type} {r : EStateM.Result OutOfFuel σ α} {a : α} (h : returned r = some a) :
    r = .ok a (endState r) := by
  cases r with
  | ok b s =>
    cases h
    rfl
  | error e s => cases h

section Bind

variable {σ α β : Type}

theorem bind_run (x : Exec σ α) (f : α → Exec σ β) (s : σ) :
    (x >>= f) s = match x s with
      | .ok a s' => f a s'
      | .error e s' => .error e s' := by
  show EStateM.bind x f s = _
  unfold EStateM.bind
  cases x s <;> rfl

theorem bind_ok {x : Exec σ α} {f : α → Exec σ β} {s s' : σ} {a : α} (h : x s = .ok a s') :
    (x >>= f) s = f a s' := by
  rw [bind_run, h]

theorem bind_error {x : Exec σ α} {f : α → Exec σ β} {s s' : σ} {e : OutOfFuel} (h : x s = .error e s') :
    (x >>= f) s = .error e s' := by
  rw [bind_run, h]

/-- A sequence that returned ran its first part to the end. -/
theorem bind_eq_ok {x : Exec σ α} {f : α → Exec σ β} {s s'' : σ} {b : β} (h : (x >>= f) s = .ok b s'') :
    ∃ a s', x s = .ok a s' ∧ f a s' = .ok b s'' := by
  rw [bind_run] at h
  split at h
  · rename_i a s' hx; exact ⟨a, s', hx, h⟩
  · cases h

end Bind

/-! ## The loop -/

/-- `while`: rounds of `body` until it answers `.inr`, at most `fuel` of them. -/
def loop {σ ι β : Type} (body : ι → Exec σ (ι ⊕ β)) : Nat → ι → Exec σ β
  | 0, _ => throw .outOfFuel
  | fuel + 1, i => do
    match ← body i with
    | .inl i' => loop body fuel i'
    | .inr b => pure b

section Loop

variable {σ ι β : Type} {body : ι → Exec σ (ι ⊕ β)}

theorem loop_next {fuel : Nat} {i i' : ι} {s s' : σ} (h : body i s = .ok (.inl i') s') :
    loop body (fuel + 1) i s = loop body fuel i' s' := by
  rw [loop, bind_ok h]

theorem loop_done {fuel : Nat} {i : ι} {b : β} {s s' : σ} (h : body i s = .ok (.inr b) s') :
    loop body (fuel + 1) i s = .ok b s' := by
  rw [loop, bind_ok h]; rfl

theorem loop_body_error {fuel : Nat} {i : ι} {e : OutOfFuel} {s s' : σ} (h : body i s = .error e s') :
    loop body (fuel + 1) i s = .error e s' := by
  rw [loop, bind_error h]

/-- More fuel does not change a result. -/
theorem loop_mono : ∀ {fuel : Nat} (k : Nat) {i : ι} {b : β} {s s' : σ},
    loop body fuel i s = .ok b s' → loop body (fuel + k) i s = .ok b s'
  | 0, _, _, _, _, _, h => by cases h
  | fuel + 1, k, i, b, s, s', h => by
    rw [Nat.add_right_comm]
    cases hb : body i s with
    | ok r s₁ =>
      cases r with
      | inl i' => rw [loop_next hb] at h ⊢; exact loop_mono k h
      | inr b' => rw [loop_done hb] at h ⊢; exact h
    | error e s₁ => rw [loop_body_error hb] at h; cases h

end Loop

/-! ## Invariants and results of every run -/

/-- Every run of `m` from a state in `I` ends in `I`, whether it returns or runs out of fuel, and what it
returns is in `Q`. -/
def Ensures {σ α : Type} (I : σ → Prop) (Q : α → Prop) (m : Exec σ α) : Prop :=
  ∀ s, I s → I (endState (m s)) ∧ ∀ a s', m s = .ok a s' → Q a

/-- `I` is an invariant of `m`. -/
abbrev Keeps {σ α : Type} (I : σ → Prop) (m : Exec σ α) : Prop := Ensures I (fun _ => True) m

/-- Whatever the state, what `m` returns is in `Q`. -/
abbrev Returns {σ α : Type} (Q : α → Prop) (m : Exec σ α) : Prop := Ensures (fun _ => True) Q m

section Ensures

variable {σ α β ι : Type} {I : σ → Prop} {Q Q' : β → Prop} {R : α → Prop}

theorem Ensures.pure {b : β} (h : Q b) : Ensures I Q (pure b : Exec σ β) :=
  fun _ hs => ⟨hs, fun _ _ hr => by cases hr; exact h⟩

theorem Ensures.throw (e : OutOfFuel) : Ensures I Q (throw e : Exec σ β) :=
  fun _ hs => ⟨hs, fun _ _ hr => nomatch hr⟩

theorem Ensures.bind {x : Exec σ α} {f : α → Exec σ β} (hx : Ensures I R x) (hf : ∀ a, R a → Ensures I Q (f a)) :
    Ensures I Q (x >>= f) := by
  intro s hs
  obtain ⟨h1, h2⟩ := hx s hs
  rw [bind_run]
  cases h : x s with
  | ok a s' => rw [h] at h1; exact hf a (h2 a s' h) s' h1
  | error e s' => rw [h] at h1; exact ⟨h1, fun _ _ hr => nomatch hr⟩

theorem Ensures.mono {m : Exec σ β} (h : Ensures I Q m) (hq : ∀ b, Q b → Q' b) : Ensures I Q' m :=
  fun s hs => ⟨(h s hs).1, fun b s' hr => hq b ((h s hs).2 b s' hr)⟩

/-- A run that returned. -/
theorem Ensures.ok {m : Exec σ β} (h : Ensures I Q m) {s s' : σ} {b : β} (hs : I s)
    (hm : m s = .ok b s') : I s' ∧ Q b := by
  obtain ⟨h1, h2⟩ := h s hs
  rw [hm] at h1
  exact ⟨h1, h2 b s' hm⟩

/-- A loop whose rounds go from indices in `L` to indices in `L`. -/
theorem Ensures.loop_of {body : ι → Exec σ (ι ⊕ β)} {L : ι → Prop} (h : ∀ i, L i → Ensures I (fun r => match r with
      | .inl i' => L i'
      | .inr b => Q b) (body i)) :
    ∀ (fuel : Nat) (i : ι), L i → Ensures I Q (Lib.loop body fuel i)
  | 0, _, _ => .throw _
  | fuel + 1, i, hi => by
    rw [Lib.loop]
    refine (h i hi).bind fun r hr => ?_
    cases r with
    | inl i' => exact Ensures.loop_of h fuel i' hr
    | inr b => exact .pure hr

theorem Ensures.loop {body : ι → Exec σ (ι ⊕ β)} (h : ∀ i, Ensures I (fun r => ∀ b, r = .inr b → Q b) (body i))
    (fuel : Nat) (i : ι) : Ensures I Q (Lib.loop body fuel i) := by
  refine Ensures.loop_of (L := fun _ => True) (fun i _ => (h i).mono fun r hr => ?_) fuel i trivial
  cases r with
  | inl _ => trivial
  | inr b => exact hr b rfl

theorem Keeps.bind {x : Exec σ α} {f : α → Exec σ β} (hx : Keeps I x) (hf : ∀ a, Ensures I Q (f a)) :
    Ensures I Q (x >>= f) :=
  Ensures.bind hx fun a _ => hf a

theorem Keeps.loop {body : ι → Exec σ (ι ⊕ β)} (h : ∀ i, Keeps I (body i)) (fuel : Nat) (i : ι) :
    Keeps I (Lib.loop body fuel i) :=
  Ensures.loop (fun i => (h i).mono fun _ _ _ _ => trivial) fuel i

theorem Returns.bind {x : Exec σ α} {f : α → Exec σ β} (hf : ∀ a, Returns Q (f a)) : Returns Q (x >>= f) :=
  Keeps.bind (fun _ _ => ⟨trivial, fun _ _ _ => trivial⟩) hf

end Ensures

/-! ## Pre- and postconditions -/

/-- Every run of `m` from a state in `P` ends in `J`, whether it returns or runs out of fuel; if it returns,
what it returns and the state it ends in are in `Q`. -/
def Carries {σ α : Type} (P J : σ → Prop) (Q : α → σ → Prop) (m : Exec σ α) : Prop :=
  ∀ s, P s → J (endState (m s)) ∧ ∀ a s', m s = .ok a s' → Q a s'

section Carries

variable {σ α β ι : Type} {P P' I J : σ → Prop} {R : α → σ → Prop} {Q Q' : β → σ → Prop}

theorem Carries.pure {b : β} (h : ∀ s, P s → J s ∧ Q b s) : Carries P J Q (pure b : Exec σ β) := by
  intro s hs
  obtain ⟨h1, h2⟩ := h s hs
  exact ⟨h1, fun _ _ hr => by cases hr; exact h2⟩

theorem Carries.bind {x : Exec σ α} {f : α → Exec σ β} (hx : Carries P J R x) (hf : ∀ a, Carries (R a) J Q (f a)) :
    Carries P J Q (x >>= f) := by
  intro s hs
  obtain ⟨h1, h2⟩ := hx s hs
  rw [bind_run]
  cases h : x s with
  | ok a s' => exact hf a s' (h2 a s' h)
  | error e s' =>
    rw [h] at h1
    exact ⟨h1, fun _ _ hr => nomatch hr⟩

theorem Carries.pre {m : Exec σ β} (h : Carries P J Q m) (hp : ∀ s, P' s → P s) : Carries P' J Q m :=
  fun s hs => h s (hp s hs)

theorem Carries.post {m : Exec σ β} (h : Carries P J Q m) (hq : ∀ b s, Q b s → Q' b s) : Carries P J Q' m :=
  fun s hs => ⟨(h s hs).1, fun b s' hr => hq b s' ((h s hs).2 b s' hr)⟩

theorem Carries.weaken {J' : σ → Prop} {m : Exec σ β} (h : Carries P J Q m)
    (hj : ∀ s, J s → J' s) : Carries P J' Q m :=
  fun s hs => ⟨hj _ (h s hs).1, (h s hs).2⟩

/-- A fact that does not depend on the state is assumed once. -/
theorem Carries.of_and {φ : Prop} {m : Exec σ β} (h : φ → Carries P J Q m) : Carries (fun s => P s ∧ φ) J Q m :=
  fun s hs => h hs.2 s hs.1

/-- A loop whose every round keeps the invariant `L`. -/
theorem Carries.loop {body : ι → Exec σ (ι ⊕ β)} {L : ι → σ → Prop} (hl : ∀ i s, L i s → J s)
    (hq : ∀ b s, Q b s → J s) (h : ∀ i, Carries (L i) J (fun r s => match r with
      | .inl i' => L i' s
      | .inr b => Q b s) (body i)) :
    ∀ (fuel : Nat) (i : ι), Carries (L i) J Q (Lib.loop body fuel i)
  | 0, i => fun s hs => ⟨hl i s hs, fun _ _ hr => nomatch hr⟩
  | fuel + 1, i => by
    rw [Lib.loop]
    refine (h i).bind fun r => ?_
    cases r with
    | inl i' => exact Carries.loop hl hq h fuel i'
    | inr b => exact .pure fun s hs => ⟨hq b s hs, hs⟩

/-- An invariant is carried from where it holds to where a weaker one is asked for. -/
theorem Ensures.carries {m : Exec σ β} {Q : β → Prop} (h : Ensures I Q m) (hj : ∀ s, I s → J s) :
    Carries I J (fun b s => I s ∧ Q b) m := by
  intro s hs
  refine ⟨hj _ (h s hs).1, fun b s' hr => ?_⟩
  exact h.ok hs hr

theorem Carries.keeps {m : Exec σ β} (h : Carries J J Q m) : Keeps J m :=
  fun s hs => ⟨(h s hs).1, fun _ _ _ => trivial⟩

end Carries

/-! ## Programs that return -/

/-- From every state in `P`, `m` returns, and what it returns and the state it ends in are in `Q`. -/
def Arrives {σ α : Type} (P : σ → Prop) (Q : α → σ → Prop) (m : Exec σ α) : Prop :=
  ∀ s, P s → ∃ a s', m s = .ok a s' ∧ Q a s'

section Arrives

variable {σ α β ι : Type} {P P' I : σ → Prop} {R : α → σ → Prop} {Q Q' : β → σ → Prop}

theorem Arrives.pure {b : β} (h : ∀ s, P s → Q b s) : Arrives P Q (pure b : Exec σ β) :=
  fun s hs => ⟨b, s, rfl, h s hs⟩

theorem Arrives.bind {x : Exec σ α} {f : α → Exec σ β} (hx : Arrives P R x) (hf : ∀ a, Arrives (R a) Q (f a)) :
    Arrives P Q (x >>= f) := by
  intro s hs
  obtain ⟨a, s₁, h1, h2⟩ := hx s hs
  obtain ⟨b, s₂, h3, h4⟩ := hf a s₁ h2
  exact ⟨b, s₂, (bind_ok h1).trans h3, h4⟩

theorem Arrives.pre {m : Exec σ β} (h : Arrives P Q m) (hp : ∀ s, P' s → P s) : Arrives P' Q m :=
  fun s hs => h s (hp s hs)

theorem Arrives.post {m : Exec σ β} (h : Arrives P Q m) (hq : ∀ b s, Q b s → Q' b s) : Arrives P Q' m := by
  intro s hs
  obtain ⟨b, s', h1, h2⟩ := h s hs
  exact ⟨b, s', h1, hq b s' h2⟩

/-- A fact that does not depend on the state is assumed once. -/
theorem Arrives.of_and {φ : Prop} {m : Exec σ β} (h : φ → Arrives P Q m) : Arrives (fun s => P s ∧ φ) Q m :=
  fun s hs => h hs.2 s hs.1

/-- A loop every round of which brings it closer to its end. -/
theorem Arrives.loop {body : ι → Exec σ (ι ⊕ β)} {L : Nat → ι → σ → Prop}
    (h : ∀ n i, Arrives (L n i) (fun r s => match r with
      | .inl i' => ∃ m < n, L m i' s
      | .inr b => Q b s) (body i)) :
    ∀ {fuel n : Nat} {i : ι}, n < fuel → Arrives (L n i) Q (Lib.loop body fuel i)
  | 0, _, _, hlt => absurd hlt (Nat.not_lt_zero _)
  | fuel + 1, n, i, hlt => by
    rw [Lib.loop]
    refine (h n i).bind fun r => ?_
    cases r with
    | inl i' =>
      intro s ⟨m, hm, hs⟩
      exact Arrives.loop h (show m < fuel by omega) s hs
    | inr b => exact .pure fun _ hs => hs

end Arrives

/-! ## Results up to scratch -/

/-- From every state projecting to `t` on which `G` holds, `m` returns `a` and the state then
projects to `t'`, with `G` again. -/
def Yields {σ τ α : Type} (π : σ → τ) (G : σ → Prop) (m : Exec σ α) (t : τ) (a : α) (t' : τ) : Prop :=
  ∀ s, π s = t → G s → ∃ s', m s = .ok a s' ∧ π s' = t' ∧ G s'

section Yields

variable {σ τ α β ι : Type} {π : σ → τ} {G : σ → Prop} {t t' t'' : τ}

theorem Yields.pure (a : α) : Yields π G (Pure.pure a) t a t := fun s h g => ⟨s, rfl, h, g⟩

theorem Yields.bind {x : Exec σ α} {f : α → Exec σ β} {a : α} {b : β} (hx : Yields π G x t a t')
    (hf : Yields π G (f a) t' b t'') : Yields π G (x >>= f) t b t'' := by
  intro s h g
  obtain ⟨s₁, h1, p1, g1⟩ := hx s h g
  obtain ⟨s₂, h2, p2, g2⟩ := hf s₁ p1 g1
  exact ⟨s₂, by rw [bind_ok h1, h2], p2, g2⟩

theorem Yields.map {x : Exec σ α} {a : α} (hx : Yields π G x t a t') (f : α → β) :
    Yields π G (x >>= fun a => Pure.pure (f a)) t (f a) t' := hx.bind (.pure (f a))

/-- What the second part gives, the sequence gives. -/
theorem Yields.exists_bind {x : Exec σ α} {f : α → Exec σ β} {a : α} {Q : β → τ → Prop} (hx : Yields π G x t a t')
    (hf : ∃ b t'', Yields π G (f a) t' b t'' ∧ Q b t'') : ∃ b t'', Yields π G (x >>= f) t b t'' ∧ Q b t'' := by
  obtain ⟨b, t'', h, hq⟩ := hf
  exact ⟨b, t'', hx.bind h, hq⟩

/-- A program has one result: a run that returned is the run the judgement speaks of. -/
theorem Yields.eq_of_ok {m : Exec σ α} {a b : α} {s s' : σ} (h : Yields π G m t a t') (hs : π s = t) (hg : G s)
    (hm : m s = .ok b s') : b = a ∧ π s' = t' ∧ G s' := by
  obtain ⟨s₁, h1, p1, g1⟩ := h s hs hg
  rw [hm] at h1
  cases h1
  exact ⟨rfl, p1, g1⟩

theorem Yields.loop_next {body : ι → Exec σ (ι ⊕ β)} {fuel : Nat} {i i' : ι} {b : β}
    (h : Yields π G (body i) t (.inl i') t') (hl : Yields π G (loop body fuel i') t' b t'') :
    Yields π G (loop body (fuel + 1) i) t b t'' := by
  intro s hs g
  obtain ⟨s₁, h1, p1, g1⟩ := h s hs g
  obtain ⟨s₂, h2, p2, g2⟩ := hl s₁ p1 g1
  exact ⟨s₂, by rw [Lib.loop_next h1, h2], p2, g2⟩

theorem Yields.loop_done {body : ι → Exec σ (ι ⊕ β)} {fuel : Nat} {i : ι} {b : β}
    (h : Yields π G (body i) t (.inr b) t') : Yields π G (loop body (fuel + 1) i) t b t' := by
  intro s hs g
  obtain ⟨s₁, h1, p1, g1⟩ := h s hs g
  exact ⟨s₁, Lib.loop_done h1, p1, g1⟩

end Yields

/-! ## Enough fuel -/

/-- Given enough fuel, `p` returns. -/
def Halts {σ α : Type} (p : Nat → Exec σ α) (s : σ) : Prop := ∃ fuel a s', p fuel s = .ok a s'

section Halts

variable {σ τ α β ι : Type} {π : σ → τ} {G : σ → Prop} {t : τ} {s : σ}

theorem Yields.halts {p : Nat → Exec σ α} {a : α} {t' : τ} (fuel : Nat) (h : Yields π G (p fuel) t a t')
    (hs : π s = t) (hg : G s) : Halts p s := by
  obtain ⟨s', hr, _⟩ := h s hs hg
  exact ⟨fuel, a, s', hr⟩

/-- `m` returns from every state. -/
def Total {σ α : Type} (m : Exec σ α) : Prop := ∀ s, ∃ a s', m s = .ok a s'

theorem Total.pure (a : α) : Total (Pure.pure a : Exec σ α) := fun s => ⟨a, s, rfl⟩

theorem Total.bind {x : Exec σ α} {f : α → Exec σ β} (hx : Total x) (hf : ∀ a, Total (f a)) : Total (x >>= f) := by
  intro s
  obtain ⟨a, s₁, h₁⟩ := hx s
  obtain ⟨b, s₂, h₂⟩ := hf a s₁
  exact ⟨b, s₂, (bind_ok h₁).trans h₂⟩

theorem Halts.bind {p : Nat → Exec σ α} {f : α → Exec σ β} (h : Halts p s) (hf : ∀ a, Total (f a)) :
    Halts (fun fuel => p fuel >>= f) s := by
  obtain ⟨fuel, a, s₁, h₁⟩ := h
  obtain ⟨b, s₂, h₂⟩ := hf a s₁
  exact ⟨fuel, b, s₂, (bind_ok h₁).trans h₂⟩

/-- A loop that walks along `next` and stops at the indices in `stop` returns where the walk comes to one. -/
theorem Yields.loop_halts {body : ι → Exec σ (ι ⊕ β)} (stop : ι → Prop) (next : ι → ι)
    (hstop : ∀ i, stop i → ∃ b, Yields π G (body i) t (.inr b) t)
    (hnext : ∀ i, ¬ stop i → Yields π G (body i) t (.inl (next i)) t) (hs : π s = t) (hg : G s) (i : ι) :
    Halts (fun fuel => loop body fuel i) s ↔ ∃ n, stop (next^[n] i) := by
  constructor
  · rintro ⟨fuel, b, s', h⟩
    induction fuel generalizing i s with
    | zero => cases h
    | succ fuel ih =>
      by_cases hi : stop i
      · exact ⟨0, hi⟩
      · obtain ⟨s₁, h1, hs₁, hg₁⟩ := hnext i hi s hs hg
        obtain ⟨n, hn⟩ := ih hs₁ hg₁ (next i) ((Lib.loop_next h1).symm.trans h)
        exact ⟨n + 1, hn⟩
  · rintro ⟨n, hn⟩
    induction n generalizing i s with
    | zero =>
      obtain ⟨b, hb⟩ := hstop i hn
      exact (Yields.loop_done hb).halts 1 hs hg
    | succ n ih =>
      by_cases hi : stop i
      · obtain ⟨b, hb⟩ := hstop i hi
        exact (Yields.loop_done hb).halts 1 hs hg
      · obtain ⟨s₁, h1, hs₁, hg₁⟩ := hnext i hi s hs hg
        obtain ⟨fuel, b, s', h⟩ := ih hs₁ hg₁ (next i) hn
        exact ⟨fuel + 1, b, s', (Lib.loop_next h1).trans h⟩

end Halts

end AltoniumOS.Lib

/-
Programs that ask an environment, written down apart from how it answers: a program ends with a value, or it
asks and goes on with what it is told. Between two environments of which the first does nothing that the second
does not do, every program behaves the same, and so does every machine that handles its inputs by such programs.
-/
import AltoniumOS.Lib.History

namespace AltoniumOS.Lib

universe u v w x

/-- A program with the result `α` that makes requests `ρ`. -/
inductive Client (ρ : Type u) (resp : ρ → Type v) (α : Type w) : Type (max u v w) where
  | done (a : α)
  | ask (q : ρ) (next : resp q → Client ρ resp α)

namespace Client

variable {ρ : Type u} {resp : ρ → Type v}

def bind {α β : Type w} : Client ρ resp α → (α → Client ρ resp β) → Client ρ resp β
  | .done a, f => f a
  | .ask q next, f => .ask q fun r => (next r).bind f

instance : Monad (Client ρ resp) where
  pure := .done
  bind := Client.bind

theorem bind_assoc {α β γ : Type w} (p : Client ρ resp α) (f : α → Client ρ resp β) (g : β → Client ρ resp γ) :
    (p >>= f) >>= g = p >>= fun a => f a >>= g := by
  show (p.bind f).bind g = p.bind fun a => (f a).bind g
  induction p with
  | done a => rfl
  | ask q next ih => exact congrArg (Client.ask q) (funext ih)

/-- One request, for its answer. -/
def request (q : ρ) : Client ρ resp (resp q) := .ask q .done

section

variable {σ : Type x} {α : Type w}

/-- What a program can come to in an environment with the steps `step`. -/
inductive Runs (step : σ → (q : ρ) → resp q → σ → Prop) : Client ρ resp α → σ → α → σ → Prop
  | done (a : α) (s : σ) : Runs step (.done a) s a s
  | ask {s s₁ s₂ : σ} {q : ρ} {r : resp q} {next : resp q → Client ρ resp α} {a : α} : step s q r s₁ →
      Runs step (next r) s₁ a s₂ → Runs step (.ask q next) s a s₂

variable {step : σ → (q : ρ) → resp q → σ → Prop} {s s' : σ} {a : α}

theorem runs_pure {b : α} : Runs step (pure b) s a s' ↔ a = b ∧ s' = s := by
  constructor
  · rintro ⟨⟩
    exact ⟨rfl, rfl⟩
  · rintro ⟨rfl, rfl⟩
    exact .done _ _

theorem runs_request {q : ρ} {r : resp q} : Runs step (request q) s r s' ↔ step s q r s' := by
  constructor
  · rintro ⟨⟩
    rename_i hs hd
    cases hd
    exact hs
  · exact fun h => .ask h (.done _ _)

end

section

variable {σ : Type x} {α β : Type w} {step : σ → (q : ρ) → resp q → σ → Prop}

/-- A sequence runs through a state in between. -/
theorem runs_bind {p : Client ρ resp α} {f : α → Client ρ resp β} {s s' : σ} {b : β} :
    Runs step (p >>= f) s b s' ↔ ∃ a s₁, Runs step p s a s₁ ∧ Runs step (f a) s₁ b s' := by
  constructor
  · intro h
    induction p generalizing s with
    | done a => exact ⟨a, s, .done a s, h⟩
    | ask q next ih =>
      cases h with
      | ask hstep hrest =>
        obtain ⟨a, s₂, h1, h2⟩ := ih _ hrest
        exact ⟨a, s₂, .ask hstep h1, h2⟩
  · rintro ⟨a, s₁, h1, h2⟩
    induction h1 with
    | done a s => exact h2
    | ask hstep _ ih => exact .ask hstep (ih h2)

/-- What every step keeps, every program keeps. -/
theorem Runs.keeps {p : Client ρ resp α} {I : σ → Prop} (hstep : ∀ s q r s', I s → step s q r s' → I s') {s s' : σ}
    {a : α} (h : Runs step p s a s') (hi : I s) : I s' := by
  induction h with
  | done => exact hi
  | ask hs _ ih => exact ih (hstep _ _ _ _ hi hs)

variable {τ : Type*} {step' : τ → (q : ρ) → resp q → τ → Prop}

/-- A program runs over the second environment as it does over the first. -/
theorem Runs.simulate {R : σ → τ → Prop}
    (sim : ∀ s q r s' t, R s t → step s q r s' → ∃ t', step' t q r t' ∧ R s' t') {p : Client ρ resp α} {s s' : σ}
    {a : α} (h : Runs step p s a s') {t : τ} (hr : R s t) : ∃ t', Runs step' p t a t' ∧ R s' t' := by
  induction h generalizing t with
  | done a s => exact ⟨t, .done a t, hr⟩
  | ask hs _ ih =>
    obtain ⟨t₁, h1, hr₁⟩ := sim _ _ _ _ _ hr hs
    obtain ⟨t₂, h2, hr₂⟩ := ih hr₁
    exact ⟨t₂, .ask h1 h2, hr₂⟩

/-- Where every request is answered, every program comes to an end. -/
theorem Runs.exists {I : σ → Prop} (answers : ∀ s q, I s → ∃ r s', step s q r s' ∧ I s') (p : Client ρ resp α) :
    ∀ {s : σ}, I s → ∃ a s', Runs step p s a s' ∧ I s' := by
  induction p with
  | done a => exact fun hi => ⟨a, _, .done a _, hi⟩
  | ask q next ih =>
    intro s hi
    obtain ⟨r, s₁, h1, hi₁⟩ := answers s q hi
    obtain ⟨a, s₂, h2, hi₂⟩ := ih r hi₁
    exact ⟨a, s₂, .ask h1 h2, hi₂⟩

end

/-! ## What a program keeps to -/

section

variable {α β : Type w} {R : ρ → Prop} {Q : α → Prop} {Q' : β → Prop}

/-- A program makes requests in `R` only, and ends with values in `Q` only. -/
inductive Within (R : ρ → Prop) (Q : α → Prop) : Client ρ resp α → Prop
  | done {a : α} : Q a → Within R Q (.done a)
  | ask {q : ρ} {next : resp q → Client ρ resp α} : R q → (∀ r, Within R Q (next r)) → Within R Q (.ask q next)

theorem Within.mono {P : α → Prop} {p : Client ρ resp α} (h : Within R P p)
    (hq : ∀ a, P a → Q a) : Within R Q p := by
  induction h with
  | done ha => exact .done (hq _ ha)
  | ask hr _ ih => exact .ask hr ih

theorem Within.bind {p : Client ρ resp α} {f : α → Client ρ resp β} (h : Within R Q p)
    (hf : ∀ a, Q a → Within R Q' (f a)) : Within R Q' (p >>= f) := by
  induction h with
  | done ha => exact hf _ ha
  | ask hr _ ih => exact .ask hr ih

variable {σ τ : Type*} {step : σ → (q : ρ) → resp q → σ → Prop} {step' : τ → (q : ρ) → resp q → τ → Prop}

/-- Over another environment only the requests a program can make matter. -/
theorem Within.simulate {I : σ → τ → Prop}
    (sim : ∀ s q r s' t, R q → I s t → step s q r s' → ∃ t', step' t q r t' ∧ I s' t') {p : Client ρ resp α}
    (hp : Within R Q p) {s s' : σ} {a : α} (h : Runs step p s a s') {t : τ} (hi : I s t) :
    ∃ t', Runs step' p t a t' ∧ I s' t' ∧ Q a := by
  induction h generalizing t with
  | done a s =>
    cases hp with
    | done ha => exact ⟨t, .done a t, hi, ha⟩
  | ask hs _ ih =>
    cases hp with
    | ask hr hnext =>
      obtain ⟨t₁, h1, hi₁⟩ := sim _ _ _ _ _ hr hi hs
      obtain ⟨t₂, h2, hi₂, ha⟩ := ih (hnext _) hi₁
      exact ⟨t₂, .ask h1 h2, hi₂, ha⟩

theorem Within.exists {I : σ → Prop} (answers : ∀ s q, R q → I s → ∃ r s', step s q r s' ∧ I s')
    {p : Client ρ resp α} (hp : Within R Q p) : ∀ {s : σ}, I s → ∃ a s', Runs step p s a s' ∧ I s' ∧ Q a := by
  induction hp with
  | done ha => exact fun hi => ⟨_, _, .done _ _, hi, ha⟩
  | @ask q next hr _ ih =>
    intro s hi
    obtain ⟨r, s₁, h1, hi₁⟩ := answers s q hr hi
    obtain ⟨a, s₂, h2, hi₂, ha⟩ := ih r hi₁
    exact ⟨a, s₂, .ask h1 h2, hi₂, ha⟩

end

/-! ## Answers written down beforehand -/

section

variable {σ : Type*} {X : Type*} {α β : Type w}

/-- A run where each request has one answer. -/
def run (f : σ → (q : ρ) → resp q × σ) : Client ρ resp α → σ → α × σ
  | .done a, s => (a, s)
  | .ask q next, s => (next (f s q).1).run f (f s q).2

theorem run_bind (f : σ → (q : ρ) → resp q × σ) (p : Client ρ resp α) (g : α → Client ρ resp β) (s : σ) :
    (p >>= g).run f s = (g (p.run f s).1).run f (p.run f s).2 := by
  show (p.bind g).run f s = _
  induction p generalizing s with
  | done a => rfl
  | ask q next ih => exact ih _ _

theorem Within.run {R : ρ → Prop} {Q : α → Prop} {p : Client ρ resp α} (h : Within R Q p)
    (f : σ → (q : ρ) → resp q × σ) (s : σ) : Q (p.run f s).1 := by
  induction h generalizing s with
  | done ha => exact ha
  | ask _ _ ih => exact ih _ _

/-- It is what the program comes to in the environment of these answers. -/
theorem runs_run (f : σ → (q : ρ) → resp q × σ) (p : Client ρ resp α) :
    ∀ s, Runs (fun s q r s' => (r, s') = f s q) p s (p.run f s).1 (p.run f s).2 := by
  induction p with
  | done a => exact fun s => .done a s
  | ask q next ih => exact fun s => .ask rfl (ih _ _)

/-- The environment whose choices are read off a tape. -/
def foretold (f : σ → X → (q : ρ) → resp q × σ) (t : σ × (Nat → X)) (q : ρ) : resp q × σ × (Nat → X) :=
  ((f t.1 (t.2 0) q).1, (f t.1 (t.2 0) q).2, fun k => t.2 (k + 1))

/-- Whatever an environment chooses along a run could have been on the tape from the start. -/
theorem Runs.foretold {f : σ → X → (q : ρ) → resp q × σ} {A : X → Prop} (hA : ∃ x, A x) {p : Client ρ resp α}
    {s s' : σ} {a : α} (h : Runs (fun s q r s' => ∃ x, A x ∧ f s x q = (r, s')) p s a s') :
    ∃ xs, (∀ k, A (xs k)) ∧ ∃ rest, p.run (Client.foretold f) (s, xs) = (a, s', rest) ∧ ∀ k, A (rest k) := by
  induction h with
  | done a s =>
    obtain ⟨x, hx⟩ := hA
    exact ⟨fun _ => x, fun _ => hx, fun _ => x, rfl, fun _ => hx⟩
  | @ask s s₁ s₂ q r next a hs _ ih =>
    obtain ⟨x, hx, hf⟩ := hs
    obtain ⟨xs, hxs, rest, hrun, hrest⟩ := ih
    -- the choice made here, and then those made behind it
    let tape : Nat → X := fun k => k.casesOn x xs
    have hanswer : Client.foretold f (s, tape) q = (r, s₁, xs) := by
      show ((f s x q).1, (f s x q).2, _) = _
      rw [hf]
    refine ⟨tape, fun k => ?_, rest, ?_, hrest⟩
    · cases k with
      | zero => exact hx
      | succ k => exact hxs k
    · show (next (Client.foretold f (s, tape) q).1).run _ (Client.foretold f (s, tape) q).2 = _
      rw [hanswer]
      exact hrun

end

/-! ## Programs that do the same -/

section

variable {α β γ δ : Type w} {R : α → β → Prop} {S : γ → δ → Prop}

/-- Two programs make the same requests, and end with related values. -/
inductive Alike (R : α → β → Prop) : Client ρ resp α → Client ρ resp β → Prop
  | done {a : α} {b : β} : R a b → Alike R (.done a) (.done b)
  | ask {q : ρ} {next : resp q → Client ρ resp α} {next' : resp q → Client ρ resp β} :
      (∀ r, Alike R (next r) (next' r)) → Alike R (.ask q next) (.ask q next')

theorem Alike.refl {R' : α → α → Prop} (h : ∀ a, R' a a) (p : Client ρ resp α) : Alike R' p p := by
  induction p with
  | done a => exact .done (h a)
  | ask q next ih => exact .ask ih

theorem Alike.bind {p : Client ρ resp α} {p' : Client ρ resp β} {f : α → Client ρ resp γ} {f' : β → Client ρ resp δ}
    (h : Alike R p p') (hf : ∀ a b, R a b → Alike S (f a) (f' b)) : Alike S (p >>= f) (p' >>= f') := by
  induction h with
  | done hr => exact hf _ _ hr
  | ask _ ih => exact .ask ih

/-- A program followed by two that go on alike from each of its values. -/
theorem Alike.after (p : Client ρ resp α) {f : α → Client ρ resp γ} {f' : α → Client ρ resp δ}
    (hf : ∀ a, Alike S (f a) (f' a)) : Alike S (p >>= f) (p >>= f') := by
  have hself : Alike (fun a b : α => a = b) p p := .refl (fun _ => rfl) p
  refine hself.bind fun a b hab => ?_
  subst hab
  exact hf a

variable {σ : Type x} {step : σ → (q : ρ) → resp q → σ → Prop}

theorem Alike.runs {p : Client ρ resp α} {p' : Client ρ resp β} (h : Alike R p p') {s s' : σ} {a : α}
    (hr : Runs step p s a s') : ∃ b, Runs step p' s b s' ∧ R a b := by
  induction hr generalizing p' with
  | done a s =>
    cases h with
    | done hab => exact ⟨_, .done _ _, hab⟩
  | ask hs _ ih =>
    cases h with
    | ask hnext =>
      obtain ⟨b, h1, hab⟩ := ih (hnext _)
      exact ⟨b, .ask hs h1, hab⟩

end

/-! ## Machines -/

section

variable {σ τ : Type x} {ι μ : Type w} {step : σ → (q : ρ) → resp q → σ → Prop}
  {step' : τ → (q : ρ) → resp q → τ → Prop} {handle : ι → μ → Client ρ resp μ}

/-- A machine takes an input, and runs its program for it. -/
def Handles (step : σ → (q : ρ) → resp q → σ → Prop) (handle : ι → μ → Client ρ resp μ) (s : μ × σ) (i : ι)
    (s' : μ × σ) : Prop :=
  (handle i s.1).Runs step s.2 s'.1 s'.2

variable {ν : Type w} {handle' : ι → ν → Client ρ resp ν}

/-- Machines whose programs are alike in related states stay in related states. -/
theorem history_alike {R : μ → ν → Prop} (alike : ∀ i m n, R m n → Alike R (handle i m) (handle' i n)) {m m' : μ}
    {s s' : σ} {is : List ι} (h : History (Handles step handle) (m, s) is (m', s')) {n : ν} (hr : R m n) :
    ∃ n', History (Handles step handle') (n, s) is (n', s') ∧ R m' n' := by
  have hsim : ∀ (a : μ × σ) (i : ι) (a' : μ × σ) (b : ν × σ), (R a.1 b.1 ∧ a.2 = b.2) →
      Handles step handle a i a' → ∃ b', Handles step handle' b i b' ∧ R a'.1 b'.1 ∧ a'.2 = b'.2 := by
    rintro ⟨m, s⟩ i ⟨m', s'⟩ ⟨n, -⟩ ⟨hr, rfl⟩ hh
    obtain ⟨n', h1, hr'⟩ := (alike i m n hr).runs hh
    exact ⟨(n', s'), h1, hr', rfl⟩
  have hstart : R (m, s).1 (n, s).1 ∧ (m, s).2 = (n, s).2 := ⟨hr, rfl⟩
  obtain ⟨⟨n', t⟩, hist, hr', heq⟩ := h.simulate hsim hstart
  obtain rfl : s' = t := heq
  exact ⟨n', hist, hr'⟩

/-- What a machine comes to where each request has one answer. -/
theorem history_run (f : σ → (q : ρ) → resp q × σ) (handle : ι → μ → Client ρ resp μ) (k : μ × σ)
    (is : List ι) :
    History (Handles (fun s q r s' => (r, s') = f s q) handle) k is
      (is.foldl (fun k i => (handle i k.1).run f k.2) k) := by
  induction is using List.reverseRecOn with
  | nil => exact .nil k
  | append_singleton is i ih =>
    rw [List.foldl_append]
    exact .snoc ih (runs_run f _ _)

end

end Client

end AltoniumOS.Lib

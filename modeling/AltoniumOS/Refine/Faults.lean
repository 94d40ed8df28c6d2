/-
Calls on a disk that fails now and then. `Runs m c f a c' f'`: from the core `c`, with the outcomes `f` of
the disk calls to come, `m` returns `a`, the core is `c'` then, and `f'` are the outcomes still to come.

Two shapes of it carry the proofs. `Looks m c n r e`: `m` reads the disk `n` times and returns `r`, or at
the first read that fails stops and returns `e`. `Ends m c Q`: however the calls come out, as long as one
that fails leaves the disk alone, `m` returns, with `Q` of what it returns and of the core.
-/
import AltoniumOS.Fat12.Table

namespace AltoniumOS.Fat12

open AltoniumOS.Lib

/-- The outcomes of the calls behind the next `n`. -/
def later (faults : Nat → Option Nat) (n : Nat) : Nat → Option Nat := fun k => faults (k + n)

theorem later_later (faults : Nat → Option Nat) (m n : Nat) : later (later faults m) n = later faults (n + m) :=
  funext fun k => congrArg faults (Nat.add_assoc k n m)

/-- The call `i` is the first one to fail. -/
def FailsAt (faults : Nat → Option Nat) (i : Nat) : Prop := (∀ k < i, faults k = none) ∧ faults i ≠ none

/-- A call that fails transfers nothing: it leaves the disk unchanged. -/
def Clean (faults : Nat → Option Nat) : Prop := ∀ k, faults k = none ∨ faults k = some 0

section

variable {f : Nat → Option Nat} {n i : Nat}

/-- All of the next calls succeed, or one of them is the first to fail. -/
theorem succeeds_or_fails (f : Nat → Option Nat) : ∀ n, (∀ k < n, f k = none) ∨ ∃ i < n, FailsAt f i
  | 0 => .inl fun _ hk => nomatch hk
  | n + 1 => by
    rcases succeeds_or_fails f n with h | ⟨i, hi, h⟩
    · by_cases hn : f n = none
      · refine .inl fun k hk => ?_
        rcases Nat.lt_succ_iff_lt_or_eq.1 hk with hk | rfl
        · exact h k hk
        · exact hn
      · exact .inr ⟨n, Nat.lt_succ_self n, h, hn⟩
    · exact .inr ⟨i, by omega, h⟩

theorem FailsAt.later (h : FailsAt f i) (hn : n ≤ i) : FailsAt (Fat12.later f n) (i - n) := by
  constructor
  · exact fun k hk => h.1 (k + n) (by omega)
  · unfold Fat12.later
    rw [Nat.sub_add_cancel hn]
    exact h.2

theorem succeeds_later {m : Nat} (h : ∀ k < m + n, f k = none) : ∀ k < m, Fat12.later f n k = none :=
  fun k hk => h (k + n) (by omega)

theorem succeeds_append {m : Nat} (h : ∀ k < n, f k = none) (h' : ∀ k < m, Fat12.later f n k = none) :
    ∀ k < n + m, f k = none := by
  intro k hk
  by_cases hlt : k < n
  · exact h k hlt
  · have := h' (k - n) (by omega)
    unfold Fat12.later at this
    rwa [Nat.sub_add_cancel (by omega)] at this

theorem FailsAt.append (h : ∀ k < n, f k = none) (hi : FailsAt (Fat12.later f n) i) : FailsAt f (n + i) := by
  refine ⟨succeeds_append h hi.1, ?_⟩
  rw [Nat.add_comm]
  exact hi.2

theorem Clean.later (h : Clean f) (n : Nat) : Clean (Fat12.later f n) := fun k => h (k + n)

end

/-- The call `i` fails, and leaves the disk alone. -/
def failingAt (i : Nat) : Nat → Option Nat := fun k => if k = i then some 0 else none

theorem clean_failingAt (i : Nat) : Clean (failingAt i) := fun k => by
  unfold failingAt
  split
  · exact .inr rfl
  · exact .inl rfl

/-! ## One pattern of outcomes -/

/-- From the core `c` and the outcomes `f`, `m` returns `a` with the core `c'` and the outcomes `f'`. -/
abbrev Runs {α : Type} (m : M α) (c : Core) (f : Nat → Option Nat) (a : α) (c' : Core)
    (f' : Nat → Option Nat) : Prop :=
  Yields (fun s : State => (s.toCore, s.faults)) (fun _ => True) m (c, f) a (c', f')

section

variable {α β : Type} {c c' : Core} {f f' : Nat → Option Nat} {a : α}

theorem Runs.of_run {m : M α}
    (h : ∀ s : State, s.toCore = c → s.faults = f → ∃ s', m s = .ok a s' ∧ s'.toCore = c' ∧ s'.faults = f') :
    Runs m c f a c' f' := by
  intro s hs _
  obtain ⟨hc, hf⟩ := Prod.mk.inj hs
  obtain ⟨s', h1, h2, h3⟩ := h s hc hf
  exact ⟨s', h1, Prod.ext h2 h3, trivial⟩

theorem Runs.run {m : M α} (h : Runs m c f a c' f') {s : State} (hc : s.toCore = c) (hf : s.faults = f) :
    ∃ s', m s = .ok a s' ∧ s'.toCore = c' ∧ s'.faults = f' := by
  obtain ⟨s', h1, h2, -⟩ := h s (Prod.ext hc hf) trivial
  obtain ⟨h3, h4⟩ := Prod.mk.inj h2
  exact ⟨s', h1, h3, h4⟩

/-- Without failures it is what `m` gives. -/
theorem Runs.gives {m : M α} (h : ∀ f, (∀ k, f k = none) → ∃ n, Runs m c f a c' (later f n)) : Gives m c a c' := by
  intro s hs hg
  obtain ⟨n, hr⟩ := h s.faults hg
  obtain ⟨s', h1, h2, h3⟩ := hr.run hs rfl
  exact ⟨s', h1, h2, fun k => by rw [h3]; exact hg (k + n)⟩

theorem runs_core {k : Core → M α} (h : Runs (k c) c f a c' f') : Runs (getCore >>= k) c f a c' f' :=
  .of_run fun s hc hf => by
    obtain ⟨s', h1, h2⟩ := h.run hc hf
    exact ⟨s', by rw [bind_ok (show getCore s = .ok c s by rw [← hc]; rfl)]; exact h1, h2⟩

theorem runs_modifyCore (g : Core → Core) (c : Core) (f : Nat → Option Nat) : Runs (modifyCore g) c f () (g c) f :=
  .of_run fun s hc hf => ⟨_, rfl, by rw [← hc], hf⟩

theorem runs_setFatEntry (cluster value : Nat) (c : Core) (f : Nat → Option Nat) :
    Runs (setFatEntry cluster value) c f () (c.setFat cluster value) f := runs_modifyCore _ c f

theorem runs_setClusterBuffer (b : Buf) (c : Core) (f : Nat → Option Nat) : Runs (setClusterBuffer b) c f () c f :=
  .of_run fun _ hc hf => ⟨_, rfl, hc, hf⟩

theorem runs_clusterBuffer {k : Buf → M α} (h : ∀ b, Runs (k b) c f a c' f') :
    Runs (getClusterBuffer >>= k) c f a c' f' :=
  .of_run fun s hc hf => (h s.clusterBuffer).run hc hf

/-! ## The disk calls -/

/-- How `fat12_read_cluster` runs. -/
theorem readCluster_run (cluster : Nat) (s : State) (hn : s.fs.sectorsPerCluster ≠ 0) :
    ∃ b, readCluster cluster s =
      .ok ((s.faults 0).isNone, b) { s with faults := later s.faults 1, clusterBuffer := b } ∧
      (s.faults 0 = none → ∀ i < sectorSize * s.fs.sectorsPerCluster, b i = s.toCore.clusterBytes cluster i) := by
  refine ⟨s.clusterBuffer.blit 0 (s.toCore.clusterBytes cluster)
    (sectorSize * transferred (s.faults 0) s.fs.sectorsPerCluster), ?_, fun h i hi => ?_⟩
  · have hread : diskReadSectors (lbaAdd s.fs.baseLba (clusterToLba s.fs cluster)) s.clusterBuffer 0
        s.fs.sectorsPerCluster s = .ok ((s.faults 0).isNone, s.clusterBuffer.blit 0 (s.toCore.clusterBytes cluster)
          (sectorSize * transferred (s.faults 0) s.fs.sectorsPerCluster))
            { s with faults := later s.faults 1 } := by
      unfold diskReadSectors
      rw [if_neg hn]
      rfl
    unfold readCluster
    rw [bind_ok (show getCore s = .ok s.toCore s from rfl),
      bind_ok (show getClusterBuffer s = .ok s.clusterBuffer s from rfl), bind_ok hread]
    rfl
  · rw [h, show i = 0 + i by omega]
    exact (Buf.blit_in hi).trans (by rw [Nat.zero_add])

/-- A cluster read. -/
theorem runs_readCluster_ok {cluster : Nat} {k : Bool × Buf → M α} (hn : c.fs.sectorsPerCluster ≠ 0)
    (h0 : f 0 = none)
    (h : ∀ b : Buf, (∀ i < sectorSize * c.fs.sectorsPerCluster, b i = c.clusterBytes cluster i) →
      Runs (k (true, b)) c (later f 1) a c' f') :
    Runs (readCluster cluster >>= k) c f a c' f' :=
  .of_run fun s hc hf => by
    subst hc hf
    obtain ⟨b, h1, h2⟩ := readCluster_run cluster s hn
    obtain ⟨s', h3, h4⟩ :=
      (h b (h2 h0)).run (s := { s with faults := later s.faults 1, clusterBuffer := b }) rfl rfl
    refine ⟨s', ?_, h4⟩
    rw [bind_ok h1, h0]
    exact h3

/-- A cluster that could not be read. -/
theorem runs_readCluster_fail {cluster : Nat} {k : Bool × Buf → M α} (hn : c.fs.sectorsPerCluster ≠ 0)
    (h0 : f 0 ≠ none) (h : ∀ b, Runs (k (false, b)) c (later f 1) a c' f') :
    Runs (readCluster cluster >>= k) c f a c' f' :=
  .of_run fun s hc hf => by
    subst hc hf
    obtain ⟨b, h1, -⟩ := readCluster_run cluster s hn
    obtain ⟨s', h3, h4⟩ := (h b).run (s := { s with faults := later s.faults 1, clusterBuffer := b }) rfl rfl
    refine ⟨s', ?_, h4⟩
    rw [bind_ok h1, Option.isNone_eq_false_iff.2 (Option.isSome_iff_ne_none.2 h0)]
    exact h3

/-- `c` after the first `m` sectors of a cluster were written. -/
def Core.putPart (c : Core) (cluster : Nat) (buffer : Buf) (m : Nat) : Core :=
  { c with sectors := putSectors c.sectors (lbaAdd c.fs.baseLba (clusterToLba c.fs cluster)) buffer m }

@[simp] theorem putPart_zero (c : Core) (cluster : Nat) (buffer : Buf) : c.putPart cluster buffer 0 = c := rfl

/-- A cluster written, in whole or in part. -/
theorem runs_writeCluster {cluster : Nat} {buffer b : Buf} (c : Core) (f : Nat → Option Nat)
    (hn : c.fs.sectorsPerCluster ≠ 0) (hb : ∀ i < sectorSize * c.fs.sectorsPerCluster, buffer i = b i) :
    Runs (writeCluster cluster buffer) c f (f 0).isNone
      (c.putPart cluster b (transferred (f 0) c.fs.sectorsPerCluster)) (later f 1) := by
  unfold writeCluster
  refine runs_core (.of_run fun s hc hf => ?_)
  subst hc hf
  have hrun : diskWriteSectors (lbaAdd s.fs.baseLba (clusterToLba s.fs cluster)) buffer s.fs.sectorsPerCluster s =
      .ok (s.faults 0).isNone { s with
        toCore := s.toCore.putPart cluster buffer (transferred (s.faults 0) s.fs.sectorsPerCluster)
        faults := later s.faults 1
        writes := s.writes ++
            [(lbaAdd s.fs.baseLba (clusterToLba s.fs cluster), sectorsOf buffer s.fs.sectorsPerCluster)] } := by
    unfold diskWriteSectors
    rw [if_neg hn]
    rfl
  refine ⟨_, hrun, ?_, rfl⟩
  unfold Core.putPart
  refine congrArg (fun S => ({ s.toCore with sectors := S } : Core)) (putSectors_congr fun i hi => hb i ?_)
  exact lt_of_lt_of_le hi (Nat.mul_le_mul_left _ (transferred_le ..))

end

/-! ## Programs that read -/

/-- `m` makes `n` disk calls, changes nothing and returns `r`; at the first call that fails it stops and
returns `e`. -/
structure Looks {α : Type} (m : M α) (c : Core) (n : Nat) (r e : α) : Prop where
  finds : ∀ f, (∀ k < n, f k = none) → Runs m c f r c (later f n)
  fails : ∀ f i, i < n → FailsAt f i → Runs m c f e c (later f (i + 1))

namespace Looks

variable {α β ι : Type} {c : Core} {n m : Nat}

theorem pure (r e : α) : Looks (pure r) c 0 r e := ⟨fun _ _ => Yields.pure r, fun _ _ hi => nomatch hi⟩

theorem core {k : Core → M α} {r e : α} (h : Looks (k c) c n r e) : Looks (getCore >>= k) c n r e :=
  ⟨fun f hf => runs_core (h.finds f hf), fun f i hi hf => runs_core (h.fails f i hi hf)⟩

theorem bind {x : M α} {k : α → M β} {a e' : α} {r e : β} (hx : Looks x c n a e') (hk : Looks (k a) c m r e)
    (he : ∀ f, Runs (k e') c f e c f) : Looks (x >>= k) c (n + m) r e := by
  constructor
  · intro f hf
    have h1 := hx.finds f fun k hk => hf k (by omega)
    have h2 := hk.finds (later f n) (succeeds_later (by rwa [Nat.add_comm]))
    rw [later_later, Nat.add_comm] at h2
    exact Yields.bind h1 h2
  · intro f i hi hf
    by_cases hlt : i < n
    · exact Yields.bind (hx.fails f i hlt hf) (he _)
    · have h1 := hx.finds f fun k hk => hf.1 k (by omega)
      have h2 := hk.fails (later f n) (i - n) (by omega) (hf.later (by omega))
      rw [later_later, show i - n + 1 + n = i + 1 by omega] at h2
      exact Yields.bind h1 h2

theorem loop_next {body : ι → M (ι ⊕ β)} {fuel : Nat} {i i' : ι} {r e : β}
    (h : Looks (body i) c n (.inl i') (.inr e)) (hl : Looks (loop body fuel i') c m r e) :
    Looks (loop body (fuel + 1) i) c (n + m) r e := by
  rw [loop]
  exact h.bind hl fun _ => Yields.pure e

theorem loop_done {body : ι → M (ι ⊕ β)} {fuel : Nat} {i : ι} {r e : β} (h : Looks (body i) c n (.inr r) (.inr e)) :
    Looks (loop body (fuel + 1) i) c n r e := by
  rw [loop, ← Nat.add_zero n]
  exact h.bind (.pure r e) fun _ => Yields.pure e

/-- One cluster read, and on with its bytes. -/
theorem read {cluster : Nat} {k : Bool × Buf → M α} {r e : α} (hn : c.fs.sectorsPerCluster ≠ 0)
    (h : ∀ b : Buf, (∀ i < sectorSize * c.fs.sectorsPerCluster, b i = c.clusterBytes cluster i) →
      Looks (k (true, b)) c 0 r e)
    (he : ∀ b, Looks (k (false, b)) c 0 e e) : Looks (readCluster cluster >>= k) c 1 r e := by
  constructor
  · intro f hf
    apply runs_readCluster_ok hn (hf 0 Nat.one_pos)
    exact fun b hb => (h b hb).finds (later f 1) fun _ hk => nomatch hk
  · intro f i hi hf
    obtain rfl : i = 0 := Nat.lt_one_iff.1 hi
    apply runs_readCluster_fail hn hf.2
    exact fun b => (he b).finds (later f 1) fun _ hk => nomatch hk

/-- What a run of it returned: `r`, or `e` where a call failed; the core is as it was. -/
theorem of_ok {x : M α} {r e a : α} (h : Looks x c n r e) {s s' : State} (hc : s.toCore = c) (hx : x s = .ok a s') :
    s'.toCore = c ∧ (a = r ∧ (∀ k < n, s.faults k = none) ∧ s'.faults = later s.faults n ∨
      a = e ∧ ∃ i < n, FailsAt s.faults i ∧ s'.faults = later s.faults (i + 1)) := by
  rcases succeeds_or_fails s.faults n with hs | ⟨i, hi, hfail⟩
  · obtain ⟨s₁, h1, h2, h3⟩ := (h.finds _ hs).run hc rfl
    cases hx.symm.trans h1
    exact ⟨h2, .inl ⟨rfl, hs, h3⟩⟩
  · obtain ⟨s₁, h1, h2, h3⟩ := (h.fails _ i hi hfail).run hc rfl
    cases hx.symm.trans h1
    exact ⟨h2, .inr ⟨rfl, i, hi, hfail, h3⟩⟩

theorem gives {x : M α} {r e : α} (h : Looks x c n r e) : Gives x c r c :=
  Runs.gives fun f hf => ⟨n, h.finds f fun k _ => hf k⟩

/-- What it returns passed on. -/
theorem map {x : M α} {r e : α} (h : Looks x c n r e) (g : α → β) :
    Looks (x >>= fun a => Pure.pure (g a)) c n (g r) (g e) :=
  Looks.bind (m := 0) h (.pure (g r) (g e)) fun _ => Yields.pure (g e)

end Looks

/-! ## Any pattern of outcomes -/

/-- From the core `c`, on a disk whose failing calls change nothing, `m` returns, and what it returns and the
core it leaves are in `Q`. -/
def Ends {α : Type} (m : M α) (c : Core) (Q : α → Core → Prop) : Prop :=
  ∀ s : State, s.toCore = c → Clean s.faults → ∃ a s', m s = .ok a s' ∧ Clean s'.faults ∧ Q a s'.toCore

namespace Ends

variable {α β : Type} {c c' : Core} {R : α → Core → Prop} {Q Q' : β → Core → Prop}

theorem pure {b : β} (h : Q b c) : Ends (pure b) c Q := fun s hc hf => ⟨b, s, rfl, hf, hc ▸ h⟩

theorem bind {x : M α} {k : α → M β} (hx : Ends x c R) (hk : ∀ a c', R a c' → Ends (k a) c' Q) :
    Ends (x >>= k) c Q := by
  intro s hc hf
  obtain ⟨a, s₁, h1, h2, h3⟩ := hx s hc hf
  obtain ⟨b, s₂, h4, h5⟩ := hk a _ h3 s₁ rfl h2
  exact ⟨b, s₂, by rw [bind_ok h1, h4], h5⟩

theorem post {m : M β} (h : Ends m c Q) (hq : ∀ b c', Q b c' → Q' b c') : Ends m c Q' := by
  intro s hc hf
  obtain ⟨b, s', h1, h2, h3⟩ := h s hc hf
  exact ⟨b, s', h1, h2, hq b _ h3⟩

theorem core {k : Core → M β} (h : Ends (k c) c Q) : Ends (getCore >>= k) c Q := by
  intro s hc hf
  obtain ⟨b, s', h1, h2⟩ := h s hc hf
  exact ⟨b, s', by rw [bind_ok (show getCore s = .ok c s by rw [← hc]; rfl), h1], h2⟩

theorem clusterBuffer {k : Buf → M β} (h : ∀ b, Ends (k b) c Q) : Ends (getClusterBuffer >>= k) c Q :=
  fun s hc hf => h s.clusterBuffer s hc hf

/-- A part whose outcome does not depend on the disk. -/
theorem step {x : M α} {k : α → M β} {a : α} (hx : ∀ f, Runs x c f a c' f) (hk : Ends (k a) c' Q) :
    Ends (x >>= k) c Q := by
  intro s hc hf
  obtain ⟨s₁, h1, h2, h3⟩ := (hx s.faults).run hc rfl
  obtain ⟨b, s₂, h4, h5⟩ := hk s₁ h2 (by rw [h3]; exact hf)
  exact ⟨b, s₂, by rw [bind_ok h1, h4], h5⟩

/-- A part that only reads. -/
theorem looks {m : M β} {n : Nat} {r e : β} (h : Looks m c n r e) (hr : Q r c) (he : Q e c) : Ends m c Q := by
  intro s hc hf
  rcases succeeds_or_fails s.faults n with hs | ⟨i, hi, hfail⟩
  · obtain ⟨s', h1, h2, h3⟩ := (h.finds _ hs).run hc rfl
    exact ⟨r, s', h1, by rw [h3]; exact hf.later n, by rw [h2]; exact hr⟩
  · obtain ⟨s', h1, h2, h3⟩ := (h.fails _ i hi hfail).run hc rfl
    exact ⟨e, s', h1, by rw [h3]; exact hf.later _, by rw [h2]; exact he⟩

/-- A cluster read, or not. -/
theorem read {cluster : Nat} {k : Bool × Buf → M β} (hn : c.fs.sectorsPerCluster ≠ 0)
    (hok : ∀ b : Buf, (∀ i < sectorSize * c.fs.sectorsPerCluster, b i = c.clusterBytes cluster i) →
      Ends (k (true, b)) c Q)
    (hfail : ∀ b, Ends (k (false, b)) c Q) : Ends (readCluster cluster >>= k) c Q := by
  intro s hc hf
  subst hc
  obtain ⟨b, h1, h2⟩ := readCluster_run cluster s hn
  rcases hf 0 with h0 | h0
  · obtain ⟨a, s', h3, h4⟩ :=
      hok b (h2 h0) { s with faults := later s.faults 1, clusterBuffer := b } rfl (hf.later 1)
    exact ⟨a, s', by rw [bind_ok h1, h0]; exact h3, h4⟩
  · obtain ⟨a, s', h3, h4⟩ := hfail b { s with faults := later s.faults 1, clusterBuffer := b } rfl (hf.later 1)
    exact ⟨a, s', by rw [bind_ok h1, h0]; exact h3, h4⟩

/-- A cluster written, or left as it was. -/
theorem write {cluster : Nat} {buffer b : Buf} {k : Bool → M β} (hn : c.fs.sectorsPerCluster ≠ 0)
    (hb : ∀ i < sectorSize * c.fs.sectorsPerCluster, buffer i = b i)
    (hok : Ends (k true) (c.putCluster cluster b) Q) (hfail : Ends (k false) c Q) :
    Ends (writeCluster cluster buffer >>= k) c Q := by
  intro s hc hf
  obtain ⟨s₁, h1, h2, h3⟩ := (runs_writeCluster c s.faults hn hb).run hc rfl
  have hf₁ : Clean s₁.faults := by
    rw [h3]
    exact hf.later 1
  rcases hf 0 with h0 | h0
  · rw [h0] at h1 h2
    obtain ⟨a, s₂, h4, h5⟩ := hok s₁ h2 hf₁
    exact ⟨a, s₂, by rw [bind_ok h1]; exact h4, h5⟩
  · rw [h0] at h1 h2
    obtain ⟨a, s₂, h4, h5⟩ := hfail s₁ (by rw [h2, transferred, Nat.zero_min, putPart_zero]) hf₁
    exact ⟨a, s₂, by rw [bind_ok h1]; exact h4, h5⟩

end Ends

end AltoniumOS.Fat12

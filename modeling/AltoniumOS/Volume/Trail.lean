/-
The stack of a path walk as a trail down the tree: each level is a subdirectory of the one before it,
under the name it is listed by. A walk keeps it a trail; what it can lose is the end of it, when a
directory is entered with all the levels taken.
-/
import AltoniumOS.Volume.Edit

namespace AltoniumOS.Fat12

open AltoniumOS.Lib

namespace Volume

variable {V W : Volume} {P P' : Set Nat}

/-! ## Depth -/

/-- The directory `d` lies `m` levels below the root. -/
inductive AtDepth (V : Volume) : Nat → Nat → Prop
  | root : AtDepth V 0 0
  | sub {k d m : Nat} : AtDepth V d m → V.IsDir k d → k ≠ 0 → AtDepth V k (m + 1)

theorem AtDepth.unique (h : V.WF P) : ∀ {d m m' : Nat}, V.AtDepth d m → V.AtDepth d m' → m = m'
  | _, _, _, .root, .root => rfl
  | _, _, _, .root, .sub _ _ h0 => absurd rfl h0
  | _, _, _, .sub _ _ h0, .root => absurd rfl h0
  | _, _, _, .sub hd hk _, .sub hd' hk' _ => by
    obtain rfl := h.parent_unique hk hk'
    rw [AtDepth.unique h hd hd']

theorem AtDepth.mono (hm : ∀ x q, V.IsDir x q → W.IsDir x q) : ∀ {d m : Nat}, V.AtDepth d m → W.AtDepth d m
  | _, _, .root => .root
  | _, _, .sub hd hk h0 => .sub (hd.mono hm) (hm _ _ hk) h0

/-! ## Children -/

/-- `k` is a subdirectory of `d`, found under an encodable name and displayed as `name`. -/
def Child (V : Volume) (d k : Nat) (name : List UInt8) : Prop :=
  ∃ input n e, makeShortName input = .ok n ∧ V.find d n = some e ∧ e.isDirectory = true ∧ e.cluster = k ∧
    dirNameToString e.name = name

theorem WF.child_isDir (h : V.WF P) {d k : Nat} {name : List UInt8} (hd : V.Dir d) (hc : V.Child d k name) :
    V.IsDir k d ∧ k ≠ 0 := by
  obtain ⟨input, n, e, hn, he, hi, rfl, -⟩ := hc
  have hn := makeShortName_proper hn
  refine ⟨h.find_dir hd hn he hi, ?_⟩
  obtain ⟨q, hq⟩ := hd
  obtain ⟨p, -, hp, rfl⟩ := h.entry_of_find hq hn he
  obtain ⟨l, hl⟩ := h.dir p (hp.entry hq) hi
  have := hl.start.1
  omega

/-! ## Trails -/

/-- `levels` lead down from the directory `d`. -/
def Trail (V : Volume) : Nat → List (Nat × List UInt8) → Prop
  | _, [] => True
  | d, (k, name) :: rest => V.Child d k name ∧ Trail V k rest

/-- Where `levels` lead from `d`. -/
def bottom (d : Nat) : List (Nat × List UInt8) → Nat
  | [] => d
  | (k, _) :: rest => bottom k rest

theorem bottom_snoc {k : Nat} {name : List UInt8} :
    ∀ {l : List (Nat × List UInt8)} {d : Nat}, bottom d (l ++ [(k, name)]) = k
  | [], _ => rfl
  | _ :: l, _ => @bottom_snoc _ _ l _

theorem top_eq_bottom (stack : PathStack) : stack.top = bottom 0 stack.levels := by
  unfold PathStack.top PathStack.clusters
  rcases List.eq_nil_or_concat stack.levels with h | ⟨l, x, h⟩
  · rw [h]; rfl
  · rw [h, List.concat_eq_append, bottom_snoc]
    simp

theorem trail_append {m : List (Nat × List UInt8)} : ∀ {l : List (Nat × List UInt8)} {d : Nat},
    V.Trail d (l ++ m) ↔ V.Trail d l ∧ V.Trail (bottom d l) m
  | [], d => by simp [Trail, bottom]
  | (k, name) :: l, d => by
    rw [List.cons_append, Trail, Trail, trail_append, and_assoc]
    rfl

theorem Trail.dropLast {d : Nat} {l : List (Nat × List UInt8)} (h : V.Trail d l) : V.Trail d l.dropLast := by
  rcases List.eq_nil_or_concat l with rfl | ⟨l', x, rfl⟩
  · exact h
  · rw [List.concat_eq_append] at h ⊢
    rw [List.dropLast_concat]
    exact (trail_append.1 h).1

/-- A trail leads to a directory, as many levels down as it has. -/
theorem WF.trail_depth (h : V.WF P) :
    ∀ {l : List (Nat × List UInt8)} {d m : Nat}, V.Dir d → V.AtDepth d m → V.Trail d l →
      V.AtDepth (bottom d l) (m + l.length)
  | [], _, _, _, ha, _ => ha
  | (k, name) :: l, d, m, hd, ha, ht => by
    obtain ⟨h1, h2⟩ := h.child_isDir hd ht.1
    have := h.trail_depth ⟨d, h1⟩ (ha.sub h1 h2) ht.2
    rw [List.length_cons, Nat.add_right_comm] at *
    exact this

/-! ## Where a walk stands -/

/-- The stack leads to the directory, or is full and leads to one it lies below. -/
structure Anchored (V : Volume) (cluster : Nat) (stack : PathStack) : Prop where
  trail : V.Trail 0 stack.levels
  current : cluster = stack.top ∨ (stack.levels.length = maxPathDepth ∧ ∃ m, V.AtDepth cluster m ∧ maxPathDepth < m)

theorem Anchored.root (V : Volume) : V.Anchored 0 .empty := ⟨trivial, .inl rfl⟩

/-- The directory a stack leads to lies as deep as the stack has levels. -/
theorem WF.top_depth (h : V.WF P) {stack : PathStack} (ht : V.Trail 0 stack.levels) :
    V.AtDepth stack.top stack.levels.length := by
  have := h.trail_depth dir_root .root ht
  rwa [← top_eq_bottom, Nat.zero_add] at this

/-- No deeper than the stack has room for, the stack leads to the directory itself. -/
theorem Anchored.eq_top (h : V.WF P) {cluster : Nat} {stack : PathStack} (a : V.Anchored cluster stack) {m : Nat}
    (hm : V.AtDepth cluster m) (hle : m ≤ maxPathDepth) : cluster = stack.top ∧ stack.levels.length = m := by
  rcases a.current with h1 | ⟨-, m', h2, h3⟩
  · exact ⟨h1, (h.top_depth a.trail).unique h (h1 ▸ hm)⟩
  · have := hm.unique h h2
    omega

theorem Anchored.pop {cluster : Nat} {stack : PathStack} (a : V.Anchored cluster stack) :
    V.Anchored stack.pop.top stack.pop :=
  ⟨a.trail.dropLast, .inl rfl⟩

theorem push_levels {stack : PathStack} (k : Nat) (name : List UInt8) (h : stack.levels.length < maxPathDepth) :
    (stack.push k name).levels = stack.levels ++ [(k, name)] := by
  unfold PathStack.push
  rw [dif_pos h]

theorem push_full {stack : PathStack} (k : Nat) (name : List UInt8) (h : ¬ stack.levels.length < maxPathDepth) :
    stack.push k name = stack := dif_neg h

theorem push_top {stack : PathStack} (k : Nat) (name : List UInt8) (h : stack.levels.length < maxPathDepth) :
    (stack.push k name).top = k := by
  rw [top_eq_bottom, push_levels k name h, bottom_snoc]

theorem pop_push {stack : PathStack} (k : Nat) (name : List UInt8) (h : stack.levels.length < maxPathDepth) :
    (stack.push k name).pop = stack := by
  apply PathStack.ext
  show (stack.push k name).levels.dropLast = stack.levels
  rw [push_levels k name h, List.dropLast_concat]

/-- Entering a subdirectory. -/
theorem Anchored.push (h : V.WF P) {cluster k : Nat} {stack : PathStack} {name : List UInt8}
    (a : V.Anchored cluster stack) (hd : V.Dir cluster) (hc : V.Child cluster k name) :
    V.Anchored k (stack.push k name) := by
  obtain ⟨hk, hk0⟩ := h.child_isDir hd hc
  by_cases hl : stack.levels.length < maxPathDepth
  · have htop := a.current.resolve_right fun hf => by omega
    refine ⟨?_, .inl (push_top k name hl).symm⟩
    rw [push_levels k name hl, trail_append, ← top_eq_bottom, ← htop]
    exact ⟨a.trail, hc, trivial⟩
  · rw [push_full k name hl]
    have hb := stack.bounded
    refine ⟨a.trail, .inr ⟨by omega, ?_⟩⟩
    rcases a.current with h1 | ⟨-, m, h2, h3⟩
    · have := h.top_depth a.trail
      rw [← h1] at this
      exact ⟨_, this.sub hk hk0, by omega⟩
    · exact ⟨_, h2.sub hk hk0, by omega⟩

/-- A walk arrives with a stack that leads to where it is, or is full. -/
theorem WF.walk_anchored (h : V.WF P) :
    ∀ {cs : List (List UInt8)} {cluster : Nat} {stack : PathStack} {r : Nat × PathStack},
      V.Dir cluster → V.Dirs stack → V.Anchored cluster stack → V.walk cluster stack cs = .ok r → V.Anchored r.1 r.2
  | [], _, _, _, _, _, a, hw => by cases hw; exact a
  | component :: rest, cluster, stack, r, hc, hs, a, hw => by
    rw [walk] at hw
    split at hw
    · exact h.walk_anchored hc hs a hw
    · split at hw
      · exact h.walk_anchored hs.pop.top hs.pop a.pop hw
      · split at hw
        · cases hw
        · rename_i n hn
          split at hw
          · cases hw
          · rename_i e he
            split at hw
            · cases hw
            · rename_i hi
              have hi : e.isDirectory = true := by simpa using hi
              have hchild : V.Child cluster e.cluster (dirNameToString e.name) :=
                ⟨component, n, e, hn, he, hi, rfl, rfl⟩
              have hd : V.Dir e.cluster := ⟨_, (h.child_isDir hc hchild).1⟩
              exact h.walk_anchored hd (hs.push hd _) (a.push h hc hchild) hw

/-! ## Trails after a change -/

theorem Trail.mono (hm : ∀ d k name, V.Dir d → V.Child d k name → W.Child d k name) (h : V.WF P) :
    ∀ {l : List (Nat × List UInt8)} {d : Nat}, V.Dir d → V.Trail d l → W.Trail d l
  | [], _, _, _ => trivial
  | (k, name) :: _, d, hd, ht =>
    ⟨hm d k name hd ht.1, ht.2.mono hm h ⟨d, (h.child_isDir hd ht.1).1⟩⟩

/-- Children stay children when nothing but a file or an unused slot changes. -/
theorem Edit.child (h : V.WF P) (h' : W.WF P') {d : Nat} {n : ShortName} {o e : RawDirEntry} (hd : V.Dir d)
    (t : Edit V W d n o e) {x k : Nat} {name : List UInt8} (hx : V.Dir x) (hc : V.Child x k name) :
    W.Child x k name := by
  obtain ⟨input, m, e', hm, he, hi, h1, h2⟩ := hc
  refine ⟨input, m, e', hm, ?_, hi, h1, h2⟩
  rw [(t.apart h h' hd).find x m hx (makeShortName_proper hm) ?_]
  · exact he
  · intro heq
    obtain ⟨rfl, rfl⟩ := Prod.mk.inj heq
    obtain ⟨rfl, ho⟩ := t.old e' he
    rw [ho] at hi
    cases hi

theorem Anchored.mono (h : V.WF P) (hdir : ∀ x q, V.IsDir x q → W.IsDir x q)
    (hchild : ∀ d k name, V.Dir d → V.Child d k name → W.Child d k name) {cluster : Nat} {stack : PathStack}
    (a : V.Anchored cluster stack) : W.Anchored cluster stack :=
  ⟨a.trail.mono hchild h dir_root, a.current.imp id fun ⟨h1, m, h2, h3⟩ => ⟨h1, m, h2.mono hdir, h3⟩⟩

end Volume

end AltoniumOS.Fat12

/-
Levels: how many of them a walk counts, the one way down to a directory, and the walk along the names on it.
-/
import AltoniumOS.Fat12.Cwd
import AltoniumOS.Volume.Trail

namespace AltoniumOS.Fat12

open AltoniumOS.Lib

/-- The levels on the path stack, and whether the walk is below them, after one more component: a name takes
a level if one is left. -/
def countLevel (r : Nat × Bool) (component : List UInt8) : Nat × Bool :=
  if component = [dot] then r
  else if component = [dot, dot] then (r.1 - 1, false)
  else if r.1 < maxPathDepth then (r.1 + 1, r.2)
  else (r.1, true)

namespace Volume

variable {V : Volume} {P : Set Nat}

/-! ## Levels of a walk -/

theorem AtDepth.dir {d m : Nat} (h : V.AtDepth d m) : V.Dir d := by
  cases h with
  | root => exact dir_root
  | sub _ hk _ => exact ⟨_, hk⟩

/-- A directory entered with all levels taken is not the one the stack leads to. -/
theorem Anchored.ne_top (h : V.WF P) {cluster k : Nat} {stack : PathStack} {name : List UInt8}
    (a : V.Anchored cluster stack) (hd : V.Dir cluster) (hc : V.Child cluster k name)
    (hfull : ¬ stack.levels.length < maxPathDepth) : k ≠ stack.top := by
  rintro rfl
  obtain ⟨hk, hk0⟩ := h.child_isDir hd hc
  have htop := h.top_depth a.trail
  have hb := stack.bounded
  rcases a.current with rfl | ⟨-, m, hm, hlt⟩
  · have := (htop.sub hk hk0).unique h htop
    omega
  · have := (hm.sub hk hk0).unique h htop
    omega

/-- Whether a walk ends below its stack can be counted. -/
theorem WF.walk_levels (h : V.WF P) :
    ∀ {cs : List (List UInt8)} {cluster : Nat} {stack : PathStack} {r : Nat × PathStack} (below : Bool),
      V.Dir cluster → V.Dirs stack → V.Anchored cluster stack → (below = true ↔ cluster ≠ stack.top) →
      V.walk cluster stack cs = .ok r →
      ((cs.foldl countLevel (stack.levels.length, below)).2 = true ↔ r.1 ≠ r.2.top)
  | [], _, _, _, _, _, _, _, hb, hw => by
    cases hw
    exact hb
  | component :: rest, cluster, stack, r, below, hc, hs, a, hb, hw => by
    rw [walk] at hw
    rw [List.foldl_cons, countLevel]
    split at hw
    · rename_i hdot
      rw [if_pos hdot]
      exact h.walk_levels below hc hs a hb hw
    · rename_i hdot
      rw [if_neg hdot]
      split at hw
      · rename_i hup
        have hpop : stack.pop.levels.length = stack.levels.length - 1 := List.length_dropLast
        rw [if_pos hup, ← hpop]
        exact h.walk_levels false hs.pop.top hs.pop a.pop (by simp) hw
      · rename_i hup
        rw [if_neg hup]
        split at hw
        · cases hw
        · rename_i n hn
          split at hw
          · cases hw
          · rename_i e he
            split at hw
            · cases hw
            · rename_i hi
              have hchild : V.Child cluster e.cluster (dirNameToString e.name) :=
                ⟨component, n, e, hn, he, by simpa using hi, rfl, rfl⟩
              have hd : V.Dir e.cluster := ⟨_, (h.child_isDir hc hchild).1⟩
              have hpush := a.push h hc hchild
              by_cases hl : stack.levels.length < maxPathDepth
              · have htop : cluster = stack.top := a.current.resolve_right fun hf => by omega
                have hlen : (stack.push e.cluster (dirNameToString e.name)).levels.length =
                    stack.levels.length + 1 := by
                  rw [push_levels _ _ hl, List.length_append]
                  rfl
                rw [if_pos hl, ← hlen]
                refine h.walk_levels below hd (hs.push hd _) hpush ?_ hw
                rw [push_top _ _ hl, hb]
                simp [htop]
              · rw [if_neg hl]
                have hne := a.ne_top h hc hchild hl
                rw [push_full _ _ hl] at hw hpush
                exact h.walk_levels true hd hs hpush (iff_of_true rfl hne) hw

/-! ## The way down -/

theorem Child.congr {W : Volume} {d k : Nat} {name : List UInt8} (hc : V.Child d k name)
    (hs : W.slots d = V.slots d) : W.Child d k name := by
  obtain ⟨input, n, e, hn, he, h⟩ := hc
  exact ⟨input, n, e, hn, (find_congr hs).trans he, h⟩

/-- Under one directory, and by one name, is a directory found. -/
theorem WF.child_unique (h : V.WF P) {d d' k : Nat} {name name' : List UInt8} (hd : V.Dir d) (hd' : V.Dir d')
    (hc : V.Child d k name) (hc' : V.Child d' k name') : d = d' ∧ name = name' := by
  refine ⟨h.parent_unique (h.child_isDir hd hc).1 (h.child_isDir hd' hc').1, ?_⟩
  obtain ⟨input, n, e, hn, he, hi, hk, rfl⟩ := hc
  obtain ⟨input', n', e', hn', he', hi', hk', rfl⟩ := hc'
  obtain ⟨q, hq⟩ := hd
  obtain ⟨q', hq'⟩ := hd'
  obtain ⟨p, -, hp, rfl⟩ := h.entry_of_find hq (makeShortName_proper hn) he
  obtain ⟨p', -, hp', rfl⟩ := h.entry_of_find hq' (makeShortName_proper hn') he'
  rw [h.entry_unique_of_cluster (hp.entry hq) (hp'.entry hq') hi (hk'.trans hk.symm)]

/-- There is one way down to a directory. -/
theorem WF.trail_unique (h : V.WF P) {l l' : List (Nat × List UInt8)} (ht : V.Trail 0 l) (ht' : V.Trail 0 l')
    (hb : bottom 0 l = bottom 0 l') : l = l' := by
  have hdepth : ∀ {l : List (Nat × List UInt8)}, V.Trail 0 l → V.AtDepth (bottom 0 l) l.length := fun {l} ht => by
    have := h.trail_depth dir_root .root ht
    rwa [Nat.zero_add] at this
  have hlen : l.length = l'.length := (hdepth ht).unique h (hb ▸ hdepth ht')
  induction l using List.reverseRecOn generalizing l' with
  | nil => exact (List.length_eq_zero_iff.1 hlen.symm).symm
  | append_singleton l x ih =>
    obtain ⟨m, y, rfl⟩ : ∃ m y, l' = m ++ [y] := by
      rcases List.eq_nil_or_concat l' with rfl | ⟨m, y, hm⟩
      · simp at hlen
      · exact ⟨m, y, by rw [hm, List.concat_eq_append]⟩
    obtain ⟨k, name⟩ := x
    obtain ⟨k', name'⟩ := y
    obtain ⟨hl, hc, -⟩ := trail_append.1 ht
    obtain ⟨hm, hc', -⟩ := trail_append.1 ht'
    rw [bottom_snoc, bottom_snoc] at hb
    subst hb
    obtain ⟨hbottom, rfl⟩ := h.child_unique (hdepth hl).dir (hdepth hm).dir hc hc'
    rw [ih hl hm hbottom (by simpa using hlen)]

/-! ## The walk along the names -/

/-- A child is entered by the name it is shown under. -/
theorem WF.child_name (h : V.WF P) {d k : Nat} {name : List UInt8} (hd : V.Dir d) (hc : V.Child d k name) :
    IsComponent name ∧ ∀ stack, V.walk d stack [name] = .ok (k, stack.push k name) := by
  obtain ⟨input, n, e, hn, he, hi, rfl, rfl⟩ := hc
  obtain ⟨-, -, rfl⟩ := (h.find_iff hd).1 he
  obtain ⟨base, ext, hs, hname⟩ := makeShortName_iff.1 hn
  have hst := hs.stored hname
  refine ⟨hst.isComponent, fun stack => ?_⟩
  rw [walk, if_neg hst.ne_dots.1, if_neg hst.ne_dots.2, hst.encode]
  dsimp only
  rw [he]
  dsimp only
  rw [hi, if_neg (by decide), walk]

theorem WF.trail_names (h : V.WF P) : ∀ {l : List (Nat × List UInt8)} {d : Nat}, V.Dir d → V.Trail d l →
    ∀ name ∈ l.map (·.2), IsComponent name
  | [], _, _, _ => fun _ hn => nomatch hn
  | (k, name) :: l, d, hd, ht => by
    have hk : V.Dir k := ⟨_, (h.child_isDir hd ht.1).1⟩
    intro m hm
    rcases List.mem_cons.1 hm with rfl | hm
    · exact (h.child_name hd ht.1).1
    · exact h.trail_names hk ht.2 m hm

/-- The names of a trail lead where the trail leads. -/
theorem WF.walk_trail (h : V.WF P) :
    ∀ {l : List (Nat × List UInt8)} {d : Nat} (stack : PathStack), V.Dir d → V.Trail d l →
      ∃ st, V.walk d stack (l.map (·.2)) = .ok (bottom d l, st)
  | [], _, stack, _, _ => ⟨stack, rfl⟩
  | (k, name) :: l, d, stack, hd, ht => by
    have hk : V.Dir k := ⟨_, (h.child_isDir hd ht.1).1⟩
    obtain ⟨st, hst⟩ := h.walk_trail (stack.push k name) hk ht.2
    refine ⟨st, ?_⟩
    rw [List.map_cons, ← List.singleton_append, walk_append, (h.child_name hd ht.1).2]
    exact hst

theorem Trail.take {l : List (Nat × List UInt8)} {d : Nat} (ht : V.Trail d l) (j : Nat) : V.Trail d (l.take j) := by
  rw [← List.take_append_drop j l] at ht
  exact (trail_append.1 ht).1

end Volume

end AltoniumOS.Fat12

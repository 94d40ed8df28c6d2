/-
A volume as a tree of directories and files, addressed by the names on the way down from the root: what the entries
and chains of a well-formed volume amount to, with the clusters left out.
-/
import AltoniumOS.Lib.Hierarchy
import AltoniumOS.Volume.Levels

namespace AltoniumOS.Fat12

open AltoniumOS.Lib

/-- The names a path can spell. -/
abbrev FileName := {n : ShortName // ∃ input, makeShortName input = .ok n}

theorem FileName.proper (n : FileName) : n.1.Proper := by
  obtain ⟨input, hn⟩ := n.2
  exact makeShortName_proper hn

/-- As listings show it. -/
def FileName.display (n : FileName) : List UInt8 := dirNameToString n.1

theorem FileName.stored (n : FileName) : ∃ base ext, StoredName n.1 base ext := by
  obtain ⟨input, hn⟩ := n.2
  obtain ⟨base, ext, hs, hname⟩ := makeShortName_iff.1 hn
  exact ⟨_, _, hs.stored hname⟩

theorem FileName.display_injective {n m : FileName} (h : n.display = m.display) : n = m := by
  obtain ⟨base, ext, hn⟩ := n.stored
  obtain ⟨base', ext', hm⟩ := m.stored
  exact Subtype.ext (hn.display_injective hm h)

/-- What a component of a path asks a walk to do. -/
def part (component : List UInt8) : Option (Step FileName) :=
  if component = [dot] then some .here
  else if component = [dot, dot] then some .up
  else
    match h : makeShortName component with
    | .ok n => some (.down ⟨n, component, h⟩)
    | .error _ => none

section

variable {component : List UInt8}

theorem part_dot : part [dot] = some .here := rfl

theorem part_up : part [dot, dot] = some .up := rfl

theorem part_name {n : ShortName} (h1 : component ≠ [dot]) (h2 : component ≠ [dot, dot])
    (hn : makeShortName component = .ok n) : part component = some (.down ⟨n, component, hn⟩) := by
  unfold part
  rw [if_neg h1, if_neg h2]
  split
  · rename_i m hm
    obtain rfl : m = n := Except.ok.inj (hm.symm.trans hn)
    rfl
  · rename_i e he
    rw [he] at hn
    cases hn

theorem part_bad {e : Code} (h1 : component ≠ [dot]) (h2 : component ≠ [dot, dot])
    (hn : makeShortName component = .error e) : part component = none := by
  unfold part
  rw [if_neg h1, if_neg h2]
  split
  · rename_i m hm
    rw [hm] at hn
    cases hn
  · rfl

end

/-- The code a walk that ends early returns. -/
def troubleCode : Trouble → Code
  | .badName => .errInvalidName
  | .missing => .errNotFound
  | .notDirectory => .errNotDirectory

namespace Volume

variable (V : Volume)

/-- The subdirectory `n` of the directory `d`. -/
def sub (d : Nat) (n : FileName) : Option Nat :=
  (V.find d n.1).bind fun e => if e.isDirectory then some e.cluster else none

/-- The directory the names lead to from `d`. -/
def dirFrom : Nat → List FileName → Option Nat
  | d, [] => some d
  | d, n :: p => (V.sub d n).bind fun k => dirFrom k p

/-- The directories on the way, as a path stack holds them. -/
def levelsFrom : Nat → List FileName → List (Nat × List UInt8)
  | _, [] => []
  | d, n :: p =>
    match V.sub d n with
    | some k => (k, n.display) :: levelsFrom k p
    | none => []

/-- What an entry names. -/
def nodeOf (e : RawDirEntry) : Node (List UInt8) :=
  if e.isDirectory then .dir else .file ((List.range e.size).map (V.content e.cluster))

/-- What the names lead to from the root. -/
def node (p : List FileName) : Option (Node (List UInt8)) :=
  match p.getLast? with
  | none => some .dir
  | some n => (V.dirFrom 0 p.dropLast).bind fun d => (V.find d n.1).map V.nodeOf

variable {V} {W : Volume} {P P' : Set Nat} {d k : Nat} {n : FileName} {p q : List FileName}

/-! ## Going down -/

theorem find_name {m : ShortName} {e : RawDirEntry} (h : V.find d m = some e) : e.name = m := by
  rw [find_eq, Option.map_eq_some_iff] at h
  obtain ⟨x, hx, rfl⟩ := h
  exact (lookup_some hx).2.2

theorem sub_iff : V.sub d n = some k ↔ ∃ e, V.find d n.1 = some e ∧ e.isDirectory = true ∧ e.cluster = k := by
  unfold sub
  rw [Option.bind_eq_some_iff]
  refine exists_congr fun e => and_congr_right fun _ => ?_
  cases e.isDirectory <;> simp

/-- A subdirectory is a child under the name it is listed by. -/
theorem child_of_sub (h : V.sub d n = some k) : V.Child d k n.display := by
  obtain ⟨e, he, hi, rfl⟩ := sub_iff.1 h
  obtain ⟨input, hn⟩ := n.2
  exact ⟨input, n.1, e, hn, he, hi, rfl, by rw [find_name he]; rfl⟩

theorem dirFrom_append :
    ∀ {p q : List FileName} {d : Nat}, V.dirFrom d (p ++ q) = (V.dirFrom d p).bind fun x => V.dirFrom x q
  | [], q, d => rfl
  | n :: p, q, d => by
    rw [List.cons_append, dirFrom, dirFrom]
    cases V.sub d n with
    | none => rfl
    | some k => exact dirFrom_append

theorem dirFrom_snoc : V.dirFrom d (p ++ [n]) = (V.dirFrom d p).bind fun x => V.sub x n := by
  rw [dirFrom_append]
  refine congrArg _ (funext fun x => ?_)
  rw [dirFrom]
  cases V.sub x n <;> rfl

/-- The way to a directory starts with the way to one above it. -/
theorem dirFrom_take {x : Nat} (h : V.dirFrom d p = some x) (i : Nat) : ∃ y, V.dirFrom d (p.take i) = some y := by
  rw [← List.take_append_drop i p, dirFrom_append, Option.bind_eq_some_iff] at h
  obtain ⟨y, hy, -⟩ := h
  exact ⟨y, hy⟩

theorem levelsFrom_snoc : ∀ {p : List FileName} {d x : Nat}, V.dirFrom d p = some x → V.sub x n = some k →
    V.levelsFrom d (p ++ [n]) = V.levelsFrom d p ++ [(k, n.display)]
  | [], d, x, hp, hk => by
    cases hp
    show V.levelsFrom d [n] = [(k, n.display)]
    rw [levelsFrom, hk]
    rfl
  | m :: p, d, x, hp, hk => by
    rw [dirFrom] at hp
    obtain ⟨y, hy, hp⟩ := Option.bind_eq_some_iff.1 hp
    rw [List.cons_append, levelsFrom, levelsFrom, hy]
    exact congrArg _ (levelsFrom_snoc hp hk)

/-- The levels of a way down form a trail that ends where it does. -/
theorem trail_levelsFrom :
    ∀ {p : List FileName} {d x : Nat}, V.dirFrom d p = some x →
      V.Trail d (V.levelsFrom d p) ∧ bottom d (V.levelsFrom d p) = x ∧
      (V.levelsFrom d p).map (·.2) = p.map FileName.display
  | [], d, x, hp => by
    cases hp
    exact ⟨trivial, rfl, rfl⟩
  | m :: p, d, x, hp => by
    rw [dirFrom] at hp
    obtain ⟨y, hy, hp⟩ := Option.bind_eq_some_iff.1 hp
    obtain ⟨h1, h2, h3⟩ := trail_levelsFrom hp
    rw [levelsFrom, hy]
    exact ⟨⟨child_of_sub hy, h1⟩, h2, congrArg _ h3⟩

theorem length_levelsFrom {x : Nat} (h : V.dirFrom d p = some x) : (V.levelsFrom d p).length = p.length := by
  rw [← List.length_map, (trail_levelsFrom h).2.2, List.length_map]

theorem WF.dirFrom_dir (h : V.WF P) : ∀ {p : List FileName} {d x : Nat}, V.Dir d → V.dirFrom d p = some x → V.Dir x
  | [], d, x, hd, hp => by
    cases hp
    exact hd
  | m :: p, d, x, hd, hp => by
    rw [dirFrom] at hp
    obtain ⟨y, hy, hp⟩ := Option.bind_eq_some_iff.1 hp
    exact h.dirFrom_dir ⟨d, (h.child_isDir hd (child_of_sub hy)).1⟩ hp

/-- There is one way down to a directory. -/
theorem WF.dirFrom_inj (h : V.WF P) (hp : V.dirFrom 0 p = some d) (hq : V.dirFrom 0 q = some d) : p = q := by
  obtain ⟨hp1, hp2, hp3⟩ := trail_levelsFrom hp
  obtain ⟨hq1, hq2, hq3⟩ := trail_levelsFrom hq
  have hlevels := h.trail_unique hp1 hq1 (hp2.trans hq2.symm)
  rw [hlevels, hq3] at hp3
  exact (List.map_injective_iff.2 fun _ _ => FileName.display_injective) hp3.symm

/-! ## The tree -/

theorem node_nil (V : Volume) : V.node [] = some .dir := rfl

theorem node_snoc : V.node (p ++ [n]) = (V.dirFrom 0 p).bind fun d => (V.find d n.1).map V.nodeOf := by
  unfold node
  rw [List.getLast?_concat, List.dropLast_concat]

theorem nodeOf_dir {e : RawDirEntry} : V.nodeOf e = .dir ↔ e.isDirectory = true := by
  unfold nodeOf
  split <;> simp_all

/-- The names that lead to a directory are those of the directories on the volume. -/
theorem node_dir : V.node p = some .dir ↔ ∃ d, V.dirFrom 0 p = some d := by
  induction p using List.reverseRecOn with
  | nil => exact iff_of_true rfl ⟨0, rfl⟩
  | append_singleton p n ih =>
    rw [node_snoc, dirFrom_snoc]
    cases V.dirFrom 0 p with
    | none => simp
    | some d =>
      show (V.find d n.1).map V.nodeOf = some .dir ↔ ∃ k, V.sub d n = some k
      simp only [sub_iff, Option.map_eq_some_iff, nodeOf_dir]
      constructor
      · rintro ⟨e, he, hi⟩
        exact ⟨_, e, he, hi, rfl⟩
      · rintro ⟨_, e, he, hi, -⟩
        exact ⟨e, he, hi⟩

/-- The tree of a volume. -/
def tree (V : Volume) : Hierarchy FileName (List UInt8) where
  node := V.node
  root := V.node_nil
  parent p n h := by
    rw [node_snoc] at h
    cases hp : V.dirFrom 0 p with
    | none =>
      rw [hp] at h
      cases h
    | some d => exact node_dir.2 ⟨d, hp⟩

/-! ## Walks in the tree -/

/-- The driver's position as names: the way down to the directory, of which the stack holds the first levels. -/
structure Stands (V : Volume) (cluster : Nat) (stack : PathStack) (p : List FileName) : Prop where
  current : V.dirFrom 0 p = some cluster
  levels : stack.levels = V.levelsFrom 0 (p.take maxPathDepth)

theorem Stands.root (V : Volume) : V.Stands 0 .empty [] := ⟨rfl, rfl⟩

variable {cluster : Nat} {stack : PathStack}

theorem Stands.length (s : V.Stands cluster stack p) : stack.levels.length = min maxPathDepth p.length := by
  obtain ⟨y, hy⟩ := dirFrom_take s.current maxPathDepth
  rw [s.levels, length_levelsFrom hy, List.length_take]

theorem Stands.pop (s : V.Stands cluster stack p) : V.Stands stack.pop.top stack.pop (ascend maxPathDepth p) := by
  have htake : (p.take maxPathDepth).dropLast = (p.take maxPathDepth).take ((p.take maxPathDepth).length - 1) :=
    List.dropLast_eq_take
  obtain ⟨y, hy⟩ := dirFrom_take s.current maxPathDepth
  obtain ⟨x, hx⟩ : ∃ x, V.dirFrom 0 (ascend maxPathDepth p) = some x := by
    unfold ascend
    rw [htake]
    exact dirFrom_take hy _
  have hlevels : stack.pop.levels = V.levelsFrom 0 (ascend maxPathDepth p) := by
    show stack.levels.dropLast = _
    rw [s.levels]
    unfold ascend
    rcases List.eq_nil_or_concat (p.take maxPathDepth) with hnil | ⟨r, m, hr⟩
    · rw [hnil]
      rfl
    · rw [List.concat_eq_append] at hr
      rw [hr] at hy ⊢
      rw [dirFrom_snoc] at hy
      obtain ⟨z, hz, hm⟩ := Option.bind_eq_some_iff.1 hy
      rw [levelsFrom_snoc hz hm, List.dropLast_concat, List.dropLast_concat]
  refine ⟨?_, by rw [hlevels, ascend_take]⟩
  rw [hx, top_eq_bottom, hlevels, (trail_levelsFrom hx).2.1]

theorem Stands.push (s : V.Stands cluster stack p) (hk : V.sub cluster n = some k) :
    V.Stands k (stack.push k n.display) (p ++ [n]) := by
  have hlen := s.length
  refine ⟨by rw [dirFrom_snoc, s.current]; exact hk, ?_⟩
  by_cases hl : p.length < maxPathDepth
  · rw [push_levels _ _ (by omega), s.levels, List.take_of_length_le (by omega),
      List.take_of_length_le (by rw [List.length_append, List.length_singleton]; omega),
      levelsFrom_snoc s.current hk]
  · rw [push_full _ _ (by omega), s.levels, List.take_append_of_le_length (by omega)]

/-- A walk in the tree and one on the volume end alike. -/
def SameEnd (V : Volume) : Except Trouble (List FileName) → Except Code (Nat × PathStack) → Prop
  | .ok q, .ok r => V.Stands r.1 r.2 q
  | .error t, .error e => e = troubleCode t
  | _, _ => False

/-- A walk on the volume is the walk in the tree. -/
theorem Stands.walk :
    ∀ {cs : List (List UInt8)} {cluster : Nat} {stack : PathStack} {p : List FileName}, V.Stands cluster stack p →
      V.SameEnd (V.tree.walk maxPathDepth p (cs.map part)) (V.walk cluster stack cs)
  | [], _, _, _, s => s
  | component :: rest, cluster, stack, p, s => by
    rw [List.map_cons, Volume.walk]
    by_cases h1 : component = [dot]
    · rw [if_pos h1, h1, part_dot]
      exact s.walk
    by_cases h2 : component = [dot, dot]
    · rw [if_neg h1, if_pos h2, h2, part_up]
      exact s.pop.walk
    rw [if_neg h1, if_neg h2]
    cases hn : makeShortName component with
    | error e =>
      rw [part_bad h1 h2 hn, makeShortName_error hn]
      rfl
    | ok m =>
      rw [part_name h1 h2 hn, Hierarchy.walk]
      dsimp only
      have hnode : V.tree.node (p ++ [⟨m, component, hn⟩]) = (V.find cluster m).map V.nodeOf := by
        show V.node _ = _
        rw [node_snoc, s.current]
        rfl
      cases he : V.find cluster m with
      | none =>
        rw [hnode, he]
        rfl
      | some e =>
        cases hi : e.isDirectory with
        | false =>
          have hfile : V.nodeOf e = .file ((List.range e.size).map (V.content e.cluster)) :=
            if_neg (by rw [hi]; decide)
          rw [hnode, he, Option.map_some, hfile]
          dsimp only
          rw [hi, if_pos (by decide)]
          rfl
        | true =>
          have hsub : V.sub cluster ⟨m, component, hn⟩ = some e.cluster := sub_iff.2 ⟨e, he, hi, rfl⟩
          have hdir : V.nodeOf e = .dir := nodeOf_dir.2 hi
          rw [hnode, he, Option.map_some, hdir]
          dsimp only
          rw [hi, if_neg (by decide), find_name he]
          exact (s.push hsub).walk

/-- The directory and the name a path denotes, in the tree and on the volume. -/
theorem Stands.resolve (s : V.Stands cluster stack p) (cs : List (List UInt8)) :
    match V.tree.target maxPathDepth p (cs.map part) with
    | .ok (q, n) => ∃ d, V.resolve cluster stack cs = .ok (d, n.1) ∧ V.dirFrom 0 q = some d
    | .error t => V.resolve cluster stack cs = .error (troubleCode t) := by
  rcases List.eq_nil_or_concat cs with rfl | ⟨ds, last, rfl⟩
  · rfl
  rw [List.concat_eq_append, resolve_concat]
  unfold Hierarchy.target
  rw [List.map_append, List.map_cons, List.map_nil, List.getLast?_concat, List.dropLast_concat]
  have hend : V.SameEnd (V.tree.walk maxPathDepth p (ds.map part)) (V.walk cluster stack ds) := s.walk
  generalize V.tree.walk maxPathDepth p (ds.map part) = a at hend ⊢
  generalize V.walk cluster stack ds = b at hend ⊢
  rcases a with t | q <;> rcases b with e | r
  · obtain rfl : e = troubleCode t := hend
    rfl
  · exact hend.elim
  · exact hend.elim
  have hq : V.dirFrom 0 q = some r.1 := hend.current
  dsimp only [Except.bind]
  unfold nameIn
  by_cases h1 : last = [dot]
  · rw [h1]
    rfl
  by_cases h2 : last = [dot, dot]
  · rw [h2]
    rfl
  cases hn : makeShortName last with
  | error e =>
    rw [part_bad h1 h2 hn, makeShortName_error hn]
    simp [h1, h2, troubleCode, Except.map]
  | ok m =>
    rw [part_name h1 h2 hn]
    exact ⟨r.1, by simp [h1, h2, Except.map], hq⟩

/-! ## What a directory lists -/

/-- Every entry that a listing shows has a name that a path can spell. -/
def Named (V : Volume) : Prop :=
  ∀ p d, V.dirFrom 0 p = some d → ∀ e ∈ V.slots d, shown e = true → ∃ n : FileName, n.1 = e.name

theorem shown_live {e : RawDirEntry} (h : shown e = true) : e.Live := by
  unfold shown isListed at h
  rw [RawDirEntry.live_iff]
  simp only [Bool.and_eq_true, bne_iff_ne, ne_eq] at h
  exact ⟨h.1, h.2.1.1⟩

/-- An entry found by name is shown. -/
theorem WF.find_shown (h : V.WF P) (hd : V.Dir d) {e : RawDirEntry} (he : V.find d n.1 = some e) :
    e ∈ V.slots d ∧ shown e = true := by
  obtain ⟨hmem, hl, hname⟩ := (h.find_iff hd).1 he
  refine ⟨hmem, ?_⟩
  obtain ⟨q, hq⟩ := hd
  obtain ⟨p, hp, rfl⟩ := List.mem_map.1 hmem
  have hlabel := (h.dirOk d q hq).noLabel p hp hl
  obtain ⟨h1, h2⟩ := (RawDirEntry.live_iff _).1 hl
  have h3 : (V.slot p).attr ≠ attrVolumeId := by
    intro ha
    rw [ha] at hlabel
    exact absurd hlabel (by decide)
  have h4 : isDotEntry (V.slot p) = false := by
    unfold isDotEntry
    split
    · rfl
    · rw [if_pos (by rw [hname]; simpa using n.proper.ne.2.2)]
  unfold shown isListed
  simp [h1, h2, h3, h4]

/-- In a directory that lists nothing no name is found. -/
theorem WF.find_of_empty (h : V.WF P) (hd : V.Dir d) (hl : V.listing d = []) (m : FileName) :
    V.find d m.1 = none := by
  cases he : V.find d m.1 with
  | none => rfl
  | some e =>
    obtain ⟨hmem, hs⟩ := h.find_shown hd he
    unfold listing at hl
    rw [List.map_eq_nil_iff, List.filter_eq_nil_iff] at hl
    exact absurd hs (hl e hmem)

/-! ## Subdirectories kept -/

/-- The subdirectories of `V` are where they were. -/
def KeepsSubs (V W : Volume) : Prop := ∀ x (m : FileName) k, V.Dir x → V.sub x m = some k → W.sub x m = some k

theorem WF.dirFrom_mono (h : V.WF P) (hk : V.KeepsSubs W) :
    ∀ {q : List FileName} {x y : Nat}, V.Dir x → V.dirFrom x q = some y →
      W.dirFrom x q = some y
  | [], x, y, hx, hq => hq
  | m :: q, x, y, hx, hq => by
    rw [dirFrom] at hq ⊢
    obtain ⟨z, hz, hq⟩ := Option.bind_eq_some_iff.1 hq
    rw [hk x m z hx hz]
    exact h.dirFrom_mono hk ⟨x, (h.child_isDir hx (child_of_sub hz)).1⟩ hq

theorem WF.levelsFrom_mono (h : V.WF P) (hk : V.KeepsSubs W) :
    ∀ {q : List FileName} {x y : Nat}, V.Dir x → V.dirFrom x q = some y →
      W.levelsFrom x q = V.levelsFrom x q
  | [], x, y, hx, hq => rfl
  | m :: q, x, y, hx, hq => by
    rw [dirFrom] at hq
    obtain ⟨z, hz, hq⟩ := Option.bind_eq_some_iff.1 hq
    rw [levelsFrom, levelsFrom, hz, hk x m z hx hz]
    exact congrArg _ (h.levelsFrom_mono hk ⟨x, (h.child_isDir hx (child_of_sub hz)).1⟩ hq)

/-- Then a position in the tree stays one. -/
theorem Stands.mono (s : V.Stands cluster stack p) (h : V.WF P) (hk : V.KeepsSubs W) :
    W.Stands cluster stack p := by
  obtain ⟨y, hy⟩ := dirFrom_take s.current maxPathDepth
  refine ⟨h.dirFrom_mono hk dir_root s.current, ?_⟩
  rw [h.levelsFrom_mono hk dir_root hy]
  exact s.levels

/-! ## The tree after an edit -/

section

variable {o e : RawDirEntry}

/-- A directory is not what an edit replaces. -/
theorem Edit.keepsSubs (t : Edit V W d n.1 o e) (h : V.WF P) (h' : W.WF P') (hd : V.Dir d) : V.KeepsSubs W := by
  intro x m k hx hk
  obtain ⟨s, hs, hi, hc⟩ := sub_iff.1 hk
  refine sub_iff.2 ⟨s, ?_, hi, hc⟩
  rw [(t.apart h h' hd).find x m.1 hx m.proper]
  · exact hs
  · intro hxm
    obtain ⟨rfl, hmn⟩ := Prod.mk.inj hxm
    rw [hmn] at hs
    obtain ⟨rfl, ho⟩ := t.old s hs
    rw [ho] at hi
    cases hi

/-- A new way down ends at the name edited, when there is nothing below it. -/
theorem Edit.dirFrom_new (t : Edit V W d n.1 o e) (h : V.WF P) (h' : W.WF P') (hp : V.dirFrom 0 p = some d)
    (hfresh : ∀ k, W.sub d n = some k → W.listing k = []) {x : Nat} (hq : W.dirFrom 0 q = some x) :
    V.dirFrom 0 q = some x ∨ (q = p ++ [n] ∧ W.sub d n = some x) := by
  have hd := h.dirFrom_dir dir_root hp
  induction q using List.reverseRecOn generalizing x with
  | nil => exact .inl hq
  | append_singleton q m ih =>
    rw [dirFrom_snoc] at hq
    obtain ⟨y, hy, hm⟩ := Option.bind_eq_some_iff.1 hq
    rcases ih hy with hy' | ⟨-, hk⟩
    · by_cases hym : (y, m) = (d, n)
      · obtain ⟨rfl, rfl⟩ := Prod.mk.inj hym
        exact .inr ⟨by rw [h.dirFrom_inj hy' hp], hm⟩
      · left
        rw [dirFrom_snoc, hy']
        have hne : (y, m.1) ≠ (d, n.1) := fun he => hym (by rw [(Prod.mk.inj he).1, Subtype.ext (Prod.mk.inj he).2])
        show V.sub y m = some x
        unfold sub
        rw [← (t.apart h h' hd).find y m.1 (h.dirFrom_dir dir_root hy') m.proper hne]
        exact hm
    · obtain ⟨s, hs, -⟩ := sub_iff.1 hm
      rw [h'.find_of_empty (h'.dirFrom_dir dir_root hy) (hfresh y hk)] at hs
      cases hs

/-- In the tree an edit sets or clears its name, and nothing else. -/
theorem Edit.node (t : Edit V W d n.1 o e) (h : V.WF P) (h' : W.WF P') (hp : V.dirFrom 0 p = some d)
    (hfresh : ∀ k, W.sub d n = some k → W.listing k = []) (q : List FileName) :
    W.node q = if q = p ++ [n] then (W.find d n.1).map W.nodeOf else V.node q := by
  have hd := h.dirFrom_dir dir_root hp
  have a := t.apart h h' hd
  have hk := t.keepsSubs h h' hd
  rcases List.eq_nil_or_concat q with rfl | ⟨r, m, rfl⟩
  · rw [if_neg (by simp), node_nil, node_nil]
  rw [List.concat_eq_append]
  by_cases hq : r ++ [m] = p ++ [n]
  · rw [if_pos hq, hq, node_snoc, h.dirFrom_mono hk dir_root hp]
    rfl
  rw [if_neg hq, node_snoc, node_snoc]
  cases hr : V.dirFrom 0 r with
  | some x =>
    have hx := h.dirFrom_dir dir_root hr
    have hne : (x, m.1) ≠ (d, n.1) := by
      intro he
      obtain ⟨rfl, hmn⟩ := Prod.mk.inj he
      exact hq (by rw [h.dirFrom_inj hr hp, Subtype.ext hmn])
    rw [h.dirFrom_mono hk dir_root hr]
    show (W.find x m.1).map W.nodeOf = (V.find x m.1).map V.nodeOf
    rw [a.find x m.1 hx m.proper hne]
    cases hs : V.find x m.1 with
    | none => rfl
    | some s =>
      show some (W.nodeOf s) = some (V.nodeOf s)
      unfold nodeOf
      split
      · rfl
      · rename_i hi
        rw [a.content x m.1 s hx m.proper hne hs (by simpa using hi)]
  | none =>
    cases hr' : W.dirFrom 0 r with
    | none => rfl
    | some x =>
      rcases t.dirFrom_new h h' hp hfresh hr' with hx | ⟨-, hk⟩
      · rw [hr] at hx
        cases hx
      · show (W.find x m.1).map W.nodeOf = none
        rw [h'.find_of_empty (h'.dirFrom_dir dir_root hr') (hfresh x hk)]
        rfl

/-- And the names stay such that a path can spell them. -/
theorem Edit.named (t : Edit V W d n.1 o e) (h : V.WF P) (h' : W.WF P') (hp : V.dirFrom 0 p = some d)
    (hfresh : ∀ k, W.sub d n = some k → W.listing k = []) (hn : V.Named) : W.Named := by
  intro q x hq s hs hshown
  rcases t.dirFrom_new h h' hp hfresh hq with hq' | ⟨-, hk⟩
  · by_cases hsn : s.name = n.1
    · exact ⟨n, hsn.symm⟩
    refine hn q x hq' s ?_ hshown
    by_cases hxd : x = d
    · rw [hxd] at hs ⊢
      exact (t.mem_slots (shown_live hshown) hsn).1 hs
    · obtain ⟨y, hy⟩ := h.dirFrom_dir dir_root hq'
      rwa [t.slots_ne x y hy hxd] at hs
  · have hempty := hfresh x hk
    unfold listing at hempty
    rw [List.map_eq_nil_iff, List.filter_eq_nil_iff] at hempty
    exact absurd hshown (hempty s hs)

end

/-! ## Volumes that show the same tree -/

theorem Shows.dirFrom (s : Shows V W) (h : V.WF P) :
    ∀ {q : List FileName} {x : Nat}, V.Dir x → W.dirFrom x q = V.dirFrom x q
  | [], x, hx => rfl
  | m :: q, x, hx => by
    have hsub : W.sub x m = V.sub x m := by
      unfold sub
      rw [s.find x m.1 hx]
    rw [Volume.dirFrom, Volume.dirFrom, hsub]
    cases hm : V.sub x m with
    | none => rfl
    | some k => exact s.dirFrom h ⟨x, (h.child_isDir hx (child_of_sub hm)).1⟩

theorem Shows.keepsSubs (s : Shows V W) : V.KeepsSubs W := fun x m k hx hk => by
  unfold sub at hk ⊢
  rwa [s.find x m.1 hx]

theorem Agree.named (a : Agree V W) (h : V.WF P) (hn : V.Named) : W.Named := by
  intro p d hp e he hs
  rw [(Shows.of_agree h a).dirFrom h dir_root] at hp
  obtain ⟨q, hq⟩ := h.dirFrom_dir dir_root hp
  rw [a.slots h hq] at he
  exact hn p d hp e he hs

theorem Shows.tree (s : Shows V W) (h : V.WF P) : W.tree = V.tree := by
  refine Hierarchy.ext (funext fun q => ?_)
  show W.node q = V.node q
  rcases List.eq_nil_or_concat q with rfl | ⟨r, m, rfl⟩
  · rfl
  rw [List.concat_eq_append, node_snoc, node_snoc, s.dirFrom h dir_root]
  cases hr : V.dirFrom 0 r with
  | none => rfl
  | some x =>
    have hx := h.dirFrom_dir dir_root hr
    show (W.find x m.1).map W.nodeOf = (V.find x m.1).map V.nodeOf
    rw [s.find x m.1 hx]
    cases hs : V.find x m.1 with
    | none => rfl
    | some e =>
      show some (W.nodeOf e) = some (V.nodeOf e)
      unfold nodeOf
      split
      · rfl
      · rename_i hi
        rw [s.content x m.1 e hx m.proper hs (by simpa using hi)]

end Volume

end AltoniumOS.Fat12

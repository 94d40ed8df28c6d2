/-
The text of the current directory: the names of the path stack, each behind a slash, as far as `g_cwd` has
room for them, and the components that a walk along this text sees.
-/
import AltoniumOS.Fat12.Display
import AltoniumOS.Fat12.Walks

namespace AltoniumOS.Fat12

/-- The absolute path along `names`. -/
def pathText (names : List (List UInt8)) : List UInt8 := names.flatMap (slash :: ·)

/-- The text leaves room for its terminating zero, and a byte more. -/
def FitsCwd (names : List (List UInt8)) : Prop := (pathText names).length + 1 < pathMax

instance (names : List (List UInt8)) : Decidable (FitsCwd names) := inferInstanceAs (Decidable (_ < _))

/-- A text that a walk sees as one component, whole. -/
structure IsComponent (name : List UInt8) : Prop where
  ne : name ≠ []
  length : name.length ≤ 31
  plain : ∀ c ∈ name, isSeparator c = false ∧ c ≠ 0

section

variable {name tail out : List UInt8} {names rest done : List (List UInt8)}

@[simp] theorem pathText_nil : pathText [] = [] := rfl

theorem pathText_cons (name : List UInt8) (rest : List (List UInt8)) :
    pathText (name :: rest) = slash :: (name ++ pathText rest) := rfl

theorem pathText_append (names rest : List (List UInt8)) :
    pathText (names ++ rest) = pathText names ++ pathText rest := List.flatMap_append

/-! ## The components of a text -/

/-- One component behind a slash. -/
theorem components_slash (h : IsComponent name) (ht : ∀ c l, tail = c :: l → isSeparator c = true) :
    components (slash :: (name ++ tail)) = name :: components tail := by
  obtain ⟨c, l, rfl⟩ := List.exists_cons_of_ne_nil h.ne
  have hc : isSeparator c = false := (h.plain c (List.mem_cons_self ..)).1
  have hl : ∀ b ∈ l, (!isSeparator b) = true := fun b hb => by rw [(h.plain b (List.mem_cons_of_mem _ hb)).1]; rfl
  have hslash : isSeparator slash = true := rfl
  have hskip : skipSeparators (slash :: (c :: l ++ tail)) = c :: (l ++ tail) := by
    unfold skipSeparators
    rw [List.dropWhile_cons_of_pos hslash, List.cons_append, List.dropWhile_cons_of_neg (by rw [hc]; decide)]
  have htake : tail.takeWhile (fun c => !isSeparator c) = [] ∧ tail.dropWhile (fun c => !isSeparator c) = tail := by
    cases tail with
    | nil => exact ⟨rfl, rfl⟩
    | cons b t =>
      have hb : ¬ (!isSeparator b) = true := by rw [ht b t rfl]; decide
      exact ⟨List.takeWhile_cons_of_neg hb, List.dropWhile_cons_of_neg hb⟩
  rw [components_of_skip_cons hskip, List.takeWhile_append_of_pos hl, List.dropWhile_append_of_pos hl,
    htake.1, htake.2, List.append_nil, List.take_of_length_le h.length]

/-- The walk along a path of names, with separators behind it. -/
theorem components_pathText (ht : ∀ c ∈ tail, isSeparator c = true) :
    ∀ {names : List (List UInt8)}, (∀ name ∈ names, IsComponent name) → components (pathText names ++ tail) = names
  | [], _ => components_of_skip_nil (List.dropWhile_eq_nil_iff.2 ht)
  | name :: rest, h => by
    have hrest := components_pathText ht fun n hn => h n (List.mem_cons_of_mem _ hn)
    have hstart : ∀ c l, pathText rest ++ tail = c :: l → isSeparator c = true := by
      intro c l hcl
      cases rest with
      | nil => exact ht c (by rw [show tail = c :: l from hcl]; exact List.mem_cons_self ..)
      | cons m rest =>
        rw [pathText_cons, List.cons_append, List.cons.injEq] at hcl
        rw [← hcl.1]
        rfl
    rw [pathText_cons, List.cons_append, List.append_assoc,
      components_slash (h name (List.mem_cons_self ..)) hstart, hrest]

/-! ## Stored names -/

theorem isValidChar.plain {c : UInt8} (h : isValidChar c = true) : isSeparator c = false ∧ c ≠ 0 := by
  constructor
  · unfold isSeparator
    rw [Bool.or_eq_false_iff, beq_eq_false_iff_ne, beq_eq_false_iff_ne]
    constructor <;> rintro rfl <;> exact absurd h (by decide)
  · rintro rfl
    exact absurd h (by decide)

/-- What a stored name is shown as is one component. -/
theorem StoredName.isComponent {n : ShortName} {base ext : List UInt8} (h : StoredName n base ext) :
    IsComponent (dirNameToString n) := by
  have hmax : maxDisplayName = 13 := rfl
  have hlen := length_joinName h.base_le.2 h.ext_le
  have hbase : base ≠ [] := List.length_pos_iff.1 h.base_le.1
  rw [h.display]
  refine ⟨?_, by omega, fun c hc => ?_⟩
  · unfold joinName
    split
    · exact hbase
    · simp
  · unfold joinName at hc
    split at hc
    · exact isValidChar.plain (h.chars_base c hc)
    · rcases List.mem_append.1 hc with hc | hc
      · exact isValidChar.plain (h.chars_base c hc)
      · rcases List.mem_cons.1 hc with rfl | hc
        · decide
        · exact isValidChar.plain (h.chars_ext c hc)

/-- And none of the dot components. -/
theorem StoredName.ne_dots {n : ShortName} {base ext : List UInt8} (h : StoredName n base ext) :
    dirNameToString n ≠ [dot] ∧ dirNameToString n ≠ [dot, dot] := by
  obtain ⟨c, l, rfl⟩ := List.exists_cons_of_length_pos h.base_le.1
  have hc : c ≠ dot := isValidChar.ne_dot (h.chars_base c (List.mem_cons_self ..))
  rw [h.display]
  unfold joinName
  split <;> exact ⟨fun hd => hc (List.cons.inj hd).1, fun hd => hc (List.cons.inj hd).1⟩

/-! ## The text in the buffer -/

theorem cwdLoop_append : ∀ (names : List (List UInt8)) (out : List UInt8), ∃ t, cwdLoop out names = out ++ t
  | [], out => ⟨[], (List.append_nil out).symm⟩
  | name :: rest, out => by
    rw [cwdLoop]
    split
    · exact cwdLoop_append rest out
    · split
      · exact ⟨[], (List.append_nil out).symm⟩
      · obtain ⟨t, ht⟩ := cwdLoop_append rest (out ++ name ++ if rest = [] then [] else [slash])
        exact ⟨name ++ ((if rest = [] then [] else [slash]) ++ t), by rw [ht]; simp only [List.append_assoc]⟩

/-- One name in the loop: it is left out with all behind it, or it follows, behind the slash that is there. -/
theorem cwdLoop_cons (hne : name ≠ []) : cwdLoop (pathText done ++ [slash]) (name :: rest) =
    if FitsCwd (done ++ [name]) then
      if rest = [] then pathText (done ++ [name]) else cwdLoop (pathText (done ++ [name]) ++ [slash]) rest
    else pathText done ++ [slash] := by
  have htext : pathText (done ++ [name]) = pathText done ++ [slash] ++ name := by
    rw [pathText_append, pathText_cons, pathText_nil, List.append_nil, List.append_assoc]
    rfl
  have hfits : FitsCwd (done ++ [name]) ↔ ¬ (pathText done ++ [slash]).length + name.length + 1 ≥ pathMax := by
    unfold FitsCwd
    rw [htext, List.length_append]
    omega
  rw [cwdLoop, if_neg hne, htext]
  by_cases hf : FitsCwd (done ++ [name])
  · rw [if_pos hf, if_neg (hfits.1 hf)]
    split
    · rename_i hrest
      rw [hrest, List.append_nil]
      rfl
    · rfl
  · rw [if_neg hf, if_pos (not_not.1 fun h => hf (hfits.2 h))]

theorem FitsCwd.left (h : FitsCwd (done ++ rest)) : FitsCwd done := by
  unfold FitsCwd at h ⊢
  rw [pathText_append, List.length_append] at h
  omega

/-- With room for all the names the text is the path along them. -/
theorem cwdLoop_whole :
    ∀ {rest done : List (List UInt8)}, rest ≠ [] → (∀ name ∈ rest, name ≠ []) → FitsCwd (done ++ rest) →
      cwdLoop (pathText done ++ [slash]) rest = pathText (done ++ rest)
  | name :: rest, done, _, hne, hfit => by
    have happ : done ++ name :: rest = (done ++ [name]) ++ rest := by simp
    rw [happ] at hfit ⊢
    rw [cwdLoop_cons (hne name (List.mem_cons_self ..)), if_pos hfit.left]
    split
    · rename_i hrest
      rw [hrest, List.append_nil]
    · rename_i hrest
      exact cwdLoop_whole hrest (fun n hn => hne n (List.mem_cons_of_mem _ hn)) hfit

/-- Without, it is the path along some of them, and a slash. -/
theorem cwdLoop_cut :
    ∀ {rest done : List (List UInt8)}, FitsCwd done → (∀ name ∈ rest, name ≠ []) → ¬ FitsCwd (done ++ rest) →
      ∃ j < rest.length, cwdLoop (pathText done ++ [slash]) rest = pathText (done ++ rest.take j) ++ [slash]
  | [], done, hdone, _, hfit => absurd (by rwa [List.append_nil]) hfit
  | name :: rest, done, hdone, hne, hfit => by
    have happ : done ++ name :: rest = (done ++ [name]) ++ rest := by simp
    rw [cwdLoop_cons (hne name (List.mem_cons_self ..))]
    by_cases hname : FitsCwd (done ++ [name])
    · have hrest : rest ≠ [] := by
        rintro rfl
        exact hfit hname
      rw [happ] at hfit
      obtain ⟨j, hj, heq⟩ := cwdLoop_cut hname (fun n hn => hne n (List.mem_cons_of_mem _ hn)) hfit
      refine ⟨j + 1, by simpa using hj, ?_⟩
      rw [if_pos hname, if_neg hrest, heq, List.take_succ_cons]
      simp
    · refine ⟨0, by simp, ?_⟩
      rw [if_neg hname, List.take_zero, List.append_nil]

/-- In any case it is the longest path that there is room for. -/
theorem cwdLoop_longest :
    ∀ {rest done : List (List UInt8)}, FitsCwd done → rest ≠ [] → (∀ name ∈ rest, name ≠ []) →
      ∃ j ≤ rest.length, FitsCwd (done ++ rest.take j) ∧ (j < rest.length → ¬ FitsCwd (done ++ rest.take (j + 1))) ∧
        cwdLoop (pathText done ++ [slash]) rest = pathText (done ++ rest.take j) ++ if j = rest.length then []
          else [slash]
  | name :: rest, done, hdone, _, hne => by
    rw [cwdLoop_cons (hne name (List.mem_cons_self ..))]
    by_cases hname : FitsCwd (done ++ [name])
    · have happ : ∀ l, done ++ name :: l = (done ++ [name]) ++ l := fun l => by simp
      rw [if_pos hname]
      by_cases hrest : rest = []
      · subst hrest
        exact ⟨1, Nat.le_refl _, hname, fun h => absurd h (Nat.lt_irrefl _), by simp⟩
      · obtain ⟨j, hj, hfit, hmax, heq⟩ := cwdLoop_longest hname hrest fun n hn => hne n (List.mem_cons_of_mem _ hn)
        refine ⟨j + 1, by simpa using hj, by rwa [List.take_succ_cons, happ], fun h => ?_, ?_⟩
        · rw [List.take_succ_cons, happ]
          exact hmax (by simpa using h)
        · rw [if_neg hrest, heq, List.take_succ_cons, happ]
          simp
    · refine ⟨0, Nat.zero_le _, by simpa using hdone, fun _ => by simpa using hname, ?_⟩
      rw [if_neg hname]
      simp

/-- The text of the current directory leads along the names of the stack: along all of them if there is
room, else along fewer. -/
theorem rebuildCwd_components {p : PathStack} (h : ∀ name ∈ p.names, IsComponent name) :
    ∃ j ≤ p.names.length, components (rebuildCwd p) = p.names.take j ∧ (j = p.names.length ↔ FitsCwd p.names) := by
  have hmap : p.names.map (fun name => name.takeWhile (· != 0)) = p.names := by
    conv_rhs => rw [← List.map_id p.names]
    refine List.map_congr_left fun name hn => ?_
    exact List.takeWhile_eq_self_iff.2 fun c hc => bne_iff_ne.2 ((h name hn).plain c hc).2
  have hslash : ∀ c ∈ [slash], isSeparator c = true := fun c hc => by rw [List.mem_singleton.1 hc]; rfl
  have hne : ∀ name ∈ p.names, name ≠ [] := fun name hn => (h name hn).ne
  unfold rebuildCwd
  rw [hmap, show [slash] = pathText [] ++ [slash] from rfl]
  by_cases hnil : p.names = []
  · rw [hnil]
    exact ⟨0, Nat.le_refl _, components_pathText hslash (fun _ hn => nomatch hn), iff_of_true rfl (by decide)⟩
  by_cases hfit : FitsCwd p.names
  · refine ⟨p.names.length, Nat.le_refl _, ?_, iff_of_true rfl hfit⟩
    rw [cwdLoop_whole hnil hne hfit, List.nil_append, List.take_length]
    have : components (pathText p.names ++ []) = p.names := components_pathText (by simp) h
    rwa [List.append_nil] at this
  · obtain ⟨j, hj, heq⟩ := cwdLoop_cut (show FitsCwd [] by decide) hne hfit
    refine ⟨j, Nat.le_of_lt hj, ?_, iff_of_false (by omega) hfit⟩
    rw [heq, List.nil_append]
    exact components_pathText hslash fun name hn => h name (List.mem_of_mem_take hn)

theorem isAbsolute_rebuildCwd (p : PathStack) : isAbsolute (rebuildCwd p) = true ∧ rebuildCwd p ≠ [] := by
  unfold rebuildCwd
  obtain ⟨t, ht⟩ := cwdLoop_append (p.names.map fun name => name.takeWhile (· != 0)) [slash]
  rw [ht]
  exact ⟨rfl, by simp⟩

end

end AltoniumOS.Fat12

/-
The names the 8.3 encoder accepts, exactly, and the paths whose components are longer than the buffer of
`fat12_path_next`: cutting a component never changes what it is encoded to.
-/
import AltoniumOS.Fat12.Names
import AltoniumOS.Fat12.Walks

namespace AltoniumOS.Fat12

open AltoniumOS.Lib

/-! ## Names -/

/-- A letter, a digit, `_` or `-`. -/
def IsNameChar (c : UInt8) : Prop :=
  (0x41 ≤ c ∧ c ≤ 0x5A) ∨ (0x61 ≤ c ∧ c ≤ 0x7A) ∨ (0x30 ≤ c ∧ c ≤ 0x39) ∨ c = 0x5F ∨ c = 0x2D

/-- The 8.3 names: a base of 1 to 8 characters and, behind a dot if there is one, an extension of at most 3. -/
structure IsShortName (input base ext : List UInt8) : Prop where
  input : input = base ∧ ext = [] ∨ input = base ++ dot :: ext
  base_le : 1 ≤ base.length ∧ base.length ≤ 8
  ext_le : ext.length ≤ 3
  chars : ∀ c ∈ base ++ ext, IsNameChar c

section

variable {input base ext path tail w : List UInt8} {c : UInt8} {n : ShortName}

theorem isValidChar_toUpper : isValidChar (toUpper c) = true ↔ IsNameChar c := by
  unfold isValidChar toUpper IsNameChar
  grind

theorem IsNameChar.ne_dot (h : IsNameChar c) : toUpper c ≠ dot := by
  intro hd
  rw [toUpper_eq_dot] at hd
  subst hd
  exact absurd (isValidChar_toUpper.2 h) (by decide)

theorem IsNameChar.ne_space (h : IsNameChar c) : toUpper c ≠ space := by
  intro hs
  have hv := isValidChar_toUpper.2 h
  rw [hs] at hv
  exact absurd hv (by decide)

theorem Parts.isShortName (h : Parts input base ext n) : IsShortName input base ext :=
  ⟨h.input, ⟨List.length_pos_iff.2 h.base_ne, h.base_le⟩, h.ext_le, fun c hc =>
    isValidChar_toUpper.1 (h.valid c hc)⟩

/-- Characters that are no dot and no space do not matter to the dot search. -/
theorem dotIndex_chars : ∀ {l rest : List UInt8} {i : Nat} {r : Option Nat}, (∀ c ∈ l, IsNameChar c) →
    dotIndex i r (l.map toUpper ++ rest) = dotIndex (i + l.length) r rest
  | [], _, _, _, _ => rfl
  | c :: l, rest, i, r, h => by
    have hc := h c List.mem_cons_self
    rw [List.map_cons, List.cons_append, dotIndex, if_neg hc.ne_dot, if_neg hc.ne_space,
      dotIndex_chars fun b hb => h b (List.mem_cons_of_mem c hb), List.length_cons]
    congr 1
    omega

theorem packName_chars (hb : 1 ≤ base.length ∧ base.length ≤ 8) (he : ext.length ≤ 3)
    (hc : ∀ c ∈ base ++ ext, IsNameChar c) :
    ∃ n, packName (base.map toUpper) (ext.map toUpper) = .ok n ∧
      n.1 = pad 8 (base.map toUpper) ++ pad 3 (ext.map toUpper) := by
  have hvalid : ∀ {l : List UInt8}, (∀ c ∈ l, c ∈ base ++ ext) → (l.map toUpper).all isValidChar = true := by
    intro l hl
    rw [List.all_map, List.all_eq_true]
    exact fun c hm => isValidChar_toUpper.2 (hc c (hl c hm))
  have hb' : 0 < (base.map toUpper).length ∧ (base.map toUpper).length ≤ 8 := by rwa [List.length_map]
  have he' : (ext.map toUpper).length ≤ 3 := by rwa [List.length_map]
  refine ⟨padName (base.map toUpper) (ext.map toUpper) hb'.2 he', ?_, rfl⟩
  unfold packName
  rw [dif_pos hb', dif_pos he', if_pos (hvalid fun c => List.mem_append_left ext),
    if_pos (hvalid fun c => List.mem_append_right base)]

/-- The encoder accepts every 8.3 name. -/
theorem IsShortName.makeShortName (h : IsShortName input base ext) :
    ∃ n, makeShortName input = .ok n ∧ n.1 = pad 8 (base.map toUpper) ++ pad 3 (ext.map toUpper) := by
  obtain ⟨hb, hb'⟩ := h.base_le
  have he := h.ext_le
  have hlen : input.length ≤ 31 := by
    rcases h.input with ⟨rfl, -⟩ | rfl
    · omega
    · rw [List.length_append, List.length_cons]
      omega
  have hne : input ≠ [] := by
    rintro rfl
    rcases h.input with ⟨rfl, -⟩ | hnil
    · exact absurd hb (by decide)
    · simp at hnil
  obtain ⟨n, hpack, hname⟩ := packName_chars h.base_le h.ext_le h.chars
  refine ⟨n, ?_, hname⟩
  unfold Fat12.makeShortName
  rw [if_neg hne, List.take_of_length_le hlen]
  rcases h.input with ⟨rfl, rfl⟩ | rfl
  · have hdot : dotIndex 0 none (input.map toUpper) = .ok none := by
      rw [← List.append_nil (input.map toUpper), dotIndex_chars fun c hc => h.chars c (List.mem_append_left [] hc)]
      rfl
    dsimp only
    rw [hdot]
    exact hpack
  · have hdot : dotIndex 0 none ((base ++ dot :: ext).map toUpper) = .ok (some base.length) := by
      rw [List.map_append, List.map_cons, dotIndex_chars fun c hc =>
        h.chars c (List.mem_append_left ext hc), dotIndex, if_pos (toUpper_eq_dot.2 rfl), if_neg (by simp)]
      rw [← List.append_nil (ext.map toUpper), dotIndex_chars fun c hc => h.chars c (List.mem_append_right base hc),
        Nat.zero_add]
      rfl
    dsimp only
    rw [hdot]
    have htake : ((base ++ dot :: ext).map toUpper).take base.length = base.map toUpper := by
      rw [← List.map_take, List.take_left]
    have hdrop : ((base ++ dot :: ext).map toUpper).drop (base.length + 1) = ext.map toUpper := by
      rw [← List.map_drop]
      simp
    dsimp only
    rw [htake, hdrop]
    exact hpack

/-- The encoder accepts the 8.3 names and nothing else. -/
theorem makeShortName_iff : makeShortName input = .ok n ↔
    ∃ base ext, IsShortName input base ext ∧ n.1 = pad 8 (base.map toUpper) ++ pad 3 (ext.map toUpper) := by
  constructor
  · intro h
    obtain ⟨base, ext, hp⟩ := makeShortName_ok h
    exact ⟨base, ext, hp.isShortName, hp.name⟩
  · rintro ⟨base, ext, h, hn⟩
    obtain ⟨m, hm, hname⟩ := h.makeShortName
    rw [hm, Subtype.ext (hname.trans hn.symm)]

/-! ## Components longer than the buffer -/

/-- The components as they stand in the path. -/
def texts (path : List UInt8) : List (List UInt8) := (path.splitOnP isSeparator).filter (· ≠ [])

theorem texts_separator (h : isSeparator c = true) (path : List UInt8) : texts (c :: path) = texts path := by
  have hsplit := List.splitOnP_append_cons (p := isSeparator) [] path h
  unfold texts
  rw [List.nil_append] at hsplit
  rw [hsplit]
  simp

theorem texts_skip : ∀ path : List UInt8, texts (skipSeparators path) = texts path
  | [] => rfl
  | c :: path => by
    unfold skipSeparators
    rw [List.dropWhile_cons]
    split
    · rename_i hc
      rw [texts_separator hc]
      exact texts_skip path
    · rfl

theorem texts_word (hne : w ≠ []) (hw : ∀ c ∈ w, isSeparator c = false)
    (htail : ∀ c rest, tail = c :: rest → isSeparator c = true) : texts (w ++ tail) = w :: texts tail := by
  unfold texts
  cases tail with
  | nil =>
    rw [List.append_nil, List.splitOnP_eq_singleton hw]
    simp [hne]
  | cons c rest =>
    have hc := htail c rest rfl
    have hfirst := List.splitOnP_append_cons (p := isSeparator) [] rest hc
    rw [List.nil_append] at hfirst
    rw [List.splitOnP_append_cons_of_forall_mem hw c hc, hfirst]
    simp [hne]

theorem texts_of_skip_cons {rest : List UInt8} (h : skipSeparators path = c :: rest) :
    texts path = (c :: rest.takeWhile fun c => !isSeparator c) ::
      texts (rest.dropWhile fun c => !isSeparator c) := by
  have hc := head_skipSeparators h
  rw [← texts_skip, h, ← texts_word (List.cons_ne_nil c _)]
  · rw [List.cons_append, List.takeWhile_append_dropWhile]
  · intro b hb
    rcases List.mem_cons.1 hb with rfl | hb
    · exact hc
    · simpa using List.mem_takeWhile_imp hb
  · intro b r hbr
    have hne : rest.dropWhile (fun c => !isSeparator c) ≠ [] := by
      rw [hbr]
      exact List.cons_ne_nil b r
    have hhead := List.head_dropWhile_not (fun c => !isSeparator c) hne
    simpa [hbr] using hhead

/-- The walks see these components, cut to the buffer. -/
theorem components_eq_map (path : List UInt8) : components path = (texts path).map (·.take 31) := by
  generalize hn : path.length = m
  induction m using Nat.strong_induction_on generalizing path with
  | _ m ih =>
    cases h : skipSeparators path with
    | nil =>
      rw [components_of_skip_nil h, ← texts_skip, h]
      rfl
    | cons c rest =>
      have hlen := length_dropWhile_le isSeparator path
      have hrest := length_dropWhile_le (fun c => !isSeparator c) rest
      unfold skipSeparators at h
      rw [h, List.length_cons] at hlen
      rw [components_of_skip_cons h, texts_of_skip_cons h, List.map_cons, ih _ (by omega) _ rfl]

end

/-! ## Walks -/

theorem locateLoop_map (fuel : Nat) : ∀ (ts : List (List UInt8)) (cluster : Nat) (stack : List Nat),
    locateLoop fuel cluster stack (ts.map (·.take 31)) = locateLoop fuel cluster stack ts
  | [], _, _ => rfl
  | t :: ts, cluster, stack => by
    rw [List.map_cons, locateLoop, locateLoop, makeShortName_take]
    simp only [take_eq_dot, take_eq_dots, locateLoop_map fuel ts]

theorem changeLoop_map (fuel : Nat) : ∀ (ts : List (List UInt8)) (cluster : Nat) (stack : PathStack),
    changeLoop fuel cluster stack (ts.map (·.take 31)) = changeLoop fuel cluster stack ts
  | [], _, _ => rfl
  | t :: ts, cluster, stack => by
    rw [List.map_cons, changeLoop, changeLoop, makeShortName_take]
    simp only [take_eq_dot, take_eq_dots, changeLoop_map fuel ts]

theorem resolveLoop_map (fuel : Nat) (ts : List (List UInt8)) (cluster : Nat) (stack : List Nat) :
    resolveLoop fuel cluster stack (ts.map (·.take 31)) = resolveLoop fuel cluster stack ts := by
  rcases List.eq_nil_or_concat ts with rfl | ⟨ts, last, rfl⟩
  · rfl
  · rw [List.concat_eq_append, List.map_append, List.map_singleton, resolveLoop_eq, resolveLoop_eq, locateLoop_map]
    simp only [nameIn_take]

/-- The encoder accepts exactly the 8.3 names. Cutting the components of a path changes none of their encodings,
and every walk does what it would do with the components whole. -/
theorem names_exact :
    (∀ input n, makeShortName input = .ok n ↔
      ∃ base ext, IsShortName input base ext ∧ n.1 = pad 8 (base.map toUpper) ++ pad 3 (ext.map toUpper)) ∧
    (∀ path, components path = (texts path).map (·.take 31) ∧ ∀ t ∈ texts path,
      makeShortName (t.take 31) = makeShortName t) ∧
    ∀ fuel cluster path,
      (∀ stack, locateLoop fuel cluster stack (components path) = locateLoop fuel cluster stack (texts path)) ∧
      (∀ stack, changeLoop fuel cluster stack (components path) = changeLoop fuel cluster stack (texts path)) ∧
      ∀ stack, resolveLoop fuel cluster stack (components path) = resolveLoop fuel cluster stack (texts path) := by
  refine ⟨fun _ _ => makeShortName_iff, fun path => ⟨components_eq_map path, fun t _ => makeShortName_take t⟩,
    fun fuel cluster path => ?_⟩
  rw [components_eq_map]
  exact ⟨fun stack => locateLoop_map fuel _ cluster stack, fun stack => changeLoop_map fuel _ cluster stack,
    fun stack => resolveLoop_map fuel _ cluster stack⟩

end AltoniumOS.Fat12

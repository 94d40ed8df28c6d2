/-
Names as they are shown: on the names of the 8.3 encoder, the decoder is its inverse. The base and the extension are
what is left of the two padded fields.
-/
import AltoniumOS.Fat12.Grammar

namespace AltoniumOS.Fat12

/-- A name as it is stored: a base of 1 to 8 characters and an extension of at most 3, padded with spaces. -/
structure StoredName (n : ShortName) (base ext : List UInt8) : Prop where
  name : n.1 = pad 8 base ++ pad 3 ext
  base_le : 1 ≤ base.length ∧ base.length ≤ 8
  ext_le : ext.length ≤ 3
  chars : ∀ c ∈ base ++ ext, isValidChar c = true

/-- A base, and behind a dot the extension, if there is one. -/
def joinName (base ext : List UInt8) : List UInt8 := if ext = [] then base else base ++ dot :: ext

/-- The text without a dot at its end. -/
def dropTrailingDot (l : List UInt8) : List UInt8 := if l.getLast? = some dot then l.dropLast else l

section

variable {n m : ShortName} {input base ext l : List UInt8} {c : UInt8}

theorem isValidChar.isNameChar (h : isValidChar c = true) : IsNameChar c ∧ toUpper c = c := by
  unfold isValidChar at h
  unfold IsNameChar toUpper
  grind

theorem isValidChar.ne_space (h : isValidChar c = true) : c ≠ space := by
  rintro rfl
  exact absurd h (by decide)

theorem isValidChar.ne_dot (h : isValidChar c = true) : c ≠ dot := by
  rintro rfl
  exact absurd h (by decide)

theorem map_toUpper_valid (h : ∀ c ∈ l, isValidChar c = true) : l.map toUpper = l := by
  conv_rhs => rw [← List.map_id l]
  exact List.map_congr_left fun c hc => (isValidChar.isNameChar (h c hc)).2

/-- Taking the spaces out of a padded field leaves what was padded. -/
theorem filter_pad {k : Nat} (h : ∀ c ∈ l, isValidChar c = true) : (pad k l).filter (· != space) = l := by
  unfold pad
  rw [List.filter_append, List.filter_replicate]
  have hkept : l.filter (· != space) = l :=
    List.filter_eq_self.2 fun c hc => bne_iff_ne.2 (isValidChar.ne_space (h c hc))
  simp [hkept]

/-- As long as the name has room, the extension is copied as it is. -/
theorem foldl_room : ∀ {ext out : List UInt8} {room : Nat}, out.length + ext.length ≤ room →
    ext.foldl (fun out c => if out.length < room then out ++ [c] else out) out = out ++ ext
  | [], out, _, _ => (List.append_nil out).symm
  | c :: ext, out, room, h => by
    rw [List.length_cons] at h
    rw [List.foldl_cons, if_pos (by omega), foldl_room (by rw [List.length_append, List.length_singleton]; omega),
      List.append_assoc]
    rfl

theorem StoredName.chars_base (h : StoredName n base ext) : ∀ c ∈ base, isValidChar c = true :=
  fun c hc => h.chars c (List.mem_append_left ext hc)

theorem StoredName.chars_ext (h : StoredName n base ext) : ∀ c ∈ ext, isValidChar c = true :=
  fun c hc => h.chars c (List.mem_append_right base hc)

/-- What the decoder makes of a stored name. -/
theorem StoredName.display (h : StoredName n base ext) : dirNameToString n = joinName base ext := by
  obtain ⟨hb, hb'⟩ := h.base_le
  have he := h.ext_le
  have hne : base ≠ [] := List.length_pos_iff.1 hb
  have htake : n.1.take 8 = pad 8 base := by
    rw [h.name, List.take_append_of_le_length (by rw [length_pad hb']),
      List.take_of_length_le (by rw [length_pad hb'])]
  have hdrop : n.1.drop 8 = pad 3 ext := by
    rw [h.name, List.drop_append_of_le_length (by rw [length_pad hb']),
      List.drop_of_length_le (by rw [length_pad hb']), List.nil_append]
  unfold dirNameToString joinName
  rw [htake, hdrop, filter_pad h.chars_base, filter_pad h.chars_ext]
  dsimp only
  have hroom : maxDisplayName - 1 = 12 := rfl
  by_cases hext : ext = []
  · subst hext
    simp [hne]
  · have hstem : (if ext ≠ [] ∧ base.length < maxDisplayName - 1 then base ++ [dot] else base) = base ++ [dot] :=
      if_pos ⟨hext, by omega⟩
    rw [hstem, foldl_room (by rw [List.length_append, List.length_singleton]; omega), List.append_assoc,
      List.singleton_append, if_neg (by simp), if_neg hext]

theorem length_joinName (hb : base.length ≤ 8) (he : ext.length ≤ 3) :
    (joinName base ext).length + 1 ≤ maxDisplayName := by
  have hmax : maxDisplayName = 13 := rfl
  unfold joinName
  split
  · omega
  · rw [List.length_append, List.length_cons]
    omega

/-- Encoding what is shown gives the name back. -/
theorem StoredName.encode (h : StoredName n base ext) : makeShortName (dirNameToString n) = .ok n := by
  rw [h.display, makeShortName_iff]
  refine ⟨base, ext, ⟨?_, h.base_le, h.ext_le, fun c hc => (isValidChar.isNameChar (h.chars c hc)).1⟩, ?_⟩
  · unfold joinName
    split
    next hext => exact .inl ⟨rfl, hext⟩
    next => exact .inr rfl
  · rw [map_toUpper_valid h.chars_base, map_toUpper_valid h.chars_ext]
    exact h.name

/-- Stored names that are shown alike are one name. -/
theorem StoredName.display_injective {base' ext' : List UInt8} (hn : StoredName n base ext)
    (hm : StoredName m base' ext') (h : dirNameToString n = dirNameToString m) : n = m := by
  have hsame : (Except.ok n : Except Code ShortName) = .ok m := by rw [← hn.encode, h, hm.encode]
  exact Except.ok.inj hsame

/-- The name the encoder makes is a stored one, its parts in upper case. -/
theorem IsShortName.stored (h : IsShortName input base ext)
    (hn : n.1 = pad 8 (base.map toUpper) ++ pad 3 (ext.map toUpper)) :
    StoredName n (base.map toUpper) (ext.map toUpper) := by
  refine ⟨hn, by rw [List.length_map]; exact h.base_le, by rw [List.length_map]; exact h.ext_le, fun c hc => ?_⟩
  rw [← List.map_append] at hc
  obtain ⟨b, hb, rfl⟩ := List.mem_map.1 hc
  exact isValidChar_toUpper.2 (h.chars b hb)

theorem getLast?_ne_dot (h : ∀ c ∈ l, isValidChar c = true) : l.getLast? ≠ some dot := fun hd =>
  isValidChar.ne_dot (h dot (List.mem_of_getLast? hd)) rfl

/-- The text of a name, its parts joined: the dot stands only in front of an extension. -/
theorem IsShortName.dropTrailingDot (h : IsShortName input base ext) :
    dropTrailingDot (input.map toUpper) = joinName (base.map toUpper) (ext.map toUpper) := by
  have hchars : ∀ {l : List UInt8}, (∀ c ∈ l, c ∈ base ++ ext) → ∀ c ∈ l.map toUpper, isValidChar c = true := by
    intro l hl c hc
    obtain ⟨b, hb, rfl⟩ := List.mem_map.1 hc
    exact isValidChar_toUpper.2 (h.chars b (hl b hb))
  unfold Fat12.dropTrailingDot joinName
  obtain ⟨rfl, rfl⟩ | rfl := h.input
  · rw [if_neg (getLast?_ne_dot (hchars fun c => List.mem_append_left [])), if_pos (by rfl)]
  · have hdot : toUpper dot = dot := rfl
    rw [List.map_append, List.map_cons, hdot]
    by_cases hext : ext = []
    · subst hext
      rw [List.map_nil, if_pos (List.getLast?_concat ..), if_pos rfl, List.dropLast_concat]
    · have hne : ext.map toUpper ≠ [] := fun hnil => hext (List.map_eq_nil_iff.1 hnil)
      have hlast : (base.map toUpper ++ dot :: ext.map toUpper).getLast? = (ext.map toUpper).getLast? := by
        rw [← List.singleton_append, ← List.append_assoc, List.getLast?_append_of_ne_nil _ hne]
      rw [hlast, if_neg (getLast?_ne_dot (hchars fun c => List.mem_append_right base)), if_neg hne]

/-- Encoding and decoding a name are inverse, in both directions. -/
theorem names_inverse :
    (∀ s n, makeShortName s = .ok n → dirNameToString n = dropTrailingDot (s.map toUpper) ∧
      (dirNameToString n).length + 1 ≤ 13 ∧ makeShortName (dirNameToString n) = .ok n) ∧
    (∀ n base ext, StoredName n base ext → makeShortName (dirNameToString n) = .ok n) ∧
    ∀ n m base ext base' ext', StoredName n base ext → StoredName m base' ext' → n ≠ m →
    dirNameToString n ≠ dirNameToString m := by
  refine ⟨?_, ?_, ?_⟩
  · intro s n h
    obtain ⟨base, ext, hs, hn⟩ := makeShortName_iff.1 h
    have hst := hs.stored hn
    refine ⟨by rw [hst.display, hs.dropTrailingDot], ?_, hst.encode⟩
    rw [hst.display]
    exact length_joinName hst.base_le.2 hst.ext_le
  · intro n base ext h
    exact h.encode
  · intro n m base ext base' ext' hn hm hne hd
    exact hne (hn.display_injective hm hd)

end

end AltoniumOS.Fat12

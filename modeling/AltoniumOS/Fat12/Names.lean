/-
What the encoder of `fat12.c` accepts: a base of at most 8 characters and, behind the only dot, an
extension of at most 3.
-/
import AltoniumOS.Fat12.Entry

namespace AltoniumOS.Fat12

open AltoniumOS.Lib

theorem toUpper_eq_dot {c : UInt8} : toUpper c = dot ↔ c = dot := by
  constructor
  · intro h
    unfold toUpper at h
    split at h
    · rename_i hc
      have hback : c = dot + 32 := by rw [← h, UInt8.sub_add_cancel]
      rw [hback] at hc
      exact absurd hc (by decide)
    · exact h
  · rintro rfl
    rfl

/-- With a dot behind it, the search accepts no other. -/
theorem dotIndex_some :
    ∀ {l : List UInt8} {i d : Nat} {r : Option Nat}, dotIndex i (some d) l = .ok r → dot ∉ l ∧ r = some d
  | [], _, _, _, h => by
    cases h
    exact ⟨List.not_mem_nil, rfl⟩
  | c :: l, i, d, r, h => by
    rw [dotIndex] at h
    split at h
    · cases h
    · rename_i hc
      split at h
      · cases h
      · obtain ⟨h1, h2⟩ := dotIndex_some h
        refine ⟨?_, h2⟩
        rintro (_ | ⟨_, hm⟩)
        · exact hc rfl
        · exact h1 hm

/-- What the dot search accepts: no dot, or one. -/
theorem dotIndex_none :
    ∀ {l : List UInt8} {i : Nat} {r : Option Nat}, dotIndex i none l = .ok r →
      (dot ∉ l ∧ r = none) ∨ ∃ base ext, l = base ++ dot :: ext ∧ dot ∉ base ∧ dot ∉ ext ∧
      r = some (i + base.length)
  | [], _, _, h => by
    cases h
    exact .inl ⟨List.not_mem_nil, rfl⟩
  | c :: l, i, r, h => by
    rw [dotIndex] at h
    split at h
    · rename_i hc
      obtain ⟨h1, h2⟩ := dotIndex_some (by simpa using h)
      exact .inr ⟨[], l, by rw [hc]; rfl, List.not_mem_nil, h1, h2⟩
    · rename_i hc
      split at h
      · cases h
      · have hcons : ∀ {m : List UInt8}, dot ∉ m → dot ∉ c :: m := by
          rintro m hm (_ | ⟨_, h⟩)
          · exact hc rfl
          · exact hm h
        rcases dotIndex_none h with ⟨h1, h2⟩ | ⟨base, ext, rfl, h1, h2, h3⟩
        · exact .inl ⟨hcons h1, h2⟩
        · refine .inr ⟨c :: base, ext, rfl, hcons h1, h2, ?_⟩
          rw [h3, List.length_cons]
          congr 1
          omega

theorem packName_ok {base ext : List UInt8} {n : ShortName} (h : packName base ext = .ok n) :
    base ≠ [] ∧ base.length ≤ 8 ∧ ext.length ≤ 3 ∧ (∀ c ∈ base ++ ext, isValidChar c = true) ∧
      n.1 = pad 8 base ++ pad 3 ext := by
  unfold packName at h
  split_ifs at h with hb he hvb hve
  cases h
  refine ⟨List.length_pos_iff.1 hb.1, hb.2, he, ?_, rfl⟩
  intro c hc
  rcases List.mem_append.1 hc with hc | hc
  · exact List.all_eq_true.1 hvb c hc
  · exact List.all_eq_true.1 hve c hc

/-- `input` is a base and an extension, which make the short name `n`. -/
structure Parts (input base ext : List UInt8) (n : ShortName) : Prop where
  input : input = base ∧ ext = [] ∨ input = base ++ dot :: ext
  base_ne : base ≠ []
  base_le : base.length ≤ 8
  ext_le : ext.length ≤ 3
  noDot : dot ∉ base ∧ dot ∉ ext
  valid : ∀ c ∈ base ++ ext, isValidChar (toUpper c) = true
  name : n.1 = pad 8 (base.map toUpper) ++ pad 3 (ext.map toUpper)

/-- A name the encoder accepts, and what it makes of it. -/
theorem makeShortName_ok {input : List UInt8} {n : ShortName} (h : makeShortName input = .ok n) :
    ∃ base ext, Parts input base ext n := by
  unfold makeShortName at h
  split at h
  · cases h
  dsimp only at h
  -- names longer than the buffer are too long for a short name
  have hall : (input.take 31).length < 31 → input.take 31 = input := by
    intro hlt
    rw [List.length_take] at hlt
    exact List.take_of_length_le (by omega)
  have hdot : ∀ {l : List UInt8}, dot ∉ l.map toUpper → dot ∉ l := by
    intro l hl hm
    exact hl (List.mem_map.2 ⟨dot, hm, toUpper_eq_dot.2 rfl⟩)
  have hvalid : ∀ {a b : List UInt8}, (∀ c ∈ a.map toUpper ++ b.map toUpper, isValidChar c = true) →
      ∀ c ∈ a ++ b, isValidChar (toUpper c) = true := by
    intro a b hab c hc
    rw [← List.map_append] at hab
    exact hab _ (List.mem_map_of_mem hc)
  split at h
  · cases h
  · rename_i hd
    obtain ⟨h1, -⟩ | ⟨base, ext, -, -, -, h4⟩ := dotIndex_none hd
    · obtain ⟨h2, h3, -, h5, h6⟩ := packName_ok h
      rw [List.length_map] at h3
      have hinput := hall (by omega)
      rw [hinput] at h1 h2 h3 h5 h6
      refine ⟨input, [], .inl ⟨rfl, rfl⟩, ?_, h3, by decide, ⟨hdot h1, List.not_mem_nil⟩, hvalid h5, h6⟩
      rintro rfl
      exact h2 rfl
    · cases h4
  · rename_i d hd
    obtain ⟨-, h4⟩ | ⟨base, ext, h1, h2, h3, h4⟩ := dotIndex_none hd
    · cases h4
    · rw [Nat.zero_add] at h4
      cases h4
      have htake : (base ++ dot :: ext).take base.length = base := List.take_left
      have hdrop : (base ++ dot :: ext).drop (base.length + 1) = ext := by simp
      rw [h1, htake, hdrop] at h
      obtain ⟨h5, h6, h7, h8, h9⟩ := packName_ok h
      have hlen : (input.take 31).length = base.length + (ext.length + 1) := by
        rw [← List.length_map (f := toUpper), h1, List.length_append, List.length_cons]
      rw [hall (by omega)] at h1
      obtain ⟨base', rest, rfl, rfl, hrest⟩ := List.map_eq_append_iff.1 h1
      obtain ⟨c, ext', rfl, hc, rfl⟩ := List.map_eq_cons_iff.1 hrest
      rw [toUpper_eq_dot] at hc
      subst hc
      rw [List.length_map] at h6 h7
      refine ⟨base', ext', .inr rfl, ?_, h6, h7, ⟨hdot h2, hdot h3⟩, hvalid h8, h9⟩
      rintro rfl
      exact h5 rfl

end AltoniumOS.Fat12

/-
Lists threaded through a successor function, as a file allocation table threads the blocks of a
file: `Linked next a l z` says that following `next` from `a` visits exactly `l` and arrives at
`z`; `follow` is the walk itself, for as long as it stays on live values, and `Met` what it meets where the links
may come back to a value; `LeadsOut` says that they come to a value that is not live.
-/
import Mathlib.Tactic

namespace AltoniumOS.Lib

/-- Following `next` from `a` visits `l`, in order, and arrives at `z`. -/
def Linked {α : Type} (next : α → α) : α → List α → α → Prop
  | a, [], z => a = z
  | a, b :: l, z => a = b ∧ Linked next (next a) l z

/-- The live values met from `a` on, at most `n` of them. -/
def follow {α : Type} (next : α → α) (live : α → Bool) : Nat → α → List α
  | 0, _ => []
  | n + 1, a => if live a then a :: follow next live n (next a) else []

section Linked

variable {α : Type} {next next' : α → α} {live : α → Bool}

@[simp] theorem linked_nil (a z : α) : Linked next a [] z ↔ a = z := Iff.rfl

@[simp] theorem linked_cons (a b z : α) (l : List α) :
    Linked next a (b :: l) z ↔ a = b ∧ Linked next (next a) l z := Iff.rfl

theorem linked_append : ∀ {l m : List α} {a z : α},
    Linked next a (l ++ m) z ↔ ∃ y, Linked next a l y ∧ Linked next y m z
  | [], m, a, z => by simp
  | b :: l, m, a, z => by
    simp only [List.cons_append, linked_cons, linked_append (l := l)]
    constructor
    · rintro ⟨h, y, h1, h2⟩; exact ⟨y, ⟨h, h1⟩, h2⟩
    · rintro ⟨y, ⟨h, h1⟩, h2⟩; exact ⟨h, y, h1, h2⟩

theorem linked_snoc {l : List α} {a b z : α} : Linked next a (l ++ [b]) z ↔ Linked next a l b ∧ next b = z := by
  rw [linked_append]
  constructor
  · rintro ⟨y, h1, rfl, h2⟩; exact ⟨h1, h2⟩
  · rintro ⟨h1, h2⟩; exact ⟨b, h1, rfl, h2⟩

/-- Numbers in a row, each linked to the next. -/
theorem linked_range' {next : Nat → Nat} :
    ∀ {n a : Nat}, (∀ k, a ≤ k → k < a + n → next k = k + 1) → Linked next a (List.range' a n) (a + n)
  | 0, _, _ => rfl
  | n + 1, a, h => by
    rw [List.range'_succ]
    refine ⟨rfl, ?_⟩
    rw [h a (le_refl a) (by omega), show a + (n + 1) = a + 1 + n by omega]
    exact linked_range' fun k h1 h2 => h k (by omega) (by omega)

/-- Only the links out of the visited values matter. -/
theorem Linked.congr :
    ∀ {l : List α} {a z : α}, Linked next a l z → (∀ x ∈ l, next' x = next x) → Linked next' a l z
  | [], _, _, h, _ => h
  | b :: l, a, z, h, hx => by
    obtain ⟨rfl, h⟩ := h
    refine ⟨rfl, ?_⟩
    rw [hx a (List.mem_cons_self ..)]
    exact h.congr fun x hm => hx x (List.mem_cons_of_mem _ hm)

theorem Linked.head {l : List α} {a z : α} (h : Linked next a l z) (hl : l ≠ []) : l.head hl = a := by
  cases l with
  | nil => exact absurd rfl hl
  | cons b l => exact h.1.symm

theorem Linked.head_mem {l : List α} {a z : α} (h : Linked next a l z) (hl : l ≠ []) : a ∈ l := by
  rw [← h.head hl]; exact List.head_mem hl

/-- A link out of a visited value leads to a visited value or to the arrival. -/
theorem Linked.next_mem : ∀ {l : List α} {a z x : α}, Linked next a l z → x ∈ l → next x ∈ l ∨ next x = z
  | b :: l, a, z, x, h, hx => by
    obtain ⟨rfl, h⟩ := h
    rcases List.mem_cons.1 hx with rfl | hx
    · cases l with
      | nil => exact .inr h
      | cons c l => exact .inl (by rw [h.1]; simp)
    · rcases h.next_mem hx with h | h
      · exact .inl (List.mem_cons_of_mem _ h)
      · exact .inr h

/-- The walk from `a` is the linked list from `a`, when its values are live, its arrival is not,
and the walk is given enough steps. -/
theorem follow_eq : ∀ {l : List α} {n : Nat} {a z : α}, Linked next a l z → (∀ x ∈ l, live x = true) →
    live z = false → l.length < n → follow next live n a = l
  | [], n + 1, a, z, h, _, hz, _ => by
    have h : a = z := h
    rw [follow, h, hz]; rfl
  | b :: l, n + 1, a, z, h, hl, hz, hn => by
    obtain ⟨rfl, h⟩ := h
    rw [follow, if_pos (hl a (List.mem_cons_self ..)),
      follow_eq h (fun x hx => hl x (List.mem_cons_of_mem _ hx)) hz (by simpa using hn)]

theorem follow_dead {n : Nat} {a : α} (h : live a = false) : follow next live n a = [] := by
  cases n with
  | zero => rfl
  | succ n => rw [follow, h]; rfl

theorem follow_congr : ∀ {n : Nat} {a : α}, (∀ x ∈ follow next live n a, next' x = next x) →
    follow next' live n a = follow next live n a
  | 0, _, _ => rfl
  | n + 1, a, h => by
    by_cases ha : live a = true
    · have hf : follow next live (n + 1) a = a :: follow next live n (next a) := if_pos ha
      rw [hf] at h ⊢
      rw [follow, if_pos ha, h a (List.mem_cons_self ..),
        follow_congr fun x hx => h x (List.mem_cons_of_mem _ hx)]
    · rw [follow, follow, if_neg ha, if_neg ha]

end Linked

/-! ## The values met -/

/-- The live values met by following `next` from `a` on, however the links run. -/
inductive Met {α : Type} (next : α → α) (live : α → Bool) (a : α) : α → Prop
  | start : live a = true → Met next live a a
  | next {x : α} : Met next live a x → live (next x) = true → Met next live a (next x)

section Met

variable {α : Type} {next next' : α → α} {live : α → Bool} {a x : α}

/-- Once the link out of the first value is cut, the values behind it are the others. -/
theorem met_iff (ha : live a = true) (hother : ∀ x, x ≠ a → next' x = next x) (hcut : live (next' a) = false) :
    Met next live a x ↔ x = a ∨ Met next' live (next a) x := by
  constructor
  · intro h
    induction h with
    | start h => exact .inl rfl
    | @next x hx hl ih =>
      by_cases hxa : x = a
      · subst hxa
        exact .inr (.start hl)
      · rcases ih with h | h
        · exact absurd h hxa
        · have hstep := Met.next h (by rw [hother x hxa]; exact hl)
          rw [hother x hxa] at hstep
          exact .inr hstep
  · rintro (rfl | h)
    · exact .start ha
    · induction h with
      | start h => exact .next (.start ha) h
      | @next x hx hl ih =>
        have hxa : x ≠ a := by
          rintro rfl
          rw [hcut] at hl
          cases hl
        rw [hother x hxa] at hl ⊢
        exact .next ih hl

end Met

/-! ## Walks that come to an end -/

/-- Following `next` from `a` comes to a value that is not live. -/
def LeadsOut {α : Type} (next : α → α) (live : α → Bool) (a : α) : Prop := ∃ n, live (next^[n] a) = false

section LeadsOut

variable {α : Type} {next : α → α} {live : α → Bool} {a k v : α}

theorem LeadsOut.dead (h : live a = false) : LeadsOut next live a := ⟨0, h⟩

theorem LeadsOut.of_next (h : LeadsOut next live (next a)) : LeadsOut next live a := by
  obtain ⟨n, hn⟩ := h
  exact ⟨n + 1, hn⟩

/-- A link set anew, to a value from where the links lead out, spoils no walk. -/
theorem LeadsOut.update [DecidableEq α] (hv : LeadsOut (Function.update next k v) live v)
    (h : LeadsOut next live a) : LeadsOut (Function.update next k v) live a := by
  obtain ⟨n, hn⟩ := h
  induction n generalizing a with
  | zero => exact .dead hn
  | succ n ih =>
    apply LeadsOut.of_next
    by_cases hk : a = k
    · rw [hk, Function.update_self]
      exact hv
    · rw [Function.update_of_ne hk]
      exact ih hn

/-- A walk that comes to an end meets no value twice, so it is no longer than there are live values. -/
theorem LeadsOut.within {next : Nat → Nat} {live : Nat → Bool} {a N : Nat} (hlive : ∀ k, live k = true → k < N)
    (h : LeadsOut next live a) : ∃ n ≤ N, live (next^[n] a) = false := by
  refine ⟨Nat.find h, ?_, Nat.find_spec h⟩
  by_contra hlong
  have hmin : ∀ i ∈ Finset.range (N + 1), next^[i] a ∈ Finset.range N := fun i hi => by
    have hi := Finset.mem_range.1 hi
    have hne := Nat.find_min h (show i < Nat.find h by omega)
    exact Finset.mem_range.2 (hlive _ (by simpa using hne))
  obtain ⟨i, hi, j, hj, hne, he⟩ := Finset.exists_ne_map_eq_of_card_lt_of_maps_to (by simp) hmin
  -- the walk from the later of the two is the one from the earlier
  have hshort : ∀ {i j : Nat}, i < j → j < Nat.find h → next^[i] a = next^[j] a → False := fun {i j} hij hj he => by
    refine Nat.find_min h (show Nat.find h - j + i < Nat.find h by omega) ?_
    rw [Function.iterate_add_apply, he, ← Function.iterate_add_apply, Nat.sub_add_cancel hj.le]
    exact Nat.find_spec h
  have hi := Finset.mem_range.1 hi
  have hj := Finset.mem_range.1 hj
  rcases Nat.lt_or_gt_of_ne hne with hlt | hlt
  · exact hshort hlt (by omega) he
  · exact hshort hlt (by omega) he.symm

end LeadsOut

end AltoniumOS.Lib

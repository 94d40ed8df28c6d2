/-
Scanning a table of slots in order: each slot is passed over, taken as the hit, or ends the scan.
When the ending slots all come last, a scan is a search by membership, whatever the order.
-/
import Mathlib.Tactic

namespace AltoniumOS.Lib

/-- What one slot does to a scan. -/
inductive Verdict where
  | hit
  | stop
  | skip
  deriving DecidableEq, Repr

/-- How a scan ends: at a hit, at an ending slot, or past the last slot. -/
inductive Scan (α : Type) where
  | hit (a : α)
  | stopped
  | ranOff
  deriving DecidableEq, Repr

def scan {α : Type} (f : α → Verdict) : List α → Scan α
  | [] => .ranOff
  | a :: l => match f a with
    | .hit => .hit a
    | .stop => .stopped
    | .skip => scan f l

section Scan

variable {α β : Type} {f g : α → Verdict}

@[simp] theorem scan_nil : scan f [] = .ranOff := rfl

theorem scan_hit {a : α} {l : List α} (h : f a = .hit) : scan f (a :: l) = .hit a := by rw [scan, h]

theorem scan_skip {a : α} {l : List α} (h : f a = .skip) : scan f (a :: l) = scan f l := by rw [scan, h]

theorem scan_congr : ∀ {l : List α}, (∀ a ∈ l, f a = g a) → scan f l = scan g l
  | [], _ => rfl
  | a :: l, h => by
    have ih := scan_congr fun b hb => h b (List.mem_cons_of_mem _ hb)
    rw [scan, scan, h a (List.mem_cons_self ..), ih]

/-- Scanning on: the second part is scanned when the first one ran off its end. -/
theorem scan_append : ∀ (l m : List α), scan f (l ++ m) = match scan f l with
    | .ranOff => scan f m
    | r => r
  | [], m => rfl
  | a :: l, m => by
    rw [List.cons_append, scan, scan]
    cases h : f a with
    | hit => rfl
    | stop => rfl
    | skip => exact scan_append l m

/-- Relabelling the slots relabels the hit. -/
theorem scan_map (k : α → β) {f : β → Verdict} : ∀ (l : List α), scan f (l.map k) = match scan (f ∘ k) l with
    | .hit a => .hit (k a)
    | .stopped => .stopped
    | .ranOff => .ranOff
  | [] => rfl
  | a :: l => by
    rw [List.map_cons, scan, scan, Function.comp]
    cases h : f (k a) with
    | hit => rfl
    | stop => rfl
    | skip => exact scan_map k l

theorem scan_hit_mem : ∀ {l : List α} {a : α}, scan f l = .hit a → a ∈ l ∧ f a = .hit
  | b :: l, a, h => by
    rw [scan] at h
    cases hb : f b with
    | hit =>
      rw [hb] at h; cases h
      exact ⟨List.mem_cons_self .., hb⟩
    | stop => rw [hb] at h; cases h
    | skip =>
      rw [hb] at h
      obtain ⟨h1, h2⟩ := scan_hit_mem h
      exact ⟨List.mem_cons_of_mem _ h1, h2⟩

/-- A scan that ran off its end passed over every slot. -/
theorem scan_ranOff_iff : ∀ {l : List α}, scan f l = .ranOff ↔ ∀ a ∈ l, f a = .skip
  | [] => by simp
  | b :: l => by
    rw [scan, List.forall_mem_cons]
    cases hb : f b with
    | hit => simp
    | stop => simp
    | skip => simp [scan_ranOff_iff (l := l)]

theorem scan_ne_stopped (h : ∀ a, f a ≠ .stop) : ∀ {l : List α}, scan f l ≠ .stopped
  | [] => by simp
  | b :: l => by
    rw [scan]
    cases hb : f b with
    | hit => simp
    | stop => exact absurd hb (h b)
    | skip => exact scan_ne_stopped h

/-- Every slot before the hit was passed over. -/
theorem scan_hit_split : ∀ {l : List α} {a : α}, scan f l = .hit a →
    ∃ pre post, l = pre ++ a :: post ∧ ∀ b ∈ pre, f b = .skip
  | b :: l, a, h => by
    rw [scan] at h
    cases hb : f b with
    | hit => rw [hb] at h; cases h; exact ⟨[], l, rfl, by simp⟩
    | stop => rw [hb] at h; cases h
    | skip =>
      rw [hb] at h
      obtain ⟨pre, post, rfl, hp⟩ := scan_hit_split h
      exact ⟨b :: pre, post, rfl, by simpa [hb] using hp⟩

/-- In a list without repetition, what holds of everything before `p` holds of whatever comes before `p`. -/
theorem pairwise_before {Q : α → Prop} {l pre post : List α} {p : α} (hl : l = pre ++ p :: post) (hnd : l.Nodup)
    (hpre : ∀ a ∈ pre, Q a) : l.Pairwise fun a b => b = p → Q a := by
  subst hl
  rw [List.nodup_append, List.nodup_cons] at hnd
  rw [List.pairwise_append, List.pairwise_cons]
  refine ⟨List.pairwise_of_forall_mem_list fun a ha _ _ _ => hpre a ha, ⟨fun b hb hbp => ?_, ?_⟩,
    fun a ha _ _ _ => hpre a ha⟩
  · exact absurd (hbp ▸ hb) hnd.2.1.1
  · exact List.pairwise_of_forall_mem_list fun _ _ b hb hbp => absurd (hbp ▸ hb) hnd.2.1.1

/-- The ending slots come last. -/
def StopsLast (f : α → Verdict) (l : List α) : Prop := l.Pairwise fun a b => f a = .stop → f b = .stop

/-- With the ending slots last, the only slot that hits is the hit. -/
theorem scan_eq_hit : ∀ {l : List α} {a : α}, StopsLast f l → a ∈ l → f a = .hit →
    (∀ b ∈ l, f b = .hit → b = a) → scan f l = .hit a
  | b :: l, a, hs, ha, hf, hu => by
    obtain ⟨hs1, hs2⟩ := List.pairwise_cons.1 hs
    cases hb : f b with
    | hit => rw [scan_hit hb, hu b (List.mem_cons_self ..) hb]
    | stop =>
      rcases List.mem_cons.1 ha with rfl | ha
      · rw [hf] at hb; cases hb
      · rw [hs1 a ha hb] at hf; cases hf
    | skip =>
      rw [scan_skip hb]
      rcases List.mem_cons.1 ha with rfl | ha
      · rw [hf] at hb; cases hb
      · exact scan_eq_hit hs2 ha hf fun c hc => hu c (List.mem_cons_of_mem _ hc)

end Scan

end AltoniumOS.Lib

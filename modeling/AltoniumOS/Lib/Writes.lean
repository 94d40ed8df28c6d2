/-
Lists of writes to a store, carried out in order and possibly cut short: what the store holds
afterwards, address by address.
-/
import Mathlib.Tactic

namespace AltoniumOS.Lib

section Writes

variable {α β : Type} [DecidableEq α]

/-- The store after the writes, in order. -/
def applyWrites (d : α → β) (ws : List (α × β)) : α → β := ws.foldl (fun d w => Function.update d w.1 w.2) d

/-- The store holds what the writes would write. -/
def Holds (d : α → β) (ws : List (α × β)) : Prop := ∀ w ∈ ws, d w.1 = w.2

theorem applyWrites_append (d : α → β) (ws vs : List (α × β)) :
    applyWrites d (ws ++ vs) = applyWrites (applyWrites d ws) vs := List.foldl_append ..

/-- An address not written keeps its value. -/
theorem applyWrites_other :
    ∀ {ws : List (α × β)} {d : α → β} {a : α}, (∀ w ∈ ws, w.1 ≠ a) → applyWrites d ws a = d a
  | [], _, _, _ => rfl
  | w :: ws, d, a, h => by
    have ih := @applyWrites_other ws (Function.update d w.1 w.2) a fun v hv => h v (List.mem_cons_of_mem _ hv)
    show applyWrites (Function.update d w.1 w.2) ws a = d a
    rw [ih, Function.update_of_ne (h w (List.mem_cons_self ..)).symm]

/-- An address written once holds what was written. -/
theorem applyWrites_of_mem : ∀ {ws : List (α × β)} {d : α → β} {w : α × β}, (ws.map Prod.fst).Nodup → w ∈ ws →
    applyWrites d ws w.1 = w.2
  | v :: ws, d, w, hnd, hw => by
    obtain ⟨hv, hnd⟩ := List.nodup_cons.1 hnd
    show applyWrites (Function.update d v.1 v.2) ws w.1 = w.2
    rcases List.mem_cons.1 hw with rfl | hw
    · rw [applyWrites_other fun u hu he => hv (List.mem_map.2 ⟨u, hu, he⟩), Function.update_self]
    · exact applyWrites_of_mem hnd hw

omit [DecidableEq α] in
theorem holds_append {d : α → β} {ws vs : List (α × β)} : Holds d (ws ++ vs) ↔ Holds d ws ∧ Holds d vs :=
  List.forall_mem_append

/-- Writes to other addresses do not matter. -/
theorem holds_applyWrites_other {d : α → β} {ws vs : List (α × β)} (h : ∀ w ∈ ws, ∀ v ∈ vs, w.1 ≠ v.1) :
    Holds (applyWrites d ws) vs ↔ Holds d vs := by
  refine forall₂_congr fun v hv => ?_
  rw [applyWrites_other fun w hw => h w hw v hv]

/-- Of writes cut short, those carried out hold, and the others hold if they did before. -/
theorem holds_cut {d : α → β} {ws vs : List (α × β)} (hnd : ((ws ++ vs).map Prod.fst).Nodup) :
    Holds (applyWrites d ws) (ws ++ vs) ↔ Holds d vs := by
  rw [List.map_append, List.nodup_append] at hnd
  obtain ⟨h1, -, h2⟩ := hnd
  rw [holds_append, holds_applyWrites_other fun w hw v hv =>
    h2 _ (List.mem_map_of_mem hw) _ (List.mem_map_of_mem hv)]
  exact and_iff_right fun w hw => applyWrites_of_mem h1 hw

end Writes

end AltoniumOS.Lib

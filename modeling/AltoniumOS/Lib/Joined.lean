/-
Lists joined by a separator, over any type: what an edit of one of the lists, the breaking of one in two
and the joining of two are on the joined list.
-/
import Mathlib.Tactic

namespace AltoniumOS.Lib

section

variable {α : Type} {sep : α} {ls pre post : List (List α)} {l m : List α} {k x : Nat}

/-- The lists one after the other, with `sep` between them. -/
def joined (sep : α) (ls : List (List α)) : List α := [sep].intercalate ls

/-- Where list `k` begins in the joined one. -/
def begins (ls : List (List α)) (k : Nat) : Nat := ((ls.take k).map fun l => l.length + 1).sum

@[simp] theorem begins_zero (ls : List (List α)) : begins ls 0 = 0 := rfl

theorem exists_around (hk : k < ls.length) : ∃ pre post, ls = pre ++ ls.getD k [] :: post ∧ pre.length = k := by
  refine ⟨ls.take k, ls.drop (k + 1), ?_, List.length_take_of_le (by omega)⟩
  rw [List.getD_eq_getElem?_getD, List.getElem?_eq_getElem hk, Option.getD_some, ← List.drop_eq_getElem_cons hk,
    List.take_append_drop]

theorem begins_append (sep : α) (pre post : List (List α)) :
    begins (pre ++ post) pre.length = (pre.flatMap (· ++ [sep])).length := by
  simp [begins, List.length_flatMap]

theorem joined_cons (sep : α) (l : List α) (post : List (List α)) :
    joined sep (l :: post) = l ++ post.flatMap (sep :: ·) := by
  unfold joined
  induction post generalizing l with
  | nil => simp
  | cons m post ih => rw [List.intercalate_cons_cons, ih m]; simp

theorem joined_around (sep : α) (pre : List (List α)) (l : List α) (post : List (List α)) :
    joined sep (pre ++ l :: post) = pre.flatMap (· ++ [sep]) ++ (l ++ post.flatMap (sep :: ·)) := by
  induction pre with
  | nil => simp [joined_cons]
  | cons p pre ih =>
    have hne : pre ++ l :: post ≠ [] := by simp
    unfold joined at ih ⊢
    rw [List.cons_append, List.intercalate_cons_of_ne_nil hne, ih]
    simp

theorem set_around : (pre ++ l :: post).set pre.length m = pre ++ m :: post := by simp

/-! ## Edits -/

theorem joined_eraseIdx (sep : α) (hx : x < l.length) :
    joined sep (pre ++ l.eraseIdx x :: post) =
      (joined sep (pre ++ l :: post)).eraseIdx (begins (pre ++ l :: post) pre.length + x) := by
  rw [joined_around, joined_around, begins_append sep]
  rw [List.eraseIdx_append_of_length_le (by omega), Nat.add_sub_cancel_left, List.eraseIdx_append_of_lt_length hx]

theorem insertIdx_between (l m : List α) (c : α) : (l ++ m).insertIdx l.length c = l ++ c :: m := by
  induction l with
  | nil => rfl
  | cons a l ih => simp [ih]

/-- A list broken in two is the separator inserted. -/
theorem joined_break (sep : α) (hx : x ≤ l.length) :
    joined sep (pre ++ l.take x :: l.drop x :: post) =
      (joined sep (pre ++ l :: post)).insertIdx (begins (pre ++ l :: post) pre.length + x) sep := by
  rw [joined_around, joined_around, begins_append sep]
  -- the place is behind what is taken
  have hplace : (pre.flatMap (· ++ [sep]) ++ l.take x).length = (pre.flatMap (· ++ [sep])).length + x := by
    rw [List.length_append, List.length_take_of_le hx]
  have hwhole : pre.flatMap (· ++ [sep]) ++ (l ++ post.flatMap (sep :: ·)) =
      pre.flatMap (· ++ [sep]) ++ l.take x ++ (l.drop x ++ post.flatMap (sep :: ·)) := by
    rw [List.append_assoc, ← List.append_assoc (l.take x), List.take_append_drop]
  rw [← hplace, hwhole, insertIdx_between]
  simp

/-- Two lists made one is the separator erased. -/
theorem joined_merge (sep : α) (pre : List (List α)) (l m : List α) (post : List (List α)) :
    joined sep (pre ++ (l ++ m) :: post) =
      (joined sep (pre ++ l :: m :: post)).eraseIdx (begins (pre ++ l :: m :: post) pre.length + l.length) := by
  rw [joined_around, joined_around, begins_append sep]
  rw [List.eraseIdx_append_of_length_le (by omega), Nat.add_sub_cancel_left,
    List.eraseIdx_append_of_length_le (by omega), Nat.sub_self]
  simp

end

end AltoniumOS.Lib

/-
Trees of directories and files, as functions of paths: a path is the list of the names on the way down from the
root. One name of a directory can be set or cleared. A walk goes down by names, and up along the first levels of
its path, which are all it remembers.
-/
import Mathlib.Tactic

namespace AltoniumOS.Lib

variable {α β : Type}

/-- What a path leads to. -/
inductive Node (β : Type) where
  | dir
  | file (content : β)
  deriving DecidableEq

/-- A step of a walk. -/
inductive Step (α : Type) where
  | here
  | up
  | down (name : α)

/-- Why a walk ends before its last step. -/
inductive Trouble where
  | badName
  | missing
  | notDirectory
  deriving DecidableEq

/-- Every path that leads somewhere leads through directories. -/
@[ext] structure Hierarchy (α β : Type) where
  node : List α → Option (Node β)
  root : node [] = some .dir
  parent : ∀ p a, (node (p ++ [a])).isSome → node p = some .dir

/-- One level up, from as far down as the first `limit` levels. -/
def ascend (limit : Nat) (p : List α) : List α := (p.take limit).dropLast

theorem ascend_take {limit : Nat} (p : List α) : (ascend limit p).take limit = ascend limit p := by
  unfold ascend
  apply List.take_of_length_le
  rw [List.length_dropLast, List.length_take]
  omega

namespace Hierarchy

variable (H : Hierarchy α β) (limit : Nat)

/-- The name `a` of the directory `p` set to a new node, or cleared; it was no directory before. -/
def set [DecidableEq α] (p : List α) (a : α) (v : Option (Node β)) (hp : H.node p = some .dir)
    (hold : H.node (p ++ [a]) ≠ some .dir) : Hierarchy α β where
  node := Function.update H.node (p ++ [a]) v
  root := by
    rw [Function.update_of_ne (by simp)]
    exact H.root
  parent q b hb := by
    have hq : q = p ++ [a] → False := by
      rintro rfl
      -- nothing lies below what was no directory
      rw [Function.update_of_ne (by simp)] at hb
      exact hold (H.parent _ _ hb)
    rw [Function.update_of_ne hq]
    by_cases hqb : q ++ [b] = p ++ [a]
    · rw [(List.append_inj' hqb rfl).1]
      exact hp
    · rw [Function.update_of_ne hqb] at hb
      exact H.parent q b hb

/-- Where the steps lead from `p`; a step without a name leads nowhere. -/
def walk : List α → List (Option (Step α)) → Except Trouble (List α)
  | p, [] => .ok p
  | p, some .here :: rest => walk p rest
  | p, some .up :: rest => walk (ascend limit p) rest
  | p, some (.down a) :: rest =>
    match H.node (p ++ [a]) with
    | some .dir => walk (p ++ [a]) rest
    | some (.file _) => .error .notDirectory
    | none => .error .missing
  | _, none :: _ => .error .badName

/-- The directory and the name that the steps lead to: the last of them is a name. -/
def target (p : List α) (steps : List (Option (Step α))) : Except Trouble (List α × α) :=
  match steps.getLast? with
  | none => .error .badName
  | some last => (H.walk limit p steps.dropLast).bind fun q =>
    match last with
    | some (.down a) => .ok (q, a)
    | _ => .error .badName

variable {H limit} {p : List α} {a : α}

section

variable [DecidableEq α] {v : Option (Node β)} {hp : H.node p = some .dir} {hold : H.node (p ++ [a]) ≠ some .dir}

theorem node_set (q : List α) : (H.set p a v hp hold).node q = if q = p ++ [a] then v else H.node q := by
  show Function.update H.node (p ++ [a]) v q = _
  rw [Function.update_apply]

/-- Directories stay where they are. -/
theorem dir_set {q : List α} (hq : H.node q = some .dir) : (H.set p a v hp hold).node q = some .dir := by
  rw [node_set, if_neg]
  · exact hq
  · rintro rfl
    exact hold hq

end

/-- Above something there are directories only. -/
theorem dir_take (h : H.node p = some .dir) (k : Nat) : H.node (p.take k) = some .dir := by
  induction p using List.reverseRecOn with
  | nil => rwa [List.take_nil]
  | append_singleton q b ih =>
    by_cases hk : k ≤ q.length
    · rw [List.take_append_of_le_length hk]
      exact ih (H.parent q b (by rw [h]; rfl))
    · rwa [List.take_of_length_le (by rw [List.length_append, List.length_singleton]; omega)]

theorem ascend_dir (h : H.node p = some .dir) : H.node (ascend limit p) = some .dir := by
  unfold ascend
  rw [List.dropLast_eq_take]
  exact dir_take (dir_take h limit) _

/-- A walk from a directory arrives at a directory. -/
theorem walk_dir :
    ∀ {steps : List (Option (Step α))} {p q : List α}, H.node p = some .dir → H.walk limit p steps = .ok q →
      H.node q = some .dir
  | [], p, q, hp, hw => by
    cases hw
    exact hp
  | some .here :: rest, p, q, hp, hw => walk_dir hp (show H.walk limit p rest = .ok q from hw)
  | some .up :: rest, p, q, hp, hw =>
    walk_dir (ascend_dir hp) (show H.walk limit (ascend limit p) rest = .ok q from hw)
  | some (.down a) :: rest, p, q, hp, hw => by
    rw [walk] at hw
    split at hw
    · rename_i hd
      exact walk_dir hd hw
    · cases hw
    · cases hw
  | none :: rest, p, q, hp, hw => nomatch hw

/-- Where every directory is one still, a walk arrives where it did. -/
theorem walk_mono {H' : Hierarchy α β} (h : ∀ q, H.node q = some .dir → H'.node q = some .dir) :
    ∀ {steps : List (Option (Step α))} {p q : List α}, H.walk limit p steps = .ok q → H'.walk limit p steps = .ok q
  | [], p, q, hw => hw
  | some .here :: rest, p, q, hw => by
    have hrest : H.walk limit p rest = .ok q := hw
    exact show H'.walk limit p rest = .ok q from walk_mono h hrest
  | some .up :: rest, p, q, hw => by
    have hrest : H.walk limit (ascend limit p) rest = .ok q := hw
    exact show H'.walk limit (ascend limit p) rest = .ok q from walk_mono h hrest
  | some (.down a) :: rest, p, q, hw => by
    rw [walk] at hw ⊢
    split at hw
    · rename_i hd
      rw [h _ hd]
      exact walk_mono h hw
    · cases hw
    · cases hw
  | none :: rest, p, q, hw => nomatch hw

theorem walk_append :
    ∀ {s t : List (Option (Step α))} {p : List α}, H.walk limit p (s ++ t) = (H.walk limit p s).bind fun q =>
      H.walk limit q t
  | [], t, p => rfl
  | some .here :: s, t, p => show H.walk limit p (s ++ t) = _ from walk_append
  | some .up :: s, t, p => show H.walk limit (ascend limit p) (s ++ t) = _ from walk_append
  | some (.down a) :: s, t, p => by
    rw [List.cons_append, walk, walk]
    split
    · exact walk_append
    · rfl
    · rfl
  | none :: s, t, p => rfl

/-- Steps that denote a name are steps to its directory, and the name. -/
theorem target_eq_ok {steps : List (Option (Step α))} {q : List α} :
    H.target limit p steps = .ok (q, a) ↔ ∃ s, steps = s ++ [some (.down a)] ∧ H.walk limit p s = .ok q := by
  unfold target
  rcases List.eq_nil_or_concat steps with rfl | ⟨s, last, rfl⟩
  · simp
  rw [List.concat_eq_append, List.getLast?_concat, List.dropLast_concat]
  dsimp only
  constructor
  · intro h
    cases hw : H.walk limit p s with
    | error t =>
      rw [hw] at h
      cases h
    | ok r =>
      rw [hw] at h
      rcases last with - | (- | - | b) <;> cases h
      exact ⟨s, rfl, hw⟩
  · rintro ⟨s', hs, hw⟩
    obtain ⟨rfl, hlast⟩ := List.append_inj' hs rfl
    obtain rfl := List.singleton_inj.1 hlast
    rw [hw]
    rfl

theorem target_mono {H' : Hierarchy α β} (h : ∀ q, H.node q = some .dir → H'.node q = some .dir)
    {steps : List (Option (Step α))} {q : List α} (ht : H.target limit p steps = .ok (q, a)) :
    H'.target limit p steps = .ok (q, a) := by
  obtain ⟨s, hs, hw⟩ := target_eq_ok.1 ht
  exact target_eq_ok.2 ⟨s, hs, walk_mono h hw⟩

/-- A name that is a directory is where its steps lead. -/
theorem walk_of_target {steps : List (Option (Step α))} {q : List α} (h : H.target limit p steps = .ok (q, a))
    (hd : H.node (q ++ [a]) = some .dir) : H.walk limit p steps = .ok (q ++ [a]) := by
  obtain ⟨s, rfl, hw⟩ := target_eq_ok.1 h
  rw [walk_append, hw]
  show H.walk limit q [some (.down a)] = _
  rw [walk, hd]
  rfl

end Hierarchy

end AltoniumOS.Lib

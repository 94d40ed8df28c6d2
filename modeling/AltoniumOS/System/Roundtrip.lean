/-
What a client of the tree can rely on: a change that was made leaves every way through the tree as it was, what
was written is read back, and a directory that was made is there to enter, and empty.
-/
import AltoniumOS.System.Files

namespace AltoniumOS.Fat12

open AltoniumOS.Lib

namespace Files

variable {F F' : Files} {x : Change} {path : List UInt8} {p q : List FileName} {n : FileName}
  {v : Option (Node (List UInt8))} {data : Option Buf} {size : Nat}

/-- A change asks for a name that its path denotes, and an outcome for what has the name. -/
theorem asks_eq_ok (h : F.asks x = .ok (p, n, v)) : x.nullData = false ∧ F.target x.path = .ok (p, n) ∧
    x.outcome (F.tree.node (p ++ [n])) = .ok v := by
  unfold asks at h
  split at h
  · cases h
  rename_i hnull
  refine ⟨Bool.eq_false_iff.2 hnull, ?_⟩
  split at h
  · cases h
  · rename_i p' n' ht
    cases ho : x.outcome (F.tree.node (p' ++ [n'])) with
    | error e =>
      rw [ho] at h
      cases h
    | ok v' =>
      rw [ho] at h
      cases h
      exact ⟨ht, ho⟩

/-- No change sets a name that a directory has. -/
theorem outcome_not_dir {x : Change} (h : x.outcome (some .dir) = .ok v) : False := by
  cases x <;> cases h

/-- A change that was made: of the one name its path denotes. -/
theorem changes_ok (h : F.Changes x .ok F') :
    ∃ p n v, F.target x.path = .ok (p, n) ∧ x.outcome (F.tree.node (p ++ [n])) = .ok v ∧
      (∀ q, F'.tree.node q = if q = p ++ [n] then v else F.tree.node q) ∧ F'.cwd = F.cwd := by
  cases h with
  | refused h =>
    -- an error is never the code of success
    exfalso
    unfold asks at h
    split at h
    · cases h
    split at h
    · rename_i t _
      cases t <;> cases h
    · revert h
      cases x <;> rcases F.tree.node _ with - | - | - <;> intro h <;> cases h
  | made hask hnode hcwd =>
    obtain ⟨-, ht, ho⟩ := asks_eq_ok hask
    exact ⟨_, _, _, ht, ho, hnode, hcwd⟩

/-- A path denotes a name in a directory. -/
theorem dir_of_target (ht : F.target path = .ok (p, n)) : F.tree.node p = some .dir := by
  have hstart : F.tree.node (F.start path) = some .dir := by
    unfold start
    split
    · exact F.tree.root
    · exact F.inDir
  obtain ⟨s, -, hw⟩ := Hierarchy.target_eq_ok.1 ht
  exact Hierarchy.walk_dir hstart hw

/-- What a change makes of the tree. -/
theorem tree_of_made (ht : F.target path = .ok (p, n))
    (hnode : ∀ q, F'.tree.node q = if q = p ++ [n] then v else F.tree.node q)
    (ho : x.outcome (F.tree.node (p ++ [n])) = .ok v) :
    ∃ hold, F'.tree = F.tree.set p n v (dir_of_target ht) hold := by
  have hold : F.tree.node (p ++ [n]) ≠ some .dir := by
    intro hdir
    rw [hdir] at ho
    exact outcome_not_dir ho
  refine ⟨hold, Hierarchy.ext ?_⟩
  funext q
  rw [hnode, Hierarchy.node_set]

/-- It leaves the directories that there are. -/
theorem dir_of_made (ht : F.target path = .ok (p, n))
    (hnode : ∀ q, F'.tree.node q = if q = p ++ [n] then v else F.tree.node q)
    (ho : x.outcome (F.tree.node (p ++ [n])) = .ok v) {q : List FileName} (hq : F.tree.node q = some .dir) :
    F'.tree.node q = some .dir := by
  obtain ⟨hold, htree⟩ := tree_of_made ht hnode ho
  rw [htree]
  exact Hierarchy.dir_set hq

theorem leads_absolute (hdir : ∀ q, F.tree.node q = some .dir → F'.tree.node q = some .dir)
    (habs : isAbsolute path = true) (h : F.leads path = .ok q) : F'.leads path = .ok q := by
  unfold leads start at h ⊢
  rw [if_pos habs] at h ⊢
  exact Hierarchy.walk_mono hdir h

theorem target_mono (hdir : ∀ q, F.tree.node q = some .dir → F'.tree.node q = some .dir) (hcwd : F'.cwd = F.cwd)
    (h : F.target path = .ok (p, n)) : F'.target path = .ok (p, n) := by
  unfold target start at h ⊢
  rw [hcwd]
  exact Hierarchy.target_mono hdir h

/-! ## What a call leaves alone -/

/-- A change that failed was not made. -/
theorem changes_failed {e : Code} (h : F.Changes x e F') (he : e ≠ .ok) : F' = F := by
  cases h with
  | refused => rfl
  | noCluster => rfl
  | noSlot => rfl
  | made => exact absurd rfl he

/-- A change leaves the other names alone. -/
theorem changes_node {e : Code} (h : F.Changes x e F') (hne : F.target x.path ≠ .ok (p, n)) :
    F'.tree.node (p ++ [n]) = F.tree.node (p ++ [n]) := by
  cases h with
  | refused => rfl
  | noCluster => rfl
  | noSlot => rfl
  | made hask hnode hcwd =>
    obtain ⟨-, ht, -⟩ := asks_eq_ok hask
    rw [hnode, if_neg]
    intro heq
    obtain ⟨rfl, hn⟩ := List.append_inj' heq rfl
    obtain rfl := List.singleton_inj.1 hn
    exact hne ht

/-- And no change does away with a directory. -/
theorem changes_dir {e : Code} (h : F.Changes x e F') {q : List FileName} (hq : F.tree.node q = some .dir) :
    F'.tree.node q = some .dir := by
  cases h with
  | refused => exact hq
  | noCluster => exact hq
  | noSlot => exact hq
  | made hask hnode hcwd =>
    obtain ⟨-, ht, ho⟩ := asks_eq_ok hask
    exact dir_of_made ht hnode ho hq

/-- Nor does any other call change the tree. -/
theorem allows_tree {c : Call} {r : c.Answer} (h : F.Allows c r F') :
    F'.tree = F.tree ∨ ∃ x e, c = .change x ∧ F.Changes x e F' := by
  cases c with
  | iterateCurrentDirectory cb ctx => exact .inl (congrArg tree h.1)
  | iteratePath path cb ctx => exact .inl (congrArg tree h.1)
  | changeDirectory path =>
    dsimp only [Allows] at h
    split at h
    · exact .inl (congrArg tree h.2)
    · exact .inl h.2.1
  | getCwd => exact .inl (congrArg tree h.1)
  | readFile path buffer maxSize => exact .inl (congrArg tree h.1)
  | change x => exact .inr ⟨x, r, rfl, h⟩
  | flush => exact .inl (congrArg tree h.2)

/-! ## Files -/

/-- The bytes of the file that a path denotes, if there are no more than asked for. -/
def contents (F : Files) (path : List UInt8) (maxSize : Nat) : Except Code (List UInt8) :=
  match F.target path with
  | .error t => .error (troubleCode t)
  | .ok (p, n) =>
    match F.tree.node (p ++ [n]) with
    | none => .error .errNotFound
    | some .dir => .error .errNotFile
    | some (.file content) => if content.length > maxSize then .error .errBufferSmall else .ok content

/-- Reading puts them in front of what the buffer holds. -/
theorem read_eq (F : Files) (path : List UInt8) (buffer : Buf) (maxSize : Nat) : F.read path buffer maxSize =
    match F.contents path maxSize with
    | .error e => (e, some buffer, none)
    | .ok content => (.ok, some (fun i => (content[i]?).getD (buffer i)), some content.length) := by
  unfold read contents
  rcases F.target path with t | ⟨p, n⟩
  · rfl
  dsimp only
  rcases F.tree.node (p ++ [n]) with _ | _ | content
  · rfl
  · rfl
  · dsimp only
    by_cases hlen : content.length > maxSize
    · rw [if_pos hlen, if_pos hlen]
    · rw [if_neg hlen, if_neg hlen]

theorem contents_ne_ok {maxSize : Nat} (h : F.contents path maxSize = .error .ok) : False := by
  unfold contents at h
  split at h
  · rename_i t _
    cases t <;> cases h
  · split at h
    · cases h
    · cases h
    · split at h <;> cases h

theorem contents_file {maxSize : Nat} {content : List UInt8} (ht : F.target path = .ok (p, n))
    (hnode : F.tree.node (p ++ [n]) = some (.file content)) (hlen : content.length ≤ maxSize) :
    F.contents path maxSize = .ok content := by
  unfold contents
  rw [ht]
  dsimp only
  rw [hnode]
  dsimp only
  rw [if_neg (by omega)]

/-- The bytes a write asks for. -/
def bytesOf (data : Option Buf) (size : Nat) : List UInt8 := (List.range size).map (data.getD fun _ => 0)

theorem length_bytesOf : (bytesOf data size).length = size := by
  unfold bytesOf
  rw [List.length_map, List.length_range]

/-- What a write leaves at its path. -/
theorem written (h : F.Changes (.writeFile path data size) .ok F') :
    ∃ p n, F.target path = .ok (p, n) ∧ F.tree.node (p ++ [n]) ≠ some .dir ∧ F'.cwd = F.cwd ∧
      ∀ q, F'.tree.node q = if q = p ++ [n] then some (.file (bytesOf data size)) else F.tree.node q := by
  obtain ⟨p, n, v, ht, ho, hnode, hcwd⟩ := changes_ok h
  have hv : F.tree.node (p ++ [n]) ≠ some .dir ∧ v = some (.file (bytesOf data size)) := by
    clear hnode
    generalize F.tree.node (p ++ [n]) = old at ho
    rcases old with _ | _ | _ <;> cases ho
    · exact ⟨nofun, rfl⟩
    · exact ⟨nofun, rfl⟩
  refine ⟨p, n, ht, hv.1, hcwd, fun q => ?_⟩
  rw [hnode, hv.2]

theorem contents_missing {maxSize : Nat} (ht : F.target path = .ok (p, n)) (hnode : F.tree.node (p ++ [n]) = none) :
    F.contents path maxSize = .error .errNotFound := by
  unfold contents
  rw [ht]
  dsimp only
  rw [hnode]

/-- What a deletion leaves at its path. -/
theorem deleted (h : F.Changes (.deleteFile path) .ok F') :
    ∃ p n, F.target path = .ok (p, n) ∧ F'.tree.node (p ++ [n]) = none := by
  obtain ⟨p, n, v, ht, ho, hnode, hcwd⟩ := changes_ok h
  refine ⟨p, n, ht, ?_⟩
  rw [hnode, if_pos rfl]
  clear hnode
  generalize F.tree.node (p ++ [n]) = old at ho
  rcases old with _ | _ | _ <;> cases ho
  rfl

/-! ## Directories -/

/-- A directory that was made can be entered, and there is nothing in it. -/
theorem made (h : F.Changes (.createDirectory path) .ok F') :
    ∃ p n, F.target path = .ok (p, n) ∧ F'.leads path = .ok (p ++ [n]) ∧
      ∀ m, F'.tree.node (p ++ [n] ++ [m]) = none := by
  obtain ⟨p, n, v, ht, ho, hnode, hcwd⟩ := changes_ok h
  have ht' : F'.target path = .ok (p, n) := target_mono (fun q => dir_of_made ht hnode ho) hcwd ht
  have hold : F.tree.node (p ++ [n]) = none ∧ v = some .dir := by
    clear hnode
    revert ho
    generalize F.tree.node (p ++ [n]) = old
    intro ho
    rcases old with _ | _
    · cases ho
      exact ⟨rfl, rfl⟩
    · cases ho
  refine ⟨p, n, ht, Hierarchy.walk_of_target ht' (by rw [hnode, if_pos rfl, hold.2]), fun m => ?_⟩
  rw [hnode, if_neg (by simp)]
  -- what was no directory has nothing below it
  cases hm : F.tree.node (p ++ [n] ++ [m]) with
  | none => rfl
  | some w =>
    have := F.tree.parent (p ++ [n]) m (by rw [hm]; rfl)
    rw [hold.1] at this
    cases this

end Files

end AltoniumOS.Fat12

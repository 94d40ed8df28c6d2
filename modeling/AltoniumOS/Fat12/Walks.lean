/-
The three path walks of `fat12.c` are one walk: `fat12_locate_directory` is
`fat12_change_directory` without the stack of names, and `fat12_resolve_parent_and_name` is
`fat12_locate_directory` on all components but the last. None of this depends on the volume: it
holds in every state, whatever the disk answers.
-/
import Mathlib.Data.List.DropRight
import AltoniumOS.Fat12.File

namespace AltoniumOS.Fat12

open AltoniumOS.Lib

/-! ## Components of a path -/

theorem length_dropWhile_le {α : Type} (p : α → Bool) (l : List α) : (l.dropWhile p).length ≤ l.length :=
  (List.dropWhile_sublist p).length_le

/-- A path behind its leading separators. -/
def skipSeparators (path : List UInt8) : List UInt8 := path.dropWhile isSeparator

theorem head_skipSeparators {c : UInt8} {path rest : List UInt8} (h : skipSeparators path = c :: rest) :
    isSeparator c = false := by
  unfold skipSeparators at h
  have := List.head_dropWhile_not isSeparator (show path.dropWhile isSeparator ≠ [] by rw [h]; simp)
  simpa [h] using this

/-- What a walk does with a cursor: nothing at the end of the path, else one component and on. -/
theorem componentsFrom_succ (n : Nat) (cursor : List UInt8) : componentsFrom (n + 1) cursor =
    match skipSeparators cursor with
    | [] => []
    | c :: rest => (c :: rest.takeWhile fun c => !isSeparator c).take 31 ::
        componentsFrom n (skipSeparators (rest.dropWhile fun c => !isSeparator c)) := by
  rw [componentsFrom, pathNext]
  have hs : cursor.dropWhile isSeparator = skipSeparators cursor := rfl
  simp only [hs]
  cases h : skipSeparators cursor with
  | nil => simp
  | cons c rest =>
    have hc := head_skipSeparators h
    simp [hc, skipSeparators]

/-- Any fuel from the length of the path on will do. -/
theorem componentsFrom_eq : ∀ {n m : Nat} {path : List UInt8}, path.length ≤ n → path.length ≤ m →
    componentsFrom n path = componentsFrom m path
  | 0, 0, _, _, _ => rfl
  | 0, m + 1, path, h, _ => by
    rw [List.length_eq_zero_iff.1 (by omega : path.length = 0)]; rfl
  | n + 1, 0, path, _, h => by
    rw [List.length_eq_zero_iff.1 (by omega : path.length = 0)]; rfl
  | n + 1, m + 1, path, hn, hm => by
    rw [componentsFrom_succ, componentsFrom_succ]
    cases h : skipSeparators path with
    | nil => rfl
    | cons c rest =>
      have h1 := length_dropWhile_le isSeparator path
      have h2 := length_dropWhile_le isSeparator (rest.dropWhile fun c => !isSeparator c)
      have h3 := length_dropWhile_le (fun c => !isSeparator c) rest
      unfold skipSeparators at h
      rw [h, List.length_cons] at h1
      exact congrArg _ (componentsFrom_eq (by unfold skipSeparators; omega) (by unfold skipSeparators; omega))

theorem components_eq {n : Nat} {path : List UInt8} (h : path.length ≤ n) :
    componentsFrom n path = components path :=
  componentsFrom_eq h (Nat.le_refl _)

theorem components_skip (path : List UInt8) : components (skipSeparators path) = components path := by
  have hi : skipSeparators (skipSeparators path) = skipSeparators path := List.dropWhile_idempotent _ _
  rw [← components_eq (Nat.le_succ path.length),
    ← components_eq (show (skipSeparators path).length ≤ path.length + 1 from
      Nat.le_succ_of_le (length_dropWhile_le ..)),
    componentsFrom_succ, componentsFrom_succ, hi]

theorem components_of_skip_nil {path : List UInt8} (h : skipSeparators path = []) : components path = [] := by
  rw [← components_eq (Nat.le_succ path.length), componentsFrom_succ, h]

/-- The components of a path: its first one, and those of what follows it. -/
theorem components_of_skip_cons {path rest : List UInt8} {c : UInt8} (h : skipSeparators path = c :: rest) :
    components path = (c :: rest.takeWhile fun c => !isSeparator c).take 31 ::
      components (rest.dropWhile fun c => !isSeparator c) := by
  have h1 := length_dropWhile_le isSeparator path
  have h2 := length_dropWhile_le isSeparator (rest.dropWhile fun c => !isSeparator c)
  have h3 := length_dropWhile_le (fun c => !isSeparator c) rest
  unfold skipSeparators at h
  rw [h, List.length_cons] at h1
  rw [← components_eq (Nat.le_succ path.length), componentsFrom_succ, skipSeparators, h]
  exact congrArg _ ((components_eq (by unfold skipSeparators; omega)).trans (components_skip _))

/-- A last component, with separators behind it. -/
theorem components_last {name tail : List UInt8} (hn : name ≠ []) (hs : ∀ c ∈ name, isSeparator c = false)
    (ht : ∀ c ∈ tail, isSeparator c = true) : components (name ++ tail) = [name.take 31] := by
  obtain ⟨c, rest, rfl⟩ := List.exists_cons_of_ne_nil hn
  have hc := hs c (List.mem_cons_self ..)
  have hrest : ∀ b ∈ rest, (!isSeparator b) = true := fun b hb => by rw [hs b (List.mem_cons_of_mem _ hb)]; rfl
  have htake : (rest ++ tail).takeWhile (fun c => !isSeparator c) = rest := by
    rw [List.takeWhile_append_of_pos hrest]
    cases tail with
    | nil => simp
    | cons b tail => simp [ht b (List.mem_cons_self ..)]
  have hdrop : (rest ++ tail).dropWhile (fun c => !isSeparator c) = tail := by
    rw [List.dropWhile_append_of_pos hrest]
    cases tail with
    | nil => rfl
    | cons b tail => simp [ht b (List.mem_cons_self ..)]
  have hskip : skipSeparators (c :: rest ++ tail) = c :: (rest ++ tail) := by
    unfold skipSeparators
    simp [hc]
  have htail : skipSeparators tail = [] := List.dropWhile_eq_nil_iff.2 ht
  rw [components_of_skip_cons hskip, htake, hdrop, components_of_skip_nil htail]

/-- Paths meeting at a separator. -/
theorem components_append {q r : List UInt8} (hq : q = [] ∨ ∃ l c, q = l ++ [c] ∧ isSeparator c = true) :
    components (q ++ r) = components q ++ components r := by
  generalize hn : q.length = n
  induction n using Nat.strong_induction_on generalizing q with
  | _ n ih =>
    cases h : skipSeparators q with
    | nil =>
      have hall : ∀ c ∈ q, isSeparator c = true := List.dropWhile_eq_nil_iff.1 h
      rw [components_of_skip_nil h, List.nil_append, ← components_skip (q ++ r), skipSeparators,
        List.dropWhile_append_of_pos hall]
      exact components_skip r
    | cons c rest =>
      have hc := head_skipSeparators h
      have hlen := length_dropWhile_le isSeparator q
      have hdrop := length_dropWhile_le (fun c => !isSeparator c) rest
      have hsuf : (c :: rest) <:+ q := by
        rw [← h]; exact List.dropWhile_suffix _
      obtain ⟨l, b, rfl, hb⟩ := hq.resolve_left (by rintro rfl; cases h)
      -- the last separator is still behind the first component
      obtain ⟨m, rfl⟩ : ∃ m, rest = m ++ [b] := by
        have hlast : (c :: rest).getLast? = some b := by
          obtain ⟨t, ht⟩ := hsuf
          have := congrArg List.getLast? ht
          rw [List.getLast?_append_of_ne_nil _ (by simp), List.getLast?_concat] at this
          exact this
        cases hr : rest.getLast? with
        | none =>
          rw [List.getLast?_eq_none_iff.1 hr] at hlast
          obtain rfl : c = b := Option.some.inj hlast
          rw [hc] at hb; cases hb
        | some b' =>
          rw [List.getLast?_cons, hr] at hlast
          cases hlast
          exact List.getLast?_eq_some_iff.1 hr
      have hnb : (!isSeparator b) = false := by rw [hb]; rfl
      have hskip : skipSeparators (l ++ [b] ++ r) = c :: (m ++ [b] ++ r) := by
        unfold skipSeparators at h ⊢
        rw [List.dropWhile_append, h]; rfl
      have htake : (m ++ [b] ++ r).takeWhile (fun c => !isSeparator c) = (m ++ [b]).takeWhile fun c =>
          !isSeparator c := by
        rw [List.takeWhile_append, if_neg]
        intro hc
        have := List.takeWhile_eq_self_iff.1 ((List.takeWhile_sublist _).eq_of_length hc) b (by simp)
        rw [hnb] at this; cases this
      have hdw : (m ++ [b] ++ r).dropWhile (fun c => !isSeparator c) =
          (m ++ [b]).dropWhile (fun c => !isSeparator c) ++ r := by
        rw [List.dropWhile_append, if_neg]
        rw [List.isEmpty_iff, List.dropWhile_eq_nil_iff]
        intro hc
        have := hc b (by simp)
        rw [hnb] at this; cases this
      have hend : ∃ l' c', (m ++ [b]).dropWhile (fun c => !isSeparator c) = l' ++ [c'] ∧ isSeparator c' = true := by
        rw [List.dropWhile_append]
        split
        · exact ⟨[], b, by simp [hnb], hb⟩
        · exact ⟨_, b, rfl, hb⟩
      rw [components_of_skip_cons hskip, components_of_skip_cons h, htake, hdw, List.cons_append]
      unfold skipSeparators at h
      rw [h, List.length_cons] at hlen
      refine congrArg _ (ih _ ?_ (.inr hend) rfl)
      omega

/-! ## Programs that only read -/

/-- Every run keeps all of the core: it changes scratch buffers only. -/
def ReadOnly {α : Type} (m : M α) : Prop := ∀ c, Keeps (fun s => s.toCore = c) m

theorem ReadOnly.core {α : Type} {m : M α} (h : ReadOnly m) (s : State) : (endState (m s)).toCore = s.toCore :=
  (h s.toCore s rfl).1

/-- From the core `c` and the write log `w`: every run leaves both alone, and what it returns is in `Q`. -/
abbrev Learns {α : Type} (c : Core) (w : List (Nat × List Buf)) (Q : α → Prop) (m : M α) : Prop :=
  Ensures (fun s => s.toCore = c ∧ s.writes = w) Q m

/-- Every run keeps the core and the write log. -/
def Reads {α : Type} (m : M α) : Prop := ∀ c w, Learns c w (fun _ => True) m

/-- Neither scratch nor the outcomes to come matter for `I`. -/
def Blind (I : State → Prop) : Prop := ∀ s s' : State, s'.toCore = s.toCore → s'.writes = s.writes → I s → I s'

section Reads

variable {α β ι : Type} {c : Core} {w : List (Nat × List Buf)}

theorem learns_getCore : Learns c w (fun c' => c' = c) getCore :=
  fun s hs => ⟨hs, fun _ _ hr => by cases hr; exact hs.1⟩

namespace Reads

theorem pure (a : α) : Reads (Pure.pure a : M α) := fun _ _ => .pure trivial

theorem bind {x : M α} {f : α → M β} (hx : Reads x) (hf : ∀ a, Reads (f a)) : Reads (x >>= f) :=
  fun c w => (hx c w).bind fun a _ => hf a c w

theorem loop {body : ι → M (ι ⊕ β)} (h : ∀ i, Reads (body i)) (fuel : Nat) (i : ι) : Reads (Lib.loop body fuel i) :=
  fun c w => Keeps.loop (fun i => h i c w) fuel i

theorem of_learns {m : M α} {Q : Core → α → Prop} (h : ∀ c w, Learns c w (Q c) m) : Reads m :=
  fun c w => (h c w).mono fun _ _ => trivial

theorem readOnly {m : M α} (h : Reads m) : ReadOnly m :=
  fun _ s hs => ⟨(h s.toCore s.writes s ⟨rfl, rfl⟩).1.1.trans hs, fun _ _ _ => trivial⟩

/-- A read that returned left the core alone. -/
theorem core {m : M α} (h : Reads m) {s s' : State} {a : α} (hr : m s = .ok a s') : s'.toCore = s.toCore :=
  ((h s.toCore s.writes).ok ⟨rfl, rfl⟩ hr).1.1

/-- A program that reads keeps what scratch does not matter for. -/
theorem keeps {m : M α} {I : State → Prop} (h : Reads m) (hb : Blind I) : Keeps I m := by
  intro s hs
  obtain ⟨h1, h2⟩ := (h s.toCore s.writes s ⟨rfl, rfl⟩).1
  exact ⟨hb _ _ h1 h2 hs, fun _ _ _ => trivial⟩

theorem getCore : Reads Fat12.getCore := of_learns fun _ _ => learns_getCore

theorem getClusterBuffer : Reads Fat12.getClusterBuffer := fun _ _ _ hs => ⟨hs, fun _ _ _ => trivial⟩

theorem setClusterBuffer (b : Buf) : Reads (Fat12.setClusterBuffer b) := fun _ _ _ hs => ⟨hs, fun _ _ _ => trivial⟩

end Reads

end Reads

theorem learns_diskReadSectors {c : Core} {w : List (Nat × List Buf)} (lba : Nat) (buffer : Buf) (off n : Nat) :
    Learns c w (fun r => r.1 = true → r.2 = buffer.blit off (sectorBytes c.sectors lba) (sectorSize * n))
      (diskReadSectors lba buffer off n) := by
  intro s hs
  unfold diskReadSectors
  split
  · exact ⟨hs, fun r s' hr h1 => by cases hr; cases h1⟩
  · refine ⟨hs, fun r s' hr h1 => ?_⟩
    cases hr
    have hf : s.faults 0 = none := by simpa using h1
    rw [← hs.1, hf]
    rfl

/-- The bytes a successful transfer brings are those of the cluster. -/
theorem learns_readCluster {c : Core} {w : List (Nat × List Buf)} (cluster : Nat) :
    Learns c w (fun r => r.1 = true → ∀ i < sectorSize * c.fs.sectorsPerCluster, r.2 i = c.clusterBytes cluster i)
      (readCluster cluster) := by
  unfold readCluster
  refine learns_getCore.bind fun c' hc => ?_
  subst hc
  refine (Reads.getClusterBuffer c' w).bind fun b _ => ?_
  refine (learns_diskReadSectors _ b 0 _).bind fun r hr => ?_
  refine (Reads.setClusterBuffer r.2 c' w).bind fun _ _ => .pure fun h1 i hi => ?_
  rw [show (r.1, r.2).2 = r.2 from rfl, hr h1, show i = 0 + i by omega]
  exact (Buf.blit_in hi).trans (by rw [Nat.zero_add]; rfl)

theorem reads_readCluster (cluster : Nat) : Reads (readCluster cluster) :=
  .of_learns fun _ _ => learns_readCluster cluster

theorem reads_findRound (shortName : ShortName) (cluster : Nat) : Reads (findRound shortName cluster) := by
  unfold findRound
  split
  · refine (reads_readCluster cluster).bind fun r => ?_
    dsimp only
    split
    · refine Reads.getCore.bind fun c => ?_
      split <;> exact .pure _
    · exact .pure _
  · exact .pure _

theorem reads_findEntry (fuel dirCluster : Nat) (shortName : ShortName) :
    Reads (findEntry fuel dirCluster shortName) := by
  unfold findEntry
  refine Reads.getCore.bind fun c => ?_
  split
  · split <;> exact .pure _
  · exact .loop (reads_findRound shortName) fuel dirCluster

theorem reads_changeLoop (fuel : Nat) : ∀ (cs : List (List UInt8)) (cluster : Nat) (stack : PathStack),
    Reads (changeLoop fuel cluster stack cs)
  | [], _, _ => .pure _
  | component :: rest, cluster, stack => by
    rw [changeLoop]
    split
    · exact reads_changeLoop fuel rest _ _
    · split
      · exact reads_changeLoop fuel rest _ _
      · split
        · exact .pure _
        · refine (reads_findEntry _ _ _).bind fun r => ?_
          split
          · exact .pure _
          · split
            · exact .pure _
            · exact reads_changeLoop fuel rest _ _

theorem reads_locateLoop (fuel : Nat) : ∀ (cs : List (List UInt8)) (cluster : Nat) (stack : List Nat),
    Reads (locateLoop fuel cluster stack cs)
  | [], _, _ => .pure _
  | component :: rest, cluster, stack => by
    rw [locateLoop]
    split
    · exact reads_locateLoop fuel rest _ _
    · split
      · exact reads_locateLoop fuel rest _ _
      · split
        · exact .pure _
        · refine (reads_findEntry _ _ _).bind fun r => ?_
          split
          · exact .pure _
          · split
            · exact .pure _
            · exact reads_locateLoop fuel rest _ _

theorem reads_locateDirectory (fuel : Nat) (path : List UInt8) : Reads (locateDirectory fuel path) := by
  unfold locateDirectory
  refine Reads.getCore.bind fun c => ?_
  split
  · exact .pure _
  · split <;> exact reads_locateLoop fuel _ _ _

theorem reads_iterateDirectoryInternal {κ : Type} (fuel dirCluster : Nat) (cb : κ → DirEntryInfo → Bool × κ)
    (ctx : κ) : Reads (iterateDirectoryInternal fuel dirCluster cb ctx) := by
  unfold iterateDirectoryInternal
  refine Reads.getCore.bind fun c => ?_
  split
  · exact .pure _
  · refine .loop (fun i => ?_) fuel _
    obtain ⟨cluster, ctx⟩ := i
    rw [iterateRound]
    split
    · refine (reads_readCluster cluster).bind fun r => ?_
      dsimp only
      split
      · refine Reads.getCore.bind fun c => ?_
        split <;> exact .pure _
      · exact .pure _
    · exact .pure _

/-! ## One walk -/

theorem PathStack.clusters_push (p : PathStack) (cluster : Nat) (name : List UInt8) :
    (p.push cluster name).clusters = pushCluster p.clusters cluster := by
  unfold push pushCluster clusters
  rw [List.length_map]
  split
  · simp
  · rfl

theorem PathStack.clusters_pop (p : PathStack) : p.pop.clusters = p.clusters.dropLast := by
  unfold pop clusters
  rw [List.map_dropLast]

/-- Locating is changing, without the stack at the end. -/
theorem locateLoop_eq (fuel : Nat) : ∀ (cs : List (List UInt8)) (cluster : Nat) (stack : PathStack),
    locateLoop fuel cluster stack.clusters cs =
      changeLoop fuel cluster stack cs >>= fun r => pure (r.map Prod.fst)
  | [], _, _ => rfl
  | component :: rest, cluster, stack => by
    rw [locateLoop, changeLoop]
    split
    · exact locateLoop_eq fuel rest ..
    · split
      · rw [← PathStack.clusters_pop]
        exact locateLoop_eq fuel rest ..
      · split
        · rfl
        · rw [bind_assoc]
          refine bind_congr fun r => ?_
          split
          · rfl
          · split
            · rfl
            · rw [← PathStack.clusters_push]
              exact locateLoop_eq fuel rest ..

/-- What a last component names in the directory before it. -/
def nameIn (cluster : Nat) (last : List UInt8) : Except Code (Nat × ShortName) :=
  if last = [dot] ∨ last = [dot, dot] then .error .errInvalidName
  else (makeShortName last).map fun shortName => (cluster, shortName)

/-- Cutting a component to the buffer makes it no shorter name. -/
theorem take_eq_short {t l : List UInt8} (hl : l.length < 31) : t.take 31 = l ↔ t = l := by
  constructor
  · rintro rfl
    rw [List.length_take] at hl
    exact (List.take_of_length_le (by omega)).symm
  · rintro rfl
    exact List.take_of_length_le (by omega)

theorem take_eq_dot {t : List UInt8} : t.take 31 = [dot] ↔ t = [dot] := take_eq_short (by decide)

theorem take_eq_dots {t : List UInt8} : t.take 31 = [dot, dot] ↔ t = [dot, dot] := take_eq_short (by decide)

theorem nameIn_take (cluster : Nat) (name : List UInt8) : nameIn cluster (name.take 31) = nameIn cluster name := by
  unfold nameIn
  rw [makeShortName_take]
  simp only [take_eq_dot, take_eq_dots]

/-- Resolving is locating the components before the last, and looking at the last. -/
theorem resolveLoop_eq (fuel : Nat) (last : List UInt8) :
    ∀ (cs : List (List UInt8)) (cluster : Nat) (stack : List Nat), resolveLoop fuel cluster stack (cs ++ [last]) =
        locateLoop fuel cluster stack cs >>= fun r => pure (r.bind fun cluster => nameIn cluster last)
  | [], cluster, stack => by
    unfold nameIn
    rw [List.nil_append, resolveLoop, locateLoop, pure_bind]
    show _ = pure (if _ then _ else _)
    split
    · rfl
    · cases makeShortName last <;> rfl
  | component :: rest, cluster, stack => by
    obtain ⟨c, cs, hcs⟩ : ∃ c cs, rest ++ [last] = c :: cs := List.exists_cons_of_ne_nil (by simp)
    rw [List.cons_append, hcs, resolveLoop, locateLoop, ← hcs]
    · split
      · exact resolveLoop_eq fuel last rest ..
      · split
        · exact resolveLoop_eq fuel last rest ..
        · split
          · rfl
          · rw [bind_assoc]
            refine bind_congr fun r => ?_
            split
            · rfl
            · split
              · rfl
              · exact resolveLoop_eq fuel last rest ..
    · simp

theorem reads_resolveLoop (fuel cluster : Nat) (stack : List Nat) (cs : List (List UInt8)) :
    Reads (resolveLoop fuel cluster stack cs) := by
  rcases List.eq_nil_or_concat cs with rfl | ⟨cs, last, rfl⟩
  · exact .pure _
  · rw [List.concat_eq_append, resolveLoop_eq]
    exact (reads_locateLoop fuel cs cluster stack).bind fun r => .pure _

theorem reads_resolveParentAndName (fuel : Nat) (path : List UInt8) : Reads (resolveParentAndName fuel path) := by
  unfold resolveParentAndName
  refine Reads.getCore.bind fun c => ?_
  split
  · exact .pure _
  · split <;> exact reads_resolveLoop fuel _ _ _

/-! ## Calls that only read -/

theorem reads_iterateCurrentDirectory {κ : Type} (fuel : Nat) (cb : κ → DirEntryInfo → Bool × κ) (ctx : κ) :
    Reads (iterateCurrentDirectory fuel cb ctx) := by
  unfold iterateCurrentDirectory
  refine Reads.getCore.bind fun c => ?_
  split
  · exact .pure _
  · exact reads_iterateDirectoryInternal fuel _ cb ctx

theorem reads_iteratePath {κ : Type} (fuel : Nat) (path : List UInt8) (cb : κ → DirEntryInfo → Bool × κ) (ctx : κ) :
    Reads (iteratePath fuel path cb ctx) := by
  unfold iteratePath
  refine Reads.getCore.bind fun c => ?_
  split
  · exact .pure _
  · split
    · exact reads_iterateCurrentDirectory fuel cb ctx
    · refine (reads_locateDirectory fuel path).bind fun r => ?_
      split
      · exact .pure _
      · exact reads_iterateDirectoryInternal fuel _ cb ctx

theorem reads_readRound (size : Nat) (i : Nat × Nat × Buf) : Reads (readRound size i) := by
  obtain ⟨cluster, cursor, buffer⟩ := i
  rw [readRound]
  split
  · refine (reads_readCluster cluster).bind fun r => ?_
    dsimp only
    split
    · exact Reads.getCore.bind fun c => .pure _
    · exact .pure _
  · exact .pure _

theorem reads_readFile (fuel : Nat) (path : List UInt8) (buffer : Option Buf) (maxSize : Nat) :
    Reads (readFile fuel path buffer maxSize) := by
  unfold readFile
  refine Reads.getCore.bind fun c => ?_
  split
  · exact .pure _
  · split
    · exact .pure _
    · refine (reads_resolveParentAndName fuel path).bind fun r => ?_
      split
      · exact .pure _
      · refine (reads_findEntry fuel _ _).bind fun r => ?_
        split
        · exact .pure _
        · split
          · exact .pure _
          · split
            · exact .pure _
            · exact (Reads.loop (reads_readRound _) fuel _).bind fun r => .pure _

/-! ## The walks agree -/

theorem findRound_error (shortName : ShortName) (cluster : Nat) :
    Returns (fun r => ∀ b, r = .inr b → ∀ e, b = .error e → e ≠ .ok) (findRound shortName cluster) := by
  unfold findRound
  split
  · refine Returns.bind fun r => ?_
    dsimp only
    split
    · refine Returns.bind fun c => ?_
      split
      · exact .pure fun b hb e he => by cases hb; cases he
      · exact .pure fun b hb e he => by cases hb; cases he; decide
      · exact .pure fun b hb => by cases hb
    · exact .pure fun b hb e he => by cases hb; cases he; decide
  · exact .pure fun b hb e he => by cases hb; cases he; decide

theorem findEntry_error (fuel dirCluster : Nat) (shortName : ShortName) :
    Returns (fun r => ∀ e, r = .error e → e ≠ .ok) (findEntry fuel dirCluster shortName) := by
  unfold findEntry
  refine Returns.bind fun c => ?_
  split
  · split
    · exact .pure fun e h => by cases h
    · exact .pure fun e h => by cases h; decide
  · exact Ensures.loop (findRound_error shortName) fuel dirCluster

/-- A walk that fails fails with an error code. -/
theorem changeLoop_error (fuel : Nat) : ∀ (cs : List (List UInt8)) (cluster : Nat) (stack : PathStack),
    Returns (fun r => ∀ e, r = .error e → e ≠ .ok) (changeLoop fuel cluster stack cs)
  | [], _, _ => .pure fun e h => by cases h
  | component :: rest, cluster, stack => by
    rw [changeLoop]
    split
    · exact changeLoop_error fuel rest _ _
    · split
      · exact changeLoop_error fuel rest _ _
      · split
        · rename_i e he
          exact .pure fun e' h => by cases h; rw [makeShortName_error he]; decide
        · refine Ensures.bind (findEntry_error _ _ _) fun r hr => ?_
          split
          · exact .pure fun e' h => by cases h; exact hr _ rfl
          · split
            · exact .pure fun e' h => by cases h; decide
            · exact changeLoop_error fuel rest _ _

/-- Where a walk along `path` starts. -/
def Core.start (c : Core) (path : List UInt8) : Nat × PathStack :=
  if isAbsolute path then (0, .empty) else (c.currentDirCluster, c.pathStack)

theorem locateDirectory_eq (fuel : Nat) {path : List UInt8} (hp : path ≠ []) (s : State) :
    locateDirectory fuel path s =
      (changeLoop fuel (s.toCore.start path).1 (s.toCore.start path).2 (components path) >>= fun r =>
        pure (r.map Prod.fst)) s := by
  unfold locateDirectory Core.start
  rw [bind_ok (show getCore s = .ok s.toCore s from rfl), if_neg hp]
  split
  · exact congrFun (locateLoop_eq fuel _ 0 .empty) s
  · exact congrFun (locateLoop_eq fuel _ _ _) s

theorem changeDirectory_eq (fuel : Nat) {path : List UInt8} (hp : path ≠ []) {s : State} (hs : s.fsReady = true) :
    changeDirectory fuel path s =
      (changeLoop fuel (s.toCore.start path).1 (s.toCore.start path).2 (components path) >>= fun r =>
        match r with
        | .error e => pure e
        | .ok (cluster, stack) => modifyCore (fun c => c.enter cluster stack) >>= fun _ => pure .ok) s := by
  unfold changeDirectory Core.start
  rw [bind_ok (show getCore s = .ok s.toCore s from rfl)]
  rw [hs, if_neg (by decide : ¬ (!true) = true)]
  exact congrFun (if_neg hp) s

theorem resolveParentAndName_eq (fuel : Nat) {q name tail : List UInt8}
    (hq : q = [] ∨ ∃ l c, q = l ++ [c] ∧ isSeparator c = true) (hn : name ≠ [])
    (hs : ∀ c ∈ name, isSeparator c = false) (ht : ∀ c ∈ tail, isSeparator c = true) :
    resolveParentAndName fuel (q ++ name ++ tail) =
      locateDirectory fuel q >>= fun r => pure (r.bind fun cluster => nameIn cluster name) := by
  have hne : q ++ name ++ tail ≠ [] := by simp [hn]
  have hcs : components (q ++ name ++ tail) = components q ++ [name.take 31] := by
    rw [List.append_assoc, components_append hq, components_last hn hs ht]
  unfold resolveParentAndName locateDirectory
  rw [bind_assoc]
  refine bind_congr fun c => ?_
  rw [if_neg hne, hcs, resolveLoop_eq, resolveLoop_eq]
  simp only [nameIn_take]
  obtain ⟨b, name', rfl⟩ := List.exists_cons_of_ne_nil hn
  cases q with
  | nil =>
    have hb : isAbsolute (b :: name' ++ tail) = false := hs b (List.mem_cons_self ..)
    rw [List.nil_append, hb]
    rfl
  | cons a q =>
    have ha : isAbsolute (a :: q ++ b :: name' ++ tail) = isAbsolute (a :: q) := rfl
    rw [if_neg (by simp : a :: q ≠ []), ha]
    split <;> rfl

/-- Changing directory is locating it and moving there, all or nothing, and resolving a path is
locating its directory part and encoding its last component. -/
theorem path_walks_agree (fuel : Nat) (path : List UInt8) (s : State) (hs : s.fsReady = true) :
    (match locateDirectory fuel path s with
      | .ok (.ok cluster) _ => ∃ s', changeDirectory fuel path s = .ok .ok s' ∧ s'.currentDirCluster = cluster
      | .ok (.error e) _ => e ≠ .ok ∧ ∃ s', changeDirectory fuel path s = .ok e s' ∧ s'.toCore = s.toCore
      | .error e _ => ∃ s', changeDirectory fuel path s = .error e s' ∧ s'.toCore = s.toCore) ∧
    ∀ q name tail, path = q ++ name ++ tail → (q = [] ∨ ∃ l c, q = l ++ [c] ∧ isSeparator c = true) → name ≠ [] →
      (∀ c ∈ name, isSeparator c = false) → (∀ c ∈ tail, isSeparator c = true) →
      match locateDirectory fuel q s, resolveParentAndName fuel path s with
      | .ok (.error e) _, r => ∃ s', r = .ok (.error e) s'
      | .ok (.ok cluster) _, r => ∃ s', r = .ok
          (if name = [dot] ∨ name = [dot, dot] then .error .errInvalidName
            else match makeShortName name with
              | .error e => .error e
              | .ok shortName => .ok (cluster, shortName)) s'
      | .error e _, r => ∃ s', r = .error e s' := by
  constructor
  · by_cases hp : path = []
    · subst hp
      refine ⟨s, ?_, rfl⟩
      unfold changeDirectory
      rw [bind_ok (show getCore s = .ok s.toCore s from rfl)]
      simp only [hs, Bool.not_true, Bool.false_eq_true, if_false, if_true]
      rfl
    · rw [locateDirectory_eq fuel hp, changeDirectory_eq fuel hp hs, bind_run, bind_run]
      have hro := (reads_changeLoop fuel (components path) (s.toCore.start path).1
        (s.toCore.start path).2).readOnly.core s
      have her := changeLoop_error fuel (components path) (s.toCore.start path).1 (s.toCore.start path).2 s trivial
      cases hw : changeLoop fuel (s.toCore.start path).1 (s.toCore.start path).2 (components path) s with
      | error e s' => exact ⟨s', rfl, by rw [hw] at hro; exact hro⟩
      | ok r s' =>
        rw [hw] at hro
        cases r with
        | error e => exact ⟨(her.2 _ _ hw) e rfl, s', rfl, hro⟩
        | ok r => exact ⟨_, rfl, rfl⟩
  · rintro q name tail rfl hq hn hname ht
    rw [resolveParentAndName_eq fuel hq hn hname ht, bind_run]
    cases locateDirectory fuel q s with
    | error e s' => exact ⟨s', rfl⟩
    | ok r s' =>
      cases r with
      | error e => exact ⟨s', rfl⟩
      | ok cluster =>
        refine ⟨s', ?_⟩
        show EStateM.Result.ok (nameIn cluster name) s' = _
        unfold nameIn
        split
        · rfl
        · cases makeShortName name <;> rfl

/-! ## A blank disk -/

/-- The boot sector of a small volume: one reserved sector, two FAT copies of one sector, 16 root entries
and 64 clusters of one sector. -/
def blankBoot : Buf := fun i =>
  if i = 12 then 2 else if i = 13 then 1 else if i = 14 then 1 else if i = 16 then 2 else if i = 17 then 16
  else if i = 19 then 68 else if i = 22 then 1 else 0

/-- A driver before its first mount, on a disk with nothing but that boot sector, which does not fail. -/
def blankState : State := .initial fun l => if l = 0 then blankBoot else fun _ => 0

/-- The driver on it, with the directories `D` and `D/E` made in it. -/
@[irreducible] def twoDirectories : State :=
  endState (createDirectory 4096 [68, 47, 69] (endState (createDirectory 4096 [68] (endState (init 0 blankState)))))

theorem twoDirectories_runs : twoDirectories.fsReady = true ∧
    returned (locateDirectory 4096 [68, 47, 69] twoDirectories) = some (.ok 3) ∧
    returned (locateDirectory 4096 [68, 47, 70] twoDirectories) = some (.error .errNotFound) ∧
    returned (locateDirectory 4096 [68, 47] twoDirectories) = some (.ok 2) := by decide +kernel

/-- `cd D/E` goes there, `cd D/F` fails behind its first component, and `D/E` is resolved to a name in `D`. -/
theorem path_walks_agree_nested :
    (∃ s, changeDirectory 4096 [68, 47, 69] twoDirectories = .ok .ok s ∧ s.currentDirCluster = 3) ∧
    (∃ s, changeDirectory 4096 [68, 47, 70] twoDirectories = .ok .errNotFound s ∧
      s.toCore = twoDirectories.toCore) ∧
    ∃ s name, makeShortName [69] = .ok name ∧
      resolveParentAndName 4096 [68, 47, 69] twoDirectories = .ok (.ok (2, name)) s := by
  obtain ⟨hready, hthere, hmissing, hparent⟩ := twoDirectories_runs
  refine ⟨?_, ?_, ?_⟩
  · have h := (path_walks_agree 4096 [68, 47, 69] twoDirectories hready).1
    rw [eq_ok_of_returned hthere] at h
    exact h
  · have h := (path_walks_agree 4096 [68, 47, 70] twoDirectories hready).1
    rw [eq_ok_of_returned hmissing] at h
    exact h.2
  · have h := (path_walks_agree 4096 [68, 47, 69] twoDirectories hready).2 [68, 47] [69] [] rfl
      (.inr ⟨[68], 47, rfl, rfl⟩) (by decide +kernel) (by decide +kernel) (fun c hc => nomatch hc)
    rw [eq_ok_of_returned hparent] at h
    obtain ⟨s', hs⟩ := h
    exact ⟨s', _, rfl, hs⟩

end AltoniumOS.Fat12

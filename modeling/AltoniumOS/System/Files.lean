/-
What the driver is for: a tree of named files and directories and a place in it, with calls that look around, move,
and set or clear one name. The driver is one of these, along every history of calls and power cycles.
-/
import AltoniumOS.Lib.History
import AltoniumOS.System.Bounds
import AltoniumOS.System.Current
import AltoniumOS.System.Durability
import AltoniumOS.Volume.Tree

namespace AltoniumOS.Fat12

open AltoniumOS.Lib

/-! ## A tree and a place in it -/

/-- A tree of files, and the directory that paths start from. -/
structure Files where
  tree : Hierarchy FileName (List UInt8)
  cwd : List FileName
  inDir : tree.node cwd = some .dir

/-- What a listing tells of a node. -/
def Tells (info : DirEntryInfo) (n : FileName) : Node (List UInt8) → Prop
  | .dir => info.name = n.display ∧ info.attr &&& attrDirectory ≠ 0
  | .file content => info.name = n.display ∧ info.attr &&& attrDirectory = 0 ∧ info.size.toNat = content.length

/-- The text of a directory: the longest part of the way down to it that there is room for, with a slash behind
it if this is not all of the way, or if it is the root. -/
def ShowsPath (names : List (List UInt8)) (text : List UInt8) : Prop :=
  ∃ j ≤ names.length, FitsCwd (names.take j) ∧ (j < names.length → ¬ FitsCwd (names.take (j + 1))) ∧
    text = pathText (names.take j) ++ if 0 < j ∧ j = names.length then [] else [slash]

/-- What a change makes of the node that has the name it is given. -/
def Change.outcome : Change → Option (Node (List UInt8)) → Except Code (Option (Node (List UInt8)))
  | .writeFile _ _ _, some .dir => .error .errAlreadyExists
  | .writeFile _ data size, _ => .ok (some (.file ((List.range size).map (data.getD fun _ => 0))))
  | .createDirectory _, some _ => .error .errAlreadyExists
  | .createDirectory _, none => .ok (some .dir)
  | .deleteFile _, none => .error .errNotFound
  | .deleteFile _, some .dir => .error .errNotFile
  | .deleteFile _, some (.file _) => .ok none

/-- A write of bytes from nowhere. -/
def Change.nullData : Change → Bool
  | .writeFile _ none size => 0 < size
  | _ => false

/-- A change that there may be no space for. -/
def Change.Grows : Change → Prop
  | .deleteFile _ => False
  | _ => True

namespace Files

variable (F : Files)

def start (path : List UInt8) : List FileName := if isAbsolute path then [] else F.cwd

/-- Where a path leads. -/
def leads (path : List UInt8) : Except Trouble (List FileName) :=
  F.tree.walk maxPathDepth (F.start path) ((components path).map part)

/-- The directory and the name a path denotes. -/
def target (path : List UInt8) : Except Trouble (List FileName × FileName) :=
  F.tree.target maxPathDepth (F.start path) ((components path).map part)

/-- The code, the buffer and the size that reading a path gives. -/
def read (path : List UInt8) (buffer : Buf) (maxSize : Nat) : Code × Option Buf × Option Nat :=
  match F.target path with
  | .error t => (troubleCode t, some buffer, none)
  | .ok (p, n) =>
    match F.tree.node (p ++ [n]) with
    | none => (.errNotFound, some buffer, none)
    | some .dir => (.errNotFile, some buffer, none)
    | some (.file content) =>
      if content.length > maxSize then (.errBufferSmall, some buffer, none)
      else (.ok, some (fun i => (content[i]?).getD (buffer i)), some content.length)

/-- What a change asks for: the name to set and its new node. -/
def asks (x : Change) : Except Code (List FileName × FileName × Option (Node (List UInt8))) :=
  if x.nullData then .error .errInvalidName
  else
    match F.target x.path with
    | .error t => .error (troubleCode t)
    | .ok (p, n) => (x.outcome (F.tree.node (p ++ [n]))).map fun v => (p, n, v)

/-- How a change may end: refused, out of space, or made. -/
inductive Changes (F : Files) (x : Change) : Code → Files → Prop
  | refused {e : Code} : F.asks x = .error e → Changes F x e F
  | noCluster {r} : F.asks x = .ok r → x.Grows → Changes F x .errNoFreeCluster F
  | noSlot {n v} : F.asks x = .ok ([], n, v) → x.Grows → Changes F x .errDirFull F
  | made {p n v} {F' : Files} : F.asks x = .ok (p, n, v) →
      (∀ q, F'.tree.node q = if q = p ++ [n] then v else F.tree.node q) → F'.cwd = F.cwd → Changes F x .ok F'

/-- The list tells of each name in the directory, once. -/
def Listing (p : List FileName) (l : List DirEntryInfo) : Prop :=
  ∃ ns : List FileName, ns.Nodup ∧ (∀ n, n ∈ ns ↔ (F.tree.node (p ++ [n])).isSome = true) ∧
    List.Forall₂ (fun n info => ∃ v, F.tree.node (p ++ [n]) = some v ∧ Tells info n v) ns l

/-- What a call may answer, and where it leaves the tree. -/
def Allows : (x : Call) → x.Answer → Files → Prop
  | .iterateCurrentDirectory cb ctx, r, F' => F' = F ∧ ∃ l, F.Listing F.cwd l ∧ r = (.ok, (feed cb l ctx).2)
  | .iteratePath path cb ctx, r, F' => F' = F ∧
    match F.leads path with
    | .error t => r = (troubleCode t, ctx)
    | .ok p => ∃ l, F.Listing p l ∧ r = (.ok, (feed cb l ctx).2)
  | .changeDirectory path, r, F' =>
    match F.leads path with
    | .error t => r = troubleCode t ∧ F' = F
    | .ok p => r = .ok ∧ F'.tree = F.tree ∧ F'.cwd = p
  | .getCwd, r, F' => F' = F ∧ ShowsPath ((F.cwd.take maxPathDepth).map FileName.display) r
  | .readFile path buffer maxSize, r, F' => F' = F ∧
    match buffer with
    | none => r = (.errInvalidName, none, none)
    | some buffer => r = F.read path buffer maxSize
  | .change x, r, F' => F.Changes x r F'
  | .flush, r, F' => r = .ok ∧ F' = F

end Files

/-! ## Histories -/

/-- A call and its answer, or the machine switched off and on. -/
inductive Event : Type 1 where
  | call (x : Call) (answer : x.Answer)
  | restart

/-- What a client asks for. -/
def Event.request : Event → Option Call
  | .call x _ => some x
  | .restart => none

/-- The driver makes a call, or another driver mounts the disk as it was left. -/
inductive DriverStep (fuel baseLba : Nat) : State → Event → State → Prop
  | call {s s' : State} {x : Call} {r : x.Answer} : x.exec fuel s = .ok r s' →
    DriverStep fuel baseLba s (.call x r) s'
  | restart {s t s' : State} : t.sectors = s.sectors → Reliable t → init baseLba t = .ok .ok s' →
    DriverStep fuel baseLba s .restart s'

/-- A call keeps to what is allowed, and a restart goes to the root of the same tree. -/
inductive Files.Step : Files → Event → Files → Prop
  | call {F F' : Files} {x : Call} {r : x.Answer} : F.Allows x r F' → Files.Step F (.call x r) F'
  | restart {F F' : Files} : F'.tree = F.tree → F'.cwd = [] → Files.Step F .restart F'

/-! ## The driver as such a tree -/

/-- What the driver holds is the tree, and its variables the place in it. -/
structure Represents (boot : Buf) (baseLba : Nat) (c : Core) (F : Files) : Prop where
  inStep : InStep boot baseLba c
  tree : c.volume.tree = F.tree
  stands : c.volume.Stands c.currentDirCluster c.pathStack F.cwd
  cwd : c.cwd = rebuildCwd c.pathStack
  named : c.volume.Named

section

variable {c c' : Core} {V : Volume} {P : Set Nat} {F : Files} {boot : Buf} {baseLba fuel : Nat} {path : List UInt8}
  {p : List FileName}

theorem Represents.wellFormed (h : Represents boot baseLba c F) : c.WellFormed := h.inStep.wellFormed

theorem Represents.node (h : Represents boot baseLba c F) (q : List FileName) :
    F.tree.node q = c.volume.node q := by
  rw [← h.tree]
  rfl

/-- Paths start where the driver starts them. -/
theorem Represents.start (h : Represents boot baseLba c F) (path : List UInt8) :
    c.volume.Stands (c.start path).1 (c.start path).2 (F.start path) := by
  unfold Core.start Files.start
  split
  · exact .root _
  · exact h.stands

/-- Paths lead where the tree says. -/
theorem Represents.leads (h : Represents boot baseLba c F) (path : List UInt8) :
    c.volume.SameEnd (F.leads path) (c.leads path) := by
  have : c.volume.SameEnd (c.volume.tree.walk maxPathDepth (F.start path) ((components path).map part))
    (c.leads path) := (h.start path).walk
  rwa [h.tree] at this

/-! ## Listings -/

theorem tells_nodeOf {e : RawDirEntry} {n : FileName} (hn : n.1 = e.name) :
    Tells (copyEntryInfo e) n (V.nodeOf e) := by
  have hname : (copyEntryInfo e).name = n.display := by
    show dirNameToString e.name = dirNameToString n.1
    rw [hn]
  have hattr : e.isDirectory = true ↔ (copyEntryInfo e).attr &&& attrDirectory ≠ 0 := bne_iff_ne
  unfold Volume.nodeOf
  split
  · rename_i hi
    exact ⟨hname, hattr.1 hi⟩
  · rename_i hi
    refine ⟨hname, not_not.1 fun h => hi (hattr.2 h), ?_⟩
    rw [List.length_map, List.length_range]
    rfl

theorem exists_forall₂ {α β : Type} {R : α → β → Prop} :
    ∀ {l : List β}, (∀ b ∈ l, ∃ a, R a b) → ∃ as, List.Forall₂ R as l
  | [], _ => ⟨[], .nil⟩
  | b :: l, h => by
    obtain ⟨a, ha⟩ := h b (List.mem_cons_self ..)
    obtain ⟨as, has⟩ := exists_forall₂ fun b' hb => h b' (List.mem_cons_of_mem _ hb)
    exact ⟨a :: as, .cons ha has⟩

/-- What the driver lists are the names in the directory. -/
theorem Represents.listing (h : Represents boot baseLba c F) {d : Nat} (hp : c.volume.dirFrom 0 p = some d) :
    F.Listing p (c.volume.listing d) := by
  have hwf := h.wellFormed.wf
  have hd := hwf.dirFrom_dir Volume.dir_root hp
  have hnode : ∀ n : FileName, F.tree.node (p ++ [n]) = (c.volume.find d n.1).map c.volume.nodeOf := fun n => by
    rw [h.node, Volume.node_snoc, hp]
    rfl
  -- each entry shown is found by its name
  obtain ⟨ns, hns⟩ : ∃ ns, List.Forall₂ (fun (n : FileName) e => n.1 = e.name ∧ c.volume.find d n.1 = some e) ns
      ((c.volume.slots d).filter Volume.shown) := by
    refine exists_forall₂ fun e he => ?_
    obtain ⟨hmem, hshown⟩ := List.mem_filter.1 he
    obtain ⟨n, hn⟩ := h.named p d hp e hmem hshown
    exact ⟨n, hn, (hwf.find_iff hd).2 ⟨hmem, Volume.shown_live hshown, hn.symm⟩⟩
  have hnames : ns.map Subtype.val = ((c.volume.slots d).filter Volume.shown).map (·.name) := by
    rw [← List.forall₂_eq_eq_eq, List.forall₂_map_left_iff, List.forall₂_map_right_iff]
    exact hns.imp fun _ _ h => h.1
  refine ⟨ns, ?_, fun n => ?_, ?_⟩
  · -- no two live entries have one name
    refine List.Nodup.of_map Subtype.val ?_
    rw [hnames]
    obtain ⟨q, hq⟩ := hd
    have huniq : (c.volume.slots d).Pairwise fun a b => a.Live → b.Live → a.name ≠ b.name :=
      List.pairwise_map.2 (hwf.dirOk d q hq).unique
    refine List.pairwise_map.2 ((huniq.filter _).imp_of_mem fun ha hb hab => ?_)
    exact hab (Volume.shown_live (List.mem_filter.1 ha).2) (Volume.shown_live (List.mem_filter.1 hb).2)
  · have hmem : n ∈ ns ↔ ∃ e ∈ (c.volume.slots d).filter Volume.shown, e.name = n.1 := by
      rw [← List.mem_map, ← hnames, List.mem_map]
      exact ⟨fun hn => ⟨n, hn, rfl⟩, fun ⟨m, hm, hmn⟩ => Subtype.ext hmn ▸ hm⟩
    rw [hmem, hnode, Option.isSome_map, Option.isSome_iff_exists]
    constructor
    · rintro ⟨e, he, hn⟩
      obtain ⟨h1, h2⟩ := List.mem_filter.1 he
      exact ⟨e, (hwf.find_iff hd).2 ⟨h1, Volume.shown_live h2, hn⟩⟩
    · rintro ⟨e, he⟩
      exact ⟨e, List.mem_filter.2 (hwf.find_shown hd he), Volume.find_name he⟩
  · unfold Volume.listing
    rw [List.forall₂_map_right_iff]
    refine hns.imp fun n e he => ⟨c.volume.nodeOf e, ?_, tells_nodeOf he.1⟩
    rw [hnode, he.2]
    rfl

/-! ## The text of the current directory -/

theorem showsPath_rebuildCwd (hnames : ∀ name ∈ c.pathStack.names, IsComponent name) :
    ShowsPath c.pathStack.names (rebuildCwd c.pathStack) := by
  have hmap : c.pathStack.names.map (fun name => name.takeWhile (· != 0)) = c.pathStack.names := by
    conv_rhs => rw [← List.map_id c.pathStack.names]
    refine List.map_congr_left fun name hn => ?_
    exact List.takeWhile_eq_self_iff.2 fun b hb => bne_iff_ne.2 ((hnames name hn).plain b hb).2
  unfold rebuildCwd
  rw [hmap]
  by_cases hnil : c.pathStack.names = []
  · rw [hnil]
    exact ⟨0, Nat.le_refl _, by decide, fun h => absurd h (Nat.lt_irrefl _), rfl⟩
  · have hroot : FitsCwd [] := by decide
    obtain ⟨j, hj, hfit, hmax, heq⟩ := cwdLoop_longest hroot hnil fun name hn => (hnames name hn).ne
    refine ⟨j, hj, hfit, hmax, heq.trans ?_⟩
    have hpos := List.length_pos_iff.2 hnil
    by_cases hall : j = c.pathStack.names.length
    · rw [if_pos hall, if_pos ⟨by omega, hall⟩]
      rfl
    · rw [if_neg hall, if_neg fun h => hall h.2]
      rfl

theorem Represents.text (h : Represents boot baseLba c F) :
    ShowsPath ((F.cwd.take maxPathDepth).map FileName.display) c.cwd := by
  obtain ⟨y, hy⟩ := Volume.dirFrom_take h.stands.current maxPathDepth
  have hnames : c.pathStack.names = (F.cwd.take maxPathDepth).map FileName.display := by
    show c.pathStack.levels.map (·.2) = _
    rw [h.stands.levels, (Volume.trail_levelsFrom hy).2.2]
  rw [← hnames, h.cwd]
  refine showsPath_rebuildCwd fun name hn => ?_
  rw [hnames] at hn
  obtain ⟨n, -, rfl⟩ := List.mem_map.1 hn
  obtain ⟨base, ext, hs⟩ := n.stored
  exact hs.isComponent

/-! ## Looking around -/

theorem Gives.unique {α : Type} {m : M α} {a b : α} {c c₁ c₂ : Core} (h : Gives m c a c₁) (h' : Gives m c b c₂) :
    a = b ∧ c₁ = c₂ := by
  obtain ⟨s, hs, hrel⟩ := c.exists_reliable
  obtain ⟨s', hrun, hc, -⟩ := h s hs hrel
  obtain ⟨h1, h2, -⟩ := h'.eq_of_ok hs hrel hrun
  exact ⟨h1, hc.symm.trans h2⟩

/-- What the path denotes on the volume. -/
theorem Represents.resolve (h : Represents boot baseLba c F) (path : List UInt8) :
    match F.target path with
    | .ok (q, n) =>
      ∃ d, c.volume.resolve (c.start path).1 (c.start path).2 (components path) = .ok (d, n.1) ∧
        c.volume.dirFrom 0 q = some d
    | .error t =>
      c.volume.resolve (c.start path).1 (c.start path).2 (components path) = .error (troubleCode t) := by
  have := (h.start path).resolve (components path)
  rwa [h.tree] at this

/-- And what is there. -/
theorem Represents.node_target (h : Represents boot baseLba c F) {q : List FileName} {d : Nat}
    (hq : c.volume.dirFrom 0 q = some d) (n : FileName) :
    F.tree.node (q ++ [n]) = (c.volume.find d n.1).map c.volume.nodeOf := by
  rw [h.node, Volume.node_snoc, hq]
  rfl

theorem Represents.read (h : Represents boot baseLba c F) (path : List UInt8) (buffer : Buf) (maxSize : Nat) :
    c.volume.read (c.start path).1 (c.start path).2 (components path) buffer maxSize =
      F.read path buffer maxSize := by
  unfold Volume.read Files.read
  have hres := h.resolve path
  generalize F.target path = r at hres ⊢
  rcases r with t | ⟨q, n⟩
  · rw [show c.volume.resolve _ _ _ = _ from hres]
  obtain ⟨d, hd, hq⟩ := hres
  rw [hd]
  dsimp only
  rw [h.node_target hq n]
  cases c.volume.find d n.1 with
  | none => rfl
  | some e =>
    dsimp only [Option.map_some]
    unfold Volume.nodeOf
    cases hi : e.isDirectory with
    | true => rfl
    | false =>
      have hlen : ((List.range e.size).map (c.volume.content e.cluster)).length = e.size := by
        rw [List.length_map, List.length_range]
      rw [if_neg Bool.false_ne_true, if_neg Bool.false_ne_true]
      dsimp only
      rw [hlen]
      split
      · rfl
      · refine congrArg (fun out => (Code.ok, some out, some e.size)) (funext fun i => ?_)
        by_cases hlt : i < e.size
        · rw [if_pos hlt, List.getElem?_map, List.getElem?_range hlt]
          rfl
        · rw [if_neg hlt, List.getElem?_eq_none (by omega)]
          rfl

/-! ## Changing -/

theorem Represents.unchanged (h : Represents boot baseLba c F) (u : Unchanged c c') (hin : InStep boot baseLba c') :
    Represents boot baseLba c' F := by
  have hwf := h.wellFormed.wf
  have a := u.agree hwf
  have hs := Volume.Shows.of_agree hwf a
  refine ⟨hin, (hs.tree hwf).trans h.tree, ?_, ?_, a.named hwf h.named⟩
  · rw [u.env.current, u.env.stack]
    exact h.stands.mono hwf hs.keepsSubs
  · rw [u.env.cwd, u.env.stack]
    exact h.cwd

/-- An edit sets or clears the one name. -/
theorem Represents.edited (h : Represents boot baseLba c F) {d : Nat} {n : FileName} {o e : RawDirEntry}
    (he : Edited c c' d n.1 o e) (hp : c.volume.dirFrom 0 p = some d)
    (hfresh : ∀ k, c'.volume.sub d n = some k → c'.volume.listing k = []) (hin : InStep boot baseLba c') :
    ∃ F', Represents boot baseLba c' F' ∧ F'.cwd = F.cwd ∧
      ∀ q, F'.tree.node q = if q = p ++ [n] then (c'.volume.find d n.1).map c'.volume.nodeOf
        else F.tree.node q := by
  have hwf := h.wellFormed.wf
  have hd := hwf.dirFrom_dir Volume.dir_root hp
  have hstands : c'.volume.Stands c'.currentDirCluster c'.pathStack F.cwd := by
    rw [he.env.current, he.env.stack]
    exact h.stands.mono hwf (he.edit.keepsSubs hwf he.wf hd)
  refine ⟨⟨c'.volume.tree, F.cwd, Volume.node_dir.2 ⟨_, hstands.current⟩⟩, ⟨hin, rfl, hstands, ?_, ?_⟩, rfl,
    fun q => ?_⟩
  · rw [he.env.cwd, he.env.stack]
    exact h.cwd
  · exact he.edit.named hwf he.wf hp hfresh h.named
  · rw [h.node]
    exact he.edit.node hwf he.wf hp hfresh q

section

variable {x : Change} {d size : Nat} {n : FileName} {e : Code} {code : Nat → ShortName → Code}

theorem Represents.asks (h : Represents boot baseLba c F) (hnull : x.nullData = false)
    (ht : F.target x.path = .ok (p, n)) (hp : c.volume.dirFrom 0 p = some d) :
    F.asks x = (x.outcome ((c.volume.find d n.1).map c.volume.nodeOf)).map fun v => (p, n, v) := by
  unfold Files.asks
  rw [hnull, if_neg Bool.false_ne_true, ht]
  dsimp only
  rw [h.node_target hp n]

/-- A change is refused for its path, or for what its path leads to. -/
theorem Represents.refuses (h : Represents boot baseLba c F) (hnull : x.nullData = false)
    (he : e = pathCode (c.volume.resolve (c.start x.path).1 (c.start x.path).2 (components x.path)) code)
    (hcode : ∀ p (n : FileName) d, F.target x.path = .ok (p, n) → c.volume.dirFrom 0 p = some d → e = code d n.1 →
      F.Changes x e F) :
    F.Changes x e F := by
  have hres := h.resolve x.path
  cases ht : F.target x.path with
  | error t =>
    rw [ht] at hres
    refine .refused ?_
    unfold Files.asks
    rw [hnull, if_neg Bool.false_ne_true, ht, he, show c.volume.resolve _ _ _ = _ from hres]
    rfl
  | ok r =>
    obtain ⟨p, n⟩ := r
    rw [ht] at hres
    obtain ⟨d, hd, hp⟩ := hres
    exact hcode p n d ht hp (by rw [he, hd]; rfl)

/-- Where the path of a change that was made led. -/
theorem Represents.target_of_resolve (h : Represents boot baseLba c F) {m : ShortName}
    (hr : c.volume.resolve (c.start path).1 (c.start path).2 (components path) = .ok (d, m)) :
    ∃ p n, F.target path = .ok (p, n) ∧ n.1 = m ∧ c.volume.dirFrom 0 p = some d := by
  have hres := h.resolve path
  cases ht : F.target path with
  | error t =>
    rw [ht, hr] at hres
    cases hres
  | ok r =>
    obtain ⟨p, n⟩ := r
    rw [ht, hr] at hres
    obtain ⟨d', hd, hp⟩ := hres
    obtain ⟨rfl, rfl⟩ := Prod.mk.inj (Except.ok.inj hd)
    exact ⟨p, n, rfl, rfl, hp⟩

theorem Represents.nil_of_root (h : Represents boot baseLba c F) (hp : c.volume.dirFrom 0 p = some 0) : p = [] :=
  h.wellFormed.wf.dirFrom_inj hp rfl

theorem writeCode_refused {V : Volume} {m : ShortName} (h : V.writeCode d m size ≠ .ok) :
    V.writeCode d m size = .errNoFreeCluster ∨ (V.writeCode d m size = .errDirFull ∧ d = 0) := by
  unfold Volume.writeCode at h ⊢
  split_ifs at h ⊢ <;> simp_all

theorem makeCode_refused {V : Volume} {m : ShortName} (h : V.makeCode d m ≠ .ok) :
    (V.makeCode d m = .errAlreadyExists ∧ V.find d m ≠ none) ∨
      (V.find d m = none ∧ (V.makeCode d m = .errNoFreeCluster ∨ (V.makeCode d m = .errDirFull ∧ d = 0))) := by
  unfold Volume.makeCode at h ⊢
  split_ifs at h ⊢ <;> simp_all

/-- A write that runs out of space. -/
theorem Represents.writeCode (h : Represents boot baseLba c F) {r} (hx : F.asks x = .ok (p, r)) (hg : x.Grows)
    (hp : c.volume.dirFrom 0 p = some d) (he : e = .errNoFreeCluster ∨ (e = .errDirFull ∧ d = 0)) :
    F.Changes x e F := by
  rcases he with rfl | ⟨rfl, rfl⟩
  · exact .noCluster hx hg
  · obtain rfl := h.nil_of_root hp
    exact .noSlot hx hg

theorem nullData_writeFile {data : Option Buf} (h : ¬ (data.isNone ∧ size > 0)) :
    (Change.writeFile path data size).nullData = false := by
  cases data with
  | some b => rfl
  | none => exact decide_eq_false fun hs => h ⟨rfl, hs⟩

/-- What the nodes of a stored file's name become. -/
theorem outcome_writeFile {data : Option Buf} {v : Option (Node (List UInt8))} (hv : v ≠ some .dir) :
    (Change.writeFile path data size).outcome v =
      .ok (some (.file ((List.range size).map (data.getD fun _ => 0)))) := by
  rcases v with - | - | content
  · rfl
  · exact absurd rfl hv
  · rfl

theorem Represents.writeFile (h : Represents boot baseLba c F) (hf : 4096 ≤ fuel) (path : List UInt8)
    (data : Option Buf) (size : Nat) :
    ∃ r c' F', Gives ((Change.writeFile path data size).exec fuel) c r c' ∧
      F.Changes (.writeFile path data size) r F' ∧ Represents boot baseLba c' F' := by
  have hw := h.wellFormed
  obtain ⟨r₀, c₀, hg₀, hin⟩ := (Change.writeFile path data size).inStep hf h.inStep
  rcases gives_writeFile_code hw.mounted hw.wf hw.settled hf path data size
    with ⟨c', d, m, hg, hr, hwr, hnull⟩ | ⟨e, c', hg, hne, hu, hcode⟩
  · obtain ⟨-, rfl⟩ := Gives.unique hg₀ hg
    obtain ⟨p, n, ht, rfl, hp⟩ := h.target_of_resolve hr
    obtain ⟨o, first, he, hsz, hc⟩ := hwr.stored
    have hself := he.edit.find_self he.wf (hw.wf.dirFrom_dir Volume.dir_root hp) (fillDirEntry_live n.proper)
    have hfile : (fillDirEntry n.1 attrArchive first size).isDirectory = false :=
      (by decide : (attrArchive &&& attrDirectory != 0) = false)
    have hfresh : ∀ k, c₀.volume.sub d n = some k → c₀.volume.listing k = [] := fun k hk => by
      obtain ⟨e, he, hi, -⟩ := Volume.sub_iff.1 hk
      rw [hself] at he
      cases he
      rw [hfile] at hi
      cases hi
    obtain ⟨F', hF, hcwd, hnode⟩ := h.edited he hp hfresh hin
    refine ⟨.ok, _, F', hg, .made ?_ hnode hcwd, hF⟩
    have hold : (c.volume.find d n.1).map c.volume.nodeOf ≠ some .dir := fun hdir => by
      obtain ⟨e', he', hi⟩ := Option.map_eq_some_iff.1 hdir
      obtain ⟨rfl, ho⟩ := he.edit.old e' he'
      rw [Volume.nodeOf_dir, ho] at hi
      cases hi
    rw [h.asks (nullData_writeFile hnull) ht hp, outcome_writeFile hold, hself]
    have hnew : c₀.volume.nodeOf (fillDirEntry n.1 attrArchive first size) =
        .file ((List.range size).map (data.getD fun _ => 0)) := by
      unfold Volume.nodeOf
      rw [hfile, if_neg Bool.false_ne_true, hsz]
      exact congrArg _ (List.map_congr_left fun i hi => hc i (List.mem_range.1 hi))
    show Except.ok (p, n, _) = Except.ok (p, n, some (c₀.volume.nodeOf _))
    rw [hnew]
  · obtain ⟨-, rfl⟩ := Gives.unique hg₀ hg
    refine ⟨e, _, F, hg, ?_, h.unchanged hu hin⟩
    by_cases hnull : data.isNone ∧ size > 0
    · rw [if_pos hnull] at hcode
      refine .refused ?_
      have hx : (Change.writeFile path data size).nullData = true := by
        obtain rfl := Option.isNone_iff_eq_none.1 hnull.1
        exact decide_eq_true hnull.2
      unfold Files.asks
      rw [hx, if_pos rfl, hcode]
    · rw [if_neg hnull] at hcode
      refine h.refuses (nullData_writeFile hnull) hcode fun p n d ht hp hstore => ?_
      have hask := h.asks (nullData_writeFile hnull) ht hp
      unfold Volume.storeCode at hstore
      -- a directory has the name, or there is no space
      cases hfind : c.volume.find d n.1 with
      | none =>
        rw [hfind] at hask hstore
        rw [hstore] at hne
        exact h.writeCode (hask.trans rfl) trivial hp (hstore ▸ writeCode_refused hne)
      | some o =>
        rw [hfind] at hask hstore
        dsimp only at hstore
        cases hi : o.isDirectory with
        | true =>
          rw [hi, if_pos rfl] at hstore
          rw [Option.map_some, Volume.nodeOf_dir.2 hi] at hask
          rw [hstore]
          exact .refused hask
        | false =>
          rw [hi, if_neg Bool.false_ne_true] at hstore
          rw [Option.map_some,
            outcome_writeFile (by rw [ne_eq, Option.some.injEq, Volume.nodeOf_dir, hi]; decide)] at hask
          rw [hstore] at hne
          exact h.writeCode hask trivial hp (hstore ▸ writeCode_refused hne)

theorem Represents.createDirectory (h : Represents boot baseLba c F) (hf : 4096 ≤ fuel) (path : List UInt8) :
    ∃ r c' F', Gives ((Change.createDirectory path).exec fuel) c r c' ∧ F.Changes (.createDirectory path) r F' ∧
      Represents boot baseLba c' F' := by
  have hw := h.wellFormed
  obtain ⟨r₀, c₀, hg₀, hin⟩ := (Change.createDirectory path).inStep hf h.inStep
  rcases gives_createDirectory_code hw.mounted hw.wf hw.settled hf path
    with ⟨c', d, m, k, hg, hr, hnone, hmade, -⟩ | ⟨e, c', hg, hne, hu, hcode⟩
  · obtain ⟨-, rfl⟩ := Gives.unique hg₀ hg
    obtain ⟨p, n, ht, rfl, hp⟩ := h.target_of_resolve hr
    obtain ⟨o, -, he⟩ := hmade.edited
    have hself := he.edit.find_self he.wf (hw.wf.dirFrom_dir Volume.dir_root hp) (fillDirEntry_live n.proper)
    have hfresh : ∀ k, c₀.volume.sub d n = some k → c₀.volume.listing k = [] := fun k' hk => by
      obtain ⟨e, he, -, rfl⟩ := Volume.sub_iff.1 hk
      rw [hself] at he
      cases he
      rw [hmade.cluster]
      exact hmade.fresh.listing (hin.wellFormed.mounted.geom)
    obtain ⟨F', hF, hcwd, hnode⟩ := h.edited he hp hfresh hin
    refine ⟨.ok, _, F', hg, .made ?_ hnode hcwd, hF⟩
    rw [h.asks (x := .createDirectory path) rfl ht hp, hnone, hself]
    have hnew : c₀.volume.nodeOf (fillDirEntry n.1 attrDirectory k 0) = .dir :=
      Volume.nodeOf_dir.2 (by decide : (attrDirectory &&& attrDirectory != 0) = true)
    show Except.ok (p, n, _) = Except.ok (p, n, some (c₀.volume.nodeOf _))
    rw [hnew]
  · obtain ⟨-, rfl⟩ := Gives.unique hg₀ hg
    refine ⟨e, _, F, hg, ?_, h.unchanged hu hin⟩
    refine h.refuses rfl hcode fun p n d ht hp hmake => ?_
    have hask := h.asks (x := .createDirectory path) rfl ht hp
    rw [hmake] at hne
    rcases makeCode_refused hne with ⟨hexists, hsome⟩ | ⟨hnone, hspace⟩
    · obtain ⟨o, ho⟩ := Option.ne_none_iff_exists'.1 hsome
      rw [ho] at hask
      rw [hmake, hexists]
      exact .refused hask
    · rw [hnone] at hask
      exact h.writeCode (hask.trans rfl) trivial hp (hmake ▸ hspace)

theorem Represents.deleteFile (h : Represents boot baseLba c F) (hf : 4096 ≤ fuel) (path : List UInt8) :
    ∃ r c' F', Gives ((Change.deleteFile path).exec fuel) c r c' ∧ F.Changes (.deleteFile path) r F' ∧
      Represents boot baseLba c' F' := by
  have hw := h.wellFormed
  obtain ⟨r₀, c₀, hg₀, hin⟩ := (Change.deleteFile path).inStep hf h.inStep
  rcases gives_deleteFile_code hw.mounted hw.wf hw.settled hf path
    with ⟨c', d, m, o, hg, hr, hdel, hfind⟩ | ⟨e, c', hg, hne, hu, hcode⟩
  · obtain ⟨-, rfl⟩ := Gives.unique hg₀ hg
    obtain ⟨p, n, ht, rfl, hp⟩ := h.target_of_resolve hr
    have he := hdel.edited
    have hgone :=
      he.edit.find_gone hw.wf he.wf (hw.wf.dirFrom_dir Volume.dir_root hp) hdel.live (deletedEntry_not_live o)
    have hfresh : ∀ k, c₀.volume.sub d n = some k → c₀.volume.listing k = [] := fun k hk => by
      obtain ⟨e, he, -⟩ := Volume.sub_iff.1 hk
      rw [hgone] at he
      cases he
    obtain ⟨F', hF, hcwd, hnode⟩ := h.edited he hp hfresh hin
    refine ⟨.ok, _, F', hg, .made ?_ hnode hcwd, hF⟩
    rw [h.asks (x := .deleteFile path) rfl ht hp, hfind, hgone, Option.map_some]
    unfold Volume.nodeOf
    rw [hdel.file, if_neg Bool.false_ne_true]
    rfl
  · obtain ⟨-, rfl⟩ := Gives.unique hg₀ hg
    refine ⟨e, _, F, hg, ?_, h.unchanged hu hin⟩
    refine h.refuses rfl hcode fun p n d ht hp hdelete => .refused ?_
    rw [h.asks (x := .deleteFile path) rfl ht hp]
    unfold Volume.deleteCode at hdelete
    cases hfind : c.volume.find d n.1 with
    | none =>
      rw [hfind] at hdelete
      rw [hdelete]
      rfl
    | some o =>
      rw [hfind] at hdelete
      dsimp only at hdelete
      cases hi : o.isDirectory with
      | true =>
        rw [hdelete, hi, Option.map_some, Volume.nodeOf_dir.2 hi]
        rfl
      | false =>
        rw [hi, if_neg Bool.false_ne_true] at hdelete
        exact absurd hdelete hne

end

/-! ## Moving, flushing and restarting -/

theorem Represents.enter (h : Represents boot baseLba c F) {r : Nat × PathStack} (hr : c.leads path = .ok r)
    {q : List FileName} (hq : F.leads path = .ok q) :
    ∃ F', Represents boot baseLba (c.enter r.1 r.2) F' ∧ F'.tree = F.tree ∧ F'.cwd = q := by
  have hend := h.leads path
  rw [hr, hq] at hend
  have hdir : F.tree.node q = some .dir := by
    rw [h.node]
    exact Volume.node_dir.2 ⟨_, hend.current⟩
  have hw := h.wellFormed.enter hr
  exact ⟨⟨F.tree, q, hdir⟩, ⟨⟨hw, ⟨h.inStep.synced.root, h.inStep.synced.fat⟩, h.inStep.layout, h.inStep.boot⟩,
    h.tree, hend, rfl, h.named⟩, rfl, rfl⟩

theorem Represents.flushed (h : Represents boot baseLba c F) : Represents boot baseLba c.flushed F := by
  have hm := h.wellFormed.mounted
  have henv := env_flushed c
  have hvol := volume_flushed hm.accepted
  have hboot := ((Behind.refl c).bootSector hm.accepted hm.reserved).2
  rw [h.inStep.base] at hboot
  refine ⟨⟨⟨henv.mounted hm, ?_, ?_⟩, (Behind.refl c).synced_flushed hm.accepted h.inStep.synced, h.inStep.layout,
    hboot.trans h.inStep.boot⟩, ?_, ?_, h.cwd, ?_⟩
  · rw [hvol]
    exact h.wellFormed.wf
  · have hs := h.wellFormed.settled
    exact ⟨by rw [hvol]; exact hs.current, by rw [hvol]; exact hs.stack⟩
  · rw [hvol]
    exact h.tree
  · rw [hvol]
    exact h.stands
  · rw [hvol]
    exact h.named

/-- The disk as it was left is mounted with the same tree, at its root. -/
theorem Represents.mount (h : Represents boot baseLba c F) (hm : Mountable boot baseLba) {t : Core}
    (ht : t.sectors = c.sectors) :
    Mountable (t.bootSector baseLba) baseLba ∧ ∃ F', Represents boot baseLba (t.mount baseLba) F' ∧
      F'.tree = F.tree ∧ F'.cwd = [] := by
  have hboot : t.bootSector baseLba = boot := by
    rw [← h.inStep.boot]
    exact bootSector_congr (by rw [ht])
  have hfs := (h.inStep.mount ht).1
  have hvol := h.inStep.volume_mount ht
  have hmounted := h.wellFormed.mounted
  have hmt : Mountable (t.bootSector baseLba) baseLba := hboot ▸ hm
  have hw : (t.mount baseLba).WellFormed := by
    apply (mount_wellFormed hmt _ _ _).1
    · rw [hfs]
      exact hmounted.reserved
    · rw [hfs]
      exact hmounted.fats
    · rw [hvol]
      exact h.wellFormed.wf
  have hcopies : (t.mount baseLba).CopiesAgree := by
    have hc := h.inStep.synced.copiesAgree
    unfold Core.CopiesAgree at hc ⊢
    rw [hfs, show (t.mount baseLba).sectors = c.sectors from ht]
    exact hc
  refine ⟨hmt, ⟨F.tree, [], F.tree.root⟩,
    ⟨⟨hw, mount_synced hcopies, congrArg (Fs.ofBoot · baseLba) hboot, hboot⟩, ?_, .root _, rfl, ?_⟩, rfl, rfl⟩
  · rw [hvol]
    exact h.tree
  · rw [hvol]
    exact h.named

/-! ## One call -/

/-- A path leads nowhere, with the code of the trouble, or to the same place in the tree and on the volume. -/
theorem Represents.leads_cases (h : Represents boot baseLba c F) (path : List UInt8) :
    (∃ t, F.leads path = .error t ∧ c.leads path = .error (troubleCode t)) ∨
      ∃ q r, F.leads path = .ok q ∧ c.leads path = .ok r ∧ c.volume.Stands r.1 r.2 q := by
  have hend := h.leads path
  cases ht : F.leads path with
  | error t =>
    cases hr : c.leads path with
    | error e =>
      rw [ht, hr] at hend
      exact .inl ⟨t, rfl, congrArg Except.error hend⟩
    | ok r =>
      rw [ht, hr] at hend
      exact hend.elim
  | ok q =>
    cases hr : c.leads path with
    | error e =>
      rw [ht, hr] at hend
      exact hend.elim
    | ok r =>
      rw [ht, hr] at hend
      exact .inr ⟨q, r, rfl, rfl, hend⟩

/-- A call returns, as the tree allows, and the driver holds the tree it leaves. -/
theorem Represents.call (h : Represents boot baseLba c F) (hf : 4096 ≤ fuel) (x : Call) :
    ∃ r c' F', Gives (x.exec fuel) c r c' ∧ F.Allows x r F' ∧ Represents boot baseLba c' F' := by
  have hw := h.wellFormed
  cases x with
  | iterateCurrentDirectory cb ctx =>
    refine ⟨_, c, F, ?_, ⟨rfl, _, h.listing h.stands.current, rfl⟩, h⟩
    show Gives (iterateCurrentDirectory fuel cb ctx) c _ c
    unfold iterateCurrentDirectory
    refine gives_core ?_
    rw [hw.mounted.ready]
    exact gives_iterate hw.mounted.accepted hw.wf hf hw.settled.current cb ctx
  | iteratePath path cb ctx =>
    have hg := gives_iteratePath hw.mounted hw.wf hf hw.settled path cb ctx
    obtain ⟨t, ht, hr⟩ | ⟨q, r, ht, hr, hstands⟩ := h.leads_cases path
    · rw [show c.volume.walk _ _ (components path) = _ from hr] at hg
      refine ⟨_, c, F, hg, ⟨rfl, ?_⟩, h⟩
      rw [ht]
    · rw [show c.volume.walk _ _ (components path) = .ok r from hr] at hg
      refine ⟨_, c, F, hg, ⟨rfl, ?_⟩, h⟩
      rw [ht]
      exact ⟨_, h.listing hstands.current, rfl⟩
  | changeDirectory path =>
    by_cases hp : path = []
    · -- no path at all is the current directory
      subst hp
      exact ⟨.ok, c, F, gives_changeDirectory_nil fuel hw, ⟨rfl, rfl, rfl⟩, h⟩
    have hg := gives_changeDirectory hw.mounted hw.wf hf hw.settled hp
    obtain ⟨t, ht, hr⟩ | ⟨q, r, ht, hr, -⟩ := h.leads_cases path
    · rw [show c.volume.walk _ _ (components path) = _ from hr] at hg
      refine ⟨_, c, F, hg, ?_, h⟩
      show match F.leads path with | .error t => _ | .ok p => _
      rw [ht]
      exact ⟨rfl, rfl⟩
    · rw [show c.volume.walk _ _ (components path) = .ok r from hr] at hg
      obtain ⟨F', hF, htree, hcwd⟩ := h.enter hr ht
      refine ⟨_, _, F', hg, ?_, hF⟩
      show match F.leads path with | .error t => _ | .ok p => _
      rw [ht]
      exact ⟨rfl, htree, hcwd⟩
  | getCwd => exact ⟨c.cwd, c, F, gives_core (.pure _), ⟨rfl, h.text⟩, h⟩
  | readFile path buffer maxSize =>
    cases buffer with
    | some buffer =>
      refine ⟨_, c, F, gives_readFile hw.mounted hw.wf hf hw.settled path buffer maxSize, ⟨rfl, ?_⟩, h⟩
      exact h.read path buffer maxSize
    | none =>
      -- without a buffer nothing is looked for
      refine ⟨(.errInvalidName, none, none), c, F, ?_, ⟨rfl, rfl⟩, h⟩
      show Gives (readFile fuel path none maxSize) c _ c
      unfold readFile
      refine gives_core ?_
      rw [hw.mounted.ready, if_neg (by decide)]
      exact .pure _
  | change x =>
    cases x with
    | writeFile path data size => exact h.writeFile hf path data size
    | createDirectory path => exact h.createDirectory hf path
    | deleteFile path => exact h.deleteFile hf path
  | flush => exact ⟨.ok, _, F, gives_flush hw.mounted.ready, ⟨rfl, rfl⟩, h.flushed⟩

/-! ## Any history -/

/-- A step of the driver is a step of the tree. -/
theorem Represents.step {s s' : State} {l : Event} (hf : 4096 ≤ fuel) (hm : Mountable boot baseLba)
    (h : Represents boot baseLba s.toCore F) (hs : Reliable s) (hstep : DriverStep fuel baseLba s l s') :
    ∃ F', F.Step l F' ∧ Represents boot baseLba s'.toCore F' ∧ Reliable s' := by
  cases hstep with
  | call hrun =>
    obtain ⟨r', c', F', hg, hallows, hF⟩ := h.call hf _
    obtain ⟨rfl, rfl, hs'⟩ := hg.eq_of_ok rfl hs hrun
    exact ⟨F', .call hallows, hF, hs'⟩
  | restart hdisk ht hinit =>
    obtain ⟨-, F', hF, htree, hcwd⟩ := h.mount hm hdisk
    obtain ⟨-, hcore, hs'⟩ := init_ok ht hinit
    exact ⟨F', .restart htree hcwd, hcore ▸ hF, hs'⟩

/-- And there is one for whatever is asked. -/
theorem Represents.responds {s : State} (hf : 4096 ≤ fuel) (hm : Mountable boot baseLba)
    (h : Represents boot baseLba s.toCore F) (hs : Reliable s) (request : Option Call) :
    ∃ l s', l.request = request ∧ DriverStep fuel baseLba s l s' := by
  cases request with
  | some x =>
    obtain ⟨r, c', F', hg, -⟩ := h.call hf x
    obtain ⟨s', hrun, -⟩ := hg s rfl hs
    exact ⟨.call x r, s', rfl, .call hrun⟩
  | none =>
    obtain ⟨s', hrun, -⟩ := gives_mount (h.mount hm (rfl : s.sectors = s.sectors)).1 s rfl hs
    exact ⟨.restart, s', rfl, .restart rfl hs hrun⟩

/-- What a first mount holds. -/
theorem represents_mount {c : Core} (hm : Mountable (c.bootSector baseLba) baseLba)
    (hres : 1 ≤ (c.mount baseLba).fs.reservedSectors) (hfats : 1 ≤ (c.mount baseLba).fs.numFats)
    (hwf : (c.mount baseLba).volume.WF ∅) (hcopies : (c.mount baseLba).CopiesAgree)
    (hnamed : (c.mount baseLba).volume.Named) :
    ∃ F, Represents (c.bootSector baseLba) baseLba (c.mount baseLba) F ∧ F.tree = (c.mount baseLba).volume.tree ∧
      F.cwd = [] :=
  ⟨⟨(c.mount baseLba).volume.tree, [], rfl⟩,
    ⟨⟨(mount_wellFormed hm hres hfats hwf).1, mount_synced hcopies, rfl, rfl⟩, rfl, .root _, rfl, hnamed⟩, rfl, rfl⟩

end

/-- An empty volume has names enough. -/
theorem Volume.Blank.named {V : Volume} (b : V.Blank) : V.Named := by
  intro p d hp e he hs
  obtain ⟨q, hq⟩ := b.wf.dirFrom_dir Volume.dir_root hp
  rw [(b.isDir hq).1] at he
  obtain ⟨x, hx, rfl⟩ := List.mem_map.1 he
  exact absurd ⟨hx, fun h => h.1 rfl, Volume.shown_live hs⟩ (b.not_entryAt x)

/-- The driver is a tree of files: every history of calls and restarts, on a disk that does not fail, is one
that the tree allows, with the same answers; and whatever is asked, there is an answer. -/
theorem files_of_history {fuel baseLba : Nat} {s₀ s : State} (hf : 4096 ≤ fuel) (hs₀ : Reliable s₀)
    (hinit : init baseLba s₀ = .ok .ok s) (hres : 1 ≤ s.fs.reservedSectors) (hfats : 1 ≤ s.fs.numFats)
    (hwf : s.toCore.volume.WF ∅) (hcopies : s.toCore.CopiesAgree) (hnamed : s.toCore.volume.Named) :
    ∃ F : Files, F.tree = s.toCore.volume.tree ∧ F.cwd = [] ∧
      (∀ ls s', History (DriverStep fuel baseLba) s ls s' → ∃ F', History Files.Step F ls F' ∧
        F'.tree = s'.toCore.volume.tree) ∧
      ∀ requests : List (Option Call), ∃ ls s', ls.map Event.request = requests ∧
      History (DriverStep fuel baseLba) s ls s' := by
  obtain ⟨hm, hcore, hs⟩ := init_ok hs₀ hinit
  rw [hcore] at hres hfats hwf hcopies hnamed
  obtain ⟨F, hF, htree, hcwd⟩ := represents_mount hm hres hfats hwf hcopies hnamed
  rw [← hcore] at hF htree
  have hkept : ∀ s l s' F, Represents (s₀.toCore.bootSector baseLba) baseLba s.toCore F ∧ Reliable s →
      DriverStep fuel baseLba s l s' → ∃ F', F.Step l F' ∧
      Represents (s₀.toCore.bootSector baseLba) baseLba s'.toCore F' ∧ Reliable s' :=
    fun _ _ _ _ h hstep => h.1.step hf hm h.2 hstep
  refine ⟨F, htree, hcwd, fun ls s' hist => ?_, fun requests => ?_⟩
  · obtain ⟨F', hist', hF', -⟩ := hist.simulate hkept ⟨hF, hs⟩
    exact ⟨F', hist', hF'.tree.symm⟩
  · have htotal : ∀ s r, (∃ F, Represents (s₀.toCore.bootSector baseLba) baseLba s.toCore F ∧ Reliable s) →
        ∃ l s', Event.request l = r ∧ DriverStep fuel baseLba s l s' ∧
          ∃ F, Represents (s₀.toCore.bootSector baseLba) baseLba s'.toCore F ∧ Reliable s' := by
      rintro s r ⟨F, h, hs⟩
      obtain ⟨l, s', hl, hstep⟩ := h.responds hf hm hs r
      obtain ⟨F', -, hF', hs'⟩ := hkept s l s' F ⟨h, hs⟩ hstep
      exact ⟨l, s', hl, hstep, F', hF', hs'⟩
    obtain ⟨ls, s', h1, h2, -⟩ := History.exists htotal ⟨F, hF, hs⟩ requests
    exact ⟨ls, s', h1, h2⟩

theorem files_of_history_blank :
    ∃ s F, init 0 blankState = .ok .ok s ∧ F.cwd = [] ∧
      (∀ ls s', History (DriverStep 4096 0) s ls s' → ∃ F', History Files.Step F ls F' ∧
        F'.tree = s'.toCore.volume.tree) ∧
      ∃ ls s', ls.map Event.request = [some (.change (.createDirectory [68])), none] ∧
      History (DriverStep 4096 0) s ls s' := by
  obtain ⟨s, hs, hcore, -⟩ := init_blank
  have hm := blank_mounted
  obtain ⟨F, -, hcwd, hrefines, htotal⟩ :=
    files_of_history (Nat.le_refl 4096) blank_reliable hs (by rw [hcore]; exact hm.reserved)
      (by rw [hcore]; exact hm.fats) (by rw [hcore]; exact blank_wellFormed.1.wf)
      (by rw [hcore]; exact blank_synced.copiesAgree) (by rw [hcore]; exact blank_volume.named)
  exact ⟨s, F, hs, hcwd, hrefines, htotal _⟩

end AltoniumOS.Fat12

/-
The editor on the file system: the writes it records are those the driver is asked for, with the answers it
gives, so that its file holds the text saved last and nothing else changes; and what is in it when it is left is
what the file holds.
-/
import AltoniumOS.Kernel.Lasting

namespace AltoniumOS.Nano

open AltoniumOS.Lib

section

variable {s s' s₁ : State} {e : Event} {total y : Int}

/-! ## Events without a write -/

theorem Shown.written (h : Shown s s') : s'.written = s.written := by
  obtain ⟨_, _, _, _, _, _, rfl⟩ := h
  rfl

theorem Edited.written (h : Edited s total y s') : s'.written = s.written := by
  obtain ⟨_, _, _, rfl⟩ := h
  rfl

theorem Left.written (h : Left s s') : s'.written = s.written := by
  obtain ⟨_, _, _, _, _, _, rfl⟩ := h
  rfl

/-- Something without a write, then the screen drawn. -/
theorem unwritten_render {m : M Unit} (h : Ends m s fun _ s' => s'.written = s.written) :
    Ends (do m; renderEditor) s fun _ s' => s'.written = s.written :=
  h.bind fun _ _ hw => renderEditor_ends.mono fun _ _ hs => hs.written.trans hw

theorem unwritten_typing (k : UInt16) : Ends (handleTyping k) s fun _ s' => s'.written = s.written := by
  have hinsert : ∀ (c : UInt8) (t : State), Ends (insertChar c) t fun _ s' => s'.written = t.written :=
    fun c t => by
    refine (insertChar_ends c).mono ?_
    rintro - s' (rfl | h)
    · rfl
    · exact h.written
  unfold handleTyping
  dsimp only
  split
  · exact unwritten_render (hinsert _ s)
  · split
    · refine unwritten_render (Ends.forUp (I := fun t : State => t.written = s.written) (fun i t ht => ?_) rfl)
      exact (hinsert space t).mono fun _ _ h => h.trans ht
    · exact .pure rfl

theorem unwritten_key (k : UInt16) : Ends (handleKey k) s fun _ s' => s'.written = s.written := by
  have hscroll : ∀ {m : M Unit}, (Ends m s fun _ s' => Scrolled s s') → Ends (do m; renderEditor) s fun _ s' =>
      s'.written = s.written := fun h =>
    unwritten_render (h.mono fun _ _ ⟨_, _, _, hs⟩ => by rw [hs])
  have hmove : ∀ {m : M Unit}, (Ends m s fun _ s' => ∃ x, s' = { s with cursorX := x }) →
      Ends (do m; renderEditor) s fun _ s' =>
      s'.written = s.written := fun h => unwritten_render (h.mono fun _ _ ⟨_, hs⟩ => by rw [hs])
  unfold handleKey
  split
  · exact exitEditor_discard_ends.mono fun _ _ h => h.written
  · refine unwritten_render (handleBackspace_ends.mono ?_)
    rintro - s' (rfl | h | ⟨-, h⟩)
    · rfl
    · exact h.written
    · exact h.written
  · refine unwritten_render (handleEnter_ends.mono ?_)
    rintro - s' (rfl | ⟨-, h⟩)
    · rfl
    · exact h.written
  iterate 2
    refine unwritten_render (handleDelete_ends.mono ?_)
    rintro - s' (rfl | h | ⟨-, h⟩)
    · rfl
    · exact h.written
    · exact h.written
  iterate 8 exact hscroll (moveCursor_ends _ _)
  iterate 2 exact hmove moveToLineStart_ends
  iterate 2 exact hmove moveToLineEnd_ends
  iterate 4 exact hscroll (pageScroll_ends _)
  exact unwritten_typing _

/-- A save of an unmodified text writes nothing. -/
theorem unwritten_save (hclean : s.dirty = false) : Ends saveFile s fun saved s' => saved = true ∧ s' = s := by
  refine saveFile_ends.mono ?_
  rintro saved s' (⟨-, rfl, rfl⟩ | ⟨hdirty, -⟩)
  · exact ⟨rfl, rfl⟩
  · cases hclean.symm.trans hdirty

/-! ## Saves -/

/-- No event renames the file. -/
theorem Outcome.filename (h : Outcome s e s') : s'.filename = s.filename := by
  have hshown : ∀ {t : State}, Shown t s' → s'.filename = t.filename := by
    rintro t ⟨_, _, _, _, _, _, rfl⟩
    rfl
  cases h with
  | shown h => exact hshown h
  | moved x h => exact (hshown h).trans rfl
  | scrolled hs h =>
    obtain ⟨_, _, -, rfl⟩ := hs
    exact (hshown h).trans rfl
  | edited _ hs h =>
    obtain ⟨_, _, _, rfl⟩ := hs
    exact (hshown h).trans rfl
  | saved _ _ _ _ h => exact (hshown h).trans rfl
  | failed _ _ _ h => exact (hshown h).trans rfl
  | left _ h => exact (hshown h).trans rfl
  | discarded _ h => exact (hshown h).trans rfl

/-- A save of a modified text writes the lines gathered, and the mark tells whether that succeeded. -/
theorem written_save (h : Readable s) (hdirty : s.dirty = true) : Ends saveFile s fun saved s' =>
    s'.written = s.written ++ [⟨s.filename, gather s.text [], s.text, s.outcomes 0⟩] ∧
        (saved = true → s'.dirty = false) := by
  obtain ⟨saved, s', hrun, -, hwritten⟩ := saveFile_meets h
  refine .of_run hrun ⟨hwritten hdirty, fun hsaved => ?_⟩
  rcases saveFile_ends saved s' hrun with ⟨hclean, -, -⟩ | ⟨-, bytes, ⟨-, -, rfl⟩ | ⟨-, rfl, -⟩⟩
  · cases hclean.symm.trans hdirty
  · rfl
  · cases hsaved

end

end AltoniumOS.Nano

namespace AltoniumOS.Kernel

open AltoniumOS.Lib AltoniumOS.Console
open AltoniumOS.Fat12 (Code Call Change Files FileName Represents Reliable)
open AltoniumOS.Nano (handleScancode gather ioBufferSize Readable Sound)

/-! ## The calls of the editor -/

section

variable {s s' : Nano.State} {e : Nano.Event}

/-- An event in which `nano_save_file` makes no call leaves no record of one. -/
theorem unwritten_scancode (h : saves s e = false) :
    Ends (handleScancode e) s fun _ s' => s'.written = s.written := by
  have hmessage : ∀ {t : Nano.State} (msg : String), t.written = s.written →
      Ends (do Nano.setStatusMessage msg; Nano.renderEditor) t fun _ s' => s'.written = s.written := fun msg ht =>
    (Nano.message_ends (.refl _) msg).mono fun _ _ hs => hs.written.trans ht
  unfold handleScancode
  refine .step get_run ?_
  split
  · split
    · exact .step (modify_run _) (.step (modify_run _) (Nano.renderEditor_ends.mono fun _ _ hs => hs.written))
    · exact .pure rfl
  rename_i hh
  have hh : s.helpOverlayVisible = false := by simpa using hh
  split
  · rename_i hp
    split
    · exact .pure rfl
    rename_i hr
    have hr : e.isRelease = false := by simpa using hr
    unfold Nano.handlePrompt
    split
    · exact .step (modify_run _) (Nano.exitEditor_discard_ends.mono fun _ _ hs => hs.written)
    rename_i hesc
    dsimp only
    split
    · rename_i hy
      -- the answer `y` saves nothing, as nothing is marked
      have hclean : s.dirty = false := by
        unfold saves at h
        rw [hh, hr, hp] at h
        simpa [hesc, hy] using h
      have hclosed : ({ s with promptState := .none } : Nano.State).dirty = false := hclean
      refine .step (modify_run _) ((Nano.unwritten_save hclosed).bind ?_)
      rintro saved s₁ ⟨rfl, rfl⟩
      exact (Nano.exitEditor_save_ends hclosed).mono fun _ _ hs => hs.written
    · split
      · exact .step (modify_run _) (Nano.exitEditor_discard_ends.mono fun _ _ hs => hs.written)
      · exact .pure rfl
  rename_i hp
  have hp : s.promptState = .none := by
    cases hs : s.promptState with
    | none => rfl
    | saveConfirm => exact absurd hs hp
  split
  · exact .pure rfl
  rename_i hr
  have hr : e.isRelease = false := by simpa using hr
  split
  · rename_i hkey
    have hclean : s.dirty = false := by
      unfold saves at h
      rw [hh, hr, hp] at h
      simpa [hkey.1, hkey.2] using h
    refine (Nano.unwritten_save hclean).bind ?_
    rintro saved s₁ ⟨rfl, rfl⟩
    exact hmessage "Saved." rfl
  split
  · unfold Nano.handleCtrlExit
    refine .step get_run ?_
    split
    · exact .step (modify_run _) (hmessage _ rfl)
    · rename_i hclean
      exact (Nano.exitEditor_save_ends (by simpa using hclean)).mono fun _ _ hs => hs.written
  split
  · exact .step (modify_run _) (hmessage _ rfl)
  split
  · exact .of_run (modify_run _) rfl
  · exact Nano.unwritten_key _

/-- An event in which it makes one records what it wrote, and how that ended. -/
theorem written_scancode (hs : Readable s) (h : saves s e = true) : Ends (handleScancode e) s fun _ s' =>
    s'.written = s.written ++ [⟨s.filename, gather s.text [], s.text, s.outcomes 0⟩] := by
  unfold saves at h
  simp only [Bool.and_eq_true, Bool.not_eq_true'] at h
  obtain ⟨⟨⟨hdirty, hh⟩, hr⟩, hkey⟩ := h
  unfold handleScancode
  refine .step get_run ?_
  rw [if_neg (by rw [hh]; decide)]
  cases hp : s.promptState with
  | none =>
    rw [hp] at hkey
    simp only [Bool.and_eq_true, beq_iff_eq] at hkey
    rw [if_neg (by decide), if_neg (by rw [hr]; decide), if_pos ⟨hkey.1, hkey.2⟩]
    refine (Nano.written_save hs hdirty).bind fun saved s₁ hsaved => ?_
    cases saved with
    | true => exact (Nano.message_ends (.refl _) "Saved.").mono fun _ _ hshown => hshown.written.trans hsaved.1
    | false =>
      exact (Nano.message_ends (.refl _) "Save failed.").mono fun _ _ hshown => hshown.written.trans hsaved.1
  | saveConfirm =>
    rw [hp] at hkey
    simp only [Bool.and_eq_true, bne_iff_ne, ne_eq, beq_iff_eq] at hkey
    rw [if_pos rfl, if_neg (by rw [hr]; decide)]
    unfold Nano.handlePrompt
    rw [if_neg hkey.1]
    dsimp only
    rw [if_pos hkey.2]
    have hclosed : Readable { s with promptState := .none } := ⟨hs.total, hs.length⟩
    refine .step (modify_run _) ((Nano.written_save hclosed hdirty).bind fun saved s₁ hsaved => ?_)
    cases saved with
    | true => exact (Nano.exitEditor_save_ends (hsaved.2 rfl)).mono fun _ _ hleft => hleft.written.trans hsaved.1
    | false =>
      exact (Nano.message_ends (.refl _) "Save failed.").mono fun _ _ hshown => hshown.written.trans hsaved.1

end

/-- What a key of the editor does to a tree: nothing, or one write, of the lines gathered, that ends as recorded. -/
theorem nanoHandleScancode_means {F F' : Files} {desk : Desk} {e : Nano.Event} {res : Option Desk}
    (hs : Sound desk.editor) (hr : (nanoHandleScancode e desk).Runs Tree F res F') :
    ∃ desk' o, res = some desk' ∧
      handleScancode e { desk.editor with outcomes := o } = some ((), desk'.editor) ∧ Sound desk'.editor ∧
      (desk'.editor.written = desk.editor.written ∧ F' = F ∨
        ∃ data result, Files.bytesOf (some data) (gather desk.editor.text []).length =
          gather desk.editor.text [] ∧
        desk'.editor.written =
          desk.editor.written ++ [⟨desk.editor.filename, gather desk.editor.text [], desk.editor.text, result⟩] ∧
        F.Changes (.writeFile desk.editor.filename (some data) (gather desk.editor.text []).length) result F') := by
  have hruns : ∀ o, ∃ s', handleScancode e { desk.editor with outcomes := o } = some ((), s') ∧
      Sound s' := fun o => by
    have hsound : Sound { desk.editor with outcomes := o } := ⟨hs.total, hs.cursorY, hs.cursorX, hs.row⟩
    obtain ⟨⟨⟩, s', hrun, hs'⟩ := Nano.stable_sound.scancode hsound e
    exact ⟨s', hrun, hs'⟩
  unfold nanoHandleScancode at hr
  cases hsaves : saves desk.editor e with
  | false =>
    rw [hsaves, if_neg Bool.false_ne_true] at hr
    obtain ⟨rfl, rfl⟩ := Client.runs_pure.1 hr
    obtain ⟨s', hrun, hs'⟩ := hruns desk.editor.outcomes
    have hsame : handleScancode e desk.editor = some ((), s') := hrun
    rw [hsame]
    exact ⟨_, desk.editor.outcomes, rfl, hrun, hs', .inl ⟨unwritten_scancode hsaves _ _ hsame, rfl⟩⟩
  | true =>
    have hread : Readable desk.editor := hs.bounds.readable
    have hcollect := Nano.collect_run hread (n := desk.editor.totalLines.toNat) (i := 0) [] (by omega)
    rw [Nat.cast_zero, ← List.range_eq_range'] at hcollect
    rw [hsaves, if_pos rfl, hcollect] at hr
    obtain ⟨result, F₁, hcall, hrest⟩ := Client.runs_bind.1 hr
    obtain ⟨rfl, rfl⟩ := Client.runs_pure.1 hrest
    obtain ⟨s', hrun, hs'⟩ := hruns fun _ => result
    rw [hrun]
    refine ⟨_, fun _ => result, rfl, hrun, hs',
      .inr ⟨_, result, bytesOf_overwrite _ desk.fsIoBuffer, ?_, Client.runs_request.1 hcall⟩⟩
    have hread' : Readable { desk.editor with outcomes := fun _ => result } := ⟨hread.total, hread.length⟩
    exact written_scancode hread' hsaves _ _ hrun

/-! ## What the file holds -/

/-- The text at the last write that succeeded. -/
def savedText (ws : List Nano.Write) : Option (List (List UInt8)) :=
  (ws.filter fun w => w.result = .ok).getLast?.map Nano.Write.text

theorem savedText_snoc (ws : List Nano.Write) (w : Nano.Write) :
    savedText (ws ++ [w]) = if w.result = .ok then some w.text else savedText ws := by
  unfold savedText
  rw [List.filter_append]
  by_cases hw : w.result = .ok
  · rw [if_pos hw, List.filter_singleton, decide_eq_true hw, cond_true, List.getLast?_concat, Option.map_some]
  · rw [if_neg hw, List.filter_singleton, decide_eq_false hw, cond_false, List.append_nil]

/-- The tree `F` is `F₀` with the lines of a text in the file at `path`, or `F₀` itself. -/
def Stores (F₀ F : Files) (path : List UInt8) : Option (List (List UInt8)) → Prop
  | none => F = F₀
  | some text => ∃ p n, F₀.target path = .ok (p, n) ∧ F₀.tree.node (p ++ [n]) ≠ some .dir ∧ F.cwd = F₀.cwd ∧
    ∀ q, F.tree.node q = if q = p ++ [n] then some (.file (gather text [])) else F₀.tree.node q

section

variable {F₀ F F' : Files} {path : List UInt8} {saved : Option (List (List UInt8))} {text : List (List UInt8)}

/-- A write of the lines of a text. -/
theorem Stores.write (h : Stores F₀ F path saved) {data : Buf} {e : Code}
    (hdata : Files.bytesOf (some data) (gather text []).length = gather text [])
    (hw : F.Changes (.writeFile path (some data) (gather text []).length) e F') :
    Stores F₀ F' path (if e = .ok then some text else saved) := by
  by_cases he : e = .ok
  · subst he
    rw [if_pos rfl]
    obtain ⟨p, n, ht, hdir, hcwd, hnode⟩ := Files.written hw
    rw [hdata] at hnode
    cases saved with
    | none =>
      obtain rfl : F = F₀ := h
      exact ⟨p, n, ht, hdir, hcwd, hnode⟩
    | some old =>
      obtain ⟨p₀, n₀, ht₀, hdir₀, hcwd₀, hnode₀⟩ := h
      -- the path denotes the name that it did
      have hdirs : ∀ q, F₀.tree.node q = some .dir → F.tree.node q = some .dir := fun q hq => by
        rw [hnode₀, if_neg]
        · exact hq
        · rintro rfl
          exact hdir₀ hq
      obtain ⟨rfl, rfl⟩ := Prod.mk.inj (Except.ok.inj (ht.symm.trans (Files.target_mono hdirs hcwd₀ ht₀)))
      refine ⟨p, n, ht₀, hdir₀, hcwd.trans hcwd₀, fun q => ?_⟩
      rw [hnode, hnode₀]
      split <;> rfl
  · rw [if_neg he, Files.changes_failed hw he]
    exact h

end

/-- The editor since it was opened on a tree: the writes made, and what they left in the file. -/
structure Editing (F₀ : Files) (s₀ : Nano.State) (F : Files) (s : Nano.State) (ws : List Nano.Write) : Prop where
  sound : Sound s
  written : s.written = s₀.written ++ ws
  filename : s.filename = s₀.filename
  stores : Stores F₀ F s₀.filename (savedText ws)
  kept : s.editorActive = true → Nano.Kept s₀ s ws

section

variable {F₀ F F' : Files} {s₀ : Nano.State} {desk : Desk} {e : Nano.Event} {res : Option Desk}
  {ws : List Nano.Write}

/-- One more key. -/
theorem Editing.key (h : Editing F₀ s₀ F desk.editor ws) (hactive : desk.editor.editorActive = true)
    (hr : (nanoHandleScancode e desk).Runs Tree F res F') :
    ∃ desk' new, res = some desk' ∧ Editing F₀ s₀ F' desk'.editor (ws ++ new) ∧
      (desk'.editor.editorActive = false → ¬ Nano.Discards desk.editor e →
        desk'.editor.text = Nano.lastSaved s₀.text (ws ++ new)) := by
  obtain ⟨desk', o, rfl, hrun, hsound, hcalls⟩ := nanoHandleScancode_means h.sound hr
  have houtcome := Nano.handleScancode_ends _ _ hrun
  have hkept : Nano.Kept s₀ { desk.editor with outcomes := o } ws := h.kept hactive
  obtain ⟨new, hnew⟩ := houtcome.keeps hkept hactive
  have hwritten : desk'.editor.written = desk.editor.written ++ new := hnew.written
  refine ⟨desk', new, rfl, ⟨hsound, ?_, ?_, ?_, fun ha => hnew.kept (.inl ha)⟩, fun hoff hnot => ?_⟩
  · rw [hwritten, h.written, List.append_assoc]
  · exact houtcome.filename.trans h.filename
  · rcases hcalls with ⟨hsame, rfl⟩ | ⟨data, result, hdata, hone, hw⟩
    · rw [hwritten, List.append_right_eq_self] at hsame
      rw [hsame, List.append_nil]
      exact h.stores
    · rw [hwritten, List.append_cancel_left_eq] at hone
      rw [hone, savedText_snoc]
      rw [h.filename] at hw
      exact h.stores.write hdata hw
  · rcases (hnew.kept (.inr hnot)).2 with hdirty | htext
    · cases (hnew.clean hoff).symm.trans hdirty
    · exact htext

end

/-! ## Sessions -/

/-- A key of the editor on the driver, while it is active. -/
def EditorKey (fuel : Nat) (a : Desk × Fat12.State) (e : Nano.Event) (b : Desk × Fat12.State) : Prop :=
  a.1.editor.editorActive = true ∧ (nanoHandleScancode e a.1).Runs (Driver fuel) a.2 (some b.1) b.2

section

variable {fuel : Nat} {boot buffer buffer' : Buf} {current : Fin themeCount} {path : List UInt8} {F : Files}
  {s₀ s s₁ s₂ : Fat12.State} {editor opened : Nano.State} {out : List Output} {desk desk₁ : Desk}
  {es : List Nano.Event} {e : Nano.Event} {res : Option Desk}

/-- The editor opened on a tree. -/
theorem editing_of_open (hf : 4096 ≤ fuel) (hF : Represents boot 0 s₀.toCore F) (hs : Reliable s₀)
    (hopen : (nanoInitEditor current path buffer editor).Runs (Driver fuel) s₀ (some (opened, buffer', out)) s)
    (hline : 1 ≤ opened.totalLines) :
    Represents boot 0 s.toCore F ∧ Reliable s ∧ opened.filename = path ∧ Editing F opened F opened [] := by
  obtain ⟨F₁, htree, hF₁, hs₁⟩ := hopen.simulate (tree_answers hf) ⟨hF, hs⟩
  obtain ⟨a, F₂, hcall, hrest⟩ := Client.runs_bind.1 htree
  obtain ⟨hres, rfl⟩ := Client.runs_pure.1 hrest
  obtain ⟨rfl, -⟩ := Client.runs_request.1 hcall
  obtain ⟨⟨⟨⟩, t⟩, hload, ht⟩ := Option.map_eq_some_iff.1 hres.symm
  obtain ⟨rfl, -⟩ := Prod.mk.inj ht
  have hmeets : Meets (Nano.initEditor path a.1 (a.2.1.getD buffer) (a.2.2.getD 0)) { editor with theme := current }
    _ := Nano.initEditor_meets
  obtain ⟨⟨⟩, t', hrun, -, hname, -⟩ := hmeets
  cases hload.symm.trans hrun
  exact ⟨hF₁, hs₁, hname, Nano.sound_of_load hload hline, (List.append_nil _).symm, rfl, rfl,
    fun _ => ⟨(List.append_nil _).symm, .inr rfl⟩⟩

/-- At every moment of a session the file of the editor holds the text saved last, or what it held when it was
opened, and nothing else has changed. -/
theorem editing_of_history (hf : 4096 ≤ fuel) (hF : Represents boot 0 s.toCore F) (hs : Reliable s)
    (hopen : Editing F opened F desk.editor []) (hist : History (EditorKey fuel) (desk, s) es (desk₁, s₁)) :
    ∃ F₁ ws, Represents boot 0 s₁.toCore F₁ ∧ Reliable s₁ ∧ Editing F opened F₁ desk₁.editor ws := by
  have hkeeps : ∀ (a : Desk × Fat12.State) e b,
      (∃ F₁ ws, Represents boot 0 a.2.toCore F₁ ∧ Reliable a.2 ∧ Editing F opened F₁ a.1.editor ws) →
      EditorKey fuel a e b → ∃ F₁ ws, Represents boot 0 b.2.toCore F₁ ∧ Reliable b.2 ∧
      Editing F opened F₁ b.1.editor ws := by
    rintro a e b ⟨F₁, ws, hF₁, ha, hedit⟩ ⟨hactive, hrun⟩
    obtain ⟨F₂, htree, hF₂, hb⟩ := hrun.simulate (tree_answers hf) ⟨hF₁, ha⟩
    obtain ⟨desk', new, hres, hedit', -⟩ := hedit.key hactive htree
    cases hres
    exact ⟨F₂, ws ++ new, hF₂, hb, hedit'⟩
  exact hist.keeps hkeeps ⟨F, [], hF, hs, hopen⟩

/-- What cannot be read is opened as an empty line. -/
theorem opens_unread {fuel : Nat} {boot buffer : Buf} {F : Files} {s : Fat12.State} {path : List UInt8} {e : Code}
    (hf : 4096 ≤ fuel) (hF : Represents boot 0 s.toCore F) (hs : Reliable s)
    (hunread : F.contents path (ioBufferSize - 1) = .error e) (current : Fin themeCount) (editor : Nano.State) :
    ∃ opened out s',
      (nanoInitEditor current path buffer editor).Runs (Driver fuel) s (some (opened, buffer, out)) s' ∧
      1 ≤ opened.totalLines ∧
        Nano.initEditor path e buffer 0 { editor with theme := current } = some ((), opened) := by
  have hanswers : ∀ t q, (∃ F, Represents boot 0 t.toCore F ∧ Reliable t) → _ := driver_answers hf
  obtain ⟨r, s', hopen, -⟩ := Client.Runs.exists hanswers (nanoInitEditor current path buffer editor) ⟨F, hF, hs⟩
  obtain ⟨F₁, htree, -, -⟩ := hopen.simulate (tree_answers hf) ⟨hF, hs⟩
  obtain ⟨a, F₂, hcall, hrest⟩ := Client.runs_bind.1 htree
  have hread := (Client.runs_request.1 hcall).2
  change a = F.read path buffer (ioBufferSize - 1) at hread
  rw [Files.read_eq, hunread] at hread
  obtain rfl : a = (e, some buffer, none) := hread
  obtain ⟨opened, hrun, hholds, -, -⟩ := Nano.initEditor_run { editor with theme := current } path e buffer 0
  have hfailed : e ≠ .ok := by
    rintro rfl
    exact Files.contents_ne_ok hunread
  rw [Nano.loadedLines_failed hfailed] at hholds
  obtain ⟨hr, -⟩ := Client.runs_pure.1 hrest
  change r = (Nano.initEditor path e buffer 0 { editor with theme := current }).map _ at hr
  rw [hrun] at hr
  subst hr
  exact ⟨opened, _, s', hopen, by rw [hholds.total]; decide, hrun⟩

/-- The file of an editor that is left with `text`: it has what the last save handed over of the text, all of it
where the I/O buffer takes it; or, if nothing was saved, what it had, and the text is as it was opened. -/
def FileOnLeaving (F F' : Files) (path : List UInt8) (opened text : List (List UInt8)) :
    Option (List (List UInt8)) → Prop
  | none => F' = F ∧ text = opened
  | some _ => ∃ p n, F.target path = .ok (p, n) ∧ F'.tree.node (p ++ [n]) = some (.file (gather text [])) ∧
      ((Nano.unlines text).length ≤ ioBufferSize - 1 → gather text [] = Nano.unlines text)

theorem Stores.onLeaving {F F' : Files} {saved : Option (List (List UInt8))} {opened text : List (List UInt8)}
    (h : Stores F F' path saved) (htext : text = saved.getD opened) :
    FileOnLeaving F F' path opened text saved := by
  cases saved with
  | none => exact ⟨h, htext⟩
  | some kept =>
    obtain rfl : text = kept := htext
    obtain ⟨p, n, ht, -, -, hnodes⟩ := h
    exact ⟨p, n, ht, (hnodes _).trans (if_pos rfl), (Nano.gather_eq_iff text).2⟩

/-- Whatever is typed in the editor after it has opened a file, the file has what the last save handed over, or
what it had, and nothing else has changed; and unless the changes were thrown away, that is the text in the
editor when it is left. -/
theorem stored_on_leaving (hf : 4096 ≤ fuel) (hF : Represents boot 0 s₀.toCore F) (hs : Reliable s₀)
    (hopen : (nanoInitEditor current path buffer editor).Runs (Driver fuel) s₀ (some (opened, buffer', out)) s)
    (hline : 1 ≤ opened.totalLines) (hdesk : desk.editor = opened)
    (hist : History (EditorKey fuel) (desk, s) es (desk₁, s₁)) (hactive : desk₁.editor.editorActive = true)
    (hkey : (nanoHandleScancode e desk₁).Runs (Driver fuel) s₁ res s₂) :
    ∃ desk₂ ws F₂, res = some desk₂ ∧ desk₂.editor.written = opened.written ++ ws ∧
      Represents boot 0 s₂.toCore F₂ ∧ Stores F F₂ path (savedText ws) ∧
      (desk₂.editor.editorActive = false → ¬ Nano.Discards desk₁.editor e →
        FileOnLeaving F F₂ path opened.text desk₂.editor.text (savedText ws)) := by
  obtain ⟨hF', hs', hname, hedit⟩ := editing_of_open hf hF hs hopen hline
  rw [← hdesk] at hedit
  obtain ⟨F₁, ws, hF₁, hs₁, hedit₁⟩ := editing_of_history hf hF' hs' hedit hist
  obtain ⟨F₂, htree, hF₂, -⟩ := hkey.simulate (tree_answers hf) ⟨hF₁, hs₁⟩
  obtain ⟨desk₂, new, hres, hedit₂, hleft⟩ := hedit₁.key hactive htree
  rw [hdesk] at hedit₂ hleft
  have hstores : Stores F F₂ path (savedText (ws ++ new)) := by
    rw [← hname]
    exact hedit₂.stores
  exact ⟨desk₂, ws ++ new, F₂, hres, hedit₂.written, hF₂, hstores, fun hoff hnot =>
    hstores.onLeaving (hleft hoff hnot)⟩

end

/-- The editor opened on a name `A` that nothing has, and with a letter typed then. -/
@[irreducible] def onNew : Nano.State :=
  endOf (Nano.initEditor (ascii "/A") .errNotFound (fun _ => 0) 0) { Nano.State.unused with theme := 0 }

@[irreducible] def editedNew : Nano.State := endOf (handleScancode ⟨false, 0x1E, false⟩) onNew

/-- A letter typed in the editor opened on a name that nothing has, and Ctrl+S: the line of the letter is
written. -/
theorem stored_on_leaving_blank :
    ∃ opened buffer out s desk₂ ws F F₂ s₂,
      (nanoInitEditor 0 (ascii "/A") (fun _ => 0) Nano.State.unused).Runs (Driver 4096) Fat12.blankMounted
        (some (opened, buffer, out)) s ∧
      History (EditorKey 4096) ({ readyDesk with editor := opened }, s) [⟨false, 0x1E, false⟩]
        ({ readyDesk with editor := editedNew }, s) ∧
      (nanoHandleScancode ⟨true, 0x1F, false⟩ { readyDesk with editor := editedNew }).Runs (Driver 4096) s
        (some desk₂) s₂ ∧
      saves editedNew ⟨true, 0x1F, false⟩ = true ∧ editedNew.text = [[0x61]] ∧
      Represents (Fat12.blankState.toCore.bootSector 0) 0 s₂.toCore F₂ ∧
      Stores F F₂ (ascii "/A") (savedText ws) := by
  obtain ⟨F, hF⟩ := blank_represents
  have hmissing : F.contents (ascii "/A") (ioBufferSize - 1) = .error .errNotFound := by
    refine Files.contents_missing (target_A F) ?_
    have hnode : F.tree.node ([] ++ [nameA]) = Fat12.blankMounted.toCore.volume.node ([] ++ [nameA]) := hF.node _
    rw [hnode, Fat12.Volume.node_snoc]
    show (Fat12.blankMounted.toCore.volume.find 0 nameA.1).map Fat12.blankMounted.toCore.volume.nodeOf = none
    rw [Fat12.blank_volume.find]
    rfl
  obtain ⟨opened, out, s, hopen, hline, hinit⟩ :=
    opens_unread (Nat.le_refl 4096) hF Fat12.blank_reliable hmissing 0 Nano.State.unused
  obtain rfl : opened = onNew := by
    unfold onNew
    exact eq_endOf hinit
  obtain ⟨hF', hs', -⟩ := editing_of_open (Nat.le_refl 4096) hF Fat12.blank_reliable hopen hline
  -- the letter asks nothing of the file system
  have hfacts : saves onNew ⟨false, 0x1E, false⟩ = false ∧ onNew.editorActive = true ∧
      (handleScancode ⟨false, 0x1E, false⟩ onNew).isSome = true ∧ editedNew.editorActive = true ∧
      saves editedNew ⟨true, 0x1F, false⟩ = true ∧ editedNew.text = [[0x61]] := by decide +kernel
  obtain ⟨hquiet, hactive, hruns, hactive', hsaves, htext⟩ := hfacts
  have hedited : handleScancode ⟨false, 0x1E, false⟩ onNew = some ((), editedNew) := by
    unfold editedNew
    exact run_endOf hruns
  have htyped : EditorKey 4096 ({ readyDesk with editor := onNew }, s) ⟨false, 0x1E, false⟩
      ({ readyDesk with editor := editedNew }, s) := by
    refine ⟨hactive, ?_⟩
    unfold nanoHandleScancode
    rw [if_neg (by rw [show ({ readyDesk with editor := onNew } : Desk).editor = onNew from rfl, hquiet]; decide)]
    show Client.Runs _ (pure ((handleScancode ⟨false, 0x1E, false⟩ onNew).map _)) s _ s
    rw [hedited]
    exact .done _ _
  have hist : History (EditorKey 4096) ({ readyDesk with editor := onNew }, s) [⟨false, 0x1E, false⟩]
      ({ readyDesk with editor := editedNew }, s) := .snoc (.nil _) htyped
  -- and Ctrl+S is answered
  have hanswers : ∀ t q, (∃ F, Represents (Fat12.blankState.toCore.bootSector 0) 0 t.toCore F ∧ Reliable t) → _ :=
    driver_answers (Nat.le_refl 4096)
  obtain ⟨res, s₂, hkey, -⟩ :=
    Client.Runs.exists hanswers (nanoHandleScancode ⟨true, 0x1F, false⟩ { readyDesk with editor := editedNew })
      ⟨F, hF', hs'⟩
  obtain ⟨desk₂, ws, F₂, rfl, -, hF₂, hstores, -⟩ :=
    stored_on_leaving (Nat.le_refl 4096) hF Fat12.blank_reliable hopen hline rfl hist hactive' hkey
  exact ⟨onNew, _, out, s, desk₂, ws, F, F₂, s₂, hopen, hist, hkey, hsaves, htext, hF₂, hstores⟩

end AltoniumOS.Kernel

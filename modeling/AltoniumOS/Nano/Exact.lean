/-
What the edits do to the text, exactly. With the lines joined by newlines to one string, and the cursor an
offset in it, Enter, Backspace and Delete insert and erase one character of that string; a character typed
into a line leaves all others there, unless the line is full.
-/
import AltoniumOS.Lib.Joined
import AltoniumOS.Nano.Load

namespace AltoniumOS.Nano

open AltoniumOS.Lib

/-! ## Texts -/

namespace Text

variable (t : Text)

/-- The text as one string. -/
def content : List UInt8 := joined newline t.lines

/-- The place of the cursor in it. -/
def offset : Nat := begins t.lines t.y + t.x

/-- Lines `k` and `k + 1` fit one line. -/
abbrev JoinFits (k : Nat) : Prop := (t.line k).length + (t.line (k + 1)).length < maxLineLength

variable {t} {k : Nat}

theorem exists_lines (h : k < t.lines.length) : ∃ pre post, t.lines = pre ++ t.line k :: post ∧ pre.length = k :=
  exists_around h

theorem exists_lines_cur (t : Text) : ∃ pre post, t.lines = pre ++ t.cur :: post ∧ pre.length = t.y :=
  exists_lines t.y_lt

theorem begins_succ (h : k < t.lines.length) :
    begins t.lines (k + 1) = begins t.lines k + (t.line k).length + 1 := by
  have hget : t.lines[k]? = some (t.line k) := by
    unfold line
    rw [List.getD_eq_getElem?_getD, List.getElem?_eq_getElem h, Option.getD_some]
  unfold begins
  rw [List.take_add_one, hget]
  simp [Nat.add_assoc]

theorem offset_eq_zero : t.offset = 0 ↔ t.y = 0 ∧ t.x = 0 := by
  constructor
  · intro h
    have hx : t.x = 0 := by unfold offset at h; omega
    refine ⟨?_, hx⟩
    by_contra hy
    have hlt := t.y_lt
    have hprev := begins_succ (t := t) (k := t.y - 1) (by omega)
    rw [Nat.sub_add_cancel (by omega)] at hprev
    unfold offset at h
    omega
  · rintro ⟨hy, hx⟩
    rw [offset, hy, hx, begins_zero]

theorem offset_eq_length : t.offset = t.content.length ↔ t.y + 1 = t.lines.length ∧ t.x = t.cur.length := by
  have hx := t.x_le_cur
  obtain ⟨pre, post, hlines, hpre⟩ := t.exists_lines_cur
  have hcontent :
      t.content.length = begins t.lines t.y + (t.cur.length + (post.flatMap (newline :: ·)).length) := by
    unfold content
    rw [hlines, joined_around, ← hpre, begins_append newline, List.length_append, List.length_append]
  have hlength : t.lines.length = t.y + 1 + post.length := by
    rw [hlines]
    simp [hpre]
    omega
  have hpost : (post.flatMap (newline :: ·)).length = 0 ↔ post.length = 0 := by
    cases post with
    | nil => simp
    | cons l post => simp
  rw [hcontent, offset]
  omega

theorem offset_le : t.offset ≤ t.content.length := by
  have hx := t.x_le_cur
  obtain ⟨pre, post, hlines, hpre⟩ := t.exists_lines_cur
  unfold content offset
  rw [hlines, joined_around, ← hpre, begins_append newline, List.length_append, List.length_append]
  omega

/-! ## Edits -/

theorem erase_exact {i : Nat} (h : i < t.cur.length) :
    (t.erase i h).content = t.content.eraseIdx (begins t.lines t.y + i) ∧
      (t.erase i h).offset = begins t.lines t.y + i := by
  obtain ⟨pre, post, hlines, hpre⟩ := t.exists_lines_cur
  have hnew : (t.erase i h).lines = pre ++ t.cur.eraseIdx i :: post := by
    show t.lines.set t.y _ = _
    rw [hlines, ← hpre, set_around]
  have hbegins : begins (t.erase i h).lines t.y = begins t.lines t.y := by
    rw [hnew, hlines, ← hpre, begins_append newline, begins_append newline]
  constructor
  · unfold content
    rw [hnew, joined_eraseIdx newline h, hlines, ← hpre]
  · unfold offset
    rw [show (t.erase i h).y = t.y from rfl, hbegins]
    rfl

theorem split_exact (h : t.lines.length < maxLines) :
    (t.split h).content = t.content.insertIdx t.offset newline ∧ (t.split h).offset = t.offset + 1 := by
  obtain ⟨pre, post, hlines, hpre⟩ := t.exists_lines_cur
  have hnew : (t.split h).lines = pre ++ t.cur.take t.x :: t.cur.drop t.x :: post := by
    show (t.lines.set t.y (t.cur.take t.x)).insertIdx (t.y + 1) (t.cur.drop t.x) = _
    have hlen : (pre ++ [t.cur.take t.x]).length = t.y + 1 := by simp [hpre]
    rw [hlines, ← hpre, set_around, hpre, ← hlen, List.append_cons, insertIdx_between]
    simp
  constructor
  · unfold content offset
    rw [hnew, joined_break newline t.x_le_cur, hlines, ← hpre]
  · have hfirst : (t.split h).line t.y = t.cur.take t.x := by rw [line_split, if_pos rfl]
    have hsame : begins (t.split h).lines t.y = begins t.lines t.y := by
      rw [hnew, hlines, ← hpre, begins_append newline, begins_append newline]
    unfold offset
    show begins (t.split h).lines (t.y + 1) + 0 = _
    rw [begins_succ (by rw [length_split]; have := t.y_lt; omega), hsame, hfirst, List.length_take_of_le t.x_le_cur]

theorem join_exact (h : k + 1 < t.lines.length) (hfit : t.JoinFits k) :
    (t.join k h hfit).content = t.content.eraseIdx (begins t.lines (k + 1) - 1) ∧
      (t.join k h hfit).offset = begins t.lines (k + 1) - 1 := by
  obtain ⟨pre, post', hlines, hpre⟩ := exists_lines (t := t) (k := k) (by omega)
  -- the line to be joined is the next one
  obtain ⟨m, post, rfl⟩ : ∃ m post, post' = m :: post := by
    refine List.exists_cons_of_ne_nil fun hnil => ?_
    rw [hlines, hnil] at h
    simp [hpre] at h
  have hm : t.line (k + 1) = m := by
    have hlen : pre.length ≤ k + 1 := by omega
    unfold line
    rw [hlines, List.getD_eq_getElem?_getD, List.getElem?_append_right hlen, hpre]
    simp
  have hnew : (t.join k h hfit).lines = pre ++ (t.line k ++ m) :: post := by
    show (t.lines.set k (t.line k ++ t.line (k + 1))).eraseIdx (k + 1) = _
    rw [hm]
    conv_lhs => rw [hlines]
    rw [← hpre, set_around, List.eraseIdx_append_of_length_le (by omega), Nat.add_sub_cancel_left]
    rfl
  have hplace : begins t.lines (k + 1) - 1 = begins t.lines k + (t.line k).length := by
    rw [begins_succ (by omega)]
    omega
  have hsame : begins (t.join k h hfit).lines k = begins t.lines k := by
    rw [hnew]
    conv_rhs => rw [hlines]
    rw [← hpre, begins_append newline, begins_append newline]
  rw [hplace]
  constructor
  · unfold content
    rw [hnew, joined_merge]
    conv_rhs => rw [hlines]
    rw [hpre]
  · show begins (t.join k h hfit).lines k + (t.line k).length = _
    rw [hsame]

/-- There is no character before the cursor, or it is a newline and the joined line would not fit. -/
def NoBackspace (t : Text) : Prop := t.offset = 0 ∨ t.x = 0 ∧ 0 < t.y ∧ ¬ t.JoinFits (t.y - 1)

/-- There is no character at the cursor, or it is a newline and the joined line would not fit. -/
def NoDelete (t : Text) : Prop :=
  t.offset = t.content.length ∨ t.x = t.cur.length ∧ t.y + 1 < t.lines.length ∧ ¬ t.JoinFits t.y

theorem backspace_refused (h : t.NoBackspace) : t.backspace = t := by
  unfold NoBackspace at h
  rw [offset_eq_zero] at h
  unfold backspace
  rw [dif_neg (by omega), dif_neg]
  rintro ⟨hy, hfit⟩
  rcases h with h | h
  · omega
  · exact h.2.2 hfit

theorem backspace_exact (h : ¬ t.NoBackspace) :
    t.backspace.content = t.content.eraseIdx (t.offset - 1) ∧ t.backspace.offset = t.offset - 1 := by
  unfold NoBackspace at h
  rw [offset_eq_zero] at h
  have hxle := t.x_le_cur
  have hylt := t.y_lt
  unfold backspace
  by_cases hx : 0 < t.x
  · have hoff : t.offset - 1 = begins t.lines t.y + (t.x - 1) := by
      unfold offset
      omega
    rw [dif_pos hx, hoff]
    exact erase_exact _
  · have hy : 0 < t.y := by omega
    have hfit : t.JoinFits (t.y - 1) := by
      by_contra hno
      exact h (.inr ⟨by omega, hy, hno⟩)
    have hoff : t.offset - 1 = begins t.lines (t.y - 1 + 1) - 1 := by
      rw [Nat.sub_add_cancel hy]
      unfold offset
      omega
    rw [dif_neg hx, dif_pos ⟨hy, hfit⟩, hoff]
    exact join_exact _ hfit

theorem delete_refused (h : t.NoDelete) : t.delete = t := by
  unfold NoDelete at h
  rw [offset_eq_length] at h
  have hxle := t.x_le_cur
  unfold delete
  rw [dif_neg (by omega), dif_neg]
  rintro ⟨hy, hfit⟩
  rcases h with h | h
  · omega
  · exact h.2.2 hfit

theorem delete_exact (h : ¬ t.NoDelete) :
    t.delete.content = t.content.eraseIdx t.offset ∧ t.delete.offset = t.offset := by
  unfold NoDelete at h
  rw [offset_eq_length] at h
  have hxle := t.x_le_cur
  have hylt := t.y_lt
  unfold delete
  by_cases hin : t.x < t.cur.length
  · rw [dif_pos hin]
    exact erase_exact hin
  · have hn : t.y + 1 < t.lines.length := by omega
    have hfit : t.JoinFits t.y := by
      by_contra hno
      exact h (.inr ⟨by omega, hn, hno⟩)
    have hoff : t.offset = begins t.lines (t.y + 1) - 1 := by
      have hx : t.x = (t.line t.y).length :=
        Nat.le_antisymm hxle (by change ¬ t.x < (t.line t.y).length at hin; omega)
      rw [begins_succ hylt, offset, hx]
      omega
    rw [dif_neg hin, dif_pos ⟨hn, hfit⟩, hoff]
    exact join_exact hn hfit

theorem lines_ext {t t' : Text} (hlen : t.lines.length = t'.lines.length) (h : ∀ m, t.line m = t'.line m) :
    t.lines = t'.lines := by
  refine List.ext_getElem hlen fun m hm hm' => ?_
  have hline := h m
  unfold line at hline
  rwa [List.getD_eq_getElem?_getD, List.getElem?_eq_getElem hm, List.getD_eq_getElem?_getD,
    List.getElem?_eq_getElem hm'] at hline

/-- The halves of a line fit one line. -/
theorem backspace_split (h : t.lines.length < maxLines) : (t.split h).backspace = t := by
  have hy := t.y_lt
  have hcur : (t.split h).line t.y = t.cur.take t.x := by rw [line_split, if_pos rfl]
  have hnext : (t.split h).line (t.y + 1) = t.cur.drop t.x := by rw [line_split, if_neg (by omega), if_pos rfl]
  have hfits : (t.split h).JoinFits t.y := by
    have hmax := (isLine_cur (t := t)).length
    unfold JoinFits
    rw [hcur, hnext, ← List.length_append, List.take_append_drop]
    exact hmax
  have hlt : t.y + 1 < (t.split h).lines.length := by
    rw [length_split]
    omega
  have hback : (t.split h).backspace = (t.split h).join t.y hlt hfits := by
    unfold backspace
    rw [dif_neg (show ¬ 0 < (t.split h).x from Nat.lt_irrefl 0)]
    exact dif_pos (⟨Nat.succ_pos _, hfits⟩ : 0 < (t.split h).y ∧ (t.split h).JoinFits t.y)
  rw [hback]
  refine Text.ext (lines_ext ?_ fun m => ?_) ?_ rfl
  · rw [length_join, length_split]
    rfl
  · rw [line_join, hcur, hnext, List.take_append_drop]
    simp only [line_split]
    unfold cur
    grind
  · show ((t.split h).line t.y).length = t.x
    rw [hcur, List.length_take_of_le t.x_le_cur]

end Text

/-! ## States -/

/-- The text as one string. -/
def State.content (s : State) : List UInt8 := joined newline s.text

/-- The place of the cursor in it. -/
def State.offset (s : State) : Nat := begins s.text s.cursorY.toNat + s.cursorX.toNat

/-- Lines `k` and `k + 1` fit one line. -/
def State.JoinFits (s : State) (k : Nat) : Prop := s.lineLengths k + s.lineLengths (k + 1) < maxLineLength

/-- There is no character before the cursor, or it is a newline and the joined line would not fit. -/
def State.NoBackspace (s : State) : Prop :=
  s.offset = 0 ∨ s.cursorX = 0 ∧ 0 < s.cursorY ∧ ¬ s.JoinFits (s.cursorY.toNat - 1)

/-- There is no character at the cursor, or it is a newline and the joined line would not fit. -/
def State.NoDelete (s : State) : Prop :=
  s.offset = s.content.length ∨
    s.cursorX = s.lineLengths s.cursorY.toNat ∧ s.cursorY + 1 < s.totalLines ∧ ¬ s.JoinFits s.cursorY.toNat

/-- Text and cursor are the same. -/
structure Unchanged (s s' : State) : Prop where
  text : s'.text = s.text
  cursorX : s'.cursorX = s.cursorX
  cursorY : s'.cursorY = s.cursorY

/-- Enter, Backspace and Delete edit the one string. -/
structure ExactEdits (s : State) : Prop where
  offset : s.offset ≤ s.content.length
  enter : ∃ s', handleEnter s = some ((), s') ∧ Inv s' ∧ (s.totalLines = maxLines → s' = s) ∧
    (s.totalLines ≠ maxLines → s'.content = s.content.insertIdx s.offset newline ∧ s'.offset = s.offset + 1)
  backspace : ∃ s', handleBackspace s = some ((), s') ∧ Inv s' ∧ (s.NoBackspace → Unchanged s s') ∧
    (¬ s.NoBackspace → s'.content = s.content.eraseIdx (s.offset - 1) ∧ s'.offset = s.offset - 1)
  delete : ∃ s', handleDelete s = some ((), s') ∧ Inv s' ∧ (s.NoDelete → Unchanged s s') ∧
    (¬ s.NoDelete → s'.content = s.content.eraseIdx s.offset ∧ s'.offset = s.offset)
  undone : s.totalLines ≠ maxLines →
    ∃ s₁ s₂, handleEnter s = some ((), s₁) ∧ handleBackspace s₁ = some ((), s₂) ∧ Unchanged s s₂

section

variable {s s' : State} {t : Text}

theorem Shows.text (h : Shows s t) : s.text = t.lines :=
  Holds.text ⟨h.total, t.count, fun l hl => (t.isLine l hl).length, h.row⟩

theorem Shows.content (h : Shows s t) : s.content = t.content := by
  unfold State.content Text.content
  rw [h.text]

theorem Shows.offset (h : Shows s t) : s.offset = t.offset := by
  unfold State.offset Text.offset
  rw [h.text, h.y, h.x, Int.toNat_natCast, Int.toNat_natCast]

theorem Shows.unchanged (h : Shows s t) (h' : Shows s' t) : Unchanged s s' :=
  ⟨h'.text.trans h.text.symm, h'.x.trans h.x.symm, h'.y.trans h.y.symm⟩

theorem Shows.joinFits (h : Shows s t) {k : Nat} (hk : k + 1 < t.lines.length) : s.JoinFits k ↔ t.JoinFits k := by
  unfold State.JoinFits Text.JoinFits
  rw [(h.row k (by omega)).length, (h.row (k + 1) hk).length]
  omega

theorem Shows.noBackspace (h : Shows s t) : s.NoBackspace ↔ t.NoBackspace := by
  have hy := h.y
  have hx := h.x
  have hlt := t.y_lt
  unfold State.NoBackspace Text.NoBackspace
  rw [h.offset, show s.cursorY.toNat = t.y by omega]
  by_cases hpos : 0 < t.y
  · rw [h.joinFits (k := t.y - 1) (by omega)]
    omega
  · omega

theorem Shows.noDelete (h : Shows s t) : s.NoDelete ↔ t.NoDelete := by
  have hy := h.y
  have hx := h.x
  have htotal := h.total
  have hcur := h.row_cur.length
  unfold State.NoDelete Text.NoDelete
  rw [h.offset, h.content, show s.cursorY.toNat = t.y by omega, hcur, hx, hy, htotal]
  by_cases hn : t.y + 1 < t.lines.length
  · rw [h.joinFits hn]
    omega
  · omega

theorem handleEnter_full (h : s.totalLines = maxLines) : handleEnter s = some ((), s) := by
  unfold handleEnter
  rw [bind_run_some get_run, if_pos (by omega)]
  rfl

/-- In a state that keeps the invariant the three edits are exact edits of the one string. -/
theorem edits_exact (h : Inv s) : ExactEdits s := by
  obtain ⟨t, ht⟩ := inv_iff.1 h
  have htotal := ht.total
  have hcount := t.count
  have henter : s.totalLines ≠ maxLines → t.enter.content = t.content.insertIdx t.offset newline ∧
      t.enter.offset = t.offset + 1 := by
    intro hfull
    have hroom : t.lines.length < maxLines := by omega
    unfold Text.enter
    rw [dif_pos hroom]
    exact Text.split_exact hroom
  constructor
  · rw [ht.offset, ht.content]
    exact Text.offset_le
  · obtain ⟨⟨⟩, s', hrun, hs'⟩ := handleEnter_meets ht
    refine ⟨s', hrun, hs'.shows.inv, fun hfull => ?_, fun hfull => ?_⟩
    · rw [handleEnter_full hfull] at hrun
      cases hrun
      rfl
    · rw [ht.offset, ht.content, hs'.shows.offset, hs'.shows.content]
      exact henter hfull
  · obtain ⟨⟨⟩, s', hrun, hs'⟩ := handleBackspace_meets ht
    refine ⟨s', hrun, hs'.shows.inv, fun hno => ?_, fun hno => ?_⟩
    · have hsame := hs'.shows
      rw [Text.backspace_refused (ht.noBackspace.1 hno)] at hsame
      exact ht.unchanged hsame
    · rw [ht.offset, ht.content, hs'.shows.offset, hs'.shows.content]
      exact Text.backspace_exact fun h => hno (ht.noBackspace.2 h)
  · obtain ⟨⟨⟩, s', hrun, hs'⟩ := handleDelete_meets ht
    refine ⟨s', hrun, hs'.shows.inv, fun hno => ?_, fun hno => ?_⟩
    · have hsame := hs'.shows
      rw [Text.delete_refused (ht.noDelete.1 hno)] at hsame
      exact ht.unchanged hsame
    · rw [ht.offset, ht.content, hs'.shows.offset, hs'.shows.content]
      exact Text.delete_exact fun h => hno (ht.noDelete.2 h)
  · intro hfull
    have hroom : t.lines.length < maxLines := by omega
    obtain ⟨⟨⟩, s₁, hrun₁, hs₁⟩ := handleEnter_meets ht
    obtain ⟨⟨⟩, s₂, hrun₂, hs₂⟩ := handleBackspace_meets hs₁.shows
    refine ⟨s₁, s₂, hrun₁, hrun₂, ht.unchanged ?_⟩
    have hback : t.enter.backspace = t := by
      unfold Text.enter
      rw [dif_pos hroom]
      exact Text.backspace_split hroom
    have hsame := hs₂.shows
    rwa [hback] at hsame

end

/-- `n` lines of one letter each, the cursor at the end of the first. -/
def letters (n : Nat) : State :=
  { State.unused with
    lines := fun _ j => if j = 0 then 97 else 0
    lineLengths := fun _ => 1
    totalLines := n
    cursorX := 1 }

theorem inv_letters {n : Nat} (h : 1 ≤ n) (hn : n ≤ maxLines) : Inv (letters n) := by
  refine ⟨⟨?_, ?_, ?_, fun k _ => ?_⟩, fun k _ => rfl, fun k _ j hj => ?_⟩
  · show 1 ≤ (n : Int) ∧ (n : Int) ≤ maxLines
    omega
  · show (0 : Int) ≤ 0 ∧ (0 : Int) < n
    omega
  · show (0 : Int) ≤ 1 ∧ (1 : Int) ≤ 1
    omega
  · show (0 : Int) ≤ 1 ∧ (1 : Int) ≤ 200 - 1
    omega
  · change (j : Int) < 1 at hj
    obtain rfl : j = 0 := by omega
    show (97 : UInt8) ≠ 0
    decide

theorem edits_exact_letters : ExactEdits (letters 2) := edits_exact (inv_letters (by decide) (by decide))

/-- With 1000 lines Enter does nothing, and the Backspace after it erases a character. -/
theorem enter_not_undone : ¬ ∀ s : State, Inv s →
    ∃ s₁ s₂, handleEnter s = some ((), s₁) ∧ handleBackspace s₁ = some ((), s₂) ∧ Unchanged s s₂ := by
  intro h
  have hinv : Inv (letters 1000) := inv_letters (by decide) (by decide)
  obtain ⟨s₁, s₂, hrun₁, hrun₂, hsame⟩ := h _ hinv
  rw [handleEnter_full rfl] at hrun₁
  obtain rfl : letters 1000 = s₁ := congrArg Prod.snd (Option.some.inj hrun₁)
  obtain ⟨t, ht⟩ := inv_iff.1 hinv
  obtain ⟨⟨⟩, s', hrun, hs'⟩ := handleBackspace_meets ht
  cases hrun₂.symm.trans hrun
  -- the cursor stands behind a letter, which is gone
  have hx := hs'.shows.x
  have hx₁ := ht.x
  rw [hsame.cursorX, hx₁] at hx
  have hpos : 0 < t.x := by
    change (1 : Int) = t.x at hx₁
    omega
  have hback : t.backspace.x = t.x - 1 := by
    unfold Text.backspace
    rw [dif_pos hpos]
    rfl
  omega

/-! ## Typing -/

/-- The character is in the line with the cursor, between what was before the cursor and what was behind it, and
the cursor behind it; or that line and the cursor are the same. All other lines are. -/
structure KeepsText (c : UInt8) (s s' : State) : Prop where
  line : s'.line s.cursorY.toNat =
        (s.line s.cursorY.toNat).take s.cursorX.toNat ++ c :: (s.line s.cursorY.toNat).drop s.cursorX.toNat ∧
      s'.cursorX = s.cursorX + 1 ∨
    s'.lines s.cursorY.toNat = s.lines s.cursorY.toNat ∧
    s'.lineLengths s.cursorY.toNat = s.lineLengths s.cursorY.toNat ∧
      s'.cursorX = s.cursorX
  others : ∀ k ≠ s.cursorY.toNat, s'.lines k = s.lines k ∧ s'.lineLengths k = s.lineLengths k
  cursorY : s'.cursorY = s.cursorY
  totalLines : s'.totalLines = s.totalLines

section

variable {s s' : State}

theorem RowIs.line {k : Nat} {l : List UInt8} (h : RowIs (s.lines k) (s.lineLengths k) l) : s.line k = l := by
  have hlen := h.length
  refine List.ext_getElem (by rw [length_line]; omega) fun j hj hj' => ?_
  have hbyte := h.byte j (by omega)
  rw [List.getD_eq_getElem?_getD, List.getElem?_eq_getElem hj'] at hbyte
  simpa [State.line] using hbyte

theorem typed_eq_iff {l : List UInt8} {x : Nat} (hx : x ≤ l.length) (c : UInt8) :
    Text.typed l x c = l.take x ++ c :: l.drop x ↔ l.length < maxLineLength - 1 := by
  have hwhole : l.insertIdx x c = l.take x ++ c :: l.drop x := by
    have hat := insertIdx_between (l.take x) (l.drop x) c
    rwa [List.take_append_drop, List.length_take_of_le hx] at hat
  unfold Text.typed
  rw [← hwhole, List.take_eq_self_iff, List.length_insertIdx_of_le_length hx]
  omega

/-- Typing keeps the text if and only if the cursor is at the end of its line, or the line is not full. -/
theorem insertChar_keeps_iff (h : Bounds s)
    (hend : ∀ k : Nat, k < s.totalLines → s.lines k (s.lineLengths k).toNat = 0) (c : UInt8) :
    ∃ s', insertChar c s = some ((), s') ∧ (KeepsText c s s' ↔
      ¬ (s.cursorX < s.lineLengths s.cursorY.toNat ∧ s.lineLengths s.cursorY.toNat = maxLineLength - 1)) := by
  have htotal := h.total
  have hcy := h.cursorY
  have hcx := h.cursorX
  have hlen := h.length s.cursorY.toNat (by omega)
  have hrow := rowIs_line hlen.1 (hend s.cursorY.toNat (by omega))
  have hline := length_line (s := s) (k := s.cursorY.toNat)
  have hmax : (s.line s.cursorY.toNat).length < maxLineLength := by
    unfold maxLineLength at hlen ⊢
    omega
  have hx : s.cursorX.toNat ≤ (s.line s.cursorY.toNat).length := by omega
  obtain ⟨⟨⟩, s', hrun, hfull, hroom⟩ :=
    insertChar_row (y := s.cursorY.toNat) (x := s.cursorX.toNat) (by omega) (by omega) (by omega) hx hmax hrow c
  refine ⟨s', hrun, ?_⟩
  by_cases hlt : s.cursorX.toNat < maxLineLength - 1
  · obtain ⟨row, hnew, rfl⟩ := hroom hlt
    have hnewline : ∀ {s₁ : State}, s₁.lines s.cursorY.toNat = row →
        s₁.lineLengths s.cursorY.toNat = (Text.typed (s.line s.cursorY.toNat) s.cursorX.toNat c).length →
        s₁.line s.cursorY.toNat = Text.typed (s.line s.cursorY.toNat) s.cursorX.toNat c := by
      intro s₁ hl hn
      refine RowIs.line ?_
      rw [hl, hn]
      exact hnew
    have hiff := typed_eq_iff hx c
    constructor
    · rintro ⟨⟨hkept, -⟩ | ⟨-, -, hsame⟩, -, -, -⟩
      · rw [hnewline (by simp) (by simp), hiff] at hkept
        unfold maxLineLength at hkept ⊢
        omega
      · exact absurd hsame (by show ¬ s.cursorX + 1 = s.cursorX; omega)
    · intro hnot
      refine ⟨.inl ⟨?_, rfl⟩, fun k hk => ?_, rfl, rfl⟩
      · rw [hnewline (by simp) (by simp), hiff]
        unfold maxLineLength at hlt hmax hnot ⊢
        omega
      · simp [setRow_lines_ne hk, Function.update_of_ne hk]
  · obtain rfl := hfull hlt
    refine iff_of_true ⟨.inr ⟨rfl, rfl, rfl⟩, fun _ _ => ⟨rfl, rfl⟩, rfl, rfl⟩ ?_
    omega

end

/-- A line of 199 times the letter `a`, the cursor in front of it. -/
def fullLine : State :=
  { State.unused with lines := fun _ j => if j < 199 then 97 else 0, lineLengths := fun _ => 199, totalLines := 1 }

theorem bounds_fullLine : Bounds fullLine := by
  refine ⟨by decide, by decide, by decide, fun k _ => ?_⟩
  show (0 : Int) ≤ 199 ∧ (199 : Int) ≤ 200 - 1
  omega

theorem insertChar_keeps_iff_letters :
    ∃ s', insertChar 98 (letters 2) = some ((), s') ∧ (KeepsText 98 (letters 2) s' ↔
      ¬ ((letters 2).cursorX < (letters 2).lineLengths (letters 2).cursorY.toNat ∧
        (letters 2).lineLengths (letters 2).cursorY.toNat = maxLineLength - 1)) :=
  insertChar_keeps_iff (inv_letters (by decide) (by decide)).toBounds
    (inv_letters (by decide) (by decide)).terminator 98

theorem insertChar_fullLine :
    (endOf (insertChar 98) fullLine).lineLengths 0 = 199 ∧ (endOf (insertChar 98) fullLine).cursorX = 1 := by
  decide +kernel

theorem length_fullLine : (fullLine.line 0).length = 199 := length_line 0

/-- A letter typed in front of the full line: its last one is gone. -/
theorem insertChar_not_keeps :
    ¬ ∀ (s : State) (c : UInt8), Bounds s →
      (∀ k : Nat, k < s.totalLines → s.lines k (s.lineLengths k).toNat = 0) → ∃ s', insertChar c s = some ((), s') ∧
      KeepsText c s s' := by
  intro h
  obtain ⟨s', hrun, hkeeps⟩ := h fullLine 98 bounds_fullLine (fun _ _ => rfl)
  obtain ⟨hlen, hx⟩ := insertChar_fullLine
  rw [← eq_endOf hrun] at hlen hx
  rcases hkeeps.line with ⟨hline, -⟩ | ⟨-, -, hsame⟩
  · -- the line has 199 characters and should have 200
    have hlength := congrArg List.length hline
    rw [show fullLine.cursorY.toNat = 0 from rfl, show fullLine.cursorX.toNat = 0 from rfl, length_line,
      hlen] at hlength
    rw [List.take_zero, List.drop_zero, List.nil_append, List.length_cons, length_fullLine] at hlength
    exact absurd hlength (by decide)
  · rw [hx] at hsame
    exact absurd hsame (by decide)

end AltoniumOS.Nano

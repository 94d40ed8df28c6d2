/-
What becomes of a line typed at the prompt: which handler its first word calls, and which path reaches the
file system.
-/
import AltoniumOS.Console.Commands

namespace AltoniumOS.Console

open AltoniumOS.Nano (ioBufferSize)

/-- A line the prompt can hold. -/
structure PromptLine (line : List UInt8) : Prop where
  length : line.length ≤ promptBufferSize - 1
  printable : ∀ c ∈ line, space ≤ c ∧ c ≤ tilde

/-! ## Words of a line -/

/-- The line from its first word on. -/
def fromWord (line : List UInt8) : List UInt8 := line.dropWhile (· == space)

def firstWord (line : List UInt8) : List UInt8 := (fromWord line).takeWhile (· != space)

/-- What is behind the first word. -/
def afterWord (line : List UInt8) : List UInt8 := (fromWord line).dropWhile (· != space)

/-- The handler of a word, with the rest of the line where it takes arguments: `echo` prints what is behind one
space. -/
def handlerOf (word rest : List UInt8) : Option Handler :=
  if word = ascii "clear" then some .clear
  else if word = ascii "echo" then some (.echo rest.tail)
  else if word = ascii "fetch" then some .fetch
  else if word = ascii "disk" then some .disk
  else if word = ascii "ls" then some (.ls rest)
  else if word = ascii "dir" then some (.ls rest)
  else if word = ascii "pwd" then some .pwd
  else if word = ascii "cd" then some (.cd rest)
  else if word = ascii "cat" then some (.cat rest)
  else if word = ascii "touch" then some (.touch rest)
  else if word = ascii "write" then some (.write rest)
  else if word = ascii "mkdir" then some (.mkdir rest)
  else if word = ascii "rm" then some (.rm rest)
  else if word = ascii "nano" then some (.nano rest)
  else if word = ascii "theme" then some (.theme rest)
  else if word = ascii "fsstat" then some .fsstat
  else if word = ascii "shutdown" then some .shutdown
  else if word = ascii "bootlog" then some .bootlog
  else if word = ascii "storage" then some .storage
  else if word = ascii "help" then some .help
  else none

/-- The commands `handle_help` lists. -/
def listedCommands : List (List UInt8) := helpLines.map fun s => firstWord (ascii s)

/-- The handler called, if there is one. -/
def Dispatch.of (cmdLine : List UInt8) : Option Handler → Dispatch
  | some h => .call h
  | none => .unknown cmdLine

/-- What is meant to become of a line. -/
def intended (line : List UInt8) : Dispatch :=
  if firstWord line = [] then .nothing else .of (fromWord line) (handlerOf (firstWord line) (afterWord line))

/-! ## Comparing with a word -/

section

variable {a b line word rest : List UInt8} {n : Nat} {c : UInt8}

theorem toInt8_sub_eq_zero (x y : UInt8) : x.toInt8.toInt - y.toInt8.toInt = 0 ↔ x = y := by
  rw [Int.sub_eq_zero, Int8.toInt_inj]
  constructor
  · intro h
    exact congrArg Int8.toUInt8 h
  · rintro rfl
    rfl

/-- A word without NUL compares equal to the lines that begin with it. -/
theorem strncmpImpl_eq_zero : ∀ {a b : List UInt8}, (0 : UInt8) ∉ b → (strncmpImpl a b b.length = 0 ↔ b <+: a)
  | a, [], _ => by simp [strncmpImpl]
  | [], y :: b, h => by
    have hy : y ≠ 0 := fun h0 => h (h0 ▸ List.mem_cons_self)
    rw [List.length_cons, strncmpImpl, List.headD_nil, List.headD_cons, if_pos (.inl rfl), toInt8_sub_eq_zero]
    simp [hy.symm]
  | x :: a, y :: b, h => by
    have hy : y ≠ 0 := fun h0 => h (h0 ▸ List.mem_cons_self)
    have hrest := strncmpImpl_eq_zero (a := a) (b := b) fun h0 => h (List.mem_cons_of_mem y h0)
    rw [List.length_cons, strncmpImpl, List.cons_prefix_cons, List.headD_cons, List.headD_cons]
    by_cases hxy : x = y
    · subst hxy
      simpa [hy] using hrest
    · rw [if_pos (.inr (.inr hxy)), toInt8_sub_eq_zero]
      simp [hxy, Ne.symm hxy]

/-- The first word of a line that begins with it. -/
theorem takeWhile_eq_iff (hb : ∀ c ∈ b, c ≠ space) :
    line.takeWhile (· != space) = b ↔ ∃ t, line = b ++ t ∧ (t = [] ∨ ∃ r, t = space :: r) := by
  constructor
  · rintro rfl
    refine ⟨line.dropWhile (· != space), List.takeWhile_append_dropWhile.symm, ?_⟩
    cases h : line.dropWhile (· != space) with
    | nil => exact .inl rfl
    | cons c r =>
      have hhead := List.head_dropWhile_not (· != space) (l := line) (by rw [h]; exact List.cons_ne_nil c r)
      have hc : c = space := by simpa [h] using hhead
      exact .inr ⟨r, by rw [hc]⟩
  · rintro ⟨t, rfl, ht⟩
    have hall : ∀ c ∈ b, (c != space) = true := fun c hc => bne_iff_ne.2 (hb c hc)
    rw [List.takeWhile_append_of_pos hall]
    rcases ht with rfl | ⟨r, rfl⟩
    · simp
    · simp

/-- The words of the dispatch have neither a NUL nor a space. -/
def IsWord (word : List UInt8) : Prop := ∀ c ∈ word, c ≠ 0 ∧ c ≠ space

instance (word : List UInt8) : Decidable (IsWord word) := List.decidableBAll (fun c => c ≠ 0 ∧ c ≠ space) word

theorem IsWord.noNul (h : IsWord word) : (0 : UInt8) ∉ word := fun h0 => (h 0 h0).1 rfl

/-- On a line without NUL and newline the test of a command holds if and only if it is the first word. -/
theorem isCommand_iff {s : String} (hs : IsWord (ascii s)) (hn : (ascii s).length = n)
    (hl : ∀ c ∈ line, c ≠ 0 ∧ c ≠ newline) : isCommand line s n = true ↔ line.takeWhile (· != space) = ascii s := by
  subst hn
  unfold isCommand
  simp only [Bool.and_eq_true, Bool.or_eq_true, beq_iff_eq]
  rw [strncmpImpl_eq_zero hs.noNul, takeWhile_eq_iff fun c hc => (hs c hc).2]
  constructor
  · rintro ⟨⟨t, rfl⟩, hend⟩
    refine ⟨t, rfl, ?_⟩
    cases t with
    | nil => exact .inl rfl
    | cons c r =>
      have hc := hl c (by simp)
      have hget : (ascii s ++ c :: r).getD (ascii s).length 0 = c := by simp [List.getD_eq_getElem?_getD]
      rw [hget] at hend
      obtain rfl : c = space := by simpa [hc.1, hc.2] using hend
      exact .inr ⟨r, rfl⟩
  · rintro ⟨t, rfl, ht⟩
    refine ⟨List.prefix_append _ _, ?_⟩
    rcases ht with rfl | ⟨r, rfl⟩
    · simp [List.getD_eq_getElem?_getD]
    · simp [List.getD_eq_getElem?_getD]

/-- The test of `echo` asks for a space behind it. -/
theorem isEcho_iff : (strncmpImpl line (ascii "echo ") 5 == 0) = true ↔
    line.takeWhile (· != space) = ascii "echo" ∧ line ≠ ascii "echo" := by
  have hword : ascii "echo " = ascii "echo" ++ [space] := by decide
  have hlen : (ascii "echo ").length = 5 := by decide
  have hecho : IsWord (ascii "echo") := by decide
  rw [beq_iff_eq, ← hlen, strncmpImpl_eq_zero (by decide), takeWhile_eq_iff fun c hc => (hecho c hc).2, hword]
  constructor
  · rintro ⟨t, rfl⟩
    exact ⟨⟨space :: t, by simp, .inr ⟨t, rfl⟩⟩, by simp⟩
  · rintro ⟨⟨t, rfl, ht⟩, hne⟩
    rcases ht with rfl | ⟨r, rfl⟩
    · exact absurd (List.append_nil _) hne
    · exact ⟨r, by simp⟩

/-! ## Dispatch -/

theorem PromptLine.char (h : PromptLine line) {c : UInt8} (hc : c ∈ line) : c ≠ 0 ∧ c ≠ newline ∧ c ≠ tab := by
  have hlow := (h.printable c hc).1
  refine ⟨?_, ?_, ?_⟩ <;> · rintro rfl; exact absurd hlow (by decide)

theorem dropWhile_congr {p q : UInt8 → Bool} :
    ∀ {l : List UInt8}, (∀ c ∈ l, p c = q c) → l.dropWhile p = l.dropWhile q
  | [], _ => rfl
  | c :: l, h => by
    rw [List.dropWhile_cons, List.dropWhile_cons, h c List.mem_cons_self, dropWhile_congr fun b hb =>
      h b (List.mem_cons_of_mem c hb)]

theorem takeWhile_congr {p q : UInt8 → Bool} :
    ∀ {l : List UInt8}, (∀ c ∈ l, p c = q c) → l.takeWhile p = l.takeWhile q
  | [], _ => rfl
  | c :: l, h => by
    rw [List.takeWhile_cons, List.takeWhile_cons, h c List.mem_cons_self, takeWhile_congr fun b hb =>
      h b (List.mem_cons_of_mem c hb)]

theorem PromptLine.isBlank (h : PromptLine line) {c : UInt8} (hc : c ∈ line) : isBlank c = (c == space) := by
  unfold Console.isBlank
  simp [(h.char hc).2.2]

/-- On a line of the prompt only spaces are skipped. -/
theorem PromptLine.skipWhitespace (h : PromptLine line) : skipWhitespace line = fromWord line :=
  dropWhile_congr fun _ => h.isBlank

theorem mem_fromWord {c : UInt8} (h : c ∈ fromWord line) : c ∈ line := (List.dropWhile_suffix _).mem h

theorem afterWord_eq (hw : firstWord line = word) : afterWord line = (fromWord line).drop word.length := by
  have happ := List.takeWhile_append_dropWhile (p := (· != space)) (l := fromWord line)
  subst hw
  conv_rhs => rw [← happ]
  exact List.drop_left.symm

theorem firstWord_eq_nil : firstWord line = [] ↔ fromWord line = [] := by
  unfold firstWord
  constructor
  · intro h
    cases hf : fromWord line with
    | nil => rfl
    | cons c rest =>
      have hhead :=
        List.head_dropWhile_not (· == space) (l := line)
          (by unfold fromWord at hf; rw [hf]; exact List.cons_ne_nil c rest)
      have hc : c ≠ space := by
        unfold fromWord at hf
        simpa [hf] using hhead
      rw [hf] at h
      simp [hc] at h
  · intro h
    rw [h]
    rfl

/-- The chain of tests and the chain of words, link by link. -/
theorem Dispatch.of_ite {c : Prop} [Decidable c] {x y : Dispatch} {handler : Handler} {more : Option Handler}
    (hx : c → x = .call handler) (hy : y = .of line more) :
    (if c then x else y) = .of line (if c then some handler else more) := by
  by_cases hc : c
  · rw [if_pos hc, if_pos hc, hx hc]
    rfl
  · rw [if_neg hc, if_neg hc, hy]

/-- The dispatch of a line that is not empty. -/
theorem executeCommand_eq (h : PromptLine line) (hne : line ≠ []) : executeCommand line =
    if fromWord line = ascii "echo" then .unknown (fromWord line)
    else .of (fromWord line) (handlerOf (firstWord line) (afterWord line)) := by
  have hl : ∀ c ∈ fromWord line, c ≠ 0 ∧ c ≠ newline := fun c hc =>
    ⟨(h.char (mem_fromWord hc)).1, (h.char (mem_fromWord hc)).2.1⟩
  have hcmd : ∀ (s : String) (n : Nat), IsWord (ascii s) → (ascii s).length = n →
      isCommand (fromWord line) s n = decide (firstWord line = ascii s) := fun s n hs hn =>
    Bool.eq_iff_iff.2 ((isCommand_iff hs hn hl).trans decide_eq_true_iff.symm)
  have hdrop : ∀ (s : String) (n : Nat), (ascii s).length = n → firstWord line = ascii s →
      (fromWord line).drop n = afterWord line :=
    fun s n hn hw => by rw [afterWord_eq hw, hn]
  unfold executeCommand
  rw [if_neg hne, h.skipWhitespace]
  simp only [hcmd "clear" 5 (by decide) (by decide), hcmd "fetch" 5 (by decide) (by decide),
    hcmd "disk" 4 (by decide) (by decide), hcmd "ls" 2 (by decide) (by decide),
    hcmd "dir" 3 (by decide) (by decide), hcmd "pwd" 3 (by decide) (by decide), hcmd "cd" 2 (by decide) (by decide),
    hcmd "cat" 3 (by decide) (by decide), hcmd "touch" 5 (by decide) (by decide),
    hcmd "write" 5 (by decide) (by decide), hcmd "mkdir" 5 (by decide) (by decide),
    hcmd "rm" 2 (by decide) (by decide), hcmd "nano" 4 (by decide) (by decide),
    hcmd "theme" 5 (by decide) (by decide), hcmd "fsstat" 6 (by decide) (by decide),
    hcmd "shutdown" 8 (by decide) (by decide), hcmd "bootlog" 7 (by decide) (by decide),
    hcmd "storage" 7 (by decide) (by decide), hcmd "help" 4 (by decide) (by decide), decide_eq_true_eq, isEcho_iff]
  have hword : (fromWord line).takeWhile (· != space) = firstWord line := rfl
  rw [hword]
  -- `echo` is the one command tested twice, with and without an argument
  by_cases hecho : firstWord line = ascii "echo"
  · have hdiffer : ∀ s : String, ascii "echo" ≠ ascii s → ¬ firstWord line = ascii s := fun s hs => by rwa [hecho]
    by_cases hbare : fromWord line = ascii "echo"
    · have hnot : ¬ (firstWord line = ascii "echo" ∧ fromWord line ≠ ascii "echo") := fun hc => hc.2 hbare
      rw [if_pos hbare, if_neg (hdiffer "clear" (by decide)), if_neg hnot,
        if_neg (hdiffer "fetch" (by decide)), if_neg (hdiffer "disk" (by decide)),
        if_neg (hdiffer "ls" (by decide)), if_neg (hdiffer "dir" (by decide)), if_neg (hdiffer "pwd" (by decide)),
        if_neg (hdiffer "cd" (by decide)), if_neg (hdiffer "cat" (by decide)), if_neg (hdiffer "touch" (by decide)),
        if_neg (hdiffer "write" (by decide)), if_neg (hdiffer "mkdir" (by decide)),
        if_neg (hdiffer "rm" (by decide)), if_neg (hdiffer "nano" (by decide)),
        if_neg (hdiffer "theme" (by decide)), if_neg (hdiffer "fsstat" (by decide)),
        if_neg (hdiffer "shutdown" (by decide)), if_neg (hdiffer "bootlog" (by decide)),
        if_neg (hdiffer "storage" (by decide)), if_neg (hdiffer "help" (by decide))]
    · rw [if_neg hbare, if_neg (hdiffer "clear" (by decide)), if_pos ⟨hecho, hbare⟩, handlerOf,
        if_neg (hdiffer "clear" (by decide)), if_pos hecho, ← hdrop "echo" 4 (by decide) hecho, List.tail_drop]
      rfl
  · have hbare : ¬ fromWord line = ascii "echo" := fun hf => hecho (by rw [← hword, hf]; decide)
    have hnot : ¬ (firstWord line = ascii "echo" ∧ fromWord line ≠ ascii "echo") := fun hc => hecho hc.1
    unfold handlerOf
    rw [if_neg hbare, if_neg hnot, if_neg hecho]
    refine Dispatch.of_ite (fun _ => rfl) ?_
    refine Dispatch.of_ite (fun _ => rfl) ?_
    refine Dispatch.of_ite (fun _ => rfl) ?_
    refine Dispatch.of_ite (fun hw => by rw [hdrop "ls" 2 (by decide) hw]) ?_
    refine Dispatch.of_ite (fun hw => by rw [hdrop "dir" 3 (by decide) hw]) ?_
    refine Dispatch.of_ite (fun _ => rfl) ?_
    refine Dispatch.of_ite (fun hw => by rw [hdrop "cd" 2 (by decide) hw]) ?_
    refine Dispatch.of_ite (fun hw => by rw [hdrop "cat" 3 (by decide) hw]) ?_
    refine Dispatch.of_ite (fun hw => by rw [hdrop "touch" 5 (by decide) hw]) ?_
    refine Dispatch.of_ite (fun hw => by rw [hdrop "write" 5 (by decide) hw]) ?_
    refine Dispatch.of_ite (fun hw => by rw [hdrop "mkdir" 5 (by decide) hw]) ?_
    refine Dispatch.of_ite (fun hw => by rw [hdrop "rm" 2 (by decide) hw]) ?_
    refine Dispatch.of_ite (fun hw => by rw [hdrop "nano" 4 (by decide) hw]) ?_
    refine Dispatch.of_ite (fun hw => by rw [hdrop "theme" 5 (by decide) hw]) ?_
    refine Dispatch.of_ite (fun _ => rfl) ?_
    refine Dispatch.of_ite (fun _ => rfl) ?_
    refine Dispatch.of_ite (fun _ => rfl) ?_
    refine Dispatch.of_ite (fun _ => rfl) ?_
    refine Dispatch.of_ite (fun _ => rfl) ?_
    rfl

theorem listedCommands_eq :
    listedCommands = [
      ascii "clear", ascii "echo", ascii "fetch", ascii "disk", ascii "storage", ascii "ls", ascii "dir",
      ascii "pwd", ascii "cd", ascii "cat", ascii "touch", ascii "write", ascii "mkdir", ascii "rm", ascii "nano",
      ascii "theme", ascii "fsstat", ascii "bootlog", ascii "shutdown", ascii "help"] := by
  decide +kernel

theorem isSome_ite {c : Prop} [Decidable c] {handler : Handler} {more : Option Handler} :
    (if c then some handler else more).isSome = true ↔ c ∨ more.isSome = true := by
  by_cases hc : c <;> simp [hc]

/-- The words with a handler are those listed. -/
theorem handlerOf_isSome_iff (word rest : List UInt8) :
    (handlerOf word rest).isSome = true ↔ word ∈ listedCommands := by
  rw [listedCommands_eq]
  unfold handlerOf
  simp only [isSome_ite, Option.isSome_none, Bool.false_eq_true, List.mem_cons, List.not_mem_nil, or_false]
  exact Iff.of_eq (by ac_rfl)

/-- The first word decides: a listed command calls its handler, another word is unknown, and without a word
nothing happens. -/
structure FollowsWord (line : List UInt8) : Prop where
  listed : firstWord line ∈ listedCommands →
    ∃ handler, handlerOf (firstWord line) (afterWord line) = some handler ∧ executeCommand line = .call handler
  unknown : firstWord line ≠ [] → firstWord line ∉ listedCommands → executeCommand line = .unknown (fromWord line)
  blank : firstWord line = [] → executeCommand line = .nothing

theorem handlerOf_nil (rest : List UInt8) : handlerOf [] rest = none := rfl

theorem handlerOf_echo (rest : List UInt8) : handlerOf (ascii "echo") rest = some (.echo rest.tail) := rfl

theorem followsWord_iff : FollowsWord line ↔ executeCommand line = intended line := by
  have hnil : ([] : List UInt8) ∉ listedCommands := by
    rw [← handlerOf_isSome_iff [] [], handlerOf_nil]
    exact Bool.false_ne_true
  have hsome := handlerOf_isSome_iff (firstWord line) (afterWord line)
  unfold intended
  constructor
  · rintro ⟨hlisted, hunknown, hblank⟩
    split
    · rename_i hw
      exact hblank hw
    · rename_i hw
      by_cases hmem : firstWord line ∈ listedCommands
      · obtain ⟨handler, hh, hcall⟩ := hlisted hmem
        rw [hh]
        exact hcall
      · have hnone : handlerOf (firstWord line) (afterWord line) = none := by
          rw [← hsome] at hmem
          simpa using hmem
        rw [hnone]
        exact hunknown hw hmem
  · intro h
    constructor
    · intro hmem
      have hw : firstWord line ≠ [] := fun hw => hnil (hw ▸ hmem)
      obtain ⟨handler, hh⟩ := Option.isSome_iff_exists.1 (hsome.2 hmem)
      rw [if_neg hw, hh] at h
      exact ⟨handler, hh, h⟩
    · intro hw hmem
      have hnone : handlerOf (firstWord line) (afterWord line) = none := by
        rw [← hsome] at hmem
        simpa using hmem
      rwa [if_neg hw, hnone] at h
    · intro hw
      rwa [if_pos hw] at h

theorem executeCommand_intended_iff (h : PromptLine line) :
    executeCommand line = intended line ↔ line = [] ∨ fromWord line ≠ [] ∧ fromWord line ≠ ascii "echo" := by
  by_cases hne : line = []
  · subst hne
    exact iff_of_true rfl (.inl rfl)
  rw [executeCommand_eq h hne]
  unfold intended
  constructor
  · intro heq
    refine .inr ⟨fun hblank => ?_, fun hecho => ?_⟩
    · have hword : firstWord line = [] := firstWord_eq_nil.2 hblank
      rw [if_pos hword, if_neg (by rw [hblank]; decide), hword] at heq
      rw [handlerOf_nil] at heq
      cases heq
    · have hword : firstWord line = ascii "echo" := by
        unfold firstWord
        rw [hecho]
        decide
      rw [if_pos hecho, if_neg (by rw [hword]; decide), hword, handlerOf_echo] at heq
      cases heq
  · rintro (hl | ⟨hblank, hecho⟩)
    · exact absurd hl hne
    · rw [if_neg hecho, if_neg fun hw => hblank (firstWord_eq_nil.1 hw)]

/-- The first word decides if and only if the line is empty, or has a word and is not `echo` alone. -/
theorem dispatch_iff (h : PromptLine line) :
    FollowsWord line ↔ line = [] ∨ fromWord line ≠ [] ∧ fromWord line ≠ ascii "echo" :=
  followsWord_iff.trans (executeCommand_intended_iff h)

end

instance (line : List UInt8) : Decidable (PromptLine line) :=
  have := List.decidableBAll (fun c => space ≤ c ∧ c ≤ tilde) line
  decidable_of_iff (line.length ≤ promptBufferSize - 1 ∧ ∀ c ∈ line, space ≤ c ∧ c ≤ tilde)
    ⟨fun h => ⟨h.1, h.2⟩, fun h => ⟨h.length, h.printable⟩⟩

theorem dispatch_iff_ls : FollowsWord (ascii " ls A") ↔
    ascii " ls A" = [] ∨ fromWord (ascii " ls A") ≠ [] ∧ fromWord (ascii " ls A") ≠ ascii "echo" :=
  dispatch_iff (by decide)

/-- A line of `echo` alone is an unknown command. -/
theorem not_followsWord : ¬ ∀ line : List UInt8, PromptLine line → FollowsWord line := by
  intro h
  have hecho := followsWord_iff.1 (h (ascii "echo") (by decide))
  exact absurd hecho (by decide)

example : executeCommand (ascii "  ") = .unknown [] := by decide

/-! ## Paths -/

/-- The first token behind the first word. -/
def secondWord (line : List UInt8) : List UInt8 := firstWord (afterWord line)

/-- The commands that hand a path to the file system or the editor. -/
def pathCommands : List (List UInt8) := [ascii "touch", ascii "write", ascii "mkdir", ascii "rm", ascii "nano"]

/-- The first token of an input, whole. -/
def token (input : List UInt8) : List UInt8 := (skipWhitespace input).takeWhile fun c => !isBlank c

section

variable {line args dest ptr : List UInt8} {maxLen : Nat} {fatReady : Bool}

/-- The tokenizer keeps what fits, and goes on to the end of the token. -/
theorem tokenLoop_eq (maxLen : Nat) :
    ∀ (ptr dest : List UInt8), dest.length ≤ maxLen - 1 →
      tokenLoop maxLen ptr dest =
        ((dest ++ ptr.takeWhile fun c => !isBlank c).take (maxLen - 1), ptr.dropWhile fun c => !isBlank c)
  | [], dest, h => by simp [tokenLoop, List.take_of_length_le h]
  | c :: ptr, dest, h => by
    rw [tokenLoop, List.takeWhile_cons, List.dropWhile_cons]
    by_cases hc : isBlank c = true
    · simp [hc, List.take_of_length_le h]
    · simp only [hc, Bool.not_false, if_true, Bool.false_eq_true, if_false]
      split
      · rename_i hroom
        rw [tokenLoop_eq maxLen ptr (dest ++ [c]) (by rw [List.length_append, List.length_singleton]; omega),
          List.append_assoc]
        rfl
      · -- full: the rest of the token is dropped
        have hfull : dest.length = maxLen - 1 := by omega
        rw [tokenLoop_eq maxLen ptr dest h, ← hfull, List.take_left, List.take_left]

theorem token_eq_nil : token args = [] ↔ skipWhitespace args = [] := by
  unfold token
  cases h : skipWhitespace args with
  | nil => simp
  | cons c rest =>
    have hne : args.dropWhile isBlank ≠ [] := by
      unfold skipWhitespace at h
      rw [h]
      exact List.cons_ne_nil c rest
    have hhead := List.head_dropWhile_not isBlank hne
    have hc : isBlank c = false := by
      unfold skipWhitespace at h
      simpa [h] using hhead
    simp [hc]

/-- A token is read, cut to the buffer. -/
theorem readToken_eq (h : token args ≠ []) (hmax : 1 < maxLen) :
    ∃ cursor, cursor.length ≤ args.length ∧
      readToken args maxLen = (((token args).take (maxLen - 1)).length, (token args).take (maxLen - 1),
        cursor) := by
  have hptr : skipWhitespace args ≠ [] := fun hp => h (token_eq_nil.2 hp)
  refine ⟨(skipWhitespace args).dropWhile fun c => !isBlank c, ?_, ?_⟩
  · exact ((List.dropWhile_sublist _).length_le).trans (List.dropWhile_sublist _).length_le
  · unfold readToken
    rw [if_neg (by omega)]
    dsimp only
    rw [if_neg hptr, tokenLoop_eq maxLen _ [] (Nat.zero_le _), List.nil_append]
    rfl

/-- The path a handler passes on: the token, cut to the buffer. -/
theorem withToken_path {usage : String} {body : List UInt8 → List UInt8 → Reply}
    (hbody : ∀ name cursor, cursor.length ≤ args.length → (body name cursor).call.map FileCall.path = some name) :
    (withToken fatReady usage args body).call.map FileCall.path =
      if fatReady = true ∧ token args ≠ [] then some ((token args).take (fat12PathMax - 1)) else none := by
  unfold withToken
  cases fatReady with
  | false => rfl
  | true =>
    rw [if_neg (by decide)]
    by_cases htok : token args = []
    · have hread : readToken args fat12PathMax = (0, [], args) := by
        unfold readToken
        rw [if_neg (by decide)]
        dsimp only
        rw [if_pos (token_eq_nil.1 htok)]
      rw [hread, if_neg fun hc => hc.2 htok]
      rfl
    · obtain ⟨cursor, hcursor, hread⟩ := readToken_eq htok (show 1 < fat12PathMax by decide)
      have hpos : ((token args).take (fat12PathMax - 1)).length ≠ 0 := by
        rw [List.length_take]
        have := List.length_pos_iff.2 htok
        unfold fat12PathMax
        omega
      rw [hread, if_pos ⟨rfl, htok⟩]
      dsimp only
      rw [if_neg hpos, hbody _ cursor hcursor]

theorem handleTouch_path (fatReady : Bool) (args : List UInt8) :
    (handleTouch fatReady args).call.map FileCall.path =
      if fatReady = true ∧ token args ≠ [] then some ((token args).take (fat12PathMax - 1)) else none :=
  withToken_path fun _ _ _ => rfl

theorem handleMkdirCommand_path (fatReady : Bool) (args : List UInt8) :
    (handleMkdirCommand fatReady args).call.map FileCall.path =
      if fatReady = true ∧ token args ≠ [] then some ((token args).take (fat12PathMax - 1)) else none :=
  withToken_path fun _ _ _ => rfl

theorem handleRmCommand_path (fatReady : Bool) (args : List UInt8) :
    (handleRmCommand fatReady args).call.map FileCall.path =
      if fatReady = true ∧ token args ≠ [] then some ((token args).take (fat12PathMax - 1)) else none :=
  withToken_path fun _ _ _ => rfl

theorem handleNanoCommand_path (fatReady : Bool) (args : List UInt8) :
    (handleNanoCommand fatReady args).call.map FileCall.path =
      if fatReady = true ∧ token args ≠ [] then some ((token args).take (fat12PathMax - 1)) else none :=
  withToken_path fun _ _ _ => rfl

/-- A payload that fits the I/O buffer is never refused. -/
theorem handleWriteCommand_path (fatReady : Bool) (h : args.length ≤ ioBufferSize) :
    (handleWriteCommand fatReady args).call.map FileCall.path =
      if fatReady = true ∧ token args ≠ [] then some ((token args).take (fat12PathMax - 1)) else none := by
  refine withToken_path fun name cursor hcursor => ?_
  have hlen := (List.dropWhile_sublist isBlank (l := cursor)).length_le
  dsimp only
  rw [if_neg (by unfold skipWhitespace; omega)]
  rfl

theorem PromptLine.of_suffix {rest : List UInt8} (h : PromptLine line) (hs : rest <:+ line) : PromptLine rest :=
  ⟨hs.length_le.trans h.length, fun c hc => h.printable c (hs.mem hc)⟩

theorem afterWord_suffix (line : List UInt8) : afterWord line <:+ line :=
  (List.dropWhile_suffix _).trans (List.dropWhile_suffix _)

theorem PromptLine.token (h : PromptLine line) : token line = firstWord line := by
  unfold Console.token firstWord
  rw [h.skipWhitespace]
  refine takeWhile_congr fun c hc => ?_
  rw [h.isBlank (mem_fromWord hc)]
  rfl

/-- A line with one of these commands calls its handler with what is behind the word. -/
theorem executeCommand_path (h : PromptLine line) (handler : List UInt8 → Handler)
    (hh : ∀ rest, handlerOf (firstWord line) rest = some (handler rest)) (hecho : firstWord line ≠ ascii "echo")
    (hw : firstWord line ≠ []) : executeCommand line = .call (handler (afterWord line)) := by
  have hne : line ≠ [] := by
    rintro rfl
    exact hw rfl
  have hbare : fromWord line ≠ ascii "echo" := by
    intro hf
    refine hecho ?_
    unfold firstWord
    rw [hf]
    decide
  rw [executeCommand_eq h hne, if_neg hbare, hh]
  rfl

/-- The path of the call a line leads to: its second word, cut to the buffer. -/
theorem fileCall_path (h : PromptLine line) (hw : firstWord line ∈ pathCommands) (fatReady : Bool) :
    (fileCall fatReady line).map FileCall.path =
      if fatReady = true ∧ secondWord line ≠ [] then some ((secondWord line).take (fat12PathMax - 1))
        else none := by
  have hafter := h.of_suffix (afterWord_suffix line)
  have hlen : (afterWord line).length ≤ ioBufferSize := hafter.length.trans (by decide)
  have hpaths := hafter.token
  rw [show firstWord (afterWord line) = secondWord line from rfl] at hpaths
  rw [← hpaths]
  unfold pathCommands at hw
  simp only [List.mem_cons, List.not_mem_nil, or_false] at hw
  unfold fileCall
  rcases hw with hw | hw | hw | hw | hw
  · rw [executeCommand_path h .touch (fun rest => by rw [hw]; rfl) (by rw [hw]; decide) (by rw [hw]; decide)]
    exact handleTouch_path fatReady _
  · rw [executeCommand_path h .write (fun rest => by rw [hw]; rfl) (by rw [hw]; decide) (by rw [hw]; decide)]
    exact handleWriteCommand_path fatReady hlen
  · rw [executeCommand_path h .mkdir (fun rest => by rw [hw]; rfl) (by rw [hw]; decide) (by rw [hw]; decide)]
    exact handleMkdirCommand_path fatReady _
  · rw [executeCommand_path h .rm (fun rest => by rw [hw]; rfl) (by rw [hw]; decide) (by rw [hw]; decide)]
    exact handleRmCommand_path fatReady _
  · rw [executeCommand_path h .nano (fun rest => by rw [hw]; rfl) (by rw [hw]; decide) (by rw [hw]; decide)]
    exact handleNanoCommand_path fatReady _

/-- A command acts on the second word of its line, whole, if and only if there is no file system or the word
fits the buffer. -/
theorem path_whole_iff (h : PromptLine line) (hw : firstWord line ∈ pathCommands) (fatReady : Bool) :
    (∀ call, fileCall fatReady line = some call → call.path = secondWord line) ↔
      fatReady = false ∨ (secondWord line).length ≤ fat12PathMax - 1 := by
  have hpath := fileCall_path h hw fatReady
  constructor
  · intro hwhole
    by_contra hnot
    have hready : fatReady = true := by
      cases fatReady
      · exact absurd (.inl rfl) hnot
      · rfl
    have hlong : fat12PathMax - 1 < (secondWord line).length := by
      by_contra hle
      exact hnot (.inr (by omega))
    have hne : secondWord line ≠ [] := List.length_pos_iff.1 (by omega)
    rw [if_pos ⟨hready, hne⟩] at hpath
    obtain ⟨call, hcall, hcut⟩ := Option.map_eq_some_iff.1 hpath
    have hlen := congrArg List.length ((hwhole call hcall).symm.trans hcut)
    rw [List.length_take] at hlen
    omega
  · rintro hor call hcall
    rw [hcall, Option.map_some] at hpath
    split at hpath
    · rename_i hmade
      have hfits : (secondWord line).length ≤ fat12PathMax - 1 := by
        rcases hor with hoff | hfits
        · exact absurd (hmade.1.symm.trans hoff) (by decide)
        · exact hfits
      rw [List.take_of_length_le hfits] at hpath
      exact Option.some.inj hpath
    · cases hpath

end

theorem path_whole_iff_rm :
    (∀ call, fileCall true (ascii "rm A") = some call → call.path = secondWord (ascii "rm A")) ↔
      true = false ∨ (secondWord (ascii "rm A")).length ≤ fat12PathMax - 1 :=
  path_whole_iff (by decide) (by decide) true

/-- `rm` with a word of 130 characters. -/
def longLine : List UInt8 := ascii "rm " ++ List.replicate 130 0x41

theorem longLine_facts : PromptLine longLine ∧ firstWord longLine ∈ pathCommands ∧
    fileCall true longLine = some (.deleteFile (List.replicate 127 0x41)) ∧ (secondWord longLine).length = 130 := by
  decide +kernel

/-- The file named by its first 127 characters is deleted. -/
theorem path_not_whole :
    ¬ ∀ (line : List UInt8) (fatReady : Bool), PromptLine line → firstWord line ∈ pathCommands →
      ∀ call, fileCall fatReady line = some call → call.path = secondWord line := by
  intro h
  obtain ⟨hline, hword, hcall, hlen⟩ := longLine_facts
  have hwhole := congrArg List.length (h longLine true hline hword _ hcall)
  rw [hlen, FileCall.path, List.length_replicate] at hwhole
  omega

end AltoniumOS.Console

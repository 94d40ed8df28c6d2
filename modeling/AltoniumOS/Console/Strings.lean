/-
The searching and copying of `string.c`: comparing two strings, finding one in another, and taking the argument of a
command that acts on the rest of its line.
-/
import AltoniumOS.Console.Dispatch
import Mathlib.Data.List.DropRight

namespace AltoniumOS.Console

/-! ## The functions -/

/-- `strcmp_impl`; `char` is signed. -/
def strcmpImpl : List UInt8 → List UInt8 → Int
  | x :: a, y :: b => if x = 0 ∨ y = 0 ∨ x ≠ y then x.toInt8.toInt - y.toInt8.toInt else strcmpImpl a b
  | a, b => (a.headD 0).toInt8.toInt - (b.headD 0).toInt8.toInt

/-- The rounds of `while (haystack[i + j] != '\0' && needle[j] != '\0' && haystack[i + j] == needle[j])`. -/
def matchLength : List UInt8 → List UInt8 → Nat
  | x :: haystack, y :: needle => if x = y then matchLength haystack needle + 1 else 0
  | _, _ => 0

/-- The loop of `string_contains` over the places of the haystack. -/
def searchLoop (needle : List UInt8) : List UInt8 → Bool
  | [] => false
  | x :: haystack => if matchLength (x :: haystack) needle = needle.length then true else searchLoop needle haystack

/-- `string_contains` -/
def stringContains (haystack needle : List UInt8) : Bool :=
  if needle.length = 0 then false else searchLoop needle haystack

/-- The characters that end an argument. -/
def isLineEnd (c : UInt8) : Bool := c == newline || c == carriageReturn

/-- The loop of `copy_path_argument`: whether it came to the end of the line, and what is in `dest`. -/
def copyLoop (maxLen : Nat) : List UInt8 → List UInt8 → Bool × List UInt8
  | [], dest => (true, dest)
  | c :: input, dest =>
    if isLineEnd c then (true, dest)
    else if dest.length + 1 ≥ maxLen then (false, dest)
    else copyLoop maxLen input (dest ++ [c])

/-- `copy_path_argument`: what it returns, and what is in `dest`. -/
def copyPathArgument (input : List UInt8) (maxLen : Nat) : Int × List UInt8 :=
  if maxLen = 0 then (0, [])
  else
    let (whole, dest) := copyLoop maxLen input []
    if whole then
      let dest := dest.rdropWhile isBlank
      (dest.length, dest)
    else (-1, dest)

/-! ## What they find -/

section

variable {a b haystack needle input line : List UInt8} {maxLen : Nat}

/-- Strings without NUL compare equal if they are. -/
theorem strcmpImpl_eq_zero : ∀ {a b : List UInt8}, (0 : UInt8) ∉ a → (0 : UInt8) ∉ b → (strcmpImpl a b = 0 ↔ a = b)
  | [], [], _, _ => iff_of_true rfl rfl
  | [], y :: b, _, hb => by
    have hy : y ≠ 0 := fun h => hb (h ▸ List.mem_cons_self)
    show ((0 : UInt8).toInt8.toInt - y.toInt8.toInt = 0) ↔ _
    rw [toInt8_sub_eq_zero]
    exact iff_of_false hy.symm (List.cons_ne_nil y b).symm
  | x :: a, [], ha, _ => by
    have hx : x ≠ 0 := fun h => ha (h ▸ List.mem_cons_self)
    show (x.toInt8.toInt - (0 : UInt8).toInt8.toInt = 0) ↔ _
    rw [toInt8_sub_eq_zero]
    exact iff_of_false hx (List.cons_ne_nil x a)
  | x :: a, y :: b, ha, hb => by
    have hx : x ≠ 0 := fun h => ha (h ▸ List.mem_cons_self)
    have hy : y ≠ 0 := fun h => hb (h ▸ List.mem_cons_self)
    have hrest := strcmpImpl_eq_zero (fun h => ha (List.mem_cons_of_mem x h)) fun h => hb (List.mem_cons_of_mem y h)
    rw [strcmpImpl, List.cons_eq_cons]
    by_cases hxy : x = y
    · rw [if_neg (by simp [hy, hxy]), hrest, and_iff_right hxy]
    · rw [if_pos (.inr (.inr hxy)), toInt8_sub_eq_zero]
      exact iff_of_false hxy fun h => hxy h.1

theorem matchLength_eq_length :
    ∀ {haystack needle : List UInt8}, matchLength haystack needle = needle.length ↔ needle <+: haystack
  | _, [] => by simp [matchLength]
  | [], y :: needle => by simp [matchLength]
  | x :: haystack, y :: needle => by
    rw [matchLength, List.cons_prefix_cons, List.length_cons]
    by_cases hxy : x = y
    · rw [if_pos hxy, Nat.add_right_cancel_iff, matchLength_eq_length, and_iff_right hxy.symm]
    · rw [if_neg hxy]
      exact iff_of_false (Nat.zero_ne_add_one _) fun h => hxy h.1.symm

theorem searchLoop_iff (hn : needle ≠ []) :
    ∀ {haystack : List UInt8}, searchLoop needle haystack = true ↔ needle <:+: haystack
  | [] => by simp [searchLoop, hn]
  | x :: haystack => by
    rw [searchLoop, List.infix_cons_iff]
    by_cases hp : needle <+: x :: haystack
    · rw [if_pos (matchLength_eq_length.2 hp)]
      exact iff_of_true rfl (.inl hp)
    · rw [if_neg fun h => hp (matchLength_eq_length.1 h), searchLoop_iff hn]
      exact (or_iff_right hp).symm

/-- A needle that is not empty is found wherever it is. -/
theorem stringContains_iff : stringContains haystack needle = true ↔ needle ≠ [] ∧ needle <:+: haystack := by
  unfold stringContains
  by_cases hn : needle = []
  · rw [if_pos (List.length_eq_zero_iff.2 hn)]
    exact iff_of_false Bool.false_ne_true fun h => h.1 hn
  · rw [if_neg fun h => hn (List.length_eq_zero_iff.1 h), searchLoop_iff hn]
    exact (and_iff_right hn).symm

/-! ## Arguments that are the rest of a line -/

/-- The line up to its end, without the blanks at the end. -/
def argumentOf (input : List UInt8) : List UInt8 := (input.takeWhile fun c => !isLineEnd c).rdropWhile isBlank

/-- The loop copies the line, if there is room for it and its terminator. -/
theorem copyLoop_eq :
    ∀ {input dest : List UInt8}, dest.length < maxLen → copyLoop maxLen input dest =
      if dest.length + (input.takeWhile fun c => !isLineEnd c).length < maxLen
      then (true, dest ++ input.takeWhile fun c => !isLineEnd c) else (false, (dest ++ input).take (maxLen - 1))
  | [], dest, h => by
    rw [copyLoop, List.takeWhile_nil, if_pos (by simpa using h), List.append_nil]
  | c :: input, dest, h => by
    rw [copyLoop, List.takeWhile_cons]
    cases hc : isLineEnd c with
    | true => simpa using h
    | false =>
      rw [if_neg Bool.false_ne_true, if_pos Bool.not_false, List.length_cons]
      by_cases hroom : dest.length + 1 ≥ maxLen
      · rw [if_pos hroom, if_neg (by omega), List.take_append_of_le_length (by omega),
          List.take_of_length_le (by omega)]
      · rw [if_neg hroom, copyLoop_eq (by rw [List.length_append, List.length_singleton]; omega)]
        simp only [List.length_append, List.length_singleton, List.append_assoc, List.singleton_append]
        rw [Nat.add_right_comm, Nat.add_assoc]

/-- `copy_path_argument` takes the whole argument, or refuses it. -/
theorem copyPathArgument_eq (h : 0 < maxLen) (input : List UInt8) :
    copyPathArgument input maxLen =
      if (input.takeWhile fun c => !isLineEnd c).length < maxLen
      then (((argumentOf input).length : Int), argumentOf input) else (-1, input.take (maxLen - 1)) := by
  have hnil : ([] : List UInt8).length < maxLen := h
  unfold copyPathArgument
  rw [if_neg (by omega), copyLoop_eq hnil, List.length_nil, Nat.zero_add, List.nil_append]
  by_cases hlt : (input.takeWhile fun c => !isLineEnd c).length < maxLen
  · rw [if_pos hlt, if_pos hlt]
    rfl
  · rw [if_neg hlt, if_neg hlt]
    rfl

/-! ## What the commands take from a line of the prompt -/

/-- The rest of a line behind its first word, without the spaces around it. -/
def argument (line : List UInt8) : List UInt8 := (fromWord (afterWord line)).rdropWhile (· == space)

theorem PromptLine.after (h : PromptLine line) : PromptLine (afterWord line) := h.of_suffix (afterWord_suffix line)

theorem rdropWhile_congr {p q : UInt8 → Bool} {l : List UInt8} (h : ∀ c ∈ l, p c = q c) :
    l.rdropWhile p = l.rdropWhile q := by
  unfold List.rdropWhile
  rw [dropWhile_congr fun c hc => h c (List.mem_reverse.1 hc)]

theorem isLineEnd_prompt (h : PromptLine line) {c : UInt8} (hc : c ∈ line) : isLineEnd c = false := by
  have hlow := (h.printable c hc).1
  unfold isLineEnd
  rw [Bool.or_eq_false_iff, beq_eq_false_iff_ne, beq_eq_false_iff_ne]
  constructor <;> · rintro rfl; exact absurd hlow (by decide)

/-- All of what is behind the word, if there is room for it. -/
theorem copyPathArgument_prompt (h : PromptLine line) (hmax : 0 < maxLen) :
    copyPathArgument (skipWhitespace (afterWord line)) maxLen =
      if (fromWord (afterWord line)).length < maxLen then (((argument line).length : Int), argument line)
      else (-1, (fromWord (afterWord line)).take (maxLen - 1)) := by
  have hall : (fromWord (afterWord line)).takeWhile (fun c => !isLineEnd c) = fromWord (afterWord line) :=
    List.takeWhile_eq_self_iff.2 fun c hc => by rw [isLineEnd_prompt h.after (mem_fromWord hc), Bool.not_false]
  have harg : argumentOf (fromWord (afterWord line)) = argument line := by
    unfold argumentOf argument
    rw [hall]
    exact rdropWhile_congr fun c hc => h.after.isBlank (mem_fromWord hc)
  rw [h.after.skipWhitespace, copyPathArgument_eq hmax, hall, harg]

/-- There is an argument where there is anything behind the word. -/
theorem argument_eq_nil : argument line = [] ↔ fromWord (afterWord line) = [] := by
  unfold argument
  rw [List.rdropWhile_eq_nil_iff]
  refine ⟨fun hall => ?_, fun hnil c hc => by rw [hnil] at hc; cases hc⟩
  cases hw : fromWord (afterWord line) with
  | nil => rfl
  | cons c rest =>
    -- what is left begins with a character that is no space
    have hspace := hall c (hw ▸ List.mem_cons_self)
    have hhead := List.head?_dropWhile_not (· == space) (afterWord line)
    have hdrop : (afterWord line).dropWhile (· == space) = c :: rest := hw
    rw [hdrop] at hhead
    rw [List.head?_cons] at hhead
    exact absurd hspace (by simpa using hhead)

/-- The token that a handler takes, and the input behind it. -/
theorem readToken_prompt (h : PromptLine line) (hmax : 1 < maxLen) (hw : firstWord line ≠ []) :
    readToken line maxLen = (((firstWord line).take (maxLen - 1)).length, (firstWord line).take (maxLen - 1),
      afterWord line) := by
  have hne : fromWord line ≠ [] := fun hnil => hw (firstWord_eq_nil.2 hnil)
  have hblank : ∀ c ∈ fromWord line, (!isBlank c) = (c != space) := fun c hc => by
    rw [h.isBlank (mem_fromWord hc)]
    rfl
  unfold readToken
  rw [if_neg (by omega), h.skipWhitespace]
  dsimp only
  rw [if_neg hne, tokenLoop_eq maxLen _ [] (Nat.zero_le _), List.nil_append, takeWhile_congr hblank,
    dropWhile_congr hblank]
  rfl

/-- A handler of one token prints its usage, or does what it does with the token. -/
theorem withToken_prompt (h : PromptLine line) {usage : String} {body : List UInt8 → List UInt8 → Reply} :
    withToken true usage line body = if firstWord line = [] then .refused [printText usage]
      else body ((firstWord line).take (fat12PathMax - 1)) (afterWord line) := by
  unfold withToken
  rw [if_neg (by decide)]
  by_cases hw : firstWord line = []
  · have hread : readToken line fat12PathMax = (0, [], line) := by
      unfold readToken
      rw [if_neg (by decide), h.skipWhitespace]
      dsimp only
      rw [if_pos (firstWord_eq_nil.1 hw)]
    rw [hread, if_pos hw]
    rfl
  · have hpos : ((firstWord line).take (fat12PathMax - 1)).length ≠ 0 := by
      rw [List.length_take]
      have := List.length_pos_iff.2 hw
      unfold fat12PathMax
      omega
    rw [readToken_prompt h (by decide) hw, if_neg hw]
    dsimp only
    rw [if_neg hpos]

end

end AltoniumOS.Console

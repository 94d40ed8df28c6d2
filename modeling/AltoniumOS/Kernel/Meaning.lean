/-
What the lines of the prompt mean to a tree of files: the command that a line spells, what it prints of the
tree, and what becomes of the tree. `execute_command` on the driver does what its line means.
-/
import AltoniumOS.Kernel.Histories
import AltoniumOS.System.Roundtrip

namespace AltoniumOS.Kernel

open AltoniumOS.Lib AltoniumOS.Console
open AltoniumOS.Fat12 (Code Call Change Files FileName DirEntryInfo Tells ShowsPath Represents Reliable
  attrDirectory maxPathDepth troubleCode slash)
open AltoniumOS.Nano (ioBufferSize)

/-! ## Commands -/

/-- The commands on files and directories. -/
inductive FileCommand where
  | list (path : List UInt8)
  | here
  | go (path : List UInt8)
  | print (path : List UInt8)
  | touch (path : List UInt8)
  | write (path text : List UInt8)
  | make (path : List UInt8)
  | remove (path : List UInt8)

/-- A command that takes the rest of its line, or finds it too long. -/
def takesRest (name : String) (line : List UInt8) (command : List UInt8 → Except (List Output) FileCommand) :
    Except (List Output) FileCommand :=
  if (fromWord (afterWord line)).length < fat12PathMax then command (argument line)
  else .error [printText (name ++ " failed (path too long)\n")]

/-- A command that takes the next word, cut to the length of a path, or prints its usage. -/
def takesWord (usage : String) (line : List UInt8) (command : List UInt8 → FileCommand) :
    Except (List Output) FileCommand :=
  if secondWord line = [] then .error [printText usage]
    else .ok (command ((secondWord line).take (fat12PathMax - 1)))

/-- The command that a line spells, if its first word is one of theirs; or what is printed for one without its
argument. -/
def FileCommand.read (line : List UInt8) : Option (Except (List Output) FileCommand) :=
  if firstWord line = ascii "ls" ∨ firstWord line = ascii "dir"
    then some (takesRest "ls" line fun path => .ok (.list path))
  else if firstWord line = ascii "pwd" then some (.ok .here)
  else if firstWord line = ascii "cd" then some (takesRest "cd" line fun path => .ok (.go path))
  else if firstWord line = ascii "cat" then
    some (takesRest "cat" line fun path => if path = [] then .error [printText "Usage: cat FILE\n"]
      else .ok (.print path))
  else if firstWord line = ascii "touch" then some (takesWord "Usage: touch NAME\n" line .touch)
  else if firstWord line = ascii "write" then
    some (takesWord "Usage: write NAME TEXT\n" line fun path => .write path (fromWord (afterWord (afterWord line))))
  else if firstWord line = ascii "mkdir" then some (takesWord "Usage: mkdir NAME\n" line .make)
  else if firstWord line = ascii "rm" then some (takesWord "Usage: rm NAME\n" line .remove)
  else none

/-! ## What they print -/

/-- The line of a listing for a name. -/
def nodeLine (n : FileName) : Option (Node (List UInt8)) → List Output
  | some .dir => [printText "[DIR] ", .print n.display, printText "\n"]
  | some (.file content) =>
    [printText "      ", .print n.display, printText " ("] ++ printUnsigned content.length ++
      [printText " bytes)", printText "\n"]
  | none => []

/-- The list of a directory: each name in it once, with what it is; or that there is none. -/
def Lists (F : Files) (p : List FileName) (out : List Output) : Prop :=
  ∃ ns : List FileName, ns.Nodup ∧ (∀ n, n ∈ ns ↔ (F.tree.node (p ++ [n])).isSome = true) ∧
    out = if ns = [] then [printText "(empty)\n"] else ns.flatMap fun n => nodeLine n (F.tree.node (p ++ [n]))

/-- The path of a directory, as far as there is room for it. -/
def PrintsPath (p : List FileName) (out : List Output) : Prop :=
  ∃ text, ShowsPath ((p.take maxPathDepth).map FileName.display) text ∧ out = [.print text, printText "\n"]

/-- The bytes of a file, on lines of their own. -/
def printsContent (content : List UInt8) : List Output :=
  content.map .putchar ++ if content.getLast? = some newline then [] else [printText "\n"]

/-- A change, and what is printed of how it ended. -/
def Prints (F : Files) (x : Change) (name : String) (done : List Output) (out : List Output) (F' : Files) : Prop :=
  ∃ e, F.Changes x e F' ∧ out = if e = .ok then done else printFailed name e

/-- What a command prints, and what becomes of the tree. -/
def Means (F : Files) : FileCommand → List Output → Files → Prop
  | .list path, out, F' => F' = F ∧
    match if path = [] then .ok F.cwd else F.leads path with
    | .error t => out = printFailed "ls" (troubleCode t)
    | .ok p => Lists F p out
  | .here, out, F' => F' = F ∧ PrintsPath F.cwd out
  | .go path, out, F' =>
    match F.leads (if path = [] then [slash] else path) with
    | .error t => F' = F ∧ out = printFailed "cd" (troubleCode t)
    | .ok p => F'.tree = F.tree ∧ F'.cwd = p ∧ PrintsPath p out
  | .print path, out, F' => F' = F ∧ out =
    match F.contents path (ioBufferSize - 1) with
    | .error e => printFailed "cat" e
    | .ok content => printsContent content
  | .touch path, out, F' =>
    Prints F (.writeFile path none 0) "touch" [printText "Created empty file: ", .print path, printText "\n"] out F'
  | .write path text, out, F' => ∃ data, Files.bytesOf (some data) text.length = text ∧
    Prints F (.writeFile path (some data) text.length) "write"
      ([printText "Wrote "] ++ printUnsigned text.length ++ [printText " bytes\n"]) out F'
  | .make path, out, F' => Prints F (.createDirectory path) "mkdir" [printText "Directory created\n"] out F'
  | .remove path, out, F' => Prints F (.deleteFile path) "rm" [printText "File deleted\n"] out F'

/-- A line with one of these words prints what it lacks, or what its command means. -/
def Follows (F : Files) : Except (List Output) FileCommand → List Output → Files → Prop
  | .error printed, out, F' => out = printed ∧ F' = F
  | .ok command, out, F' => Means F command out F'

/-- What a line does: a command on files changes nothing but the I/O buffer beside the tree, and any other line
leaves the tree as it is. -/
def Does (desk : Desk) (F : Files) (line : List UInt8) (res : Option (Desk × List Output)) (F' : Files) : Prop :=
  match FileCommand.read line with
  | none => F' = F
  | some spelled => ∃ buffer out, res = some ({ desk with fsIoBuffer := buffer }, out) ∧ Follows F spelled out F'

/-! ## The handlers -/

section

variable {F F' : Files} {desk : Desk} {line args : List UInt8} {out : List Output}
  {res : Option (Desk × List Output)} {r : Report} {current : Fin themeCount}

theorem entry_nodeLine {info : DirEntryInfo} {n : FileName} {v : Node (List UInt8)} (h : Tells info n v)
    (ctx : LsContext) : lsCallback ctx info = (false, ⟨ctx.count + 1, ctx.printed ++ nodeLine n (some v)⟩) := by
  unfold lsCallback nodeLine
  cases v with
  | dir =>
    obtain ⟨hname, hattr⟩ := h
    simp [hname, hattr]
  | file content =>
    obtain ⟨hname, hattr, hsize⟩ := h
    simp [hname, hattr, hsize]

/-- The callback of `ls` over the names of a directory. -/
theorem feed_lsCallback {node : FileName → Option (Node (List UInt8))} {ns : List FileName} {l : List DirEntryInfo}
    (h : List.Forall₂ (fun n info => ∃ v, node n = some v ∧ Tells info n v) ns l) :
    ∀ ctx : LsContext,
      Fat12.feed lsCallback l ctx =
        (false, ⟨ctx.count + ns.length, ctx.printed ++ ns.flatMap fun n => nodeLine n (node n)⟩) := by
  induction h with
  | nil =>
    intro ctx
    rw [Fat12.feed, List.flatMap_nil, List.append_nil]
    rfl
  | @cons n info ns l hinfo _ ih =>
    intro ctx
    obtain ⟨v, hv, htells⟩ := hinfo
    rw [Fat12.feed, entry_nodeLine htells]
    dsimp only
    rw [ih, List.flatMap_cons, hv, List.length_cons, List.append_assoc, Nat.add_assoc, Nat.add_comm 1]

/-- What `ls` prints behind the calls of its callback. -/
theorem lists_of_listing {p : List FileName} {l : List DirEntryInfo} (h : F.Listing p l) :
    Lists F p ((Fat12.feed lsCallback l ⟨0, []⟩).2.printed ++ if (Fat12.feed lsCallback l ⟨0, []⟩).2.count = 0
      then [printText "(empty)\n"] else []) := by
  obtain ⟨ns, hnodup, hmem, hall⟩ := h
  refine ⟨ns, hnodup, hmem, ?_⟩
  rw [feed_lsCallback hall]
  cases ns with
  | nil => rfl
  | cons n ns => simp

/-- The argument of `ls` and `cd`. -/
theorem optionalPath_prompt (h : PromptLine line) : optionalPath (afterWord line) =
    if (fromWord (afterWord line)).length < fat12PathMax then (((argument line).length : Int), argument line)
    else (-1, (fromWord (afterWord line)).take (fat12PathMax - 1)) := by
  unfold optionalPath
  by_cases hrest : fromWord (afterWord line) = []
  · rw [h.after.skipWhitespace, hrest, if_neg (fun hne => hne rfl), if_pos (by decide), argument_eq_nil.2 hrest]
    rfl
  · dsimp only
    rw [if_pos (by rw [h.after.skipWhitespace]; exact hrest), copyPathArgument_prompt h (by decide)]

theorem handleLs_means (h : PromptLine line) (hr : (handleLs true (afterWord line)).Runs Tree F out F') :
    Follows F (takesRest "ls" line fun path => .ok (.list path)) out F' := by
  unfold handleLs at hr
  unfold takesRest
  rw [if_neg (by decide), optionalPath_prompt h] at hr
  by_cases hroom : (fromWord (afterWord line)).length < fat12PathMax
  · rw [if_pos hroom] at hr ⊢
    dsimp only at hr ⊢
    rw [if_neg (by omega)] at hr
    by_cases hnil : argument line = []
    · rw [if_neg (by rw [hnil]; decide)] at hr
      obtain ⟨⟨result, ctx⟩, F₁, hcall, hr⟩ := Client.runs_bind.1 hr
      obtain ⟨rfl, l, hl, heq⟩ := Client.runs_request.1 hcall
      cases heq
      obtain ⟨rfl, rfl⟩ := Client.runs_pure.1 hr
      refine ⟨rfl, ?_⟩
      rw [if_pos hnil]
      exact lists_of_listing hl
    · rw [if_pos (by have := List.length_pos_iff.2 hnil; omega)] at hr
      obtain ⟨⟨result, ctx⟩, F₁, hcall, hr⟩ := Client.runs_bind.1 hr
      obtain ⟨rfl, hcall⟩ := Client.runs_request.1 hcall
      rw [Follows, Means, if_neg hnil]
      cases hlead : F₁.leads (argument line) with
      | error t =>
        rw [hlead] at hcall
        cases hcall
        rw [if_pos (by cases t <;> decide)] at hr
        obtain ⟨rfl, rfl⟩ := Client.runs_pure.1 hr
        exact ⟨rfl, rfl⟩
      | ok p =>
        rw [hlead] at hcall
        obtain ⟨l, hl, heq⟩ := hcall
        cases heq
        obtain ⟨rfl, rfl⟩ := Client.runs_pure.1 hr
        exact ⟨rfl, lists_of_listing hl⟩
  · rw [if_neg hroom] at hr ⊢
    obtain ⟨rfl, rfl⟩ := Client.runs_pure.1 hr
    exact ⟨rfl, rfl⟩

/-- The path that `pwd` and `cd` print. -/
theorem getCwd_prints
    (hr : (getCwd >>= fun cwd => (pure [.print cwd, printText "\n"] : Program (List Output))).Runs Tree F out F') :
    F' = F ∧ PrintsPath F.cwd out := by
  obtain ⟨cwd, F₁, hcall, hdone⟩ := Client.runs_bind.1 hr
  obtain ⟨rfl, rfl⟩ := Client.runs_pure.1 hdone
  obtain ⟨hsame, htext⟩ := Client.runs_request.1 hcall
  exact ⟨hsame, cwd, htext, rfl⟩

theorem handlePwd_means (hr : (handlePwd true).Runs Tree F out F') : Means F .here out F' := by
  unfold handlePwd at hr
  rw [if_neg (by decide)] at hr
  exact getCwd_prints hr

/-- What `cd` does with its path. -/
theorem changeDirectory_means {path : List UInt8}
    (hr : (changeDirectory path >>= fun result => if result ≠ .ok then pure (printFailed "cd" result)
      else getCwd >>= fun cwd => (pure [.print cwd, printText "\n"] : Program (List Output))).Runs Tree F out F') :
    match F.leads path with
    | .error t => F' = F ∧ out = printFailed "cd" (troubleCode t)
    | .ok p => F'.tree = F.tree ∧ F'.cwd = p ∧ PrintsPath p out := by
  obtain ⟨result, F₁, hcall, hrest⟩ := Client.runs_bind.1 hr
  have hmoved := Client.runs_request.1 hcall
  change match F.leads path with
    | .error t => result = troubleCode t ∧ F₁ = F
    | .ok p => result = .ok ∧ F₁.tree = F.tree ∧ F₁.cwd = p at hmoved
  cases hlead : F.leads path with
  | error t =>
    rw [hlead] at hmoved
    obtain ⟨rfl, rfl⟩ := hmoved
    rw [if_pos (by cases t <;> decide)] at hrest
    obtain ⟨rfl, rfl⟩ := Client.runs_pure.1 hrest
    exact ⟨rfl, rfl⟩
  | ok p =>
    rw [hlead] at hmoved
    obtain ⟨rfl, htree, rfl⟩ := hmoved
    rw [if_neg (fun hne => hne rfl)] at hrest
    obtain ⟨rfl, hprint⟩ := getCwd_prints hrest
    exact ⟨htree, rfl, hprint⟩

theorem handleCd_means (h : PromptLine line) (hr : (handleCd true (afterWord line)).Runs Tree F out F') :
    Follows F (takesRest "cd" line fun path => .ok (.go path)) out F' := by
  unfold handleCd at hr
  unfold takesRest
  rw [if_neg (by decide), optionalPath_prompt h] at hr
  by_cases hroom : (fromWord (afterWord line)).length < fat12PathMax
  · rw [if_pos hroom] at hr ⊢
    dsimp only at hr ⊢
    rw [if_neg (by omega)] at hr
    by_cases hnil : argument line = []
    · rw [if_pos (by rw [hnil]; rfl)] at hr
      rw [Follows, Means, if_pos hnil]
      exact changeDirectory_means hr
    · rw [if_neg (by have := List.length_pos_iff.2 hnil; omega)] at hr
      rw [Follows, Means, if_neg hnil]
      exact changeDirectory_means hr
  · rw [if_neg hroom] at hr ⊢
    obtain ⟨rfl, rfl⟩ := Client.runs_pure.1 hr
    exact ⟨rfl, rfl⟩

/-- The bytes that `cat` sends from its buffer are those of the file. -/
theorem printsContent_eq (content : List UInt8) (buffer : Buf) :
    (List.range content.length).map (fun i => Output.putchar ((content[i]?).getD (buffer i))) ++
      (if content.length = 0 ∨ (content[content.length - 1]?).getD (buffer (content.length - 1)) ≠ newline
        then [printText "\n"] else []) =
    printsContent content := by
  unfold printsContent
  congr 1
  · refine List.ext_getElem (by simp) fun i h1 h2 => ?_
    simp only [List.length_map, List.length_range] at h1
    simp [List.getElem?_eq_getElem h1]
  · rw [List.getLast?_eq_getElem?]
    rcases List.eq_nil_or_concat content with rfl | ⟨l, c, rfl⟩
    · rfl
    · simp

theorem handleCat_means (h : PromptLine line) {buffer : Buf} {a : List Output × Buf}
    (hr : (handleCat true (afterWord line) buffer).Runs Tree F a F') :
    Follows F (takesRest "cat" line fun path => if path = [] then .error [printText "Usage: cat FILE\n"]
      else .ok (.print path)) a.1 F' := by
  unfold handleCat at hr
  unfold takesRest
  rw [if_neg (by decide), copyPathArgument_prompt h (by decide)] at hr
  by_cases hroom : (fromWord (afterWord line)).length < fat12PathMax
  · rw [if_pos hroom] at hr ⊢
    dsimp only at hr ⊢
    rw [if_neg (by omega)] at hr
    by_cases hnil : argument line = []
    · rw [hnil] at hr
      rw [if_pos hnil]
      obtain ⟨rfl, rfl⟩ := Client.runs_pure.1 hr
      exact ⟨rfl, rfl⟩
    · rw [if_neg (by have := List.length_pos_iff.2 hnil; omega)] at hr
      rw [if_neg hnil]
      obtain ⟨b, F₁, hcall, hrest⟩ := Client.runs_bind.1 hr
      have hread := Client.runs_request.1 hcall
      change F₁ = F ∧ b = F.read (argument line) buffer (ioBufferSize - 1) at hread
      obtain ⟨rfl, rfl⟩ := hread
      rw [Files.read_eq] at hrest
      rw [Follows, Means]
      cases hfound : F₁.contents (argument line) (ioBufferSize - 1) with
      | error e =>
        rw [hfound] at hrest
        dsimp only at hrest
        rw [if_pos fun he => Files.contents_ne_ok (he ▸ hfound)] at hrest
        obtain ⟨rfl, rfl⟩ := Client.runs_pure.1 hrest
        exact ⟨rfl, rfl⟩
      | ok content =>
        rw [hfound] at hrest
        dsimp only [Option.getD_some] at hrest
        rw [if_neg (fun hne => hne rfl)] at hrest
        obtain ⟨rfl, rfl⟩ := Client.runs_pure.1 hrest
        exact ⟨rfl, printsContent_eq content buffer⟩
  · rw [if_neg hroom] at hr ⊢
    obtain ⟨rfl, rfl⟩ := Client.runs_pure.1 hr
    exact ⟨rfl, rfl⟩

/-- The change that a call asks for, from what the I/O buffer holds. -/
def changeOf (buffer : Buf) : FileCall → Option Change
  | .writeFile name none => some (.writeFile name none 0)
  | .writeFile name (some data) => some (.writeFile name (some (overwrite data buffer)) data.length)
  | .createDirectory name => some (.createDirectory name)
  | .deleteFile name => some (.deleteFile name)
  | .initEditor _ => none

theorem runFileCall_changes {buffer : Buf} {call : FileCall} {x : Change} {a : Code × Buf}
    (hx : changeOf buffer call = some x) (hr : (runFileCall buffer call).Runs Tree F a F') :
    F.Changes x a.1 F' := by
  rcases call with ⟨name, - | data⟩ | name | name | name <;> cases hx
  all_goals
    obtain ⟨result, F₁, hcall, hrest⟩ := Client.runs_bind.1 hr
    obtain ⟨rfl, rfl⟩ := Client.runs_pure.1 hrest
    exact Client.runs_request.1 hcall

/-- A handler that makes one call prints how the change ended. -/
theorem runReply_prints {buffer : Buf} {call : FileCall} {x : Change} {name : String} {done : List Output}
    {a : List Output × Buf} (hx : changeOf buffer call = some x)
    (hr : (runReply buffer (.made call fun result => if result ≠ .ok then printFailed name result else done)).Runs
      Tree F a F') :
    Prints F x name done a.1 F' := by
  obtain ⟨b, F₁, hcall, hrest⟩ := Client.runs_bind.1 hr
  obtain ⟨rfl, rfl⟩ := Client.runs_pure.1 hrest
  exact ⟨b.1, runFileCall_changes hx hcall, ite_not ..⟩

theorem runReply_word (h : PromptLine line) {buffer : Buf} {usage : String} {body : List UInt8 → List UInt8 → Reply}
    {a : List Output × Buf} {command : List UInt8 → FileCommand}
    (hbody : (runReply buffer (body ((secondWord line).take (fat12PathMax - 1)) (afterWord (afterWord line)))).Runs
      Tree F a F' → Means F (command ((secondWord line).take (fat12PathMax - 1))) a.1 F')
    (hr : (runReply buffer (withToken true usage (afterWord line) body)).Runs Tree F a F') :
    Follows F (takesWord usage line command) a.1 F' := by
  rw [withToken_prompt h.after, show firstWord (afterWord line) = secondWord line from rfl] at hr
  unfold takesWord
  by_cases hword : secondWord line = []
  · rw [if_pos hword] at hr ⊢
    obtain ⟨rfl, rfl⟩ := Client.runs_pure.1 hr
    exact ⟨rfl, rfl⟩
  · rw [if_neg hword] at hr ⊢
    exact hbody hr

theorem bytesOf_overwrite (text : List UInt8) (buffer : Buf) :
    Files.bytesOf (some (overwrite text buffer)) text.length = text := by
  refine List.ext_getElem Files.length_bytesOf fun i h1 h2 => ?_
  simp [Files.bytesOf, overwrite, List.getElem?_eq_getElem h2]

theorem handleWriteCommand_means (h : PromptLine line) {buffer : Buf} {a : List Output × Buf}
    (hr : (runReply buffer (handleWriteCommand true (afterWord line))).Runs Tree F a F') :
    Follows F (takesWord "Usage: write NAME TEXT\n" line fun path =>
      .write path (fromWord (afterWord (afterWord line)))) a.1 F' := by
  refine runReply_word h (fun hmade => ?_) hr
  have hshort : (fromWord (afterWord (afterWord line))).length ≤ ioBufferSize := by
    have hlen := (List.dropWhile_sublist (· == space) (l := afterWord (afterWord line))).length_le
    exact (hlen.trans h.after.after.length).trans (by decide)
  rw [h.after.after.skipWhitespace] at hmade
  dsimp only at hmade
  rw [if_neg (by omega)] at hmade
  exact ⟨_, bytesOf_overwrite _ buffer, runReply_prints rfl hmade⟩

/-! ## Dispatch -/

/-- The handlers that do not come near the files. -/
def IsQuiet : Handler → Bool
  | .ls _ | .pwd | .cd _ | .cat _ | .touch _ | .write _ | .mkdir _ | .rm _ => false
  | _ => true

theorem runs_printing {p : Program (List Output)} (hr : (printing desk p).Runs Tree F res F') :
    ∃ out, p.Runs Tree F out F' ∧ res = some (desk, out) := by
  obtain ⟨out, F₁, hp, hrest⟩ := Client.runs_bind.1 hr
  obtain ⟨rfl, rfl⟩ := Client.runs_pure.1 hrest
  exact ⟨out, hp, rfl⟩

theorem runs_buffering {run : Buf → Program (List Output × Buf)} (hr : (buffering desk run).Runs Tree F res F') :
    ∃ a, (run desk.fsIoBuffer).Runs Tree F a F' ∧ res = some ({ desk with fsIoBuffer := a.2 }, a.1) := by
  obtain ⟨a, F₁, hp, hrest⟩ := Client.runs_bind.1 hr
  obtain ⟨rfl, rfl⟩ := Client.runs_pure.1 hrest
  exact ⟨a, hp, rfl⟩

/-- `nano` reads its file, or is refused. -/
theorem handleNanoCommand_call (fatReady : Bool) (args : List UInt8) :
    (∃ filename f, Console.handleNanoCommand fatReady args = .made (.initEditor filename) f) ∨
      ∃ outputs, Console.handleNanoCommand fatReady args = .refused outputs := by
  unfold Console.handleNanoCommand withToken
  split
  · exact .inr ⟨_, rfl⟩
  · dsimp only
    split
    · exact .inr ⟨_, rfl⟩
    · exact .inl ⟨_, _, rfl⟩

theorem handleNanoCommand_quiet (hr : (handleNanoCommand current args desk).Runs Tree F res F') : F' = F := by
  unfold handleNanoCommand at hr
  obtain ⟨filename, f, hcall⟩ | ⟨outputs, hcall⟩ := handleNanoCommand_call desk.fatReady args
  · rw [hcall] at hr
    obtain ⟨a, F₁, hinit, hrest⟩ := Client.runs_bind.1 hr
    obtain ⟨-, rfl⟩ := Client.runs_pure.1 hrest
    obtain ⟨b, F₂, hread, hdone⟩ := Client.runs_bind.1 hinit
    obtain ⟨-, rfl⟩ := Client.runs_pure.1 hdone
    exact (Client.runs_request.1 hread).1
  · rw [hcall] at hr
    obtain ⟨a, hreply, -⟩ := runs_buffering hr
    exact (Client.runs_pure.1 hreply).2

theorem handleShutdown_quiet (hr : (handleShutdown desk).Runs Tree F res F') : F' = F := by
  unfold handleShutdown at hr
  split at hr
  · obtain ⟨e, F₁, hcall, hrest⟩ := Client.runs_bind.1 hr
    obtain ⟨-, rfl⟩ := Client.runs_pure.1 hrest
    exact (Client.runs_request.1 hcall).2
  · exact (Client.runs_pure.1 hr).2

/-- Such a handler leaves the tree as it is. -/
theorem runHandler_quiet {handler : Handler} (hq : IsQuiet handler = true)
    (hr : (runHandler r current desk handler).Runs Tree F res F') : F' = F := by
  cases handler
  case ls | pwd | cd | cat | touch | write | mkdir | rm => cases hq
  case nano args => exact handleNanoCommand_quiet hr
  case shutdown => exact handleShutdown_quiet hr
  all_goals
    obtain ⟨out, hp, -⟩ := runs_printing hr
    exact (Client.runs_pure.1 hp).2

theorem ite_some_eq_none {α : Type} {c : Prop} [Decidable c] {a : α} {more : Option α} :
    (if c then some a else more) = none ↔ ¬c ∧ more = none := by
  split <;> simp [*]

theorem read_eq_none :
    FileCommand.read line = none ↔ (firstWord line ≠ ascii "ls" ∧ firstWord line ≠ ascii "dir") ∧
      firstWord line ≠ ascii "pwd" ∧ firstWord line ≠ ascii "cd" ∧ firstWord line ≠ ascii "cat" ∧
      firstWord line ≠ ascii "touch" ∧ firstWord line ≠ ascii "write" ∧ firstWord line ≠ ascii "mkdir" ∧
      firstWord line ≠ ascii "rm" := by
  unfold FileCommand.read
  simp only [ite_some_eq_none, not_or, and_true, ne_eq]

theorem quiet_ite {c : Prop} [Decidable c] {handler handler' : Handler} {more : Option Handler}
    (hc : c → IsQuiet handler' = true) (hmore : more = some handler → IsQuiet handler = true)
    (h : (if c then some handler' else more) = some handler) : IsQuiet handler = true := by
  by_cases hcond : c
  · rw [if_pos hcond] at h
    cases h
    exact hc hcond
  · rw [if_neg hcond] at h
    exact hmore h

/-- A word without a command on files has such a handler, or none. -/
theorem handlerOf_quiet (hread : FileCommand.read line = none) {rest : List UInt8} {handler : Handler} :
    handlerOf (firstWord line) rest = some handler → IsQuiet handler = true := by
  obtain ⟨⟨hls, hdir⟩, hpwd, hcd, hcat, htouch, hwrite, hmkdir, hrm⟩ := read_eq_none.1 hread
  unfold handlerOf
  refine quiet_ite (fun _ => rfl)
    (quiet_ite (fun _ => rfl) (quiet_ite (fun _ => rfl) (quiet_ite (fun _ => rfl) ?_)))
  refine quiet_ite (absurd · hls)
    (quiet_ite (absurd · hdir) (quiet_ite (absurd · hpwd) (quiet_ite (absurd · hcd) ?_)))
  refine quiet_ite (absurd · hcat)
    (quiet_ite (absurd · htouch) (quiet_ite (absurd · hwrite) (quiet_ite (absurd · hmkdir) ?_)))
  refine quiet_ite (absurd · hrm)
    (quiet_ite (fun _ => rfl) (quiet_ite (fun _ => rfl) (quiet_ite (fun _ => rfl) ?_)))
  exact quiet_ite (fun _ => rfl)
    (quiet_ite (fun _ => rfl) (quiet_ite (fun _ => rfl) (quiet_ite (fun _ => rfl) nofun)))

theorem executeCommand_quiet (h : PromptLine line) (hread : FileCommand.read line = none)
    (hr : (executeCommand r current desk line).Runs Tree F res F') : F' = F := by
  have hprinting : ∀ {out}, (printing desk (pure out)).Runs Tree F res F' → F' = F := fun hp => by
    obtain ⟨_, hp, -⟩ := runs_printing hp
    exact (Client.runs_pure.1 hp).2
  unfold executeCommand at hr
  by_cases hnil : line = []
  · rw [hnil] at hr
    exact hprinting hr
  rw [executeCommand_eq h hnil] at hr
  by_cases hecho : fromWord line = ascii "echo"
  · rw [if_pos hecho] at hr
    exact hprinting hr
  rw [if_neg hecho] at hr
  cases hh : handlerOf (firstWord line) (afterWord line) with
  | none =>
    rw [hh] at hr
    exact hprinting hr
  | some handler =>
    rw [hh] at hr
    exact runHandler_quiet (handlerOf_quiet hread hh) hr

/-- A line whose word has the handler runs it. -/
theorem executeCommand_runs (h : PromptLine line) (handler : List UInt8 → Handler)
    (hh : ∀ rest, handlerOf (firstWord line) rest = some (handler rest)) (hecho : firstWord line ≠ ascii "echo")
    (hw : firstWord line ≠ []) (hr : (executeCommand r current desk line).Runs Tree F res F') :
    (runHandler r current desk (handler (afterWord line))).Runs Tree F res F' := by
  unfold executeCommand at hr
  rw [executeCommand_path h handler hh hecho hw] at hr
  exact hr

/-- What a printing command does. -/
theorem does_printing {spelled : Except (List Output) FileCommand} (hread : FileCommand.read line = some spelled)
    {p : Program (List Output)} (hr : (printing desk p).Runs Tree F res F')
    (hp : ∀ out, p.Runs Tree F out F' → Follows F spelled out F') : Does desk F line res F' := by
  obtain ⟨out, hrun, rfl⟩ := runs_printing hr
  unfold Does
  rw [hread]
  exact ⟨_, out, rfl, hp out hrun⟩

theorem does_buffering {spelled : Except (List Output) FileCommand} (hread : FileCommand.read line = some spelled)
    {run : Buf → Program (List Output × Buf)} (hr : (buffering desk run).Runs Tree F res F')
    (hp : ∀ a, (run desk.fsIoBuffer).Runs Tree F a F' → Follows F spelled a.1 F') : Does desk F line res F' := by
  obtain ⟨a, hrun, rfl⟩ := runs_buffering hr
  unfold Does
  rw [hread]
  exact ⟨_, a.1, rfl, hp a hrun⟩

/-- Every line does what it means. -/
theorem executeCommand_does (h : PromptLine line) (hready : desk.fatReady = true)
    (hr : (executeCommand r current desk line).Runs Tree F res F') : Does desk F line res F' := by
  by_cases hls : firstWord line = ascii "ls" ∨ firstWord line = ascii "dir"
  · have hrun : (printing desk (handleLs desk.fatReady (afterWord line))).Runs Tree F res F' := by
      rcases hls with hw | hw
      · exact executeCommand_runs h .ls (fun rest => by rw [hw]; rfl) (by rw [hw]; decide) (by rw [hw]; decide) hr
      · exact executeCommand_runs h .ls (fun rest => by rw [hw]; rfl) (by rw [hw]; decide) (by rw [hw]; decide) hr
    rw [hready] at hrun
    exact does_printing (if_pos hls) hrun fun out => handleLs_means h
  by_cases hw : firstWord line = ascii "pwd"
  · have hrun :=
      executeCommand_runs h (fun _ => .pwd) (fun rest => by rw [hw]; rfl) (by rw [hw]; decide)
        (by rw [hw]; decide) hr
    refine does_printing (show FileCommand.read line = some (.ok .here) by unfold FileCommand.read; rw [hw]; rfl)
      hrun fun out hp => ?_
    exact handlePwd_means (hready ▸ hp)
  by_cases hw : firstWord line = ascii "cd"
  · have hrun :=
      executeCommand_runs h .cd (fun rest => by rw [hw]; rfl) (by rw [hw]; decide) (by rw [hw]; decide) hr
    refine does_printing (by unfold FileCommand.read; rw [hw]; rfl) hrun fun out hp => ?_
    exact handleCd_means h (hready ▸ hp)
  by_cases hw : firstWord line = ascii "cat"
  · have hrun :=
      executeCommand_runs h .cat (fun rest => by rw [hw]; rfl) (by rw [hw]; decide) (by rw [hw]; decide) hr
    refine does_buffering (by unfold FileCommand.read; rw [hw]; rfl) hrun fun a hp => ?_
    exact handleCat_means h (hready ▸ hp)
  by_cases hw : firstWord line = ascii "touch"
  · have hrun : (buffering desk (runReply · (handleTouch desk.fatReady (afterWord line)))).Runs Tree F res F' :=
      executeCommand_runs h .touch (fun rest => by rw [hw]; rfl) (by rw [hw]; decide) (by rw [hw]; decide) hr
    refine does_buffering (by unfold FileCommand.read; rw [hw]; rfl) hrun fun a hp => ?_
    exact runReply_word h (runReply_prints rfl) (hready ▸ hp)
  by_cases hw : firstWord line = ascii "write"
  · have hrun : (buffering desk (runReply · (handleWriteCommand desk.fatReady (afterWord line)))).Runs
        Tree F res F' :=
      executeCommand_runs h .write (fun rest => by rw [hw]; rfl) (by rw [hw]; decide) (by rw [hw]; decide) hr
    refine does_buffering (by unfold FileCommand.read; rw [hw]; rfl) hrun fun a hp => ?_
    exact handleWriteCommand_means h (hready ▸ hp)
  by_cases hw : firstWord line = ascii "mkdir"
  · have hrun : (buffering desk (runReply · (handleMkdirCommand desk.fatReady (afterWord line)))).Runs
        Tree F res F' :=
      executeCommand_runs h .mkdir (fun rest => by rw [hw]; rfl) (by rw [hw]; decide) (by rw [hw]; decide) hr
    refine does_buffering (by unfold FileCommand.read; rw [hw]; rfl) hrun fun a hp => ?_
    exact runReply_word h (runReply_prints rfl) (hready ▸ hp)
  by_cases hw : firstWord line = ascii "rm"
  · have hrun : (buffering desk (runReply · (handleRmCommand desk.fatReady (afterWord line)))).Runs Tree F res F' :=
      executeCommand_runs h .rm (fun rest => by rw [hw]; rfl) (by rw [hw]; decide) (by rw [hw]; decide) hr
    refine does_buffering (by unfold FileCommand.read; rw [hw]; rfl) hrun fun a hp => ?_
    exact runReply_word h (runReply_prints rfl) (hready ▸ hp)
  -- any other word asks the driver for nothing
  have hread : FileCommand.read line = none :=
    read_eq_none.2 ⟨⟨fun hw => hls (.inl hw), fun hw => hls (.inr hw)⟩, ‹_›, ‹_›, ‹_›, ‹_›,
      ‹_›, ‹_›, ‹_›⟩
  unfold Does
  rw [hread]
  exact executeCommand_quiet h hread hr

/-- A change that printed what it prints when done was made. -/
theorem Prints.changes {x : Fat12.Change} {name : String} {done : List Output} (h : Prints F x name done out F')
    (hdone : ∀ e, out ≠ printFailed name e) : F.Changes x .ok F' := by
  obtain ⟨e, hchanges, hout⟩ := h
  by_cases he : e = .ok
  · rwa [he] at hchanges
  · rw [if_neg he] at hout
    exact absurd hout (hdone e)

/-- A report of success is none of failure. -/
theorem ne_printFailed {text name : String} (h : ascii text ≠ ascii (name ++ " failed")) (rest : List Output)
    (e : Code) : printText text :: rest ≠ printFailed name e :=
  fun heq => h (Output.print.inj (List.cons.inj heq).1)

end

/-- A kernel that has mounted its disk. -/
def readyDesk : Desk := { fatReady := true, fsIoBuffer := fun _ => 0, editor := Nano.State.unused, halted := false }

theorem blank_represents :
    ∃ F, Represents (Fat12.blankState.toCore.bootSector 0) 0 Fat12.blankMounted.toCore F := by
  obtain ⟨F, hF, -⟩ :=
    Fat12.represents_mount Fat12.blank_mountable Fat12.blank_mounted.reserved Fat12.blank_mounted.fats
      Fat12.blank_wellFormed.1.wf Fat12.blank_synced.copiesAgree Fat12.blank_volume.named
  exact ⟨F, hF⟩

/-- On a driver that holds a tree every line of the prompt comes to an end, does to that tree what it means, and
prints what it means. -/
theorem executeCommand_means {fuel : Nat} {boot : Buf} {s : Fat12.State} {F : Files} {desk : Desk}
    {line : List UInt8} (hf : 4096 ≤ fuel) (hF : Represents boot 0 s.toCore F) (hs : Reliable s)
    (h : PromptLine line) (hready : desk.fatReady = true) (r : Report) (current : Fin themeCount) :
    (∃ res s', (executeCommand r current desk line).Runs (Driver fuel) s res s') ∧
      ∀ res s', (executeCommand r current desk line).Runs (Driver fuel) s res s' →
        ∃ F', Does desk F line res F' ∧ Represents boot 0 s'.toCore F' ∧ Reliable s' := by
  constructor
  · have hanswers : ∀ t q, (∃ F, Represents boot 0 t.toCore F ∧ Reliable t) → _ := driver_answers hf
    obtain ⟨res, s', hrun, -⟩ := Client.Runs.exists hanswers (executeCommand r current desk line) ⟨F, hF, hs⟩
    exact ⟨res, s', hrun⟩
  · intro res s' hrun
    obtain ⟨F', htree, hF', hs'⟩ := hrun.simulate (tree_answers hf) ⟨hF, hs⟩
    exact ⟨F', executeCommand_does h hready htree, hF', hs'⟩

/-- The file `A` written, deleted again, and the directory `D` made. -/
def blankTyped : Fat12.State :=
  endState (Fat12.writeFile 4096 (ascii "/A") (some (overwrite (ascii "x") fun _ => 0)) 1 Fat12.blankMounted)

def blankCleared : Fat12.State := endState (Fat12.deleteFile 4096 (ascii "/A") blankTyped)

def blankEntered : Fat12.State := endState (Fat12.createDirectory 4096 (ascii "/D") Fat12.blankMounted)

theorem blank_typed_runs :
    returned (Fat12.writeFile 4096 (ascii "/A") (some (overwrite (ascii "x") fun _ => 0)) 1 Fat12.blankMounted) =
      some .ok ∧
    returned (Fat12.deleteFile 4096 (ascii "/A") blankTyped) = some .ok ∧
    returned (Fat12.createDirectory 4096 (ascii "/D") Fat12.blankMounted) = some .ok := by
  decide +kernel

theorem drives_write :
    Driver 4096 Fat12.blankMounted (.change (.writeFile (ascii "/A") (some (overwrite (ascii "x") fun _ => 0)) 1))
      Code.ok blankTyped :=
  eq_ok_of_returned blank_typed_runs.1

theorem drives_rm : Driver 4096 blankTyped (.change (.deleteFile (ascii "/A"))) Code.ok blankCleared :=
  eq_ok_of_returned blank_typed_runs.2.1

theorem drives_mkdir :
    Driver 4096 Fat12.blankMounted (.change (.createDirectory (ascii "/D"))) Code.ok blankEntered :=
  eq_ok_of_returned blank_typed_runs.2.2

/-- Lines of the prompt, as the handlers run them. -/
theorem runs_typed :
    (executeCommand quietReport 0 readyDesk (ascii "write /A x")).Runs (Driver 4096) Fat12.blankMounted
      (some ({ readyDesk with fsIoBuffer := overwrite (ascii "x") fun _ => 0 },
        [printText "Wrote "] ++ printUnsigned 1 ++ [printText " bytes\n"]))
      blankTyped ∧
    (executeCommand quietReport 0 readyDesk (ascii "rm /A")).Runs (Driver 4096) blankTyped
      (some (readyDesk, [printText "File deleted\n"])) blankCleared ∧
    (executeCommand quietReport 0 readyDesk (ascii "mkdir /D")).Runs (Driver 4096) Fat12.blankMounted
      (some (readyDesk, [printText "Directory created\n"])) blankEntered := by
  have hdispatch : Console.executeCommand (ascii "write /A x") = .call (.write (ascii " /A x")) ∧
      Console.executeCommand (ascii "rm /A") = .call (.rm (ascii " /A")) ∧
      Console.executeCommand (ascii "mkdir /D") = .call (.mkdir (ascii " /D")) := by
    decide +kernel
  refine ⟨?_, ?_, ?_⟩
  · unfold executeCommand
    rw [hdispatch.1]
    exact .ask drives_write (.done _ _)
  · unfold executeCommand
    rw [hdispatch.2.1]
    exact .ask drives_rm (.done _ _)
  · unfold executeCommand
    rw [hdispatch.2.2]
    exact .ask drives_mkdir (.done _ _)

/-- The name that `/A` ends with. -/
def nameA : FileName := ⟨_, ascii "A", rfl⟩

theorem target_A (F : Files) : F.target (ascii "/A") = .ok ([], nameA) := rfl

/-- `write /A x` on an empty volume. -/
theorem executeCommand_means_write :
    ∃ F F', Represents (Fat12.blankState.toCore.bootSector 0) 0 Fat12.blankMounted.toCore F ∧
      (executeCommand quietReport 0 readyDesk (ascii "write /A x")).Runs (Driver 4096) Fat12.blankMounted
        (some ({ readyDesk with fsIoBuffer := overwrite (ascii "x") fun _ => 0 },
          [printText "Wrote "] ++ printUnsigned 1 ++ [printText " bytes\n"]))
        blankTyped ∧
      Represents (Fat12.blankState.toCore.bootSector 0) 0 blankTyped.toCore F' ∧
      F'.tree.node [nameA] = some (.file (ascii "x")) := by
  obtain ⟨F, hF⟩ := blank_represents
  obtain ⟨-, hmeans⟩ :=
    executeCommand_means (Nat.le_refl 4096) hF Fat12.blank_reliable (show PromptLine (ascii "write /A x") by decide)
      (show readyDesk.fatReady = true from rfl) quietReport 0
  obtain ⟨F', hdoes, hF', -⟩ := hmeans _ _ runs_typed.1
  have hread : FileCommand.read (ascii "write /A x") = some (.ok (.write (ascii "/A") (ascii "x"))) := rfl
  unfold Does at hdoes
  rw [hread] at hdoes
  obtain ⟨buffer, out, hres, data, hdata, hprints⟩ := hdoes
  obtain ⟨-, rfl⟩ := Prod.mk.inj (Option.some.inj hres)
  obtain ⟨p, n, ht, -, -, hnodes⟩ := Files.written (hprints.changes (ne_printFailed (by decide) _))
  obtain ⟨rfl, rfl⟩ := Prod.mk.inj (Except.ok.inj ((target_A F).symm.trans ht))
  refine ⟨F, F', hF, runs_typed.1, hF', ?_⟩
  rw [← hdata]
  exact (hnodes ([] ++ [nameA])).trans (if_pos rfl)

end AltoniumOS.Kernel

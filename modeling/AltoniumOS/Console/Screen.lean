/-
The text console of `vga_console.c`: its cursor and theme, with every access it makes to the display adapter,
and what keeps the cursor and the accesses on the screen.
-/
import Mathlib.Tactic

namespace AltoniumOS.Console

def vgaWidth : Int := 80
def vgaHeight : Int := 25

/-- The character cells of the screen. -/
def screenCells : Nat := 2000

abbrev themeCount : Nat := 3

/-- What reaches the adapter: a character cell at 0xB8000, or a position for the hardware cursor through the
ports 0x3D4 and 0x3D5. -/
inductive Access where
  | cell (pos : Nat) (c attr : UInt8)
  | cursor (pos : Nat)
  deriving DecidableEq

/-- `theme_t`, as far as characters are drawn with it. -/
structure Theme where
  textAttr : UInt8
  statusAttr : UInt8

def themes : Fin themeCount → Theme
  | 0 => ⟨0x07, 0x70⟩
  | 1 => ⟨0x1F, 0x3E⟩
  | 2 => ⟨0x0A, 0xA0⟩

/-- `console_state_t`, and the accesses made so far, the latest first. -/
structure Display where
  cursorX : Int
  cursorY : Int
  currentTheme : Fin themeCount
  sent : List Access

/-! ## The functions of `vga_console.c` -/

def newline : UInt8 := 0x0A
def carriageReturn : UInt8 := 0x0D
def tab : UInt8 := 0x09
def space : UInt8 := 0x20

/-- An `int` taken for a `size_t`. -/
def sizeT (z : Int) : Nat := (z % 2 ^ 32).toNat

/-- The characters of a C string. -/
def cString (str : List UInt8) : List UInt8 := str.takeWhile (· ≠ 0)

namespace Display

def textAttr (d : Display) : UInt8 := (themes d.currentTheme).textAttr

def statusAttr (d : Display) : UInt8 := (themes d.currentTheme).statusAttr

def put (attr : UInt8) (d : Display) (p : Nat × UInt8) : Display := { d with sent := .cell p.1 p.2 attr :: d.sent }

/-- Cells written one after the other. -/
def puts (d : Display) (attr : UInt8) (cells : List (Nat × UInt8)) : Display := cells.foldl (put attr) d

end Display

/-- The cells of a string laid out from a column of a row. -/
def rowCells (y x : Int) (str : List UInt8) : List (Nat × UInt8) :=
  str.zipIdx.map fun p => (sizeT (y * vgaWidth + (x + p.2)), p.1)

/-- Spaces, over the whole screen. -/
def blankCells : List (Nat × UInt8) := (List.range screenCells).map fun i => (i, space)

/-- `update_hardware_cursor` -/
def updateHardwareCursor (x y : Int) (d : Display) : Display :=
  { d with sent := .cursor ((y * vgaWidth + x) % 2 ^ 16).toNat :: d.sent }

/-- `vga_clear` -/
def vgaClear (d : Display) : Display :=
  updateHardwareCursor 0 0 { d.puts d.textAttr blankCells with cursorX := 0, cursorY := 0 }

/-- The start of the next line, or of a cleared screen after the last one. -/
def nextLine (d : Display) : Display :=
  let d := { d with cursorX := 0, cursorY := d.cursorY + 1 }
  if d.cursorY ≥ vgaHeight then { vgaClear d with cursorY := 0 } else d

/-- What `vga_write_char` does with the character, before it looks at the right edge. -/
def writeChar (c attr : UInt8) (d : Display) : Display :=
  if c = newline then nextLine d
  else if c = carriageReturn then { d with cursorX := 0 }
  else if c = tab then { d with cursorX := d.cursorX + 4 }
  else { d.put attr (sizeT (d.cursorY * vgaWidth + d.cursorX), c) with cursorX := d.cursorX + 1 }

/-- `vga_write_char` -/
def vgaWriteChar (attr : UInt8) (d : Display) (c : UInt8) : Display :=
  let d := writeChar c attr d
  let d := if d.cursorX ≥ vgaWidth then nextLine d else d
  updateHardwareCursor d.cursorX d.cursorY d

/-- `console_print` -/
def consolePrint (str : List UInt8) (d : Display) : Display := (cString str).foldl (vgaWriteChar d.textAttr) d

/-- `console_putchar` -/
def consolePutchar (c : UInt8) (d : Display) : Display := vgaWriteChar d.textAttr d c

/-- `console_print_to_pos` -/
def consolePrintToPos (y x : Int) (str : List UInt8) (d : Display) : Display :=
  d.puts d.statusAttr (rowCells y x ((cString str).take (vgaWidth - x).toNat))

/-- `console_set_cursor` -/
def consoleSetCursor (x y : Int) (d : Display) : Display :=
  updateHardwareCursor x y { d with cursorX := x, cursorY := y }

/-- `console_set_theme` -/
def consoleSetTheme (theme : Int) (d : Display) : Display :=
  if h : 0 ≤ theme ∧ theme < themeCount then { d with currentTheme := ⟨theme.toNat, by omega⟩ } else d

/-! ## Staying on the screen -/

/-- An access within the 2000 cells. -/
def Access.Inside : Access → Prop
  | .cell pos _ _ => pos < screenCells
  | .cursor pos => pos < screenCells

/-- A place of the 80x25 screen. -/
def OnScreen (x y : Int) : Prop := 0 ≤ x ∧ x < vgaWidth ∧ 0 ≤ y ∧ y < vgaHeight

section

variable {x y : Int}

/-- A place of the screen is a cell of it, in any width its number is taken for. -/
theorem OnScreen.pos_lt (h : OnScreen x y) {w : Int} (hw : 2000 ≤ w) :
    ((y * vgaWidth + x) % w).toNat < screenCells := by
  obtain ⟨h1, h2, h3, h4⟩ := h
  unfold vgaWidth at h2 ⊢
  unfold vgaHeight at h4
  rw [Int.emod_eq_of_lt (by omega) (by omega)]
  show (y * 80 + x).toNat < 2000
  omega

theorem onScreen_origin : OnScreen 0 0 := by
  constructor <;> decide

theorem OnScreen.sizeT_lt (h : OnScreen x y) : sizeT (y * vgaWidth + x) < screenCells := h.pos_lt (by decide)

end

namespace Display

/-- Every access so far within the screen. -/
def Sound (d : Display) : Prop := ∀ a ∈ d.sent, a.Inside

/-- The cursor on the screen too. -/
structure Inside (d : Display) : Prop where
  cursor : OnScreen d.cursorX d.cursorY
  sound : d.Sound

variable {d : Display} {x y : Int} {attr c : UInt8}

/-! ### Cells -/

@[simp] theorem puts_cursorX (cells : List (Nat × UInt8)) : (d.puts attr cells).cursorX = d.cursorX := by
  induction cells generalizing d with
  | nil => rfl
  | cons p l ih => exact ih

@[simp] theorem puts_cursorY (cells : List (Nat × UInt8)) : (d.puts attr cells).cursorY = d.cursorY := by
  induction cells generalizing d with
  | nil => rfl
  | cons p l ih => exact ih

theorem Sound.put (h : d.Sound) {p : Nat × UInt8} (hp : p.1 < screenCells) : (d.put attr p).Sound := by
  intro a ha
  rcases List.mem_cons.1 ha with rfl | ha
  · exact hp
  · exact h a ha

theorem Sound.puts (h : d.Sound) {cells : List (Nat × UInt8)} (hc : ∀ p ∈ cells, p.1 < screenCells) :
    (d.puts attr cells).Sound := by
  induction cells generalizing d with
  | nil => exact h
  | cons p l ih => exact ih (h.put (hc p (by simp))) fun q hq => hc q (by simp [hq])

/-- A string that ends before the right edge lies in its row. -/
theorem rowCells_lt {str : List UInt8} (hx : 0 ≤ x) (hy : 0 ≤ y ∧ y < vgaHeight) (h : x + str.length ≤ vgaWidth) :
    ∀ p ∈ rowCells y x str, p.1 < screenCells := by
  intro p hp
  obtain ⟨q, hq, rfl⟩ := List.mem_map.1 hp
  have hlt : q.2 < str.length := (List.mem_zipIdx' hq).1
  exact OnScreen.sizeT_lt ⟨by omega, by omega, hy.1, hy.2⟩

theorem blankCells_lt : ∀ p ∈ blankCells, p.1 < screenCells := by
  intro p hp
  obtain ⟨i, hi, rfl⟩ := List.mem_map.1 hp
  exact List.mem_range.1 hi

/-! ### Cursor movements -/

theorem Inside.move (h : d.Sound) (hp : OnScreen x y) : (consoleSetCursor x y d).Inside := by
  refine ⟨hp, fun a ha => ?_⟩
  rcases List.mem_cons.1 ha with rfl | ha
  · exact hp.pos_lt (by decide)
  · exact h a ha

theorem Sound.clear (h : d.Sound) : (vgaClear d).Inside := by
  exact Inside.move (d := d.puts d.textAttr blankCells) (h.puts blankCells_lt) onScreen_origin

theorem Sound.nextLine (h : d.Sound) (hy : 0 ≤ d.cursorY ∧ d.cursorY < vgaHeight) : (nextLine d).Inside := by
  unfold Console.nextLine
  dsimp only
  split
  · refine ⟨onScreen_origin, fun a ha => ?_⟩
    exact (Sound.clear (d := { d with cursorX := 0, cursorY := d.cursorY + 1 }) h).sound a ha
  · refine ⟨⟨?_, ?_, ?_, ?_⟩, h⟩
    · simp
    · simp [vgaWidth]
    · simp; omega
    · simp; omega

/-- The character is drawn, or moves the cursor, within its row; only a tab or the last column may leave
the cursor behind the right edge. -/
theorem Inside.writeChar (h : d.Inside) : (writeChar c attr d).Sound ∧ 0 ≤ (writeChar c attr d).cursorX ∧
    0 ≤ (writeChar c attr d).cursorY ∧ (writeChar c attr d).cursorY < vgaHeight := by
  obtain ⟨h1, h2, h3, h4⟩ := h.cursor
  unfold Console.writeChar
  split
  · have hn := h.sound.nextLine ⟨h3, h4⟩
    exact ⟨hn.sound, hn.cursor.1, hn.cursor.2.2⟩
  · split
    · exact ⟨h.sound, le_refl 0, h3, h4⟩
    · split
      · exact ⟨h.sound, by simp; omega, h3, h4⟩
      · exact ⟨h.sound.put h.cursor.sizeT_lt, by simp; omega, h3, h4⟩

theorem Inside.vgaWriteChar (h : d.Inside) : (vgaWriteChar attr d c).Inside := by
  obtain ⟨hs, hx, hy⟩ := @Inside.writeChar d attr c h
  unfold Console.vgaWriteChar
  dsimp only
  split
  · have hn := hs.nextLine hy
    exact Inside.move hn.sound hn.cursor
  · exact Inside.move hs ⟨hx, by omega, hy⟩

/-! ### Printing -/

theorem Inside.foldl (h : d.Inside) (str : List UInt8) : (str.foldl (Console.vgaWriteChar attr) d).Inside := by
  induction str generalizing d with
  | nil => exact h
  | cons c l ih => exact ih h.vgaWriteChar

theorem Inside.print (h : d.Inside) (str : List UInt8) : (consolePrint str d).Inside := h.foldl _

theorem Sound.printToPos (h : d.Sound) (hx : 0 ≤ x) (hy : 0 ≤ y ∧ y < vgaHeight) (str : List UInt8) :
    (consolePrintToPos y x str d).Sound := by
  unfold consolePrintToPos
  by_cases hw : x ≤ vgaWidth
  · apply h.puts
    apply rowCells_lt hx hy
    simp only [List.length_take]
    omega
  · rw [show (vgaWidth - x).toNat = 0 by omega]
    exact h

theorem Inside.setTheme (h : d.Inside) (theme : Int) : (consoleSetTheme theme d).Inside := by
  unfold consoleSetTheme
  split
  · exact ⟨h.cursor, h.sound⟩
  · exact h

end Display

end AltoniumOS.Console

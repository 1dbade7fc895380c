import LinuxLikeOS.Bytes
import Mathlib.Logic.Function.Basic

/-!
# Screen and keyboard (`lib.c`, `kb.c`, `terminal.c`)

The visible page, the three saved pages, the cursors and the keyboard buffers, and the
functions that change them on behalf of the displayed terminal. Ctrl+C is the one key whose
handling leaves this module: the handler then calls `halt`, which is part of the kernel.
-/

namespace LinuxLikeOS

open Function

/-- Index of one of the `TERMINAL_COUNT` terminals. -/
abbrev Terminal := Fin 3

/-- The instance behind the numerals of `Terminal`, the same in every module. -/
instance neZero_three : NeZero 3 := ⟨by decide⟩

structure Screen where
  /-- The page at `VIDEO`. -/
  video : Memory
  /-- The pages from `VIDEO_PAGES` on. -/
  saved : Terminal → Memory
  screenX : Terminal → Nat
  screenY : Terminal → Nat
  lineTracker : Nat → Nat
  /-- The position last sent to the cursor ports. -/
  cursor : Nat

namespace Screen

def updateCursor (screen : Screen) (x y : Nat) : Screen :=
  { screen with cursor := (y * 80 + x) % 2 ^ 16 }

/-- Character and attribute of the cell under the cursor. -/
def storeCell (screen : Screen) (current : Terminal) (c : UInt8) : Screen :=
  let offset := 2 * (80 * screen.screenY current + screen.screenX current)
  { screen with video := update (update screen.video offset c) (offset + 1) 7 }

def clear (screen : Screen) : Screen :=
  { screen with
    video := fun offset => if offset < 2 * (25 * 80) then (if offset % 2 = 0 then 32 else 7) else screen.video offset }

def scrollScreen (screen : Screen) (current : Terminal) : Screen :=
  -- the copy runs upwards, so each character comes from the old next row; attributes stay
  let moved : Memory := fun offset =>
    if offset < 2 * (24 * 80) ∧ offset % 2 = 0 then screen.video (offset + 2 * 80)
    else screen.video offset
  { screen with
    screenY := update screen.screenY current 24
    video := fun offset =>
      if 2 * (80 * 24) ≤ offset ∧ offset < 2 * (80 * 24 + 80) ∧ offset % 2 = 0 then 32 else moved offset
    lineTracker := fun row =>
      if row < 24 then screen.lineTracker (row + 1) else if row = 24 then 0 else screen.lineTracker row }

/-- The end of `putc`. -/
def settle (screen : Screen) (current : Terminal) : Screen :=
  let screen := if screen.screenY current = 25 then screen.scrollScreen current else screen
  screen.updateCursor (screen.screenX current) (screen.screenY current)

/-- `putc` of a byte other than NUL and tab. -/
def putPlain (screen : Screen) (current : Terminal) (c : UInt8) : Screen :=
  if c = 10 ∨ c = 13 then
    settle { screen with
      lineTracker := update screen.lineTracker (screen.screenY current) (screen.screenX current)
      screenY := update screen.screenY current (screen.screenY current + 1)
      screenX := update screen.screenX current 0 } current
  else
    let stored := screen.storeCell current c
    let x := (screen.screenX current + 1) % 80
    let moved := { stored with screenX := update screen.screenX current x }
    if x = 0 then
      settle { moved with
        lineTracker := update screen.lineTracker (screen.screenY current) 79
        screenY := update screen.screenY current (screen.screenY current + 1) } current
    else settle moved current

def putc (screen : Screen) (current : Terminal) (c : UInt8) : Screen :=
  if c = 0 then screen
  else if c = 9 then settle ((List.replicate 5 32).foldl (fun screen c => screen.putPlain current c) screen) current
  else screen.putPlain current c

def puts (screen : Screen) (current : Terminal) (s : List UInt8) : Screen :=
  s.foldl (fun screen c => screen.putc current c) screen

def delC (screen : Screen) (current : Terminal) : Screen :=
  if screen.screenX current = 0 then
    if screen.screenY current > 0 then
      let y := screen.screenY current - 1
      let moved := { screen with
        screenY := update screen.screenY current y
        screenX := update screen.screenX current (screen.lineTracker y) }
      (moved.storeCell current 32).updateCursor (screen.lineTracker y) y
    else screen
  else
    let moved := { screen with screenX := update screen.screenX current (screen.screenX current - 1) }
    (moved.storeCell current 32).updateCursor (screen.screenX current - 1) (screen.screenY current)

def clearScreen (screen : Screen) (current : Terminal) : Screen :=
  let cleared := screen.clear
  updateCursor { cleared with
    screenX := update cleared.screenX current 0
    screenY := update cleared.screenY current 0 } 0 0

end Screen

/-- What `entry` finds on the screen, and the text of its messages. -/
structure Leftovers where
  video : Memory
  saved : Terminal → Memory
  cursor : Nat
  messages : List UInt8

def Leftovers.zeros : Leftovers := ⟨fun _ => 0, fun _ _ => 0, 0, []⟩

/-- The screen when `entry` enables interrupts: it has been cleared, printed on, and cleared again by
`keyboard_init`. -/
def Screen.atEntry (leftovers : Leftovers) : Screen :=
  let cleared := clear ⟨leftovers.video, leftovers.saved, fun _ => 0, fun _ => 0, fun _ => 0, leftovers.cursor⟩
  (cleared.puts 0 leftovers.messages).clearScreen 0

/-- One row of `kb_buffer`, 128 bytes, with its `count`. -/
structure LineBuffer where
  slots : Memory
  count : Nat
  bounded : count ≤ 128

namespace LineBuffer

/-- The bytes typed so far. -/
def contents (buffer : LineBuffer) : List UInt8 := (List.range buffer.count).map buffer.slots

def push (buffer : LineBuffer) (pressed : UInt8) (room : buffer.count < 128) : LineBuffer :=
  ⟨update buffer.slots buffer.count pressed, buffer.count + 1, room⟩

def pop (buffer : LineBuffer) : LineBuffer :=
  ⟨update buffer.slots (buffer.count - 1) 0, buffer.count - 1,
    Nat.le_trans (Nat.sub_le _ _) buffer.bounded⟩

def clear (buffer : LineBuffer) : LineBuffer :=
  ⟨fun slot => if slot < buffer.count then 0 else buffer.slots slot, 0, Nat.zero_le _⟩

@[simp] theorem count_clear (buffer : LineBuffer) : buffer.clear.count = 0 := rfl

@[simp] theorem length_contents (buffer : LineBuffer) : buffer.contents.length = buffer.count := by
  simp [contents]

@[simp] theorem contents_clear (buffer : LineBuffer) : buffer.clear.contents = [] := rfl

theorem contents_push (buffer : LineBuffer) (pressed : UInt8) (room : buffer.count < 128) :
    (buffer.push pressed room).contents = buffer.contents ++ [pressed] := by
  have kept : (List.range buffer.count).map (update buffer.slots buffer.count pressed) =
      (List.range buffer.count).map buffer.slots := by
    refine List.map_congr_left fun slot inside => ?_
    exact update_of_ne (Nat.ne_of_lt (List.mem_range.mp inside)) _ _
  simp only [contents, push, List.range_succ, List.map_append, List.map_cons, List.map_nil,
    update_self, kept]

theorem contents_pop (buffer : LineBuffer) : buffer.pop.contents = buffer.contents.dropLast := by
  refine List.ext_getElem (by simp [pop]) fun slot left right => ?_
  simp only [length_contents, pop] at left
  simp [contents, pop, update_of_ne (Nat.ne_of_lt left)]

end LineBuffer

structure Keyboard where
  /-- `kb_buffer` and `count`. -/
  buffer : Terminal → LineBuffer
  readFlag : Bool
  capsFlag : Bool
  shiftFlag : Bool
  ctrlFlag : Bool
  altFlag : Bool

structure Console where
  screen : Screen
  keyboard : Keyboard
  currentTerminal : Terminal

namespace Console

variable (console : Console)

def putc (c : UInt8) : Console :=
  { console with screen := console.screen.putc console.currentTerminal c }

def puts (s : List UInt8) : Console :=
  { console with screen := console.screen.puts console.currentTerminal s }

def delC : Console := { console with screen := console.screen.delC console.currentTerminal }

def clearScreen : Console := { console with screen := console.screen.clearScreen console.currentTerminal }

/-- The keyboard buffer of the displayed terminal. -/
def shown : LineBuffer := console.keyboard.buffer console.currentTerminal

def setShown (buffer : LineBuffer) : Console :=
  { console with
    keyboard := { console.keyboard with
      buffer := update console.keyboard.buffer console.currentTerminal buffer } }

def setReadFlag (flag : Bool) : Console :=
  { console with keyboard := { console.keyboard with readFlag := flag } }

def clearBuffer : Console := console.setShown console.shown.clear

/-- `open_terminal`: save the visible page, show the one of the terminal asked for. -/
def openTerminal (terminalId : Int) : Console :=
  if valid : 0 ≤ terminalId ∧ terminalId < 3 ∧ terminalId ≠ console.currentTerminal then
    let next : Terminal := ⟨terminalId.toNat, by omega⟩
    let page := fun (source target : Memory) (offset : Nat) =>
      if offset < 0x1000 then source offset else target offset
    let screen := console.screen
    let saved := update screen.saved console.currentTerminal
      (page screen.video (screen.saved console.currentTerminal))
    let shown := { screen with saved := saved, video := page (saved next) screen.video }
    { console with
      currentTerminal := next
      screen := shown.updateCursor (screen.screenX next) (screen.screenY next) }
  else console

/-- The statics as they are loaded, under a blank screen. -/
def loaded : Console where
  screen := ⟨fun offset => if offset % 2 = 0 then 32 else 7, fun _ _ => 32, fun _ => 0, fun _ => 0, fun _ => 0, 0⟩
  keyboard := ⟨fun _ => ⟨fun _ => 0, 0, Nat.zero_le _⟩, false, false, false, false, false⟩
  currentTerminal := 0

/-- The same when `entry` enables interrupts. -/
def atEntry (leftovers : Leftovers) : Console := { loaded with screen := Screen.atEntry leftovers }

/-! ## Keys -/

/-- `scancode_dict`. -/
def scancodeDict : List (UInt8 × UInt8) :=
  [(0, 0), (0, 0), (49, 33), (50, 64), (51, 35), (52, 36), (53, 37), (54, 94), (55, 38), (56, 42),
   (57, 40), (48, 41), (45, 95), (61, 43), (0x0E, 0x0E), (9, 9), (113, 81), (119, 87), (101, 69),
   (114, 82), (116, 84), (121, 89), (117, 85), (105, 73), (111, 79), (112, 80), (91, 123), (93, 125),
   (10, 10), (0x1D, 0x1D), (97, 65), (115, 83), (100, 68), (102, 70), (103, 71), (104, 72), (106, 74),
   (107, 75), (108, 76), (59, 58), (39, 34), (96, 126), (0x2A, 0x2A), (92, 124), (122, 90), (120, 88),
   (99, 67), (118, 86), (98, 66), (110, 78), (109, 77), (44, 60), (46, 62), (47, 63), (0x36, 0x36),
   (0x37, 0x37), (0x38, 0x38), (32, 32), (0x3A, 0x3A)]

/-- `scancode_dict[scancode][shifted]`; past the table it reads what the memory holds there. -/
def scancodeLookup (beyond : UInt8) (scancode : UInt8) (shifted : Bool) : UInt8 :=
  match scancodeDict[scancode.toNat]? with
  | some (plain, shift) => if shifted then shift else plain
  | none => beyond

/-- The two lookups of the handler. -/
def pressedKey (keyboard : Keyboard) (beyond : UInt8) (scancode : UInt8) : UInt8 :=
  let pressed := if scancode < 0x3B then scancodeLookup beyond scancode false else 0
  if pressed ≥ 97 ∧ pressed ≤ 122 then
    scancodeLookup beyond scancode (keyboard.shiftFlag ^^ keyboard.capsFlag)
  else scancodeLookup beyond scancode keyboard.shiftFlag

/-- Where the keyboard handler leaves off: it returns, or calls `halt(USER_HALT)`. -/
inductive KeyResult where
  | returns (console : Console)
  | halts (console : Console)

def backspace : Console :=
  let buffer := console.shown
  if buffer.count ≠ 0 then
    let erased :=
      if buffer.slots (buffer.count - 1) = 9 then console.delC.delC.delC.delC.delC else console.delC
    erased.setShown buffer.pop
  else console

/-- Echo a byte and append it to the buffer, if `count` is below `limit`. -/
def typeByte (limit : Nat) (pressed : UInt8) : Console :=
  if room : console.shown.count < 128 ∧ console.shown.count < limit then
    (console.putc pressed).setShown (console.shown.push pressed room.1)
  else console

def enter (pressed : UInt8) : Console :=
  if console.shown.count < 128 then (console.typeByte 128 pressed).setReadFlag true else console

def keyboardIrqHandler (scancode beyond : UInt8) : KeyResult :=
  let keyboard := console.keyboard
  if scancode = 0x3A then .returns { console with keyboard := { keyboard with capsFlag := !keyboard.capsFlag } }
  else if scancode = 0x2A ∨ scancode = 0x36 then
    .returns { console with keyboard := { keyboard with shiftFlag := true } }
  else if scancode = 0xAA ∨ scancode = 0xB6 then
    .returns { console with keyboard := { keyboard with shiftFlag := false } }
  else if scancode = 0x1D then .returns { console with keyboard := { keyboard with ctrlFlag := true } }
  else if scancode = 0x9D then .returns { console with keyboard := { keyboard with ctrlFlag := false } }
  else if scancode = 0x38 then .returns { console with keyboard := { keyboard with altFlag := true } }
  else if scancode = 0xB8 then .returns { console with keyboard := { keyboard with altFlag := false } }
  else
    let pressed := pressedKey keyboard beyond scancode
    if (scancode ≥ 0x3B ∨ pressed = 0) ∧
        ¬(scancode = 0x3B ∨ scancode = 0x3C ∨ scancode = 0x3D) then .returns console
    else if pressed = 0x0E then .returns console.backspace
    else if keyboard.ctrlFlag ∧ (pressed = 108 ∨ pressed = 76) then .returns console.clearScreen
    else if keyboard.ctrlFlag ∧ (pressed = 99 ∨ pressed = 67) then .halts console
    else if pressed = 10 ∨ pressed = 13 then .returns (console.enter pressed)
    else if keyboard.altFlag ∧ scancode = 0x3B then .returns (console.openTerminal 0)
    else if keyboard.altFlag ∧ scancode = 0x3C then .returns (console.openTerminal 1)
    else if keyboard.altFlag ∧ scancode = 0x3D then .returns (console.openTerminal 2)
    else .returns (console.typeByte 127 pressed)

/-- What the handler takes a key for. -/
inductive KeyAction where
  | modifier (caps shift ctrl alt : Bool)
  | ignored
  | erase
  | clear
  | interrupt
  | newline (pressed : UInt8)
  | switch (terminal : Terminal)
  | type (pressed : UInt8)

def keyAction (keyboard : Keyboard) (scancode beyond : UInt8) : KeyAction :=
  let ⟨_, _, caps, shift, ctrl, alt⟩ := keyboard
  if scancode = 0x3A then .modifier (!caps) shift ctrl alt
  else if scancode = 0x2A ∨ scancode = 0x36 then .modifier caps true ctrl alt
  else if scancode = 0xAA ∨ scancode = 0xB6 then .modifier caps false ctrl alt
  else if scancode = 0x1D then .modifier caps shift true alt
  else if scancode = 0x9D then .modifier caps shift false alt
  else if scancode = 0x38 then .modifier caps shift ctrl true
  else if scancode = 0xB8 then .modifier caps shift ctrl false
  else
    let pressed := pressedKey keyboard beyond scancode
    if (scancode ≥ 0x3B ∨ pressed = 0) ∧
        ¬(scancode = 0x3B ∨ scancode = 0x3C ∨ scancode = 0x3D) then .ignored
    else if pressed = 0x0E then .erase
    else if keyboard.ctrlFlag ∧ (pressed = 108 ∨ pressed = 76) then .clear
    else if keyboard.ctrlFlag ∧ (pressed = 99 ∨ pressed = 67) then .interrupt
    else if pressed = 10 ∨ pressed = 13 then .newline pressed
    else if keyboard.altFlag ∧ scancode = 0x3B then .switch 0
    else if keyboard.altFlag ∧ scancode = 0x3C then .switch 1
    else if keyboard.altFlag ∧ scancode = 0x3D then .switch 2
    else .type pressed

def perform : KeyAction → KeyResult
  | .modifier caps shift ctrl alt =>
      .returns { console with
        keyboard :=
          { console.keyboard with capsFlag := caps, shiftFlag := shift, ctrlFlag := ctrl, altFlag := alt } }
  | .ignored => .returns console
  | .erase => .returns console.backspace
  | .clear => .returns console.clearScreen
  | .interrupt => .halts console
  | .newline pressed => .returns (console.enter pressed)
  | .switch terminal => .returns (console.openTerminal terminal.val)
  | .type pressed => .returns (console.typeByte 127 pressed)

/-- The handler decides on an action by the keyboard state and the scancode, and performs it. -/
theorem keyboardIrqHandler_eq (scancode beyond : UInt8) :
    console.keyboardIrqHandler scancode beyond =
        console.perform (keyAction console.keyboard scancode beyond) := by
  simp only [keyAction, apply_ite console.perform]
  rfl

/-- The text `halt` prints for `USER_HALT`. -/
def userInterrupt : List UInt8 := ascii "\nInterrupt!!! Program interrupted by user".toList

/-! ## Terminal driver -/

/-- The bytes of a buffer up to and with the first newline. -/
def firstLine : List UInt8 → List UInt8
  | [] => []
  | byte :: rest => if byte = 10 then [byte] else byte :: firstLine rest

theorem length_firstLine_le (bytes : List UInt8) : (firstLine bytes).length ≤ bytes.length := by
  induction bytes with
  | nil => exact Nat.le_refl 0
  | cons byte rest ih =>
      unfold firstLine
      split
      · simp
      · simpa using ih

theorem firstLine_eq_nil {bytes : List UInt8} : firstLine bytes = [] ↔ bytes = [] := by
  cases bytes with
  | nil => simp [firstLine]
  | cons byte rest => by_cases newline : byte = 10 <;> simp [firstLine, newline]

/-- `terminal_read` after its wait: what it stores, what it returns, and the console it leaves. -/
def terminalRead : List UInt8 × Console :=
  (firstLine console.shown.contents, (console.setReadFlag false).clearBuffer)

/-- What `halt` does to the console when Ctrl+C ends a process: the message, a newline, and
for the last process of a terminal the start of `execute`. -/
def interrupted (restarts : Bool) : Console :=
  let halted := (console.puts userInterrupt).putc 10
  if restarts then (halted.putc 10).clearBuffer else halted

/-- `terminal_write` of `nbytes` bytes. -/
def terminalWrite (buf : Memory) (nbytes : Int) : Console :=
  ((List.range nbytes.toNat).map buf).foldl Console.putc console

/-! ## Counts -/

/-- `count[terminal]`. -/
def count (terminal : Terminal) : Nat := (console.keyboard.buffer terminal).count

theorem count_setShown (buffer : LineBuffer) (terminal : Terminal) :
    (console.setShown buffer).count terminal =
      if terminal = console.currentTerminal then buffer.count else console.count terminal := by
  unfold count setShown
  rcases eq_or_ne terminal console.currentTerminal with rfl | here
  · simp
  · simp [here]

theorem count_backspace (terminal : Terminal) :
    console.backspace.count terminal =
      if terminal = console.currentTerminal then console.count terminal - 1 else console.count terminal := by
  have popped : ∀ erased : Console, erased.currentTerminal = console.currentTerminal →
      erased.keyboard = console.keyboard → (erased.setShown console.shown.pop).count terminal =
        if terminal = console.currentTerminal then console.count terminal - 1 else console.count terminal := by
    intro erased sameTerminal sameKeyboard
    rw [count_setShown, sameTerminal]
    split
    · rename_i here
      rw [here]
      rfl
    · unfold count
      rw [sameKeyboard]
  unfold backspace
  simp only []
  split
  · split
    · exact popped _ rfl rfl
    · exact popped _ rfl rfl
  · rename_i empty
    have zero : console.count console.currentTerminal = 0 := Decidable.not_not.mp empty
    split
    · rename_i here
      rw [here, zero]
    · rfl

theorem backspace_kept :
    console.backspace.currentTerminal = console.currentTerminal ∧
      console.backspace.keyboard.readFlag = console.keyboard.readFlag := by
  unfold backspace
  simp only []
  split
  · split <;> exact ⟨rfl, rfl⟩
  · exact ⟨rfl, rfl⟩

theorem count_typeByte (limit : Nat) (pressed : UInt8) (terminal : Terminal) :
    (console.typeByte limit pressed).count terminal =
      if terminal = console.currentTerminal ∧ console.count console.currentTerminal < min 128 limit then
        console.count terminal + 1
      else console.count terminal := by
  unfold typeByte
  split
  · rename_i room
    have below : console.count console.currentTerminal < min 128 limit := Nat.lt_min.mpr room
    have pushed := (console.putc pressed).count_setShown (console.shown.push pressed room.1) terminal
    by_cases here : terminal = console.currentTerminal
    · rw [if_pos ⟨here, below⟩, pushed, here]
      exact if_pos rfl
    · rw [if_neg (fun both => here both.1), pushed]
      exact if_neg here
  · rename_i full
    rw [if_neg]
    rintro ⟨_, below⟩
    exact full (Nat.lt_min.mp below)

theorem typeByte_kept (limit : Nat) (pressed : UInt8) :
    (console.typeByte limit pressed).currentTerminal = console.currentTerminal ∧
      (console.typeByte limit pressed).keyboard.readFlag = console.keyboard.readFlag := by
  unfold typeByte
  split <;> exact ⟨rfl, rfl⟩

/-- A buffer has room unless it is full. -/
theorem count_lt_iff (terminal : Terminal) : console.count terminal < 128 ↔ console.count terminal ≠ 128 := by
  have bounded := (console.keyboard.buffer terminal).bounded
  unfold count
  omega

section

variable {console : Console} (pressed : UInt8)

theorem enter_of_room (room : console.count console.currentTerminal < 128) :
    console.enter pressed = (console.typeByte 128 pressed).setReadFlag true := if_pos room

theorem enter_of_full (full : ¬ console.count console.currentTerminal < 128) :
    console.enter pressed = console := if_neg full

theorem enter_readFlag (room : console.count console.currentTerminal < 128) :
    (console.enter pressed).keyboard.readFlag = true := by
  rw [enter_of_room pressed room]
  rfl

theorem enter_currentTerminal (console : Console) :
    (console.enter pressed).currentTerminal = console.currentTerminal := by
  by_cases room : console.count console.currentTerminal < 128
  · rw [enter_of_room pressed room]
    exact (console.typeByte_kept 128 pressed).1
  · rw [enter_of_full pressed room]

theorem count_enter (room : console.count console.currentTerminal < 128) (terminal : Terminal) :
    (console.enter pressed).count terminal =
      if terminal = console.currentTerminal then console.count terminal + 1 else console.count terminal := by
  have typed := console.count_typeByte 128 pressed terminal
  rw [enter_of_room pressed room]
  refine Eq.trans typed ?_
  simp only [Nat.min_self, room, and_true]

end

theorem openTerminal_kept (terminalId : Int) :
    (console.openTerminal terminalId).keyboard = console.keyboard := by
  unfold openTerminal
  split <;> rfl

theorem count_openTerminal (terminalId : Int) (terminal : Terminal) :
    (console.openTerminal terminalId).count terminal = console.count terminal := by
  unfold count
  rw [openTerminal_kept]

theorem openTerminal_currentTerminal (terminal : Terminal) :
    (console.openTerminal terminal.val).currentTerminal = terminal := by
  unfold openTerminal
  split
  · simp
  · rename_i invalid
    have bound := terminal.isLt
    refine Fin.ext ?_
    omega

theorem count_interrupted (restarts : Bool) (terminal : Terminal) :
    (console.interrupted restarts).count terminal =
      if restarts = true ∧ terminal = console.currentTerminal then 0 else console.count terminal := by
  unfold interrupted
  generalize userInterrupt = text
  cases restarts with
  | false => rfl
  | true =>
      simp only [if_true, true_and]
      exact count_setShown _ _ terminal

theorem interrupted_kept (restarts : Bool) :
    (console.interrupted restarts).currentTerminal = console.currentTerminal ∧
      (console.interrupted restarts).keyboard.readFlag = console.keyboard.readFlag := by
  unfold interrupted
  generalize userInterrupt = text
  cases restarts <;> exact ⟨rfl, rfl⟩

theorem count_terminalRead (terminal : Terminal) :
    console.terminalRead.2.count terminal =
      if terminal = console.currentTerminal then 0 else console.count terminal :=
  count_setShown _ _ terminal

end Console

end LinuxLikeOS

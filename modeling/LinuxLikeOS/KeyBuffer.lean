import LinuxLikeOS.Console
import LinuxLikeOS.Traced

/-!
# The keyboard buffers as arrays

`kb_buffer` and `count` as the source declares them, without any bound, and every slot that the
keyboard handler, `clear_buffer` and `terminal_read` access. What keeps the accesses inside is an
invariant of all three buffers.
-/

namespace LinuxLikeOS

open Function

namespace LineBuffer

/-- Nothing is left behind the bytes typed so far, and only a line ends in the last slot. -/
structure Clean (buffer : LineBuffer) : Prop where
  rest : ∀ slot, buffer.count ≤ slot → buffer.slots slot = 0
  last : buffer.slots 127 = 0 ∨ buffer.slots 127 = 10 ∨ buffer.slots 127 = 13

variable {buffer : LineBuffer}

theorem Clean.push (clean : Clean buffer) {pressed : UInt8} (room : buffer.count < 128)
    (ends : buffer.count < 127 ∨ pressed = 10 ∨ pressed = 13) : Clean (buffer.push pressed room) := by
  constructor
  case rest =>
    intro slot above
    have higher : buffer.count + 1 ≤ slot := above
    show update buffer.slots buffer.count pressed slot = 0
    rw [update_of_ne (by omega)]
    exact clean.rest slot (by omega)
  case last =>
    show update buffer.slots buffer.count pressed 127 = 0 ∨ update buffer.slots buffer.count pressed 127 = 10 ∨
      update buffer.slots buffer.count pressed 127 = 13
    by_cases full : 127 = buffer.count
    · rw [← full, update_self]
      exact Or.inr (ends.resolve_left (by omega))
    · rw [update_of_ne full]
      exact clean.last

theorem Clean.pop (clean : Clean buffer) : Clean buffer.pop := by
  constructor
  case rest =>
    intro slot above
    have higher : buffer.count - 1 ≤ slot := above
    show update buffer.slots (buffer.count - 1) 0 slot = 0
    rcases eq_or_ne slot (buffer.count - 1) with rfl | other
    · exact update_self ..
    · rw [update_of_ne other]
      exact clean.rest slot (by omega)
  case last =>
    show update buffer.slots (buffer.count - 1) 0 127 = 0 ∨ update buffer.slots (buffer.count - 1) 0 127 = 10 ∨
      update buffer.slots (buffer.count - 1) 0 127 = 13
    by_cases here : 127 = buffer.count - 1
    · rw [← here, update_self]
      exact Or.inl rfl
    · rw [update_of_ne here]
      exact clean.last

/-- A cleared buffer holds zeros only. -/
theorem Clean.slots_clear (clean : Clean buffer) (slot : Nat) : buffer.clear.slots slot = 0 := by
  show (if slot < buffer.count then 0 else buffer.slots slot) = 0
  split
  · rfl
  · rename_i above
    exact clean.rest slot (Nat.le_of_not_lt above)

theorem Clean.clear (clean : Clean buffer) : Clean buffer.clear :=
  ⟨fun slot _ => clean.slots_clear slot, Or.inl (clean.slots_clear 127)⟩

end LineBuffer

namespace KeyBuffer

open Traced

/-- A slot of one of the rows of `kb_buffer`. -/
structure Slot where
  terminal : Terminal
  index : Nat

/-- The variables of `kb.c`, with the screen. -/
structure Keys where
  kbBuffer : Terminal → Memory
  count : Terminal → UInt32
  readFlag : Bool
  capsFlag : Bool
  shiftFlag : Bool
  ctrlFlag : Bool
  altFlag : Bool
  currentTerminal : Terminal
  screen : Screen

/-- The handler returns, or calls `halt(USER_HALT)`. -/
inductive Outcome where
  | returns (keys : Keys)
  | halts (keys : Keys)

def Outcome.keys : Outcome → Keys
  | returns keys | halts keys => keys

namespace Keys

variable (keys : Keys)

/-- `count[current_terminal]`. -/
def shownCount : UInt32 := keys.count keys.currentTerminal

/-- `kb_buffer[current_terminal][index]`. -/
def shownSlot (index : Nat) : UInt8 := keys.kbBuffer keys.currentTerminal index

def store (index : Nat) (byte : UInt8) : Traced Slot Keys := do
  access ⟨keys.currentTerminal, index⟩
  return { keys with
    kbBuffer := update keys.kbBuffer keys.currentTerminal
      (update (keys.kbBuffer keys.currentTerminal) index byte) }

def setCount (count : UInt32) : Keys := { keys with count := update keys.count keys.currentTerminal count }

def putc (c : UInt8) : Keys := { keys with screen := keys.screen.putc keys.currentTerminal c }

def delC : Keys := { keys with screen := keys.screen.delC keys.currentTerminal }

def clearScreen : Keys := { keys with screen := keys.screen.clearScreen keys.currentTerminal }

def console (buffers : Terminal → LineBuffer) : Console :=
  ⟨keys.screen, ⟨buffers, keys.readFlag, keys.capsFlag, keys.shiftFlag, keys.ctrlFlag, keys.altFlag⟩,
    keys.currentTerminal⟩

end Keys

def backspace (keys : Keys) : Traced Slot Keys :=
  if keys.shownCount ≠ 0 then do
    access ⟨keys.currentTerminal, (keys.shownCount - 1).toNat⟩
    let keys := if keys.shownSlot (keys.shownCount - 1).toNat = 9 then keys.delC.delC.delC.delC.delC else keys.delC
    let keys ← keys.store (keys.shownCount - 1).toNat 0
    return keys.setCount (keys.shownCount - 1)
  else pure keys

/-- Echo the byte and append it. -/
def append (pressed : UInt8) (keys : Keys) : Traced Slot Keys := do
  let keys := keys.putc pressed
  let keys ← keys.store keys.shownCount.toNat pressed
  return keys.setCount (keys.shownCount + 1)

def enter (pressed : UInt8) (keys : Keys) : Traced Slot Keys :=
  if keys.shownCount < 128 then do
    let keys ← append pressed keys
    return { keys with readFlag := true }
  else pure keys

def typeByte (pressed : UInt8) (keys : Keys) : Traced Slot Keys :=
  if keys.shownCount < 127 then append pressed keys else pure keys

/-- `open_terminal`, which leaves the buffers alone. -/
def openTerminal (terminalId : Int) (keys : Keys) : Keys :=
  if valid : 0 ≤ terminalId ∧ terminalId < 3 ∧ terminalId ≠ keys.currentTerminal then
    let next : Terminal := ⟨terminalId.toNat, by omega⟩
    let page := fun (source target : Memory) (offset : Nat) =>
      if offset < 0x1000 then source offset else target offset
    let screen := keys.screen
    let saved := update screen.saved keys.currentTerminal
      (page screen.video (screen.saved keys.currentTerminal))
    let shown := { screen with saved := saved, video := page (saved next) screen.video }
    { keys with
      currentTerminal := next
      screen := shown.updateCursor (screen.screenX next) (screen.screenY next) }
  else keys

def clearBuffer (keys : Keys) : Traced Slot Keys := do
  let keys ← loop (fun i keys => keys.store i 0) 0 keys.shownCount.toNat keys
  return keys.setCount 0

/-- The byte of the two lookups; what lies behind `scancode_dict` is `beyond`. -/
def pressedKey (keys : Keys) (beyond scancode : UInt8) : UInt8 :=
  let pressed := if scancode < 0x3B then Console.scancodeLookup beyond scancode false else 0
  if pressed ≥ 97 ∧ pressed ≤ 122 then Console.scancodeLookup beyond scancode (keys.shiftFlag ^^ keys.capsFlag)
  else Console.scancodeLookup beyond scancode keys.shiftFlag

def keyboardIrqHandler (scancode beyond : UInt8) (keys : Keys) : Traced Slot Outcome :=
  if scancode = 0x3A then pure (.returns { keys with capsFlag := !keys.capsFlag })
  else if scancode = 0x2A ∨ scancode = 0x36 then pure (.returns { keys with shiftFlag := true })
  else if scancode = 0xAA ∨ scancode = 0xB6 then pure (.returns { keys with shiftFlag := false })
  else if scancode = 0x1D then pure (.returns { keys with ctrlFlag := true })
  else if scancode = 0x9D then pure (.returns { keys with ctrlFlag := false })
  else if scancode = 0x38 then pure (.returns { keys with altFlag := true })
  else if scancode = 0xB8 then pure (.returns { keys with altFlag := false })
  else
    let pressed := pressedKey keys beyond scancode
    if (scancode ≥ 0x3B ∨ pressed = 0) ∧
        ¬(scancode = 0x3B ∨ scancode = 0x3C ∨ scancode = 0x3D) then pure (.returns keys)
    else if pressed = 0x0E then do return .returns (← backspace keys)
    else if keys.ctrlFlag ∧ (pressed = 108 ∨ pressed = 76) then pure (.returns keys.clearScreen)
    else if keys.ctrlFlag ∧ (pressed = 99 ∨ pressed = 67) then pure (.halts keys)
    else if pressed = 10 ∨ pressed = 13 then do return .returns (← enter pressed keys)
    else if keys.altFlag ∧ scancode = 0x3B then pure (.returns (openTerminal 0 keys))
    else if keys.altFlag ∧ scancode = 0x3C then pure (.returns (openTerminal 1 keys))
    else if keys.altFlag ∧ scancode = 0x3D then pure (.returns (openTerminal 2 keys))
    else do return .returns (← typeByte pressed keys)

/-- The copy of `terminal_read`, with `n` bytes to go and `ret_count` at `i`. -/
def copyLine (keys : Keys) : Nat → Nat → Memory → Traced Slot (Memory × Nat)
  | i, 0, buf => pure (buf, i)
  | i, n + 1, buf => do
      access ⟨keys.currentTerminal, i⟩
      let buf := update buf i (keys.shownSlot i)
      access ⟨keys.currentTerminal, i⟩
      if keys.shownSlot i = 10 then pure (buf, i + 1) else copyLine keys (i + 1) n buf

/-- What a read that completes leaves in its buffer, what it returns, and the state after it. -/
structure Completed where
  buf : Option Memory
  retCount : Nat
  keys : Keys

/-- `terminal_read` after its wait; a buffer that is not there is NULL. -/
def terminalRead (buf : Option Memory) (keys : Keys) : Traced Slot Completed :=
  let keys := { keys with readFlag := false }
  match buf with
  | none => pure ⟨none, 0, keys⟩
  | some buf => do
      let zeroed : Memory := fun i => if i < 128 then 0 else buf i
      let (line, retCount) ← copyLine keys 0 keys.shownCount.toNat zeroed
      let keys ← clearBuffer keys
      return ⟨some line, retCount, keys⟩

/-- At boot. -/
def boot (screen : Screen) : Keys :=
  ⟨fun _ _ => 0, fun _ => 0, false, false, false, false, false, 0, screen⟩

/-! ## What the arrays stand for -/

def Slot.Inside (slot : Slot) : Prop := slot.index < 128

/-- The arrays hold these buffers, all of them clean. -/
structure Holds (keys : Keys) (buffers : Terminal → LineBuffer) : Prop where
  slots : ∀ terminal slot, keys.kbBuffer terminal slot = (buffers terminal).slots slot
  count : ∀ terminal, (keys.count terminal).toNat = (buffers terminal).count
  clean : ∀ terminal, (buffers terminal).Clean

/-- The variables are those of a console. -/
def Follows (keys : Keys) (console : Console) : Prop :=
  ∃ buffers, Holds keys buffers ∧ console = keys.console buffers

section

variable {keys : Keys} {buffers : Terminal → LineBuffer}

/-- The buffer of the displayed terminal is replaced. -/
theorem Holds.set (holds : Holds keys buffers) {next : Keys} {row : Memory} {count : UInt32} (buffer : LineBuffer)
    (stored : next.kbBuffer = update keys.kbBuffer keys.currentTerminal row)
    (counted : next.count = update keys.count keys.currentTerminal count)
    (slots : ∀ slot, row slot = buffer.slots slot) (same : count.toNat = buffer.count) (clean : buffer.Clean) :
    Holds next (update buffers keys.currentTerminal buffer) := by
  refine ⟨fun terminal slot => ?_, fun terminal => ?_, fun terminal => ?_⟩
  all_goals rcases eq_or_ne terminal keys.currentTerminal with rfl | other
  · rw [stored, update_self, update_self, slots]
  · rw [stored, update_of_ne other, update_of_ne other, holds.slots]
  · rw [counted, update_self, update_self, same]
  · rw [counted, update_of_ne other, update_of_ne other, holds.count]
  · rw [update_self]
    exact clean
  · rw [update_of_ne other]
    exact holds.clean terminal

theorem Holds.shownCount (holds : Holds keys buffers) : keys.shownCount.toNat = (keys.console buffers).shown.count :=
  holds.count keys.currentTerminal

theorem Holds.row (holds : Holds keys buffers) :
    keys.kbBuffer keys.currentTerminal = (keys.console buffers).shown.slots :=
  funext (holds.slots keys.currentTerminal)

theorem Holds.shownClean (holds : Holds keys buffers) : (keys.console buffers).shown.Clean :=
  holds.clean keys.currentTerminal

theorem Holds.below (holds : Holds keys buffers) (limit : UInt32) :
    keys.shownCount < limit ↔ (keys.console buffers).shown.count < limit.toNat := by
  rw [UInt32.lt_iff_toNat_lt, holds.shownCount]

theorem ensures_store (keys : Keys) {index : Nat} (inside : index < 128) (byte : UInt8) :
    Ensures Slot.Inside
      (· = { keys with
        kbBuffer := update keys.kbBuffer keys.currentTerminal
          (update (keys.kbBuffer keys.currentTerminal) index byte) })
      (keys.store index byte) :=
  ensures_access_bind (P := Slot.Inside) inside (ensures_pure rfl)

theorem ensures_append (holds : Holds keys buffers) (pressed : UInt8)
    (room : (keys.console buffers).shown.count < 128)
    (ends : (keys.console buffers).shown.count < 127 ∨ pressed = 10 ∨ pressed = 13) :
    Ensures Slot.Inside
      (Follows · (((keys.console buffers).putc pressed).setShown ((keys.console buffers).shown.push pressed room)))
      (append pressed keys) := by
  have count := holds.shownCount
  have inside : (keys.putc pressed).shownCount.toNat < 128 := count ▸ room
  refine (ensures_store (keys.putc pressed) inside pressed).bind ?_
  rintro _ rfl
  refine ensures_pure ⟨_, holds.set ((keys.console buffers).shown.push pressed room) rfl rfl ?_ ?_
    (holds.shownClean.push room ends), rfl⟩
  · intro slot
    show update (keys.kbBuffer keys.currentTerminal) keys.shownCount.toNat pressed slot =
      update (keys.console buffers).shown.slots (keys.console buffers).shown.count pressed slot
    rw [count, holds.row]
  · show (keys.shownCount + 1).toNat = (keys.console buffers).shown.count + 1
    rw [UInt32.toNat_add, count]
    simp only [UInt32.reduceToNat]
    omega

theorem ensures_typeByte (holds : Holds keys buffers) (pressed : UInt8) :
    Ensures Slot.Inside (Follows · ((keys.console buffers).typeByte 127 pressed)) (typeByte pressed keys) := by
  unfold typeByte Console.typeByte
  by_cases room : (keys.console buffers).shown.count < 127
  · have small : (keys.console buffers).shown.count < 128 := by omega
    rw [if_pos ((holds.below 127).mpr room), dif_pos ⟨small, room⟩]
    exact ensures_append holds pressed small (Or.inl room)
  · rw [if_neg (fun less => room ((holds.below 127).mp less)), dif_neg (fun both => room both.2)]
    exact ensures_pure ⟨buffers, holds, rfl⟩

theorem ensures_enter (holds : Holds keys buffers) {pressed : UInt8} (ends : pressed = 10 ∨ pressed = 13) :
    Ensures Slot.Inside (Follows · ((keys.console buffers).enter pressed)) (enter pressed keys) := by
  unfold enter Console.enter Console.typeByte
  by_cases room : (keys.console buffers).shown.count < 128
  · rw [if_pos ((holds.below 128).mpr room), if_pos room, dif_pos ⟨room, room⟩]
    refine (ensures_append holds pressed room (Or.inr ends)).bind ?_
    rintro next ⟨after, held, same⟩
    refine ensures_pure ⟨after, ⟨held.slots, held.count, held.clean⟩, ?_⟩
    exact congrArg (Console.setReadFlag · true) same
  · rw [if_neg (fun less => room ((holds.below 128).mp less)), if_neg room]
    exact ensures_pure ⟨buffers, holds, rfl⟩

theorem Holds.filled (holds : Holds keys buffers) :
    keys.shownCount ≠ 0 ↔ (keys.console buffers).shown.count ≠ 0 := by
  rw [ne_eq, ← UInt32.toNat_inj, holds.shownCount]
  rfl

theorem Holds.last (holds : Holds keys buffers) (filled : (keys.console buffers).shown.count ≠ 0) :
    (keys.shownCount - 1).toNat = (keys.console buffers).shown.count - 1 := by
  have bounded := (keys.console buffers).shown.bounded
  rw [UInt32.toNat_sub, holds.shownCount]
  simp only [UInt32.reduceToNat]
  omega

theorem Holds.delC (holds : Holds keys buffers) : Holds keys.delC buffers := ⟨holds.slots, holds.count, holds.clean⟩

theorem console_delC (keys : Keys) (buffers : Terminal → LineBuffer) :
    keys.delC.console buffers = (keys.console buffers).delC := rfl

theorem shown_delC (console : Console) : console.delC.shown = console.shown := rfl

/-- The end of a backspace. -/
theorem ensures_pop (holds : Holds keys buffers) (filled : (keys.console buffers).shown.count ≠ 0) :
    Ensures Slot.Inside (Follows · ((keys.console buffers).setShown (keys.console buffers).shown.pop))
      (do
        let keys ← keys.store (keys.shownCount - 1).toNat 0
        return keys.setCount (keys.shownCount - 1)) := by
  have bounded := (keys.console buffers).shown.bounded
  have last := holds.last filled
  have inside : (keys.shownCount - 1).toNat < 128 := by omega
  refine (ensures_store keys inside 0).bind ?_
  rintro _ rfl
  refine ensures_pure ⟨_, holds.set (keys.console buffers).shown.pop rfl rfl ?_ last holds.shownClean.pop, rfl⟩
  intro slot
  show update (keys.kbBuffer keys.currentTerminal) (keys.shownCount - 1).toNat 0 slot =
    update (keys.console buffers).shown.slots ((keys.console buffers).shown.count - 1) 0 slot
  rw [last, holds.row]

theorem ensures_backspace (holds : Holds keys buffers) :
    Ensures Slot.Inside (Follows · (keys.console buffers).backspace) (backspace keys) := by
  unfold backspace Console.backspace
  by_cases filled : (keys.console buffers).shown.count ≠ 0
  · have bounded := (keys.console buffers).shown.bounded
    have last := holds.last filled
    have inside : (keys.shownCount - 1).toNat < 128 := by omega
    have read : keys.shownSlot (keys.shownCount - 1).toNat =
        (keys.console buffers).shown.slots ((keys.console buffers).shown.count - 1) := by
      rw [last]
      exact holds.slots keys.currentTerminal _
    rw [if_pos (holds.filled.mpr filled), if_pos filled]
    rw [read]
    refine ensures_access_bind (P := Slot.Inside) inside ?_
    by_cases tab : (keys.console buffers).shown.slots ((keys.console buffers).shown.count - 1) = 9
    · rw [if_pos tab, if_pos tab]
      have popped := ensures_pop holds.delC.delC.delC.delC.delC
      simp only [console_delC, shown_delC] at popped
      exact popped filled
    · rw [if_neg tab, if_neg tab]
      exact ensures_pop holds.delC filled
  · rw [if_neg (fun more => filled (holds.filled.mp more)), if_neg filled]
    exact ensures_pure ⟨buffers, holds, rfl⟩

/-- The first `i` slots are cleared. -/
def clearedTo (keys : Keys) (i : Nat) : Keys :=
  { keys with
    kbBuffer := update keys.kbBuffer keys.currentTerminal
      fun slot => if slot < i then 0 else keys.kbBuffer keys.currentTerminal slot }

theorem clearedTo_zero (keys : Keys) : clearedTo keys 0 = keys := by
  unfold clearedTo
  simp only [Nat.not_lt_zero, if_false, update_eq_self]

theorem ensures_clearRound (keys : Keys) {i : Nat} (inside : i < 128) :
    Ensures Slot.Inside (· = clearedTo keys (i + 1)) ((clearedTo keys i).store i 0) := by
  refine (ensures_store (clearedTo keys i) inside 0).imp ?_
  rintro _ rfl
  unfold clearedTo
  simp only [update_self, update_idem]
  congr 2
  funext slot
  simp only [update_apply]
  grind

theorem ensures_clearBuffer (holds : Holds keys buffers) :
    Ensures Slot.Inside (Follows · (keys.console buffers).clearBuffer) (clearBuffer keys) := by
  have count := holds.shownCount
  have bounded := (keys.console buffers).shown.bounded
  unfold clearBuffer
  rw [count]
  refine Ensures.bind (Q := (· = clearedTo keys (keys.console buffers).shown.count)) ?_ ?_
  · refine ensures_loop_zero (fun i next => next = clearedTo keys i) (clearedTo_zero keys).symm ?_
    rintro i below _ rfl
    exact ensures_clearRound keys (by omega)
  · rintro _ rfl
    refine ensures_pure ⟨_, holds.set (keys.console buffers).shown.clear rfl rfl ?_ rfl holds.shownClean.clear, rfl⟩
    intro slot
    rw [holds.row]
    rfl

/-- The copied line, given what has been copied of it. -/
theorem ensures_copyLine (keys : Keys) {i n : Nat} (inside : i + n ≤ 128) (buf : Memory) :
    Ensures Slot.Inside
      (fun result => (List.range result.2).map result.1 =
        (List.range i).map buf ++ Console.firstLine ((List.range' i n).map keys.shownSlot))
      (copyLine keys i n buf) := by
  induction n generalizing i buf with
  | zero =>
      refine ensures_pure ?_
      simp only [List.range'_zero, List.map_nil, Console.firstLine, List.append_nil]
  | succ n ih =>
      have here : i < 128 := by omega
      have copied : (List.range (i + 1)).map (update buf i (keys.shownSlot i)) =
          (List.range i).map buf ++ [keys.shownSlot i] := by
        rw [List.range_succ, List.map_append, List.map_singleton, update_self]
        congr 1
        refine List.map_congr_left fun slot below => ?_
        exact update_of_ne (Nat.ne_of_lt (List.mem_range.mp below)) _ _
      refine ensures_access_bind (P := Slot.Inside) here (ensures_access_bind (P := Slot.Inside) here ?_)
      rw [List.range'_succ, List.map_cons, Console.firstLine]
      by_cases newline : keys.shownSlot i = 10
      · rw [if_pos newline, if_pos newline]
        exact ensures_pure copied
      · rw [if_neg newline, if_neg newline]
        refine (ih (by omega) _).imp fun result same => ?_
        rw [same, copied, List.append_assoc, List.singleton_append]

/-- What a read that completes leaves behind: the first line in its buffer, and nothing in
`kb_buffer`. -/
theorem ensures_terminalRead (holds : Holds keys buffers) (buf : Memory) :
    Ensures Slot.Inside
      (fun completed => (∃ line, completed.buf = some line ∧
          (List.range completed.retCount).map line = (keys.console buffers).terminalRead.1) ∧
        Follows completed.keys (keys.console buffers).terminalRead.2)
      (terminalRead (some buf) keys) := by
  have asked : Holds { keys with readFlag := false } buffers := ⟨holds.slots, holds.count, holds.clean⟩
  have count := holds.shownCount
  have bounded := (keys.console buffers).shown.bounded
  have inside : 0 + keys.shownCount.toNat ≤ 128 := by omega
  have row : keys.shownSlot = (keys.console buffers).shown.slots := holds.row
  refine (ensures_copyLine { keys with readFlag := false } inside _).bind fun copied line => ?_
  refine (ensures_clearBuffer asked).bind fun after follows => ensures_pure ⟨⟨copied.1, rfl, ?_⟩, follows⟩
  refine line.trans ?_
  show [] ++ Console.firstLine ((List.range' 0 keys.shownCount.toNat).map keys.shownSlot) = _
  rw [List.nil_append, row, count, ← List.range_eq_range']
  rfl

/-! ## Events -/

/-- How the handler ends, against the handler on a console. -/
def Ends : Outcome → Console.KeyResult → Prop
  | .returns keys, .returns console => Follows keys console
  | .halts keys, .halts console => Follows keys console
  | _, _ => False

/-- Two branches that correspond. -/
theorem ensures_branch {α β : Type} {c : Prop} [Decidable c] {R : α → β → Prop} {first second : Traced Slot α}
    {yes no : β} (taken : c → Ensures Slot.Inside (R · yes) first)
    (skipped : ¬ c → Ensures Slot.Inside (R · no) second) :
    Ensures Slot.Inside (R · (if c then yes else no)) (if c then first else second) := by
  by_cases holds : c
  · rw [if_pos holds, if_pos holds]
    exact taken holds
  · rw [if_neg holds, if_neg holds]
    exact skipped holds

theorem follows_openTerminal (holds : Holds keys buffers) (terminalId : Int) :
    Follows (openTerminal terminalId keys) ((keys.console buffers).openTerminal terminalId) := by
  unfold openTerminal Console.openTerminal
  by_cases valid : 0 ≤ terminalId ∧ terminalId < 3 ∧ terminalId ≠ keys.currentTerminal
  · rw [dif_pos valid, dif_pos (show 0 ≤ terminalId ∧ terminalId < 3 ∧
      terminalId ≠ (keys.console buffers).currentTerminal from valid)]
    exact ⟨buffers, ⟨holds.slots, holds.count, holds.clean⟩, rfl⟩
  · rw [dif_neg valid, dif_neg (show ¬ (0 ≤ terminalId ∧ terminalId < 3 ∧
      terminalId ≠ (keys.console buffers).currentTerminal) from valid)]
    exact ⟨buffers, holds, rfl⟩

theorem ensures_handler (holds : Holds keys buffers) (scancode beyond : UInt8) :
    Ensures Slot.Inside (Ends · ((keys.console buffers).keyboardIrqHandler scancode beyond))
      (keyboardIrqHandler scancode beyond keys) := by
  have same : ∀ {next : Keys}, next.kbBuffer = keys.kbBuffer → next.count = keys.count →
      Follows next (next.console buffers) := by
    intro next slots count
    exact ⟨buffers, ⟨slots ▸ holds.slots, count ▸ holds.count, holds.clean⟩, rfl⟩
  have returns : ∀ {run : Traced Slot Keys} {console : Console}, Ensures Slot.Inside (Follows · console) run →
      Ensures Slot.Inside (Ends · (.returns console)) (do return .returns (← run)) :=
    fun ran => ran.bind fun _ follows => ensures_pure follows
  unfold keyboardIrqHandler Console.keyboardIrqHandler
  refine ensures_branch (fun _ => ensures_pure (same rfl rfl)) fun _ => ?_
  refine ensures_branch (fun _ => ensures_pure (same rfl rfl)) fun _ => ?_
  refine ensures_branch (fun _ => ensures_pure (same rfl rfl)) fun _ => ?_
  refine ensures_branch (fun _ => ensures_pure (same rfl rfl)) fun _ => ?_
  refine ensures_branch (fun _ => ensures_pure (same rfl rfl)) fun _ => ?_
  refine ensures_branch (fun _ => ensures_pure (same rfl rfl)) fun _ => ?_
  refine ensures_branch (fun _ => ensures_pure (same rfl rfl)) fun _ => ?_
  refine ensures_branch (fun _ => ensures_pure (same rfl rfl)) fun _ => ?_
  refine ensures_branch (fun _ => returns (ensures_backspace holds)) fun _ => ?_
  refine ensures_branch (fun _ => ensures_pure (same rfl rfl)) fun _ => ?_
  refine ensures_branch (fun _ => ensures_pure (same rfl rfl)) fun _ => ?_
  refine ensures_branch (fun ends => returns (ensures_enter holds ends)) fun _ => ?_
  refine ensures_branch (fun _ => ensures_pure (follows_openTerminal holds 0)) fun _ => ?_
  refine ensures_branch (fun _ => ensures_pure (follows_openTerminal holds 1)) fun _ => ?_
  refine ensures_branch (fun _ => ensures_pure (follows_openTerminal holds 2)) fun _ => ?_
  exact returns (ensures_typeByte holds _)

end

/-- A scancode with the byte behind `scancode_dict`, a read that completes, a call of
`clear_buffer` (by the terminal driver or `execute`), a switch. -/
inductive Event where
  | key (scancode beyond : UInt8)
  | read (buf : Option Memory)
  | clearBuffer
  | openTerminal (terminalId : Int)

def Event.run (keys : Keys) : Event → Traced Slot Keys
  | key scancode beyond => do return (← keyboardIrqHandler scancode beyond keys).keys
  | read buf => do return (← terminalRead buf keys).keys
  | clearBuffer => KeyBuffer.clearBuffer keys
  | openTerminal terminalId => pure (KeyBuffer.openTerminal terminalId keys)

/-- The variables after the events, one after the other. -/
def finish (events : List Event) (keys : Keys) : Keys :=
  events.foldl (fun keys event => (event.run keys).value) keys

/-- The representation of the three buffers. -/
structure Sound (keys : Keys) : Prop where
  count : ∀ terminal, (keys.count terminal).toNat ≤ 128
  rest : ∀ terminal slot, (keys.count terminal).toNat ≤ slot → slot < 128 → keys.kbBuffer terminal slot = 0
  last : ∀ terminal, keys.kbBuffer terminal 127 = 0 ∨ keys.kbBuffer terminal 127 = 10 ∨ keys.kbBuffer terminal 127 = 13

/-- `kb_buffer` holds nothing of a terminal. -/
structure Empty (keys : Keys) (terminal : Terminal) : Prop where
  count : keys.count terminal = 0
  slots : ∀ slot < 128, keys.kbBuffer terminal slot = 0

section

variable {keys : Keys} {buffers : Terminal → LineBuffer}

theorem Holds.sound (holds : Holds keys buffers) : Sound keys := by
  refine ⟨fun terminal => ?_, fun terminal slot above _ => ?_, fun terminal => ?_⟩
  · rw [holds.count]
    exact (buffers terminal).bounded
  · rw [holds.slots]
    exact (holds.clean terminal).rest slot (holds.count terminal ▸ above)
  · rw [holds.slots]
    exact (holds.clean terminal).last

theorem Sound.empty (sound : Sound keys) {terminal : Terminal} (none : keys.count terminal = 0) : Empty keys terminal := by
  refine ⟨none, fun slot inside => sound.rest terminal slot ?_ inside⟩
  rw [none]
  exact Nat.zero_le slot

theorem Holds.step (holds : Holds keys buffers) (event : Event) :
    Ensures Slot.Inside (fun next => ∃ buffers, Holds next buffers) (event.run keys) := by
  have forget : ∀ {next : Keys} {console : Console}, Follows next console → ∃ buffers, Holds next buffers :=
    fun ⟨after, held, _⟩ => ⟨after, held⟩
  cases event with
  | key scancode beyond =>
      refine (ensures_handler holds scancode beyond).bind fun outcome ends => ensures_pure ?_
      unfold Ends at ends
      split at ends
      · exact forget ends
      · exact forget ends
      · exact ends.elim
  | read buf =>
      cases buf with
      | none => exact ensures_pure ⟨buffers, holds.slots, holds.count, holds.clean⟩
      | some buf => exact (ensures_terminalRead holds buf).bind fun _ completed => ensures_pure (forget completed.2)
  | clearBuffer => exact (ensures_clearBuffer holds).imp fun _ follows => forget follows
  | openTerminal terminalId => exact ensures_pure (forget (follows_openTerminal holds terminalId))

theorem Holds.finish (holds : Holds keys buffers) (events : List Event) :
    ∃ after, Holds (finish events keys) after := by
  induction events generalizing keys buffers with
  | nil => exact ⟨buffers, holds⟩
  | cons event rest ih =>
      obtain ⟨after, held⟩ := (holds.step event).2
      exact ih held

/-- A read returns at most 128 and leaves its terminal without input. -/
theorem Holds.completed (holds : Holds keys buffers) (buf : Memory) :
    (terminalRead (some buf) keys).value.retCount ≤ 128 ∧
      Empty (terminalRead (some buf) keys).value.keys keys.currentTerminal := by
  obtain ⟨_, ⟨line, _, same⟩, after, held, console⟩ := ensures_terminalRead holds buf
  have bounded := (keys.console buffers).shown.bounded
  have short := Console.length_firstLine_le (keys.console buffers).shown.contents
  have length : (terminalRead (some buf) keys).value.retCount =
      (Console.firstLine (keys.console buffers).shown.contents).length := by
    have lengths := congrArg List.length same
    rwa [List.length_map, List.length_range] at lengths
  rw [LineBuffer.length_contents] at short
  refine ⟨by omega, held.sound.empty ?_⟩
  have cleared : (after keys.currentTerminal).count = 0 := by
    have none := (keys.console buffers).count_terminalRead keys.currentTerminal
    rw [console] at none
    exact none.trans (if_pos rfl)
  rw [← UInt32.toNat_inj, held.count, cleared]
  rfl

end

theorem holds_boot (screen : Screen) : Holds (boot screen) fun _ => ⟨fun _ => 0, 0, Nat.zero_le _⟩ where
  slots _ _ := rfl
  count _ := rfl
  clean _ := ⟨fun _ _ => rfl, Or.inl rfl⟩

/-- After any events from boot the three buffers are sound, the next event accesses slots of
`kb_buffer` only, and a read that completes returns at most 128 and empties its buffer; without a
buffer to store to it returns 0. -/
theorem buffers_stay_sound (screen : Screen) (events : List Event) :
    Sound (finish events (boot screen)) ∧
      (∀ event : Event, ∀ slot ∈ (event.run (finish events (boot screen))).log, slot.index < 128) ∧
      (∀ buf : Option Memory, (terminalRead buf (finish events (boot screen))).value.retCount ≤ 128) ∧
      ∀ buf : Memory, Empty (terminalRead (some buf) (finish events (boot screen))).value.keys
        (finish events (boot screen)).currentTerminal := by
  obtain ⟨buffers, holds⟩ := (holds_boot screen).finish events
  refine ⟨holds.sound, fun event => (holds.step event).1, fun buf => ?_, fun buf => (holds.completed buf).2⟩
  cases buf with
  | none => exact Nat.zero_le 128
  | some buf => exact (holds.completed buf).1

end KeyBuffer

end LinuxLikeOS

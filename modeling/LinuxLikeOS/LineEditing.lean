import LinuxLikeOS.Rendering
import Mathlib.Data.List.Infix

/-!
# Echo and line buffer

While a line is typed on the displayed terminal, without Enter, Ctrl and Alt, the screen is to
be the one there was before, with the bytes of the keyboard buffer printed once. The handler
looks a scancode up in its table twice, and only the first time checks that it is in there.
-/

namespace LinuxLikeOS.LineEditing

open Function

/-- A scancode, with the byte that a lookup past the table finds. -/
structure Key where
  scancode : UInt8
  beyond : UInt8

/-- The console after a key. Ctrl+C does not occur here. -/
def press (console : Console) (key : Key) : Console :=
  match console.keyboardIrqHandler key.scancode key.beyond with
  | .returns after => after
  | .halts after => after

/-- The console after all keys. -/
def after (start : Console) (keys : List Key) : Console := keys.foldl press start

/-- The rows of `scancode_dict` that the handler asks for. -/
def lookups (scancode : UInt8) : List Nat :=
  if scancode ∈ [0x3A, 0x2A, 0x36, 0xAA, 0xB6, 0x1D, 0x9D, 0x38, 0xB8] then []
  else if scancode < 0x3B then [scancode.toNat, scancode.toNat]
  else [scancode.toNat]

/-- Every lookup of the handler stays inside the table. -/
def LookupsInside (keys : List Key) : Prop :=
  ∀ key ∈ keys, ∀ row ∈ lookups key.scancode, row < Console.scancodeDict.length

/-- What was on display when the line was begun, with the bytes typed so far set behind it. -/
def line (start : Console) (keys : List Key) : Sheet UInt8 :=
  (start.screen.sheetOf start.currentTerminal start.screen.video).moves 80
    (Screen.textMoves (after start keys).shown.contents)

/-- The screen shows the line once, moved up by as many rows as the text has ever reached below
the last one. -/
structure InStep (start : Console) (keys : List Key) : Prop where
  terminal : (after start keys).currentTerminal = start.currentTerminal
  shows : ∃ scrolled, Screen.Shows (after start keys).screen start.currentTerminal scrolled (line start keys) ∧
    (∀ past, past <+: keys → (line start past).row ≤ scrolled + 24) ∧
    (scrolled = 0 ∨ ∃ past, past <+: keys ∧ (line start past).row = scrolled + 24)
  attributes : Screen.KeepsAttributes start.screen (after start keys).screen

/-- An empty line: nothing stands from the cursor on, and neither Ctrl nor Alt is held. -/
structure Begun (start : Console) : Prop where
  empty : start.shown.count = 0
  onPage : start.screen.OnPage start.currentTerminal
  blank : ∀ i < 25, ∀ j < 80,
    80 * start.screen.screenY start.currentTerminal + start.screen.screenX start.currentTerminal ≤ 80 * i + j →
      start.screen.video (2 * (80 * i + j)) = 32
  ctrl : start.keyboard.ctrlFlag = false
  alt : start.keyboard.altFlag = false

/-- A key that is not Enter, Ctrl or Alt; releasing those is allowed. -/
def Key.Plain (key : Key) : Prop := key.scancode ≠ 0x1C ∧ key.scancode ≠ 0x1D ∧ key.scancode ≠ 0x38

/-- A key of the table, or the release of a modifier. -/
def Key.Known (key : Key) : Prop :=
  key.scancode < 0x3B ∨ key.scancode ∈ ([0xAA, 0xB6, 0x9D, 0xB8] : List UInt8)

/-! ## Lookups -/

theorem lookupsInside_iff (keys : List Key) : LookupsInside keys ↔ ∀ key ∈ keys, key.Known := by
  refine forall_congr' fun key => imp_congr_right fun _ => ?_
  obtain ⟨scancode, beyond⟩ := key
  have length : Console.scancodeDict.length = 59 := rfl
  have below : scancode < 0x3B ↔ scancode.toNat < 59 := UInt8.lt_iff_toNat_lt
  unfold lookups Key.Known
  simp only [length, List.mem_cons, List.not_mem_nil, or_false]
  split
  · rename_i handled
    refine iff_of_true nofun ?_
    rcases handled with rfl | rfl | rfl | rfl | rfl | rfl | rfl | rfl | rfl <;> decide
  · rename_i notHandled
    split
    · rename_i inside
      refine iff_of_true ?_ (Or.inl inside)
      intro row member
      have same : row = scancode.toNat := by simpa using member
      rw [same]
      exact below.mp inside
    · rename_i outside
      refine iff_of_false ?_ ?_
      · intro all
        exact outside (below.mpr (all scancode.toNat (by simp)))
      · rintro (inside | release)
        · exact outside inside
        · refine notHandled ?_
          rcases release with rfl | rfl | rfl | rfl <;> simp

/-- Only the row of Enter holds a newline. -/
theorem scancodeDict_newline : ∀ row : Fin 59, row ≠ 0x1C →
    (Console.scancodeDict.get row).1 ≠ 10 ∧ (Console.scancodeDict.get row).1 ≠ 13 ∧
      (Console.scancodeDict.get row).2 ≠ 10 ∧ (Console.scancodeDict.get row).2 ≠ 13 := by
  decide

theorem scancodeLookup_ne_newline {scancode : UInt8} (inside : scancode < 0x3B) (notEnter : scancode ≠ 0x1C)
    (beyond : UInt8) (shifted : Bool) :
    Console.scancodeLookup beyond scancode shifted ≠ 10 ∧ Console.scancodeLookup beyond scancode shifted ≠ 13 := by
  have below : scancode.toNat < 59 := UInt8.lt_iff_toNat_lt.mp inside
  have other : (⟨scancode.toNat, below⟩ : Fin 59) ≠ 0x1C := by
    intro same
    have value : scancode.toNat = 28 := congrArg Fin.val same
    exact notEnter (UInt8.toNat_inj.mp value)
  obtain ⟨plain, plainReturn, shift, shiftReturn⟩ := scancodeDict_newline _ other
  unfold Console.scancodeLookup
  have found : Console.scancodeDict[scancode.toNat]? =
      some (Console.scancodeDict.get ⟨scancode.toNat, below⟩) := List.getElem?_eq_getElem below
  rw [found]
  cases shifted with
  | false => exact ⟨plain, plainReturn⟩
  | true => exact ⟨shift, shiftReturn⟩

theorem pressedKey_ne_newline {scancode : UInt8} (inside : scancode < 0x3B) (notEnter : scancode ≠ 0x1C)
    (keyboard : Keyboard) (beyond : UInt8) :
    Console.pressedKey keyboard beyond scancode ≠ 10 ∧ Console.pressedKey keyboard beyond scancode ≠ 13 := by
  have looked := scancodeLookup_ne_newline inside notEnter beyond
  unfold Console.pressedKey
  simp only [if_pos inside]
  by_cases letter : Console.scancodeLookup beyond scancode false ≥ 97 ∧
      Console.scancodeLookup beyond scancode false ≤ 122
  · rw [if_pos letter]
    exact looked _
  · rw [if_neg letter]
    exact looked _

/-- What keys do while Ctrl and Alt are up. -/
inductive Edit : Console.KeyAction → Prop where
  | modifier (caps shift : Bool) : Edit (.modifier caps shift false false)
  | ignored : Edit .ignored
  | erase : Edit .erase
  | type (pressed : UInt8) (notNul : pressed ≠ 0) (symbol : ¬ (pressed = 10 ∨ pressed = 13)) :
      Edit (.type pressed)

theorem edit_keyAction {keyboard : Keyboard} {key : Key} (plain : key.Plain)
    (noFunction : key.scancode ∉ ([0x3B, 0x3C, 0x3D] : List UInt8)) (ctrl : keyboard.ctrlFlag = false)
    (alt : keyboard.altFlag = false) : Edit (Console.keyAction keyboard key.scancode key.beyond) := by
  obtain ⟨buffer, readFlag, caps, shift, ctrlFlag, altFlag⟩ := keyboard
  obtain ⟨scancode, beyond⟩ := key
  obtain ⟨notEnter, notCtrl, notAlt⟩ := plain
  obtain rfl : ctrlFlag = false := ctrl
  obtain rfl : altFlag = false := alt
  have notF : ¬ (scancode = 0x3B ∨ scancode = 0x3C ∨ scancode = 0x3D) := by
    simpa using noFunction
  unfold Console.keyAction
  refine iteInduction (fun _ => .modifier _ _) fun _ => ?_
  refine iteInduction (fun _ => .modifier _ _) fun _ => ?_
  refine iteInduction (fun _ => .modifier _ _) fun _ => ?_
  refine iteInduction (fun held => absurd held notCtrl) fun _ => ?_
  refine iteInduction (fun _ => .modifier _ _) fun _ => ?_
  refine iteInduction (fun held => absurd held notAlt) fun _ => ?_
  refine iteInduction (fun _ => .modifier _ _) fun _ => ?_
  refine iteInduction (fun _ => .ignored) fun accepted => ?_
  obtain ⟨inside, notNul⟩ := not_or.mp fun outside => accepted ⟨outside, notF⟩
  rw [ge_iff_le, UInt8.not_le] at inside
  obtain ⟨notNewline, notReturn⟩ := pressedKey_ne_newline inside notEnter
    ⟨buffer, readFlag, caps, shift, false, false⟩ beyond
  refine iteInduction (fun _ => .erase) fun _ => ?_
  refine iteInduction nofun fun _ => ?_
  refine iteInduction nofun fun _ => ?_
  refine iteInduction (fun newline => absurd newline (not_or.mpr ⟨notNewline, notReturn⟩)) fun symbol => ?_
  refine iteInduction nofun fun _ => ?_
  refine iteInduction nofun fun _ => ?_
  refine iteInduction nofun fun _ => ?_
  exact .type _ notNul symbol

/-! ## The invariant -/

/-- What was on display when the line was begun. -/
def base (start : Console) : Sheet UInt8 := start.screen.sheetOf start.currentTerminal start.screen.video

theorem Begun.blank_base {start : Console} (begun : Begun start) : (base start).Blank 32 :=
  Screen.blank_sheetOf begun.onPage begun.blank

/-- The cells a typed byte takes. -/
def cells (c : UInt8) : Nat := if c = 9 then 5 else 1

theorem moves_typed {c : UInt8} (notNul : c ≠ 0) (symbol : ¬ (c = 10 ∨ c = 13)) :
    Screen.moves c = List.replicate (cells c) (.put (if c = 9 then 32 else c)) := by
  unfold Screen.moves cells
  rw [if_neg notNul, if_neg symbol]
  split <;> rfl

/-- Bytes that take cells. -/
def Typed (bytes : List UInt8) : Prop := ∀ c ∈ bytes, c ≠ 0 ∧ ¬ (c = 10 ∨ c = 13)

theorem text_typed {sheet : Sheet UInt8} {bytes : List UInt8} (typed : Typed bytes) (blank : sheet.Blank 32) :
    (sheet.moves 80 (Screen.textMoves bytes)).Blank 32 ∧
      (sheet.moves 80 (Screen.textMoves bytes)).position 80 ≤ sheet.position 80 + 5 * bytes.length := by
  induction bytes generalizing sheet with
  | nil => exact ⟨blank, Nat.le_refl _⟩
  | cons c rest ih =>
      obtain ⟨notNul, symbol⟩ := typed c List.mem_cons_self
      have few : cells c ≤ 5 := by
        unfold cells
        split <;> decide
      have first := @Sheet.position_puts _ 80 sheet (cells c) (if c = 9 then 32 else c)
      obtain ⟨clear, within⟩ := ih (fun other member => typed other (List.mem_cons_of_mem _ member))
        (Sheet.blank_moves (List.replicate (cells c) (.put (if c = 9 then 32 else c))) blank)
      rw [Screen.textMoves, List.flatMap_cons, moves_typed notNul symbol, Sheet.moves_append]
      refine ⟨clear, Nat.le_trans within ?_⟩
      rw [List.length_cons, first]
      omega

/-- The state of the line after some keys, with the screen moved up by `top` rows. -/
structure Editing (start console : Console) (top : Nat) : Prop where
  terminal : console.currentTerminal = start.currentTerminal
  ctrl : console.keyboard.ctrlFlag = false
  alt : console.keyboard.altFlag = false
  typed : Typed console.shown.contents
  count : console.shown.count ≤ 127
  shows : Screen.Shows console.screen start.currentTerminal top
    ((base start).moves 80 (Screen.textMoves console.shown.contents))
  reach : top ≤ (base start).row
  attributes : Screen.KeepsAttributes start.screen console.screen

/-- The row of the cursor on the sheet. -/
def row (start console : Console) : Nat :=
  ((base start).moves 80 (Screen.textMoves console.shown.contents)).row

section

variable {start console : Console} {top : Nat}

theorem Editing.row_le (editing : Editing start console top) : row start console ≤ top + 24 := by
  have y := editing.shows.y
  have bottom := editing.shows.bottom
  unfold row
  omega

theorem Editing.stay (editing : Editing start console top) :
    Editing start console (max top (row start console - 24)) := by
  have below := editing.row_le
  rw [Nat.max_eq_left (by omega)]
  exact editing

theorem Editing.of_keyboard (editing : Editing start console top) {keyboard : Keyboard}
    (buffer : keyboard.buffer = console.keyboard.buffer) (ctrl : keyboard.ctrlFlag = false)
    (alt : keyboard.altFlag = false) : Editing start { console with keyboard := keyboard } top := by
  have same : Console.shown { console with keyboard := keyboard } = console.shown := by
    unfold Console.shown
    rw [buffer]
  constructor
  case terminal => exact editing.terminal
  case ctrl => exact ctrl
  case alt => exact alt
  case typed => exact same ▸ editing.typed
  case count => exact same ▸ editing.count
  case shows => exact same ▸ editing.shows
  case reach => exact editing.reach
  case attributes => exact editing.attributes

theorem shown_setShown (console : Console) (buffer : LineBuffer) : (console.setShown buffer).shown = buffer := by
  simp [Console.shown, Console.setShown]

/-- A typed byte is echoed and appended, as long as there is room. -/
theorem Editing.type (begun : Begun start) (editing : Editing start console top) {pressed : UInt8}
    (notNul : pressed ≠ 0) (symbol : ¬ (pressed = 10 ∨ pressed = 13)) :
    Editing start (console.typeByte 127 pressed)
      (max top (row start (console.typeByte 127 pressed) - 24)) := by
  unfold Console.typeByte
  split
  · rename_i room
    have shows := editing.shows.putc pressed
    have contents := console.shown.contents_push pressed room.1
    have typed : Typed (console.shown.push pressed room.1).contents := by
      intro c member
      rw [contents] at member
      rcases List.mem_append.mp member with before | last
      · exact editing.typed c before
      · rw [List.mem_singleton.mp last]
        exact ⟨notNul, symbol⟩
    have text : (base start).moves 80 (Screen.textMoves (console.shown.push pressed room.1).contents) =
        ((base start).moves 80 (Screen.textMoves console.shown.contents)).moves 80 (Screen.moves pressed) := by
      rw [contents, Screen.textMoves, List.flatMap_append, Sheet.moves_append, List.flatMap_singleton]
      rfl
    have number : (row start ((console.putc pressed).setShown (console.shown.push pressed room.1))) =
        ((base start).moves 80 (Screen.textMoves (console.shown.push pressed room.1).contents)).row := by
      unfold row
      rw [shown_setShown]
    rw [number]
    constructor
    case terminal => exact editing.terminal
    case ctrl => exact editing.ctrl
    case alt => exact editing.alt
    case typed => rwa [shown_setShown]
    case count =>
      rw [shown_setShown]
      exact room.2
    case shows =>
      rw [shown_setShown, text, ← editing.terminal] at *
      exact shows
    case reach =>
      obtain ⟨_, within⟩ := text_typed typed begun.blank_base
      have few := room.2
      have length : (console.shown.push pressed room.1).contents.length = console.shown.count + 1 :=
        LineBuffer.length_contents _
      have inside : (base start).column < 80 := begun.onPage.1
      have reach := editing.reach
      unfold Sheet.position at within
      omega
    case attributes => exact editing.attributes.trans (Screen.keepsAttributes_putc _ _ _)
  · exact editing.stay

theorem contents_eq_concat (buffer : LineBuffer) (some : buffer.count ≠ 0) :
    buffer.contents = buffer.pop.contents ++ [buffer.slots (buffer.count - 1)] := by
  obtain ⟨more, count⟩ := Nat.exists_eq_succ_of_ne_zero some
  rw [LineBuffer.contents_pop, LineBuffer.contents, count, Nat.succ_eq_add_one, List.range_succ, List.map_append]
  simp

/-- The deletions of a backspace: as many as the last byte took cells. -/
theorem backspace_eq (console : Console) (some : console.shown.count ≠ 0) :
    console.backspace = ({ console with
      screen := (fun screen => screen.delC console.currentTerminal)^[
        cells (console.shown.slots (console.shown.count - 1))] console.screen } : Console).setShown
          console.shown.pop := by
  unfold Console.backspace cells
  simp only [if_pos some]
  split <;> rfl

/-- A backspace takes the last byte back on the screen and in the buffer. -/
theorem Editing.erase (begun : Begun start) (editing : Editing start console top) :
    Editing start console.backspace (max top (row start console.backspace - 24)) := by
  by_cases some : console.shown.count = 0
  · have same : console.backspace = console := if_neg (not_not.mpr some)
    rw [same]
    exact editing.stay
  · have contents := contents_eq_concat console.shown some
    have typed := editing.typed
    rw [contents] at typed
    have before : Typed console.shown.pop.contents := fun c member => typed c (List.mem_append_left _ member)
    obtain ⟨notNul, symbol⟩ := typed (console.shown.slots (console.shown.count - 1))
      (List.mem_append_right _ (List.mem_singleton_self _))
    obtain ⟨blank, _⟩ := text_typed before begun.blank_base
    have shows := editing.shows
    rw [contents, Screen.textMoves, List.flatMap_append, List.flatMap_singleton, Sheet.moves_append,
      moves_typed notNul symbol] at shows
    have lower := @Sheet.row_le_moves _ 80 (base start) (Screen.textMoves console.shown.pop.contents)
    have erased := shows.delC_moves blank (Nat.le_trans editing.reach lower)
      (Sheet.column_moves _ begun.onPage.1)
    rw [List.length_replicate] at erased
    have kept : ∀ (n : Nat) (screen : Screen), Screen.KeepsAttributes start.screen screen →
        Screen.KeepsAttributes start.screen
          ((fun screen => screen.delC console.currentTerminal)^[n] screen) := by
      intro n
      induction n with
      | zero => exact fun _ keeps => keeps
      | succ n ih => exact fun screen keeps => ih _ (keeps.trans (Screen.keepsAttributes_delC screen _))
    rw [backspace_eq console some]
    have next : Editing start (({ console with
        screen := (fun screen => screen.delC console.currentTerminal)^[
          cells (console.shown.slots (console.shown.count - 1))] console.screen } : Console).setShown
            console.shown.pop) top := by
      constructor
      case terminal => exact editing.terminal
      case ctrl => exact editing.ctrl
      case alt => exact editing.alt
      case typed => rwa [shown_setShown]
      case count =>
        rw [shown_setShown]
        exact Nat.le_trans (Nat.sub_le _ _) editing.count
      case shows =>
        rw [shown_setShown]
        exact editing.terminal ▸ erased
      case reach => exact editing.reach
      case attributes => exact kept _ _ editing.attributes
    exact next.stay

/-- What one key does to the line. -/
theorem Editing.press (begun : Begun start) (editing : Editing start console top) {key : Key} (plain : key.Plain)
    (noFunction : key.scancode ∉ ([0x3B, 0x3C, 0x3D] : List UInt8)) :
    Editing start (LineEditing.press console key)
      (max top (row start (LineEditing.press console key) - 24)) := by
  have edit := edit_keyAction plain noFunction editing.ctrl editing.alt
  unfold LineEditing.press
  rw [Console.keyboardIrqHandler_eq]
  generalize Console.keyAction console.keyboard key.scancode key.beyond = action at edit
  cases edit with
  | modifier caps shift =>
      have next : Editing start { console with
          keyboard := { console.keyboard with
            capsFlag := caps, shiftFlag := shift, ctrlFlag := false, altFlag := false } } top :=
        editing.of_keyboard rfl rfl rfl
      exact next.stay
  | ignored => exact editing.stay
  | erase => exact editing.erase begun
  | type pressed notNul symbol => exact editing.type begun notNul symbol

end

/-- A line under way after these keys, with the greatest number of rows it has scrolled off. -/
structure Tracked (start : Console) (keys : List Key) (top : Nat) : Prop where
  editing : Editing start (after start keys) top
  bound : ∀ past, past <+: keys → (line start past).row ≤ top + 24
  reached : top = 0 ∨ ∃ past, past <+: keys ∧ (line start past).row = top + 24

theorem Begun.tracked {start : Console} (begun : Begun start) : Tracked start [] 0 := by
  have empty : start.shown.contents = [] :=
    List.eq_nil_of_length_eq_zero ((LineBuffer.length_contents _).trans begun.empty)
  have text : (base start).moves 80 (Screen.textMoves start.shown.contents) = base start := by
    rw [empty]
    rfl
  have editing : Editing start start 0 := by
    constructor
    case terminal => rfl
    case ctrl => exact begun.ctrl
    case alt => exact begun.alt
    case typed =>
      rw [empty]
      nofun
    case count =>
      rw [begun.empty]
      exact Nat.zero_le _
    case shows =>
      rw [text]
      exact Screen.shows_sheetOf begun.onPage
    case reach => exact Nat.zero_le _
    case attributes => exact Screen.KeepsAttributes.refl _
  refine ⟨editing, ?_, Or.inl rfl⟩
  intro past before
  obtain rfl := List.prefix_nil.mp before
  exact editing.row_le

/-- One more key scrolls the page only as far as the line then reaches. -/
theorem Tracked.press {start : Console} (begun : Begun start) {past : List Key} {top : Nat}
    (tracked : Tracked start past top) {key : Key} (plain : key.Plain)
    (noFunction : key.scancode ∉ ([0x3B, 0x3C, 0x3D] : List UInt8)) :
    Tracked start (past ++ [key]) (max top ((line start (past ++ [key])).row - 24)) := by
  have pressed := tracked.editing.press begun plain noFunction
  have all : after start (past ++ [key]) = LineEditing.press (after start past) key := by
    unfold after
    rw [List.foldl_append]
    rfl
  rw [← all] at pressed
  have below : (line start (past ++ [key])).row ≤ max top ((line start (past ++ [key])).row - 24) + 24 :=
    pressed.row_le
  refine ⟨pressed, ?_, ?_⟩
  · intro other before
    rcases List.prefix_concat_iff.mp before with rfl | earlier
    · exact below
    · have within := tracked.bound other earlier
      omega
  · rcases Nat.le_total ((line start (past ++ [key])).row - 24) top with within | beyond
    · rw [Nat.max_eq_left within]
      refine tracked.reached.imp_right ?_
      rintro ⟨other, before, same⟩
      exact ⟨other, before.trans (List.prefix_append _ _), same⟩
    · rw [Nat.max_eq_right beyond]
      rcases Nat.eq_zero_or_pos ((line start (past ++ [key])).row - 24) with zero | positive
      · exact Or.inl zero
      · exact Or.inr ⟨past ++ [key], List.prefix_rfl, by omega⟩

/-- Echo and buffer are in step after every sequence of keys without Enter, Ctrl and Alt that has
none of F1, F2 and F3 in it. -/
theorem inStep_of_plain {start : Console} (begun : Begun start) (keys : List Key)
    (plain : ∀ key ∈ keys, key.Plain)
    (noFunction : ∀ key ∈ keys, key.scancode ∉ ([0x3B, 0x3C, 0x3D] : List UInt8)) : InStep start keys := by
  have tracked : ∃ top, Tracked start keys top := by
    induction keys using List.reverseRecOn with
    | nil => exact ⟨0, begun.tracked⟩
    | append_singleton past key ih =>
        obtain ⟨top, before⟩ := ih
          (fun other member => plain other (List.mem_append_left _ member))
          (fun other member => noFunction other (List.mem_append_left _ member))
        have last : key ∈ past ++ [key] := List.mem_append_right _ (List.mem_singleton_self key)
        exact ⟨_, before.press begun (plain key last) (noFunction key last)⟩
  obtain ⟨top, editing, bound, reached⟩ := tracked
  exact ⟨editing.terminal, ⟨top, editing.shows, bound, reached⟩, editing.attributes⟩

/-- For every line, every cursor and every sequence of scancodes without Enter, Ctrl and Alt:
lookups stay inside the table and the screen shows the buffer, exactly when every scancode is in
the table or releases a modifier. -/
theorem edits_rightly_iff {start : Console} (begun : Begun start) (keys : List Key)
    (plain : ∀ key ∈ keys, key.Plain) :
    (LookupsInside keys ∧ InStep start keys) ↔ ∀ key ∈ keys, key.Known := by
  rw [lookupsInside_iff]
  refine and_iff_left_of_imp fun known => inStep_of_plain begun keys plain fun key member => ?_
  have inside := known key member
  rintro function
  simp only [List.mem_cons, List.not_mem_nil, or_false] at function
  unfold Key.Known at inside
  rcases function with same | same | same <;> rw [same] at inside <;> exact absurd inside (by decide)

theorem begun_loaded : Begun Console.loaded where
  empty := rfl
  onPage := ⟨by decide, by decide⟩
  blank := fun _ _ _ _ _ => if_pos (Nat.mul_mod_right 2 _)
  ctrl := rfl
  alt := rfl

/-- Tab, a letter and a backspace. -/
theorem edits_rightly_sample :
    (LookupsInside [⟨0x0F, 0⟩, ⟨0x1E, 0⟩, ⟨0x0E, 0⟩] ∧
      InStep Console.loaded [⟨0x0F, 0⟩, ⟨0x1E, 0⟩, ⟨0x0E, 0⟩]) :=
  (edits_rightly_iff begun_loaded _ (by
    intro key member
    simp only [List.mem_cons, List.not_mem_nil, or_false] at member
    rcases member with rfl | rfl | rfl <;> exact ⟨by decide, by decide, by decide⟩)).mpr (by
    intro key member
    simp only [List.mem_cons, List.not_mem_nil, or_false] at member
    rcases member with rfl | rfl | rfl <;> exact Or.inl (by decide))

/-- The letter a and its release; and F1, where a zero lies behind the table: it is appended to
the buffer and takes no cell, and the backspace that takes it back erases the letter. -/
theorem lookups_past_the_table :
    (∀ key ∈ ([⟨0x1E, 0⟩, ⟨0x9E, 0⟩] : List Key), key.Plain) ∧ ¬ LookupsInside [⟨0x1E, 0⟩, ⟨0x9E, 0⟩] ∧
    (∀ key ∈ ([⟨0x1E, 0⟩, ⟨0x3B, 0⟩, ⟨0x0E, 0⟩] : List Key), key.Plain) ∧
    ¬ InStep Console.loaded [⟨0x1E, 0⟩, ⟨0x3B, 0⟩, ⟨0x0E, 0⟩] := by
  refine ⟨?_, ?_, ?_, ?_⟩
  · intro key member
    simp only [List.mem_cons, List.not_mem_nil, or_false] at member
    rcases member with rfl | rfl <;> exact ⟨by decide, by decide, by decide⟩
  · intro inside
    exact absurd (inside ⟨0x9E, 0⟩ (by simp) 158 (by decide)) (by decide)
  · intro key member
    simp only [List.mem_cons, List.not_mem_nil, or_false] at member
    rcases member with rfl | rfl | rfl <;> exact ⟨by decide, by decide, by decide⟩
  · rintro ⟨_, ⟨_, shows, _⟩, _⟩
    exact absurd shows.x (by decide +kernel)

end LinuxLikeOS.LineEditing

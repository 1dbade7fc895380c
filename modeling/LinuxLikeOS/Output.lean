import LinuxLikeOS.Effects
import LinuxLikeOS.Interrupt
import LinuxLikeOS.Rendering
import LinuxLikeOS.TerminalIsolation

/-!
# Whose page output goes to

A process that is scheduled writes to the terminal, which need not be the one on display; the
timer turns the page of a mapped program accordingly. `putc` has no part in this: it writes to
the visible page, with the cursor of the displayed terminal.
-/

namespace LinuxLikeOS

open Function

namespace Screen

/-! ## The cells a text passes -/

/-- The cells of the window in which symbols are stored. -/
def touched (sheet : Sheet UInt8) : List (Sheet.Move UInt8) → List (Nat × Nat)
  | [] => []
  | .put c :: rest => (min sheet.row 24, sheet.column) :: touched (sheet.put 80 c) rest
  | .newline :: rest => touched (sheet.endRow sheet.column) rest

theorem touched_append (sheet : Sheet UInt8) (first second : List (Sheet.Move UInt8)) :
    touched sheet (first ++ second) = touched sheet first ++ touched (sheet.moves 80 first) second := by
  induction first generalizing sheet with
  | nil => rfl
  | cons move rest ih =>
      cases move with
      | put c => simp only [List.cons_append, touched, ih, Sheet.moves_cons, Sheet.move]
      | newline => simp only [List.cons_append, touched, ih, Sheet.moves_cons, Sheet.move]

theorem touched_inside {sheet : Sheet UInt8} {text : List (Sheet.Move UInt8)} (inside : sheet.column < 80)
    {i j : Nat} (member : (i, j) ∈ touched sheet text) : i < 25 ∧ j < 80 := by
  induction text generalizing sheet with
  | nil => cases member
  | cons move rest ih =>
      cases move with
      | put c =>
          rcases List.mem_cons.mp member with here | later
          · obtain ⟨rfl, rfl⟩ := Prod.mk.inj here
            exact ⟨Nat.lt_succ_of_le (Nat.min_le_right _ _), inside⟩
          · exact ih (Sheet.column_put inside) later
      | newline => exact ih (Nat.zero_lt_succ _) member

/-- Exactly these cells have got the attribute `ATTRIB`. -/
def Paints (before after : Screen) (cells : List (Nat × Nat)) : Prop :=
  ∀ i < 25, ∀ j < 80, after.video (2 * (80 * i + j) + 1) =
    if (i, j) ∈ cells then 7 else before.video (2 * (80 * i + j) + 1)

section

variable {before screen : Screen} {current : Terminal} {cells : List (Nat × Nat)} {sheet : Sheet UInt8}

theorem Paints.refl (screen : Screen) : Paints screen screen [] := by
  intro i _ j _
  rw [if_neg List.not_mem_nil]

theorem Paints.trans {first second third : Screen} {some more : List (Nat × Nat)}
    (before : Paints first second some) (after : Paints second third more) :
    Paints first third (some ++ more) := by
  intro i row j column
  rw [after i row j column, before i row j column]
  by_cases later : (i, j) ∈ more
  · rw [if_pos later, if_pos (List.mem_append_right _ later)]
  · rw [if_neg later]
    simp only [List.mem_append, later, or_false]

theorem Paints.settle (paints : Paints before screen cells) (current : Terminal) :
    Paints before (screen.settle current) cells := by
  intro i row j column
  rw [settle_attribute]
  exact paints i row j column

theorem paints_storeCell (screen : Screen) (current : Terminal) (c : UInt8)
    (inside : screen.screenX current < 80) :
    Paints screen (screen.storeCell current c) [(screen.screenY current, screen.screenX current)] := by
  intro i row j column
  have even : 2 * (80 * i + j) + 1 ≠ 2 * (80 * screen.screenY current + screen.screenX current) := by omega
  simp only [Screen.storeCell, List.mem_singleton, Prod.mk.injEq]
  split
  · rename_i here
    rw [here.1, here.2, update_self]
  · rename_i other
    rw [update_of_ne (fun same => other (by omega)), update_of_ne even]

theorem Shows.window {top : Nat} (shows : Shows screen current top sheet) (last : top = sheet.row - 24) :
    screen.screenY current = min sheet.row 24 := by
  have y := shows.y
  have bottom := shows.bottom
  omega

theorem Shows.paints_symbol (shows : Shows screen current (sheet.row - 24) sheet) {c : UInt8}
    (symbol : ¬ (c = 10 ∨ c = 13)) :
    Paints screen (screen.putPlain current c) (touched sheet [.put c]) := by
  have inside : screen.screenX current < 80 := shows.x ▸ shows.inside
  have stored := paints_storeCell screen current c inside
  rw [shows.window rfl, shows.x] at stored
  unfold putPlain
  rw [if_neg symbol]
  simp only []
  split
  · apply Paints.settle
    exact stored
  · apply Paints.settle
    exact stored

theorem paints_newline (screen : Screen) (current : Terminal) {c : UInt8} (newline : c = 10 ∨ c = 13) :
    Paints screen (screen.putPlain current c) (touched sheet [.newline]) := by
  unfold putPlain
  rw [if_pos newline]
  apply Paints.settle
  exact Paints.refl screen

/-- The window of a sheet that has grown. -/
theorem Shows.grown {after : Sheet UInt8} (shows : Shows screen current (max (sheet.row - 24) (after.row - 24)) after)
    (lower : sheet.row ≤ after.row) : Shows screen current (after.row - 24) after := by
  have tops : max (sheet.row - 24) (after.row - 24) = after.row - 24 := by omega
  rwa [tops] at shows

theorem Shows.paints_spaces (shows : Shows screen current (sheet.row - 24) sheet) (n : Nat) :
    Paints screen ((List.replicate n 32).foldl (fun screen c => screen.putPlain current c) screen)
      (touched sheet (List.replicate n (.put 32))) := by
  induction n generalizing screen sheet with
  | zero => exact Paints.refl screen
  | succ n ih =>
      have symbol : ¬ ((32 : UInt8) = 10 ∨ (32 : UInt8) = 13) := by decide
      have first := shows.paints_symbol symbol
      have next := (shows.putPlain_symbol symbol).grown (Sheet.row_le_put sheet 32)
      exact first.trans (ih next)

theorem Shows.paints_putc (shows : Shows screen current (sheet.row - 24) sheet) (c : UInt8) :
    Paints screen (screen.putc current c) (touched sheet (moves c)) := by
  unfold Screen.putc moves
  by_cases nul : c = 0
  · rw [if_pos nul, if_pos nul]
    exact Paints.refl screen
  · rw [if_neg nul, if_neg nul]
    by_cases newline : c = 10 ∨ c = 13
    · have notTab : c ≠ 9 := by
        rintro rfl
        exact absurd newline (by decide)
      rw [if_pos newline, if_neg notTab]
      exact paints_newline screen current newline
    · rw [if_neg newline]
      by_cases tab : c = 9
      · rw [if_pos tab, if_pos tab]
        exact (shows.paints_spaces 5).settle current
      · rw [if_neg tab, if_neg tab]
        exact shows.paints_symbol newline

theorem Shows.paints_puts (shows : Shows screen current (sheet.row - 24) sheet) (text : List UInt8) :
    Paints screen (screen.puts current text) (touched sheet (textMoves text)) := by
  induction text generalizing screen sheet with
  | nil => exact Paints.refl screen
  | cons c rest ih =>
      have first := shows.paints_putc c
      have next := (shows.putc c).grown (Sheet.row_le_moves sheet (moves c))
      rw [textMoves, List.flatMap_cons, touched_append]
      exact first.trans (ih next)

/-- The screen shows the end of a sheet. -/
structure Displays (screen : Screen) (current : Terminal) (sheet : Sheet UInt8) : Prop where
  cells : ∀ i < 25, ∀ j < 80, screen.video (2 * (80 * i + j)) = sheet.cell (sheet.row - 24 + i) j
  x : screen.screenX current = sheet.column
  y : screen.screenY current = min sheet.row 24

theorem Shows.displays (shows : Shows screen current (sheet.row - 24) sheet) : Displays screen current sheet :=
  ⟨shows.cells, shows.x, shows.window rfl⟩

/-- The text does not change what is seen of the sheet: the end of it looks as it did before. -/
structure Traceless (sheet : Sheet UInt8) (text : List UInt8) : Prop where
  cells : ∀ i < 25, ∀ j < 80,
    (sheet.moves 80 (textMoves text)).cell ((sheet.moves 80 (textMoves text)).row - 24 + i) j = sheet.cell i j
  x : (sheet.moves 80 (textMoves text)).column = sheet.column
  y : min (sheet.moves 80 (textMoves text)).row 24 = sheet.row

/-- Such a text is empty, or it scrolls from the last row. -/
theorem Traceless.empty_or_last {text : List UInt8} (traceless : Traceless sheet text)
    (inside : sheet.column < 80) : textMoves text = [] ∨ sheet.row = 24 := by
  by_contra neither
  obtain ⟨some, above⟩ := not_or.mp neither
  have moved := Sheet.position_lt_moves inside some
  have x := traceless.x
  have y := traceless.y
  unfold Sheet.position at moved
  omega

theorem textMoves_eq_nil {text : List UInt8} : textMoves text = [] ↔ ∀ c ∈ text, c = 0 := by
  unfold textMoves
  rw [List.flatMap_eq_nil_iff]
  refine forall_congr' fun c => imp_congr_right fun _ => ?_
  unfold moves
  constructor
  · intro none
    by_contra notNul
    rw [if_neg notNul] at none
    split at none
    · cases none
    · split at none <;> cases none
  · intro nul
    rw [if_pos nul]

end

/-! ## Cursors stay on their pages -/

/-- All cursors are on their pages, and so is every column in `line_tracker`. -/
structure Tidy (screen : Screen) : Prop where
  onPage : ∀ terminal, screen.OnPage terminal
  tracker : ∀ row, screen.lineTracker row < 80

section

variable {screen : Screen} {current : Terminal}

theorem tracker_settle (bounded : ∀ row, screen.lineTracker row < 80) (current : Terminal) (row : Nat) :
    (screen.settle current).lineTracker row < 80 := by
  unfold settle
  simp only []
  split
  · simp only [updateCursor, scrollScreen]
    split
    · exact bounded _
    · split
      · decide
      · exact bounded row
  · exact bounded row

theorem tracker_putPlain (bounded : ∀ row, screen.lineTracker row < 80) (inside : screen.screenX current < 80)
    (c : UInt8) (row : Nat) : (screen.putPlain current c).lineTracker row < 80 := by
  have stored : ∀ last < 80, ∀ y row, update screen.lineTracker y last row < 80 := by
    intro last small y row
    rcases eq_or_ne row y with rfl | other
    · rwa [update_self]
    · rw [update_of_ne other]
      exact bounded row
  unfold putPlain
  split
  · apply tracker_settle
    exact stored _ inside _
  · simp only []
    split
    · apply tracker_settle
      exact stored 79 (by decide) _
    · apply tracker_settle
      exact bounded

theorem x_putPlain (inside : screen.screenX current < 80) (onPage : screen.screenY current < 25) (c : UInt8) :
    (screen.putPlain current c).OnPage current := by
  have shows := shows_sheetOf (And.intro inside onPage)
  by_cases newline : c = 10 ∨ c = 13
  · have after := shows.putPlain_newline newline
    exact ⟨after.x ▸ after.inside, after.bottom⟩
  · have after := shows.putPlain_symbol newline
    exact ⟨after.x ▸ after.inside, after.bottom⟩

theorem Tidy.of_untouched {before after : Screen} (tidy : Tidy before) (untouched : Untouched before after current)
    (onPage : after.OnPage current) (tracker : ∀ row, after.lineTracker row < 80) : Tidy after where
  onPage := by
    intro terminal
    by_cases here : terminal = current
    · rw [here]
      exact onPage
    · unfold OnPage
      rw [untouched.x terminal here, untouched.y terminal here]
      exact tidy.onPage terminal
  tracker := tracker

theorem Tidy.putPlain (tidy : Tidy screen) (current : Terminal) (c : UInt8) : Tidy (screen.putPlain current c) := by
  obtain ⟨inside, bottom⟩ := tidy.onPage current
  refine tidy.of_untouched ((Untouched.refl screen current).putPlain c) (x_putPlain inside bottom c) ?_
  exact tracker_putPlain tidy.tracker inside c

theorem Tidy.settle (tidy : Tidy screen) (current : Terminal) : Tidy (screen.settle current) := by
  have shown := (shows_sheetOf (tidy.onPage current)).settle
  refine tidy.of_untouched (Untouched.refl screen current).settle ⟨shown.x ▸ shown.inside, shown.bottom⟩ ?_
  exact tracker_settle tidy.tracker current

/-- The spaces of a tab. -/
def spaces (screen : Screen) (current : Terminal) (n : Nat) : Screen :=
  (List.replicate n 32).foldl (fun screen c => screen.putPlain current c) screen

theorem spaces_succ (screen : Screen) (current : Terminal) (n : Nat) :
    screen.spaces current (n + 1) = (screen.spaces current n).putPlain current 32 := by
  rw [spaces, List.replicate_succ', List.foldl_append]
  rfl

theorem Tidy.spaces (tidy : Tidy screen) (current : Terminal) (n : Nat) : Tidy (screen.spaces current n) := by
  induction n with
  | zero => exact tidy
  | succ n ih =>
      rw [spaces_succ]
      exact ih.putPlain current 32

theorem Tidy.putc (tidy : Tidy screen) (current : Terminal) (c : UInt8) : Tidy (screen.putc current c) := by
  unfold Screen.putc
  split
  · exact tidy
  · split
    · exact (tidy.spaces current 5).settle current
    · exact tidy.putPlain current c

theorem Tidy.delC (tidy : Tidy screen) (current : Terminal) : Tidy (screen.delC current) := by
  obtain ⟨inside, bottom⟩ := tidy.onPage current
  have untouched := (Untouched.refl screen current).delC
  refine tidy.of_untouched untouched ?_ ?_
  · unfold OnPage Screen.delC
    split
    · split
      · simp only [updateCursor, storeCell, update_self]
        exact ⟨tidy.tracker _, by omega⟩
      · exact ⟨inside, bottom⟩
    · simp only [updateCursor, storeCell, update_self]
      exact ⟨by omega, bottom⟩
  · intro row
    unfold Screen.delC
    split
    · split
      · exact tidy.tracker row
      · exact tidy.tracker row
    · exact tidy.tracker row

theorem Tidy.clearScreen (tidy : Tidy screen) (current : Terminal) : Tidy (screen.clearScreen current) := by
  refine tidy.of_untouched ((Untouched.refl screen current).draw .clear) ?_ tidy.tracker
  unfold OnPage
  simp only [Screen.clearScreen, clear, updateCursor, update_self]
  decide

/-- The hardware cursor was last sent to where the cursor of the displayed terminal is. -/
def Sent (screen : Screen) (current : Terminal) : Prop :=
  screen.cursor = (screen.screenY current * 80 + screen.screenX current) % 2 ^ 16

theorem sent_settle (screen : Screen) (current : Terminal) : Sent (screen.settle current) current := rfl

theorem sent_putPlain (screen : Screen) (current : Terminal) (c : UInt8) :
    Sent (screen.putPlain current c) current := by
  unfold putPlain
  split
  · exact sent_settle _ current
  · simp only []
    split <;> exact sent_settle _ current

theorem Sent.putc (sent : Sent screen current) (c : UInt8) : Sent (screen.putc current c) current := by
  unfold Screen.putc
  split
  · exact sent
  · split
    · exact sent_settle _ current
    · exact sent_putPlain screen current c

theorem Sent.delC (sent : Sent screen current) : Sent (screen.delC current) current := by
  unfold Screen.delC
  split
  · split
    · simp only [Sent, updateCursor, storeCell, update_self]
    · exact sent
  · simp only [Sent, updateCursor, storeCell, update_self]

theorem sent_clearScreen (screen : Screen) (current : Terminal) : Sent (screen.clearScreen current) current := by
  simp only [Sent, Screen.clearScreen, updateCursor, update_self]

/-- On the page the position fits the cursor registers. -/
theorem Sent.position (sent : Sent screen current) (onPage : screen.OnPage current) :
    screen.cursor = 80 * screen.screenY current + screen.screenX current := by
  obtain ⟨inside, bottom⟩ := onPage
  unfold Sent at sent
  omega

end

end Screen

theorem Console.Change.sent {before after : Console} (change : Change before after)
    (sent : Screen.Sent before.screen before.currentTerminal) :
    Screen.Sent after.screen after.currentTerminal := by
  cases change with
  | putc c => exact sent.putc c
  | delC => exact sent.delC
  | clearScreen => exact Screen.sent_clearScreen before.screen before.currentTerminal
  | openTerminal terminalId =>
      unfold Console.openTerminal
      split
      · rfl
      · exact sent
  | keyboard => exact sent

/-- Nothing that is done to a console moves a cursor off its page. -/
theorem Console.Change.tidy {before after : Console} (change : Change before after)
    (tidy : Screen.Tidy before.screen) : Screen.Tidy after.screen := by
  cases change with
  | putc c => exact tidy.putc before.currentTerminal c
  | delC => exact tidy.delC before.currentTerminal
  | clearScreen => exact tidy.clearScreen before.currentTerminal
  | openTerminal terminalId =>
      unfold Console.openTerminal
      split
      · exact ⟨tidy.onPage, tidy.tracker⟩
      · exact tidy
  | keyboard => exact tidy

theorem Screen.tidy_loaded : Tidy Console.loaded.screen :=
  ⟨fun _ => ⟨Nat.zero_lt_succ _, Nat.zero_lt_succ _⟩, fun _ => Nat.zero_lt_succ _⟩

theorem Screen.Tidy.puts {screen : Screen} (tidy : Tidy screen) (current : Terminal) (text : List UInt8) :
    Tidy (screen.puts current text) := by
  induction text generalizing screen with
  | nil => exact tidy
  | cons c rest ih => exact ih (tidy.putc current c)

theorem Screen.tidy_atEntry (leftovers : Leftovers) : Tidy (Screen.atEntry leftovers) := by
  have cleared : Tidy (clear ⟨leftovers.video, leftovers.saved, fun _ => 0, fun _ => 0, fun _ => 0,
      leftovers.cursor⟩) :=
    ⟨fun _ => ⟨Nat.zero_lt_succ _, Nat.zero_lt_succ _⟩, fun _ => Nat.zero_lt_succ _⟩
  exact (cleared.puts 0 leftovers.messages).clearScreen 0

namespace Output

open Kernel Screen

/-! ## Reachable states -/

/-- What leads from state to state: events and keys, output and input of the running process, and
its calls on files and devices. -/
inductive Activity where
  | happens (event : Event)
  | exception (exceptionId : Nat) (inner : Frame) (locals : Locals)
  | key (scancode beyond : UInt8) (inner : Frame) (locals : Locals)
  | write (buf : Memory) (nbytes : Int)
  | beginRead
  | endRead
  | devices (fds : Int → Table) (files : Table) (rtc : Rtc)

/-- `terminal_write`. -/
def terminalWrite (buf : Memory) (nbytes : Int) (kernel : Kernel) : Kernel :=
  kernel.withConsole (kernel.console.terminalWrite buf nbytes)

def Activity.step (image : Image) (layout : Layout) (kernel : Kernel) : Activity → Option Kernel
  | .happens event => kernel.next image layout event
  | .exception exceptionId inner locals =>
      (kernel.exceptionHandler image exceptionId inner locals).map Prod.snd
  | .key scancode beyond inner locals => (kernel.key image scancode beyond inner locals).map Prod.snd
  | .write buf nbytes => some (terminalWrite buf nbytes kernel)
  | .beginRead => some (kernel.withConsole (kernel.console.setReadFlag false))
  | .endRead => some (kernel.withConsole kernel.console.terminalRead.2)
  | .devices fds files rtc => some
      { kernel with
        pcb := fun pid => { kernel.pcb pid with systemcallFdArray := fds pid }
        files := files
        rtc := rtc }

theorem activity_changes {image : Image} {layout : Layout} {kernel after : Kernel} {activity : Activity}
    (taken : activity.step image layout kernel = some after) :
    Console.Changes kernel.console after.console := by
  cases activity with
  | happens event =>
      obtain ⟨⟨transfer, _⟩, stepped, rfl⟩ := Option.map_eq_some_iff.mp taken
      exact (step_effects stepped).changes
  | exception exceptionId inner locals =>
      obtain ⟨⟨transfer, _⟩, handled, rfl⟩ := Option.map_eq_some_iff.mp taken
      exact (exception_effects handled).changes
  | key scancode beyond inner locals =>
      obtain ⟨⟨transfer, _⟩, pressed, rfl⟩ := Option.map_eq_some_iff.mp taken
      exact (key_effects pressed).changes
  | write buf nbytes =>
      obtain rfl := Option.some.inj taken
      exact Console.changes_terminalWrite _ _ _
  | beginRead =>
      obtain rfl := Option.some.inj taken
      exact (Console.Change.keyboard _ _).once
  | endRead =>
      obtain rfl := Option.some.inj taken
      exact (Console.Change.keyboard _ _).once
  | devices fds files rtc =>
      obtain rfl := Option.some.inj taken
      exact Console.Changes.refl _

/-- The console of a state that is reached, from the one at boot. -/
theorem reached_changes {image : Image} {layout : Layout} {pcb : Int → Pcb} {rtc : Rtc} {leftovers : Leftovers}
    {activities : List Activity} {kernel : Kernel}
    (reached : Transition.run (Activity.step image layout) (entry layout pcb rtc leftovers) activities = some kernel) :
    Console.Changes (Console.atEntry leftovers) kernel.console := by
  refine Transition.run_preserves _ (P := fun kernel => Console.Changes (Console.atEntry leftovers) kernel.console)
    (Console.Changes.refl _) ?_ reached
  exact fun _ _ _ before taken => before.trans (activity_changes taken)

theorem reached_tidy {image : Image} {layout : Layout} {pcb : Int → Pcb} {rtc : Rtc} {leftovers : Leftovers}
    {activities : List Activity} {kernel : Kernel}
    (reached : Transition.run (Activity.step image layout) (entry layout pcb rtc leftovers) activities = some kernel) :
    Tidy kernel.console.screen :=
  (reached_changes reached).preserves (P := fun console => Tidy console.screen)
    (fun _ _ change tidy => change.tidy tidy) (tidy_atEntry leftovers)

theorem reached_sent {image : Image} {layout : Layout} {pcb : Int → Pcb} {rtc : Rtc} {leftovers : Leftovers}
    {activities : List Activity} {kernel : Kernel}
    (reached : Transition.run (Activity.step image layout) (entry layout pcb rtc leftovers) activities = some kernel) :
    Sent kernel.console.screen kernel.console.currentTerminal :=
  (reached_changes reached).preserves (P := fun console => Sent console.screen console.currentTerminal)
    (fun _ _ change sent => change.sent sent) rfl

/-! ## Output -/

/-- The page of a terminal with its cursor, as a sheet. -/
def pageSheet (console : Console) (terminal : Terminal) : Sheet UInt8 :=
  console.screen.sheetOf terminal (console.page terminal)

/-- A text has gone to the terminal of the process that wrote it, and nowhere else: all that has
changed is the screen of that terminal, and once it is displayed it shows the text where its
cursor was. -/
structure OwnTerminal (kernel after : Kernel) (text : List UInt8) : Prop where
  rest : ∃ screen, after = kernel.withConsole { kernel.console with screen := screen }
  others : ∀ terminal, terminal ≠ kernel.schedTerminal → TerminalIsolation.SameView after.console kernel.console terminal
  shown : Displays (after.openTerminal kernel.schedTerminal.val).console.screen kernel.schedTerminal
    ((pageSheet kernel.console kernel.schedTerminal).moves 80 (textMoves text))

/-- The text leaves no trace on the page, attributes included. -/
def NoTrace (console : Console) (terminal : Terminal) (text : List UInt8) : Prop :=
  Traceless (pageSheet console terminal) text ∧
    ∀ i j, (i, j) ∈ touched (pageSheet console terminal) (textMoves text) →
      console.page terminal (2 * (80 * i + j) + 1) = 7

/-- The condition: the scheduled terminal is displayed, or nothing is to be seen of the text:
there are only NULs in it, or it scrolls in the last row of either page and looks the same. -/
def ReachesWriter (kernel : Kernel) (text : List UInt8) : Prop :=
  let shown := kernel.console.currentTerminal
  let own := kernel.schedTerminal
  own = shown ∨ (∀ c ∈ text, c = 0) ∨
    (kernel.console.screen.screenY shown = 24 ∧ kernel.console.screen.screenY own = 24 ∧
      NoTrace kernel.console shown text ∧ Traceless (pageSheet kernel.console own) text)

section

variable {console : Console} {terminal : Terminal} {text : List UInt8}

theorem traceless_of_nul (nul : ∀ c ∈ text, c = 0) (onPage : console.screen.OnPage terminal) :
    Traceless (pageSheet console terminal) text := by
  have empty := textMoves_eq_nil.mpr nul
  have row : (pageSheet console terminal).row ≤ 24 := Nat.le_of_lt_succ onPage.2
  constructor
  case cells =>
    intro i _ j _
    rw [empty, Sheet.moves_nil, Nat.sub_eq_zero_of_le row, Nat.zero_add]
  case x => rw [empty, Sheet.moves_nil]
  case y =>
    rw [empty, Sheet.moves_nil]
    exact Nat.min_eq_left row

/-- What a text does to the page of the displayed terminal. -/
theorem puts_displays (tidy : Tidy console.screen) (text : List UInt8) :
    Displays (console.screen.puts console.currentTerminal text) console.currentTerminal
        ((pageSheet console console.currentTerminal).moves 80 (textMoves text)) ∧
      Paints console.screen (console.screen.puts console.currentTerminal text)
        (touched (pageSheet console console.currentTerminal) (textMoves text)) := by
  have onPage := tidy.onPage console.currentTerminal
  have page : console.page console.currentTerminal = console.screen.video := Console.page_displayed rfl
  have row : (pageSheet console console.currentTerminal).row - 24 = 0 :=
    Nat.sub_eq_zero_of_le (Nat.le_of_lt_succ onPage.2)
  have start : Shows console.screen console.currentTerminal ((pageSheet console console.currentTerminal).row - 24)
      (pageSheet console console.currentTerminal) := by
    rw [row, pageSheet, page]
    exact shows_sheetOf onPage
  refine ⟨?_, start.paints_puts text⟩
  exact ((start.puts text).grown (Sheet.row_le_moves _ _)).displays

theorem cell_pageSheet (console : Console) (terminal : Terminal) {i j : Nat} (row : i < 25) (column : j < 80) :
    (pageSheet console terminal).cell i j = console.page terminal (2 * (80 * i + j)) :=
  if_pos ⟨row, column⟩

/-- A page is its characters and its attributes. -/
theorem page_eq_iff {first second : Memory} :
    (∀ offset < 2 * (25 * 80), first offset = second offset) ↔
      (∀ i < 25, ∀ j < 80, first (2 * (80 * i + j)) = second (2 * (80 * i + j))) ∧
      ∀ i < 25, ∀ j < 80, first (2 * (80 * i + j) + 1) = second (2 * (80 * i + j) + 1) := by
  constructor
  · intro same
    exact ⟨fun i row j column => same _ (by omega), fun i row j column => same _ (by omega)⟩
  · rintro ⟨characters, attributes⟩ offset inside
    have column : offset / 2 % 80 < 80 := Nat.mod_lt _ (by decide)
    have row : offset / 2 / 80 < 25 := by omega
    rcases Nat.mod_two_eq_zero_or_one offset with even | odd
    · have place : 2 * (80 * (offset / 2 / 80) + offset / 2 % 80) = offset := by omega
      have same := characters _ row _ column
      rwa [place] at same
    · have place : 2 * (80 * (offset / 2 / 80) + offset / 2 % 80) + 1 = offset := by omega
      have same := attributes _ row _ column
      rwa [place] at same

/-- The displayed page is as it was exactly when the text leaves no trace on it. -/
theorem displayed_kept_iff (tidy : Tidy console.screen) (text : List UInt8) :
    ((∀ offset < 2 * (25 * 80), (console.screen.puts console.currentTerminal text).video offset =
        console.screen.video offset) ∧
      (console.screen.puts console.currentTerminal text).screenX console.currentTerminal =
        console.screen.screenX console.currentTerminal ∧
      (console.screen.puts console.currentTerminal text).screenY console.currentTerminal =
        console.screen.screenY console.currentTerminal) ↔
    NoTrace console console.currentTerminal text := by
  obtain ⟨displays, paints⟩ := puts_displays tidy text
  have page : console.page console.currentTerminal = console.screen.video := Console.page_displayed rfl
  have cell := @cell_pageSheet console console.currentTerminal
  rw [page] at cell
  rw [page_eq_iff]
  constructor
  · rintro ⟨⟨characters, attributes⟩, x, y⟩
    refine ⟨⟨?_, ?_, ?_⟩, ?_⟩
    · intro i row j column
      rw [← displays.cells i row j column, characters i row j column, cell row column]
    · exact displays.x.symm.trans x
    · exact displays.y.symm.trans y
    · intro i j member
      obtain ⟨row, column⟩ := touched_inside (tidy.onPage console.currentTerminal).1 member
      rw [page, ← attributes i row j column, paints i row j column, if_pos member]
  · rintro ⟨traceless, painted⟩
    refine ⟨⟨?_, ?_⟩, ?_, ?_⟩
    · intro i row j column
      rw [displays.cells i row j column, traceless.cells i row j column, cell row column]
    · intro i row j column
      rw [paints i row j column]
      split
      · rename_i member
        rw [← painted i j member, page]
      · rfl
    · exact displays.x.trans traceless.x
    · exact displays.y.trans traceless.y

end

section

variable {kernel : Kernel} {buf : Memory} {nbytes : Int}

/-- The console after a text has been put on the displayed terminal. -/
def printed (console : Console) (text : List UInt8) : Console :=
  { console with screen := console.screen.puts console.currentTerminal text }

theorem page_printed (console : Console) (text : List UInt8) :
    (printed console text).page console.currentTerminal =
      (console.screen.puts console.currentTerminal text).video := if_pos rfl

/-- That leaves the other terminals as they are. -/
theorem others_kept (console : Console) (text : List UInt8) {terminal : Terminal}
    (other : terminal ≠ console.currentTerminal) :
    TerminalIsolation.SameView (printed console text) console terminal := by
  have untouched : Untouched console.screen (console.screen.puts console.currentTerminal text)
      console.currentTerminal := by
    generalize written : console.screen = screen
    have start := Untouched.refl screen console.currentTerminal
    clear written
    suffices later : ∀ after, Untouched screen after console.currentTerminal →
        Untouched screen (after.puts console.currentTerminal text) console.currentTerminal from later screen start
    induction text with
    | nil => exact fun _ kept => kept
    | cons c rest ih => exact fun after kept => ih _ (kept.putc c)
  constructor
  case page =>
    intro offset _
    have displayed : (printed console text).currentTerminal = console.currentTerminal := rfl
    unfold Console.page
    rw [displayed, if_neg other, if_neg other]
    exact congrFun (congrFun untouched.saved terminal) offset
  case x => exact untouched.x terminal other
  case y => exact untouched.y terminal other
  case buffer => rfl

/-- What is on display once the terminal has been opened. -/
theorem displays_openTerminal_iff (kernel : Kernel) (terminal : Terminal) (sheet : Sheet UInt8) :
    Displays (kernel.openTerminal terminal.val).console.screen terminal sheet ↔
      (∀ i < 25, ∀ j < 80, kernel.console.page terminal (2 * (80 * i + j)) = sheet.cell (sheet.row - 24 + i) j) ∧
        kernel.console.screen.screenX terminal = sheet.column ∧
        kernel.console.screen.screenY terminal = min sheet.row 24 := by
  have same := TerminalIsolation.sameView_openTerminal kernel.console terminal.val terminal
  have page : ∀ i < 25, ∀ j < 80, (kernel.openTerminal terminal.val).console.screen.video (2 * (80 * i + j)) =
      kernel.console.page terminal (2 * (80 * i + j)) := by
    intro i row j column
    rw [← same.page _ (by omega), Console.page_displayed (kernel.console.openTerminal_currentTerminal terminal)]
    rfl
  constructor
  · intro displays
    refine ⟨?_, same.x.symm.trans displays.x, same.y.symm.trans displays.y⟩
    intro i row j column
    rw [← page i row j column, displays.cells i row j column]
  · rintro ⟨cells, x, y⟩
    refine ⟨?_, same.x.trans x, same.y.trans y⟩
    intro i row j column
    rw [page i row j column, cells i row j column]

theorem terminalWrite_kernel (buf : Memory) (nbytes : Int) (kernel : Kernel) :
    terminalWrite buf nbytes kernel = kernel.withConsole (printed kernel.console (Console.written buf nbytes)) := by
  rw [terminalWrite, Console.terminalWrite_eq, printed]

/-- The writer's own terminal is on display. -/
theorem ownTerminal_of_displayed (tidy : Tidy kernel.console.screen)
    (shown : kernel.schedTerminal = kernel.console.currentTerminal) :
    OwnTerminal kernel (terminalWrite buf nbytes kernel) (Console.written buf nbytes) := by
  rw [terminalWrite_kernel]
  constructor
  case rest => exact ⟨_, rfl⟩
  case others =>
    intro terminal other
    rw [shown] at other
    exact others_kept kernel.console _ other
  case shown =>
    obtain ⟨displays, _⟩ := puts_displays tidy (Console.written buf nbytes)
    rw [displays_openTerminal_iff, shown]
    refine ⟨?_, displays.x, displays.y⟩
    have page := page_printed kernel.console (Console.written buf nbytes)
    intro i row j column
    exact (congrFun page _).trans (displays.cells i row j column)

/-- Another terminal is on display. -/
theorem ownTerminal_iff_of_hidden (tidy : Tidy kernel.console.screen)
    (hidden : kernel.schedTerminal ≠ kernel.console.currentTerminal) :
    OwnTerminal kernel (terminalWrite buf nbytes kernel) (Console.written buf nbytes) ↔
      NoTrace kernel.console kernel.console.currentTerminal (Console.written buf nbytes) ∧
        Traceless (pageSheet kernel.console kernel.schedTerminal) (Console.written buf nbytes) := by
  rw [terminalWrite_kernel, ← displayed_kept_iff tidy]
  have kept := others_kept kernel.console (Console.written buf nbytes) hidden
  have before : kernel.console.page kernel.console.currentTerminal = kernel.console.screen.video := if_pos rfl
  have after := page_printed kernel.console (Console.written buf nbytes)
  constructor
  · rintro ⟨_, others, shown⟩
    have displayed := others kernel.console.currentTerminal (Ne.symm hidden)
    refine ⟨⟨?_, displayed.x, displayed.y⟩, ?_⟩
    · intro offset inside
      rw [← before, ← after]
      exact displayed.page offset inside
    · obtain ⟨cells, x, y⟩ := (displays_openTerminal_iff _ _ _).mp shown
      refine ⟨?_, x.symm.trans kept.x, y.symm.trans kept.y⟩
      intro i row j column
      rw [← cells i row j column, cell_pageSheet _ _ row column]
      exact kept.page _ (by omega)
  · rintro ⟨⟨page, x, y⟩, traceless⟩
    constructor
    case rest => exact ⟨_, rfl⟩
    case others =>
      intro terminal other
      by_cases here : terminal = kernel.console.currentTerminal
      · subst here
        refine ⟨fun offset inside => ?_, x, y, rfl⟩
        have same := page offset inside
        rw [← before, ← after] at same
        exact same
      · exact others_kept kernel.console _ here
    case shown =>
      rw [displays_openTerminal_iff]
      refine ⟨?_, kept.x.trans traceless.x.symm, kept.y.trans traceless.y.symm⟩
      intro i row j column
      rw [traceless.cells i row j column, cell_pageSheet _ _ row column]
      exact kept.page _ (by omega)

/-- In every state that is reached, and for every buffer and length: what the scheduled process
writes goes to its own terminal exactly under the condition. -/
theorem own_terminal_iff {image : Image} {layout : Layout} {pcb : Int → Pcb} {rtc : Rtc} {leftovers : Leftovers}
    {activities : List Activity}
    (reached : Transition.run (Activity.step image layout) (entry layout pcb rtc leftovers) activities = some kernel)
    (buf : Memory) (nbytes : Int) :
    OwnTerminal kernel (terminalWrite buf nbytes kernel) (Console.written buf nbytes) ↔
      ReachesWriter kernel (Console.written buf nbytes) := by
  have tidy := reached_tidy reached
  unfold ReachesWriter
  by_cases shown : kernel.schedTerminal = kernel.console.currentTerminal
  · exact iff_of_true (ownTerminal_of_displayed tidy shown) (Or.inl shown)
  · rw [ownTerminal_iff_of_hidden tidy shown]
    simp only [shown, false_or]
    have own := tidy.onPage kernel.schedTerminal
    have displayed := tidy.onPage kernel.console.currentTerminal
    constructor
    · rintro ⟨noTrace, traceless⟩
      rcases noTrace.1.empty_or_last displayed.1 with empty | last
      · exact Or.inl (textMoves_eq_nil.mp empty)
      · rcases traceless.empty_or_last own.1 with empty | also
        · exact Or.inl (textMoves_eq_nil.mp empty)
        · exact Or.inr ⟨last, also, noTrace, traceless⟩
    · rintro (nul | ⟨_, _, noTrace, traceless⟩)
      · refine ⟨⟨traceless_of_nul nul displayed, ?_⟩, traceless_of_nul nul own⟩
        intro i j member
        rw [textMoves_eq_nil.mpr nul] at member
        cases member
      · exact ⟨noTrace, traceless⟩

end

/-- Each terminal gets its shell, the user goes to the last one and starts a program there, and its turn comes. -/
def turnOfLast : List Activity :=
  let tick := .happens (.tick ⟨0, 0⟩ ⟨0, 0⟩ .zeros)
  List.replicate 5 tick ++ [.happens (.openTerminal 2), .happens (.execute Image.shell ⟨0, 0⟩ .zeros)] ++
    List.replicate 3 tick

theorem own_terminal_sample : ∃ kernel,
    Transition.run (Activity.step Image.sample Layout.sample) booted turnOfLast = some kernel ∧
    kernel.schedTerminal = 2 ∧ kernel.newPid = 3 ∧
    OwnTerminal kernel (terminalWrite (fun _ => 65) 1 kernel) [65] := by
  have evaluated : (Transition.run (Activity.step Image.sample Layout.sample) booted turnOfLast).map (fun kernel =>
      (kernel.schedTerminal, kernel.console.currentTerminal, kernel.newPid)) = some (2, 2, 3) := by
    decide +kernel
  obtain ⟨kernel, ran, values⟩ := Option.map_eq_some_iff.mp evaluated
  obtain ⟨scheduled, shown, running⟩ : kernel.schedTerminal = 2 ∧ kernel.console.currentTerminal = 2 ∧
      kernel.newPid = 3 := by simpa using values
  exact ⟨kernel, ran, scheduled, running,
    (own_terminal_iff ran (fun _ => 65) 1).mpr (Or.inl (scheduled.trans shown.symm))⟩

/-- The first shell is scheduled, the user looks at the second terminal: a byte goes there. -/
theorem output_of_hidden_terminal : ∃ kernel,
    Transition.run (Activity.step Image.sample Layout.sample) booted
      [.happens (.execute Image.shell ⟨0, 0⟩ .zeros), .happens (.openTerminal 1)] = some kernel ∧
    kernel.schedTerminal = 0 ∧ kernel.console.currentTerminal = 1 ∧
    (terminalWrite (fun _ => 65) 1 kernel).console.screen.video 0 = 65 ∧
    ¬ OwnTerminal kernel (terminalWrite (fun _ => 65) 1 kernel) [65] := by
  have evaluated : (Transition.run (Activity.step Image.sample Layout.sample) booted
      [.happens (.execute Image.shell ⟨0, 0⟩ .zeros), .happens (.openTerminal 1)]).map (fun kernel =>
        (kernel.schedTerminal, kernel.console.currentTerminal, kernel.console.screen.screenX 1,
          (terminalWrite (fun _ => 65) 1 kernel).console.screen.screenX 1,
          (terminalWrite (fun _ => 65) 1 kernel).console.screen.video 0)) = some (0, 1, 0, 1, 65) := by
    decide +kernel
  obtain ⟨kernel, ran, values⟩ := Option.map_eq_some_iff.mp evaluated
  obtain ⟨scheduled, shown, before, after, stored⟩ : kernel.schedTerminal = 0 ∧
      kernel.console.currentTerminal = 1 ∧ kernel.console.screen.screenX 1 = 0 ∧
      (terminalWrite (fun _ => 65) 1 kernel).console.screen.screenX 1 = 1 ∧
      (terminalWrite (fun _ => 65) 1 kernel).console.screen.video 0 = 65 := by simpa using values
  refine ⟨kernel, ran, scheduled, shown, stored, ?_⟩
  intro own
  have other : (1 : Terminal) ≠ kernel.schedTerminal := by
    rw [scheduled]
    decide
  have moved := (own.others 1 other).x
  rw [before, after] at moved
  cases moved

end Output

end LinuxLikeOS

import LinuxLikeOS.Output

/-!
# Shells that the timer starts

On the first turn of a terminal `pit_irq_handler` shows it, calls `execute` and shows the old
terminal again. The second switch is reached only where `execute` returns: a shell that is
started goes to user mode, with its own terminal on display.
-/

namespace LinuxLikeOS.BackgroundShells

open Function Kernel Screen Output

/-- What the user sees is as before: the terminal on display, its page, and the cursor. -/
structure Undisturbed (before after : Console) : Prop where
  terminal : after.currentTerminal = before.currentTerminal
  page : ∀ offset < 2 * (25 * 80), after.screen.video offset = before.screen.video offset
  cursor : after.screen.cursor = before.screen.cursor

/-- The cursor is at the start of the last row, and no character is on the page. -/
structure Blank (screen : Screen) (current : Terminal) : Prop where
  cells : ∀ i < 25, ∀ j < 80, screen.video (2 * (80 * i + j)) = 32
  x : screen.screenX current = 0
  y : screen.screenY current = 24

/-- The shell is found and has a free slot, but does not fit into its page; or the search for it
leaves the file system. -/
def Faults (image : Image) (locals : Locals) (kernel : Kernel) : Prop :=
  check image Image.shell locals kernel.newPid = .overrun ∨
    ∃ eip loaded slot, check image Image.shell locals kernel.newPid = .passed eip loaded ∧
      freeSlot kernel.progs = some slot ∧ 0x400000 < 0x48000 + loaded.length

/-- The condition on a tick: the terminal has had its first turn; or it is another one than the
one on display and no shell can be started; or it is the one on display and a newline is not to
be seen there (or the tick ends in a fault). -/
def LeavesDisplay (image : Image) (locals : Locals) (kernel : Kernel) : Prop :=
  (kernel.terminalArray kernel.tempTerminal).onOffFlag = true ∨
    (kernel.tempTerminal ≠ kernel.console.currentTerminal ∧ ∀ slot, ¬ Starts image Image.shell locals kernel slot) ∨
    (kernel.tempTerminal = kernel.console.currentTerminal ∧
      (Faults image locals kernel ∨ Blank kernel.console.screen kernel.console.currentTerminal))

/-! ## A newline -/

section

variable {screen : Screen} {current : Terminal}

theorem Undisturbed.of_eq {before after : Console} (terminal : after.currentTerminal = before.currentTerminal)
    (screen : after.screen = before.screen) : Undisturbed before after := by
  refine ⟨terminal, fun _ _ => ?_, ?_⟩
  · rw [screen]
  · rw [screen]

theorem scrolled_cell (screen : Screen) (current : Terminal) {i j : Nat} (row : i < 25) (column : j < 80) :
    (screen.scrollScreen current).video (2 * (80 * i + j)) =
      if i = 24 then 32 else screen.video (2 * (80 * (i + 1) + j)) := by
  simp only [scrollScreen]
  by_cases last : i = 24
  · rw [if_pos last, if_pos (by omega)]
  · rw [if_neg last, if_neg (by omega), if_pos (by omega)]
    congr 1
    omega

theorem scrolled_attribute (screen : Screen) (current : Terminal) (cell : Nat) :
    (screen.scrollScreen current).video (2 * cell + 1) = screen.video (2 * cell + 1) := by
  simp only [scrollScreen]
  rw [if_neg (by omega), if_neg (by omega)]

/-- A page that scrolls and looks the same has no characters. -/
theorem scrolls_unseen_iff (screen : Screen) (current : Terminal) :
    (∀ offset < 2 * (25 * 80), (screen.scrollScreen current).video offset = screen.video offset) ↔
      ∀ i < 25, ∀ j < 80, screen.video (2 * (80 * i + j)) = 32 := by
  rw [page_eq_iff]
  constructor
  · rintro ⟨characters, _⟩ i row j column
    -- from the last row, which is blank, upwards
    induction above : 24 - i generalizing i with
    | zero =>
        have same := characters i row j column
        rw [scrolled_cell screen current row column, if_pos (by omega)] at same
        exact same.symm
    | succ n ih =>
        have same := characters i row j column
        rw [scrolled_cell screen current row column, if_neg (by omega)] at same
        rw [← same]
        exact ih (i + 1) (by omega) (by omega)
  · intro spaces
    refine ⟨fun i row j column => ?_, fun i _ j _ => scrolled_attribute screen current _⟩
    rw [scrolled_cell screen current row column, spaces i row j column]
    split
    · rfl
    · exact spaces (i + 1) (by omega) j column

/-- A newline above the last row. -/
theorem newline_above (above : screen.screenY current < 24) :
    (screen.putc current 10).video = screen.video ∧ (screen.putc current 10).screenX current = 0 ∧
      (screen.putc current 10).screenY current = screen.screenY current + 1 := by
  have plain : screen.putc current 10 = screen.putPlain current 10 := rfl
  have inside : screen.screenY current + 1 ≠ 25 := by omega
  rw [plain, putPlain, if_pos (Or.inl rfl)]
  simp only [settle, update_self, if_neg inside, updateCursor]
  trivial

/-- A newline in the last row. -/
theorem newline_last (last : screen.screenY current = 24) :
    (screen.putc current 10).video = (screen.scrollScreen current).video ∧
      (screen.putc current 10).screenX current = 0 ∧ (screen.putc current 10).screenY current = 24 := by
  have plain : screen.putc current 10 = screen.putPlain current 10 := rfl
  rw [plain, putPlain, if_pos (Or.inl rfl)]
  simp only [settle, update_self, last, if_true, updateCursor, scrollScreen]
  trivial

/-- Nothing is to be seen of a newline exactly on a blank page with the cursor in its last row. -/
theorem newline_unseen_iff (onPage : screen.OnPage current) (sent : screen.Sent current) :
    ((∀ offset < 2 * (25 * 80), (screen.putc current 10).video offset = screen.video offset) ∧
      (screen.putc current 10).cursor = screen.cursor) ↔ Blank screen current := by
  obtain ⟨inside, bottom⟩ := onPage
  have before := sent.position ⟨inside, bottom⟩
  have after : (screen.putc current 10).cursor =
      ((screen.putc current 10).screenY current * 80 + (screen.putc current 10).screenX current) % 2 ^ 16 := sent.putc 10
  by_cases last : screen.screenY current = 24
  · obtain ⟨video, x, y⟩ := newline_last last
    rw [after, video, x, y, scrolls_unseen_iff]
    constructor
    · rintro ⟨cells, cursor⟩
      exact ⟨cells, by omega, last⟩
    · rintro ⟨cells, start, _⟩
      exact ⟨cells, by omega⟩
  · have above : screen.screenY current < 24 := by omega
    obtain ⟨_, x, y⟩ := newline_above above
    refine iff_of_false ?_ fun blank => last blank.y
    rintro ⟨_, cursor⟩
    omega

end

/-! ## Ticks -/

section

variable {kernel after : Kernel} {image : Image} {transfer : Transfer} {frame inner : Frame} {locals : Locals}

/-- The console `execute` leaves, whether it starts a program or returns. -/
theorem execute_console {command : CString}
    (executed : kernel.execute image command frame locals = some (transfer, after)) :
    after.console = (kernel.console.putc 10).clearBuffer := by
  unfold execute at executed
  split at executed
  · obtain ⟨_, rfl⟩ := Prod.mk.inj (Option.some.inj executed)
    rfl
  · cases executed
  · split at executed
    · obtain ⟨_, rfl⟩ := Prod.mk.inj (Option.some.inj executed)
      rfl
    · split at executed
      · cases executed
      · obtain ⟨_, rfl⟩ := Prod.mk.inj (Option.some.inj executed)
        rfl

/-- `execute` comes to an end exactly without a fault. -/
theorem execute_isSome_iff (kernel : Kernel) (image : Image) (locals : Locals) (frame : Frame) :
    (kernel.execute image Image.shell frame locals).isSome = true ↔ ¬ Faults image locals kernel := by
  unfold execute Faults
  cases checked : check image Image.shell locals kernel.newPid with
  | rejected ret => simp
  | overrun => simp
  | passed eip loaded =>
      cases free : freeSlot kernel.progs with
      | none => simp
      | some slot =>
          by_cases large : 0x48000 + loaded.length > 0x400000
          · simp [large]
          · simp only [if_neg large]
            refine iff_of_true rfl ?_
            rintro (overrun | ⟨_, _, _, same, _, also⟩)
            · cases overrun
            · obtain ⟨rfl, rfl⟩ := Check.passed.inj same
              exact large also

/-- On its first turn the terminal on display gets a newline. -/
theorem firstTurn_displayed (shown : kernel.tempTerminal = kernel.console.currentTerminal) :
    kernel.firstTurn.console = kernel.console := by
  show kernel.console.openTerminal kernel.tempTerminal.val = kernel.console
  rw [shown]
  exact dif_neg fun valid => valid.2.2 rfl

/-- A terminal that is not on display gets its newline, and the old one is shown again. -/
theorem undisturbed_of_return (tidy : kernel.console.screen.Tidy)
    (sent : kernel.console.screen.Sent kernel.console.currentTerminal)
    (hidden : kernel.tempTerminal ≠ kernel.console.currentTerminal) :
    Undisturbed kernel.console
      ((kernel.firstTurn.console.putc 10).clearBuffer.openTerminal kernel.console.currentTerminal.val) := by
  have changes : Console.Changes kernel.console
      ((kernel.firstTurn.console.putc 10).clearBuffer.openTerminal kernel.console.currentTerminal.val) :=
    (Console.Change.openTerminal _ _).once.trans ((Console.Change.putc _ 10).once.trans
      ((Console.Change.keyboard _ _).once.trans (Console.Change.openTerminal _ _).once))
  have stays : Console.currentTerminal
      ((kernel.firstTurn.console.putc 10).clearBuffer.openTerminal kernel.console.currentTerminal.val) =
        kernel.console.currentTerminal := Console.openTerminal_currentTerminal _ _
  have other : kernel.console.currentTerminal ≠ kernel.firstTurn.console.currentTerminal := by
    rw [firstTurn_currentTerminal]
    exact hidden.symm
  have opened := TerminalIsolation.sameView_openTerminal kernel.console kernel.tempTerminal.val
    kernel.console.currentTerminal
  have written := others_kept kernel.firstTurn.console [10] other
  have back := TerminalIsolation.sameView_openTerminal (kernel.firstTurn.console.putc 10).clearBuffer
    kernel.console.currentTerminal.val kernel.console.currentTerminal
  have x := back.x.trans (written.x.trans opened.x)
  have y := back.y.trans (written.y.trans opened.y)
  have sentAfter := changes.preserves (P := fun console => console.screen.Sent console.currentTerminal)
    (fun _ _ change before => change.sent before) sent
  have tidyAfter := changes.preserves (P := fun console => console.screen.Tidy)
    (fun _ _ change before => change.tidy before) tidy
  refine ⟨stays, fun offset inside => ?_, ?_⟩
  · have page := (back.page offset inside).trans ((written.page offset inside).trans (opened.page offset inside))
    rwa [Console.page_displayed stays, Console.page_displayed rfl] at page
  · have position := sentAfter.position (tidyAfter.onPage _)
    rw [stays, x, y] at position
    rw [position, sent.position (tidy.onPage _)]

theorem undisturbed_of_seen (seen : (kernel.terminalArray kernel.tempTerminal).onOffFlag = true)
    (ticked : kernel.pitIrqHandler image frame inner locals = some (transfer, after)) :
    Undisturbed kernel.console after.console := by
  rcases tick_cases ticked with ⟨_, ⟨_, _, rfl⟩ | ⟨_, switched⟩⟩ | ⟨fresh, _⟩
  · exact .of_eq rfl rfl
  · obtain rfl : (switch frame kernel.nextTurn.scheduled).2 = after := congrArg Prod.snd switched
    exact .of_eq rfl rfl
  · rw [seen] at fresh
    cases fresh

/-- The first turn of the terminal on display. -/
theorem displayed_undisturbed_iff (tidy : kernel.console.screen.Tidy)
    (sent : kernel.console.screen.Sent kernel.console.currentTerminal)
    (fresh : (kernel.terminalArray kernel.tempTerminal).onOffFlag = false)
    (shown : kernel.tempTerminal = kernel.console.currentTerminal) (sound : ¬ Faults image locals kernel)
    (frame inner : Frame) :
    (∀ transfer after, kernel.pitIrqHandler image frame inner locals = some (transfer, after) →
      Undisturbed kernel.console after.console) ↔
    Blank kernel.console.screen kernel.console.currentTerminal := by
  have ends := (execute_isSome_iff kernel.firstTurn image locals inner).mpr sound
  obtain ⟨⟨inside, started⟩, executed⟩ := Option.isSome_iff_exists.mp ends
  obtain ⟨control, after, ticked, answer⟩ : ∃ control after,
      kernel.pitIrqHandler image frame inner locals = some (control, after) ∧
        (after = started ∨ after = started.openTerminal kernel.console.currentTerminal.val) :=
    tick_of_fresh fresh executed
  have console : started.console = (kernel.console.putc 10).clearBuffer := by
    rw [execute_console executed, firstTurn_displayed shown]
  have same : after.console = (kernel.console.putc 10).clearBuffer := by
    rcases answer with rfl | rfl
    · exact console
    · show started.console.openTerminal kernel.console.currentTerminal.val = _
      rw [console]
      exact dif_neg fun valid => valid.2.2 rfl
  rw [← newline_unseen_iff (tidy.onPage _) sent]
  constructor
  · intro every
    have undisturbed := every control after ticked
    rw [same] at undisturbed
    exact ⟨undisturbed.page, undisturbed.cursor⟩
  · rintro ⟨page, cursor⟩ transfer other also
    obtain ⟨rfl, rfl⟩ := Prod.mk.inj (Option.some.inj (ticked.symm.trans also))
    rw [same]
    exact ⟨rfl, page, cursor⟩

/-- The first turn of another terminal. -/
theorem hidden_undisturbed_iff (tidy : kernel.console.screen.Tidy)
    (sent : kernel.console.screen.Sent kernel.console.currentTerminal)
    (fresh : (kernel.terminalArray kernel.tempTerminal).onOffFlag = false)
    (hidden : kernel.tempTerminal ≠ kernel.console.currentTerminal) (frame inner : Frame) :
    (∀ transfer after, kernel.pitIrqHandler image frame inner locals = some (transfer, after) →
      Undisturbed kernel.console after.console) ↔
    ∀ slot, ¬ Starts image Image.shell locals kernel slot := by
  constructor
  · intro every slot starts
    have startsThere : Starts image Image.shell locals kernel.firstTurn slot := starts
    obtain ⟨eip, loaded, started, executed, shell⟩ := execute_started startsThere inner
    have ticked : kernel.pitIrqHandler image frame inner locals = some (.program eip loaded, started) := by
      simp only [pitIrqHandler, fresh, Bool.false_eq_true, if_false, executed]
    have undisturbed := every _ _ ticked
    refine hidden ?_
    rw [← undisturbed.terminal, shell.displayed, firstTurn_currentTerminal]
  · intro none transfer after ticked
    rcases tick_cases ticked with ⟨seen, _⟩ | ⟨_, inside, started, executed, answer⟩
    · rw [fresh] at seen
      cases seen
    · rcases execute_cases executed with ⟨_, ret, oldPid, rfl, returned⟩ | ⟨slot, starts, _⟩
      · rcases answer with ⟨_, _, _, rfl⟩ | ⟨_, _, notReturn⟩
        · show Undisturbed kernel.console (started.console.openTerminal kernel.console.currentTerminal.val)
          rw [execute_console executed]
          exact undisturbed_of_return tidy sent hidden
        · exact absurd rfl (notReturn ret)
      · exact absurd starts (none slot)

/-- In every state that is reached, and for every tick: what the user sees is left alone exactly
under the condition. -/
theorem display_kept_iff {layout : Layout} {pcb : Int → Pcb} {rtc : Rtc} {leftovers : Leftovers}
    {activities : List Activity}
    (reached : Transition.run (Activity.step image layout) (entry layout pcb rtc leftovers) activities = some kernel)
    (frame inner : Frame) (locals : Locals) :
    (∀ transfer after, kernel.pitIrqHandler image frame inner locals = some (transfer, after) →
      Undisturbed kernel.console after.console) ↔ LeavesDisplay image locals kernel := by
  have tidy := reached_tidy reached
  have sent := reached_sent reached
  unfold LeavesDisplay
  cases fresh : (kernel.terminalArray kernel.tempTerminal).onOffFlag with
  | true => exact iff_of_true (fun _ _ ticked => undisturbed_of_seen fresh ticked) (Or.inl rfl)
  | false =>
      simp only [Bool.false_eq_true, false_or]
      by_cases shown : kernel.tempTerminal = kernel.console.currentTerminal
      · simp only [shown, ne_eq, not_true_eq_false, false_and, true_and, false_or]
        by_cases faults : Faults image locals kernel
        · refine iff_of_true (fun transfer after ticked => ?_) (Or.inl faults)
          rcases tick_cases ticked with ⟨seen, _⟩ | ⟨_, inside, started, executed, _⟩
          · rw [fresh] at seen
            cases seen
          · have ends : (kernel.firstTurn.execute image Image.shell inner locals).isSome = true := by
              rw [executed]
              rfl
            exact absurd faults ((execute_isSome_iff kernel.firstTurn image locals inner).mp ends)
        · simp only [faults, false_or]
          exact displayed_undisturbed_iff tidy sent fresh shown faults frame inner
      · simp only [shown, ne_eq, not_false_eq_true, true_and, false_and, or_false]
        exact hidden_undisturbed_iff tidy sent fresh shown frame inner

end

def startsProgram : Transfer → Bool
  | .program .. => true
  | _ => false

/-- A tick over memory of zeros. -/
def tickOfZeros : Activity := .happens (.tick ⟨0, 0⟩ ⟨0, 0⟩ .zeros)

/-- The first tick starts the shell of the first terminal, the second passes on to the next one. -/
theorem display_kept_sample : ∃ kernel,
    Transition.run (Activity.step Image.sample Layout.sample) booted [tickOfZeros] = some kernel ∧
    ∀ transfer after, kernel.pitIrqHandler Image.sample ⟨0, 0⟩ ⟨0, 0⟩ .zeros = some (transfer, after) →
      Undisturbed kernel.console after.console := by
  have evaluated : (Transition.run (Activity.step Image.sample Layout.sample) booted [tickOfZeros]).map
      (fun kernel => (kernel.terminalArray kernel.tempTerminal).onOffFlag) = some true := by decide +kernel
  obtain ⟨kernel, ran, seen⟩ := Option.map_eq_some_iff.mp evaluated
  exact ⟨kernel, ran, (display_kept_iff ran ⟨0, 0⟩ ⟨0, 0⟩ .zeros).mpr (Or.inl seen)⟩

/-- The third tick starts the shell of the second terminal, which is then the one on display. -/
theorem background_shell_is_displayed : ∃ kernel eip loaded after,
    Transition.run (Activity.step Image.sample Layout.sample) booted [tickOfZeros, tickOfZeros] = some kernel ∧
    kernel.pitIrqHandler Image.sample ⟨0, 0⟩ ⟨0, 0⟩ .zeros = some (.program eip loaded, after) ∧
    kernel.console.currentTerminal = 0 ∧ after.console.currentTerminal = 1 ∧
    ¬ Undisturbed kernel.console after.console := by
  have evaluated : (Transition.run (Activity.step Image.sample Layout.sample) booted
      [tickOfZeros, tickOfZeros]).map (fun kernel => (kernel.console.currentTerminal,
        (kernel.pitIrqHandler Image.sample ⟨0, 0⟩ ⟨0, 0⟩ .zeros).map fun result =>
          (startsProgram result.1, result.2.console.currentTerminal))) = some (0, some (true, 1)) := by
    decide +kernel
  obtain ⟨kernel, ran, values⟩ := Option.map_eq_some_iff.mp evaluated
  obtain ⟨shown, tick⟩ := Prod.mk.inj values
  obtain ⟨⟨transfer, after⟩, ticked, outcome⟩ := Option.map_eq_some_iff.mp tick
  obtain ⟨program, next⟩ := Prod.mk.inj outcome
  cases transfer with
  | program eip loaded =>
      refine ⟨kernel, eip, loaded, after, ran, ticked, shown, next, fun undisturbed => ?_⟩
      have same := undisturbed.terminal
      rw [shown] at same
      exact absurd (next.symm.trans same) (by decide)
  | returns ret => cases program
  | parent status frame => cases program
  | stack frame => cases program

end LinuxLikeOS.BackgroundShells

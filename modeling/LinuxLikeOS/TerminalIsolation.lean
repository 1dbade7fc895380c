import LinuxLikeOS.Console
import LinuxLikeOS.Transition

/-!
# Terminals beside each other

Every terminal has its page, its cursor and its keyboard buffer, and what happens while
another one is displayed is not to change them. There is one `line_tracker` for all three
terminals, though, and `del_c` reads from it where the row above ended.
-/

namespace LinuxLikeOS

open Function

namespace Screen

/-- What an operation does to the screen, drawing by drawing. -/
inductive Draw where
  | put (c : UInt8)
  | erase
  | clear

def draw (screen : Screen) (current : Terminal) : Draw → Screen
  | .put c => screen.putc current c
  | .erase => screen.delC current
  | .clear => screen.clearScreen current

def drawAll (screen : Screen) (current : Terminal) (draws : List Draw) : Screen :=
  draws.foldl (fun screen => screen.draw current) screen

def withTracker (screen : Screen) (lineTracker : Nat → Nat) : Screen :=
  { screen with lineTracker := lineTracker }

/-- `line_tracker` after a drawing, had it been as given before. -/
def trackerAfter (screen : Screen) (current : Terminal) (lineTracker : Nat → Nat) (next : Draw) : Nat → Nat :=
  ((screen.withTracker lineTracker).draw current next).lineTracker

/-- `line_tracker` after several drawings. -/
def trackerAfterAll (screen : Screen) (current : Terminal) (lineTracker : Nat → Nat) : List Draw → Nat → Nat
  | [] => lineTracker
  | next :: rest =>
      (screen.draw current next).trackerAfterAll current (screen.trackerAfter current lineTracker next) rest

/-- A deletion at the start of a row finds in `line_tracker` where the row above ended. -/
def FindsRowEnd (screen : Screen) (current : Terminal) (ends : Nat → Nat) : Draw → Prop
  | .erase => screen.screenX current = 0 → 0 < screen.screenY current →
      screen.lineTracker (screen.screenY current - 1) = ends (screen.screenY current - 1)
  | _ => True

/-- So do all of several drawings. -/
def FindsRowEnds (screen : Screen) (current : Terminal) (ends : Nat → Nat) : List Draw → Prop
  | [] => True
  | next :: rest =>
      screen.FindsRowEnd current ends next ∧
        (screen.draw current next).FindsRowEnds current (screen.trackerAfter current ends next) rest

/-- The displayed page and the cursor of the terminal are the same on two screens, and where
`tracked` the line ends too. -/
structure Alike (tracked : Prop) (first second : Screen) (terminal : Terminal) : Prop where
  page : ∀ offset < 4000, first.video offset = second.video offset
  x : first.screenX terminal = second.screenX terminal
  y : first.screenY terminal = second.screenY terminal
  tracker : tracked → first.lineTracker = second.lineTracker

section

variable {tracked : Prop} {first second : Screen} {current : Terminal}

theorem Alike.storeCell (alike : Alike tracked first second current) (c : UInt8) :
    Alike tracked (first.storeCell current c) (second.storeCell current c) current where
  page := by
    intro offset inside
    simp only [Screen.storeCell, alike.x, alike.y, update_apply, alike.page offset inside]
  x := alike.x
  y := alike.y
  tracker := alike.tracker

theorem Alike.scrollScreen (alike : Alike tracked first second current) :
    Alike tracked (first.scrollScreen current) (second.scrollScreen current) current where
  page := by
    intro offset inside
    simp only [Screen.scrollScreen]
    split
    · rfl
    · split
      · rename_i above
        exact alike.page _ (by omega)
      · exact alike.page offset inside
  x := alike.x
  y := by simp only [Screen.scrollScreen, update_self]
  tracker := by
    intro same
    simp only [Screen.scrollScreen, alike.tracker same]

theorem Alike.settle (alike : Alike tracked first second current) :
    Alike tracked (first.settle current) (second.settle current) current := by
  have scrolled := alike.scrollScreen
  unfold Screen.settle
  simp only [alike.y]
  split
  · exact ⟨scrolled.page, scrolled.x, scrolled.y, scrolled.tracker⟩
  · exact ⟨alike.page, alike.x, alike.y, alike.tracker⟩

theorem Alike.putPlain (alike : Alike tracked first second current) (c : UInt8) :
    Alike tracked (first.putPlain current c) (second.putPlain current c) current := by
  have stored := alike.storeCell c
  unfold Screen.putPlain
  split
  · refine Alike.settle ⟨alike.page, ?_, ?_, ?_⟩
    · simp only [update_self]
    · simp only [update_self, alike.y]
    · intro same
      simp only [alike.tracker same, alike.x, alike.y]
  · simp only [alike.x]
    split
    · refine Alike.settle ⟨stored.page, ?_, ?_, ?_⟩
      · simp only [update_self]
      · simp only [update_self, alike.y]
      · intro same
        simp only [alike.tracker same, alike.y]
    · refine Alike.settle ⟨stored.page, ?_, alike.y, alike.tracker⟩
      simp only [update_self]

theorem Alike.putSpaces (alike : Alike tracked first second current) (n : Nat) :
    Alike tracked ((List.replicate n 32).foldl (fun screen c => screen.putPlain current c) first)
      ((List.replicate n 32).foldl (fun screen c => screen.putPlain current c) second) current := by
  induction n generalizing first second with
  | zero => exact alike
  | succ n ih => exact ih (alike.putPlain 32)

theorem Alike.putc (alike : Alike tracked first second current) (c : UInt8) :
    Alike tracked (first.putc current c) (second.putc current c) current := by
  unfold Screen.putc
  split
  · exact alike
  · split
    · exact (alike.putSpaces 5).settle
    · exact alike.putPlain c

theorem Alike.delC (alike : Alike tracked first second current)
    (found : first.screenX current = 0 → 0 < first.screenY current →
      first.lineTracker (first.screenY current - 1) = second.lineTracker (first.screenY current - 1)) :
    Alike tracked (first.delC current) (second.delC current) current := by
  have erased : ∀ x y, Alike tracked
      (Screen.storeCell { first with
        screenX := update first.screenX current x, screenY := update first.screenY current y } current 32)
      (Screen.storeCell { second with
        screenX := update second.screenX current x, screenY := update second.screenY current y } current 32)
      current := by
    intro x y
    refine Alike.storeCell (Alike.mk ?_ ?_ ?_ ?_) 32
    · exact alike.page
    · simp only [update_self]
    · simp only [update_self]
    · exact alike.tracker
  unfold Screen.delC
  simp only [alike.x, alike.y] at found ⊢
  split
  · rename_i start
    split
    · rename_i below
      have back := erased (second.lineTracker (second.screenY current - 1)) (second.screenY current - 1)
      rw [found start below]
      exact ⟨back.page, back.x, back.y, back.tracker⟩
    · exact alike
  · have back := erased (second.screenX current - 1) (second.screenY current)
    rw [← alike.y, update_eq_self, alike.y, update_eq_self] at back
    exact ⟨back.page, back.x, back.y, back.tracker⟩

theorem Alike.clearScreen (alike : Alike tracked first second current) :
    Alike tracked (first.clearScreen current) (second.clearScreen current) current where
  page := by
    intro offset inside
    simp only [Screen.clearScreen, clear, updateCursor, if_pos (show offset < 2 * (25 * 80) by omega)]
  x := by simp only [Screen.clearScreen, clear, updateCursor, update_self]
  y := by simp only [Screen.clearScreen, clear, updateCursor, update_self]
  tracker := alike.tracker

theorem Alike.draw (alike : Alike tracked first second current) {next : Draw}
    (found : first.FindsRowEnd current second.lineTracker next) :
    Alike tracked (first.draw current next) (second.draw current next) current := by
  cases next with
  | put c => exact alike.putc c
  | erase => exact alike.delC found
  | clear => exact alike.clearScreen

/-- The same drawings on two screens of which one has its own line ends. -/
theorem Alike.drawAll (alike : Alike False first second current) (draws : List Draw)
    (found : first.FindsRowEnds current second.lineTracker draws) :
    Alike False (first.drawAll current draws) (second.drawAll current draws) current ∧
      (second.drawAll current draws).lineTracker =
        first.trackerAfterAll current second.lineTracker draws := by
  induction draws generalizing first second with
  | nil => exact ⟨alike, rfl⟩
  | cons next rest ih =>
      obtain ⟨here, later⟩ := found
      have twin : Alike True (first.withTracker second.lineTracker) second current :=
        ⟨alike.page, alike.x, alike.y, fun _ => rfl⟩
      have always : (first.withTracker second.lineTracker).FindsRowEnd current second.lineTracker next := by
        cases next with
        | erase => exact fun _ _ => rfl
        | put c => trivial
        | clear => trivial
      have same : first.trackerAfter current second.lineTracker next = (second.draw current next).lineTracker :=
        (twin.draw always).tracker trivial
      rw [same] at later
      obtain ⟨after, tracker⟩ := ih (alike.draw here) later
      refine ⟨after, tracker.trans ?_⟩
      rw [trackerAfterAll, same]

end

/-! ## What drawing leaves alone -/

/-- The saved pages and the cursors of the other terminals. -/
structure Untouched (before after : Screen) (current : Terminal) : Prop where
  saved : after.saved = before.saved
  x : ∀ other, other ≠ current → after.screenX other = before.screenX other
  y : ∀ other, other ≠ current → after.screenY other = before.screenY other

section

variable {before screen : Screen} {current : Terminal}

theorem Untouched.refl (screen : Screen) (current : Terminal) : Untouched screen screen current :=
  ⟨rfl, fun _ _ => rfl, fun _ _ => rfl⟩

theorem Untouched.moveTo (untouched : Untouched before screen current) (x y : Nat) (video : Memory)
    (lineTracker : Nat → Nat) (cursor : Nat) :
    Untouched before ⟨video, screen.saved, update screen.screenX current x, update screen.screenY current y,
      lineTracker, cursor⟩ current where
  saved := untouched.saved
  x := by
    intro other apart
    rw [← untouched.x other apart]
    exact update_of_ne apart _ _
  y := by
    intro other apart
    rw [← untouched.y other apart]
    exact update_of_ne apart _ _

theorem Untouched.settle (untouched : Untouched before screen current) :
    Untouched before (screen.settle current) current := by
  unfold Screen.settle
  simp only []
  split
  · have moved := untouched.moveTo (screen.screenX current) 24 (screen.scrollScreen current).video
      (screen.scrollScreen current).lineTracker
      ((screen.scrollScreen current).updateCursor ((screen.scrollScreen current).screenX current)
        ((screen.scrollScreen current).screenY current)).cursor
    rw [update_eq_self] at moved
    exact moved
  · exact ⟨untouched.saved, untouched.x, untouched.y⟩

theorem Untouched.putPlain (untouched : Untouched before screen current) (c : UInt8) :
    Untouched before (screen.putPlain current c) current := by
  unfold Screen.putPlain
  split
  · refine Untouched.settle ?_
    exact untouched.moveTo 0 (screen.screenY current + 1) _ _ _
  · simp only []
    split
    · refine Untouched.settle ?_
      exact untouched.moveTo ((screen.screenX current + 1) % 80) (screen.screenY current + 1) _ _ _
    · refine Untouched.settle ?_
      have moved := untouched.moveTo ((screen.screenX current + 1) % 80) (screen.screenY current)
        (screen.storeCell current c).video screen.lineTracker screen.cursor
      rw [update_eq_self] at moved
      exact moved

theorem Untouched.putc (untouched : Untouched before screen current) (c : UInt8) :
    Untouched before (screen.putc current c) current := by
  unfold Screen.putc
  split
  · exact untouched
  · split
    · refine Untouched.settle ?_
      generalize (5 : Nat) = n
      induction n generalizing screen with
      | zero => exact untouched
      | succ n ih => exact ih (untouched.putPlain 32)
    · exact untouched.putPlain c

theorem Untouched.delC (untouched : Untouched before screen current) :
    Untouched before (screen.delC current) current := by
  unfold Screen.delC
  split
  · split
    · exact untouched.moveTo _ _ _ _ _
    · exact untouched
  · have moved := untouched.moveTo (screen.screenX current - 1) (screen.screenY current)
      ((screen.delC current).video) screen.lineTracker (screen.delC current).cursor
    unfold Screen.delC at moved
    rename_i more
    simp only [if_neg more] at moved
    rw [update_eq_self] at moved
    exact moved

theorem Untouched.draw (untouched : Untouched before screen current) (next : Draw) :
    Untouched before (screen.draw current next) current := by
  cases next with
  | put c => exact untouched.putc c
  | erase => exact untouched.delC
  | clear => exact untouched.moveTo 0 0 _ _ _

theorem Untouched.drawAll (untouched : Untouched before screen current) (draws : List Draw) :
    Untouched before (screen.drawAll current draws) current := by
  induction draws generalizing screen with
  | nil => exact untouched
  | cons next rest ih => exact ih (untouched.draw next)

end

end Screen

/-- The page of a terminal, displayed or saved. -/
def Console.page (console : Console) (terminal : Terminal) : Memory :=
  if terminal = console.currentTerminal then console.screen.video else console.screen.saved terminal

theorem Console.page_displayed {console : Console} {terminal : Terminal}
    (here : console.currentTerminal = terminal) : console.page terminal = console.screen.video :=
  if_pos here.symm

namespace TerminalIsolation

open Screen

inductive Operation where
  | putc (c : UInt8)
  | delC
  | clearScreen
  | key (scancode beyond : UInt8)
  | openTerminal (terminalId : Int)

def Operation.switches : Operation → Bool
  | .openTerminal _ => true
  | _ => false

/-- The keys that count as operations type a byte or erase one. -/
def Operation.Admitted (keyboard : Keyboard) : Operation → Prop
  | .key scancode beyond =>
      match Console.keyAction keyboard scancode beyond with
      | .type _ | .erase => True
      | _ => False
  | _ => True

def perform (console : Console) : Operation → Option Console
  | .putc c => some (console.putc c)
  | .delC => some console.delC
  | .clearScreen => some console.clearScreen
  | .key scancode beyond =>
      match Console.keyAction console.keyboard scancode beyond, console.keyboardIrqHandler scancode beyond with
      | .type _, .returns after => some after
      | .erase, .returns after => some after
      | _, _ => none
  | .openTerminal terminalId => some (console.openTerminal terminalId)

/-- The screen of a terminal, its cursor and its keyboard buffer are the same in two states. -/
structure SameView (first second : Console) (terminal : Terminal) : Prop where
  page : ∀ offset < 2 * (25 * 80), first.page terminal offset = second.page terminal offset
  x : first.screen.screenX terminal = second.screen.screenX terminal
  y : first.screen.screenY terminal = second.screen.screenY terminal
  buffer : first.keyboard.buffer terminal = second.keyboard.buffer terminal

/-- What an operation draws. -/
def draws (console : Console) : Operation → List Draw
  | .putc c => [.put c]
  | .delC => [.erase]
  | .clearScreen => [.clear]
  | .key scancode beyond =>
      match Console.keyAction console.keyboard scancode beyond with
      | .type pressed => if console.shown.count < 127 then [.put pressed] else []
      | .erase =>
          if console.shown.count = 0 then []
          else List.replicate (if console.shown.slots (console.shown.count - 1) = 9 then 5 else 1) .erase
      | _ => []
  | .openTerminal _ => []

/-- The buffer of the displayed terminal after an operation. -/
def bufferAfter (console : Console) : Operation → LineBuffer
  | .key scancode beyond =>
      match Console.keyAction console.keyboard scancode beyond with
      | .type pressed =>
          if room : console.shown.count < 127 then console.shown.push pressed (Nat.lt_succ_of_lt room)
          else console.shown
      | .erase => if console.shown.count = 0 then console.shown else console.shown.pop
      | _ => console.shown
  | _ => console.shown

/-- A state with, for each terminal, where the rows of its page have ended: what `line_tracker`
would hold if only that terminal used it. -/
structure Tracked where
  console : Console
  ends : Terminal → Nat → Nat

def Tracked.step (tracked : Tracked) (operation : Operation) : Option Tracked :=
  (perform tracked.console operation).map fun next =>
    { console := next
      ends := update tracked.ends tracked.console.currentTerminal
        (tracked.console.screen.trackerAfterAll tracked.console.currentTerminal
          (tracked.ends tracked.console.currentTerminal) (draws tracked.console operation)) }

def Tracked.start (console : Console) : Tracked := ⟨console, fun _ => console.screen.lineTracker⟩

/-- The condition on an operation: each deletion at the start of a row finds in `line_tracker`
where the row above has ended on the page of the displayed terminal. -/
def KeepsRowEnds (tracked : Tracked) (operation : Operation) : Prop :=
  tracked.console.screen.FindsRowEnds tracked.console.currentTerminal
    (tracked.ends tracked.console.currentTerminal) (draws tracked.console operation)

/-- The operations of a terminal: those executed while it is displayed, but for the switches. -/
def isOwn (terminal : Terminal) (console : Console) (operation : Operation) : Bool :=
  decide (console.currentTerminal = terminal) && !operation.switches

/-! ## What an operation does -/

/-- An operation draws, and sets the buffer of the displayed terminal. -/
def drawn (console : Console) (operation : Operation) : Console :=
  ({ console with
    screen := console.screen.drawAll console.currentTerminal (draws console operation) } : Console).setShown
      (bufferAfter console operation)

theorem setShown_shown (console : Console) : console.setShown console.shown = console := by
  unfold Console.setShown Console.shown
  rw [update_eq_self]

/-- A byte is shown where the buffer takes it. -/
theorem typeByte_drawn (console : Console) (pressed : UInt8) :
    console.typeByte 127 pressed =
      ({ console with
        screen := console.screen.drawAll console.currentTerminal
          (if console.shown.count < 127 then [.put pressed] else []) } : Console).setShown
        (if room : console.shown.count < 127 then console.shown.push pressed (Nat.lt_succ_of_lt room)
          else console.shown) := by
  unfold Console.typeByte
  by_cases room : console.shown.count < 127
  · rw [dif_pos ⟨Nat.lt_succ_of_lt room, room⟩, if_pos room, dif_pos room]
    rfl
  · rw [dif_neg fun both => room both.2, if_neg room, dif_neg room]
    exact (setShown_shown console).symm

/-- A tab is taken off the screen in five deletions. -/
theorem backspace_drawn (console : Console) :
    console.backspace =
      ({ console with
        screen := console.screen.drawAll console.currentTerminal
          (if console.shown.count = 0 then []
            else List.replicate (if console.shown.slots (console.shown.count - 1) = 9 then 5 else 1)
              .erase) } : Console).setShown
        (if console.shown.count = 0 then console.shown else console.shown.pop) := by
  unfold Console.backspace
  by_cases empty : console.shown.count = 0
  · simp only [empty, ne_eq, not_true_eq_false, if_false, if_true]
    exact (setShown_shown console).symm
  · simp only [empty, ne_eq, not_false_eq_true, if_false, if_true]
    split <;> rfl

theorem perform_key {console next : Console} {scancode beyond : UInt8} :
    perform console (.key scancode beyond) = some next ↔
      (Operation.key scancode beyond).Admitted console.keyboard ∧
        next = drawn console (.key scancode beyond) := by
  simp only [perform, Operation.Admitted, drawn, draws, bufferAfter, Console.keyboardIrqHandler_eq]
  cases Console.keyAction console.keyboard scancode beyond with
  | type pressed =>
      simp only [Console.perform, typeByte_drawn, Option.some.injEq, true_and]
      exact eq_comm
  | erase =>
      simp only [Console.perform, backspace_drawn, Option.some.injEq, true_and]
      exact eq_comm
  | modifier caps shift ctrl alt => simp
  | ignored => simp
  | clear => simp
  | interrupt => simp
  | newline pressed => simp
  | switch terminal => simp

theorem perform_iff {console next : Console} {operation : Operation} (stays : operation.switches = false) :
    perform console operation = some next ↔
      operation.Admitted console.keyboard ∧ next = drawn console operation := by
  have same : ∀ after : Console, some after = some next ↔ True ∧ next = after.setShown after.shown := by
    intro after
    rw [setShown_shown, Option.some.injEq, true_and]
    exact eq_comm
  cases operation with
  | putc c => exact same (console.putc c)
  | delC => exact same console.delC
  | clearScreen => exact same console.clearScreen
  | key scancode beyond => exact perform_key
  | openTerminal terminalId => cases stays

theorem page_drawn (console : Console) (operation : Operation) {terminal : Terminal}
    (other : terminal ≠ console.currentTerminal) :
    (drawn console operation).page terminal = console.page terminal := by
  have untouched := (Untouched.refl console.screen console.currentTerminal).drawAll (draws console operation)
  have displayed : (drawn console operation).currentTerminal = console.currentTerminal := rfl
  unfold Console.page
  rw [displayed, if_neg other, if_neg other]
  exact congrFun untouched.saved terminal

/-- An operation leaves the other terminals as they are. -/
theorem sameView_drawn (console : Console) (operation : Operation) {terminal : Terminal}
    (other : terminal ≠ console.currentTerminal) : SameView (drawn console operation) console terminal := by
  have untouched := (Untouched.refl console.screen console.currentTerminal).drawAll (draws console operation)
  constructor
  case page =>
    intro offset _
    rw [page_drawn console operation other]
  case x => exact untouched.x terminal other
  case y => exact untouched.y terminal other
  case buffer => exact update_of_ne other _ _

/-- A switch shows another terminal and leaves all of them as they are. -/
theorem sameView_openTerminal (console : Console) (terminalId : Int) (terminal : Terminal) :
    SameView (console.openTerminal terminalId) console terminal := by
  have keyboard := console.openTerminal_kept terminalId
  constructor
  case page =>
    intro offset inside
    have within : offset < 0x1000 := by omega
    unfold Console.openTerminal Console.page
    split
    · rename_i valid
      obtain ⟨nonneg, small, apart⟩ := valid
      have next : (⟨terminalId.toNat, by omega⟩ : Terminal) ≠ console.currentTerminal := by
        rintro same
        have value : terminalId.toNat = console.currentTerminal.val := congrArg Fin.val same
        omega
      simp only [updateCursor]
      split
      · rename_i here
        subst here
        rw [if_neg next, update_of_ne next]
        exact if_pos within
      · split
        · rename_i left
          rw [left, update_self, if_pos within]
        · rename_i left
          rw [update_of_ne left]
    · rfl
  case x =>
    unfold Console.openTerminal
    split <;> rfl
  case y =>
    unfold Console.openTerminal
    split <;> rfl
  case buffer => rw [keyboard]

theorem lineTracker_openTerminal (console : Console) (terminalId : Int) :
    (console.openTerminal terminalId).screen.lineTracker = console.screen.lineTracker := by
  unfold Console.openTerminal
  split <;> rfl

theorem SameView.trans {first second third : Console} {terminal : Terminal}
    (before : SameView first second terminal) (after : SameView second third terminal) :
    SameView first third terminal where
  page := fun offset inside => (before.page offset inside).trans (after.page offset inside)
  x := before.x.trans after.x
  y := before.y.trans after.y
  buffer := before.buffer.trans after.buffer

/-! ## Together and alone -/

/-- The terminal has the same screen, cursor and buffer when it is alone, and its own line ends. -/
structure Beside (terminal : Terminal) (tracked : Tracked) (alone : Console) : Prop where
  displayed : alone.currentTerminal = terminal
  action : ∀ scancode beyond, Console.keyAction alone.keyboard scancode beyond =
    Console.keyAction tracked.console.keyboard scancode beyond
  view : SameView tracked.console alone terminal
  ends : alone.screen.lineTracker = tracked.ends terminal

/-- Two consoles that display the terminal. -/
theorem sameView_of_alike {first second : Console} {terminal : Terminal} (here : first.currentTerminal = terminal)
    (there : second.currentTerminal = terminal) (alike : Alike False first.screen second.screen terminal)
    (buffer : first.shown = second.shown) : SameView first second terminal where
  page := by
    intro offset inside
    rw [Console.page_displayed here, Console.page_displayed there]
    exact alike.page offset inside
  x := alike.x
  y := alike.y
  buffer := by
    unfold Console.shown at buffer
    rwa [here, there] at buffer

theorem draws_congr {first second : Console} (operation : Operation) (shown : first.shown = second.shown)
    (action : ∀ scancode beyond, Console.keyAction first.keyboard scancode beyond =
      Console.keyAction second.keyboard scancode beyond) :
    draws first operation = draws second operation ∧
      bufferAfter first operation = bufferAfter second operation := by
  cases operation with
  | key scancode beyond => simp only [draws, bufferAfter, shown, action, and_self]
  | putc c => exact ⟨rfl, shown⟩
  | delC => exact ⟨rfl, shown⟩
  | clearScreen => exact ⟨rfl, shown⟩
  | openTerminal terminalId => exact ⟨rfl, shown⟩

section

variable {terminal : Terminal} {tracked next : Tracked} {alone : Console} {operation : Operation}

/-- An operation of the terminal, taken together and alone. -/
theorem Beside.own (beside : Beside terminal tracked alone) (rowEnds : KeepsRowEnds tracked operation)
    (mine : isOwn terminal tracked.console operation = true) (taken : tracked.step operation = some next) :
    ∃ after, perform alone operation = some after ∧ Beside terminal next after := by
  obtain ⟨here, stays⟩ := Bool.and_eq_true_iff.mp mine
  obtain rfl : tracked.console.currentTerminal = terminal := of_decide_eq_true here
  have stays : operation.switches = false := by simpa using stays
  obtain ⟨_, performed, rfl⟩ := Option.map_eq_some_iff.mp taken
  obtain ⟨admitted, rfl⟩ := (perform_iff stays).mp performed
  have shown : alone.shown = tracked.console.shown := by
    unfold Console.shown
    rw [beside.displayed, beside.view.buffer]
  obtain ⟨same, buffers⟩ := draws_congr operation shown beside.action
  have possible : operation.Admitted alone.keyboard := by
    cases operation with
    | key scancode beyond =>
        simp only [Operation.Admitted, beside.action] at admitted ⊢
        exact admitted
    | _ => trivial
  refine ⟨drawn alone operation, (perform_iff stays).mpr ⟨possible, rfl⟩, ?_⟩
  have alike : Alike False tracked.console.screen alone.screen tracked.console.currentTerminal := by
    refine ⟨fun offset inside => ?_, beside.view.x, beside.view.y, nofun⟩
    have page := beside.view.page offset inside
    rwa [Console.page_displayed rfl, Console.page_displayed beside.displayed] at page
  have found : tracked.console.screen.FindsRowEnds tracked.console.currentTerminal alone.screen.lineTracker
      (draws tracked.console operation) := beside.ends ▸ rowEnds
  obtain ⟨after, tracker⟩ := alike.drawAll _ found
  have screen : (drawn alone operation).screen = alone.screen.drawAll tracked.console.currentTerminal
      (draws tracked.console operation) := by
    simp only [drawn, Console.setShown, same, beside.displayed]
  have edited : ∀ console : Console, (drawn console operation).shown = bufferAfter console operation :=
    fun console => update_self ..
  constructor
  case displayed => exact beside.displayed
  case action => exact beside.action
  case view =>
    refine sameView_of_alike rfl beside.displayed ?_ ?_
    · rw [screen]
      exact after
    · rw [edited, edited, buffers]
  case ends =>
    rw [screen, tracker, beside.ends]
    simp only [update_self]

/-- An operation of another terminal, or a switch. -/
theorem Beside.other (beside : Beside terminal tracked alone)
    (notMine : isOwn terminal tracked.console operation = false) (taken : tracked.step operation = some next) :
    Beside terminal next alone := by
  obtain ⟨_, performed, rfl⟩ := Option.map_eq_some_iff.mp taken
  cases stays : operation.switches with
  | false =>
      obtain ⟨_, rfl⟩ := (perform_iff stays).mp performed
      have apart : terminal ≠ tracked.console.currentTerminal := by
        rintro rfl
        simp [isOwn, stays] at notMine
      constructor
      case displayed => exact beside.displayed
      case action => exact beside.action
      case view => exact (sameView_drawn tracked.console operation apart).trans beside.view
      case ends => exact beside.ends.trans (update_of_ne apart _ _).symm
  | true =>
      cases operation with
      | openTerminal terminalId =>
          obtain rfl := Option.some.inj performed
          constructor
          case displayed => exact beside.displayed
          case action =>
            intro scancode beyond
            rw [Console.openTerminal_kept]
            exact beside.action scancode beyond
          case view => exact (sameView_openTerminal tracked.console terminalId terminal).trans beside.view
          case ends =>
            rw [beside.ends]
            simp only [draws, trackerAfterAll, update_eq_self]
      | _ => cases stays

theorem step_console (tracked : Tracked) (operation : Operation) :
    perform tracked.console operation = (tracked.step operation).map Tracked.console := by
  unfold Tracked.step
  rw [Option.map_map]
  exact (Option.map_id' ..).symm

end

theorem beside_start (start : Console) (terminal : Terminal) :
    Beside terminal (Tracked.start start) (start.openTerminal terminal.val) where
  displayed := start.openTerminal_currentTerminal terminal
  action := by
    intro scancode beyond
    rw [Console.openTerminal_kept]
    rfl
  view :=
    let same := sameView_openTerminal start terminal.val terminal
    ⟨fun offset inside => (same.page offset inside).symm, same.x.symm, same.y.symm, same.buffer.symm⟩
  ends := lineTracker_openTerminal start terminal.val

/-- For every start, every sequence of operations and every terminal: with the operations of the
others left out it ends with the same screen, cursor and buffer, if each deletion at the start of
a row finds where the row above has ended. -/
theorem unaffected_by_others (start : Console) (operations : List Operation) (terminal : Terminal)
    (rowEnds : Transition.EachStep Tracked.step KeepsRowEnds (Tracked.start start) operations)
    {together : Console} (ran : Transition.run perform start operations = some together) :
    ∃ alone, Transition.run perform (start.openTerminal terminal.val)
        (Transition.ownActions perform (isOwn terminal) start operations) = some alone ∧
      SameView together alone terminal := by
  have mapped := Transition.run_map Tracked.step perform Tracked.console step_console (Tracked.start start) operations
  obtain ⟨final, tracked, rfl⟩ := Option.map_eq_some_iff.mp (mapped.symm.trans ran)
  have same := Transition.ownActions_map Tracked.step perform Tracked.console (isOwn terminal) step_console
    (Tracked.start start) operations
  obtain ⟨alone, reached, beside⟩ := Transition.run_ownActions Tracked.step perform
    (fun tracked operation => isOwn terminal tracked.console operation) (Beside terminal)
    (fun _ _ _ _ beside rowEnds mine taken => beside.own rowEnds mine taken)
    (fun _ _ _ _ beside notMine taken => beside.other notMine taken)
    (beside_start start terminal) rowEnds tracked
  exact ⟨alone, by rw [← reached]; exact congrArg _ same, beside.view⟩

/-- A letter and a newline, a letter on another terminal, and the newline taken back. -/
def acrossRowEnd : List Operation := [.putc 97, .putc 10, .openTerminal 1, .putc 98, .openTerminal 0, .delC]

theorem unaffected_by_others_sample :
    ∃ together alone, Transition.run perform Console.loaded acrossRowEnd = some together ∧
      Transition.run perform (Console.loaded.openTerminal 0)
        (Transition.ownActions perform (isOwn 0) Console.loaded acrossRowEnd) = some alone ∧
      SameView together alone 0 ∧ together.screen.screenX 0 = 1 ∧ together.screen.screenY 0 = 0 := by
  have rowEnds : Transition.EachStep Tracked.step KeepsRowEnds (Tracked.start Console.loaded) acrossRowEnd := by
    refine .cons _ rfl ⟨trivial, trivial⟩ (.cons _ rfl ⟨trivial, trivial⟩ (.cons _ rfl trivial ?_))
    refine .cons _ rfl ⟨trivial, trivial⟩ (.cons _ rfl trivial (.cons _ rfl ⟨fun _ _ => ?_, trivial⟩ trivial))
    decide +kernel
  have ran : Transition.run perform Console.loaded acrossRowEnd = some _ := rfl
  obtain ⟨alone, reached, same⟩ := unaffected_by_others Console.loaded _ 0 rowEnds ran
  exact ⟨_, alone, ran, reached, same, by decide +kernel, by decide +kernel⟩

/-- Where a deletion does not find it, the cursor is in another column at once. -/
theorem delC_needs_row_end {terminal : Terminal} {tracked : Tracked} {alone : Console}
    (beside : Beside terminal tracked alone) (here : tracked.console.currentTerminal = terminal)
    (start : tracked.console.screen.screenX terminal = 0) (below : 0 < tracked.console.screen.screenY terminal)
    (differs : tracked.console.screen.lineTracker (tracked.console.screen.screenY terminal - 1) ≠
      tracked.ends terminal (tracked.console.screen.screenY terminal - 1)) :
    ¬ SameView tracked.console.delC alone.delC terminal := by
  have column : ∀ console : Console, console.currentTerminal = terminal →
      console.screen.screenX terminal = 0 → 0 < console.screen.screenY terminal →
      console.delC.screen.screenX terminal = console.screen.lineTracker (console.screen.screenY terminal - 1) := by
    rintro console rfl zero positive
    simp only [Console.delC, delC, if_pos zero, if_pos positive, updateCursor, storeCell, update_self]
  intro same
  have moved := same.x
  rw [column _ here start below, column _ beside.displayed (beside.view.x ▸ start) (beside.view.y ▸ below),
    beside.ends, ← beside.view.y] at moved
  exact differs moved

/-- All pages are blank, all cursors in the first cell and all keyboard buffers empty. -/
structure Fresh (console : Console) : Prop where
  blank : ∀ terminal, ∀ k < 25 * 80, console.page terminal (2 * k) = 32
  cursor : ∀ terminal, console.screen.screenX terminal = 0 ∧ console.screen.screenY terminal = 0
  empty : ∀ terminal, console.count terminal = 0

/-- Three letters and a newline on terminal 0, six and a newline on terminal 1, and a deletion on
terminal 0: the cursor goes to column 6, and to column 3 if terminal 1 is left out. -/
theorem row_ends_are_shared :
    Fresh Console.loaded ∧
    ∃ operations together alone, Transition.run perform Console.loaded operations = some together ∧
      Transition.run perform (Console.loaded.openTerminal 0)
        (Transition.ownActions perform (isOwn 0) Console.loaded operations) = some alone ∧
      together.screen.screenX 0 = 6 ∧ alone.screen.screenX 0 = 3 ∧ ¬ SameView together alone 0 := by
  refine ⟨⟨?_, fun _ => ⟨rfl, rfl⟩, fun _ => rfl⟩, ?_⟩
  · intro terminal k _
    unfold Console.page
    split
    · exact if_pos (Nat.mul_mod_right 2 k)
    · rfl
  · refine ⟨[.putc 97, .putc 98, .putc 99, .putc 10, .openTerminal 1, .putc 97, .putc 98, .putc 99, .putc 100,
      .putc 101, .putc 102, .putc 10, .openTerminal 0, .delC], _, _, rfl, rfl, ?_, ?_, ?_⟩
    · decide +kernel
    · decide +kernel
    · intro same
      exact absurd same.x (by decide +kernel)

end TerminalIsolation

end LinuxLikeOS

import LinuxLikeOS.Console
import LinuxLikeOS.Transition

/-!
# Input to the three terminals

One `read_flag` serves the readers of three terminals, and a reader that wakes up takes the
buffer of the terminal on display. Every typed byte is followed here from the key to the
reader that gets it.
-/

namespace LinuxLikeOS.TerminalInput

open Function

structure Input (ι : Type*) where
  console : Console
  /-- The processes in the wait of `terminal_read`. -/
  waiting : ι → Bool
  /-- For each byte of each buffer, the terminal on display when it was typed. -/
  typedAt : Terminal → List Terminal
  /-- The terminal on display when `read_flag` was last set. -/
  enteredAt : Option Terminal

/-- A key with the byte behind the scancode table and, should it be Ctrl+C, the reader that is
killed and whether a shell is restarted; the start of a read; its end. -/
inductive Event (ι : Type*) where
  | key (scancode beyond : UInt8) (killed : Option ι) (restarts : Bool)
  | begin (who : ι)
  | complete (who : ι)

def KeyResult.console : Console.KeyResult → Console
  | .returns console => console
  | .halts console => console

/-- Whether a key stores to `read_flag`: it is set afterwards even where it was clear before. -/
def setsReadFlag (console : Console) (scancode beyond : UInt8) : Bool :=
  (KeyResult.console ((console.setReadFlag false).keyboardIrqHandler scancode beyond)).keyboard.readFlag

/-- A byte that a buffer gains has been typed at the terminal on display. -/
def retag (before after : Console) (typedAt : Terminal → List Terminal) : Terminal → List Terminal :=
  fun terminal =>
    if before.count terminal < after.count terminal then
      typedAt terminal ++
        List.replicate (after.count terminal - before.count terminal) before.currentTerminal
    else (typedAt terminal).take (after.count terminal)

variable {ι : Type*}

namespace Input

def boot (console : Console) : Input ι :=
  ⟨console, fun _ => false, fun terminal => List.replicate (console.count terminal) terminal, none⟩

def arrive (input : Input ι) (console : Console) : Input ι :=
  { input with console := console, typedAt := retag input.console console input.typedAt }

/-- The bytes a reader that wakes up now is given, each with the terminal it was typed at. -/
def delivered (input : Input ι) : List (UInt8 × Terminal) :=
  input.console.terminalRead.1.zip (input.typedAt input.console.currentTerminal)

variable [DecidableEq ι]

def step (input : Input ι) : Event ι → Option (Input ι)
  | .key scancode beyond killed restarts =>
      let entered :=
        if setsReadFlag input.console scancode beyond then some input.console.currentTerminal else input.enteredAt
      match input.console.keyboardIrqHandler scancode beyond with
      | .returns console => some { input.arrive console with enteredAt := entered }
      | .halts console =>
          some { input.arrive (console.interrupted restarts) with
            enteredAt := entered
            waiting := fun who => input.waiting who && killed != some who }
  | .begin who =>
      if input.waiting who then none
      else some { input.arrive (input.console.setReadFlag false) with waiting := update input.waiting who true }
  | .complete who =>
      if input.waiting who ∧ input.console.keyboard.readFlag then
        some { input.arrive input.console.terminalRead.2 with waiting := update input.waiting who false }
      else none

end Input

open Input

/-- Every read that can complete now gets bytes typed at its own terminal, and the flag it
waits for was set there. -/
def CompletesRightly (home : ι → Terminal) (input : Input ι) : Prop :=
  ∀ who, input.waiting who = true → input.console.keyboard.readFlag = true →
    (∀ typed ∈ input.delivered, typed.2 = home who) ∧ input.enteredAt = some (home who)

/-- The condition on an event: a line is ended only on display of the terminal of every
waiting reader, and while the flag is set bytes are typed and terminals switched only
towards them or towards an empty buffer. -/
def KeepsApart (home : ι → Terminal) (input : Input ι) : Event ι → Prop
  | .key scancode beyond _ _ =>
      match Console.keyAction input.console.keyboard scancode beyond with
      | .newline _ =>
          input.console.count input.console.currentTerminal < 128 →
            ∀ who, input.waiting who = true → input.console.currentTerminal = home who
      | .type _ =>
          input.console.count input.console.currentTerminal < 127 →
            input.console.keyboard.readFlag = true →
            ∀ who, input.waiting who = true → input.console.currentTerminal = home who
      | .switch terminal =>
          input.console.keyboard.readFlag = true → ∀ who, input.waiting who = true →
            terminal = home who ∨ input.console.count terminal = 0
      | _ => True
  | _ => True

/-- The tags of a buffer name the terminal of that buffer. -/
def Tagged (input : Input ι) : Prop :=
  ∀ terminal, input.typedAt terminal = List.replicate (input.console.count terminal) terminal

/-! ## Tags -/

theorem retag_tagged {before after : Console} {typedAt : Terminal → List Terminal}
    (tagged : ∀ terminal, typedAt terminal = List.replicate (before.count terminal) terminal)
    (others : ∀ terminal, terminal ≠ before.currentTerminal → after.count terminal ≤ before.count terminal)
    (terminal : Terminal) :
    retag before after typedAt terminal = List.replicate (after.count terminal) terminal := by
  unfold retag
  rw [tagged]
  split
  · rename_i gained
    by_cases here : terminal = before.currentTerminal
    · rw [← here, List.replicate_append_replicate]
      congr 1
      omega
    · exact absurd (others terminal here) (by omega)
  · rw [List.take_replicate]
    congr 1
    omega

/-- With tags that name their buffers, what is delivered carries the terminal on display. -/
theorem delivered_iff {input : Input ι} (tagged : Tagged input) (home : Terminal) :
    (∀ typed ∈ input.delivered, typed.2 = home) ↔
      input.console.currentTerminal = home ∨ input.console.count input.console.currentTerminal = 0 := by
  unfold delivered
  rw [tagged]
  have line : input.console.terminalRead.1 = Console.firstLine input.console.shown.contents := rfl
  have length : input.console.shown.contents.length = input.console.count input.console.currentTerminal :=
    LineBuffer.length_contents _
  constructor
  · intro own
    by_cases empty : input.console.count input.console.currentTerminal = 0
    · exact Or.inr empty
    · refine Or.inl ?_
      have present : Console.firstLine input.console.shown.contents ≠ [] := by
        rw [ne_eq, Console.firstLine_eq_nil]
        intro nil
        rw [nil] at length
        exact empty length.symm
      obtain ⟨byte, rest, bytes⟩ := List.exists_cons_of_ne_nil present
      obtain ⟨more, count⟩ := Nat.exists_eq_succ_of_ne_zero empty
      refine own (byte, input.console.currentTerminal) ?_
      rw [line, bytes, count, List.replicate_succ, List.zip_cons_cons]
      exact List.mem_cons_self
  · rintro (here | empty) typed member
    · have tag := (List.of_mem_zip member).2
      rw [List.eq_of_mem_replicate tag, here]
    · rw [empty, List.replicate_zero, List.zip_nil_right] at member
      cases member

theorem completesRightly_iff {home : ι → Terminal} {input : Input ι} (tagged : Tagged input) :
    CompletesRightly home input ↔
      ∀ who, input.waiting who = true → input.console.keyboard.readFlag = true →
        (input.console.currentTerminal = home who ∨
          input.console.count input.console.currentTerminal = 0) ∧ input.enteredAt = some (home who) := by
  unfold CompletesRightly
  simp only [delivered_iff tagged]

/-- With the flag clear no read can complete. -/
theorem completes_of_clear {home : ι → Terminal} {input : Input ι}
    (clear : input.console.keyboard.readFlag = false) : CompletesRightly home input := by
  intro who _ set
  rw [clear] at set
  cases set

/-! ## Keys -/

theorem setsReadFlag_eq (console : Console) (scancode beyond : UInt8) :
    setsReadFlag console scancode beyond =
      match Console.keyAction console.keyboard scancode beyond with
      | .newline _ => decide (console.count console.currentTerminal < 128)
      | _ => false := by
  have sameAction : Console.keyAction (console.setReadFlag false).keyboard scancode beyond =
      Console.keyAction console.keyboard scancode beyond := rfl
  unfold setsReadFlag
  rw [Console.keyboardIrqHandler_eq, sameAction]
  cases Console.keyAction console.keyboard scancode beyond with
  | modifier caps shift ctrl alt => rfl
  | ignored => rfl
  | erase => exact (Console.backspace_kept _).2
  | clear => rfl
  | interrupt => rfl
  | newline pressed =>
      show ((console.setReadFlag false).enter pressed).keyboard.readFlag = _
      by_cases room : console.count console.currentTerminal < 128
      · rw [decide_eq_true room]
        exact Console.enter_readFlag pressed room
      · have unchanged : (console.setReadFlag false).enter pressed = console.setReadFlag false :=
          Console.enter_of_full pressed room
        rw [decide_eq_false room, unchanged]
        rfl
  | switch terminal =>
      show ((console.setReadFlag false).openTerminal terminal.val).keyboard.readFlag = _
      rw [Console.openTerminal_kept]
      rfl
  | type pressed => exact (Console.typeByte_kept _ 127 pressed).2

/-- A change of the console that sets no flag, types no byte and switches no terminal. -/
structure Quiet (before after : Console) : Prop where
  terminal : after.currentTerminal = before.currentTerminal
  flag : after.keyboard.readFlag = before.keyboard.readFlag
  counts : ∀ terminal, after.count terminal ≤ before.count terminal

theorem Quiet.of_keyboard {before after : Console} (keyboard : after.keyboard = before.keyboard)
    (terminal : after.currentTerminal = before.currentTerminal) : Quiet before after := by
  refine ⟨terminal, by rw [keyboard], fun other => ?_⟩
  unfold Console.count
  rw [keyboard]

theorem quiet_backspace (console : Console) : Quiet console console.backspace := by
  obtain ⟨terminal, flag⟩ := console.backspace_kept
  refine ⟨terminal, flag, fun other => ?_⟩
  rw [Console.count_backspace]
  split <;> omega

theorem quiet_interrupted (console : Console) (restarts : Bool) :
    Quiet console (console.interrupted restarts) := by
  obtain ⟨terminal, flag⟩ := console.interrupted_kept restarts
  refine ⟨terminal, flag, fun other => ?_⟩
  rw [Console.count_interrupted]
  split <;> omega

/-- The input after a change of the console that gives no other terminal bytes. -/
theorem tagged_arrive {input : Input ι} (after : Console) (tagged : Tagged input)
    (others : ∀ terminal, terminal ≠ input.console.currentTerminal →
      after.count terminal ≤ input.console.count terminal) (waiting : ι → Bool)
      (entered : Option Terminal) :
    Tagged ⟨after, waiting, retag input.console after input.typedAt, entered⟩ :=
  retag_tagged tagged others

theorem quiet_completes {home : ι → Terminal} {input : Input ι} {after : Console} (tagged : Tagged input)
    (rightly : CompletesRightly home input) (quiet : Quiet input.console after) {waiting : ι → Bool}
    (fewer : ∀ who, waiting who = true → input.waiting who = true) :
    CompletesRightly home ⟨after, waiting, retag input.console after input.typedAt, input.enteredAt⟩ := by
  rw [completesRightly_iff (tagged_arrive _ tagged (fun terminal _ => quiet.counts terminal) waiting _)]
  rw [completesRightly_iff tagged] at rightly
  intro who waits flag
  obtain ⟨place, entered⟩ := rightly who (fewer who waits) (quiet.flag ▸ flag)
  refine ⟨place.imp (fun here => quiet.terminal.trans here) (fun empty => ?_), entered⟩
  have less := quiet.counts input.console.currentTerminal
  show after.count after.currentTerminal = 0
  rw [quiet.terminal]
  omega

/-- What follows a key that is not Ctrl+C. -/
def afterKey (input : Input ι) (scancode beyond : UInt8) (after : Console) : Input ι :=
  ⟨after, input.waiting, retag input.console after input.typedAt,
    if setsReadFlag input.console scancode beyond then some input.console.currentTerminal else input.enteredAt⟩

theorem newline_completes_iff {home : ι → Terminal} {input : Input ι} (tagged : Tagged input)
    (rightly : CompletesRightly home input) {scancode beyond pressed : UInt8}
    (action : Console.keyAction input.console.keyboard scancode beyond = .newline pressed) :
    Tagged (afterKey input scancode beyond (input.console.enter pressed)) ∧
    (CompletesRightly home (afterKey input scancode beyond (input.console.enter pressed)) ↔
      (input.console.count input.console.currentTerminal < 128 →
        ∀ who, input.waiting who = true → input.console.currentTerminal = home who)) := by
  have stored := setsReadFlag_eq input.console scancode beyond
  rw [action] at stored
  unfold afterKey
  by_cases room : input.console.count input.console.currentTerminal < 128
  · have shown := Console.enter_currentTerminal pressed input.console
    have flag := Console.enter_readFlag pressed room
    have keeps : Tagged (⟨input.console.enter pressed, input.waiting,
        retag input.console (input.console.enter pressed) input.typedAt, some input.console.currentTerminal⟩ : Input ι) := by
      refine tagged_arrive _ tagged (fun terminal apart => ?_) _ _
      rw [Console.count_enter pressed room, if_neg apart]
    rw [stored, decide_eq_true room, if_pos rfl]
    refine ⟨keeps, ?_⟩
    rw [completesRightly_iff keeps]
    constructor
    · intro right _ who waits
      exact Option.some.inj (right who waits flag).2
    · intro own who waits _
      have here := own room who waits
      exact ⟨Or.inl (shown.trans here), congrArg some here⟩
  · have unchanged := Console.enter_of_full pressed room
    have quiet : Quiet input.console input.console := Quiet.of_keyboard rfl rfl
    rw [stored, decide_eq_false room, unchanged]
    refine ⟨tagged_arrive _ tagged (fun _ _ => Nat.le_refl _) _ _, iff_of_true ?_ (fun below => absurd below room)⟩
    exact quiet_completes tagged rightly quiet fun _ waits => waits

theorem type_completes_iff {home : ι → Terminal} {input : Input ι} (tagged : Tagged input)
    (rightly : CompletesRightly home input) {scancode beyond pressed : UInt8}
    (action : Console.keyAction input.console.keyboard scancode beyond = .type pressed) :
    Tagged (afterKey input scancode beyond (input.console.typeByte 127 pressed)) ∧
    (CompletesRightly home (afterKey input scancode beyond (input.console.typeByte 127 pressed)) ↔
      (input.console.count input.console.currentTerminal < 127 → input.console.keyboard.readFlag = true →
        ∀ who, input.waiting who = true → input.console.currentTerminal = home who)) := by
  have stored := setsReadFlag_eq input.console scancode beyond
  rw [action] at stored
  obtain ⟨shown, flag⟩ := input.console.typeByte_kept 127 pressed
  have counts := input.console.count_typeByte 127 pressed
  have keeps : ∀ entered, Tagged (⟨input.console.typeByte 127 pressed, input.waiting,
      retag input.console (input.console.typeByte 127 pressed) input.typedAt, entered⟩ : Input ι) := by
    intro entered
    refine tagged_arrive _ tagged (fun terminal apart => ?_) _ _
    rw [counts, if_neg fun both => apart both.1]
  unfold afterKey
  rw [stored]
  refine ⟨keeps _, ?_⟩
  rw [completesRightly_iff (keeps _)]
  rw [completesRightly_iff tagged] at rightly
  simp only [shown, flag, counts]
  constructor
  · intro right room set who waits
    refine (right who waits set).1.resolve_right ?_
    rw [if_pos ⟨trivial, by omega⟩]
    exact Nat.succ_ne_zero _
  · intro own who waits set
    obtain ⟨place, entered⟩ := rightly who waits set
    refine ⟨?_, entered⟩
    by_cases room : input.console.count input.console.currentTerminal < 127
    · exact Or.inl (own room set who waits)
    · rw [if_neg fun both => room (by omega)]
      exact place

theorem switch_completes_iff {home : ι → Terminal} {input : Input ι} (tagged : Tagged input)
    (rightly : CompletesRightly home input) {scancode beyond : UInt8} {terminal : Terminal}
    (action : Console.keyAction input.console.keyboard scancode beyond = .switch terminal) :
    Tagged (afterKey input scancode beyond (input.console.openTerminal terminal.val)) ∧
    (CompletesRightly home (afterKey input scancode beyond (input.console.openTerminal terminal.val)) ↔
      (input.console.keyboard.readFlag = true → ∀ who, input.waiting who = true →
        terminal = home who ∨ input.console.count terminal = 0)) := by
  have stored := setsReadFlag_eq input.console scancode beyond
  rw [action] at stored
  have keyboard := input.console.openTerminal_kept terminal.val
  have shown := input.console.openTerminal_currentTerminal terminal
  have counts := input.console.count_openTerminal terminal.val
  have keeps : ∀ entered, Tagged (⟨input.console.openTerminal terminal.val, input.waiting,
      retag input.console (input.console.openTerminal terminal.val) input.typedAt, entered⟩ : Input ι) :=
    fun entered => tagged_arrive _ tagged (fun other _ => Nat.le_of_eq (counts other)) _ _
  unfold afterKey
  rw [stored]
  refine ⟨keeps _, ?_⟩
  rw [completesRightly_iff (keeps _)]
  rw [completesRightly_iff tagged] at rightly
  simp only [shown, keyboard, counts]
  constructor
  · intro right set who waits
    exact (right who waits set).1
  · intro place who waits set
    exact ⟨place set who waits, (rightly who waits set).2⟩

/-! ## Events -/

variable [DecidableEq ι]

theorem step_key {input : Input ι} {scancode beyond : UInt8} {console : Console}
    (performed : input.console.perform (Console.keyAction input.console.keyboard scancode beyond) =
      .returns console) (killed : Option ι) (restarts : Bool) :
    input.step (.key scancode beyond killed restarts) = some (afterKey input scancode beyond console) := by
  simp only [Input.step, Console.keyboardIrqHandler_eq, performed]
  rfl

/-- A key leads to one next state; whether a read can complete wrongly there is the condition. -/
theorem key_step {home : ι → Terminal} {input : Input ι} (tagged : Tagged input)
    (rightly : CompletesRightly home input) (scancode beyond : UInt8) (killed : Option ι) (restarts : Bool) :
    ∃ next, input.step (.key scancode beyond killed restarts) = some next ∧ Tagged next ∧
      (CompletesRightly home next ↔ KeepsApart home input (.key scancode beyond killed restarts)) := by
  have handled := input.console.keyboardIrqHandler_eq scancode beyond
  have stored := setsReadFlag_eq input.console scancode beyond
  have silent : ∀ after, Quiet input.console after → setsReadFlag input.console scancode beyond = false →
      Tagged (afterKey input scancode beyond after) ∧
          CompletesRightly home (afterKey input scancode beyond after) := by
    intro after quiet unset
    unfold afterKey
    rw [unset]
    exact ⟨tagged_arrive _ tagged (fun terminal _ => quiet.counts terminal) _ _,
      quiet_completes tagged rightly quiet fun _ waits => waits⟩
  have returns : ∀ {console}, input.console.perform (Console.keyAction input.console.keyboard scancode beyond) =
      .returns console → input.step (.key scancode beyond killed restarts) =
        some (afterKey input scancode beyond console) := fun performed => step_key performed killed restarts
  simp only [KeepsApart]
  cases action : Console.keyAction input.console.keyboard scancode beyond with
  | modifier caps shift ctrl alt =>
      rw [action] at returns stored
      obtain ⟨keeps, right⟩ := silent _ ⟨rfl, rfl, fun _ => Nat.le_refl _⟩ stored
      exact ⟨_, returns rfl, keeps, iff_of_true right trivial⟩
  | ignored =>
      rw [action] at returns stored
      obtain ⟨keeps, right⟩ := silent _ (Quiet.of_keyboard rfl rfl) stored
      exact ⟨_, returns rfl, keeps, iff_of_true right trivial⟩
  | erase =>
      rw [action] at returns stored
      obtain ⟨keeps, right⟩ := silent _ (quiet_backspace _) stored
      exact ⟨_, returns rfl, keeps, iff_of_true right trivial⟩
  | clear =>
      rw [action] at returns stored
      obtain ⟨keeps, right⟩ := silent input.console.clearScreen (Quiet.of_keyboard rfl rfl) stored
      exact ⟨_, returns rfl, keeps, iff_of_true right trivial⟩
  | interrupt =>
      rw [action] at handled stored
      have halts : input.console.keyboardIrqHandler scancode beyond = .halts input.console := handled
      have quiet := quiet_interrupted input.console restarts
      refine ⟨⟨input.console.interrupted restarts, fun who => input.waiting who && killed != some who,
        retag input.console (input.console.interrupted restarts) input.typedAt, input.enteredAt⟩, ?_, ?_, ?_⟩
      · simp only [Input.step, halts, stored]
        rfl
      · exact tagged_arrive _ tagged (fun terminal _ => quiet.counts terminal) _ _
      · refine iff_of_true (quiet_completes tagged rightly quiet fun who waits => ?_) trivial
        exact (Bool.and_eq_true_iff.mp waits).1
  | newline pressed =>
      rw [action] at returns
      obtain ⟨keeps, right⟩ := newline_completes_iff tagged rightly action
      exact ⟨_, returns rfl, keeps, right⟩
  | switch terminal =>
      rw [action] at returns
      obtain ⟨keeps, right⟩ := switch_completes_iff tagged rightly action
      exact ⟨_, returns rfl, keeps, right⟩
  | type pressed =>
      rw [action] at returns
      obtain ⟨keeps, right⟩ := type_completes_iff tagged rightly action
      exact ⟨_, returns rfl, keeps, right⟩

theorem read_step (home : ι → Terminal) {input next : Input ι} (tagged : Tagged input) {event : Event ι}
    (reads : ∀ scancode beyond killed restarts, event ≠ .key scancode beyond killed restarts)
    (taken : input.step event = some next) : Tagged next ∧ CompletesRightly home next := by
  cases event with
  | key scancode beyond killed restarts => exact absurd rfl (reads scancode beyond killed restarts)
  | begin who =>
      simp only [Input.step] at taken
      split at taken
      · cases taken
      · obtain rfl := Option.some.inj taken
        have keeps := tagged_arrive (input.console.setReadFlag false) tagged (fun _ _ => Nat.le_refl _)
          (update input.waiting who true) input.enteredAt
        exact ⟨keeps, completes_of_clear rfl⟩
  | complete who =>
      simp only [Input.step] at taken
      split at taken
      · obtain rfl := Option.some.inj taken
        have others : ∀ terminal, terminal ≠ input.console.currentTerminal →
            input.console.terminalRead.2.count terminal ≤ input.console.count terminal := by
          intro terminal apart
          rw [Console.count_terminalRead, if_neg apart]
        have keeps := tagged_arrive _ tagged others (update input.waiting who false) input.enteredAt
        exact ⟨keeps, completes_of_clear rfl⟩
      · cases taken

theorem completes_step_iff {home : ι → Terminal} {input : Input ι} (tagged : Tagged input)
    (rightly : CompletesRightly home input) (event : Event ι) :
    (∀ next, input.step event = some next → CompletesRightly home next) ↔
        KeepsApart home input event := by
  cases event with
  | key scancode beyond killed restarts =>
      obtain ⟨next, taken, _, right⟩ := key_step tagged rightly scancode beyond killed restarts
      rw [← right, taken]
      simp
  | begin who =>
      refine iff_of_true (fun next taken => (read_step home tagged ?_ taken).2) trivial
      intro _ _ _ _ impossible
      cases impossible
  | complete who =>
      refine iff_of_true (fun next taken => (read_step home tagged ?_ taken).2) trivial
      intro _ _ _ _ impossible
      cases impossible

theorem tagged_step {home : ι → Terminal} {input next : Input ι} {event : Event ι} (tagged : Tagged input)
    (rightly : CompletesRightly home input) (taken : input.step event = some next) : Tagged next := by
  cases event with
  | key scancode beyond killed restarts =>
      obtain ⟨other, same, keeps, _⟩ := key_step tagged rightly scancode beyond killed restarts
      exact Option.some.inj (same.symm.trans taken) ▸ keeps
  | begin who =>
      refine (read_step home tagged ?_ taken).1
      intro _ _ _ _ impossible
      cases impossible
  | complete who =>
      refine (read_step home tagged ?_ taken).1
      intro _ _ _ _ impossible
      cases impossible

/-- Readers on any terminals, any interleaving: in every state on the way a read that can
complete completes rightly, exactly when every event meets the condition. -/
theorem completes_rightly_throughout_iff (leftovers : Leftovers) (home : ι → Terminal) (events : List (Event ι)) :
    Transition.Throughout Input.step (CompletesRightly home) (boot (.atEntry leftovers)) events ↔
      Transition.EachStep Input.step (KeepsApart home) (boot (.atEntry leftovers)) events := by
  have initial : CompletesRightly home (boot (.atEntry leftovers) : Input ι) := completes_of_clear rfl
  have tagged : Tagged (boot (.atEntry leftovers) : Input ι) := fun _ => rfl
  rw [Transition.throughout_iff_eachStep _ initial]
  refine Transition.eachStep_iff Input.step (fun input => Tagged input ∧ CompletesRightly home input)
    (fun input event invariant => completes_step_iff invariant.1 invariant.2 event) ?_ ⟨tagged, initial⟩ events
  intro input event next invariant apart taken
  exact ⟨tagged_step invariant.1 invariant.2 taken,
    (completes_step_iff invariant.1 invariant.2 event).mpr apart next taken⟩

/-- A reader of terminal 0 waits, Alt+F2, then the keys `x` and Enter. -/
def strayLine : List (Event Unit) :=
  [.begin (), .key 0x38 0 none false, .key 0x3C 0x3C none false, .key 0xB8 0 none false, .key 0x2D 0 none false,
    .key 0x1C 0 none false]

/-- The reader of terminal 0 completes with the line typed at terminal 1. -/
theorem line_of_other_terminal :
    (∃ input next, Transition.run Input.step (boot (.atEntry .zeros) : Input Unit) strayLine = some input ∧
      input.step (.complete ()) = some next ∧ input.delivered = [(120, 1), (10, 1)]) ∧
    ¬ Transition.Throughout Input.step (CompletesRightly fun _ : Unit => 0) (boot (.atEntry .zeros)) strayLine := by
  have seen : (Transition.run Input.step (boot (.atEntry .zeros) : Input Unit) strayLine).map (fun input =>
      (input.waiting (), input.console.keyboard.readFlag, input.delivered)) =
      some (true, true, [(120, 1), (10, 1)]) := by decide +kernel
  obtain ⟨final, ran, same⟩ := Option.map_eq_some_iff.mp seen
  obtain ⟨waits, rest⟩ := Prod.mk.inj same
  obtain ⟨flag, bytes⟩ := Prod.mk.inj rest
  refine ⟨⟨final, _, ran, if_pos ⟨waits, flag⟩, bytes⟩, ?_⟩
  intro rightly
  have stray := (rightly strayLine List.prefix_rfl final ran () waits flag).1 (120, 1) (by simp [bytes])
  exact absurd stray (by decide)

end LinuxLikeOS.TerminalInput

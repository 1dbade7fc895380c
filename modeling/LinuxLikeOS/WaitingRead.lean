import LinuxLikeOS.LineInput

/-!
# Enter and the read that waits for it

The handler keeps the last slot of a buffer for Enter, and takes no Enter once that slot is
filled. A line typed while nobody reads may fill it; a read that begins then clears `read_flag`
and waits for an Enter that is refused.
-/

namespace LinuxLikeOS.WaitingRead

open Function TerminalInput TerminalInput.Input
open LineInput (contents_enter)

variable {ι : Type*}

/-- There is room for an Enter that is waited for. -/
def Room (home : ι → Terminal) (input : Input ι) : Prop :=
  ∀ who, input.waiting who = true → home who = input.console.currentTerminal →
    input.console.keyboard.readFlag = false → input.console.count input.console.currentTerminal < 128

theorem Room.of_quiet {home : ι → Terminal} {input next : Input ι} (room : Room home input)
    (quiet : Quiet input.console next.console)
    (waiting : ∀ who, next.waiting who = true → input.waiting who = true) : Room home next := by
  intro who waits here clear
  rw [quiet.terminal] at here ⊢
  rw [quiet.flag] at clear
  exact Nat.lt_of_le_of_lt (quiet.counts _) (room who (waiting who waits) here clear)

variable [DecidableEq ι]

/-- Enter wakes every read that waits on the displayed terminal: the newline goes to the end of
the buffer, the flag is set, and the read completes with a line. -/
def EnterCompletes (home : ι → Terminal) (input : Input ι) : Prop :=
  ∀ who, input.waiting who = true → home who = input.console.currentTerminal →
    input.console.keyboard.readFlag = false → ∀ (beyond : UInt8) (killed : Option ι) (restarts : Bool),
    ∃ next done, input.step (.key 0x1C beyond killed restarts) = some next ∧
      next.console.currentTerminal = input.console.currentTerminal ∧
      next.console.shown.contents = input.console.shown.contents ++ [10] ∧
      next.console.keyboard.readFlag = true ∧
      next.step (.complete who) = some done ∧
      (∃ text, next.console.terminalRead.1 = text ++ [10]) ∧
      next.console.terminalRead.1.length ≤ 128

/-- The condition on an event: a read begins with the buffer of the displayed terminal full only
if no read then waits on that terminal, and while the flag is clear no terminal with a full
buffer is switched to on which a read waits. -/
def LeavesRoom (home : ι → Terminal) (input : Input ι) : Event ι → Prop
  | .begin who =>
      input.waiting who = false → input.console.count input.console.currentTerminal = 128 →
        home who ≠ input.console.currentTerminal ∧
          ∀ other, input.waiting other = true → home other ≠ input.console.currentTerminal
  | .key scancode beyond _ _ =>
      match Console.keyAction input.console.keyboard scancode beyond with
      | .switch terminal =>
          input.console.keyboard.readFlag = false → input.console.count terminal = 128 →
            ∀ who, input.waiting who = true → home who ≠ terminal
      | _ => True
  | .complete _ => True

/-! ## Enter -/

theorem keyAction_enter (keyboard : Keyboard) (beyond : UInt8) :
    Console.keyAction keyboard 0x1C beyond = .newline 10 := by
  obtain ⟨buffer, readFlag, caps, shift, ctrl, alt⟩ := keyboard
  cases shift <;> cases ctrl <;> cases alt <;> rfl

/-- A first line that the text has ended ends with a newline. -/
theorem firstLine_ends (text : List UInt8) : ∃ before, Console.firstLine (text ++ [10]) = before ++ [10] := by
  induction text with
  | nil => exact ⟨[], rfl⟩
  | cons byte rest ih =>
      obtain ⟨before, line⟩ := ih
      rw [List.cons_append, Console.firstLine]
      by_cases newline : byte = 10
      · exact ⟨[], by rw [if_pos newline, newline, List.nil_append]⟩
      · exact ⟨byte :: before, by rw [if_neg newline, line, List.cons_append]⟩

theorem length_terminalRead (console : Console) : console.terminalRead.1.length ≤ 128 := by
  have short := Console.length_firstLine_le console.shown.contents
  rw [LineBuffer.length_contents] at short
  exact Nat.le_trans short console.shown.bounded

/-- Enter wakes the reads exactly if there is room for it. -/
theorem enterCompletes_iff {home : ι → Terminal} {input : Input ι} :
    EnterCompletes home input ↔ Room home input := by
  have performed : ∀ beyond, input.console.perform (Console.keyAction input.console.keyboard 0x1C beyond) =
      .returns (input.console.enter 10) := by
    intro beyond
    rw [keyAction_enter]
    rfl
  constructor
  · intro completes who waits here clear
    obtain ⟨next, done, _, same, appended, _⟩ := completes who waits here clear 0 none false
    have lengths := congrArg List.length appended
    rw [List.length_append, LineBuffer.length_contents, LineBuffer.length_contents] at lengths
    have bounded := next.console.shown.bounded
    have longer : input.console.shown.count < 128 := by
      simp only [List.length_singleton] at lengths
      omega
    exact longer
  · intro room who waits here clear beyond killed restarts
    have below := room who waits here clear
    have contents : (input.console.enter 10).shown.contents = input.console.shown.contents ++ [10] :=
      contents_enter below
    have flag := Console.enter_readFlag 10 below
    have line : (input.console.enter 10).terminalRead.1 = Console.firstLine (input.console.shown.contents ++ [10]) := by
      rw [← contents]
      rfl
    refine ⟨_, _, step_key (performed beyond) killed restarts, Console.enter_currentTerminal 10 _, contents, flag,
      if_pos ⟨waits, flag⟩, ?_, length_terminalRead _⟩
    obtain ⟨text, ends⟩ := firstLine_ends input.console.shown.contents
    exact ⟨text, line.trans ends⟩

/-! ## Events -/

/-- A key leads to one next state; whether there is room is the condition. -/
theorem key_room {home : ι → Terminal} {input : Input ι} (room : Room home input) (scancode beyond : UInt8)
    (killed : Option ι) (restarts : Bool) :
    ∃ next, input.step (.key scancode beyond killed restarts) = some next ∧
      (Room home next ↔ LeavesRoom home input (.key scancode beyond killed restarts)) := by
  have handled := input.console.keyboardIrqHandler_eq scancode beyond
  have returns : ∀ {console}, input.console.perform (Console.keyAction input.console.keyboard scancode beyond) =
      .returns console → input.step (.key scancode beyond killed restarts) =
        some (afterKey input scancode beyond console) := fun performed => step_key performed killed restarts
  have silent : ∀ {console}, Quiet input.console console → Room home (afterKey input scancode beyond console) :=
    fun quiet => room.of_quiet quiet fun _ waits => waits
  simp only [LeavesRoom]
  cases action : Console.keyAction input.console.keyboard scancode beyond with
  | modifier caps shift ctrl alt =>
      rw [action] at returns
      exact ⟨_, returns rfl, iff_of_true (silent ⟨rfl, rfl, fun _ => Nat.le_refl _⟩) trivial⟩
  | ignored =>
      rw [action] at returns
      exact ⟨_, returns rfl, iff_of_true (silent (Quiet.of_keyboard rfl rfl)) trivial⟩
  | erase =>
      rw [action] at returns
      exact ⟨_, returns rfl, iff_of_true (silent (quiet_backspace _)) trivial⟩
  | clear =>
      rw [action] at returns
      exact ⟨_, returns rfl, iff_of_true (silent (Quiet.of_keyboard rfl rfl)) trivial⟩
  | interrupt =>
      rw [action] at handled
      have halts : input.console.keyboardIrqHandler scancode beyond = .halts input.console := handled
      refine ⟨{ input.arrive (input.console.interrupted restarts) with
        enteredAt := if setsReadFlag input.console scancode beyond then some input.console.currentTerminal
          else input.enteredAt
        waiting := fun who => input.waiting who && killed != some who }, ?_, ?_⟩
      · simp only [Input.step, halts]
      · refine iff_of_true (room.of_quiet (quiet_interrupted input.console restarts) fun who waits => ?_) trivial
        exact (Bool.and_eq_true_iff.mp waits).1
  | newline pressed =>
      rw [action] at returns
      refine ⟨_, returns rfl, iff_of_true ?_ trivial⟩
      by_cases below : input.console.count input.console.currentTerminal < 128
      · intro who _ _ clear
        have set := Console.enter_readFlag pressed below
        exact absurd (clear.symm.trans set) Bool.false_ne_true
      · rw [Console.enter_of_full pressed below]
        exact silent (Quiet.of_keyboard rfl rfl)
  | switch terminal =>
      rw [action] at returns
      refine ⟨_, returns rfl, ?_⟩
      have keyboard := input.console.openTerminal_kept terminal.val
      have shown := input.console.openTerminal_currentTerminal terminal
      have counts := input.console.count_openTerminal terminal.val
      simp only [Room, afterKey, shown, keyboard, counts, Console.count_lt_iff]
      constructor
      · exact fun inside clear count who waits here => inside who waits here clear count
      · exact fun condition who waits here clear count => condition clear count who waits here
  | type pressed =>
      rw [action] at returns
      refine ⟨_, returns rfl, iff_of_true ?_ trivial⟩
      intro who waits here clear
      obtain ⟨shown, flag⟩ := input.console.typeByte_kept 127 pressed
      have below := room who waits (here.trans shown) (flag.symm.trans clear)
      show (input.console.typeByte 127 pressed).count (input.console.typeByte 127 pressed).currentTerminal < 128
      rw [shown, Console.count_typeByte]
      split <;> omega

theorem begin_room {home : ι → Terminal} {input : Input ι} (who : ι) :
    (∀ next, input.step (.begin who) = some next → Room home next) ↔ LeavesRoom home input (.begin who) := by
  simp only [Input.step, LeavesRoom]
  by_cases waits : input.waiting who = true
  · rw [if_pos waits]
    refine iff_of_true (fun next taken => ?_) fun idle => ?_
    · cases taken
    · rw [waits] at idle
      cases idle
  · have idle : input.waiting who = false := Bool.eq_false_iff.mpr waits
    have full := input.console.count_lt_iff input.console.currentTerminal
    rw [if_neg waits]
    constructor
    · intro inside _ count
      have begun := inside _ rfl
      refine ⟨fun here => ?_, fun other later here => ?_⟩
      · exact absurd count (full.mp (begun who (update_self ..) here rfl))
      · have still : update input.waiting who true other = true := by
          rcases eq_or_ne other who with rfl | apart
          · exact update_self ..
          · rw [update_of_ne apart]
            exact later
        exact absurd count (full.mp (begun other still here rfl))
    · rintro condition _ ⟨⟩ other later here _
      refine full.mpr fun count => ?_
      obtain ⟨own, others⟩ := condition idle count
      have still : update input.waiting who true other = true := later
      rcases eq_or_ne other who with rfl | apart
      · exact own here
      · rw [update_of_ne apart] at still
        exact others other still here

theorem step_room {home : ι → Terminal} {input : Input ι} (room : Room home input) (event : Event ι) :
    (∀ next, input.step event = some next → Room home next) ↔ LeavesRoom home input event := by
  cases event with
  | key scancode beyond killed restarts =>
      obtain ⟨next, taken, condition⟩ := key_room room scancode beyond killed restarts
      rw [← condition, taken]
      simp
  | begin who => exact begin_room who
  | complete who =>
      refine iff_of_true (fun next taken => ?_) trivial
      simp only [Input.step] at taken
      split at taken
      · obtain rfl := Option.some.inj taken
        intro other _ _ _
        have none := input.console.count_terminalRead input.console.currentTerminal
        rw [if_pos rfl] at none
        exact Nat.lt_of_le_of_lt (Nat.le_of_eq none) (by decide)
      · cases taken

/-- Readers on any terminals, any keys and switches: in every state on the way Enter wakes the
reads of the displayed terminal, exactly when every event meets the condition. -/
theorem enter_completes_throughout_iff (leftovers : Leftovers) (home : ι → Terminal) (events : List (Event ι)) :
    Transition.Throughout Input.step (EnterCompletes home) (boot (.atEntry leftovers)) events ↔
      Transition.EachStep Input.step (LeavesRoom home) (boot (.atEntry leftovers)) events := by
  have initial : Room home (boot (.atEntry leftovers) : Input ι) := nofun
  have same : EnterCompletes home = Room home := funext fun _ => propext enterCompletes_iff
  rw [same, Transition.throughout_iff_eachStep _ initial]
  refine Transition.eachStep_iff Input.step (Room home) (fun input event room => step_room room event) ?_
    initial events
  exact fun input event next room condition taken => (step_room room event).mpr condition next taken

/-- With nobody reading, the keys of 127 letters and Enter; then a read begins. -/
def typedFull : List (Event Unit) :=
  List.replicate 127 (.key 0x1E 0 none false) ++ [.key 0x1C 0 none false, .begin ()]

/-- The read waits, the buffer is full, and Enter changes nothing any more. -/
theorem enter_is_refused :
    (∃ input next, Transition.run Input.step (boot (.atEntry .zeros) : Input Unit) typedFull = some input ∧
      input.waiting () = true ∧ input.console.keyboard.readFlag = false ∧ input.console.count 0 = 128 ∧
      input.step (.key 0x1C 0 none false) = some next ∧ next.console = input.console) ∧
    ¬ Transition.Throughout Input.step (EnterCompletes fun _ : Unit => 0) (boot (.atEntry .zeros)) typedFull := by
  have seen : (Transition.run Input.step (boot (.atEntry .zeros) : Input Unit) typedFull).map (fun input =>
      (input.waiting (), input.console.keyboard.readFlag, input.console.count 0, input.console.currentTerminal)) =
      some (true, false, 128, 0) := by decide +kernel
  obtain ⟨input, ran, same⟩ := Option.map_eq_some_iff.mp seen
  obtain ⟨waits, clear, count, shown⟩ : input.waiting () = true ∧ input.console.keyboard.readFlag = false ∧
      input.console.count 0 = 128 ∧ input.console.currentTerminal = 0 := by simpa using same
  have full : ¬ input.console.count input.console.currentTerminal < 128 := by
    rw [shown, count]
    decide
  constructor
  · have refused := Console.enter_of_full 10 full
    refine ⟨input, _, ran, waits, clear, count, step_key ?_ none false, refused⟩
    rw [keyAction_enter]
    rfl
  · intro completes
    have room := enterCompletes_iff.mp (completes typedFull List.prefix_rfl input ran)
    exact full (room () waits shown.symm clear)

end LinuxLikeOS.WaitingRead

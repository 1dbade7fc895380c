import LinuxLikeOS.Output

/-!
# Turns of the terminals

`temp_terminal` and the `on_off_flag`s are the scheduler's own: what they hold depends on nothing but the number
of ticks. From the sixth tick on they go round the terminals, and what the kernel keeps of the running process goes
with them; the stack pointers, which both come from the PCB of the next process, do not.
-/

namespace LinuxLikeOS

open Kernel Function

namespace RoundRobin

def isTick : Output.Activity → Bool
  | .happens (.tick _ _ _) => true
  | _ => false

def ticks (activities : List Output.Activity) : Nat := activities.countP isTick

/-- What the scheduler goes by. -/
structure Turn where
  terminal : Terminal
  seen : Terminal → Bool

def turn (kernel : Kernel) : Turn := ⟨kernel.tempTerminal, fun terminal => (kernel.terminalArray terminal).onOffFlag⟩

/-- A terminal has its first turn, or it is the turn of the next one. -/
def Turn.tick (turn : Turn) : Turn :=
  if turn.seen turn.terminal then { turn with terminal := turn.terminal + 1 }
  else { turn with seen := update turn.seen turn.terminal true }

/-- The turn after a number of ticks from the start. -/
def Turn.Is (turn : Turn) (count : Nat) : Prop :=
  turn.terminal.val = (if count < 6 then count / 2 else count % 3) ∧
    ∀ terminal, turn.seen terminal = decide (2 * terminal.val < count)

theorem Turn.Is.tick {turn : Turn} {count : Nat} (holds : turn.Is count) : turn.tick.Is (count + 1) := by
  obtain ⟨place, seen⟩ := holds
  have inside := turn.terminal.isLt
  have next : (turn.terminal + 1).val = (turn.terminal.val + 1) % 3 := by rw [Fin.val_add]; rfl
  unfold Turn.tick
  rw [seen turn.terminal]
  split
  · rename_i before
    have before := of_decide_eq_true before
    refine ⟨?_, fun terminal => ?_⟩
    · rw [next]
      split at place <;> split <;> omega
    · rw [seen]
      have other := terminal.isLt
      refine decide_eq_decide.mpr ?_
      split at place <;> omega
  · rename_i fresh
    have fresh : ¬ 2 * turn.terminal.val < count := by simpa using fresh
    refine ⟨?_, fun terminal => ?_⟩
    · show turn.terminal.val = _
      split at place <;> split <;> omega
    · rcases eq_or_ne terminal turn.terminal with rfl | here
      · have : decide (2 * turn.terminal.val < count + 1) = true := by
          refine decide_eq_true ?_
          split at place <;> omega
        dsimp only
        rw [update_self, this]
      · have apart : terminal.val ≠ turn.terminal.val := fun same => here (Fin.ext same)
        dsimp only
        rw [update_of_ne here, seen]
        refine decide_eq_decide.mpr ?_
        split at place <;> omega

section

variable {image : Image} {layout : Layout} {kernel after : Kernel} {transfer : Transfer} {locals : Locals}

theorem turn_setCurrentPid (kernel : Kernel) (terminal : Terminal) (pid : Int) :
    turn (kernel.setCurrentPid terminal pid) = turn kernel := by
  simp only [turn, setCurrentPid, Turn.mk.injEq, true_and]
  funext other
  rcases eq_or_ne other terminal with rfl | here
  · simp
  · simp [here]

/-- `execute` has no say in whose turn it is. -/
theorem turn_execute {command : CString} {frame : Frame}
    (executed : kernel.execute image command frame locals = some (transfer, after)) : turn after = turn kernel := by
  unfold Kernel.execute at executed
  split at executed
  · obtain ⟨_, rfl⟩ := Prod.mk.inj (Option.some.inj executed)
    rfl
  · cases executed
  · split at executed
    · obtain ⟨_, rfl⟩ := Prod.mk.inj (Option.some.inj executed)
      rfl
    · split at executed
      · cases executed
      · obtain ⟨_, rfl⟩ := Prod.mk.inj (Option.some.inj executed)
        exact turn_setCurrentPid kernel.begin _ _

theorem turn_left {left : Kernel} (leaves : Left kernel left) : turn left = turn kernel := by
  simp only [turn, leaves.tempTerminal, leaves.onOffFlag]

theorem turn_halt {status : UInt8} {inner : Frame}
    (halted : kernel.halt image status inner locals = some (transfer, after)) : turn after = turn kernel := by
  obtain ⟨_, left, leaves, cases⟩ := halt_cases halted
  have told : turn (left.announce status) = turn kernel := turn_left (leaves.announce status)
  rcases cases with ⟨_, rfl, _⟩ | ⟨_, inside, started, executed, ⟨_, _, rfl⟩ | ⟨_, rfl, _⟩⟩
  · exact told
  · exact (turn_execute executed).trans told
  · exact (turn_execute executed).trans told

theorem turn_exception {exceptionId : Nat} {inner : Frame}
    (handled : kernel.exceptionHandler image exceptionId inner locals = some (transfer, after)) :
    turn after = turn kernel := by
  unfold exceptionHandler at handled
  split at handled
  · obtain ⟨_, rfl⟩ := Prod.mk.inj (Option.some.inj handled)
    rfl
  · exact (turn_halt handled).trans rfl

theorem turn_key {scancode beyond : UInt8} {inner : Frame}
    (pressed : kernel.key image scancode beyond inner locals = some (transfer, after)) : turn after = turn kernel := by
  unfold Kernel.key at pressed
  split at pressed
  · obtain ⟨_, rfl⟩ := Prod.mk.inj (Option.some.inj pressed)
    rfl
  · exact (turn_halt pressed).trans rfl

theorem turn_firstTurn (fresh : (kernel.terminalArray kernel.tempTerminal).onOffFlag = false) :
    turn kernel.firstTurn = (turn kernel).tick := by
  have notSeen : ¬ (turn kernel).seen (turn kernel).terminal = true := by simpa [turn] using fresh
  rw [Turn.tick, if_neg notSeen]
  simp only [turn, firstTurn, openTerminal, withConsole, Turn.mk.injEq, true_and]
  funext other
  rcases eq_or_ne other kernel.tempTerminal with rfl | here
  · simp
  · simp [here]

theorem turn_tick {frame inner : Frame}
    (ticked : kernel.pitIrqHandler image frame inner locals = some (transfer, after)) :
    turn after = (turn kernel).tick := by
  rcases tick_cases ticked with ⟨seen, passed⟩ | ⟨fresh, inside, started, executed, answer⟩
  · have next : turn kernel.nextTurn = (turn kernel).tick := (if_pos seen).symm
    rcases passed with ⟨_, _, rfl⟩ | ⟨_, switched⟩
    · exact next
    · exact (congrArg turn (congrArg Prod.snd switched)).symm.trans next
  · have begun := (turn_execute executed).trans (turn_firstTurn fresh)
    rcases answer with ⟨_, _, _, rfl⟩ | ⟨_, rfl, _⟩
    · exact begun
    · exact begun

/-- Only ticks change whose turn it is. -/
theorem turn_step {activity : Output.Activity} (taken : activity.step image layout kernel = some after) :
    turn after = if isTick activity then (turn kernel).tick else turn kernel := by
  cases activity with
  | happens event =>
      obtain ⟨⟨transfer, _⟩, stepped, rfl⟩ := Option.map_eq_some_iff.mp taken
      cases event with
      | execute command frame locals => exact turn_execute stepped
      | halt status inner locals => exact turn_halt stepped
      | tick frame inner locals => exact turn_tick stepped
      | openTerminal terminalId =>
          obtain ⟨_, rfl⟩ := Prod.mk.inj (Option.some.inj stepped)
          rfl
      | vidmap screenStart =>
          simp only [Kernel.step] at stepped
          split at stepped
          · cases stepped
          · obtain ⟨_, rfl⟩ := Prod.mk.inj (Option.some.inj stepped)
            unfold Kernel.vidmap
            split <;> rfl
  | exception exceptionId inner locals =>
      obtain ⟨⟨transfer, _⟩, handled, rfl⟩ := Option.map_eq_some_iff.mp taken
      exact turn_exception handled
  | key scancode beyond inner locals =>
      obtain ⟨⟨transfer, _⟩, pressed, rfl⟩ := Option.map_eq_some_iff.mp taken
      exact turn_key pressed
  | write buf nbytes => exact (congrArg turn (Option.some.inj taken)).symm.trans rfl
  | beginRead => exact (congrArg turn (Option.some.inj taken)).symm.trans rfl
  | endRead => exact (congrArg turn (Option.some.inj taken)).symm.trans rfl
  | devices fds files rtc => exact (congrArg turn (Option.some.inj taken)).symm.trans rfl

theorem turn_of_ticks (pcb : Int → Pcb) (rtc : Rtc) (leftovers : Leftovers) {activities : List Output.Activity}
    (ran : Transition.run (Output.Activity.step image layout) (entry layout pcb rtc leftovers) activities =
      some kernel) : (turn kernel).Is (ticks activities) := by
  refine Transition.run_invariant _ (P := fun past kernel => (turn kernel).Is (ticks past))
    ⟨rfl, fun _ => rfl⟩ ?_ ran
  intro past kernel activity after holds taken
  rw [turn_step taken, ticks, List.countP_append, List.countP_singleton]
  split
  · exact holds.tick
  · exact holds

/-! ## Round the terminals -/

theorem exists_tick {activities : List Output.Activity} {index : Nat} (enough : index < ticks activities) :
    ∃ before activity rest, activities = before ++ activity :: rest ∧ isTick activity = true ∧
      ticks before = index := by
  induction activities generalizing index with
  | nil => simp [ticks] at enough
  | cons activity rest ih =>
      rw [ticks, List.countP_cons] at enough
      cases tick : isTick activity with
      | false =>
          have later : index < ticks rest := by simpa [tick, ticks] using enough
          obtain ⟨before, found, after, rfl, isTick, count⟩ := ih later
          exact ⟨activity :: before, found, after, rfl, isTick, by simpa [ticks, tick] using count⟩
      | true =>
          cases index with
          | zero => exact ⟨[], activity, rest, rfl, tick, rfl⟩
          | succ index =>
              have later : index < ticks rest := by simpa [tick, ticks] using enough
              obtain ⟨before, found, after, rfl, isTick, count⟩ := ih later
              refine ⟨activity :: before, found, after, rfl, isTick, ?_⟩
              rw [← count, ticks, List.countP_cons_of_pos tick, ticks]

/-- A tick with which it is the turn of a terminal. With a program there, `new_pid`, `sched_terminal`, the kernel stack
in the TSS and the entry for user pages become those of the program, while the handler returns on the stack that it
has interrupted; otherwise nothing but the turn moves on. -/
structure GoesTo (terminal : Terminal) (frame : Frame) (before : Kernel) (transfer : Transfer) (after : Kernel) :
    Prop where
  turn : after.tempTerminal = terminal
  shell : before.currentPid terminal < 3 → transfer = .returns 0 ∧ after = before.nextTurn
  program : 3 ≤ before.currentPid terminal → after.newPid = before.currentPid terminal ∧
    after.schedTerminal = terminal ∧ after.tss.esp0 = kernelStack (before.currentPid terminal) ∧
    after.paging.pageDirectory usrIdx = Paging.userPage (before.pcb (before.currentPid terminal)).pid
  stack : 3 ≤ before.currentPid terminal → transfer = .stack frame

theorem tick_goesTo {frame inner : Frame}
    (seen : (kernel.terminalArray kernel.tempTerminal).onOffFlag = true)
    (ticked : kernel.pitIrqHandler image frame inner locals = some (transfer, after)) :
    GoesTo (kernel.tempTerminal + 1) frame kernel transfer after := by
  rcases tick_cases ticked with ⟨_, ⟨idle, rfl, rfl⟩ | ⟨busy, switched⟩⟩ | ⟨fresh, _⟩
  · have none : ¬ 3 ≤ kernel.currentPid (kernel.tempTerminal + 1) := Int.not_le.mpr idle
    exact ⟨rfl, fun _ => ⟨rfl, rfl⟩, fun busy => absurd busy none, fun busy => absurd busy none⟩
  · obtain ⟨rfl, rfl⟩ := Prod.mk.inj switched
    refine ⟨rfl, fun idle => absurd idle (Int.not_lt.mpr busy), fun _ => ⟨rfl, rfl, rfl, ?_⟩, fun _ => ?_⟩
    · have running : kernel.nextTurn.scheduled.currentPid kernel.nextTurn.scheduled.schedTerminal > 2 := busy
      simp only [if_pos running]
      exact Paging.mapUser_usrIdx kernel.paging _
    · simp only [update_self]
  · rw [seen] at fresh
    cases fresh

/-- Once five ticks are past, one of any three ticks goes to a given terminal, whatever else happens between them. -/
theorem scheduler_goes_round (pcb : Int → Pcb) (rtc : Rtc) (leftovers : Leftovers)
    {past later : List Output.Activity} {final : Kernel}
    (ran : Transition.run (Output.Activity.step image layout) (entry layout pcb rtc leftovers) past = some kernel)
    (settled : 5 ≤ ticks past)
    (goesOn : Transition.run (Output.Activity.step image layout) kernel later = some final)
    (enough : 3 ≤ ticks later) (terminal : Terminal) :
    ∃ before frame inner locals rest middle after transfer,
      later = before ++ .happens (.tick frame inner locals) :: rest ∧ ticks before < 3 ∧
      Transition.run (Output.Activity.step image layout) kernel before = some middle ∧
      middle.pitIrqHandler image frame inner locals = some (transfer, after) ∧
      GoesTo terminal frame middle transfer after := by
  have inside := terminal.isLt
  obtain ⟨before, activity, rest, rfl, isTick, count⟩ : ∃ before activity rest,
      later = before ++ activity :: rest ∧ isTick activity = true ∧
        ticks before = (terminal.val + 2 * (ticks past + 1)) % 3 :=
    exists_tick (by omega)
  cases activity with
  | happens event =>
      cases event with
      | tick frame inner locals =>
          rw [Transition.run_append, Option.bind_eq_some_iff] at goesOn
          obtain ⟨middle, reached, goesOn⟩ := goesOn
          obtain ⟨_, taken, -⟩ := Option.bind_eq_some_iff.mp goesOn
          obtain ⟨⟨transfer, after⟩, ticked, rfl⟩ := Option.map_eq_some_iff.mp taken
          have whole : Transition.run (Output.Activity.step image layout) (entry layout pcb rtc leftovers)
              (past ++ before) = some middle := by
            rw [Transition.run_append, ran]
            exact reached
          obtain ⟨place, seen⟩ := turn_of_ticks pcb rtc leftovers whole
          rw [ticks, List.countP_append, ← ticks, ← ticks] at place seen
          have turned := tick_goesTo ((seen _).trans (decide_eq_true (by omega))) ticked
          have next : middle.tempTerminal + 1 = terminal := by
            refine Fin.ext ?_
            rw [Fin.val_add]
            have place : middle.tempTerminal.val = (ticks past + ticks before) % 3 := by
              refine place.trans ?_
              split <;> omega
            rw [place]
            show ((ticks past + ticks before) % 3 + 1) % 3 = terminal.val
            omega
          exact ⟨before, frame, inner, locals, rest, middle, after, transfer, rfl, by omega, reached, ticked,
            next ▸ turned⟩
      | _ => cases isTick
  | _ => cases isTick

end

def sampleTick : Output.Activity := .happens (.tick ⟨0, 0⟩ ⟨0, 0⟩ .zeros)

/-- Three shells are started, and a program on the last terminal. -/
def samplePast : List Output.Activity := List.replicate 5 sampleTick ++ [.happens (.execute Image.shell ⟨0, 0⟩ .zeros)]

theorem scheduler_goes_round_sample : ∃ kernel final frame middle transfer after,
    Transition.run (Output.Activity.step Image.sample Layout.sample) booted samplePast = some kernel ∧
    Transition.run (Output.Activity.step Image.sample Layout.sample) kernel (List.replicate 3 sampleTick) = some final ∧
    GoesTo 2 frame middle transfer after := by
  have evaluated : ((Transition.run (Output.Activity.step Image.sample Layout.sample) booted samplePast).bind
      fun kernel => Transition.run (Output.Activity.step Image.sample Layout.sample) kernel
        (List.replicate 3 sampleTick)).isSome = true := by
    decide +kernel
  obtain ⟨final, both⟩ := Option.isSome_iff_exists.mp evaluated
  obtain ⟨kernel, ran, goesOn⟩ := Option.bind_eq_some_iff.mp both
  obtain ⟨_, frame, _, _, _, middle, after, transfer, _, _, _, _, turn⟩ :=
    scheduler_goes_round (fun _ => Pcb.zeros) ⟨0, false⟩ .zeros ran (by decide) goesOn (by decide) 2
  exact ⟨kernel, final, frame, middle, transfer, after, ran, goesOn, turn⟩

end RoundRobin

end LinuxLikeOS

import LinuxLikeOS.Effects
import LinuxLikeOS.Isolation

/-!
# Ctrl+C

The key is to end the process of the displayed terminal and nothing else. The handler calls
`halt`, which ends the process that `new_pid` names and sets the entry of `sched_terminal`. In
a state in which no file is open both do the same exactly under a condition on these two.
-/

namespace LinuxLikeOS

open Function Kernel

namespace Interrupt

/-- What happens before the key: events of the kernel and other keys. -/
inductive Input where
  | happens (event : Event)
  | key (scancode beyond : UInt8) (inner : Frame) (locals : Locals)

def Input.step (image : Image) (layout : Layout) (kernel : Kernel) : Input → Option Kernel
  | .happens event => kernel.next image layout event
  | .key scancode beyond inner locals => (kernel.key image scancode beyond inner locals).map Prod.snd

/-- The process of the displayed terminal. -/
def foreground (kernel : Kernel) : Int := kernel.currentPid kernel.console.currentTerminal

/-- The process is gone and its parent takes its place on the terminal. -/
structure Ended (kernel after : Kernel) (pid : Int) : Prop where
  progs : after.progs = update kernel.progs pid .close
  currentPid : after.currentPid =
    update kernel.currentPid kernel.console.currentTerminal (kernel.pcb pid).parentPid
  others : ∀ other, other ≠ pid → after.pcb other = kernel.pcb other

/-- The process had no parent and a shell takes its place, in its slot or in a free one. -/
structure Restarted (kernel : Kernel) (transfer : Transfer) (after : Kernel) (pid shell : Int) : Prop where
  root : (kernel.pcb pid).parentPid = -1
  control : ∃ eip loaded, transfer = .program eip loaded
  newPid : after.newPid = shell
  slot : shell = pid ∨ kernel.progs shell = .close
  progs : after.progs = update (update kernel.progs pid .close) shell .open
  currentPid : after.currentPid = update kernel.currentPid kernel.console.currentTerminal shell
  others : ∀ other, other ≠ pid → other ≠ shell → after.pcb other = kernel.pcb other

/-- The process of the displayed terminal has ended, and nothing else has changed. -/
def EndsOnly (kernel : Kernel) (transfer : Transfer) (after : Kernel) : Prop :=
  Ended kernel after (foreground kernel) ∨ ∃ shell, Restarted kernel transfer after (foreground kernel) shell

/-- The condition: the process of the displayed terminal is the running one; its terminal is the
scheduled one, or the entry of the scheduled terminal has already what is stored there; and where
a shell is to be restarted, it can be. -/
def HitsForeground (image : Image) (locals : Locals) (kernel : Kernel) : Prop :=
  let shown := kernel.console.currentTerminal
  let parent := (kernel.pcb kernel.newPid).parentPid
  kernel.newPid = foreground kernel ∧
  (parent ≠ -1 → kernel.schedTerminal = shown ∨
    (parent = kernel.newPid ∧ kernel.currentPid kernel.schedTerminal = parent)) ∧
  (parent = -1 →
    match check image Image.shell locals (-1) with
    | .rejected _ => kernel.schedTerminal = shown
    | .overrun => False
    | .passed _ loaded => 0x48000 + loaded.length ≤ 0x400000 ∧
        (kernel.schedTerminal = shown ∨ kernel.currentPid kernel.schedTerminal = -1))

/-- Every number that is kept is accounted for, and no process that has been started has a file
open. -/
structure Idle (started : Int → Prop) (kernel : Kernel) : Prop extends Accounted started kernel where
  closed : ∀ {pid}, started pid → ∀ fd : Fin 8, 2 ≤ fd.val →
    ((kernel.pcb pid).systemcallFdArray fd).flags = .close

section

variable {started : Int → Prop} {kernel left after : Kernel} {image : Image} {transfer : Transfer}

theorem Idle.congr (idle : Idle started kernel)
    (pcb : ∀ pid, (after.pcb pid).pid = (kernel.pcb pid).pid ∧
      (after.pcb pid).parentPid = (kernel.pcb pid).parentPid ∧
      (after.pcb pid).systemcallFdArray = (kernel.pcb pid).systemcallFdArray)
    (newPid : after.newPid = kernel.newPid) (current : after.currentPid = kernel.currentPid) :
    Idle started after where
  toAccounted := idle.toAccounted.congr (fun pid => ⟨(pcb pid).1, (pcb pid).2.1⟩) newPid current
  closed := by
    intro pid before
    rw [(pcb pid).2.2]
    exact idle.closed before

theorem left_idle (idle : Idle started kernel) (running : 0 ≤ kernel.newPid)
    (leaves : kernel.leave = some left) : Idle started left where
  toAccounted := left_accounted idle.toAccounted running (leave_left leaves)
  closed := by
    intro pid before
    by_cases here : pid = kernel.newPid
    · subst here
      rw [leave_fds leaves (idle.closed before)]
      exact idle.closed before
    · rw [(leave_left leaves).others pid here]
      exact idle.closed before

/-- No change opens a file. -/
theorem effect_idle (effect : Effect kernel after) (idle : ∃ started, Idle started kernel) :
    ∃ started, Idle started after := by
  obtain ⟨started, idle⟩ := idle
  cases effect with
  | console change => exact ⟨started, idle.congr (fun _ => ⟨rfl, rfl, rfl⟩) rfl rfl⟩
  | oldPid pid => exact ⟨started, idle.congr (fun _ => ⟨rfl, rfl, rfl⟩) rfl rfl⟩
  | @start slot free command frame =>
      have begun := start_started kernel slot command frame
      obtain ⟨nonneg, small, _⟩ := freeSlot_eq_some free
      refine ⟨_, start_accounted idle.toAccounted begun ⟨nonneg, small⟩, ?_⟩
      intro pid before
      by_cases here : pid = slot
      · rw [here]
        exact begun.fds
      · rw [begun.others pid here]
        exact idle.closed (before.resolve_left here)
  | leave running leaves => exact ⟨started, left_idle idle running leaves⟩
  | resume => exact ⟨started, idle.congr (fun _ => ⟨rfl, rfl, rfl⟩) rfl rfl⟩
  | seen =>
      refine ⟨started, idle.congr (fun _ => ⟨rfl, rfl, rfl⟩) rfl ?_⟩
      funext terminal
      rcases eq_or_ne terminal kernel.tempTerminal with rfl | here
      · simp [currentPid]
      · simp [currentPid, here]
  | nextTurn => exact ⟨started, idle.congr (fun _ => ⟨rfl, rfl, rfl⟩) rfl rfl⟩
  | switch busy frame =>
      have next : Idle started kernel.scheduled := idle.congr (fun _ => ⟨rfl, rfl, rfl⟩) rfl rfl
      refine ⟨started, (switch_accounted next.toAccounted frame busy).2, ?_⟩
      intro pid before fd other
      obtain ⟨esp, ebp, same⟩ := switch_pcb frame kernel.scheduled pid
      rw [same]
      exact next.closed before fd other
  | vidmap running layout screenStart =>
      refine ⟨started, idle.congr (fun _ => ?_) ?_ ?_⟩ <;> unfold vidmap <;> split <;>
        first | exact ⟨rfl, rfl, rfl⟩ | rfl

theorem entry_idle (layout : Layout) (pcb : Int → Pcb) (rtc : Rtc) (leftovers : Leftovers) :
    ∃ started, Idle started (entry layout pcb rtc leftovers) :=
  ⟨fun _ => False, ⟨nofun, nofun, nofun, Or.inl rfl, fun _ => Or.inl rfl⟩, nofun⟩

theorem input_effects {layout : Layout} {input : Input} (taken : input.step image layout kernel = some after) :
    Effects kernel after := by
  cases input with
  | happens event =>
      obtain ⟨⟨transfer, _⟩, stepped, rfl⟩ := Option.map_eq_some_iff.mp taken
      exact step_effects stepped
  | key scancode beyond inner locals =>
      obtain ⟨⟨transfer, _⟩, pressed, rfl⟩ := Option.map_eq_some_iff.mp taken
      exact key_effects pressed

/-- In every state that is reached no process has a file open. -/
theorem reached_idle {layout : Layout} {pcb : Int → Pcb} {rtc : Rtc} {leftovers : Leftovers} {inputs : List Input}
    (reached : Transition.run (fun kernel input => Input.step image layout kernel input)
      (entry layout pcb rtc leftovers) inputs = some kernel) : ∃ started, Idle started kernel :=
  Transition.run_preserves _ (P := fun kernel => ∃ started, Idle started kernel) (entry_idle layout pcb rtc leftovers)
    (fun _ _ _ idle taken => (input_effects taken).preserves (fun _ _ effect => effect_idle effect) idle) reached

/-! ## The condition is exact -/

/-- The same value stored under two names. -/
theorem update_same_iff {α β : Type*} [DecidableEq α] {f : α → β} {first second : α} {value : β} :
    update f first value = update f second value ↔ first = second ∨ (f first = value ∧ f second = value) := by
  rcases eq_or_ne first second with rfl | apart
  · simp
  · constructor
    · intro same
      have here := congrFun same first
      have there := congrFun same second
      rw [update_self, update_of_ne apart] at here
      rw [update_self, update_of_ne apart.symm] at there
      exact Or.inr ⟨here.symm, there⟩
    · rintro (same | ⟨here, there⟩)
      · exact absurd same apart
      · rw [← here, update_eq_self, here, ← there, update_eq_self]

theorem update_update_iff {α β : Type*} [DecidableEq α] {f : α → β} {first second : α} {value other : β} :
    update (update f first value) second other = update f second other ↔ first = second ∨ f first = value := by
  rcases eq_or_ne first second with rfl | apart
  · simp
  · constructor
    · intro same
      have here := congrFun same first
      rw [update_of_ne apart, update_self, update_of_ne apart] at here
      exact Or.inr here.symm
    · rintro (same | here)
      · exact absurd same apart
      · rw [← here, update_eq_self]

/-- The running process is gone and no shell has been started. -/
theorem gone_iff (alive : kernel.progs (foreground kernel) = .open)
    (progs : after.progs = update kernel.progs kernel.newPid .close)
    (current : after.currentPid =
      update kernel.currentPid kernel.schedTerminal (kernel.pcb kernel.newPid).parentPid)
    (others : ∀ pid, pid ≠ kernel.newPid → after.pcb pid = kernel.pcb pid)
    (noShell : ∀ eip loaded, transfer ≠ .program eip loaded) :
    EndsOnly kernel transfer after ↔ kernel.newPid = foreground kernel ∧
      (kernel.schedTerminal = kernel.console.currentTerminal ∨
        (kernel.currentPid kernel.schedTerminal = (kernel.pcb kernel.newPid).parentPid ∧
          foreground kernel = (kernel.pcb kernel.newPid).parentPid)) := by
  constructor
  · rintro (ended | ⟨shell, restarted⟩)
    · have running : kernel.newPid = foreground kernel := by
        by_contra apart
        have gone := congrFun (progs.symm.trans ended.progs) (foreground kernel)
        rw [update_self, update_of_ne (Ne.symm apart), alive] at gone
        cases gone
      have same := current.symm.trans ended.currentPid
      rw [← running] at same
      exact ⟨running, update_same_iff.mp same⟩
    · obtain ⟨eip, loaded, program⟩ := restarted.control
      exact absurd program (noShell eip loaded)
  · rintro ⟨running, terminals⟩
    refine Or.inl ⟨?_, ?_, ?_⟩
    · rw [progs, running]
    · rw [current, ← running]
      exact update_same_iff.mpr terminals
    · rw [← running]
      exact others

/-- A slot that is taken over is open, whichever process was to be closed. -/
theorem taken_over_ne {progs : Int → Flag} {gone other slot : Int} (alive : progs other = .open)
    (free : slot = gone ∨ progs slot = .close) :
    update (update progs gone .close) slot .open ≠ update progs other .close := by
  intro same
  have reopened := congrFun same slot
  rw [update_self] at reopened
  by_cases here : slot = other
  · rw [here, update_self] at reopened
    cases reopened
  · rw [update_of_ne here] at reopened
    rcases free with own | unused
    · -- then nothing is left to close the other process
      have closed := congrFun same other
      rw [own] at here
      rw [own, update_of_ne (Ne.symm here), update_of_ne (Ne.symm here), alive, update_self] at closed
      cases closed
    · rw [unused] at reopened
      cases reopened

/-- A taken-over slot does not hide which process was closed. -/
theorem gone_eq_of_taken_over {progs : Int → Flag} {gone other slot : Int} (alive : progs other = .open)
    (free : slot = gone ∨ progs slot = .close)
    (same : update (update progs gone .close) slot .open = update (update progs other .close) slot .open) :
    gone = other := by
  by_contra apart
  have unused : slot ≠ other := by
    rintro rfl
    rcases free with own | unused
    · exact apart own.symm
    · rw [alive] at unused
      cases unused
  have closed := congrFun same other
  rw [update_of_ne unused.symm, update_of_ne (Ne.symm apart), update_of_ne unused.symm, update_self, alive] at closed
  cases closed

/-- The running process is gone and a shell has been started for it. -/
theorem replaced_iff {slot : Int} {frame : Frame} {eip : Nat} {loaded : List UInt8}
    (alive : kernel.progs (foreground kernel) = .open)
    (leaves : Left kernel left) (orphan : left.newPid = -1) (starts : Started slot frame left after)
    (closed : left.progs slot = .close) :
    EndsOnly kernel (.program eip loaded) after ↔ kernel.newPid = foreground kernel ∧
      (kernel.schedTerminal = kernel.console.currentTerminal ∨ kernel.currentPid kernel.schedTerminal = -1) := by
  have progs : after.progs = update (update kernel.progs kernel.newPid .close) slot .open := by
    rw [starts.progs, leaves.progs]
  have root : (kernel.pcb kernel.newPid).parentPid = -1 := leaves.newPid.symm.trans orphan
  have current : after.currentPid =
      update (update kernel.currentPid kernel.schedTerminal (-1)) kernel.console.currentTerminal slot := by
    rw [starts.currentPid, leaves.currentPid, leaves.displayed, root]
  have free : slot = kernel.newPid ∨ kernel.progs slot = .close := by
    rw [leaves.progs] at closed
    by_cases own : slot = kernel.newPid
    · exact Or.inl own
    · rw [update_of_ne own] at closed
      exact Or.inr closed
  constructor
  · rintro (ended | ⟨shell, restarted⟩)
    · exact absurd (progs.symm.trans ended.progs) (taken_over_ne alive free)
    · obtain rfl : slot = shell := starts.newPid.symm.trans restarted.newPid
      have running := gone_eq_of_taken_over alive free (progs.symm.trans restarted.progs)
      exact ⟨running, update_update_iff.mp (current.symm.trans restarted.currentPid)⟩
  · rintro ⟨running, terminals⟩
    refine Or.inr ⟨slot, ?_⟩
    constructor
    case root => rw [← running, root]
    case control => exact ⟨eip, loaded, rfl⟩
    case newPid => exact starts.newPid
    case slot => rwa [← running]
    case progs => rw [progs, running]
    case currentPid => rw [current, update_update_iff.mpr terminals]
    case others =>
      intro pid other apart
      rw [starts.others pid apart, leaves.others pid (running ▸ other)]

theorem halt_ends_only_iff (idle : Idle started kernel) (process : 0 ≤ foreground kernel)
    (alive : kernel.progs (foreground kernel) = .open) (inner : Frame) (locals : Locals) :
    (∃ transfer after, kernel.halt image 42 inner locals = some (transfer, after) ∧
      EndsOnly kernel transfer after) ↔ HitsForeground image locals kernel := by
  by_cases running : 0 ≤ kernel.newPid
  · have known := idle.toAccounted.running_range running
    obtain ⟨left, leave⟩ := leave_of_closed (idle.closed known)
    have leaves := leave_left leave
    by_cases orphan : (kernel.pcb kernel.newPid).parentPid = -1
    · have none : (left.announce 42).newPid = -1 := leaves.newPid.trans orphan
      have same : (left.announce 42).newPid = -1 := none
      cases checked : check image Image.shell locals (-1) with
      | rejected ret =>
          have executed : execute image Image.shell inner locals (left.announce 42) =
              some (.returns ret, (left.announce 42).begin) :=
            execute_rejected (same ▸ checked) inner
          rw [Transition.outcome_iff (halt_of_returns running leave none executed)]
          refine Iff.trans (gone_iff alive leaves.progs leaves.currentPid leaves.others nofun) ?_
          rw [orphan]
          have proper : foreground kernel ≠ -1 := by omega
          simp [HitsForeground, orphan, checked, proper]
      | overrun =>
          have executed : execute image Image.shell inner locals (left.announce 42) = Option.none := by
            simp only [execute, same, checked]
          rw [halt_of_none running leave none executed]
          simp [HitsForeground, orphan, checked]
      | passed eip loaded =>
          obtain ⟨slot, free⟩ := (leaves.announce 42).hasSlot (idle.range known)
          by_cases fits : 0x48000 + loaded.length ≤ 0x400000
          · have starts : Starts image Image.shell locals (left.announce 42) slot :=
              ⟨eip, loaded, same ▸ checked, free, fits⟩
            obtain ⟨_, _, after, executed, begun⟩ := execute_started starts inner
            rw [Transition.outcome_iff (halt_of_program running leave none executed)]
            rw [replaced_iff alive (leaves.announce 42) none begun starts.closed]
            simp [HitsForeground, orphan, checked, fits]
          · have executed : execute image Image.shell inner locals (left.announce 42) = Option.none := by
              simp only [execute, same, checked, free, if_pos (Nat.lt_of_not_le fits)]
            rw [halt_of_none running leave none executed]
            simp [HitsForeground, orphan, checked, fits]
    · have parent : left.newPid ≠ -1 := leaves.newPid ▸ orphan
      rw [Transition.outcome_iff (halt_of_parent running leave parent 42 inner locals)]
      refine Iff.trans (gone_iff alive leaves.progs leaves.currentPid leaves.others nofun) ?_
      unfold HitsForeground
      simp only [orphan, ne_eq, not_false_eq_true, forall_const, false_implies, and_true]
      refine and_congr_right fun same => or_congr_right ?_
      rw [← same, and_comm]
      exact and_congr_left fun _ => eq_comm
  · refine iff_of_false ?_ ?_
    · rintro ⟨transfer, after, halted, _⟩
      exact running (halt_cases halted).1
    · rintro ⟨same, _⟩
      omega

/-- In every state that is reached with a process on the displayed terminal, Ctrl+C ends that
process and nothing else exactly under the condition. -/
theorem interrupt_ends_only_iff {image : Image} {layout : Layout} {pcb : Int → Pcb} {rtc : Rtc} {leftovers : Leftovers}
    {inputs : List Input} {kernel : Kernel}
    (reached : Transition.run (fun kernel input => Input.step image layout kernel input)
      (entry layout pcb rtc leftovers) inputs = some kernel)
    (process : 0 ≤ foreground kernel) (alive : kernel.progs (foreground kernel) = .open)
    {scancode beyond : UInt8} (pressed : Console.keyAction kernel.console.keyboard scancode beyond = .interrupt)
    (inner : Frame) (locals : Locals) :
    (∃ transfer after, kernel.key image scancode beyond inner locals = some (transfer, after) ∧
      EndsOnly kernel transfer after) ↔ HitsForeground image locals kernel := by
  obtain ⟨started, idle⟩ := reached_idle reached
  have halts : kernel.key image scancode beyond inner locals = kernel.halt image 42 inner locals := by
    have handled : kernel.console.keyboardIrqHandler scancode beyond = .halts kernel.console := by
      rw [Console.keyboardIrqHandler_eq, pressed]
      rfl
    simp only [key, handled]
    rfl
  rw [halts]
  exact halt_ends_only_iff idle process alive inner locals

end

/-- The key is Ctrl+C. -/
def isInterrupt (keyboard : Keyboard) (scancode beyond : UInt8) : Bool :=
  match Console.keyAction keyboard scancode beyond with
  | .interrupt => true
  | _ => false

theorem keyAction_of_isInterrupt {keyboard : Keyboard} {scancode beyond : UInt8}
    (pressed : isInterrupt keyboard scancode beyond = true) :
    Console.keyAction keyboard scancode beyond = .interrupt := by
  unfold isInterrupt at pressed
  split at pressed
  · assumption
  · cases pressed

/-- The checks of `execute` pass for the shell and it fits. -/
def shellFits (image : Image) (locals : Locals) : Bool :=
  match check image Image.shell locals (-1) with
  | .passed _ loaded => decide (0x48000 + loaded.length ≤ 0x400000)
  | _ => false

/-- Ctrl+C in the first shell. -/
theorem interrupt_ends_only_sample : ∃ kernel transfer after,
    Transition.run (fun kernel input => Input.step Image.sample Layout.sample kernel input) booted
      [.happens (.execute Image.shell ⟨0, 0⟩ .zeros), .key 0x1D 0 ⟨0, 0⟩ .zeros] = some kernel ∧
    kernel.key Image.sample 0x2E 0 ⟨0, 0⟩ .zeros = some (transfer, after) ∧ EndsOnly kernel transfer after := by
  have evaluated : (Transition.run (fun kernel input => Input.step Image.sample Layout.sample kernel input) booted
      [.happens (.execute Image.shell ⟨0, 0⟩ .zeros), .key 0x1D 0 ⟨0, 0⟩ .zeros]).map (fun kernel =>
        (foreground kernel, kernel.newPid, kernel.progs 0, (kernel.pcb 0).parentPid,
          decide (kernel.schedTerminal = kernel.console.currentTerminal),
          isInterrupt kernel.console.keyboard 0x2E 0)) = some (0, 0, .open, -1, true, true) := by
    decide +kernel
  obtain ⟨kernel, ran, values⟩ := Option.map_eq_some_iff.mp evaluated
  obtain ⟨front, running, alive, root, scheduled, pressed⟩ : foreground kernel = 0 ∧ kernel.newPid = 0 ∧
      kernel.progs 0 = .open ∧ (kernel.pcb 0).parentPid = -1 ∧
      kernel.schedTerminal = kernel.console.currentTerminal ∧
      isInterrupt kernel.console.keyboard 0x2E 0 = true := by simpa using values
  have fits : shellFits Image.sample Locals.zeros = true := by decide +kernel
  have condition : HitsForeground Image.sample .zeros kernel := by
    refine ⟨running.trans front.symm, fun _ => Or.inl scheduled, fun _ => ?_⟩
    unfold shellFits at fits
    split at fits
    · rename_i eip loaded passed
      rw [passed]
      exact ⟨of_decide_eq_true fits, Or.inl scheduled⟩
    · cases fits
  obtain ⟨transfer, after, answered, ends⟩ := (interrupt_ends_only_iff ran (by omega) (by rw [front]; exact alive)
    (keyAction_of_isInterrupt pressed) ⟨0, 0⟩ .zeros).mpr condition
  exact ⟨kernel, transfer, after, ran, answered, ends⟩

/-- The shells of two terminals have had their first turns, and the user is back on the first
terminal: Ctrl+C ends the shell of the second. -/
theorem interrupt_hits_other_terminal : ∃ kernel transfer after,
    Transition.run (fun kernel input => Input.step Image.sample Layout.sample kernel input) booted
      [.happens (.execute Image.shell ⟨0, 0⟩ .zeros), .happens (.tick ⟨0, 0⟩ ⟨0, 0⟩ .zeros),
        .happens (.tick ⟨0, 0⟩ ⟨0, 0⟩ .zeros), .happens (.tick ⟨0, 0⟩ ⟨0, 0⟩ .zeros), .happens (.openTerminal 0),
        .key 0x1D 0 ⟨0, 0⟩ .zeros] = some kernel ∧
    foreground kernel = 1 ∧ kernel.progs 1 = .open ∧
    Console.keyAction kernel.console.keyboard 0x2E 0 = .interrupt ∧
    kernel.key Image.sample 0x2E 0 ⟨0, 0⟩ .zeros = some (transfer, after) ∧
    after.progs 1 = .open ∧ after.currentPid 0 = 2 ∧ ¬ EndsOnly kernel transfer after := by
  have evaluated : ((Transition.run (fun kernel input => Input.step Image.sample Layout.sample kernel input) booted
      [.happens (.execute Image.shell ⟨0, 0⟩ .zeros), .happens (.tick ⟨0, 0⟩ ⟨0, 0⟩ .zeros),
        .happens (.tick ⟨0, 0⟩ ⟨0, 0⟩ .zeros), .happens (.tick ⟨0, 0⟩ ⟨0, 0⟩ .zeros), .happens (.openTerminal 0),
        .key 0x1D 0 ⟨0, 0⟩ .zeros]).bind fun kernel =>
        (kernel.key Image.sample 0x2E 0 ⟨0, 0⟩ .zeros).map fun answer =>
          (foreground kernel, kernel.console.currentTerminal, kernel.progs 1,
            isInterrupt kernel.console.keyboard 0x2E 0, answer.2.progs 1, answer.2.currentPid 0)) =
      some (1, 0, .open, true, .open, 2) := by
    decide +kernel
  obtain ⟨kernel, ran, evaluated⟩ := Option.bind_eq_some_iff.mp evaluated
  obtain ⟨⟨transfer, after⟩, answered, values⟩ := Option.map_eq_some_iff.mp evaluated
  obtain ⟨front, shown, alive, pressed, still, entry⟩ : foreground kernel = 1 ∧
      kernel.console.currentTerminal = 0 ∧
      kernel.progs 1 = .open ∧ isInterrupt kernel.console.keyboard 0x2E 0 = true ∧
      after.progs 1 = .open ∧ after.currentPid 0 = 2 := by simpa using values
  refine ⟨kernel, transfer, after, ran, front, alive, keyAction_of_isInterrupt pressed, answered, still, entry, ?_⟩
  rintro (ended | ⟨shell, restarted⟩)
  · have gone := congrFun ended.progs 1
    rw [front, update_self, still] at gone
    cases gone
  · have same : shell = 1 := by
      by_contra apart
      have gone := congrFun restarted.progs 1
      rw [update_of_ne (Ne.symm apart), front, update_self, still] at gone
      cases gone
    have current := congrFun restarted.currentPid 0
    rw [entry, shown, update_self, same] at current
    cases current

end Interrupt

end LinuxLikeOS

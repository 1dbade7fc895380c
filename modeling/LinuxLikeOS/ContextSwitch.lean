import LinuxLikeOS.Kernel
import LinuxLikeOS.Transition

/-!
# The switch between processes

`pit_irq_handler` is to leave the stack pointers of the process it interrupts in the PCB of
that process and to go on with those of the next one. Next to the kernel this module keeps,
for every process, the pair that is due when it is switched in: what it was interrupted with
when it was last switched out, or what `execute` has put into its PCB.
-/

namespace LinuxLikeOS

open Function Kernel

/-- `program_esp` and `program_ebp`. -/
def Pcb.stored (pcb : Pcb) : Frame := ⟨pcb.programEsp, pcb.programEbp⟩

/-- The kernel stack of a process, the PCB at its bottom included. -/
def Frame.OnStack (frame : Frame) (pid : Int) : Prop :=
  0x800000 - 0x2000 * (pid + 1) ≤ (frame.esp : Int) ∧ (frame.esp : Int) < 0x800000 - 0x2000 * pid

/-- The pair of a process that has just been started. -/
def Frame.first (pid : Int) : Frame := ⟨kernelStack pid, kernelStack pid⟩

/-- The stack of one process is not that of another. -/
theorem Frame.OnStack.unique {frame : Frame} {pid other : Int} (here : frame.OnStack pid)
    (there : frame.OnStack other) : pid = other := by
  obtain ⟨low, high⟩ := here
  obtain ⟨otherLow, otherHigh⟩ := there
  omega

namespace ContextSwitch

structure Switching where
  kernel : Kernel
  due : Int → Frame

namespace Switching

variable (state : Switching)

/-- The pairs that are due after an event: the process that was switched out has a new one,
and so has the one that was started. -/
def record (event : Event) (transfer : Transfer) (after : Kernel) : Int → Frame :=
  let out := match event with
    | .tick frame _ _ =>
        if 0 ≤ state.kernel.newPid ∧ after.newPid ≠ state.kernel.newPid then
          update state.due state.kernel.newPid frame
        else state.due
    | _ => state.due
  match transfer with
  | .program _ _ => update out after.newPid (Frame.first after.newPid)
  | _ => out

def step (image : Image) (layout : Layout) (event : Event) : Option Switching :=
  (state.kernel.step image layout event).map fun (transfer, after) =>
    ⟨after, state.record event transfer after⟩

end Switching

/-- A tick that changed `new_pid` has saved the interrupted process and loaded the next one. -/
structure SwitchedRightly (state : Switching) (frame : Frame) (transfer : Transfer) (after : Kernel) :
    Prop where
  /-- The interrupted process finds its pointers in its own PCB. -/
  saved : (after.pcb state.kernel.newPid).stored = frame
  kept : ∀ loaded, transfer = .stack loaded →
    (after.pcb after.newPid).stored = (state.kernel.pcb after.newPid).stored
  loaded : ∀ loaded, transfer = .stack loaded → loaded = state.due after.newPid
  stack : ∀ loaded, transfer = .stack loaded → loaded.OnStack after.newPid
  /-- A process that is started on the way finds the pair of `execute` and its own stack. -/
  first : ∀ eip program, transfer = .program eip program →
    (after.pcb after.newPid).stored = Frame.first after.newPid ∧ after.tss.esp0 = kernelStack after.newPid

def Switched (image : Image) (state : Switching) : Event → Prop
  | .tick frame inner locals => ∀ transfer after,
      state.kernel.pitIrqHandler image frame inner locals = some (transfer, after) →
        0 ≤ state.kernel.newPid → after.newPid ≠ state.kernel.newPid →
          SwitchedRightly state frame transfer after
  | _ => True

/-- The scheduler moves on to another process. -/
def Moves (kernel : Kernel) : Prop :=
  (kernel.terminalArray kernel.tempTerminal).onOffFlag = true ∧
    3 ≤ kernel.currentPid (kernel.tempTerminal + 1) ∧
    kernel.currentPid (kernel.tempTerminal + 1) ≠ kernel.newPid

/-- The tick starts the shell of a terminal on its first turn. -/
def Opens (image : Image) (locals : Locals) (kernel : Kernel) : Prop :=
  (kernel.terminalArray kernel.tempTerminal).onOffFlag = false ∧
    ∃ slot, slot ≠ kernel.newPid ∧ Kernel.Starts image Image.shell locals kernel.firstTurn slot

/-- Both PCBs hold the interrupted pair already, and it is the one that is due. -/
def Coincides (state : Switching) (frame : Frame) (next : Int) : Prop :=
  (state.kernel.pcb state.kernel.newPid).stored = frame ∧ (state.kernel.pcb next).stored = frame ∧
    state.due next = frame ∧ frame.OnStack next

/-- The ticks that do no harm: none that finds the process on its own stack moves on from it. -/
def Harmless (image : Image) (state : Switching) : Event → Prop
  | .tick frame _ locals => 0 ≤ state.kernel.newPid →
      (Moves state.kernel → ¬ frame.OnStack state.kernel.newPid ∧
        Coincides state frame (state.kernel.currentPid (state.kernel.tempTerminal + 1))) ∧
      (Opens image locals state.kernel → (state.kernel.pcb state.kernel.newPid).stored = frame)
  | _ => True

section

variable {state : Switching} {image : Image} {frame inner : Frame} {locals : Locals}

/-- What the end of the tick loads is what it has just saved. -/
theorem switch_loads (frame : Frame) (kernel : Kernel) :
    (Kernel.switch frame kernel).1 = .stack frame := by
  simp [Kernel.switch]

/-- And it is saved in the PCB of the next process. -/
theorem switch_stored (frame : Frame) (kernel : Kernel) (pid : Int) :
    ((Kernel.switch frame kernel).2.pcb pid).stored =
      if pid = kernel.currentPid kernel.schedTerminal then frame else (kernel.pcb pid).stored := by
  rcases eq_or_ne pid (kernel.currentPid kernel.schedTerminal) with rfl | here
  · simp [Kernel.switch, Pcb.stored]
  · simp [Kernel.switch, here]

theorem switched_iff_of_moves
    (moved : (state.kernel.currentPid (state.kernel.tempTerminal + 1)) ≠ state.kernel.newPid) :
    SwitchedRightly state frame (.stack frame)
        (Kernel.switch frame state.kernel.nextTurn.scheduled).2 ↔
      Coincides state frame (state.kernel.currentPid (state.kernel.tempTerminal + 1)) := by
  have next : (Kernel.switch frame state.kernel.nextTurn.scheduled).2.newPid =
      state.kernel.currentPid (state.kernel.tempTerminal + 1) := rfl
  have stored : ∀ pid, ((Kernel.switch frame state.kernel.nextTurn.scheduled).2.pcb pid).stored =
      if pid = state.kernel.currentPid (state.kernel.tempTerminal + 1) then frame
      else (state.kernel.pcb pid).stored :=
    switch_stored frame state.kernel.nextTurn.scheduled
  constructor
  · rintro ⟨saved, kept, loaded, stack, _⟩
    have kept := kept frame rfl
    rw [stored, if_neg (Ne.symm moved)] at saved
    rw [stored, next] at kept
    exact ⟨saved, (kept.symm.trans (if_pos rfl)), (loaded frame rfl).symm, stack frame rfl⟩
  · rintro ⟨saved, held, due, stack⟩
    constructor
    case saved =>
      rw [stored, if_neg (Ne.symm moved)]
      exact saved
    case kept =>
      intro loaded _
      rw [stored, next, held]
      exact if_pos rfl
    case loaded =>
      rintro loaded ⟨⟩
      exact due.symm
    case stack =>
      rintro loaded ⟨⟩
      exact stack
    case first => nofun

theorem switched_iff_of_opens {slot : Int} {after : Kernel}
    (starts : Started slot inner state.kernel.firstTurn after) (other : slot ≠ state.kernel.newPid)
    (eip : Nat) (loaded : List UInt8) :
    SwitchedRightly state frame (.program eip loaded) after ↔
      (state.kernel.pcb state.kernel.newPid).stored = frame := by
  have stored : (after.pcb state.kernel.newPid).stored = (state.kernel.pcb state.kernel.newPid).stored :=
    congrArg Pcb.stored (starts.others _ (Ne.symm other))
  constructor
  · intro right
    exact stored.symm.trans right.saved
  · intro saved
    constructor
    case saved => exact stored.trans saved
    case kept => nofun
    case loaded => nofun
    case stack => nofun
    case first =>
      intro _ _ _
      rw [starts.newPid, Pcb.stored, starts.stored.1, starts.stored.2]
      exact ⟨rfl, starts.stack⟩

/-- Interrupted on its own stack, a process cannot be switched out for another one. -/
theorem not_coincides_of_onStack {next : Int} (own : frame.OnStack state.kernel.newPid)
    (other : next ≠ state.kernel.newPid) : ¬ Coincides state frame next :=
  fun coincides => other (coincides.2.2.2.unique own)

/-- A tick does what it should exactly when it does no harm. -/
theorem switched_iff (image : Image) (state : Switching) (event : Event) :
    Switched image state event ↔ Harmless image state event := by
  cases event with
  | tick frame inner locals =>
      constructor
      · intro right alive
        refine ⟨?_, ?_⟩
        · rintro ⟨seen, busy, moved⟩
          have ticked : state.kernel.pitIrqHandler image frame inner locals =
              some (.stack frame, (Kernel.switch frame state.kernel.nextTurn.scheduled).2) := by
            rw [← switch_loads]
            have notIdle : ¬ state.kernel.nextTurn.currentPid state.kernel.nextTurn.tempTerminal < 3 :=
              Int.not_lt.mpr busy
            simp only [Kernel.pitIrqHandler, if_pos seen, if_neg notIdle]
            rfl
          have coincides := (switched_iff_of_moves moved).mp (right _ _ ticked alive moved)
          exact ⟨fun own => not_coincides_of_onStack own moved coincides, coincides⟩
        · rintro ⟨fresh, slot, other, starts⟩
          obtain ⟨eip, loaded, after, executed, begun⟩ := Kernel.execute_started starts inner
          have ticked : state.kernel.pitIrqHandler image frame inner locals =
              some (.program eip loaded, after) := by
            simp only [Kernel.pitIrqHandler, fresh, executed]
            rfl
          have moved : after.newPid ≠ state.kernel.newPid := begun.newPid ▸ other
          exact (switched_iff_of_opens begun other eip loaded).mp (right _ _ ticked alive moved)
      · intro harmless transfer after ticked alive moved
        obtain ⟨moves, opens⟩ := harmless alive
        rcases Kernel.tick_cases ticked with ⟨seen, ⟨_, _, rfl⟩ | ⟨busy, switched⟩⟩ |
          ⟨fresh, inside, started, executed, answer⟩
        · exact absurd rfl moved
        · obtain ⟨rfl, rfl⟩ := Prod.mk.inj ((Prod.eta _).trans switched)
          rw [switch_loads]
          exact (switched_iff_of_moves moved).mpr (moves ⟨seen, busy, moved⟩).2
        · rcases Kernel.execute_cases executed with ⟨_, ret, oldPid, rfl, rfl⟩ |
            ⟨slot, starts, begun, eip, loaded, rfl⟩
          · rcases answer with ⟨_, _, _, rfl⟩ | ⟨_, _, notReturn⟩
            · exact absurd rfl moved
            · exact absurd rfl (notReturn ret)
          · rcases answer with ⟨_, returned, _⟩ | ⟨rfl, rfl, _⟩
            · cases returned
            · rw [begun.newPid] at moved
              exact (switched_iff_of_opens begun moved eip loaded).mpr (opens ⟨fresh, slot, moved, starts⟩)
  | execute command frame locals => exact Iff.rfl
  | halt status inner locals => exact Iff.rfl
  | vidmap screenStart => exact Iff.rfl
  | openTerminal terminalId => exact Iff.rfl

end

/-- The switches of a run are right exactly when each tick of it is harmless. -/
theorem switches_rightly_iff (image : Image) (layout : Layout) (start : Switching) (events : List Event) :
    Transition.EachStep (fun state => Switching.step state image layout) (Switched image) start events ↔
      Transition.EachStep (fun state => Switching.step state image layout) (Harmless image) start events :=
  Transition.eachStep_iff _ (fun _ => True) (fun state event _ => switched_iff image state event)
    (fun _ _ _ _ _ _ => trivial) trivial events

/-- The interrupted pair in the handler when it finds a process in user code. -/
def interrupted (pid : Int) : Frame := ⟨kernelStack pid - 64, kernelStack pid - 60⟩

def sampleTick (pid : Int) : Event := .tick (interrupted pid) ⟨0, 0⟩ .zeros

/-- Five programs run on the first terminal, the last one started by the timer, and one on the
second when the third cannot have its shell. -/
def samplePast : List Event :=
  List.replicate 4 (.execute Image.shell ⟨0, 0⟩ .zeros) ++
    [sampleTick 3, sampleTick 4, sampleTick 4, sampleTick 5, sampleTick 5]

/-- The next tick gives the number 5 up for 4 and stays on the stack of 5. -/
theorem switch_loads_what_it_saved :
    ¬ Transition.EachStep (fun state => Switching.step state Image.sample Layout.sample) (Switched Image.sample)
      ⟨booted, fun _ => ⟨0, 0⟩⟩ (samplePast ++ [sampleTick 5]) := by
  intro holds
  have evaluated : (Transition.run (fun state => Switching.step state Image.sample Layout.sample)
      ⟨booted, fun _ => ⟨0, 0⟩⟩ samplePast).map (fun state =>
        (state.kernel.newPid, (state.kernel.terminalArray state.kernel.tempTerminal).onOffFlag,
          state.kernel.currentPid (state.kernel.tempTerminal + 1))) = some (5, true, 4) := by
    decide +kernel
  obtain ⟨middle, ran, values⟩ := Option.map_eq_some_iff.mp evaluated
  obtain ⟨running, seen, next⟩ : middle.kernel.newPid = 5 ∧
      (middle.kernel.terminalArray middle.kernel.tempTerminal).onOffFlag = true ∧
      middle.kernel.currentPid (middle.kernel.tempTerminal + 1) = 4 := by simpa using values
  have harmless := (switched_iff Image.sample middle _).mp (Transition.eachStep_last _ holds ran)
  have moves : Moves middle.kernel := by
    refine ⟨seen, ?_, ?_⟩ <;> rw [next]
    · decide
    · rw [running]
      decide
  have own : (interrupted 5).OnStack middle.kernel.newPid := by
    rw [running]
    exact ⟨by decide, by decide⟩
  exact ((harmless (by omega)).1 moves).1 own

end ContextSwitch

end LinuxLikeOS

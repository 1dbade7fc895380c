import LinuxLikeOS.Kernel
import Mathlib.Logic.Relation

/-!
# What an event consists of

Every function of the kernel changes the state in a few ways only, one after the other. A
property that survives each of these changes survives every event and every key.
-/

namespace LinuxLikeOS

open Function

namespace Console

/-- What is done to a console. -/
inductive Change : Console → Console → Prop where
  | putc (console : Console) (c : UInt8) : Change console (console.putc c)
  | delC (console : Console) : Change console console.delC
  | clearScreen (console : Console) : Change console console.clearScreen
  | openTerminal (console : Console) (terminalId : Int) : Change console (console.openTerminal terminalId)
  | keyboard (console : Console) (keyboard : Keyboard) : Change console { console with keyboard := keyboard }

/-- One after the other. -/
def Changes : Console → Console → Prop := Relation.ReflTransGen Change

theorem Changes.refl (console : Console) : Changes console console := Relation.ReflTransGen.refl

theorem Changes.trans {first second third : Console} (before : Changes first second)
    (after : Changes second third) : Changes first third := Relation.ReflTransGen.trans before after

/-- What each change keeps, all of them keep. -/
theorem Changes.preserves {P : Console → Prop} {before after : Console} (changes : Changes before after)
    (each : ∀ console next, Change console next → P console → P next) (initial : P before) : P after := by
  induction changes with
  | refl => exact initial
  | tail _ last ih => exact each _ _ last ih

theorem Change.once {before after : Console} (change : Change before after) : Changes before after :=
  Relation.ReflTransGen.single change

theorem changes_puts (console : Console) (text : List UInt8) : Changes console (console.puts text) := by
  induction text generalizing console with
  | nil => exact Changes.refl console
  | cons c rest ih => exact (Change.putc console c).once.trans (ih (console.putc c))

theorem changes_terminalWrite (console : Console) (buf : Memory) (nbytes : Int) :
    Changes console (console.terminalWrite buf nbytes) := by
  unfold terminalWrite
  generalize (List.range nbytes.toNat).map buf = text
  induction text generalizing console with
  | nil => exact Changes.refl console
  | cons c rest ih => exact (Change.putc console c).once.trans (ih (console.putc c))

theorem changes_backspace (console : Console) : Changes console console.backspace := by
  have erased : ∀ {first second : Console}, Changes first second → Changes first second.delC :=
    fun before => before.trans (Change.delC _).once
  have stored : ∀ {second : Console} (buffer : LineBuffer), Changes console second →
      Changes console (second.setShown buffer) :=
    fun _ before => before.trans (Change.keyboard _ _).once
  have start := Changes.refl console
  unfold backspace
  simp only []
  split
  · split
    · exact stored _ (erased (erased (erased (erased (erased start)))))
    · exact stored _ (erased start)
  · exact start

theorem changes_typeByte (console : Console) (limit : Nat) (pressed : UInt8) :
    Changes console (console.typeByte limit pressed) := by
  unfold typeByte
  split
  · exact (Change.putc console pressed).once.trans (Change.keyboard _ _).once
  · exact Changes.refl console

theorem changes_enter (console : Console) (pressed : UInt8) : Changes console (console.enter pressed) := by
  unfold enter
  split
  · exact (changes_typeByte console 128 pressed).trans (Change.keyboard _ _).once
  · exact Changes.refl console

/-- Every action, Ctrl+C up to the call of `halt`. -/
theorem changes_perform (console : Console) (action : KeyAction) :
    match console.perform action with
    | .returns after | .halts after => Changes console after := by
  cases action with
  | modifier caps shift ctrl alt => exact (Change.keyboard _ _).once
  | ignored => exact Changes.refl console
  | erase => exact changes_backspace console
  | clear => exact (Change.clearScreen console).once
  | interrupt => exact Changes.refl console
  | newline pressed => exact changes_enter console pressed
  | switch terminal => exact (Change.openTerminal _ _).once
  | type pressed => exact changes_typeByte console 127 pressed

theorem changes_key {console after : Console} {scancode beyond : UInt8}
    (handled : console.keyboardIrqHandler scancode beyond = .returns after ∨
      console.keyboardIrqHandler scancode beyond = .halts after) : Changes console after := by
  have changes := changes_perform console (keyAction console.keyboard scancode beyond)
  rw [keyboardIrqHandler_eq] at handled
  rcases handled with same | same <;> rw [same] at changes <;> exact changes

end Console

namespace Kernel

/-- `keyboard_irq_handler`; Ctrl+C calls `halt(USER_HALT)`, and `inner` are ESP and EBP in the
`execute` that restarts a shell. -/
def key (image : Image) (scancode beyond : UInt8) (inner : Frame) (locals : Locals) (kernel : Kernel) :
    Option (Transfer × Kernel) :=
  match kernel.console.keyboardIrqHandler scancode beyond with
  | .returns console => some (.returns 0, kernel.withConsole console)
  | .halts console => (kernel.withConsole console).halt image 42 inner locals

/-- What is done to the state. -/
inductive Effect : Kernel → Kernel → Prop where
  | console {kernel : Kernel} {console : Console} (change : Console.Change kernel.console console) :
      Effect kernel (kernel.withConsole console)
  | oldPid (kernel : Kernel) (pid : Int) : Effect kernel (kernel.setOldPid pid)
  | start {kernel : Kernel} {slot : Int} (free : freeSlot kernel.progs = some slot) (command : CString)
      (frame : Frame) : Effect kernel (kernel.begin.start slot command frame)
  | leave {kernel left : Kernel} (running : 0 ≤ kernel.newPid) (leaves : kernel.leave = some left) :
      Effect kernel left
  | resume (kernel : Kernel) : Effect kernel kernel.resume
  | seen (kernel : Kernel) : Effect kernel { kernel with
      terminalArray := update kernel.terminalArray kernel.tempTerminal
        { kernel.terminalArray kernel.tempTerminal with onOffFlag := true } }
  | nextTurn (kernel : Kernel) : Effect kernel kernel.nextTurn
  | switch {kernel : Kernel} (busy : 3 ≤ kernel.currentPid kernel.tempTerminal) (frame : Frame) :
      Effect kernel (switch frame kernel.scheduled).2
  | vidmap {kernel : Kernel} (running : 0 ≤ kernel.newPid) (layout : Layout) (screenStart : Nat) :
      Effect kernel (kernel.vidmap layout screenStart).2

/-- One after the other. -/
def Effects : Kernel → Kernel → Prop := Relation.ReflTransGen Effect

section

variable {kernel middle after : Kernel} {image : Image} {transfer : Transfer}

theorem Effects.refl (kernel : Kernel) : Effects kernel kernel := Relation.ReflTransGen.refl

theorem Effects.trans (first : Effects kernel middle) (second : Effects middle after) : Effects kernel after :=
  Relation.ReflTransGen.trans first second

theorem Effect.once (effect : Effect kernel after) : Effects kernel after := Relation.ReflTransGen.single effect

/-- What each change keeps, all of them keep. -/
theorem Effects.preserves {P : Kernel → Prop} (effects : Effects kernel after)
    (each : ∀ before next, Effect before next → P before → P next) (initial : P kernel) : P after := by
  induction effects with
  | refl => exact initial
  | tail _ last ih => exact each _ _ last ih

theorem effects_withConsole {console : Console} (changes : Console.Changes kernel.console console) :
    Effects kernel (kernel.withConsole console) := by
  induction changes with
  | refl => exact Effects.refl kernel
  | @tail middle after _ last ih =>
      have next : Effect (kernel.withConsole middle) ((kernel.withConsole middle).withConsole after) :=
        Effect.console last
      exact ih.trans next.once

theorem effects_begin (kernel : Kernel) : Effects kernel kernel.begin :=
  effects_withConsole ((Console.Change.putc _ 10).once.trans (Console.Change.keyboard _ _).once)

theorem effects_announce (status : UInt8) (kernel : Kernel) : Effects kernel (kernel.announce status) := by
  refine effects_withConsole (Console.Changes.trans ?_ (Console.Change.putc _ 10).once)
  split
  · exact Console.changes_puts _ _
  · exact Console.Changes.refl _

theorem effects_openTerminal (kernel : Kernel) (terminalId : Int) :
    Effects kernel (kernel.openTerminal terminalId) :=
  effects_withConsole (Console.Change.openTerminal _ terminalId).once

theorem execute_effects {command : CString} {frame : Frame} {locals : Locals}
    (executed : kernel.execute image command frame locals = some (transfer, after)) : Effects kernel after := by
  unfold execute at executed
  split at executed
  · obtain ⟨_, rfl⟩ := Prod.mk.inj (Option.some.inj executed)
    exact effects_begin kernel
  · cases executed
  · split at executed
    · obtain ⟨_, rfl⟩ := Prod.mk.inj (Option.some.inj executed)
      exact (effects_begin kernel).trans (Effect.oldPid _ _).once
    · rename_i slot free
      split at executed
      · cases executed
      · obtain ⟨_, rfl⟩ := Prod.mk.inj (Option.some.inj executed)
        exact (Effect.start free command frame).once

theorem halt_effects {status : UInt8} {inner : Frame} {locals : Locals}
    (halted : kernel.halt image status inner locals = some (transfer, after)) : Effects kernel after := by
  obtain ⟨running, left, leaves, cases⟩ := halt_leaves halted
  have told := (Effect.leave running leaves).once.trans (effects_announce status left)
  rcases cases with ⟨_, rfl, _⟩ | ⟨_, inside, started, executed, ⟨_, _, rfl⟩ | ⟨_, rfl, _⟩⟩
  · exact told.trans (Effect.resume _).once
  · exact told.trans ((execute_effects executed).trans (Effect.resume _).once)
  · exact told.trans (execute_effects executed)

theorem tick_effects {frame inner : Frame} {locals : Locals}
    (ticked : kernel.pitIrqHandler image frame inner locals = some (transfer, after)) : Effects kernel after := by
  rcases tick_cases ticked with ⟨_, ⟨_, _, rfl⟩ | ⟨busy, switched⟩⟩ | ⟨_, inside, started, executed, answer⟩
  · exact (Effect.nextTurn kernel).once
  · have next : Effect kernel.nextTurn (switch frame kernel.nextTurn.scheduled).2 := Effect.switch busy frame
    rw [switched] at next
    exact (Effect.nextTurn kernel).once.trans next.once
  · have first : Effects kernel kernel.firstTurn := (Effect.seen kernel).once.trans (effects_openTerminal _ _)
    have begun := first.trans (execute_effects executed)
    rcases answer with ⟨_, _, _, rfl⟩ | ⟨_, rfl, _⟩
    · exact begun.trans (effects_openTerminal _ _)
    · exact begun

theorem step_effects {layout : Layout} {event : Event}
    (taken : kernel.step image layout event = some (transfer, after)) : Effects kernel after := by
  cases event with
  | execute command frame locals => exact execute_effects taken
  | halt status inner locals => exact halt_effects taken
  | vidmap screenStart =>
      simp only [step] at taken
      split at taken
      · cases taken
      · rename_i running
        obtain ⟨_, rfl⟩ := Prod.mk.inj (Option.some.inj taken)
        exact (Effect.vidmap (Int.not_lt.mp running) layout screenStart).once
  | openTerminal terminalId =>
      obtain ⟨_, rfl⟩ := Prod.mk.inj (Option.some.inj taken)
      exact effects_openTerminal kernel terminalId
  | tick frame inner locals => exact tick_effects taken

theorem exception_effects {exceptionId : Nat} {inner : Frame} {locals : Locals}
    (handled : kernel.exceptionHandler image exceptionId inner locals = some (transfer, after)) :
    Effects kernel after := by
  unfold exceptionHandler at handled
  split at handled
  · obtain ⟨_, rfl⟩ := Prod.mk.inj (Option.some.inj handled)
    exact Effects.refl kernel
  · exact (effects_withConsole (Console.changes_puts _ _)).trans (halt_effects handled)

theorem key_effects {scancode beyond : UInt8} {inner : Frame} {locals : Locals}
    (pressed : kernel.key image scancode beyond inner locals = some (transfer, after)) : Effects kernel after := by
  unfold key at pressed
  split at pressed
  · rename_i console handled
    obtain ⟨_, rfl⟩ := Prod.mk.inj (Option.some.inj pressed)
    exact effects_withConsole (Console.changes_key (Or.inl handled))
  · rename_i console handled
    exact (effects_withConsole (Console.changes_key (Or.inr handled))).trans (halt_effects pressed)

/-- The screen of what is left when a process is gone. -/
theorem leave_console {left : Kernel} (leaves : kernel.leave = some left) :
    ∃ keyboard, left.console = { kernel.console with keyboard := keyboard } := by
  obtain ⟨task, closed, rfl⟩ := Option.map_eq_some_iff.mp leaves
  exact closeAll_console closed

/-- Whatever is done to the state is done to its console step by step. -/
theorem Effect.changes (effect : Effect kernel after) : Console.Changes kernel.console after.console := by
  cases effect with
  | console change => exact change.once
  | oldPid pid => exact Console.Changes.refl _
  | start free command frame => exact (Console.Change.putc _ 10).once.trans (Console.Change.keyboard _ _).once
  | leave running leaves =>
      obtain ⟨keyboard, same⟩ := leave_console leaves
      rw [same]
      exact (Console.Change.keyboard _ keyboard).once
  | resume => exact Console.Changes.refl _
  | seen => exact Console.Changes.refl _
  | nextTurn => exact Console.Changes.refl _
  | switch busy frame => exact Console.Changes.refl _
  | vidmap running layout screenStart =>
      unfold Kernel.vidmap
      split <;> exact Console.Changes.refl _

theorem Effects.changes (effects : Effects kernel after) : Console.Changes kernel.console after.console := by
  induction effects with
  | refl => exact Console.Changes.refl _
  | tail _ last ih => exact ih.trans last.changes

/-- The descriptors of what is left, if none was open. -/
theorem leave_fds {left : Kernel} (leaves : kernel.leave = some left)
    (closed : ∀ fd : Fin 8, 2 ≤ fd.val → ((kernel.pcb kernel.newPid).systemcallFdArray fd).flags = .close) :
    (left.pcb kernel.newPid).systemcallFdArray = (kernel.pcb kernel.newPid).systemcallFdArray := by
  obtain ⟨task, all, rfl⟩ := Option.map_eq_some_iff.mp leaves
  have same : closeAll { kernel with progs := update kernel.progs kernel.newPid .close }.task = _ :=
    closeAll_of_closed closed
  obtain rfl := Option.some.inj (same.symm.trans all)
  simp [setTask, task]

end

end Kernel

end LinuxLikeOS

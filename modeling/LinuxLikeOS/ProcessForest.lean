import LinuxLikeOS.Kernel
import LinuxLikeOS.ParentForest
import LinuxLikeOS.Transition

/-!
# The forest of processes

The slots that are open, their `parent_pid` and the `terminal_current_pid` of the terminals
are to be a forest whose chains start at the terminals. `execute` puts its process on the
chain of the displayed terminal, `halt` takes one from that of the scheduled terminal, and
slots below 3 get no parent. For each event this module says when the forest survives it.
-/

namespace LinuxLikeOS

open Function Kernel ParentForest

/-- -1 stands for no process. -/
def process (pid : Int) : Option Int := if pid = -1 then none else some pid

theorem process_eq_none {pid : Int} : process pid = none ↔ pid = -1 := by
  simp [process]

theorem process_eq_some {pid other : Int} (proper : other ≠ -1) :
    process pid = some other ↔ pid = other := by
  unfold process
  split
  · rename_i none
    constructor
    · nofun
    · intro same
      exact absurd (same.symm.trans none) proper
  · exact Option.some.injEq pid other ▸ Iff.rfl

namespace ProcessForest

def Live (kernel : Kernel) (pid : Int) : Prop := (0 ≤ pid ∧ pid ≤ 5) ∧ kernel.progs pid = .open

def parent (kernel : Kernel) (pid : Int) : Option Int := process (kernel.pcb pid).parentPid

def head (kernel : Kernel) (terminal : Terminal) : Option Int := process (kernel.currentPid terminal)

/-- Terminals and parents name live processes, and every live process is on the chain of
exactly one terminal. -/
def Forested (kernel : Kernel) : Prop := Forest (Live kernel) (parent kernel) (head kernel)

/-- Output, input, the mapping of a page and `old_pid` do not matter. -/
@[simp] theorem forested_withConsole {kernel : Kernel} {console : Console} :
    Forested (kernel.withConsole console) ↔ Forested kernel := Iff.rfl

@[simp] theorem forested_begin {kernel : Kernel} : Forested kernel.begin ↔ Forested kernel :=
  forested_withConsole

@[simp] theorem forested_announce {kernel : Kernel} {status : UInt8} :
    Forested (kernel.announce status) ↔ Forested kernel :=
  forested_withConsole

@[simp] theorem forested_openTerminal {kernel : Kernel} {terminalId : Int} :
    Forested (kernel.openTerminal terminalId) ↔ Forested kernel :=
  forested_withConsole

@[simp] theorem forested_resume {kernel : Kernel} : Forested kernel.resume ↔ Forested kernel := Iff.rfl

@[simp] theorem forested_setOldPid {kernel : Kernel} {oldPid : Int} :
    Forested (kernel.setOldPid oldPid) ↔ Forested kernel := Iff.rfl

@[simp] theorem forested_firstTurn {kernel : Kernel} : Forested kernel.firstTurn ↔ Forested kernel := by
  have heads : head kernel.firstTurn = head kernel := by
    unfold head
    rw [firstTurn_currentPid]
  unfold Forested
  rw [heads]
  exact Iff.rfl

/-- The running process is live, and no live process has a file open. -/
structure Settled (kernel : Kernel) : Prop where
  running : kernel.newPid = -1 ∨ Live kernel kernel.newPid
  closed : ∀ pid, Live kernel pid → ∀ fd : Fin 8, 2 ≤ fd.val →
    ((kernel.pcb pid).systemcallFdArray fd).flags = .close

/-! ## When the forest survives -/

/-- The slot may be used for a process on the terminal: it is not one of the first three, or
nothing runs there. -/
def Placeable (kernel : Kernel) (terminal : Terminal) (slot : Int) : Prop :=
  3 ≤ slot ∨ kernel.currentPid terminal = -1

/-- The slot may be used for the shell that follows the running process: the process is
current where `halt` takes it from and the slot suits the displayed terminal, or both belong
to the displayed terminal and the scheduled one is empty. -/
def Replaceable (kernel : Kernel) (slot : Int) : Prop :=
  let own := kernel.currentPid kernel.schedTerminal
  let shown := kernel.currentPid kernel.console.currentTerminal
  (own = kernel.newPid ∧
    (3 ≤ slot ∨ kernel.console.currentTerminal = kernel.schedTerminal ∨ shown = -1)) ∨
  (slot < 3 ∧ own = -1 ∧ shown = kernel.newPid)

/-- What the checks of `execute` see when a shell is to follow the running process. -/
def vacated (kernel : Kernel) : Kernel :=
  { kernel with newPid := -1, progs := update kernel.progs kernel.newPid .close }

/-- The condition on an event. -/
def Keeps (image : Image) (kernel : Kernel) : Event → Prop
  | .execute command _ locals => ∀ slot, Starts image command locals kernel slot →
      Placeable kernel kernel.console.currentTerminal slot
  | .halt _ _ locals => 0 ≤ kernel.newPid →
      ((kernel.pcb kernel.newPid).parentPid ≠ -1 → kernel.currentPid kernel.schedTerminal = kernel.newPid) ∧
      ((kernel.pcb kernel.newPid).parentPid = -1 →
        (∀ ret, check image Image.shell locals (-1) = .rejected ret →
          kernel.currentPid kernel.schedTerminal = kernel.newPid) ∧
        ∀ slot, Starts image Image.shell locals (vacated kernel) slot → Replaceable kernel slot)
  | .tick _ _ locals => (kernel.terminalArray kernel.tempTerminal).onOffFlag = false →
      ∀ slot, Starts image Image.shell locals kernel slot → Placeable kernel kernel.tempTerminal slot
  | .vidmap _ | .openTerminal _ => True

section

variable {kernel left after : Kernel} {image : Image} {slot : Int} {command : CString} {frame : Frame}

/-! ## Starting a process -/

theorem start_live (starts : Started slot frame kernel after) (range : 0 ≤ slot ∧ slot ≤ 5) :
    Live after = fun pid => pid = slot ∨ Live kernel pid := by
  funext pid
  unfold Live
  rw [starts.progs]
  rcases eq_or_ne pid slot with rfl | here
  · simp [range]
  · simp [here]

theorem start_parent (starts : Started slot frame kernel after) :
    parent after = update (parent kernel) slot
    (if slot < 3 then none else head kernel kernel.console.currentTerminal) := by
  funext pid
  unfold parent
  rcases eq_or_ne pid slot with rfl | here
  · rw [starts.parent, update_self]
    split <;> rfl
  · rw [starts.others pid here, update_of_ne here]

theorem start_head (starts : Started slot frame kernel after) (range : 0 ≤ slot ∧ slot ≤ 5) :
    head after = update (head kernel) kernel.console.currentTerminal (some slot) := by
  have proper : slot ≠ -1 := by omega
  funext terminal
  unfold head
  rw [starts.currentPid]
  by_cases here : terminal = kernel.console.currentTerminal
  · rw [here, update_self, update_self, process_eq_some proper]
  · rw [update_of_ne here, update_of_ne here]

theorem not_live_of_closed (closed : kernel.progs slot = .close) : ¬ Live kernel slot := by
  rintro ⟨_, opened⟩
  rw [closed] at opened
  cases opened

/-- A process in one of the first three slots needs a terminal of its own. -/
theorem start_forested_iff (forest : Forested kernel) (starts : Started slot frame kernel after)
    (range : 0 ≤ slot ∧ slot ≤ 5) (closed : kernel.progs slot = .close) :
    Forested after ↔ Placeable kernel kernel.console.currentTerminal slot := by
  have fresh := not_live_of_closed closed
  unfold Forested Placeable
  rw [start_live starts range, start_parent starts, start_head starts range]
  by_cases shell : slot < 3
  · rw [if_pos shell, forest.push_root_iff fresh, head, process_eq_none]
    constructor
    · exact Or.inr
    · intro placeable
      exact placeable.resolve_left (by omega)
  · rw [if_neg shell]
    exact iff_of_true (forest.push fresh) (Or.inl (by omega))

/-! ## Ending a process -/

theorem left_live (leaves : Left kernel left) :
    Live left = fun pid => Live kernel pid ∧ pid ≠ kernel.newPid := by
  funext pid
  unfold Live
  rw [leaves.progs]
  rcases eq_or_ne pid kernel.newPid with rfl | here
  · simp
  · simp [here]

theorem left_parent (leaves : Left kernel left) : parent left = parent kernel := by
  funext pid
  unfold parent
  by_cases here : pid = kernel.newPid
  · obtain ⟨fds, own⟩ := leaves.own
    rw [here, own]
  · rw [leaves.others pid here]

theorem left_head (leaves : Left kernel left) :
    head left = update (head kernel) kernel.schedTerminal (parent kernel kernel.newPid) := by
  funext terminal
  unfold head
  rw [leaves.currentPid]
  by_cases here : terminal = kernel.schedTerminal
  · rw [here, update_self, update_self]
    rfl
  · rw [update_of_ne here, update_of_ne here]

/-- A process can only be taken from the terminal that it is current on. -/
theorem left_forested_iff (forest : Forested kernel) (alive : Live kernel kernel.newPid)
    (leaves : Left kernel left) :
    Forested left ↔ kernel.currentPid kernel.schedTerminal = kernel.newPid := by
  have proper : kernel.newPid ≠ -1 := by
    have range := alive.1
    omega
  unfold Forested
  rw [left_live leaves, left_parent leaves, left_head leaves, forest.pop_iff alive, head, process_eq_some proper]

/-- Once a first shell has left, the displayed terminal is free where it was or where the
shell was accounted for. -/
theorem displayed_free_iff (leaves : Left kernel left) (orphan : left.newPid = -1) :
    left.currentPid left.console.currentTerminal = -1 ↔
      kernel.console.currentTerminal = kernel.schedTerminal ∨
        kernel.currentPid kernel.console.currentTerminal = -1 := by
  rw [leaves.currentPid, leaves.displayed, ← leaves.newPid, orphan]
  by_cases here : kernel.console.currentTerminal = kernel.schedTerminal
  · rw [here, update_self]
    simp
  · rw [update_of_ne here]
    simp [here]

theorem replaced_forested_iff (forest : Forested kernel) (alive : Live kernel kernel.newPid)
    (leaves : Left kernel left) (orphan : left.newPid = -1) (starts : Started slot frame left after)
    (range : 0 ≤ slot ∧ slot ≤ 5) (closed : left.progs slot = .close) :
    Forested after ↔ Replaceable kernel slot := by
  have nonneg := alive.1
  have proper : kernel.newPid ≠ -1 := by omega
  have root : parent kernel kernel.newPid = none := process_eq_none.mpr (leaves.newPid.symm.trans orphan)
  have fresh : ¬ (Live kernel slot ∧ slot ≠ kernel.newPid) := by
    have dead := not_live_of_closed closed
    rwa [left_live leaves] at dead
  have own : head kernel kernel.schedTerminal = some kernel.newPid ↔
      kernel.currentPid kernel.schedTerminal = kernel.newPid := process_eq_some proper
  by_cases top : kernel.currentPid kernel.schedTerminal = kernel.newPid
  · -- the process is the top of its chain, so it goes first and the shell is put on then
    have remaining : Forested left := (left_forested_iff forest alive leaves).mpr top
    rw [start_forested_iff remaining starts range closed]
    unfold Placeable Replaceable
    rw [displayed_free_iff leaves orphan]
    constructor
    · intro placeable
      exact Or.inl ⟨top, placeable⟩
    · rintro (⟨_, placeable⟩ | ⟨_, empty, _⟩)
      · exact placeable
      · omega
  · have misplaced := forest.misplaced_root_iff (d := kernel.console.currentTerminal) alive root
      (fun found => top (own.mp found)) fresh (slot < 3)
    unfold Forested Replaceable
    rw [start_live starts range, start_parent starts, start_head starts range, left_live leaves, left_parent leaves,
      left_head leaves, root, leaves.displayed]
    have heads : Forest (fun pid => pid = slot ∨ Live kernel pid ∧ pid ≠ kernel.newPid)
        (update (parent kernel) slot
          (if slot < 3 then none else head left kernel.console.currentTerminal))
        (update (update (head kernel) kernel.schedTerminal none) kernel.console.currentTerminal (some slot)) ↔
        slot < 3 ∧ kernel.currentPid kernel.schedTerminal = -1 ∧
          kernel.currentPid kernel.console.currentTerminal = kernel.newPid := by
      rw [left_head leaves, root, misplaced, head, head, process_eq_none, process_eq_some proper]
    rw [left_head leaves, root] at heads
    rw [heads]
    constructor
    · exact Or.inr
    · rintro (⟨found, _⟩ | placed)
      · exact absurd found top
      · exact placed

/-! ## What every event keeps -/

theorem start_settled (settled : Settled kernel) (starts : Started slot frame kernel after)
    (range : 0 ≤ slot ∧ slot ≤ 5) : Settled after where
  running := by
    rw [start_live starts range, starts.newPid]
    exact Or.inr (Or.inl rfl)
  closed := by
    intro pid alive
    rw [start_live starts range] at alive
    by_cases here : pid = slot
    · rw [here]
      exact starts.fds
    · rw [starts.others pid here]
      exact settled.closed pid (alive.resolve_left here)

theorem left_settled (forest : Forested kernel) (settled : Settled kernel)
    (alive : Live kernel kernel.newPid)
    (leaves : Left kernel left) : Settled left where
  running := by
    rw [left_live leaves, leaves.newPid]
    by_cases orphan : (kernel.pcb kernel.newPid).parentPid = -1
    · exact Or.inl orphan
    · have link : parent kernel kernel.newPid = some (kernel.pcb kernel.newPid).parentPid :=
        (process_eq_some orphan).mpr rfl
      refine Or.inr ⟨forest.next_live alive link, fun same => ?_⟩
      exact forest.not_self_link alive (link.trans (congrArg some same))
  closed := by
    intro pid remaining fd other
    rw [left_live leaves] at remaining
    rw [leaves.others pid remaining.2]
    exact settled.closed pid remaining.1 fd other

theorem switch_parent (frame : Frame) (kernel : Kernel) :
    parent (switch frame kernel).2 = parent kernel := by
  funext pid
  obtain ⟨esp, ebp, same⟩ := switch_pcb frame kernel pid
  unfold parent
  rw [same]

theorem switch_settled (forest : Forested kernel) (settled : Settled kernel) (frame : Frame)
    (busy : 3 ≤ kernel.currentPid kernel.schedTerminal) : Settled (switch frame kernel).2 where
  running := by
    have proper : kernel.currentPid kernel.schedTerminal ≠ -1 := by omega
    exact Or.inr (forest.head_live ((process_eq_some proper).mpr rfl))
  closed := by
    intro pid alive fd other
    obtain ⟨esp, ebp, same⟩ := switch_pcb frame kernel pid
    rw [same]
    exact settled.closed pid alive fd other

theorem Settled.withConsole (settled : Settled kernel) (console : Console) :
    Settled (kernel.withConsole console) := ⟨settled.running, settled.closed⟩

theorem Settled.resume (settled : Settled kernel) : Settled kernel.resume :=
  ⟨settled.running, settled.closed⟩

theorem execute_settled (settled : Settled kernel) {locals : Locals} {transfer : Transfer}
    {after : Kernel}
    (executed : kernel.execute image command frame locals = some (transfer, after)) : Settled after := by
  rcases execute_cases executed with ⟨_, ret, oldPid, _, rfl⟩ | ⟨slot, starts, begun, _⟩
  · exact ⟨settled.running, settled.closed⟩
  · exact start_settled settled begun starts.range

theorem Settled.alive (settled : Settled kernel) (running : 0 ≤ kernel.newPid) :
    Live kernel kernel.newPid :=
  settled.running.resolve_left (by omega)

theorem halt_settled (forest : Forested kernel) (settled : Settled kernel) {status : UInt8}
    {inner : Frame}
    {locals : Locals} {transfer : Transfer} {after : Kernel}
    (halted : kernel.halt image status inner locals = some (transfer, after)) : Settled after := by
  obtain ⟨running, left, leaves, answer⟩ := halt_cases halted
  have remaining := left_settled forest settled (settled.alive running) leaves
  have told : Settled (left.announce status) := remaining.withConsole _
  rcases answer with ⟨_, rfl, _⟩ | ⟨_, inside, started, executed, answer⟩
  · exact told.resume
  · have begun := execute_settled told executed
    rcases answer with ⟨_, _, rfl⟩ | ⟨_, rfl, _⟩
    · exact begun.resume
    · exact begun

theorem tick_settled (forest : Forested kernel) (settled : Settled kernel) {inner : Frame}
    {locals : Locals}
    {transfer : Transfer} {after : Kernel}
    (ticked : kernel.pitIrqHandler image frame inner locals = some (transfer, after)) :
        Settled after := by
  rcases tick_cases ticked with ⟨_, ⟨_, _, rfl⟩ | ⟨busy, switched⟩⟩ | ⟨_, inside, started, executed, answer⟩
  · exact ⟨settled.running, settled.closed⟩
  · have next : Settled kernel.nextTurn.scheduled := ⟨settled.running, settled.closed⟩
    have moved := switch_settled (show Forested kernel.nextTurn.scheduled from forest) next frame busy
    rwa [switched] at moved
  · have first : Settled kernel.firstTurn := ⟨settled.running, settled.closed⟩
    have begun := execute_settled first executed
    rcases answer with ⟨_, _, _, rfl⟩ | ⟨_, rfl, _⟩
    · exact begun.withConsole _
    · exact begun

theorem next_settled {layout : Layout} (forest : Forested kernel) (settled : Settled kernel)
    {event : Event}
    {after : Kernel} (taken : kernel.next image layout event = some after) : Settled after := by
  obtain ⟨⟨transfer, _⟩, stepped, rfl⟩ := Option.map_eq_some_iff.mp taken
  cases event with
  | execute command frame locals => exact execute_settled settled stepped
  | halt status inner locals => exact halt_settled forest settled stepped
  | vidmap screenStart =>
      simp only [step] at stepped
      split at stepped
      · cases stepped
      · obtain ⟨_, rfl⟩ := Prod.mk.inj (Option.some.inj stepped)
        unfold vidmap
        split <;> exact ⟨settled.running, settled.closed⟩
  | openTerminal terminalId =>
      obtain ⟨_, rfl⟩ := Prod.mk.inj (Option.some.inj stepped)
      exact settled.withConsole _
  | tick frame inner locals => exact tick_settled forest settled stepped

/-! ## The condition is exact -/

theorem leave_isSome (settled : Settled kernel) (alive : Live kernel kernel.newPid) :
    ∃ left, kernel.leave = some left :=
  leave_of_closed (settled.closed kernel.newPid alive)

theorem execute_keeps_iff (forest : Forested kernel) (frame : Frame) (locals : Locals) :
    (∀ transfer after, kernel.execute image command frame locals = some (transfer, after) → Forested after) ↔
      ∀ slot, Starts image command locals kernel slot →
          Placeable kernel kernel.console.currentTerminal slot := by
  constructor
  · intro kept slot starts
    obtain ⟨eip, loaded, after, executed, begun⟩ := execute_started starts frame
    exact (start_forested_iff forest begun starts.range starts.closed).mp (kept _ _ executed)
  · intro placeable transfer after executed
    rcases execute_cases executed with ⟨_, ret, oldPid, _, rfl⟩ | ⟨slot, starts, begun, _⟩
    · simpa using forest
    · exact (start_forested_iff forest begun starts.range starts.closed).mpr (placeable slot starts)

theorem vacated_starts (leaves : Left kernel left) (orphan : left.newPid = -1) (status : UInt8)
    (locals : Locals) :
    Starts image Image.shell locals (left.announce status) slot ↔
      Starts image Image.shell locals (vacated kernel) slot := by
  have progs : (left.announce status).progs = (vacated kernel).progs := leaves.progs
  have newPid : (left.announce status).newPid = (vacated kernel).newPid := orphan
  unfold Starts
  rw [progs, newPid]

theorem halt_keeps_iff (forest : Forested kernel) (settled : Settled kernel) (running : 0 ≤ kernel.newPid)
    (status : UInt8) (inner : Frame) (locals : Locals) :
    (∀ transfer after, kernel.halt image status inner locals = some (transfer, after) → Forested after) ↔
      ((kernel.pcb kernel.newPid).parentPid ≠ -1 → kernel.currentPid kernel.schedTerminal = kernel.newPid) ∧
      ((kernel.pcb kernel.newPid).parentPid = -1 →
        (∀ ret, check image Image.shell locals (-1) = .rejected ret →
          kernel.currentPid kernel.schedTerminal = kernel.newPid) ∧
        ∀ slot, Starts image Image.shell locals (vacated kernel) slot → Replaceable kernel slot) := by
  have alive := settled.alive running
  constructor
  · intro kept
    obtain ⟨left, leave⟩ := leave_isSome settled alive
    have leaves := leave_left leave
    refine ⟨fun parent => ?_, fun orphan => ⟨fun ret rejected => ?_, fun slot starts => ?_⟩⟩
    · have halted : kernel.halt image status inner locals = _ :=
        halt_of_parent running leave (leaves.newPid ▸ parent) status inner locals
      have remaining : Forested left := by simpa using kept _ _ halted
      exact (left_forested_iff forest alive leaves).mp remaining
    · have none : left.newPid = -1 := leaves.newPid.trans orphan
      have executed : execute image Image.shell inner locals (left.announce status) =
          some (.returns ret, (left.announce status).begin) :=
        execute_rejected (none ▸ rejected) inner
      have remaining : Forested left := by
        simpa using kept _ _ (halt_of_returns running leave none executed)
      exact (left_forested_iff forest alive leaves).mp remaining
    · have none : left.newPid = -1 := leaves.newPid.trans orphan
      have told := (vacated_starts leaves none status locals).mpr starts
      obtain ⟨eip, loaded, after, executed, begun⟩ := execute_started told inner
      have halted := halt_of_program running leave none executed
      exact (replaced_forested_iff forest alive (leaves.announce status) none begun told.range told.closed).mp
        (kept _ _ halted)
  · rintro ⟨top, replaceable⟩ transfer after halted
    obtain ⟨_, left, leaves, answer⟩ := halt_cases halted
    rcases answer with ⟨parent, rfl, _⟩ | ⟨none, inside, started, executed, answer⟩
    · have remaining := (left_forested_iff forest alive leaves).mpr (top (leaves.newPid ▸ parent))
      simpa using remaining
    · obtain ⟨rejected, placed⟩ := replaceable (leaves.newPid.symm.trans none)
      rcases execute_cases executed with ⟨refused, ret, oldPid, rfl, rfl⟩ |
        ⟨slot, starts, begun, eip, loaded, rfl⟩
      · rcases refused with ⟨ret, refused⟩ | full
        · have same : (left.announce status).newPid = -1 := none
          rw [same] at refused
          have remaining := (left_forested_iff forest alive leaves).mpr (rejected ret refused)
          rcases answer with ⟨_, _, rfl⟩ | ⟨_, _, notReturn⟩
          · simpa using remaining
          · exact absurd rfl (notReturn _)
        · obtain ⟨slot, free⟩ := (leaves.announce status).hasSlot alive.1
          rw [full] at free
          cases free
      · rcases answer with ⟨ret, returned, _⟩ | ⟨_, rfl, _⟩
        · cases returned
        · exact (replaced_forested_iff forest alive (leaves.announce status) none begun starts.range starts.closed).mpr
            (placed slot ((vacated_starts leaves none status locals).mp starts))

theorem switch_forested_iff (frame : Frame) (kernel : Kernel) :
    Forested (switch frame kernel).2 ↔ Forested kernel := by
  unfold Forested
  rw [switch_parent]
  exact Iff.rfl

theorem tick_keeps_iff (forest : Forested kernel) (frame inner : Frame) (locals : Locals) :
    (∀ transfer after, kernel.pitIrqHandler image frame inner locals = some (transfer, after) → Forested after) ↔
      ((kernel.terminalArray kernel.tempTerminal).onOffFlag = false →
        ∀ slot, Starts image Image.shell locals kernel slot →
            Placeable kernel kernel.tempTerminal slot) := by
  have first : Forested kernel.firstTurn := forested_firstTurn.mpr forest
  have placeable : ∀ slot, Placeable kernel.firstTurn kernel.firstTurn.console.currentTerminal slot ↔
      Placeable kernel kernel.tempTerminal slot := by
    intro slot
    unfold Placeable
    rw [firstTurn_currentPid, firstTurn_currentTerminal]
  constructor
  · intro kept fresh slot starts
    refine (placeable slot).mp ((execute_keeps_iff first inner locals).mp ?_ slot starts)
    intro transfer started executed
    obtain ⟨control, after, ticked, same⟩ := tick_of_fresh fresh executed
    have remaining := kept control after ticked
    rcases same with rfl | rfl
    · exact remaining
    · simpa using remaining
  · intro placed transfer after ticked
    rcases tick_cases ticked with ⟨_, ⟨_, _, rfl⟩ | ⟨busy, switched⟩⟩ | ⟨fresh, inside, started, executed, answer⟩
    · exact forest
    · have moved := (switch_forested_iff frame kernel.nextTurn.scheduled).mpr forest
      rwa [switched] at moved
    · have remaining : Forested started :=
        (execute_keeps_iff first inner locals).mpr (fun slot starts => (placeable slot).mpr (placed fresh slot starts))
          inside started executed
      rcases answer with ⟨_, _, _, rfl⟩ | ⟨_, rfl, _⟩
      · simpa using remaining
      · exact remaining

theorem keeps_iff (layout : Layout) (forest : Forested kernel) (settled : Settled kernel)
    (event : Event) :
    (∀ after, kernel.next image layout event = some after → Forested after) ↔
        Keeps image kernel event := by
  have each : (∀ after, kernel.next image layout event = some after → Forested after) ↔
      ∀ transfer after, kernel.step image layout event = some (transfer, after) → Forested after := by
    unfold Kernel.next
    constructor
    · intro kept transfer after taken
      exact kept after (Option.map_eq_some_iff.mpr ⟨_, taken, rfl⟩)
    · intro kept after taken
      obtain ⟨⟨transfer, _⟩, stepped, rfl⟩ := Option.map_eq_some_iff.mp taken
      exact kept transfer _ stepped
  rw [each]
  cases event with
  | execute command frame locals => exact execute_keeps_iff forest frame locals
  | halt status inner locals =>
      by_cases running : 0 ≤ kernel.newPid
      · exact (halt_keeps_iff forest settled running status inner locals).trans
          ⟨fun keeps _ => keeps, fun keeps => keeps running⟩
      · refine iff_of_true ?_ (fun alive => absurd alive running)
        intro transfer after halted
        exact absurd (halt_cases halted).1 running
  | vidmap screenStart =>
      refine iff_of_true ?_ trivial
      intro transfer after taken
      simp only [step] at taken
      split at taken
      · cases taken
      · obtain ⟨_, rfl⟩ := Prod.mk.inj (Option.some.inj taken)
        unfold vidmap
        split <;> exact forest
  | openTerminal terminalId =>
      refine iff_of_true ?_ trivial
      intro transfer after taken
      obtain ⟨_, rfl⟩ := Prod.mk.inj (Option.some.inj taken)
      exact forested_openTerminal.mpr forest
  | tick frame inner locals => exact tick_keeps_iff forest frame inner locals

end

/-! ## Runs -/

theorem entry_forested (layout : Layout) (pcb : Int → Pcb) (rtc : Rtc) (leftovers : Leftovers) :
    Forested (entry layout pcb rtc leftovers) where
  head_live := nofun
  next_live := by
    rintro pid _ ⟨_, opened⟩
    cases opened
  acyclic := by
    rintro pid ⟨_, opened⟩
    cases opened
  covered := by
    rintro pid ⟨_, opened⟩
    cases opened

theorem entry_settled (layout : Layout) (pcb : Int → Pcb) (rtc : Rtc) (leftovers : Leftovers) :
    Settled (entry layout pcb rtc leftovers) where
  running := Or.inl rfl
  closed := by
    rintro pid ⟨_, opened⟩
    cases opened

/-- The processes are a forest in every state of a run exactly when each event of the run
meets the condition in the state in which it happens. -/
theorem forested_throughout_iff (image : Image) (layout : Layout) (pcb : Int → Pcb) (rtc : Rtc) (leftovers : Leftovers)
    (events : List Event) :
    Transition.Throughout (Kernel.next image layout) Forested (entry layout pcb rtc leftovers) events ↔
      Transition.EachStep (Kernel.next image layout) (Keeps image) (entry layout pcb rtc leftovers) events := by
  rw [Transition.throughout_iff_eachStep _ (entry_forested layout pcb rtc leftovers)]
  refine Transition.eachStep_iff _ (fun kernel => Forested kernel ∧ Settled kernel) ?_ ?_
    ⟨entry_forested layout pcb rtc leftovers, entry_settled layout pcb rtc leftovers⟩ events
  · rintro kernel event ⟨forest, settled⟩
    exact keeps_iff layout forest settled event
  · rintro kernel event after ⟨forest, settled⟩ keeps taken
    exact ⟨(keeps_iff layout forest settled event).mpr keeps after taken, next_settled forest settled taken⟩

/-- The first tick starts a second shell on the first terminal, and the one that `entry` has
started is on no chain any more. -/
theorem first_turn_hides_shell :
    ¬ Transition.Throughout (Kernel.next Image.sample Layout.sample) Forested booted
      [.execute Image.shell ⟨0, 0⟩ .zeros, .tick ⟨0, 0⟩ ⟨0, 0⟩ .zeros] := by
  intro holds
  have evaluated : (Transition.run (Kernel.next Image.sample Layout.sample) booted
      [.execute Image.shell ⟨0, 0⟩ .zeros, .tick ⟨0, 0⟩ ⟨0, 0⟩ .zeros]).map (fun kernel =>
        (kernel.progs 0, kernel.currentPid 0, kernel.currentPid 1, kernel.currentPid 2, (kernel.pcb 1).parentPid)) =
      some (.open, 1, -1, -1, -1) := by
    decide +kernel
  obtain ⟨kernel, ran, values⟩ := Option.map_eq_some_iff.mp evaluated
  obtain ⟨alive, first, second, third, root⟩ : kernel.progs 0 = .open ∧ kernel.currentPid 0 = 1 ∧
      kernel.currentPid 1 = -1 ∧ kernel.currentPid 2 = -1 ∧ (kernel.pcb 1).parentPid = -1 := by
    simpa using values
  have forest := holds _ (List.prefix_refl _) kernel ran
  obtain ⟨terminal, ⟨top, here, above⟩, _⟩ := forest.covered (a := 0) ⟨by decide, alive⟩
  have onFirst : top = 1 := by
    have named : ∀ terminal : Terminal, kernel.currentPid terminal = 1 ∨
        kernel.currentPid terminal = -1 := by
      intro terminal
      match terminal with
      | 0 => exact Or.inl first
      | 1 => exact Or.inr second
      | 2 => exact Or.inr third
    unfold head at here
    rcases named terminal with one | none
    · rw [one] at here
      exact (Option.some.inj here).symm
    · rw [process_eq_none.mpr none] at here
      cases here
  subst onFirst
  rcases above.cases_head with same | ⟨middle, link, _⟩
  · cases same
  · have none : parent kernel 1 = none := process_eq_none.mpr root
    exact absurd (none.symm.trans link) nofun

end ProcessForest

end LinuxLikeOS

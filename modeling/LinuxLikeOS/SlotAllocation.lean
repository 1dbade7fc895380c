import LinuxLikeOS.Executables
import LinuxLikeOS.Transition

/-!
# Handing out slots

A history of which processes have been started and have not halted runs along with the kernel. `progs`
records exactly that; the test for room in `execute` looks at `new_pid` instead.
-/

namespace LinuxLikeOS

namespace SlotAllocation

open Function Kernel Loading Executables

/-- The kernel, and the processes that have been started and have not halted. -/
structure Tracked where
  kernel : Kernel
  alive : Int → Bool

namespace Tracked

def boot (layout : Layout) (pcb : Int → Pcb) (rtc : Rtc) (leftovers : Leftovers) : Tracked :=
  ⟨entry layout pcb rtc leftovers, fun _ => false⟩

/-- Those that an event does not end. -/
def remaining (tracked : Tracked) : Event → Int → Bool
  | .halt .. => update tracked.alive tracked.kernel.newPid false
  | _ => tracked.alive

def step (image : Image) (layout : Layout) (tracked : Tracked) (event : Event) : Option Tracked :=
  (tracked.kernel.step image layout event).map fun (transfer, after) =>
    ⟨after,
      match transfer with
      | .program _ _ => update (tracked.remaining event) after.newPid true
      | _ => tracked.remaining event⟩

end Tracked

/-- A slot is handed out that a process still has. -/
def HandsOutTaken (image : Image) (layout : Layout) (tracked : Tracked) (event : Event) : Prop :=
  ∃ eip loaded after, tracked.kernel.step image layout event = some (.program eip loaded, after) ∧
    tracked.remaining event after.newPid = true

/-- The call starts the program. -/
def Succeeds (image : Image) (command : CString) (frame : Frame) (locals : Locals) (kernel : Kernel) :
    Prop :=
  ∃ eip loaded after, execute image command frame locals kernel = some (.program eip loaded, after)

structure AllocatesCompletely (image : Image) (layout : Layout) (command : CString) (tracked : Tracked) :
    Prop where
  starts_iff : ∀ frame locals, Succeeds image command frame locals tracked.kernel ↔ SlotFree tracked.kernel
  lowest : ∀ frame locals eip loaded after,
    execute image command frame locals tracked.kernel = some (.program eip loaded, after) →
      0 ≤ after.newPid ∧ after.newPid ≤ 5 ∧ tracked.kernel.progs after.newPid = .close ∧
        ∀ lower, 0 ≤ lower → lower < after.newPid → tracked.kernel.progs lower = .open
  once : ∀ events, Transition.EachStep (Tracked.step image layout)
    (fun tracked event => ¬ HandsOutTaken image layout tracked event) tracked events
  callers : ∀ pid, tracked.alive pid = true → ∀ frame locals,
    (Succeeds image command frame locals { tracked.kernel with newPid := pid } ↔
      Succeeds image command frame locals tracked.kernel)

/-- The condition: as long as there is a slot, neither the caller nor another process is in the last
one, and command and program are not too long. -/
def Open (command : CString) (kernel : Kernel) (data : List UInt8) : Prop :=
  SlotFree kernel →
    ¬ TurnedAway command kernel ∧ kernel.progs 5 = .close ∧ data.length ≤ 0x3B8000

/-! ## What an event does to `progs` -/

/-- What an event that ends no process leaves open, or a halt. -/
def remainingProgs (kernel : Kernel) : Event → Int → Flag
  | .halt .. => update kernel.progs kernel.newPid .close
  | _ => kernel.progs

/-- A program is started in a slot that is closed when the event has ended what it ends; without one
nothing else changes. -/
structure Recorded (kernel : Kernel) (event : Event) (transfer : Transfer) (after : Kernel) : Prop where
  started : ∀ eip loaded, transfer = .program eip loaded →
    (0 ≤ after.newPid ∧ after.newPid ≤ 5) ∧ remainingProgs kernel event after.newPid = .close ∧
      after.progs = update (remainingProgs kernel event) after.newPid .open
  others : (∀ eip loaded, transfer ≠ .program eip loaded) → after.progs = remainingProgs kernel event

section

variable {kernel after : Kernel} {image : Image} {layout : Layout} {transfer : Transfer} {command : CString}

/-- `execute` on a kernel with the `progs` of an event. -/
theorem recorded_of_executed {event : Event} {frame : Frame} {locals : Locals} {before : Kernel}
    (same : before.progs = remainingProgs kernel event)
    (executed : execute image command frame locals before = some (transfer, after)) :
    Recorded kernel event transfer after := by
  rcases execute_cases executed with ⟨_, ret, oldPid, rfl, rfl⟩ | ⟨slot, starts, started, eip, loaded, rfl⟩
  · exact ⟨nofun, fun _ => same⟩
  · refine ⟨fun _ _ _ => ?_, fun other => absurd rfl (other eip loaded)⟩
    rw [started.newPid, started.progs, ← same]
    exact ⟨starts.range, starts.closed, rfl⟩

theorem recorded_of_progs {event : Event} (other : ∀ eip loaded, transfer ≠ .program eip loaded)
    (same : after.progs = remainingProgs kernel event) : Recorded kernel event transfer after :=
  ⟨fun eip loaded program => absurd program (other eip loaded), fun _ => same⟩

theorem step_recorded {event : Event} (stepped : kernel.step image layout event = some (transfer, after)) :
    Recorded kernel event transfer after := by
  cases event with
  | execute command frame locals => exact recorded_of_executed rfl stepped
  | halt status inner locals =>
      obtain ⟨running, left, leaves, cases⟩ := halt_leaves stepped
      have freed : (left.announce status).progs = update kernel.progs kernel.newPid .close :=
        (leave_left leaves).progs
      rcases cases with ⟨_, rfl, rfl⟩ | ⟨orphan, inside, started, executed, ⟨ret, rfl, rfl⟩ | ⟨rfl, rfl, _⟩⟩
      · exact recorded_of_progs nofun freed
      · have shell : Recorded kernel (.halt status inner locals) (.returns ret) started :=
          recorded_of_executed freed executed
        have back := halt_of_returns running leaves orphan executed
        obtain ⟨rfl, _⟩ := Prod.mk.inj (Option.some.inj (stepped.symm.trans back))
        exact recorded_of_progs nofun (shell.others nofun)
      · exact recorded_of_executed freed executed
  | vidmap screenStart =>
      simp only [step] at stepped
      split at stepped
      · cases stepped
      · obtain ⟨rfl, rfl⟩ := Prod.mk.inj (Option.some.inj stepped)
        refine recorded_of_progs nofun ?_
        unfold Kernel.vidmap
        split <;> rfl
  | openTerminal terminalId =>
      obtain ⟨rfl, rfl⟩ := Prod.mk.inj (Option.some.inj stepped)
      exact recorded_of_progs nofun rfl
  | tick frame inner locals =>
      rcases tick_cases stepped with ⟨_, ⟨_, rfl, rfl⟩ | ⟨_, switched⟩⟩ | ⟨_, inside, started, executed, cases⟩
      · exact recorded_of_progs nofun rfl
      · obtain ⟨rfl, rfl⟩ := Prod.mk.inj switched
        exact recorded_of_progs nofun rfl
      · have shell : Recorded kernel (.tick frame inner locals) inside started :=
          recorded_of_executed (show kernel.firstTurn.progs = kernel.progs from rfl) executed
        rcases cases with ⟨ret, rfl, rfl, rfl⟩ | ⟨rfl, rfl, _⟩
        · exact recorded_of_progs nofun (shell.others nofun)
        · exact shell

/-! ## The history -/

/-- `progs` says which processes have been started and have not halted. -/
structure Faithful (tracked : Tracked) : Prop where
  alive_iff : ∀ pid, tracked.alive pid = true ↔ tracked.kernel.progs pid = .open
  range : ∀ pid, tracked.alive pid = true → 0 ≤ pid ∧ pid ≤ 5

variable {tracked next : Tracked}

theorem remaining_iff (faithful : Faithful tracked) (event : Event) (pid : Int) :
    tracked.remaining event pid = true ↔ remainingProgs tracked.kernel event pid = .open := by
  cases event with
  | halt status inner locals =>
      rcases eq_or_ne pid tracked.kernel.newPid with rfl | other
      · simp [Tracked.remaining, remainingProgs]
      · simp [Tracked.remaining, remainingProgs, other, faithful.alive_iff pid]
  | execute command frame locals => exact faithful.alive_iff pid
  | vidmap screenStart => exact faithful.alive_iff pid
  | openTerminal terminalId => exact faithful.alive_iff pid
  | tick frame inner locals => exact faithful.alive_iff pid

/-- Who remains has been there before. -/
theorem alive_of_remaining {event : Event} {pid : Int} (remains : tracked.remaining event pid = true) :
    tracked.alive pid = true := by
  cases event with
  | halt status inner locals =>
      rcases eq_or_ne pid tracked.kernel.newPid with rfl | other
      · simp [Tracked.remaining] at remains
      · simpa [Tracked.remaining, other] using remains
  | execute command frame locals => exact remains
  | vidmap screenStart => exact remains
  | openTerminal terminalId => exact remains
  | tick frame inner locals => exact remains

/-- An event that starts nothing. -/
theorem faithful_of_others (faithful : Faithful tracked) {event : Event}
    (same : after.progs = remainingProgs tracked.kernel event) :
    Faithful ⟨after, tracked.remaining event⟩ where
  alive_iff := by
    intro pid
    dsimp only
    rw [same]
    exact remaining_iff faithful event pid
  range := fun pid remains => faithful.range pid (alive_of_remaining remains)

theorem step_faithful (faithful : Faithful tracked) {event : Event}
    (stepped : tracked.step image layout event = some next) : Faithful next := by
  obtain ⟨⟨transfer, after⟩, happened, rfl⟩ := Option.map_eq_some_iff.mp stepped
  have recorded := step_recorded happened
  cases transfer with
  | program eip loaded =>
      obtain ⟨inside, _, progs⟩ := recorded.started eip loaded rfl
      refine ⟨fun pid => ?_, fun pid living => ?_⟩
      · dsimp only
        rw [progs]
        rcases eq_or_ne pid after.newPid with rfl | other
        · simp
        · rw [update_of_ne other, update_of_ne other, remaining_iff faithful]
      · dsimp only at living
        rcases eq_or_ne pid after.newPid with rfl | other
        · exact inside
        · rw [update_of_ne other] at living
          exact faithful.range pid (alive_of_remaining living)
  | returns ret => exact faithful_of_others faithful (recorded.others nofun)
  | parent status frame => exact faithful_of_others faithful (recorded.others nofun)
  | stack frame => exact faithful_of_others faithful (recorded.others nofun)

/-- A slot that is handed out is closed, so no process has it. -/
theorem not_handsOutTaken (faithful : Faithful tracked) (event : Event) :
    ¬ HandsOutTaken image layout tracked event := by
  rintro ⟨eip, loaded, after, happened, taken⟩
  have closed := ((step_recorded happened).started eip loaded rfl).2.1
  rw [(remaining_iff faithful event after.newPid).mp taken] at closed
  cases closed

theorem boot_faithful (layout : Layout) (pcb : Int → Pcb) (rtc : Rtc) (leftovers : Leftovers) :
    Faithful (.boot layout pcb rtc leftovers) where
  alive_iff := fun _ => iff_of_false nofun nofun
  range := nofun

theorem faithful_of_run {pcb : Int → Pcb} {rtc : Rtc} {leftovers : Leftovers} {events : List Event}
    (reached : Transition.run (Tracked.step image layout) (.boot layout pcb rtc leftovers) events = some tracked) :
    Faithful tracked :=
  Transition.run_preserves _ (boot_faithful layout pcb rtc leftovers)
    (fun _ _ _ faithful stepped => step_faithful faithful stepped) reached

/-- In a run no slot is handed out that a process still has. -/
theorem once_of_faithful (faithful : Faithful tracked) (events : List Event) :
    Transition.EachStep (Tracked.step image layout)
      (fun tracked event => ¬ HandsOutTaken image layout tracked event) tracked events := by
  induction events generalizing tracked with
  | nil => trivial
  | cons event rest ih =>
      exact ⟨not_handsOutTaken faithful event, fun next stepped => ih (step_faithful faithful stepped)⟩

/-! ## Who is served -/

variable {index : Nat}

/-- What it takes for an executable to be started. -/
theorem succeeds_iff (wellFormed : WellFormedImage image) (names : Names image command index)
    (real : Executable (image.file (image.direntry index).inodeNum)) (frame : Frame) (locals : Locals)
    (kernel : Kernel) :
    Succeeds image command frame locals kernel ↔ ¬ TurnedAway command kernel ∧ SlotFree kernel ∧
      (image.file (image.direntry index).inodeNum).length ≤ 0x3B8000 := by
  obtain ⟨long, agrees⟩ := (executable_iff _).mp real
  constructor
  · rintro ⟨eip, loaded, after, started⟩
    have admitted : ¬ TurnedAway command kernel := fun away =>
      absurd ((execute_of_turnedAway wellFormed names away frame locals).symm.trans started) nofun
    rw [execute_of_match wellFormed names admitted _ ((isElf_filled_of_le (by omega) _).mpr agrees)] at started
    cases free : freeSlot kernel.progs with
    | none =>
        rw [free] at started
        cases started
    | some slot =>
        rw [free] at started
        dsimp only at started
        refine ⟨admitted, slotFree_iff.mpr ⟨slot, free⟩, Nat.le_of_not_lt fun past => ?_⟩
        rw [if_pos (by omega)] at started
        cases started
  · rintro ⟨admitted, free, fits⟩
    obtain ⟨slot, first⟩ := slotFree_iff.mp free
    have answer := execute_of_match wellFormed names admitted frame
      ((isElf_filled_of_le (by omega) locals.buf).mpr agrees)
    rw [first] at answer
    dsimp only at answer
    rw [if_neg (by omega)] at answer
    exact ⟨_, _, _, answer⟩

theorem lowest_of_executed {frame : Frame} {locals : Locals} {eip : Nat} {loaded : List UInt8}
    (executed : execute image command frame locals kernel = some (.program eip loaded, after)) :
    0 ≤ after.newPid ∧ after.newPid ≤ 5 ∧ kernel.progs after.newPid = .close ∧
      ∀ lower, 0 ≤ lower → lower < after.newPid → kernel.progs lower = .open := by
  rcases execute_cases executed with ⟨_, _, _, same, _⟩ | ⟨slot, starts, started, _⟩
  · cases same
  · rw [started.newPid]
    exact freeSlot_eq_some starts.free

theorem open_of_allocatesCompletely (faithful : Faithful tracked) (wellFormed : WellFormedImage image)
    (names : Names image command index) (real : Executable (image.file (image.direntry index).inodeNum))
    (allocates : AllocatesCompletely image layout command tracked) :
    Open command tracked.kernel (image.file (image.direntry index).inodeNum) := by
  intro free
  have succeeds := succeeds_iff wellFormed names real ⟨0, 0⟩ Locals.zeros
  have served := (allocates.starts_iff ⟨0, 0⟩ Locals.zeros).mpr free
  obtain ⟨admitted, _, fits⟩ := (succeeds _).mp served
  refine ⟨admitted, ?_, fits⟩
  cases last : tracked.kernel.progs 5 with
  | close => rfl
  | «open» =>
      have living := (faithful.alive_iff 5).mpr last
      have away : TurnedAway command { tracked.kernel with newPid := 5 } := Or.inl (Int.le_refl 5)
      exact absurd away ((succeeds _).mp ((allocates.callers 5 living ⟨0, 0⟩ Locals.zeros).mpr served)).1

theorem allocatesCompletely_of_open (faithful : Faithful tracked) (wellFormed : WellFormedImage image)
    (names : Names image command index) (real : Executable (image.file (image.direntry index).inodeNum))
    (isOpen : Open command tracked.kernel (image.file (image.direntry index).inodeNum)) :
    AllocatesCompletely image layout command tracked := by
  have succeeds := succeeds_iff wellFormed names real
  refine ⟨fun frame locals => ?_, fun frame locals eip loaded after => lowest_of_executed,
    once_of_faithful faithful, fun pid living frame locals => ?_⟩
  · rw [succeeds frame locals]
    constructor
    · exact fun all => all.2.1
    · exact fun free => ⟨(isOpen free).1, free, (isOpen free).2.2⟩
  · have sameSlots : SlotFree { tracked.kernel with newPid := pid } ↔ SlotFree tracked.kernel := Iff.rfl
    rw [succeeds frame locals, succeeds frame locals, sameSlots]
    refine and_congr_left fun rest => ?_
    obtain ⟨admitted, closed, _⟩ := isOpen rest.1
    have notLast : pid ≠ 5 := by
      rintro rfl
      rw [(faithful.alive_iff 5).mp living] at closed
      cases closed
    have inside := faithful.range pid living
    have few : ¬ pid ≥ 5 := by omega
    exact iff_of_true (not_or.mpr ⟨few, (not_or.mp admitted).2⟩) admitted

/-- In every state that a run from `entry` reaches, allocation is complete exactly under the
condition. -/
theorem allocates_completely_iff (pcb : Int → Pcb) (rtc : Rtc) (leftovers : Leftovers) {events : List Event}
    (reached : Transition.run (Tracked.step image layout) (.boot layout pcb rtc leftovers) events = some tracked)
    (wellFormed : WellFormedImage image) (names : Names image command index)
    (real : Executable (image.file (image.direntry index).inodeNum)) :
    AllocatesCompletely image layout command tracked ↔
      Open command tracked.kernel (image.file (image.direntry index).inodeNum) :=
  ⟨open_of_allocatesCompletely (faithful_of_run reached) wellFormed names real,
    allocatesCompletely_of_open (faithful_of_run reached) wellFormed names real⟩

theorem shell_executable : Executable (Image.sample.file (Image.sample.direntry 1).inodeNum) :=
  ⟨by decide +kernel, by decide +kernel⟩

/-- One shell is running. -/
theorem allocates_completely_sample : ∃ tracked,
    Transition.run (Tracked.step Image.sample Layout.sample)
      (.boot Layout.sample (fun _ => Pcb.zeros) ⟨0, false⟩ .zeros) [.execute Image.shell ⟨0, 0⟩ .zeros] = some tracked ∧
    AllocatesCompletely Image.sample Layout.sample Image.shell tracked := by
  have evaluated : (Transition.run (Tracked.step Image.sample Layout.sample)
      (.boot Layout.sample (fun _ => Pcb.zeros) ⟨0, false⟩ .zeros) [.execute Image.shell ⟨0, 0⟩ .zeros]).map
        (fun tracked => (tracked.kernel.newPid, tracked.kernel.progs 5)) = some (0, .close) := by
    decide +kernel
  obtain ⟨tracked, ran, values⟩ := Option.map_eq_some_iff.mp evaluated
  obtain ⟨running, last⟩ := Prod.mk.inj values
  refine ⟨tracked, ran, (allocates_completely_iff (fun _ => Pcb.zeros) ⟨0, false⟩ .zeros ran sample_wellFormedImage
    (⟨_, rfl, rfl⟩ : Names Image.sample Image.shell 1) shell_executable).mpr fun _ => ?_⟩
  refine ⟨?_, last, by decide +kernel⟩
  rintro (full | long)
  · omega
  · exact absurd long (by decide)

/-- Six shells on two terminals; the one in slot 3 halts, and the next tick switches to slot 5. -/
def holeEvents : List Event :=
  List.replicate 4 (.execute Image.shell ⟨0, 0⟩ .zeros) ++ [.openTerminal 1] ++
    List.replicate 2 (.execute Image.shell ⟨0, 0⟩ .zeros) ++ List.replicate 6 (.tick ⟨0, 0⟩ ⟨0, 0⟩ .zeros) ++
    [.halt 0 ⟨0, 0⟩ .zeros, .tick ⟨0, 0⟩ ⟨0, 0⟩ .zeros]

/-- From slot 5 nothing is started although slot 3 is free. -/
theorem last_slot_starts_nothing : ∃ tracked,
    Transition.run (Tracked.step Image.sample Layout.sample)
      (.boot Layout.sample (fun _ => Pcb.zeros) ⟨0, false⟩ .zeros) holeEvents = some tracked ∧
    tracked.kernel.newPid = 5 ∧ tracked.kernel.progs 3 = .close ∧
    ¬ AllocatesCompletely Image.sample Layout.sample Image.shell tracked := by
  have evaluated : (Transition.run (Tracked.step Image.sample Layout.sample)
      (.boot Layout.sample (fun _ => Pcb.zeros) ⟨0, false⟩ .zeros) holeEvents).map
        (fun tracked => (tracked.kernel.newPid, tracked.kernel.progs 3)) = some (5, .close) := by
    decide +kernel
  obtain ⟨tracked, ran, values⟩ := Option.map_eq_some_iff.mp evaluated
  obtain ⟨running, hole⟩ := Prod.mk.inj values
  refine ⟨tracked, ran, running, hole, fun allocates => ?_⟩
  have isOpen := open_of_allocatesCompletely (faithful_of_run ran) sample_wellFormedImage
    (⟨_, rfl, rfl⟩ : Names Image.sample Image.shell 1) shell_executable allocates
  exact (isOpen ⟨3, by decide, hole⟩).1 (Or.inl (Int.le_of_eq running.symm))

end

end SlotAllocation

end LinuxLikeOS

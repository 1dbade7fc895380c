import LinuxLikeOS.ProcessTable

/-!
# Several processes over one global table

`read` lends the table of its process to the drivers through the global array and takes the
whole array back when the driver returns. The terminal and the RTC driver wait in between,
and other processes make their calls then.
-/

namespace LinuxLikeOS.DescriptorSharing

open Function LinuxLikeOS.Task LinuxLikeOS.ProcessTable

/-- A read in the wait of its driver. -/
structure Pending where
  fd : Int32
  index : Fin 8
  memory : Memory
  nbytes : Int32
  residue : Residue

structure Processes (ι : Type*) where
  /-- The table in the PCB of each process. -/
  fds : ι → Table
  files : Table
  console : Console
  rtc : Rtc
  pending : ι → Option Pending
  /-- The calls each process has completed, in order. -/
  completed : ι → List Call

inductive Event (ι : Type*) where
  | call (who : ι) (request : Call)
  | suspend (who : ι) (fd : Int32) (memory : Memory) (nbytes : Int32) (residue : Residue)
  | resume (who : ι) (wake : Console)

variable {ι : Type*}

namespace Processes

/-- What the calls of one process can reach. -/
def task (system : Processes ι) (who : ι) : Task :=
  ⟨system.fds who, system.files, system.console, system.rtc⟩

def boot (fds : ι → Table) (files : Table) (console : Console) (rtc : Rtc) : Processes ι :=
  ⟨fds, files, console, rtc, fun _ => none, fun _ => []⟩

/-- The table of a process after these calls, had it made them without the others. -/
def alone (image : Image) (start : Processes ι) (who : ι) (calls : List Call) : Option Table :=
  (Transition.run (Task.step image) (start.task who) calls).map Task.fds

theorem alone_eq (image : Image) (start : Processes ι) (who : ι) (calls : List Call) :
    start.alone image who calls = Transition.run (tableStep image) (start.fds who) calls :=
  fds_run image (start.task who) calls

/-- One more call, by itself. -/
theorem alone_concat {image : Image} {start : Processes ι} {who : ι} {calls : List Call} {table : Table}
    (before : start.alone image who calls = some table) (request : Call) :
    start.alone image who (calls ++ [request]) = tableStep image table request := by
  rw [alone_eq] at before ⊢
  rw [Transition.run_append, before, Option.bind_some, Transition.run_cons]
  cases tableStep image table request <;> rfl

variable [DecidableEq ι]

def put (system : Processes ι) (who : ι) (task : Task) : Processes ι :=
  { system with
    fds := update system.fds who task.fds
    files := task.files
    console := task.console
    rtc := task.rtc }

def complete (system : Processes ι) (who : ι) (request : Call) : Processes ι :=
  { system with completed := update system.completed who (system.completed who ++ [request]) }

def setPending (system : Processes ι) (who : ι) (pending : Option Pending) : Processes ι :=
  { system with pending := update system.pending who pending }

/-- A call is made by a process that is not waiting; only the terminal and the RTC wait. -/
def step (image : Image) (system : Processes ι) : Event ι → Option (Processes ι)
  | .call who request =>
      match system.pending who with
      | some _ => none
      | none =>
          ((system.task who).call image request).map fun (_, after) => (system.put who after).complete who request
  | .suspend who fd memory nbytes residue =>
      match system.pending who, (system.task who).readable fd (some memory) with
      | none, some (index, _) =>
          if (system.fds who index).fops = .terminal ∨ (system.fds who index).fops = .rtc then
            some ((system.put who ((system.task who).enterRead index)).setPending who
              (some ⟨fd, index, memory, nbytes, residue⟩))
          else none
      | _, _ => none
  | .resume who wake =>
      match system.pending who with
      | none => none
      | some ⟨fd, index, memory, nbytes, residue⟩ =>
          let waited :=
            if (system.fds who index).fops = .terminal then { system.task who with console := wake }
            else system.task who
          (waited.leaveRead image index memory nbytes.toInt residue).map fun (_, after) =>
            ((system.put who after).setPending who none).complete who (.read fd (some memory) nbytes wake residue)

end Processes

open Processes

variable [DecidableEq ι]

/-- Every table is the one its process would have by itself. -/
def Isolated (image : Image) (start system : Processes ι) : Prop :=
  ∀ who, start.alone image who (system.completed who) = some (system.fds who)

/-- The condition on a step: a read that comes out of its wait finds its own table in the
global array. -/
def ResumesOnOwnTable (system : Processes ι) : Event ι → Prop
  | .resume who _ => system.pending who ≠ none → system.files = system.fds who
  | _ => True

/-- What a waiting read has been let through to. -/
def Waiting (system : Processes ι) : Prop :=
  ∀ who pending, system.pending who = some pending →
    readTarget (system.fds who) pending.fd (some pending.memory) = some pending.index ∧
      ((system.fds who pending.index).fops = .terminal ∨ (system.fds who pending.index).fops = .rtc)

/-! ## Tables -/

/-- The terminal and the RTC leave the global table as they find it. -/
theorem files_leaveRead_waiting (image : Image) (index : Fin 8) (memory : Memory) (nbytes : Int)
    (residue : Residue) (task : Task)
    (device : (task.fds index).fops = .terminal ∨ (task.fds index).fops = .rtc) :
    ∃ result after, task.leaveRead image index memory nbytes residue = some (result, after) ∧
      after.fds = task.files ∧ after.files = task.files := by
  unfold leaveRead
  rcases device with terminal | rtc
  · rw [terminal]
    exact ⟨_, _, rfl, rfl, rfl⟩
  · rw [rtc]
    exact ⟨_, _, rfl, rfl, rfl⟩

/-- A read of the terminal or the RTC leaves the table of its process, by itself. -/
theorem tableStep_waiting {image : Image} {table : Table} {fd : Int32} {memory : Memory} {index : Fin 8}
    (passed : readTarget table fd (some memory) = some index)
    (device : (table index).fops = .terminal ∨ (table index).fops = .rtc) (nbytes : Int32) (wake : Console)
    (residue : Residue) : tableStep image table (.read fd (some memory) nbytes wake residue) =
        some table := by
  have kept : advance image (table index) nbytes.toInt = some (table index) := by
    unfold advance
    rcases device with terminal | rtc
    · rw [terminal]
    · rw [rtc]
  simp only [tableStep, passed, kept, Option.map_some, update_eq_self]

/-! ## Steps -/

/-- Everything a step can do. -/
theorem step_cases {image : Image} {system next : Processes ι} {event : Event ι}
    (taken : system.step image event = some next) :
    (∃ who request result after, event = .call who request ∧ system.pending who = none ∧
      (system.task who).call image request = some (result, after) ∧
      next = (system.put who after).complete who request) ∨
    (∃ who fd memory nbytes residue index, event = .suspend who fd memory nbytes residue ∧
      system.pending who = none ∧ readTarget (system.fds who) fd (some memory) = some index ∧
      ((system.fds who index).fops = .terminal ∨ (system.fds who index).fops = .rtc) ∧
      next = (system.put who ((system.task who).enterRead index)).setPending who
        (some ⟨fd, index, memory, nbytes, residue⟩)) ∨
    (∃ who wake fd index memory nbytes residue result after, ∃ waited : Task, event = .resume who wake ∧
      system.pending who = some ⟨fd, index, memory, nbytes, residue⟩ ∧
      waited.fds = system.fds who ∧ waited.files = system.files ∧
      waited.leaveRead image index memory nbytes.toInt residue = some (result, after) ∧
      next = ((system.put who after).setPending who none).complete who
        (.read fd (some memory) nbytes wake residue)) := by
  cases event with
  | call who request =>
      cases idle : system.pending who with
      | some pending => simp [Processes.step, idle] at taken
      | none =>
          simp only [Processes.step, idle] at taken
          obtain ⟨⟨result, after⟩, answer, same⟩ := Option.map_eq_some_iff.mp taken
          exact Or.inl ⟨who, request, result, after, rfl, idle, answer, same.symm⟩
  | suspend who fd memory nbytes residue =>
      cases idle : system.pending who with
      | some pending => simp [Processes.step, idle] at taken
      | none =>
          simp only [Processes.step, idle, readable_eq] at taken
          cases passed : readTarget (system.task who).fds fd (some memory) with
          | none => simp [passed] at taken
          | some index =>
              simp only [passed, Option.bind_some, Option.map_some] at taken
              split at taken
              · rename_i device
                exact Or.inr (Or.inl ⟨who, fd, memory, nbytes, residue, index, rfl, idle, passed, device,
                  (Option.some.inj taken).symm⟩)
              · cases taken
  | resume who wake =>
      cases waiting : system.pending who with
      | none => simp [Processes.step, waiting] at taken
      | some pending =>
          obtain ⟨fd, index, memory, nbytes, residue⟩ := pending
          simp only [Processes.step, waiting] at taken
          obtain ⟨⟨result, after⟩, answer, same⟩ := Option.map_eq_some_iff.mp taken
          refine Or.inr (Or.inr ⟨who, wake, fd, index, memory, nbytes, residue, result, after, _, rfl, waiting,
            ?_, ?_, answer, same.symm⟩)
          · split <;> rfl
          · split <;> rfl

/-! ## Runs -/

/-- One more completed call of one process. -/
theorem isolated_complete {image : Image} {start system next : Processes ι} (who : ι) (request : Call)
    (table : Table) (isolated : Isolated image start system)
    (fds : next.fds = update system.fds who table)
    (completed : next.completed = update system.completed who (system.completed who ++ [request])) :
    Isolated image start next ↔ tableStep image (system.fds who) request = some table := by
  constructor
  · intro holds
    have own := holds who
    rw [completed, update_self, alone_concat (isolated who), fds, update_self] at own
    exact own
  · intro stepped other
    rcases eq_or_ne other who with rfl | same
    · rw [completed, update_self, alone_concat (isolated other), fds, update_self]
      exact stepped
    · rw [completed, fds, update_of_ne same, update_of_ne same]
      exact isolated other

/-- A read that is let through leaves the table of its process. -/
theorem fds_enterRead (task : Task) (index : Fin 8) : (task.enterRead index).fds = task.fds := by
  unfold enterRead
  split <;> rfl

/-- A read that comes out of its wait takes the global array as the table of its process. -/
theorem resumed_isolated_iff {image : Image} {start system next : Processes ι} {who : ι} {wake : Console}
    (isolated : Isolated image start system) (waiting : Waiting system)
    (taken : system.step image (.resume who wake) = some next) :
    Isolated image start next ↔ system.files = system.fds who := by
  rcases step_cases taken with ⟨_, _, _, _, impossible, _⟩ | ⟨_, _, _, _, _, _, impossible, _⟩ |
    ⟨_, _, fd, index, memory, nbytes, residue, result, after, waited, ⟨rfl, rfl⟩, pending, fds, files, answer, same⟩
  · cases impossible
  · cases impossible
  · obtain ⟨passed, device⟩ := waiting who _ pending
    have driven : (waited.fds index).fops = .terminal ∨ (waited.fds index).fops = .rtc := fds ▸ device
    obtain ⟨_, returned, ran, copied, _⟩ := files_leaveRead_waiting image index memory
      nbytes.toInt residue waited driven
    have sameReturn : returned = after := (Prod.mk.inj (Option.some.inj (ran.symm.trans answer))).2
    have table : after.fds = system.files := by rw [← sameReturn, copied, files]
    rw [isolated_complete who (.read fd (some memory) nbytes wake residue) system.files isolated
      (by rw [same, ← table]; rfl) (by rw [same]; rfl),
      tableStep_waiting passed device, Option.some.injEq, eq_comm]

/-- The drivers that wait always return. -/
theorem resumes_of_waiting {system : Processes ι} {who : ι} (image : Image) (waiting : Waiting system)
    (present : system.pending who ≠ none) (wake : Console) :
    ∃ next, system.step image (.resume who wake) = some next := by
  obtain ⟨⟨fd, index, memory, nbytes, residue⟩, waits⟩ := Option.ne_none_iff_exists'.mp present
  have device := (waiting who _ waits).2
  simp only [Processes.step, waits]
  split
  · rename_i terminal
    obtain ⟨_, after, ran, _⟩ := files_leaveRead_waiting image index memory nbytes.toInt residue
      { system.task who with console := wake } (Or.inl terminal)
    rw [ran]
    exact ⟨_, rfl⟩
  · obtain ⟨_, after, ran, _⟩ := files_leaveRead_waiting image index memory nbytes.toInt residue
      (system.task who) device
    rw [ran]
    exact ⟨_, rfl⟩

theorem isolated_step_iff {image : Image} {start system : Processes ι}
    (isolated : Isolated image start system)
    (waiting : Waiting system) (event : Event ι) :
    (∀ next, system.step image event = some next → Isolated image start next) ↔
      ResumesOnOwnTable system event := by
  cases event with
  | call who request =>
      refine iff_of_true (fun next taken => ?_) trivial
      rcases step_cases taken with ⟨_, _, result, after, ⟨rfl, rfl⟩, _, answer, same⟩ |
        ⟨_, _, _, _, _, _, impossible, _⟩ | ⟨_, _, _, _, _, _, _, _, _, _, impossible, _⟩
      · refine (isolated_complete who request after.fds isolated (by rw [same]; rfl) (by rw [same]; rfl)).mpr ?_
        have followed := fds_call image (system.task who) request
        rw [answer] at followed
        exact followed.symm
      · cases impossible
      · cases impossible
  | suspend who fd memory nbytes residue =>
      refine iff_of_true (fun next taken => ?_) trivial
      rcases step_cases taken with ⟨_, _, _, _, impossible, _⟩ |
        ⟨_, _, _, _, _, index, ⟨rfl, rfl, rfl, rfl, rfl⟩, _, _, _, same⟩ | ⟨_, _, _, _, _, _, _, _, _, _, impossible, _⟩
      · cases impossible
      · have tables : next.fds = system.fds := by
          rw [same]
          show update system.fds who ((system.task who).enterRead index).fds = system.fds
          rw [fds_enterRead]
          exact update_eq_self who system.fds
        have calls : next.completed = system.completed := by
          rw [same]
          rfl
        intro other
        rw [calls, tables]
        exact isolated other
      · cases impossible
  | resume who wake =>
      constructor
      · intro good present
        obtain ⟨next, taken⟩ := resumes_of_waiting image waiting present wake
        exact (resumed_isolated_iff isolated waiting taken).mp (good next taken)
      · intro own next taken
        refine (resumed_isolated_iff isolated waiting taken).mpr (own ?_)
        intro idle
        simp [Processes.step, idle] at taken

omit [DecidableEq ι] in
theorem waiting_of_other {system next : Processes ι} (who : ι) (waiting : Waiting system)
    (fds : ∀ other, other ≠ who → next.fds other = system.fds other)
    (pending : ∀ other, other ≠ who → next.pending other = system.pending other)
    (own : ∀ read, next.pending who = some read →
      readTarget (next.fds who) read.fd (some read.memory) = some read.index ∧
        ((next.fds who read.index).fops = .terminal ∨ (next.fds who read.index).fops = .rtc)) :
    Waiting next := by
  intro other read waits
  rcases eq_or_ne other who with rfl | same
  · exact own read waits
  · rw [fds other same]
    exact waiting other read (pending other same ▸ waits)

/-- A process that waits makes no call, so its table stays the one its read was let
through on. -/
theorem waiting_step {image : Image} {system next : Processes ι} {event : Event ι}
    (waiting : Waiting system)
    (taken : system.step image event = some next) : Waiting next := by
  rcases step_cases taken with ⟨who, request, result, after, _, idle, _, same⟩ |
    ⟨who, fd, memory, nbytes, residue, index, _, _, passed, device, same⟩ |
    ⟨who, wake, fd, index, memory, nbytes, residue, result, after, waited, _, _, _, _, _, same⟩
  · rw [same]
    refine waiting_of_other who waiting (fun other apart => update_of_ne apart _ _) (fun _ _ => rfl) ?_
    intro read waits
    have idleStill : system.pending who = some read := waits
    rw [idle] at idleStill
    cases idleStill
  · have kept : ((system.task who).enterRead index).fds = system.fds who := fds_enterRead _ _
    rw [same]
    refine waiting_of_other who waiting (fun other apart => update_of_ne apart _ _)
      (fun other apart => update_of_ne apart _ _) ?_
    intro read waits
    have entered : update system.pending who (some ⟨fd, index, memory, nbytes, residue⟩) who =
      some read := waits
    rw [update_self, Option.some.injEq] at entered
    subst entered
    show readTarget (update system.fds who ((system.task who).enterRead index).fds who) fd (some memory) =
      some index ∧
      ((update system.fds who ((system.task who).enterRead index).fds who index).fops = .terminal ∨
        (update system.fds who ((system.task who).enterRead index).fds who index).fops = .rtc)
    rw [update_self, kept]
    exact ⟨passed, device⟩
  · rw [same]
    refine waiting_of_other who waiting (fun other apart => update_of_ne apart _ _)
      (fun other apart => update_of_ne apart _ _) ?_
    intro read waits
    have left : update system.pending who none who = some read := waits
    rw [update_self] at left
    cases left

/-- Any number of processes, any interleaving: the tables stay those of the processes by
themselves exactly when every read that waited finds its own table in the global array. -/
theorem isolated_throughout_iff (image : Image) (fds : ι → Table) (files : Table) (console : Console)
    (rtc : Rtc)
    (events : List (Event ι)) :
    Transition.Throughout (Processes.step image) (Isolated image (boot fds files console rtc))
        (boot fds files console rtc) events ↔
      Transition.EachStep (Processes.step image) ResumesOnOwnTable (boot fds files console rtc) events := by
  have initial : Isolated image (boot fds files console rtc) (boot fds files console rtc) := fun _ => rfl
  have idle : Waiting (boot fds files console rtc) := fun _ _ impossible => by cases impossible
  rw [Transition.throughout_iff_eachStep _ initial]
  refine Transition.eachStep_iff (Processes.step image)
    (fun system => Isolated image (boot fds files console rtc) system ∧ Waiting system)
    (fun system event invariant => isolated_step_iff invariant.1 invariant.2 event) ?_ ⟨initial, idle⟩ events
  intro system event next invariant own taken
  exact ⟨(isolated_step_iff invariant.1 invariant.2 event).mpr own next taken, waiting_step invariant.2 taken⟩

/-- A terminal read of one process, and within its wait a file opened and read by another. -/
def leakingRun : List (Event Bool) :=
  [.suspend true 0 (fun _ => 0) 128 .zeros,
    .call false (.open Image.frame0 .zeros),
    .call false (.read 2 (some fun _ => 0) 5 Console.loaded .zeros),
    .resume true Console.loaded]

/-- The descriptor of the other process turns up in the table of the first. -/
theorem descriptor_leaks :
    let start :=
      boot (fun _ : Bool => initFds unusedTable) (fileSystemInit unusedTable) Console.loaded ⟨0, false⟩
    ¬ Transition.Throughout (Processes.step Image.sample) (Isolated Image.sample start) start leakingRun := by
  intro start isolated
  have reached : (Transition.run (Processes.step Image.sample) start leakingRun).isSome := by
    decide +kernel
  obtain ⟨final, ran⟩ := Option.isSome_iff_exists.mp reached
  have own := isolated leakingRun List.prefix_rfl final ran true
  have seen : (Transition.run (Processes.step Image.sample) start leakingRun).bind (fun system =>
      (start.alone Image.sample true (system.completed true)).map fun table =>
        ((table 2).flags, (system.fds true 2).flags)) = some (.close, .open) := by decide +kernel
  simp only [ran, Option.bind_some, own, Option.map_some, Option.some.injEq, Prod.mk.injEq] at seen
  obtain ⟨closed, opened⟩ := seen
  rw [closed] at opened
  cases opened

end LinuxLikeOS.DescriptorSharing

import LinuxLikeOS.Descriptors
import LinuxLikeOS.Transition

/-!
# What a call does to the table of its process

The drivers work on the global table, yet what the table in the PCB becomes depends on that
table and on the arguments alone. Here that function is written down, and each call is shown
to follow it; the results about one process and about several rest on it.
-/

namespace LinuxLikeOS.ProcessTable

open Function LinuxLikeOS.Task

/-- The descriptor after a driver's read; `none` where the read faults. -/
def advance (image : Image) (descriptor : FileDescriptor) (nbytes : Int) : Option FileDescriptor :=
  match descriptor.fops with
  | .rtc | .terminal => some descriptor
  | .directory =>
      if descriptor.filePosition < image.inodeCount ∧
        (image.direntry descriptor.filePosition).strlen = none then none
      else some { descriptor with filePosition := (descriptor.filePosition + 1) % 2 ^ 32 }
  | .file =>
      let data := image.readData descriptor.inode descriptor.filePosition (toUnsigned nbytes)
      some { descriptor with filePosition := (descriptor.filePosition + data.length) % 2 ^ 32 }
  | .null | .blank => none

/-- The descriptor a read is let through to. -/
def readTarget (table : Table) (fd : Int32) (buf : Buffer) : Option (Fin 8) :=
  match descriptor? fd, buf with
  | some index, some _ => if index = 1 ∨ (table index).flags = .close then none else some index
  | _, _ => none

/-- The table of a process after a call, from its table before. -/
def tableStep (image : Image) (table : Table) : Call → Option Table
  | .open fname residue =>
      match image.readDentryByName fname residue.dentry with
      | .failed => some table
      | .overrun => none
      | .found dentry =>
          match firstClosed table with
          | none => some table
          | some fd =>
              match getFopsTable dentry.filetype with
              | .null | .blank => none
              | fops => some (update table fd ⟨fops, dentry.inodeNum, 0, .open⟩)
  | .read fd buf nbytes _ _ =>
      match readTarget table fd buf with
      | none => some table
      | some index => (advance image (table index) nbytes.toInt).map (update table index)
  | .write fd buf _ =>
      match descriptor? fd, buf with
      | some index, some _ =>
          if index = 0 ∨ (table index).flags = .close then some table
          else if (table index).fops = .null ∨ (table index).fops = .blank then none
          else some table
      | _, _ => some table
  | .close fd =>
      match descriptor? fd with
      | none => some table
      | some index =>
          if index.val < 2 ∨ (table index).flags = .close then some table
          else if (table index).fops = .null ∨ (table index).fops = .blank then none
          else some (update table index { table index with flags := .close })

theorem firstClosed_eq_some {table : Table} {fd : Fin 8} :
    firstClosed table = some fd ↔ (table fd).flags = .close ∧
        ∀ lower < fd, (table lower).flags = .open := by
  have opened : ∀ flag : Flag, flag ≠ .close ↔ flag = .open := by
    intro flag
    cases flag <;> simp
  have index : fd.val < (List.finRange 8).length := by simp
  unfold firstClosed
  rw [List.find?_eq_some_iff_getElem]
  simp only [beq_iff_eq, Bool.not_eq_true', beq_eq_false_iff_ne, opened, List.getElem_finRange]
  refine and_congr_right fun _ => ⟨?_, fun before => ⟨fd.val, index, by simp, ?_⟩⟩
  · rintro ⟨position, _, same, before⟩ lower less
    have earlier : lower.val < position := by
      have place := congrArg Fin.val same
      simp at place
      omega
    simpa using before lower.val earlier
  · intro lower less
    exact before _ less

/-! ## Reads -/

theorem readable_eq (task : Task) (fd : Int32) (buf : Buffer) :
    task.readable fd buf =
      (readTarget task.fds fd buf).bind fun index => buf.map fun memory => (index, memory) := by
  unfold readable readTarget
  cases valid : descriptor? fd with
  | none => rfl
  | some index =>
      cases buf with
      | none => rfl
      | some memory =>
          by_cases refused : index = 1 ∨ (task.fds index).flags = .close
          · simp [refused]
          · simp [refused]

theorem buffer_of_readTarget {table : Table} {fd : Int32} {buf : Buffer} {index : Fin 8}
    (passed : readTarget table fd buf = some index) : ∃ memory, buf = some memory := by
  unfold readTarget at passed
  cases buf with
  | none =>
      cases valid : descriptor? fd <;> simp [valid] at passed
  | some memory => exact ⟨memory, rfl⟩

theorem read_refused {task : Task} {fd : Int32} {buf : Buffer}
    (refused : readTarget task.fds fd buf = none)
    (image : Image) (nbytes : Int32) (wake : Console) (residue : Residue) :
    task.read image fd buf nbytes wake residue = some (.plain (-1), task) := by
  simp only [Task.read, readable_eq, refused, Option.bind_none]

/-- A read that passes the checks is the driver's, on the table of the process. -/
theorem read_eq_leaveRead {task : Task} {fd : Int32} {index : Fin 8} {memory : Memory}
    (passed : readTarget task.fds fd (some memory) = some index) (image : Image) (nbytes : Int32)
    (wake : Console) (residue : Residue) :
    ∃ console, task.read image fd (some memory) nbytes wake residue =
      leaveRead image index memory nbytes.toInt residue { task with files := task.fds, console := console } := by
  simp only [Task.read, readable_eq, passed, Option.bind_some, Option.map_some, enterRead]
  split
  · exact ⟨wake, rfl⟩
  · exact ⟨task.console, rfl⟩

/-- On a global table that is the table of the process, a driver moves one position. -/
theorem driverRead_files (image : Image) (fd : Fin 8) (buf : Memory) (nbytes : Int) (residue : Residue)
    (task : Task) :
    (task.driverRead image (task.files fd).fops fd buf nbytes residue).map (fun answer => answer.2.files) =
      (advance image (task.files fd) nbytes).map (update task.files fd) := by
  unfold driverRead advance
  cases device : (task.files fd).fops with
  | null => rfl
  | blank => rfl
  | rtc => simp [rtcRead]
  | terminal => simp [Task.terminalRead]
  | file => simp [fileRead, setFile, device]
  | directory =>
      simp only [dirRead]
      rcases image.readDentryByIndex_cases (task.files fd).filePosition residue.dentry with
        ⟨past, read⟩ | ⟨inside, unterminated, read⟩ | ⟨stop, copied, inside, terminated, read, length, _⟩
      · simp [read, Nat.not_lt_of_le past, setFile, device]
      · simp [read, inside, unterminated]
      · simp [read, length, terminated, setFile, device]

theorem fds_leaveRead (image : Image) (fd : Fin 8) (buf : Memory) (nbytes : Int) (residue : Residue)
    {task : Task} (shared : task.files = task.fds) :
    (task.leaveRead image fd buf nbytes residue).map (fun answer => answer.2.fds) =
      (advance image (task.fds fd) nbytes).map (update task.fds fd) := by
  have files := driverRead_files image fd buf nbytes residue task
  rw [shared] at files
  rw [← files, leaveRead, Option.map_map]
  rfl

theorem fds_read (image : Image) (fd : Int32) (buf : Buffer) (nbytes : Int32) (wake : Console)
    (residue : Residue) (task : Task) :
    (task.read image fd buf nbytes wake residue).map (fun answer => answer.2.fds) =
      tableStep image task.fds (.read fd buf nbytes wake residue) := by
  cases passed : readTarget task.fds fd buf with
  | none =>
      rw [read_refused passed]
      simp only [tableStep, passed, Option.map_some]
  | some index =>
      obtain ⟨memory, rfl⟩ := buffer_of_readTarget passed
      obtain ⟨console, read⟩ := read_eq_leaveRead passed image nbytes wake residue
      rw [read, fds_leaveRead image index memory nbytes.toInt residue rfl]
      simp only [tableStep, passed]

/-! ## The other calls -/

/-- The `open` of a driver leaves the table of the process alone, and faults only for want of
a driver, as the lookup has succeeded before. -/
theorem fds_driverOpen {image : Image} {fname : CString} {residue : Residue} {dentry : Dentry}
    (named : image.readDentryByName fname residue.dentry = .found dentry) (fops : Fops) (task : Task) :
    (task.driverOpen image fops fname residue).map (fun answer => answer.2.fds) =
      if fops = .null ∨ fops = .blank then none else some task.fds := by
  have slot : ∃ answer, task.openSlot image fname residue = some answer := by
    unfold openSlot
    rw [named]
    simp only []
    split <;> exact ⟨_, rfl⟩
  obtain ⟨answer, found⟩ := slot
  cases fops with
  | null => rfl
  | blank => rfl
  | rtc => simp [driverOpen, rtcOpen]
  | terminal => simp [driverOpen]
  | file => cases answer <;> simp [driverOpen, fileOpen, found]
  | directory => cases answer <;> simp [driverOpen, dirOpen, found]

/-- An open of an entry with a free slot in the table of the process is decided by the driver. -/
theorem open_found {image : Image} {fname : CString} {residue : Residue} {dentry : Dentry} {task : Task}
    {fd : Fin 8} (named : image.readDentryByName fname residue.dentry = .found dentry)
    (free : firstClosed task.fds = some fd) :
    task.open image fname residue =
      ((task.setFd fd ⟨getFopsTable dentry.filetype, dentry.inodeNum, 0, .open⟩).driverOpen image
        (getFopsTable dentry.filetype) fname residue).map fun answer =>
          (.plain (if answer.1 = -1 then -1 else fd.val), answer.2) := by
  simp only [Task.open, named, free]

theorem fds_open (image : Image) (fname : CString) (residue : Residue) (task : Task) :
    (task.open image fname residue).map (fun answer => answer.2.fds) =
      tableStep image task.fds (.open fname residue) := by
  cases named : image.readDentryByName fname residue.dentry with
  | failed => simp [Task.open, tableStep, named]
  | overrun => simp [Task.open, tableStep, named]
  | found dentry =>
      cases free : firstClosed task.fds with
      | none => simp [Task.open, tableStep, named, free]
      | some fd =>
          have opened := fds_driverOpen named (getFopsTable dentry.filetype)
            (task.setFd fd ⟨getFopsTable dentry.filetype, dentry.inodeNum, 0, .open⟩)
          simp only [Task.open, tableStep, named, free, Option.map_map, Function.comp_def]
          rw [opened]
          cases getFopsTable dentry.filetype <;> simp

theorem fds_driverWrite (fops : Fops) (buf : Memory) (nbytes : Int) (task : Task) :
    (task.driverWrite fops buf nbytes).map (fun answer => answer.2.fds) =
      if fops = .null ∨ fops = .blank then none else some task.fds := by
  cases fops with
  | rtc =>
      simp only [driverWrite, Option.map_some]
      unfold rtcWrite
      split
      · rfl
      · simp only []
        split <;> rfl
  | null | blank | directory | file | terminal => rfl

theorem fds_driverClose (fops : Fops) (fd : Fin 8) (task : Task) :
    (task.driverClose fops fd).map (fun answer => answer.2.fds) =
      if fops = .null ∨ fops = .blank then none else some task.fds := by
  cases fops with
  | directory | file =>
      simp only [driverClose, Option.map_some]
      unfold fileClose
      split <;> rfl
  | null | blank | rtc | terminal => rfl

theorem fds_write (image : Image) (fd : Int32) (buf : Buffer) (nbytes : Int32) (task : Task) :
    (task.write fd buf nbytes).map (fun answer => answer.2.fds) =
      tableStep image task.fds (.write fd buf nbytes) := by
  cases valid : descriptor? fd with
  | none => simp [Task.write, tableStep, valid]
  | some index =>
      cases buf with
      | none => simp [Task.write, tableStep, valid]
      | some memory =>
          simp only [Task.write, tableStep, valid]
          split
          · rfl
          · rw [← fds_driverWrite _ memory nbytes.toInt, Option.map_map]
            rfl

theorem fds_close (image : Image) (fd : Int32) (task : Task) :
    (task.close fd).map (fun answer => answer.2.fds) = tableStep image task.fds (.close fd) := by
  cases valid : descriptor? fd with
  | none => simp [Task.close, tableStep, valid]
  | some index =>
      simp only [Task.close, tableStep, valid]
      split
      · rfl
      · rw [Option.map_map]
        exact fds_driverClose (task.fds index).fops index
          (task.setFd index { task.fds index with flags := .close })

/-- Whatever the global table and the devices hold, the table of the process goes by
`tableStep`. -/
theorem fds_call (image : Image) (task : Task) (request : Call) :
    (task.call image request).map (fun answer => answer.2.fds) = tableStep image task.fds request := by
  cases request with
  | «open» fname residue => exact fds_open image fname residue task
  | read fd buf nbytes wake residue => exact fds_read image fd buf nbytes wake residue task
  | write fd buf nbytes => exact fds_write image fd buf nbytes task
  | close fd => exact fds_close image fd task

/-! ## The ways a table changes -/

/-- The open descriptor a call may change. -/
def target : Call → Option (Fin 8)
  | .open _ _ => none
  | .read fd _ _ _ _ => descriptor? fd
  | .write _ _ _ => none
  | .close fd => descriptor? fd

theorem readTarget_eq_some {table : Table} {fd : Int32} {buf : Buffer} {index : Fin 8} :
    readTarget table fd buf = some index ↔
      descriptor? fd = some index ∧ buf ≠ none ∧ index ≠ 1 ∧ (table index).flags = .open := by
  unfold readTarget
  cases valid : descriptor? fd with
  | none => simp
  | some other =>
      cases buf with
      | none => simp
      | some memory =>
          cases state : (table other).flags with
          | close =>
              simp only [state, or_true, if_true, reduceCtorEq, Option.some.injEq, false_iff]
              rintro ⟨rfl, _, _, opened⟩
              rw [state] at opened
              cases opened
          | «open» =>
              by_cases stdout : other = 1
              · simp only [stdout, true_or, if_true, reduceCtorEq, Option.some.injEq, false_iff]
                rintro ⟨same, _, notOne, _⟩
                exact notOne same.symm
              · simp only [stdout, state, reduceCtorEq, or_false, if_false, Option.some.injEq]
                constructor
                · rintro rfl
                  exact ⟨rfl, by simp, stdout, state⟩
                · exact fun named => named.1

theorem advance_kept {image : Image} {descriptor moved : FileDescriptor} {nbytes : Int}
    (advanced : advance image descriptor nbytes = some moved) :
    moved.fops = descriptor.fops ∧ moved.inode = descriptor.inode ∧ moved.flags = descriptor.flags := by
  unfold advance at advanced
  split at advanced
  · exact Option.some.inj advanced ▸ ⟨rfl, rfl, rfl⟩
  · exact Option.some.inj advanced ▸ ⟨rfl, rfl, rfl⟩
  · split at advanced
    · cases advanced
    · exact Option.some.inj advanced ▸ ⟨rfl, rfl, rfl⟩
  · exact Option.some.inj advanced ▸ ⟨rfl, rfl, rfl⟩
  · cases advanced
  · cases advanced

/-- A call leaves the table alone, fills its first closed slot, moves the position of the
descriptor it reads, or closes the descriptor it names. -/
theorem tableStep_cases {image : Image} {table after : Table} {request : Call}
    (taken : tableStep image table request = some after) :
    after = table ∨
    (∃ fname residue dentry fd, image.readDentryByName fname residue = .found dentry ∧
      firstClosed table = some fd ∧
      after = update table fd ⟨getFopsTable dentry.filetype, dentry.inodeNum, 0, .open⟩) ∨
    (∃ index moved nbytes, target request = some index ∧ (table index).flags = .open ∧
      advance image (table index) nbytes = some moved ∧ after = update table index moved) ∨
    (∃ index, target request = some index ∧ 2 ≤ index.val ∧ (table index).flags = .open ∧
      after = update table index { table index with flags := .close }) := by
  cases request with
  | «open» fname residue =>
      simp only [tableStep] at taken
      split at taken
      · exact Or.inl (Option.some.inj taken).symm
      · cases taken
      · rename_i dentry found
        split at taken
        · exact Or.inl (Option.some.inj taken).symm
        · rename_i fd free
          refine Or.inr (Or.inl ⟨fname, residue.dentry, dentry, fd, found, free, ?_⟩)
          cases device : getFopsTable dentry.filetype <;> simp only [device, reduceCtorEq] at taken <;>
            exact (Option.some.inj taken).symm
  | read fd buf nbytes wake residue =>
      simp only [tableStep] at taken
      cases passed : readTarget table fd buf with
      | none =>
          rw [passed] at taken
          exact Or.inl (Option.some.inj taken).symm
      | some index =>
          rw [passed] at taken
          obtain ⟨moved, advanced, same⟩ := Option.map_eq_some_iff.mp taken
          obtain ⟨valid, _, _, opened⟩ := readTarget_eq_some.mp passed
          exact Or.inr (Or.inr (Or.inl ⟨index, moved, nbytes.toInt, valid, opened, advanced, same.symm⟩))
  | write fd buf nbytes =>
      simp only [tableStep] at taken
      split at taken
      · split at taken
        · exact Or.inl (Option.some.inj taken).symm
        · split at taken
          · cases taken
          · exact Or.inl (Option.some.inj taken).symm
      · exact Or.inl (Option.some.inj taken).symm
  | close fd =>
      simp only [tableStep] at taken
      split at taken
      · exact Or.inl (Option.some.inj taken).symm
      · rename_i index valid
        split at taken
        · exact Or.inl (Option.some.inj taken).symm
        · rename_i usable
          split at taken
          · cases taken
          · refine Or.inr (Or.inr (Or.inr ⟨index, valid, by omega, ?_, (Option.some.inj taken).symm⟩))
            cases state : (table index).flags with
            | «open» => rfl
            | close => exact absurd (Or.inr state) usable

/-- A call on another descriptor does not touch an open one. -/
theorem tableStep_other {image : Image} {table after : Table} {request : Call} {fd : Fin 8}
    (taken : tableStep image table request = some after) (opened : (table fd).flags = .open)
    (other : target request ≠ some fd) : after fd = table fd := by
  rcases tableStep_cases taken with same | ⟨_, _, dentry, free, _, first, same⟩ |
    ⟨index, moved, nbytes, named, _, _, same⟩ | ⟨index, named, _, _, same⟩
  · rw [same]
  · have closed := (firstClosed_eq_some.mp first).1
    have apart : fd ≠ free := by
      rintro rfl
      rw [closed] at opened
      cases opened
    rw [same, update_of_ne apart]
  · have apart : fd ≠ index := fun at_index => other (at_index ▸ named)
    rw [same, update_of_ne apart]
  · have apart : fd ≠ index := fun at_index => other (at_index ▸ named)
    rw [same, update_of_ne apart]

/-- Descriptors 0 and 1 are open on the terminal. -/
def StandardOpen (table : Table) : Prop :=
  ∀ fd : Fin 8, fd.val < 2 → (table fd).flags = .open ∧ (table fd).fops = .terminal

theorem initFds_standardOpen (fds : Table) : StandardOpen (initFds fds) := by
  intro fd standard
  simp [initFds, standard, getFopsTable]

theorem tableStep_standardOpen {image : Image} {table after : Table} {request : Call}
    (standard : StandardOpen table) (taken : tableStep image table request = some after) :
    StandardOpen after := by
  intro fd low
  obtain ⟨opened, terminal⟩ := standard fd low
  rcases tableStep_cases taken with same | ⟨_, _, dentry, free, _, first, same⟩ |
    ⟨index, moved, nbytes, _, _, advanced, same⟩ | ⟨index, _, high, _, same⟩
  · exact same ▸ ⟨opened, terminal⟩
  · have apart : fd ≠ free := by
      rintro rfl
      rw [(firstClosed_eq_some.mp first).1] at opened
      cases opened
    rw [same, update_of_ne apart]
    exact ⟨opened, terminal⟩
  · obtain ⟨fops, _, flags⟩ := advance_kept advanced
    rcases eq_or_ne fd index with rfl | here
    · rw [same, update_self, flags, fops]
      exact ⟨opened, terminal⟩
    · rw [same, update_of_ne here]
      exact ⟨opened, terminal⟩
  · have apart : fd ≠ index := by
      rintro rfl
      omega
    rw [same, update_of_ne apart]
    exact ⟨opened, terminal⟩

/-- The descriptor an open returns: the first closed one, now at the start of its entry. -/
theorem opened_descriptor {image : Image} {fname : CString} {residue : Residue} {dentry : Dentry}
    {before opened : Task} {result : Result} {fd : Fin 8}
    (named : image.readDentryByName fname residue.dentry = .found dentry)
    (opening : before.open image fname residue = some (result, opened)) (returned : result.ret = fd.val) :
    firstClosed before.fds = some fd ∧
      opened.fds fd = ⟨getFopsTable dentry.filetype, dentry.inodeNum, 0, .open⟩ := by
  cases free : firstClosed before.fds with
  | none =>
      simp only [Task.open, named, free, Option.some.injEq, Prod.mk.injEq] at opening
      have failed : result.ret = -1 := by rw [← opening.1]; rfl
      omega
  | some slot =>
      rw [open_found named free] at opening
      obtain ⟨⟨ret, after⟩, driven, same⟩ := Option.map_eq_some_iff.mp opening
      have fds := fds_driverOpen named (getFopsTable dentry.filetype)
        (before.setFd slot ⟨getFopsTable dentry.filetype, dentry.inodeNum, 0, .open⟩)
      rw [driven] at fds
      split at fds
      · cases fds
      · obtain ⟨rfl, rfl⟩ := Prod.mk.inj same
        have slotReturned : slot = fd := by
          have ret : (if ret = -1 then (-1 : Int) else slot.val) = fd.val := returned
          split at ret <;> omega
        subst slotReturned
        have table : after.fds = update before.fds slot
            ⟨getFopsTable dentry.filetype, dentry.inodeNum, 0, .open⟩ := Option.some.inj fds
        rw [table, update_self]
        exact ⟨rfl, rfl⟩

/-! ## Steps and runs -/

theorem fds_step (image : Image) (task : Task) (request : Call) :
    (task.step image request).map Task.fds = tableStep image task.fds request := by
  rw [← fds_call image task request, Task.step, Option.map_map]
  rfl

theorem step_standardOpen {image : Image} {task next : Task} {request : Call}
    (standard : StandardOpen task.fds) (taken : task.step image request = some next) :
    StandardOpen next.fds := by
  have followed := fds_step image task request
  rw [taken, Option.map_some] at followed
  exact tableStep_standardOpen standard followed.symm

/-- A descriptor that a process opens is never 0 or 1. -/
theorem opened_not_standard {image : Image} {stale files : Table} {console : Console} {rtc : Rtc}
    {history : List Call} {before : Task} {fd : Fin 8}
    (reached : Transition.run (Task.step image) ⟨initFds stale, files, console, rtc⟩ history = some before)
    (free : firstClosed before.fds = some fd) : 2 ≤ fd.val := by
  have standard := Transition.run_preserves (Task.step image) (P := fun task => StandardOpen task.fds)
    (initFds_standardOpen stale) (fun _ _ _ standard taken => step_standardOpen standard taken) reached
  by_contra low
  have opened := (standard fd (by omega)).1
  rw [(firstClosed_eq_some.mp free).1] at opened
  cases opened

theorem fds_run (image : Image) (task : Task) (calls : List Call) :
    (Transition.run (Task.step image) task calls).map Task.fds =
      Transition.run (tableStep image) task.fds calls := by
  induction calls generalizing task with
  | nil => rfl
  | cons request rest ih =>
      rw [Transition.run_cons, Transition.run_cons, ← fds_step image task request]
      cases Task.step image task request with
      | none => rfl
      | some next => exact ih next

end LinuxLikeOS.ProcessTable

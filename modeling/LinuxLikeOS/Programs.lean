import LinuxLikeOS.DescriptorRefinement
import LinuxLikeOS.DirectoryListing
import LinuxLikeOS.GetArgs
import LinuxLikeOS.Rendering
import LinuxLikeOS.UserStrings

/-!
# Programs at their system calls (`ece391syscall.h`, `ece391support.c`)

A process with the part of the devices it shares with the others. Between two of its calls the
interrupts and the other processes may have done anything to that part; what reaches the terminal is
recorded.
-/

namespace LinuxLikeOS.Programs

open Function Blocks Fueled LinuxLikeOS.Task LinuxLikeOS.ProcessTable
  LinuxLikeOS.DescriptorRefinement

/-- What a process shares with the others: the global descriptor table and the devices. -/
structure Shared where
  files : Table
  console : Console
  rtc : Rtc

/-- All that a process does not determine itself: what is done to the shared part before its call of
each number, and what the kernel's stack and the keyboard hold during that call. -/
structure World where
  change : Nat → Shared → Shared
  residue : Nat → Residue
  wake : Nat → Console
  stack : Nat → GetArgs.Stack

structure Process where
  fds : Table
  shared : Shared
  argBuff : List UInt8
  memory : Memory
  calls : Nat
  /-- The bytes written to the terminal so far. -/
  printed : List UInt8

/-- What a pointer points to. -/
def behind (memory : Memory) (address : Nat) : Memory := fun i => memory (address + i)

/-- The memory after a call has stored through its argument. -/
def storedAt (writes : Writes) (buf : Nat) (memory : Memory) : Memory := fun address =>
  if buf ≤ address then writes.apply (behind memory buf) (address - buf) else memory address

/-- A string argument of at most `limit` bytes with its NUL. -/
def stringArgument (memory : Memory) (address limit : Nat) : Option CString :=
  (firstNul (behind memory address) limit).bind fun length =>
    let chars := (List.range length).map (behind memory address)
    if noNul : 0 ∉ chars then some ⟨memory (address - 1), chars, noNul⟩ else none

/-- What a call hands to the terminal. -/
def output (fds : Table) : Call → List UInt8
  | .write fd (some buf) nbytes =>
      match descriptor? fd with
      | some index =>
          if index ≠ 0 ∧ (fds index).flags = .open ∧ (fds index).fops = .terminal then
            Console.written buf nbytes.toInt
          else []
      | none => []
  | _ => []

section

variable (image : Image) (world : World)

namespace Process

/-- The shared part when the next call starts. -/
def meets (process : Process) : Shared := world.change process.calls process.shared

def task (process : Process) : Task :=
  ⟨process.fds, (process.meets world).files, (process.meets world).console, (process.meets world).rtc⟩

/-- After a call that stored at `buf`. -/
def resumed (process : Process) (request : Call) (buf : Nat) (result : Result) (task : Task) : Process where
  fds := task.fds
  shared := ⟨task.files, task.console, task.rtc⟩
  argBuff := process.argBuff
  memory := storedAt result.writes buf process.memory
  calls := process.calls + 1
  printed := process.printed ++ output process.fds request

def request (process : Process) (request : Call) (buf : Nat) : Fueled Nat (Int × Process) :=
  OptionT.mk (pure (((process.task world).call image request).map fun (result, task) =>
    (result.ret, process.resumed request buf result task)))

end Process

def ece391Open (fuel filename : Nat) (process : Process) : Fueled Nat (Int × Process) :=
  match stringArgument process.memory filename fuel with
  | none => OptionT.mk (pure none)
  | some fname => process.request image world (.open fname (world.residue process.calls)) 0

def ece391Read (fd : Int) (buf : Nat) (nbytes : Int) (process : Process) : Fueled Nat (Int × Process) :=
  process.request image world (.read (Int32.ofInt fd) (some (behind process.memory buf)) (Int32.ofInt nbytes)
    (world.wake process.calls) (world.residue process.calls)) buf

def ece391Write (fd : Int) (buf : Nat) (nbytes : Int) (process : Process) : Fueled Nat (Int × Process) :=
  process.request image world (.write (Int32.ofInt fd) (some (behind process.memory buf)) (Int32.ofInt nbytes)) 0

def ece391Close (fd : Int) (process : Process) : Fueled Nat (Int × Process) :=
  process.request image world (.close (Int32.ofInt fd)) 0

def ece391Getargs (buf : Nat) (nbytes : Int) (process : Process) : Fueled Nat (Int × Process) :=
  OptionT.mk (pure ((GetArgs.getargs process.argBuff (some (behind process.memory buf)) (Int32.ofInt nbytes)
    (world.stack process.calls)).map fun result =>
      (result.ret, { process with
        memory := storedAt result.writes buf process.memory, calls := process.calls + 1 })))

def ece391Fdputs (fuel : Nat) (fd : Int) (s : Nat) (process : Process) : Fueled Nat Process := do
  let len ← ece391Strlen fuel s process.memory
  let (_, process) ← ece391Write image world fd s len process
  pure process

/-- `ece391_fdputs` of a literal, which stands in memory of its own. -/
def fdputsLiteral (fd : Int) (text : List UInt8) (process : Process) : Fueled Nat Process := do
  let (_, process) ← process.request image world
    (.write (Int32.ofInt fd) (some fun i => text.getD i 0) (Int32.ofInt text.length)) 0
  pure process

end

/-- Nobody else runs, and the stack holds zeros. -/
def World.quiet : World where
  change _ shared := shared
  residue _ := .zeros
  wake _ := Console.loaded
  stack _ := ⟨fun _ => 0, fun _ => 0⟩

/-- A process that has just been started with a command, on devices as they are loaded. -/
def Process.started (command : String) : Process :=
  ⟨initFds unusedTable, ⟨fileSystemInit unusedTable, Console.loaded, ⟨0, false⟩⟩, ascii command.toList, fun _ => 0, 0, []⟩

/-! ## What the calls do -/

/-- The global table has a closed descriptor. -/
def Room (shared : Shared) : Prop := firstClosed shared.files ≠ none

theorem room_started (command : String) : Room (Process.started command).shared := by
  have closed : firstClosed (fileSystemInit unusedTable) ≠ none := by decide
  exact closed

/-- The others never take the last descriptor of the global table. -/
def World.Considerate (world : World) : Prop := ∀ n shared, Room shared → Room (world.change n shared)

/-- Nothing happens between the calls. -/
def World.Quiet (world : World) : Prop := ∀ n shared, world.change n shared = shared

/-- The console after a text has been written to the displayed terminal. -/
def shown (console : Console) (text : List UInt8) : Console :=
  { console with screen := console.screen.puts console.currentTerminal text }

theorem shown_append (console : Console) (first second : List UInt8) :
    shown (shown console first) second = shown console (first ++ second) :=
  congrArg (fun screen => { console with screen := screen })
    (Screen.puts_append console.screen console.currentTerminal first second).symm

/-- What a part of a program does besides to memory and descriptors. -/
structure Does (world : World) (steady : Prop) (before after : Process) (text : List UInt8) : Prop where
  argBuff : after.argBuff = before.argBuff
  printed : after.printed = before.printed ++ text
  /-- The global table stays with a closed descriptor, in a world where it does. -/
  room : steady → Room before.shared → Room after.shared
  /-- On its own, it has done to the console what it has printed. -/
  console : world.Quiet → after.shared.console = shown before.shared.console text

/-- It prints the text and does nothing else. -/
structure Prints (world : World) (steady : Prop) (before after : Process) (text : List UInt8) : Prop extends
    Does world steady before after text where
  fds : after.fds = before.fds
  memory : after.memory = before.memory

section

variable {image : Image} {world : World} {process before middle after : Process} {first second : List UInt8}
  {P : Nat → Prop} {Q : Int × Process → Prop} {steady : Prop}

theorem Does.refl (world : World) (steady : Prop) (process : Process) : Does world steady process process [] :=
  ⟨rfl, (List.append_nil _).symm, fun _ room => room, fun _ => rfl⟩

theorem Does.trans (early : Does world steady before middle first) (late : Does world steady middle after second) :
    Does world steady before after (first ++ second) where
  argBuff := late.argBuff.trans early.argBuff
  printed := by rw [late.printed, early.printed, List.append_assoc]
  room isSteady start := late.room isSteady (early.room isSteady start)
  console quiet := by rw [late.console quiet, early.console quiet, shown_append]

theorem Prints.refl (world : World) (steady : Prop) (process : Process) : Prints world steady process process [] :=
  ⟨Does.refl world steady process, rfl, rfl⟩

theorem Prints.trans (early : Prints world steady before middle first)
    (late : Prints world steady middle after second) :
    Prints world steady before after (first ++ second) :=
  ⟨early.toDoes.trans late.toDoes, late.fds.trans early.fds, late.memory.trans early.memory⟩

theorem returns_request {request : Call} {buf : Nat} {result : Result} {task : Task}
    (answered : (process.task world).call image request = some (result, task))
    (holds : Q (result.ret, process.resumed request buf result task)) :
    Returns P Q (process.request image world request buf) := by
  unfold Process.request
  rw [answered]
  exact ⟨nofun, _, rfl, holds⟩

theorem storedAt_nothing (buf : Nat) (memory : Memory) : storedAt .nothing buf memory = memory := by
  funext address
  unfold storedAt
  by_cases inside : buf ≤ address
  · rw [if_pos inside]
    show memory (buf + (address - buf)) = memory address
    rw [Nat.add_sub_cancel' inside]
  · rw [if_neg inside]

/-- What a read of a file leaves in memory: the data, and zeros up to the size asked for. -/
theorem stored_file (memory : Memory) (buf : Nat) {n : Nat} {chunk : List UInt8} (fits : chunk.length ≤ n) :
    storedAt ((Writes.fill n 0).andThen (.copy (fun i => chunk.getD i 0) chunk.length)) buf memory =
      written memory buf (chunk ++ List.replicate (n - chunk.length) 0) := by
  funext address
  unfold storedAt written
  by_cases inside : buf ≤ address
  · rw [if_pos inside, if_pos inside]
    have place : behind memory buf (address - buf) = memory address :=
      congrArg memory (Nat.add_sub_cancel' inside)
    unfold Writes.apply
    rw [place]
    refine congrArg (fun byte : Option UInt8 => byte.getD (memory address)) ?_
    generalize address - buf = i
    unfold Writes.andThen Writes.copy Writes.fill
    by_cases early : i < chunk.length
    · rw [if_pos early, List.getElem?_append_left early, List.getElem?_eq_getElem early, Option.some_or]
      exact congrArg some (List.getD_eq_getElem _ _ early)
    · rw [if_neg early, Option.none_or, List.getElem?_append_right (Nat.le_of_not_lt early),
        List.getElem?_replicate]
      exact if_congr (by omega) rfl rfl
  · rw [if_neg inside, if_neg inside]

theorem descriptor_val (fd : Fin 8) : descriptor? (Int32.ofInt fd.val) = some fd := by
  have each : ∀ fd : Fin 8, descriptor? (Int32.ofInt fd.val) = some fd := by decide
  exact each fd

theorem firstNul_of_stringAt {memory : Memory} {address limit : Nat} {text : List UInt8}
    (string : StringAt memory address text) (room : text.length < limit) :
    firstNul (behind memory address) limit = some text.length :=
  firstNul_eq_some.mpr ⟨room, string.nul, fun _ less => string.ne_zero less⟩

theorem map_behind {memory : Memory} {address : Nat} {text : List UInt8} (string : StringAt memory address text) :
    (List.range text.length).map (behind memory address) = text := by
  refine List.ext_getElem (by simp) fun i _ inside => ?_
  rw [List.getElem_map, List.getElem_range]
  exact string.chars i inside

theorem stringArgument_of_stringAt {memory : Memory} {address limit : Nat} {text : List UInt8}
    (string : StringAt memory address text) (room : text.length < limit) :
    stringArgument memory address limit = some ⟨memory (address - 1), text, string.noNul⟩ := by
  simp only [stringArgument, firstNul_of_stringAt string room, Option.bind_some, map_behind string, string.noNul,
    not_false_eq_true, dif_pos]

/-- The answer to a write to descriptor 1 of a process that has it on the terminal. -/
theorem write_answered (standard : StandardOpen process.fds) (buf : Memory) {n : Nat} (small : n < 2 ^ 31) :
    (process.task world).call image (.write (Int32.ofInt 1) (some buf) (Int32.ofInt n)) =
      some (.plain n, ((process.task world).terminalWrite buf n).2) := by
  have terminal := standard 1 (by decide)
  have size : (Int32.ofInt n).toInt = n := Int32.toInt_ofInt_of_le (by omega) (by omega)
  have named : descriptor? (Int32.ofInt 1) = some 1 := descriptor_val 1
  have open1 : ¬ ((1 : Fin 8) = 0 ∨ (process.fds 1).flags = .close) := by
    rw [terminal.1]
    decide
  simp only [Task.call, Task.write, Process.task, named, size, if_neg open1, terminal.2, driverWrite, Option.map_some]
  rfl

theorem write_returns (considerate : steady → world.Considerate) (standard : StandardOpen process.fds) (buf : Memory)
    {n : Nat} (small : n < 2 ^ 31) (place : Nat) :
    Returns P (fun answer => answer.1 = (n : Int) ∧ Prints world steady process answer.2 ((List.range n).map buf))
      (process.request image world (.write (Int32.ofInt 1) (some buf) (Int32.ofInt n)) place) := by
  have terminal := standard 1 (by decide)
  have size : (Int32.ofInt n).toInt = n := Int32.toInt_ofInt_of_le (by omega) (by omega)
  have named : descriptor? (Int32.ofInt 1) = some 1 := descriptor_val 1
  refine returns_request (write_answered standard buf small)
    ⟨rfl, ⟨⟨rfl, ?_, ?_, fun quiet => ?_⟩, rfl, storedAt_nothing place _⟩⟩
  · have text : output process.fds (.write (Int32.ofInt 1) (some buf) (Int32.ofInt n)) = (List.range n).map buf := by
      have open1 : (1 : Fin 8) ≠ 0 ∧ (process.fds 1).flags = .open ∧ (process.fds 1).fops = .terminal :=
        ⟨by decide, terminal⟩
      simp only [output, named, if_pos open1, size]
      rfl
    show process.printed ++ output process.fds _ = _
    rw [text]
  · exact fun isSteady room => considerate isSteady process.calls process.shared room
  · show (process.meets world).console.terminalWrite buf n = _
    rw [Process.meets, quiet, Console.terminalWrite_eq]
    rfl

theorem fdputs_returns (considerate : steady → world.Considerate) (standard : StandardOpen process.fds) {s fuel : Nat}
    {text : List UInt8}
    (string : StringAt process.memory s text) (enough : text.length < fuel) (small : text.length < 2 ^ 31)
    (readable : ∀ address, Within s (text.length + 1) address → P address) :
    Returns P (fun after => Prints world steady process after text) (ece391Fdputs image world fuel 1 s process) := by
  refine (strlen_returns string enough readable).bind ?_
  rintro _ rfl
  refine (write_returns considerate standard (behind process.memory s) small 0).bind ?_
  rintro ⟨cnt, after⟩ ⟨-, prints⟩
  rw [map_behind string] at prints
  exact returns_pure prints

theorem fdputsLiteral_returns (considerate : steady → world.Considerate) (standard : StandardOpen process.fds)
    {text : List UInt8} (small : text.length < 2 ^ 31) :
    Returns P (fun after => Prints world steady process after text) (fdputsLiteral image world 1 text process) := by
  refine (write_returns considerate standard (fun i => text.getD i 0) small 0).bind ?_
  rintro ⟨cnt, after⟩ ⟨-, prints⟩
  have whole : (List.range text.length).map (fun i => text.getD i 0) = text :=
    List.ext_getElem (by simp) fun i _ inside => by simp [inside]
  rw [whole] at prints
  exact returns_pure prints

/-! ## Descriptors -/

theorem firstClosed_ne_none {table : Table} {fd : Fin 8} (closed : (table fd).flags = .close) :
    firstClosed table ≠ none := by
  unfold firstClosed
  rw [ne_eq, List.find?_eq_none]
  exact fun none => none fd (List.mem_finRange fd) (by simp [closed])

theorem firstClosed_initFds (stale : Table) : firstClosed (initFds stale) = some 2 :=
  firstClosed_eq_some.mpr ⟨rfl, fun lower less => (initFds_standardOpen stale lower less).1⟩

theorem firstClosed_of_flags {table other : Table} (same : ∀ fd, (other fd).flags = (table fd).flags) :
    firstClosed other = firstClosed table := by
  unfold firstClosed
  simp only [same]

/-- A driver's `open` does not mark the descriptor it takes, and leaves the console alone. -/
theorem driverOpen_kept {fops : Fops} {fname : CString} {residue : Residue} {task opened : Task} {ret : Int}
    (answered : task.driverOpen image fops fname residue = some (ret, opened)) :
    (∀ fd, (opened.files fd).flags = (task.files fd).flags) ∧ opened.console = task.console := by
  have kept : ∀ (other : Fin 8) (inode : Nat) (fd : Fin 8),
      ((task.setFile other { task.files other with inode := inode, filePosition := 0 }).files fd).flags =
        (task.files fd).flags := by
    intro other inode fd
    show (update task.files other _ fd).flags = _
    by_cases same : fd = other
    · rw [same, update_self]
    · rw [update_of_ne same]
  cases fops with
  | rtc | terminal =>
      cases answered
      exact ⟨fun _ => rfl, rfl⟩
  | null | blank => cases answered
  | file | directory =>
      obtain ⟨slot, -, given⟩ := Option.map_eq_some_iff.mp answered
      cases slot with
      | none =>
          cases given
          exact ⟨fun _ => rfl, rfl⟩
      | some found =>
          cases given
          exact ⟨kept _ _, rfl⟩

/-- An entry with a driver that is ready opens on the first closed descriptor. -/
theorem openRequest_returns (considerate : steady → world.Considerate) {dentry : Dentry} {fd : Fin 8} (fname : CString)
    (found : image.readDentryByName fname (world.residue process.calls).dentry = .found dentry)
    (typed : dentry.filetype ≤ 2) (free : firstClosed process.fds = some fd)
    (ready : dentry.filetype = 0 ∨ HasSlot (process.meets world).files (world.residue process.calls)) :
    Returns P (fun answer => answer.1 = (fd.val : Int) ∧ Does world steady process answer.2 [] ∧
        answer.2.fds = update process.fds fd ⟨getFopsTable dentry.filetype, dentry.inodeNum, 0, .open⟩ ∧
        answer.2.memory = process.memory)
      (process.request image world (.open fname (world.residue process.calls)) 0) := by
  let marked := (process.task world).setFd fd ⟨getFopsTable dentry.filetype, dentry.inodeNum, 0, .open⟩
  obtain ⟨ret, opened, answered, valid, table⟩ := driverOpen_answers found typed marked ready
  have called : (process.task world).call image (.open fname (world.residue process.calls)) =
      some (.plain fd.val, opened) := by
    have free' : firstClosed (process.task world).fds = some fd := free
    simp only [Task.call, Task.open, found, free', answered, Option.map_some, if_neg valid, marked]
  obtain ⟨flags, console⟩ := driverOpen_kept answered
  refine returns_request called ⟨rfl, ⟨rfl, rfl, fun isSteady room => ?_, fun quiet => ?_⟩, table, storedAt_nothing 0 _⟩
  · show firstClosed opened.files ≠ none
    rw [firstClosed_of_flags flags]
    exact considerate isSteady process.calls process.shared room
  · show opened.console = process.shared.console
    rw [console, ← congrArg Shared.console (quiet process.calls process.shared)]
    rfl

theorem open_returns (considerate : steady → world.Considerate) {filename : Nat} {fuel : Nat} {dentry : Dentry}
    {fd : Fin 8} (fname : CString) (given : stringArgument process.memory filename fuel = some fname)
    (found : image.readDentryByName fname (world.residue process.calls).dentry = .found dentry)
    (typed : dentry.filetype ≤ 2) (free : firstClosed process.fds = some fd)
    (ready : dentry.filetype = 0 ∨ HasSlot (process.meets world).files (world.residue process.calls)) :
    Returns P (fun answer => answer.1 = (fd.val : Int) ∧ Does world steady process answer.2 [] ∧
        answer.2.fds = update process.fds fd ⟨getFopsTable dentry.filetype, dentry.inodeNum, 0, .open⟩ ∧
        answer.2.memory = process.memory)
      (ece391Open image world fuel filename process) := by
  unfold ece391Open
  rw [given]
  exact openRequest_returns considerate fname found typed free ready

/-- A read on a descriptor that is not on the terminal does not wait for the keyboard. -/
theorem read_eq_driver (image : Image) {task : Task} {called : Int32} {fd : Fin 8} {buf : Memory}
    (passed : readTarget task.fds called (some buf) = some fd) (other : (task.fds fd).fops ≠ .terminal)
    (nbytes : Int32) (wake : Console) (residue : Residue) :
    task.read image called (some buf) nbytes wake residue =
      leaveRead image fd buf nbytes.toInt residue { task with files := task.fds } := by
  simp only [Task.read, readable_eq, passed, Option.bind_some, Option.map_some, enterRead, if_neg other]

/-- A read on an open descriptor, in terms of the driver's answer on the table of the process. -/
theorem driverRead_returns (result : Result) (descriptor : FileDescriptor) {fd : Fin 8} {n buf : Nat}
    (notStdout : fd ≠ 1) (opened : (process.fds fd).flags = .open)
    (small : n < 2 ^ 31) (other : (process.fds fd).fops ≠ .terminal) (flags : descriptor.flags = .open)
    (answered : ∀ console rtc, ∃ after, driverRead image (process.fds fd).fops fd (behind process.memory buf) n
      (world.residue process.calls) ⟨process.fds, process.fds, console, rtc⟩ = some (result, after) ∧
        after.files = update process.fds fd descriptor ∧ after.console = console)
    (spare : steady → firstClosed process.fds ≠ none) :
    Returns P (fun answer => answer.1 = result.ret ∧ Does world steady process answer.2 [] ∧
        answer.2.fds = update process.fds fd descriptor ∧
        answer.2.memory = storedAt result.writes buf process.memory)
      (ece391Read image world fd.val buf n process) := by
  have size : (Int32.ofInt n).toInt = n := Int32.toInt_ofInt_of_le (by omega) (by omega)
  have passed : readTarget (process.task world).fds (Int32.ofInt fd.val) (some (behind process.memory buf)) = some fd :=
    readTarget_eq_some.mpr ⟨descriptor_val fd, Option.some_ne_none _, notStdout, opened⟩
  have read := read_eq_driver image passed other (Int32.ofInt n) (world.wake process.calls)
    (world.residue process.calls)
  obtain ⟨after, driver, files, console⟩ := answered (process.task world).console (process.task world).rtc
  rw [size] at read
  have called : (process.task world).call image (.read (Int32.ofInt fd.val) (some (behind process.memory buf))
      (Int32.ofInt n) (world.wake process.calls) (world.residue process.calls)) =
        some (result, { after with fds := after.files }) :=
    read.trans (congrArg (Option.map _) driver)
  refine returns_request called ⟨rfl, ⟨rfl, rfl, fun isSteady _ => ?_, fun quiet => ?_⟩, files, rfl⟩
  have same : ∀ index : Fin 8, (after.files index).flags = (process.fds index).flags := by
    intro index
    rw [files]
    by_cases here : index = fd
    · rw [here, update_self, flags, opened]
    · rw [update_of_ne here]
  · show firstClosed after.files ≠ none
    rw [firstClosed_of_flags same]
    exact spare isSteady
  · show after.console = process.shared.console
    rw [console, ← congrArg Shared.console (quiet process.calls process.shared)]
    rfl

/-- A read of a file on a descriptor of the process, into `n` bytes of memory. -/
theorem read_returns {fd : Fin 8} {inode position n buf : Nat} (notStdout : fd ≠ 1)
    (opened : process.fds fd = ⟨.file, inode, position, .open⟩) (present : inode < image.inodeCount)
    (fits : image.length inode ≤ 1023 * 4096) (inside : position ≤ image.length inode) (small : n < 2 ^ 31)
    (spare : steady → firstClosed process.fds ≠ none) :
    Returns P (fun answer =>
        let chunk := ((image.file inode).drop position).take n
        answer.1 = (chunk.length : Int) ∧ Does world steady process answer.2 [] ∧
          answer.2.fds = update process.fds fd ⟨.file, inode, position + chunk.length, .open⟩ ∧
          answer.2.memory = written process.memory buf (chunk ++ List.replicate (n - chunk.length) 0))
      (ece391Read image world fd.val buf n process) := by
  have asked : toUnsigned (n : Int) = n := by
    have exact := toUnsigned_of_nonneg (Int.natCast_nonneg n) (by omega)
    omega
  have data := image.readData_eq present fits position n
  generalize chunkIs : ((image.file inode).drop position).take n = chunk at data ⊢
  have length : chunk.length = min n (image.length inode - position) := by rw [← chunkIs]; simp
  have moved : (position + chunk.length) % 2 ^ 32 = position + chunk.length := Nat.mod_eq_of_lt (by omega)
  refine (driverRead_returns
    ⟨chunk.length, (Writes.fill n 0).andThen (.copy (fun i => chunk.getD i 0) chunk.length)⟩
    ⟨.file, inode, position + chunk.length, .open⟩ notStdout (by rw [opened]) small (by rw [opened]; nofun) rfl
    (fun console rtc => ?_) spare).imp ?_
  · simp only [opened, driverRead, fileRead, asked, data, moved]
    exact ⟨_, rfl, rfl, rfl⟩
  · rintro ⟨cnt, after⟩ ⟨counted, does, table, stored⟩
    exact ⟨counted, does, table, stored.trans (stored_file process.memory buf (by omega))⟩

/-- A read of the RTC returns 0 when an interrupt has come, and stores nothing. -/
theorem readRtc_returns {fd : Fin 8} {inode position n buf : Nat} (notStdout : fd ≠ 1)
    (opened : process.fds fd = ⟨.rtc, inode, position, .open⟩) (small : n < 2 ^ 31)
    (spare : steady → firstClosed process.fds ≠ none) :
    Returns P (fun answer => answer.1 = 0 ∧ Does world steady process answer.2 [] ∧ answer.2.fds = process.fds ∧
        answer.2.memory = process.memory)
      (ece391Read image world fd.val buf n process) := by
  refine (driverRead_returns (.plain 0) ⟨.rtc, inode, position, .open⟩ notStdout (by rw [opened]) small
    (by rw [opened]; nofun) rfl (fun console rtc => ?_) spare).imp ?_
  · refine ⟨_, by rw [opened]; rfl, ?_, rfl⟩
    rw [← opened, update_eq_self]
  · rintro ⟨cnt, after⟩ ⟨counted, does, table, stored⟩
    rw [← opened, update_eq_self] at table
    exact ⟨counted, does, table, stored.trans (storedAt_nothing buf _)⟩

theorem storedAt_outside {writes : Writes} {n buf address : Nat} (within : writes.Within n)
    (outside : ¬ Within buf n address) (memory : Memory) : storedAt writes buf memory address = memory address := by
  unfold storedAt
  by_cases inside : buf ≤ address
  · have untouched : writes (address - buf) = none := by
      by_contra stored
      have less := within _ stored
      unfold Blocks.Within at outside
      omega
    rw [if_pos inside, Writes.apply, untouched]
    exact congrArg memory (Nat.add_sub_cancel' inside)
  · rw [if_neg inside]

theorem storedAt_inside (writes : Writes) (buf i : Nat) (memory : Memory) :
    storedAt writes buf memory (buf + i) = writes.apply (behind memory buf) i := by
  unfold storedAt
  rw [if_pos (Nat.le_add_right buf i), Nat.add_sub_cancel_left]

theorem dirReadWrites_within (dentry : Dentry) (length : Nat) : (dirReadWrites dentry length 32).Within 33 := by
  have asked : toUnsigned 32 = 32 := by decide
  unfold dirReadWrites
  simp only [asked, Writes.within_andThen, Writes.within_fill, Writes.within_copy, Writes.within_put]
  refine ⟨⟨by omega, ?_⟩, ?_⟩
  · split <;> omega
  · split <;> omega

theorem name_eq {dentry : Dentry} {length : Nat} (terminated : dentry.strlen = some length) :
    dentry.name = (List.range (min length 32)).map dentry.byte := by
  rw [Dentry.name, Dentry.nameLength_of_strlen terminated]

theorem name_noNul (dentry : Dentry) : 0 ∉ dentry.name := by
  intro member
  obtain ⟨i, inside, nul⟩ := List.mem_map.mp member
  exact Dentry.byte_ne_zero_of_lt_nameLength (List.mem_range.mp inside) nul

/-- A read of 32 bytes from a directory stores the name of the entry at its position, with a NUL: 33 bytes
at most. -/
theorem readDir_returns {fd : Fin 8} {inode position buf : Nat} (notStdout : fd ≠ 1)
    (opened : process.fds fd = ⟨.directory, inode, position, .open⟩)
    (terminated : position < image.inodeCount → (image.direntry position).strlen ≠ none)
    (spare : steady → firstClosed process.fds ≠ none) :
    Returns P (fun answer => Does world steady process answer.2 [] ∧
        answer.2.fds = update process.fds fd ⟨.directory, inode, (position + 1) % 2 ^ 32, .open⟩ ∧
        (∀ address, ¬ Within buf 33 address → answer.2.memory address = process.memory address) ∧
        if position < image.inodeCount then
          answer.1 = ((image.direntry position).name.length : Int) ∧
            StringAt answer.2.memory buf (image.direntry position).name
        else answer.1 = 0)
      (ece391Read image world fd.val buf 32 process) := by
  have room : (32 : Int) ≤ 32 := by decide
  let moved : FileDescriptor := ⟨.directory, inode, (position + 1) % 2 ^ 32, .open⟩
  rcases image.readDentryByIndex_cases position (world.residue process.calls).dentry with
    ⟨past, lookup⟩ | ⟨inside, unterminated, -⟩ | ⟨stop, copied, inside, ended, lookup, length, agree⟩
  · refine (driverRead_returns (.plain 0) moved (n := 32) notStdout (by rw [opened]) (by decide)
      (by rw [opened]; nofun) rfl (fun console rtc => ?_) spare).imp ?_
    · simp only [opened, driverRead, dirRead, lookup]
      exact ⟨_, rfl, rfl, rfl⟩
    · rintro ⟨cnt, after⟩ ⟨counted, does, table, stored⟩
      rw [Result.plain, storedAt_nothing] at stored
      rw [if_neg (Nat.not_lt_of_le past)]
      exact ⟨does, table, fun address _ => congrFun stored address, counted⟩
  · exact absurd unterminated (terminated inside)
  · refine (driverRead_returns ⟨(min stop 32 : Nat), dirReadWrites copied stop 32⟩ moved (n := 32) notStdout
      (by rw [opened]) (by decide) (by rw [opened]; nofun) rfl (fun console rtc => ?_) spare).imp ?_
    · have asked : (32 : Int) ≤ ((32 : Nat) : Int) := by decide
      have counted := DirectoryListing.dirRead_strlen asked (by decide) (behind process.memory buf) length
      simp only [opened, driverRead, dirRead, lookup, length, Option.map_some, counted]
      exact ⟨_, rfl, rfl, rfl⟩
    · rintro ⟨cnt, after⟩ ⟨counted, does, table, stored⟩
      have name := name_eq ended
      have size : (image.direntry position).name.length = min stop 32 := by rw [name]; simp
      rw [if_pos inside]
      refine ⟨does, table, fun address outside => ?_, by rw [size]; exact counted, ?_, name_noNul _, ?_⟩
      · rw [stored]
        exact storedAt_outside (dirReadWrites_within copied stop) outside _
      · intro i less
        rw [size] at less
        have byte : (dirReadWrites copied stop 32).apply (behind process.memory buf) i = copied.byte i :=
          DirectoryListing.dirReadWrites_apply room (by decide) _ less
        rw [stored, storedAt_inside, byte, agree i (by omega)]
        simp [name]
      · rw [size, stored, storedAt_inside]
        exact dirReadWrites_nul copied stop 32 _

theorem driverClose_named {fops : Fops} (driven : fops = .rtc ∨ fops = .directory ∨ fops = .file) {fd : Fin 8}
    (high : 1 < fd.val) (task : Task) :
    ∃ closed, task.driverClose fops fd = some (0, closed) ∧ closed.fds = task.fds ∧
      (firstClosed task.files ≠ none → firstClosed closed.files ≠ none) ∧ closed.console = task.console := by
  have marked : ((task.fileClose fd).2.files fd).flags = .close := by
    rw [fileClose, if_pos high]
    show (update task.files fd { task.files fd with flags := .close } fd).flags = .close
    rw [update_self]
  have answer : task.fileClose fd = (0, (task.fileClose fd).2) ∧ (task.fileClose fd).2.fds = task.fds ∧
      (task.fileClose fd).2.console = task.console := by
    rw [fileClose, if_pos high]
    exact ⟨rfl, rfl, rfl⟩
  rcases driven with rfl | rfl | rfl
  · exact ⟨task, rfl, rfl, id, rfl⟩
  · exact ⟨_, congrArg some answer.1, answer.2.1, fun _ => firstClosed_ne_none marked, answer.2.2⟩
  · exact ⟨_, congrArg some answer.1, answer.2.1, fun _ => firstClosed_ne_none marked, answer.2.2⟩

/-- A descriptor that was opened by name is closed. -/
theorem close_returns (considerate : steady → world.Considerate) {fd : Fin 8} (high : 2 ≤ fd.val)
    (opened : (process.fds fd).flags = .open)
    (driven : (process.fds fd).fops = .rtc ∨ (process.fds fd).fops = .directory ∨ (process.fds fd).fops = .file) :
    Returns P (fun answer => answer.1 = 0 ∧ Does world steady process answer.2 [] ∧
        answer.2.fds = update process.fds fd { process.fds fd with flags := .close } ∧
        answer.2.memory = process.memory)
      (ece391Close image world fd.val process) := by
  have accepted : ¬ (fd.val < 2 ∨ ((process.task world).fds fd).flags = .close) := by
    show ¬ (fd.val < 2 ∨ (process.fds fd).flags = .close)
    rw [opened]
    exact fun either => either.elim (Nat.not_lt_of_le high) nofun
  let marked := (process.task world).setFd fd { (process.task world).fds fd with flags := .close }
  obtain ⟨closed, answered, table, room, console⟩ := driverClose_named driven high marked
  have called : (process.task world).call image (.close (Int32.ofInt fd.val)) = some (.plain 0, closed) := by
    simp only [Task.call, Task.close, descriptor_val, if_neg accepted]
    exact congrArg (Option.map _) answered
  refine returns_request called ⟨rfl, ⟨rfl, rfl, fun isSteady start => ?_, fun quiet => ?_⟩, table, storedAt_nothing 0 _⟩
  · exact room (considerate isSteady process.calls process.shared start)
  · show closed.console = process.shared.console
    rw [console, ← congrArg Shared.console (quiet process.calls process.shared)]
    rfl

/-- The arguments, in a buffer of 128 bytes or more. -/
theorem getargs_returns (steady : Prop) (noNul : 0 ∉ process.argBuff) (stored : process.argBuff.length ≤ 127)
    (given : Kernel.arguments process.argBuff ≠ []) {n : Nat} (room : 128 ≤ n) (small : n < 2 ^ 31) (buf : Nat) :
    Returns P (fun answer => answer.1 = 0 ∧ Does world steady process answer.2 [] ∧ answer.2.fds = process.fds ∧
        (∀ address, ¬ Within buf n address → answer.2.memory address = process.memory address) ∧
        StringAt answer.2.memory buf (Kernel.arguments process.argBuff) ∧
        answer.2.shared = process.shared ∧ answer.2.calls = process.calls + 1)
      (ece391Getargs world buf n process) := by
  have size : (Int32.ofInt n).toInt = n := Int32.toInt_ofInt_of_le (by omega) (by omega)
  have sublist := GetArgs.arguments_sublist process.argBuff
  have short : (Kernel.arguments process.argBuff).length ≤ 127 := sublist.length_le.trans stored
  have positive : 1 ≤ (Int32.ofInt n).toInt := by omega
  have accepted := GetArgs.getargs_accepted noNul stored positive given (by omega) (behind process.memory buf)
    (world.stack process.calls)
  rw [size, Int.toNat_natCast] at accepted
  unfold ece391Getargs
  rw [accepted]
  refine ⟨nofun, _, rfl, rfl, ⟨rfl, (List.append_nil _).symm, fun _ room => room, fun _ => rfl⟩, rfl, ?_, ?_⟩
  · intro address outside
    exact storedAt_outside (Writes.within_copy.mpr (Nat.le_refl n)) outside _
  · have byte : ∀ i ≤ (Kernel.arguments process.argBuff).length,
        storedAt (.copy ((CommandLine.args process.argBuff).apply (world.stack process.calls).args) n) buf
          process.memory (buf + i) = (Kernel.arguments process.argBuff).getD i 0 := by
      intro i inside
      rw [storedAt_inside, Writes.apply, Writes.copy, if_pos (by omega), Option.getD_some,
        GetArgs.args_apply _ short, if_pos (by omega)]
    refine ⟨⟨fun i inside => ?_, fun member => noNul (sublist.subset member), ?_⟩, rfl, rfl⟩
    · rw [← List.getD_eq_getElem _ 0 inside]
      exact byte i (Nat.le_of_lt inside)
    · have last := byte _ (Nat.le_refl _)
      rwa [List.getD_eq_default _ _ (Nat.le_refl _)] at last

end

/-! ## Loops that read to the end -/

/-- The variables of a loop over what is read, with what `main` has returned. -/
structure Walking where
  returned : Option Int
  process : Process

/-- A loop that gets further in each round until its last one returns 0. -/
theorem walk_returns {P : Nat → Prop} {body : Walking → Fueled Nat Walking} {limit fuel : Nat} {process : Process}
    (place : Process → Nat) (At : Nat → Process → Prop) (Done : Process → Prop)
    (placed : ∀ {k process}, At k process → place process = k)
    (each : ∀ k process, k ≤ limit → At k process → Returns P (fun next =>
      (next.returned = none ∧ ∃ further, k < further ∧ further ≤ limit ∧ At further next.process) ∨
        next.returned = some 0 ∧ Done next.process) (body ⟨none, process⟩))
    (start : At 0 process) (enough : limit + 1 < fuel) :
    Returns P (fun walking => walking.returned = some 0 ∧ Done walking.process)
      (whileLoop (fun walking => pure walking.returned.isNone) body fuel ⟨none, process⟩) := by
  refine returns_while_pure (fun walking : Walking => walking.returned.isNone)
    (fun walking => (walking.returned = none ∧ ∃ k ≤ limit, At k walking.process) ∨
      walking.returned = some 0 ∧ Done walking.process) _
    (fun walking => if walking.returned.isNone then limit + 1 - place walking.process else 0) ?_ ?_
    (Or.inl ⟨rfl, 0, Nat.zero_le _, start⟩) ?_
  · rintro ⟨_, process⟩ (⟨rfl, k, inside, here⟩ | ⟨returned, -⟩) goes
    · have position : place process = k := placed here
      refine (each k process inside here).imp ?_
      rintro ⟨_, next⟩ (⟨rfl, further, more, most, there⟩ | ⟨rfl, there⟩)
      · have moved : place next = further := placed there
        refine ⟨Or.inl ⟨rfl, further, most, there⟩, ?_⟩
        show limit + 1 - place next < limit + 1 - place process
        omega
      · refine ⟨Or.inr ⟨rfl, there⟩, ?_⟩
        show 0 < limit + 1 - place process
        omega
    · rw [returned] at goes
      cases goes
  · rintro walking (⟨going, -⟩ | done) stops
    · rw [going] at stops
      cases stops
    · exact done
  · show limit + 1 - place process < fuel
    omega

end LinuxLikeOS.Programs

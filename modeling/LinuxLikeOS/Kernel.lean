import LinuxLikeOS.Descriptors
import LinuxLikeOS.Paging

/-!
# Processes (`systemcall.c`, `schedule.c`, `terminal.c`, `kernel.c`)

The state the kernel keeps about its processes, and the functions that start, end and switch
them. A process is a number from 0 to 5; its PCB lies at `8MB - 8KB * (pid + 1)`, at the
bottom of its kernel stack, and -1 stands for no process. What the C functions do to the
stack pointers by inline assembly is the transfer of control they end with; the ESP and EBP
of the running code are arguments.
-/

namespace LinuxLikeOS

open Function

/-- ESP and EBP. -/
structure Frame where
  esp : Nat
  ebp : Nat
  deriving DecidableEq

/-- `pcb_t`; `arg_buff` up to its NUL. -/
structure Pcb where
  pid : Int
  programEsp : Nat
  programEbp : Nat
  parentPid : Int
  parentEsp : Nat
  parentEbp : Nat
  systemcallFdArray : Table
  esp : Nat
  ss : Nat
  argBuff : List UInt8

def Pcb.zeros : Pcb := ⟨0, 0, 0, 0, 0, 0, unusedTable, 0, 0, []⟩

/-- `terminal_t`. -/
structure TerminalState where
  terminalCurrentPid : Int
  terminalEsp : Nat
  terminalEbp : Nat
  onOffFlag : Bool

/-- The fields of the TSS that change. -/
structure Tss where
  ss0 : Nat
  esp0 : Nat

structure Kernel where
  newPid : Int
  oldPid : Int
  progs : Int → Flag
  pcb : Int → Pcb
  terminalArray : Terminal → TerminalState
  schedTerminal : Terminal
  tempTerminal : Terminal
  paging : Paging
  tss : Tss
  /-- `file_descriptor_array`. -/
  files : Table
  console : Console
  rtc : Rtc

/-- `EIGHTMB - EIGHTKB * pid - 4`, the top of the kernel stack of a process. -/
def kernelStack (pid : Int) : Nat := toUnsigned (0x800000 - 0x2000 * pid - 4)

def kernelDs : Nat := 0x18

/-- Where control goes when a kernel function is done: back to its caller, to a program that
has just been loaded, to the `execute` that started the process that halted, or on with the
stack of another process. -/
inductive Transfer where
  | returns (ret : Int)
  | program (eip : Nat) (loaded : List UInt8)
  | parent (status : Int) (frame : Frame)
  | stack (frame : Frame)

/-- What the uninitialised locals of `execute` hold, the byte in front of `cur_file` included. -/
structure Locals where
  dentry : Dentry
  buf : Memory
  before : UInt8

def Locals.zeros : Locals := ⟨Residue.zeros.dentry, fun _ => 0, 0⟩

namespace Kernel

variable (kernel : Kernel)

/-- The kernel when `entry` enables interrupts. The PCBs are whatever the memory holds. -/
def entry (layout : Layout) (pcb : Int → Pcb) (rtc : Rtc) (leftovers : Leftovers) : Kernel where
  newPid := -1
  oldPid := 0
  progs := fun _ => .close
  pcb := pcb
  terminalArray := fun _ => ⟨-1, 0, 0, false⟩
  schedTerminal := 0
  tempTerminal := 0
  paging := Paging.pageInit layout Paging.loaded
  tss := ⟨kernelDs, 0x800000⟩
  files := fileSystemInit unusedTable
  console := Console.atEntry leftovers
  rtc := rtc

/-- `terminal_current_pid`. -/
def currentPid (terminal : Terminal) : Int := (kernel.terminalArray terminal).terminalCurrentPid

def setCurrentPid (terminal : Terminal) (pid : Int) : Kernel :=
  { kernel with
    terminalArray := update kernel.terminalArray terminal
      { kernel.terminalArray terminal with terminalCurrentPid := pid } }

def setOldPid (pid : Int) : Kernel := { kernel with oldPid := pid }

@[simp] theorem setOldPid_newPid (pid : Int) : (kernel.setOldPid pid).newPid = kernel.newPid := rfl

/-- What the system calls of the running process can reach. -/
def task : Task :=
  ⟨(kernel.pcb kernel.newPid).systemcallFdArray, kernel.files, kernel.console, kernel.rtc⟩

def setTask (task : Task) : Kernel :=
  { kernel with
    pcb := update kernel.pcb kernel.newPid
      { kernel.pcb kernel.newPid with systemcallFdArray := task.fds }
    files := task.files
    console := task.console
    rtc := task.rtc }

/-- What output and input do to the kernel. -/
def withConsole (console : Console) : Kernel := { kernel with console := console }

@[simp] theorem withConsole_newPid (console : Console) :
    (kernel.withConsole console).newPid = kernel.newPid := rfl

@[simp] theorem withConsole_schedTerminal (console : Console) :
    (kernel.withConsole console).schedTerminal = kernel.schedTerminal := rfl

def openTerminal (terminalId : Int) : Kernel :=
  kernel.withConsole (kernel.console.openTerminal terminalId)

/-! ## execute -/

/-- `cur_file`: the first word of the command; `none` when it has more than 32 bytes. A word
of 32 bytes has its NUL stored behind the array. -/
def curFile (command : CString) (before : UInt8) : Option CString :=
  let word := (command.chars.dropWhile (· == 32)).takeWhile (· != 32)
  if word.length > 32 then none
  else some ⟨before, word, fun member => command.noNul
    ((List.dropWhile_sublist _).subset ((List.takeWhile_sublist _).subset member))⟩

/-- `buf` after the first 42 bytes of the file have been read into it. -/
def header (image : Image) (inode : Nat) (buf : Memory) : Memory :=
  fun i => (image.readData inode 0 42).getD i (buf i)

def isElf (buf : Memory) : Bool := buf 0 == 0x7F && buf 1 == 0x45 && buf 2 == 0x4C && buf 3 == 0x46

/-- What the checks at the start of `execute` come to. -/
inductive Check where
  | rejected (ret : Int)
  | overrun
  | passed (eip : Nat) (loaded : List UInt8)

/-- The checks, and the entry point and the bytes of the program that passes them. -/
def check (image : Image) (command : CString) (locals : Locals) (newPid : Int) : Check :=
  match curFile command locals.before with
  | none => .rejected 0
  | some file =>
      if newPid ≥ 5 ∨ command.chars.length > 128 then .rejected (-1)
      else
        match image.readDentryByName file locals.dentry with
        | .failed => .rejected (-1)
        | .overrun => .overrun
        | .found dentry =>
            let buf := header image dentry.inodeNum locals.buf
            if isElf buf then
              .passed (word32 buf 24) (image.readData dentry.inodeNum 0 (image.length dentry.inodeNum))
            else .rejected (-1)

/-- The first slot that is `CLOSE`. -/
def freeSlot (progs : Int → Flag) : Option Int :=
  ((List.range 6).find? fun slot : Nat => progs slot == .close).map fun slot : Nat => (slot : Int)

/-- `execute` from the choice of a slot on: slots below 3 are for the shells of the terminals
and have no parent. -/
def start (slot : Int) (command : CString) (frame : Frame) : Kernel :=
  let oldPid := if slot < 3 then -1 else kernel.currentPid kernel.console.currentTerminal
  { kernel.setCurrentPid kernel.console.currentTerminal slot with
    newPid := slot
    oldPid := oldPid
    progs := update kernel.progs slot .open
    paging := kernel.paging.mapUser slot
    pcb := update kernel.pcb slot
      { pid := slot
        programEsp := kernelStack slot
        programEbp := kernelStack slot
        parentPid := oldPid
        parentEsp := frame.esp
        parentEbp := frame.ebp
        systemcallFdArray := initFds (kernel.pcb slot).systemcallFdArray
        esp := kernel.tss.esp0
        ss := kernel.tss.ss0
        argBuff := command.chars }
    tss := ⟨kernelDs, kernelStack slot⟩ }

/-- The output of `execute`, and the cleared keyboard buffer. -/
def begin : Kernel := kernel.withConsole (kernel.console.putc 10).clearBuffer

@[simp] theorem begin_newPid : kernel.begin.newPid = kernel.newPid := kernel.withConsole_newPid _

/-- `execute`, called with the given ESP and EBP. A program that does not fit into the 4MB
page faults while it is copied. -/
def execute (image : Image) (command : CString) (frame : Frame) (locals : Locals) (kernel : Kernel) :
    Option (Transfer × Kernel) :=
  match check image command locals kernel.newPid with
  | .rejected ret => some (.returns ret, kernel.begin)
  | .overrun => none
  | .passed eip loaded =>
      match freeSlot kernel.progs with
      | none =>
          some (.returns (-1), kernel.begin.setOldPid (kernel.currentPid kernel.console.currentTerminal))
      | some slot =>
          if 0x48000 + loaded.length > 0x400000 then none
          else some (.program eip loaded, kernel.begin.start slot command frame)

/-! ## halt -/

/-- The calls of `close` in `halt`. -/
def closeAll (task : Task) : Option Task :=
  (List.range 8).foldlM (fun task i => (task.close (Int32.ofNat i)).map Prod.snd) task

/-- `status_32bit`. -/
def status32 (status : UInt8) : Int := if status = 111 then 256 else status.toNat

/-- The output of `halt`. -/
def announce (status : UInt8) (kernel : Kernel) : Kernel :=
  kernel.withConsole
    ((if status = 42 then kernel.console.puts Console.userInterrupt else kernel.console).putc 10)

@[simp] theorem announce_newPid (status : UInt8) : (kernel.announce status).newPid = kernel.newPid :=
  kernel.withConsole_newPid _

@[simp] theorem announce_schedTerminal (status : UInt8) :
    (kernel.announce status).schedTerminal = kernel.schedTerminal :=
  kernel.withConsole_schedTerminal _

/-- `halt` up to its output: the process is gone and the terminal has its parent. -/
def leave (kernel : Kernel) : Option Kernel :=
  let pid := kernel.newPid
  let freed := { kernel with progs := update kernel.progs pid .close }
  (closeAll freed.task).map fun task =>
    let closed := freed.setTask task
    let pcb := closed.pcb pid
    { closed with
      oldPid := pid
      newPid := pcb.parentPid
      terminalArray := update closed.terminalArray closed.schedTerminal
        { closed.terminalArray closed.schedTerminal with
          terminalCurrentPid := pcb.parentPid
          terminalEsp := pcb.parentEsp
          terminalEbp := pcb.parentEbp }
      pcb := update closed.pcb pid { pcb with parentEsp := 0, parentEbp := 0 } }

/-- The end of `halt`: the page and the kernel stack of the parent. -/
def resume (kernel : Kernel) : Kernel :=
  { kernel with
    paging := kernel.paging.mapUser kernel.newPid
    tss := ⟨kernelDs, kernelStack kernel.newPid⟩ }

@[simp] theorem resume_newPid : kernel.resume.newPid = kernel.newPid := rfl

@[simp] theorem resume_schedTerminal : kernel.resume.schedTerminal = kernel.schedTerminal := rfl

/-- `halt`, by a running process; `inner` are ESP and EBP in the `execute` that restarts a
shell. Without a process there is no PCB to read. -/
def halt (image : Image) (status : UInt8) (inner : Frame) (locals : Locals) (kernel : Kernel) :
    Option (Transfer × Kernel) :=
  if kernel.newPid < 0 then none
  else
    let pcb := kernel.pcb kernel.newPid
    let back : Transfer := .parent (status32 status) ⟨pcb.parentEsp, pcb.parentEbp⟩
    (leave kernel).bind fun left =>
      let told := left.announce status
      if told.newPid = -1 then
        match execute image Image.shell inner locals told with
        | none => none
        | some (.returns _, after) => some (back, after.resume)
        | some (transfer, after) => some (transfer, after)
      else some (back, told.resume)

/-! ## exception_handler -/

def exceptionTexts : List String :=
  [" Divide Error Exception ", " Debug Exception ", " NMI Interrupt ", " Breakpoint ", " Overflow ",
    " BOUND Range Exceeded ", " Invalid Opcode (Undefined Opcode) ",
    " Device Not Available (No Math Coprocessor) ", " Double Fault ",
    " Coprocessor Segment Overrun(reserved) ", " Invalid TSS ", " Segment Not Present ",
    " Stack-Segment Fault ", " General Protection ", " Page Fault ", " Assertion Error ",
    " x87 FPU Floating-Point Error (Math Fault) ", " Alignment Check ", " Machine Check ",
    " SIMD Floating-Point Exception "]

def exceptionText (exceptionId : Nat) : Option String :=
  if exceptionId = 0x80 then some " System Call " else exceptionTexts[exceptionId]?

/-- `exception_handler`: the process is terminated; other vectors are ignored. -/
def exceptionHandler (image : Image) (exceptionId : Nat) (inner : Frame) (locals : Locals)
    (kernel : Kernel) :
    Option (Transfer × Kernel) :=
  match exceptionText exceptionId with
  | none => some (.returns 0, kernel)
  | some text =>
      (kernel.withConsole (kernel.console.puts (ascii text.toList))).halt image 111 inner locals

/-! ## vidmap and getargs -/

/-- `vidmap` stores the address 0x08800000 through its argument. -/
def vidmap (layout : Layout) (screenStart : Nat) (kernel : Kernel) : Result × Kernel :=
  if screenStart < 0x08000000 ∨ screenStart ≥ 0x08400000 - 4 then (.plain (-1), kernel)
  else
    (⟨0, .copy (byteOf 0x08800000) 4⟩,
      { kernel with paging := (kernel.paging.mapVideo layout).setVideoPage (0xB8000 / 2 ^ 12) })

/-- The words of a command after the first. -/
def arguments (command : List UInt8) : List UInt8 :=
  ((command.dropWhile (· == 32)).dropWhile (· != 32)).dropWhile (· == 32)

/-- `getargs`; it copies `nbytes` bytes of the 128-byte local `args`, with what lies behind. -/
def getargs (buf : Task.Buffer) (nbytes : Int32) (behind : Memory) (kernel : Kernel) : Result :=
  match buf with
  | none => .plain (-1)
  | some _ =>
      let args := arguments (kernel.pcb kernel.newPid).argBuff
      if nbytes.toInt < 1 ∨ args.length > nbytes.toInt ∨ args.length < 1 then .plain (-1)
      else ⟨0, .copy (fun i => if i < 128 then args.getD i 0 else behind i) nbytes.toInt.toNat⟩

/-- The entries of `jump_table` besides `halt` and `execute`. -/
inductive SystemCall where
  | descriptor (request : Call)
  | getargs (buf : Task.Buffer) (nbytes : Int32) (behind : Memory)
  | vidmap (screenStart : Nat)
  | setHandler (signum : Int32) (handlerAddress : Nat)
  | sigreturn

/-- A system call of the running process. -/
def serve (image : Image) (layout : Layout) (kernel : Kernel) : SystemCall → Option (Result × Kernel)
  | .descriptor request =>
      (kernel.task.call image request).map fun (result, task) => (result, kernel.setTask task)
  | .getargs buf nbytes behind => some (kernel.getargs buf nbytes behind, kernel)
  | .vidmap screenStart => some (kernel.vidmap layout screenStart)
  | .setHandler _ _ | .sigreturn => some (.plain (-1), kernel)

/-! ## pit_irq_handler -/

/-- The end of the tick: page, video page, kernel stack and stack pointers for the process of
the terminal that is next. The two PCB pointers are computed from the same `new_pid`. -/
def switch (frame : Frame) (kernel : Kernel) : Transfer × Kernel :=
  let pid := kernel.currentPid kernel.schedTerminal
  let paging := if pid > 2 then kernel.paging.mapUser (kernel.pcb pid).pid else kernel.paging
  let video :=
    if kernel.schedTerminal = kernel.console.currentTerminal then 0xB8000 / 2 ^ 12
    else 0xBA000 / 2 ^ 12 + kernel.schedTerminal.val
  let saved := update kernel.pcb pid
    { kernel.pcb pid with programEbp := frame.ebp, programEsp := frame.esp }
  (.stack ⟨(saved pid).programEsp, (saved pid).programEbp⟩,
    { kernel with
      newPid := pid
      paging := paging.setVideoPage video
      tss := ⟨kernelDs, kernelStack pid⟩
      pcb := saved })

/-- `on_off_flag` set and the terminal displayed, for its first turn. -/
def firstTurn (kernel : Kernel) : Kernel :=
  { kernel with
    terminalArray := update kernel.terminalArray kernel.tempTerminal
      { kernel.terminalArray kernel.tempTerminal with onOffFlag := true } }.openTerminal kernel.tempTerminal.val

def nextTurn (kernel : Kernel) : Kernel := { kernel with tempTerminal := kernel.tempTerminal + 1 }

def scheduled (kernel : Kernel) : Kernel := { kernel with schedTerminal := kernel.tempTerminal }

/-- `pit_irq_handler`, interrupting code with the given ESP and EBP; `inner` are theirs in the
`execute` that starts the shell of a terminal on its first turn. -/
def pitIrqHandler (image : Image) (frame inner : Frame) (locals : Locals) (kernel : Kernel) :
    Option (Transfer × Kernel) :=
  if (kernel.terminalArray kernel.tempTerminal).onOffFlag then
    let next := kernel.nextTurn
    if next.currentPid next.tempTerminal < 3 then some (.returns 0, next)
    else some (switch frame next.scheduled)
  else
    match execute image Image.shell inner locals kernel.firstTurn with
    | none => none
    | some (.returns _, after) => some (.returns 0, after.openTerminal kernel.console.currentTerminal.val)
    | some (transfer, after) => some (transfer, after)

/-! ## Events -/

/-- What happens to the kernel, one after the other. -/
inductive Event where
  | execute (command : CString) (frame : Frame) (locals : Locals)
  | halt (status : UInt8) (inner : Frame) (locals : Locals)
  | vidmap (screenStart : Nat)
  | openTerminal (terminalId : Int)
  | tick (frame inner : Frame) (locals : Locals)

def step (image : Image) (layout : Layout) (kernel : Kernel) : Event → Option (Transfer × Kernel)
  | .execute command frame locals => kernel.execute image command frame locals
  | .halt status inner locals => kernel.halt image status inner locals
  | .vidmap screenStart =>
      if kernel.newPid < 0 then none
      else
        let (result, after) := kernel.vidmap layout screenStart
        some (.returns result.ret, after)
  | .openTerminal terminalId => some (.returns 0, kernel.openTerminal terminalId)
  | .tick frame inner locals => kernel.pitIrqHandler image frame inner locals

/-- The kernel after an event. -/
def next (image : Image) (layout : Layout) (kernel : Kernel) (event : Event) : Option Kernel :=
  (kernel.step image layout event).map Prod.snd

/-- The kernel right after `entry`, over memory of zeros. -/
def booted : Kernel := entry Layout.sample (fun _ => Pcb.zeros) ⟨0, false⟩ .zeros

/-! ## What the functions can do -/

section

variable {kernel after : Kernel} {image : Image} {transfer : Transfer}

theorem freeSlot_eq_some {progs : Int → Flag} {slot : Int} (free : freeSlot progs = some slot) :
    0 ≤ slot ∧ slot ≤ 5 ∧ progs slot = .close ∧ ∀ lower, 0 ≤ lower → lower < slot →
        progs lower = .open := by
  obtain ⟨index, found, rfl⟩ := Option.map_eq_some_iff.mp free
  obtain ⟨inside, closed, before⟩ := List.find?_range_eq_some.mp found
  refine ⟨by omega, by have := List.mem_range.mp closed; omega, by simpa using inside, ?_⟩
  intro lower nonneg less
  have taken := before lower.toNat (by omega)
  have same : (lower.toNat : Int) = lower := Int.toNat_of_nonneg nonneg
  rw [same] at taken
  cases flag : progs lower with
  | «open» => rfl
  | close => simp [flag] at taken

theorem freeSlot_isSome {progs : Int → Flag} {slot : Int} (range : 0 ≤ slot ∧ slot ≤ 5)
    (closed : progs slot = .close) : ∃ free, freeSlot progs = some free := by
  unfold freeSlot
  have found : ((List.range 6).find? fun slot : Nat => progs slot == .close).isSome := by
    refine List.find?_isSome.mpr ⟨slot.toNat, List.mem_range.mpr (by omega), ?_⟩
    rw [Int.toNat_of_nonneg range.1, closed]
    rfl
  obtain ⟨index, same⟩ := Option.isSome_iff_exists.mp found
  exact ⟨index, by rw [same]; rfl⟩

/-- The checks pass, the slot is the first free one, and the program fits. -/
def Starts (image : Image) (command : CString) (locals : Locals) (kernel : Kernel) (slot : Int) : Prop :=
  ∃ eip loaded, check image command locals kernel.newPid = .passed eip loaded ∧
    freeSlot kernel.progs = some slot ∧ 0x48000 + loaded.length ≤ 0x400000

theorem Starts.free {command : CString} {locals : Locals} {slot : Int}
    (starts : Starts image command locals kernel slot) : freeSlot kernel.progs = some slot :=
  let ⟨_, _, _, free, _⟩ := starts
  free

theorem Starts.range {command : CString} {locals : Locals} {slot : Int}
    (starts : Starts image command locals kernel slot) : 0 ≤ slot ∧ slot ≤ 5 :=
  let ⟨nonneg, small, _⟩ := freeSlot_eq_some starts.free
  ⟨nonneg, small⟩

theorem Starts.closed {command : CString} {locals : Locals} {slot : Int}
    (starts : Starts image command locals kernel slot) : kernel.progs slot = .close :=
  let ⟨_, _, closed, _⟩ := freeSlot_eq_some starts.free
  closed

theorem Starts.unique {command : CString} {locals : Locals} {slot other : Int}
    (starts : Starts image command locals kernel slot) (again : Starts image command locals kernel other) :
    slot = other :=
  Option.some.inj (starts.free.symm.trans again.free)

/-- What is there when a process has been started. -/
structure Started (slot : Int) (frame : Frame) (kernel started : Kernel) : Prop where
  newPid : started.newPid = slot
  progs : started.progs = update kernel.progs slot .open
  currentPid : started.currentPid = update kernel.currentPid kernel.console.currentTerminal slot
  schedTerminal : started.schedTerminal = kernel.schedTerminal
  displayed : started.console.currentTerminal = kernel.console.currentTerminal
  paging : started.paging = kernel.paging.mapUser slot
  stack : started.tss.esp0 = kernelStack slot
  others : ∀ pid, pid ≠ slot → started.pcb pid = kernel.pcb pid
  own : (started.pcb slot).pid = slot
  stored : (started.pcb slot).programEsp = kernelStack slot ∧
    (started.pcb slot).programEbp = kernelStack slot
  parent : (started.pcb slot).parentPid =
    if slot < 3 then -1 else kernel.currentPid kernel.console.currentTerminal
  frame : (started.pcb slot).parentEsp = frame.esp ∧ (started.pcb slot).parentEbp = frame.ebp
  fds : ∀ fd : Fin 8, 2 ≤ fd.val → ((started.pcb slot).systemcallFdArray fd).flags = .close

theorem start_started (kernel : Kernel) (slot : Int) (command : CString) (frame : Frame) :
    Started slot frame kernel (kernel.begin.start slot command frame) := by
  constructor
  case newPid => rfl
  case progs => rfl
  case currentPid =>
    funext terminal
    rcases eq_or_ne terminal kernel.console.currentTerminal with rfl | here
    · simp [currentPid, start, setCurrentPid, begin, withConsole, Console.clearBuffer, Console.setShown, Console.putc]
    · simp [currentPid, start, setCurrentPid, begin, withConsole, Console.clearBuffer, Console.setShown,
        Console.putc, here]
  case schedTerminal => rfl
  case displayed => rfl
  case paging => rfl
  case stack => rfl
  case others =>
    intro pid other
    simp [start, begin, withConsole, other]
  case own => simp [start]
  case stored => simp [start]
  case parent =>
    simp [start, begin, withConsole, currentPid, Console.clearBuffer, Console.setShown, Console.putc]
  case frame => simp [start]
  case fds =>
    intro fd other
    have later : ¬ fd.val < 2 := by omega
    simp [start, initFds, later]

theorem Started.page {slot : Int} {frame : Frame} {started : Kernel}
    (starts : Started slot frame kernel started) :
    started.paging.pageDirectory usrIdx = Paging.userPage slot := by
  rw [starts.paging, Paging.mapUser_usrIdx]

/-- `execute` has started a process, or it returns and has started none. -/
theorem execute_cases {command : CString} {frame : Frame} {locals : Locals}
    (executed : kernel.execute image command frame locals = some (transfer, after)) :
    (((∃ ret, check image command locals kernel.newPid = .rejected ret) ∨ freeSlot kernel.progs = none) ∧
      ∃ ret oldPid, transfer = .returns ret ∧ after = kernel.begin.setOldPid oldPid) ∨
    (∃ slot, Starts image command locals kernel slot ∧ Started slot frame kernel after ∧
      ∃ eip loaded, transfer = .program eip loaded) := by
  unfold execute at executed
  cases checked : check image command locals kernel.newPid with
  | rejected ret =>
      rw [checked] at executed
      obtain ⟨rfl, rfl⟩ := Prod.mk.inj (Option.some.inj executed)
      exact Or.inl ⟨Or.inl ⟨ret, rfl⟩, ret, kernel.oldPid, rfl, rfl⟩
  | overrun =>
      rw [checked] at executed
      cases executed
  | passed eip loaded =>
      rw [checked] at executed
      simp only [] at executed
      cases free : freeSlot kernel.progs with
      | none =>
          rw [free] at executed
          obtain ⟨rfl, rfl⟩ := Prod.mk.inj (Option.some.inj executed)
          exact Or.inl ⟨Or.inr rfl, -1, _, rfl, rfl⟩
      | some slot =>
          rw [free] at executed
          simp only [] at executed
          split at executed
          · cases executed
          · rename_i fits
            obtain ⟨rfl, rfl⟩ := Prod.mk.inj (Option.some.inj executed)
            exact Or.inr ⟨slot, ⟨eip, loaded, checked, free, by omega⟩,
              start_started kernel slot command frame, eip, loaded, rfl⟩

theorem execute_started {command : CString} {locals : Locals} {slot : Int}
    (starts : Starts image command locals kernel slot) (frame : Frame) :
    ∃ eip loaded after, kernel.execute image command frame locals = some (.program eip loaded, after) ∧
      Started slot frame kernel after := by
  obtain ⟨eip, loaded, checked, free, fits⟩ := starts
  refine ⟨eip, loaded, _, ?_, start_started kernel slot command frame⟩
  simp only [execute, checked, free]
  rw [if_neg (by omega)]

theorem execute_rejected {command : CString} {locals : Locals} {ret : Int}
    (rejected : check image command locals kernel.newPid = .rejected ret) (frame : Frame) :
    kernel.execute image command frame locals = some (.returns ret, kernel.begin) := by
  simp only [execute, rejected]

theorem fileClose_console (task : Task) (fd : Fin 8) : (task.fileClose fd).2.console = task.console := by
  unfold Task.fileClose
  split <;> rfl

/-- `close` does nothing to the console but to its keyboard. -/
theorem close_console {task next : Task} {fd : Int32} {result : Result}
    (closed : task.close fd = some (result, next)) :
    ∃ keyboard, next.console = { task.console with keyboard := keyboard } := by
  unfold Task.close at closed
  split at closed
  · obtain ⟨_, rfl⟩ := Prod.mk.inj (Option.some.inj closed)
    exact ⟨_, rfl⟩
  · split at closed
    · obtain ⟨_, rfl⟩ := Prod.mk.inj (Option.some.inj closed)
      exact ⟨_, rfl⟩
    · obtain ⟨⟨ret, after⟩, driven, same⟩ := Option.map_eq_some_iff.mp closed
      obtain ⟨_, rfl⟩ := Prod.mk.inj same
      unfold Task.driverClose at driven
      split at driven
      · obtain ⟨_, rfl⟩ := Prod.mk.inj (Option.some.inj driven)
        exact ⟨_, rfl⟩
      · have file : _ = after := congrArg Prod.snd (Option.some.inj driven)
        rw [← file, fileClose_console]
        exact ⟨_, rfl⟩
      · have file : _ = after := congrArg Prod.snd (Option.some.inj driven)
        rw [← file, fileClose_console]
        exact ⟨_, rfl⟩
      · obtain ⟨_, rfl⟩ := Prod.mk.inj (Option.some.inj driven)
        exact ⟨_, rfl⟩
      · cases driven
      · cases driven

theorem closeAll_console {task next : Task} (closed : closeAll task = some next) :
    ∃ keyboard, next.console = { task.console with keyboard := keyboard } := by
  unfold closeAll at closed
  generalize List.range 8 = fds at closed
  induction fds generalizing task with
  | nil =>
      obtain rfl := Option.some.inj closed
      exact ⟨_, rfl⟩
  | cons fd rest ih =>
      obtain ⟨middle, first, remaining⟩ := Option.bind_eq_some_iff.mp closed
      obtain ⟨⟨result, after⟩, answer, rfl⟩ := Option.map_eq_some_iff.mp first
      obtain ⟨keyboard, same⟩ := close_console answer
      obtain ⟨last, final⟩ := ih remaining
      rw [same] at final
      exact ⟨last, final⟩

theorem closeAll_currentTerminal {task next : Task} (closed : closeAll task = some next) :
    next.console.currentTerminal = task.console.currentTerminal := by
  obtain ⟨keyboard, same⟩ := closeAll_console closed
  rw [same]

/-- Descriptors that are closed already stay as they are. -/
theorem closeAll_of_closed {task : Task}
    (closed : ∀ fd : Fin 8, 2 ≤ fd.val → (task.fds fd).flags = .close) :
    closeAll task = some task := by
  have each : ∀ fd : Int32, task.close fd = some (.plain (-1), task) := by
    intro fd
    unfold Task.close
    split
    · rfl
    · rename_i index _
      have refused : index.val < 2 ∨ (task.fds index).flags = .close := by
        rcases Nat.lt_or_ge index.val 2 with standard | other
        · exact Or.inl standard
        · exact Or.inr (closed index other)
      rw [if_pos refused]
  unfold closeAll
  generalize List.range 8 = fds
  induction fds with
  | nil => rfl
  | cons fd rest ih =>
      rw [List.foldlM_cons, each]
      exact ih

/-- What is left of the kernel state when a process is gone. -/
structure Left (kernel left : Kernel) : Prop where
  newPid : left.newPid = (kernel.pcb kernel.newPid).parentPid
  progs : left.progs = update kernel.progs kernel.newPid .close
  currentPid : left.currentPid =
    update kernel.currentPid kernel.schedTerminal (kernel.pcb kernel.newPid).parentPid
  onOffFlag : ∀ terminal, (left.terminalArray terminal).onOffFlag =
    (kernel.terminalArray terminal).onOffFlag
  schedTerminal : left.schedTerminal = kernel.schedTerminal
  tempTerminal : left.tempTerminal = kernel.tempTerminal
  paging : left.paging = kernel.paging
  tss : left.tss = kernel.tss
  displayed : left.console.currentTerminal = kernel.console.currentTerminal
  others : ∀ pid, pid ≠ kernel.newPid → left.pcb pid = kernel.pcb pid
  own : ∃ fds, left.pcb kernel.newPid =
    { kernel.pcb kernel.newPid with systemcallFdArray := fds, parentEsp := 0, parentEbp := 0 }

theorem leave_left {left : Kernel} (leaves : kernel.leave = some left) : Left kernel left := by
  obtain ⟨task, closed, rfl⟩ := Option.map_eq_some_iff.mp leaves
  have console := closeAll_currentTerminal closed
  constructor
  case newPid =>
    simp [setTask]
  case progs => rfl
  case currentPid =>
    funext terminal
    rcases eq_or_ne terminal kernel.schedTerminal with rfl | here
    · simp [currentPid, setTask]
    · simp [currentPid, setTask, here]
  case onOffFlag =>
    intro terminal
    rcases eq_or_ne terminal kernel.schedTerminal with rfl | here
    · simp [setTask]
    · simp [setTask, here]
  case schedTerminal => rfl
  case tempTerminal => rfl
  case paging => rfl
  case tss => rfl
  case displayed => exact console
  case others =>
    intro pid other
    simp [setTask, other]
  case own =>
    exact ⟨task.fds, by simp [setTask]⟩

theorem announce_currentTerminal (status : UInt8) (kernel : Kernel) :
    (kernel.announce status).console.currentTerminal = kernel.console.currentTerminal := by
  simp only [announce, withConsole, Console.putc]
  split <;> simp only [Console.puts]

/-- The output changes nothing of that. -/
theorem Left.announce {left : Kernel} (leaves : Left kernel left) (status : UInt8) :
    Left kernel (left.announce status) :=
  { leaves with displayed := (left.announce_currentTerminal status).trans leaves.displayed }

/-- The slot of the process that is gone is closed, so a search finds one. -/
theorem Left.hasSlot {left : Kernel} (leaves : Left kernel left) (range : 0 ≤ kernel.newPid ∧ kernel.newPid ≤ 5) :
    ∃ slot, freeSlot left.progs = some slot := by
  have closed : left.progs kernel.newPid = .close := by rw [leaves.progs, update_self]
  exact freeSlot_isSome range closed

/-- Output before the end changes nothing of that either. -/
theorem Left.afterOutput {left : Kernel} {console : Console}
    (leaves : Left (kernel.withConsole console) left)
    (same : console.currentTerminal = kernel.console.currentTerminal) : Left kernel left where
  newPid := leaves.newPid
  progs := leaves.progs
  currentPid := leaves.currentPid
  onOffFlag := leaves.onOffFlag
  schedTerminal := leaves.schedTerminal
  tempTerminal := leaves.tempTerminal
  paging := leaves.paging
  tss := leaves.tss
  displayed := leaves.displayed.trans same
  others := leaves.others
  own := leaves.own

theorem leave_of_closed (closed : ∀ fd : Fin 8, 2 ≤ fd.val →
    ((kernel.pcb kernel.newPid).systemcallFdArray fd).flags = .close) :
        ∃ left, kernel.leave = some left := by
  have all : closeAll { kernel with progs := update kernel.progs kernel.newPid .close }.task = _ :=
    closeAll_of_closed closed
  exact ⟨_, by rw [leave, all]; rfl⟩

theorem halt_of_parent {left : Kernel} (running : 0 ≤ kernel.newPid) (leaves : kernel.leave = some left)
    (parent : left.newPid ≠ -1) (status : UInt8) (inner : Frame) (locals : Locals) :
    kernel.halt image status inner locals = some (.parent (status32 status)
      ⟨(kernel.pcb kernel.newPid).parentEsp, (kernel.pcb kernel.newPid).parentEbp⟩, (left.announce status).resume) := by
  have other : (left.announce status).newPid ≠ -1 := parent
  simp only [halt, if_neg (Int.not_lt.mpr running), leaves, Option.bind_some, if_neg other]

/-- What a system call leaves as it is: everything but the table of its process and the devices. -/
structure Served (kernel after : Kernel) : Prop where
  newPid : after.newPid = kernel.newPid
  progs : after.progs = kernel.progs
  currentPid : after.currentPid = kernel.currentPid
  schedTerminal : after.schedTerminal = kernel.schedTerminal
  page : after.paging.pageDirectory usrIdx = kernel.paging.pageDirectory usrIdx
  tss : after.tss = kernel.tss
  others : ∀ pid, pid ≠ kernel.newPid → after.pcb pid = kernel.pcb pid
  own : ∃ fds, after.pcb kernel.newPid = { kernel.pcb kernel.newPid with systemcallFdArray := fds }

theorem Served.refl (kernel : Kernel) : Served kernel kernel :=
  ⟨rfl, rfl, rfl, rfl, rfl, rfl, fun _ _ => rfl, _, rfl⟩

theorem serve_served {layout : Layout} {request : SystemCall} {result : Result}
    (served : kernel.serve image layout request = some (result, after)) : Served kernel after := by
  cases request with
  | descriptor request =>
      obtain ⟨⟨_, task⟩, _, same⟩ := Option.map_eq_some_iff.mp served
      obtain ⟨_, rfl⟩ := Prod.mk.inj same
      refine ⟨rfl, rfl, rfl, rfl, rfl, rfl, ?_, task.fds, ?_⟩
      · intro pid other
        simp [setTask, other]
      · simp [setTask]
  | getargs buf nbytes behind =>
      obtain ⟨_, rfl⟩ := Prod.mk.inj (Option.some.inj served)
      exact Served.refl kernel
  | vidmap screenStart =>
      have mapped : (kernel.vidmap layout screenStart).2 = after :=
        congrArg Prod.snd (Option.some.inj served)
      rw [← mapped]
      unfold vidmap
      split
      · exact Served.refl kernel
      · exact { Served.refl kernel with page := Paging.mapVideo_usrIdx layout kernel.paging }
  | setHandler signum handlerAddress =>
      obtain ⟨_, rfl⟩ := Prod.mk.inj (Option.some.inj served)
      exact Served.refl kernel
  | sigreturn =>
      obtain ⟨_, rfl⟩ := Prod.mk.inj (Option.some.inj served)
      exact Served.refl kernel

/-- No shell can be started: control goes to wherever the process was started from. -/
theorem halt_of_returns {left started : Kernel} {ret : Int} (running : 0 ≤ kernel.newPid)
    (leaves : kernel.leave = some left) (orphan : left.newPid = -1) {status : UInt8} {inner : Frame}
    {locals : Locals}
    (executed : execute image Image.shell inner locals (left.announce status) = some (.returns ret, started)) :
    kernel.halt image status inner locals = some (.parent (status32 status)
      ⟨(kernel.pcb kernel.newPid).parentEsp, (kernel.pcb kernel.newPid).parentEbp⟩, started.resume) := by
  have none : (left.announce status).newPid = -1 := orphan
  simp only [halt, if_neg (Int.not_lt.mpr running), leaves, Option.bind_some, if_pos none, executed]

theorem halt_of_program {left started : Kernel} {eip : Nat} {loaded : List UInt8}
    (running : 0 ≤ kernel.newPid)
    (leaves : kernel.leave = some left) (orphan : left.newPid = -1) {status : UInt8} {inner : Frame}
    {locals : Locals}
    (executed : execute image Image.shell inner locals (left.announce status) =
      some (.program eip loaded, started)) :
    kernel.halt image status inner locals = some (.program eip loaded, started) := by
  have none : (left.announce status).newPid = -1 := orphan
  simp only [halt, if_neg (Int.not_lt.mpr running), leaves, Option.bind_some, if_pos none, executed]

/-- The shell does not get far enough to answer. -/
theorem halt_of_none {left : Kernel} (running : 0 ≤ kernel.newPid) (leaves : kernel.leave = some left)
    (orphan : left.newPid = -1) {status : UInt8} {inner : Frame} {locals : Locals}
    (executed : execute image Image.shell inner locals (left.announce status) = none) :
    kernel.halt image status inner locals = none := by
  have none : (left.announce status).newPid = -1 := orphan
  simp only [halt, if_neg (Int.not_lt.mpr running), leaves, Option.bind_some, if_pos none, executed]

/-- The parent of the process that halts goes on, or a shell takes its place. -/
theorem halt_leaves {status : UInt8} {inner : Frame} {locals : Locals}
    (halted : kernel.halt image status inner locals = some (transfer, after)) :
    0 ≤ kernel.newPid ∧ ∃ left, kernel.leave = some left ∧
      ((left.newPid ≠ -1 ∧ after = (left.announce status).resume ∧
        transfer = .parent (status32 status)
          ⟨(kernel.pcb kernel.newPid).parentEsp, (kernel.pcb kernel.newPid).parentEbp⟩) ∨
      (left.newPid = -1 ∧ ∃ inside started,
        execute image Image.shell inner locals (left.announce status) = some (inside, started) ∧
        ((∃ ret, inside = .returns ret ∧ after = started.resume) ∨
          (transfer = inside ∧ after = started ∧ ∀ ret, inside ≠ .returns ret)))) := by
  unfold halt at halted
  split at halted
  · cases halted
  · rename_i running
    refine ⟨by omega, ?_⟩
    obtain ⟨left, leaves, rest⟩ := Option.bind_eq_some_iff.mp halted
    refine ⟨left, leaves, ?_⟩
    simp only [] at rest
    split at rest
    · rename_i orphan
      refine Or.inr ⟨orphan, ?_⟩
      split at rest
      · cases rest
      · rename_i ret started executed
        obtain ⟨_, rfl⟩ := Prod.mk.inj (Option.some.inj rest)
        exact ⟨_, _, executed, Or.inl ⟨ret, rfl, rfl⟩⟩
      · rename_i inside started notReturn executed
        obtain ⟨rfl, rfl⟩ := Prod.mk.inj (Option.some.inj rest)
        exact ⟨_, _, executed, Or.inr ⟨rfl, rfl, fun ret same => notReturn ret same⟩⟩
    · rename_i parent
      obtain ⟨rfl, rfl⟩ := Prod.mk.inj (Option.some.inj rest)
      exact Or.inl ⟨parent, rfl, rfl⟩

/-- The same, by what is left of the state. -/
theorem halt_cases {status : UInt8} {inner : Frame} {locals : Locals}
    (halted : kernel.halt image status inner locals = some (transfer, after)) :
    0 ≤ kernel.newPid ∧ ∃ left, Left kernel left ∧
      ((left.newPid ≠ -1 ∧ after = (left.announce status).resume ∧
        transfer = .parent (status32 status)
          ⟨(kernel.pcb kernel.newPid).parentEsp, (kernel.pcb kernel.newPid).parentEbp⟩) ∨
      (left.newPid = -1 ∧ ∃ inside started,
        execute image Image.shell inner locals (left.announce status) = some (inside, started) ∧
        ((∃ ret, inside = .returns ret ∧ after = started.resume) ∨
          (transfer = inside ∧ after = started ∧ ∀ ret, inside ≠ .returns ret)))) := by
  obtain ⟨running, left, leaves, cases⟩ := halt_leaves halted
  exact ⟨running, left, leave_left leaves, cases⟩

/-- The end of a tick changes two fields of one PCB. -/
theorem switch_pcb (frame : Frame) (kernel : Kernel) (pid : Int) :
    ∃ esp ebp, (switch frame kernel).2.pcb pid =
      { kernel.pcb pid with programEsp := esp, programEbp := ebp } := by
  rcases eq_or_ne pid (kernel.currentPid kernel.schedTerminal) with rfl | here
  · exact ⟨frame.esp, frame.ebp, update_self ..⟩
  · exact ⟨_, _, update_of_ne here _ _⟩

theorem firstTurn_currentPid (kernel : Kernel) : kernel.firstTurn.currentPid = kernel.currentPid := by
  funext terminal
  rcases eq_or_ne terminal kernel.tempTerminal with rfl | here
  · simp [currentPid, firstTurn, openTerminal, withConsole]
  · simp [currentPid, firstTurn, openTerminal, withConsole, here]

theorem firstTurn_currentTerminal (kernel : Kernel) :
    kernel.firstTurn.console.currentTerminal = kernel.tempTerminal :=
  kernel.console.openTerminal_currentTerminal kernel.tempTerminal

/-- A terminal on its first turn. -/
theorem tick_of_fresh {frame inner : Frame} {locals : Locals} {started : Kernel}
    (fresh : (kernel.terminalArray kernel.tempTerminal).onOffFlag = false)
    (executed : execute image Image.shell inner locals kernel.firstTurn = some (transfer, started)) :
    ∃ control after, kernel.pitIrqHandler image frame inner locals = some (control, after) ∧
      (after = started ∨ after = started.openTerminal kernel.console.currentTerminal.val) := by
  have notSeen : ¬ (kernel.terminalArray kernel.tempTerminal).onOffFlag = true := by simp [fresh]
  simp only [pitIrqHandler, if_neg notSeen, executed]
  cases transfer with
  | returns ret => exact ⟨_, _, rfl, Or.inr rfl⟩
  | program eip loaded => exact ⟨_, _, rfl, Or.inl rfl⟩
  | parent status frame => exact ⟨_, _, rfl, Or.inl rfl⟩
  | stack frame => exact ⟨_, _, rfl, Or.inl rfl⟩

/-- A tick passes over a terminal, switches to its process, or starts its shell. -/
theorem tick_cases {frame inner : Frame} {locals : Locals}
    (ticked : kernel.pitIrqHandler image frame inner locals = some (transfer, after)) :
    ((kernel.terminalArray kernel.tempTerminal).onOffFlag = true ∧
      ((kernel.currentPid (kernel.tempTerminal + 1) < 3 ∧ transfer = .returns 0 ∧ after = kernel.nextTurn) ∨
        (3 ≤ kernel.currentPid (kernel.tempTerminal + 1) ∧
          switch frame kernel.nextTurn.scheduled = (transfer, after)))) ∨
    ((kernel.terminalArray kernel.tempTerminal).onOffFlag = false ∧ ∃ inside started,
      execute image Image.shell inner locals kernel.firstTurn = some (inside, started) ∧
        ((∃ ret, inside = .returns ret ∧ transfer = .returns 0 ∧
            after = started.openTerminal kernel.console.currentTerminal.val) ∨
          (transfer = inside ∧ after = started ∧ ∀ ret, inside ≠ .returns ret))) := by
  unfold pitIrqHandler at ticked
  split at ticked
  · rename_i seen
    refine Or.inl ⟨seen, ?_⟩
    simp only [] at ticked
    split at ticked
    · rename_i idle
      obtain ⟨rfl, rfl⟩ := Prod.mk.inj (Option.some.inj ticked)
      exact Or.inl ⟨idle, rfl, rfl⟩
    · rename_i busy
      exact Or.inr ⟨Int.not_lt.mp busy, Option.some.inj ticked⟩
  · rename_i fresh
    refine Or.inr ⟨Bool.eq_false_iff.mpr fresh, ?_⟩
    split at ticked
    · cases ticked
    · rename_i ret started executed
      obtain ⟨rfl, rfl⟩ := Prod.mk.inj (Option.some.inj ticked)
      exact ⟨_, _, executed, Or.inl ⟨ret, rfl, rfl, rfl⟩⟩
    · rename_i inside started notReturn executed
      obtain ⟨rfl, rfl⟩ := Prod.mk.inj (Option.some.inj ticked)
      exact ⟨_, _, executed, Or.inr ⟨rfl, rfl, fun ret same => notReturn ret same⟩⟩

end

end Kernel

end LinuxLikeOS

import LinuxLikeOS.Console
import LinuxLikeOS.FileSystem

/-!
# File descriptors (`file_sys.c`, `rtc.c`, `systemcall.c`)

There are two descriptor tables. The system calls work on the table in the PCB of the
running process, the drivers on the global `file_descriptor_array`; only `read` copies one
over the other. A task is what a system call of one process can reach: its own table, the
global one, and the devices. A call that ends in a fault, because it goes through a null
function pointer or runs off a directory entry, answers `none`.
-/

namespace LinuxLikeOS

open Function

/-- `OPEN` and `CLOSE`, of a descriptor or a program slot. -/
inductive Flag where
  | close
  | open
  deriving DecidableEq

/-- `file_operation_table_ptr`: null, or an element of `fops_table`. The elements 4 and 5
are never filled in and hold null function pointers. -/
inductive Fops where
  | null
  | rtc
  | directory
  | file
  | terminal
  | blank
  deriving DecidableEq

/-- `get_fops_table`. -/
def getFopsTable (deviceIndex : Nat) : Fops :=
  match deviceIndex with
  | 0 => .rtc
  | 1 => .directory
  | 2 => .file
  | 3 => .terminal
  | 4 | 5 => .blank
  | _ => .null

/-- `file_descriptor_t`. -/
structure FileDescriptor where
  fops : Fops
  inode : Nat
  filePosition : Nat
  flags : Flag
  deriving DecidableEq

abbrev Table := Fin 8 → FileDescriptor

instance neZero_eight : NeZero 8 := ⟨by decide⟩

/-- Index of the first descriptor that is closed. -/
def firstClosed (table : Table) : Option (Fin 8) :=
  (List.finRange 8).find? fun fd => (table fd).flags == .close

/-- The statics of the global table. -/
def unusedTable : Table := fun _ => ⟨.null, 0, 0, .close⟩

/-- The loop of `fileSystem_init`. -/
def fileSystemInit (files : Table) : Table := fun fd =>
  { files fd with inode := 0, filePosition := 0, flags := if fd.val < 2 then .open else .close }

/-- The loops of `execute` over the table in the PCB: 0 and 1 on the terminal, the rest closed. -/
def initFds (fds : Table) : Table := fun fd =>
  if fd.val < 2 then ⟨getFopsTable 3, 2 ^ 32 - 1, 0, .open⟩ else { fds fd with flags := .close }

/-- The descriptors within `MIN_FD` and `MAX_FD`. -/
def descriptor? (fd : Int32) : Option (Fin 8) :=
  if valid : 0 ≤ fd.toInt ∧ fd.toInt ≤ 7 then some ⟨fd.toInt.toNat, by omega⟩ else none

structure Rtc where
  registerA : UInt8
  interruptReceived : Bool

/-- What uninitialised locals happen to hold during a call. -/
structure Residue where
  freeFd : Int
  dentry : Dentry

/-- The locals of a call on a stack of zeros. -/
def Residue.zeros : Residue := ⟨0, ⟨fun _ => 0, 0, 0, fun _ => 0⟩⟩

structure Task where
  /-- `pcb->systemcall_fd_array`. -/
  fds : Table
  /-- `file_descriptor_array`. -/
  files : Table
  console : Console
  rtc : Rtc

/-- What a call returns and what it stores through its buffer argument. -/
structure Result where
  ret : Int
  writes : Writes

/-- A call that stores nothing. -/
def Result.plain (ret : Int) : Result := ⟨ret, .nothing⟩

namespace Task

/-- A process that has just been started, on devices as they are loaded. -/
def started : Task :=
  ⟨initFds unusedTable, fileSystemInit unusedTable, Console.loaded, ⟨0, false⟩⟩

def setFd (task : Task) (fd : Fin 8) (descriptor : FileDescriptor) : Task :=
  { task with fds := update task.fds fd descriptor }

def setFile (task : Task) (fd : Fin 8) (descriptor : FileDescriptor) : Task :=
  { task with files := update task.files fd descriptor }

@[simp] theorem fds_setFd (task : Task) (fd : Fin 8) (descriptor : FileDescriptor) :
    (task.setFd fd descriptor).fds = update task.fds fd descriptor := rfl

@[simp] theorem fds_setFile (task : Task) (fd : Fin 8) (descriptor : FileDescriptor) :
    (task.setFile fd descriptor).fds = task.fds := rfl

/-! ## Drivers -/

/-- The descriptor a driver's `open` settles on: the first closed one of the global table.
Without one the variable keeps the value it had on the stack. -/
def freeFd (task : Task) (residue : Residue) : Int :=
  match firstClosed task.files with
  | some fd => fd.val
  | none => residue.freeFd

/-- The part `file_open` and `dir_open` share: the entry and the slot, or a return of -1. -/
def openSlot (image : Image) (fname : CString) (residue : Residue) (task : Task) :
    Option (Option (Dentry × Fin 8)) :=
  match image.readDentryByName fname residue.dentry with
  | .failed => some none
  | .overrun => none
  | .found dentry =>
      let free := task.freeFd residue
      if valid : 0 ≤ free ∧ free ≤ 7 then some (some (dentry, ⟨free.toNat, by omega⟩)) else some none

def fileOpen (image : Image) (fname : CString) (residue : Residue) (task : Task) : Option (Int × Task) :=
  (task.openSlot image fname residue).map fun
    | none => (-1, task)
    | some (dentry, fd) =>
        let inode := if dentry.filetype = 2 then dentry.inodeNum else 0
        (fd.val, task.setFile fd { task.files fd with inode := inode, filePosition := 0 })

def dirOpen (image : Image) (fname : CString) (residue : Residue) (task : Task) : Option (Int × Task) :=
  (task.openSlot image fname residue).map fun
    | none => (-1, task)
    | some (dentry, fd) =>
        let inode := if dentry.filetype = 1 then 0 else 2 ^ 32 - 1
        (if inode = 2 ^ 32 - 1 then -1 else fd.val,
          task.setFile fd { task.files fd with inode := inode, filePosition := 0 })

/-- Sets the rate to 2Hz. -/
def rtcOpen (task : Task) : Int × Task :=
  (0, { task with rtc := { task.rtc with registerA := (task.rtc.registerA &&& 0xF0) ||| 0x0F } })

/-- The `open` of a driver; null pointers fault. -/
def driverOpen (image : Image) (fops : Fops) (fname : CString) (residue : Residue) (task : Task) :
    Option (Int × Task) :=
  match fops with
  | .rtc => some task.rtcOpen
  | .directory => task.dirOpen image fname residue
  | .file => task.fileOpen image fname residue
  | .terminal => some (0, task)
  | .null | .blank => none

/-- `rtc_read` after its wait. -/
def rtcRead (task : Task) : Result × Task :=
  (.plain 0, { task with rtc := { task.rtc with interruptReceived := false } })

def fileRead (image : Image) (fd : Fin 8) (nbytes : Int) (task : Task) : Result × Task :=
  let descriptor := task.files fd
  let data := image.readData descriptor.inode descriptor.filePosition (toUnsigned nbytes)
  let stored := (Writes.fill (toUnsigned nbytes) 0).andThen (.copy (fun i => data.getD i 0) data.length)
  (⟨data.length, stored⟩,
    task.setFile fd { descriptor with filePosition := (descriptor.filePosition + data.length) % 2 ^ 32 })

/-- What `dir_read` stores for a name of `length` bytes by `strlen`: the cleared buffer, then
`strncpy`, then the terminator at an index taken from the name alone. -/
def dirReadWrites (dentry : Dentry) (length : Nat) (nbytes : Int) : Writes :=
  let copied := if toUnsigned nbytes > length then length else toUnsigned nbytes
  let fileLength := if length > 32 then 32 else length
  ((Writes.fill (toUnsigned nbytes) 0).andThen
    (.copy (fun i => if i < length then dentry.byte i else 0) copied)).andThen (.put fileLength 0)

theorem dirReadWrites_nul (dentry : Dentry) (length : Nat) (nbytes : Int) (buf : Memory) :
    (dirReadWrites dentry length nbytes).apply buf (min length 32) = 0 := by
  have place : (if length > 32 then 32 else length) = min length 32 := by
    split <;> omega
  simp [dirReadWrites, Writes.apply, Writes.andThen, Writes.put, place]

/-- `dir_read` into a buffer that held `buf`. The position moves on at the end of the
directory, too. The terminator it stored bounds the last `strlen`. -/
def dirRead (image : Image) (fd : Fin 8) (buf : Memory) (nbytes : Int) (residue : Dentry) (task : Task) :
    Option (Result × Task) :=
  let descriptor := task.files fd
  let moved := task.setFile fd { descriptor with filePosition := (descriptor.filePosition + 1) % 2 ^ 32 }
  match image.readDentryByIndex descriptor.filePosition residue with
  | .failed => some (.plain 0, moved)
  | .overrun => none
  | .found dentry =>
      dentry.strlen.map fun length =>
        let stored := dirReadWrites dentry length nbytes
        (⟨((firstNul (stored.apply buf) 33).getD 33 : Nat), stored⟩, moved)

/-- `terminal_read` after its wait: it clears `BUF_SIZE` bytes whatever was asked for. -/
def terminalRead (task : Task) : Result × Task :=
  let (line, console) := task.console.terminalRead
  (⟨line.length, (Writes.fill 128 0).andThen (.copy (fun i => line.getD i 0) line.length)⟩,
    { task with console := console })

/-- The `read` of a driver, its wait over. -/
def driverRead (image : Image) (fops : Fops) (fd : Fin 8) (buf : Memory) (nbytes : Int)
    (residue : Residue) (task : Task) : Option (Result × Task) :=
  match fops with
  | .rtc => some task.rtcRead
  | .directory => task.dirRead image fd buf nbytes residue.dentry
  | .file => some (task.fileRead image fd nbytes)
  | .terminal => some task.terminalRead
  | .null | .blank => none

/-- `rtc_write`: the rate is the 32-bit value in the buffer. -/
def rtcWrite (buf : Memory) (nbytes : Int) (task : Task) : Int × Task :=
  if nbytes ≠ 4 then (-1, task)
  else
    let rate := word32 buf 0
    -- number of set bits, and the highest of them
    let exponent2 := (List.range 32).countP fun i => rate.testBit i
    let index := ((List.range 32).reverse.find? fun i => rate.testBit i).getD 0
    if rate < 2 ∨ rate > 1024 ∨ exponent2 ≠ 1 then (-1, task)
    else
      let freqValues : List UInt8 := [0x0F, 0x0E, 0x0D, 0x0C, 0x0B, 0x0A, 0x09, 0x08, 0x07, 0x06]
      let freq := freqValues.getD (index - 1) 0
      (0, { task with rtc := { task.rtc with registerA := (task.rtc.registerA &&& 0xF0) ||| freq } })

/-- `terminal_write` returns the number of bytes it was asked to write, or 0. -/
def terminalWrite (buf : Memory) (nbytes : Int) (task : Task) : Int × Task :=
  (nbytes.toNat, { task with console := task.console.terminalWrite buf nbytes })

def driverWrite (fops : Fops) (buf : Memory) (nbytes : Int) (task : Task) : Option (Int × Task) :=
  match fops with
  | .rtc => some (task.rtcWrite buf nbytes)
  | .directory | .file => some (-1, task)
  | .terminal => some (task.terminalWrite buf nbytes)
  | .null | .blank => none

/-- `file_close` and `dir_close`. -/
def fileClose (fd : Fin 8) (task : Task) : Int × Task :=
  if fd.val > 1 then (0, task.setFile fd { task.files fd with flags := .close }) else (-1, task)

def driverClose (fops : Fops) (fd : Fin 8) (task : Task) : Option (Int × Task) :=
  match fops with
  | .rtc => some (0, task)
  | .directory | .file => some (task.fileClose fd)
  | .terminal => some (-1, { task with console := task.console.clearBuffer })
  | .null | .blank => none

/-! ## System calls -/

/-- The buffer argument of a call: null, or what the memory it points to holds. -/
abbrev Buffer := Option Memory

/-- The check at the start of `read`: descriptor 1 is for writing only. -/
def readable (task : Task) (fd : Int32) (buf : Buffer) : Option (Fin 8 × Memory) :=
  match descriptor? fd, buf with
  | some index, some memory =>
      if index = 1 ∨ (task.fds index).flags = .close then none else some (index, memory)
  | _, _ => none

/-- `read` up to the wait of the terminal or RTC driver: the table of the process has become
the global one. -/
def enterRead (fd : Fin 8) (task : Task) : Task :=
  let shared := { task with files := task.fds }
  if (task.fds fd).fops = .terminal then { shared with console := shared.console.setReadFlag false }
  else shared

/-- `read` from the end of the wait on: the global table becomes the table of the process. -/
def leaveRead (image : Image) (fd : Fin 8) (buf : Memory) (nbytes : Int) (residue : Residue)
    (task : Task) :
    Option (Result × Task) :=
  (task.driverRead image (task.fds fd).fops fd buf nbytes residue).map fun (result, after) =>
    (result, { after with fds := after.files })

/-- `read`, with the keyboard and the screen as they are when its wait ends. -/
def read (image : Image) (fd : Int32) (buf : Buffer) (nbytes : Int32) (wake : Console) (residue : Residue)
    (task : Task) : Option (Result × Task) :=
  match task.readable fd buf with
  | none => some (.plain (-1), task)
  | some (index, memory) =>
      let entered := task.enterRead index
      let waited :=
        if (task.fds index).fops = .terminal then { entered with console := wake } else entered
      waited.leaveRead image index memory nbytes.toInt residue

def write (fd : Int32) (buf : Buffer) (nbytes : Int32) (task : Task) : Option (Result × Task) :=
  match descriptor? fd, buf with
  | some index, some memory =>
      if index = 0 ∨ (task.fds index).flags = .close then some (.plain (-1), task)
      else (task.driverWrite (task.fds index).fops memory nbytes.toInt).map fun (ret, after) =>
        (.plain ret, after)
  | _, _ => some (.plain (-1), task)

def «open» (image : Image) (fname : CString) (residue : Residue) (task : Task) : Option (Result × Task) :=
  match image.readDentryByName fname residue.dentry with
  | .failed => some (.plain (-1), task)
  | .overrun => none
  | .found dentry =>
      match firstClosed task.fds with
      | none => some (.plain (-1), task)
      | some fd =>
          let fops := getFopsTable dentry.filetype
          let marked := task.setFd fd ⟨fops, dentry.inodeNum, 0, .open⟩
          (marked.driverOpen image fops fname residue).map fun (ret, opened) =>
            (.plain (if ret = -1 then -1 else fd.val), opened)

def close (fd : Int32) (task : Task) : Option (Result × Task) :=
  match descriptor? fd with
  | none => some (.plain (-1), task)
  | some index =>
      if index.val < 2 ∨ (task.fds index).flags = .close then some (.plain (-1), task)
      else
        let marked := task.setFd index { task.fds index with flags := .close }
        (marked.driverClose (task.fds index).fops index).map fun (ret, closed) => (.plain ret, closed)

end Task

/-- The system calls on descriptors. -/
inductive Call where
  | open (fname : CString) (residue : Residue)
  | read (fd : Int32) (buf : Task.Buffer) (nbytes : Int32) (wake : Console) (residue : Residue)
  | write (fd : Int32) (buf : Task.Buffer) (nbytes : Int32)
  | close (fd : Int32)

namespace Task

def call (image : Image) (task : Task) : Call → Option (Result × Task)
  | .open fname residue => task.open image fname residue
  | .read fd buf nbytes wake residue => task.read image fd buf nbytes wake residue
  | .write fd buf nbytes => task.write fd buf nbytes
  | .close fd => task.close fd

/-- The table after a call. -/
def step (image : Image) (task : Task) (request : Call) : Option Task :=
  (task.call image request).map Prod.snd

end Task

end LinuxLikeOS

import LinuxLikeOS.CommandLine
import LinuxLikeOS.Traced

/-!
# `execute`, statement by statement

The function with its exits in the order of the source, the loop that takes a slot while it
searches for one, and the copy of the program, byte by byte through the page directory. Memory is
the physical memory besides the variables of the kernel, which are the fields of `Kernel`.
-/

namespace LinuxLikeOS

namespace Execute

open Function Kernel Traced

/-- How a call ends: with a return value, in the new program, in a `strcpy` that leaves the
directory entry, or with a page fault of the copy. -/
inductive Exit where
  | returns (ret : Int)
  | enters (eip : Nat)
  | overrun
  | faults (linear : Nat)

structure Outcome where
  exit : Exit
  kernel : Kernel
  memory : Memory

/-- The loop over `progs`: `i` behind it. -/
def slotLoop (kernel : Kernel) (i : Nat) : Nat → Nat × Kernel
  | 0 => (i, kernel)
  | n + 1 =>
      if kernel.progs i = .close then
        (i, { kernel with progs := update kernel.progs i .open, newPid := i })
      else slotLoop kernel (i + 1) n

/-- `eip |= buf[EIP_OFFSET + i] << (BYTE_BITS * i)`. -/
def eipLoop (buf : Memory) (i eip : Nat) : Nat → Nat
  | 0 => eip
  | n + 1 => eipLoop buf (i + 1) (eip ||| (buf (24 + i)).toNat <<< (8 * i)) n

/-- The stores of `read_data` to linear addresses, and the address of a page fault. -/
def copyLoop (layout : Layout) (paging : Paging) (linear : Nat) (memory : Memory) :
    List UInt8 → Traced Nat (Option Nat × Memory)
  | [] => pure (none, memory)
  | byte :: rest => do
      access linear
      match paging.translate layout .supervisor linear with
      | none => pure (some linear, memory)
      | some physical => copyLoop layout paging (linear + 1) (update memory physical byte) rest

/-- A store to the PCB of `new_pid`. -/
def updatePcb (kernel : Kernel) (change : Pcb → Pcb) : Kernel :=
  { kernel with pcb := update kernel.pcb kernel.newPid (change (kernel.pcb kernel.newPid)) }

/-- What follows the copy, up to the context switch. -/
def setUp (frame : Frame) (kernel : Kernel) : Kernel :=
  let kernel := if kernel.newPid < 3 then kernel.setOldPid (-1) else kernel
  let kernel := updatePcb kernel fun pcb =>
    { pcb with
      parentPid := kernel.oldPid, pid := kernel.newPid, parentEbp := frame.ebp, parentEsp := frame.esp }
  let kernel := updatePcb kernel fun pcb => { pcb with systemcallFdArray := initFds pcb.systemcallFdArray }
  let kernel := updatePcb kernel fun pcb => { pcb with esp := kernel.tss.esp0, ss := kernel.tss.ss0 }
  let kernel := { kernel with tss := ⟨kernelDs, kernelStack kernel.newPid⟩ }
  updatePcb kernel fun pcb => { pcb with programEbp := kernel.tss.esp0, programEsp := kernel.tss.esp0 }

section

variable (image : Image) (layout : Layout) (command : CString) (frame : Frame)

/-- `execute` behind the checks. -/
def launch (dentry : Dentry) (buf : Memory) (kernel : Kernel) (memory : Memory) : Traced Nat Outcome :=
  let kernel := kernel.setOldPid (kernel.currentPid kernel.console.currentTerminal)
  let (i, kernel) := slotLoop kernel 0 6
  if i > 6 - 1 then pure ⟨.returns (-1), kernel, memory⟩
  else do
    let kernel := kernel.setCurrentPid kernel.console.currentTerminal kernel.newPid
    let kernel := updatePcb kernel fun pcb => { pcb with argBuff := command.chars }
    let eip := eipLoop buf 0 0 4
    let kernel := { kernel with paging := kernel.paging.mapUser kernel.newPid }
    let fileSize := image.length dentry.inodeNum
    let (fault, memory) ←
      copyLoop layout kernel.paging 0x08048000 memory (image.readData dentry.inodeNum 0 fileSize)
    match fault with
    | some linear => pure ⟨.faults linear, kernel, memory⟩
    | none => pure ⟨.enters eip, setUp frame kernel, memory⟩

/-- The log has the linear addresses that the copy stores to. -/
def execute (locals : Locals) (kernel : Kernel) (memory : Memory) : Traced Nat Outcome :=
  let kernel := kernel.withConsole (kernel.console.putc 10)
  let kernel := kernel.withConsole kernel.console.clearBuffer
  match curFile command locals.before with
  | none => pure ⟨.returns 0, kernel, memory⟩
  | some file =>
      if kernel.newPid ≥ 6 - 1 then pure ⟨.returns (-1), kernel, memory⟩
      else if command.chars.length > 128 then pure ⟨.returns (-1), kernel, memory⟩
      else
        match image.readDentryByName file locals.dentry with
        | .failed => pure ⟨.returns (-1), kernel, memory⟩
        | .overrun => pure ⟨.overrun, kernel, memory⟩
        | .found dentry =>
            let read := image.readData dentry.inodeNum 0 42
            let buf := (Writes.bytes 0 read).apply locals.buf
            if (read.length : Int) = -1 then pure ⟨.returns (-1), kernel, memory⟩
            else if buf 0 ≠ 0x7F ∨ buf 1 ≠ 0x45 ∨ buf 2 ≠ 0x4C ∨ buf 3 ≠ 0x46 then
              pure ⟨.returns (-1), kernel, memory⟩
            else launch image layout command frame dentry buf kernel memory

end

/-! ## The loops -/

/-- Nothing is stored before the first free slot is found. -/
theorem slotLoop_eq (kernel : Kernel) (i n : Nat) :
    slotLoop kernel i n =
      match (List.range' i n).find? fun slot : Nat => kernel.progs slot == .close with
      | none => (i + n, kernel)
      | some slot => (slot, { kernel with progs := update kernel.progs slot .open, newPid := slot }) := by
  induction n generalizing i with
  | zero => rfl
  | succ n ih =>
      unfold slotLoop
      rw [List.range'_succ]
      by_cases free : kernel.progs i = .close
      · have hit : (i :: List.range' (i + 1) n).find? (fun slot : Nat => kernel.progs slot == .close) =
            some i :=
          List.find?_cons_of_pos (beq_iff_eq.mpr free)
        rw [if_pos free, hit]
      · have miss : (i :: List.range' (i + 1) n).find? (fun slot : Nat => kernel.progs slot == .close) =
            (List.range' (i + 1) n).find? fun slot : Nat => kernel.progs slot == .close :=
          List.find?_cons_of_neg fun same => free (beq_iff_eq.mp same)
        rw [if_neg free, miss, ih, Nat.add_right_comm]
        rfl

/-- The search of the source takes the slot that `freeSlot` names. -/
theorem slotLoop_freeSlot (kernel : Kernel) :
    (freeSlot kernel.progs = none ∧ slotLoop kernel 0 6 = (6, kernel)) ∨
    ∃ slot : Nat, slot ≤ 5 ∧ freeSlot kernel.progs = some (slot : Int) ∧
      slotLoop kernel 0 6 =
        (slot, { kernel with progs := update kernel.progs slot .open, newPid := slot }) := by
  have loop := slotLoop_eq kernel 0 6
  rw [← List.range_eq_range'] at loop
  unfold freeSlot
  cases found : (List.range 6).find? fun slot : Nat => kernel.progs slot == .close with
  | none =>
      rw [found] at loop
      exact Or.inl ⟨rfl, loop⟩
  | some slot =>
      rw [found] at loop
      have inside := List.mem_range.mp (List.mem_of_find?_eq_some found)
      exact Or.inr ⟨slot, Nat.le_of_lt_succ inside, rfl, loop⟩

/-- Bits above those of the first operand add up. -/
theorem or_shiftLeft {low i : Nat} (small : low < 2 ^ i) (high : Nat) :
    low ||| high <<< i = low + 2 ^ i * high := by
  have sum := Nat.shiftLeft_add_eq_or_of_lt small high
  rw [Nat.or_comm, ← sum, Nat.shiftLeft_eq, Nat.mul_comm high, Nat.add_comm low]

/-- The bytes are joined in little-endian order. -/
theorem eipLoop_eq (buf : Memory) : eipLoop buf 0 0 4 = word32 buf 24 := by
  have b0 := (buf 24).toNat_lt
  have b1 := (buf 25).toNat_lt
  have b2 := (buf 26).toNat_lt
  have one : (buf 24).toNat ||| (buf 25).toNat <<< 8 = (buf 24).toNat + 2 ^ 8 * (buf 25).toNat :=
    or_shiftLeft (by omega) _
  have two : (buf 24).toNat + 2 ^ 8 * (buf 25).toNat ||| (buf 26).toNat <<< 16 =
      (buf 24).toNat + 2 ^ 8 * (buf 25).toNat + 2 ^ 16 * (buf 26).toNat :=
    or_shiftLeft (by omega) _
  have three : (buf 24).toNat + 2 ^ 8 * (buf 25).toNat + 2 ^ 16 * (buf 26).toNat ||| (buf 27).toNat <<< 24 =
      (buf 24).toNat + 2 ^ 8 * (buf 25).toNat + 2 ^ 16 * (buf 26).toNat + 2 ^ 24 * (buf 27).toNat :=
    or_shiftLeft (by omega) _
  calc eipLoop buf 0 0 4
      = 0 ||| (buf 24).toNat <<< 0 ||| (buf 25).toNat <<< 8 ||| (buf 26).toNat <<< 16 |||
          (buf 27).toNat <<< 24 := rfl
    _ = word32 buf 24 := by
      rw [Nat.zero_or, Nat.shiftLeft_zero, one, two, three]
      rfl

/-- The tests of the magic number are those of `isElf`. -/
theorem magic_iff (buf : Memory) :
    (buf 0 ≠ 0x7F ∨ buf 1 ≠ 0x45 ∨ buf 2 ≠ 0x4C ∨ buf 3 ≠ 0x46) ↔ isElf buf = false := by
  unfold isElf
  simp only [Bool.and_eq_false_iff, beq_eq_false_iff_ne]
  tauto

theorem header_eq (image : Image) (inode : Nat) (buf : Memory) :
    (Writes.bytes 0 (image.readData inode 0 42)).apply buf = header image inode buf := by
  funext i
  unfold header Writes.apply Writes.bytes
  rw [if_pos (Nat.zero_le i), Nat.sub_zero, List.getD_eq_getElem?_getD]

/-! ## Where a call ends -/

section

variable {image : Image} {layout : Layout} {command : CString} {frame : Frame}

theorem begin_eq (kernel : Kernel) :
    (kernel.withConsole (kernel.console.putc 10)).withConsole
      (kernel.withConsole (kernel.console.putc 10)).console.clearBuffer = kernel.begin := rfl

/-- The checks pass, with this directory entry. -/
structure Passes (image : Image) (command : CString) (locals : Locals) (newPid : Int) (dentry : Dentry) :
    Prop where
  few : newPid < 5
  short : command.chars.length ≤ 128
  found : ∃ file, curFile command locals.before = some file ∧
    image.readDentryByName file locals.dentry = .found dentry
  elf : isElf (header image dentry.inodeNum locals.buf) = true

theorem check_of_passes {locals : Locals} {newPid : Int} {dentry : Dentry}
    (passes : Passes image command locals newPid dentry) :
    check image command locals newPid =
      .passed (word32 (header image dentry.inodeNum locals.buf) 24)
        (image.readData dentry.inodeNum 0 (image.length dentry.inodeNum)) := by
  obtain ⟨few, short, ⟨file, named, found⟩, elf⟩ := passes
  have early : ¬ (newPid ≥ 5 ∨ command.chars.length > 128) := by omega
  simp only [check, named, if_neg early, found, elf, if_true]

/-- The checks and what they leave: an early return, or the rest of `execute`. -/
theorem execute_cases (locals : Locals) (kernel : Kernel) (memory : Memory) :
    (∃ ret, check image command locals kernel.newPid = .rejected ret ∧
      execute image layout command frame locals kernel memory = pure ⟨.returns ret, kernel.begin, memory⟩) ∨
    (check image command locals kernel.newPid = .overrun ∧
      execute image layout command frame locals kernel memory = pure ⟨.overrun, kernel.begin, memory⟩) ∨
    ∃ dentry, Passes image command locals kernel.newPid dentry ∧
      check image command locals kernel.newPid =
        .passed (word32 (header image dentry.inodeNum locals.buf) 24)
          (image.readData dentry.inodeNum 0 (image.length dentry.inodeNum)) ∧
      execute image layout command frame locals kernel memory =
        launch image layout command frame dentry (header image dentry.inodeNum locals.buf) kernel.begin
          memory := by
  have limit : (6 - 1 : Int) = 5 := rfl
  unfold execute check
  simp only [begin_eq, begin_newPid, limit]
  cases named : curFile command locals.before with
  | none => exact Or.inl ⟨0, rfl, rfl⟩
  | some file =>
      by_cases many : kernel.newPid ≥ 5
      · simp [many]
      by_cases long : command.chars.length > 128
      · simp [many, long]
      simp only [many, long, or_self, if_false]
      cases lookup : image.readDentryByName file locals.dentry with
      | failed => exact Or.inl ⟨-1, rfl, rfl⟩
      | overrun => exact Or.inr (Or.inl ⟨rfl, rfl⟩)
      | found dentry =>
          have counted : ¬ ((image.readData dentry.inodeNum 0 42).length : Int) = -1 := by omega
          simp only [header_eq, if_neg counted, magic_iff]
          cases elf : isElf (header image dentry.inodeNum locals.buf) with
          | false => exact Or.inl ⟨-1, rfl, rfl⟩
          | true =>
              exact Or.inr (Or.inr ⟨dentry, ⟨Int.not_le.mp many, Nat.le_of_not_lt long,
                ⟨file, named, lookup⟩, elf⟩, rfl, rfl⟩)

/-- The kernel while the program is copied into the page of a slot. -/
def loading (command : CString) (slot : Nat) (kernel : Kernel) : Kernel :=
  { updatePcb
      (Kernel.setCurrentPid
        { kernel.setOldPid (kernel.currentPid kernel.console.currentTerminal) with
          progs := update kernel.progs slot .open, newPid := slot }
        kernel.console.currentTerminal slot)
      (fun pcb => { pcb with argBuff := command.chars }) with
    paging := kernel.paging.mapUser slot }

/-- The assignments after the copy leave the kernel that `start` describes. -/
theorem setUp_loading (kernel : Kernel) (slot : Nat) :
    setUp frame (loading command slot kernel) = kernel.start slot command frame := by
  by_cases shell : (slot : Int) < 3
  · simp [setUp, loading, updatePcb, start, setCurrentPid, setOldPid, currentPid, shell]
  · simp [setUp, loading, updatePcb, start, setCurrentPid, setOldPid, currentPid, shell]

/-- Behind the checks there is no slot, or the program is copied for the first free one. -/
theorem launch_cases (dentry : Dentry) (buf : Memory) (kernel : Kernel) (memory : Memory) :
    (freeSlot kernel.progs = none ∧
      launch image layout command frame dentry buf kernel memory =
        pure ⟨.returns (-1), kernel.setOldPid (kernel.currentPid kernel.console.currentTerminal), memory⟩) ∨
    ∃ slot : Nat, slot ≤ 5 ∧ freeSlot kernel.progs = some (slot : Int) ∧
      launch image layout command frame dentry buf kernel memory =
        copyLoop layout (kernel.paging.mapUser slot) 0x08048000 memory
          (image.readData dentry.inodeNum 0 (image.length dentry.inodeNum)) >>= fun (fault, memory) =>
            match fault with
            | some linear => pure ⟨.faults linear, loading command slot kernel, memory⟩
            | none => pure ⟨.enters (word32 buf 24), kernel.start slot command frame, memory⟩ := by
  rcases slotLoop_freeSlot (kernel.setOldPid (kernel.currentPid kernel.console.currentTerminal)) with
    ⟨none, loop⟩ | ⟨slot, inside, free, loop⟩
  · refine Or.inl ⟨none, ?_⟩
    unfold launch
    simp only [loop]
    rfl
  · have taken : ¬ slot > 6 - 1 := Nat.not_lt_of_le inside
    refine Or.inr ⟨slot, inside, free, ?_⟩
    unfold launch
    simp only [loop, if_neg taken, eipLoop_eq, ← setUp_loading]
    rfl

end

/-! ## The copy -/

section

variable {layout : Layout} {paging : Paging} {pid : Int}

/-- Within the page of a process the bytes are stored to its frame, one after another. -/
theorem ensures_copyLoop (range : 0 ≤ pid ∧ pid ≤ 5) (mapped : paging.pageDirectory usrIdx = Paging.userPage pid)
    {low linear base : Nat} (memory : Memory) (bytes : List UInt8) (above : 0x08000000 ≤ linear)
    (started : low ≤ linear) (room : linear + bytes.length ≤ 0x08400000)
    (place : (base : Int) = userFrame pid + ((linear : Int) - 0x08000000)) :
    Ensures (fun address => low ≤ address ∧ address < 0x08400000)
      (· = (none, (Writes.bytes base bytes).apply memory))
      (copyLoop layout paging linear memory bytes) := by
  induction bytes generalizing linear base memory with
  | nil =>
      have same : (Writes.bytes base []).apply memory = memory := by
        funext index
        simp [Writes.apply, Writes.bytes]
      rw [same]
      exact ensures_pure rfl
  | cons byte rest ih =>
      rw [List.length_cons] at room
      obtain ⟨physical, reached, target⟩ :=
        Paging.translate_userPage range mapped .supervisor (⟨above, by omega⟩ : _ ∧ linear < 0x08400000)
      have here : physical = base := by omega
      have stored : update memory physical byte = (Writes.put base byte).apply memory := by
        funext index
        by_cases same : index = base
        · simp [Writes.apply, Writes.put, here, same]
        · simp [Writes.apply, Writes.put, here, same]
      unfold copyLoop
      refine ensures_access_bind ⟨started, by omega⟩ ?_
      rw [reached]
      dsimp only
      rw [stored, ← Writes.put_bytes, Writes.apply_andThen]
      exact ih _ (by omega) (by omega) (by omega) (by omega)

/-- A longer program is stored up to the end of the page, and then behind it. -/
theorem mem_log_copyLoop (range : 0 ≤ pid ∧ pid ≤ 5) (mapped : paging.pageDirectory usrIdx = Paging.userPage pid)
    {linear : Nat} (memory : Memory) (bytes : List UInt8) (above : 0x08000000 ≤ linear)
    (below : linear ≤ 0x08400000) (long : 0x08400000 < linear + bytes.length) :
    0x08400000 ∈ (copyLoop layout paging linear memory bytes).log := by
  induction bytes generalizing linear memory with
  | nil =>
      rw [List.length_nil] at long
      omega
  | cons byte rest ih =>
      rw [List.length_cons] at long
      unfold copyLoop
      rcases Nat.eq_or_lt_of_le below with last | inside
      · rw [← last]
        exact List.mem_append_left _ List.mem_cons_self
      · obtain ⟨physical, reached, _⟩ :=
          Paging.translate_userPage range mapped .supervisor (⟨above, inside⟩ : _ ∧ linear < 0x08400000)
        rw [reached]
        exact List.mem_append_right _ (ih _ (by omega) (by omega) (by omega))

/-- Behind the page there is nothing mapped: the copy faults there. -/
theorem copyLoop_faults (range : 0 ≤ pid ∧ pid ≤ 5) (mapped : paging.pageDirectory usrIdx = Paging.userPage pid)
    (absent : (paging.pageDirectory 33).present = false) {linear : Nat} (memory : Memory)
    (bytes : List UInt8) (above : 0x08000000 ≤ linear) (below : linear ≤ 0x08400000)
    (long : 0x08400000 < linear + bytes.length) :
    (copyLoop layout paging linear memory bytes).value.1 = some 0x08400000 := by
  induction bytes generalizing linear memory with
  | nil =>
      rw [List.length_nil] at long
      omega
  | cons byte rest ih =>
      rw [List.length_cons] at long
      unfold copyLoop
      rcases Nat.eq_or_lt_of_le below with rfl | inside
      · have unmapped : paging.translate layout .supervisor 0x08400000 = none := by
          have index : (⟨0x08400000 / 2 ^ 22, by decide⟩ : Fin 1024) = 33 := by decide
          rw [Paging.translate, dif_pos (by decide), index]
          simp [absent]
        rw [unmapped]
        rfl
      · obtain ⟨physical, reached, _⟩ :=
          Paging.translate_userPage range mapped .supervisor (⟨above, inside⟩ : _ ∧ linear < 0x08400000)
        rw [reached]
        exact ih _ (by omega) (by omega) (by omega)

end

/-! ## The whole call -/

/-- The page of slot `slot` in physical memory, from the address where programs are loaded. -/
def loadBase (slot : Int) : Nat := (userFrame slot + 0x48000).toNat

/-- The outcome is the one of the kernel's `execute`, and the program is in the frame of its slot. -/
def Matches (kernel : Kernel) (memory : Memory) (result : Option (Transfer × Kernel)) (outcome : Outcome) :
    Prop :=
  match outcome.exit with
  | .returns ret => result = some (.returns ret, outcome.kernel) ∧ outcome.memory = memory
  | .enters eip => ∃ slot loaded, freeSlot kernel.progs = some slot ∧
      result = some (.program eip loaded, outcome.kernel) ∧
      outcome.memory = (Writes.bytes (loadBase slot) loaded).apply memory
  | .overrun => result = none
  | .faults _ => result = none

section

variable {image : Image} {layout : Layout} {command : CString} {frame : Frame} {locals : Locals}
  {kernel : Kernel} {memory : Memory}

/-- A program that fits into the page is copied as a whole. -/
theorem copyLoop_fits {slot : Nat} (inside : slot ≤ 5) (paging : Paging) (memory : Memory) {loaded : List UInt8}
    (fits : 0x48000 + loaded.length ≤ 0x400000) :
    Ensures (fun address => 0x08048000 ≤ address ∧ address < 0x08400000)
      (· = (none, (Writes.bytes (loadBase slot) loaded).apply memory))
      (copyLoop layout (paging.mapUser slot) 0x08048000 memory loaded) := by
  have base : (loadBase slot : Int) = userFrame slot + ((0x08048000 : Nat) - 0x08000000 : Int) := by
    unfold loadBase userFrame
    omega
  exact ensures_copyLoop (by omega) (Paging.mapUser_usrIdx paging slot) memory loaded (by decide) (Nat.le_refl _)
    (by omega) base

theorem execute_eq : Kernel.execute image command frame locals kernel =
    match check image command locals kernel.newPid with
    | .rejected ret => some (.returns ret, kernel.begin)
    | .overrun => none
    | .passed eip loaded =>
        match freeSlot kernel.progs with
        | none => some (.returns (-1), kernel.begin.setOldPid (kernel.currentPid kernel.console.currentTerminal))
        | some slot =>
            if 0x48000 + loaded.length > 0x400000 then none
            else some (.program eip loaded, kernel.begin.start slot command frame) := rfl

/-- Statement by statement the call does what the model of the kernel says, where the linear
addresses behind the user page are not mapped. -/
theorem execute_matches (absent : (kernel.paging.pageDirectory 33).present = false) :
    Matches kernel memory (Kernel.execute image command frame locals kernel)
      (execute image layout command frame locals kernel memory).value := by
  rcases execute_cases locals kernel memory with
    ⟨ret, checked, outcome⟩ | ⟨checked, outcome⟩ | ⟨dentry, _, checked, outcome⟩
  · rw [outcome, execute_eq, checked]
    exact ⟨rfl, rfl⟩
  · rw [outcome, execute_eq, checked]
    rfl
  · rw [outcome, execute_eq, checked]
    rcases launch_cases dentry (header image dentry.inodeNum locals.buf) kernel.begin memory with
      ⟨none, launched⟩ | ⟨slot, inside, free, launched⟩
    · have full : freeSlot kernel.progs = Option.none := none
      rw [launched, full]
      exact ⟨rfl, rfl⟩
    · have taken : freeSlot kernel.progs = some (slot : Int) := free
      rw [launched, taken]
      by_cases long : 0x48000 + (image.readData dentry.inodeNum 0 (image.length dentry.inodeNum)).length > 0x400000
      · have other : (33 : Fin 1024) ≠ usrIdx := by decide
        have same : (kernel.begin.paging.mapUser slot).pageDirectory 33 = kernel.paging.pageDirectory 33 :=
          update_of_ne other (Paging.userPage slot) kernel.paging.pageDirectory
        have fault : (copyLoop layout (kernel.begin.paging.mapUser slot) 0x08048000 memory
            (image.readData dentry.inodeNum 0 (image.length dentry.inodeNum))).value.1 = some 0x08400000 :=
          copyLoop_faults (by omega : 0 ≤ (slot : Int) ∧ (slot : Int) ≤ 5)
            (Paging.mapUser_usrIdx kernel.begin.paging slot) (same.symm ▸ absent) memory _ (by decide)
            (by decide) (by omega)
        dsimp only
        rw [if_pos long, value_bind, fault]
        rfl
      · have copied : (copyLoop layout (kernel.begin.paging.mapUser slot) 0x08048000 memory
            (image.readData dentry.inodeNum 0 (image.length dentry.inodeNum))).value = _ :=
          (copyLoop_fits inside kernel.begin.paging memory (Nat.le_of_not_lt long)).2
        dsimp only
        rw [if_neg long, value_bind, copied]
        exact ⟨slot, _, taken, rfl, rfl⟩

/-- What a process can see of the others. -/
structure SameProcesses (before after : Kernel) : Prop where
  newPid : after.newPid = before.newPid
  progs : after.progs = before.progs
  terminalArray : after.terminalArray = before.terminalArray
  pcb : after.pcb = before.pcb
  paging : after.paging = before.paging
  tss : after.tss = before.tss

/-- A call that returns has changed nothing about the processes, nor their memory. -/
theorem failing_execute_keeps_processes {ret : Int}
    (returned : (execute image layout command frame locals kernel memory).value.exit = .returns ret) :
    SameProcesses kernel (execute image layout command frame locals kernel memory).value.kernel ∧
      (execute image layout command frame locals kernel memory).value.memory = memory := by
  rcases execute_cases locals kernel memory with ⟨_, _, outcome⟩ | ⟨_, outcome⟩ | ⟨dentry, _, _, outcome⟩
  · rw [outcome]
    exact ⟨⟨rfl, rfl, rfl, rfl, rfl, rfl⟩, rfl⟩
  · rw [outcome]
    exact ⟨⟨rfl, rfl, rfl, rfl, rfl, rfl⟩, rfl⟩
  · rw [outcome] at returned ⊢
    rcases launch_cases dentry (header image dentry.inodeNum locals.buf) kernel.begin memory with
      ⟨_, launched⟩ | ⟨slot, _, _, launched⟩
    · rw [launched]
      exact ⟨⟨rfl, rfl, rfl, rfl, rfl, rfl⟩, rfl⟩
    · rw [launched, value_bind] at returned
      cases fault : (copyLoop layout (kernel.begin.paging.mapUser slot) 0x08048000 memory
          (image.readData dentry.inodeNum 0 (image.length dentry.inodeNum))).value.1 with
      | none =>
          simp only [fault, value_pure] at returned
          cases returned
      | some linear =>
          simp only [fault, value_pure] at returned
          cases returned

/-- A text file is refused by a call from `entry`. -/
theorem failing_execute_keeps_processes_sample :
    let outcome :=
      (execute Image.sample Layout.sample Image.frame0 ⟨0, 0⟩ Locals.zeros booted fun _ => 0).value
    SameProcesses booted outcome.kernel ∧ outcome.memory = fun _ => 0 :=
  failing_execute_keeps_processes <|
    show (execute Image.sample Layout.sample Image.frame0 ⟨0, 0⟩ Locals.zeros booted fun _ => 0).value.exit =
      .returns (-1) from by rfl

end

end Execute

end LinuxLikeOS

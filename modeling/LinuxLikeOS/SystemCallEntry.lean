import LinuxLikeOS.Bytes
import Mathlib.Logic.Relation

/-!
# Entering and leaving the kernel (`systemcall_wrapper.S`, `idt_wrapper.S`, `ece391syscall.S`)

The assembly between the C functions of a program and those of the kernel, on a processor that takes an
interrupt before any line at which its flags allow it. A program sees none of this: its system calls are
single instructions, and interrupts change nothing but the kernel.
-/

namespace LinuxLikeOS.SystemCallEntry

open Relation (ReflTransGen)

inductive Reg where
  | eax
  | ebx
  | ecx
  | edx
  | esi
  | edi
  | ebp
  deriving DecidableEq

structure Flags where
  carry : Bool
  zero : Bool
  sign : Bool
  overflow : Bool
  interrupt : Bool

/-- A line of the program, or of the assembly of the kernel. -/
inductive Place where
  | user (line : Nat)
  | kernel (line : Nat)

/-- What is on a stack: a word, the flags, the stack pointer that `pushal` stores, or what the processor pushes
when it enters the kernel, with the stack it leaves if it comes from a program. -/
inductive Word where
  | long (value : UInt32)
  | eflags (flags : Flags)
  | esp
  | frame (eip : Place) (flags : Flags) (stack : Option (List Word))

structure Cpu (σ : Type) where
  reg : Reg → UInt32
  flags : Flags
  stack : List Word
  /-- The memory and the devices. -/
  kernel : σ
  eip : Place

inductive Label where
  | systemcallWrapper
  | errorDone
  | kbWrapper
  | rtcWrapper
  | pitWrapper
  deriving DecidableEq

/-- The functions in C that the wrappers of the interrupts call. -/
inductive Handler where
  | keyboardIrqHandler
  | rtcIrqHandler
  | pitIrqHandler
  deriving DecidableEq

/-- The last of them stands for what else a program does: it has the number of its line and gives the next. -/
inductive Line (σ : Type) where
  | label (name : Label)
  | pushl (r : Reg)
  | popl (r : Reg)
  | pushal
  | popal
  | pushfl
  | popfl
  | movl (imm : UInt32) (r : Reg)
  | movlStack (index : Nat) (r : Reg)
  | cmpl (imm : UInt32) (r : Reg)
  | testl (r : Reg)
  | addl (imm : UInt32) (r : Reg)
  | ja (name : Label)
  | jle (name : Label)
  | callTable (r : Reg)
  | call (handler : Handler)
  | int80
  | sti
  | iret
  | ret
  | compute (effect : Nat → Cpu σ → Nat × Cpu σ)

/-! ## The assembly -/

section

variable {σ : Type}

/-- `DO_CALL`. -/
def doCall (number : UInt32) : List (Line σ) :=
  [.pushl .ebx, .movl number .eax, .movlStack 2 .ebx, .movlStack 3 .ecx, .movlStack 4 .edx, .int80, .popl .ebx, .ret]

def systemcallWrapper : List (Line σ) :=
  [.label .systemcallWrapper, .pushl .ebp, .pushl .esi, .pushl .edi, .cmpl 10 .eax, .ja .errorDone, .testl .eax,
    .jle .errorDone, .addl (-1) .eax, .pushl .edx, .pushl .ecx, .pushl .ebx, .callTable .eax, .sti, .popl .ebx,
    .popl .ecx, .popl .edx, .popl .edi, .popl .esi, .popl .ebp, .iret, .label .errorDone, .popl .edi, .popl .esi,
    .popl .ebp, .movl (-1) .eax, .iret]

/-- The wrapper of the interrupt of a device. -/
def irqWrapper (name : Label) (handler : Handler) : List (Line σ) :=
  [.label name, .pushal, .pushfl, .call handler, .popfl, .popal, .iret]

def kbWrapper : List (Line σ) := irqWrapper .kbWrapper .keyboardIrqHandler

def rtcWrapper : List (Line σ) := irqWrapper .rtcWrapper .rtcIrqHandler

def pitWrapper : List (Line σ) := irqWrapper .pitWrapper .pitIrqHandler

def kernelCode : List (Line σ) := systemcallWrapper ++ kbWrapper ++ rtcWrapper ++ pitWrapper

def labelled (name : Label) : Line σ → Bool
  | .label other => other == name
  | _ => false

/-- The line of a label. -/
def target (name : Label) : Nat := (kernelCode : List (Line Unit)).findIdx (labelled name)

/-- The label that the entry of the interrupt table leads to. -/
def Handler.wrapper : Handler → Label
  | .keyboardIrqHandler => .kbWrapper
  | .rtcIrqHandler => .rtcWrapper
  | .pitIrqHandler => .pitWrapper

/-! ## The processor -/

namespace Cpu

def advance (cpu : Cpu σ) : Cpu σ :=
  { cpu with eip := match cpu.eip with
      | .user line => .user (line + 1)
      | .kernel line => .kernel (line + 1) }

def set (cpu : Cpu σ) (r : Reg) (value : UInt32) : Cpu σ :=
  { cpu with reg := fun other => if other = r then value else cpu.reg other }

def push (cpu : Cpu σ) (word : Word) : Cpu σ := { cpu with stack := word :: cpu.stack }

def on (cpu : Cpu σ) (kernel : σ) : Cpu σ := { cpu with kernel := kernel }

/-- The flags of a comparison: those of the difference. -/
def compare (cpu : Cpu σ) (first second : UInt32) : Cpu σ :=
  { cpu with flags :=
      ⟨decide (first < second), first - second == 0, decide (2 ^ 31 ≤ (first - second).toNat),
        decide (first.toInt32.toInt - second.toInt32.toInt ≠ (first - second).toInt32.toInt), cpu.flags.interrupt⟩ }

/-- The flags of a logical operation with this result. -/
def logical (cpu : Cpu σ) (value : UInt32) : Cpu σ :=
  { cpu with flags := ⟨false, value == 0, decide (2 ^ 31 ≤ value.toNat), false, cpu.flags.interrupt⟩ }

/-- The flags of an addition. -/
def sum (cpu : Cpu σ) (first second : UInt32) : Cpu σ :=
  { cpu with flags :=
      ⟨decide (2 ^ 32 ≤ first.toNat + second.toNat), first + second == 0, decide (2 ^ 31 ≤ (first + second).toNat),
        decide (first.toInt32.toInt + second.toInt32.toInt ≠ (first + second).toInt32.toInt), cpu.flags.interrupt⟩ }

/-- What the processor pushes when it enters the kernel: from a program on the kernel's stack, which is empty. -/
def entered (cpu : Cpu σ) : List Word :=
  match cpu.eip with
  | .user _ => [.frame cpu.eip cpu.flags (some cpu.stack)]
  | .kernel _ => .frame cpu.eip cpu.flags none :: cpu.stack

/-- The processor enters the kernel at a label. -/
def enter (cpu : Cpu σ) (name : Label) (interrupt : Bool) : Cpu σ :=
  { cpu with stack := cpu.entered, eip := .kernel (target name), flags := { cpu.flags with interrupt := interrupt } }

end Cpu

/-- What `pushal` pushes, the last word first. -/
def savedRegisters (reg : Reg → UInt32) : List Word :=
  [.long (reg .edi), .long (reg .esi), .long (reg .ebp), .esp, .long (reg .ebx), .long (reg .edx), .long (reg .ecx),
    .long (reg .eax)]

/-- One line that is no call; `none` where the stack does not hold what the line takes from it. -/
def execute (cpu : Cpu σ) : Line σ → Option (Cpu σ)
  | .label _ => some cpu.advance
  | .pushl r => some (cpu.push (.long (cpu.reg r))).advance
  | .popl r =>
      match cpu.stack with
      | .long value :: rest => some ({ cpu with stack := rest }.set r value).advance
      | _ => none
  | .pushal => some { cpu with stack := savedRegisters cpu.reg ++ cpu.stack }.advance
  | .popal =>
      match cpu.stack with
      | .long edi :: .long esi :: .long ebp :: .esp :: .long ebx :: .long edx :: .long ecx :: .long eax :: rest =>
          some (({ cpu with stack := rest }.set .edi edi |>.set .esi esi |>.set .ebp ebp |>.set .ebx ebx
            |>.set .edx edx |>.set .ecx ecx |>.set .eax eax).advance)
      | _ => none
  | .pushfl => some (cpu.push (.eflags cpu.flags)).advance
  | .popfl =>
      match cpu.stack with
      | .eflags flags :: rest => some { cpu with stack := rest, flags := flags }.advance
      | _ => none
  | .movl imm r => some (cpu.set r imm).advance
  | .movlStack index r =>
      match cpu.stack[index]? with
      | some (.long value) => some (cpu.set r value).advance
      | _ => none
  | .cmpl imm r => some (cpu.compare (cpu.reg r) imm).advance
  | .testl r => some (cpu.logical (cpu.reg r)).advance
  | .addl imm r => some ((cpu.sum (cpu.reg r) imm).set r (cpu.reg r + imm)).advance
  | .ja name =>
      some (if !cpu.flags.carry && !cpu.flags.zero then { cpu with eip := .kernel (target name) } else cpu.advance)
  | .jle name =>
      some (if cpu.flags.zero || cpu.flags.sign != cpu.flags.overflow then { cpu with eip := .kernel (target name) }
        else cpu.advance)
  | .callTable _ => none
  | .call _ => none
  | .int80 => some (cpu.advance.enter .systemcallWrapper cpu.flags.interrupt)
  | .sti => some { cpu with flags := { cpu.flags with interrupt := true } }.advance
  | .iret =>
      match cpu.stack with
      | .frame eip flags (some stack) :: [] => some { cpu with eip := eip, flags := flags, stack := stack }
      | .frame eip flags none :: rest => some { cpu with eip := eip, flags := flags, stack := rest }
      | _ => none
  | .ret =>
      match cpu.stack with
      | .long value :: rest => some { cpu with stack := rest, eip := .user value.toNat }
      | _ => none
  | .compute effect =>
      match cpu.eip with
      | .user line => some { (effect line cpu).2 with eip := .user (effect line cpu).1 }
      | .kernel _ => none

/-- The lines of which a program is made. -/
def Line.ofProgram : Line σ → Bool
  | .pushl _ => true
  | .popl _ => true
  | .movl _ _ => true
  | .movlStack _ _ => true
  | .int80 => true
  | .ret => true
  | .compute _ => true
  | _ => false

/-- What the C functions may do from their call to their return. They may be interrupted, and other processes may
run meanwhile, so this is not determined. -/
structure Functions (σ : Type) where
  /-- An entry of `jump_table`, its three arguments, the kernel before, what it returns, and the kernel after. -/
  jumpTable : UInt32 → UInt32 → UInt32 → UInt32 → σ → UInt32 → σ → Prop
  handler : Handler → σ → σ → Prop

/-- A call of a C function that comes back to its caller, with the stack below the arguments as it was. Nothing is
said of the registers: `execute` is left by way of `halt`, which keeps none of them. -/
inductive Calls (functions : Functions σ) : Line σ → Cpu σ → Cpu σ → Prop
  | table {r : Reg} {first second third first' second' third' : UInt32} {rest : List Word} {before after : Cpu σ}
      (stacked : before.stack = .long first :: .long second :: .long third :: rest)
      (left : after.stack = .long first' :: .long second' :: .long third' :: rest)
      (returned : after.eip = before.advance.eip)
      (served : functions.jumpTable (before.reg r) first second third before.kernel (after.reg .eax) after.kernel) :
      Calls functions (.callTable r) before after
  | handler {handler : Handler} {before after : Cpu σ} (left : after.stack = before.stack)
      (returned : after.eip = before.advance.eip)
      (handled : functions.handler handler before.kernel after.kernel) : Calls functions (.call handler) before after

section

variable (functions : Functions σ) (program : Nat → Option (Line σ))

/-- The line at which the processor is. -/
def Cpu.line (cpu : Cpu σ) : Option (Line σ) :=
  match cpu.eip with
  | .user line => (program line).filter Line.ofProgram
  | .kernel line => kernelCode[line]?

/-- One step of a program that runs on the kernel. -/
inductive Step (cpu next : Cpu σ) : Prop
  | line {line : Line σ} (at' : cpu.line program = some line) (executed : execute cpu line = some next)
  | call {line : Line σ} (at' : cpu.line program = some line) (called : Calls functions line cpu next)
  | interrupt {handler : Handler} (enabled : cpu.flags.interrupt = true)
      (entered : next = cpu.enter handler.wrapper false)

/-- After a system call: the three registers of the arguments hold what the callee left in their words. -/
def Cpu.served (cpu : Cpu σ) (eax ebx ecx edx : UInt32) : Cpu σ :=
  (cpu.set .eax eax |>.set .ebx ebx |>.set .ecx ecx |>.set .edx edx).advance

/-- One step of a program as its author sees it: a system call is an instruction, and so is an interrupt, which
changes nothing but the kernel. -/
inductive Plain (cpu next : Cpu σ) : Prop
  | own {line : Line σ} (at' : cpu.line program = some line) (notCall : line ≠ .int80)
      (executed : execute cpu line = some next)
  | service {eax ebx ecx edx : UInt32} {kernel : σ} (at' : cpu.line program = some .int80)
      (valid : 1 ≤ cpu.reg .eax ∧ cpu.reg .eax ≤ 10)
      (served : functions.jumpTable (cpu.reg .eax - 1) (cpu.reg .ebx) (cpu.reg .ecx) (cpu.reg .edx) cpu.kernel eax
        kernel) (left : next = (cpu.served eax ebx ecx edx).on kernel)
  | refused (at' : cpu.line program = some .int80) (invalid : ¬ (1 ≤ cpu.reg .eax ∧ cpu.reg .eax ≤ 10))
      (left : next = (cpu.set .eax (-1)).advance)
  | interrupt {handler : Handler} {kernel : σ} (handled : functions.handler handler cpu.kernel kernel)
      (left : next = cpu.on kernel)

/-- No line is the program's. -/
def noProgram : Nat → Option (Line σ) := fun _ => none

def Cpu.InProgram (cpu : Cpu σ) : Prop := ∃ line, cpu.eip = .user line

/-! ## Lines without a call -/

/-- What is executed in one way only and leaves the kernel as it is. -/
def Line.ordinary : Line σ → Bool
  | .callTable _ => false
  | .call _ => false
  | .int80 => false
  | .compute _ => false
  | _ => true

/-- Left alone, the processor gets from here to the goal without a call; the kernel does not count. -/
inductive Toward (goal : Cpu σ) : Cpu σ → Prop
  | here {cpu : Cpu σ} (reached : cpu.on goal.kernel = goal) : Toward goal cpu
  | line {cpu next : Cpu σ} {line : Line σ} (at' : cpu.line program = some line) (ordinary : line.ordinary = true)
      (executed : execute cpu line = some next) (toward : Toward goal next) : Toward goal cpu

@[simp] theorem Cpu.on_on (cpu : Cpu σ) (kernel other : σ) : (cpu.on kernel).on other = cpu.on other := rfl

@[simp] theorem Cpu.on_self (cpu : Cpu σ) : cpu.on cpu.kernel = cpu := rfl

@[simp] theorem Cpu.line_on (cpu : Cpu σ) (kernel : σ) : (cpu.on kernel).line program = cpu.line program := rfl

theorem Cpu.eq_of_on {cpu other : Cpu σ} (kernel : cpu.kernel = other.kernel)
    (same : cpu.on other.kernel = other) : cpu = other := by
  rw [← kernel, Cpu.on_self] at same
  exact same

@[simp] theorem Cpu.on_kernel (cpu : Cpu σ) (kernel : σ) : (cpu.on kernel).kernel = kernel := rfl

theorem Cpu.eq_on {cpu other : Cpu σ} {kernel : σ} (same : cpu.on kernel = other) : cpu = other.on cpu.kernel := by
  subst same
  rfl

theorem execute_on {line : Line σ} (ordinary : line.ordinary = true) (cpu : Cpu σ) (kernel : σ) :
    execute (cpu.on kernel) line = (execute cpu line).map fun next => next.on kernel := by
  cases line with
  | callTable r => simp [Line.ordinary] at ordinary
  | call handler => simp [Line.ordinary] at ordinary
  | int80 => simp [Line.ordinary] at ordinary
  | compute effect => simp [Line.ordinary] at ordinary
  | ja name => rcases cpu with ⟨reg, ⟨_ | _, _ | _, sign, overflow, interrupt⟩, stack, old, eip⟩ <;> rfl
  | jle name => rcases cpu with ⟨reg, ⟨carry, _ | _, _ | _, _ | _, interrupt⟩, stack, old, eip⟩ <;> rfl
  | popl r => rcases cpu with ⟨reg, flags, _ | ⟨_ | _ | _ | _, rest⟩, old, eip⟩ <;> rfl
  | popfl => rcases cpu with ⟨reg, flags, _ | ⟨_ | _ | _ | _, rest⟩, old, eip⟩ <;> rfl
  | ret => rcases cpu with ⟨reg, flags, _ | ⟨_ | _ | _ | _, rest⟩, old, eip⟩ <;> rfl
  | popal => simp only [execute, Cpu.on]; split <;> rfl
  | movlStack index r => simp only [execute, Cpu.on]; split <;> rfl
  | iret => simp only [execute, Cpu.on]; split <;> rfl
  | _ => rfl

theorem execute_kernel {line : Line σ} (ordinary : line.ordinary = true) {cpu next : Cpu σ}
    (executed : execute cpu line = some next) : next.kernel = cpu.kernel := by
  have same := execute_on ordinary cpu cpu.kernel
  rw [Cpu.on_self, executed, Option.map_some, Option.some.injEq] at same
  rw [same]
  rfl

variable {functions program}

namespace Toward

theorem on {goal cpu : Cpu σ} (toward : Toward program goal cpu) (kernel : σ) :
    Toward program goal (cpu.on kernel) := by
  induction toward with
  | here reached => exact .here (by simpa using reached)
  | line at' ordinary executed _ ih =>
      refine .line (by simpa using at') ordinary ?_ ih
      rw [execute_on ordinary, executed]
      rfl

theorem goal_on {goal cpu : Cpu σ} (toward : Toward program goal cpu) (kernel : σ) :
    Toward program (goal.on kernel) cpu := by
  induction toward with
  | here reached => exact .here (by rw [← reached]; rfl)
  | line at' ordinary executed _ ih => exact .line at' ordinary executed ih

end Toward

/-! ## The way through the wrappers -/

/-- The wrapper of an interrupt at the call of its handler. -/
def Cpu.atHandler (cpu : Cpu σ) (handler : Handler) : Cpu σ :=
  { cpu with
    stack := .eflags { cpu.flags with interrupt := false } :: savedRegisters cpu.reg ++ cpu.entered
    flags := { cpu.flags with interrupt := false }
    eip := .kernel (target handler.wrapper + 3) }

theorem line_atHandler (cpu : Cpu σ) (handler : Handler) :
    (cpu.atHandler handler).line program = some (.call handler) := by
  cases handler <;> rfl

theorem toward_atHandler (cpu : Cpu σ) (handler : Handler) :
    Toward program (cpu.atHandler handler) (cpu.enter handler.wrapper false) := by
  cases handler <;> exact .line rfl rfl rfl (.line rfl rfl rfl (.line rfl rfl rfl (.here rfl)))

/-- Whatever the handler does to the registers, the wrapper returns with those that were interrupted. -/
theorem toward_interrupted (handler : Handler) {mid after : Cpu σ}
    (left : after.stack = (mid.atHandler handler).stack)
    (returned : after.eip = (mid.atHandler handler).advance.eip) : Toward program mid after := by
  obtain ⟨reg, flags, stack, kernel, eip⟩ := mid
  obtain ⟨reg', flags', stack', kernel', eip'⟩ := after
  obtain rfl : stack' = _ := left
  obtain rfl : eip' = _ := returned
  cases eip <;> cases handler <;>
    refine .line rfl rfl rfl (.line rfl rfl rfl (.line rfl rfl rfl (.here ?_))) <;>
    · simp only [Cpu.on, Cpu.set, Cpu.advance, Cpu.mk.injEq, and_true]
      funext r
      cases r <;> rfl

/-- The words below the arguments while a system call is served. -/
def Cpu.calleeSaved (cpu : Cpu σ) : List Word :=
  [.long (cpu.reg .edi), .long (cpu.reg .esi), .long (cpu.reg .ebp),
    .frame cpu.advance.eip cpu.flags (some cpu.stack)]

/-- The wrapper of the system calls at its call. -/
def Cpu.atTable (cpu : Cpu σ) : Cpu σ :=
  { cpu with
    reg := (cpu.set .eax (cpu.reg .eax + -1)).reg
    flags := (cpu.sum (cpu.reg .eax) (-1)).flags
    stack := .long (cpu.reg .ebx) :: .long (cpu.reg .ecx) :: .long (cpu.reg .edx) :: cpu.calleeSaved
    eip := .kernel (target .systemcallWrapper + 12) }

@[simp] theorem Cpu.atTable_kernel (cpu : Cpu σ) : cpu.atTable.kernel = cpu.kernel := rfl

theorem ja_below {cpu : Cpu σ} (below : cpu.flags.carry = true ∨ cpu.flags.zero = true) (name : Label) :
    execute cpu (.ja name) = some cpu.advance := by
  rcases below with carry | zero
  · simp [execute, carry]
  · simp [execute, zero]

theorem ja_above {cpu : Cpu σ} (above : cpu.flags.carry = false ∧ cpu.flags.zero = false) (name : Label) :
    execute cpu (.ja name) = some { cpu with eip := .kernel (target name) } := by
  simp [execute, above]

theorem jle_zero {cpu : Cpu σ} (zero : cpu.flags.zero = true) (name : Label) :
    execute cpu (.jle name) = some { cpu with eip := .kernel (target name) } := by
  simp [execute, zero]

theorem jle_positive {cpu : Cpu σ} (positive : cpu.flags.zero = false ∧ cpu.flags.sign = cpu.flags.overflow)
    (name : Label) : execute cpu (.jle name) = some cpu.advance := by
  simp [execute, positive]

/-- The flags of a comparison with a number that is no smaller. -/
theorem compare_below {first second : UInt32} (le : first ≤ second) :
    decide (first < second) = true ∨ (first - second == 0) = true := by
  rcases UInt32.lt_or_eq_of_le le with lt | rfl
  · exact .inl (decide_eq_true lt)
  · exact .inr (by simp)

theorem compare_above {first second : UInt32} (lt : second < first) :
    decide (first < second) = false ∧ (first - second == 0) = false := by
  refine ⟨decide_eq_false (UInt32.not_lt.mpr (UInt32.le_of_lt lt)), beq_false_of_ne fun equal => ?_⟩
  rw [UInt32.sub_eq_iff_eq_add.mp equal, UInt32.zero_add] at lt
  exact UInt32.lt_irrefl _ lt

/-- The flags of a number from one to ten. -/
theorem logical_positive {value : UInt32} (low : 1 ≤ value) (high : value ≤ 10) :
    (value == 0) = false ∧ decide (2 ^ 31 ≤ value.toNat) = false := by
  have low' : 1 ≤ value.toNat := UInt32.le_iff_toNat_le.mp low
  have high' : value.toNat ≤ 10 := UInt32.le_iff_toNat_le.mp high
  refine ⟨beq_false_of_ne fun equal => ?_, decide_eq_false (by omega)⟩
  rw [equal] at low'
  exact absurd low' (by decide)

section

variable {cpu : Cpu σ}

/-- A system call of the program. -/
abbrev Cpu.trapped (cpu : Cpu σ) : Cpu σ := cpu.advance.enter .systemcallWrapper cpu.flags.interrupt

theorem toward_atTable (inProgram : cpu.InProgram) (valid : 1 ≤ cpu.reg .eax ∧ cpu.reg .eax ≤ 10) :
    Toward program cpu.atTable cpu.trapped := by
  obtain ⟨reg, flags, stack, kernel, eip⟩ := cpu
  obtain ⟨line, rfl⟩ := inProgram
  obtain ⟨low, high⟩ := valid
  dsimp only at low high
  refine .line rfl rfl rfl (.line rfl rfl rfl (.line rfl rfl rfl (.line rfl rfl rfl (.line rfl rfl rfl ?_))))
  refine .line rfl rfl (ja_below (compare_below high) _) (.line rfl rfl rfl ?_)
  refine .line rfl rfl (jle_positive (logical_positive low high) _) (.line rfl rfl rfl ?_)
  exact .line rfl rfl rfl (.line rfl rfl rfl (.line rfl rfl rfl (.here rfl)))

/-- A number of no system call brings the processor back with -1, and with all else as it was. -/
theorem toward_refused (inProgram : cpu.InProgram) (invalid : ¬ (1 ≤ cpu.reg .eax ∧ cpu.reg .eax ≤ 10)) :
    Toward program (cpu.set .eax (-1)).advance cpu.trapped := by
  obtain ⟨reg, flags, stack, kernel, eip⟩ := cpu
  obtain ⟨line, rfl⟩ := inProgram
  dsimp only at invalid
  have finish (after : Flags) :
      Toward program (Cpu.set ⟨reg, flags, stack, kernel, .user line⟩ .eax (-1)).advance
        ⟨reg, after, Cpu.calleeSaved ⟨reg, flags, stack, kernel, .user line⟩, kernel,
          .kernel (target .errorDone)⟩ := by
    refine .line rfl rfl rfl (.line rfl rfl rfl (.line rfl rfl rfl (.line rfl rfl rfl (.line rfl rfl rfl
      (.line rfl rfl rfl (.here ?_))))))
    simp only [Cpu.on, Cpu.set, Cpu.advance, Cpu.mk.injEq, and_true]
    funext r
    cases r <;> rfl
  refine .line rfl rfl rfl (.line rfl rfl rfl (.line rfl rfl rfl (.line rfl rfl rfl (.line rfl rfl rfl ?_))))
  rcases UInt32.lt_or_le 10 (reg .eax) with above | below
  · exact .line rfl rfl (ja_above (compare_above above) _) (finish _)
  · have zero : (reg .eax == 0) = true := by
      have notPositive : ¬ (1 : UInt32) ≤ reg .eax := fun low => invalid ⟨low, below⟩
      rw [UInt32.le_iff_toNat_le] at notPositive
      have none : (reg .eax).toNat = 0 := by simpa using notPositive
      exact beq_iff_eq.mpr (UInt32.toNat_inj.mp none)
    refine .line rfl rfl (ja_below (compare_below below) _) (.line rfl rfl rfl ?_)
    exact .line rfl rfl (jle_zero zero _) (finish _)

/-- Whatever the callee left in the words of its arguments, the wrapper returns to the program. -/
theorem toward_served {after : Cpu σ} {first second third : UInt32} (inProgram : cpu.InProgram)
    (left : after.stack = .long first :: .long second :: .long third :: cpu.calleeSaved)
    (returned : after.eip = cpu.atTable.advance.eip) :
    Toward program (cpu.served (after.reg .eax) first second third) after := by
  obtain ⟨reg, flags, stack, kernel, eip⟩ := cpu
  obtain ⟨reg', flags', stack', kernel', eip'⟩ := after
  obtain ⟨line, rfl⟩ := inProgram
  obtain rfl : stack' = _ := left
  obtain rfl : eip' = _ := returned
  refine .line rfl rfl rfl (.line rfl rfl rfl (.line rfl rfl rfl (.line rfl rfl rfl (.line rfl rfl rfl
    (.line rfl rfl rfl (.line rfl rfl rfl (.line rfl rfl rfl (.here ?_))))))))
  simp only [Cpu.on, Cpu.served, Cpu.set, Cpu.advance, Cpu.mk.injEq, and_true]
  funext r
  cases r <;> rfl

end

/-! ## Interrupts and system calls as instructions -/

/-- Where the program is while the processor, which takes no interrupt, is at `base`. -/
inductive Serves (program : Nat → Option (Line σ)) (author base : Cpu σ) : Prop
  | before (at' : author.line program = some .int80) (inProgram : author.InProgram)
      (valid : 1 ≤ author.reg .eax ∧ author.reg .eax ≤ 10) (toward : Toward noProgram author.atTable base)
  | after (inProgram : author.InProgram) (toward : Toward noProgram author base)

/-- The interrupts that came, one during another, since the processor was at `base`. -/
inductive Nested (base : Cpu σ) : Cpu σ → Prop
  | base {cpu : Cpu σ} (same : cpu.on base.kernel = base) : Nested base cpu
  | handling {mid cpu : Cpu σ} {handler : Handler} (nested : Nested base mid)
      (toward : Toward noProgram (mid.atHandler handler) cpu) : Nested base cpu
  | handled {mid cpu : Cpu σ} (nested : Nested base mid) (toward : Toward noProgram mid cpu) : Nested base cpu

theorem Calls.not_ordinary {line : Line σ} {cpu next : Cpu σ} (called : Calls functions line cpu next) :
    line.ordinary = false := by
  cases called <;> rfl

/-- A step on the way that is no interrupt is the next line of the way. -/
theorem Toward.step {way : Nat → Option (Line σ)} {goal cpu next : Cpu σ} (toward : Toward way goal cpu)
    (within : ∀ line, cpu.line way = some line → cpu.line program = some line)
    (step : Step functions program cpu next) :
    cpu.on goal.kernel = goal ∨ (Toward way goal next ∧ next.kernel = cpu.kernel) ∨
      ∃ handler : Handler, next = cpu.enter handler.wrapper false := by
  cases toward with
  | here reached => exact .inl reached
  | line onWay ordinary executedOnWay toward =>
      refine .inr ?_
      cases step with
      | interrupt _ entered => exact .inr ⟨_, entered⟩
      | call at' called =>
          obtain rfl := Option.some.inj ((within _ onWay).symm.trans at')
          exact absurd ordinary (by simp [called.not_ordinary])
      | line at' executed =>
          obtain rfl := Option.some.inj ((within _ onWay).symm.trans at')
          obtain rfl := Option.some.inj (executedOnWay.symm.trans executed)
          exact .inl ⟨toward, execute_kernel ordinary executed⟩

/-- The lines of the kernel do not depend on the program. -/
theorem line_kernel (cpu : Cpu σ) (line : Line σ) (at' : cpu.line noProgram = some line) :
    cpu.line program = some line := by
  obtain ⟨reg, flags, stack, kernel, place | place⟩ := cpu
  · simp [Cpu.line, noProgram] at at'
  · exact at'

namespace Nested

theorem on {base cpu : Cpu σ} (nested : Nested base cpu) (kernel : σ) :
    Nested base (cpu.on kernel) := by
  cases nested with
  | base same => exact .base same
  | handling nested toward => exact .handling nested (toward.on kernel)
  | handled nested toward => exact .handled nested (toward.on kernel)

end Nested

namespace Serves

theorem author_on {author base : Cpu σ} (serves : Serves program author base) (kernel : σ) :
    Serves program (author.on kernel) base := by
  cases serves with
  | before at' inProgram valid toward => exact .before at' inProgram valid (toward.goal_on kernel)
  | after inProgram toward => exact .after inProgram (toward.goal_on kernel)

theorem base_on {author base : Cpu σ} (serves : Serves program author base) (kernel : σ) :
    Serves program author (base.on kernel) := by
  cases serves with
  | before at' inProgram valid toward => exact .before at' inProgram valid (toward.on kernel)
  | after inProgram toward => exact .after inProgram (toward.on kernel)

end Serves

theorem line_ofProgram {cpu : Cpu σ} {line : Line σ} (inProgram : cpu.InProgram)
    (at' : cpu.line program = some line) : line.ofProgram = true := by
  obtain ⟨place, eip⟩ := inProgram
  rw [Cpu.line, eip] at at'
  exact (Option.filter_eq_some_iff.mp at').2

theorem advance_inProgram {cpu : Cpu σ} (inProgram : cpu.InProgram) : cpu.advance.InProgram := by
  obtain ⟨place, eip⟩ := inProgram
  exact ⟨place + 1, by simp [Cpu.advance, eip]⟩

/-- The lines of a program other than a system call stay in it. -/
theorem execute_inProgram {cpu next : Cpu σ} {line : Line σ} (inProgram : cpu.InProgram)
    (ofProgram : line.ofProgram = true) (notCall : line ≠ .int80) (executed : execute cpu line = some next) :
    next.InProgram := by
  obtain ⟨place, eip⟩ := inProgram
  have advanced (other : Cpu σ) (same : other.eip = cpu.eip) : other.advance.InProgram :=
    advance_inProgram ⟨place, same.trans eip⟩
  cases line with
  | pushl r => exact Option.some.inj executed ▸ advanced (cpu.push (.long (cpu.reg r))) rfl
  | movl imm r => exact Option.some.inj executed ▸ advanced (cpu.set r imm) rfl
  | popl r =>
      simp only [execute] at executed
      split at executed
      · exact Option.some.inj executed ▸ advanced _ rfl
      · cases executed
  | movlStack index r =>
      simp only [execute] at executed
      split at executed
      · exact Option.some.inj executed ▸ advanced _ rfl
      · cases executed
  | ret =>
      simp only [execute] at executed
      split at executed
      · exact Option.some.inj executed ▸ ⟨_, rfl⟩
      · cases executed
  | compute effect =>
      simp only [execute, eip] at executed
      exact Option.some.inj executed ▸ ⟨_, rfl⟩
  | int80 => exact absurd rfl notCall
  | _ => cases ofProgram

/-- A step of a processor that takes no interrupt. -/
theorem Serves.step {author cpu next : Cpu σ} (serves : Serves program author cpu)
    (kernel : cpu.kernel = author.kernel) (step : Step functions program cpu next) :
    (∃ later, ReflTransGen (Plain functions program) author later ∧ Serves program later next ∧
      next.kernel = later.kernel) ∨ ∃ handler : Handler, next = cpu.enter handler.wrapper false := by
  cases serves with
  | before at' inProgram valid toward =>
      rcases toward.step (line_kernel _) step with reached | ⟨toward, same⟩ | entered
      · have equal : cpu = author.atTable := by rw [← reached]; exact congrArg cpu.on kernel
        subst equal
        cases step with
        | line atTable executed =>
            obtain rfl := Option.some.inj atTable
            cases executed
        | interrupt _ entered => exact .inr ⟨_, entered⟩
        | call atTable called =>
            obtain rfl := Option.some.inj atTable
            cases called with
            | table stacked left returned served =>
                cases stacked
                refine .inl ⟨(author.served (next.reg .eax) _ _ _).on next.kernel, .single ?_,
                  .after (advance_inProgram inProgram) ((toward_served inProgram left returned).goal_on _), rfl⟩
                exact .service at' valid (by rwa [← UInt32.add_neg_eq_sub]) rfl
      · exact .inl ⟨author, .refl, .before at' inProgram valid toward, same.trans kernel⟩
      · exact .inr entered
  | after inProgram toward =>
      rcases toward.step (line_kernel _) step with reached | ⟨toward, same⟩ | entered
      · have equal : cpu = author := by rw [← reached]; exact congrArg cpu.on kernel
        subst equal
        cases step with
        | interrupt _ entered => exact .inr ⟨_, entered⟩
        | call at' called =>
            have ofProgram := line_ofProgram inProgram at'
            cases called <;> cases ofProgram
        | line at' executed =>
            left
            rcases Classical.em (cpu.line program = some .int80) with trap | own
            · obtain rfl := Option.some.inj (trap.symm.trans at')
              obtain rfl := Option.some.inj executed
              rcases Decidable.em (1 ≤ cpu.reg .eax ∧ cpu.reg .eax ≤ 10) with valid | invalid
              · exact ⟨cpu, .refl, .before trap inProgram valid (toward_atTable inProgram valid), rfl⟩
              · exact ⟨_, .single (.refused trap invalid rfl), .after (advance_inProgram inProgram)
                  (toward_refused inProgram invalid), rfl⟩
            · have notCall : _ ≠ Line.int80 := fun equal => own (equal ▸ at')
              exact ⟨next, .single (.own at' notCall executed), .after (execute_inProgram inProgram
                (line_ofProgram inProgram at') notCall executed) (.here rfl), rfl⟩
      · exact .inl ⟨author, .refl, .after inProgram toward, same.trans kernel⟩
      · exact .inr entered

/-- The kernel may change under interrupts that are handled. -/
theorem Nested.step {author base cpu next : Cpu σ} (nested : Nested base cpu)
    (serves : Serves program author base) (kernel : σ) (same : kernel = author.kernel)
    (step : Step functions program (cpu.on kernel) next) :
    ∃ later base', ReflTransGen (Plain functions program) author later ∧ Serves program later base' ∧
      Nested base' next ∧ next.kernel = later.kernel := by
  induction nested generalizing kernel next with
  | @base cpu equal =>
      have serves' : Serves program author (cpu.on kernel) := by
        have moved := serves.base_on kernel
        rwa [← equal, Cpu.on_on] at moved
      rcases serves'.step same step with ⟨later, plain, serves, kernels⟩ | ⟨handler, rfl⟩
      · exact ⟨later, next, plain, serves, .base rfl, kernels⟩
      · have here : Nested (cpu.on kernel) (cpu.on kernel) := .base rfl
        exact ⟨author, _, .refl, serves', .handling here (toward_atHandler _ handler), same⟩
  | @handling mid cpu handler nested toward ih =>
      have nested' : Nested base cpu := .handling nested toward
      rcases (toward.on kernel).step (line_kernel _) step with reached | ⟨toward, kernels⟩ | ⟨other, rfl⟩
      · have equal : cpu.on kernel = (mid.atHandler handler).on kernel := Cpu.eq_on reached
        rw [equal] at step
        cases step with
        | line at' executed =>
            rw [Cpu.line_on, line_atHandler, Option.some.injEq] at at'
            subst at'
            cases executed
        | call at' called =>
            rw [Cpu.line_on, line_atHandler, Option.some.injEq] at at'
            subst at'
            cases called with
            | handler left returned handled =>
                exact ⟨author.on next.kernel, base, .single (.interrupt (same ▸ handled) rfl),
                  serves.author_on _, .handled nested (toward_interrupted handler left returned), rfl⟩
        | interrupt _ entered =>
            subst entered
            have again : Nested base ((mid.atHandler handler).on kernel) := equal ▸ nested'.on kernel
            exact ⟨author, base, .refl, serves, .handling again (toward_atHandler _ _), same⟩
      · exact ⟨author, base, .refl, serves, .handling nested toward, kernels.trans same⟩
      · exact ⟨author, base, .refl, serves, .handling (.handling nested (toward.on kernel)) (toward_atHandler _ other),
          same⟩
  | @handled mid cpu nested toward ih =>
      rcases (toward.on kernel).step (line_kernel _) step with reached | ⟨toward, kernels⟩ | ⟨other, rfl⟩
      · refine ih kernel same ?_
        rwa [← reached]
      · exact ⟨author, base, .refl, serves, .handled nested toward, kernels.trans same⟩
      · exact ⟨author, base, .refl, serves, .handling (.handled nested (toward.on kernel)) (toward_atHandler _ other),
          same⟩

theorem Nested.run {start cpu : Cpu σ} (inProgram : start.InProgram)
    (run : ReflTransGen (Step functions program) start cpu) :
    ∃ author base, ReflTransGen (Plain functions program) start author ∧ Serves program author base ∧
      Nested base cpu ∧ cpu.kernel = author.kernel := by
  induction run with
  | refl => exact ⟨start, start, .refl, .after inProgram (.here rfl), .base rfl, rfl⟩
  | @tail mid cpu _ step ih =>
      obtain ⟨author, base, plain, serves, nested, same⟩ := ih
      obtain ⟨later, base', further, serves', nested', same'⟩ := nested.step serves mid.kernel same step
      exact ⟨later, base', plain.trans further, serves', nested', same'⟩

theorem Toward.inProgram {goal cpu : Cpu σ} (toward : Toward noProgram goal cpu) (inProgram : cpu.InProgram) :
    cpu.on goal.kernel = goal := by
  cases toward with
  | here reached => exact reached
  | line at' _ _ _ =>
      obtain ⟨place, eip⟩ := inProgram
      simp [Cpu.line, eip, noProgram] at at'

theorem Toward.goal_inProgram {goal cpu : Cpu σ} (toward : Toward noProgram goal cpu)
    (inProgram : cpu.InProgram) : goal.InProgram :=
  toward.inProgram inProgram ▸ inProgram

/-- Back in the program, no interrupt is left. -/
theorem Nested.inProgram {base cpu : Cpu σ} (nested : Nested base cpu) (inProgram : cpu.InProgram) :
    cpu.on base.kernel = base := by
  induction nested with
  | base same => exact same
  | @handling mid cpu handler _ toward _ =>
      obtain ⟨place, eip⟩ := toward.goal_inProgram inProgram
      cases eip
  | @handled mid cpu _ toward ih =>
      have reached := toward.inProgram inProgram
      have back := ih (reached ▸ inProgram)
      rwa [← reached, Cpu.on_on] at back

/-- Where a run is in the program, it is one as its author sees it. -/
theorem plain_of_run {start cpu : Cpu σ} (starts : start.InProgram) (inProgram : cpu.InProgram)
    (run : ReflTransGen (Step functions program) start cpu) : ReflTransGen (Plain functions program) start cpu := by
  obtain ⟨author, base, plain, serves, nested, same⟩ := Nested.run starts run
  have atBase := nested.inProgram inProgram
  have baseInProgram : base.InProgram := atBase ▸ inProgram
  suffices equal : cpu.on author.kernel = author by rwa [Cpu.eq_of_on same equal]
  cases serves with
  | before at' _ _ toward =>
      obtain ⟨place, eip⟩ := toward.goal_inProgram baseInProgram
      cases eip
  | after _ toward =>
      have reached := toward.inProgram baseInProgram
      rwa [← atBase, Cpu.on_on] at reached

/-! ## Going on -/

theorem Toward.along {way : Nat → Option (Line σ)} {steps : Cpu σ → Cpu σ → Prop} {goal cpu : Cpu σ}
    (toward : Toward way goal cpu)
    (line : ∀ (cpu next : Cpu σ) (line : Line σ), cpu.line way = some line → execute cpu line = some next →
      steps cpu next) : ReflTransGen steps cpu (goal.on cpu.kernel) := by
  induction toward with
  | here reached => rw [← Cpu.eq_on reached]
  | @line cpu next _ at' ordinary executed _ ih =>
      rw [execute_kernel ordinary executed] at ih
      exact .head (line _ _ _ at' executed) ih

theorem Toward.steps {way : Nat → Option (Line σ)} {goal cpu : Cpu σ} (toward : Toward way goal cpu)
    (within : ∀ (cpu : Cpu σ) (line : Line σ), cpu.line way = some line → cpu.line program = some line) :
    ReflTransGen (Step functions program) cpu (goal.on cpu.kernel) :=
  toward.along fun _ _ _ at' executed => .line (within _ _ at') executed

theorem atHandler_calls (cpu : Cpu σ) {handler : Handler} {before after : σ}
    (handled : functions.handler handler before after) :
    Step functions program ((cpu.atHandler handler).on before)
      (({ cpu.atHandler handler with eip := .kernel (target handler.wrapper + 4) } : Cpu σ).on after) :=
  .call ((Cpu.line_on ..).trans (line_atHandler cpu handler)) (.handler rfl rfl handled)

theorem atHandler_returns (cpu : Cpu σ) {handler : Handler} {before after : σ}
    (handled : functions.handler handler before after) :
    ReflTransGen (Step functions program) ((cpu.atHandler handler).on before) (cpu.on after) := by
  refine .head (atHandler_calls cpu handled) (Toward.steps (Toward.on ?_ after) line_kernel)
  exact toward_interrupted handler rfl rfl

/-- The processor at the return from an entry of the table. -/
def Cpu.atReturn (cpu : Cpu σ) (eax ebx ecx edx : UInt32) : Cpu σ :=
  { cpu.atTable with
    reg := (cpu.set .eax eax).reg
    stack := .long ebx :: .long ecx :: .long edx :: cpu.calleeSaved
    eip := .kernel (target .systemcallWrapper + 13) }

theorem atTable_calls {cpu : Cpu σ} {before after : σ} {eax : UInt32} (ebx ecx edx : UInt32)
    (served : functions.jumpTable (cpu.reg .eax - 1) (cpu.reg .ebx) (cpu.reg .ecx) (cpu.reg .edx) before eax after) :
    Step functions program (cpu.atTable.on before) ((cpu.atReturn eax ebx ecx edx).on after) := by
  have left : ((cpu.atReturn eax ebx ecx edx).on after).stack =
      .long ebx :: .long ecx :: .long edx :: cpu.calleeSaved := rfl
  refine .call rfl (.table rfl left rfl ?_)
  rwa [← UInt32.add_neg_eq_sub] at served

theorem atTable_returns {cpu : Cpu σ} (inProgram : cpu.InProgram) {before after : σ} {eax : UInt32}
    (ebx ecx edx : UInt32)
    (served : functions.jumpTable (cpu.reg .eax - 1) (cpu.reg .ebx) (cpu.reg .ecx) (cpu.reg .edx) before eax after) :
    ReflTransGen (Step functions program) (cpu.atTable.on before) ((cpu.served eax ebx ecx edx).on after) := by
  have left : (cpu.atReturn eax ebx ecx edx).stack = .long ebx :: .long ecx :: .long edx :: cpu.calleeSaved := rfl
  have back : Toward noProgram (cpu.served eax ebx ecx edx) (cpu.atReturn eax ebx ecx edx) :=
    toward_served inProgram left rfl
  exact .head (atTable_calls ebx ecx edx served) ((back.on after).steps line_kernel)

theorem Plain.steps {cpu next : Cpu σ} (plain : Plain functions program cpu next) (inProgram : cpu.InProgram)
    (enabled : cpu.flags.interrupt = true) : ReflTransGen (Step functions program) cpu next := by
  cases plain with
  | own at' _ executed => exact .single (.line at' executed)
  | @interrupt handler _ handled left =>
      subst left
      have entered : ReflTransGen (Step functions program) _ _ := (toward_atHandler cpu handler).steps line_kernel
      exact .head (.interrupt enabled rfl) (entered.trans (atHandler_returns cpu handled))
  | refused at' invalid left =>
      subst left
      exact .head (.line at' rfl) ((toward_refused inProgram invalid).steps line_kernel)
  | service at' valid served left =>
      subst left
      have entered : ReflTransGen (Step functions program) _ _ :=
        (toward_atTable inProgram valid).steps line_kernel
      exact .head (.line at' rfl) (entered.trans (atTable_returns inProgram _ _ _ served))

/-- Where the program runs, the interrupt flag is not its own to change. -/
def Unprivileged (program : Nat → Option (Line σ)) : Prop :=
  ∀ place effect, program place = some (.compute effect) →
    ∀ line cpu, (effect line cpu).2.flags.interrupt = cpu.flags.interrupt

theorem execute_interrupt {cpu next : Cpu σ} {line : Line σ} (unprivileged : Unprivileged program)
    (inProgram : cpu.InProgram) (at' : cpu.line program = some line) (notCall : line ≠ .int80)
    (executed : execute cpu line = some next) : next.flags.interrupt = cpu.flags.interrupt := by
  have ofProgram := line_ofProgram inProgram at'
  obtain ⟨place, eip⟩ := inProgram
  cases line with
  | pushl r => exact Option.some.inj executed ▸ rfl
  | movl imm r => exact Option.some.inj executed ▸ rfl
  | popl r =>
      simp only [execute] at executed
      split at executed
      · exact Option.some.inj executed ▸ rfl
      · cases executed
  | movlStack index r =>
      simp only [execute] at executed
      split at executed
      · exact Option.some.inj executed ▸ rfl
      · cases executed
  | ret =>
      simp only [execute] at executed
      split at executed
      · exact Option.some.inj executed ▸ rfl
      · cases executed
  | compute effect =>
      rw [Cpu.line, eip] at at'
      simp only [execute, eip] at executed
      exact Option.some.inj executed ▸ unprivileged place effect (Option.filter_eq_some_iff.mp at').1 place cpu
  | int80 => exact absurd rfl notCall
  | _ => cases ofProgram

/-- What a step as its author sees it leaves true of a program. -/
theorem Plain.keeps {cpu next : Cpu σ} (plain : Plain functions program cpu next)
    (unprivileged : Unprivileged program) (inProgram : cpu.InProgram) :
    next.InProgram ∧ next.flags.interrupt = cpu.flags.interrupt := by
  cases plain with
  | own at' notCall executed =>
      exact ⟨execute_inProgram inProgram (line_ofProgram inProgram at') notCall executed,
        execute_interrupt unprivileged inProgram at' notCall executed⟩
  | service _ _ _ left => exact left ▸ ⟨advance_inProgram inProgram, rfl⟩
  | refused _ _ left => exact left ▸ ⟨advance_inProgram inProgram, rfl⟩
  | interrupt _ left => exact left ▸ ⟨inProgram, rfl⟩

/-- Handlers count by ten, and entries of the table return the sum of their arguments; the first one does not
return. -/
def Functions.sample : Functions Nat where
  jumpTable index first second third before eax after :=
    index ≠ 0 ∧ eax = index + first + second + third ∧ after = before + 1
  handler _ before after := after = before + 10

/-- A system call, and then the program counts in EBX. -/
def callAndCount : Nat → Option (Line Nat)
  | 0 => some .int80
  | _ + 1 => some (.compute fun line cpu => (line + 1, cpu.set .ebx (cpu.reg .ebx + 1)))

/-- A program that has called a function of the library that stands at its first line. -/
def Cpu.sample : Cpu Nat where
  reg _ := 7
  flags := ⟨false, false, false, false, true⟩
  stack := [.long 100, .long 1, .long 2, .long 3]
  kernel := 0
  eip := .user 0

/-- Whenever interrupts come, also while a system call is entered or left and during one another: the runs that end
in the program are those in which a system call is one instruction and an interrupt changes the kernel alone. -/
theorem runs_are_plain {start cpu : Cpu σ} (starts : start.InProgram) (enabled : start.flags.interrupt = true)
    (unprivileged : Unprivileged program) :
    ReflTransGen (Step functions program) start cpu ∧ cpu.InProgram ↔
      ReflTransGen (Plain functions program) start cpu := by
  refine ⟨fun run => plain_of_run starts run.2 run.1, fun plain => ?_⟩
  suffices all : ReflTransGen (Step functions program) start cpu ∧ cpu.InProgram ∧ cpu.flags.interrupt = true from
    ⟨all.1, all.2.1⟩
  induction plain with
  | refl => exact ⟨.refl, starts, enabled⟩
  | tail _ step ih =>
      obtain ⟨run, inProgram, enabled⟩ := ih
      obtain ⟨stays, same⟩ := step.keeps unprivileged inProgram
      exact ⟨run.trans (step.steps inProgram enabled), stays, same.trans enabled⟩

theorem callAndCount_unprivileged : Unprivileged callAndCount := by
  intro place effect at' line cpu
  cases place with
  | zero => cases at'
  | succ place =>
      cases at'
      rfl

/-- An interrupt of the timer, the system call, and a line of the program. -/
theorem runs_are_plain_sample : ∃ last, ReflTransGen (Step Functions.sample callAndCount) (Cpu.sample.set .eax 4) last ∧
    last.InProgram ∧ last.kernel = 11 ∧ last.reg .eax = 24 ∧ last.reg .ebx = 8 := by
  have interrupted : Functions.sample.handler .pitIrqHandler 0 10 := rfl
  have served : Functions.sample.jumpTable 3 7 7 7 10 24 11 := ⟨by decide, by decide, rfl⟩
  have first : Plain Functions.sample callAndCount (Cpu.sample.set .eax 4) ((Cpu.sample.set .eax 4).on 10) :=
    .interrupt interrupted rfl
  have second : Plain Functions.sample callAndCount ((Cpu.sample.set .eax 4).on 10)
      ((((Cpu.sample.set .eax 4).on 10).served 24 7 7 7).on 11) := .service rfl (by decide) served rfl
  have third : Plain Functions.sample callAndCount ((((Cpu.sample.set .eax 4).on 10).served 24 7 7 7).on 11)
      { ((((Cpu.sample.set .eax 4).on 10).served 24 7 7 7).on 11).set .ebx 8 with eip := .user 2 } :=
    .own rfl (fun same => by cases same) rfl
  obtain ⟨steps, inProgram⟩ := (runs_are_plain ⟨0, rfl⟩ rfl callAndCount_unprivileged).mpr
    (.head first (.head second (.single third)))
  exact ⟨_, steps, inProgram, rfl, rfl, rfl⟩

/-! ## The way back -/

/-- One step in the kernel that is no interrupt. -/
inductive Proceeds (functions : Functions σ) (cpu next : Cpu σ) : Prop
  | line {line : Line σ} (at' : cpu.line noProgram = some line) (executed : execute cpu line = some next)
  | call {line : Line σ} (at' : cpu.line noProgram = some line) (called : Calls functions line cpu next)

def Line.isCall : Line σ → Bool
  | .callTable _ => true
  | .call _ => true
  | _ => false

theorem Line.not_ordinary {line : Line σ} (isCall : line.isCall = true) : line.ordinary = false := by
  cases line <;> first | rfl | cases isCall

/-- The C functions that are called on the way back to the program return. -/
def PendingReturn (functions : Functions σ) (cpu : Cpu σ) : Prop :=
  ∀ mid line, ReflTransGen (Proceeds functions) cpu mid → mid.line noProgram = some line → line.isCall = true →
    ∃ next, Calls functions line mid next

theorem Proceeds.step {cpu next : Cpu σ} (proceeds : Proceeds functions cpu next) :
    Step functions program cpu next := by
  cases proceeds with
  | line at' executed => exact .line (line_kernel _ _ at') executed
  | call at' called => exact .call (line_kernel _ _ at') called

theorem Toward.proceeds {goal cpu : Cpu σ} (toward : Toward noProgram goal cpu) :
    ReflTransGen (Proceeds functions) cpu (goal.on cpu.kernel) :=
  toward.along fun _ _ _ at' executed => .line at' executed

theorem PendingReturn.after {cpu mid : Cpu σ} (pending : PendingReturn functions cpu)
    (way : ReflTransGen (Proceeds functions) cpu mid) : PendingReturn functions mid :=
  fun last line further => pending last line (way.trans further)

theorem Serves.returns {author base : Cpu σ} (serves : Serves program author base) (kernel : σ)
    (pending : PendingReturn functions (base.on kernel)) :
    ∃ back : Cpu σ, ReflTransGen (Proceeds functions) (base.on kernel) back ∧ back.InProgram := by
  cases serves with
  | after inProgram toward => exact ⟨_, (toward.on kernel).proceeds, inProgram⟩
  | before _ inProgram _ toward =>
      have way : ReflTransGen (Proceeds functions) _ _ := (toward.on kernel).proceeds
      obtain ⟨next, called⟩ := pending _ _ way rfl rfl
      have here := called
      cases called with
      | table stacked left returned served =>
          cases stacked
          exact ⟨_, (way.tail (.call rfl here)).trans (toward_served inProgram left returned).proceeds,
            advance_inProgram inProgram⟩

theorem Nested.returns {author base cpu : Cpu σ} (nested : Nested base cpu) (serves : Serves program author base)
    (kernel : σ) (pending : PendingReturn functions (cpu.on kernel)) :
    ∃ back : Cpu σ, ReflTransGen (Proceeds functions) (cpu.on kernel) back ∧ back.InProgram := by
  induction nested generalizing kernel with
  | @base cpu same =>
      have equal : base.on kernel = cpu.on kernel := by rw [← same, Cpu.on_on]
      exact equal ▸ serves.returns kernel (equal ▸ pending)
  | @handling mid cpu handler _ toward ih =>
      have way : ReflTransGen (Proceeds functions) _ _ := (toward.on kernel).proceeds
      have at' : ((mid.atHandler handler).on kernel).line noProgram = some (.call handler) :=
        (Cpu.line_on ..).trans (line_atHandler mid handler)
      obtain ⟨next, called⟩ := pending _ _ way at' rfl
      have here := called
      cases called with
      | handler left returned _ =>
          have back := (way.tail (.call at' here)).trans (toward_interrupted handler left returned).proceeds
          obtain ⟨last, further, inProgram⟩ := ih next.kernel (pending.after back)
          exact ⟨last, back.trans further, inProgram⟩
  | @handled mid cpu _ toward ih =>
      have way : ReflTransGen (Proceeds functions) _ _ := (toward.on kernel).proceeds
      obtain ⟨back, further, inProgram⟩ := ih kernel (pending.after way)
      exact ⟨back, way.trans further, inProgram⟩

/-- Where the C functions that are still to be called return, the assembly is never stuck: from wherever interrupts and
system calls have brought the processor there is a way back into the program. -/
theorem returns_to_program {start cpu : Cpu σ} (starts : start.InProgram)
    (run : ReflTransGen (Step functions program) start cpu) (pending : PendingReturn functions cpu) :
    ∃ back : Cpu σ, ReflTransGen (Step functions program) cpu back ∧ back.InProgram := by
  obtain ⟨author, base, -, serves, nested, -⟩ := Nested.run starts run
  obtain ⟨back, way, inProgram⟩ := nested.returns serves cpu.kernel pending
  exact ⟨back, ReflTransGen.mono (fun _ _ proceeds => proceeds.step) _ _ way, inProgram⟩

/-- On the way there is no call. -/
theorem Toward.pending {goal cpu : Cpu σ} (toward : Toward noProgram goal cpu)
    (atGoal : PendingReturn functions (goal.on cpu.kernel)) : PendingReturn functions cpu := by
  induction toward with
  | here reached => rwa [← Cpu.eq_on reached] at atGoal
  | @line cpu next _ onWay ordinary executed _ ih =>
      rw [← execute_kernel ordinary executed] at atGoal
      intro mid line way at' isCall
      rcases way.cases_head with rfl | ⟨other, proceeds, further⟩
      · obtain rfl := Option.some.inj (onWay.symm.trans at')
        exact absurd ordinary (by simp [Line.not_ordinary isCall])
      · cases proceeds with
        | line here executed' =>
            obtain rfl := Option.some.inj (onWay.symm.trans here)
            obtain rfl := Option.some.inj (executed.symm.trans executed')
            exact ih atGoal mid line further at' isCall
        | call here called =>
            obtain rfl := Option.some.inj (onWay.symm.trans here)
            exact absurd ordinary (by simp [called.not_ordinary])

theorem pendingReturn_of_inProgram {cpu : Cpu σ} (inProgram : cpu.InProgram) : PendingReturn functions cpu := by
  obtain ⟨place, eip⟩ := inProgram
  have nothing : cpu.line noProgram = none := by simp [Cpu.line, eip, noProgram]
  intro mid line way at' _
  rcases way.cases_head with rfl | ⟨other, proceeds, _⟩
  · cases nothing.symm.trans at'
  · cases proceeds with
    | line here _ => cases nothing.symm.trans here
    | call here _ => cases nothing.symm.trans here

/-- Of a system call that returns, nothing else is to be asked. -/
theorem pendingReturn_of_trapped {cpu : Cpu σ} (inProgram : cpu.InProgram)
    (valid : 1 ≤ cpu.reg .eax ∧ cpu.reg .eax ≤ 10) {eax : UInt32} {after : σ}
    (served : functions.jumpTable (cpu.reg .eax - 1) (cpu.reg .ebx) (cpu.reg .ecx) (cpu.reg .edx) cpu.kernel eax
      after) : PendingReturn functions cpu.trapped := by
  refine (toward_atTable inProgram valid).pending fun mid line way at' isCall => ?_
  rcases way.cases_head with rfl | ⟨next, proceeds, further⟩
  · obtain rfl := Option.some.inj at'
    rw [← UInt32.add_neg_eq_sub] at served
    have left : ((cpu.atReturn eax 0 0 0).on after).stack = .long 0 :: .long 0 :: .long 0 :: cpu.calleeSaved := rfl
    exact ⟨_, .table rfl left rfl served⟩
  · cases proceeds with
    | line here executed =>
        obtain rfl := Option.some.inj here
        cases executed
    | call here called =>
        obtain rfl := Option.some.inj here
        cases called with
        | table stacked left returned _ =>
            cases stacked
            have back := advance_inProgram inProgram
            exact (toward_served inProgram left returned).pending (pendingReturn_of_inProgram back) mid line further
              at' isCall

theorem returns_to_program_sample :
    ∃ back : Cpu Nat, ReflTransGen (Step Functions.sample callAndCount) (Cpu.sample.set .eax 4).trapped back ∧
      back.InProgram := by
  have served : Functions.sample.jumpTable 3 7 7 7 0 24 1 := ⟨by decide, by decide, rfl⟩
  have pending : PendingReturn Functions.sample (Cpu.sample.set .eax 4).trapped :=
    pendingReturn_of_trapped ⟨0, rfl⟩ (by decide) served
  have trap : (Cpu.sample.set .eax 4).line callAndCount = some .int80 := rfl
  exact returns_to_program ⟨0, rfl⟩ (.single (.line trap rfl)) pending

/-! ## A call of the library -/

/-- A program that is one function of the library. -/
def library (place : Nat) (number : UInt32) : Nat → Option (Line σ) :=
  fun line => if place ≤ line then (doCall number)[line - place]? else none

/-- What the handlers of some interrupts, one after the other, make of the kernel. -/
def Handled (functions : Functions σ) : σ → σ → Prop :=
  ReflTransGen fun before after => ∃ handler, functions.handler handler before after

section

variable {place : Nat} {number : UInt32} {ret first second third : UInt32} {rest : List Word}

theorem line_library (number : UInt32) (index : Nat) {cpu : Cpu σ} (eip : cpu.eip = .user (place + index)) :
    cpu.line (library place number) = ((doCall number)[index]?).filter Line.ofProgram := by
  simp [Cpu.line, eip, library]

/-- The function at its system call. -/
def Cpu.atTrap (cpu : Cpu σ) (place : Nat) (number first second third : UInt32) : Cpu σ :=
  { cpu with
    reg := (cpu.set .eax number |>.set .ebx first |>.set .ecx second |>.set .edx third).reg
    stack := .long (cpu.reg .ebx) :: cpu.stack
    eip := .user (place + 5) }

theorem toward_atTrap {cpu : Cpu σ} (eip : cpu.eip = .user place)
    (stack : cpu.stack = .long ret :: .long first :: .long second :: .long third :: rest) :
    Toward (library place number) (cpu.atTrap place number first second third) cpu := by
  obtain ⟨reg, flags, _, kernel, _⟩ := cpu
  obtain rfl := eip
  obtain rfl := stack
  have at' (index : Nat) (now : Cpu σ) (eip : now.eip = .user (place + index)) := line_library number index eip
  refine .line (at' 0 _ rfl) rfl rfl (.line (at' 1 _ rfl) rfl rfl (.line (at' 2 _ rfl) rfl rfl
    (.line (at' 3 _ rfl) rfl rfl (.line (at' 4 _ rfl) rfl rfl (.here ?_)))))
  rfl

/-- After the return, with what the registers of the caller hold. -/
def Cpu.returned (cpu : Cpu σ) (ret eax ecx edx : UInt32) (stack : List Word) : Cpu σ :=
  { cpu with
    reg := (cpu.set .eax eax |>.set .ecx ecx |>.set .edx edx).reg
    stack := stack
    eip := .user ret.toNat }

theorem toward_returned {cpu : Cpu σ} (stack : cpu.stack = .long ret :: rest) (eax ebx ecx edx : UInt32) :
    Toward (library place number) (cpu.returned ret eax ecx edx rest)
      ((cpu.atTrap place number first second third).served eax ebx ecx edx) := by
  obtain ⟨reg, flags, _, kernel, eip⟩ := cpu
  obtain rfl := stack
  have at' (index : Nat) (now : Cpu σ) (eip : now.eip = .user (place + index)) := line_library number index eip
  refine .line (at' 6 _ rfl) rfl rfl (.line (at' 7 _ rfl) rfl rfl (.here ?_))
  simp only [Cpu.on, Cpu.set, Cpu.advance, Cpu.served, Cpu.atTrap, Cpu.returned, Cpu.mk.injEq, and_true]
  funext r
  cases r <;> rfl

theorem Toward.stopped {goal cpu : Cpu σ} (toward : Toward program goal cpu) (nothing : cpu.line program = none) :
    cpu.on goal.kernel = goal := by
  cases toward with
  | here reached => exact reached
  | line at' _ _ _ => cases nothing.symm.trans at'

/-- A plain step on the way, or an interrupt. -/
theorem Toward.plain {goal cpu next : Cpu σ} (toward : Toward program goal cpu)
    (plain : Plain functions program cpu next) :
    cpu.on goal.kernel = goal ∨ (Toward program goal next ∧ Handled functions cpu.kernel next.kernel) := by
  have interrupted := toward
  cases toward with
  | here reached => exact .inl reached
  | line onWay ordinary executedOnWay toward =>
      refine .inr ?_
      cases plain with
      | own at' _ executed =>
          obtain rfl := Option.some.inj (onWay.symm.trans at')
          obtain rfl := Option.some.inj (executedOnWay.symm.trans executed)
          exact ⟨toward, execute_kernel ordinary executed ▸ .refl⟩
      | service at' _ _ _ =>
          obtain rfl := Option.some.inj (onWay.symm.trans at')
          cases ordinary
      | refused at' _ _ =>
          obtain rfl := Option.some.inj (onWay.symm.trans at')
          cases ordinary
      | interrupt handled left => exact left ▸ ⟨interrupted.on _, .single ⟨_, handled⟩⟩

/-- How far a call of the library has got. -/
inductive Calling (functions : Functions σ) (place : Nat) (number ret first second third : UInt32) (rest : List Word)
    (start cpu : Cpu σ) : Prop
  | before (toward : Toward (library place number) (start.atTrap place number first second third) cpu)
      (handled : Handled functions start.kernel cpu.kernel)
  | after {eax ecx edx : UInt32} {before after : σ} (earlier : Handled functions start.kernel before)
      (served : functions.jumpTable (number - 1) first second third before eax after)
      (later : Handled functions after cpu.kernel)
      (toward : Toward (library place number)
        (start.returned ret eax ecx edx (.long first :: .long second :: .long third :: rest)) cpu)

theorem Calling.plain {start cpu next : Cpu σ}
    (calling : Calling functions place number ret first second third rest start cpu)
    (stack : start.stack = .long ret :: .long first :: .long second :: .long third :: rest)
    (valid : 1 ≤ number ∧ number ≤ 10) (outside : (library place number : Nat → Option (Line σ)) ret.toNat = none)
    (plain : Plain functions (library place number) cpu next) :
    Calling functions place number ret first second third rest start next := by
  cases calling with
  | before toward handled =>
      rcases toward.plain plain with reached | ⟨toward, further⟩
      · obtain ⟨kernel, rfl⟩ : ∃ kernel, cpu = (start.atTrap place number first second third).on kernel :=
          ⟨cpu.kernel, Cpu.eq_on reached⟩
        have trap : ((start.atTrap place number first second third).on kernel).line (library place number) =
            some .int80 := line_library number 5 rfl
        cases plain with
        | own at' notCall _ => exact absurd (Option.some.inj (at'.symm.trans trap)) notCall
        | refused _ invalid _ => exact absurd valid invalid
        | service _ _ served left =>
            subst left
            exact .after handled served .refl ((toward_returned stack _ _ _ _).on _)
        | interrupt handled' left =>
            subst left
            exact .before (.here reached) (handled.tail ⟨_, handled'⟩)
      · exact .before toward (handled.trans further)
  | after earlier served later toward =>
      rcases toward.plain plain with reached | ⟨toward, further⟩
      · have eip : cpu.eip = .user ret.toNat := by
          exact congrArg Cpu.eip reached
        have nothing : cpu.line (library place number) = none := by simp [Cpu.line, eip, outside]
        cases plain with
        | own at' _ _ => cases nothing.symm.trans at'
        | service at' _ _ _ => cases nothing.symm.trans at'
        | refused at' _ _ => cases nothing.symm.trans at'
        | interrupt handled left =>
            subst left
            exact .after earlier served (later.tail ⟨_, handled⟩) (toward.on _)
      · exact .after earlier served (later.trans further) toward

/-- A function of the library, under any interrupts, is one call of its entry of the table with its arguments: it
returns what that returned, with the registers of its caller, the flags and the stack as they were. -/
theorem library_calls_once {start cpu : Cpu σ} (starts : start.eip = .user place)
    (stack : start.stack = .long ret :: .long first :: .long second :: .long third :: rest)
    (valid : 1 ≤ number ∧ number ≤ 10) (outside : ret.toNat < place ∨ place + 8 ≤ ret.toNat)
    (run : ReflTransGen (Step functions (library place number)) start cpu) (returned : cpu.eip = .user ret.toNat) :
    (∃ before after, Handled functions start.kernel before ∧
      functions.jumpTable (number - 1) first second third before (cpu.reg .eax) after ∧
      Handled functions after cpu.kernel) ∧
    (∀ r, r ≠ .eax → r ≠ .ecx → r ≠ .edx → cpu.reg r = start.reg r) ∧
    cpu.flags = start.flags ∧ cpu.stack = .long first :: .long second :: .long third :: rest := by
  have away : (library place number : Nat → Option (Line σ)) ret.toNat = none := by
    simp only [library, ite_eq_right_iff]
    intro le
    exact List.getElem?_eq_none (by simp only [doCall, List.length_cons, List.length_nil]; omega)
  have nothing : cpu.line (library place number) = none := by simp [Cpu.line, returned, away]
  have plain := plain_of_run ⟨_, starts⟩ ⟨_, returned⟩ run
  have calling : Calling functions place number ret first second third rest start cpu := by
    clear run returned nothing
    induction plain with
    | refl => exact .before (toward_atTrap starts stack) .refl
    | tail _ step ih => exact ih.plain stack valid away step
  cases calling with
  | before toward handled =>
      have equal : cpu.eip = .user (place + 5) := congrArg Cpu.eip (toward.stopped nothing)
      have inside : ret.toNat = place + 5 := Place.user.inj (returned.symm.trans equal)
      omega
  | after earlier served later toward =>
      have equal := Cpu.eq_on (toward.stopped nothing)
      rw [equal]
      refine ⟨⟨_, _, earlier, served, later⟩, fun r notEax notEcx notEdx => ?_, rfl, rfl⟩
      simp [Cpu.on, Cpu.returned, Cpu.set, notEax, notEcx, notEdx]

end

end

/-- A call of the function with the number 4 after an interrupt of the timer. -/
theorem Functions.sample_run :
    ReflTransGen (Step Functions.sample (library 0 4)) Cpu.sample
      ((Cpu.sample.returned 100 9 2 3 [.long 1, .long 2, .long 3]).on 11) := by
  have inside (cpu : Cpu Nat) (line : Line Nat) (at' : cpu.line (library 0 4) = some line) := at'
  have interrupted : ReflTransGen (Step Functions.sample (library 0 4)) Cpu.sample (Cpu.sample.on 10) :=
    have handled : Functions.sample.handler .pitIrqHandler Cpu.sample.kernel 10 := rfl
    Plain.steps (.interrupt handled rfl) ⟨0, rfl⟩ rfl
  have entered : ReflTransGen (Step Functions.sample (library 0 4)) (Cpu.sample.on 10)
      ((Cpu.sample.atTrap 0 4 1 2 3).on 10) :=
    have toward : Toward (library 0 4) (Cpu.sample.atTrap 0 4 1 2 3) Cpu.sample := toward_atTrap rfl rfl
    (toward.on 10).steps inside
  have served : ReflTransGen (Step Functions.sample (library 0 4)) ((Cpu.sample.atTrap 0 4 1 2 3).on 10)
      (((Cpu.sample.atTrap 0 4 1 2 3).served 9 1 2 3).on 11) :=
    Plain.steps (.service rfl (by decide) ⟨by decide, by decide, rfl⟩ rfl) ⟨5, rfl⟩ rfl
  have returned : ReflTransGen (Step Functions.sample (library 0 4))
      (((Cpu.sample.atTrap 0 4 1 2 3).served 9 1 2 3).on 11)
      ((Cpu.sample.returned 100 9 2 3 [.long 1, .long 2, .long 3]).on 11) :=
    have toward : Toward (library 0 4) (Cpu.sample.returned 100 9 2 3 [.long 1, .long 2, .long 3])
        ((Cpu.sample.atTrap 0 4 1 2 3).served 9 1 2 3) := toward_returned rfl 9 1 2 3
    (toward.on 11).steps inside
  exact interrupted.trans (entered.trans (served.trans returned))

theorem library_calls_once_sample :
    ∃ before after, Handled Functions.sample 0 before ∧ Functions.sample.jumpTable 3 1 2 3 before 9 after ∧
      Handled Functions.sample after 11 :=
  (library_calls_once rfl rfl (by decide) (.inr (by decide)) Functions.sample_run rfl).1

end

end LinuxLikeOS.SystemCallEntry

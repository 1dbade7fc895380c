import LinuxLikeOS.Kernel
import LinuxLikeOS.Transition

/-!
# Memory isolation

The page directory entry of the user page, the stack in the TSS and `new_pid` are written
in different places. The states of a run have in common that every number a terminal or a
PCB holds is -1 or a slot that has been started, with that slot's number in its PCB, and
that page and stack are those of `new_pid` as soon as there is one. With what the tables
look like this bounds the accesses of user code.
-/

namespace LinuxLikeOS

open Function

namespace Image

/-- The image holds an executable called "shell" that fits into the page of a process. -/
structure HasShell (image : Image) : Prop where
  directory : image.WellFormedDirectory
  shell : ∃ index, image.entryNamed Image.shell = some index ∧
    (image.direntry index).inodeNum < image.inodeCount ∧
    (image.file (image.direntry index).inodeNum).take 4 = [0x7F, 0x45, 0x4C, 0x46] ∧
    0x48000 + image.length (image.direntry index).inodeNum ≤ 0x400000

theorem sample_hasShell : sample.HasShell where
  directory := sample_wellFormed
  shell := ⟨1, by decide +kernel, by decide +kernel, by decide +kernel, by decide +kernel⟩

end Image

namespace Kernel

/-- The checks of `execute` pass for the shell. -/
theorem check_shell {image : Image} (shell : image.HasShell) (locals : Locals) {newPid : Int}
    (room : newPid < 5) :
    ∃ eip loaded, check image Image.shell locals newPid = .passed eip loaded ∧
      0x48000 + loaded.length ≤ 0x400000 := by
  obtain ⟨index, named, present, magic, fits⟩ := shell.shell
  obtain ⟨word, first⟩ : ∃ word, curFile Image.shell locals.before = some word ∧
    word.chars = Image.shell.chars :=
    ⟨_, rfl, rfl⟩
  have sameName : image.entryNamed word = some index := by
    unfold Image.entryNamed Image.stem
    rw [first.2]
    exact named
  have accepted : ¬ (newPid ≥ 5 ∨ Image.shell.chars.length > 128) := by
    have short : Image.shell.chars.length = 5 := rfl
    omega
  rcases image.readDentryByName_cases shell.directory word locals.dentry with
    ⟨absent, _⟩ | ⟨other, copied, found, lookup, _, inode, _⟩
  · rw [sameName] at absent
    cases absent
  · obtain rfl : index = other := Option.some.inj (sameName.symm.trans found)
    have small : image.length (image.direntry index).inodeNum ≤ 1023 * 4096 := by omega
    have starts : ∀ i < 4, header image copied.inodeNum locals.buf i =
        [0x7F, 0x45, 0x4C, 0x46].getD i (locals.buf i) := by
      intro i less
      rw [← magic, header, inode, image.readData_eq present small, List.drop_zero, List.getD_eq_getElem?_getD,
        List.getD_eq_getElem?_getD, List.getElem?_take_of_lt (by omega), List.getElem?_take_of_lt less]
    have elf : isElf (header image copied.inodeNum locals.buf) = true := by
      simp [isElf, starts]
    have loads := Image.length_readData_le image copied.inodeNum 0 (image.length copied.inodeNum)
    have passed : check image Image.shell locals newPid =
        .passed (word32 (header image copied.inodeNum locals.buf) 24)
          (image.readData copied.inodeNum 0 (image.length copied.inodeNum)) := by
      simp only [check, first.1, if_neg accepted, lookup, if_pos elf]
    refine ⟨_, _, passed, ?_⟩
    rw [inode] at loads ⊢
    omega

/-! ## The invariant -/

/-- No process, or one of those that have been started. -/
def Names (started : Int → Prop) (pid : Int) : Prop := pid = -1 ∨ started pid

/-- Every number that is kept anywhere is accounted for by a slot that has been started. -/
structure Accounted (started : Int → Prop) (kernel : Kernel) : Prop where
  range : ∀ {pid}, started pid → 0 ≤ pid ∧ pid ≤ 5
  own : ∀ {pid}, started pid → (kernel.pcb pid).pid = pid
  parent : ∀ {pid}, started pid → Names started (kernel.pcb pid).parentPid
  running : Names started kernel.newPid
  current : ∀ terminal, Names started (kernel.currentPid terminal)

/-- The user page and the kernel stack are those of the running process. -/
structure Mapped (kernel : Kernel) : Prop where
  page : kernel.paging.pageDirectory usrIdx = Paging.userPage kernel.newPid
  stack : kernel.tss.esp0 = kernelStack kernel.newPid

structure Placed (layout : Layout) (vidmapped : Prop) (kernel : Kernel) : Prop where
  accounted : ∃ started, Accounted started kernel
  mapped : 0 ≤ kernel.newPid → Mapped kernel
  confined : Paging.Confined layout vidmapped kernel.paging

/-- Control has gone back to where it came from, or there is a process. -/
def Entered (kernel : Kernel) (transfer : Transfer) (after : Kernel) : Prop :=
  (∃ ret, transfer = .returns ret ∧ after.newPid = kernel.newPid) ∨ 0 ≤ after.newPid

section

variable {layout : Layout} {vidmapped : Prop} {started : Int → Prop} {kernel after : Kernel}
variable {image : Image} {transfer : Transfer}

theorem Accounted.running_range (accounted : Accounted started kernel) (running : 0 ≤ kernel.newPid) :
    started kernel.newPid := by
  rcases accounted.running with none | found
  · omega
  · exact found

theorem Placed.range (placed : Placed layout vidmapped kernel) (running : 0 ≤ kernel.newPid) :
    kernel.newPid ≤ 5 := by
  obtain ⟨started, accounted⟩ := placed.accounted
  exact (accounted.range (accounted.running_range running)).2

theorem Accounted.congr (accounted : Accounted started kernel)
    (pcb : ∀ pid, (after.pcb pid).pid = (kernel.pcb pid).pid ∧
      (after.pcb pid).parentPid = (kernel.pcb pid).parentPid)
    (newPid : after.newPid = kernel.newPid) (current : after.currentPid = kernel.currentPid) :
    Accounted started after where
  range := accounted.range
  own := fun before => (pcb _).1.trans (accounted.own before)
  parent := fun before => (pcb _).2 ▸ accounted.parent before
  running := newPid ▸ accounted.running
  current := current ▸ accounted.current

theorem Placed.congr (placed : Placed layout vidmapped kernel)
    (pcb : ∀ pid, (after.pcb pid).pid = (kernel.pcb pid).pid ∧
      (after.pcb pid).parentPid = (kernel.pcb pid).parentPid)
    (newPid : after.newPid = kernel.newPid) (current : after.currentPid = kernel.currentPid)
    (paging : after.paging = kernel.paging) (tss : after.tss = kernel.tss) :
    Placed layout vidmapped after where
  accounted :=
    let ⟨started, accounted⟩ := placed.accounted
    ⟨started, accounted.congr pcb newPid current⟩
  mapped := by
    intro running
    rw [newPid] at running
    obtain ⟨page, stack⟩ := placed.mapped running
    exact ⟨by rw [paging, newPid, page], by rw [tss, newPid, stack]⟩
  confined := paging ▸ placed.confined

theorem Placed.withConsole (placed : Placed layout vidmapped kernel) (console : Console) :
    Placed layout vidmapped (kernel.withConsole console) :=
  placed.congr (fun _ => ⟨rfl, rfl⟩) rfl rfl rfl rfl

/-! ## What each function keeps -/

/-- The slot that is started joins the others; its parent is one of them. -/
theorem start_accounted (accounted : Accounted started kernel) {slot : Int} {frame : Frame}
    (starts : Started slot frame kernel after) (range : 0 ≤ slot ∧ slot ≤ 5) :
    Accounted (fun pid => pid = slot ∨ started pid) after where
  range := by
    rintro pid (rfl | before)
    · exact range
    · exact accounted.range before
  own := by
    intro pid before
    by_cases here : pid = slot
    · rw [here, starts.own]
    · rw [starts.others pid here, accounted.own (before.resolve_left here)]
  parent := by
    intro pid before
    by_cases here : pid = slot
    · rw [here, starts.parent]
      split
      · exact Or.inl rfl
      · exact (accounted.current kernel.console.currentTerminal).imp_right Or.inr
    · rw [starts.others pid here]
      exact (accounted.parent (before.resolve_left here)).imp_right Or.inr
  running := Or.inr (Or.inl starts.newPid)
  current := by
    intro terminal
    rw [starts.currentPid]
    by_cases here : terminal = kernel.console.currentTerminal
    · rw [here, update_self]
      exact Or.inr (Or.inl rfl)
    · rw [update_of_ne here]
      exact (accounted.current terminal).imp_right Or.inr

theorem start_placed (placed : Placed layout vidmapped kernel) {slot : Int} {frame : Frame}
    (starts : Started slot frame kernel after) (range : 0 ≤ slot ∧ slot ≤ 5) :
    Placed layout vidmapped after where
  accounted :=
    let ⟨_, accounted⟩ := placed.accounted
    ⟨_, start_accounted accounted starts range⟩
  mapped := fun _ => ⟨by rw [starts.page, starts.newPid], by rw [starts.stack, starts.newPid]⟩
  confined := starts.paging ▸ Paging.mapUser_confined placed.confined slot

theorem execute_placed (placed : Placed layout vidmapped kernel) {command : CString} {frame : Frame}
    {locals : Locals} (executed : kernel.execute image command frame locals = some (transfer, after)) :
    Placed layout vidmapped after ∧ Entered kernel transfer after := by
  rcases execute_cases executed with ⟨_, ret, oldPid, rfl, rfl⟩ | ⟨slot, starts, begun, eip, loaded, rfl⟩
  · have begun : Placed layout vidmapped kernel.begin := placed.withConsole _
    exact ⟨begun.congr (fun _ => ⟨rfl, rfl⟩) rfl rfl rfl rfl, Or.inl ⟨ret, rfl, rfl⟩⟩
  · exact ⟨start_placed placed begun starts.range, Or.inr (begun.newPid ▸ starts.range.1)⟩

theorem left_accounted (accounted : Accounted started kernel) (running : 0 ≤ kernel.newPid)
    {left : Kernel}
    (leaves : Left kernel left) : Accounted started left := by
  obtain ⟨fds, own⟩ := leaves.own
  have parent := accounted.parent (accounted.running_range running)
  constructor
  case range => exact accounted.range
  case own =>
    intro pid before
    by_cases here : pid = kernel.newPid
    · rw [here, own]
      exact accounted.own (here ▸ before)
    · rw [leaves.others pid here]
      exact accounted.own before
  case parent =>
    intro pid before
    by_cases here : pid = kernel.newPid
    · rw [here, own]
      exact parent
    · rw [leaves.others pid here]
      exact accounted.parent before
  case running =>
    rw [leaves.newPid]
    exact parent
  case current =>
    intro terminal
    rw [leaves.currentPid]
    by_cases here : terminal = kernel.schedTerminal
    · rw [here, update_self]
      exact parent
    · rw [update_of_ne here]
      exact accounted.current terminal

theorem left_placed (placed : Placed layout vidmapped kernel) (running : 0 ≤ kernel.newPid)
    {left : Kernel}
    (leaves : Left kernel left) (orphan : left.newPid = -1) : Placed layout vidmapped left where
  accounted :=
    let ⟨started, accounted⟩ := placed.accounted
    ⟨started, left_accounted accounted running leaves⟩
  mapped := fun alive => absurd alive (by omega)
  confined := leaves.paging ▸ placed.confined

theorem halt_placed (placed : Placed layout vidmapped kernel) {status : UInt8} {inner : Frame}
    {locals : Locals}
    (halted : kernel.halt image status inner locals = some (transfer, after)) :
    Placed layout vidmapped after := by
  obtain ⟨running, left, leaves, cases⟩ := halt_cases halted
  obtain ⟨started, accounted⟩ := placed.accounted
  have remaining := left_accounted accounted running leaves
  rcases cases with ⟨parent, rfl, rfl⟩ | ⟨orphan, inside, restarted, executed, answer⟩
  · refine ⟨⟨started, ?_⟩, fun _ => ⟨Paging.mapUser_usrIdx .., rfl⟩, ?_⟩
    · exact remaining.congr (fun _ => ⟨rfl, rfl⟩) rfl rfl
    · exact Paging.mapUser_confined (leaves.paging ▸ placed.confined) left.newPid
  · have told : Placed layout vidmapped (left.announce status) :=
      (left_placed placed running leaves orphan).withConsole _
    obtain ⟨kept, _⟩ := execute_placed told executed
    rcases answer with ⟨ret, _, rfl⟩ | ⟨_, rfl, _⟩
    · obtain ⟨begun, accounted⟩ := kept.accounted
      refine ⟨⟨begun, accounted.congr (fun _ => ⟨rfl, rfl⟩) rfl rfl⟩, ?_, ?_⟩
      · exact fun _ => ⟨Paging.mapUser_usrIdx .., rfl⟩
      · exact Paging.mapUser_confined kept.confined _
    · exact kept

/-- When the last process of a terminal ends, its slot is free for the shell that follows. -/
theorem halt_entered (shell : image.HasShell) (placed : Placed layout vidmapped kernel) {status : UInt8}
    {inner : Frame} {locals : Locals}
    (halted : kernel.halt image status inner locals = some (transfer, after)) :
    Entered kernel transfer after := by
  obtain ⟨running, left, leaves, cases⟩ := halt_cases halted
  obtain ⟨started, accounted⟩ := placed.accounted
  rcases cases with ⟨parent, rfl, rfl⟩ | ⟨orphan, inside, restarted, executed, answer⟩
  · have remaining := left_accounted accounted running leaves
    exact Or.inr (remaining.range (remaining.running.resolve_left parent)).1
  · have room : (left.announce status).newPid < 5 := by
      have none : (left.announce status).newPid = -1 := orphan
      omega
    obtain ⟨eip, loaded, passed, fits⟩ := check_shell shell locals room
    obtain ⟨slot, free⟩ := (leaves.announce status).hasSlot (accounted.range (accounted.running_range running))
    have starts : Starts image Image.shell locals (left.announce status) slot :=
      ⟨eip, loaded, passed, free, fits⟩
    obtain ⟨_, _, _, executes, begun⟩ := execute_started starts inner
    obtain ⟨rfl, rfl⟩ := Prod.mk.inj (Option.some.inj (executes.symm.trans executed))
    rcases answer with ⟨ret, returned, _⟩ | ⟨rfl, rfl, _⟩
    · cases returned
    · exact Or.inr (begun.newPid ▸ starts.range.1)

theorem vidmap_placed (placed : Placed layout vidmapped kernel) (screenStart : Nat) :
    Placed layout True (kernel.vidmap layout screenStart).2 := by
  have weaker := placed.confined.weaken (fun _ => True.intro)
  unfold vidmap
  split
  · exact ⟨placed.accounted, placed.mapped, weaker⟩
  · refine ⟨?_, ?_, ?_⟩
    · obtain ⟨started, accounted⟩ := placed.accounted
      exact ⟨started, accounted.congr (fun _ => ⟨rfl, rfl⟩) rfl rfl⟩
    · intro running
      obtain ⟨page, stack⟩ := placed.mapped running
      refine ⟨?_, stack⟩
      rw [← page]
      exact Paging.mapVideo_usrIdx layout kernel.paging
    · exact Paging.setVideoPage_confined (Paging.mapVideo_confined weaker) (Or.inl rfl)

theorem switch_accounted (accounted : Accounted started kernel) (frame : Frame)
    (busy : 3 ≤ kernel.currentPid kernel.schedTerminal) :
    started (kernel.currentPid kernel.schedTerminal) ∧ Accounted started (switch frame kernel).2 := by
  have known : started (kernel.currentPid kernel.schedTerminal) := by
    rcases accounted.current kernel.schedTerminal with none | found
    · omega
    · exact found
  have saved : ∀ pid, ((switch frame kernel).2.pcb pid).pid = (kernel.pcb pid).pid ∧
      ((switch frame kernel).2.pcb pid).parentPid = (kernel.pcb pid).parentPid := by
    intro pid
    obtain ⟨esp, ebp, same⟩ := switch_pcb frame kernel pid
    rw [same]
    exact ⟨rfl, rfl⟩
  refine ⟨known, ?_⟩
  constructor
  case range => exact accounted.range
  case own =>
    intro pid before
    rw [(saved pid).1]
    exact accounted.own before
  case parent =>
    intro pid before
    rw [(saved pid).2]
    exact accounted.parent before
  case running => exact Or.inr known
  case current => exact accounted.current

/-- The page of the next process is taken from its PCB and its stack from its number. -/
theorem switch_placed (placed : Placed layout vidmapped kernel) (frame : Frame)
    (busy : 3 ≤ kernel.currentPid kernel.schedTerminal) :
    Placed layout vidmapped (switch frame kernel).2 ∧ 0 ≤ (switch frame kernel).2.newPid := by
  obtain ⟨started, accounted⟩ := placed.accounted
  obtain ⟨known, kept⟩ := switch_accounted accounted frame busy
  refine ⟨⟨⟨started, kept⟩, ?_, ?_⟩, (accounted.range known).1⟩
  · intro _
    refine ⟨?_, rfl⟩
    have above : kernel.currentPid kernel.schedTerminal > 2 := by omega
    simp only [switch, if_pos above, Paging.setVideoPage, Paging.mapUser, update_self]
    rw [accounted.own known]
  · refine Paging.setVideoPage_confined ?_ ?_
    · split
      · exact Paging.mapUser_confined placed.confined _
      · exact placed.confined
    · split
      · exact Or.inl rfl
      · exact Or.inr ⟨kernel.schedTerminal, rfl⟩

theorem tick_placed (placed : Placed layout vidmapped kernel) {frame inner : Frame} {locals : Locals}
    (ticked : kernel.pitIrqHandler image frame inner locals = some (transfer, after)) :
    Placed layout vidmapped after ∧ Entered kernel transfer after := by
  rcases tick_cases ticked with ⟨_, ⟨_, rfl, rfl⟩ | ⟨busy, switched⟩⟩ | ⟨_, inside, started, executed, answer⟩
  · exact ⟨placed.congr (fun _ => ⟨rfl, rfl⟩) rfl rfl rfl rfl, Or.inl ⟨0, rfl, rfl⟩⟩
  · have next : Placed layout vidmapped kernel.nextTurn.scheduled :=
      placed.congr (fun _ => ⟨rfl, rfl⟩) rfl rfl rfl rfl
    have moved := switch_placed next frame busy
    rw [switched] at moved
    exact ⟨moved.1, Or.inr moved.2⟩
  · have first : Placed layout vidmapped kernel.firstTurn :=
      placed.congr (fun _ => ⟨rfl, rfl⟩) rfl kernel.firstTurn_currentPid rfl rfl
    obtain ⟨after, entered⟩ := execute_placed first executed
    rcases answer with ⟨ret, rfl, rfl, rfl⟩ | ⟨rfl, rfl, notReturn⟩
    · rcases entered with ⟨_, _, same⟩ | alive
      · exact ⟨after.withConsole _, Or.inl ⟨0, rfl, same⟩⟩
      · exact ⟨after.withConsole _, Or.inr alive⟩
    · rcases entered with ⟨ret, same, _⟩ | alive
      · exact absurd same (notReturn ret)
      · exact ⟨after, Or.inr alive⟩

end

/-! ## Runs -/

/-- The kernel, and whether a program has been entered, so that user code can run. -/
structure Machine where
  kernel : Kernel
  user : Bool

namespace Machine

def boot (layout : Layout) (pcb : Int → Pcb) (rtc : Rtc) (leftovers : Leftovers) : Machine :=
  ⟨Kernel.entry layout pcb rtc leftovers, false⟩

def step (image : Image) (layout : Layout) (machine : Machine) (event : Event) : Option Machine :=
  (machine.kernel.step image layout event).map fun (transfer, after) =>
    ⟨after, match transfer with
      | .returns _ => machine.user
      | _ => true⟩

end Machine

/-- What user code finds and what it can reach. -/
structure Isolated (layout : Layout) (vidmapped : Prop) (kernel : Kernel) : Prop where
  running : 0 ≤ kernel.newPid ∧ kernel.newPid ≤ 5
  page : ∀ linear, 0x08000000 ≤ linear ∧ linear < 0x08400000 →
    ∃ physical, kernel.paging.translate layout .user linear = some physical ∧
      (physical : Int) = 0x800000 + 0x400000 * kernel.newPid + ((linear : Int) - 0x08000000)
  stack : (kernel.tss.esp0 : Int) = 0x800000 - 0x2000 * kernel.newPid - 4
  reach : ∀ linear physical, kernel.paging.translate layout .user linear = some physical →
    (0x08000000 ≤ linear ∧ linear < 0x08400000) ∨
    (vidmapped ∧ 0x08800000 ≤ linear ∧ linear < 0x08801000 ∧
      (physical / 0x1000 * 0x1000 = 0xB8000 ∨ ∃ t < 3, physical / 0x1000 * 0x1000 = 0xBA000 + 0x1000 * t))
  kernelFrame : ∀ linear physical, kernel.paging.translate layout .user linear = some physical →
    ¬ (0x400000 ≤ physical ∧ physical < 0x800000)
  otherFrame : ∀ pid, 0 ≤ pid ∧ pid ≤ 5 → pid ≠ kernel.newPid →
    ∀ linear physical, kernel.paging.translate layout .user linear = some physical →
      ¬ (0x800000 + 0x400000 * pid ≤ (physical : Int) ∧ (physical : Int) < 0x800000 + 0x400000 * (pid + 1))

section

variable {layout : Layout} {vidmapped : Prop} {kernel after : Kernel} {image : Image} {transfer : Transfer}

theorem Placed.isolated (placed : Placed layout vidmapped kernel) (running : 0 ≤ kernel.newPid) :
    Isolated layout vidmapped kernel := by
  have range : 0 ≤ kernel.newPid ∧ kernel.newPid ≤ 5 := ⟨running, placed.range running⟩
  obtain ⟨page, stack⟩ := placed.mapped running
  have reach := fun (linear physical : Nat)
      (reached : kernel.paging.translate layout .user linear = some physical) =>
    placed.confined.reach range page reached
  constructor
  case running => exact range
  case page =>
    intro linear inside
    obtain ⟨physical, reached, place⟩ := @Paging.translate_userPage layout _ _ range page .user _ inside
    refine ⟨physical, reached, ?_⟩
    unfold userFrame at place
    omega
  case stack =>
    rw [stack]
    refine toUnsigned_of_nonneg ?_ ?_ <;> omega
  case reach =>
    intro linear physical reached
    rcases reach linear physical reached with ⟨low, high, _⟩ | ⟨mapped, low, high, place⟩
    · exact Or.inl ⟨low, high⟩
    · refine Or.inr ⟨mapped, low, high, ?_⟩
      rcases place with place | ⟨t, place⟩
      · exact Or.inl (by omega)
      · exact Or.inr ⟨t.val, t.isLt, by omega⟩
  case kernelFrame =>
    intro linear physical reached
    rcases reach linear physical reached with ⟨low, high, place⟩ | ⟨_, low, high, place | ⟨t, place⟩⟩
    · unfold userFrame at place
      omega
    · omega
    · omega
  case otherFrame =>
    intro pid inside other linear physical reached
    rcases reach linear physical reached with ⟨low, high, place⟩ | ⟨_, low, high, place | ⟨t, place⟩⟩
    · unfold userFrame at place
      omega
    · omega
    · omega

theorem entry_placed (layout : Layout) (pcb : Int → Pcb) (rtc : Rtc) (leftovers : Leftovers) :
    Placed layout False (entry layout pcb rtc leftovers) where
  accounted := ⟨fun _ => False, nofun, nofun, nofun, Or.inl rfl, fun _ => Or.inl rfl⟩
  mapped := fun running => absurd running (show ¬ (0 : Int) ≤ -1 by decide)
  confined := Paging.pageInit_confined layout

theorem step_placed (shell : image.HasShell) (placed : Placed layout vidmapped kernel) {event : Event}
    (taken : kernel.step image layout event = some (transfer, after)) :
    Placed layout (vidmapped ∨ ∃ screenStart, event = .vidmap screenStart) after ∧
      Entered kernel transfer after := by
  have weaken : ∀ {state}, Placed layout vidmapped state →
      Placed layout (vidmapped ∨ ∃ screenStart, event = .vidmap screenStart) state :=
    fun placed => ⟨placed.accounted, placed.mapped, placed.confined.weaken Or.inl⟩
  cases event with
  | execute command frame locals => exact (execute_placed placed taken).imp_left weaken
  | halt status inner locals => exact ⟨weaken (halt_placed placed taken), halt_entered shell placed taken⟩
  | vidmap screenStart =>
      simp only [step] at taken
      split at taken
      · cases taken
      · obtain ⟨rfl, rfl⟩ := Prod.mk.inj (Option.some.inj taken)
        have mapped := vidmap_placed placed screenStart
        refine ⟨⟨mapped.accounted, mapped.mapped, mapped.confined.weaken ?_⟩, Or.inl ⟨_, rfl, ?_⟩⟩
        · exact fun _ => Or.inr ⟨screenStart, rfl⟩
        · unfold vidmap
          split <;> rfl
  | openTerminal terminalId =>
      obtain ⟨rfl, rfl⟩ := Prod.mk.inj (Option.some.inj taken)
      exact ⟨weaken (placed.withConsole _), Or.inl ⟨0, rfl, rfl⟩⟩
  | tick frame inner locals => exact (tick_placed placed taken).imp_left weaken

/-- In every state of every run in which user code can run, it is confined to the page of the
running process and to the video page. -/
theorem user_code_isolated (shell : image.HasShell) (pcb : Int → Pcb) (rtc : Rtc) (leftovers : Leftovers)
    {events : List Event}
    {machine : Machine}
    (ran : Transition.run (Machine.step image layout) (Machine.boot layout pcb rtc leftovers) events = some machine)
    (user : machine.user = true) :
    Isolated layout (∃ screenStart, Event.vidmap screenStart ∈ events) machine.kernel := by
  have invariant : Placed layout (∃ screenStart, Event.vidmap screenStart ∈ events) machine.kernel ∧
      (machine.user = true → 0 ≤ machine.kernel.newPid) := by
    refine Transition.run_invariant (Machine.step image layout)
      (P := fun past machine => Placed layout (∃ screenStart, Event.vidmap screenStart ∈ past) machine.kernel ∧
        (machine.user = true → 0 ≤ machine.kernel.newPid)) ?_ ?_ ran
    · have start := entry_placed layout pcb rtc leftovers
      exact ⟨⟨start.accounted, start.mapped, start.confined.weaken nofun⟩, nofun⟩
    · rintro past state event next ⟨placed, entered⟩ taken
      obtain ⟨⟨transfer, after⟩, stepped, rfl⟩ := Option.map_eq_some_iff.mp taken
      obtain ⟨kept, control⟩ := step_placed shell placed stepped
      refine ⟨⟨kept.accounted, kept.mapped, kept.confined.weaken ?_⟩, ?_⟩
      · rintro (⟨screenStart, before⟩ | ⟨screenStart, rfl⟩)
        · exact ⟨screenStart, List.mem_append_left _ before⟩
        · exact ⟨screenStart, List.mem_append_right _ (List.mem_singleton_self _)⟩
      · intro running
        rcases control with ⟨ret, rfl, same⟩ | alive
        · exact same ▸ entered running
        · exact alive
  exact invariant.1.isolated (invariant.2 user)

end

/-- The first shell maps the video page and is interrupted twice, a program is started on
another terminal and ends. -/
def sampleEvents : List Event :=
  [.execute Image.shell ⟨0, 0⟩ .zeros, .vidmap 0x08000000, .tick ⟨0, 0⟩ ⟨0, 0⟩ .zeros, .tick ⟨0, 0⟩ ⟨0, 0⟩ .zeros,
    .openTerminal 1, .execute Image.shell ⟨0, 0⟩ .zeros, .halt 0 ⟨0, 0⟩ .zeros]

theorem user_code_isolated_sample : ∃ machine : Machine,
    Isolated Layout.sample (∃ screenStart, Event.vidmap screenStart ∈ sampleEvents) machine.kernel := by
  have ends : (Transition.run (Machine.step Image.sample Layout.sample)
      (Machine.boot Layout.sample (fun _ => Pcb.zeros) ⟨0, false⟩ .zeros) sampleEvents).map Machine.user =
          some true := by
    decide +kernel
  obtain ⟨machine, ran, user⟩ := Option.map_eq_some_iff.mp ends
  exact ⟨machine, user_code_isolated Image.sample_hasShell (fun _ => Pcb.zeros) ⟨0, false⟩ .zeros ran user⟩

end Kernel

end LinuxLikeOS

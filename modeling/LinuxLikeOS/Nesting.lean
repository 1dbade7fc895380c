import LinuxLikeOS.Isolation

/-!
# Nested processes

A process that has been started makes system calls, starts processes of its own that end
before it does, and ends. Between its start and its end no tick and no change of the
displayed terminal happens; typing and the RTC may interfere. When the terminal that is
displayed is the scheduled one and the first three slots are taken, a script of this kind
leaves everything as it was, by induction on how the processes are nested. Otherwise what
`halt` restores belongs to another terminal, or to no process at all.
-/

namespace LinuxLikeOS

open Function Kernel

namespace Nesting

/-- How a process ends. -/
inductive Ending where
  | halt (status : UInt8)
  | exception (vector : Fin 20)

/-- What `execute` is to return then. -/
def Ending.answer : Ending → Int
  | .halt status => status.toNat
  | .exception _ => 256

/-- The argument of `halt`. -/
def Ending.status : Ending → UInt8
  | .halt status => status
  | .exception _ => 111

/-- What is given to the function that starts a process and to the one that ends it. -/
structure Child where
  command : CString
  frame : Frame
  locals : Locals
  ending : Ending
  inner : Frame
  last : Locals

namespace Child

variable (image : Image) (child : Child)

/-- `execute`, when it starts a process. -/
def enter (kernel : Kernel) : Option Kernel :=
  match kernel.execute image child.command child.frame child.locals with
  | some (.program _ _, started) => some started
  | _ => none

/-- The end of the process in the slot, which must be the running one. -/
def leave (slot : Int) (kernel : Kernel) : Option (Transfer × Kernel) :=
  if kernel.newPid = slot then
    match child.ending with
    | .halt status => kernel.halt image status child.inner child.last
    | .exception vector => kernel.exceptionHandler image vector.val child.inner child.last
  else none

end Child

/-- What a process does from its start to its end. -/
inductive Script where
  | done
  | call (request : SystemCall) (rest : Script)
  /-- An `execute` that returns. -/
  | refused (command : CString) (frame : Frame) (locals : Locals) (rest : Script)
  /-- The keyboard and the RTC. -/
  | interrupt (console : Console) (rtc : Rtc) (rest : Script)
  | spawn (child : Child) (body rest : Script)

namespace Script

def run (image : Image) (layout : Layout) : Script → Kernel → Option Kernel
  | .done, kernel => some kernel
  | .call request rest, kernel =>
      (kernel.serve image layout request).bind fun (_, after) =>
        if after.console.currentTerminal = kernel.console.currentTerminal then rest.run image layout after
        else none
  | .refused command frame locals rest, kernel =>
      match kernel.execute image command frame locals with
      | some (.returns _, after) => rest.run image layout after
      | _ => none
  | .interrupt console rtc rest, kernel =>
      if console.currentTerminal = kernel.console.currentTerminal then
        rest.run image layout { kernel with console := console, rtc := rtc }
      else none
  | .spawn child body rest, kernel =>
      (child.enter image kernel).bind fun started =>
        (body.run image layout started).bind fun ended =>
          (child.leave image started.newPid ended).bind fun (_, after) => rest.run image layout after

variable {image : Image} {layout : Layout} {kernel after : Kernel} {rest : Script}

/-! What a script does first, and the rest that follows. -/

theorem run_call {request : SystemCall} (ran : (call request rest).run image layout kernel = some after) :
    ∃ result middle, kernel.serve image layout request = some (result, middle) ∧
      middle.console.currentTerminal = kernel.console.currentTerminal ∧
      rest.run image layout middle = some after := by
  obtain ⟨⟨result, middle⟩, served, remaining⟩ := Option.bind_eq_some_iff.mp ran
  simp only [] at remaining
  split at remaining
  · rename_i displayed
    exact ⟨result, middle, served, displayed, remaining⟩
  · cases remaining

theorem run_refused {command : CString} {frame : Frame} {locals : Locals}
    (ran : (refused command frame locals rest).run image layout kernel = some after) :
    ∃ ret middle, kernel.execute image command frame locals = some (.returns ret, middle) ∧
      rest.run image layout middle = some after := by
  unfold run at ran
  split at ran
  · rename_i ret middle executed
    exact ⟨ret, middle, executed, ran⟩
  · cases ran

theorem run_interrupt {console : Console} {rtc : Rtc}
    (ran : (interrupt console rtc rest).run image layout kernel = some after) :
    console.currentTerminal = kernel.console.currentTerminal ∧
      rest.run image layout { kernel with console := console, rtc := rtc } = some after := by
  unfold run at ran
  split at ran
  · rename_i displayed
    exact ⟨displayed, ran⟩
  · cases ran

theorem run_spawn {child : Child} {body : Script}
    (ran : (spawn child body rest).run image layout kernel = some after) :
    ∃ started ended transfer middle, child.enter image kernel = some started ∧
      body.run image layout started = some ended ∧
      child.leave image started.newPid ended = some (transfer, middle) ∧
      rest.run image layout middle = some after := by
  obtain ⟨started, enters, ran⟩ := Option.bind_eq_some_iff.mp ran
  obtain ⟨ended, inside, ran⟩ := Option.bind_eq_some_iff.mp ran
  obtain ⟨⟨transfer, middle⟩, leaves, remaining⟩ := Option.bind_eq_some_iff.mp ran
  exact ⟨started, ended, transfer, middle, enters, inside, leaves, remaining⟩

end Script

section

variable {image : Image} {layout : Layout} {kernel started ended after : Kernel} {child : Child}
variable {transfer : Transfer}

theorem enter_cases (enters : child.enter image kernel = some started) :
    ∃ slot, Starts image child.command child.locals kernel slot ∧
        Started slot child.frame kernel started := by
  unfold Child.enter at enters
  split at enters
  · rename_i eip loaded next executed
    obtain rfl := Option.some.inj enters
    rcases execute_cases executed with ⟨_, ret, oldPid, returned, _⟩ | ⟨slot, starts, begun, _⟩
    · cases returned
    · exact ⟨slot, starts, begun⟩
  · cases enters

theorem exceptionText_isSome (vector : Fin 20) : ∃ text, exceptionText vector.val = some text := by
  have known : vector.val < exceptionTexts.length := vector.isLt
  refine ⟨exceptionTexts[vector.val], ?_⟩
  rw [exceptionText, if_neg (by omega), List.getElem?_eq_getElem known]

/-- Either way the process ends by `halt`, after some output. -/
theorem leave_halts {slot : Int} (leaves : child.leave image slot ended = some (transfer, after)) :
    ended.newPid = slot ∧ ∃ console, console.currentTerminal = ended.console.currentTerminal ∧
      (ended.withConsole console).halt image child.ending.status child.inner child.last =
        some (transfer, after) := by
  unfold Child.leave at leaves
  split at leaves
  · rename_i same
    refine ⟨same, ?_⟩
    cases how : child.ending with
    | halt status =>
        rw [how] at leaves
        exact ⟨ended.console, rfl, leaves⟩
    | exception vector =>
        rw [how] at leaves
        obtain ⟨text, found⟩ := exceptionText_isSome vector
        simp only [exceptionHandler, found] at leaves
        exact ⟨_, by simp only [Console.puts], leaves⟩
  · cases leaves

/-- Control goes back to the caller with the parent as the running process, or there is no
parent and a shell may have been started. -/
theorem leave_cases {slot : Int} (leaves : child.leave image slot ended = some (transfer, after)) :
    ended.newPid = slot ∧ ∃ left, Left ended left ∧
      ((left.newPid ≠ -1 ∧ after = (left.announce child.ending.status).resume ∧
        transfer = .parent (status32 child.ending.status)
          ⟨(ended.pcb ended.newPid).parentEsp, (ended.pcb ended.newPid).parentEbp⟩) ∨
      (left.newPid = -1 ∧ ∃ inside restarted,
        execute image Image.shell child.inner child.last (left.announce child.ending.status) =
          some (inside, restarted) ∧ (after = restarted.resume ∨ after = restarted))) := by
  obtain ⟨same, console, shown, halted⟩ := leave_halts leaves
  obtain ⟨_, left, gone, answer⟩ := halt_cases halted
  refine ⟨same, left, gone.afterOutput shown, ?_⟩
  rcases answer with parent | ⟨orphan, inside, restarted, executed, ⟨_, _, rfl⟩ | ⟨_, rfl, _⟩⟩
  · exact Or.inl parent
  · exact Or.inr ⟨orphan, inside, restarted, executed, Or.inl rfl⟩
  · exact Or.inr ⟨orphan, inside, _, executed, Or.inr rfl⟩

end

/-! ## Scripts that leave no trace -/

/-- Who is to go on after a process, and where. -/
def origin (pcb : Pcb) : Int × Frame := (pcb.parentPid, ⟨pcb.parentEsp, pcb.parentEbp⟩)

/-- The running process is the one of the terminal that is both displayed and scheduled, and
the slots without a parent are taken. -/
structure Ready (kernel : Kernel) : Prop where
  alive : kernel.progs kernel.newPid = .open
  proper : kernel.newPid ≠ -1
  current : kernel.currentPid kernel.console.currentTerminal = kernel.newPid
  scheduled : kernel.schedTerminal = kernel.console.currentTerminal
  shells : ∀ slot, 0 ≤ slot → slot < 3 → kernel.progs slot = .open
  mapped : Mapped kernel

/-- What is there again after the script of a process: all but its own table, and what lies in
closed slots. -/
structure Calm (kernel after : Kernel) : Prop where
  newPid : after.newPid = kernel.newPid
  progs : after.progs = kernel.progs
  currentPid : after.currentPid = kernel.currentPid
  schedTerminal : after.schedTerminal = kernel.schedTerminal
  displayed : after.console.currentTerminal = kernel.console.currentTerminal
  page : after.paging.pageDirectory usrIdx = kernel.paging.pageDirectory usrIdx
  stack : after.tss.esp0 = kernel.tss.esp0
  others : ∀ pid, pid ≠ kernel.newPid → kernel.progs pid = .open → after.pcb pid = kernel.pcb pid
  own : origin (after.pcb kernel.newPid) = origin (kernel.pcb kernel.newPid)

section

variable {image : Image} {layout : Layout} {kernel started ended after middle : Kernel} {child : Child}
variable {transfer : Transfer} {slot : Int}

theorem Calm.refl (kernel : Kernel) : Calm kernel kernel :=
  ⟨rfl, rfl, rfl, rfl, rfl, rfl, rfl, fun _ _ _ => rfl, rfl⟩

theorem Calm.trans (first : Calm kernel middle) (second : Calm middle after) : Calm kernel after where
  newPid := second.newPid.trans first.newPid
  progs := second.progs.trans first.progs
  currentPid := second.currentPid.trans first.currentPid
  schedTerminal := second.schedTerminal.trans first.schedTerminal
  displayed := second.displayed.trans first.displayed
  page := second.page.trans first.page
  stack := second.stack.trans first.stack
  others := by
    intro pid other alive
    have still : middle.progs pid = .open := by rw [first.progs, alive]
    exact (second.others pid (first.newPid ▸ other) still).trans (first.others pid other alive)
  own := (first.newPid ▸ second.own).trans first.own

theorem Ready.calm (ready : Ready kernel) (calm : Calm kernel after) : Ready after where
  alive := by rw [calm.progs, calm.newPid, ready.alive]
  proper := calm.newPid ▸ ready.proper
  current := by rw [calm.currentPid, calm.displayed, calm.newPid, ready.current]
  scheduled := by rw [calm.schedTerminal, calm.displayed, ready.scheduled]
  shells := calm.progs ▸ ready.shells
  mapped :=
    ⟨by rw [calm.page, calm.newPid, ready.mapped.page], by rw [calm.stack, calm.newPid, ready.mapped.stack]⟩

theorem calm_of_served (served : Served kernel after)
    (displayed : after.console.currentTerminal = kernel.console.currentTerminal) : Calm kernel after where
  newPid := served.newPid
  progs := served.progs
  currentPid := served.currentPid
  schedTerminal := served.schedTerminal
  displayed := displayed
  page := served.page
  stack := congrArg Tss.esp0 served.tss
  others := fun pid other _ => served.others pid other
  own := by
    obtain ⟨fds, same⟩ := served.own
    rw [same]
    rfl

/-- The first free slot is one of those that get a parent. -/
theorem Ready.high (ready : Ready kernel) {command : CString} {locals : Locals}
    (starts : Starts image command locals kernel slot) : 3 ≤ slot := by
  by_contra low
  have taken := ready.shells slot starts.range.1 (by omega)
  rw [starts.closed] at taken
  cases taken

theorem Ready.apart (ready : Ready kernel) {command : CString} {locals : Locals}
    (starts : Starts image command locals kernel slot) : kernel.newPid ≠ slot := by
  rintro rfl
  have alive := ready.alive
  rw [starts.closed] at alive
  cases alive

/-- The child is where its parent was. -/
theorem Ready.start (ready : Ready kernel) {frame : Frame} (starts : Started slot frame kernel started)
    (high : 3 ≤ slot) : Ready started where
  alive := by rw [starts.newPid, starts.progs, update_self]
  proper := by rw [starts.newPid]; omega
  current := by rw [starts.currentPid, starts.displayed, starts.newPid, update_self]
  scheduled := by rw [starts.schedTerminal, starts.displayed, ready.scheduled]
  shells := by
    intro pid nonneg low
    rw [starts.progs, update_of_ne (by omega)]
    exact ready.shells pid nonneg low
  mapped := ⟨by rw [starts.page, starts.newPid], by rw [starts.stack, starts.newPid]⟩

/-- A process that is started, leaves no trace while it runs and ends has left none. -/
theorem child_calm (ready : Ready kernel) (starts : Started slot child.frame kernel started)
    (high : 3 ≤ slot)
    (closed : kernel.progs slot = .close) (apart : kernel.newPid ≠ slot) (calm : Calm started ended)
    (leaves : child.leave image started.newPid ended = some (transfer, after)) :
    Calm kernel after ∧ after.pcb kernel.newPid = kernel.pcb kernel.newPid ∧
      transfer = .parent (status32 child.ending.status) child.frame := by
  obtain ⟨same, left, gone, answer⟩ := leave_cases leaves
  have slotEnded : ended.newPid = slot := same.trans starts.newPid
  have source : origin (ended.pcb slot) = (kernel.newPid, child.frame) := by
    have own := calm.own
    rw [starts.newPid] at own
    rw [own, origin, starts.parent, if_neg (by omega), ready.current, starts.frame.1, starts.frame.2]
  have parent : left.newPid = kernel.newPid := by
    rw [gone.newPid, slotEnded]
    exact congrArg Prod.fst source
  have pcbs : ∀ pid, pid ≠ slot → kernel.progs pid = .open → left.pcb pid = kernel.pcb pid := by
    intro pid other alive
    have running : started.progs pid = .open := by rw [starts.progs, update_of_ne other, alive]
    rw [gone.others pid (slotEnded ▸ other), calm.others pid (starts.newPid ▸ other) running, starts.others pid other]
  rcases answer with ⟨_, rfl, rfl⟩ | ⟨orphan, _⟩
  · refine ⟨?_, pcbs kernel.newPid apart ready.alive, ?_⟩
    · constructor
      case newPid => simpa using parent
      case progs =>
        calc left.progs = update ended.progs ended.newPid .close := gone.progs
          _ = update (update kernel.progs slot .open) slot .close := by
            rw [calm.progs, starts.progs, slotEnded]
          _ = kernel.progs := by rw [update_idem, ← closed, update_eq_self]
      case currentPid =>
        have terminal : ended.schedTerminal = kernel.console.currentTerminal := by
          rw [calm.schedTerminal, starts.schedTerminal, ready.scheduled]
        calc left.currentPid = update ended.currentPid ended.schedTerminal left.newPid := by
              rw [gone.currentPid, gone.newPid]
          _ = update (update kernel.currentPid kernel.console.currentTerminal slot)
                kernel.console.currentTerminal kernel.newPid := by
              rw [calm.currentPid, starts.currentPid, terminal, parent]
          _ = kernel.currentPid := by rw [update_idem, ← ready.current, update_eq_self]
      case schedTerminal =>
        rw [resume_schedTerminal, announce_schedTerminal, gone.schedTerminal, calm.schedTerminal, starts.schedTerminal]
      case displayed =>
        exact (left.announce_currentTerminal _).trans
          (gone.displayed.trans (calm.displayed.trans starts.displayed))
      case page =>
        rw [ready.mapped.page, ← parent]
        exact Paging.mapUser_usrIdx ..
      case stack =>
        rw [ready.mapped.stack, ← parent]
        rfl
      case others =>
        intro pid _ alive
        have other : pid ≠ slot := by
          rintro rfl
          rw [closed] at alive
          cases alive
        exact pcbs pid other alive
      case own => exact congrArg origin (pcbs kernel.newPid apart ready.alive)
    · rw [slotEnded]
      exact congrArg (Transfer.parent _) (congrArg Prod.snd source)
  · exact absurd (parent.symm.trans orphan) ready.proper

/-- By induction on the script: what is nested in it starts from a state of the same kind. -/
theorem script_calm (script : Script) (ready : Ready kernel)
    (ran : script.run image layout kernel = some after) : Calm kernel after := by
  induction script generalizing kernel after with
  | done =>
      obtain rfl := Option.some.inj ran
      exact Calm.refl kernel
  | call request rest ih =>
      obtain ⟨result, middle, served, displayed, remaining⟩ := Script.run_call ran
      have first := calm_of_served (serve_served served) displayed
      exact first.trans (ih (ready.calm first) remaining)
  | refused command frame locals rest ih =>
      obtain ⟨ret, middle, executed, remaining⟩ := Script.run_refused ran
      rcases execute_cases executed with ⟨_, _, oldPid, _, rfl⟩ | ⟨_, _, _, _, _, returned⟩
      · have first : Calm kernel (kernel.begin.setOldPid oldPid) := { Calm.refl kernel with }
        exact first.trans (ih (ready.calm first) remaining)
      · cases returned
  | interrupt console rtc rest ih =>
      obtain ⟨displayed, remaining⟩ := Script.run_interrupt ran
      have first : Calm kernel { kernel with console := console, rtc := rtc } :=
        { Calm.refl kernel with displayed := displayed }
      exact first.trans (ih (ready.calm first) remaining)
  | spawn child body rest bodyIh restIh =>
      obtain ⟨started, ended, transfer, middle, enters, inside, leaves, remaining⟩ := Script.run_spawn ran
      obtain ⟨slot, starts, begun⟩ := enter_cases enters
      have high := ready.high starts
      have calm := bodyIh (ready.start begun high) inside
      obtain ⟨first, _⟩ := child_calm ready begun high starts.closed (ready.apart starts) calm leaves
      exact first.trans (restIh (ready.calm first) remaining)

/-! ## What every script leaves alone -/

/-- Slots that are open stay open and keep their parent, and the displayed terminal gets
nothing back that the scheduled one should have. -/
structure Kept (kernel after : Kernel) : Prop where
  schedTerminal : after.schedTerminal = kernel.schedTerminal
  displayed : after.console.currentTerminal = kernel.console.currentTerminal
  alive : ∀ pid, kernel.progs pid = .open →
    after.progs pid = .open ∧ (after.pcb pid).parentPid = (kernel.pcb pid).parentPid
  current : kernel.schedTerminal ≠ kernel.console.currentTerminal →
    after.currentPid kernel.console.currentTerminal = kernel.currentPid kernel.console.currentTerminal ∨
      kernel.progs (after.currentPid kernel.console.currentTerminal) ≠ .open

theorem Kept.refl (kernel : Kernel) : Kept kernel kernel :=
  ⟨rfl, rfl, fun _ alive => ⟨alive, rfl⟩, fun _ => Or.inl rfl⟩

theorem Kept.trans (first : Kept kernel middle) (second : Kept middle after) : Kept kernel after where
  schedTerminal := second.schedTerminal.trans first.schedTerminal
  displayed := second.displayed.trans first.displayed
  alive := by
    intro pid alive
    obtain ⟨still, parent⟩ := first.alive pid alive
    obtain ⟨last, same⟩ := second.alive pid still
    exact ⟨last, same.trans parent⟩
  current := by
    intro other
    have again := second.current (by rw [first.schedTerminal, first.displayed]; exact other)
    rw [first.displayed] at again
    rcases again with same | closed
    · rw [same]
      exact first.current other
    · exact Or.inr fun alive => closed (first.alive _ alive).1

theorem kept_of_served (served : Served kernel after)
    (displayed : after.console.currentTerminal = kernel.console.currentTerminal) : Kept kernel after where
  schedTerminal := served.schedTerminal
  displayed := displayed
  alive := by
    intro pid alive
    refine ⟨by rw [served.progs, alive], ?_⟩
    by_cases here : pid = kernel.newPid
    · obtain ⟨fds, same⟩ := served.own
      rw [here, same]
    · rw [served.others pid here]
  current := fun _ => Or.inl (by rw [served.currentPid])

theorem kept_of_started {frame : Frame} (starts : Started slot frame kernel started)
    (closed : kernel.progs slot = .close) : Kept kernel started where
  schedTerminal := starts.schedTerminal
  displayed := starts.displayed
  alive := by
    intro pid alive
    have other : pid ≠ slot := by
      rintro rfl
      rw [closed] at alive
      cases alive
    exact ⟨by rw [starts.progs, update_of_ne other, alive], by rw [starts.others pid other]⟩
  current := by
    intro _
    rw [starts.currentPid, update_self, closed]
    exact Or.inr nofun

theorem kept_of_executed {command : CString} {frame : Frame} {locals : Locals}
    (executed : kernel.execute image command frame locals = some (transfer, after)) :
        Kept kernel after := by
  rcases execute_cases executed with ⟨_, ret, oldPid, _, rfl⟩ | ⟨slot, starts, begun, _⟩
  · exact { Kept.refl kernel with }
  · exact kept_of_started begun starts.closed

/-- The process that ends is not one of those that were there before. -/
theorem kept_of_left {left : Kernel} (kept : Kept kernel ended)
    (closed : kernel.progs ended.newPid = .close)
    (gone : Left ended left) : Kept kernel left where
  schedTerminal := gone.schedTerminal.trans kept.schedTerminal
  displayed := gone.displayed.trans kept.displayed
  alive := by
    intro pid alive
    have other : pid ≠ ended.newPid := by
      rintro rfl
      rw [closed] at alive
      cases alive
    obtain ⟨still, parent⟩ := kept.alive pid alive
    exact ⟨by rw [gone.progs, update_of_ne other, still], by rw [gone.others pid other, parent]⟩
  current := by
    intro other
    have terminal : kernel.console.currentTerminal ≠ ended.schedTerminal := by
      rw [kept.schedTerminal]
      exact other.symm
    rw [gone.currentPid, update_of_ne terminal]
    exact kept.current other

theorem announce_kept (kernel : Kernel) (status : UInt8) : Kept kernel (kernel.announce status) :=
  { Kept.refl kernel with displayed := kernel.announce_currentTerminal status }

theorem resume_kept (kernel : Kernel) : Kept kernel kernel.resume := { Kept.refl kernel with }

theorem child_kept (starts : Started slot child.frame kernel started)
    (closed : kernel.progs slot = .close)
    (kept : Kept started ended) (leaves : child.leave image started.newPid ended = some (transfer, after)) :
    Kept kernel after := by
  obtain ⟨same, left, gone, answer⟩ := leave_cases leaves
  have throughout := (kept_of_started starts closed).trans kept
  have own : kernel.progs ended.newPid = .close := by rw [same, starts.newPid, closed]
  have told := (kept_of_left throughout own gone).trans (announce_kept left child.ending.status)
  rcases answer with ⟨_, rfl, _⟩ | ⟨_, inside, restarted, executed, rfl | rfl⟩
  · exact told.trans (resume_kept _)
  · exact (told.trans (kept_of_executed executed)).trans (resume_kept _)
  · exact told.trans (kept_of_executed executed)

theorem script_kept (script : Script) (ran : script.run image layout kernel = some after) :
    Kept kernel after := by
  induction script generalizing kernel after with
  | done =>
      obtain rfl := Option.some.inj ran
      exact Kept.refl kernel
  | call request rest ih =>
      obtain ⟨result, middle, served, displayed, remaining⟩ := Script.run_call ran
      exact (kept_of_served (serve_served served) displayed).trans (ih remaining)
  | refused command frame locals rest ih =>
      obtain ⟨ret, middle, executed, remaining⟩ := Script.run_refused ran
      exact (kept_of_executed executed).trans (ih remaining)
  | interrupt console rtc rest ih =>
      obtain ⟨displayed, remaining⟩ := Script.run_interrupt ran
      have first : Kept kernel { kernel with console := console, rtc := rtc } :=
        { Kept.refl kernel with displayed := displayed }
      exact first.trans (ih remaining)
  | spawn child body rest bodyIh restIh =>
      obtain ⟨started, ended, transfer, middle, enters, inside, leaves, remaining⟩ := Script.run_spawn ran
      obtain ⟨slot, starts, begun⟩ := enter_cases enters
      exact (child_kept begun starts.closed (bodyIh inside) leaves).trans (restIh remaining)

end

/-! ## execute and halt -/

/-- The process runs, in a slot of its own, on the displayed terminal. -/
structure Runs (kernel : Kernel) : Prop where
  range : 0 ≤ kernel.newPid ∧ kernel.newPid ≤ 5
  alive : kernel.progs kernel.newPid = .open
  current : kernel.currentPid kernel.console.currentTerminal = kernel.newPid

/-- The end of the child has undone its start, and `execute` returns what it should. -/
structure Balanced (kernel : Kernel) (child : Child) (transfer : Transfer) (after : Kernel) : Prop where
  newPid : after.newPid = kernel.newPid
  progs : after.progs = kernel.progs
  current : after.currentPid kernel.console.currentTerminal =
    kernel.currentPid kernel.console.currentTerminal
  page : (after.paging.pageDirectory usrIdx).addy = (kernel.paging.pageDirectory usrIdx).addy
  stack : after.tss.esp0 = kernel.tss.esp0
  table : (after.pcb kernel.newPid).systemcallFdArray = (kernel.pcb kernel.newPid).systemcallFdArray
  control : transfer = .parent child.ending.answer child.frame

/-- The child goes to the scheduled terminal and gets a parent, and its status is not the one
that stands for an exception. -/
structure Restores (kernel : Kernel) (ending : Ending) : Prop where
  scheduled : kernel.schedTerminal = kernel.console.currentTerminal
  shells : ∀ slot, 0 ≤ slot → slot < 3 → kernel.progs slot = .open
  unreserved : ∀ status, ending = .halt status → status ≠ 111

section

variable {image : Image} {layout : Layout} {kernel started ended after : Kernel} {child : Child}
variable {transfer : Transfer} {body : Script}

theorem status32_eq_answer (ending : Ending) :
    status32 ending.status = ending.answer ↔ ∀ status, ending = .halt status → status ≠ 111 := by
  cases ending with
  | halt status =>
      show (if status = 111 then (256 : Int) else status.toNat) = status.toNat ↔ _
      split
      · rename_i reserved
        constructor
        · intro same
          have small := status.toNat_lt
          omega
        · intro unreserved
          exact absurd reserved (unreserved status rfl)
      · rename_i free
        refine iff_of_true rfl ?_
        rintro _ ⟨⟩
        exact free
  | exception vector => exact iff_of_true rfl nofun

theorem balanced_of_restores (mapped : Mapped kernel) (runs : Runs kernel)
    (restores : Restores kernel child.ending)
    (enters : child.enter image kernel = some started) (ran : body.run image layout started = some ended)
    (leaves : child.leave image started.newPid ended = some (transfer, after)) :
    Balanced kernel child transfer after := by
  have ready : Ready kernel := by
    have range := runs.range
    exact ⟨runs.alive, by omega, runs.current, restores.scheduled, restores.shells, mapped⟩
  obtain ⟨slot, starts, begun⟩ := enter_cases enters
  have high := ready.high starts
  have calm := script_calm body (ready.start begun high) ran
  obtain ⟨whole, own, control⟩ :=
    child_calm ready begun high starts.closed (ready.apart starts) calm leaves
  constructor
  case newPid => exact whole.newPid
  case progs => exact whole.progs
  case current => rw [whole.currentPid]
  case page => rw [whole.page]
  case stack => exact whole.stack
  case table => rw [own]
  case control => rw [control, (status32_eq_answer child.ending).mpr restores.unreserved]

/-- A child without a parent is followed by a shell or by nothing. -/
theorem high_of_balanced (runs : Runs kernel) {slot : Int}
    (begun : Started slot child.frame kernel started)
    (closed : kernel.progs slot = .close) (kept : Kept started ended)
    (leaves : child.leave image started.newPid ended = some (transfer, after))
    (balanced : Balanced kernel child transfer after) : 3 ≤ slot := by
  by_contra low
  have range := runs.range
  have newPid := balanced.newPid
  obtain ⟨same, left, gone, answer⟩ := leave_cases leaves
  have slotEnded : ended.newPid = slot := same.trans begun.newPid
  have opened : started.progs slot = .open := by rw [begun.progs, update_self]
  have orphan : left.newPid = -1 := by
    rw [gone.newPid, slotEnded, (kept.alive slot opened).2, begun.parent, if_pos (by omega)]
  rcases answer with ⟨parent, _⟩ | ⟨_, inside, restarted, executed, answer⟩
  · exact parent orphan
  · have told := (kept_of_left ((kept_of_started begun closed).trans kept)
      (by rw [slotEnded, closed]) gone).trans (announce_kept left child.ending.status)
    have still := (told.alive kernel.newPid runs.alive).1
    have number : after.newPid = restarted.newPid := by
      rcases answer with rfl | rfl
      · rfl
      · rfl
    rcases execute_cases executed with ⟨_, ret, oldPid, _, rfl⟩ | ⟨other, starts, again, _⟩
    · have none : after.newPid = left.newPid := by simpa using number
      omega
    · have shell : after.newPid = other := number.trans again.newPid
      have free := starts.closed
      rw [← shell, newPid, still] at free
      cases free

theorem restores_of_balanced (runs : Runs kernel) (enters : child.enter image kernel = some started)
    (ran : body.run image layout started = some ended)
    (leaves : child.leave image started.newPid ended = some (transfer, after))
    (balanced : Balanced kernel child transfer after) : Restores kernel child.ending := by
  obtain ⟨slot, starts, begun⟩ := enter_cases enters
  have kept := script_kept body ran
  have high := high_of_balanced runs begun starts.closed kept leaves balanced
  have range := runs.range
  have apart : kernel.newPid ≠ slot := by
    intro same
    have alive := runs.alive
    rw [same, starts.closed] at alive
    cases alive
  obtain ⟨same, left, gone, answer⟩ := leave_cases leaves
  have slotEnded : ended.newPid = slot := same.trans begun.newPid
  have opened : started.progs slot = .open := by rw [begun.progs, update_self]
  have parent : left.newPid = kernel.newPid := by
    rw [gone.newPid, slotEnded, (kept.alive slot opened).2, begun.parent, if_neg (by omega), runs.current]
  rcases answer with ⟨_, rfl, rfl⟩ | ⟨orphan, _⟩
  · constructor
    case scheduled =>
      by_contra other
      have terminal : kernel.console.currentTerminal ≠ ended.schedTerminal := by
        rw [kept.schedTerminal, begun.schedTerminal]
        exact Ne.symm other
      have shown : left.currentPid kernel.console.currentTerminal = kernel.newPid :=
        balanced.current.trans runs.current
      rw [gone.currentPid, update_of_ne terminal] at shown
      have nested := kept.current (by rw [begun.schedTerminal, begun.displayed]; exact other)
      rw [begun.displayed, shown, begun.currentPid, update_self] at nested
      rcases nested with child | closed
      · exact apart child
      · exact closed (by rw [begun.progs, update_of_ne apart, runs.alive])
    case shells =>
      obtain ⟨_, _, _, lower⟩ := freeSlot_eq_some starts.free
      exact fun pid nonneg low => lower pid nonneg (by omega)
    case unreserved =>
      refine (status32_eq_answer child.ending).mp ?_
      injection balanced.control
  · omega

end

/-! ## Reachable states -/

/-- What leads from state to state before the process starts its child. -/
inductive Activity where
  | happens (event : Event)
  | exception (exceptionId : Nat) (inner : Frame) (locals : Locals)
  /-- Calls on descriptors and device interrupts, in whatever order: they write to tables and
  devices only. -/
  | devices (fds : Int → Table) (files : Table) (console : Console) (rtc : Rtc)

def Activity.step (image : Image) (layout : Layout) (kernel : Kernel) : Activity → Option Kernel
  | .happens event => kernel.next image layout event
  | .exception exceptionId inner locals =>
      (kernel.exceptionHandler image exceptionId inner locals).map Prod.snd
  | .devices fds files console rtc => some
      { kernel with
        pcb := fun pid => { kernel.pcb pid with systemcallFdArray := fds pid }
        files := files
        console := console
        rtc := rtc }

/-- Page and stack are those of the running process in every state that is reached. -/
theorem activity_placed {image : Image} {layout : Layout} {kernel after : Kernel} {activity : Activity}
    (placed : Placed layout True kernel) (taken : activity.step image layout kernel = some after) :
    Placed layout True after := by
  cases activity with
  | happens event =>
      obtain ⟨⟨transfer, _⟩, stepped, rfl⟩ := Option.map_eq_some_iff.mp taken
      cases event with
      | execute command frame locals => exact (execute_placed placed stepped).1
      | halt status inner locals => exact halt_placed placed stepped
      | vidmap screenStart =>
          simp only [step] at stepped
          split at stepped
          · cases stepped
          · obtain ⟨_, rfl⟩ := Prod.mk.inj (Option.some.inj stepped)
            exact vidmap_placed placed screenStart
      | openTerminal terminalId =>
          obtain ⟨_, rfl⟩ := Prod.mk.inj (Option.some.inj stepped)
          exact placed.withConsole _
      | tick frame inner locals => exact (tick_placed placed stepped).1
  | exception exceptionId inner locals =>
      obtain ⟨⟨transfer, _⟩, handled, rfl⟩ := Option.map_eq_some_iff.mp taken
      unfold exceptionHandler at handled
      split at handled
      · obtain ⟨_, rfl⟩ := Prod.mk.inj (Option.some.inj handled)
        exact placed
      · exact halt_placed (placed.withConsole _) handled
  | devices fds files console rtc =>
      obtain rfl := Option.some.inj taken
      exact placed.congr (fun _ => ⟨rfl, rfl⟩) rfl rfl rfl rfl

/-- In every state that is reached with a process running on the displayed terminal, and for
every child of it with everything that child does, the end of the child undoes its start
exactly under the condition. -/
theorem balanced_iff (pcb : Int → Pcb) (rtc : Rtc) (leftovers : Leftovers) {image : Image} {layout : Layout}
    {activities : List Activity} {kernel started ended after : Kernel} {child : Child} {body : Script}
    {transfer : Transfer}
    (reached : Transition.run (Activity.step image layout) (entry layout pcb rtc leftovers) activities = some kernel)
    (runs : Runs kernel) (enters : child.enter image kernel = some started)
    (ran : body.run image layout started = some ended)
    (leaves : child.leave image started.newPid ended = some (transfer, after)) :
    Balanced kernel child transfer after ↔ Restores kernel child.ending := by
  have placed : Placed layout True kernel := by
    have start := entry_placed layout pcb rtc leftovers
    refine Transition.run_preserves _ (P := Placed layout True)
      ⟨start.accounted, start.mapped, start.confined.weaken (fun _ => True.intro)⟩ ?_ reached
    intro state activity next placed taken
    exact activity_placed placed taken
  constructor
  · exact restores_of_balanced runs enters ran leaves
  · intro restores
    exact balanced_of_restores (placed.mapped runs.range.1) runs restores enters ran leaves

def sampleExecute : Activity := .happens (.execute Image.shell ⟨0, 0⟩ .zeros)

def sampleChild (ending : Ending) : Child :=
  ⟨Image.shell, ⟨0x7FBF00, 0x7FBF40⟩, .zeros, ending, ⟨0, 0⟩, .zeros⟩

/-- Open a file, map the video page, and run a program that faults. -/
def sampleBody : Script :=
  .call (.descriptor (.open Image.frame0 .zeros)) <| .call (.vidmap 0x08000000) <|
    .spawn (sampleChild (.exception 14)) .done .done

/-- The third of three shells runs a program that ends with 7. -/
theorem balanced_sample : ∃ kernel transfer after,
    Balanced kernel (sampleChild (.halt 7)) transfer after := by
  have evaluated : ((Transition.run (Activity.step Image.sample Layout.sample) booted
      (List.replicate 3 sampleExecute)).bind fun kernel =>
        ((sampleChild (.halt 7)).enter Image.sample kernel).bind fun started =>
          (sampleBody.run Image.sample Layout.sample started).bind fun ended =>
            ((sampleChild (.halt 7)).leave Image.sample started.newPid ended).map fun _ =>
              (kernel.newPid, kernel.schedTerminal, kernel.console.currentTerminal, kernel.currentPid 0,
                [0, 1, 2].map kernel.progs)) = some (2, 0, 0, 2, [.open, .open, .open]) := by
    decide +kernel
  obtain ⟨kernel, reached, evaluated⟩ := Option.bind_eq_some_iff.mp evaluated
  obtain ⟨started, enters, evaluated⟩ := Option.bind_eq_some_iff.mp evaluated
  obtain ⟨ended, ran, evaluated⟩ := Option.bind_eq_some_iff.mp evaluated
  obtain ⟨⟨transfer, after⟩, leaves, values⟩ := Option.map_eq_some_iff.mp evaluated
  obtain ⟨newPid, scheduled, displayed, current, first, second, third⟩ : kernel.newPid = 2 ∧
      kernel.schedTerminal = 0 ∧ kernel.console.currentTerminal = 0 ∧ kernel.currentPid 0 = 2 ∧
      kernel.progs 0 = .open ∧ kernel.progs 1 = .open ∧ kernel.progs 2 = .open := by simpa using values
  have runs : Runs kernel :=
    ⟨by omega, by rw [newPid]; exact third, by rw [displayed, current, newPid]⟩
  refine ⟨kernel, transfer, after,
    (balanced_iff (fun _ => Pcb.zeros) ⟨0, false⟩ .zeros reached runs enters ran leaves).mpr ⟨?_, ?_, ?_⟩⟩
  · rw [scheduled, displayed]
  · intro slot nonneg low
    obtain rfl | rfl | rfl : slot = 0 ∨ slot = 1 ∨ slot = 2 := by omega
    · exact first
    · exact second
    · exact third
  · rintro _ ⟨⟩
    decide

/-- The first shell runs a program that ends with 0: a new shell takes its place. -/
theorem program_of_first_shell : ∃ kernel started transfer after,
    Transition.run (Activity.step Image.sample Layout.sample) booted [sampleExecute] = some kernel ∧
      Runs kernel ∧ (sampleChild (.halt 0)).enter Image.sample kernel = some started ∧
      (sampleChild (.halt 0)).leave Image.sample started.newPid started = some (transfer, after) ∧
      ¬ Balanced kernel (sampleChild (.halt 0)) transfer after := by
  have evaluated :
    ((Transition.run (Activity.step Image.sample Layout.sample) booted [sampleExecute]).bind
      fun kernel => ((sampleChild (.halt 0)).enter Image.sample kernel).bind fun started =>
        ((sampleChild (.halt 0)).leave Image.sample started.newPid started).map fun answer =>
          (kernel.newPid, kernel.console.currentTerminal, kernel.currentPid 0, kernel.progs 0,
            answer.2.newPid)) = some (0, 0, 0, .open, 1) := by
    decide +kernel
  obtain ⟨kernel, reached, evaluated⟩ := Option.bind_eq_some_iff.mp evaluated
  obtain ⟨started, enters, evaluated⟩ := Option.bind_eq_some_iff.mp evaluated
  obtain ⟨⟨transfer, after⟩, leaves, values⟩ := Option.map_eq_some_iff.mp evaluated
  obtain ⟨newPid, displayed, current, alive, shell⟩ : kernel.newPid = 0 ∧
      kernel.console.currentTerminal = 0 ∧ kernel.currentPid 0 = 0 ∧ kernel.progs 0 = .open ∧
      after.newPid = 1 := by simpa using values
  have runs : Runs kernel :=
    ⟨by omega, by rw [newPid]; exact alive, by rw [displayed, current, newPid]⟩
  refine ⟨kernel, started, transfer, after, reached, runs, enters, leaves, fun balanced => ?_⟩
  have same := balanced.newPid
  omega

end Nesting

end LinuxLikeOS

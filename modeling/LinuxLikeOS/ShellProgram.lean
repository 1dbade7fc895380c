import LinuxLikeOS.Programs
import LinuxLikeOS.WaitingRead

/-!
# The shell (`ece391shell.c`)

The main loop reads a line from the terminal and executes it. While it waits for the line and while the program
runs, the others do what they like to what the shell shares with them.
-/

namespace LinuxLikeOS.Programs

open Function Blocks Fueled LinuxLikeOS.Task LinuxLikeOS.ProcessTable LinuxLikeOS.DescriptorRefinement

/-- What happens during the calls of the shell that take long, by their numbers: the waits for a line, and the
programs that it starts, with what they hand to `halt`. -/
structure Outside where
  waits : Nat → Shared → Shared
  runs : Nat → CString → Shared → Int × Shared

/-- The others leave the descriptors 0 and 1 of the global table on the terminal. -/
def Outside.Standard (outside : Outside) : Prop :=
  ∀ n shared, StandardOpen shared.files → StandardOpen (outside.waits n shared).files

/-- The shell with the lines it has read, the commands it has executed, and what it has returned. -/
structure Session where
  process : Process
  typed : List (List UInt8)
  ran : List (List UInt8 × Int)
  returned : Option Int

section

variable (image : Image) (world : World) (outside : Outside) (fuel buf exitText : Nat)

namespace Process

/-- In the driver of a descriptor, its wait over. -/
def waited (n : Nat) (index : Fin 8) (process : Process) : Task :=
  let entered := (process.task world).enterRead index
  if (process.fds index).fops = .terminal then
    let shared := outside.waits n ⟨entered.files, entered.console, entered.rtc⟩
    ⟨entered.fds, shared.files, shared.console, shared.rtc⟩
  else entered

/-- The line that the terminal has for the call. -/
def awaited (n : Nat) (process : Process) : List UInt8 := (process.waited world outside n 0).console.terminalRead.1

end Process

/-- `ece391_read`, with a wait in which the global table can change. -/
def ece391ReadWaiting (n : Nat) (fd : Int) (nbytes : Int) (process : Process) : Fueled Nat (Int × Process) :=
  let answered : Option (Result × Task) :=
    match (process.task world).readable (Int32.ofInt fd) (some (behind process.memory buf)) with
    | none => some (.plain (-1), process.task world)
    | some (index, memory) =>
        (process.waited world outside n index).leaveRead image index memory (Int32.ofInt nbytes).toInt
          (world.residue process.calls)
  OptionT.mk (pure (answered.map fun (result, task) =>
    (result.ret, { process with
      fds := task.fds
      shared := ⟨task.files, task.console, task.rtc⟩
      memory := storedAt result.writes buf process.memory
      calls := process.calls + 1 })))

/-- `ece391_execute`, with the command. -/
def ece391Execute (n command : Nat) (process : Process) : Fueled Nat (Int × List UInt8 × Process) :=
  match stringArgument process.memory command fuel with
  | none => OptionT.mk (pure none)
  | some text =>
      let (status, shared) := outside.runs n text (process.meets world)
      pure (status, text.chars, { process with shared := shared, calls := process.calls + 1 })

/-- What the shell says of the status of a command. -/
def message (rval : Int) : List UInt8 :=
  if rval = -1 then ascii "no such command\n".toList
  else if rval = 256 then ascii "program terminated by exception\n".toList
  else if rval ≠ 0 then ascii "program terminated abnormally\n".toList
  else []

def complain (rval : Int) (process : Process) : Fueled Nat Process :=
  if rval = -1 then fdputsLiteral image world 1 (ascii "no such command\n".toList) process
  else if rval = 256 then fdputsLiteral image world 1 (ascii "program terminated by exception\n".toList) process
  else if rval ≠ 0 then fdputsLiteral image world 1 (ascii "program terminated abnormally\n".toList) process
  else pure process

/-- The line without its newline. -/
def trimmed (cnt : Int) (memory : Memory) : Fueled Nat Int :=
  if cnt > 0 then do
    access (buf + (cnt - 1).toNat)
    pure (if memory (buf + (cnt - 1).toNat) = 10 then cnt - 1 else cnt)
  else pure cnt

/-- One round of the loop; `exitText` is the address of the literal. -/
def promptRound (session : Session) : Fueled Nat Session := do
  let process ← fdputsLiteral image world 1 (ascii "391OS> ".toList) session.process
  let line := process.awaited world outside session.typed.length
  let (cnt, process) ← ece391ReadWaiting image world outside buf session.typed.length 0 1023 process
  if cnt = -1 then do
    let process ← fdputsLiteral image world 1 (ascii "read from keyboard failed\n".toList) process
    pure { session with process := process, returned := some 3 }
  else do
    let cnt ← trimmed buf cnt process.memory
    access (buf + cnt.toNat)
    let process := { process with memory := update process.memory (buf + cnt.toNat) 0 }
    let session := { session with process := process, typed := session.typed ++ [line] }
    let order ← ece391Strcmp fuel buf exitText process.memory
    if order = 0 then pure { session with returned := some 0 }
    else do
      access buf
      if process.memory buf = 0 then pure session
      else do
        let (rval, command, process) ← ece391Execute world outside fuel session.ran.length buf process
        let process ← complain image world rval process
        pure { session with process := process, ran := session.ran ++ [(command, rval)] }

/-- So many rounds, unless `main` returns before. -/
def promptRounds : Nat → Session → Fueled Nat Session
  | 0, session => pure session
  | rounds + 1, session =>
      if session.returned.isSome then pure session
      else do
        let session ← promptRound image world outside fuel buf exitText session
        promptRounds rounds session

def shellMain (rounds : Nat) (process : Process) : Fueled Nat Session := do
  let process ← fdputsLiteral image world 1 (ascii "Starting 391 Shell\n".toList) process
  promptRounds image world outside fuel buf exitText rounds ⟨process, [], [], none⟩

end

/-! ## What a line says -/

def exitCommand : List UInt8 := ascii "exit".toList

/-- The characters of a line in front of its newline. -/
def withoutNewline (line : List UInt8) : List UInt8 := if line.getLast? = some 10 then line.dropLast else line

/-- The command in a line: what stands before its newline, or before a NUL. -/
def commandOf (line : List UInt8) : List UInt8 := (withoutNewline line).takeWhile (· != 0)

/-- A line that was read, with the status of its command if it was executed. -/
structure Round where
  line : List UInt8
  status : Option Int

namespace Round

/-- Executed are the commands that are not empty and not `exit`. -/
def Right (round : Round) : Prop :=
  round.status = none ↔ commandOf round.line = [] ∨ commandOf round.line = exitCommand

def text (round : Round) : List UInt8 := ascii "391OS> ".toList ++ (round.status.map message).getD []

def executed (round : Round) : Option (List UInt8 × Int) := round.status.map fun status =>
    (commandOf round.line, status)

end Round

/-- A session is the trace of some rounds. -/
structure Traces (buf : Nat) (start : Process) (rounds : List Round) (session : Session) : Prop where
  right : ∀ round ∈ rounds, round.Right
  typed : session.typed = rounds.map Round.line
  ran : session.ran = rounds.filterMap Round.executed
  printed : session.process.printed = start.printed ++ rounds.flatMap Round.text
  standard : StandardOpen session.process.fds
  memory : ∀ address, ¬ Within buf 1024 address → session.process.memory address = start.memory address

/-- A process that has written the greeting. -/
def Process.greeted (process : Process) : Process :=
  { process with printed := process.printed ++ ascii "Starting 391 Shell\n".toList }

/-- After so many rounds none of them was an `exit`, or the last is the first `exit` and `main` has returned 0. -/
def Outcome (n : Nat) (rounds : List Round) (returned : Option Int) : Prop :=
  (returned = none ∧ rounds.length = n ∧ ∀ round ∈ rounds, commandOf round.line ≠ exitCommand) ∨
    (returned = some 0 ∧ rounds.length ≤ n ∧ ∃ earlier last, rounds = earlier ++ [last] ∧
      commandOf last.line = exitCommand ∧ ∀ round ∈ earlier, commandOf round.line ≠ exitCommand)

/-! ## What the others see of it -/

/-- What the shell does that the others can see. -/
inductive Act where
  | writes (text : List UInt8)
  | reads (line : List UInt8)
  | runs (command : List UInt8) (status : Int)

def Act.line : Act → Option (List UInt8)
  | .reads line => some line
  | .writes _ | .runs _ _ => none

def linesRead (acts : List Act) : List (List UInt8) := acts.filterMap Act.line

/-- The message for a status, if there is one. -/
def complaint (rval : Int) : List Act := if rval = 0 then [] else [.writes (message rval)]

def Round.acts (round : Round) : List Act :=
  [.writes (ascii "391OS> ".toList), .reads round.line] ++
    (round.status.map fun status => .runs (commandOf round.line) status :: complaint status).getD []

def actsOf (rounds : List Round) : List Act :=
  .writes (ascii "Starting 391 Shell\n".toList) :: rounds.flatMap Round.acts

/-- A text has been written to the terminal. -/
def Shared.wrote (text : List UInt8) (shared : Shared) : Shared :=
  { shared with console := shown shared.console text }

/-- The wait for a line begins, with the table of the process that reads. -/
def Shared.entering (fds : Table) (shared : Shared) : Shared :=
  ⟨fds, shared.console.setReadFlag false, shared.rtc⟩

/-- The line has been taken. -/
def Shared.taken (shared : Shared) : Shared := { shared with console := shared.console.terminalRead.2 }

/-- A statement about what the shell has done and what it shares with the others, which holds on as long as the shell
goes on. -/
structure Holding (world : World) (outside : Outside) (At : List Act → Shared → Prop) : Prop where
  writes : ∀ {acts shared}, At acts shared → ∀ calls text,
    At (acts ++ [.writes text]) ((world.change calls shared).wrote text)
  reads : ∀ {acts shared}, At acts shared → ∀ calls fds,
    let after := outside.waits (linesRead acts).length ((world.change calls shared).entering fds)
    At (acts ++ [.reads after.console.terminalRead.1]) after.taken
  runs : ∀ {acts shared}, At acts shared → ∀ line, (linesRead acts).getLast? = some line → ∀ calls n command,
    command.chars = commandOf line → command.chars ≠ [] → command.chars ≠ exitCommand →
      At (acts ++ [.runs command.chars (outside.runs n command (world.change calls shared)).1])
        (outside.runs n command (world.change calls shared)).2

theorem holding_true (world : World) (outside : Outside) : Holding world outside fun _ _ => True :=
  ⟨fun _ _ _ => trivial, fun _ _ _ => trivial, fun _ _ _ _ _ _ _ _ _ => trivial⟩

theorem actsOf_concat (rounds : List Round) (round : Round) :
    actsOf (rounds ++ [round]) = actsOf rounds ++ round.acts := by
  rw [actsOf, List.flatMap_append, List.flatMap_singleton]
  rfl

theorem linesRead_append (first second : List Act) :
    linesRead (first ++ second) = linesRead first ++ linesRead second := List.filterMap_append ..

theorem linesRead_complaint (rval : Int) : linesRead (complaint rval) = [] := by
  unfold complaint
  split <;> rfl

theorem linesRead_round (round : Round) : linesRead round.acts = [round.line] := by
  obtain ⟨line, status⟩ := round
  cases status with
  | none => rfl
  | some status => exact congrArg (line :: ·) (linesRead_complaint status)

theorem linesRead_actsOf (rounds : List Round) : linesRead (actsOf rounds) = rounds.map Round.line := by
  induction rounds using List.reverseRecOn with
  | nil => rfl
  | append_singleton rounds round ih =>
      rw [actsOf_concat, linesRead_append, ih, linesRead_round, List.map_append, List.map_singleton]

section

variable {image : Image} {world : World} {outside : Outside} {fuel buf exitText : Nat} {start process : Process}
  {P : Nat → Prop} {At : List Act → Shared → Prop} {acts : List Act}

theorem length_awaited (n : Nat) (process : Process) : (process.awaited world outside n).length ≤ 128 :=
  WaitingRead.length_terminalRead _

/-- What the others find when the wait begins. -/
def Process.entered (world : World) (process : Process) : Shared := (process.meets world).entering process.fds

/-- The wait of a process that has descriptor 0 on the terminal. -/
theorem waited_eq {n : Nat} (standard : StandardOpen process.fds) :
    process.waited world outside n 0 =
      ⟨process.fds, (outside.waits n (process.entered world)).files, (outside.waits n (process.entered world)).console,
        (outside.waits n (process.entered world)).rtc⟩ := by
  have terminal := standard 0 (by decide)
  have entered : (process.task world).enterRead 0 =
      ⟨process.fds, process.fds, (process.meets world).console.setReadFlag false, (process.meets world).rtc⟩ :=
    if_pos terminal.2
  rw [Process.waited, if_pos terminal.2, entered]
  rfl

/-- A read of the terminal in terms of its wait. -/
theorem readWaiting_eq {n : Nat} (standard : StandardOpen process.fds) :
    ece391ReadWaiting image world outside buf n 0 1023 process =
      pure (((process.awaited world outside n).length : Int),
        let waited := process.waited world outside n 0
        { process with
          fds := waited.files
          shared := ⟨waited.files, waited.console.terminalRead.2, waited.rtc⟩
          memory := storedAt waited.terminalRead.1.writes buf process.memory
          calls := process.calls + 1 }) := by
  have terminal := standard 0 (by decide)
  have passed : readTarget (process.task world).fds (Int32.ofInt 0) (some (behind process.memory buf)) = some 0 :=
    readTarget_eq_some.mpr ⟨descriptor_val 0, Option.some_ne_none _, by decide, terminal.1⟩
  have readable : (process.task world).readable (Int32.ofInt 0) (some (behind process.memory buf)) =
      some (0, behind process.memory buf) := by
    simp only [readable_eq, passed, Option.bind_some, Option.map_some]
  have driver : ((process.waited world outside n 0).fds 0).fops = .terminal := by
    rw [waited_eq standard]
    exact terminal.2
  have answered : (process.waited world outside n 0).leaveRead image 0 (behind process.memory buf)
      (Int32.ofInt 1023).toInt (world.residue process.calls) =
        some ((process.waited world outside n 0).terminalRead.1,
          { (process.waited world outside n 0).terminalRead.2 with
            fds := (process.waited world outside n 0).terminalRead.2.files }) := by
    rw [Task.leaveRead, driver]
    rfl
  unfold ece391ReadWaiting
  simp only [readable, answered]
  rfl

/-- It stores the line and zeros behind it. -/
theorem readWaiting_returns {n : Nat} (kept : outside.Standard) (standard : StandardOpen process.fds) :
    Returns P (fun answer =>
        answer.1 = ((process.awaited world outside n).length : Int) ∧ answer.2.printed = process.printed ∧
          StandardOpen answer.2.fds ∧
          answer.2.memory = written process.memory buf (process.awaited world outside n ++
            List.replicate (128 - (process.awaited world outside n).length) 0) ∧
          answer.2.shared = (outside.waits n (process.entered world)).taken)
      (ece391ReadWaiting image world outside buf n 0 1023 process) := by
  have files : StandardOpen (process.waited world outside n 0).files := by
    rw [waited_eq standard]
    exact kept n _ standard
  have shared : (outside.waits n (process.entered world)).taken =
      ⟨(process.waited world outside n 0).files, (process.waited world outside n 0).console.terminalRead.2,
        (process.waited world outside n 0).rtc⟩ := by
    rw [waited_eq standard]
    rfl
  rw [readWaiting_eq standard]
  exact returns_pure ⟨rfl, rfl, files, stored_file process.memory buf (length_awaited n process), shared.symm⟩

/-- What a write leaves of the shared part. -/
theorem fdputsLiteral_shared (standard : StandardOpen process.fds) {text : List UInt8} (small : text.length < 2 ^ 31) :
    Returns P (fun after => after.shared = (process.meets world).wrote text)
      (fdputsLiteral image world 1 text process) := by
  have whole : Console.written (fun i => text.getD i 0) text.length = text :=
    List.ext_getElem (by simp [Console.written]) fun i _ inside => by simp [Console.written, inside]
  refine Returns.bind (Q := fun answer => answer.2.shared = (process.meets world).wrote text) ?_
    fun answer same => returns_pure same
  refine returns_request (write_answered standard _ small) ?_
  show Shared.mk (process.meets world).files ((process.meets world).console.terminalWrite _ _) (process.meets world).rtc =
    _
  rw [Console.terminalWrite_eq, whole]
  rfl

theorem fdputsLiteral_holding (holding : Holding world outside At) (before : At acts process.shared)
    (standard : StandardOpen process.fds) {text : List UInt8} (small : text.length < 2 ^ 31) :
    Returns P (fun after => Prints world False process after text ∧ At (acts ++ [.writes text]) after.shared)
      (fdputsLiteral image world 1 text process) := by
  refine ((fdputsLiteral_returns False.elim standard small).and (fdputsLiteral_shared standard small)).imp ?_
  rintro after ⟨prints, shared⟩
  exact ⟨prints, shared ▸ holding.writes before process.calls text⟩

theorem complain_returns (holding : Holding world outside At) (before : At acts process.shared)
    (standard : StandardOpen process.fds) (rval : Int) :
    Returns P (fun after => Prints world False process after (message rval) ∧ At (acts ++ complaint rval) after.shared)
      (complain image world rval process) := by
  by_cases quiet : rval = 0
  · subst quiet
    exact returns_pure ⟨Prints.refl world False process, (List.append_nil acts).symm ▸ before⟩
  · rw [complaint, if_neg quiet]
    unfold complain message
    by_cases missing : rval = -1
    · simp only [if_pos missing]
      exact fdputsLiteral_holding holding before standard (by decide)
    · by_cases faulted : rval = 256
      · simp only [if_neg missing, if_pos faulted]
        exact fdputsLiteral_holding holding before standard (by decide)
      · simp only [if_neg missing, if_neg faulted, if_pos (show rval ≠ 0 from quiet)]
        exact fdputsLiteral_holding holding before standard (by decide)

theorem execute_returns {n command : Nat} {text : List UInt8} (string : StringAt process.memory command text)
    (enough : text.length < fuel) :
    Returns P (fun answer => answer.2.1 = text ∧ answer.2.2.fds = process.fds ∧
        answer.2.2.memory = process.memory ∧ answer.2.2.printed = process.printed ∧
        ∃ called : CString, called.chars = text ∧ answer.1 = (outside.runs n called (process.meets world)).1 ∧
          answer.2.2.shared = (outside.runs n called (process.meets world)).2)
      (ece391Execute world outside fuel n command process) := by
  unfold ece391Execute
  rw [stringArgument_of_stringAt string enough]
  exact returns_pure ⟨rfl, rfl, rfl, rfl, _, rfl, rfl, rfl⟩

/-- The count of a line without its newline. -/
theorem trimmed_returns {memory : Memory} {line : List UInt8} (short : line.length ≤ 128)
    (stands : ∀ i (inside : i < line.length), memory (buf + i) = (line)[i])
    (readable : ∀ address, Within buf 1024 address → P address) :
    Returns P (fun cnt => cnt = ((withoutNewline line).length : Int)) (trimmed buf line.length memory) := by
  unfold trimmed withoutNewline
  rcases List.eq_nil_or_concat line with rfl | ⟨before, last, rfl⟩
  · exact returns_pure rfl
  · rw [List.length_concat] at short
    have some' : ((before.concat last).length : Int) > 0 := by rw [List.length_concat]; omega
    have place : (((before.concat last).length : Int) - 1).toNat = before.length := by rw [List.length_concat]; omega
    have final : memory (buf + before.length) = last := by
      rw [stands before.length (by rw [List.length_concat]; omega)]
      simp
    rw [if_pos some', place]
    refine returns_access_bind (readable _ (within_add buf (by omega))) (returns_pure ?_)
    rw [final]
    by_cases newline : last = 10
    · simp [newline]
    · simp [newline]

theorem withoutNewline_front (line : List UInt8) : withoutNewline line <+: line := by
  unfold withoutNewline
  split
  · exact List.dropLast_prefix line
  · exact List.prefix_rfl

theorem Traces.concat {rounds : List Round} {round : Round} {session next : Session}
    (traces : Traces buf start rounds session) (right : round.Right)
    (typed : next.typed = session.typed ++ [round.line]) (ran : next.ran = session.ran ++ round.executed.toList)
    (printed : next.process.printed = session.process.printed ++ round.text)
    (standard : StandardOpen next.process.fds)
    (memory : ∀ address, ¬ Within buf 1024 address → next.process.memory address = session.process.memory address) :
    Traces buf start (rounds ++ [round]) next where
  right other member := by
    rcases List.mem_append.mp member with early | last
    · exact traces.right other early
    · exact List.mem_singleton.mp last ▸ right
  typed := by rw [typed, traces.typed, List.map_append, List.map_singleton]
  ran := by
    have last : [round].filterMap Round.executed = round.executed.toList := by
      cases executed : round.executed <;> simp [executed]
    rw [ran, traces.ran, List.filterMap_append, last]
  printed := by rw [printed, traces.printed, List.flatMap_append, List.flatMap_singleton, List.append_assoc]
  standard := standard
  memory address away := (memory address away).trans (traces.memory address away)

/-- One round adds what it has read, and what it has executed unless that was nothing or the end. -/
theorem promptRound_returns {rounds : List Round} {session : Session} (holding : Holding world outside At)
    (kept : outside.Standard)
    (literal : StringAt start.memory exitText exitCommand)
    (away : ∀ address, Within exitText (exitCommand.length + 1) address → ¬ Within buf 1024 address)
    (enough : 129 < fuel)
    (readable : ∀ address, Within buf 1024 address ∨ Within exitText (exitCommand.length + 1) address → P address)
    (traces : Traces buf start rounds session) (before : At (actsOf rounds) session.process.shared)
    (going : session.returned = none) :
    Returns P (fun next => ∃ round, Traces buf start (rounds ++ [round]) next ∧
        At (actsOf (rounds ++ [round])) next.process.shared ∧
        ((next.returned = none ∧ commandOf round.line ≠ exitCommand) ∨
          (next.returned = some 0 ∧ commandOf round.line = exitCommand)))
      (promptRound image world outside fuel buf exitText session) := by
  refine (fdputsLiteral_holding holding before traces.standard (by decide)).bind ?_
  rintro asked ⟨prompted, before⟩
  have standard : StandardOpen asked.fds := prompted.fds ▸ traces.standard
  have read : At (actsOf rounds ++ [.writes (ascii "391OS> ".toList)] ++
      [.reads (asked.awaited world outside session.typed.length)])
      (outside.waits session.typed.length (asked.entered world)).taken := by
    have count : (linesRead (actsOf rounds ++ [.writes (ascii "391OS> ".toList)])).length = session.typed.length := by
      rw [linesRead_append, linesRead_actsOf, traces.typed]
      exact congrArg List.length (List.append_nil _)
    have step := holding.reads before asked.calls asked.fds
    rw [count] at step
    rw [Process.awaited, waited_eq standard]
    exact step
  refine (readWaiting_returns kept standard).bind ?_
  have short : (asked.awaited world outside session.typed.length).length ≤ 128 := length_awaited _ _
  generalize asked.awaited world outside session.typed.length = line at short read ⊢
  rintro ⟨cnt, after⟩ ⟨rfl, printed, standard, stored, shared⟩
  rw [← shared, List.append_assoc] at read
  have notFailed : ¬ (line.length : Int) = -1 := by omega
  have stands : ∀ i (inside : i < line.length), after.memory (buf + i) = (line)[i] := by
    intro i inside
    rw [stored, written_inside _ (by rw [List.length_append]; omega), List.getElem_append_left inside]
  simp only [if_neg notFailed]
  refine (trimmed_returns short stands fun address inside => readable address (Or.inl inside)).bind ?_
  rintro _ rfl
  have trimmedShort := (withoutNewline_front line).length_le
  refine returns_access_bind (readable _ (Or.inl (within_add buf (by omega)))) ?_
  rw [Int.toNat_natCast]
  generalize memoryIs : update after.memory (buf + (withoutNewline line).length) 0 = memory
  have string : StringAt memory buf (commandOf line) := by
    refine stringAt_takeWhile (fun i inside => ?_) ?_
    · rw [← memoryIs, update_of_ne (by omega), stands i (by omega)]
      exact ((withoutNewline_front line).getElem inside).symm
    · rw [← memoryIs, update_self]
  have commandShort : (commandOf line).length ≤ 128 :=
    (List.takeWhile_prefix _).length_le.trans (trimmedShort.trans short)
  have outside' : ∀ address, ¬ Within buf 1024 address → memory address = session.process.memory address := by
    intro address apart
    rw [← memoryIs, update_of_ne ?_, stored, written_outside, prompted.memory]
    · intro within
      rw [List.length_append, List.length_replicate] at within
      exact apart ⟨within.1, by have := within.2; omega⟩
    · rintro rfl
      exact apart (within_add buf (by omega))
  have literal' : StringAt memory exitText exitCommand := literal.congr fun address inside =>
    (outside' address (away address inside)).trans (traces.memory address (away address inside))
  have prompt : after.printed = session.process.printed ++ ascii "391OS> ".toList := printed.trans prompted.printed
  refine (strcmp_returns string literal' (by omega) fun address inside => readable address ?_).bind ?_
  · refine inside.imp_left fun within => ⟨within.1, ?_⟩
    have last := within.2
    omega
  rintro order same
  by_cases exits : commandOf line = exitCommand
  · simp only [if_pos (same.mpr exits)]
    refine returns_pure ⟨⟨line, none⟩, ?_, actsOf_concat rounds _ ▸ read, Or.inr ⟨rfl, exits⟩⟩
    exact traces.concat (iff_of_true rfl (Or.inr exits)) rfl (List.append_nil _).symm
      (prompt.trans (by rw [Round.text, Option.map_none, Option.getD_none, List.append_nil])) standard outside'
  · simp only [if_neg (fun zero => exits (same.mp zero))]
    refine returns_access_bind (readable buf (Or.inl ⟨Nat.le_refl _, by omega⟩)) ?_
    by_cases nothing : commandOf line = []
    · have zero : memory buf = 0 := by
        have nul := string.nul
        rwa [nothing] at nul
      simp only [if_pos zero]
      refine returns_pure ⟨⟨line, none⟩, ?_, actsOf_concat rounds _ ▸ read, Or.inl ⟨going, exits⟩⟩
      exact traces.concat (iff_of_true rfl (Or.inl nothing)) rfl (List.append_nil _).symm
        (prompt.trans (by rw [Round.text, Option.map_none, Option.getD_none, List.append_nil])) standard outside'
    · have notZero : memory buf ≠ 0 := string.ne_zero (List.length_pos_iff.mpr nothing)
      simp only [if_neg notZero]
      refine (execute_returns string (by omega)).bind ?_
      rintro ⟨rval, command, ended⟩ ⟨rfl, fds, memoryKept, printedKept, called, named, status, shared⟩
      have last : (linesRead (actsOf rounds ++ ([.writes (ascii "391OS> ".toList)] ++ [.reads line]))).getLast? =
          some line := by
        rw [linesRead_append]
        exact List.getLast?_concat
      have ran := holding.runs read line last after.calls session.ran.length called named (named ▸ nothing)
        (named ▸ exits)
      have ran : At (actsOf rounds ++ ([.writes (ascii "391OS> ".toList)] ++ [.reads line]) ++
          [.runs (commandOf line) rval]) ended.shared := by
        have same : rval = (outside.runs session.ran.length called (world.change after.calls after.shared)).1 := status
        have left : ended.shared = (outside.runs session.ran.length called
          (world.change after.calls after.shared)).2 := shared
        rw [same, left, ← named]
        exact ran
      refine (complain_returns holding ran (fds ▸ standard) rval).bind ?_
      rintro last ⟨complained, said⟩
      have all : At (actsOf (rounds ++ [⟨line, some rval⟩])) last.shared := by
        rw [actsOf_concat, Round.acts, Option.map_some, Option.getD_some]
        simpa only [List.append_assoc, List.singleton_append] using said
      refine returns_pure ⟨⟨line, some rval⟩, ?_, all, Or.inl ⟨going, exits⟩⟩
      refine traces.concat (iff_of_false nofun (not_or.mpr ⟨nothing, exits⟩)) rfl rfl ?_ ?_ fun address apart => ?_
      · rw [Round.text, Option.map_some, Option.getD_some, ← List.append_assoc, ← prompt]
        exact complained.printed.trans (congrArg (· ++ message rval) printedKept)
      · exact (complained.fds.trans fds) ▸ standard
      · exact (congrFun (complained.memory.trans memoryKept) address).trans (outside' address apart)

theorem promptRounds_returns {rounds : List Round} {session : Session} (n : Nat) (holding : Holding world outside At)
    (kept : outside.Standard)
    (literal : StringAt start.memory exitText exitCommand)
    (away : ∀ address, Within exitText (exitCommand.length + 1) address → ¬ Within buf 1024 address)
    (enough : 129 < fuel)
    (readable : ∀ address, Within buf 1024 address ∨ Within exitText (exitCommand.length + 1) address → P address)
    (traces : Traces buf start rounds session) (before : At (actsOf rounds) session.process.shared)
    (going : session.returned = none) :
    Returns P (fun next => ∃ further, Traces buf start (rounds ++ further) next ∧
        At (actsOf (rounds ++ further)) next.process.shared ∧ Outcome n further next.returned)
      (promptRounds image world outside fuel buf exitText n session) := by
  induction n generalizing rounds session with
  | zero =>
      rw [← List.append_nil rounds] at traces before
      exact returns_pure ⟨[], traces, before, Or.inl ⟨going, rfl, nofun⟩⟩
  | succ n ih =>
      rw [promptRounds, going]
      refine (promptRound_returns holding kept literal away enough readable traces before going).bind ?_
      rintro next ⟨round, extended, after, ⟨going, other⟩ | ⟨returned, exits⟩⟩
      · refine (ih extended after going).imp ?_
        rintro final ⟨further, traces, held, outcome⟩
        rw [List.append_assoc] at traces held
        refine ⟨round :: further, traces, held, ?_⟩
        rcases outcome with ⟨going, count, others⟩ | ⟨returned, count, earlier, last, rfl, exits, others⟩
        · exact Or.inl ⟨going, congrArg Nat.succ count, List.forall_mem_cons.mpr ⟨other, others⟩⟩
        · exact Or.inr ⟨returned, Nat.succ_le_succ count, round :: earlier, last, rfl, exits,
            List.forall_mem_cons.mpr ⟨other, others⟩⟩
      · have stops : promptRounds image world outside fuel buf exitText n next = pure next := by
          cases n with
          | zero => rfl
          | succ n => rw [promptRounds, returned]; rfl
        rw [stops]
        exact returns_pure ⟨[round], extended, after,
          Or.inr ⟨returned, Nat.succ_le_succ (Nat.zero_le n), [], round, rfl, exits, nofun⟩⟩

/-- What has been executed are the commands of the lines, but for those that are empty or `exit`. -/
theorem Traces.commands {rounds : List Round} {session : Session} (traces : Traces buf start rounds session) :
    session.ran.map Prod.fst =
      (session.typed.map commandOf).filter fun command => command ≠ [] ∧ command ≠ exitCommand := by
  rw [traces.ran, traces.typed]
  have right := traces.right
  clear traces
  induction rounds with
  | nil => rfl
  | cons round rest ih =>
      obtain ⟨here, others⟩ := List.forall_mem_cons.mp right
      rw [List.map_cons, List.map_cons, List.filterMap_cons]
      cases status : round.status with
      | none =>
          have passed := here.mp status
          have skipped : ¬ (commandOf round.line ≠ [] ∧ commandOf round.line ≠ exitCommand) :=
            fun both => passed.elim both.1 both.2
          rw [List.filter_cons_of_neg (by simpa using skipped), Round.executed, status]
          exact ih others
      | some value =>
          have taken : commandOf round.line ≠ [] ∧ commandOf round.line ≠ exitCommand :=
            not_or.mp fun passed => by cases status.symm.trans (here.mpr passed)
          rw [List.filter_cons_of_pos (by simpa using taken), Round.executed, status]
          exact congrArg (commandOf round.line :: ·) (ih others)

theorem shellMain_traces (n : Nat) (holding : Holding world outside At) (before : At [] start.shared)
    (kept : outside.Standard) (standard : StandardOpen start.fds)
    (literal : StringAt start.memory exitText exitCommand)
    (away : ∀ address, Within exitText (exitCommand.length + 1) address → ¬ Within buf 1024 address)
    (enough : 129 < fuel) :
    Returns (fun address => Within buf 1024 address ∨ Within exitText (exitCommand.length + 1) address)
      (fun session => ∃ rounds, Traces buf start.greeted rounds session ∧
        At (actsOf rounds) session.process.shared ∧ Outcome n rounds session.returned)
      (shellMain image world outside fuel buf exitText n start) := by
  refine (fdputsLiteral_holding holding before standard (by decide)).bind ?_
  rintro greeted ⟨prints, before⟩
  have traces : Traces buf start.greeted [] ⟨greeted, [], [], none⟩ :=
    ⟨nofun, rfl, rfl, prints.printed.trans (List.append_nil _).symm, prints.fds ▸ standard,
      fun address _ => congrFun prints.memory address⟩
  have literal' : StringAt start.greeted.memory exitText exitCommand := literal
  exact promptRounds_returns n holding kept literal' away enough (fun _ inside => inside) traces before rfl

/-- Whatever is typed and whatever the programs do: the shell executes the commands of the lines, each once and in
order, except for empty ones, up to the first `exit`, at which it returns 0; it prints its prompt for every line and
what the status of a command calls for; and it accesses nothing but its buffer and the text it compares with. -/
theorem shell_runs_what_is_typed (n : Nat) (kept : outside.Standard) (standard : StandardOpen start.fds)
    (literal : StringAt start.memory exitText exitCommand)
    (away : ∀ address, Within exitText (exitCommand.length + 1) address → ¬ Within buf 1024 address)
    (enough : 129 < fuel) :
    Returns (fun address => Within buf 1024 address ∨ Within exitText (exitCommand.length + 1) address)
      (fun session => ∃ rounds, Traces buf start.greeted rounds session ∧ Outcome n rounds session.returned ∧
        session.ran.map Prod.fst =
          (session.typed.map commandOf).filter fun command => command ≠ [] ∧ command ≠ exitCommand)
      (shellMain image world outside fuel buf exitText n start) := by
  refine (shellMain_traces n (holding_true world outside) trivial kept standard literal away enough).imp ?_
  rintro session ⟨rounds, traces, -, outcome⟩
  exact ⟨rounds, traces, outcome, traces.commands⟩

end

/-- Somebody types the same text at every prompt. -/
def Outside.always (text : String) : Outside where
  waits _ shared := { shared with
    console := (ascii text.toList).foldl (fun console byte => console.typeByte 128 byte) Console.loaded }
  runs _ _ shared := (0, shared)

/-- The shell, with the text `exit` at address 2000. -/
def Process.startedShell : Process :=
  { Process.started "shell" with memory := written (fun _ => 0) 2000 exitCommand }

theorem shell_runs_what_is_typed_exit :
    Returns (fun address => Within 0 1024 address ∨ Within 2000 (exitCommand.length + 1) address)
      (fun session => ∃ rounds, Traces 0 Process.startedShell.greeted rounds session ∧
        Outcome 3 rounds session.returned ∧
        session.ran.map Prod.fst =
          (session.typed.map commandOf).filter fun command => command ≠ [] ∧ command ≠ exitCommand)
      (shellMain Image.sample World.quiet (Outside.always "exit\n") 130 0 2000 3 Process.startedShell) := by
  have literal : StringAt Process.startedShell.memory 2000 exitCommand :=
    ⟨fun i inside => written_inside (fun _ => 0) inside, by decide, by decide⟩
  refine shell_runs_what_is_typed 3 (fun _ _ standard => standard) (initFds_standardOpen _) literal ?_ (by decide)
  rintro address ⟨low, _⟩ ⟨_, high⟩
  omega

end LinuxLikeOS.Programs

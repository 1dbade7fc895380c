import LinuxLikeOS.Kernel
import Mathlib.Data.List.TakeWhile

/-!
# The command line (`execute`, `getargs`)

`execute` takes the first word of a command with two loops, `getargs` finds what follows it with
two flags. Here both are written down loop by loop, with the bytes they store in `cur_file[32]`,
`arg_buff[128]`, `command_buffer[128]` and `args[128]`, and compared with the words of the command.
-/

namespace LinuxLikeOS

namespace CommandLine

open Kernel

/-! ## The loops -/

/-- `strcpy`, from index `i` on. -/
def strcpyFrom (i : Nat) (dest : Writes) : List UInt8 → Writes
  | [] => dest.andThen (.put i 0)
  | c :: rest => strcpyFrom (i + 1) (dest.andThen (.put i c)) rest

/-- The first loop of `execute`; what is left of the command. -/
def skipSpaces : List UInt8 → List UInt8
  | [] => []
  | c :: rest => if c = 32 then skipSpaces rest else c :: rest

/-- The bytes stored in `cur_file`, and `j`; none of it where the loop returns 0. -/
structure Name where
  curFile : Writes
  j : Option Nat

/-- The second loop of `execute`. -/
def readName (j : Nat) (curFile : Writes) : List UInt8 → Name
  | [] => ⟨curFile, some j⟩
  | c :: rest =>
      if c = 32 then ⟨curFile, some j⟩
      else if j ≥ 32 then ⟨curFile, none⟩
      else readName (j + 1) (curFile.andThen (.put j c)) rest

/-- Both loops, and the NUL. -/
def parse (command : List UInt8) : Name :=
  let read := readName 0 .nothing (skipSpaces command)
  match read.j with
  | none => read
  | some j => { read with curFile := read.curFile.andThen (.put j 0) }

/-- `arg_buff`, cleared and written by `execute`. -/
def argBuff (command : List UInt8) : Writes := strcpyFrom 0 (.fill 128 0) command

/-- `command_buffer` of `getargs`. -/
def commandBuffer (argBuff : List UInt8) : Writes := strcpyFrom 0 .nothing argBuff

/-- The first loop of `getargs`; what is left of the command. -/
def findArgs (flag1 flag2 : Bool) : List UInt8 → List UInt8
  | [] => []
  | c :: rest =>
      let flag1 := if c ≠ 32 then true else flag1
      let flag2 := if c = 32 ∧ flag1 then true else flag2
      if c ≠ 32 ∧ flag2 then c :: rest else findArgs flag1 flag2 rest

/-- The second loop of `getargs`; `i` is `i - arg_offset`. -/
def copyArgs (i : Nat) (args : Writes) : List UInt8 → Writes
  | [] => args
  | c :: rest => copyArgs (i + 1) (args.andThen (.put i c)) rest

/-- `args` of `getargs`. -/
def args (command : List UInt8) : Writes := copyArgs 0 (.fill 128 0) (findArgs false false command)

/-! ## What they store -/

theorem strcpyFrom_eq (i : Nat) (dest : Writes) (src : List UInt8) :
    strcpyFrom i dest src = dest.andThen (.bytes i (src ++ [0])) := by
  induction src generalizing i dest with
  | nil => rw [strcpyFrom, Writes.put_eq_bytes, List.nil_append]
  | cons c rest ih => rw [strcpyFrom, ih, Writes.andThen_assoc, Writes.put_bytes, List.cons_append]

theorem copyArgs_eq (i : Nat) (dest : Writes) (text : List UInt8) :
    copyArgs i dest text = dest.andThen (.bytes i text) := by
  induction text generalizing i dest with
  | nil => rw [copyArgs, Writes.andThen_bytes_nil]
  | cons c rest ih => rw [copyArgs, ih, Writes.andThen_assoc, Writes.put_bytes]

theorem skipSpaces_eq (command : List UInt8) : skipSpaces command = command.dropWhile (· == 32) := by
  induction command with
  | nil => rfl
  | cons c rest ih =>
      by_cases space : c = 32
      · rw [skipSpaces, if_pos space, ih]
        simp [space]
      · rw [skipSpaces, if_neg space]
        simp [space]

/-- The first word of a command. -/
def nameOf (command : List UInt8) : List UInt8 := (command.dropWhile (· == 32)).takeWhile (· != 32)

/-- What follows it. -/
def restOf (command : List UInt8) : List UInt8 := (command.dropWhile (· == 32)).dropWhile (· != 32)

theorem readName_eq {j : Nat} (inside : j ≤ 32) (curFile : Writes) (text : List UInt8) :
    readName j curFile text =
      ⟨curFile.andThen (.bytes j ((text.takeWhile (· != 32)).take (32 - j))),
        if j + (text.takeWhile (· != 32)).length ≤ 32 then some (j + (text.takeWhile (· != 32)).length)
        else none⟩ := by
  induction text generalizing j curFile with
  | nil => simp [readName, Writes.andThen_bytes_nil, inside]
  | cons c rest ih =>
      by_cases space : c = 32
      · have none : (c :: rest).takeWhile (· != 32) = [] := by simp [space]
        rw [readName, if_pos space, none, List.take_nil, Writes.andThen_bytes_nil]
        simp [inside]
      · have word : (c :: rest).takeWhile (· != 32) = c :: rest.takeWhile (· != 32) := by simp [space]
        rw [readName, if_neg space, word]
        by_cases full : j ≥ 32
        · obtain rfl : j = 32 := Nat.le_antisymm inside full
          simp [Writes.andThen_bytes_nil]
        · have room : 32 - j = 32 - (j + 1) + 1 := by omega
          have count : j + (c :: rest.takeWhile (· != 32)).length =
              j + 1 + (rest.takeWhile (· != 32)).length := by
            simp only [List.length_cons]
            omega
          rw [if_neg full, ih (by omega), Writes.andThen_assoc, Writes.put_bytes, room, List.take_succ_cons,
            count]

/-- `cur_file` gets the first word and a NUL, or 32 bytes of a longer word. -/
theorem parse_eq (command : List UInt8) :
    parse command =
      if (nameOf command).length ≤ 32 then ⟨.bytes 0 (nameOf command ++ [0]), some (nameOf command).length⟩
      else ⟨.bytes 0 ((nameOf command).take 32), none⟩ := by
  have read : readName 0 .nothing (skipSpaces command) = ⟨.bytes 0 ((nameOf command).take 32),
      if (nameOf command).length ≤ 32 then some (nameOf command).length else none⟩ := by
    have all := readName_eq (Nat.zero_le 32) .nothing (skipSpaces command)
    rw [skipSpaces_eq, Nat.zero_add, Writes.nothing_andThen] at all
    rw [skipSpaces_eq]
    exact all
  unfold parse
  rw [read]
  by_cases short : (nameOf command).length ≤ 32
  · have appended := Writes.bytes_append 0 (nameOf command) [0]
    rw [Nat.zero_add, ← Writes.put_eq_bytes] at appended
    simp only [if_pos short, List.take_of_length_le short, appended]
  · simp only [if_neg short]

/-- With the flags set, set in part, or not yet. -/
theorem findArgs_eq (text : List UInt8) :
    findArgs true true text = text.dropWhile (· == 32) ∧
    findArgs true false text = (text.dropWhile (· != 32)).dropWhile (· == 32) ∧
    findArgs false false text = (restOf text).dropWhile (· == 32) := by
  induction text with
  | nil => exact ⟨rfl, rfl, rfl⟩
  | cons c rest ih =>
      obtain ⟨after, within, before⟩ := ih
      by_cases space : c = 32
      · simp [findArgs, restOf, space, after, before]
      · simp [findArgs, restOf, space, within]

/-- Both scanners split alike: `getargs` finds the rest behind the word that `execute` takes. -/
theorem findArgs_eq_arguments (command : List UInt8) :
    findArgs false false command = (restOf command).dropWhile (· == 32) ∧
      findArgs false false command = arguments command :=
  ⟨(findArgs_eq command).2.2, (findArgs_eq command).2.2⟩

/-- The name that the model of `execute` looks up. -/
theorem curFile_eq (command : CString) (before : UInt8) :
    (curFile command before).map CString.chars =
      (parse command.chars).j.map fun _ => nameOf command.chars := by
  rw [parse_eq]
  unfold curFile
  change Option.map CString.chars (if (nameOf command.chars).length > 32 then none else some _) = _
  by_cases short : (nameOf command.chars).length ≤ 32
  · rw [if_pos short, if_neg (Nat.not_lt_of_le short)]
    rfl
  · rw [if_neg short, if_pos (Nat.lt_of_not_le short)]
    rfl

/-! ## The parts of a command -/

/-- The command is spaces, a name without spaces, and a rest that begins with a space. -/
structure Parts (command name rest : List UInt8) : Prop where
  whole : ∃ spaces, command = List.replicate spaces 32 ++ (name ++ rest)
  plain : 32 ∉ name
  apart : rest = [] ∨ ∃ more, rest = 32 :: more
  nothing : name = [] → rest = []

theorem parts_of (command : List UInt8) : Parts command (nameOf command) (restOf command) := by
  have space : ∀ c ∈ command.takeWhile (· == 32), c = 32 := fun c member =>
    beq_iff_eq.mp (List.mem_takeWhile_imp (p := (· == 32)) member)
  refine ⟨⟨(command.takeWhile (· == 32)).length, ?_⟩, ?_, ?_, ?_⟩
  · rw [← List.eq_replicate_of_mem space, nameOf, restOf, List.takeWhile_append_dropWhile,
      List.takeWhile_append_dropWhile]
  · intro member
    have other := List.mem_takeWhile_imp (p := (· != 32)) member
    simp at other
  · cases after : restOf command with
    | nil => exact Or.inl rfl
    | cons c more =>
        have head : (restOf command).head? = some c := by rw [after]; rfl
        have stopped := List.head?_dropWhile_not (· != 32) (command.dropWhile (· == 32))
        rw [← restOf, head] at stopped
        exact Or.inr ⟨more, by simpa using stopped⟩
  · intro none
    have stopped := List.head?_dropWhile_not (· == 32) command
    unfold nameOf at none
    unfold restOf
    cases found : command.dropWhile (· == 32) with
    | nil => rfl
    | cons c more =>
        rw [found] at stopped none
        have other : c ≠ 32 := by simpa using stopped
        simp [other] at none

/-- There is only one way to write a command so. -/
theorem Parts.unique {command name rest : List UInt8} (parts : Parts command name rest) :
    name = nameOf command ∧ rest = restOf command := by
  obtain ⟨spaces, whole⟩ := parts.whole
  have skipped : command.dropWhile (· == 32) = name ++ rest := by
    rw [whole, List.dropWhile_append_of_pos (by simp)]
    cases name with
    | nil => rw [parts.nothing rfl]; rfl
    | cons c more =>
        have other : c ≠ 32 := fun same => parts.plain (same ▸ List.mem_cons_self)
        simp [other]
  have plain : ∀ c ∈ name, (c != 32) = true := by
    intro c member
    have other : c ≠ 32 := fun same => parts.plain (same ▸ member)
    simpa using other
  rw [nameOf, restOf, skipped, List.takeWhile_append_of_pos plain, List.dropWhile_append_of_pos plain]
  rcases parts.apart with none | ⟨more, space⟩
  · simp [none]
  · simp [space]

/-! ## Splitting a command -/

/-- The memory holds the text and a NUL. -/
def IsString (memory : Memory) (text : List UInt8) : Prop :=
  0 ∉ text ∧ ∀ i ≤ text.length, memory i = text.getD i 0

theorem isString_stored {text : List UInt8} (noNul : 0 ∉ text) (before : Writes) (memory : Memory) :
    IsString ((before.andThen (.bytes 0 (text ++ [0]))).apply memory) text := by
  refine ⟨noNul, fun i inside => ?_⟩
  have stored : (text ++ [0])[i]? = some (text.getD i 0) := by
    rcases Nat.lt_or_eq_of_le inside with less | rfl
    · rw [List.getElem?_append_left less, List.getD_eq_getElem?_getD, List.getElem?_eq_getElem less]
      rfl
    · simp
  simp [Writes.apply, Writes.andThen, Writes.bytes, stored]

theorem isString_cleared {text : List UInt8} (noNul : 0 ∉ text) (room : text.length < 128) (memory : Memory) :
    IsString (((Writes.fill 128 0).andThen (.bytes 0 text)).apply memory) text := by
  refine ⟨noNul, fun i inside => ?_⟩
  rcases Nat.lt_or_eq_of_le inside with less | rfl
  · simp [Writes.apply, Writes.andThen, Writes.bytes, less]
  · simp [Writes.apply, Writes.andThen, Writes.bytes, Writes.fill, room]

section

variable (image : Image) (locals : Locals) (kernel : Kernel) (command : CString)

/-- A name of 1 to 32 bytes, in a command that fits into 128 bytes with its NUL. -/
def Proper (name : List UInt8) : Prop :=
  1 ≤ name.length ∧ name.length ≤ 32 ∧ command.chars.length + 1 ≤ 128

/-- The checks pass and there is a slot: `execute` goes on to `arg_buff`. -/
def GoesOn : Prop :=
  ∃ eip loaded slot, check image command locals kernel.newPid = .passed eip loaded ∧
    freeSlot kernel.progs = some slot

/-- Too many processes, too long a command, no such file, no executable, or no slot. -/
def Refuses (name : CString) : Prop :=
  kernel.newPid ≥ 5 ∨ command.chars.length > 128 ∨
    match image.readDentryByName name locals.dentry with
    | .failed => True
    | .overrun => False
    | .found dentry => isElf (header image dentry.inodeNum locals.buf) = false ∨ freeSlot kernel.progs = none

/-- `execute` and `getargs` split the command into this name and rest, within their buffers. -/
structure SplitsRightly (frame : Frame) (name rest : List UInt8) : Prop where
  looksUp : Proper command name →
    (curFile command locals.before).map CString.chars = some name ∧
      ∀ memory, IsString ((parse command.chars).curFile.apply memory) name
  keeps : Proper command name →
    (∀ eip loaded after, execute image command frame locals kernel = some (.program eip loaded, after) →
      (after.pcb after.newPid).argBuff = command.chars) ∧
      ∀ memory, IsString ((argBuff command.chars).apply memory) command.chars
  extracts : Proper command name →
    arguments command.chars = rest.dropWhile (· == 32) ∧
      ∀ memory, IsString ((args command.chars).apply memory) (rest.dropWhile (· == 32))
  refuses : ¬ Proper command name →
    ∃ after, execute image command frame locals kernel = some (.returns (-1), after)
  nameInside : (parse command.chars).curFile.Within 32
  restInside : GoesOn image locals kernel command → (argBuff command.chars).Within 128 ∧
    (commandBuffer command.chars).Within 128 ∧ (args command.chars).Within 128

/-- The name has at most 31 bytes, and where there is none or the command does not fit, the further
checks of `execute` refuse it. -/
def WellFormed (name : CString) : Prop :=
  name.chars.length ≤ 31 ∧
    (name.chars = [] ∨ command.chars.length + 1 > 128 → Refuses image locals kernel command name)

end

section

variable {image : Image} {locals : Locals} {kernel : Kernel} {command : CString}

/-- What a refusal comes to: the checks reject the command, or they pass and there is no slot. -/
theorem refuses_iff_check {name : CString} (named : curFile command locals.before = some name) :
    Refuses image locals kernel command name ↔
      check image command locals kernel.newPid = .rejected (-1) ∨
        ((∃ eip loaded, check image command locals kernel.newPid = .passed eip loaded) ∧
          freeSlot kernel.progs = none) := by
  unfold check Refuses
  rw [named]
  simp only []
  by_cases early : kernel.newPid ≥ 5 ∨ command.chars.length > 128
  · rw [if_pos early]
    exact iff_of_true (early.imp_right Or.inl) (Or.inl rfl)
  · rw [if_neg early]
    obtain ⟨few, fits⟩ := not_or.mp early
    simp only [few, fits, false_or]
    cases found : image.readDentryByName name locals.dentry with
    | failed => simp
    | overrun => simp
    | found dentry =>
        cases elf : isElf (header image dentry.inodeNum locals.buf) with
        | false => simp [elf]
        | true => simp [elf]

/-- `execute` refuses a command whose name is short enough exactly where its checks do. -/
theorem execute_refuses_iff {name : CString} (named : curFile command locals.before = some name)
    (frame : Frame) :
    (∃ after, execute image command frame locals kernel = some (.returns (-1), after)) ↔
      Refuses image locals kernel command name := by
  rw [refuses_iff_check named]
  unfold execute
  cases checked : check image command locals kernel.newPid with
  | rejected ret => simp
  | overrun => simp
  | passed eip loaded =>
      cases free : freeSlot kernel.progs with
      | none => simp
      | some slot =>
          simp only []
          split
          · simp
          · simp

theorem Refuses.stops {name : CString} (named : curFile command locals.before = some name)
    (refuses : Refuses image locals kernel command name) : ¬ GoesOn image locals kernel command := by
  rintro ⟨eip, loaded, slot, passed, free⟩
  rcases (refuses_iff_check named).mp refuses with rejected | ⟨_, full⟩
  · rw [passed] at rejected
    cases rejected
  · rw [full] at free
    cases free

theorem argBuff_of_program {eip : Nat} {loaded : List UInt8} {frame : Frame} {after : Kernel}
    (started : execute image command frame locals kernel = some (.program eip loaded, after)) :
    (after.pcb after.newPid).argBuff = command.chars := by
  unfold execute at started
  split at started
  · cases started
  · cases started
  · split at started
    · cases started
    · split at started
      · cases started
      · obtain rfl := (Prod.mk.inj (Option.some.inj started)).2
        simp [start]

/-- The word that `execute` looks up, with the byte in front of `cur_file`. -/
theorem curFile_of_short {name : CString} (isName : name.chars = nameOf command.chars)
    (inFront : name.before = locals.before) (short : name.chars.length ≤ 32) :
    curFile command locals.before = some name := by
  obtain ⟨before, chars, noNul⟩ := name
  cases isName
  cases inFront
  exact if_neg (Nat.not_lt_of_le short)

theorem curFile_of_long (long : 32 < (nameOf command.chars).length) (before : UInt8) :
    curFile command before = none :=
  if_pos long

theorem proper_iff {name : List UInt8} (short : name.length ≤ 32) :
    Proper command name ↔ ¬ (name = [] ∨ command.chars.length + 1 > 128) := by
  unfold Proper
  rw [← List.length_eq_zero_iff]
  omega

/-- A name that leaves room for its NUL, in a command that `execute` refuses if it has to. -/
theorem splits_of_short {name : CString} {rest : List UInt8} (parts : Parts command.chars name.chars rest)
    (named : curFile command locals.before = some name) (short : name.chars.length ≤ 31)
    (refuses : ¬ Proper command name.chars → Refuses image locals kernel command name) (frame : Frame) :
    SplitsRightly image locals kernel command frame name.chars rest := by
  obtain ⟨isName, isRest⟩ := parts.unique
  have parsed : (parse command.chars).curFile = .bytes 0 (name.chars ++ [0]) := by
    rw [parse_eq, ← isName, if_pos (Nat.le_succ_of_le short)]
  have kept : argBuff command.chars = (Writes.fill 128 0).andThen (.bytes 0 (command.chars ++ [0])) :=
    strcpyFrom_eq 0 _ command.chars
  have buffered : commandBuffer command.chars = .bytes 0 (command.chars ++ [0]) := by
    rw [commandBuffer, strcpyFrom_eq, Writes.nothing_andThen]
  have found := (findArgs_eq_arguments command.chars).1
  rw [← isRest] at found
  have copied : args command.chars = (Writes.fill 128 0).andThen (.bytes 0 (rest.dropWhile (· == 32))) := by
    rw [args, copyArgs_eq, found]
  have within : (rest.dropWhile (· == 32)).Sublist command.chars := by
    rw [isRest]
    exact ((List.dropWhile_sublist _).trans (List.dropWhile_sublist _)).trans (List.dropWhile_sublist _)
  constructor
  case looksUp =>
    intro _
    refine ⟨by rw [named]; rfl, fun memory => ?_⟩
    have stored := isString_stored name.noNul .nothing memory
    rwa [Writes.nothing_andThen, ← parsed] at stored
  case keeps =>
    intro _
    refine ⟨fun _ _ _ started => argBuff_of_program started, fun memory => ?_⟩
    rw [kept]
    exact isString_stored command.noNul _ memory
  case extracts =>
    rintro ⟨_, _, room⟩
    refine ⟨(findArgs_eq_arguments command.chars).2.symm.trans found, fun memory => ?_⟩
    rw [copied]
    have bounded := within.length_le
    exact isString_cleared (fun member => command.noNul (within.subset member)) (by omega) memory
  case refuses => exact fun improper => (execute_refuses_iff named frame).mpr (refuses improper)
  case nameInside =>
    rw [parsed, Writes.within_bytes, List.length_append, List.length_singleton]
    omega
  case restInside =>
    intro goesOn
    have proper : Proper command name.chars := by
      by_contra improper
      exact (refuses improper).stops named goesOn
    have room := proper.2.2
    have bounded := within.length_le
    rw [kept, buffered, copied]
    simp only [Writes.within_andThen, Writes.within_fill, Writes.within_bytes, List.length_append,
      List.length_singleton]
    omega

/-- The command is split as it should be exactly when its name is shorter than `cur_file` and the
checks refuse what has no name or does not fit. -/
theorem splits_rightly_iff {name : CString} {rest : List UInt8} (parts : Parts command.chars name.chars rest)
    (inFront : name.before = locals.before) (frame : Frame) :
    SplitsRightly image locals kernel command frame name.chars rest ↔
      WellFormed image locals kernel command name := by
  have isName := parts.unique.1
  by_cases fits : name.chars.length ≤ 32
  · have named := curFile_of_short isName inFront fits
    have proper : Proper command name.chars ↔ ¬ (name.chars = [] ∨ command.chars.length + 1 > 128) :=
      proper_iff fits
    constructor
    · intro rightly
      have inside := rightly.nameInside
      rw [parse_eq, ← isName, if_pos fits, Writes.within_bytes, List.length_append,
        List.length_singleton] at inside
      refine ⟨by omega, fun improper => (execute_refuses_iff named frame).mp (rightly.refuses ?_)⟩
      exact fun good => proper.mp good improper
    · rintro ⟨short, refuses⟩
      apply splits_of_short parts named short _ frame
      exact fun improper => refuses (not_not.mp (mt proper.mpr improper))
  · -- the loop returns 0 where -1 is due
    refine iff_of_false (fun rightly => ?_) (fun wellFormed => fits (Nat.le_succ_of_le wellFormed.1))
    obtain ⟨after, refused⟩ := rightly.refuses fun good => fits good.2.1
    have long := curFile_of_long (isName ▸ Nat.lt_of_not_le fits) locals.before
    unfold execute check at refused
    rw [long] at refused
    cases refused

end

/-- " shell -l". -/
def shellWithArgument : CString := ⟨0, [32, 115, 104, 101, 108, 108, 32, 45, 108], by decide⟩

theorem splits_rightly_sample :
    SplitsRightly Image.sample .zeros booted shellWithArgument ⟨0, 0⟩ [115, 104, 101, 108, 108]
      [32, 45, 108] := by
  have parts : Parts shellWithArgument.chars Image.shell.chars [32, 45, 108] :=
    ⟨⟨1, rfl⟩, by decide, Or.inr ⟨_, rfl⟩, nofun⟩
  have wellFormed : WellFormed Image.sample .zeros booted shellWithArgument Image.shell :=
    ⟨by decide, fun improper => absurd improper (by decide)⟩
  exact (splits_rightly_iff parts rfl ⟨0, 0⟩).mpr wellFormed

/-- A command of one name. -/
def letters (n : Nat) : CString :=
  ⟨0, List.replicate n 97, fun member => by cases List.eq_of_mem_replicate member⟩

/-- "shell" with spaces up to 128 bytes. -/
def paddedShell : CString := ⟨0, [115, 104, 101, 108, 108] ++ List.replicate 123 32, by decide⟩

/-- A name of 33 bytes makes `execute` return 0; the NUL of a name of 32 bytes is stored behind
`cur_file`, that of a command of 128 bytes behind `arg_buff`. -/
theorem longNames_overflow :
    (∃ after, execute Image.sample (letters 33) ⟨0, 0⟩ .zeros booted = some (.returns 0, after)) ∧
    ¬ SplitsRightly Image.sample .zeros booted (letters 33) ⟨0, 0⟩ (List.replicate 33 97) [] ∧
    (parse (letters 32).chars).curFile 32 = some 0 ∧
    GoesOn Image.sample .zeros booted paddedShell ∧ argBuff paddedShell.chars 128 = some 0 := by
  have returned : execute Image.sample (letters 33) ⟨0, 0⟩ .zeros booted =
      some (.returns 0, booted.begin) := rfl
  refine ⟨⟨_, returned⟩, fun rightly => ?_, by decide, ?_, by decide⟩
  · obtain ⟨after, refused⟩ := rightly.refuses fun good => absurd good.2.1 (by decide)
    rw [returned] at refused
    cases refused
  · have evaluated : (match check Image.sample paddedShell .zeros booted.newPid with
        | .passed _ _ => true
        | _ => false) = true := by decide +kernel
    cases passed : check Image.sample paddedShell .zeros booted.newPid with
    | rejected ret =>
        rw [passed] at evaluated
        cases evaluated
    | overrun =>
        rw [passed] at evaluated
        cases evaluated
    | passed eip loaded => exact ⟨eip, loaded, 0, passed, rfl⟩

end CommandLine

end LinuxLikeOS

import LinuxLikeOS.Loading

/-!
# Which files are started

`execute` tests the first bytes of a local buffer that a short file fills in part only. What decides
is the file; what the buffer held before decides as well when the file has less than four bytes, and
the entry point of a file of less than 28 bytes is not in the file.
-/

namespace LinuxLikeOS

namespace Executables

open Kernel Loading

def magic : List UInt8 := [0x7F, 0x45, 0x4C, 0x46]

/-- It begins with the magic number and has the four bytes of the entry point. -/
def Executable (data : List UInt8) : Prop := data.take 4 = magic ∧ 28 ≤ data.length

/-- `buf`, with the first 42 bytes of the file in it. -/
def filled (data : List UInt8) (buf : Memory) : Memory := fun i => (data.take 42).getD i (buf i)

def SlotFree (kernel : Kernel) : Prop := ∃ slot : Nat, slot < 6 ∧ kernel.progs slot = .close

/-- The command names this entry of the directory. -/
def Names (image : Image) (command : CString) (index : Nat) : Prop :=
  ∃ file, curFile command 0 = some file ∧ image.entryNamed file = some index

/-- The program is started if and only if it is one, where it says, whatever the locals held. -/
structure StartsOnlyExecutables (image : Image) (command : CString) (kernel : Kernel) (data : List UInt8) :
    Prop where
  starts_iff : ∀ frame locals,
    (∃ eip loaded after, execute image command frame locals kernel = some (.program eip loaded, after)) ↔
      Executable data ∧ SlotFree kernel
  entry : ∀ frame locals eip loaded after,
    execute image command frame locals kernel = some (.program eip loaded, after) →
      eip = word32 (fun i => data.getD i 0) 24
  independent : ∀ frame first second,
    execute image command frame first kernel = execute image command frame second kernel

/-- The process or the command keeps `execute` from looking at the file. -/
def TurnedAway (command : CString) (kernel : Kernel) : Prop :=
  kernel.newPid ≥ 5 ∨ command.chars.length > 128

instance (command : CString) (kernel : Kernel) : Decidable (TurnedAway command kernel) :=
  inferInstanceAs (Decidable (_ ∨ _))

/-- The condition. An executable that there is a slot for is not turned away and fits into its page. A
file of less than 28 bytes that agrees with the magic number as far as it goes is turned away, or there
is no slot for it; and when it has less than four bytes, `old_pid` is then what it will be set to. -/
structure Decided (command : CString) (kernel : Kernel) (data : List UInt8) : Prop where
  real : Executable data → SlotFree kernel → ¬ TurnedAway command kernel ∧ data.length ≤ 0x3B8000
  short : data.length < 28 → data.take 4 <+: magic → TurnedAway command kernel ∨
    (¬ SlotFree kernel ∧
      (4 ≤ data.length ∨ kernel.oldPid = kernel.currentPid kernel.console.currentTerminal))

/-! ## The buffer -/

/-- Agreement with the magic number, byte by byte. -/
theorem agrees_iff (data : List UInt8) :
    data.take 4 <+: magic ↔ ∀ i, i < data.length → i < 4 → data.getD i 0 = magic.getD i 0 := by
  have bound : magic.length = 4 := rfl
  rw [List.prefix_iff_getElem]
  constructor
  · rintro ⟨_, same⟩ i inside first
    have here := same i (by rw [List.length_take]; omega)
    rwa [List.getElem_take, ← List.getD_eq_getElem data 0, ← List.getD_eq_getElem magic 0] at here
  · intro same
    refine ⟨by rw [List.length_take]; omega, fun i inside => ?_⟩
    rw [List.length_take] at inside
    have here := same i (by omega) (by omega)
    rwa [List.getElem_take, ← List.getD_eq_getElem data 0, ← List.getD_eq_getElem magic 0]

theorem isElf_iff (buf : Memory) : isElf buf = true ↔ ∀ i < 4, buf i = magic.getD i 0 := by
  unfold isElf
  simp only [Bool.and_eq_true, beq_iff_eq]
  constructor
  · rintro ⟨⟨⟨zero, one⟩, two⟩, three⟩ i inside
    match i with
    | 0 => exact zero
    | 1 => exact one
    | 2 => exact two
    | 3 => exact three
  · intro same
    exact ⟨⟨⟨same 0 (by decide), same 1 (by decide)⟩, same 2 (by decide)⟩, same 3 (by decide)⟩

theorem filled_of_lt {data : List UInt8} {i : Nat} (inside : i < data.length) (first : i < 42) (buf : Memory) :
    filled data buf i = data.getD i 0 := by
  have taken : i < (data.take 42).length := by
    rw [List.length_take]
    omega
  unfold filled
  rw [List.getD_eq_getElem _ _ taken, List.getElem_take, List.getD_eq_getElem _ _ inside]

theorem filled_of_le {data : List UInt8} {i : Nat} (behind : data.length ≤ i) (buf : Memory) :
    filled data buf i = buf i := by
  unfold filled
  rw [List.getD_eq_default]
  rw [List.length_take]
  omega

/-- The test passes if the file agrees with the magic number, and behind its end the buffer does. -/
theorem isElf_filled (data : List UInt8) (buf : Memory) :
    isElf (filled data buf) = true ↔
      data.take 4 <+: magic ∧ ∀ i, data.length ≤ i → i < 4 → buf i = magic.getD i 0 := by
  rw [isElf_iff, agrees_iff]
  constructor
  · intro same
    refine ⟨fun i inside first => ?_, fun i behind first => ?_⟩
    · rw [← same i first, filled_of_lt inside (by omega)]
    · rw [← same i first, filled_of_le behind]
  · rintro ⟨file, rest⟩ i first
    rcases Nat.lt_or_ge i data.length with inside | behind
    · rw [filled_of_lt inside (by omega), file i inside first]
    · rw [filled_of_le behind, rest i behind first]

/-- With four bytes in the file the buffer has no say. -/
theorem isElf_filled_of_le {data : List UInt8} (long : 4 ≤ data.length) (buf : Memory) :
    isElf (filled data buf) = true ↔ data.take 4 <+: magic := by
  rw [isElf_filled]
  exact and_iff_left fun i behind first => absurd first (by omega)

theorem executable_iff (data : List UInt8) :
    Executable data ↔ 28 ≤ data.length ∧ data.take 4 <+: magic := by
  unfold Executable
  constructor
  · rintro ⟨same, long⟩
    exact ⟨long, same ▸ List.prefix_refl _⟩
  · rintro ⟨long, agrees⟩
    have lengths : (data.take 4).length = magic.length := by
      rw [List.length_take]
      exact Nat.min_eq_left (by omega)
    exact ⟨agrees.eq_of_length lengths, long⟩

/-- The bytes of the entry point are those of the file, if it has them. -/
theorem word32_filled {data : List UInt8} (long : 28 ≤ data.length) (buf : Memory) :
    word32 (filled data buf) 24 = word32 (fun i => data.getD i 0) 24 := by
  have byte : ∀ i < 28, filled data buf i = data.getD i 0 :=
    fun i inside => filled_of_lt (by omega) (by omega) buf
  unfold word32
  rw [byte 24 (by decide), byte 25 (by decide), byte 26 (by decide), byte 27 (by decide)]

/-! ## The call -/

section

variable {image : Image} {command : CString} {kernel : Kernel} {index : Nat}

theorem slotFree_iff : SlotFree kernel ↔ ∃ slot, freeSlot kernel.progs = some slot := by
  constructor
  · rintro ⟨slot, inside, closed⟩
    exact freeSlot_isSome (by omega : 0 ≤ (slot : Int) ∧ (slot : Int) ≤ 5) closed
  · rintro ⟨slot, free⟩
    obtain ⟨nonneg, small, closed, _⟩ := freeSlot_eq_some free
    refine ⟨slot.toNat, by omega, ?_⟩
    rwa [Int.toNat_of_nonneg nonneg]

/-- The name does not depend on the byte in front of `cur_file`. -/
theorem Names.found (names : Names image command index) (before : UInt8) :
    ∃ file, curFile command before = some file ∧ image.entryNamed file = some index := by
  obtain ⟨file, named, entry⟩ := names
  unfold curFile at named ⊢
  dsimp only at named ⊢
  split at named
  · cases named
  · rename_i short
    rw [if_neg short]
    obtain rfl := Option.some.inj named
    exact ⟨_, rfl, entry⟩

/-- What the checks say about the name of an entry. -/
theorem check_of_names (wellFormed : WellFormedImage image) (names : Names image command index)
    (locals : Locals) :
    check image command locals kernel.newPid =
      if TurnedAway command kernel then .rejected (-1)
      else if isElf (filled (image.file (image.direntry index).inodeNum) locals.buf) = true then
        .passed (word32 (filled (image.file (image.direntry index).inodeNum) locals.buf) 24)
          (image.file (image.direntry index).inodeNum)
      else .rejected (-1) := by
  obtain ⟨file, named, entry⟩ := names.found locals.before
  have present := wellFormed.inodes index (image.entryNamed_lt entry)
  have short := wellFormed.lengths _ present
  rcases image.readDentryByName_cases wellFormed.directory file locals.dentry with
    ⟨absent, _⟩ | ⟨other, copied, same, lookup, _, inodeNum, _⟩
  · exact absurd (absent.symm.trans entry) nofun
  · obtain rfl := Option.some.inj (same.symm.trans entry)
    have buffer : header image copied.inodeNum locals.buf =
        filled (image.file (image.direntry other).inodeNum) locals.buf := by
      unfold header filled
      rw [inodeNum, image.readData_eq present short, List.drop_zero]
    have whole : image.readData copied.inodeNum 0 (image.length copied.inodeNum) =
        image.file (image.direntry other).inodeNum := by
      rw [inodeNum, readData_whole wellFormed present]
    unfold check
    simp only [named, lookup, buffer, whole]
    rfl

theorem execute_of_turnedAway (wellFormed : WellFormedImage image) (names : Names image command index)
    (away : TurnedAway command kernel) (frame : Frame) (locals : Locals) :
    execute image command frame locals kernel = some (.returns (-1), kernel.begin) := by
  unfold execute
  rw [check_of_names wellFormed names, if_pos away]

theorem execute_of_mismatch (wellFormed : WellFormedImage image) (names : Names image command index)
    {frame : Frame} {locals : Locals}
    (mismatch : ¬ isElf (filled (image.file (image.direntry index).inodeNum) locals.buf) = true) :
    execute image command frame locals kernel = some (.returns (-1), kernel.begin) := by
  unfold execute
  rw [check_of_names wellFormed names, if_neg mismatch, ite_self]

/-- A file that passes the test is started, if there is a slot and it fits. -/
theorem execute_of_match (wellFormed : WellFormedImage image) (names : Names image command index)
    (admitted : ¬ TurnedAway command kernel) (frame : Frame) {locals : Locals}
    (elf : isElf (filled (image.file (image.direntry index).inodeNum) locals.buf) = true) :
    execute image command frame locals kernel =
      match freeSlot kernel.progs with
      | none =>
          some (.returns (-1), kernel.begin.setOldPid (kernel.currentPid kernel.console.currentTerminal))
      | some slot =>
          if 0x48000 + (image.file (image.direntry index).inodeNum).length > 0x400000 then none
          else some (.program (word32 (filled (image.file (image.direntry index).inodeNum) locals.buf) 24)
            (image.file (image.direntry index).inodeNum), kernel.begin.start slot command frame) := by
  cases free : freeSlot kernel.progs with
  | none => simp only [execute, check_of_names wellFormed names, if_neg admitted, if_pos elf, free]
  | some slot => simp only [execute, check_of_names wellFormed names, if_neg admitted, if_pos elf, free]

/-- The same answer for all locals, and it is not a program. -/
theorem startsOnlyExecutables_of_refused {data : List UInt8} (refused : ¬ (Executable data ∧ SlotFree kernel))
    (ret : Int) (after : Kernel)
    (answer : ∀ frame locals, execute image command frame locals kernel = some (.returns ret, after)) :
    StartsOnlyExecutables image command kernel data where
  starts_iff := by
    intro frame locals
    refine iff_of_false ?_ refused
    rintro ⟨eip, loaded, other, started⟩
    exact absurd ((answer frame locals).symm.trans started) nofun
  entry := by
    intro frame locals eip loaded other started
    exact absurd ((answer frame locals).symm.trans started) nofun
  independent := by
    intro frame first second
    rw [answer frame first, answer frame second]

/-- An executable that fits is started from the first free slot. -/
theorem startsOnlyExecutables_of_started (wellFormed : WellFormedImage image)
    (names : Names image command index) (admitted : ¬ TurnedAway command kernel)
    (real : Executable (image.file (image.direntry index).inodeNum)) {slot : Int}
    (free : freeSlot kernel.progs = some slot)
    (fits : (image.file (image.direntry index).inodeNum).length ≤ 0x3B8000) :
    StartsOnlyExecutables image command kernel (image.file (image.direntry index).inodeNum) := by
  obtain ⟨long, agrees⟩ := (executable_iff _).mp real
  have answer : ∀ frame locals, execute image command frame locals kernel =
      some (.program (word32 (fun i => (image.file (image.direntry index).inodeNum).getD i 0) 24)
        (image.file (image.direntry index).inodeNum), kernel.begin.start slot command frame) := by
    intro frame locals
    rw [execute_of_match wellFormed names admitted _ ((isElf_filled_of_le (by omega) locals.buf).mpr agrees),
      free, word32_filled long]
    exact if_neg (by omega)
  refine ⟨fun frame locals => ?_, fun frame locals eip loaded after started => ?_, fun frame first second => ?_⟩
  · exact iff_of_true ⟨_, _, _, answer frame locals⟩ ⟨real, slotFree_iff.mpr ⟨slot, free⟩⟩
  · have same := Option.some.inj ((answer frame locals).symm.trans started)
    exact (Transfer.program.inj (congrArg Prod.fst same)).1.symm
  · rw [answer frame first, answer frame second]

theorem freeSlot_eq_none (full : ¬ SlotFree kernel) : freeSlot kernel.progs = none := by
  cases free : freeSlot kernel.progs with
  | none => rfl
  | some slot => exact absurd (slotFree_iff.mpr ⟨slot, free⟩) full

/-- With no slot left, the test decides about `old_pid` alone. -/
theorem startsOnlyExecutables_of_full (wellFormed : WellFormedImage image)
    (names : Names image command index) (admitted : ¬ TurnedAway command kernel) (full : ¬ SlotFree kernel)
    (agrees : (image.file (image.direntry index).inodeNum).take 4 <+: magic)
    (settled : 4 ≤ (image.file (image.direntry index).inodeNum).length ∨
      kernel.oldPid = kernel.currentPid kernel.console.currentTerminal) :
    StartsOnlyExecutables image command kernel (image.file (image.direntry index).inodeNum) := by
  refine startsOnlyExecutables_of_refused (fun both => full both.2) (-1)
    (kernel.begin.setOldPid (kernel.currentPid kernel.console.currentTerminal)) fun frame locals => ?_
  by_cases elf : isElf (filled (image.file (image.direntry index).inodeNum) locals.buf) = true
  · rw [execute_of_match wellFormed names admitted _ elf, freeSlot_eq_none full]
  · rw [execute_of_mismatch wellFormed names elf]
    rcases settled with long | same
    · exact absurd ((isElf_filled_of_le long locals.buf).mpr agrees) elf
    · rw [← same]
      rfl

theorem startsOnlyExecutables_of_decided (wellFormed : WellFormedImage image)
    (names : Names image command index)
    (decided : Decided command kernel (image.file (image.direntry index).inodeNum)) :
    StartsOnlyExecutables image command kernel (image.file (image.direntry index).inodeNum) := by
  by_cases away : TurnedAway command kernel
  · exact startsOnlyExecutables_of_refused (fun both => (decided.real both.1 both.2).1 away) (-1)
      kernel.begin (execute_of_turnedAway wellFormed names away)
  by_cases agrees : (image.file (image.direntry index).inodeNum).take 4 <+: magic
  · by_cases long : 28 ≤ (image.file (image.direntry index).inodeNum).length
    · have real := (executable_iff _).mpr ⟨long, agrees⟩
      by_cases free : SlotFree kernel
      · obtain ⟨slot, first⟩ := slotFree_iff.mp free
        exact startsOnlyExecutables_of_started wellFormed names away real first (decided.real real free).2
      · exact startsOnlyExecutables_of_full wellFormed names away free agrees (Or.inl (by omega))
    · rcases decided.short (Nat.lt_of_not_le long) agrees with turned | ⟨full, settled⟩
      · exact absurd turned away
      · exact startsOnlyExecutables_of_full wellFormed names away full agrees settled
  · exact startsOnlyExecutables_of_refused (fun both => agrees ((executable_iff _).mp both.1).2) (-1)
      kernel.begin fun frame locals =>
        execute_of_mismatch wellFormed names fun elf => agrees ((isElf_filled _ _).mp elf).1

/-- The locals of an `execute` that comes after one of an executable. -/
def afterMagic : Locals := { Locals.zeros with buf := fun i => magic.getD i 0 }

theorem decided_of_startsOnlyExecutables (wellFormed : WellFormedImage image)
    (names : Names image command index)
    (starts : StartsOnlyExecutables image command kernel (image.file (image.direntry index).inodeNum)) :
    Decided command kernel (image.file (image.direntry index).inodeNum) where
  real := by
    intro real free
    obtain ⟨eip, loaded, after, started⟩ := (starts.starts_iff ⟨0, 0⟩ Locals.zeros).mpr ⟨real, free⟩
    have admitted : ¬ TurnedAway command kernel := fun away =>
      absurd ((execute_of_turnedAway wellFormed names away ⟨0, 0⟩ Locals.zeros).symm.trans started) nofun
    refine ⟨admitted, Nat.le_of_not_lt fun long => ?_⟩
    obtain ⟨bytes, agrees⟩ := (executable_iff _).mp real
    obtain ⟨slot, first⟩ := slotFree_iff.mp free
    rw [execute_of_match wellFormed names admitted _ ((isElf_filled_of_le (by omega) _).mpr agrees), first] at started
    dsimp only at started
    rw [if_pos (by omega)] at started
    cases started
  short := by
    intro short agrees
    by_cases away : TurnedAway command kernel
    · exact Or.inl away
    have elf : isElf (filled (image.file (image.direntry index).inodeNum) afterMagic.buf) = true :=
      (isElf_filled _ _).mpr ⟨agrees, fun _ _ _ => rfl⟩
    have full : ¬ SlotFree kernel := by
      intro free
      obtain ⟨slot, first⟩ := slotFree_iff.mp free
      have started := execute_of_match wellFormed names away ⟨0, 0⟩ elf
      rw [first] at started
      dsimp only at started
      rw [if_neg (by omega)] at started
      have real := ((starts.starts_iff ⟨0, 0⟩ afterMagic).mp ⟨_, _, _, started⟩).1
      exact absurd real.2 (Nat.not_le_of_lt short)
    refine Or.inr ⟨full, or_iff_not_imp_left.mpr fun few => ?_⟩
    have mismatch : ¬ isElf (filled (image.file (image.direntry index).inodeNum) Locals.zeros.buf) = true := by
      intro zeros
      exact absurd (((isElf_filled _ _).mp zeros).2 3 (by omega) (by decide)) (by decide)
    have same := starts.independent ⟨0, 0⟩ Locals.zeros afterMagic
    rw [execute_of_mismatch wellFormed names mismatch, execute_of_match wellFormed names away _ elf,
      freeSlot_eq_none full] at same
    exact congrArg Kernel.oldPid (congrArg Prod.snd (Option.some.inj same))

/-- Only executables are started, and whatever the locals hold, exactly under the condition. -/
theorem starts_only_executables_iff (wellFormed : WellFormedImage image)
    (names : Names image command index) :
    StartsOnlyExecutables image command kernel (image.file (image.direntry index).inodeNum) ↔
      Decided command kernel (image.file (image.direntry index).inodeNum) :=
  ⟨decided_of_startsOnlyExecutables wellFormed names, startsOnlyExecutables_of_decided wellFormed names⟩

theorem starts_only_executables_shell :
    StartsOnlyExecutables Image.sample Image.shell booted (Image.sample.file 1) :=
  (starts_only_executables_iff sample_wellFormedImage
    (⟨_, rfl, rfl⟩ : Names Image.sample Image.shell 1)).mpr
    ⟨fun _ _ => by decide +kernel, fun short => absurd short (by decide +kernel)⟩

/-- The RTC has no data. Called for it on a stack that still holds a magic number, `execute` starts
what the page of the process contains. -/
theorem rtc_is_started :
    Names Image.sample Image.rtc 2 ∧ (Image.sample.direntry 2).inodeNum = 0 ∧ Image.sample.file 0 = [] ∧
      ¬ StartsOnlyExecutables Image.sample Image.rtc booted (Image.sample.file 0) := by
  have names : Names Image.sample Image.rtc 2 := ⟨_, rfl, rfl⟩
  refine ⟨names, by decide +kernel, by decide +kernel, fun starts => ?_⟩
  have decided := decided_of_startsOnlyExecutables sample_wellFormedImage names starts
  rcases decided.short (by decide +kernel) (by decide +kernel) with away | ⟨full, _⟩
  · exact absurd away (by decide)
  · exact full ⟨0, by decide, rfl⟩

end

end Executables

end LinuxLikeOS

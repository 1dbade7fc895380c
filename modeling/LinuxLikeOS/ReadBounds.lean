import LinuxLikeOS.ProcessTable

/-!
# Where `read` stores

`read` is asked for at most `nbytes` bytes. The four drivers treat the bound differently,
and the condition below is, driver by driver, what makes a call respect it.
-/

namespace LinuxLikeOS.ReadBounds

open LinuxLikeOS.Task LinuxLikeOS.ProcessTable

/-- Nothing is stored outside `buf[0 .. max(nbytes, 0))`, and what is returned is -1 or lies
between 0 and `max(nbytes, 0)`. -/
def Bounded (nbytes : Int32) (result : Result) : Prop :=
  result.writes.Within nbytes.toInt.toNat ∧
    (result.ret = -1 ∨ 0 ≤ result.ret ∧ result.ret ≤ max nbytes.toInt 0)

/-- The call completes within its buffer. -/
def StaysInBuffer (image : Image) (task : Task) (fd : Int32) (buf : Memory) (nbytes : Int32)
    (wake : Console) (residue : Residue) : Prop :=
  ∃ result after, task.read image fd (some buf) nbytes wake residue = some (result, after) ∧
    Bounded nbytes result

/-- The exact condition, for an open descriptor: descriptor 1 only fails, the RTC stores
nothing, the terminal driver always clears 128 bytes, the file driver clears `nbytes` taken
as unsigned, and the directory driver puts a terminator right behind the name. -/
def Fits (image : Image) (descriptor : FileDescriptor) (fd : Fin 8) (nbytes : Int) : Prop :=
  fd = 1 ∨
    match descriptor.fops with
    | .terminal => 128 ≤ nbytes
    | .file => 0 ≤ nbytes
    | .directory => image.inodeCount ≤ descriptor.filePosition ∨
        ∃ length, (image.direntry descriptor.filePosition).strlen = some length ∧
          (min length 32 : Nat) < nbytes
    | _ => True

theorem bounded_plain (nbytes : Int32) {ret : Int} (none_or_zero : ret = -1 ∨ ret = 0) :
    Bounded nbytes (.plain ret) := by
  refine ⟨Writes.within_nothing _, none_or_zero.imp_right ?_⟩
  rintro rfl
  exact ⟨Int.le_refl 0, Int.le_max_right _ _⟩

theorem terminal_bounded_iff (nbytes : Int32) (task : Task) :
    Bounded nbytes task.terminalRead.1 ↔ 128 ≤ nbytes.toInt := by
  have short : (Console.firstLine task.console.shown.contents).length ≤ 128 := by
    have line := Console.length_firstLine_le task.console.shown.contents
    have bounded := task.console.shown.bounded
    rw [LineBuffer.length_contents] at line
    omega
  simp only [terminalRead, Console.terminalRead, Bounded, Writes.within_andThen, Writes.within_fill,
    Writes.within_copy]
  constructor
  · rintro ⟨⟨cleared, _⟩, _⟩
    omega
  · intro room
    omega

theorem file_bounded_iff (image : Image) (fd : Fin 8) (nbytes : Int32) (task : Task) :
    Bounded nbytes (task.fileRead image fd nbytes.toInt).1 ↔ 0 ≤ nbytes.toInt := by
  have low := nbytes.le_toInt
  have high := nbytes.toInt_lt
  have read := image.length_readData_le (task.files fd).inode (task.files fd).filePosition
    (toUnsigned nbytes.toInt)
  simp only [fileRead, Bounded, Writes.within_andThen, Writes.within_fill, Writes.within_copy]
  constructor
  · rintro ⟨⟨cleared, _⟩, _⟩
    by_contra negative
    have huge := toUnsigned_of_neg (Int.lt_of_not_ge negative) low
    omega
  · intro nonneg
    have exact := toUnsigned_of_nonneg nonneg (by omega)
    omega

/-- The terminator bounds the `strlen` of the buffer. -/
theorem dirRead_ret_le (dentry : Dentry) (length : Nat) (nbytes : Int) (buf : Memory) :
    (firstNul ((dirReadWrites dentry length nbytes).apply buf) 33).getD 33 ≤ min length 32 := by
  have nul := dirReadWrites_nul dentry length nbytes buf
  cases found : firstNul ((dirReadWrites dentry length nbytes).apply buf) 33 with
  | none => exact absurd nul (firstNul_eq_none.mp found _ (by omega))
  | some index =>
      by_contra later
      exact (firstNul_eq_some.mp found).2.2 _ (Nat.lt_of_not_le later) nul

theorem dirReadWrites_within_iff {dentry : Dentry} {length : Nat} (nbytes : Int32) :
    (dirReadWrites dentry length nbytes.toInt).Within nbytes.toInt.toNat ↔
      (min length 32 : Nat) < nbytes.toInt := by
  have low := nbytes.le_toInt
  have high := nbytes.toInt_lt
  simp only [dirReadWrites, Writes.within_andThen, Writes.within_fill, Writes.within_copy,
    Writes.within_put]
  constructor
  · rintro ⟨⟨cleared, _⟩, terminated⟩
    split at terminated <;> omega
  · intro room
    have exact : (toUnsigned nbytes.toInt : Int) = nbytes.toInt :=
      toUnsigned_of_nonneg (by omega) (by omega)
    refine ⟨⟨by omega, ?_⟩, ?_⟩ <;> split <;> omega

theorem directory_bounded_iff (image : Image) (fd : Fin 8) (buf : Memory) (nbytes : Int32)
    (residue : Dentry) (task : Task) :
    (∃ result after, task.dirRead image fd buf nbytes.toInt residue = some (result, after) ∧
      Bounded nbytes result) ↔
    image.inodeCount ≤ (task.files fd).filePosition ∨
      ∃ length, (image.direntry (task.files fd).filePosition).strlen = some length ∧
        (min length 32 : Nat) < nbytes.toInt := by
  unfold dirRead
  rcases image.readDentryByIndex_cases (task.files fd).filePosition residue with
    ⟨past, read⟩ | ⟨inside, unterminated, read⟩ | ⟨stop, copied, inside, terminated, read, length, _⟩
  · simp only [read]
    exact iff_of_true ⟨_, _, rfl, bounded_plain nbytes (Or.inr rfl)⟩ (Or.inl past)
  · simp only [read]
    refine iff_of_false (by simp) ?_
    rintro (past | ⟨length, terminated, _⟩)
    · omega
    · rw [unterminated] at terminated
      cases terminated
  · simp only [read, length, Option.map_some, Option.some.injEq, Prod.mk.injEq]
    have ret := dirRead_ret_le copied stop nbytes.toInt buf
    constructor
    · rintro ⟨result, after, ⟨rfl, rfl⟩, within, _⟩
      exact Or.inr ⟨stop, terminated, (dirReadWrites_within_iff nbytes).mp within⟩
    · rintro (past | ⟨other, same, room⟩)
      · omega
      · obtain rfl := Option.some.inj (terminated.symm.trans same)
        refine ⟨_, _, ⟨rfl, rfl⟩, (dirReadWrites_within_iff nbytes).mpr room, Or.inr ⟨?_, ?_⟩⟩
        · exact Int.natCast_nonneg _
        · show ((firstNul _ 33).getD 33 : Int) ≤ _
          omega

/-! ## The system call -/

theorem staysInBuffer_iff (image : Image) (task : Task) (fd : Int32) (index : Fin 8) (buf : Memory)
    (nbytes : Int32) (wake : Console) (residue : Residue) (valid : descriptor? fd = some index)
    (opened : (task.fds index).flags = .open)
    (device : (task.fds index).fops ≠ .null ∧ (task.fds index).fops ≠ .blank) :
    StaysInBuffer image task fd buf nbytes wake residue ↔
      Fits image (task.fds index) index nbytes.toInt := by
  by_cases stdout : index = 1
  · have refused : readTarget task.fds fd (some buf) = none := by simp [readTarget, valid, stdout]
    have read := read_refused refused image nbytes wake residue
    exact iff_of_true ⟨.plain (-1), task, read, bounded_plain nbytes (Or.inl rfl)⟩ (Or.inl stdout)
  · have passed := readTarget_eq_some.mpr ⟨valid, Option.some_ne_none buf, stdout, opened⟩
    obtain ⟨console, read⟩ := read_eq_leaveRead passed image nbytes wake residue
    -- the driver runs on a global table that is the table of the process
    set entered : Task := { task with files := task.fds, console := console } with shared
    have sameFile : entered.files index = task.fds index := by rw [shared]
    have sameFops : (entered.fds index).fops = (task.fds index).fops := by rw [shared]
    have inner : StaysInBuffer image task fd buf nbytes wake residue ↔
        ∃ result after,
          entered.driverRead image (task.fds index).fops index buf nbytes.toInt residue =
            some (result, after) ∧
            Bounded nbytes result := by
      simp only [StaysInBuffer, read, leaveRead, sameFops, Option.map_eq_some_iff]
      constructor
      · rintro ⟨result, after, ⟨⟨inner, middle⟩, ran, same⟩, bounded⟩
        obtain ⟨rfl, rfl⟩ := Prod.mk.inj same
        exact ⟨inner, middle, ran, bounded⟩
      · rintro ⟨result, middle, ran, bounded⟩
        exact ⟨result, _, ⟨⟨result, middle⟩, ran, rfl⟩, bounded⟩
    rw [inner, Fits, or_iff_right stdout]
    cases fops : (task.fds index).fops with
    | null => exact absurd fops device.1
    | blank => exact absurd fops device.2
    | rtc =>
        refine iff_of_true ⟨_, _, rfl, bounded_plain nbytes (Or.inr rfl)⟩ trivial
    | terminal => exact (Transition.outcome_iff rfl).trans (terminal_bounded_iff nbytes entered)
    | file => exact (Transition.outcome_iff rfl).trans (file_bounded_iff image index nbytes entered)
    | directory =>
        have exact := directory_bounded_iff image index buf nbytes residue.dentry entered
        rw [sameFile] at exact
        exact exact

/-- Five bytes of an open file. -/
theorem file_read_stays :
    StaysInBuffer Image.sample (Task.started.setFd 2 ⟨.file, 2, 0, .open⟩) 2 (fun _ => 1) 5 Console.loaded
      .zeros :=
  (staysInBuffer_iff Image.sample _ 2 2 (fun _ => 1) 5 Console.loaded .zeros (by decide) (by decide)
    (by decide)).mpr (Or.inr (show 0 ≤ (5 : Int32).toInt by decide))

/-- Five bytes asked of the terminal: the driver clears 128. -/
theorem terminal_read_overruns :
    (Task.started.fds 0).flags = .open ∧ (Task.started.fds 0).fops = .terminal ∧
      ¬ StaysInBuffer Image.sample Task.started 0 (fun _ => 1) 5 Console.loaded .zeros := by
  refine ⟨by decide, by decide, ?_⟩
  rintro ⟨result, after, ran, within, _⟩
  have cleared : (Task.started.read Image.sample 0 (some fun _ => 1) 5 Console.loaded .zeros).map
      (fun answer => answer.1.writes 100) = some (some 0) := by decide
  have stored : result.writes 100 = some 0 := by
    rw [ran] at cleared
    exact Option.some.inj cleared
  have inside := within 100 (by simp [stored])
  exact absurd inside (by decide)

end LinuxLikeOS.ReadBounds

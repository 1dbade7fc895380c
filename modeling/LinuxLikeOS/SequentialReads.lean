import LinuxLikeOS.ReadLog

/-!
# Reading a file from start to end

The reads of a run on one open file deliver that file, in order and without gaps, wherever
the chunk boundaries fall and whatever the process does with its other descriptors.
-/

namespace LinuxLikeOS.SequentialReads

open LinuxLikeOS.Task LinuxLikeOS.ProcessTable LinuxLikeOS.ReadLog

/-- The sizes asked for. -/
def sizes (log : List Delivery) : List Nat := log.map fun delivery => delivery.asked.toNat

/-- The bytes delivered, one read after the other. -/
def delivered (log : List Delivery) : List UInt8 :=
  (log.map fun delivery => (delivery.outcome.map Prod.snd).getD []).flatten

/-- Each read returns what was asked for or is left, the data are the file up to the sum of
the sizes, and from the end of the file on every read returns 0. -/
structure ReturnsFile (file : List UInt8) (log : List Delivery) : Prop where
  counts : ∀ i (inside : i < log.length), log[i].outcome.map Prod.fst =
    some ((min log[i].asked.toNat (file.length - ((sizes log).take i).sum) : Nat) : Int)
  bytes : delivered log = file.take (sizes log).sum
  ended : ∀ i (inside : i < log.length), (delivered (log.take i)).length = file.length →
    log[i].outcome.map Prod.fst = some 0

/-- A read of a file delivers the data at the position. -/
def fileOutcome (image : Image) (descriptor : FileDescriptor) (size : Int) : Option (Int × List UInt8) :=
  let data := image.readData descriptor.inode descriptor.filePosition (toUnsigned size)
  some (data.length, data)

theorem file_delivers (image : Image) : Delivers image .file (0 ≤ ·) (fileOutcome image) := by
  intro task other index buf nbytes wake residue passed known size
  obtain ⟨console, read⟩ := read_eq_leaveRead passed image nbytes wake residue
  rw [read, leaveRead, Option.map_map, known]
  simp only [driverRead, fileRead, Option.map_some, Function.comp_apply, fileOutcome, data, Option.some.injEq,
    Prod.mk.injEq, true_and, Int.toNat_natCast]
  refine List.ext_getElem (by simp) fun i left right => ?_
  have inside : i < (image.readData (task.fds index).inode (task.fds index).filePosition
      (toUnsigned nbytes.toInt)).length := right
  simp [Writes.apply, Writes.andThen, Writes.copy, inside]

/-! ## The law of the sizes -/

section

variable {image : Image} {inode : Nat}

theorem unroll_take (outcome : FileDescriptor → Int → Option (Int × List UInt8))
    (descriptor : FileDescriptor)
    (asked : List Int) (i : Nat) :
    (unroll image outcome descriptor asked).take i = unroll image outcome descriptor (asked.take i) := by
  induction asked generalizing descriptor i with
  | nil => simp [unroll]
  | cons size rest ih =>
      cases i with
      | zero => rfl
      | succ i =>
          simp only [unroll, List.take_succ_cons, List.cons.injEq, true_and]
          cases advance image descriptor size with
          | none => simp
          | some moved => exact ih moved i

/-- One read within the file: the bytes at the position, and the position behind them. -/
theorem read_chunk (present : inode < image.inodeCount) (fits : image.length inode ≤ 1023 * 4096)
    {position : Nat}
    (inside : position ≤ image.length inode) {size : Int} (nonneg : 0 ≤ size) (small : size < 2 ^ 31) :
    fileOutcome image ⟨.file, inode, position, .open⟩ size =
        some (((min size.toNat (image.length inode - position) : Nat) : Int),
          ((image.file inode).drop position).take size.toNat) ∧
      advance image ⟨.file, inode, position, .open⟩ size =
        some ⟨.file, inode, position + min size.toNat (image.length inode - position), .open⟩ := by
  have exact := toUnsigned_of_nonneg nonneg (by omega)
  have asked : toUnsigned size = size.toNat := by omega
  have read : image.readData inode position (toUnsigned size) =
      ((image.file inode).drop position).take size.toNat := by
    rw [image.readData_eq present fits, asked]
  have count : (((image.file inode).drop position).take size.toNat).length =
      min size.toNat (image.length inode - position) := by simp
  have unwrapped : (position + min size.toNat (image.length inode - position)) % 2 ^ 32 =
      position + min size.toNat (image.length inode - position) := Nat.mod_eq_of_lt (by omega)
  refine ⟨?_, ?_⟩
  · simp only [fileOutcome, read, count]
  · simp only [advance, read, count, unwrapped]

/-- From a position on: the counts. -/
theorem unroll_counts (present : inode < image.inodeCount) (fits : image.length inode ≤ 1023 * 4096)
    {asked : List Int} (allowed : ∀ size ∈ asked, 0 ≤ size ∧ size < 2 ^ 31) {position : Nat}
    (within : position ≤ image.length inode) {log : List Delivery}
    (unrolled : log = unroll image (fileOutcome image) ⟨.file, inode, position, .open⟩ asked) (i : Nat)
    (inside : i < log.length) :
    log[i].outcome.map Prod.fst = some ((min log[i].asked.toNat
      (image.length inode - position - ((sizes log).take i).sum) : Nat) : Int) := by
  induction asked generalizing position i log with
  | nil =>
      subst unrolled
      exact absurd inside (by simp [unroll])
  | cons size rest ih =>
      obtain ⟨⟨nonneg, small⟩, later⟩ := List.forall_mem_cons.mp allowed
      obtain ⟨delivery, moved⟩ := read_chunk present fits within nonneg small
      simp only [unroll, moved] at unrolled
      subst unrolled
      cases i with
      | zero => simp [delivery]
      | succ i =>
          simp only [List.length_cons, Nat.succ_lt_succ_iff] at inside
          simp only [List.getElem_cons_succ, sizes, List.map_cons, List.take_succ_cons, List.sum_cons]
          rw [ih later (by omega) rfl i inside, sizes]
          congr 3
          omega

/-- From a position on: the bytes. -/
theorem unroll_bytes (present : inode < image.inodeCount) (fits : image.length inode ≤ 1023 * 4096)
    {asked : List Int} (allowed : ∀ size ∈ asked, 0 ≤ size ∧ size < 2 ^ 31) {position : Nat}
    (within : position ≤ image.length inode) :
    delivered (unroll image (fileOutcome image) ⟨.file, inode, position, .open⟩ asked) =
      ((image.file inode).drop position).take
        (sizes (unroll image (fileOutcome image) ⟨.file, inode, position, .open⟩ asked)).sum := by
  induction asked generalizing position with
  | nil => simp [unroll, delivered, sizes]
  | cons size rest ih =>
      obtain ⟨⟨nonneg, small⟩, later⟩ := List.forall_mem_cons.mp allowed
      obtain ⟨delivery, moved⟩ := read_chunk present fits within nonneg small
      have further : position + min size.toNat (image.length inode - position) ≤ image.length inode := by
        omega
      have remaining := ih later further
      simp only [unroll, moved, delivered, sizes, List.map_cons, List.flatten_cons, List.sum_cons, delivery,
        Option.map_some, Option.getD_some] at remaining ⊢
      rw [remaining, List.take_add, List.drop_drop]
      congr 1
      by_cases short : size.toNat ≤ image.length inode - position
      · rw [Nat.min_eq_left short]
      · rw [Nat.min_eq_right (by omega)]
        have spent : (image.file inode).drop (position + (image.length inode - position)) = [] :=
          List.drop_eq_nil_of_le (by simp; omega)
        have beyond : (image.file inode).drop (position + size.toNat) = [] :=
          List.drop_eq_nil_of_le (by simp; omega)
        rw [spent, beyond]

theorem unroll_returnsFile (present : inode < image.inodeCount) (fits : image.length inode ≤ 1023 * 4096)
    {asked : List Int} (allowed : ∀ size ∈ asked, 0 ≤ size ∧ size < 2 ^ 31) :
    ReturnsFile (image.file inode) (unroll image (fileOutcome image) ⟨.file, inode, 0, .open⟩ asked) := by
  have counts := unroll_counts present fits allowed (Nat.zero_le _) rfl
  simp only [Nat.sub_zero] at counts
  refine ⟨by simpa using counts, ?_, ?_⟩
  · simpa using unroll_bytes present fits allowed (Nat.zero_le _)
  · intro i inside spent
    have allowedBefore : ∀ size ∈ asked.take i, 0 ≤ size ∧ size < 2 ^ 31 :=
      fun size member => allowed size (List.mem_of_mem_take member)
    have bytes := unroll_bytes present fits allowedBefore (Nat.zero_le _)
    rw [← unroll_take, List.drop_zero] at bytes
    rw [bytes, List.length_take, Image.length_file] at spent
    have sum : ((sizes (unroll image (fileOutcome image) ⟨.file, inode, 0, .open⟩ asked)).take i).sum =
        (sizes ((unroll image (fileOutcome image) ⟨.file, inode, 0, .open⟩ asked).take i)).sum := by
      simp [sizes, List.map_take]
    rw [counts i inside, sum]
    have nothingLeft : image.length inode -
        (sizes ((unroll image (fileOutcome image) ⟨.file, inode, 0, .open⟩ asked).take i)).sum = 0 := by
          omega
    rw [nothingLeft, Nat.min_zero]
    rfl

end

/-! ## Runs -/

/-- A regular file that a process opens at any point of its run is what the reads on the
descriptor return from then on. -/
theorem reads_return_the_file (image : Image) (stale files : Table) (console : Console) (rtc : Rtc)
    (history : List Call) (before opened : Task) (fname : CString) (residue : Residue) (dentry : Dentry)
    (result : Result) (fd : Fin 8) (calls : List Call)
    (reached : Transition.run (Task.step image) ⟨initFds stale, files, console, rtc⟩ history = some before)
    (found : image.readDentryByName fname residue.dentry = .found dentry) (regular : dentry.filetype = 2)
    (present : dentry.inodeNum < image.inodeCount) (fits : image.length dentry.inodeNum ≤ 1023 * 4096)
    (opening : before.open image fname residue = some (result, opened)) (returned : result.ret = fd.val)
    (only : ∀ request ∈ calls, ReadsOnly fd (0 ≤ ·) request) :
    ReturnsFile (image.file dentry.inodeNum) (readLog image fd opened calls) := by
  obtain ⟨free, descriptor⟩ := opened_descriptor found opening returned
  have high := opened_not_standard reached free
  rw [regular] at descriptor
  have file : opened.fds fd = ⟨.file, dentry.inodeNum, 0, .open⟩ := descriptor
  obtain ⟨asked, allowed, log⟩ :=
    readLog_eq_unroll (file_delivers image) (by rintro rfl; exact absurd high (by decide))
    only (by rw [file]) (by rw [file])
  rw [log, file]
  exact unroll_returnsFile present fits allowed

/-- The text file of the sample, read in chunks that do not divide it, around another open. -/
theorem reads_return_frame0 :
    ∃ result opened,
      Task.started.open Image.sample Image.frame0 .zeros = some (result, opened) ∧
        ReturnsFile (Image.sample.file 2) (readLog Image.sample 2 opened
          [.read 2 (some fun _ => 1) 3 Console.loaded .zeros, .open Image.rtc .zeros,
            .read 2 (some fun _ => 1) 4 Console.loaded .zeros, .read 2 (some fun _ => 1) 1 Console.loaded .zeros]) := by
  have opens : (Task.started.open Image.sample Image.frame0 .zeros).map
      (fun answer => answer.1.ret) = some 2 := by decide +kernel
  obtain ⟨⟨result, opened⟩, opening, returned⟩ := Option.map_eq_some_iff.mp opens
  rcases Image.sample.readDentryByName_cases Image.sample_wellFormed
      Image.frame0 Residue.zeros.dentry with
    ⟨absent, _⟩ | ⟨entry, dentry, present, found, sameType, sameInode, _⟩
  · exact absurd absent (by decide +kernel)
  · obtain rfl : entry = 3 := Option.some.inj (present.symm.trans (by decide +kernel))
    have inode : dentry.inodeNum = 2 := sameInode.trans (by decide +kernel)
    refine ⟨result, opened, opening, ?_⟩
    rw [← inode]
    refine reads_return_the_file Image.sample unusedTable (fileSystemInit unusedTable) Console.loaded ⟨0, false⟩ []
      Task.started opened _ .zeros dentry result 2 _ rfl found (sameType.trans (by decide +kernel)) ?_ ?_ opening
      returned ?_
    · rw [inode]
      decide +kernel
    · rw [inode]
      decide +kernel
    · simp [ReadsOnly]

end LinuxLikeOS.SequentialReads

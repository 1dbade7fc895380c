import LinuxLikeOS.ReadLog

/-!
# Listing the directory

A directory descriptor walks over the entry slots of the boot block. The walk ends at the
number of inodes, not at the number of entries, and it ends for good only until the 32-bit
position wraps; the condition below says, read by read, when that makes no difference.
-/

namespace LinuxLikeOS.DirectoryListing

open LinuxLikeOS.Task LinuxLikeOS.ProcessTable LinuxLikeOS.ReadLog

/-- What the `i`-th read ought to deliver: the name of entry `i`, then nothing. -/
def Lists (image : Image) (i : Nat) (delivery : Delivery) : Prop :=
  delivery.outcome =
    if i < image.dirCount then
      some (((image.direntry i).nameLength : Int), (image.direntry i).name)
    else some (0, [])

/-- The condition on the `i`-th read: an entry that is listed has an inode block of its number
and a NUL within its 64 bytes; behind the entries the position is past the inodes, or on a slot
whose name is empty. -/
def Listable (image : Image) (i : Nat) : Prop :=
  if i < image.dirCount then i < image.inodeCount ∧ (image.direntry i).strlen ≠ none
  else image.inodeCount ≤ i % 2 ^ 32 ∨ (image.direntry (i % 2 ^ 32)).byte 0 = 0

/-- A read of a directory delivers the entry at the position. -/
def dirOutcome (image : Image) (descriptor : FileDescriptor) (_ : Int) : Option (Int × List UInt8) :=
  if descriptor.filePosition < image.inodeCount then
    (image.direntry descriptor.filePosition).strlen.map fun length =>
      (((min length 32 : Nat) : Int), (List.range (min length 32)).map (image.direntry descriptor.filePosition).byte)
  else some (0, [])

/-! ## One read -/

section

variable {dentry : Dentry} {length : Nat} {nbytes : Int}

/-- With room for 32 bytes, the whole name is stored and terminated. -/
theorem dirReadWrites_apply (room : 32 ≤ nbytes) (small : nbytes < 2 ^ 31) (buf : Memory) {i : Nat}
    (inside : i < min length 32) : (dirReadWrites dentry length nbytes).apply buf i = dentry.byte i := by
  have exact : (toUnsigned nbytes : Int) = nbytes := toUnsigned_of_nonneg (by omega) (by omega)
  have copied : i < (if toUnsigned nbytes > length then length else toUnsigned nbytes) := by
    split <;> omega
  have place : i ≠ if length > 32 then 32 else length := by
    split <;> omega
  have name : i < length := by omega
  simp [dirReadWrites, Writes.apply, Writes.andThen, Writes.put, Writes.copy, copied, place, name]

theorem dirRead_strlen (room : 32 ≤ nbytes) (small : nbytes < 2 ^ 31) (buf : Memory)
    (terminated : dentry.strlen = some length) :
    firstNul ((dirReadWrites dentry length nbytes).apply buf) 33 = some (min length 32) := by
  refine firstNul_eq_some.mpr ⟨by omega, dirReadWrites_nul dentry length nbytes buf, ?_⟩
  intro lower less
  rw [dirReadWrites_apply room small buf less]
  exact (firstNul_eq_some.mp terminated).2.2 lower (by omega)

end

theorem directory_delivers (image : Image) : Delivers image .directory (32 ≤ ·) (dirOutcome image) := by
  intro task other index buf nbytes wake residue passed known room
  obtain ⟨console, read⟩ := read_eq_leaveRead passed image nbytes wake residue
  rw [read, leaveRead, Option.map_map, known]
  simp only [driverRead, dirRead, dirOutcome]
  have small := nbytes.toInt_lt
  rcases image.readDentryByIndex_cases (task.fds index).filePosition residue.dentry with
    ⟨past, lookup⟩ | ⟨inside, unterminated, lookup⟩ | ⟨stop, copied, inside, terminated, lookup, length, agree⟩
  · simp only [lookup, if_neg (Nat.not_lt_of_le past)]
    rfl
  · simp only [lookup, if_pos inside, unterminated]
    rfl
  · simp only [lookup, if_pos inside, terminated, length, Option.map_some, Function.comp_apply,
      dirRead_strlen room small buf length, Option.getD_some, Option.some.injEq, Prod.mk.injEq, true_and, data,
      Int.toNat_natCast]
    refine List.map_congr_left fun i member => ?_
    have before := List.mem_range.mp member
    rw [dirReadWrites_apply room small buf before, agree i (by omega)]

/-- The entry that a read of an unread directory meets. -/
theorem lists_iff {image : Image}
    (named : ∀ index < image.dirCount, 0 < (image.direntry index).nameLength)
    (counted : image.dirCount < 2 ^ 32) {descriptor : FileDescriptor} {i : Nat}
    (position : descriptor.filePosition = i % 2 ^ 32) (size : Int) :
    Lists image i ⟨size, dirOutcome image descriptor size⟩ ↔ Listable image i := by
  unfold Lists Listable dirOutcome
  simp only [position]
  by_cases listed : i < image.dirCount
  · have unwrapped : i % 2 ^ 32 = i := Nat.mod_eq_of_lt (by omega)
    rw [if_pos listed, if_pos listed, unwrapped]
    by_cases inside : i < image.inodeCount
    · rw [if_pos inside]
      cases terminated : (image.direntry i).strlen with
      | none => simp
      | some stop =>
          have length := Dentry.nameLength_of_strlen terminated
          simp [inside, length, Dentry.name]
    · rw [if_neg inside]
      have positive := named i listed
      refine iff_of_false ?_ (fun holds => inside holds.1)
      intro same
      have zero : (0 : Int) = (image.direntry i).nameLength :=
        congrArg (fun outcome => (outcome.map Prod.fst).getD 0) same
      omega
  · rw [if_neg listed, if_neg listed]
    generalize i % 2 ^ 32 = place
    by_cases inside : place < image.inodeCount
    · rw [if_pos inside, or_iff_right (by omega)]
      cases terminated : (image.direntry place).strlen with
      | none =>
          have nonzero := firstNul_eq_none.mp terminated 0 (by decide)
          simp [nonzero]
      | some stop =>
          obtain ⟨_, nul, before⟩ := firstNul_eq_some.mp terminated
          cases stop with
          | zero => simp [nul]
          | succ stop =>
              have nonzero := before 0 (Nat.succ_pos stop)
              refine iff_of_false ?_ nonzero
              intro same
              have zero : ((min (stop + 1) 32 : Nat) : Int) = 0 :=
                congrArg (fun outcome => (outcome.map Prod.fst).getD 0) same
              omega
    · rw [if_neg inside]
      exact iff_of_true rfl (Or.inl (by omega))

/-! ## Runs -/

theorem advance_directory {image : Image} {descriptor moved : FileDescriptor} {size : Int}
    (directory : descriptor.fops = .directory) (advanced : advance image descriptor size = some moved) :
    moved = { descriptor with filePosition := (descriptor.filePosition + 1) % 2 ^ 32 } := by
  simp only [advance, directory] at advanced
  split at advanced
  · cases advanced
  · rw [← Option.some.inj advanced, directory]

/-- The `i`-th read finds the position moved on by `i`. -/
theorem unroll_getElem (image : Image) (asked : List Int) (descriptor : FileDescriptor)
    (directory : descriptor.fops = .directory) (bounded : descriptor.filePosition < 2 ^ 32) (i : Nat)
    (inside : i < (unroll image (dirOutcome image) descriptor asked).length) :
    ∃ size, (unroll image (dirOutcome image) descriptor asked)[i] =
      ⟨size, dirOutcome image { descriptor with filePosition := (descriptor.filePosition + i) % 2 ^ 32 } size⟩ := by
  induction asked generalizing descriptor i with
  | nil => exact absurd inside (by simp [unroll])
  | cons size rest ih =>
      cases i with
      | zero =>
          have unmoved : (descriptor.filePosition + 0) % 2 ^ 32 = descriptor.filePosition :=
            Nat.mod_eq_of_lt bounded
          exact ⟨size, by simp only [unroll, List.getElem_cons_zero, unmoved]⟩
      | succ i =>
          cases advanced : advance image descriptor size with
          | none =>
              simp only [unroll, advanced, List.length_cons, List.length_nil] at inside
              omega
          | some moved =>
              have step := advance_directory directory advanced
              simp only [unroll, advanced, List.length_cons, Nat.succ_lt_succ_iff] at inside
              have wrapped : moved.filePosition < 2 ^ 32 := by
                rw [step]
                exact Nat.mod_lt _ (by decide)
              obtain ⟨asked, same⟩ := ih moved (by rw [step]; exact directory) wrapped i inside
              refine ⟨asked, ?_⟩
              simp only [unroll, advanced, List.getElem_cons_succ, same]
              have moves : (moved.filePosition + i) % 2 ^ 32 =
                  (descriptor.filePosition + (i + 1)) % 2 ^ 32 := by
                have place : moved.filePosition = (descriptor.filePosition + 1) % 2 ^ 32 := by rw [step]
                omega
              rw [moves, step]

/-- A directory opened by a process at any point of its run: the reads on the descriptor list
it, each entry once and nothing else, exactly when each of them meets the condition. -/
theorem listing_exact_iff (image : Image) (stale files : Table) (console : Console) (rtc : Rtc)
    (history : List Call) (before opened : Task) (fname : CString) (residue : Residue) (dentry : Dentry)
    (result : Result) (fd : Fin 8) (calls : List Call)
    (counted : 1 ≤ image.dirCount ∧ image.dirCount ≤ 63)
    (named : ∀ index < image.dirCount, 0 < (image.direntry index).nameLength)
    (reached : Transition.run (Task.step image) ⟨initFds stale, files, console, rtc⟩ history = some before)
    (found : image.readDentryByName fname residue.dentry = .found dentry) (directory : dentry.filetype = 1)
    (opening : before.open image fname residue = some (result, opened)) (returned : result.ret = fd.val)
    (only : ∀ request ∈ calls, ReadsOnly fd (32 ≤ ·) request) :
    (∀ i (inside : i < (readLog image fd opened calls).length), Lists image i (readLog image fd opened calls)[i]) ↔
      ∀ i < (readLog image fd opened calls).length, Listable image i := by
  obtain ⟨free, descriptor⟩ := opened_descriptor found opening returned
  have high := opened_not_standard reached free
  rw [directory] at descriptor
  have opens : opened.fds fd = ⟨.directory, dentry.inodeNum, 0, .open⟩ := descriptor
  obtain ⟨asked, _, log⟩ := readLog_eq_unroll (directory_delivers image)
    (by rintro rfl; exact absurd high (by decide)) only (by rw [opens]) (by rw [opens])
  rw [log, opens]
  refine forall_congr' fun i => forall_congr' fun inside => ?_
  obtain ⟨size, same⟩ :=
    unroll_getElem image asked ⟨.directory, dentry.inodeNum, 0, .open⟩ rfl (Nat.pow_pos (by decide)) i inside
  rw [same]
  exact lists_iff named (by omega) (by simp) size

def twoReads : List Call :=
  [.read 2 (some fun _ => 1) 32 Console.loaded .zeros, .read 2 (some fun _ => 1) 32 Console.loaded .zeros]

/-- The directory of the sample, as far as it is read. -/
theorem listing_exact_sample :
    ∃ result opened, Task.started.open Image.sample Image.dot .zeros = some (result, opened) ∧
      ∀ i (inside : i < (readLog Image.sample 2 opened twoReads).length),
        Lists Image.sample i (readLog Image.sample 2 opened twoReads)[i] := by
  have opens : (Task.started.open Image.sample Image.dot .zeros).map (fun answer =>
      (answer.1.ret, (readLog Image.sample 2 answer.2 twoReads).length)) = some (2, 2) := by
    decide +kernel
  obtain ⟨⟨result, opened⟩, opening, same⟩ := Option.map_eq_some_iff.mp opens
  obtain ⟨returned, same⟩ := Prod.mk.inj same
  have count : (readLog Image.sample 2 opened twoReads).length = 2 := same
  rcases Image.sample.readDentryByName_cases Image.sample_wellFormed Image.dot Residue.zeros.dentry with
    ⟨absent, _⟩ | ⟨entry, dentry, present, found, sameType, _, _⟩
  · exact absurd absent (by decide +kernel)
  · obtain rfl : entry = 0 := Option.some.inj (present.symm.trans (by decide +kernel))
    refine ⟨result, opened, opening, ?_⟩
    refine (listing_exact_iff Image.sample unusedTable (fileSystemInit unusedTable) Console.loaded ⟨0, false⟩ []
      Task.started opened Image.dot .zeros dentry result 2 _ (by decide +kernel) Image.sample_wellFormed.named rfl found
      (sameType.trans (by decide +kernel)) opening returned (by simp [twoReads, ReadsOnly])).mpr ?_
    intro i inside
    obtain rfl | rfl : i = 0 ∨ i = 1 := by omega
    · simp only [Listable]
      decide +kernel
    · simp only [Listable]
      decide +kernel

/-- One entry, two inodes, and a name left behind in the slot after the entry. -/
def staleImage : Image :=
  Image.layOut 1 2 [Image.entryBytes Image.dot.chars 1 0, Image.entryBytes (ascii ['o', 'l', 'd']) 2 1]
    [[], []] []

/-- The second read returns the name that is no entry. -/
theorem stale_slot_is_listed :
    staleImage.dirCount = 1 ∧ 0 < (staleImage.direntry 0).nameLength ∧
      ∃ result opened, Task.started.open staleImage Image.dot .zeros = some (result, opened) ∧
        result.ret = 2 ∧
        ¬ ∀ i (inside : i < (readLog staleImage 2 opened twoReads).length),
          Lists staleImage i (readLog staleImage 2 opened twoReads)[i] := by
  refine ⟨by decide +kernel, by decide +kernel, ?_⟩
  have seen : (Task.started.open staleImage Image.dot .zeros).map (fun answer =>
      (answer.1.ret, (readLog staleImage 2 answer.2 twoReads).map Delivery.outcome)) =
      some (2, [some (1, Image.dot.chars), some (3, ascii ['o', 'l', 'd'])]) := by
    decide +kernel
  obtain ⟨⟨result, opened⟩, opening, same⟩ := Option.map_eq_some_iff.mp seen
  obtain ⟨returned, log⟩ := Prod.mk.inj same
  refine ⟨result, opened, opening, returned, ?_⟩
  intro lists
  have count : (readLog staleImage 2 opened twoReads).length = 2 := by
    rw [← List.length_map (f := Delivery.outcome), log]
    rfl
  have second : (readLog staleImage 2 opened twoReads)[1].outcome = some (3, ascii ['o', 'l', 'd']) := by
    have named := congrArg (fun outcomes => outcomes[1]?) log
    simpa [count] using named
  have listed := lists 1 (by omega)
  rw [Lists, second] at listed
  exact absurd listed (by decide +kernel)

end LinuxLikeOS.DirectoryListing

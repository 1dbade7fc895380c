import LinuxLikeOS.Execute

/-!
# Where a program is loaded

`execute` maps the 4MB frame of the slot at 0x08000000 and copies the file to 0x08048000. An inode
can hold more than the frame has room for behind that address.
-/

namespace LinuxLikeOS

namespace Loading

open Kernel Execute Traced

/-- The entries name inodes of the image, and no file is longer than an inode can hold. -/
structure WellFormedImage (image : Image) : Prop where
  directory : image.WellFormedDirectory
  inodes : ∀ index < image.dirCount, (image.direntry index).inodeNum < image.inodeCount
  lengths : ∀ inode < image.inodeCount, image.length inode ≤ 1023 * 4096

/-- `EIGHTMB + slot * FOURMB`. -/
def frameOf (slot : Nat) : Nat := 0x800000 + 0x400000 * slot

/-- The frame of the slot gets the whole file and nothing else is written. -/
structure LoadsItsPage (image : Image) (inode slot : Nat) (kernel : Kernel) (memory : Memory)
    (outcome : Traced Nat Outcome) : Prop where
  entered : ∃ eip, outcome.value.exit = .enters eip
  whole : ∀ k < image.length inode,
    outcome.value.memory (frameOf slot + 0x48000 + k) = image.fileByte inode k
  inPage : ∀ linear ∈ outcome.log, 0x08048000 ≤ linear ∧ linear < 0x08400000
  -- the first 8MB, the kernel's, and the frames of all other slots
  frame : ∀ physical, physical < frameOf slot ∨ frameOf (slot + 1) ≤ physical →
    outcome.value.memory physical = memory physical
  others : ∀ pid : Int, pid ≠ slot → outcome.value.kernel.pcb pid = kernel.pcb pid

section

variable {image : Image} {layout : Layout} {command : CString} {frame : Frame} {locals : Locals}
  {kernel : Kernel} {memory : Memory} {dentry : Dentry} {slot : Nat}

theorem loadBase_eq (slot : Nat) : loadBase slot = frameOf slot + 0x48000 := by
  unfold loadBase userFrame frameOf
  omega

/-- The bytes of a file in a memory that they were stored to. -/
theorem bytes_apply (base : Nat) (bytes : List UInt8) (memory : Memory) (physical : Nat) :
    (Writes.bytes base bytes).apply memory physical =
      if base ≤ physical ∧ physical < base + bytes.length then bytes.getD (physical - base) 0
      else memory physical := by
  unfold Writes.apply Writes.bytes
  by_cases above : base ≤ physical
  · rw [if_pos above]
    by_cases below : physical < base + bytes.length
    · rw [if_pos ⟨above, below⟩, List.getD_eq_getElem?_getD, List.getElem?_eq_getElem (by omega)]
      rfl
    · rw [if_neg fun both => below both.2, List.getElem?_eq_none (by omega)]
      rfl
  · rw [if_neg above, if_neg fun both => above both.1]
    rfl

/-- An entry that is found names an inode of the image. -/
theorem inodeNum_lt (wellFormed : WellFormedImage image) {file : CString} {residue : Dentry}
    (found : image.readDentryByName file residue = .found dentry) : dentry.inodeNum < image.inodeCount := by
  rcases image.readDentryByName_cases wellFormed.directory file residue with
    ⟨_, failed⟩ | ⟨index, copied, named, lookup, _, inodeNum, _⟩
  · exact absurd (failed.symm.trans found) nofun
  · obtain rfl := Lookup.found.inj (lookup.symm.trans found)
    rw [inodeNum]
    exact wellFormed.inodes index (image.entryNamed_lt named)

/-- The copy takes the whole file. -/
theorem readData_whole (wellFormed : WellFormedImage image) {inode : Nat} (present : inode < image.inodeCount) :
    image.readData inode 0 (image.length inode) = image.file inode := by
  rw [image.readData_eq present (wellFormed.lengths inode present), List.drop_zero,
    List.take_of_length_le (Nat.le_of_eq (image.length_file inode))]

/-- A call that gets past the checks copies the file for the first free slot. -/
theorem execute_of_passes (layout : Layout) (frame : Frame) (memory : Memory)
    (wellFormed : WellFormedImage image) (passes : Passes image command locals kernel.newPid dentry)
    (free : freeSlot kernel.progs = some (slot : Int)) :
    slot ≤ 5 ∧ dentry.inodeNum < image.inodeCount ∧
      Execute.execute image layout command frame locals kernel memory =
        copyLoop layout (kernel.paging.mapUser slot) 0x08048000 memory (image.file dentry.inodeNum) >>=
          fun (fault, memory) =>
            match fault with
            | some linear => pure ⟨.faults linear, loading command slot kernel.begin, memory⟩
            | none => pure ⟨.enters (word32 (header image dentry.inodeNum locals.buf) 24),
                kernel.begin.start slot command frame, memory⟩ := by
  obtain ⟨file, named, found⟩ := passes.found
  have present := inodeNum_lt wellFormed found
  rcases execute_cases locals kernel memory with
    ⟨ret, checked, _⟩ | ⟨checked, _⟩ | ⟨other, same, _, outcome⟩
  · exact absurd (checked.symm.trans (check_of_passes passes)) nofun
  · exact absurd (checked.symm.trans (check_of_passes passes)) nofun
  · obtain ⟨file', named', found'⟩ := same.found
    obtain rfl := Option.some.inj (named.symm.trans named')
    obtain rfl := Lookup.found.inj (found.symm.trans found')
    rcases launch_cases dentry (header image dentry.inodeNum locals.buf) kernel.begin memory with
      ⟨none, _⟩ | ⟨taken, inside, first, launched⟩
    · exact absurd (free.symm.trans none) nofun
    · obtain rfl : slot = taken := Int.ofNat.inj (Option.some.inj (free.symm.trans first))
      rw [outcome, launched, readData_whole wellFormed present]
      exact ⟨inside, present, rfl⟩

/-- A file that fits is copied as a whole, within the page, and the program is entered. -/
theorem ensures_execute (layout : Layout) (frame : Frame) (memory : Memory)
    (wellFormed : WellFormedImage image) (passes : Passes image command locals kernel.newPid dentry)
    (free : freeSlot kernel.progs = some (slot : Int)) (fits : image.length dentry.inodeNum ≤ 0x3B8000) :
    Ensures (fun linear => 0x08048000 ≤ linear ∧ linear < 0x08400000)
      (· = ⟨.enters (word32 (header image dentry.inodeNum locals.buf) 24), kernel.begin.start slot command frame,
        (Writes.bytes (frameOf slot + 0x48000) (image.file dentry.inodeNum)).apply memory⟩)
      (Execute.execute image layout command frame locals kernel memory) := by
  obtain ⟨inside, present, outcome⟩ := execute_of_passes layout frame memory wellFormed passes free
  have room : 0x48000 + (image.file dentry.inodeNum).length ≤ 0x400000 := by
    rw [Image.length_file]
    omega
  rw [outcome, ← loadBase_eq]
  refine (copyLoop_fits inside kernel.paging memory room).bind fun copied same => ?_
  subst same
  exact ensures_pure rfl

theorem loadsItsPage_of_fits (layout : Layout) (frame : Frame) (memory : Memory)
    (wellFormed : WellFormedImage image) (passes : Passes image command locals kernel.newPid dentry)
    (free : freeSlot kernel.progs = some (slot : Int)) (fits : image.length dentry.inodeNum ≤ 0x3B8000) :
    LoadsItsPage image dentry.inodeNum slot kernel memory
      (Execute.execute image layout command frame locals kernel memory) := by
  obtain ⟨inPage, value⟩ := ensures_execute layout frame memory wellFormed passes free fits
  have next : frameOf (slot + 1) = frameOf slot + 0x400000 := by
    unfold frameOf
    omega
  have stored : (Execute.execute image layout command frame locals kernel memory).value.memory =
      (Writes.bytes (frameOf slot + 0x48000) (image.file dentry.inodeNum)).apply memory :=
    congrArg Outcome.memory value
  have started : (Execute.execute image layout command frame locals kernel memory).value.kernel =
      kernel.begin.start slot command frame :=
    congrArg Outcome.kernel value
  refine ⟨⟨_, congrArg Outcome.exit value⟩, ?_, inPage, ?_, ?_⟩
  · intro k inside
    have inFile : k < (image.file dentry.inodeNum).length := by
      rw [Image.length_file]
      exact inside
    have offset : frameOf slot + 0x48000 + k - (frameOf slot + 0x48000) = k := by omega
    rw [stored, bytes_apply, if_pos (by omega), offset, List.getD_eq_getElem _ _ inFile]
    simp [Image.file]
  · intro physical apart
    rw [stored, bytes_apply, Image.length_file]
    refine if_neg ?_
    omega
  · intro pid other
    rw [started]
    exact Function.update_of_ne other _ _

theorem fits_of_loadsItsPage (wellFormed : WellFormedImage image)
    (passes : Passes image command locals kernel.newPid dentry)
    (free : freeSlot kernel.progs = some (slot : Int))
    (loads : LoadsItsPage image dentry.inodeNum slot kernel memory
      (Execute.execute image layout command frame locals kernel memory)) :
    image.length dentry.inodeNum ≤ 0x3B8000 := by
  obtain ⟨inside, present, outcome⟩ := execute_of_passes layout frame memory wellFormed passes free
  refine Nat.le_of_not_lt fun long => ?_
  have room : 0x08400000 < 0x08048000 + (image.file dentry.inodeNum).length := by
    rw [Image.length_file]
    omega
  have written : 0x08400000 ∈ (Execute.execute image layout command frame locals kernel memory).log := by
    rw [outcome]
    exact List.mem_append_left _ (mem_log_copyLoop (by omega : 0 ≤ (slot : Int) ∧ (slot : Int) ≤ 5)
      (Paging.mapUser_usrIdx kernel.paging slot) memory (image.file dentry.inodeNum) (by decide) (by decide)
      room)
  exact absurd (loads.inPage 0x08400000 written).2 (Nat.lt_irrefl _)

/-- `execute` fills exactly the page of its slot if and only if the file is no longer than the room
behind the address where it is loaded. -/
theorem loads_its_page_iff (layout : Layout) (frame : Frame) (memory : Memory)
    (wellFormed : WellFormedImage image) (passes : Passes image command locals kernel.newPid dentry)
    (free : freeSlot kernel.progs = some (slot : Int)) :
    LoadsItsPage image dentry.inodeNum slot kernel memory
        (Execute.execute image layout command frame locals kernel memory) ↔
      image.length dentry.inodeNum ≤ 0x3B8000 :=
  ⟨fits_of_loadsItsPage wellFormed passes free, loadsItsPage_of_fits layout frame memory wellFormed passes free⟩

theorem sample_wellFormedImage : WellFormedImage Image.sample where
  directory := Image.sample_wellFormed
  inodes := by decide +kernel
  lengths := by decide +kernel

/-- The shell of the sample image, started from `entry`. -/
theorem loads_its_page_shell :
    ∃ dentry, Passes Image.sample Image.shell Locals.zeros booted.newPid dentry ∧
      LoadsItsPage Image.sample dentry.inodeNum 0 booted (fun _ => 0)
        (Execute.execute Image.sample Layout.sample Image.shell ⟨0, 0⟩ Locals.zeros booted fun _ => 0) := by
  have passes : Passes Image.sample Image.shell Locals.zeros booted.newPid _ :=
    ⟨by decide, by decide, ⟨_, rfl, rfl⟩, by decide +kernel⟩
  exact ⟨_, passes, (loads_its_page_iff Layout.sample ⟨0, 0⟩ (fun _ => 0) sample_wellFormedImage passes
    rfl).mpr (by decide +kernel)⟩

/-- One executable, a byte longer than the room. -/
def bigImage : Image :=
  Image.layOut 1 1 [Image.entryBytes Image.shell.chars 2 0] [[0x01, 0x80, 0x3B, 0]]
    [[0x7F, 0x45, 0x4C, 0x46] ++ List.replicate 24 0]

/-- Its last byte goes to 0x08400000. -/
theorem copy_leaves_page :
    WellFormedImage bigImage ∧ ∃ dentry, Passes bigImage Image.shell Locals.zeros booted.newPid dentry ∧
      freeSlot booted.progs = some 0 ∧
      ¬ LoadsItsPage bigImage dentry.inodeNum 0 booted (fun _ => 0)
        (Execute.execute bigImage Layout.sample Image.shell ⟨0, 0⟩ Locals.zeros booted fun _ => 0) := by
  have wellFormed : WellFormedImage bigImage :=
    ⟨⟨by decide +kernel, by decide +kernel, by decide +kernel⟩, by decide +kernel, by decide +kernel⟩
  have passes : Passes bigImage Image.shell Locals.zeros booted.newPid _ :=
    ⟨by decide, by decide, ⟨_, rfl, rfl⟩, by decide +kernel⟩
  refine ⟨wellFormed, _, passes, rfl, fun loads => ?_⟩
  have fits := fits_of_loadsItsPage wellFormed passes rfl loads
  exact absurd fits (by decide +kernel)

end

end Loading

end LinuxLikeOS

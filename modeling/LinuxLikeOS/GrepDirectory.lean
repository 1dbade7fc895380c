import LinuxLikeOS.Grep

/-!
# `grep` over the directory (`main` of `ece391grep.c`)

The program opens the directory and searches each of its files, all but those whose name starts with a
full stop.
-/

namespace LinuxLikeOS.Programs

open Function Blocks Fueled LinuxLikeOS.Task LinuxLikeOS.ProcessTable LinuxLikeOS.DescriptorRefinement

section

variable (image : Image) (world : World) (fuel search buf data : Nat)

def searchEntry (fd : Int) (walking : Walking) : Fueled Nat Walking := do
  let (cnt, process) ← ece391Read image world fd buf 32 walking.process
  if cnt = 0 then pure ⟨some 0, process⟩
  else if cnt = -1 then do
    let process ← fdputsLiteral image world 1 (ascii "directory entry read failed\n".toList) process
    pure ⟨some 3, process⟩
  else do
    access buf
    if process.memory buf = 46 then pure ⟨none, process⟩ -- a directory...
    else do
      access (buf + cnt.toNat)
      let ended := { process with memory := update process.memory (buf + cnt.toNat) 0 }
      let (status, process) ← doOneFile image world fuel search buf data ended
      pure ⟨if status ≠ 0 then some 3 else none, process⟩

def grepMain (process : Process) : Fueled Nat (Int × Process) := do
  let (status, process) ← ece391Getargs world search 1024 process
  if status ≠ 0 then do
    let process ← fdputsLiteral image world 1 (ascii "could not read argument\n".toList) process
    pure (3, process)
  else do
    let (fd, process) ← process.request image world (.open Image.dot (world.residue process.calls)) 0
    if fd = -1 then do
      let process ← fdputsLiteral image world 1 (ascii "directory open failed\n".toList) process
      pure (2, process)
    else do
      let walking ← whileLoop (fun walking => pure walking.returned.isNone)
        (searchEntry image world fuel search buf data fd) fuel ⟨none, process⟩
      pure (walking.returned.getD 0, walking.process)

end

/-- A directory that lists each file once, under its own name, with its blocks in order. -/
structure Searchable (image : Image) : Prop where
  wellFormed : image.WellFormedDirectory
  ends : image.inodeCount ≤ image.dirCount ∨ (image.direntry image.dirCount).byte 0 = 0
  directory : ∃ k, image.entryNamed Image.dot = some k ∧ (image.direntry k).filetype = 1
  found : ∀ k < image.dirCount, ∀ fname : CString, fname.chars = (image.direntry k).name →
    image.entryNamed fname = some k
  files : ∀ k < image.dirCount, (image.direntry k).name.head? ≠ some 46 →
    (image.direntry k).filetype = 0 ∨ (image.direntry k).filetype = 2 ∧
      (image.direntry k).inodeNum < image.inodeCount ∧ image.length (image.direntry k).inodeNum ≤ 1023 * 4096

/-- What is printed for an entry: nothing for those that are skipped and for the RTC, the lines with the
string for a text. -/
structure Found (image : Image) (search : List UInt8) (entry : Dentry) (text : List UInt8) : Prop where
  skipped : entry.name.head? = some 46 ∨ entry.filetype = 0 → text = []
  lines : entry.name.head? ≠ some 46 → entry.filetype = 2 → Plain (image.file entry.inodeNum) →
    text = matchingLines search entry.name (image.file entry.inodeNum)

/-- The descriptors while the directory is read: no file is open between two entries. -/
structure Walked (fds : Table) (inode position : Nat) : Prop where
  standard : StandardOpen fds
  directory : fds 2 = ⟨.directory, inode, position, .open⟩
  closed : ∀ fd : Fin 8, 3 ≤ fd.val → (fds fd).flags = .close

section

variable {image : Image} {world : World} {fuel search buf data inode position k : Nat} {pattern name : List UInt8}
  {fds : Table} {start process : Process} {P : Nat → Prop}

theorem Walked.free (walked : Walked fds inode position) : firstClosed fds = some 3 := by
  refine firstClosed_eq_some.mpr ⟨walked.closed 3 (by decide), fun lower less => ?_⟩
  by_cases low : lower.val < 2
  · exact (walked.standard lower low).1
  · obtain rfl : lower = 2 := by omega
    rw [walked.directory]

theorem Walked.spare (walked : Walked fds inode position) (descriptor : FileDescriptor) :
    firstClosed (update fds 3 descriptor) ≠ none := by
  have closed : (update fds 3 descriptor 4).flags = .close := by
    rw [update_of_ne (by decide)]
    exact walked.closed 4 (by decide)
  exact firstClosed_ne_none closed

/-- A file that was opened on descriptor 3 has been closed again. -/
theorem Walked.after (walked : Walked fds inode position) {descriptor : FileDescriptor}
    (closed : descriptor.flags = .close) : Walked (update fds 3 descriptor) inode position where
  standard fd low := by
    have apart : fd ≠ 3 := by
      rintro rfl
      exact absurd low (by decide)
    rw [update_of_ne apart]
    exact walked.standard fd low
  directory := by
    rw [update_of_ne (by decide)]
    exact walked.directory
  closed fd high := by
    by_cases here : fd = 3
    · rw [here, update_self, closed]
    · rw [update_of_ne here]
      exact walked.closed fd high

/-- The position has moved on. -/
theorem Walked.moved (walked : Walked fds inode position) (next : Nat) :
    Walked (update fds 2 ⟨.directory, inode, next, .open⟩) inode next where
  standard fd low := by
    have apart : fd ≠ 2 := by
      rintro rfl
      exact absurd low (by decide)
    rw [update_of_ne apart]
    exact walked.standard fd low
  directory := update_self ..
  closed fd high := by
    have apart : fd ≠ 2 := by
      rintro rfl
      exact absurd high (by decide)
    rw [update_of_ne apart]
    exact walked.closed fd high

/-- A process that has just been started opens the directory. -/
theorem openDot_returns {steady : Prop} (considerate : steady → world.Considerate)
    (wellFormed : image.WellFormedDirectory) (entry : image.entryNamed Image.dot = some k)
    (directory : (image.direntry k).filetype = 1)
    (slot : HasSlot (process.meets world).files (world.residue process.calls)) {stale : Table}
    (fds : process.fds = initFds stale) :
    Returns P (fun answer => answer.1 = ((2 : Fin 8).val : Int) ∧ Does world steady process answer.2 [] ∧
        (∃ inode, Walked answer.2.fds inode 0) ∧ answer.2.memory = process.memory)
      (process.request image world (.open Image.dot (world.residue process.calls)) 0) := by
  have standard := initFds_standardOpen stale
  rcases image.readDentryByName_cases wellFormed Image.dot (world.residue process.calls).dentry with
    ⟨missing, -⟩ | ⟨index, copied, entry', found, sameType, -, -⟩
  · rw [entry] at missing
    cases missing
  obtain rfl : k = index := Option.some.inj (entry.symm.trans entry')
  refine (openRequest_returns considerate Image.dot found (by omega) (by rw [fds, firstClosed_initFds])
    (Or.inr slot)).imp ?_
  rintro ⟨fd, opened⟩ ⟨rfl, does, table, memory⟩
  rw [fds, sameType, directory] at table
  refine ⟨rfl, does, ⟨copied.inodeNum, fun fd low => ?_, by rw [table, update_self]; rfl, fun fd high => ?_⟩, memory⟩
  · have apart : fd ≠ 2 := by
      rintro rfl
      exact absurd low (by decide)
    rw [table, update_of_ne apart]
    exact standard fd low
  · have apart : fd ≠ 2 := by
      rintro rfl
      exact absurd high (by decide)
    have closed : initFds stale fd = { stale fd with flags := .close } := if_neg (by omega)
    rw [table, update_of_ne apart, closed]

/-- The file of an entry. -/
theorem entry_returns (searchable : Searchable image) (laid : Laid process.memory search buf data pattern name)
    (walked : Walked process.fds inode position) (room : world.Considerate ∧ Room process.shared)
    (enough : 2 ^ 32 + 1060 + pattern.length < fuel) (sentinel : process.memory (data + 1024) ≠ 10)
    (listed : k < image.dirCount) (named : name = (image.direntry k).name) (shown : name.head? ≠ some 46) :
    Returns (Allowed search buf data pattern name) (fun answer => answer.1 = 0 ∧ ∃ text table,
        Worked world world.Considerate data process table answer.2 text ∧ Walked table inode position ∧
          Found image pattern (image.direntry k) text)
      (doOneFile image world fuel search buf data process) := by
  subst named
  have short : (image.direntry k).name.length ≤ 32 := by
    rw [Dentry.length_name]
    exact Dentry.nameLength_le _
  have sized : ∀ inode, image.length inode < 2 ^ 32 := fun inode => word32_lt image.byte _
  rcases image.readDentryByName_cases searchable.wellFormed
    ⟨process.memory (buf - 1), (image.direntry k).name, laid.file.noNul⟩ (world.residue process.calls).dentry with
    ⟨missing, -⟩ | ⟨index, copied, entry, found, sameType, sameInode, -⟩
  · rw [searchable.found k listed _ rfl] at missing
    cases missing
  · rw [searchable.found k listed _ rfl] at entry
    obtain rfl : k = index := Option.some.inj entry
    have considerate : world.Considerate → world.Considerate := id
    have slot : HasSlot (process.meets world).files (world.residue process.calls) :=
      Or.inl (room.1 process.calls process.shared room.2)
    have spare := walked.spare
    rcases searchable.files k listed shown with rtc | ⟨regular, present, fits⟩
    · refine (doOneFile_rtc_returns considerate laid walked.standard (by omega) (by omega) found
        (sameType.trans rtc) walked.free fun _ => spare _).imp ?_
      rintro ⟨status, after⟩ ⟨succeeded, worked⟩
      refine ⟨succeeded, [], _, worked, walked.after rfl, fun _ => rfl, fun _ regular => ?_⟩
      rw [rtc] at regular
      cases regular
    · have size := sized copied.inodeNum
      refine (doOneFile_returns considerate laid walked.standard (by omega) (by omega) (by omega)
        found (sameType.trans regular) walked.free slot (fun _ => spare _) (sameInode ▸ present)
        (sameInode ▸ fits)).imp ?_
      rintro ⟨status, after⟩ ⟨succeeded, text, worked, exact⟩
      refine ⟨succeeded, text, _, worked, walked.after rfl, fun skipped => ?_, fun _ _ isPlain => ?_⟩
      · rcases skipped with hidden | rtc
        · exact absurd hidden shown
        · rw [rtc] at regular
          cases regular
      · rw [sameInode] at exact
        exact exact ⟨isPlain, sentinel⟩

/-- The bytes that `main` and `do_one_file` may touch. -/
def Reachable (search buf data : Nat) (address : Nat) : Prop :=
  Within search 1024 address ∨ Within buf 33 address ∨ Within data 1025 address

/-- The entries up to the `k`-th have been searched. -/
structure Walks (image : Image) (world : World) (search buf data : Nat) (pattern : List UInt8) (start : Process)
    (k : Nat) (process : Process) : Prop where
  room : Room process.shared
  string : StringAt process.memory search pattern
  sentinel : process.memory (data + 1024) ≠ 10
  outside : ∀ address, ¬ Reachable search buf data address → process.memory address = start.memory address
  printed : ∃ texts : Nat → List UInt8,
    Does world world.Considerate start process ((List.range k).flatMap texts) ∧
      ∀ i < k, Found image pattern (image.direntry i) (texts i)

theorem Walks.next (walks : Walks image world search buf data pattern start k process) {after : Process}
    {text : List UInt8} (found : Found image pattern (image.direntry k) text)
    (does : Does world world.Considerate process after text) (considerate : world.Considerate)
    (string : StringAt after.memory search pattern) (sentinel : after.memory (data + 1024) ≠ 10)
    (outside : ∀ address, ¬ Reachable search buf data address → after.memory address = process.memory address) :
    Walks image world search buf data pattern start (k + 1) after := by
  obtain ⟨texts, before, each⟩ := walks.printed
  refine ⟨does.room considerate walks.room, string, sentinel,
    fun address away => (outside address away).trans (walks.outside address away), update texts k text, ?_,
    fun i inside => ?_⟩
  · have same : (List.range k).flatMap (update texts k text) = (List.range k).flatMap texts :=
      List.flatMap_congr fun i member => update_of_ne (Nat.ne_of_lt (List.mem_range.mp member)) _ _
    rw [List.range_succ, List.flatMap_append, same, List.flatMap_singleton, update_self]
    exact before.trans does
  · by_cases last : i = k
    · rw [last, update_self]
      exact found
    · rw [update_of_ne last]
      exact each i (by omega)

/-- An entry whose read returns 0 ends the directory. -/
theorem terminated_of_ends (wellFormed : image.WellFormedDirectory)
    (ends : image.inodeCount ≤ image.dirCount ∨ (image.direntry image.dirCount).byte 0 = 0)
    (inside : k ≤ image.dirCount)
    (slot : k < image.inodeCount) : (image.direntry k).strlen ≠ none ∧
      (k = image.dirCount → (image.direntry k).name = []) := by
  rcases Nat.lt_or_eq_of_le inside with listed | rfl
  · have typed := wellFormed.typed k listed
    exact ⟨Option.isSome_iff_ne_none.mp (Dentry.strlen_isSome_of_filetype_lt (by omega)), fun last => by omega⟩
  · have nul := ends.resolve_left (Nat.not_le_of_lt slot)
    have strlen : (image.direntry image.dirCount).strlen = some 0 := firstNul_eq_some.mpr ⟨by decide, nul, nofun⟩
    refine ⟨by rw [strlen]; exact Option.some_ne_none 0, fun _ => ?_⟩
    rw [name_eq strlen]
    rfl

/-- The three buffers do not overlap. -/
structure Frames (search buf data : Nat) : Prop where
  names : Apart search 1024 buf 33
  strings : Apart data 1025 search 1024
  files : Apart data 1025 buf 33

theorem allowed_reachable (fits : pattern.length < 1024) (short : name.length ≤ 32)
    {address : Nat} (allowed : Allowed search buf data pattern name address) : Reachable search buf data address := by
  rcases allowed with inside | inside | inside
  · exact Or.inr (Or.inr inside)
  · exact Or.inl ⟨inside.1, by have := inside.2; omega⟩
  · exact Or.inr (Or.inl ⟨inside.1, by have := inside.2; omega⟩)

/-- What the run on a whole directory does: it prints what is found in each entry, in their order, and changes
nothing but its buffers. -/
def Searched (image : Image) (world : World) (search buf data : Nat) (pattern : List UInt8) (before after : Process) :
    Prop :=
  (∃ texts : Nat → List UInt8, Does world world.Considerate before after ((List.range image.dirCount).flatMap texts) ∧
    ∀ k < image.dirCount, Found image pattern (image.direntry k) (texts k)) ∧
  ∀ address, ¬ Reachable search buf data address → after.memory address = before.memory address

/-- One round of the loop over the directory. -/
theorem searchEntry_returns (searchable : Searchable image) (considerate : world.Considerate)
    (frames : Frames search buf data) (fits : pattern.length < 1024) (enough : 2 ^ 32 + 1060 + pattern.length < fuel)
    (inside : k ≤ image.dirCount) (walked : Walked process.fds inode k)
    (walks : Walks image world search buf data pattern start k process) :
    Returns (Reachable search buf data) (fun next =>
        (next.returned = none ∧ ∃ further, k < further ∧ further ≤ image.dirCount ∧
            Walked next.process.fds inode further ∧
              Walks image world search buf data pattern start further next.process) ∨
          next.returned = some 0 ∧ Searched image world search buf data pattern start next.process)
      (searchEntry image world fuel search buf data 2 ⟨none, process⟩) := by
  have steady : world.Considerate → firstClosed process.fds ≠ none := fun _ => by
    rw [walked.free]
    exact Option.some_ne_none 3
  have slots := fun slot => terminated_of_ends (k := k) searchable.wellFormed searchable.ends inside slot
  have notStdout : (2 : Fin 8) ≠ 1 := by decide
  refine (readDir_returns notStdout walked.directory (fun slot => (slots slot).1) steady).bind ?_
  rintro ⟨cnt, after⟩ ⟨does, table, outside, answer⟩
  have string : StringAt after.memory search pattern := by
    refine walks.string.congr fun place within => outside place fun other => ?_
    have apart := frames.names
    unfold Apart at apart
    unfold Within at within other
    omega
  have sentinel : after.memory (data + 1024) ≠ 10 := by
    rw [outside]
    · exact walks.sentinel
    · have apart := frames.files
      unfold Apart at apart
      unfold Within
      omega
  have room := does.room considerate walks.room
  have untouched : ∀ address, ¬ Reachable search buf data address → after.memory address = process.memory address :=
    fun address away => outside address fun inside => away (Or.inr (Or.inl inside))
  by_cases listed : k < image.dirCount
  · have counts := searchable.wellFormed.counts
    have bound : image.dirCount < 2 ^ 32 := word32_lt image.byte 0
    have next : (k + 1) % 2 ^ 32 = k + 1 := Nat.mod_eq_of_lt (by omega)
    have moved : Walked after.fds inode (k + 1) := by
      rw [table, next]
      exact walked.moved (k + 1)
    rw [if_pos (by omega)] at answer
    obtain ⟨counted, name⟩ := answer
    have some : 0 < (image.direntry k).name.length := by
      rw [Dentry.length_name]
      exact searchable.wellFormed.named k listed
    have short : (image.direntry k).name.length ≤ 32 := by
      rw [Dentry.length_name]
      exact Dentry.nameLength_le _
    have count : cnt = (image.direntry k).name.length := counted
    have notEnd : ¬ cnt = 0 := by omega
    have notFailed : ¬ cnt = -1 := by omega
    have first : after.memory buf = (image.direntry k).name[0] := name.chars 0 some
    have head : (image.direntry k).name.head? = Option.some (after.memory buf) := by
      rw [first, List.head?_eq_getElem?, List.getElem?_eq_getElem some]
    simp only [if_neg notEnd, if_neg notFailed]
    refine returns_access_bind (Or.inr (Or.inl (within_add buf (by decide : 0 < 33)))) ?_
    by_cases hidden : after.memory buf = 46
    · simp only [if_pos hidden]
      rw [hidden] at head
      have found : Found image pattern (image.direntry k) [] := ⟨fun _ => rfl, fun shown => absurd head shown⟩
      exact returns_pure (Or.inl ⟨rfl, k + 1, Nat.lt_succ_self k, listed, moved,
        walks.next found does considerate string sentinel untouched⟩)
    · simp only [if_neg hidden]
      have place : buf + cnt.toNat = buf + (image.direntry k).name.length := by omega
      have unchanged : update after.memory (buf + cnt.toNat) 0 = after.memory := by
        rw [place, ← name.nul, update_eq_self]
      rw [unchanged]
      refine returns_access_bind (Or.inr (Or.inl (by rw [place]; exact within_add buf (by omega)))) ?_
      have laid : Laid after.memory search buf data pattern (image.direntry k).name :=
        ⟨string, name, frames.strings.mono (Nat.le_refl _) (by omega), frames.files.mono (Nat.le_refl _) (by omega)⟩
      have shown : (image.direntry k).name.head? ≠ Option.some 46 := fun same =>
        hidden (Option.some.inj (head.symm.trans same))
      refine ((entry_returns searchable laid moved ⟨considerate, room⟩ enough sentinel listed rfl shown).mono
        fun address allowed => allowed_reachable fits short allowed).bind ?_
      rintro ⟨status, searched⟩ ⟨succeeded, text, final, worked, walked', found⟩
      have passed : ¬ status ≠ 0 := fun failed => failed succeeded
      rw [if_neg passed]
      have tables : Walked searched.fds inode (k + 1) := worked.fds.symm ▸ walked'
      refine returns_pure (Or.inl ⟨rfl, k + 1, Nat.lt_succ_self k, listed, tables, walks.next found ?_ ?_ ?_ ?_ ?_⟩)
      · exact does.trans worked.does
      · exact considerate
      · exact (laid.kept worked.kept).pattern
      · exact worked.kept.sentinel sentinel
      · exact fun address away =>
          (worked.kept.outside address fun inside => away (Or.inr (Or.inr inside))).trans (untouched address away)
  · obtain rfl : k = image.dirCount := Nat.le_antisymm inside (Nat.le_of_not_lt listed)
    have ended : cnt = 0 := by
      by_cases slot : image.dirCount < image.inodeCount
      · rw [if_pos slot] at answer
        exact answer.1.trans (by rw [(slots slot).2 rfl]; rfl)
      · rwa [if_neg slot] at answer
    obtain ⟨texts, before, each⟩ := walks.printed
    simp only [if_pos ended]
    have all := before.trans does
    rw [List.append_nil] at all
    exact returns_pure (Or.inr ⟨rfl, ⟨texts, all, each⟩, fun address away =>
      (untouched address away).trans (walks.outside address away)⟩)

/-- `grep` on a directory of files, where the others leave a slot of the global table: it reaches the end of each,
prints the matching lines of the texts in the order of the directory, and touches nothing but its buffers. -/
theorem grep_searches_directory (searchable : Searchable image) (considerate : world.Considerate)
    (room : Room start.shared) (stale : Table) (fresh : start.fds = initFds stale) (noNul : 0 ∉ start.argBuff)
    (stored : start.argBuff.length ≤ 127) (given : Kernel.arguments start.argBuff ≠ [])
    (frames : Frames search buf data) (sentinel : start.memory (data + 1024) ≠ 10) (enough : 2 ^ 32 + 1187 < fuel) :
    Returns (Reachable search buf data)
      (fun answer => answer.1 = 0 ∧
        Searched image world search buf data (Kernel.arguments start.argBuff) start answer.2)
      (grepMain image world fuel search buf data start) := by
  have short : (Kernel.arguments start.argBuff).length ≤ 127 :=
    (GetArgs.arguments_sublist start.argBuff).length_le.trans stored
  have apart : ¬ Within search 1024 (data + 1024) := by
    have apart := frames.strings
    unfold Apart at apart
    unfold Within
    omega
  refine (getargs_returns world.Considerate noNul stored given (by decide) (by decide) search).bind ?_
  rintro ⟨status, process⟩ ⟨rfl, does, table, outside, string, -⟩
  simp only [ne_eq, not_true, if_false]
  have room' := does.room considerate room
  obtain ⟨k, entry, directory⟩ := searchable.directory
  have here : world.Considerate → world.Considerate := id
  refine (openDot_returns here searchable.wellFormed entry directory
    (Or.inl (considerate process.calls process.shared room')) (table.trans fresh)).bind ?_
  rintro ⟨fd, opened⟩ ⟨rfl, does', ⟨inode, walked⟩, memory⟩
  have nothing : (List.range 0).flatMap (fun _ : Nat => ([] : List UInt8)) = [] := rfl
  have walks : Walks image world search buf data (Kernel.arguments start.argBuff) start 0 opened := by
    refine ⟨does'.room considerate room', memory.symm ▸ string, ?_, fun address away => ?_, fun _ => [], ?_, nofun⟩
    · rw [memory, outside _ apart]
      exact sentinel
    · rw [memory]
      exact outside address fun inside => away (Or.inl inside)
    · rw [nothing]
      exact does.trans does'
  have succeeded : ¬ ((2 : Fin 8).val : Int) = -1 := by decide
  simp only [if_neg succeeded]
  have bound : image.dirCount < 2 ^ 32 := word32_lt image.byte 0
  refine (walk_returns (fun process => (process.fds 2).filePosition)
    (fun k process => Walked process.fds inode k ∧
      Walks image world search buf data (Kernel.arguments start.argBuff) start k process)
    (Searched image world search buf data (Kernel.arguments start.argBuff) start)
    (fun both => congrArg FileDescriptor.filePosition both.1.directory)
    (fun k process inside both => searchEntry_returns searchable considerate frames (by omega) (by omega) inside
      both.1 both.2) ⟨walked, walks⟩ (by omega)).bind ?_
  rintro walking ⟨returned, searched⟩
  exact returns_pure ⟨by rw [returned]; rfl, searched⟩

end

/-- The search depends on the name alone. -/
theorem entryNamed_congr {image : Image} {fname other : CString} (same : fname.chars = other.chars) :
    image.entryNamed fname = image.entryNamed other := by
  unfold Image.entryNamed Image.stem
  rw [same]

theorem sample_searchable : Searchable Image.sample where
  wellFormed := Image.sample_wellFormed
  ends := by decide +kernel
  directory := ⟨0, by decide +kernel, by decide +kernel⟩
  found k listed fname named := by
    have each : ∀ k < Image.sample.dirCount,
        Image.sample.entryNamed ⟨0, (Image.sample.direntry k).name, name_noNul _⟩ = some k := by decide +kernel
    rw [← each k listed]
    exact entryNamed_congr named
  files := by decide +kernel

theorem grep_searches_sample : Returns (Reachable 0 2000 3000)
    (fun answer => answer.1 = 0 ∧ Searched Image.sample World.quiet 0 2000 3000
      (Kernel.arguments (ascii "grep ell".toList)) (Process.started "grep ell") answer.2)
    (grepMain Image.sample World.quiet (2 ^ 32 + 1188) 0 2000 3000 (Process.started "grep ell")) :=
  grep_searches_directory sample_searchable (fun _ _ room => room) (room_started _) unusedTable rfl (by decide)
    (by decide) (by decide) ⟨Or.inl (by decide), Or.inr (by decide), Or.inr (by decide)⟩ (by decide) (by decide)

end LinuxLikeOS.Programs

import LinuxLikeOS.GrepDirectory

/-!
# `cat` and `ls` (`ece391cat.c`, `ece391ls.c`)
-/

namespace LinuxLikeOS.Programs

open Function Blocks Fueled LinuxLikeOS.Task LinuxLikeOS.ProcessTable LinuxLikeOS.DescriptorRefinement

section

variable (image : Image) (world : World) (fuel buf : Nat)

/-- One round of the loop of `cat`, with what `main` has returned. -/
def copyOut (fd : Int) (walking : Walking) : Fueled Nat Walking := do
  let (cnt, process) ← ece391Read image world fd buf 1024 walking.process
  if cnt = 0 then pure ⟨some 0, process⟩
  else if cnt = -1 then do
    let process ← fdputsLiteral image world 1 (ascii "file read failed\n".toList) process
    pure ⟨some 3, process⟩
  else do
    let (status, process) ← ece391Write image world 1 buf cnt process
    pure ⟨if status = -1 then some 3 else none, process⟩

def catMain (process : Process) : Fueled Nat (Int × Process) := do
  let (status, process) ← ece391Getargs world buf 1024 process
  if status ≠ 0 then do
    let process ← fdputsLiteral image world 1 (ascii "could not read arguments\n".toList) process
    pure (3, process)
  else do
    let (fd, process) ← ece391Open image world fuel buf process
    if fd = -1 then do
      let process ← fdputsLiteral image world 1 (ascii "file not found\n".toList) process
      pure (2, process)
    else do
      let walking ← whileLoop (fun walking => pure walking.returned.isNone) (copyOut image world buf fd) fuel
        ⟨none, process⟩
      pure (walking.returned.getD 0, walking.process)

/-- One round of the loop of `ls`. -/
def listEntry (fd : Int) (walking : Walking) : Fueled Nat Walking := do
  let (cnt, process) ← ece391Read image world fd buf 32 walking.process
  if cnt = 0 then pure ⟨some 0, process⟩
  else if cnt = -1 then do
    let process ← fdputsLiteral image world 1 (ascii "directory entry read failed\n".toList) process
    pure ⟨some 3, process⟩
  else do
    access (buf + cnt.toNat)
    let ended := { process with memory := update process.memory (buf + cnt.toNat) 10 }
    let (status, process) ← ece391Write image world 1 buf (cnt + 1) ended
    pure ⟨if status = -1 then some 3 else none, process⟩

def lsMain (process : Process) : Fueled Nat (Int × Process) := do
  let (fd, process) ← process.request image world (.open Image.dot (world.residue process.calls)) 0
  if fd = -1 then do
    let process ← fdputsLiteral image world 1 (ascii "directory open failed\n".toList) process
    pure (2, process)
  else do
    let walking ← whileLoop (fun walking => pure walking.returned.isNone) (listEntry image world buf fd) fuel
      ⟨none, process⟩
    pure (walking.returned.getD 0, walking.process)

end

/-! ## `cat` -/

section

variable {image : Image} {world : World} {fuel buf inode position : Nat} {fd : Fin 8} {start process : Process}
  {P : Nat → Prop}

/-- The file has been written up to a position. -/
structure Copied (image : Image) (world : World) (buf inode : Nat) (fd : Fin 8) (start : Process) (position : Nat)
    (process : Process) : Prop where
  does : Does world False start process ((image.file inode).take position)
  fds : process.fds = readUpTo start.fds fd inode position
  outside : ∀ address, ¬ Within buf 1024 address → process.memory address = start.memory address

theorem copyOut_returns (standard : StandardOpen start.fds) (high : 2 ≤ fd.val) (present : inode < image.inodeCount)
    (fits : image.length inode ≤ 1023 * 4096) (inside : position ≤ image.length inode)
    (copied : Copied image world buf inode fd start position process) :
    Returns P (fun next =>
        (next.returned = none ∧ ∃ further, position < further ∧ further ≤ image.length inode ∧
            Copied image world buf inode fd start further next.process) ∨
          next.returned = some 0 ∧ Copied image world buf inode fd start (image.length inode) next.process)
      (copyOut image world buf fd.val ⟨none, process⟩) := by
  have notStdout : fd ≠ 1 := by
    rintro rfl
    exact absurd high (by decide)
  have opened : process.fds fd = ⟨.file, inode, position, .open⟩ := by rw [copied.fds, readUpTo, update_self]
  refine (read_returns notStdout opened present fits inside (by decide : 1024 < 2 ^ 31) False.elim).bind ?_
  generalize chunkIs : ((image.file inode).drop position).take 1024 = chunk
  rintro ⟨cnt, after⟩ ⟨rfl, does, table, stored⟩
  have length : chunk.length = min 1024 (image.length inode - position) := by rw [← chunkIs]; simp
  have taken : (image.file inode).take position ++ chunk = (image.file inode).take (position + chunk.length) := by
    rw [List.take_add, ← chunkIs, List.length_take, ← List.take_eq_take_min]
  have fds : after.fds = readUpTo start.fds fd inode (position + chunk.length) := by
    rw [table, copied.fds, readUpTo, update_idem]
    rfl
  have outside : ∀ address, ¬ Within buf 1024 address → after.memory address = start.memory address := by
    intro address away
    rw [stored, written_outside, copied.outside address away]
    intro within
    rw [List.length_append, List.length_replicate] at within
    exact away ⟨within.1, by have := within.2; omega⟩
  have text : (List.range chunk.length).map (behind after.memory buf) = chunk := by
    refine List.ext_getElem (by simp) fun i _ early => ?_
    rw [List.getElem_map, List.getElem_range, stored, behind,
      written_inside _ (by rw [List.length_append]; omega), List.getElem_append_left early]
  by_cases spent : (chunk.length : Int) = 0
  · have all : position + chunk.length = image.length inode := by omega
    have same : chunk = [] := List.eq_nil_of_length_eq_zero (by omega)
    simp only [if_pos spent]
    refine returns_pure (Or.inr ⟨rfl, ?_, all ▸ fds, outside⟩)
    have both := copied.does.trans does
    rwa [List.append_nil, ← List.append_nil (List.take _ _), ← same, taken, all] at both
  · have notFailed : ¬ (chunk.length : Int) = -1 := by omega
    simp only [if_neg spent, if_neg notFailed]
    have standard' : StandardOpen after.fds := fds ▸ readUpTo_standard standard high inode _
    refine (write_returns (False.elim : False → world.Considerate) standard' (behind after.memory buf) (by omega)
      0).bind ?_
    rintro ⟨status, last⟩ ⟨rfl, prints⟩
    rw [text] at prints
    simp only [if_neg notFailed]
    refine returns_pure (Or.inl ⟨rfl, position + chunk.length, by omega, by omega, ?_, prints.fds.trans fds, ?_⟩)
    · have all := (copied.does.trans does).trans prints.toDoes
      rwa [List.append_nil, taken] at all
    · rw [prints.memory]
      exact outside

theorem nonempty_of_entryNamed (wellFormed : image.WellFormedDirectory) {fname : CString} {k : Nat}
    (found : image.entryNamed fname = some k) : fname.chars ≠ [] := by
  intro empty
  have same : (image.direntry k).name = Image.stem fname := by simpa using List.find?_some found
  have length := wellFormed.named k (image.entryNamed_lt found)
  rw [← Dentry.length_name, same, Image.stem, empty] at length
  exact absurd length (by decide)

/-- `cat` writes the bytes of a regular file to the terminal, all of them and in order, and nothing else, if the global
table has a slot at the time of its open; undisturbed on a cleared screen, it leaves the last rows of the file there. -/
theorem cat_prints_the_file (wellFormed : image.WellFormedDirectory) (stale : Table) (fresh : start.fds = initFds stale)
    (noNul : 0 ∉ start.argBuff) (stored : start.argBuff.length ≤ 127) {k : Nat} (fname : CString)
    (named : fname.chars = Kernel.arguments start.argBuff) (found : image.entryNamed fname = some k)
    (regular : (image.direntry k).filetype = 2) (inode_eq : (image.direntry k).inodeNum = inode)
    (present : inode < image.inodeCount) (fits : image.length inode ≤ 1023 * 4096)
    (slot : HasSlot (world.change (start.calls + 1) start.shared).files (world.residue (start.calls + 1)))
    (enough : 2 ^ 32 + 1 < fuel) :
    Returns (fun _ => False) (fun answer => answer.1 = 0 ∧ answer.2.printed = start.printed ++ image.file inode ∧
        (∀ address, ¬ Within buf 1024 address → answer.2.memory address = start.memory address) ∧
        ∀ console : Console, world.Quiet → start.shared.console = console.clearScreen →
          Screen.Renders answer.2.shared.console.screen console.currentTerminal (image.file inode))
      (catMain image world fuel buf start) := by
  have given : Kernel.arguments start.argBuff ≠ [] := named ▸ nonempty_of_entryNamed wellFormed found
  have short : (Kernel.arguments start.argBuff).length ≤ 127 :=
    (GetArgs.arguments_sublist start.argBuff).length_le.trans stored
  have sized : image.length inode < 2 ^ 32 := word32_lt image.byte _
  have standard := initFds_standardOpen stale
  refine (getargs_returns False noNul stored given (by decide) (by decide) buf).bind ?_
  rintro ⟨status, process⟩ ⟨rfl, does, table, outside, string, shared, calls⟩
  simp only [ne_eq, not_true, if_false]
  have fds : process.fds = initFds stale := table.trans fresh
  have ready : HasSlot (process.meets world).files (world.residue process.calls) := by
    rw [Process.meets, shared, calls]
    exact slot
  have argument := stringArgument_of_stringAt string (by omega : _ < fuel)
  rcases image.readDentryByName_cases wellFormed ⟨process.memory (buf - 1), _, string.noNul⟩
    (world.residue process.calls).dentry with
    ⟨missing, -⟩ | ⟨index, entry, named', found', sameType, sameInode, -⟩
  · rw [entryNamed_congr named.symm, found] at missing
    cases missing
  rw [entryNamed_congr named.symm, found] at named'
  obtain rfl : k = index := Option.some.inj named'
  refine (open_returns (False.elim : False → world.Considerate) _ argument found' (by omega)
    (by rw [fds, firstClosed_initFds]) (Or.inr ready)).bind ?_
  rintro ⟨fd, opened⟩ ⟨rfl, does', table', memory⟩
  have succeeded : ¬ ((2 : Fin 8).val : Int) = -1 := by decide
  have read : opened.fds = readUpTo opened.fds 2 inode 0 := by
    rw [table', sameType, sameInode, regular, inode_eq, readUpTo, update_idem]
    rfl
  have standard' : StandardOpen opened.fds := by
    intro fd low
    have apart : fd ≠ 2 := by
      rintro rfl
      exact absurd low (by decide)
    rw [table', fds, update_of_ne apart]
    exact standard fd low
  have begun : Copied image world buf inode 2 opened 0 opened := ⟨Does.refl world False opened, read, fun _ _ => rfl⟩
  simp only [if_neg succeeded]
  have placed : ∀ {position process}, Copied image world buf inode 2 opened position process →
      (process.fds 2).filePosition = position := by
    intro position process copied
    rw [copied.fds, readUpTo, update_self]
  refine (walk_returns (fun process => (process.fds 2).filePosition) (Copied image world buf inode 2 opened)
    (Copied image world buf inode 2 opened (image.length inode)) placed
    (fun position process inside copied => copyOut_returns standard' (by decide) present fits inside copied) begun
    (by omega)).bind ?_
  rintro walking ⟨returned, copied⟩
  have whole : (image.file inode).take (image.length inode) = image.file inode :=
    List.take_of_length_le (Nat.le_of_eq (image.length_file inode))
  have done := copied.does
  rw [whole] at done
  refine returns_pure ⟨by rw [returned]; rfl, ?_, fun address away => ?_, fun console quiet cleared => ?_⟩
  · rw [done.printed, does'.printed, does.printed, List.append_nil, List.append_nil]
  · rw [copied.outside address away, memory, outside address away]
  · rw [done.console quiet, does'.console quiet, does.console quiet, cleared]
    exact Screen.renders_puts console.screen console.currentTerminal (image.file inode)

end

theorem cat_prints_frame0 : Returns (fun _ => False) (fun answer => answer.1 = 0 ∧
      answer.2.printed = [] ++ Image.sample.file 2 ∧
        (∀ address, ¬ Within 0 1024 address → answer.2.memory address = 0) ∧
      ∀ console : Console, World.quiet.Quiet → (Process.started "cat frame0").shared.console = console.clearScreen →
        Screen.Renders answer.2.shared.console.screen console.currentTerminal (Image.sample.file 2))
    (catMain Image.sample World.quiet (2 ^ 32 + 2) 0 (Process.started "cat frame0")) :=
  cat_prints_the_file (k := 3) Image.sample_wellFormed unusedTable rfl (by decide) (by decide) Image.frame0 (by decide)
    (by decide +kernel) (by decide +kernel) (by decide +kernel) (by decide +kernel) (by decide +kernel)
    (Or.inl (room_started "cat frame0")) (by decide)

/-! ## `ls` -/

section

variable {image : Image} {world : World} {fuel buf inode k : Nat} {start process : Process}

/-- The names, one on a line. -/
def nameLines (image : Image) (n : Nat) : List UInt8 :=
  (List.range n).flatMap fun k => (image.direntry k).name ++ ascii ['\n']

theorem nameLines_succ (image : Image) (n : Nat) :
    nameLines image (n + 1) = nameLines image n ++ ((image.direntry n).name ++ ascii ['\n']) := by
  rw [nameLines, List.range_succ, List.flatMap_append, List.flatMap_singleton]
  rfl

/-- The entries up to the `k`-th have been listed. -/
structure Listed (image : Image) (world : World) (buf : Nat) (start : Process) (k : Nat) (process : Process) :
    Prop where
  does : Does world False start process (nameLines image k)
  outside : ∀ address, ¬ Within buf 33 address → process.memory address = start.memory address

theorem listEntry_returns (wellFormed : image.WellFormedDirectory)
    (ends : image.inodeCount ≤ image.dirCount ∨ (image.direntry image.dirCount).byte 0 = 0)
    (inside : k ≤ image.dirCount)
    (walked : Walked process.fds inode k) (listed : Listed image world buf start k process) :
    Returns (Within buf 33) (fun next =>
        (next.returned = none ∧ ∃ further, k < further ∧ further ≤ image.dirCount ∧
            Walked next.process.fds inode further ∧ Listed image world buf start further next.process) ∨
          next.returned = some 0 ∧ Listed image world buf start image.dirCount next.process)
      (listEntry image world buf 2 ⟨none, process⟩) := by
  have notStdout : (2 : Fin 8) ≠ 1 := by decide
  have slots := fun slot => terminated_of_ends (k := k) wellFormed ends inside slot
  refine (readDir_returns notStdout walked.directory (fun slot => (slots slot).1) (False.elim : False → _)).bind ?_
  rintro ⟨cnt, after⟩ ⟨does, table, outside, answer⟩
  have both := listed.does.trans does
  rw [List.append_nil] at both
  by_cases within : k < image.dirCount
  · have counts := wellFormed.counts
    have bound : image.dirCount < 2 ^ 32 := word32_lt image.byte 0
    have next : (k + 1) % 2 ^ 32 = k + 1 := Nat.mod_eq_of_lt (by omega)
    have moved : Walked after.fds inode (k + 1) := by
      rw [table, next]
      exact walked.moved (k + 1)
    rw [if_pos (by omega)] at answer
    obtain ⟨counted, name⟩ := answer
    have some : 0 < (image.direntry k).name.length := by
      rw [Dentry.length_name]
      exact wellFormed.named k within
    have short : (image.direntry k).name.length ≤ 32 := by
      rw [Dentry.length_name]
      exact Dentry.nameLength_le _
    have count : cnt = (image.direntry k).name.length := counted
    have notEnd : ¬ cnt = 0 := by omega
    have notFailed : ¬ cnt = -1 := by omega
    have place : buf + cnt.toNat = buf + (image.direntry k).name.length := by omega
    have size : cnt + 1 = ((image.direntry k).name.length + 1 : Nat) := by omega
    simp only [if_neg notEnd, if_neg notFailed, place, size]
    refine returns_access_bind (within_add buf (by omega)) ?_
    have text : (List.range ((image.direntry k).name.length + 1)).map
        (behind (update after.memory (buf + (image.direntry k).name.length) 10) buf) =
          (image.direntry k).name ++ ascii ['\n'] := by
      rw [List.range_succ, List.map_append, List.map_singleton, behind, update_self]
      refine congrArg (· ++ [10]) (Eq.trans (List.map_congr_left fun i member => ?_) (map_behind name))
      have early := List.mem_range.mp member
      exact update_of_ne (by omega) _ _
    have opened : StandardOpen ({ after with
        memory := update after.memory (buf + (image.direntry k).name.length) 10 } : Process).fds := moved.standard
    refine (write_returns (False.elim : False → world.Considerate) opened _ (by omega) 0).bind ?_
    rintro ⟨status, last⟩ ⟨rfl, prints⟩
    rw [text] at prints
    have succeeded : ¬ (((image.direntry k).name.length + 1 : Nat) : Int) = -1 := by omega
    simp only [if_neg succeeded]
    refine returns_pure (Or.inl ⟨rfl, k + 1, Nat.lt_succ_self k, within, prints.fds.symm ▸ moved, ?_,
      fun address away => ?_⟩)
    · have stored : Does world False start { after with
          memory := update after.memory (buf + (image.direntry k).name.length) 10 } (nameLines image k) :=
        ⟨both.argBuff, both.printed, both.room, both.console⟩
      rw [nameLines_succ]
      exact stored.trans prints.toDoes
    · rw [prints.memory, ← listed.outside address away, ← outside address away]
      refine update_of_ne ?_ _ _
      rintro rfl
      exact away (within_add buf (by omega))
  · obtain rfl : k = image.dirCount := Nat.le_antisymm inside (Nat.le_of_not_lt within)
    have ended : cnt = 0 := by
      by_cases slot : image.dirCount < image.inodeCount
      · rw [if_pos slot] at answer
        exact answer.1.trans (by rw [(slots slot).2 rfl]; rfl)
      · rwa [if_neg slot] at answer
    simp only [if_pos ended]
    exact returns_pure (Or.inr ⟨rfl, both, fun address away =>
      (outside address away).trans (listed.outside address away)⟩)

/-- `ls` writes the names of the entries in the order of the directory, each on a line of its own, and touches nothing
but the 33 bytes of its buffer, if the global table has a slot at the time of its open and the slots of the directory
end with the entries, or with one that is empty: a stale entry behind the last is listed as well. -/
theorem ls_lists_the_directory (wellFormed : image.WellFormedDirectory)
    (ends : image.inodeCount ≤ image.dirCount ∨ (image.direntry image.dirCount).byte 0 = 0)
    (entry : image.entryNamed Image.dot = some k) (directory : (image.direntry k).filetype = 1) (stale : Table)
    (fresh : start.fds = initFds stale) (slot : HasSlot (start.meets world).files (world.residue start.calls))
    (enough : 2 ^ 32 < fuel) :
    Returns (Within buf 33) (fun answer => answer.1 = 0 ∧
        answer.2.printed = start.printed ++ nameLines image image.dirCount ∧
        (∀ address, ¬ Within buf 33 address → answer.2.memory address = start.memory address) ∧
        ∀ console : Console, world.Quiet → start.shared.console = console.clearScreen →
          Screen.Renders answer.2.shared.console.screen console.currentTerminal (nameLines image image.dirCount))
      (lsMain image world fuel buf start) := by
  have bound : image.dirCount < 2 ^ 32 := word32_lt image.byte 0
  refine (openDot_returns (False.elim : False → world.Considerate) wellFormed entry directory slot fresh).bind ?_
  rintro ⟨fd, opened⟩ ⟨rfl, does, ⟨inode, walked⟩, memory⟩
  have succeeded : ¬ ((2 : Fin 8).val : Int) = -1 := by decide
  have begun : Listed image world buf opened 0 opened := ⟨Does.refl world False opened, fun _ _ => rfl⟩
  simp only [if_neg succeeded]
  refine (walk_returns (fun process => (process.fds 2).filePosition)
    (fun k process => Walked process.fds inode k ∧ Listed image world buf opened k process)
    (Listed image world buf opened image.dirCount) (fun both => congrArg FileDescriptor.filePosition both.1.directory)
    (fun k process inside both => listEntry_returns wellFormed ends inside both.1 both.2) ⟨walked, begun⟩
    (by omega)).bind ?_
  rintro walking ⟨returned, listed⟩
  refine returns_pure ⟨by rw [returned]; rfl, ?_, fun address away => ?_, fun console quiet cleared => ?_⟩
  · rw [listed.does.printed, does.printed, List.append_nil]
  · rw [listed.outside address away, memory]
  · rw [listed.does.console quiet, does.console quiet, cleared]
    exact Screen.renders_puts console.screen console.currentTerminal _

end

theorem ls_lists_sample : Returns (Within 0 33) (fun answer => answer.1 = 0 ∧
      answer.2.printed = [] ++ nameLines Image.sample Image.sample.dirCount ∧
      (∀ address, ¬ Within 0 33 address → answer.2.memory address = 0) ∧
      ∀ console : Console, World.quiet.Quiet → (Process.started "ls").shared.console = console.clearScreen →
        Screen.Renders answer.2.shared.console.screen console.currentTerminal
          (nameLines Image.sample Image.sample.dirCount))
    (lsMain Image.sample World.quiet (2 ^ 32 + 1) 0 (Process.started "ls")) :=
  ls_lists_the_directory (k := 0) Image.sample_wellFormed (by decide +kernel) (by decide +kernel) (by decide +kernel)
    unusedTable rfl (Or.inl (room_started "ls")) (by decide)

end LinuxLikeOS.Programs

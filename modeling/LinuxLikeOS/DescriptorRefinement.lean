import LinuxLikeOS.ProcessTable

/-!
# The descriptor table as a map

To its process a descriptor table is a partial map from descriptors to open files. The calls
keep to that map as long as the drivers' search of the *global* table ends well, which is
what the condition `Sound` says call by call.
-/

namespace LinuxLikeOS.DescriptorRefinement

open Function LinuxLikeOS.Task LinuxLikeOS.ProcessTable

/-- What a process sees of an open descriptor. -/
structure OpenFile where
  device : Fops
  inode : Nat
  position : Nat

abbrev FileMap := Fin 8 → Option OpenFile

/-- The map a table stands for. -/
def view (table : Table) : FileMap := fun fd =>
  match (table fd).flags with
  | .open => some ⟨(table fd).fops, (table fd).inode, (table fd).filePosition⟩
  | .close => none

def lowestFree (files : FileMap) : Option (Fin 8) := (List.finRange 8).find? fun fd => (files fd).isNone

/-- An open file after a read that returned `ret`. -/
def OpenFile.afterRead (file : OpenFile) (ret : Int) : OpenFile :=
  match file.device with
  | .file => { file with position := (file.position + ret.toNat) % 2 ^ 32 }
  | .directory => { file with position := (file.position + 1) % 2 ^ 32 }
  | _ => file

/-- The descriptor a call names, if it is open. -/
def openAt (files : FileMap) (fd : Int32) : Option (Fin 8 × OpenFile) :=
  (descriptor? fd).bind fun index => (files index).map fun file => (index, file)

/-- The calls on the map. -/
def Behaves (image : Image) (files : FileMap) : Call → Int → FileMap → Prop
  | .open fname _, ret, after =>
      match image.entryNamed fname, lowestFree files with
      | some entry, some fd =>
          ret = fd.val ∧ after = update files fd
            (some ⟨getFopsTable (image.direntry entry).filetype, (image.direntry entry).inodeNum, 0⟩)
      | _, _ => ret = -1 ∧ after = files
  | .read fd buf _ _ _, ret, after =>
      match openAt files fd with
      | none => ret = -1 ∧ after = files
      | some (index, file) =>
          if index = 1 ∨ buf = none then ret = -1 ∧ after = files
          else 0 ≤ ret ∧ after = update files index (some (file.afterRead ret))
  | .write fd _ _, ret, after => after = files ∧ (openAt files fd = none → ret = -1)
  | .close fd, ret, after =>
      match openAt files fd with
      | none => ret = -1 ∧ after = files
      | some (index, _) =>
          if index.val < 2 then ret = -1 ∧ after = files
          else ret = 0 ∧ after = update files index none

/-- The call completes, keeps to the map, changes nothing when it fails, and leaves 0 and 1 on
the terminal. -/
def Refines (image : Image) (task : Task) (request : Call) : Prop :=
  ∃ result after, task.call image request = some (result, after) ∧
    Behaves image (view task.fds) request result.ret (view after.fds) ∧
    (result.ret = -1 → after = task) ∧ StandardOpen after.fds

/-- The search of a driver's `open` ends with a descriptor: one is closed in the global
table, or the uninitialised variable happens to hold one. -/
def HasSlot (files : Table) (residue : Residue) : Prop :=
  firstClosed files ≠ none ∨ 0 ≤ residue.freeFd ∧ residue.freeFd ≤ 7

/-- The condition on a call: an open that gets to the driver of a directory or a file has a
slot, and a directory is not read at an entry without a NUL. -/
def Sound (image : Image) (task : Task) : Call → Prop
  | .open fname residue =>
      ∀ entry, image.entryNamed fname = some entry → (image.direntry entry).filetype ≠ 0 →
        firstClosed task.fds ≠ none → HasSlot task.files residue
  | .read fd buf _ _ _ =>
      ∀ index, readTarget task.fds fd buf = some index → (task.fds index).fops = .directory →
        (task.fds index).filePosition < image.inodeCount →
          (image.direntry (task.fds index).filePosition).strlen ≠ none
  | _ => True

/-- 0 and 1 are on the terminal, the other open descriptors on devices opened by name. -/
structure Invariant (table : Table) : Prop where
  standard : StandardOpen table
  named : ∀ fd : Fin 8, 2 ≤ fd.val → (table fd).flags = .open →
    (table fd).fops = .rtc ∨ (table fd).fops = .directory ∨ (table fd).fops = .file

/-! ## The view -/

theorem lowestFree_view (table : Table) : lowestFree (view table) = firstClosed table := by
  unfold lowestFree firstClosed
  congr 1
  funext fd
  unfold view
  cases (table fd).flags <;> rfl

theorem view_update_open (table : Table) (fd : Fin 8) {descriptor : FileDescriptor}
    (opened : descriptor.flags = .open) :
    view (update table fd descriptor) =
      update (view table) fd (some ⟨descriptor.fops, descriptor.inode, descriptor.filePosition⟩) := by
  funext other
  rcases eq_or_ne other fd with rfl | here
  · simp [view, opened]
  · simp [view, update_of_ne here]

theorem view_update_close (table : Table) (fd : Fin 8) (descriptor : FileDescriptor)
    (closed : descriptor.flags = .close) :
    view (update table fd descriptor) = update (view table) fd none := by
  funext other
  rcases eq_or_ne other fd with rfl | here
  · simp [view, closed]
  · simp [view, update_of_ne here]

theorem openAt_view {table : Table} {fd : Int32} {index : Fin 8} (valid : descriptor? fd = some index)
    (opened : (table index).flags = .open) :
    openAt (view table) fd =
      some (index, ⟨(table index).fops, (table index).inode, (table index).filePosition⟩) := by
  simp [openAt, valid, view, opened]

theorem openAt_view_eq_none {table : Table} {fd : Int32}
    (refused : ∀ index, descriptor? fd = some index → (table index).flags = .close) :
    openAt (view table) fd = none := by
  cases valid : descriptor? fd with
  | none => simp [openAt, valid]
  | some index => simp [openAt, valid, view, refused index valid]

/-! ## The invariant -/

theorem getFopsTable_named {filetype : Nat} (typed : filetype ≤ 2) :
    getFopsTable filetype = .rtc ∨ getFopsTable filetype = .directory ∨
        getFopsTable filetype = .file := by
  obtain rfl | rfl | rfl : filetype = 0 ∨ filetype = 1 ∨ filetype = 2 := by omega
  · exact Or.inl rfl
  · exact Or.inr (Or.inl rfl)
  · exact Or.inr (Or.inr rfl)

theorem initFds_invariant (fds : Table) : Invariant (initFds fds) where
  standard := initFds_standardOpen fds
  named := by
    intro fd high opened
    have closed : (initFds fds fd).flags = .close := by simp [initFds, Nat.not_lt_of_le high]
    rw [closed] at opened
    cases opened

theorem tableStep_invariant {image : Image} (wellFormed : image.WellFormedDirectory) {table after : Table}
    {request : Call} (invariant : Invariant table) (taken : tableStep image table request = some after) :
    Invariant after := by
  refine ⟨tableStep_standardOpen invariant.standard taken, ?_⟩
  intro fd high opened
  rcases tableStep_cases taken with same | ⟨fname, stale, dentry, free, found, first, same⟩ |
    ⟨index, moved, nbytes, _, before, advanced, same⟩ | ⟨index, _, _, _, same⟩
  · rw [same] at opened ⊢
    exact invariant.named fd high opened
  · rcases eq_or_ne fd free with rfl | here
    · rw [same, update_self]
      obtain ⟨_, missing⟩ | ⟨_, copied, _, other, _, _, typed⟩ :=
        image.readDentryByName_cases wellFormed fname stale
      · rw [missing] at found
        cases found
      · rw [other] at found
        exact getFopsTable_named (Lookup.found.inj found ▸ typed)
    · rw [same, update_of_ne here] at opened ⊢
      exact invariant.named fd high opened
  · obtain ⟨fops, _, _⟩ := advance_kept advanced
    rcases eq_or_ne fd index with rfl | here
    · rw [same, update_self, fops]
      exact invariant.named fd high before
    · rw [same, update_of_ne here] at opened ⊢
      exact invariant.named fd high opened
  · rcases eq_or_ne fd index with rfl | here
    · rw [same, update_self] at opened
      cases opened
    · rw [same, update_of_ne here] at opened ⊢
      exact invariant.named fd high opened

theorem Invariant.device {table : Table} (invariant : Invariant table) {fd : Fin 8}
    (opened : (table fd).flags = .open) : (table fd).fops ≠ .null ∧ (table fd).fops ≠ .blank := by
  by_cases low : fd.val < 2
  · rw [(invariant.standard fd low).2]
    exact ⟨by decide, by decide⟩
  · rcases invariant.named fd (by omega) opened with same | same | same <;> rw [same] <;> exact ⟨by decide, by decide⟩

/-! ## Open -/

theorem freeFd_valid_iff (task : Task) (residue : Residue) :
    0 ≤ task.freeFd residue ∧ task.freeFd residue ≤ 7 ↔ HasSlot task.files residue := by
  unfold freeFd HasSlot
  cases firstClosed task.files with
  | none => simp
  | some fd =>
      simp only [ne_eq, reduceCtorEq, not_false_eq_true, true_or, iff_true]
      omega

/-- A driver with a slot answers something other than -1; one without answers -1. -/
theorem driverOpen_slot {image : Image} {fname : CString} {residue : Residue} {dentry : Dentry}
    (named : image.readDentryByName fname residue.dentry = .found dentry)
    (typed : dentry.filetype = 1 ∨ dentry.filetype = 2) (task : Task) (slot : HasSlot task.files residue) :
    ∃ ret after, task.driverOpen image (getFopsTable dentry.filetype) fname residue = some (ret, after) ∧
      ret ≠ -1 ∧ after.fds = task.fds := by
  have valid := (freeFd_valid_iff task residue).mpr slot
  have found : task.openSlot image fname residue =
      some (some (dentry, ⟨(task.freeFd residue).toNat, by omega⟩)) := by
    unfold openSlot
    rw [named]
    simp only [valid, and_self, dif_pos]
  have opened : ∃ index descriptor, task.driverOpen image (getFopsTable dentry.filetype) fname residue =
      some (((task.freeFd residue).toNat : Int), task.setFile index descriptor) := by
    rcases typed with directory | file
    · rw [directory]
      simp only [getFopsTable, driverOpen, dirOpen, found, Option.map_some, directory, if_true]
      exact ⟨_, _, rfl⟩
    · rw [file]
      simp only [getFopsTable, driverOpen, fileOpen, found, Option.map_some]
      exact ⟨_, _, rfl⟩
  obtain ⟨index, descriptor, answer⟩ := opened
  exact ⟨_, _, answer, by omega, rfl⟩

theorem driverOpen_no_slot {image : Image} {fname : CString} {residue : Residue} {dentry : Dentry}
    (named : image.readDentryByName fname residue.dentry = .found dentry)
    (typed : dentry.filetype = 1 ∨ dentry.filetype = 2) (task : Task) (full : ¬ HasSlot task.files residue) :
    task.driverOpen image (getFopsTable dentry.filetype) fname residue = some (-1, task) := by
  have invalid := mt (freeFd_valid_iff task residue).mp full
  have refused : task.openSlot image fname residue = some none := by
    unfold openSlot
    rw [named]
    simp only [invalid, dif_neg, not_false_eq_true]
  rcases typed with directory | file
  · simp [directory, getFopsTable, driverOpen, dirOpen, refused]
  · simp [file, getFopsTable, driverOpen, fileOpen, refused]

/-- The RTC has nothing to search for. -/
theorem driverOpen_answers {image : Image} {fname : CString} {residue : Residue} {dentry : Dentry}
    (named : image.readDentryByName fname residue.dentry = .found dentry) (typed : dentry.filetype ≤ 2)
    (task : Task) (ready : dentry.filetype = 0 ∨ HasSlot task.files residue) :
    ∃ ret after, task.driverOpen image (getFopsTable dentry.filetype) fname residue = some (ret, after) ∧
      ret ≠ -1 ∧ after.fds = task.fds := by
  by_cases driven : dentry.filetype = 0
  · rw [driven]
    exact ⟨_, _, rfl, by decide, rfl⟩
  · exact driverOpen_slot named (by omega) task (ready.resolve_left driven)

/-- Descriptors 0 and 1 are never the closed one that is found. -/
theorem Invariant.standard_opened {table : Table} (invariant : Invariant table) {fd : Fin 8}
    (free : firstClosed table = some fd) (descriptor : FileDescriptor) :
    StandardOpen (update table fd descriptor) := by
  intro standard low
  have apart : standard ≠ fd := by
    rintro rfl
    have closed := (firstClosed_eq_some.mp free).1
    rw [(invariant.standard standard low).1] at closed
    cases closed
  rw [update_of_ne apart]
  exact invariant.standard standard low

theorem open_refines_iff {image : Image} (wellFormed : image.WellFormedDirectory) {task : Task}
    (invariant : Invariant task.fds) (fname : CString) (residue : Residue) :
    Refines image task (.open fname residue) ↔ Sound image task (.open fname residue) := by
  simp only [Refines, Sound, Task.call, Behaves, lowestFree_view]
  rcases image.readDentryByName_cases wellFormed fname residue.dentry with
    ⟨absent, missing⟩ | ⟨entry, copied, present, named, sameType, sameInode, typed⟩
  · simp only [absent, missing, Task.open]
    exact iff_of_true ⟨_, _, rfl, ⟨rfl, rfl⟩, fun _ => rfl, invariant.standard⟩ (fun _ impossible => by cases impossible)
  · simp only [present]
    cases free : firstClosed task.fds with
    | none =>
        simp only [Task.open, named, free]
        exact iff_of_true ⟨_, _, rfl, ⟨rfl, rfl⟩, fun _ => rfl, invariant.standard⟩
          (fun _ _ _ impossible => absurd rfl impossible)
    | some fd =>
        obtain ⟨marked, mark⟩ : ∃ marked,
            marked = task.setFd fd ⟨getFopsTable copied.filetype, copied.inodeNum, 0, .open⟩ := ⟨_, rfl⟩
        rw [open_found named free, ← mark]
        have sameFiles : marked.files = task.files := by rw [mark]; rfl
        have kept : StandardOpen marked.fds := by
          rw [mark]
          exact invariant.standard_opened free _
        have mapped : view marked.fds = update (view task.fds) fd
            (some ⟨getFopsTable (image.direntry entry).filetype, (image.direntry entry).inodeNum, 0⟩) := by
          rw [mark, fds_setFd, view_update_open _ _ rfl, sameType, sameInode]
        by_cases ready : copied.filetype = 0 ∨ HasSlot task.files residue
        · obtain ⟨ret, after, opened, positive, sameFds⟩ :=
            driverOpen_answers named typed marked (sameFiles ▸ ready)
          simp only [opened, Option.map_some, if_neg positive]
          refine iff_of_true ⟨_, _, rfl, ⟨rfl, sameFds ▸ mapped⟩, ?_, sameFds ▸ kept⟩ ?_
          · intro failed
            have impossible : (fd.val : Int) = -1 := failed
            omega
          · intro other same typedOther _
            obtain rfl := Option.some.inj same
            exact ready.resolve_left (sameType ▸ typedOther)
        · obtain ⟨driven, full⟩ := not_or.mp ready
          have refused := driverOpen_no_slot named (by omega) marked (sameFiles ▸ full)
          simp only [refused, Option.map_some, if_true]
          refine iff_of_false ?_ ?_
          · rintro ⟨result, after, same, ⟨ret, _⟩, _⟩
            obtain ⟨rfl, _⟩ := Prod.mk.inj (Option.some.inj same)
            have impossible : (-1 : Int) = fd.val := ret
            omega
          · intro sound
            exact full (sound entry rfl (sameType ▸ driven) (by simp))

/-! ## Read -/

theorem advance_eq_none_iff (image : Image) {descriptor : FileDescriptor} (nbytes : Int)
    (device : descriptor.fops ≠ .null ∧ descriptor.fops ≠ .blank) :
    advance image descriptor nbytes = none ↔
      descriptor.fops = .directory ∧ descriptor.filePosition < image.inodeCount ∧
        (image.direntry descriptor.filePosition).strlen = none := by
  unfold advance
  cases fops : descriptor.fops with
  | null => exact absurd fops device.1
  | blank => exact absurd fops device.2
  | rtc | terminal | file => simp
  | directory => simp

/-- A driver that completes returns a count, and that count says where the position goes. -/
theorem driverRead_ret {image : Image} {fd : Fin 8} {nbytes : Int} {moved : FileDescriptor} (buf : Memory)
    (residue : Residue) (task : Task) (advanced : advance image (task.files fd) nbytes = some moved) :
    ∃ result after, task.driverRead image (task.files fd).fops fd buf nbytes residue =
      some (result, after) ∧
      0 ≤ result.ret ∧
      moved.filePosition = (OpenFile.afterRead
        ⟨(task.files fd).fops, (task.files fd).inode, (task.files fd).filePosition⟩ result.ret).position := by
  unfold advance at advanced
  unfold driverRead
  cases device : (task.files fd).fops with
  | null | blank =>
      rw [device] at advanced
      cases advanced
  | rtc =>
      rw [device] at advanced
      exact ⟨_, _, rfl, Int.le_refl 0, Option.some.inj advanced ▸ rfl⟩
  | terminal =>
      rw [device] at advanced
      exact ⟨_, _, rfl, Int.natCast_nonneg _, Option.some.inj advanced ▸ rfl⟩
  | file =>
      rw [device] at advanced
      exact ⟨_, _, rfl, Int.natCast_nonneg _, Option.some.inj advanced ▸ rfl⟩
  | directory =>
      rw [device] at advanced
      simp only [dirRead]
      rcases image.readDentryByIndex_cases (task.files fd).filePosition residue.dentry with
        ⟨past, read⟩ | ⟨inside, unterminated, read⟩ | ⟨stop, copied, inside, terminated, read, length, _⟩
      · simp only [Nat.not_lt_of_le past, false_and, if_false] at advanced
        simp only [read]
        exact ⟨_, _, rfl, Int.le_refl 0, Option.some.inj advanced ▸ rfl⟩
      · simp only [inside, unterminated, and_self, if_true, reduceCtorEq] at advanced
      · simp only [terminated, reduceCtorEq, and_false, if_false] at advanced
        simp only [read, length, Option.map_some]
        exact ⟨_, _, rfl, Int.natCast_nonneg _, Option.some.inj advanced ▸ rfl⟩

/-- The same for the whole of a read that passes the checks. -/
theorem read_ret {image : Image} {fd : Int32} {index : Fin 8} {memory : Memory} {nbytes : Int32}
    {task : Task}
    {moved : FileDescriptor} (wake : Console) (residue : Residue)
    (passed : readTarget task.fds fd (some memory) = some index)
    (advanced : advance image (task.fds index) nbytes.toInt = some moved) :
    ∃ result after, task.read image fd (some memory) nbytes wake residue = some (result, after) ∧
      0 ≤ result.ret ∧ after.fds = update task.fds index moved ∧
      moved.filePosition = (OpenFile.afterRead
        ⟨(task.fds index).fops, (task.fds index).inode, (task.fds index).filePosition⟩ result.ret).position := by
  obtain ⟨console, read⟩ := read_eq_leaveRead passed image nbytes wake residue
  obtain ⟨result, after, ran, counted, position⟩ :=
    driverRead_ret memory residue { task with files := task.fds, console := console } advanced
  have answer : task.read image fd (some memory) nbytes wake residue =
      some (result, { after with fds := after.files }) := by
    rw [read, leaveRead]
    exact (congrArg (Option.map _) ran).trans rfl
  have fds := fds_read image fd (some memory) nbytes wake residue task
  simp only [answer, tableStep, passed, advanced, Option.map_some, Option.some.injEq] at fds
  exact ⟨result, _, answer, counted, fds, position⟩

theorem openAt_of_refused {table : Table} {fd : Int32} {buf : Buffer}
    (refused : readTarget table fd buf = none) :
    openAt (view table) fd = none ∨
      ∃ index file, openAt (view table) fd = some (index, file) ∧ (index = 1 ∨ buf = none) := by
  cases valid : descriptor? fd with
  | none => exact Or.inl (openAt_view_eq_none fun index same => by simp [valid] at same)
  | some index =>
      cases state : (table index).flags with
      | close =>
          refine Or.inl (openAt_view_eq_none fun other same => ?_)
          rw [valid] at same
          exact Option.some.inj same ▸ state
      | «open» =>
          refine Or.inr ⟨index, _, openAt_view valid state, ?_⟩
          by_contra usable
          obtain ⟨notOne, present⟩ := not_or.mp usable
          have passed := readTarget_eq_some.mpr ⟨valid, present, notOne, state⟩
          rw [refused] at passed
          cases passed

theorem read_refines_iff {image : Image} {task : Task} (invariant : Invariant task.fds) (fd : Int32)
    (buf : Buffer) (nbytes : Int32) (wake : Console) (residue : Residue) :
    Refines image task (.read fd buf nbytes wake residue) ↔
      Sound image task (.read fd buf nbytes wake residue) := by
  simp only [Refines, Sound, Task.call, Behaves]
  cases passed : readTarget task.fds fd buf with
  | none =>
      refine iff_of_true ⟨_, _, read_refused passed image nbytes wake residue, ?_, fun _ => rfl, invariant.standard⟩ ?_
      · rcases openAt_of_refused passed with unopened | ⟨index, file, same, refused⟩
        · rw [unopened]
          exact ⟨rfl, rfl⟩
        · simp only [same, if_pos refused]
          exact ⟨rfl, trivial⟩
      · intro index impossible
        cases impossible
  | some index =>
      obtain ⟨memory, rfl⟩ := buffer_of_readTarget passed
      obtain ⟨valid, _, notOne, opened⟩ := readTarget_eq_some.mp passed
      have stuck := advance_eq_none_iff image nbytes.toInt (invariant.device opened)
      have fds := fds_read image fd (some memory) nbytes wake residue task
      simp only [tableStep, passed] at fds
      cases advanced : advance image (task.fds index) nbytes.toInt with
      | none =>
          rw [advanced] at fds
          refine iff_of_false ?_ ?_
          · rintro ⟨result, after, ran, _⟩
            rw [ran] at fds
            cases fds
          · intro sound
            obtain ⟨directory, inside, unterminated⟩ := stuck.mp advanced
            exact sound index rfl directory inside unterminated
      | some moved =>
          obtain ⟨result, after, ran, counted, sameFds, position⟩ :=
            read_ret wake residue passed advanced
          obtain ⟨fops, inode, flags⟩ := advance_kept advanced
          refine iff_of_true ⟨result, after, ran, ?_, ?_, ?_⟩ ?_
          · have closedOrOne : ¬ (index = 1 ∨ some memory = none) := by simp [notOne]
            simp only [openAt_view valid opened, if_neg closedOrOne]
            refine ⟨counted, ?_⟩
            rw [sameFds, view_update_open _ _ (flags.trans opened), fops, inode, position]
            congr 2
            unfold OpenFile.afterRead
            split <;> rfl
          · intro failed
            omega
          · have taken : tableStep image task.fds (.read fd (some memory) nbytes wake residue) =
                some after.fds := by
              rw [← fds_read, ran, Option.map_some]
            exact tableStep_standardOpen invariant.standard taken
          · intro other same directory inside unterminated
            obtain rfl := Option.some.inj same
            rw [stuck.mpr ⟨directory, inside, unterminated⟩] at advanced
            cases advanced

/-! ## Write and close -/

theorem openAt_cases (table : Table) (fd : Int32) :
    openAt (view table) fd = none ∧
      (∀ index, descriptor? fd = some index → (table index).flags = .close) ∨
      ∃ index file, descriptor? fd = some index ∧ (table index).flags = .open ∧
        openAt (view table) fd = some (index, file) := by
  cases valid : descriptor? fd with
  | none =>
      have unopened : ∀ index, descriptor? fd = some index → (table index).flags = .close := by
        simp [valid]
      exact Or.inl ⟨openAt_view_eq_none unopened, by simp⟩
  | some index =>
      cases state : (table index).flags with
      | close =>
          have closed : ∀ other, descriptor? fd = some other → (table other).flags = .close := by
            intro other same
            rw [valid] at same
            exact Option.some.inj same ▸ state
          refine Or.inl ⟨openAt_view_eq_none closed, ?_⟩
          rintro other same
          exact Option.some.inj same ▸ state
      | «open» => exact Or.inr ⟨index, _, rfl, state, openAt_view valid state⟩

theorem driverWrite_failed {fops : Fops} {buf : Memory} {nbytes ret : Int} {task after : Task}
    (wrote : task.driverWrite fops buf nbytes = some (ret, after)) (failed : ret = -1) :
        after = task := by
  cases fops with
  | null | blank => cases wrote
  | directory | file => exact (Prod.mk.inj (Option.some.inj wrote)).2.symm
  | terminal =>
      have count := (Prod.mk.inj (Option.some.inj wrote)).1
      omega
  | rtc =>
      have answer := Option.some.inj wrote
      unfold rtcWrite at answer
      split at answer
      · exact (Prod.mk.inj answer).2.symm
      · simp only [] at answer
        split at answer
        · exact (Prod.mk.inj answer).2.symm
        · have zero := (Prod.mk.inj answer).1
          omega

theorem write_refines {image : Image} {task : Task} (invariant : Invariant task.fds) (fd : Int32)
    (buf : Buffer) (nbytes : Int32) : Refines image task (.write fd buf nbytes) := by
  simp only [Refines, Task.call, Behaves, Task.write]
  rcases openAt_cases task.fds fd with ⟨unopened, closed⟩ | ⟨index, file, valid, opened, present⟩
  · cases valid : descriptor? fd with
    | none => exact ⟨_, _, rfl, ⟨rfl, fun _ => rfl⟩, fun _ => rfl, invariant.standard⟩
    | some index =>
        cases buf with
        | none => exact ⟨_, _, rfl, ⟨rfl, fun _ => rfl⟩, fun _ => rfl, invariant.standard⟩
        | some memory =>
            simp only [closed index valid, or_true, if_true]
            exact ⟨_, _, rfl, ⟨rfl, fun _ => rfl⟩, fun _ => rfl, invariant.standard⟩
  · have named : openAt (view task.fds) fd ≠ none := by simp [present]
    cases buf with
    | none =>
        simp only [valid]
        exact ⟨_, _, rfl, ⟨rfl, fun impossible => absurd impossible named⟩, fun _ => rfl, invariant.standard⟩
    | some memory =>
        simp only [valid]
        split
        · exact ⟨_, _, rfl, ⟨rfl, fun impossible => absurd impossible named⟩, fun _ => rfl, invariant.standard⟩
        · have device := invariant.device opened
          have kept := fds_driverWrite (task.fds index).fops memory nbytes.toInt task
          rw [if_neg (by simp [device])] at kept
          obtain ⟨⟨ret, after⟩, wrote, sameFds⟩ := Option.map_eq_some_iff.mp kept
          rw [wrote]
          exact ⟨_, _, rfl, ⟨congrArg view sameFds, fun impossible => absurd impossible named⟩,
            driverWrite_failed wrote, sameFds ▸ invariant.standard⟩

theorem close_refines {image : Image} {task : Task} (invariant : Invariant task.fds) (fd : Int32) :
    Refines image task (.close fd) := by
  simp only [Refines, Task.call, Behaves, Task.close]
  rcases openAt_cases task.fds fd with ⟨unopened, closed⟩ | ⟨index, file, valid, opened, present⟩
  · rw [unopened]
    cases valid : descriptor? fd with
    | none => exact ⟨_, _, rfl, ⟨rfl, rfl⟩, fun _ => rfl, invariant.standard⟩
    | some index =>
        simp only [closed index valid, or_true, if_true]
        exact ⟨_, _, rfl, ⟨rfl, rfl⟩, fun _ => rfl, invariant.standard⟩
  · simp only [valid, present, opened, reduceCtorEq, or_false]
    by_cases low : index.val < 2
    · simp only [low, if_true]
      exact ⟨_, _, rfl, ⟨rfl, rfl⟩, fun _ => rfl, invariant.standard⟩
    · simp only [low, if_false]
      have standard : StandardOpen (update task.fds index { task.fds index with flags := .close }) := by
        intro other below
        have apart : other ≠ index := by
          rintro rfl
          exact low below
        rw [update_of_ne apart]
        exact invariant.standard other below
      have mapped := view_update_close task.fds index { task.fds index with flags := .close } rfl
      rcases invariant.named index (by omega) opened with device | device | device <;> rw [device]
      · refine ⟨_, _, rfl, ⟨rfl, device ▸ mapped⟩, ?_, device ▸ standard⟩
        intro failed
        cases failed
      · simp only [driverClose, fileClose, if_pos (show index.val > 1 by omega), Option.map_some]
        refine ⟨_, _, rfl, ⟨rfl, device ▸ mapped⟩, ?_, device ▸ standard⟩
        intro failed
        cases failed
      · simp only [driverClose, fileClose, if_pos (show index.val > 1 by omega), Option.map_some]
        refine ⟨_, _, rfl, ⟨rfl, device ▸ mapped⟩, ?_, device ▸ standard⟩
        intro failed
        cases failed

/-! ## Runs -/

theorem refines_iff {image : Image} (wellFormed : image.WellFormedDirectory) {task : Task}
    (invariant : Invariant task.fds) (request : Call) :
    Refines image task request ↔ Sound image task request := by
  cases request with
  | «open» fname residue => exact open_refines_iff wellFormed invariant fname residue
  | read fd buf nbytes wake residue => exact read_refines_iff invariant fd buf nbytes wake residue
  | write fd buf nbytes => exact iff_of_true (write_refines invariant fd buf nbytes) trivial
  | close fd => exact iff_of_true (close_refines invariant fd) trivial

theorem step_invariant {image : Image} (wellFormed : image.WellFormedDirectory) {task next : Task}
    {request : Call} (invariant : Invariant task.fds) (taken : task.step image request = some next) :
    Invariant next.fds := by
  have followed := fds_step image task request
  rw [taken, Option.map_some] at followed
  exact tableStep_invariant wellFormed invariant followed.symm

/-- From the table `execute` builds, over any global table and devices: every call of a run
keeps to the map exactly when every call meets the condition. -/
theorem every_call_refines_iff (image : Image) (wellFormed : image.WellFormedDirectory)
    (stale files : Table)
    (console : Console) (rtc : Rtc) (calls : List Call) :
    Transition.EachStep (Task.step image) (Refines image) ⟨initFds stale, files, console, rtc⟩ calls ↔
      Transition.EachStep (Task.step image) (Sound image) ⟨initFds stale, files, console, rtc⟩ calls :=
  Transition.eachStep_iff (Task.step image) (fun task => Invariant task.fds)
    (fun _ request invariant => refines_iff wellFormed invariant request)
    (fun _ _ _ invariant _ taken => step_invariant wellFormed invariant taken)
    (initFds_invariant stale) calls

/-- A file is opened, read and closed. -/
def fileCalls : List Call :=
  [.open Image.frame0 .zeros, .read 2 (some fun _ => 0) 4 Console.loaded .zeros, .close 2]

theorem every_call_refines_sample :
    Transition.EachStep (Task.step Image.sample) (Refines Image.sample) Task.started fileCalls := by
  have free : Transition.EachStep (Task.step Image.sample)
      (fun task _ => firstClosed task.files ≠ none ∧ ∀ fd, (task.fds fd).fops ≠ .directory) Task.started
      fileCalls := by
    decide +kernel
  refine (every_call_refines_iff Image.sample Image.sample_wellFormed unusedTable (fileSystemInit unusedTable)
    Console.loaded ⟨0, false⟩ _).mpr (free.imp _ fun task request both => ?_)
  cases request with
  | «open» fname residue => exact fun _ _ _ _ => Or.inl both.1
  | read fd buf nbytes wake residue => exact fun index _ directory => absurd directory (both.2 index)
  | write fd buf nbytes => trivial
  | close fd => trivial

/-- A directory of ten entries, with a text as the last. -/
def crowded : Image :=
  let program := fun name => Image.entryBytes (ascii name) 2 2
  Image.layOut 10 10
    ([Image.entryBytes Image.dot.chars 1 0, Image.entryBytes Image.rtc.chars 0 0, program ['c', 'a', 't'],
        program ['c', 'o', 'u', 'n', 't', 'e', 'r'], program ['f', 'i', 's', 'h'], program ['g', 'r', 'e', 'p'],
        program ['h', 'e', 'l', 'l', 'o'], program ['l', 's'], program ['s', 'h', 'e', 'l', 'l'],
        Image.entryBytes Image.frame0.chars 2 1])
    [[], [5, 0, 0, 0, 0, 0, 0, 0]] [ascii ['h', 'e', 'l', 'l', 'o']]

theorem crowded_wellFormed : crowded.WellFormedDirectory where
  counts := by decide +kernel
  named := by decide +kernel
  typed := by decide +kernel

/-- Six RTC descriptors, a read, a close: the process has a closed descriptor, the global
table has none. -/
def fillGlobalTable : List Call :=
  List.replicate 6 (.open Image.rtc .zeros) ++
    [.read 2 (some fun _ => 0) 4 Console.loaded .zeros, .close 2]

/-- Then opening the text, with its index in the word of `free_fd`, returns -1 and leaves descriptor 2 open. -/
theorem failed_open_marks_slot :
    crowded.WellFormedDirectory ∧ crowded.entryNamed Image.frame0 = some 9 ∧
      ¬ Transition.EachStep (Task.step crowded) (Refines crowded) Task.started
        (fillGlobalTable ++ [.open Image.frame0 { Residue.zeros with freeFd := 9 }]) := by
  refine ⟨crowded_wellFormed, by decide +kernel, ?_⟩
  intro refines
  have reached : (Transition.run (Task.step crowded) Task.started fillGlobalTable).isSome := by
    decide +kernel
  obtain ⟨full, ran⟩ := Option.isSome_iff_exists.mp reached
  obtain ⟨result, after, answer, _, unchanged, _⟩ := Transition.eachStep_last _ refines ran
  have seen : (Transition.run (Task.step crowded) Task.started fillGlobalTable).bind (fun task =>
      (task.call crowded (.open Image.frame0 { Residue.zeros with freeFd := 9 })).map fun answer =>
          (answer.1.ret, (task.fds 2).flags, (answer.2.fds 2).flags)) = some (-1, .close, .open) := by
    decide +kernel
  simp only [ran, Option.bind_some, answer, Option.map_some, Option.some.injEq, Prod.mk.injEq] at seen
  obtain ⟨failed, closed, opened⟩ := seen
  rw [unchanged failed, closed] at opened
  cases opened

end LinuxLikeOS.DescriptorRefinement

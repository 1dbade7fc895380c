import LinuxLikeOS.ProcessTable

/-!
# The file drivers called directly (`file_sys.c`)

The kernel can call `file_open` and the like itself, on the global `file_descriptor_array`. The
open functions take the first descriptor whose flag is `CLOSE`, and do not set the flag: only the
close functions write it.
-/

namespace LinuxLikeOS.DriverCalls

open Function Transition

inductive Request where
  | fileOpen (filename : Option CString) (residue : Residue)
  | dirOpen (filename : Option CString) (residue : Residue)
  | fileRead (fd : Int32) (nbytes : Int32)
  | dirRead (fd : Int32) (buf : Memory) (nbytes : Int32) (residue : Dentry)
  | fileClose (fd : Int32)
  | dirClose (fd : Int32)

/-- `file_close` and `dir_close` with the check of the descriptor. -/
def close (fd : Int32) (task : Task) : Int × Task :=
  match descriptor? fd with
  | none => (-1, task)
  | some index => task.fileClose index

/-- What a call returns and stores; `none` where a lookup runs off a directory entry. -/
def perform (image : Image) (task : Task) : Request → Option (Result × Task)
  | .fileOpen filename residue =>
      match filename with
      | none => some (.plain (-1), task)
      | some fname => (task.fileOpen image fname residue).map fun (ret, after) => (.plain ret, after)
  | .dirOpen filename residue =>
      match filename with
      | none => some (.plain (-1), task)
      | some fname => (task.dirOpen image fname residue).map fun (ret, after) => (.plain ret, after)
  | .fileRead fd nbytes =>
      match descriptor? fd with
      | none => some (.plain 0, task)
      | some index => some (task.fileRead image index nbytes.toInt)
  | .dirRead fd buf nbytes residue =>
      match descriptor? fd with
      | none => some (.plain (-1), task)
      | some index => task.dirRead image index buf nbytes.toInt residue
  | .fileClose fd => some (.plain (close fd task).1, (close fd task).2)
  | .dirClose fd => some (.plain (close fd task).1, (close fd task).2)

/-- The descriptors that an open has returned and no close has taken back. -/
structure Session where
  task : Task
  held : Fin 8 → Bool

/-- The descriptor a call is about: the one it returns, reads or closes. -/
def subject (ret : Int) : Request → Option (Fin 8)
  | .fileOpen _ _ | .dirOpen _ _ => if valid : 0 ≤ ret ∧ ret ≤ 7 then some ⟨ret.toNat, by omega⟩ else none
  | .fileRead fd _ | .dirRead fd _ _ _ | .fileClose fd | .dirClose fd => descriptor? fd

def Request.opens : Request → Bool
  | .fileOpen _ _ | .dirOpen _ _ => true
  | _ => false

/-- What is held after a call. -/
def heldAfter (held : Fin 8 → Bool) (request : Request) (ret : Int) : Fin 8 → Bool :=
  match request, subject ret request with
  | .fileOpen _ _, some fd | .dirOpen _ _, some fd => update held fd true
  | .fileClose _, some fd | .dirClose _, some fd => if ret = 0 then update held fd false else held
  | _, _ => held

def Session.step (image : Image) (session : Session) (request : Request) : Option Session :=
  (perform image session.task request).map fun (result, after) =>
    ⟨after, heldAfter session.held request result.ret⟩

/-- After `fileSystem_init`, over whatever the table held. -/
def Session.start (task : Task) : Session := ⟨{ task with files := fileSystemInit task.files }, fun _ => false⟩

/-- What a call is to do: an open hands out a descriptor that nobody holds, or fails and writes
nothing where none is closed; and no other open descriptor is touched. -/
structure Proper (session : Session) (request : Request) (ret : Int) (after : Task) : Prop where
  distinct : request.opens = true → ret ≠ -1 → ∃ fd : Fin 8, ret = fd.val ∧ 2 ≤ fd.val ∧ session.held fd = false
  full : request.opens = true → firstClosed session.task.files = none →
    ret = -1 ∧ after.files = session.task.files
  others : ∀ fd, session.held fd = true ∨ (session.task.files fd).flags = .open → subject ret request ≠ some fd →
    (after.files fd).inode = (session.task.files fd).inode ∧
      (after.files fd).filePosition = (session.task.files fd).filePosition

/-- Whatever the call returns, it does as it is to do. -/
def Does (image : Image) (session : Session) (request : Request) : Prop :=
  ∀ result after, perform image session.task request = some (result, after) →
    Proper session request result.ret after

/-- The condition: a name that is found is opened only while no descriptor is held. A `dir_open` of
something else than a directory, which fails, may also meet a descriptor that already stands where
it puts it. -/
def Careful (image : Image) (session : Session) : Request → Prop
  | .fileOpen filename residue =>
      ∀ fname ∈ filename, ∀ dentry, image.readDentryByName fname residue.dentry = .found dentry →
        ∀ fd, session.held fd = false
  | .dirOpen filename residue =>
      ∀ fname ∈ filename, ∀ dentry, image.readDentryByName fname residue.dentry = .found dentry →
        ∀ fd, session.held fd = true → dentry.filetype ≠ 1 ∧
          (session.task.files fd).inode = 2 ^ 32 - 1 ∧ (session.task.files fd).filePosition = 0
  | _ => True

/-! ## The flags never change -/

/-- The flags are those of `fileSystem_init`, and at most descriptor 2 has been handed out. -/
structure Initial (session : Session) : Prop where
  flags : ∀ fd : Fin 8, (session.task.files fd).flags = if fd.val < 2 then .open else .close
  held : ∀ fd, session.held fd = true → fd = 2

theorem initial_start (task : Task) : Initial (Session.start task) := ⟨fun _ => rfl, nofun⟩

section

variable {image : Image} {session : Session}

theorem Initial.firstClosed (initial : Initial session) : LinuxLikeOS.firstClosed session.task.files = some 2 := by
  refine ProcessTable.firstClosed_eq_some.mpr ⟨initial.flags 2, fun lower below => ?_⟩
  rw [initial.flags]
  exact if_pos below

/-- A successful open would have to be of descriptor 2. -/
theorem Initial.nobody_holds (initial : Initial session) (free : session.held 2 = false) (fd : Fin 8) :
    session.held fd = false := by
  by_contra held
  have two := initial.held fd (Bool.not_eq_false _ ▸ held)
  rw [two] at held
  exact held free

/-! ## What a call does -/

theorem openSlot_found (initial : Initial session) {fname : CString} {residue : Residue} {dentry : Dentry}
    (found : image.readDentryByName fname residue.dentry = .found dentry) :
    session.task.openSlot image fname residue = some (some (dentry, 2)) := by
  have free : session.task.freeFd residue = 2 := by
    unfold Task.freeFd
    rw [initial.firstClosed]
    rfl
  simp only [Task.openSlot, found, free]
  rfl

/-- The descriptor a driver has set up for an entry. -/
def opened (files : Table) (inode : Nat) : FileDescriptor := { files 2 with inode := inode, filePosition := 0 }

theorem perform_fileOpen (initial : Initial session) {fname : CString} {residue : Residue} {dentry : Dentry}
    (found : image.readDentryByName fname residue.dentry = .found dentry) :
    perform image session.task (.fileOpen (some fname) residue) = some (.plain 2,
      session.task.setFile 2
        (opened session.task.files (if dentry.filetype = 2 then dentry.inodeNum else 0))) := by
  simp only [perform, Task.fileOpen, openSlot_found initial found]
  rfl

theorem perform_dirOpen (initial : Initial session) {fname : CString} {residue : Residue} {dentry : Dentry}
    (found : image.readDentryByName fname residue.dentry = .found dentry) :
    perform image session.task (.dirOpen (some fname) residue) = some (.plain (if dentry.filetype = 1 then 2 else -1),
      session.task.setFile 2
        (opened session.task.files (if dentry.filetype = 1 then 0 else 2 ^ 32 - 1))) := by
  simp only [perform, Task.dirOpen, openSlot_found initial found, Option.map_some]
  by_cases directory : dentry.filetype = 1
  · rw [if_pos directory, if_pos directory, if_neg (by decide)]
    rfl
  · rw [if_neg directory, if_neg directory, if_pos rfl]
    rfl

/-- An open that fails before it writes anything. -/
theorem proper_failed (request : Request) : Proper session request (-1) session.task :=
  ⟨fun _ failed => absurd rfl failed, fun _ _ => ⟨rfl, rfl⟩, fun _ _ _ => ⟨rfl, rfl⟩⟩

/-- `close` writes its own descriptor, and only a flag that is `CLOSE` already. -/
theorem close_files (initial : Initial session) (fd : Int32) : (close fd session.task).2 = session.task := by
  unfold close
  cases place : descriptor? fd with
  | none => rfl
  | some index =>
      show (session.task.fileClose index).2 = session.task
      unfold Task.fileClose
      by_cases closable : index.val > 1
      · rw [if_pos closable]
        have same : ({ session.task.files index with flags := .close } : FileDescriptor) =
            session.task.files index := by
          have flag := initial.flags index
          rw [if_neg (by omega)] at flag
          rw [← flag]
        show session.task.setFile index _ = session.task
        rw [same]
        exact congrArg (fun files => { session.task with files := files }) (update_eq_self index _)
      · rw [if_neg closable]

/-- A descriptor that a call has set up is the only one to change. -/
theorem files_setFile (task : Task) {index fd : Fin 8} (descriptor : FileDescriptor) (apart : some index ≠ some fd) :
    (task.setFile index descriptor).files fd = task.files fd :=
  update_of_ne (fun same => apart (congrArg some same.symm)) _ _

theorem flags_setFile (task : Task) (index fd : Fin 8) {descriptor : FileDescriptor}
    (same : descriptor.flags = (task.files index).flags) :
    ((task.setFile index descriptor).files fd).flags = (task.files fd).flags := by
  by_cases own : fd = index
  · subst own
    simpa [Task.setFile] using same
  · rw [files_setFile _ _ fun equal => own (Option.some.inj equal).symm]

/-- `dir_read` moves the position of its descriptor, whatever it finds. -/
theorem dirRead_files {index : Fin 8} {buf : Memory} {nbytes : Int} {residue : Dentry} {result : Result}
    {after : Task} (performed : session.task.dirRead image index buf nbytes residue = some (result, after)) :
    after = session.task.setFile index { session.task.files index with
      filePosition := ((session.task.files index).filePosition + 1) % 2 ^ 32 } := by
  simp only [Task.dirRead] at performed
  cases lookup : image.readDentryByIndex (session.task.files index).filePosition residue with
  | failed =>
      simp only [lookup] at performed
      exact (Prod.mk.inj (Option.some.inj performed)).2.symm
  | overrun => simp [lookup] at performed
  | found dentry =>
      simp only [lookup] at performed
      obtain ⟨length, -, done⟩ := Option.map_eq_some_iff.mp performed
      exact (Prod.mk.inj done).2.symm

/-- A name that is not found leaves everything as it is. -/
theorem missing_unchanged {fname : CString} {residue : Residue} {request : Request}
    (opening : request = .fileOpen (some fname) residue ∨ request = .dirOpen (some fname) residue)
    (missing : ∀ dentry, image.readDentryByName fname residue.dentry ≠ .found dentry)
    {result : Result} {after : Task} (performed : perform image session.task request = some (result, after)) :
    result = .plain (-1) ∧ after = session.task := by
  cases lookup : image.readDentryByName fname residue.dentry with
  | failed =>
      rcases opening with rfl | rfl <;>
        simp only [perform, Task.fileOpen, Task.dirOpen, Task.openSlot, lookup, Option.map_some,
          Option.some.injEq, Prod.mk.injEq] at performed <;>
        exact ⟨performed.1.symm, performed.2.symm⟩
  | overrun =>
      rcases opening with rfl | rfl <;>
        simp [perform, Task.fileOpen, Task.dirOpen, Task.openSlot, lookup] at performed
  | found dentry => exact absurd lookup (missing dentry)

/-- Both opens fail and leave everything as it was, or write descriptor 2. -/
theorem open_cases (initial : Initial session) {filename : Option CString} {residue : Residue} {request : Request}
    (opening : request = .fileOpen filename residue ∨ request = .dirOpen filename residue)
    {result : Result} {after : Task} (performed : perform image session.task request = some (result, after)) :
    (after = session.task ∧ result.ret = -1) ∨
    ∃ descriptor, after = session.task.setFile 2 descriptor ∧
      descriptor.flags = (session.task.files 2).flags ∧ (result.ret = 2 ∨ result.ret = -1) := by
  cases filename with
  | none =>
      have failed : perform image session.task request = some (.plain (-1), session.task) := by
        rcases opening with rfl | rfl <;> rfl
      obtain ⟨rfl, rfl⟩ := Prod.mk.inj (Option.some.inj (failed.symm.trans performed))
      exact Or.inl ⟨rfl, rfl⟩
  | some fname =>
      by_cases present : ∃ dentry, image.readDentryByName fname residue.dentry = .found dentry
      · obtain ⟨dentry, found⟩ := present
        rcases opening with rfl | rfl
        · rw [perform_fileOpen initial found] at performed
          obtain ⟨rfl, rfl⟩ := Prod.mk.inj (Option.some.inj performed)
          exact Or.inr ⟨_, rfl, rfl, Or.inl rfl⟩
        · rw [perform_dirOpen initial found] at performed
          obtain ⟨rfl, rfl⟩ := Prod.mk.inj (Option.some.inj performed)
          exact Or.inr ⟨_, rfl, rfl, ite_eq_or_eq _ _ _⟩
      · obtain ⟨rfl, rfl⟩ := missing_unchanged opening (not_exists.mp present) performed
        exact Or.inl ⟨rfl, rfl⟩

/-- What a call leaves behind: everything as it was, or one descriptor written, with its flag as it
was. An open writes descriptor 2, the other calls the one they are about. -/
theorem perform_cases (initial : Initial session) {request : Request} {result : Result} {after : Task}
    (performed : perform image session.task request = some (result, after)) :
    (after = session.task ∧ (request.opens = true → result.ret = -1)) ∨
    ∃ index descriptor, after = session.task.setFile index descriptor ∧
      descriptor.flags = (session.task.files index).flags ∧
      (request.opens = true → index = 2 ∧ (result.ret = 2 ∨ result.ret = -1)) ∧
      (request.opens = false → subject result.ret request = some index) := by
  cases request with
  | fileOpen filename residue =>
      rcases open_cases initial (Or.inl rfl) performed with ⟨same, failed⟩ | ⟨descriptor, changed, flag, returned⟩
      · exact Or.inl ⟨same, fun _ => failed⟩
      · exact Or.inr ⟨2, descriptor, changed, flag, fun _ => ⟨rfl, returned⟩, nofun⟩
  | dirOpen filename residue =>
      rcases open_cases initial (Or.inr rfl) performed with ⟨same, failed⟩ | ⟨descriptor, changed, flag, returned⟩
      · exact Or.inl ⟨same, fun _ => failed⟩
      · exact Or.inr ⟨2, descriptor, changed, flag, fun _ => ⟨rfl, returned⟩, nofun⟩
  | fileRead fd nbytes =>
      simp only [perform] at performed
      cases place : descriptor? fd with
      | none =>
          simp only [place] at performed
          obtain ⟨-, rfl⟩ := Prod.mk.inj (Option.some.inj performed)
          exact Or.inl ⟨rfl, nofun⟩
      | some index =>
          simp only [place] at performed
          obtain ⟨-, rfl⟩ := Prod.mk.inj (Option.some.inj performed)
          exact Or.inr ⟨index, _, rfl, rfl, nofun, fun _ => place⟩
  | dirRead fd buf nbytes residue =>
      simp only [perform] at performed
      cases place : descriptor? fd with
      | none =>
          simp only [place] at performed
          obtain ⟨-, rfl⟩ := Prod.mk.inj (Option.some.inj performed)
          exact Or.inl ⟨rfl, nofun⟩
      | some index =>
          simp only [place] at performed
          exact Or.inr ⟨index, _, dirRead_files performed, rfl, nofun, fun _ => place⟩
  | fileClose fd | dirClose fd =>
      obtain ⟨-, rfl⟩ := Prod.mk.inj (Option.some.inj performed)
      exact Or.inl ⟨close_files initial fd, nofun⟩

/-! ## When a call does as it is to do -/

theorem does_iff {request : Request} {result : Result} {after : Task}
    (performed : perform image session.task request = some (result, after)) :
    Does image session request ↔ Proper session request result.ret after := by
  refine ⟨fun does => does result after performed, fun proper other otherAfter same => ?_⟩
  obtain ⟨rfl, rfl⟩ := Prod.mk.inj (Option.some.inj (same.symm.trans performed))
  exact proper

/-- An open that returns 2 is proper exactly when 2 is not held. -/
theorem proper_two (initial : Initial session) {request : Request} (opens : request.opens = true)
    (at_two : subject 2 request = some 2) (descriptor : FileDescriptor) :
    Proper session request 2 (session.task.setFile 2 descriptor) ↔ ∀ fd, session.held fd = false := by
  constructor
  · intro proper
    obtain ⟨fd, returned, -, free⟩ := proper.distinct opens (by decide)
    have two : fd = 2 := Fin.ext (by simp only [Fin.val_two]; omega)
    exact initial.nobody_holds (two ▸ free)
  · intro free
    refine ⟨fun _ _ => ⟨2, rfl, le_rfl, free 2⟩, fun _ none_closed => ?_, fun fd _ apart => ?_⟩
    · rw [initial.firstClosed] at none_closed
      cases none_closed
    · rw [at_two] at apart
      rw [files_setFile _ _ apart]
      exact ⟨rfl, rfl⟩

/-- A `dir_open` of something else than a directory resets the descriptor before it fails. -/
theorem proper_reset (initial : Initial session) {request : Request} (nothing : subject (-1) request = none) :
    Proper session request (-1) (session.task.setFile 2 (opened session.task.files (2 ^ 32 - 1))) ↔
      ∀ fd, session.held fd = true →
        (session.task.files fd).inode = 2 ^ 32 - 1 ∧ (session.task.files fd).filePosition = 0 := by
  constructor
  · intro proper fd held
    obtain ⟨inode, position⟩ := proper.others fd (Or.inl held) (by rw [nothing]; nofun)
    obtain rfl := initial.held fd held
    exact ⟨inode.symm, position.symm⟩
  · intro standing
    refine ⟨fun _ failed => absurd rfl failed, fun _ none_closed => ?_, fun fd used _ => ?_⟩
    · rw [initial.firstClosed] at none_closed
      cases none_closed
    · by_cases two : fd = 2
      · subst two
        have held : session.held 2 = true := used.resolve_right (by rw [initial.flags]; decide)
        exact ⟨(standing 2 held).1.symm, (standing 2 held).2.symm⟩
      · rw [files_setFile _ _ (fun same => two (Option.some.inj same).symm)]
        exact ⟨rfl, rfl⟩

theorem missing_iff {fname : CString} {residue : Residue} {request : Request}
    (opening : request = .fileOpen (some fname) residue ∨ request = .dirOpen (some fname) residue)
    (missing : ∀ dentry, image.readDentryByName fname residue.dentry ≠ .found dentry) :
    Does image session request ↔ Careful image session request := by
  refine iff_of_true (fun result after performed => ?_) ?_
  · obtain ⟨rfl, rfl⟩ := missing_unchanged opening missing performed
    exact proper_failed request
  · rcases opening with rfl | rfl <;>
    · intro name same dentry found
      obtain rfl := Option.some.inj same
      exact absurd found (missing dentry)

theorem does_null {request : Request} (failed : perform image session.task request = some (.plain (-1), session.task)) :
    Does image session request :=
  (does_iff failed).mpr (proper_failed request)

theorem fileOpen_iff (initial : Initial session) (filename : Option CString) (residue : Residue) :
    Does image session (.fileOpen filename residue) ↔ Careful image session (.fileOpen filename residue) := by
  cases filename with
  | none => exact iff_of_true (does_null rfl) nofun
  | some fname =>
      by_cases present : ∃ dentry, image.readDentryByName fname residue.dentry = .found dentry
      · obtain ⟨dentry, found⟩ := present
        rw [does_iff (perform_fileOpen initial found), Result.plain, proper_two initial rfl rfl]
        constructor
        · exact fun free _ _ _ _ => free
        · exact fun careful => careful fname rfl dentry found
      · exact missing_iff (Or.inl rfl) (not_exists.mp present)

theorem dirOpen_iff (initial : Initial session) (filename : Option CString) (residue : Residue) :
    Does image session (.dirOpen filename residue) ↔ Careful image session (.dirOpen filename residue) := by
  cases filename with
  | none => exact iff_of_true (does_null rfl) nofun
  | some fname =>
      by_cases present : ∃ dentry, image.readDentryByName fname residue.dentry = .found dentry
      · obtain ⟨dentry, found⟩ := present
        have careful_iff : Careful image session (.dirOpen (some fname) residue) ↔
            ∀ fd, session.held fd = true → dentry.filetype ≠ 1 ∧
              (session.task.files fd).inode = 2 ^ 32 - 1 ∧ (session.task.files fd).filePosition = 0 := by
          refine ⟨fun careful => careful fname rfl dentry found, fun careful name same other again => ?_⟩
          obtain rfl := Option.some.inj same
          obtain rfl := Lookup.found.inj (found.symm.trans again)
          exact careful
        rw [does_iff (perform_dirOpen initial found), Result.plain, careful_iff]
        by_cases directory : dentry.filetype = 1
        · simp only [if_pos directory]
          rw [proper_two initial rfl rfl]
          refine forall_congr' fun fd => ⟨fun free held => ?_, fun clash => ?_⟩
          · exact absurd (held.symm.trans free) (by decide)
          · exact Bool.eq_false_iff.mpr fun held => (clash held).1 directory
        · simp only [if_neg directory]
          rw [proper_reset initial rfl]
          exact forall₂_congr fun fd held => ⟨fun standing => ⟨directory, standing⟩, And.right⟩
      · exact missing_iff (Or.inr rfl) (not_exists.mp present)

/-- Reads and closes change at most the descriptor they are about. -/
theorem does_of_plain (initial : Initial session) {request : Request} (plain : request.opens = false) :
    Does image session request := by
  intro result after performed
  have never : request.opens ≠ true := by
    rw [plain]
    exact Bool.false_ne_true
  refine ⟨fun opens => absurd opens never, fun opens => absurd opens never, fun fd _ apart => ?_⟩
  rcases perform_cases initial performed with ⟨rfl, -⟩ | ⟨index, descriptor, rfl, -, -, about⟩
  · exact ⟨rfl, rfl⟩
  · rw [files_setFile _ _ (about plain ▸ apart)]
    exact ⟨rfl, rfl⟩

theorem does_iff_careful (initial : Initial session) (request : Request) :
    Does image session request ↔ Careful image session request := by
  cases request with
  | fileOpen filename residue => exact fileOpen_iff initial filename residue
  | dirOpen filename residue => exact dirOpen_iff initial filename residue
  | fileRead fd nbytes => exact iff_of_true (does_of_plain initial rfl) trivial
  | dirRead fd buf nbytes residue => exact iff_of_true (does_of_plain initial rfl) trivial
  | fileClose fd => exact iff_of_true (does_of_plain initial rfl) trivial
  | dirClose fd => exact iff_of_true (does_of_plain initial rfl) trivial

/-! ## Runs -/

/-- The descriptor that an open is about is the one it returns. -/
theorem subject_open {request : Request} {ret : Int} {index : Fin 8} (opens : request.opens = true)
    (about : subject ret request = some index) : ret = index.val := by
  cases request with
  | fileOpen filename residue | dirOpen filename residue =>
      simp only [subject] at about
      split at about
      · obtain rfl := Option.some.inj about
        simp only
        omega
      · cases about
  | fileRead fd nbytes | dirRead fd buf nbytes residue | fileClose fd | dirClose fd => cases opens

theorem update_cases {held : Fin 8 → Bool} {index fd : Fin 8} {value : Bool}
    (updated : update held index value fd = true) : held fd = true ∨ value = true ∧ index = fd := by
  by_cases same : fd = index
  · subst same
    exact Or.inr ⟨by simpa using updated, rfl⟩
  · rw [update_of_ne same] at updated
    exact Or.inl updated

theorem heldAfter_held {held : Fin 8 → Bool} {request : Request} {ret : Int} {fd : Fin 8}
    (after : heldAfter held request ret fd = true) :
    held fd = true ∨ request.opens = true ∧ ret = fd.val := by
  cases about : subject ret request with
  | none => cases request <;> exact Or.inl (by simpa only [heldAfter, about] using after)
  | some index =>
      cases request with
      | fileOpen filename residue | dirOpen filename residue =>
          simp only [heldAfter, about] at after
          rcases update_cases after with before | ⟨-, rfl⟩
          · exact Or.inl before
          · exact Or.inr ⟨rfl, subject_open rfl about⟩
      | fileRead called nbytes | dirRead called buf nbytes residue => exact Or.inl after
      | fileClose called | dirClose called =>
          simp only [heldAfter, about] at after
          split at after
          · exact Or.inl ((update_cases after).resolve_right (fun closed => nomatch closed.1))
          · exact Or.inl after

theorem Initial.step (initial : Initial session) {request : Request} {next : Session}
    (taken : session.step image request = some next) : Initial next := by
  obtain ⟨⟨result, after⟩, performed, rfl⟩ := Option.map_eq_some_iff.mp taken
  have effect := perform_cases initial performed
  refine ⟨fun fd => ?_, fun fd held => ?_⟩
  · rcases effect with ⟨rfl, -⟩ | ⟨index, descriptor, rfl, flag, -, -⟩
    · exact initial.flags fd
    · exact (flags_setFile _ _ _ flag).trans (initial.flags fd)
  · rcases heldAfter_held held with before | ⟨opens, returns⟩
    · exact initial.held fd before
    · rcases effect with ⟨-, failed⟩ | ⟨index, descriptor, -, -, returned, -⟩
      · have := failed opens
        omega
      · rcases (returned opens).2 with two | failed
        · exact Fin.ext (by simp only [Fin.val_two]; omega)
        · omega

end

/-- Of every sequence of calls after `fileSystem_init`, whatever the image and the table before:
each call does as it is to do exactly when each open of a name in the directory is made while no
descriptor is held. -/
theorem opens_are_distinct_iff (image : Image) (task : Task) (requests : List Request) :
    EachStep (Session.step image) (Does image) (Session.start task) requests ↔
      EachStep (Session.step image) (Careful image) (Session.start task) requests :=
  eachStep_iff (Session.step image) Initial
    (fun _ request initial => does_iff_careful initial request)
    (fun _ _ _ initial _ taken => initial.step taken) (initial_start task) requests

/-- `shell` and then `frame0` opened on an image with both: the second open returns 2, as the first
one has. -/
theorem second_open_returns_the_same :
    ¬ EachStep (Session.step Image.sample) (Does Image.sample) (Session.start Task.started)
      [.fileOpen (some Image.shell) .zeros, .fileOpen (some Image.frame0) .zeros] := by
  intro does
  have seen : (Transition.run (Session.step Image.sample) (Session.start Task.started)
      [.fileOpen (some Image.shell) .zeros]).bind (fun session =>
        (perform Image.sample session.task (.fileOpen (some Image.frame0) .zeros)).map fun answer =>
          (session.held 2, answer.1.ret)) = some (true, 2) := by
    decide +kernel
  obtain ⟨session, ran, answered⟩ := Option.bind_eq_some_iff.mp seen
  obtain ⟨⟨result, after⟩, performed, values⟩ := Option.map_eq_some_iff.mp answered
  obtain ⟨held, returned⟩ := Prod.mk.inj values
  have split : EachStep (Session.step Image.sample) (Does Image.sample) (Session.start Task.started)
      ([.fileOpen (some Image.shell) .zeros] ++ [.fileOpen (some Image.frame0) .zeros]) := does
  have last := Transition.eachStep_last _ split ran result after performed
  obtain ⟨fd, same, -, free⟩ := last.distinct rfl (by rw [returned]; decide)
  have two : (2 : Int) = fd.val := returned.symm.trans same
  obtain rfl : fd = 2 := Fin.ext (by simp only [Fin.val_two]; omega)
  cases held.symm.trans free

end LinuxLikeOS.DriverCalls

import LinuxLikeOS.ProcessTable

/-!
# The reads of one descriptor

What the reads on one descriptor deliver in the course of a run, whatever the process does
with its other descriptors in between. The reads on an open descriptor see that descriptor
alone: the log of a run is the log of the bare sequence of sizes.
-/

namespace LinuxLikeOS.ReadLog

open Function LinuxLikeOS.Task LinuxLikeOS.ProcessTable

/-- The bytes a call counts as read, as they stand in the buffer afterwards. -/
def data (result : Result) (buf : Memory) : List UInt8 :=
  (List.range result.ret.toNat).map (result.writes.apply buf)

/-- What was asked, and what was returned with which bytes; `none` for a read that faulted. -/
structure Delivery where
  asked : Int
  outcome : Option (Int × List UInt8)

/-- The log entry of a call, if it reads the descriptor. -/
def entry (fd : Fin 8) (answer : Option (Result × Task)) : Call → Option Delivery
  | .read other (some buf) nbytes _ _ =>
      if descriptor? other = some fd then
        some ⟨nbytes.toInt, answer.map fun (result, _) => (result.ret, data result buf)⟩
      else none
  | _ => none

/-- The reads on a descriptor in the order of a run; a call that faults ends the run. -/
def readLog (image : Image) (fd : Fin 8) : Task → List Call → List Delivery
  | _, [] => []
  | task, request :: rest =>
      let answer := task.call image request
      let later := match answer with
        | none => []
        | some (_, after) => readLog image fd after rest
      (entry fd answer request).toList ++ later

/-- The reads of a run on one descriptor, as the results about them allow for: into a buffer,
of an admitted size, and the descriptor is not closed. -/
def ReadsOnly (fd : Fin 8) (admitted : Int → Prop) : Call → Prop
  | .read other buf nbytes _ _ => descriptor? other = some fd → buf ≠ none ∧ admitted nbytes.toInt
  | .close other => descriptor? other ≠ some fd
  | _ => True

/-- Reads of the given sizes, one after the other, from a descriptor. -/
def unroll (image : Image) (outcome : FileDescriptor → Int → Option (Int × List UInt8)) :
    FileDescriptor → List Int → List Delivery
  | _, [] => []
  | descriptor, size :: sizes =>
      ⟨size, outcome descriptor size⟩ ::
        match advance image descriptor size with
        | none => []
        | some moved => unroll image outcome moved sizes

/-- `outcome` is what reads of admitted sizes on descriptors of this device deliver. -/
def Delivers (image : Image) (device : Fops) (admitted : Int → Prop)
    (outcome : FileDescriptor → Int → Option (Int × List UInt8)) : Prop :=
  ∀ (task : Task) (other : Int32) (index : Fin 8) (buf : Memory) (nbytes : Int32) (wake : Console)
    (residue : Residue), readTarget task.fds other (some buf) = some index →
      (task.fds index).fops = device → admitted nbytes.toInt →
        (task.read image other (some buf) nbytes wake residue).map
          (fun answer => (answer.1.ret, data answer.1 buf)) = outcome (task.fds index) nbytes.toInt

variable {image : Image} {device : Fops} {admitted : Int → Prop}
  {outcome : FileDescriptor → Int → Option (Int × List UInt8)} {fd : Fin 8}

/-- A call that is not a read on the descriptor leaves no entry. -/
theorem entry_other {request : Call} (answer : Option (Result × Task))
    (other : ∀ called buf nbytes wake residue, request = .read called (some buf) nbytes wake residue →
      descriptor? called ≠ some fd) : entry fd answer request = none := by
  unfold entry
  split
  · rename_i called buf nbytes wake residue
    exact if_neg (other called buf nbytes wake residue rfl)
  · rfl

/-- Steps that make no entry leave the descriptor as it is. -/
theorem tableStep_unread {table after : Table} {request : Call} (only : ReadsOnly fd admitted request)
    (opened : (table fd).flags = .open) (taken : tableStep image table request = some after)
    (unread : ∀ called buf nbytes wake residue, request = .read called (some buf) nbytes wake residue →
      descriptor? called ≠ some fd) : after fd = table fd := by
  refine tableStep_other taken opened ?_
  cases request with
  | «open» fname residue => exact (Option.some_ne_none fd).symm
  | write called buf nbytes => exact (Option.some_ne_none fd).symm
  | close called => exact only
  | read called buf nbytes wake residue =>
      intro named
      obtain ⟨memory, rfl⟩ := Option.ne_none_iff_exists'.mp (only named).1
      exact unread called memory nbytes wake residue rfl named

/-- A read on the descriptor makes the entry of its size, and moves the descriptor on. -/
theorem readLog_read (delivers : Delivers image device admitted outcome) {task : Task} {called : Int32}
    {buf : Memory} {nbytes : Int32} (wake : Console) (residue : Residue) (rest : List Call)
    (passed : readTarget task.fds called (some buf) = some fd) (known : (task.fds fd).fops = device)
    (size : admitted nbytes.toInt) :
    (∃ after moved, task.step image (.read called (some buf) nbytes wake residue) = some after ∧
      advance image (task.fds fd) nbytes.toInt = some moved ∧ after.fds fd = moved ∧
      readLog image fd task (.read called (some buf) nbytes wake residue :: rest) =
        ⟨nbytes.toInt, outcome (task.fds fd) nbytes.toInt⟩ :: readLog image fd after rest) ∨
    (advance image (task.fds fd) nbytes.toInt = none ∧
      readLog image fd task (.read called (some buf) nbytes wake residue :: rest) =
        [⟨nbytes.toInt, outcome (task.fds fd) nbytes.toInt⟩]) := by
  have named := (readTarget_eq_some.mp passed).1
  have delivered := delivers task called fd buf nbytes wake residue passed known size
  have followed := fds_read image called (some buf) nbytes wake residue task
  simp only [tableStep, passed] at followed
  simp only [readLog, entry, named, if_true, Option.toList_some, Task.step, Task.call]
  cases answer : task.read image called (some buf) nbytes wake residue with
  | none =>
      rw [answer] at followed delivered
      refine Or.inr ⟨?_, ?_⟩
      · cases advanced : advance image (task.fds fd) nbytes.toInt with
        | none => rfl
        | some moved =>
            rw [advanced] at followed
            cases followed
      · rw [← delivered]
        rfl
  | some pair =>
      obtain ⟨result, after⟩ := pair
      rw [answer] at followed delivered
      obtain ⟨moved, advanced, same⟩ := Option.map_eq_some_iff.mp followed.symm
      refine Or.inl ⟨after, moved, rfl, advanced, ?_, ?_⟩
      · have table : update task.fds fd moved = after.fds := same
        rw [← table, update_self]
      · rw [← delivered]
        rfl

/-- The log of a run is the log of the sizes read in it. -/
theorem readLog_eq_unroll (delivers : Delivers image device admitted outcome) (notStdout : fd ≠ 1)
    {calls : List Call} (only : ∀ request ∈ calls, ReadsOnly fd admitted request) {task : Task}
    (opened : (task.fds fd).flags = .open) (known : (task.fds fd).fops = device) :
    ∃ sizes, (∀ size ∈ sizes, admitted size ∧ size < 2 ^ 31) ∧
      readLog image fd task calls = unroll image outcome (task.fds fd) sizes := by
  induction calls generalizing task with
  | nil => exact ⟨[], by simp, rfl⟩
  | cons request rest ih =>
      have later := fun other inside => only other (List.mem_cons_of_mem request inside)
      have here := only request List.mem_cons_self
      by_cases reads : ∃ called buf nbytes wake residue,
          request = .read called (some buf) nbytes wake residue ∧ descriptor? called = some fd
      · obtain ⟨called, buf, nbytes, wake, residue, rfl, named⟩ := reads
        have passed := readTarget_eq_some.mpr ⟨named, Option.some_ne_none buf, notStdout, opened⟩
        have size := (here named).2
        have bounded : admitted nbytes.toInt ∧ nbytes.toInt < 2 ^ 31 := ⟨size, nbytes.toInt_lt⟩
        rcases readLog_read delivers wake residue rest passed known size with
          ⟨after, moved, _, advanced, same, log⟩ | ⟨stuck, log⟩
        · obtain ⟨fops, _, flags⟩ := advance_kept advanced
          have openedAfter : (after.fds fd).flags = .open := by rw [same, flags, opened]
          have knownAfter : (after.fds fd).fops = device := by rw [same, fops, known]
          obtain ⟨sizes, allowed, remaining⟩ := ih later openedAfter knownAfter
          refine ⟨nbytes.toInt :: sizes, List.forall_mem_cons.mpr ⟨bounded, allowed⟩, ?_⟩
          rw [log, remaining, unroll, advanced, same]
        · refine ⟨[nbytes.toInt], List.forall_mem_cons.mpr ⟨bounded, by simp⟩, ?_⟩
          rw [log, unroll, stuck]
      · have unread : ∀ called buf nbytes wake residue,
          request = .read called (some buf) nbytes wake residue →
            descriptor? called ≠ some fd := by
          intro called buf nbytes wake residue same named
          exact reads ⟨called, buf, nbytes, wake, residue, same, named⟩
        have followed := fds_call image task request
        simp only [readLog, entry_other _ unread, Option.toList_none, List.nil_append]
        cases answer : task.call image request with
        | none => exact ⟨[], by simp, rfl⟩
        | some pair =>
            obtain ⟨result, after⟩ := pair
            rw [answer] at followed
            have same : after.fds fd = task.fds fd := tableStep_unread here opened followed.symm unread
            have openedAfter : (after.fds fd).flags = .open := by rw [same, opened]
            have knownAfter : (after.fds fd).fops = device := by rw [same, known]
            obtain ⟨sizes, allowed, remaining⟩ := ih later openedAfter knownAfter
            exact ⟨sizes, allowed, same ▸ remaining⟩

end LinuxLikeOS.ReadLog
